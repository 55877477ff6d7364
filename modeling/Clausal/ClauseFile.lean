import Clausal.Text.Basic
import Clausal.Text.Lowercase

/-!
# Clause files

A clause file holds one clause on a line, in any case. Lines that begin with the comment mark and blank
lines do not count. Where a goal is wanted, it is the last clause.
-/

namespace Clausal

namespace ClauseFile

def comment : Char := '#'

/-- The content of a line, if it counts. -/
def content? (line : List Char) : Option String :=
  if line.head? = some comment then none
  else
    let text := Text.lower (Text.trim line)
    if text.isEmpty then none else some (String.ofList text)

/-- The lines that count, trimmed and in lower case. -/
def clean (lines : List (List Char)) : List String := lines.filterMap content?

def read (text : String) : List String := clean (Text.lines text)

/-- The lines before the last one, and the last one, which is the goal. -/
def splitGoal (lines : List String) : List String × Option String := (lines.dropLast, lines.getLast?)

end ClauseFile

end Clausal

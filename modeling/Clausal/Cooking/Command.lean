import Clausal.Text.Basic

/-!
# Commands

A command is a clause and a last character that says what to do with it.
-/

namespace Clausal

/-- What a command asks for. -/
inductive Action where
  | add
  | remove
  | query
deriving DecidableEq

/-- A command line taken apart: the clause, and the last character. -/
structure Command where
  clause : String
  mark : String
deriving DecidableEq

namespace Command

def parse (line : String) : Command :=
  let text := Text.trim line.toList
  ⟨String.ofList (Text.trim text.dropLast), String.ofList text.getLast?.toList⟩

/-- What the last character asks for. -/
def action? (c : Command) : Option Action :=
  if c.mark = "+" then some .add
  else if c.mark = "-" then some .remove
  else if c.mark = "?" then some .query
  else none

end Command

end Clausal

import Clausal.Clause.Basic
import Clausal.Text.Basic
import Clausal.Text.Quoted

/-!
# Reading clauses

A literal is an atom, or the negation mark and an atom. A clause is literals with the separator between
them. Blanks around atoms and literals are dropped.
-/

namespace Clausal

/-- Why a text is no clause. -/
inductive ParseError where
  /-- There is no literal in the text. -/
  | noLiterals
  /-- The text begins or ends with a separator. -/
  | danglingSeparator (text : String)
  /-- A literal has no atom. -/
  | emptyAtom (text : String)
deriving DecidableEq

def ParseError.message : ParseError → String
  | noLiterals => "clause text has no literals"
  | danglingSeparator text => "dangling separator in clause " ++ Text.quoted text
  | emptyAtom text => "empty atom in literal " ++ Text.quoted text

namespace Literal

/-- The literal that a trimmed text spells. -/
def ofTrimmed (text : List Char) : Except ParseError Literal :=
  let (atom, negated) := match text with
    | c :: rest => if c = negation then (Text.trim rest, true) else (text, false)
    | [] => ([], false)
  if atom.isEmpty then .error (.emptyAtom (String.ofList text))
  else .ok ⟨String.ofList atom, negated⟩

/-- Reads a literal. -/
def parse (text : List Char) : Except ParseError Literal := ofTrimmed (Text.trim text)

end Literal

namespace Clause

/-- The parts of a text between separators, which are found from the left and do not overlap. -/
def split : List Char → List (List Char)
  | [] => [[]]
  | ' ' :: 'v' :: ' ' :: rest => [] :: split rest
  | c :: rest =>
    match split rest with
    | [] => [[c]]
    | part :: parts => (c :: part) :: parts

/-- Does a trimmed text begin or end with a separator? -/
def isDangling (text : List Char) : Bool :=
  ['v', ' '].isPrefixOf text || [' ', 'v'].isSuffixOf text

/-- The literals that a text spells. -/
def parseLiterals (text : List Char) : Except ParseError LiteralSet :=
  let body := Text.trim text
  if body.isEmpty then .error .noLiterals
  else if isDangling body then .error (.danglingSeparator (String.ofList text))
  else LiteralSet.ofList <$> (split text).mapM Literal.parse

/-- Reads a clause and gives it a number. -/
def parse (id : Int) (text : String) : Except ParseError Clause :=
  (fun literals => { literals, id }) <$> parseLiterals text.toList

end Clause

end Clausal

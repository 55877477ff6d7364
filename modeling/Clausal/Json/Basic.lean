/-!
# JSON values

The values that a JSON text describes. A number with a fraction or an exponent is kept apart from the
integers, and so are the three numbers that are not finite.
-/

namespace Clausal

/-- A JSON value. The fields of an object are in the order of the text. -/
inductive Json where
  | null
  | bool (value : Bool)
  | int (value : Int)
  /-- The mantissa times this power of ten. -/
  | decimal (mantissa scale : Int)
  /-- A number that is not finite, as it is written. -/
  | other (number : String)
  | str (value : String)
  | arr (elements : List Json)
  | obj (fields : List (String × Json))

/-- Why a text is not read as a JSON value. -/
inductive Json.Failure where
  /-- The text is not in the format. -/
  | malformed
  /-- An integer has too many digits. -/
  | longNumeral (digits : Nat)
  /-- Values are too deep in one another; the innermost is an array, or else an object. -/
  | tooDeep (array : Bool)
  /-- A string spells half a surrogate pair, which is no character. The text is in the format all the same. -/
  | halfCharacter
deriving DecidableEq

namespace Json

/-- The value of a field, the last one if there are several. -/
def field? (name : String) : Json → Option Json
  | obj fields => (fields.reverse.find? (·.1 = name)).map (·.2)
  | _ => none

def kind : Json → String
  | null => "NoneType"
  | bool _ => "bool"
  | int _ => "int"
  | decimal _ _ => "float"
  | other _ => "float"
  | str _ => "str"
  | arr _ => "list"
  | obj _ => "dict"

/-- The integer part of a decimal number, rounded down. -/
def whole (mantissa scale : Int) : Int :=
  if 0 ≤ scale then mantissa * Int.ofNat (Nat.pow 10 scale.toNat)
  else mantissa / Int.ofNat (Nat.pow 10 (-scale).toNat)

/-- The text that a value is taken for: what there is nothing in counts as an empty one. -/
def text? : Json → Option String
  | str value => some value
  | null | bool false | int 0 | decimal 0 _ | arr [] | obj [] => some ""
  | _ => none

end Json

end Clausal

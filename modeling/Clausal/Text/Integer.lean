import Clausal.Text.Basic

/-!
# Integers in text

Reading an integer: blanks around it, one sign, decimal digits of any script, and single underscores
between digits.
-/

namespace Clausal.Text

/-- The zero of each script's run of ten decimal digits. -/
def zeros : List Nat :=
  [0x30, 0x660, 0x6F0, 0x7C0, 0x966, 0x9E6, 0xA66, 0xAE6, 0xB66, 0xBE6, 0xC66, 0xCE6, 0xD66, 0xDE6,
   0xE50, 0xED0, 0xF20, 0x1040, 0x1090, 0x17E0, 0x1810, 0x1946, 0x19D0, 0x1A80, 0x1A90, 0x1B50,
   0x1BB0, 0x1C40, 0x1C50, 0xA620, 0xA8D0, 0xA900, 0xA9D0, 0xA9F0, 0xAA50, 0xABF0, 0xFF10, 0x104A0,
   0x10D30, 0x11066, 0x110F0, 0x11136, 0x111D0, 0x112F0, 0x11450, 0x114D0, 0x11650, 0x116C0,
   0x11730, 0x118E0, 0x11950, 0x11C50, 0x11D50, 0x11DA0, 0x16A60, 0x16AC0, 0x16B50, 0x1D7CE,
   0x1D7D8, 0x1D7E2, 0x1D7EC, 0x1D7F6, 0x1E140, 0x1E2F0, 0x1E950, 0x1FBF0]

def digitValue? (c : Char) : Option Nat :=
  (zeros.find? fun first => first ≤ c.toNat && c.toNat < first + 10).map (c.toNat - ·)

def isDigit (c : Char) : Bool := (digitValue? c).isSome

/-- The digits of a number, single underscores between them left out. -/
def digits? : List Char → Option (List Nat)
  | [] => none
  | [c] => (digitValue? c).map ([·])
  | c :: '_' :: rest => do
    let digit ← digitValue? c
    let others ← digits? rest
    return digit :: others
  | c :: rest => do
    let digit ← digitValue? c
    let others ← digits? rest
    return digit :: others

/-- No more digits than this are read or written. -/
def digitLimit : Nat := 4300

/-- Does the integer have more digits than can be written? -/
def isLong (n : Int) : Bool := digitLimit < (toString n.natAbs).length

/-- A number without sign. -/
def natural? (text : List Char) : Option Nat := do
  let digits ← digits? text
  guard (digits.length ≤ digitLimit)
  return digits.foldl (fun value digit => 10 * value + digit) 0

/-- The blanks that may stand around a number: all but the four information separators. -/
def isNumberBlank (c : Char) : Bool := isBlank c && !(0x1C ≤ c.toNat && c.toNat ≤ 0x1F)

def integer? (text : List Char) : Option Int :=
  match ((text.dropWhile isNumberBlank).reverse.dropWhile isNumberBlank).reverse with
  | '-' :: rest => (natural? rest).map fun n => -(n : Int)
  | '+' :: rest => (natural? rest).map fun n => (n : Int)
  | rest => (natural? rest).map fun n => (n : Int)

/-- Does the text have the form of a negative number, with or without a fraction? One line end may
follow it. -/
def looksNegative (text : List Char) : Bool :=
  let body := if text.getLast? == some '\n' then text.dropLast else text
  match body with
  | '-' :: rest =>
    match rest.dropWhile isDigit with
    | [] => !rest.isEmpty
    | '.' :: fraction => !fraction.isEmpty && fraction.all isDigit
    | _ => false
  | _ => false

end Clausal.Text

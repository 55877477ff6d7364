import Clausal.Json.Basic
import Clausal.Text.Integer

/-!
# Reading JSON

A reader for JSON texts that also knows the three numbers beyond the finite ones. A reader takes a part
of the text and answers with what it read and the rest.
-/

namespace Clausal

namespace Json

def isSpace (c : Char) : Bool := c == ' ' || c == '\t' || c == '\n' || c == '\r'

def skipSpace (text : List Char) : List Char := text.dropWhile isSpace

def hexValue? (c : Char) : Option Nat :=
  if '0' ≤ c ∧ c ≤ '9' then some (c.toNat - '0'.toNat)
  else if 'a' ≤ c ∧ c ≤ 'f' then some (c.toNat - 'a'.toNat + 10)
  else if 'A' ≤ c ∧ c ≤ 'F' then some (c.toNat - 'A'.toNat + 10)
  else none

/-- The number that four hexadecimal digits spell. -/
def unit? : List Char → Option (Nat × List Char)
  | a :: b :: c :: d :: rest => do
    let a ← hexValue? a
    let b ← hexValue? b
    let c ← hexValue? c
    let d ← hexValue? d
    return (((a * 16 + b) * 16 + c) * 16 + d, rest)
  | _ => none

/-- The character after a backslash that stands for itself or for a control. -/
def simpleEscape? : Char → Option Char
  | '"' => some '"'
  | '\\' => some '\\'
  | '/' => some '/'
  | 'b' => some '\x08'
  | 'f' => some '\x0c'
  | 'n' => some '\n'
  | 'r' => some '\r'
  | 't' => some '\t'
  | _ => none

/-- The second half of a surrogate pair, if it comes next. -/
def lowUnit? : List Char → Option (Nat × List Char)
  | '\\' :: 'u' :: text => do
    let (low, rest) ← unit? text
    guard (0xDC00 ≤ low ∧ low < 0xE000)
    return (low - 0xDC00, rest)
  | _ => none

/-- The character spelled by one escaped code unit, or by two that are a surrogate pair. -/
def escapedUnits (text : List Char) : Except Failure (Char × List Char) :=
  match unit? text with
  | none => .error .malformed
  | some (high, rest) =>
    if 0xD800 ≤ high ∧ high < 0xDC00 then
      match lowUnit? rest with
      | some (low, rest) => .ok (Char.ofNat (0x10000 + (high - 0xD800) * 0x400 + low), rest)
      | none => .error .halfCharacter
    else if 0xDC00 ≤ high ∧ high < 0xE000 then .error .halfCharacter
    else .ok (Char.ofNat high, rest)

/-- The rest of a string after its opening quote; `fuel` bounds the number of characters. -/
def stringBody : Nat → List Char → Except Failure (List Char × List Char)
  | 0, _ => .error .malformed
  | _ + 1, [] => .error .malformed
  | _ + 1, '"' :: rest => .ok ([], rest)
  | fuel + 1, '\\' :: 'u' :: rest => do
    let (c, rest) ← escapedUnits rest
    let (cs, rest) ← stringBody fuel rest
    return (c :: cs, rest)
  | fuel + 1, '\\' :: c :: rest =>
    match simpleEscape? c with
    | none => .error .malformed
    | some c => do
      let (cs, rest) ← stringBody fuel rest
      return (c :: cs, rest)
  | fuel + 1, c :: rest =>
    if 0x20 ≤ c.toNat ∧ c ≠ '\\' then do
      let (cs, rest) ← stringBody fuel rest
      return (c :: cs, rest)
    else .error .malformed

def isDigit (c : Char) : Bool := '0' ≤ c && c ≤ '9'

/-- The digits at the beginning of a text, and the rest. -/
def spanDigits (text : List Char) : List Char × List Char :=
  (text.takeWhile isDigit, text.dropWhile isDigit)

/-- The fraction at the beginning of a text, if there is one, and the rest. -/
def fraction (text : List Char) : List Char × List Char :=
  match text with
  | '.' :: rest =>
    let (digits, after) := spanDigits rest
    if digits.isEmpty then ([], text) else ('.' :: digits, after)
  | _ => ([], text)

/-- The exponent at the beginning of a text, if there is one, and the rest. -/
def exponent (text : List Char) : List Char × List Char :=
  match text with
  | e :: rest =>
    if e = 'e' ∨ e = 'E' then
      let (sign, body) := match rest with
        | '+' :: more => (['+'], more)
        | '-' :: more => (['-'], more)
        | _ => ([], rest)
      let (digits, after) := spanDigits body
      if digits.isEmpty then ([], text) else (e :: sign ++ digits, after)
    else ([], text)
  | [] => ([], text)

def digitsValue (digits : List Char) : Nat :=
  digits.foldl (fun value c => 10 * value + (c.toNat - '0'.toNat)) 0

/-- The integer that a sign and digits spell, if they are not too many. -/
def integer (negative : Bool) (digits : List Char) : Except Failure Json :=
  if Text.digitLimit < digits.length then .error (.longNumeral digits.length)
  else
    let value : Int := digitsValue digits
    .ok (.int (if negative then -value else value))

/-- The power of ten that an exponent spells. -/
def exponentValue : List Char → Int
  | _ :: '-' :: digits => -digitsValue digits
  | _ :: '+' :: digits => digitsValue digits
  | _ :: digits => digitsValue digits
  | [] => 0

/-- The number of a sign and digits, times a power of ten. Too large a number is infinite, and too small a
one is zero. -/
def scaled (negative : Bool) (digits : List Char) (scale : Int) : Json :=
  let digits := digits.dropWhile (· == '0')
  let magnitude := digits.length + scale
  if digits.isEmpty || magnitude < -323 then .decimal 0 0
  else if 309 < magnitude then .other (if negative then "-Infinity" else "Infinity")
  else
    let value : Int := digitsValue digits
    .decimal (if negative then -value else value) scale

/-- The number at the beginning of a text: no digit follows a leading zero. -/
def number (text : List Char) : Except Failure (Json × List Char) :=
  let (negative, body) := match text with
    | '-' :: rest => (true, rest)
    | _ => (false, text)
  let (digits, rest) := match body with
    | '0' :: rest => (['0'], rest)
    | _ => spanDigits body
  if digits.isEmpty then .error .malformed
  else
    let (fractional, rest) := fraction rest
    let (scale, rest) := exponent rest
    if fractional.isEmpty && scale.isEmpty then do
      return (← integer negative digits, rest)
    else
      let places := fractional.drop 1
      .ok (scaled negative (digits ++ places) (exponentValue scale - places.length), rest)

/-- The rest of a text that begins with a word. -/
def afterWord? (word : String) (text : List Char) : Option (List Char) :=
  if word.toList.isPrefixOf text then some (text.drop word.length) else none

/-- The words that are values. -/
def words : List (String × Json) :=
  [("null", .null), ("true", .bool true), ("false", .bool false), ("NaN", .other "NaN"),
    ("Infinity", .other "Infinity"), ("-Infinity", .other "-Infinity")]

/-- The word or number at the beginning of a text. -/
def scalar (text : List Char) : Except Failure (Json × List Char) :=
  match words.findSome? fun (word, value) => (afterWord? word text).map ((value, ·)) with
  | some result => .ok result
  | none => number text

def string (text : List Char) : Except Failure (String × List Char) := do
  let (cs, rest) ← stringBody (text.length + 1) text
  return (String.ofList cs, rest)

/-- This many arrays and objects may be in one another. -/
def depthLimit : Nat := 988

mutual

/-- The value at the beginning of a text, with at most `depth` arrays and objects in one another; `fuel`
bounds the number of values in it. -/
def value : Nat → Nat → List Char → Except Failure (Json × List Char)
  | 0, _, _ => .error .malformed
  | fuel + 1, depth, text =>
    match text with
    | '"' :: rest => do
      let (text, rest) ← string rest
      return (.str text, rest)
    | '[' :: rest =>
      match depth with
      | 0 => .error (.tooDeep true)
      | depth + 1 =>
        match skipSpace rest with
        | ']' :: rest => .ok (.arr [], rest)
        | rest => do
          let (values, rest) ← elements fuel depth rest
          return (.arr values, rest)
    | '\x7b' :: rest =>
      match depth with
      | 0 => .error (.tooDeep false)
      | depth + 1 =>
        match skipSpace rest with
        | '\x7d' :: rest => .ok (.obj [], rest)
        | rest => do
          let (named, rest) ← fields fuel depth rest
          return (.obj named, rest)
    | _ => scalar text

def elements : Nat → Nat → List Char → Except Failure (List Json × List Char)
  | 0, _, _ => .error .malformed
  | fuel + 1, depth, text => do
    let (first, rest) ← value fuel depth text
    match skipSpace rest with
    | ']' :: rest => return ([first], rest)
    | ',' :: rest => do
      let (others, rest) ← elements fuel depth (skipSpace rest)
      return (first :: others, rest)
    | _ => .error .malformed

def fields : Nat → Nat → List Char → Except Failure (List (String × Json) × List Char)
  | 0, _, _ => .error .malformed
  | fuel + 1, depth, text =>
    match text with
    | '"' :: rest => do
      let (name, rest) ← string rest
      match skipSpace rest with
      | ':' :: rest => do
        let (first, rest) ← value fuel depth (skipSpace rest)
        match skipSpace rest with
        | '\x7d' :: rest => return ([(name, first)], rest)
        | ',' :: rest => do
          let (others, rest) ← fields fuel depth (skipSpace rest)
          return ((name, first) :: others, rest)
        | _ => .error .malformed
      | _ => .error .malformed
    | _ => .error .malformed

end

def parse (text : String) : Except Failure Json := do
  let cs := text.toList
  let (result, rest) ← value (2 * cs.length + 2) depthLimit (skipSpace cs)
  if (skipSpace rest).isEmpty then return result else throw .malformed

end Json

end Clausal

import Clausal.Text.Casing

/-!
# Lowercase

The lowercase of a text. A capital sigma is lowered by its place in the word.
-/

namespace Clausal.Text

/-- The lowercase of a character apart from its neighbours: the dotted capital I keeps its dot as a
combining mark, every other character has one character as its lowercase. -/
def lowerChar (c : Char) : List Char :=
  if c.toNat = 0x130 then ['i', Char.ofNat 0x307]
  else match capitalRuns.find? (·.holds c.toNat) with
    | some run => [Char.ofNat (c.toNat + run.shift).toNat]
    | none => [c]

/-- Is the nearest character that is not passed over a cased one? -/
def meetsCased (text : List Char) : Bool :=
  match text.find? (!isCaseIgnorable ·) with
  | some c => isCased c
  | none => false

/-- The lowercase of a text that follows `before`, which is read backwards. A sigma is final if a cased
character comes before it and none after it. -/
def lowerAfter (before : List Char) : List Char → List Char
  | [] => []
  | c :: rest =>
    let lowered :=
      if c = 'Σ' then [if meetsCased before && !meetsCased rest then 'ς' else 'σ'] else lowerChar c
    lowered ++ lowerAfter (c :: before) rest

def lower (text : List Char) : List Char := lowerAfter [] text

end Clausal.Text

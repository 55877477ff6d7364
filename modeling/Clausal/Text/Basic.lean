/-!
# Texts

Blanks, and trimming them at both ends of a text; the lines of a text, in which a line may end in a carriage return, a
line feed, or both; and texts made of lines.
-/

namespace Clausal.Text

/-! ## Blanks -/

/-- The blanks: the separators of lines, paragraphs, records and fields, the space, and the spaces of
other widths. The zero-width characters are no blanks. -/
def isBlank (c : Char) : Bool :=
  let n := c.toNat
  (0x09 ≤ n && n ≤ 0x0D) || (0x1C ≤ n && n ≤ 0x20) || n == 0x85 || n == 0xA0 || n == 0x1680 ||
    (0x2000 ≤ n && n ≤ 0x200A) || n == 0x2028 || n == 0x2029 || n == 0x202F || n == 0x205F ||
    n == 0x3000

def trimEnd (text : List Char) : List Char := (text.reverse.dropWhile isBlank).reverse

def trim (text : List Char) : List Char := trimEnd (text.dropWhile isBlank)

def trimmed (text : String) : String := String.ofList (trim text.toList)

/-! ## Lines -/

/-- The text with every line end written as one line feed. -/
def unifyLineEnds : List Char → List Char
  | [] => []
  | '\r' :: '\n' :: rest => '\n' :: unifyLineEnds rest
  | c :: rest => (if c = '\r' then '\n' else c) :: unifyLineEnds rest

/-- The text cut after each line feed; the line feeds themselves are left out. -/
def cutLines : List Char → List (List Char)
  | [] => []
  | c :: rest =>
    if c = '\n' then [] :: cutLines rest
    else match cutLines rest with
      | [] => [[c]]
      | line :: lines => (c :: line) :: lines

def lines (text : String) : List (List Char) := cutLines (unifyLineEnds text.toList)

/-- Lines of text, each with its line end. -/
def unlines (lines : List String) : String := String.join (lines.map (· ++ "\n"))

/-- The line above and below a heading. -/
def heavyRule : String := String.ofList (List.replicate 60 '=')

end Clausal.Text

import IntelAsm.Text.Ranges

/-!
# Blanks of all scripts

The characters that separate words in a text: the six of ASCII that move a cursor without a mark,
and beyond ASCII the spaces and separators of Unicode 14.
-/

namespace IntelAsm.Text

/-- The blanks beyond ASCII. -/
def blanks : Ranges := [
  (0x85, 0x85), (0xA0, 0xA0), (0x1680, 0x1680), (0x2000, 0x200A), (0x2028, 0x2029),
  (0x202F, 0x202F), (0x205F, 0x205F), (0x3000, 0x3000)]

/-- A blank of some script. -/
def isBlank (c : Char) : Bool :=
  if isAscii c then c = ' ' || (0x09 ≤ c.toNat && c.toNat ≤ 0x0D) else blanks.has c

/-- A text without the blanks at its ends. -/
def trimBlanks (cs : List Char) : List Char :=
  ((cs.dropWhile isBlank).reverse.dropWhile isBlank).reverse

end IntelAsm.Text

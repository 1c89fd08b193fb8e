import IntelAsm.Numeral
import IntelAsm.Text.CodePoint
import IntelAsm.Text.Printable

/-!
# Quoted text in messages

A message shows a text between quotes, on one line and with every character visible. Single quotes
stand around it unless it holds some of those and no double quote. The quote in use and the
backslash are escaped, the common controls have short names, and any other character without a
printed form shows its code point in two, four or eight hexadecimal digits.
-/

namespace IntelAsm.Text

/-- The quote that is put around a text. -/
def quoteMark (cs : List Char) : Char :=
  if cs.contains '\'' && !cs.contains '"' then '"' else '\''

/-- The code point of a character that cannot be printed. -/
def codePoint (n : Nat) : List Char :=
  if n < 0x100 then '\\' :: 'x' :: Numeral.paddedHex 2 n
  else if n < 0x10000 then '\\' :: 'u' :: Numeral.paddedHex 4 n
  else '\\' :: 'U' :: Numeral.paddedHex 8 n

/-- One character of a text between the given quotes. -/
def quotedChar (mark c : Char) : List Char :=
  if c = mark || c = '\\' then ['\\', c]
  else if c = '\t' then ['\\', 't']
  else if c = '\n' then ['\\', 'n']
  else if c = '\r' then ['\\', 'r']
  else if isPrintable c then [c]
  else codePoint c.toNat

/-- A text as messages show it. -/
def quoted (s : String) : String :=
  let mark := quoteMark s.toList
  String.ofList (mark :: s.toList.flatMap (quotedChar mark) ++ [mark])

/-- One code point of a text between the given quotes. A surrogate cannot be printed. -/
def quotedPoint (mark : Char) (c : CodePoint) : List Char :=
  match c.char? with
  | some c => quotedChar mark c
  | none => codePoint c.toNat

/-- A text of code points as messages show it. -/
def quotedPoints (s : Str) : String :=
  let mark := quoteMark (s.filterMap CodePoint.char?)
  String.ofList (mark :: s.flatMap (quotedPoint mark) ++ [mark])

end IntelAsm.Text

import IntelAsm.Numeral
import IntelAsm.Tree

/-!
# Spellings of operands

How numbers, strings, symbols and addresses are written so that the parser reads them back: a
negative number has a spelling only as a hexadecimal word, a displacement always carries its sign,
and a string is put between quotes that do not end it early.
-/

namespace IntelAsm.Spelling

/-- A literal. Negative numbers are spelled as the word that holds them. -/
def literal (value : Int) (isHex : Bool := false) : String :=
  if isHex || value < 0 then Numeral.hexadecimal (Numeral.unsignedWord value)
  else Numeral.decimal value

/-- A number with its sign, as a term of an address. A magnitude that is out of range as a decimal
numeral is spelled in hexadecimal. -/
def signed (value : Int) : String :=
  if 0 ≤ value then "+" ++ Numeral.decimal value
  else if -value > Numeral.maxSigned then "-" ++ Numeral.hexadecimal value.natAbs
  else "-" ++ Numeral.decimal (-value)

/-- Whether a double quote stands in a text without a backslash that escapes it. -/
def holdsDoubleQuote : List Char → Bool
  | [] => false
  | c :: cs =>
    if c = '\\' then
      match cs with
      | [] => false
      | _ :: ds => holdsDoubleQuote ds
    else c = '"' || holdsDoubleQuote cs

/-- A string between double quotes, or between single ones if a double quote would end it. -/
def string (text : String) : String :=
  if holdsDoubleQuote text.toList then "'" ++ text ++ "'" else "\"" ++ text ++ "\""

/-- A symbol in assembly source. One spelled like a keyword stands in parentheses, since a word in
front of a keyword would be read as a label. -/
def symbol (name : String) : String :=
  if isLabelKeyword name then "(" ++ name ++ ")" else name

/-- The index of an address with its scale, as a term. -/
def indexTerm (index : Option String) (scale : Int) : String :=
  match index with
  | some i => "+" ++ i ++ (if scale = 1 then "" else "*" ++ literal scale)
  | none => ""

/-- The terms of an address: what comes first is written without a plus sign. -/
def addressTerms (a : Address) : String :=
  match a.base, a.displacement with
  | some b, some d => b ++ indexTerm a.index a.scale ++ signed d
  | some b, none => b ++ indexTerm a.index a.scale
  | none, some d =>
    (if 0 ≤ d then Numeral.decimal d else signed d) ++ indexTerm a.index a.scale
  | none, none => indexTerm a.index a.scale

/-- The segment of an address, if it has one. -/
def segment : Option String → String
  | some s => if s = "" then "" else s ++ ":"
  | none => ""

/-- An address between brackets, behind its segment. -/
def address (a : Address) : String := segment a.segment ++ "[" ++ addressTerms a ++ "]"

end IntelAsm.Spelling

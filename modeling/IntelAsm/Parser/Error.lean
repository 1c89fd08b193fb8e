import IntelAsm.Token

/-!
# Why a token list is no program

Faults carry the words that they speak of and no places, so that the same mistake elsewhere is the
same fault; the place is kept beside the fault.
-/

namespace IntelAsm

/-- What the grammar calls for. -/
inductive Expected where
  /-- A token of one of these kinds. -/
  | kinds (ks : List TokenKind)
  | mnemonic
  | lineEnd
  | closingParen
  | closingBracket
  /-- The first term of an address. -/
  | addressTerm
  /-- The term of an address behind a sign. -/
  | signedTerm (sign : String)
  | number
  | scale
  /-- Something that the caller describes. -/
  | described (text : String)
deriving DecidableEq, Repr

/-- How messages name what the grammar calls for. -/
def Expected.message : Expected → String
  | .kinds ks => "Expected " ++ " or ".intercalate (ks.map (·.name))
  | .mnemonic => "Expected instruction mnemonic"
  | .lineEnd => "Expected ',' or end of line"
  | .closingParen => "Expected ')'"
  | .closingBracket => "Expected ']'"
  | .addressTerm => "Expected register or numeric value in memory operand"
  | .signedTerm sign => "Expected register or numeric value after '" ++ sign ++ "'"
  | .number => "Expected numeric value"
  | .scale => "Expected numeric scale factor"
  | .described text => text

/-- Why tokens do not form a program. -/
inductive ParseFault where
  | expected (what : Expected) (found : Word)
  /-- No statement starts with this word. -/
  | noStatement (found : Word)
  /-- No operand of an expression starts with this word. -/
  | noOperand (found : Word)
  /-- An equate ends where its expression should be. -/
  | noExpression (mnemonic : String)
  /-- An address has more than one register with a sign. -/
  | secondIndex
  /-- A number does not fit 64 bits. -/
  | outOfRange
  /-- A text that is to be read in this base spells no number. -/
  | notNumeral (base : Nat) (text : String)
  /-- A fault that the caller describes. -/
  | described (text : String)
deriving DecidableEq, Repr

/-- The number of characters that messages show of a text that spells no number. -/
def maxShown : Nat := 200

/-- How messages describe a fault. -/
def ParseFault.message : ParseFault → String
  | .expected what found => what.message ++ ", got " ++ found.describe
  | .noStatement found => "Unexpected " ++ found.describe ++ " at start of statement"
  | .noOperand found => "Unexpected " ++ found.describe ++ " in expression"
  | .noExpression mnemonic => "Expected expression after " ++ mnemonic
  | .secondIndex => "Multiple index registers not supported"
  | .outOfRange => "Numeric literal out of 64-bit range"
  | .notNumeral base text =>
    "invalid literal for int() with base " ++ Numeral.decimal base ++ ": " ++
      String.ofList ((Text.quoted text).toList.take maxShown)
  | .described text => text

/-- A fault and the place of the token that shows it. -/
structure ParseError where
  fault : ParseFault
  pos : Pos
deriving DecidableEq, Repr

/-- What a message says of an error, the place included. -/
def ParseError.message (e : ParseError) : String := e.fault.message ++ e.pos.message

end IntelAsm

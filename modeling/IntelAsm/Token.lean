import IntelAsm.Pos
import IntelAsm.Text.Quoted
import IntelAsm.Vocabulary

/-!
# Tokens

A token is a word of the source with the place where it starts; a word is a kind and a text. The
text is what later stages need of the spelling: a number without its separators, a string without
its quotes.

Kinds have names. `TokenKind.ofName` reads a name back (`name_ofName`); a name that belongs to no
kind of this language is kept as it is, so that token lists from elsewhere can be parsed too.
-/

namespace IntelAsm

/-! ### Punctuation -/

/-- The punctuation marks. -/
inductive Mark where
  | comma
  | colon
  | leftBracket
  | rightBracket
  | leftParen
  | rightParen
  | plus
  | minus
  | star
  | slash
  | percent
  | dollar
deriving DecidableEq, Repr

namespace Mark

/-- Every punctuation mark. -/
def all : List Mark :=
  [.comma, .colon, .leftBracket, .rightBracket, .leftParen, .rightParen, .plus, .minus, .star,
    .slash, .percent, .dollar]

/-- The character of a mark. -/
def char : Mark → Char
  | .comma => ','
  | .colon => ':'
  | .leftBracket => '['
  | .rightBracket => ']'
  | .leftParen => '('
  | .rightParen => ')'
  | .plus => '+'
  | .minus => '-'
  | .star => '*'
  | .slash => '/'
  | .percent => '%'
  | .dollar => '$'

/-- The name of a mark in messages. -/
def name : Mark → String
  | .comma => "COMMA"
  | .colon => "COLON"
  | .leftBracket => "LBRACK"
  | .rightBracket => "RBRACK"
  | .leftParen => "LPAREN"
  | .rightParen => "RPAREN"
  | .plus => "PLUS"
  | .minus => "SUB"
  | .star => "MULT"
  | .slash => "DIV"
  | .percent => "MOD"
  | .dollar => "DOLLAR"

/-- The mark with the given character. -/
def ofChar? (c : Char) : Option Mark := all.find? (·.char = c)

@[simp] theorem ofChar?_char (m : Mark) : ofChar? m.char = some m := by
  cases m <;> rfl

end Mark

/-! ### Kinds of tokens -/

/-- The kind of a token. -/
inductive TokenKind where
  | number
  | hexNumber
  | ident
  | register
  | string
  | comment
  | newline
  /-- The end of the token list. -/
  | eof
  | mark (m : Mark)
  /-- A size specifier, such as `dword ptr`. -/
  | size (w : Width)
  /-- A kind that the lexer never produces. -/
  | other (name : String)
deriving DecidableEq, Repr

namespace TokenKind

/-- The kinds that the lexer produces. -/
def all : List TokenKind :=
  [.number, .hexNumber, .ident, .register, .string, .comment, .newline, .eof] ++
    Mark.all.map .mark ++ Width.all.map .size

/-- The name of a kind in messages. -/
def name : TokenKind → String
  | .number => "NUMBER"
  | .hexNumber => "HEX_NUMBER"
  | .ident => "IDENT"
  | .register => "REGISTER"
  | .string => "STRING"
  | .comment => "COMMENT"
  | .newline => "NEWLINE"
  | .eof => "EOF"
  | .mark m => m.name
  | .size .byte => "BYTE_PTR"
  | .size .word => "WORD_PTR"
  | .size .dword => "DWORD_PTR"
  | .size .qword => "QWORD_PTR"
  | .other name => name

/-- The kind with the given name. -/
def ofName (s : String) : TokenKind := (all.find? (·.name = s)).getD (.other s)

/-- A name is read back from its kind. -/
@[simp] theorem name_ofName (s : String) : (ofName s).name = s := by
  unfold ofName
  cases h : all.find? (·.name = s) with
  | none => rfl
  | some k => simpa using List.find?_some h

/-- The kinds that end a statement. -/
def endsLine (k : TokenKind) : Bool := k = .newline || k = .comment || k = .eof

/-- The kinds of numeric literals. -/
def isNumeric (k : TokenKind) : Bool := k = .number || k = .hexNumber

end TokenKind

/-! ### Tokens -/

/-- A token without its place. -/
structure Word where
  kind : TokenKind
  text : String
deriving DecidableEq, Repr

/-- A token: a word and where it starts. -/
structure Token extends Word where
  pos : Pos := {}
deriving DecidableEq, Repr

/-- How messages name a word. -/
def Word.describe (w : Word) : String :=
  match w.kind with
  | .eof => "end of input"
  | .newline => "end of line"
  | k => k.name ++ " " ++ Text.quoted w.text

/-- A word with its kind and its quoted text. -/
def Word.display (w : Word) : String :=
  "Token(" ++ w.kind.name ++ ", " ++ Text.quoted w.text ++ ")"

end IntelAsm

import IntelAsm.Token
import IntelAsm.Text.Letters

/-!
# Lexemes

How words are read from the front of a text. A reader sees the text ahead and nothing else. It says
what it found and how many characters it took, also where it fails, so that a cursor knows where to
stand afterwards. Words of one line never reach over its newline.

`Lexeme.word` chooses the reader by the first character. A text that is not empty either yields a
word of at least one character or a fault (`length_word_pos`).
-/

namespace IntelAsm

/-- Why a text does not start with a word. -/
inductive LexFault where
  /-- No word starts with this character. -/
  | unexpected (c : Char)
  /-- No digit follows the marker of a hexadecimal numeral. -/
  | noHexDigits
  /-- The quote of a string is not closed on its line. -/
  | unterminated
deriving DecidableEq, Repr

/-- How messages describe a fault. -/
def LexFault.message : LexFault → String
  | .unexpected c => "Unexpected character " ++ Text.quoted (String.singleton c)
  | .noHexDigits => "Hex literal has no digits"
  | .unterminated => "Unterminated string"

/-- What a reader found. -/
inductive Outcome (α : Type) where
  | found (a : α)
  | fault (f : LexFault)
  /-- The text ended where the reader had to take one more character. -/
  | cutShort
deriving DecidableEq, Repr

/-- What a reader found at the front of a text, and the number of characters it took. -/
structure Reading (α : Type) where
  outcome : Outcome α
  length : Nat
deriving DecidableEq, Repr

namespace Lexeme

/-! ### Classes of characters -/

/-- Blanks that separate the words of a line. -/
def isInlineSpace (c : Char) : Bool := c = ' ' || c = '\t' || c = '\r'

/-- The characters that start a word made of letters. -/
def startsWord (c : Char) : Bool := Text.isLetter c || c = '_'

/-- The characters that continue a word made of letters. -/
def continuesWord (c : Char) : Bool := Text.isAlphanumeric c || c = '_'

/-! ### Readers -/

/-- The blanks in front of a text. -/
def gap (cs : List Char) : List Char := cs.takeWhile isInlineSpace

/-- A comment runs to the end of its line. -/
def comment (cs : List Char) : Reading Word :=
  let text := cs.takeWhile (· ≠ '\n')
  ⟨.found ⟨.comment, String.ofList text⟩, text.length⟩

/-- Digits of a class, with any number of separators `_` among them. -/
def digitRun (isDigit : Char → Bool) (cs : List Char) : List Char :=
  cs.takeWhile fun c => isDigit c || c = '_'

/-- The digits of a run, without the separators. -/
def digitsOf (run : List Char) : List Char := run.filter (· ≠ '_')

/-- A decimal literal. -/
def number (cs : List Char) : Reading Word :=
  let run := digitRun Numeral.isDecimalDigit cs
  ⟨.found ⟨.number, String.ofList (digitsOf run)⟩, run.length⟩

/-- A hexadecimal literal: the two characters of its marker and at least one digit. -/
def hexNumber : List Char → Reading Word
  | x :: y :: cs =>
    let run := digitRun Numeral.isHexDigit cs
    if digitsOf run = [] then ⟨.fault .noHexDigits, run.length + 2⟩
    else ⟨.found ⟨.hexNumber, String.ofList (x :: y :: digitsOf run)⟩, run.length + 2⟩
  | cs => ⟨.cutShort, cs.length⟩

/-- What is left of a text behind a word at its front, which may be spelled in any letter case. -/
def afterWord : List Char → List Char → Option (List Char)
  | [], cs => some cs
  | w :: ws, c :: cs => if Text.lowerChar c = [w] then afterWord ws cs else none
  | _ :: _, [] => none

/-- The number of characters up to the end of `word`, if that is the next word of the line and
stands there in full. -/
def wordAhead (word cs : List Char) : Option Nat :=
  match afterWord word (cs.dropWhile isInlineSpace) with
  | some rest =>
    if rest.head?.any continuesWord then none else some ((gap cs).length + word.length)
  | none => none

/-- The second word of a size specifier. -/
def sizeSuffix : String := "ptr"

/-- An identifier, a register, or a size specifier of two words. -/
def identifier (cs : List Char) : Reading Word :=
  let run := cs.takeWhile continuesWord
  let name := String.ofList run
  let plain : Reading Word :=
    ⟨.found ⟨if isRegister name then .register else .ident, name⟩, run.length⟩
  match Width.ofKeyword? (Text.lower name) with
  | some w =>
    match wordAhead sizeSuffix.toList (cs.dropWhile continuesWord) with
    | some n => ⟨.found ⟨.size w, w.keyword ++ " " ++ sizeSuffix⟩, run.length + n⟩
    | none => plain
  | none => plain

/-- The text between two quotes: it ends before the closing quote or the newline, and a backslash
keeps the character behind it from ending it. -/
def stringBody (quote : Char) : List Char → List Char
  | [] => []
  | c :: cs =>
    if c = quote || c = '\n' then []
    else if c = '\\' then
      match cs with
      | [] => ['\\']
      | d :: ds => if d = '\n' then ['\\'] else '\\' :: d :: stringBody quote ds
    else c :: stringBody quote cs

/-- A string: its first character is the quote that has to close it. -/
def string : List Char → Reading Word
  | [] => ⟨.cutShort, 0⟩
  | quote :: cs =>
    let body := stringBody quote cs
    if (cs.drop body.length).head? = some quote then
      ⟨.found ⟨.string, String.ofList body⟩, body.length + 2⟩
    else ⟨.fault .unterminated, body.length + 1⟩

/-- The marker of a hexadecimal literal. -/
def startsHex : List Char → Bool
  | '0' :: c :: _ => c = 'x' || c = 'X'
  | _ => false

/-- The word that starts with the character `c`, which is no blank; `cs` follows it. -/
def wordFrom (c : Char) (cs : List Char) : Reading Word :=
  if c = '\n' then ⟨.found ⟨.newline, "\n"⟩, 1⟩
  else if c = ';' || c = '#' then comment (c :: cs)
  else if startsHex (c :: cs) then hexNumber (c :: cs)
  else if Numeral.isDecimalDigit c then number (c :: cs)
  else if startsWord c then identifier (c :: cs)
  else if c = '"' || c = '\'' then string (c :: cs)
  else
    match Mark.ofChar? c with
    | some m => ⟨.found ⟨.mark m, String.singleton c⟩, 1⟩
    | none => ⟨.fault (.unexpected c), 0⟩

/-- The word at the front of a text without leading blanks. -/
def word : List Char → Reading Word
  | [] => ⟨.found ⟨.eof, ""⟩, 0⟩
  | c :: cs => wordFrom c cs

/-! ### Every word has characters -/

/-- Whatever starts a word may continue one. -/
theorem continuesWord_of_startsWord {c : Char} (h : startsWord c) : continuesWord c := by
  simp only [startsWord, continuesWord, Bool.or_eq_true] at h ⊢
  exact h.imp_left Text.isAlphanumeric_of_isLetter

theorem length_comment_pos {c : Char} (cs : List Char) (h : c ≠ '\n') :
    0 < (comment (c :: cs)).length := by
  simp [comment, h]

theorem length_hexNumber_pos {c : Char} {cs : List Char} (h : startsHex (c :: cs)) :
    0 < (hexNumber (c :: cs)).length := by
  cases cs with
  | nil => simp [startsHex] at h
  | cons d ds =>
    unfold hexNumber
    dsimp only
    split <;> exact Nat.succ_pos _

theorem length_number_pos {c : Char} (cs : List Char) (h : Numeral.isDecimalDigit c) :
    0 < (number (c :: cs)).length := by
  simp [number, digitRun, h]

theorem length_identifier_pos {c : Char} (cs : List Char) (h : startsWord c) :
    0 < (identifier (c :: cs)).length := by
  have hrun : 0 < ((c :: cs).takeWhile continuesWord).length := by
    simp [continuesWord_of_startsWord h]
  unfold identifier
  dsimp only
  split
  · split
    · exact Nat.add_pos_left hrun _
    · exact hrun
  · exact hrun

/-- Even a string that is not closed takes its quote. -/
theorem length_string_pos (c : Char) (cs : List Char) : 0 < (string (c :: cs)).length := by
  unfold string
  dsimp only
  split <;> exact Nat.succ_pos _

/-- A word that is found in front of a text with characters takes at least one of them. -/
theorem length_word_pos {c : Char} {cs : List Char} {w : Word}
    (h : (word (c :: cs)).outcome = .found w) : 0 < (word (c :: cs)).length := by
  simp only [word, wordFrom] at h ⊢
  split
  · exact Nat.one_pos
  split
  · exact length_comment_pos cs (by assumption)
  split
  · exact length_hexNumber_pos (by assumption)
  split
  · exact length_number_pos cs (by assumption)
  split
  · exact length_identifier_pos cs (by assumption)
  split
  · exact length_string_pos c cs
  · split
    · exact Nat.one_pos
    · simp_all

end Lexeme

end IntelAsm

import IntelAsm.Lexeme
import IntelAsm.Stream

/-!
# The lexer

A lexer action moves the cursor of a stream and gives a value or an error. An error leaves the
cursor where the reading stopped, so that a caller may go on from there. `Lexer.nextToken` skips
blanks and reads one word; `Lexer.tokens` reads to the end, which the last token marks.
-/

namespace IntelAsm

/-- A fault in the source text and the place of the word in which it lies. -/
structure LexError where
  fault : LexFault
  pos : Pos
deriving DecidableEq, Repr

/-- What a message says of an error, the place included. -/
def LexError.message (e : LexError) : String := e.fault.message ++ e.pos.message

/-- Why a lexer action failed. -/
inductive StreamError where
  | lexical (e : LexError)
  /-- One more character was needed at the end of the text. -/
  | endOfSource (position : Nat) (line : Int)
deriving DecidableEq, Repr

/-- What a message says of the failure. -/
def StreamError.message : StreamError → String
  | .lexical e => e.message
  | .endOfSource p l =>
    "CharacterStreamError: Attempted to read past end of source at position=<" ++
      Numeral.decimal p ++ ">, line=<" ++ Numeral.decimal l ++ ">"

/-- An action on a stream; it keeps the state of the stream also where it fails. -/
abbrev Lexer := EStateM StreamError Stream

namespace Lexer

/-- The error of reading on at the end of a text. -/
def pastEnd (s : Stream) : StreamError := .endOfSource s.position s.place.line

/-- Reads at the cursor and moves it over what was taken. Faults lie where the reading began. -/
def read {α : Type} (reader : List Char → Reading α) : Lexer α := fun s =>
  let r := reader s.ahead
  let s' := s.skip r.length
  match r.outcome with
  | .found a => .ok a s'
  | .fault f => .error (.lexical ⟨f, s.place⟩) s'
  | .cutShort => .error (pastEnd s') s'

/-- Takes one character. -/
def next : Lexer Char := fun s =>
  match s.next? with
  | some (c, s') => .ok c s'
  | none => .error (pastEnd s) s

/-- Moves over blanks. -/
def skipGap : Lexer Unit := fun s => .ok () (s.skip (Lexeme.gap s.ahead).length)

/-- Moves to the end of the given word if it comes next, blanks aside. -/
def matchWord (word : String) : Lexer Bool := fun s =>
  match Lexeme.wordAhead word.toList s.ahead with
  | some n => .ok true (s.skip n)
  | none => .ok false s

/-- Reads a word at the cursor and adds the place where it starts. -/
def token (reader : List Char → Reading Word) : Lexer Token := do
  let s ← get
  let w ← read reader
  return ⟨w, s.place⟩

/-- The next token; at the end of the text it is the end marker. -/
def nextToken : Lexer Token := do
  skipGap
  token Lexeme.word

theorem token_eq (reader : List Char → Reading Word) (s : Stream) :
    token reader s = match read reader s with
      | .ok w s' => .ok ⟨w, s.place⟩ s'
      | .error e s' => .error e s' := by
  have h : token reader s = EStateM.bind (read reader) (fun w => pure ⟨w, s.place⟩) s := rfl
  rw [h, EStateM.bind]
  cases read reader s <;> rfl

/-- A token other than the end marker leaves less of the text ahead. -/
theorem length_ahead_nextToken {s s' : Stream} {t : Token} (h : nextToken s = .ok t s')
    (ht : t.kind ≠ .eof) : s'.ahead.length < s.ahead.length := by
  have hnext : nextToken s = token Lexeme.word (s.skip (Lexeme.gap s.ahead).length) := rfl
  rw [hnext, token_eq] at h
  simp only [read, Stream.ahead_skip] at h
  cases hcs : s.ahead.drop (Lexeme.gap s.ahead).length with
  | nil =>
    rw [hcs] at h
    simp [Lexeme.word] at h
    simp [← h.1] at ht
  | cons c cs =>
    rw [hcs] at h
    have hlen : cs.length + 1 + (Lexeme.gap s.ahead).length ≤ s.ahead.length := by
      have hd := congrArg List.length hcs
      simp at hd
      omega
    cases ho : (Lexeme.word (c :: cs)).outcome with
    | found w =>
      have hpos := Lexeme.length_word_pos ho
      simp [ho] at h
      rw [← h.2]
      simp [hcs]
      omega
    | fault f => simp [ho] at h
    | cutShort => simp [ho] at h

/-- Every token up to the end of the text, the end marker included. -/
def tokens : Lexer (List Token) := fun s =>
  match _ : nextToken s with
  | .error e s' => .error e s'
  | .ok t s' =>
    if _ : t.kind = .eof then .ok [t] s'
    else
      match tokens s' with
      | .error e s'' => .error e s''
      | .ok ts s'' => .ok (t :: ts) s''
termination_by s => s.ahead.length
decreasing_by exact length_ahead_nextToken (by assumption) (by assumption)

end Lexer

/-- The tokens of a source text. -/
def tokenize (source : String) : Except StreamError (List Token) :=
  match Lexer.tokens (.ofString source) with
  | .ok ts _ => .ok ts
  | .error e _ => .error e

end IntelAsm

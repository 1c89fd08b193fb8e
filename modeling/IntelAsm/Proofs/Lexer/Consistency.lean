import IntelAsm.Proofs.Lexer.Faults

/-!
# The cursor of a stream is consistent

A stream keeps three numbers that belong together: how many characters are in front of the cursor,
its line and its column (`Stream.Consistent`). No action of the lexer sets them at odds, whether it
succeeds or fails (`Lexer.Keeps`), and a snapshot puts back three that belonged together when it was
taken. So every operation keeps a session consistent (`Session.Consistent.perform`), and in a
session that starts with a new stream the cursor is consistent after any operations in any order
(`consistent_run`).
-/

namespace IntelAsm

/-! ### Streams -/

namespace Stream

variable {cs : List Char} {s : Stream}

/-- The cursor stands in the text `cs`, at the place that is found by counting from the start. -/
structure Consistent (cs : List Char) (s : Stream) : Prop where
  source_eq : s.source = cs
  position_le : s.position ≤ cs.length
  place_eq : s.place = .behind (cs.take s.position)

/-- A stream is consistent with its text at the start. -/
theorem consistent_ofString (source : String) : (ofString source).Consistent source.toList :=
  ⟨rfl, Nat.zero_le _, rfl⟩

/-- Moving on keeps it so. -/
theorem Consistent.skip (h : s.Consistent cs) (n : Nat) : (s.skip n).Consistent cs := by
  obtain rfl := h.source_eq
  have hplaced : Lexer.Placed s := h.place_eq
  refine ⟨rfl, ?_, hplaced.skip n⟩
  have hahead : s.ahead.length = s.source.length - s.position := by
    rw [s.ahead_eq, List.length_drop]
  have hle := h.position_le
  show s.position + (s.ahead.take n).length ≤ s.source.length
  rw [List.length_take]
  omega

end Stream

/-! ### Actions -/

namespace Lexer

section
variable {α β : Type} {cs : List Char}

/-- The stream that an action leaves behind. -/
def streamOf : EStateM.Result StreamError Stream α → Stream
  | .ok _ s => s
  | .error _ s => s

/-- An action that leaves the cursor consistent, also where it fails. -/
def Keeps (cs : List Char) (p : Lexer α) : Prop :=
  ∀ s : Stream, s.Consistent cs → (streamOf (p s)).Consistent cs

/-- Actions in a row keep what each of them keeps. -/
theorem keeps_bind {p : Lexer α} {f : α → Lexer β} (hp : Keeps cs p) (hf : ∀ a, Keeps cs (f a)) :
    Keeps cs (p >>= f) := by
  intro s hs
  have hp' := hp s hs
  show (streamOf (EStateM.bind p f s)).Consistent cs
  unfold EStateM.bind
  cases h : p s with
  | ok a s' =>
    rw [h] at hp'
    exact hf a s' hp'
  | error e s' =>
    rw [h] at hp'
    exact hp'

/-- Looking at a stream moves nothing. -/
theorem keeps_look (f : Stream → α) : Keeps cs fun s => .ok (f s) s := fun _ hs => hs

theorem keeps_next : Keeps cs next := by
  intro s hs
  unfold next Stream.next?
  cases s.ahead.head? with
  | none => exact hs
  | some c => exact hs.skip 1

theorem keeps_skipGap : Keeps cs skipGap := fun _ hs => hs.skip _

theorem keeps_matchWord (word : String) : Keeps cs (matchWord word) := by
  intro s hs
  unfold matchWord
  cases Lexeme.wordAhead word.toList s.ahead with
  | none => exact hs
  | some n => exact hs.skip n

/-- A reader may find a word, find fault with the text or lack characters; the cursor moves over
what it took. -/
theorem keeps_read (reader : List Char → Reading α) : Keeps cs (read reader) := by
  intro s hs
  unfold read
  generalize reader s.ahead = r
  obtain ⟨outcome, n⟩ := r
  cases outcome <;> exact hs.skip n

/-- A reader only moves on, whether it finds a word or not. -/
theorem keeps_token (reader : List Char → Reading Word) : Keeps cs (token reader) := by
  apply keeps_bind (keeps_look id)
  intro s
  apply keeps_bind (keeps_read reader)
  intro w
  exact keeps_look fun _ => (⟨w, s.place⟩ : Token)

theorem keeps_nextToken : Keeps cs nextToken := keeps_bind keeps_skipGap fun _ => keeps_token _

theorem keeps_tokens : Keeps cs tokens := by
  intro s hs
  -- by induction on the tokens that are read; each leaves a consistent stream to the next
  fun_induction tokens s with
  | case1 s e s' h =>
    have hs' := keeps_nextToken s hs
    rwa [h] at hs'
  | case2 s t s' h ht =>
    have hs' := keeps_nextToken s hs
    rwa [h] at hs'
  | case3 s t s' h ht e s'' hr ih =>
    have hs' := keeps_nextToken s hs
    rw [h] at hs'
    have hs'' := ih hs'
    rwa [hr] at hs''
  | case4 s t s' h ht ts s'' hr ih =>
    have hs' := keeps_nextToken s hs
    rw [h] at hs'
    have hs'' := ih hs'
    rwa [hr] at hs''

end

end Lexer

/-! ### Sessions -/

namespace Lexer

/-- What can be asked of a stream and of a lexer that reads it. -/
inductive Operation where
  | next
  | peek (offset : Int)
  | atEnd
  | skipGap
  | nextToken
  | tokens
  | comment
  | number
  | hexNumber
  | identifier
  | string
  | matchWord (word : String)
  | snapshot
  /-- Goes back to a snapshot, counted from zero in the order in which they were taken. -/
  | restore (index : Nat)
deriving DecidableEq, Repr

/-- A stream that is in use, and the snapshots that were taken of it. -/
structure Session where
  stream : Stream
  marks : List Stream.Snapshot := []

namespace Session

/-- The session after an action, which may have failed. -/
def after {α : Type} (s : Session) (p : Lexer α) : Session :=
  { s with stream := streamOf (p s.stream) }

/-- The session after an operation. There is nothing to go back to where no snapshot was taken. -/
def perform (s : Session) : Operation → Session
  | .next => s.after Lexer.next
  | .peek offset => s.after fun t => .ok (t.peek offset) t
  | .atEnd => s.after fun t => .ok t.atEnd t
  | .skipGap => s.after Lexer.skipGap
  | .nextToken => s.after Lexer.nextToken
  | .tokens => s.after Lexer.tokens
  | .comment => s.after (token Lexeme.comment)
  | .number => s.after (token Lexeme.number)
  | .hexNumber => s.after (token Lexeme.hexNumber)
  | .identifier => s.after (token Lexeme.identifier)
  | .string => s.after (token Lexeme.string)
  | .matchWord word => s.after (Lexer.matchWord word)
  | .snapshot => { s with marks := s.marks ++ [s.stream.snapshot] }
  | .restore index =>
    match s.marks[index]? with
    | some m => { s with stream := s.stream.restore m }
    | none => s

/-- The session after some operations, begun with a new stream. -/
def run (source : String) (ops : List Operation) : Session :=
  ops.foldl perform { stream := .ofString source }

/-- The stream is consistent, and was so wherever a snapshot was taken. -/
structure Consistent (cs : List Char) (s : Session) : Prop where
  stream : s.stream.Consistent cs
  marks : ∀ m ∈ s.marks, (s.stream.restore m).Consistent cs

variable {cs : List Char} {s : Session}

/-- What a snapshot puts back does not depend on where the cursor stands. -/
theorem Consistent.move (h : s.Consistent cs) {t : Stream} (ht : t.Consistent cs) :
    Consistent cs { s with stream := t } := by
  refine ⟨ht, fun m hm => ?_⟩
  obtain ⟨-, hle, hplace⟩ := h.marks m hm
  exact ⟨ht.source_eq, hle, hplace⟩

theorem Consistent.after {α : Type} (h : s.Consistent cs) {p : Lexer α} (hp : Keeps cs p) :
    (s.after p).Consistent cs :=
  h.move (hp s.stream h.stream)

/-- Every operation keeps a session consistent. -/
theorem Consistent.perform (h : s.Consistent cs) (op : Operation) :
    (s.perform op).Consistent cs := by
  cases op with
  | next => exact h.after keeps_next
  | peek | atEnd => exact h.after (keeps_look _)
  | skipGap => exact h.after keeps_skipGap
  | nextToken => exact h.after keeps_nextToken
  | tokens => exact h.after keeps_tokens
  | comment | number | hexNumber | identifier | string => exact h.after (keeps_token _)
  | matchWord word => exact h.after (keeps_matchWord word)
  | snapshot =>
    refine ⟨h.stream, fun m hm => ?_⟩
    rcases List.mem_append.1 hm with hm | hm
    · exact h.marks m hm
    · obtain rfl := List.mem_singleton.1 hm
      exact ⟨h.stream.source_eq, h.stream.position_le, h.stream.place_eq⟩
  | restore index =>
    show Consistent cs (match s.marks[index]? with
      | some m => { s with stream := s.stream.restore m }
      | none => s)
    cases hm : s.marks[index]? with
    | none => exact h
    | some m => exact h.move (h.marks m (List.mem_of_getElem? hm))

/-- By induction on the operations, each of which keeps the session consistent. -/
theorem Consistent.foldl_perform (h : s.Consistent cs) (ops : List Operation) :
    (ops.foldl Session.perform s).Consistent cs := by
  induction ops generalizing s with
  | nil => exact h
  | cons op ops ih => exact ih (h.perform op)

end Session

/-- After any operations on a new stream, whether they succeed or fail, the cursor stands in the
text; its line is one more than the newlines in front of it, and its column one more than the
characters behind the last of them. -/
theorem consistent_run (source : String) (ops : List Operation) :
    let s := (Session.run source ops).stream
    s.source = source.toList ∧ s.position ≤ source.toList.length ∧
      s.place.line = 1 + (source.toList.take s.position).count '\n' ∧
      s.place.column =
        1 + ((source.toList.take s.position).reverse.takeWhile (· ≠ '\n')).length := by
  have hstart : Session.Consistent source.toList { stream := .ofString source } :=
    ⟨Stream.consistent_ofString source, by simp⟩
  have hrun : (Session.run source ops).Consistent source.toList := hstart.foldl_perform ops
  have hplace := hrun.stream.place_eq
  exact ⟨hrun.stream.source_eq, hrun.stream.position_le, congrArg Pos.line hplace,
    congrArg Pos.column hplace⟩

end Lexer

end IntelAsm

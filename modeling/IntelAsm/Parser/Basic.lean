import IntelAsm.Cursor
import IntelAsm.Parser.Error

/-!
# Parsing actions

An action reads tokens at a cursor. It keeps the cursor also where it fails, at the place where the
reading stopped.

No action moves the cursor back (`Forward`), and most take at least one token when they succeed
(`Consuming`). Both properties pass from the parts of an action to the whole; loops over actions end
because of the second.
-/

namespace IntelAsm

/-- An action on a token list. -/
abbrev Parse := EStateM ParseError Cursor

namespace Parse

/-! ### Actions -/

/-- The token at the cursor. -/
def current : Parse Token := fun c => .ok c.current c

/-- The token `n` places ahead. -/
def peek (n : Nat) : Parse Token := fun c => .ok (c.peek n) c

/-- Takes the token at the cursor. -/
def advance : Parse Token := fun c => .ok c.current c.advance

/-- Fails at the place of a token. -/
def fail {α : Type} (fault : ParseFault) (t : Token) : Parse α := fun c => .error ⟨fault, t.pos⟩ c

/-- Whether the statement ends at the cursor. -/
def atLineEnd : Parse Bool := fun c => .ok c.current.kind.endsLine c

/-- Takes a token of one of the given kinds. -/
def expect (what : Expected) (kinds : List TokenKind) : Parse Token := fun c =>
  if kinds.contains c.current.kind then advance c
  else fail (.expected what c.current.toWord) c.current c

/-- Takes the token at the cursor and yields its value; one without a value is at fault. -/
def takeValue {α : Type} (value : Except ParseFault α) : Parse α := fun c =>
  match value with
  | .ok a => .ok a c.advance
  | .error f => .error ⟨f, c.current.pos⟩ c.advance

/-! ### Actions move forward -/

/-- States that hold a cursor. -/
class HasCursor (σ : Type) where
  cursor : σ → Cursor

instance : HasCursor Cursor where
  cursor c := c

section
variable {σ α β : Type}

/-- The state that an action leaves behind. -/
def stateOf : EStateM.Result ParseError σ α → σ
  | .ok _ s => s
  | .error _ s => s

variable [HasCursor σ]

/-- An action that never moves the cursor back. -/
def Forward (p : EStateM ParseError σ α) : Prop :=
  ∀ s, (HasCursor.cursor s).Before (HasCursor.cursor (stateOf (p s)))

/-- An action that takes a token whenever it succeeds. -/
def Consuming (p : EStateM ParseError σ α) : Prop :=
  ∀ s a s', p s = .ok a s' →
    (HasCursor.cursor s').ahead.length < (HasCursor.cursor s).ahead.length

/-- An action that never moves the cursor back and takes a token whenever it succeeds. -/
structure Advancing (p : EStateM ParseError σ α) : Prop where
  forward : Forward p
  consuming : Consuming p

variable {p q : EStateM ParseError σ α} {f : α → EStateM ParseError σ β}

theorem Forward.of_ok (hp : Forward p) {s s' : σ} {a : α} (h : p s = .ok a s') :
    (HasCursor.cursor s).Before (HasCursor.cursor s') := by
  simpa [h, stateOf] using hp s

theorem Forward.of_error (hp : Forward p) {s s' : σ} {e : ParseError} (h : p s = .error e s') :
    (HasCursor.cursor s).Before (HasCursor.cursor s') := by
  simpa [h, stateOf] using hp s

theorem forward_pure (a : α) : Forward (pure a : EStateM ParseError σ α) := fun _ => .refl _

/-- Actions in a row go forward if each of them does. -/
theorem forward_bind (hp : Forward p) (hf : ∀ a, Forward (f a)) : Forward (p >>= f) := by
  intro s
  simp only [Bind.bind, EStateM.bind]
  cases h : p s with
  | ok a s' => exact .trans (hp.of_ok h) (hf a s')
  | error e s' => exact hp.of_error h

theorem forward_ite {b : Prop} [Decidable b] (hp : Forward p) (hq : Forward q) :
    Forward (if b then p else q) := by
  split
  · exact hp
  · exact hq

/-- What starts with an action that takes a token takes one. -/
theorem advancing_bind (hp : Advancing p) (hf : ∀ a, Forward (f a)) : Advancing (p >>= f) := by
  refine ⟨forward_bind hp.forward hf, ?_⟩
  intro s b s'' h
  simp only [Bind.bind, EStateM.bind] at h
  cases hs : p s with
  | ok a s' =>
    rw [hs] at h
    exact Nat.lt_of_le_of_lt ((hf a).of_ok h).length_ahead (hp.consuming s a s' hs)
  | error e s' => simp [hs] at h

/-- What goes on with an action that takes a token takes one. -/
theorem advancing_bind_right (hp : Forward p) (hf : ∀ a, Advancing (f a)) :
    Advancing (p >>= f) := by
  refine ⟨forward_bind hp fun a => (hf a).forward, ?_⟩
  intro s b s'' h
  simp only [Bind.bind, EStateM.bind] at h
  cases hs : p s with
  | ok a s' =>
    rw [hs] at h
    exact Nat.lt_of_lt_of_le ((hf a).consuming s' b s'' h) (hp.of_ok hs).length_ahead
  | error e s' => simp [hs] at h

theorem advancing_ite {b : Prop} [Decidable b] (hp : Advancing p) (hq : Advancing q) :
    Advancing (if b then p else q) := by
  split
  · exact hp
  · exact hq

end

section
variable {α : Type}

theorem forward_current : Forward current := fun c => .refl c

theorem forward_peek (n : Nat) : Forward (peek n) := fun c => .refl c

theorem forward_advance : Forward advance := fun c => c.before_advance

theorem forward_fail (fault : ParseFault) (t : Token) : Forward (fail fault t : Parse α) :=
  fun c => .refl c

/-- A value is taken, or refused, at the same cursor. -/
theorem forward_takeValue (value : Except ParseFault α) : Forward (takeValue value) := by
  intro c
  cases value <;> exact c.before_advance

/-- An expected token is passed, and any other left where it is. -/
theorem forward_expect (what : Expected) (kinds : List TokenKind) :
    Forward (expect what kinds) := by
  intro c
  unfold expect
  split
  · exact c.before_advance
  · exact .refl c

/-- A token that was expected is taken, unless the end marker is among those expected. -/
theorem advancing_expect {what : Expected} {kinds : List TokenKind} (h : .eof ∉ kinds) :
    Advancing (expect what kinds) := by
  refine ⟨forward_expect what kinds, ?_⟩
  intro c t c' hc
  unfold expect at hc
  split at hc
  · next hk =>
    cases hc
    refine Cursor.length_ahead_advance fun he => h ?_
    simpa [he] using hk
  · cases hc

end

end Parse

end IntelAsm

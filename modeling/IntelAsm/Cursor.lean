import IntelAsm.Token

/-!
# A cursor over a token list

The parser stands between two tokens: those it has passed and those ahead. It can look at any token
ahead; where the list has no more, it sees an end marker at the place of the last token. The cursor
only moves forward, one token at a time, and no further than the end (`Cursor.advance`).

`Cursor.Before` orders cursors over the same list.
-/

namespace IntelAsm

/-- A place between two tokens of a list. -/
structure Cursor where
  /-- The tokens passed, the nearest first. -/
  past : List Token
  ahead : List Token
deriving DecidableEq, Repr

namespace Cursor

/-- The cursor in front of a list. -/
def ofTokens (ts : List Token) : Cursor := ⟨[], ts⟩

/-- The list that the cursor stands in. -/
def tokens (c : Cursor) : List Token := c.past.reverse ++ c.ahead

/-- The number of tokens passed. -/
def position (c : Cursor) : Nat := c.past.length

/-- The last token of the list. -/
def last? (c : Cursor) : Option Token := c.ahead.getLast?.or c.past.head?

/-- What stands behind the last token: the end marker, at the place of that token. -/
def endMarker (c : Cursor) : Token :=
  match c.last? with
  | some t => if t.kind = .eof then t else ⟨⟨.eof, ""⟩, t.pos⟩
  | none => ⟨⟨.eof, ""⟩, {}⟩

/-- The token `n` places ahead. -/
def peek (c : Cursor) (n : Nat) : Token :=
  match c.ahead[n]? with
  | some t => t
  | none => c.endMarker

/-- The token `offset` places from the cursor. In front of the first token counting goes on from
the last, but no more than once through the list. -/
def look (c : Cursor) (offset : Int) : Option Token :=
  let i := c.position + offset
  if 0 ≤ offset then some (c.peek offset.toNat)
  else if 0 ≤ i then c.tokens[i.toNat]?
  else if 0 ≤ i + c.tokens.length then c.tokens[(i + c.tokens.length).toNat]?
  else none

/-- The token at the cursor. -/
def current (c : Cursor) : Token := c.peek 0

/-- The cursor behind the token at which it stands. -/
def advance (c : Cursor) : Cursor :=
  match c.ahead with
  | [] => c
  | t :: ts => ⟨t :: c.past, ts⟩

/-! ### Order -/

/-- Both cursors stand in the same list, the second no earlier than the first. -/
def Before (c d : Cursor) : Prop :=
  ∃ ts, c.ahead = ts ++ d.ahead ∧ d.past = ts.reverse ++ c.past

theorem Before.refl (c : Cursor) : c.Before c := ⟨[], rfl, rfl⟩

theorem Before.trans {c d e : Cursor} : c.Before d → d.Before e → c.Before e := by
  rintro ⟨ts, h1, h2⟩ ⟨us, h3, h4⟩
  exact ⟨ts ++ us, by simp [h1, h3], by simp [h2, h4]⟩

/-- A cursor further on has no more tokens ahead. -/
theorem Before.length_ahead {c d : Cursor} (h : c.Before d) :
    d.ahead.length ≤ c.ahead.length := by
  obtain ⟨ts, h, _⟩ := h
  simp [h]

theorem before_advance (c : Cursor) : c.Before c.advance := by
  rcases c with ⟨past, _ | ⟨t, ts⟩⟩
  · exact .refl _
  · exact ⟨[t], rfl, rfl⟩

/-- At the end of the list the cursor sees the end marker. -/
theorem kind_current_of_ahead_eq_nil {c : Cursor} (h : c.ahead = []) : c.current.kind = .eof := by
  simp only [current, peek, h, List.getElem?_nil, endMarker]
  split
  · split <;> simp_all
  · rfl

/-- A token that is not the end marker is passed for good. -/
theorem length_ahead_advance {c : Cursor} (h : c.current.kind ≠ .eof) :
    c.advance.ahead.length < c.ahead.length := by
  rcases c with ⟨past, _ | ⟨t, ts⟩⟩
  · exact absurd (kind_current_of_ahead_eq_nil rfl) h
  · exact Nat.lt_succ_self _

end Cursor

end IntelAsm

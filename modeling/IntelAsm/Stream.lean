import IntelAsm.Pos

/-!
# A cursor over a source text

A stream is a text and a cursor in it: the number of characters before the cursor, the place of the
cursor, and the text ahead. The cursor moves over characters (`Stream.skip`, `Stream.next`) and can
be put back where a snapshot was taken (`Stream.restore`). Looking ahead, or behind, moves nothing.
-/

namespace IntelAsm

/-- A source text with a cursor. -/
structure Stream where
  source : List Char
  position : Nat := 0
  place : Pos := .start
  /-- What follows the cursor; nothing, if it stands beyond the end. -/
  ahead : List Char := source.drop position
  ahead_eq : ahead = source.drop position := by rfl

namespace Stream

/-- The cursor at the start of a text. -/
def ofString (s : String) : Stream where source := s.toList

/-- Whether no character follows the cursor. -/
def atEnd (s : Stream) : Bool := s.ahead.isEmpty

/-- The character `offset` places from the cursor, if the text has one there. -/
def peek (s : Stream) (offset : Int := 0) : Option Char :=
  let i := s.position + offset
  if i < 0 then none else s.source[i.toNat]?

/-- The cursor behind the next `n` characters, or at the end of a text with fewer. -/
def skip (s : Stream) (n : Nat) : Stream where
  source := s.source
  position := s.position + (s.ahead.take n).length
  place := s.place.afterAll (s.ahead.take n)
  ahead := s.ahead.drop n
  ahead_eq := by
    rw [s.ahead_eq, List.drop_drop, List.length_take]
    rcases Nat.le_total n (s.source.drop s.position).length with h | h
    · rw [Nat.min_eq_left h]
    · rw [Nat.min_eq_right h, ← List.drop_drop, ← List.drop_drop,
        List.drop_of_length_le h, List.drop_of_length_le (Nat.le_refl _)]

@[simp] theorem ahead_skip (s : Stream) (n : Nat) : (s.skip n).ahead = s.ahead.drop n := rfl

/-- The next character and the cursor behind it. -/
def next? (s : Stream) : Option (Char × Stream) :=
  s.ahead.head?.map fun c => (c, s.skip 1)

/-! ### Snapshots -/

/-- What a stream remembers of its cursor. -/
structure Snapshot where
  position : Nat
  place : Pos
deriving DecidableEq, Repr

/-- Where the cursor stands. -/
def snapshot (s : Stream) : Snapshot := ⟨s.position, s.place⟩

/-- The cursor put back where a snapshot was taken. -/
def restore (s : Stream) (m : Snapshot) : Stream where
  source := s.source
  position := m.position
  place := m.place

end Stream

end IntelAsm

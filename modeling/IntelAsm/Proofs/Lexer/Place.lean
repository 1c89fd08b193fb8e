import IntelAsm.Pos

/-!
# Places by counting

The place behind a text is told by its newlines and by what follows the last of them
(`Pos.behind`); moving over the text character by character leads there (`afterAll_behind`). Places
are ordered by line and column, and moving over characters leads to later ones (`lt_afterAll`).
-/

namespace IntelAsm

namespace Pos

/-! ### Counting -/

/-- The place behind a text that starts the source: one line more than it has newlines, and one
column more than it has characters behind the last of them. -/
def behind (cs : List Char) : Pos :=
  ⟨1 + cs.count '\n', 1 + (cs.reverse.takeWhile (· ≠ '\n')).length⟩

theorem behind_nil : behind [] = start := rfl

theorem behind_append_singleton (cs : List Char) (c : Char) :
    behind (cs ++ [c]) = (behind cs).after c := by
  by_cases hc : c = '\n'
  · subst hc
    simp [behind, after, Int.add_assoc]
  · simp [behind, after, hc, Int.add_assoc]

/-- Counting and moving agree, wherever the move starts. -/
theorem afterAll_behind (before cs : List Char) :
    (behind before).afterAll cs = behind (before ++ cs) := by
  induction cs generalizing before with
  | nil => simp
  | cons c cs ih =>
    rw [afterAll_cons, ← behind_append_singleton, ih, List.append_assoc]
    rfl

/-! ### Order -/

/-- Places are ordered as they follow each other in a text. -/
instance : LT Pos := ⟨fun p q => p.line < q.line ∨ p.line = q.line ∧ p.column < q.column⟩

theorem lt_iff {p q : Pos} :
    p < q ↔ p.line < q.line ∨ p.line = q.line ∧ p.column < q.column := Iff.rfl

instance (p q : Pos) : Decidable (p < q) := decidable_of_iff _ lt_iff.symm

theorem lt_trans {p q r : Pos} (hpq : p < q) (hqr : q < r) : p < r := by
  rw [lt_iff] at *
  omega

theorem lt_after (p : Pos) (c : Char) : p < p.after c := by
  unfold after
  split
  · exact .inl (Int.lt_succ p.line)
  · exact .inr ⟨rfl, Int.lt_succ p.column⟩

/-- Moving over characters leads to a later place. -/
theorem lt_afterAll {cs : List Char} (h : cs ≠ []) (p : Pos) : p < p.afterAll cs := by
  induction cs generalizing p with
  | nil => exact absurd rfl h
  | cons c cs ih =>
    rw [afterAll_cons]
    cases cs with
    | nil => exact lt_after p c
    | cons d ds => exact lt_trans (lt_after p c) (ih (by simp) _)

end Pos

end IntelAsm

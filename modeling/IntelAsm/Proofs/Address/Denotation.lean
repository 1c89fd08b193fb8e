import Mathlib.Tactic.Ring
import IntelAsm.Proofs.Address.Exact

/-!
# What an address denotes

With numbers for its registers an address has a value (`Address.value`), and so has what is written
between the brackets, where each term counts with its sign (`WrittenAddress.sum`). The tree has no
place for the sign of an index, and the parser drops it: a subtracted register counts as an added
one (`WrittenAddress.value_modEq`). So modulo 2^64 both values agree for all registers only if
nothing is subtracted, or if twice what is subtracted vanishes (`memoryOperand_denotes_iff`).
-/

namespace IntelAsm

open Parse

/-! ### Values -/

section
variable (ρ : String → Int)

/-- The value of an address where registers have the values `ρ`; absent parts count as zero. -/
def Address.value (a : Address) : Int :=
  a.base.elim 0 ρ + a.index.elim 0 (fun r => ρ r * a.scale) + a.displacement.getD 0

def FirstTerm.value : FirstTerm → Int
  | .none => 0
  | .register name => ρ name
  | .number n => n.number

def Term.value : Term → Int
  | .register name factor => ρ name * factor.elim 1 Literal.number
  | .number n => n.number

/-- The value of a term with its sign. -/
def SignedTerm.value (x : SignedTerm) : Int := x.sign.apply (x.term.value ρ)

/-- The sum of the terms as they are written. -/
def WrittenAddress.sum (x : WrittenAddress) : Int :=
  x.first.value ρ + (x.signed.map (SignedTerm.value ρ)).sum

/-- A register times its factor. -/
def scaled (i : String × Int) : Int := ρ i.1 * i.2

end

/-- The register of a term with a minus sign, and its factor. -/
def SignedTerm.subtracted? (x : SignedTerm) : Option (String × Int) :=
  match x.sign with
  | .plus => none
  | .minus => x.index?

/-- The register with a minus sign and its factor, as a list. -/
def WrittenAddress.subtracted (x : WrittenAddress) : List (String × Int) :=
  x.signed.filterMap SignedTerm.subtracted?

/-! ### Term by term -/

variable {ρ : String → Int}

theorem Literal.number_modEq (n : Literal) : n.number ≡ n.value [ZMOD Numeral.wordCount] :=
  (Numeral.signedWord_modEq n.number).symm

theorem Sign.apply_modEq {m i j : Int} (h : i ≡ j [ZMOD m]) (s : Sign) :
    s.apply i ≡ s.apply j [ZMOD m] := by
  cases s
  · exact h
  · exact h.neg

/-- A subtracted register is kept like an added one, so it is missing twice. -/
theorem SignedTerm.value_modEq (x : SignedTerm) :
    x.value ρ + 2 * x.subtracted?.elim 0 (scaled ρ) ≡
      x.index?.elim 0 (scaled ρ) + x.displacement?.getD 0 [ZMOD Numeral.wordCount] := by
  obtain ⟨sign, ⟨name, factor⟩ | n⟩ := x
  · have hfactor : ρ name * factor.elim 1 Literal.number ≡
        scaled ρ (name, factor.elim 1 Literal.value) [ZMOD Numeral.wordCount] := by
      cases factor with
      | none => rfl
      | some n => exact n.number_modEq.mul_left _
    simp only [SignedTerm.value, subtracted?, index?, displacement?, Term.value]
    cases sign with
    | plus => simpa [Sign.apply] using hfactor
    | minus =>
      have hdouble (v : Int) : -v + 2 * v = v := by ring
      have h := hfactor.neg.add_right (2 * scaled ρ (name, factor.elim 1 Literal.value))
      rw [hdouble] at h
      simpa [Sign.apply] using h
  · have h := Sign.apply_modEq n.number_modEq sign
    cases sign <;> simpa [SignedTerm.value, subtracted?, index?, displacement?, Term.value] using h

theorem sum_filterMap_cons {α β : Type} (f : α → Option β) (g : β → Int) (x : α) (xs : List α) :
    (((x :: xs).filterMap f).map g).sum = (f x).elim 0 g + ((xs.filterMap f).map g).sum := by
  cases hx : f x <;> simp [hx]

theorem SignedTerm.sum_modEq (xs : List SignedTerm) :
    (xs.map (SignedTerm.value ρ)).sum +
        2 * ((xs.filterMap SignedTerm.subtracted?).map (scaled ρ)).sum ≡
      ((xs.filterMap SignedTerm.index?).map (scaled ρ)).sum +
        ((xs.filterMap SignedTerm.displacement?).map id).sum [ZMOD Numeral.wordCount] := by
  induction xs with
  | nil => rfl
  | cons x xs ih =>
    simp only [sum_filterMap_cons, List.map_cons, List.sum_cons]
    have hnumber : x.displacement?.elim 0 id = x.displacement?.getD 0 := by
      cases x.displacement? <;> rfl
    rw [hnumber]
    calc x.value ρ + (xs.map (SignedTerm.value ρ)).sum + 2 * (x.subtracted?.elim 0 (scaled ρ) +
          ((xs.filterMap SignedTerm.subtracted?).map (scaled ρ)).sum)
      _ = x.value ρ + 2 * x.subtracted?.elim 0 (scaled ρ) + ((xs.map (SignedTerm.value ρ)).sum +
          2 * ((xs.filterMap SignedTerm.subtracted?).map (scaled ρ)).sum) := by ring
      _ ≡ _ [ZMOD Numeral.wordCount] := x.value_modEq.add ih
      _ = _ := by ring

/-! ### Addresses -/

namespace WrittenAddress

variable {x : WrittenAddress}

theorem subtracted_sublist (x : WrittenAddress) : x.subtracted.Sublist x.indices := by
  unfold subtracted indices
  induction x.signed with
  | nil => exact .slnil
  | cons t ts ih =>
    have hsome {i : String × Int} (hi : t.subtracted? = some i) : t.index? = some i := by
      obtain ⟨_ | _, term⟩ := t
      · cases hi
      · exact hi
    cases hi : t.subtracted? with
    | some i =>
      rw [List.filterMap_cons_some hi, List.filterMap_cons_some (hsome hi)]
      exact ih.cons_cons i
    | none =>
      rw [List.filterMap_cons_none hi]
      cases hj : t.index? with
      | none => rwa [List.filterMap_cons_none hj]
      | some j =>
        rw [List.filterMap_cons_some hj]
        exact ih.cons j

theorem sum_displacements (h : x.displacements.length ≤ 1) :
    x.address.displacement.getD 0 ≡ x.displacements.sum [ZMOD Numeral.wordCount] := by
  unfold address
  match x.displacements, h with
  | [], _ => rfl
  | [v], _ => simpa using Numeral.signedWord_modEq v

theorem sum_indices (x : WrittenAddress) :
    x.address.index.elim 0 (fun r => ρ r * x.address.scale) = (x.indices.map (scaled ρ)).sum := by
  have hlength := x.length_indices
  change x.indices.length ≤ 1 at hlength
  unfold address
  match x.indices, hlength with
  | [], _ => rfl
  | [i], _ => simp [scaled]

theorem value_first (x : FirstTerm) :
    x.value ρ ≡ x.register?.elim 0 ρ + x.displacement?.getD 0 [ZMOD Numeral.wordCount] := by
  cases x with
  | none => rfl
  | register name => simp [FirstTerm.value, FirstTerm.register?, FirstTerm.displacement?]
  | number n =>
    simpa [FirstTerm.value, FirstTerm.register?, FirstTerm.displacement?] using n.number_modEq

/-- The address has the value that is written, but a subtracted register counts as an added one. -/
theorem value_modEq (h : x.displacements.length ≤ 1) :
    x.address.value ρ ≡ x.sum ρ + 2 * (x.subtracted.map (scaled ρ)).sum
      [ZMOD Numeral.wordCount] := by
  have hsplit : x.displacements.sum = x.first.displacement?.getD 0 +
      ((x.signed.filterMap SignedTerm.displacement?).map id).sum := by
    unfold displacements
    cases x.first.displacement? <;> simp
  have hterms := (value_first x.first (ρ := ρ)).add (SignedTerm.sum_modEq x.signed (ρ := ρ))
  have hsum : x.sum ρ + 2 * (x.subtracted.map (scaled ρ)).sum ≡
      x.first.register?.elim 0 ρ + (x.indices.map (scaled ρ)).sum + x.displacements.sum
        [ZMOD Numeral.wordCount] := by
    unfold sum subtracted indices
    rw [hsplit]
    calc _ = _ := by ring
      _ ≡ _ [ZMOD Numeral.wordCount] := hterms
      _ = _ := by ring
  refine Int.ModEq.trans ?_ hsum.symm
  unfold Address.value
  rw [sum_indices]
  exact (sum_displacements h).add_left _

/-- The values agree if and only if what is subtracted vanishes when it is doubled. -/
theorem value_modEq_sum_iff (h : x.displacements.length ≤ 1) :
    (∀ ρ, x.address.value ρ ≡ x.sum ρ [ZMOD Numeral.wordCount]) ↔
      ∀ i ∈ x.subtracted, 2 ^ 63 ∣ i.2 := by
  have hdouble (i : Int) : (Numeral.wordCount : Int) ∣ 2 * i ↔ 2 ^ 63 ∣ i := by
    rw [show (Numeral.wordCount : Int) = 2 * 2 ^ 63 by decide]
    exact Int.mul_dvd_mul_iff_left (by decide)
  have hiff (ρ : String → Int) : x.address.value ρ ≡ x.sum ρ [ZMOD Numeral.wordCount] ↔
      2 ^ 63 ∣ (x.subtracted.map (scaled ρ)).sum := by
    have hvalue := value_modEq h (ρ := ρ)
    rw [← hdouble]
    constructor
    · intro heq
      simpa using Int.modEq_iff_dvd.1 (heq.symm.trans hvalue)
    · intro hdvd
      refine hvalue.trans ?_
      simpa using (Int.modEq_zero_iff_dvd.2 hdvd).add_left (x.sum ρ)
  simp only [hiff]
  match x.subtracted, x.subtracted_sublist.length_le.trans x.length_indices with
  | [], _ => simp
  | [i], _ =>
    constructor
    · intro hall
      simpa [scaled] using hall fun _ => 1
    · intro hi ρ
      simpa [scaled] using Dvd.dvd.mul_left (hi i (by simp)) (ρ i.1)

end WrittenAddress

/-! ### Operands in memory -/

/-- A register minus another, as it is written. -/
def WrittenAddress.difference (a b : String) : WrittenAddress where
  first := .register a
  signed := [⟨.minus, .register b none⟩]
  nonempty := nofun
  length_indices := Nat.le_refl 1

theorem WrittenAddress.spells_difference {l a s b r : Token} (hl : l.kind = .mark .leftBracket)
    (ha : a.kind = .register) (hs : s.kind = .mark .minus) (hb : b.kind = .register)
    (hr : r.kind = .mark .rightBracket) :
    (difference a.text b.text).Spells none [l, a, s, b, r] := by
  have hsegment : SpellsSegment none (difference a.text b.text).segment [] := .none
  have hfirst : (difference a.text b.text).first.Spells [a] := .register ha
  have hsigned : SignedTerm.SpellsAll (difference a.text b.text).signed ([s, b] ++ []) :=
    .cons hs (.register hb) .nil
  exact .mk hl hsegment hfirst hsigned hr

/-- A memory operand that is read denotes the sum of its terms, at most one of them a number, if and
only if no register is subtracted, or only times a multiple of 2^63. -/
theorem memoryOperand_denotes_iff (pos : Pos) (size : Option Int) (outside : Option String)
    (c d : Cursor) (o : Operand) (h : memoryOperand pos size outside c = .ok o d) :
    ∃ (x : WrittenAddress) (ts : List Token), x.Spells outside ts ∧ c.ahead = ts ++ d.ahead ∧
      o.form = .memory x.address ∧
      (x.displacements.length ≤ 1 →
        ((∀ ρ, x.address.value ρ ≡ x.sum ρ [ZMOD Numeral.wordCount]) ↔
          ∀ i ∈ x.subtracted, 2 ^ 63 ∣ i.2)) := by
  obtain ⟨x, ts, hx, hahead, -, rfl⟩ := memoryOperand_eq_ok_iff_written.1 h
  exact ⟨x, ts, hx, hahead, rfl, WrittenAddress.value_modEq_sum_iff⟩

/-- The difference of two registers is read. -/
theorem memoryOperand_denotes_iff_of_difference :
    ∃ c d o, memoryOperand {} none none c = .ok o d ∧
      ∃ (x : WrittenAddress) (ts : List Token), x.Spells none ts ∧ c.ahead = ts ++ d.ahead ∧
        o.form = .memory x.address ∧
        (x.displacements.length ≤ 1 →
          ((∀ ρ, x.address.value ρ ≡ x.sum ρ [ZMOD Numeral.wordCount]) ↔
            ∀ i ∈ x.subtracted, 2 ^ 63 ∣ i.2)) := by
  have hspells := WrittenAddress.spells_difference (l := ⟨Mark.leftBracket.word, {}⟩)
    (a := ⟨⟨.register, "eax"⟩, {}⟩) (s := ⟨Mark.minus.word, {}⟩) (b := ⟨⟨.register, "ebx"⟩, {}⟩)
    (r := ⟨Mark.rightBracket.word, {}⟩) rfl rfl rfl rfl rfl
  have hok : memoryOperand {} none none ⟨[], _⟩ = .ok _ ⟨_, []⟩ :=
    memoryOperand_eq_ok_iff_written.2 ⟨_, _, hspells, rfl, (List.append_nil _).symm, rfl⟩
  exact ⟨_, _, _, hok, memoryOperand_denotes_iff _ _ _ _ _ _ hok⟩

/-- The difference of two registers is read as their sum: where both are one, the address is two. -/
theorem difference_read_as_sum :
    ∃ (x : WrittenAddress) (ts : List Token) (d : Cursor),
      tokenize "[eax-ebx]" = .ok (ts ++ d.ahead) ∧
      memoryOperand {} none none (.ofTokens (ts ++ d.ahead)) = .ok ⟨.memory x.address, none, {}⟩ d ∧
      x.Spells none ts ∧ x.displacements.length ≤ 1 ∧
      ¬x.address.value (fun _ => 1) ≡ x.sum (fun _ => 1) [ZMOD Numeral.wordCount] := by
  have hspells := WrittenAddress.spells_difference (l := ⟨⟨.mark .leftBracket, "["⟩, ⟨1, 1⟩⟩)
    (a := ⟨⟨.register, "eax"⟩, ⟨1, 2⟩⟩) (s := ⟨⟨.mark .minus, "-"⟩, ⟨1, 5⟩⟩)
    (b := ⟨⟨.register, "ebx"⟩, ⟨1, 6⟩⟩) (r := ⟨⟨.mark .rightBracket, "]"⟩, ⟨1, 9⟩⟩)
    rfl rfl rfl rfl rfl
  refine ⟨_, _, ⟨_, [⟨⟨.eof, ""⟩, ⟨1, 10⟩⟩]⟩, ?_,
    memoryOperand_eq_ok_iff_written.2 ⟨_, _, hspells, rfl, (List.append_nil _).symm, rfl⟩, hspells,
    Nat.zero_le 1, ?_⟩
  · decide +kernel
  · decide

end IntelAsm

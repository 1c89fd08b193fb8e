import Mathlib.Data.Int.ModEq
import Mathlib.Data.List.Induction
import IntelAsm.Proofs.Numeral.Reading

/-!
# Values as signed words

Whatever the text of a numeric word is, a value of it is a signed word of 64 bits
(`Word.value_mem`). It is that of the number which the text spells, however large
(`Word.exists_number_of_value`), and a word that consists of digits has a value whenever that number
is in range (`Word.IsNumeral.value_eq_ok_iff`).
-/

namespace IntelAsm

namespace Numeral

/-! ### How large a number can be -/

/-- A row of digits stands for a number below the power of the base. -/
theorem ofDigits_lt {base : Nat} (ds : List Nat) (h : ∀ d ∈ ds, d < base) :
    ofDigits base ds < base ^ ds.length := by
  induction ds using List.reverseRecOn with
  | nil => simp [ofDigits]
  | append_singleton ds d ih =>
    rw [List.forall_mem_append, List.forall_mem_singleton] at h
    have hds : ofDigits base ds + 1 ≤ base ^ ds.length := ih h.1
    calc ofDigits base (ds ++ [d])
      _ = ofDigits base ds * base + d := ofDigits_append_singleton base ds d
      _ < ofDigits base ds * base + base := Nat.add_lt_add_left h.2 _
      _ = (ofDigits base ds + 1) * base := (Nat.succ_mul _ _).symm
      _ ≤ base ^ ds.length * base := Nat.mul_le_mul_right base hds
      _ = base ^ (ds ++ [d]).length := by rw [List.length_append, List.length_singleton, pow_succ]

theorem digit?_lt {base d : Nat} {c : Char} (h : digit? base c = some d) : d < base := by
  simpa using (Option.filter_eq_some_iff.1 h).2

/-- The first digit of a row, and what the digits behind it are. -/
theorem row?_cons {base : Nat} {c : Char} {cs : List Char} {ds : List Nat}
    (h : row? base (c :: cs) = some ds) :
    ∃ d es, ds = d :: es ∧ d < base ∧ (es = [] ∨ ∃ us, us <:+ cs ∧ row? base us = some es) := by
  rw [row?] at h
  obtain ⟨d, hd, h⟩ := Option.bind_eq_some_iff.1 h
  split at h
  · cases h
    exact ⟨d, [], rfl, digit?_lt hd, .inl rfl⟩
  · obtain ⟨es, hes, h⟩ := Option.bind_eq_some_iff.1 h
    cases h
    exact ⟨d, es, rfl, digit?_lt hd, .inr ⟨_, List.suffix_cons _ _, hes⟩⟩
  · obtain ⟨es, hes, h⟩ := Option.bind_eq_some_iff.1 h
    cases h
    exact ⟨d, es, rfl, digit?_lt hd, .inr ⟨_, List.suffix_refl _, hes⟩⟩

/-- A row has no more digits than characters, each below the base. -/
theorem row?_bounds {base : Nat} {cs : List Char} {ds : List Nat} (h : row? base cs = some ds) :
    ds.length ≤ cs.length ∧ ∀ d ∈ ds, d < base := by
  induction hn : cs.length using Nat.strongRecOn generalizing cs ds with
  | _ n ih =>
    subst hn
    cases cs with
    | nil => cases h
    | cons c cs =>
      obtain ⟨d, es, rfl, hd, rfl | ⟨us, hus, hes⟩⟩ := row?_cons h
      · exact ⟨by simp, by simpa using hd⟩
      · have hle := hus.length_le
        obtain ⟨hlength, hlt⟩ := ih us.length (Nat.lt_succ_of_le hle) hes rfl
        refine ⟨?_, List.forall_mem_cons.2 ⟨hd, hlt⟩⟩
        exact Nat.succ_le_succ (hlength.trans hle)

theorem length_afterMarker_le (cs : List Char) : (afterMarker cs).length ≤ cs.length := by
  unfold afterMarker
  split
  · split
    · split
      all_goals
        simp only [List.length_cons]
        omega
    · exact Nat.le_refl _
  · exact Nat.le_refl _

/-- As many digits as characters at most: the number stays below that power of the base. -/
theorem natural?_lt {base n : Nat} (hb : 0 < base) {cs : List Char}
    (h : natural? base cs = some n) : n < base ^ cs.length := by
  obtain ⟨ds, hds, rfl⟩ := Option.map_eq_some_iff.1 h
  obtain ⟨hlength, hlt⟩ := row?_bounds hds
  refine (ofDigits_lt ds hlt).trans_le (Nat.pow_le_pow_right hb (hlength.trans ?_))
  split
  · exact length_afterMarker_le cs
  · exact Nat.le_refl _

theorem length_trimBlanks_le (cs : List Char) : (Text.trimBlanks cs).length ≤ cs.length := by
  unfold Text.trimBlanks
  rw [List.length_reverse]
  refine (List.dropWhile_sublist _).length_le.trans ?_
  rw [List.length_reverse]
  exact (List.dropWhile_sublist _).length_le

/-- A negative number takes one character for its sign. -/
theorem lt_of_integer? {base : Nat} (hb : 0 < base) {cs : List Char} {i : Int}
    (h : integer? base cs = some i) : -(base ^ (cs.length - 1) : Nat) < i := by
  have hlength := length_trimBlanks_le (cs.map asciiForm)
  rw [List.length_map] at hlength
  have hpow : 0 < base ^ (cs.length - 1) := Nat.pow_pos hb
  have hpos {n : Nat} (hi : (n : Int) = i) : -(base ^ (cs.length - 1) : Nat) < i := by omega
  unfold integer? at h
  split at h
  · next ds htrim =>
    obtain ⟨n, -, hi⟩ : ∃ n, natural? base ds = some n ∧ (n : Int) = i := by
      simpa [Option.bind_eq_some_iff] using h
    exact hpos hi
  · next ds htrim =>
    obtain ⟨n, hn, rfl⟩ : ∃ n, natural? base ds = some n ∧ -(n : Int) = i := by
      simpa [Option.bind_eq_some_iff] using h
    rw [htrim, List.length_cons] at hlength
    have hlt : n < base ^ (cs.length - 1) :=
      (natural?_lt hb hn).trans_le (Nat.pow_le_pow_right hb (by omega))
    omega
  · obtain ⟨n, -, hi⟩ :
        ∃ n, natural? base (Text.trimBlanks (cs.map asciiForm)) = some n ∧ (n : Int) = i := by
      simpa [Option.bind_eq_some_iff] using h
    exact hpos hi

/-- A row whose first digit counts stands for no less than the power of the base behind it. -/
theorem pow_le_ofDigits {base d : Nat} (hd : 0 < d) (ds : List Nat) :
    base ^ ds.length ≤ ofDigits base (d :: ds) := by
  induction ds using List.reverseRecOn with
  | nil => simpa [ofDigits] using Nat.one_le_iff_ne_zero.2 hd.ne'
  | append_singleton ds e ih =>
    rw [← List.cons_append, ofDigits_append_singleton, List.length_append, List.length_singleton,
      pow_succ]
    exact (Nat.mul_le_mul_right base ih).trans (Nat.le_add_right _ _)

theorem digit?_pos {base d : Nat} {c : Char} (h : digit? base c = some d) (hc : c ≠ '0') :
    0 < d := by
  obtain ⟨hv, -⟩ := Option.filter_eq_some_iff.1 h
  have hne : c.toNat ≠ 0x30 := fun h0 => hc (Char.toNat_inj.1 h0)
  rw [digitValue?_eq] at hv
  repeat' split at hv
  all_goals simp at hv
  all_goals omega

/-- As many digits as count are needed for the number that they spell. -/
theorem pow_le_of_significant {cs : List Char} (h : ∀ c ∈ cs, isDecimalDigit c) {n : Int}
    (hn : integer? 10 (significant cs) = some n) (hlength : 1 < (significant cs).length) :
    (10 ^ ((significant cs).length - 1) : Nat) ≤ n := by
  have hdigits := isDigits_significant h
  rw [integer?_eq hdigits] at hn
  obtain rfl := Option.some.inj hn
  unfold significant at hdigits hlength ⊢
  cases hcs : cs.dropWhile (· = '0') with
  | nil => simp [hcs] at hlength
  | cons c ds =>
    simp only [hcs] at hdigits ⊢
    have hc : c ≠ '0' := by
      have := List.head?_dropWhile_not (p := (· = '0')) cs
      simpa [hcs] using this
    obtain ⟨d, hd⟩ := hdigits.isSome c (by simp)
    have hlen : (ds.filterMap (digit? 10)).length = ds.length :=
      List.filterMap_length_eq_length.2 fun e he =>
        Option.isSome_iff_exists.2 (hdigits.isSome e (List.mem_cons_of_mem _ he))
    rw [List.filterMap_cons_some hd, List.length_cons, Nat.add_sub_cancel, ← hlen]
    exact Int.ofNat_le.2 (pow_le_ofDigits (digit?_pos hd hc) _)

/-- Keeping the low 64 bits changes nothing modulo 2^64. -/
theorem signedWord_modEq (i : Int) : signedWord i ≡ i [ZMOD wordCount] :=
  Int.bmod_emod

end Numeral

/-! ### Values of words -/

namespace Word

/-- The number that the text of a word spells, however large; leading zeros of a decimal one are not
read. -/
def number? (w : Word) : Option Int :=
  if w.kind = .hexNumber then Numeral.integer? 16 w.text.toList
  else Numeral.integer? 10 (Numeral.significant w.text.toList)

/-- The largest number that a numeric word may spell. -/
def largest (w : Word) : Int :=
  if w.kind = .hexNumber then (Numeral.wordCount : Int) - 1 else Numeral.maxSigned

variable {w : Word} {v : Int}

/-- A value is the signed word of the number that is spelled. -/
theorem exists_number_of_value (h : w.value = .ok v) :
    ∃ n, w.number? = some n ∧ n ≤ w.largest ∧ v = Numeral.signedWord n := by
  unfold value at h
  by_cases hk : w.kind = .hexNumber
  · rw [number?, largest, if_pos hk, if_pos hk]
    rw [if_pos hk] at h
    cases hn : Numeral.integer? 16 w.text.toList with
    | none => simp [hn] at h
    | some n =>
      simp only [hn] at h
      split at h <;> cases h
      next hlt =>
      exact ⟨n, rfl, by omega, rfl⟩
  · rw [number?, largest, if_neg hk, if_neg hk]
    simp only [if_neg hk] at h
    split at h
    · cases h
    next hlength =>
    cases hn : Numeral.integer? 10 (Numeral.significant w.text.toList) with
    | none => simp [hn] at h
    | some n =>
      simp only [hn] at h
      split at h <;> cases h
      next hle =>
      refine ⟨_, rfl, hle, (signedWord_eq_self ?_ hle).symm⟩
      -- nineteen characters, so at most eighteen digits behind a minus sign
      have hlt := Numeral.lt_of_integer? (by decide) hn
      have hpow : 10 ^ ((Numeral.significant w.text.toList).length - 1) ≤ 10 ^ 18 :=
        Nat.pow_le_pow_right (by decide) (by unfold maxDecimalDigits at hlength; omega)
      unfold Numeral.minSigned
      omega

theorem value_mem (h : w.value = .ok v) : Numeral.minSigned ≤ v ∧ v ≤ Numeral.maxSigned := by
  obtain ⟨n, -, -, rfl⟩ := exists_number_of_value h
  exact signedWord_mem n

theorem signedWord_of_value (h : w.value = .ok v) : Numeral.signedWord v = v :=
  signedWord_eq_self (value_mem h).1 (value_mem h).2

/-- The value of digits is missing only where they spell too large a number: their count alone never
decides otherwise. -/
theorem IsNumeral.value_eq_ok_iff (h : w.IsNumeral) (hk : w.kind.isNumeric) :
    w.value = .ok v ↔ ∃ n, w.number? = some n ∧ n ≤ w.largest ∧ v = Numeral.signedWord n := by
  constructor
  · exact exists_number_of_value
  · rintro ⟨n, hn, hle, rfl⟩
    unfold number? at hn
    unfold largest at hle
    by_cases hx : w.kind = .hexNumber
    · rw [if_pos hx] at hn hle
      simp only [value, if_pos hx, hn]
      exact if_pos (by omega)
    · rw [if_neg hx] at hn hle
      have hdecimal : w.kind = .number := by simpa [TokenKind.isNumeric, hx] using hk
      have hlength : ¬(Numeral.significant w.text.toList).length > maxDecimalDigits := by
        intro hlong
        unfold maxDecimalDigits at hlong
        have hlow := Numeral.pow_le_of_significant (h.decimal hdecimal) hn (by omega)
        have hpow : 10 ^ 19 ≤ 10 ^ ((Numeral.significant w.text.toList).length - 1) :=
          Nat.pow_le_pow_right (by decide) (by omega)
        unfold Numeral.maxSigned at hle
        omega
      have hv : w.value = .ok n := by
        simp only [value, if_neg hx, if_neg hlength, hn]
        exact if_pos hle
      rw [hv, signedWord_of_value hv]

/-- Digits without a value spell a number that is out of range. -/
theorem IsNumeral.value_eq_error (h : w.IsNumeral) (hk : w.kind.isNumeric)
    (hv : ∀ v, w.value ≠ .ok v) : w.value = .error .outOfRange := by
  simp only [TokenKind.isNumeric, Bool.or_eq_true, decide_eq_true_eq] at hk
  rcases hk with hk | hk
  · rcases h.value_number hk with he | ⟨n, -, he⟩
    · exact he
    · exact absurd he (hv n)
  · obtain ⟨n, he⟩ := h.value_hexNumber hk
    split at he
    · exact absurd he (hv _)
    · exact he

end Word

end IntelAsm

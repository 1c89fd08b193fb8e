import Mathlib.Algebra.Group.Nat.Defs
import IntelAsm.Numeral.Integer
import IntelAsm.Parser.Expression

/-!
# Reading numerals

A row of digits always spells a number (`integer?_eq`, `integer?_sixteen`), so the value of a
numeric word is missing only where it is out of range (`Word.IsNumeral.value_ne`), and it is a
signed word of 64 bits (`Word.IsNumeral.value_mem`). A number that was written in decimal or in
hexadecimal notation is read back (`value_decimal`, `value_hexadecimal`).
-/

namespace IntelAsm

namespace Numeral

/-! ### Digit characters -/

theorem char_le_iff {a b : Char} : a ≤ b ↔ a.toNat ≤ b.toNat := by
  rw [Char.le_def, UInt32.le_iff_toNat_le]
  rfl

theorem isDecimalDigit_iff {c : Char} :
    isDecimalDigit c ↔ 0x30 ≤ c.toNat ∧ c.toNat ≤ 0x39 := by
  simp only [isDecimalDigit, Bool.and_eq_true, decide_eq_true_eq, char_le_iff]
  rfl

/-- The values of digit characters, in code points. -/
theorem digitValue?_eq (c : Char) :
    digitValue? c =
      if 0x30 ≤ c.toNat ∧ c.toNat ≤ 0x39 then some (c.toNat - 0x30)
      else if 0x41 ≤ c.toNat ∧ c.toNat ≤ 0x46 then some (c.toNat - 0x37)
      else if 0x61 ≤ c.toNat ∧ c.toNat ≤ 0x66 then some (c.toNat - 0x57)
      else none := by
  simp only [digitValue?, char_le_iff]
  rfl

/-- A digit is one of the digits and letters of ASCII. -/
theorem toNat_of_digit? {base d : Nat} {c : Char} (h : digit? base c = some d) :
    (0x30 ≤ c.toNat ∧ c.toNat ≤ 0x39) ∨ (0x41 ≤ c.toNat ∧ c.toNat ≤ 0x46) ∨
      (0x61 ≤ c.toNat ∧ c.toNat ≤ 0x66) := by
  have hv : digitValue? c ≠ none := by
    intro hn
    simp [digit?, hn] at h
  rw [digitValue?_eq] at hv
  split at hv
  · omega
  split at hv
  · omega
  split at hv
  · omega
  · exact absurd rfl hv

theorem digit?_ten_isSome {c : Char} (h : isDecimalDigit c) : ∃ d, digit? 10 c = some d := by
  have hc := isDecimalDigit_iff.mp h
  refine ⟨c.toNat - 0x30, ?_⟩
  rw [digit?, digitValue?_eq, if_pos hc]
  simp
  omega

theorem digit?_sixteen_isSome {c : Char} (h : isHexDigit c) : ∃ d, digit? 16 c = some d := by
  obtain ⟨d, hd⟩ := Option.isSome_iff_exists.mp h
  refine ⟨d, ?_⟩
  have hlt : d < 16 := by
    rw [digitValue?_eq] at hd
    repeat' split at hd
    all_goals simp at hd
    all_goals omega
  simp [digit?, hd, hlt]

/-! ### Rows of digits -/

/-- A row of at least one digit below the base. -/
structure IsDigits (base : Nat) (cs : List Char) : Prop where
  ne_nil : cs ≠ []
  isSome : ∀ c ∈ cs, ∃ d, digit? base c = some d

namespace IsDigits

variable {base : Nat} {cs : List Char}

/-- The separator is no digit of any base. -/
theorem ne_separator (h : IsDigits base cs) {c : Char} (hc : c ∈ cs) : c ≠ '_' := by
  rintro rfl
  obtain ⟨d, hd⟩ := h.isSome '_' hc
  have := toNat_of_digit? hd
  simp at this

/-- The number that a row of digits stands for. -/
theorem row?_eq (h : IsDigits base cs) : row? base cs = some (cs.filterMap (digit? base)) := by
  induction cs with
  | nil => exact absurd rfl h.ne_nil
  | cons c cs ih =>
    obtain ⟨d, hd⟩ := h.isSome c (by simp)
    cases cs with
    | nil => simp [row?, hd]
    | cons c' cs =>
      have hrow := ih ⟨by simp, fun x hx => h.isSome x (List.mem_cons_of_mem _ hx)⟩
      have hsep : c' ≠ '_' := h.ne_separator (by simp)
      rw [row?, hd]
      simp only [Option.bind_eq_bind, Option.bind_some]
      split
      · next h0 => cases h0
      · next h0 => exact absurd (List.cons.inj h0).1 hsep
      · rw [hrow]
        simp [hd]

theorem isAscii (h : IsDigits base cs) {c : Char} (hc : c ∈ cs) : Text.isAscii c := by
  obtain ⟨d, hd⟩ := h.isSome c hc
  have := toNat_of_digit? hd
  simp only [Text.isAscii, decide_eq_true_eq]
  omega

theorem isBlank (h : IsDigits base cs) {c : Char} (hc : c ∈ cs) : Text.isBlank c = false := by
  obtain ⟨d, hd⟩ := h.isSome c hc
  have hn := toNat_of_digit? hd
  have hsp : c ≠ ' ' := by
    rintro rfl
    simp at hn
  simp only [Text.isBlank, h.isAscii hc, if_true, hsp, decide_false, Bool.false_or]
  simp
  omega

theorem ne_sign (h : IsDigits base cs) {c : Char} (hc : c ∈ cs) : c ≠ '+' ∧ c ≠ '-' := by
  obtain ⟨d, hd⟩ := h.isSome c hc
  have hn := toNat_of_digit? hd
  constructor
  all_goals
    rintro rfl
    simp at hn

theorem plain (h : IsDigits base cs) {c : Char} (hc : c ∈ cs) :
    Text.isAscii c ∧ Text.isBlank c = false ∧ c ≠ '+' ∧ c ≠ '-' :=
  ⟨h.isAscii hc, h.isBlank hc, h.ne_sign hc⟩

/-- A row of digits has no marker. -/
theorem afterMarker_eq (h : IsDigits base cs) : afterMarker cs = cs := by
  unfold afterMarker
  split
  · next x ds =>
    have hx : ¬(x = 'x' ∨ x = 'X') := by
      obtain ⟨d, hd⟩ := h.isSome x (by simp)
      have hn := toNat_of_digit? hd
      rintro (rfl | rfl)
      all_goals simp at hn
    rw [if_neg (by simpa using hx)]
  · rfl

end IsDigits

/-- Blanks are trimmed at the ends only, so a text without blanks is not trimmed. -/
theorem trimBlanks_eq {cs : List Char} (h : ∀ c ∈ cs, Text.isBlank c = false) :
    Text.trimBlanks cs = cs := by
  have hdrop (ds : List Char) (hd : ∀ c ∈ ds, Text.isBlank c = false) :
      ds.dropWhile Text.isBlank = ds := by
    cases ds with
    | nil => rfl
    | cons d ds => simp [hd d (by simp)]
  rw [Text.trimBlanks, hdrop cs h, hdrop cs.reverse (by simpa using h), List.reverse_reverse]

/-- A text without blanks and signs that stays within ASCII spells what its digits spell. -/
theorem integer?_of_plain {base : Nat} {cs : List Char}
    (h : ∀ c ∈ cs, Text.isAscii c ∧ Text.isBlank c = false ∧ c ≠ '+' ∧ c ≠ '-') :
    integer? base cs = (natural? base cs).map fun n : Nat => (n : Int) := by
  have hmap : cs.map asciiForm = cs := by
    have hid : ∀ c ∈ cs, asciiForm c = id c := fun c hc => by simp [asciiForm, (h c hc).1]
    rw [List.map_congr_left hid, List.map_id]
  rw [integer?, hmap, trimBlanks_eq fun c hc => (h c hc).2.1]
  split
  · next ds => exact absurd rfl (h '+' (by simp)).2.2.1
  · next ds => exact absurd rfl (h '-' (by simp)).2.2.2
  · cases natural? base cs <;> rfl

/-- A row of digits spells a number. -/
theorem integer?_eq {base : Nat} {cs : List Char} (h : IsDigits base cs) :
    integer? base cs = some (ofDigits base (cs.filterMap (digit? base)) : Int) := by
  have hm : (if base = 16 then afterMarker cs else cs) = cs := by
    split
    · exact h.afterMarker_eq
    · rfl
  rw [integer?_of_plain fun _ => h.plain, natural?, hm, h.row?_eq]
  rfl

/-- The marker of a hexadecimal numeral changes nothing. -/
theorem integer?_sixteen {x : Char} (hx : x = 'x' ∨ x = 'X') {cs : List Char}
    (h : IsDigits 16 cs) :
    integer? 16 ('0' :: x :: cs) = some (ofDigits 16 (cs.filterMap (digit? 16)) : Int) := by
  have hm : afterMarker ('0' :: x :: cs) = cs := by
    obtain ⟨c, ds, rfl⟩ := List.exists_cons_of_ne_nil h.ne_nil
    have hsep : c ≠ '_' := h.ne_separator (by simp)
    rw [afterMarker, if_pos (by simpa using hx)]
    exact fun ds h0 => hsep (List.cons.inj h0).1
  have hplain : ∀ c ∈ '0' :: x :: cs,
      Text.isAscii c ∧ Text.isBlank c = false ∧ c ≠ '+' ∧ c ≠ '-' := by
    simp only [List.forall_mem_cons]
    refine ⟨by decide, ?_, fun _ => h.plain⟩
    rcases hx with rfl | rfl <;> decide
  rw [integer?_of_plain hplain, natural?, if_pos rfl, hm, h.row?_eq]
  rfl

/-- Leading zeros are no part of what counts, and what counts is again a row of digits. -/
theorem isDigits_significant {cs : List Char} (h : ∀ c ∈ cs, isDecimalDigit c) :
    IsDigits 10 (significant cs) := by
  unfold significant
  split
  · exact ⟨by simp, by simp; exact ⟨0, rfl⟩⟩
  · next hne =>
    refine ⟨hne, fun c hc => digit?_ten_isSome (h c ?_)⟩
    exact (List.dropWhile_sublist _).subset hc

/-! ### Written numbers -/

theorem digits_lt {base : Nat} (hb : 2 ≤ base) (n : Nat) : ∀ d ∈ digits base n, d < base := by
  fun_induction digits base n with
  | case1 n h => simp; omega
  | case2 n h ih =>
    intro d hd
    rcases List.mem_append.mp hd with hd | hd
    · exact ih d hd
    · rw [List.mem_singleton.mp hd]
      exact Nat.mod_lt _ (by omega)

theorem digits_ne_nil (base n : Nat) : digits base n ≠ [] := by
  fun_cases digits base n <;> simp

/-- A number below a power of the base has at most so many digits. -/
theorem length_digits_le {base : Nat} (n k : Nat) (h : n < base ^ (k + 1)) :
    (digits base n).length ≤ k + 1 := by
  induction k generalizing n with
  | zero =>
    rw [digits, if_pos (by simp at h; omega)]
    simp
  | succ k ih =>
    rw [digits]
    split
    · simp
    · have hdiv : n / base < base ^ (k + 1) := by
        rw [Nat.div_lt_iff_lt_mul (by omega)]
        rwa [← Nat.pow_succ]
      have := ih (n / base) hdiv
      simp
      omega

/-- Only zero starts with a zero. -/
theorem head?_digits (base : Nat) (n : Nat) (hn : 0 < n) : (digits base n).head? ≠ some 0 := by
  fun_induction digits base n with
  | case1 n h => simp; omega
  | case2 n h ih =>
    have hdiv : 0 < n / base := Nat.div_pos (by omega) (by omega)
    obtain ⟨d, ds, hds⟩ := List.exists_cons_of_ne_nil (digits_ne_nil base (n / base))
    simpa [hds] using ih hdiv

theorem isDigits_map_digitChar {base : Nat} (hb : 2 ≤ base) (hb' : base ≤ 16) (n : Nat) :
    IsDigits base ((digits base n).map digitChar) where
  ne_nil := by simp [digits_ne_nil]
  isSome := by
    intro c hc
    obtain ⟨d, hd, rfl⟩ := List.mem_map.mp hc
    exact ⟨d, digit?_digitChar hb' (digits_lt hb n d hd)⟩

theorem isDecimalDigit_of_mem {n : Nat} {c : Char} (h : c ∈ (digits 10 n).map digitChar) :
    isDecimalDigit c := by
  obtain ⟨d, hd, rfl⟩ := List.mem_map.1 h
  have hall : ∀ d < 10, isDecimalDigit (digitChar d) := by decide
  exact hall d (digits_lt (by omega) n d hd)

theorem isHexDigit_of_mem {n : Nat} {c : Char} (h : c ∈ (digits 16 n).map digitChar) :
    isHexDigit c := by
  obtain ⟨d, hd, rfl⟩ := List.mem_map.1 h
  have hall : ∀ d < 16, isHexDigit (digitChar d) := by decide
  exact hall d (digits_lt (by omega) n d hd)

/-- A number is read back from the characters of its digits. -/
theorem ofDigits_map_digitChar {base : Nat} (hb : 2 ≤ base) (hb' : base ≤ 16) (n : Nat) :
    ofDigits base (((digits base n).map digitChar).filterMap (digit? base)) = n := by
  have hf : ∀ ds : List Nat, (∀ d ∈ ds, d < base) →
      (ds.map digitChar).filterMap (digit? base) = ds := by
    intro ds hds
    induction ds with
    | nil => rfl
    | cons d ds ih =>
      rw [List.map_cons, List.filterMap_cons, digit?_digitChar hb' (hds d (by simp)),
        ih fun x hx => hds x (List.mem_cons_of_mem _ hx)]
  rw [hf _ (digits_lt hb n), ofDigits_digits]

/-- No zero of a written number is without effect. -/
theorem significant_map_digitChar (n : Nat) :
    significant ((digits 10 n).map digitChar) = (digits 10 n).map digitChar := by
  rcases Nat.eq_zero_or_pos n with rfl | hn
  · simp [digits, significant, digitChar]
  · obtain ⟨d, ds, hds⟩ := List.exists_cons_of_ne_nil (digits_ne_nil 10 n)
    have hd : d ≠ 0 := by
      have := head?_digits 10 n hn
      simpa [hds] using this
    have hlt : d < 10 := digits_lt (by omega) n d (by simp [hds])
    have hc : digitChar d ≠ '0' := by
      intro h0
      have h1 := digitValue?_digitChar (d := d) (by omega)
      rw [h0] at h1
      exact hd (Option.some.inj h1).symm
    simp [significant, hds, hc]

end Numeral

/-! ### Values of words -/

namespace Word

/-- A word whose text is digits where its kind is numeric: decimal digits, possibly none, or at
least one hexadecimal digit with or without the marker. -/
structure IsNumeral (w : Word) : Prop where
  decimal : w.kind = .number → ∀ c ∈ w.text.toList, Numeral.isDecimalDigit c
  hexadecimal : w.kind = .hexNumber → ∃ cs, cs ≠ [] ∧ (∀ c ∈ cs, Numeral.isHexDigit c) ∧
    (w.text.toList = cs ∨ ∃ x, (x = 'x' ∨ x = 'X') ∧ w.text.toList = '0' :: x :: cs)

variable {w : Word}

/-- A hexadecimal word has the value of its digits, if that fills no more than 64 bits. -/
theorem IsNumeral.value_hexNumber (h : w.IsNumeral) (hk : w.kind = .hexNumber) :
    ∃ n : Nat, w.value =
      if n < Numeral.wordCount then .ok (Numeral.signedWord n) else .error .outOfRange := by
  obtain ⟨cs, hne, hcs, ht⟩ := h.hexadecimal hk
  have hd : Numeral.IsDigits 16 cs := ⟨hne, fun c hc => Numeral.digit?_sixteen_isSome (hcs c hc)⟩
  refine ⟨Numeral.ofDigits 16 (cs.filterMap (Numeral.digit? 16)), ?_⟩
  have hi : Numeral.integer? 16 w.text.toList =
      some (Numeral.ofDigits 16 (cs.filterMap (Numeral.digit? 16)) : Int) := by
    rcases ht with ht | ⟨x, hx, ht⟩
    · rw [ht, Numeral.integer?_eq hd]
    · rw [ht, Numeral.integer?_sixteen hx hd]
  rw [value, if_pos hk, hi]
  simp only [Int.ofNat_lt]

/-- A decimal word has the value of its digits, if that is a signed word. -/
theorem IsNumeral.value_number (h : w.IsNumeral) (hk : w.kind = .number) :
    w.value = .error .outOfRange ∨
      ∃ n : Nat, (n : Int) ≤ Numeral.maxSigned ∧ w.value = .ok n := by
  have hd := Numeral.isDigits_significant (h.decimal hk)
  have hx : w.kind ≠ .hexNumber := by rw [hk]; nofun
  rw [value, if_neg hx]
  simp only [Numeral.integer?_eq hd]
  split
  · exact .inl rfl
  split
  · next hle => exact .inr ⟨_, hle, rfl⟩
  · exact .inl rfl

/-- Digits always have a value, unless it is out of range. -/
theorem IsNumeral.value_ne (h : w.IsNumeral) (hk : w.kind.isNumeric) (base : Nat)
    (text : String) : w.value ≠ .error (.notNumeral base text) := by
  simp only [TokenKind.isNumeric, Bool.or_eq_true, decide_eq_true_eq] at hk
  rcases hk with hk | hk
  · rcases h.value_number hk with hv | ⟨n, _, hv⟩ <;> rw [hv] <;> nofun
  · obtain ⟨n, hv⟩ := h.value_hexNumber hk
    rw [hv]
    split <;> nofun

theorem signedWord_mem (i : Int) :
    Numeral.minSigned ≤ Numeral.signedWord i ∧ Numeral.signedWord i ≤ Numeral.maxSigned := by
  have h1 := Int.le_bmod (x := i) (m := Numeral.wordCount) (by decide)
  have h2 := Int.bmod_lt (x := i) (m := Numeral.wordCount) (by decide)
  unfold Numeral.signedWord Numeral.minSigned Numeral.maxSigned
  unfold Numeral.wordCount at *
  omega

/-- A value is a signed word; only hexadecimal digits spell a negative one. -/
theorem IsNumeral.value_mem (h : w.IsNumeral) (hk : w.kind.isNumeric) {v : Int}
    (hv : w.value = .ok v) :
    Numeral.minSigned ≤ v ∧ v ≤ Numeral.maxSigned ∧ (v < 0 → w.kind = .hexNumber) := by
  simp only [TokenKind.isNumeric, Bool.or_eq_true, decide_eq_true_eq] at hk
  rcases hk with hk | hk
  · rcases h.value_number hk with he | ⟨n, hn, he⟩
    · simp [hv] at he
    · rw [hv] at he
      obtain rfl := Except.ok.inj he
      have : Numeral.minSigned ≤ 0 := by decide
      exact ⟨by omega, hn, fun h0 => by omega⟩
  · obtain ⟨n, he⟩ := h.value_hexNumber hk
    have hm := signedWord_mem n
    rw [hv] at he
    by_cases hn : n < Numeral.wordCount
    · rw [if_pos hn] at he
      rw [Except.ok.inj he]
      exact ⟨hm.1, hm.2, fun _ => hk⟩
    · rw [if_neg hn] at he
      nomatch he

theorem signedWord_eq_self {v : Int} (h : Numeral.minSigned ≤ v) (h' : v ≤ Numeral.maxSigned) :
    Numeral.signedWord v = v := by
  unfold Numeral.signedWord Numeral.minSigned Numeral.maxSigned Numeral.wordCount at *
  rw [Int.bmod_def]
  split <;> omega

/-- A signed word is the signed word of its bits. -/
theorem signedWord_unsignedWord {v : Int} (h : Numeral.minSigned ≤ v)
    (h' : v ≤ Numeral.maxSigned) :
    Numeral.signedWord (Numeral.unsignedWord v : Int) = v := by
  have h0 : 0 ≤ v % (Numeral.wordCount : Int) := Int.emod_nonneg v (by decide)
  rw [Numeral.signedWord, Numeral.unsignedWord, Int.toNat_of_nonneg h0, Int.emod_bmod]
  exact signedWord_eq_self h h'

theorem unsignedWord_lt (v : Int) : Numeral.unsignedWord v < Numeral.wordCount := by
  have h := Int.emod_lt_of_pos v (b := (Numeral.wordCount : Int)) (by decide)
  have h0 : 0 ≤ v % (Numeral.wordCount : Int) := Int.emod_nonneg v (by decide)
  unfold Numeral.unsignedWord
  omega

/-- A number in hexadecimal notation is read back as the signed word of its bits. -/
theorem value_hexadecimal {n : Nat} (h : n < Numeral.wordCount) :
    value ⟨.hexNumber, Numeral.hexadecimal n⟩ = .ok (Numeral.signedWord n) := by
  have hi : Numeral.integer? 16 (Numeral.hexadecimal n).toList = some (n : Int) := by
    have ht : (Numeral.hexadecimal n).toList =
        '0' :: 'x' :: (Numeral.digits 16 n).map Numeral.digitChar := by
      simp [Numeral.hexadecimal, Numeral.numeral]
    rw [ht, Numeral.integer?_sixteen (.inl rfl)
      (Numeral.isDigits_map_digitChar (by omega) (by omega) n),
      Numeral.ofDigits_map_digitChar (by omega) (by omega)]
  simp only [value, if_true, hi, Int.ofNat_lt, h]

/-- A number in decimal notation is read back, if it is a signed word. -/
theorem value_decimal {v : Int} (h : 0 ≤ v) (h' : v ≤ Numeral.maxSigned) :
    value ⟨.number, Numeral.decimal v⟩ = .ok v := by
  obtain ⟨n, rfl⟩ := Int.eq_ofNat_of_zero_le h
  have ht : (Numeral.decimal (n : Int)).toList =
      (Numeral.digits 10 n).map Numeral.digitChar := by
    have hn : ¬((n : Int) < 0) := by omega
    simp [Numeral.decimal, Numeral.numeral, hn]
  have hlen : ¬(((Numeral.digits 10 n).map Numeral.digitChar).length > maxDecimalDigits) := by
    have hlt : n < 10 ^ (18 + 1) := by
      unfold Numeral.maxSigned at h'
      omega
    have := Numeral.length_digits_le n 18 hlt
    simp [maxDecimalDigits]
    omega
  have hkind : TokenKind.number ≠ .hexNumber := by decide
  rw [value, if_neg hkind]
  simp only [ht, Numeral.significant_map_digitChar]
  rw [if_neg hlen, Numeral.integer?_eq (Numeral.isDigits_map_digitChar (by omega) (by omega) n),
    Numeral.ofDigits_map_digitChar (by omega) (by omega)]
  simp [h']

end Word

end IntelAsm

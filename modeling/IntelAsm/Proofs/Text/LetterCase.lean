import IntelAsm.Proofs.Text.Case

/-!
# Texts that differ in letter case

Lower case in the narrow sense (`Char.toLower`) changes the capital letters of ASCII and nothing
else, so two texts agree in it iff they differ at most in the case of letters of ASCII. A function
of characters is `Caseless` if it does not see that difference. Every class of characters that the
lexer asks for is, and so are the full case mappings, by which names are compared.
-/

namespace IntelAsm

namespace Text

/-! ### Functions that do not see letter case -/

/-- A function that has the same value at both cases of a letter of ASCII. -/
def Caseless {α : Type} (f : Char → α) : Prop := ∀ c, f c.toLower = f c

/-- Lower case leaves a character alone or makes the small letter of a capital one. -/
theorem toLower_cases (c : Char) :
    c.toLower = c ∨ ∃ n < 26, c = Char.ofNat (0x41 + n) ∧ c.toLower = Char.ofNat (0x61 + n) := by
  by_cases hc : 'A'.val ≤ c.val ∧ c.val ≤ 'Z'.val
  · have hlow : 0x41 ≤ c.toNat := UInt32.le_iff_toNat_le.1 hc.1
    have hhigh : c.toNat ≤ 0x5A := UInt32.le_iff_toNat_le.1 hc.2
    have hall : ∀ n < 26, (Char.ofNat (0x41 + n)).toLower = Char.ofNat (0x61 + n) := by decide
    have hn : c = Char.ofNat (0x41 + (c.toNat - 0x41)) := by
      rw [Nat.add_sub_cancel' hlow, Char.ofNat_toNat]
    refine .inr ⟨c.toNat - 0x41, by omega, hn, ?_⟩
    rw [← hall _ (by omega), ← hn]
  · exact .inl (dif_neg hc)

/-- Only capital letters are changed. -/
theorem caseless_of_capitals {α : Type} {f : Char → α}
    (h : ∀ n < 26, f (Char.ofNat (0x61 + n)) = f (Char.ofNat (0x41 + n))) : Caseless f := by
  intro c
  obtain hc | ⟨n, hn, hc, hl⟩ := toLower_cases c
  · rw [hc]
  · rw [hl, h n hn, ← hc]

/-- Lower case has no other case. -/
theorem caseless_toLower : Caseless Char.toLower := caseless_of_capitals (by decide)

namespace Caseless

variable {α : Type} {f : Char → α} {p : Char → Bool}

theorem comp_toLower (h : Caseless f) : f ∘ Char.toLower = f := funext h

/-- A caseless function maps a text in lower case as the text itself. -/
theorem map (h : Caseless f) (cs : List Char) : (cs.map Char.toLower).map f = cs.map f := by
  rw [List.map_map, h.comp_toLower]

/-- The front of a text that is of a caseless class is so in lower case. -/
theorem takeWhile (h : Caseless p) (cs : List Char) :
    (cs.map Char.toLower).takeWhile p = (cs.takeWhile p).map Char.toLower := by
  rw [List.takeWhile_map, h.comp_toLower]

theorem dropWhile (h : Caseless p) (cs : List Char) :
    (cs.map Char.toLower).dropWhile p = (cs.dropWhile p).map Char.toLower := by
  rw [List.dropWhile_map, h.comp_toLower]

theorem filter (h : Caseless p) (cs : List Char) :
    (cs.map Char.toLower).filter p = (cs.filter p).map Char.toLower := by
  rw [List.filter_map, h.comp_toLower]

theorem head?_any (h : Caseless p) (cs : List Char) :
    (cs.map Char.toLower).head?.any p = cs.head?.any p := by
  simp only [List.head?_map, Option.any_map, h _]

theorem or {q : Char → Bool} (hp : Caseless p) (hq : Caseless q) :
    Caseless fun c => p c || q c := by
  intro c
  simp only [hp c, hq c]

end Caseless

/-! ### Classes of characters -/

theorem caseless_isInlineSpace : Caseless Lexeme.isInlineSpace :=
  caseless_of_capitals (by decide)

theorem caseless_isDecimalDigit : Caseless Numeral.isDecimalDigit :=
  caseless_of_capitals (by decide)

theorem caseless_isHexDigit : Caseless Numeral.isHexDigit :=
  caseless_of_capitals (by decide)

theorem caseless_startsWord : Caseless Lexeme.startsWord :=
  caseless_of_capitals (by decide)

theorem caseless_continuesWord : Caseless Lexeme.continuesWord :=
  caseless_of_capitals (by decide)

/-- A character without a case is told from all others. -/
theorem toLower_eq_char_iff {c d : Char} (hl : d.toLower = d) (hu : d.toUpper = d) :
    c.toLower = d ↔ c = d := by
  refine ⟨fun h => ?_, fun h => by rw [h, hl]⟩
  obtain hc | ⟨n, hn, -, hc⟩ := toLower_cases c
  · rw [← hc, h]
  · have hall : ∀ n < 26, (Char.ofNat (0x61 + n)).toUpper ≠ Char.ofNat (0x61 + n) := by decide
    have hd : d = Char.ofNat (0x61 + n) := by rw [← h, hc]
    exact absurd hu (hd ▸ hall n hn)

/-- To be a certain character is caseless if the character is no letter. -/
theorem caseless_eq {d : Char} (hl : d.toLower = d) (hu : d.toUpper = d) :
    Caseless fun c => decide (c = d) :=
  fun _ => decide_eq_decide.2 (toLower_eq_char_iff hl hu)

/-! ### Texts -/

@[simp] theorem toList_toLower (s : String) : s.toLower.toList = s.toList.map Char.toLower :=
  String.toList_map

/-- Texts may be compared character by character. -/
theorem toLower_eq_iff {s t : String} :
    s.toLower = t ↔ s.toList.map Char.toLower = t.toList := by
  rw [← String.toList_inj, toList_toLower]

theorem toLower_ofList (cs : List Char) :
    (String.ofList cs).toLower = String.ofList (cs.map Char.toLower) := by
  rw [toLower_eq_iff, String.toList_ofList, String.toList_ofList]

theorem toLower_toLower (s : String) : s.toLower.toLower = s.toLower := by
  rw [toLower_eq_iff, toList_toLower, caseless_toLower.map]

/-! ### Full case mappings -/

theorem caseless_upperChar : Caseless upperChar := caseless_of_capitals (by decide)

theorem caseless_lowerChar : Caseless lowerChar := caseless_of_capitals (by decide)

theorem caseless_caseIgnorable : Caseless caseIgnorable.has :=
  caseless_of_capitals (by decide +kernel)

theorem caseless_cased : Caseless cased.has := caseless_of_capitals (by decide +kernel)

/-- Whether a cased letter comes next does not depend on letter case. -/
theorem meetsCased_map_toLower (cs : List Char) :
    meetsCased (cs.map Char.toLower) = meetsCased cs := by
  have hp : (fun c => !caseIgnorable.has c) ∘ Char.toLower = fun c => !caseIgnorable.has c := by
    funext c
    rw [Function.comp_apply, caseless_caseIgnorable]
  rw [meetsCased, List.find?_map, hp, Option.any_map]
  simp only [caseless_cased _, meetsCased]

/-- The full mapping to lower case does not see letter case, whatever stands in front. -/
theorem lowerAfter_map_toLower (before cs : List Char) :
    lowerAfter (before.map Char.toLower) (cs.map Char.toLower) = lowerAfter before cs := by
  induction cs generalizing before with
  | nil => rfl
  | cons c cs ih =>
    have hsigma : decide (c.toLower = 'Σ') = decide (c = 'Σ') :=
      caseless_eq (by decide) (by decide) c
    rw [List.map_cons, lowerAfter, lowerAfter, hsigma, meetsCased_map_toLower,
      meetsCased_map_toLower, caseless_lowerChar, ← List.map_cons, ih]

/-- The lower case of a text, final sigmas included, is the same in any letter case. -/
theorem lower_toLower (s : String) : lower s.toLower = lower s := by
  rw [lower, toList_toLower, ← List.map_nil, lowerAfter_map_toLower, lower]

/-- Nor does the one to upper case. -/
theorem upper_toLower (s : String) : upper s.toLower = upper s := by
  rw [upper, toList_toLower, List.flatMap_map]
  simp only [caseless_upperChar _, upper]

end Text

open Text

/-! ### Reserved words -/

/-- So registers are known in any case. -/
theorem isRegister_toLower (name : String) : isRegister name.toLower = isRegister name := by
  rw [isRegister, lower_toLower, isRegister]

/-- And so are keywords. -/
theorem isLabelKeyword_toLower (name : String) :
    isLabelKeyword name.toLower = isLabelKeyword name := by
  rw [isLabelKeyword, lower_toLower, isLabelKeyword]

end IntelAsm

import IntelAsm.Proofs.Lexer.Words

/-!
# Facts about upper and lower case

What the case tables do to characters beyond ASCII is read off the tables once: an image is the
character itself, the image of an exception, or the end of a shift (`image_cases`). Each fact below
is a check of those finitely many images, done on whole shifts.

Upper case is what it is in upper case (`upper_upper`). What beyond ASCII falls among the characters
of ASCII are capital letters in upper case, and in lower case nothing but the letter `k`. So a text
whose lower case is a word of ASCII without that letter is itself of ASCII (`lower_eq_iff`);
register names are such words, and so is the second word of a size specifier.
-/

namespace IntelAsm

namespace Text

/-! ### Images in a case table -/

/-- A code point that is the number of a character. -/
def isCodePoint (n : Nat) : Bool := n < 0xD800 || (0xDFFF < n && n < 0x110000)

theorem toNat_ofNat {n : Nat} (h : isCodePoint n) : (Char.ofNat n).toNat = n := by
  have hv : n.isValidChar := by simpa [isCodePoint, Nat.isValidChar] using h
  rw [Char.ofNat, dif_pos hv]
  rfl

/-- Every image is the character itself, is listed, or lies at the end of a shift. -/
theorem image_cases (t : CaseTable) (c : Char) :
    t.image c = [c] ∨ (∃ e ∈ t.exceptions, t.image c = e.2.map Char.ofNat) ∨
      ∃ s ∈ t.shifts, s.moves c.toNat ∧ t.image c = [Char.ofNat (c.toNat + s.distance).toNat] := by
  unfold CaseTable.image
  cases he : t.exceptions.lookup c.toNat with
  | some ns =>
    obtain ⟨l, r, hl, -⟩ := List.lookup_eq_some_iff.1 he
    exact .inr (.inl ⟨(c.toNat, ns), by simp [hl], rfl⟩)
  | none =>
    cases hs : t.shifts.find? (·.moves c.toNat) with
    | some s =>
      have hm : s.moves c.toNat := by simpa using List.find?_some hs
      exact .inr (.inr ⟨s, List.mem_of_find?_eq_some hs, hm, rfl⟩)
    | none => exact .inl rfl

/-- A character that no exception lists and no shift moves is its own image. -/
theorem image_eq_self {t : CaseTable} {c : Char} (he : ∀ e ∈ t.exceptions, e.1 ≠ c.toNat)
    (hs : ∀ s ∈ t.shifts, s.moves c.toNat = false) : t.image c = [c] := by
  have hl : t.exceptions.lookup c.toNat = none := by
    refine List.lookup_eq_none_iff.2 fun e hm => ?_
    simpa using fun h => he e hm h.symm
  have hf : t.shifts.find? (·.moves c.toNat) = none :=
    List.find?_eq_none.2 fun s hm => by simp [hs s hm]
  rw [CaseTable.image, hl, hf]

/-- The image of the first code point that a shift moves. -/
def Shift.low (s : Shift) : Nat := (s.first + s.distance).toNat

/-- The image of the last code point that a shift moves, or one behind it. -/
def Shift.high (s : Shift) : Nat := (s.last + s.distance).toNat

/-- A shift moves nothing to the given code point. -/
def Shift.misses (s : Shift) (n : Nat) : Bool :=
  s.high < n || n < s.low || (0 < s.low && s.step == 2 && (s.low + n) % 2 == 1)

/-- A shift moves nothing to a code point that another one moves. -/
def Shift.avoids (s t : Shift) : Bool :=
  s.high < t.first || t.last < s.low ||
    (0 < s.low && (s.step == 2 || s.first == s.last) && t.step == 2 && (s.low + t.first) % 2 == 1)

section
variable {s t : Shift} {n : Nat}

theorem Shift.moves_iff : s.moves n ↔ s.first ≤ n ∧ n ≤ s.last ∧ (n - s.first) % s.step = 0 := by
  simp [moves, and_assoc]

theorem Shift.ne_of_misses (hs : s.moves n) {m : Nat} (h : s.misses m) :
    m ≠ (n + s.distance).toNat := by
  obtain ⟨h1, h2, h3⟩ := moves_iff.1 hs
  simp only [misses, Bool.or_eq_true, Bool.and_eq_true, decide_eq_true_eq, beq_iff_eq] at h
  unfold low high at h
  -- the code point lies outside the images, or between them, being of the other parity
  rcases h with (h | h) | ⟨⟨h0, h⟩, h'⟩
  · omega
  · omega
  · rw [h] at h3
    omega

theorem Shift.not_moves_of_avoids (hs : s.moves n) (h : s.avoids t) :
    t.moves (n + s.distance).toNat = false := by
  obtain ⟨h1, h2, h3⟩ := moves_iff.1 hs
  refine Bool.eq_false_iff.2 fun ht => ?_
  obtain ⟨h4, h5, h6⟩ := moves_iff.1 ht
  simp only [avoids, Bool.or_eq_true, Bool.and_eq_true, decide_eq_true_eq, beq_iff_eq] at h
  unfold low high at h
  -- the images lie outside what the other shift moves, or between, being of the other parity
  rcases h with (h | h) | ⟨⟨⟨h0, h | h⟩, ht⟩, h'⟩
  · omega
  · omega
  · rw [h] at h3
    rw [ht] at h6
    omega
  · rw [ht] at h6
    omega

/-- A shift moves a character to a place between the images of its first and last. -/
theorem Shift.image_mem (hs : s.moves n) :
    s.low ≤ (n + s.distance).toNat ∧ (n + s.distance).toNat ≤ s.high := by
  obtain ⟨h1, h2, -⟩ := moves_iff.1 hs
  unfold low high
  omega

end

/-! ### Upper case -/

/-- A code point that images in upper case may have: beyond ASCII or that of a capital letter. -/
def isUpperImage (n : Nat) : Bool := isCodePoint n && (0x80 ≤ n || (0x41 ≤ n && n ≤ 0x5A))

/-- No shift of the upper case leads to a character that a shift moves. -/
theorem upper_shifts_avoid :
    (upperTable.shifts.all fun s => upperTable.shifts.all s.avoids) = true := by
  decide +kernel

theorem upper_shifts_end :
    (upperTable.shifts.all fun s =>
      (s.high < 0xD800 || (0xDFFF < s.low && s.high < 0x110000)) &&
      (0x80 ≤ s.low || (0x41 ≤ s.low && s.high ≤ 0x5A)) &&
      upperTable.exceptions.all (s.misses ·.1)) = true := by
  decide +kernel

/-- No exception of the upper case has a character in its image that is not its own upper case. -/
theorem upper_exceptions_end :
    (upperTable.exceptions.all fun e => !e.2.isEmpty &&
      e.2.all fun n => isUpperImage n && upperTable.exceptions.all (·.1 != n) &&
        upperTable.shifts.all (!·.moves n)) = true := by
  decide +kernel

/-- A code point that images in upper case have, and that no entry of the table changes. -/
structure IsUpper (n : Nat) : Prop where
  image : isUpperImage n
  exceptions : ∀ e ∈ upperTable.exceptions, e.1 ≠ n
  shifts : ∀ s ∈ upperTable.shifts, s.moves n = false

theorem IsUpper.upperChar_eq {n : Nat} (h : IsUpper n) :
    upperChar (Char.ofNat n) = [Char.ofNat n] := by
  obtain ⟨hn, hr⟩ := Bool.and_eq_true_iff.1 h.image
  have ht : (Char.ofNat n).toNat = n := toNat_ofNat hn
  unfold upperChar
  by_cases ha : isAscii (Char.ofNat n) = true
  · rw [if_pos ha]
    have hall : ∀ n < 0x80, 0x41 ≤ n → n ≤ 0x5A → (Char.ofNat n).toUpper = Char.ofNat n := by decide
    have hlt : n < 0x80 := by simpa [isAscii, ht] using ha
    simp only [Bool.or_eq_true, Bool.and_eq_true, decide_eq_true_eq] at hr
    rw [hall n hlt (by omega) (by omega)]
  · rw [if_neg ha]
    exact image_eq_self (by simpa [ht] using h.exceptions) (by simpa [ht] using h.shifts)

/-- What the table makes of a character beyond ASCII is the character or in upper case. -/
theorem upper_image_cases (c : Char) :
    upperTable.image c = [c] ∨
      ∃ ns, ns ≠ [] ∧ upperTable.image c = ns.map Char.ofNat ∧ ∀ n ∈ ns, IsUpper n := by
  obtain h | ⟨e, he, h⟩ | ⟨s, hs, hm, h⟩ := image_cases upperTable c
  · exact .inl h
  · -- the table lists the image
    refine .inr ⟨e.2, ?_, h, fun n hn => ?_⟩
    · have hall := (Bool.and_eq_true_iff.1 (List.all_eq_true.1 upper_exceptions_end e he)).1
      simpa using hall
    · have hall := (Bool.and_eq_true_iff.1 (List.all_eq_true.1 upper_exceptions_end e he)).2
      have hn := List.all_eq_true.1 hall n hn
      simp only [Bool.and_eq_true, List.all_eq_true, bne_iff_ne, Bool.not_eq_true'] at hn
      exact ⟨hn.1.1, hn.1.2, hn.2⟩
  · -- a shift leads to the image
    refine .inr ⟨[(c.toNat + s.distance).toNat], by simp, h, fun n hn => ?_⟩
    rw [List.mem_singleton.1 hn]
    have hend := List.all_eq_true.1 upper_shifts_end s hs
    have havoid := List.all_eq_true.1 (List.all_eq_true.1 upper_shifts_avoid s hs)
    obtain ⟨hlow, hhigh⟩ := Shift.image_mem hm
    simp only [Bool.and_eq_true, Bool.or_eq_true, decide_eq_true_eq, List.all_eq_true] at hend
    refine ⟨?_, fun e he => Shift.ne_of_misses hm (hend.2 e he), fun t ht =>
      Shift.not_moves_of_avoids hm (havoid t ht)⟩
    simp only [isUpperImage, isCodePoint, Bool.and_eq_true, Bool.or_eq_true, decide_eq_true_eq]
    omega

/-- A character in upper case is its own upper case. -/
theorem upperChar_of_mem {c d : Char} (h : d ∈ upperChar c) : upperChar d = [d] := by
  by_cases ha : isAscii c = true
  · have hall : ∀ n < 0x80, upperChar (Char.ofNat n).toUpper = [(Char.ofNat n).toUpper] := by decide
    rw [upperChar_of_isAscii ha, List.mem_singleton] at h
    rw [h]
    exact of_isAscii (P := fun c => upperChar c.toUpper = [c.toUpper]) hall ha
  · have hi : upperChar c = upperTable.image c := by rw [upperChar, if_neg ha]
    obtain hself | ⟨ns, -, himage, hns⟩ := upper_image_cases c
    · rw [hi, hself, List.mem_singleton] at h
      rw [h, hi, hself]
    · rw [hi, himage] at h
      obtain ⟨n, hn, rfl⟩ := List.mem_map.1 h
      exact (hns n hn).upperChar_eq

/-- Upper case is what it is in upper case. -/
theorem upper_upper (s : String) : upper (upper s) = upper s := by
  have hfix : ∀ cs : List Char, (∀ d ∈ cs, upperChar d = [d]) → cs.flatMap upperChar = cs := by
    intro cs
    induction cs with
    | nil => simp
    | cons c cs ih =>
      intro h
      obtain ⟨hc, hcs⟩ := List.forall_mem_cons.1 h
      rw [List.flatMap_cons, hc, ih hcs]
      rfl
  unfold upper
  rw [String.toList_ofList, hfix]
  intro d hd
  obtain ⟨c, -, hd⟩ := List.mem_flatMap.1 hd
  exact upperChar_of_mem hd

/-- Beyond ASCII, a character has upper case, and what of it is of ASCII are capital letters. -/
theorem upperChar_of_not_isAscii {c : Char} (h : ¬isAscii c = true) :
    upperChar c ≠ [] ∧
      ∀ d ∈ upperChar c, isAscii d → 0x41 ≤ d.toNat ∧ d.toNat ≤ 0x5A := by
  have hi : upperChar c = upperTable.image c := by rw [upperChar, if_neg h]
  rw [hi]
  obtain hself | ⟨ns, hne, himage, hns⟩ := upper_image_cases c
  · rw [hself]
    refine ⟨by simp, fun d hd ha => ?_⟩
    rw [List.mem_singleton.1 hd] at ha
    exact absurd ha h
  · rw [himage]
    refine ⟨by simpa using hne, fun d hd ha => ?_⟩
    obtain ⟨n, hn, rfl⟩ := List.mem_map.1 hd
    obtain ⟨hp, hr⟩ := Bool.and_eq_true_iff.1 (hns n hn).image
    rw [toNat_ofNat hp]
    have hlt : n < 0x80 := by simpa [isAscii, toNat_ofNat hp] using ha
    simp only [Bool.or_eq_true, Bool.and_eq_true, decide_eq_true_eq] at hr
    omega

/-! ### Lower case -/

/-- Where a shift to lower case ends: beyond ASCII, but for the sign of the kelvin. -/
theorem lower_shifts_end :
    (lowerTable.shifts.all fun s =>
      (s.high < 0xD800 || (0xDFFF < s.low && s.high < 0x110000)) &&
        (0x80 ≤ s.low || (s.low == 'k'.toNat && s.high == 'k'.toNat))) = true := by
  decide +kernel

/-- Beyond ASCII, lower case is the letter `k` or has a part beyond ASCII. -/
theorem lowerChar_of_not_isAscii {c : Char} (h : ¬isAscii c = true) :
    lowerChar c = ['k'] ∨ ∃ d ∈ lowerChar c, ¬isAscii d = true := by
  have hi : lowerChar c = lowerTable.image c := by rw [lowerChar, if_neg h]
  rw [hi]
  obtain hself | ⟨e, he, himage⟩ | ⟨s, hs, hm, himage⟩ := image_cases lowerTable c
  · exact .inr ⟨c, by simp [hself], h⟩
  · right
    have hall : (lowerTable.exceptions.all fun e =>
        (e.2.map Char.ofNat).any fun d => !isAscii d) = true := by decide
    obtain ⟨d, hd, ha⟩ := List.any_eq_true.1 (List.all_eq_true.1 hall e he)
    rw [himage]
    exact ⟨d, hd, by simpa using ha⟩
  · have hend := List.all_eq_true.1 lower_shifts_end s hs
    obtain ⟨hlow, hhigh⟩ := Shift.image_mem hm
    simp only [Bool.and_eq_true, Bool.or_eq_true, decide_eq_true_eq, beq_iff_eq] at hend
    obtain ⟨hcode, hend⟩ := hend
    rw [himage]
    rcases hend with hend | ⟨h1, h2⟩
    · right
      refine ⟨_, List.mem_singleton.2 rfl, ?_⟩
      have hp : isCodePoint (c.toNat + s.distance).toNat := by
        simp only [isCodePoint, Bool.or_eq_true, Bool.and_eq_true, decide_eq_true_eq]
        omega
      simp only [isAscii, toNat_ofNat hp, decide_eq_true_eq]
      omega
    · left
      have hk : (c.toNat + s.distance).toNat = 'k'.toNat := by omega
      rw [hk]
      rfl

/-- A word of ASCII without the letter `k`. -/
def IsPlain (ws : List Char) : Prop := ∀ w ∈ ws, isAscii w ∧ w ≠ 'k'

instance (ws : List Char) : Decidable (IsPlain ws) :=
  decidable_of_iff (ws.all fun w => isAscii w && w != 'k') (by simp [IsPlain])

/-- What has a plain lower case is of ASCII. -/
theorem isAscii_of_lowerChar {c : Char} (h : IsPlain (lowerChar c)) : isAscii c := by
  refine of_not_not fun hc => ?_
  obtain hk | ⟨d, hd, ha⟩ := lowerChar_of_not_isAscii hc
  · rw [hk] at h
    exact (h 'k' (by simp)).2 rfl
  · exact ha (h d hd).1

theorem lowerAfter_cons_of_isAscii {c : Char} (h : isAscii c) (before cs : List Char) :
    lowerAfter before (c :: cs) = c.toLower :: lowerAfter (c :: before) cs := by
  have hc : c ≠ 'Σ' := by
    rintro rfl
    exact absurd h (by decide)
  simp [lowerAfter, hc, lowerChar_of_isAscii h]

/-- Where lower case is plain it is made character by character, and of ASCII. -/
theorem lowerAfter_eq_iff (before : List Char) {cs ws : List Char} (hw : IsPlain ws) :
    lowerAfter before cs = ws ↔ cs.map lowerChar = ws.map fun w => [w] := by
  induction cs generalizing before ws with
  | nil => cases ws <;> simp [lowerAfter]
  | cons c cs ih =>
    constructor
    · intro h
      have hc : isAscii c := by
        -- what becomes of the character stands in the word, also where it is a final sigma
        refine isAscii_of_lowerChar fun d hd => ?_
        by_cases hs : (c = 'Σ' && meetsCased before && !meetsCased cs) = true
        · have hm : 'ς' ∈ ws := by simp [← h, lowerAfter, hs]
          exact absurd (hw 'ς' hm).1 (by decide)
        · exact hw d (by simp [← h, lowerAfter, hs, hd])
      rw [lowerAfter_cons_of_isAscii hc] at h
      obtain ⟨w, ws, rfl⟩ : ∃ w us, ws = w :: us := ⟨_, _, h.symm⟩
      obtain ⟨h1, h2⟩ := List.cons.inj h
      rw [List.map_cons, List.map_cons, lowerChar_of_isAscii hc, h1,
        (ih _ (List.forall_mem_cons.1 hw).2).1 h2]
    · intro h
      cases ws with
      | nil => cases h
      | cons w ws =>
        obtain ⟨h1, h2⟩ := List.cons.inj h
        obtain ⟨hw1, hw2⟩ := List.forall_mem_cons.1 hw
        have hc : isAscii c := isAscii_of_lowerChar (by rw [h1]; simpa [IsPlain] using hw1)
        rw [lowerChar_of_isAscii hc] at h1
        rw [lowerAfter_cons_of_isAscii hc, (List.cons.inj h1).1, (ih _ hw2).2 h2]

/-- A text has a plain word as its lower case iff its characters have those of the word. -/
theorem lower_eq_iff {s w : String} (hw : IsPlain w.toList) :
    lower s = w ↔ s.toList.map lowerChar = w.toList.map fun c => [c] := by
  rw [← lowerAfter_eq_iff [] hw, lower]
  constructor
  · rintro rfl
    rw [String.toList_ofList]
  · intro h
    rw [h, String.ofList_toList]

end Text

/-! ### Reserved words -/

open Text

theorem startsWord_of_toLower {c : Char} (ha : isAscii c) (h : Lexeme.startsWord c.toLower) :
    Lexeme.startsWord c := by
  have hall : ∀ n < 0x80, Lexeme.startsWord (Char.ofNat n).toLower →
      Lexeme.startsWord (Char.ofNat n) := by decide
  exact of_isAscii (P := fun c => Lexeme.startsWord c.toLower → Lexeme.startsWord c) hall ha h

theorem continuesWord_of_toLower {c : Char} (ha : isAscii c)
    (h : Lexeme.continuesWord c.toLower) : Lexeme.continuesWord c := by
  have hall : ∀ n < 0x80, Lexeme.continuesWord (Char.ofNat n).toLower →
      Lexeme.continuesWord (Char.ofNat n) := by decide
  exact of_isAscii (P := fun c => Lexeme.continuesWord c.toLower → Lexeme.continuesWord c) hall ha h

/-- What has a plain word as its lower case is itself one word. -/
theorem isWord_of_map_lowerChar {us ws : List Char} (hp : IsPlain ws) (hw : Lexeme.IsWord ws)
    (h : us.map lowerChar = ws.map fun c => [c]) : Lexeme.IsWord us := by
  have hmem : ∀ c ∈ us, isAscii c ∧ c.toLower ∈ ws := by
    intro c hc
    have hm : lowerChar c ∈ ws.map fun c => [c] := by
      rw [← h]
      exact List.mem_map_of_mem hc
    obtain ⟨d, hd, he⟩ := List.mem_map.1 hm
    have ha : isAscii c := isAscii_of_lowerChar (by
      rw [← he]
      simpa [IsPlain] using hp d hd)
    rw [lowerChar_of_isAscii ha] at he
    exact ⟨ha, (List.cons.inj he).1 ▸ hd⟩
  refine ⟨?_, fun c hc => ?_⟩
  · have hs := hw.starts
    cases us with
    | nil =>
      cases ws with
      | nil => exact hs
      | cons w ws => cases h
    | cons c us =>
      cases ws with
      | nil => cases h
      | cons w ws =>
        have ha := (hmem c (by simp)).1
        obtain ⟨h1, -⟩ := List.cons.inj h
        rw [lowerChar_of_isAscii ha] at h1
        have hcw : c.toLower = w := (List.cons.inj h1).1
        exact startsWord_of_toLower ha (by simpa [hcw] using hs)
  · obtain ⟨ha, hl⟩ := hmem c hc
    exact continuesWord_of_toLower ha (hw.continues _ hl)

/-- Register names are plain words, and none is the keyword of a width. -/
theorem registers_spell :
    (registers.all fun r =>
      r.toList.all (fun c => isAscii c && c != 'k' && Lexeme.continuesWord c) &&
        r.toList.head?.any Lexeme.startsWord && Width.ofKeyword? r == none) = true := by
  decide +kernel

theorem isWord_of_isRegister {name : String} (h : isRegister name) :
    Lexeme.IsWord name.toList ∧ Width.ofKeyword? (lower name) = none := by
  have hmem : lower name ∈ registers := by simpa [isRegister] using h
  have hspell := List.all_eq_true.1 registers_spell _ hmem
  simp only [Bool.and_eq_true, List.all_eq_true, bne_iff_ne, beq_iff_eq] at hspell
  obtain ⟨⟨hchars, hstarts⟩, hkeyword⟩ := hspell
  have hp : IsPlain (lower name).toList := fun c hc => (hchars c hc).1
  refine ⟨isWord_of_map_lowerChar hp ⟨hstarts, fun c hc => (hchars c hc).2⟩ ?_, hkeyword⟩
  exact (lower_eq_iff hp).1 rfl

/-- A text whose characters of ASCII are those of a word: what a name is in upper case. -/
structure IsWordlike (cs : List Char) : Prop where
  ne_nil : cs ≠ []
  starts : ∀ c ∈ cs.head?, isAscii c → Lexeme.startsWord c
  continues : ∀ c ∈ cs, isAscii c → Lexeme.continuesWord c

/-- A character in upper case starts or continues a word as it did, if it is of ASCII. -/
theorem word_of_mem_upperChar {c d : Char} (hd : d ∈ upperChar c) (ha : isAscii d) :
    (Lexeme.startsWord c → Lexeme.startsWord d) ∧
      (Lexeme.continuesWord c → Lexeme.continuesWord d) := by
  by_cases hc : isAscii c = true
  · have hall : ∀ n < 0x80,
        (Lexeme.startsWord (Char.ofNat n) → Lexeme.startsWord (Char.ofNat n).toUpper) ∧
          (Lexeme.continuesWord (Char.ofNat n) →
            Lexeme.continuesWord (Char.ofNat n).toUpper) := by decide
    rw [upperChar_of_isAscii hc, List.mem_singleton] at hd
    rw [hd]
    exact of_isAscii (P := fun c => (Lexeme.startsWord c → Lexeme.startsWord c.toUpper) ∧
      (Lexeme.continuesWord c → Lexeme.continuesWord c.toUpper)) hall hc
  · have hall : ∀ n < 0x80, 0x41 ≤ n → n ≤ 0x5A →
        Lexeme.startsWord (Char.ofNat n) ∧ Lexeme.continuesWord (Char.ofNat n) := by decide
    obtain ⟨hlow, hhigh⟩ := (upperChar_of_not_isAscii hc).2 d hd ha
    have hw := hall d.toNat (by omega) hlow hhigh
    rw [Char.ofNat_toNat] at hw
    exact ⟨fun _ => hw.1, fun _ => hw.2⟩

theorem upperChar_ne_nil (c : Char) : upperChar c ≠ [] := by
  by_cases hc : isAscii c = true
  · simp [upperChar_of_isAscii hc]
  · exact (upperChar_of_not_isAscii hc).1

theorem isWordlike_upper {name : String} (h : Lexeme.IsWord name.toList) :
    IsWordlike (upper name).toList := by
  have hu : (upper name).toList = name.toList.flatMap upperChar := by
    rw [upper, String.toList_ofList]
  obtain ⟨c, cs, hcs⟩ := List.exists_cons_of_ne_nil h.ne_nil
  obtain ⟨d, ds, hds⟩ := List.exists_cons_of_ne_nil (upperChar_ne_nil c)
  have hhead : (upper name).toList = d :: (ds ++ cs.flatMap upperChar) := by
    rw [hu, hcs, List.flatMap_cons, hds, List.cons_append]
  refine ⟨by simp [hhead], fun e he ha => ?_, fun e he ha => ?_⟩
  · rw [hhead, List.head?_cons, Option.mem_some_iff] at he
    subst he
    refine (word_of_mem_upperChar (c := c) (by simp [hds]) ha).1 ?_
    simpa [hcs] using h.starts
  · rw [hu] at he
    obtain ⟨c', hc', he⟩ := List.mem_flatMap.1 he
    exact (word_of_mem_upperChar he ha).2 (h.continues c' hc')

theorem isPlain_sizeSuffix : IsPlain Lexeme.sizeSuffix.toList := by decide

/-- What is spelled like the second word of a size specifier is one word. -/
theorem isWord_of_map_eq_sizeSuffix {us : List Char}
    (h : us.map lowerChar = Lexeme.sizeSuffix.toList.map fun c => [c]) : Lexeme.IsWord us :=
  isWord_of_map_lowerChar isPlain_sizeSuffix (by decide) h

end IntelAsm

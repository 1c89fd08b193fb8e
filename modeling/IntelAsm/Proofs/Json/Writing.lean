import IntelAsm.Proofs.Json.Grammar
import IntelAsm.Proofs.Json.Pairs

/-!
# Written documents

Whatever value is written, in one line or indented by any number of blanks, its text stands for it
by the grammar, up to the pairs of surrogates in it (`document_write`), and for no other value.
-/

namespace IntelAsm.Json

/-! ### Numbers -/

theorem isNatural_digits (n : Nat) : IsNatural ((Numeral.digits 10 n).map Numeral.digitChar) where
  ne_nil := by simp [Numeral.digits_ne_nil]
  digits _ := Numeral.isDecimalDigit_of_mem
  leading := by
    intro h
    rcases Nat.eq_zero_or_pos n with rfl | hn
    · simp [Numeral.digits, Numeral.digitChar]
    · obtain ⟨d, ds, hds⟩ := List.exists_cons_of_ne_nil (Numeral.digits_ne_nil 10 n)
      have hd : d < 10 := Numeral.digits_lt (by omega) n d (by simp [hds])
      have hzero : ∀ d < 10, Numeral.digitChar d = '0' → d = 0 := by decide
      have hhead := Numeral.head?_digits 10 n hn
      rw [hds] at h hhead
      exact absurd (congrArg some (hzero d hd (by simpa using h))) hhead

theorem naturalOf_digits (n : Nat) :
    naturalOf ((Numeral.digits 10 n).map Numeral.digitChar) = n :=
  Numeral.ofDigits_map_digitChar (by omega) (by omega) n

/-- A number is read from its decimal notation. -/
theorem readsInteger_decimal (n : Int) (r : List Char) :
    ReadsInteger n ((Numeral.decimal n).toList ++ r) r := by
  have hnatural := isNatural_digits n.natAbs
  have htext : (Numeral.numeral 10 n.natAbs).toList =
      (Numeral.digits 10 n.natAbs).map Numeral.digitChar := String.toList_ofList
  unfold Numeral.decimal
  split
  · next hn =>
    have hreads : ReadsInteger (-naturalOf _) ('-' :: _) r := .negative hnatural rfl
    rw [naturalOf_digits, Int.ofNat_natAbs_of_nonpos (Int.le_of_lt hn), Int.neg_neg] at hreads
    rwa [String.toList_append, htext]
  · next hn =>
    have hreads : ReadsInteger (naturalOf _) _ r := .natural hnatural rfl
    rw [naturalOf_digits, Int.natAbs_of_nonneg (Int.not_lt.1 hn)] at hreads
    rwa [htext]

/-! ### Strings -/

theorem digitValue?_toLower_digitChar {d : Nat} (h : d < 16) :
    Numeral.digitValue? (Numeral.digitChar d).toLower = some d := by
  have hall : ∀ d < 16, Numeral.digitValue? (Numeral.digitChar d).toLower = some d := by decide
  exact hall d h

/-- Zeros in front of digits do not change their number. -/
theorem ofDigits_replicate_append (base k : Nat) (ds : List Nat) :
    Numeral.ofDigits base (List.replicate k 0 ++ ds) = Numeral.ofDigits base ds := by
  induction k with
  | zero => rfl
  | succ k ih =>
    rw [← ih, List.replicate_succ, List.cons_append, Numeral.ofDigits, List.foldl_cons,
      Nat.zero_mul, Nat.zero_add]
    rfl

theorem unit?_digits {a b c d : Nat} (h : ∀ x ∈ [a, b, c, d], x < 16) :
    unit? (Numeral.digitChar a).toLower (Numeral.digitChar b).toLower
      (Numeral.digitChar c).toLower (Numeral.digitChar d).toLower =
      some (Numeral.ofDigits 16 [a, b, c, d]) := by
  simp only [List.forall_mem_cons] at h
  obtain ⟨ha, hb, hc, hd, -⟩ := h
  rw [unit?, digitValue?_toLower_digitChar ha, digitValue?_toLower_digitChar hb,
    digitValue?_toLower_digitChar hc, digitValue?_toLower_digitChar hd]
  rfl

/-- A unit is read from its four digits. -/
theorem exists_unit_paddedHex {n : Nat} (h : n < 0x10000) :
    ∃ a b c d, Numeral.paddedHex 4 n = [a, b, c, d] ∧ unit? a b c d = some n := by
  have hlength : (Numeral.digits 16 n).length ≤ 4 := Numeral.length_digits_le n 3 h
  generalize hds : List.replicate (4 - (Numeral.digits 16 n).length) 0 ++ Numeral.digits 16 n = ds
  have hpadded : Numeral.paddedHex 4 n = ds.map fun d => (Numeral.digitChar d).toLower := by
    simp [← hds, Numeral.paddedHex, Numeral.digitChar]
  have hvalue : Numeral.ofDigits 16 ds = n := by
    rw [← hds, ofDigits_replicate_append, Numeral.ofDigits_digits]
  have hlt : ∀ d ∈ ds, d < 16 := by
    intro d hd
    rw [← hds, List.mem_append, List.mem_replicate] at hd
    rcases hd with ⟨-, rfl⟩ | hd
    · decide
    · exact Numeral.digits_lt (by decide) n d hd
  have hfour : ds.length = 4 := by
    simp only [← hds, List.length_append, List.length_replicate]
    omega
  obtain ⟨a, b, c, d, rfl⟩ := List.length_eq_four.1 hfour
  exact ⟨_, _, _, _, hpadded, hvalue ▸ unit?_digits hlt⟩

theorem ofChar_ofNat {c : CodePoint} (h : c.toNat < 0x7F) : .ofChar (Char.ofNat c.toNat) = c := by
  obtain ⟨n, hn⟩ := c
  have hall : ∀ n < 0x7F, (Char.ofNat n).toNat = n := by decide
  exact CodePoint.ext (hall n h)

/-- The two units that stand for a code point beyond the first plane. -/
theorem exists_halves {c : CodePoint} (h : 0x10000 ≤ c.toNat) :
    ∃ high low : CodePoint, high.isHigh ∧ low.isLow ∧
      high.toNat = 0xD800 + (c.toNat - 0x10000) / 0x400 ∧
      low.toNat = 0xDC00 + (c.toNat - 0x10000) % 0x400 ∧
      c.toNat = 0x10000 + (high.toNat - 0xD800) * 0x400 + (low.toNat - 0xDC00) := by
  have hlt := c.lt
  refine ⟨⟨_, ?_⟩, ⟨_, ?_⟩, ?_, ?_, rfl, rfl, ?_⟩
  · omega
  · omega
  · simp only [CodePoint.isHigh, Bool.and_eq_true, decide_eq_true_eq]
    omega
  · simp only [CodePoint.isLow, Bool.and_eq_true, decide_eq_true_eq]
    omega
  · dsimp only
    omega

/-- Every code point is read from its written form, unless a low surrogate behind it makes it the
half of a pair. -/
theorem readsText_escaped (c : CodePoint) {v : Str} {i r : List Char} (h : ReadsText v i r)
    (hlone : c.isHigh → ¬StartsLow i) : ReadsText (c :: v) (escaped c ++ i) r := by
  unfold escaped
  iterate 7
    split
    · next hc =>
      subst hc
      exact .escape rfl h
  split
  · next hquote hescape _ _ _ _ _ hprintable =>
    simp only [Bool.and_eq_true, decide_eq_true_eq] at hprintable
    have hc := ofChar_ofNat hprintable.2
    have hplain : ReadsText (.ofChar (Char.ofNat c.toNat) :: v) (Char.ofNat c.toNat :: i) r := by
      refine .plain ?_ ?_ ?_ h
      · exact fun he => hquote (hc ▸ congrArg _ he)
      · exact fun he => hescape (hc ▸ congrArg _ he)
      · rw [show (Char.ofNat c.toNat).toNat = c.toNat from congrArg CodePoint.toNat hc]
        exact hprintable.1
    rwa [hc] at hplain
  split
  · next hunit =>
    obtain ⟨a, b, d, e, htext, hvalue⟩ := exists_unit_paddedHex hunit
    rw [escapedUnit, htext]
    exact .unit hvalue hlone h
  · next hunit =>
    obtain ⟨high, low, hhigh, hlow, hfirst, hsecond, hjoined⟩ :=
      exists_halves (Nat.le_of_not_lt hunit)
    have hlt := c.lt
    obtain ⟨_, _, _, _, htext, hvalue⟩ := exists_unit_paddedHex (show high.toNat < 0x10000 by omega)
    obtain ⟨_, _, _, _, htext', hvalue'⟩ :=
      exists_unit_paddedHex (show low.toNat < 0x10000 by omega)
    rw [escapedUnit, escapedUnit, ← hfirst, ← hsecond, htext, htext']
    exact .pair hvalue hvalue' hhigh hlow hjoined h

/-- A surrogate is written as the unit that it is. -/
theorem escaped_surrogate {c : CodePoint} (h : 0xD800 ≤ c.toNat ∧ c.toNat < 0xE000) :
    escaped c = escapedUnit c.toNat := by
  have hne {d : Char} (hd : d.toNat < 0xD800) : c ≠ .ofChar d := by
    rintro rfl
    exact absurd h.1 (Nat.not_le.2 hd)
  simp only [escaped, hne (by decide : '"'.toNat < 0xD800), hne (by decide : '\\'.toNat < 0xD800),
    hne (by decide : '\n'.toNat < 0xD800), hne (by decide : '\r'.toNat < 0xD800),
    hne (by decide : '\t'.toNat < 0xD800), hne (by decide : '\x08'.toNat < 0xD800),
    hne (by decide : '\x0c'.toNat < 0xD800), if_false]
  have hbeyond : ¬(0x20 ≤ c.toNat ∧ c.toNat < 0x7F) := by omega
  rw [if_neg (by simpa using hbeyond), if_pos (by omega)]

/-- Only a low surrogate is written as the second unit of a pair. -/
theorem not_startsLow_escaped {c : CodePoint} (h : ¬c.isLow) (i : List Char) :
    ¬StartsLow (escaped c ++ i) := by
  rintro ⟨a, b, d, e, low, j, heq, hvalue, hlow⟩
  unfold escaped at heq
  iterate 7
    split at heq
    · cases heq
  split at heq
  · next hescape _ _ _ _ _ hprintable =>
    -- a character that stands for itself is no backslash
    simp only [Bool.and_eq_true, decide_eq_true_eq] at hprintable
    have hc := ofChar_ofNat hprintable.2
    rw [(List.cons.inj heq).1] at hc
    exact hescape hc.symm
  split at heq
  · next hunit =>
    obtain ⟨a', b', d', e', htext, hvalue'⟩ := exists_unit_paddedHex hunit
    rw [escapedUnit, htext] at heq
    cases heq
    rw [CodePoint.ext (Option.some.inj (hvalue'.symm.trans hvalue))] at h
    exact h hlow
  · next hunit =>
    have hlt := c.lt
    obtain ⟨a', b', d', e', htext, hvalue'⟩ :=
      exists_unit_paddedHex (n := 0xD800 + (c.toNat - 0x10000) / 0x400) (by omega)
    rw [escapedUnit, htext] at heq
    cases heq
    have hlow' := Option.some.inj (hvalue'.symm.trans hvalue)
    simp only [CodePoint.isLow, Bool.and_eq_true, decide_eq_true_eq] at hlow
    omega

/-- A pair of surrogates is read as the code point for which it stands. -/
theorem readsText_pair {c d : CodePoint} (hc : c.isHigh) (hd : d.isLow) {v : Str}
    {i r : List Char} (h : ReadsText v i r) :
    ReadsText (c.join d :: v) (escaped c ++ (escaped d ++ i)) r := by
  have hhigh := hc
  have hlow := hd
  simp only [CodePoint.isHigh, CodePoint.isLow, Bool.and_eq_true, decide_eq_true_eq] at hhigh hlow
  obtain ⟨a, b, e, f, htext, hvalue⟩ := exists_unit_paddedHex (n := c.toNat) (by omega)
  obtain ⟨a', b', e', f', htext', hvalue'⟩ := exists_unit_paddedHex (n := d.toNat) (by omega)
  rw [escaped_surrogate (by omega), escaped_surrogate (by omega), escapedUnit, escapedUnit, htext,
    htext']
  exact .pair hvalue hvalue' hc hd (by simp only [CodePoint.join]; omega) h

theorem readsText_flatMap (v : Str) (r : List Char) :
    ReadsText (IntelAsm.joinPairs v) (v.flatMap escaped ++ '"' :: r) r := by
  induction v using IntelAsm.joinPairs.induct with
  | case1 c d v hpair ih =>
    rw [Bool.and_eq_true] at hpair
    rw [IntelAsm.joinPairs, if_pos (by simpa using hpair), List.flatMap_cons, List.flatMap_cons,
      List.append_assoc, List.append_assoc]
    exact readsText_pair hpair.1 hpair.2 ih
  | case2 c d v hpair ih =>
    rw [IntelAsm.joinPairs, if_neg hpair, List.flatMap_cons, List.append_assoc]
    refine readsText_escaped c ih fun hc => ?_
    rw [List.flatMap_cons, List.append_assoc]
    exact not_startsLow_escaped (by simpa [hc] using hpair) _
  | case3 v hv =>
    -- a text of one code point at most
    cases v with
    | nil => exact .close
    | cons c v =>
      cases v with
      | nil =>
        rw [List.flatMap_singleton]
        refine readsText_escaped c .close fun _ => ?_
        rintro ⟨_, _, _, _, _, _, heq, -⟩
        cases heq
      | cons d v => exact absurd rfl (hv c d v)

/-- The text of a string, behind its opening quote. -/
def quotedTail (s : Str) : List Char := s.flatMap escaped ++ ['"']

theorem toList_writeString (s : Str) : (writeString s).toList = '"' :: quotedTail s := by
  simp [writeString, quotedTail]

theorem readsText_quotedTail (s : Str) (r : List Char) :
    ReadsText (IntelAsm.joinPairs s) (quotedTail s ++ r) r := by
  rw [quotedTail, List.append_assoc]
  exact readsText_flatMap s r

theorem toList_writeKey (key : String) :
    (writeKey key).toList = '"' :: quotedTail (Text.codePoints key) :=
  toList_writeString _

/-- The name of a field is read from its text. -/
theorem readsText_key (key : String) (r : List Char) :
    ReadsText (Text.codePoints key) (quotedTail (Text.codePoints key) ++ r) r := by
  have hreads := readsText_quotedTail (Text.codePoints key) r
  rwa [joinPairs_of_pairFree (pairFree_codePoints key)] at hreads

/-! ### Layout -/

theorem Blanks.of_forall {ws : List Char} (h : ∀ c ∈ ws, isBlank c) (r : List Char) :
    Blanks (ws ++ r) r := by
  induction ws with
  | nil => exact .none
  | cons c ws ih =>
    obtain ⟨hc, hws⟩ := List.forall_mem_cons.1 h
    exact .more hc (ih hws)

theorem blanks_lineBreak (layout : Layout) (level : Nat) (r : List Char) :
    Blanks ((layout.lineBreak level).toList ++ r) r := by
  cases layout with
  | oneLine => exact .none
  | indented step =>
    refine Blanks.of_forall (fun c hc => ?_) r
    simp only [Layout.lineBreak, String.toList_append, String.toList_ofList, List.mem_append,
      List.mem_replicate] at hc
    rcases hc with hc | ⟨-, rfl⟩
    · obtain rfl : c = '\n' := by simpa using hc
      decide
    · decide

/-- Between two items stand a comma and blanks. -/
theorem exists_comma (layout : Layout) (level : Nat) :
    ∃ ws, (layout.comma level).toList = ',' :: ws ∧ ∀ r, Blanks (ws ++ r) r := by
  cases layout with
  | oneLine => exact ⟨[' '], by simp [Layout.comma], fun r => .more (by decide) .none⟩
  | indented step =>
    exact ⟨_, String.toList_append, fun r => blanks_lineBreak (.indented step) level r⟩

/-! ### Values -/

section
variable (layout : Layout)

mutual
/-- A value is read from its text. -/
theorem reads_writeAt (level : Nat) (j : Json) (r : List Char) :
    (Part.value j.joinPairs).Reads ((writeAt layout level j).toList ++ r) r := by
  match j with
  | .null => simpa [writeAt, joinPairs] using Part.Reads.null
  | .bool true => simpa [writeAt, joinPairs] using Part.Reads.boolTrue
  | .bool false => simpa [writeAt, joinPairs] using Part.Reads.boolFalse
  | .integer n => exact .integer (readsInteger_decimal n r)
  | .string s =>
    rw [writeAt, toList_writeString, joinPairs]
    exact .string (readsText_quotedTail s r)
  | .array [] => simpa [writeAt, joinPairs, joinPairsItems] using Part.Reads.emptyArray .none
  | .array (x :: xs) =>
    have hitems := reads_writeItems (level + 1) xs
      (blanks_lineBreak layout (level + 1) _) (reads_writeAt (level + 1) x _)
      (blanks_lineBreak layout level (']' :: r))
    simp only [writeAt, String.toList_append, List.append_assoc]
    exact .array hitems
  | .object [] => simpa [writeAt, joinPairs, joinPairsFields] using Part.Reads.emptyObject .none
  | .object ((key, x) :: fs) =>
    have hfields := reads_writeFields (level + 1) fs
      (blanks_lineBreak layout (level + 1) _) (readsText_key key _)
      (reads_writeAt (level + 1) x _) (blanks_lineBreak layout level ('\x7d' :: r))
    simp only [writeAt, String.toList_append, toList_writeKey, List.append_assoc,
      List.cons_append]
    exact .object hfields

/-- The items of a list are read from their texts, if the first is. -/
theorem reads_writeItems (level : Nat) (xs : List Json) {x : Json} {i j k r : List Char}
    (hi : Blanks i j) (hx : (Part.value x).Reads j ((writeItems layout level xs).toList ++ k))
    (hk : Blanks k (']' :: r)) : (Part.items (x :: joinPairsItems xs)).Reads i r := by
  match xs with
  | [] => exact .lastItem hi hx hk
  | y :: ys =>
    obtain ⟨ws, hcomma, hws⟩ := exists_comma layout level
    have hitems := reads_writeItems level ys (hws _) (reads_writeAt level y _) hk
    simp only [writeItems, String.toList_append, hcomma, List.append_assoc, List.cons_append] at hx
    exact .item hi hx .none hitems

/-- The fields of an object are read from their texts, if the first is. -/
theorem reads_writeFields (level : Nat) (fs : List (String × Json)) {key : String} {x : Json}
    {i j l k r : List Char} (hi : Blanks i ('"' :: j))
    (hkey : ReadsText (Text.codePoints key) j (':' :: ' ' :: l))
    (hx : (Part.value x).Reads l ((writeFields layout level fs).toList ++ k))
    (hk : Blanks k ('\x7d' :: r)) :
    (Part.fields ((key, x) :: joinPairsFields fs)).Reads i r := by
  have hblank {m : List Char} : Blanks (' ' :: m) m := .more (by decide) .none
  match fs with
  | [] => exact .lastField hi hkey .none hblank hx hk
  | (key', y) :: fs =>
    obtain ⟨ws, hcomma, hws⟩ := exists_comma layout level
    have hfields := reads_writeFields level fs (hws _) (readsText_key key' _)
      (reads_writeAt level y _) hk
    simp only [writeFields, String.toList_append, toList_writeKey, hcomma, List.append_assoc,
      List.cons_append] at hx
    exact .field hi hkey .none hblank hx .none hfields
end

end

/-- A written value is read with its pairs joined. -/
theorem document_write (layout : Layout) (j : Json) :
    Document j.joinPairs (write layout j).toList := by
  have hreads := reads_writeAt layout 0 j []
  rw [List.append_nil] at hreads
  exact ⟨_, _, .none, hreads, .none⟩

theorem document_write_iff (layout : Layout) (j x : Json) :
    Document x (write layout j).toList ↔ x = j.joinPairs := by
  constructor
  · exact fun h => h.unique (document_write layout j)
  · rintro rfl
    exact document_write layout j

end IntelAsm.Json

import IntelAsm.Lexer
import IntelAsm.Proofs.Numeral.Reading
import IntelAsm.Rendering.Spelling
import Mathlib.Data.List.TakeWhile

/-!
# The word at the front of a text

The first characters of a text decide which reader makes its word (`wordFrom_identifier` and its
like), and what a reader takes is determined by where its word has to end. For each kind of word
there is a law that gives the word back from its own text and whatever follows it: names, registers
and numerals end in front of a character that continues no word (`Breaks`), everything else ends by
itself.

Conversely every word has the shape of its kind (`Word.Lexed`, `lexed_of_wordFrom`), and a word that
is begun is either found or at fault.
-/

namespace IntelAsm

namespace Text

/-- A fact about the characters of ASCII, of which there are few. -/
theorem of_isAscii {P : Char → Prop} (h : ∀ n < 0x80, P (Char.ofNat n)) {c : Char}
    (hc : isAscii c) : P c := by
  have hlt : c.toNat < 0x80 := by simpa [isAscii] using hc
  simpa using h c.toNat hlt

/-- Decimal digits are those of ASCII; others do not count. -/
theorem isAscii_of_isDecimalDigit {c : Char} (h : Numeral.isDecimalDigit c) : isAscii c := by
  have hc := Numeral.isDecimalDigit_iff.1 h
  simp only [isAscii, decide_eq_true_eq]
  omega

theorem isAscii_of_isHexDigit {c : Char} (h : Numeral.isHexDigit c) : isAscii c := by
  obtain ⟨d, hd⟩ := Numeral.digit?_sixteen_isSome h
  have hc := Numeral.toNat_of_digit? hd
  simp only [isAscii, decide_eq_true_eq]
  omega

end Text

namespace Lexeme

/-! ### Classes of characters -/

/-- No digit starts a name. -/
theorem not_isDecimalDigit_of_startsWord {c : Char} (h : startsWord c) :
    Numeral.isDecimalDigit c = false := by
  by_cases hc : Text.isAscii c
  · have hall : ∀ n < 0x80, startsWord (Char.ofNat n) →
        Numeral.isDecimalDigit (Char.ofNat n) = false := by decide
    exact Text.of_isAscii (P := fun c => startsWord c → Numeral.isDecimalDigit c = false) hall hc h
  · exact Bool.eq_false_iff.2 fun hd => hc (Text.isAscii_of_isDecimalDigit hd)

/-- A numeral is not ended by what would be one more digit of it. -/
theorem continuesWord_of_isHexDigit {c : Char} (h : Numeral.isHexDigit c) : continuesWord c := by
  have hall : ∀ n < 0x80, Numeral.isHexDigit (Char.ofNat n) → continuesWord (Char.ofNat n) := by
    decide
  exact Text.of_isAscii (P := fun c => Numeral.isHexDigit c → continuesWord c) hall
    (Text.isAscii_of_isHexDigit h) h

theorem isHexDigit_of_isDecimalDigit {c : Char} (h : Numeral.isDecimalDigit c) :
    Numeral.isHexDigit c := by
  have hall : ∀ n < 0x80, Numeral.isDecimalDigit (Char.ofNat n) →
      Numeral.isHexDigit (Char.ofNat n) := by decide
  exact Text.of_isAscii (P := fun c => Numeral.isDecimalDigit c → Numeral.isHexDigit c) hall
    (Text.isAscii_of_isDecimalDigit h) h

/-- No word goes on over a blank. -/
theorem not_isInlineSpace_of_continuesWord {c : Char} (h : continuesWord c) :
    ¬isInlineSpace c = true := by
  intro hb
  simp only [isInlineSpace, Bool.or_eq_true, decide_eq_true_eq] at hb
  rcases hb with (rfl | rfl) | rfl <;> cases h

/-- A text in front of which every word made of letters or digits ends. -/
def Breaks (cs : List Char) : Prop := cs.head?.any continuesWord = false

/-- What a text starts with tells what is taken of it. -/
theorem takeWhile_append {p : Char → Bool} {cs ds : List Char} (hcs : ∀ c ∈ cs, p c)
    (hds : ds.head?.any p = false) : (cs ++ ds).takeWhile p = cs := by
  rw [List.takeWhile_append_of_pos hcs]
  cases ds with
  | nil => simp
  | cons d ds =>
    have hd : p d = false := by simpa using hds
    simp [hd]

/-- What is dropped ends where a part of another kind begins. -/
theorem dropWhile_append {p : Char → Bool} {cs ds : List Char} (hcs : ∀ c ∈ cs, p c)
    (hds : ds.head?.any p = false) : (cs ++ ds).dropWhile p = ds := by
  rw [List.dropWhile_append_of_pos hcs]
  cases ds with
  | nil => simp
  | cons d ds =>
    have hd : p d = false := by simpa using hds
    simp [hd]

theorem head?_dropWhile (p : Char → Bool) (cs : List Char) :
    (cs.dropWhile p).head?.any p = false := by
  have h := List.head?_dropWhile_not p cs
  cases hd : (cs.dropWhile p).head? with
  | none => rfl
  | some c => simpa [hd] using h

/-- In front of a text that ends words, no run of digits goes on. -/
theorem Breaks.digitRun {cs : List Char} (h : Breaks cs) {isDigit : Char → Bool}
    (hd : ∀ c, isDigit c → continuesWord c) :
    cs.head?.any (fun c => isDigit c || c = '_') = false := by
  cases cs with
  | nil => rfl
  | cons c cs =>
    have hc : continuesWord c = false := by simpa [Breaks] using h
    simp only [List.head?_cons, Option.any_some, Bool.or_eq_false_iff, decide_eq_false_iff_not]
    refine ⟨Bool.eq_false_iff.2 fun hdc => ?_, ?_⟩
    · rw [hd c hdc] at hc
      cases hc
    · rintro rfl
      simp [continuesWord] at hc

/-! ### Digits -/

/-- Among digits there are no separators to be left out. -/
theorem digitsOf_eq_self {isDigit : Char → Bool} (hu : isDigit '_' = false) {ds : List Char}
    (hds : ∀ c ∈ ds, isDigit c) : digitsOf ds = ds := by
  refine List.filter_eq_self.2 fun c hc => ?_
  simp only [ne_eq, decide_eq_true_eq]
  rintro rfl
  rw [hds _ hc] at hu
  cases hu

/-- What is left of a run without its separators are digits. -/
theorem of_mem_digitsOf {isDigit : Char → Bool} {cs : List Char} {d : Char}
    (h : d ∈ digitsOf (digitRun isDigit cs)) : isDigit d := by
  obtain ⟨hrun, hne⟩ := List.mem_filter.1 h
  have hor := List.mem_takeWhile_imp hrun
  simpa [of_decide_eq_true hne] using hor

/-! ### The reader of a word -/

/-- Either marker begins a comment. -/
theorem wordFrom_comment {c : Char} (h : c = ';' ∨ c = '#') (cs : List Char) :
    wordFrom c cs = comment (c :: cs) := by
  have hn : c ≠ '\n' := by
    rintro rfl
    simp at h
  rw [wordFrom, if_neg hn, if_pos (by simpa using h)]

/-- The marker of a hexadecimal numeral is a zero with one of two letters. -/
theorem startsHex_cons {c : Char} {cs : List Char} (h : startsHex (c :: cs)) :
    c = '0' ∧ ∃ x ds, cs = x :: ds ∧ (x = 'x' ∨ x = 'X') := by
  unfold startsHex at h
  split at h
  · next x ds heq =>
    obtain ⟨rfl, rfl⟩ := List.cons.inj heq
    exact ⟨rfl, x, ds, rfl, by simpa using h⟩
  · cases h

/-- The marker of a hexadecimal numeral comes before its first digit is looked at. -/
theorem wordFrom_hexNumber {c : Char} {cs : List Char} (h : startsHex (c :: cs)) :
    wordFrom c cs = hexNumber (c :: cs) := by
  obtain ⟨rfl, -⟩ := startsHex_cons h
  rw [wordFrom, if_neg (by decide), if_neg (by decide), if_pos h]

/-- Any other digit begins a decimal numeral. -/
theorem wordFrom_number {c : Char} (h : Numeral.isDecimalDigit c) {cs : List Char}
    (hx : startsHex (c :: cs) = false) : wordFrom c cs = number (c :: cs) := by
  have hn : c ≠ '\n' := by
    rintro rfl
    cases h
  have hc : ¬(c = ';' || c = '#') = true := by
    simp only [Bool.or_eq_true, decide_eq_true_eq]
    rintro (rfl | rfl) <;> cases h
  rw [wordFrom, if_neg hn, if_neg hc, if_neg (by simp [hx]), if_pos h]

/-- A letter or `_` begins a name, a register or a size. -/
theorem wordFrom_identifier {c : Char} (h : startsWord c) (cs : List Char) :
    wordFrom c cs = identifier (c :: cs) := by
  have hn : c ≠ '\n' := by
    rintro rfl
    cases h
  have hc : ¬(c = ';' || c = '#') = true := by
    simp only [Bool.or_eq_true, decide_eq_true_eq]
    rintro (rfl | rfl) <;> cases h
  have hd : Numeral.isDecimalDigit c = false := not_isDecimalDigit_of_startsWord h
  have hx : ¬startsHex (c :: cs) = true := by
    intro hx
    rw [(startsHex_cons hx).1] at hd
    cases hd
  rw [wordFrom, if_neg hn, if_neg hc, if_neg hx, if_neg (by simp [hd]), if_pos h]

/-- Either quote begins a string. -/
theorem wordFrom_string {c : Char} (h : c = '"' ∨ c = '\'') (cs : List Char) :
    wordFrom c cs = string (c :: cs) := by
  rcases h with rfl | rfl
  all_goals
    rw [wordFrom, if_neg (by decide), if_neg (by decide), if_neg (by simp [startsHex]),
      if_neg (by decide), if_neg (by decide), if_pos (by decide)]

theorem wordFrom_newline (cs : List Char) :
    wordFrom '\n' cs = ⟨.found ⟨.newline, "\n"⟩, 1⟩ := by
  rw [wordFrom, if_pos rfl]

/-- A mark is a word by itself. -/
theorem wordFrom_mark (m : Mark) (cs : List Char) :
    wordFrom m.char cs = ⟨.found ⟨.mark m, String.singleton m.char⟩, 1⟩ := by
  have hx : ¬startsHex (m.char :: cs) = true := by
    cases m <;> simp [startsHex, Mark.char]
  rw [wordFrom, if_neg (by cases m <;> decide), if_neg (by cases m <;> decide), if_neg hx,
    if_neg (by cases m <;> decide), if_neg (by cases m <;> decide),
    if_neg (by cases m <;> decide), Mark.ofChar?_char]

/-! ### The word ahead -/

/-- A word stands at the front of a text iff characters do that it is the lower case of. -/
theorem afterWord_eq_some {ws cs rest : List Char} :
    afterWord ws cs = some rest ↔
      ∃ us, cs = us ++ rest ∧ us.map Text.lowerChar = ws.map fun w => [w] := by
  induction ws generalizing cs with
  | nil => simp [afterWord, eq_comm]
  | cons w ws ih =>
    cases cs with
    | nil =>
      rw [afterWord]
      refine ⟨fun h => (by cases h), ?_⟩
      rintro ⟨us, hus, hmap⟩
      rw [(List.append_eq_nil_iff.1 hus.symm).1] at hmap
      cases hmap
    | cons c cs =>
      rw [afterWord]
      constructor
      · intro h
        split at h
        · next hc =>
          obtain ⟨us, rfl, hus⟩ := ih.1 h
          exact ⟨c :: us, rfl, by simp [hc, hus]⟩
        · cases h
      · rintro ⟨us, hus, hmap⟩
        cases us with
        | nil => cases hmap
        | cons u us =>
          obtain ⟨rfl, rfl⟩ := List.cons.inj hus
          obtain ⟨hu, hmap⟩ := List.cons.inj hmap
          rw [if_pos hu]
          exact ih.2 ⟨us, rfl, hmap⟩

/-- Blanks of one line. -/
def IsGap (cs : List Char) : Prop := ∀ c ∈ cs, isInlineSpace c

theorem isGap_gap (cs : List Char) : IsGap (gap cs) := fun _ => List.mem_takeWhile_imp

/-- A word is ahead iff it stands in full behind all blanks of a text, in any letter case. -/
theorem wordAhead_eq_some_iff {word cs : List Char} {n : Nat} :
    wordAhead word cs = some n ↔
      ∃ g u r, cs = g ++ (u ++ r) ∧ IsGap g ∧ (u ++ r).head?.any isInlineSpace = false ∧
        u.map Text.lowerChar = word.map (fun w => [w]) ∧ Breaks r ∧ n = g.length + u.length := by
  have hlength : ∀ u : List Char, u.map Text.lowerChar = word.map (fun w => [w]) →
      u.length = word.length := fun u h => by simpa using congrArg List.length h
  constructor
  · intro h
    unfold wordAhead at h
    cases ha : afterWord word (cs.dropWhile isInlineSpace) with
    | none => simp [ha] at h
    | some r =>
      obtain ⟨u, hu, hmap⟩ := afterWord_eq_some.1 ha
      cases hb : r.head?.any continuesWord with
      | true => simp [ha, hb] at h
      | false =>
        refine ⟨gap cs, u, r, ?_, isGap_gap cs, ?_, hmap, hb, ?_⟩
        · rw [← hu]
          exact List.takeWhile_append_dropWhile.symm
        · rw [← hu]
          exact head?_dropWhile isInlineSpace cs
        · simpa [ha, hb, hlength u hmap, eq_comm] using h
  · rintro ⟨g, u, r, rfl, hg, hhead, hmap, hb, rfl⟩
    have hgap : gap (g ++ (u ++ r)) = g := takeWhile_append hg hhead
    rw [wordAhead, dropWhile_append hg hhead, hgap, afterWord_eq_some.2 ⟨u, rfl, hmap⟩]
    simp only [show r.head?.any continuesWord = false from hb, hlength u hmap]
    rfl

/-- A word that is spelled behind one blank is ahead if it ends there. -/
theorem wordAhead_blank {ws us rest : List Char} (h : us.map Text.lowerChar = ws.map fun w => [w])
    (hu : (us ++ rest).head?.any isInlineSpace = false) (hb : Breaks rest) :
    wordAhead ws (' ' :: (us ++ rest)) = some (1 + ws.length) := by
  have hg : IsGap [' '] := List.forall_mem_singleton.2 rfl
  have hlength : us.length = ws.length := by simpa using congrArg List.length h
  exact wordAhead_eq_some_iff.2 ⟨[' '], us, rest, rfl, hg, hu, h, hb, by simp [hlength]⟩

/-! ### Words are read back from their text -/

/-- A text that the lexer takes for one word. -/
structure IsWord (cs : List Char) : Prop where
  starts : cs.head?.any startsWord
  continues : ∀ c ∈ cs, continuesWord c

instance (cs : List Char) : Decidable (IsWord cs) :=
  decidable_of_iff (cs.head?.any startsWord ∧ cs.all continuesWord)
    ⟨fun h => ⟨h.1, List.all_eq_true.1 h.2⟩, fun h => ⟨h.starts, List.all_eq_true.2 h.continues⟩⟩

theorem IsWord.ne_nil {cs : List Char} (h : IsWord cs) : cs ≠ [] := by
  rintro rfl
  cases h.starts

section
variable {rest : List Char}

/-- A run of digits and separators is read up to its end. -/
theorem word_number_of_run {d : Char} {ds : List Char} (hd : Numeral.isDecimalDigit d)
    (hds : ∀ c ∈ ds, Numeral.isDecimalDigit c ∨ c = '_')
    (hr : rest.head?.any (fun c => Numeral.isDecimalDigit c || c = '_') = false)
    (hx : startsHex (d :: ds ++ rest) = false) :
    word (d :: ds ++ rest) =
      ⟨.found ⟨.number, String.ofList ((d :: ds).filter (· ≠ '_'))⟩, (d :: ds).length⟩ := by
  have hrun : digitRun Numeral.isDecimalDigit (d :: ds ++ rest) = d :: ds :=
    takeWhile_append (List.forall_mem_cons.2 ⟨by simp [hd], fun c hc => by simpa using hds c hc⟩) hr
  rw [List.cons_append] at hx hrun ⊢
  show wordFrom d (ds ++ rest) = _
  rw [wordFrom_number hd hx, number, hrun]
  rfl

/-- A hexadecimal numeral is its marker and a run with a digit, as far as it goes. -/
theorem word_hexNumber_of_run {x : Char} {ds : List Char} (hx : x = 'x' ∨ x = 'X')
    (hds : ∀ c ∈ ds, Numeral.isHexDigit c ∨ c = '_') (hd : ∃ c ∈ ds, c ≠ '_')
    (hr : rest.head?.any (fun c => Numeral.isHexDigit c || c = '_') = false) :
    word ('0' :: x :: ds ++ rest) =
      ⟨.found ⟨.hexNumber, String.ofList (('0' :: x :: ds).filter (· ≠ '_'))⟩,
        ('0' :: x :: ds).length⟩ := by
  have hrun : digitRun Numeral.isHexDigit (ds ++ rest) = ds :=
    takeWhile_append (fun c hc => by simpa using hds c hc) hr
  have hne : digitsOf ds ≠ [] := by
    obtain ⟨c, hc, hu⟩ := hd
    exact List.ne_nil_of_mem (List.mem_filter.2 ⟨hc, decide_eq_true hu⟩)
  have hstarts : startsHex ('0' :: x :: (ds ++ rest)) = true := by simpa [startsHex] using hx
  show wordFrom '0' (x :: (ds ++ rest)) = _
  rw [wordFrom_hexNumber hstarts, hexNumber]
  simp only [hrun, if_neg hne]
  rcases hx with rfl | rfl <;> simp [digitsOf]

end

section
variable {rest : List Char} (hb : Breaks rest)
include hb

/-- The reader of identifiers takes a whole word and may go on to the second word of a size. -/
theorem word_append {name : String} (h : IsWord name.toList) :
    word (name.toList ++ rest) = identifier (name.toList ++ rest) ∧
      (name.toList ++ rest).takeWhile continuesWord = name.toList ∧
      (name.toList ++ rest).dropWhile continuesWord = rest := by
  refine ⟨?_, takeWhile_append h.continues hb, dropWhile_append h.continues hb⟩
  have hs := h.starts
  cases hn : name.toList with
  | nil => simp [hn] at hs
  | cons c cs =>
    have hc : startsWord c := by simpa [hn] using hs
    exact wordFrom_identifier hc (cs ++ rest)

/-- A name or a register is read back, unless it is the first word of a size and the second
follows. -/
theorem word_name {name : String} (h : IsWord name.toList)
    (hs : Width.ofKeyword? (Text.lower name) = none ∨ wordAhead sizeSuffix.toList rest = none) :
    word (name.toList ++ rest) =
      ⟨.found ⟨if isRegister name then .register else .ident, name⟩, name.toList.length⟩ := by
  obtain ⟨hw, ht, hd⟩ := word_append hb h
  rw [hw, identifier]
  simp only [ht, hd, String.ofList_toList]
  cases hk : Width.ofKeyword? (Text.lower name) with
  | none => rfl
  | some w =>
    rw [hk] at hs
    rw [hs.resolve_left (by simp)]

/-- The two words of a size are read as one. -/
theorem word_size_of_ahead {name : String} {w : Width} {n : Nat} (h : IsWord name.toList)
    (hk : Width.ofKeyword? (Text.lower name) = some w)
    (ha : wordAhead sizeSuffix.toList rest = some n) :
    word (name.toList ++ rest) =
      ⟨.found ⟨.size w, w.keyword ++ " " ++ sizeSuffix⟩, name.toList.length + n⟩ := by
  obtain ⟨hw, ht, hd⟩ := word_append hb h
  rw [hw, identifier]
  simp only [ht, hd, String.ofList_toList, hk, ha]

/-- The specifier of a size is read back. -/
theorem word_size (w : Width) :
    word ((w.keyword ++ " " ++ sizeSuffix).toList ++ rest) =
      ⟨.found ⟨.size w, w.keyword ++ " " ++ sizeSuffix⟩,
        (w.keyword ++ " " ++ sizeSuffix).toList.length⟩ := by
  have ha : wordAhead sizeSuffix.toList (' ' :: (sizeSuffix.toList ++ rest)) = some 4 :=
    wordAhead_blank (by decide) rfl hb
  have hw : IsWord w.keyword.toList := by
    cases w <;> decide
  have hk : Width.ofKeyword? (Text.lower w.keyword) = some w := by
    cases w <;> decide
  have hbl : Breaks (' ' :: (sizeSuffix.toList ++ rest)) := rfl
  have ht : (w.keyword ++ " " ++ sizeSuffix).toList ++ rest =
      w.keyword.toList ++ ' ' :: (sizeSuffix.toList ++ rest) := by
    simp [String.toList_append]
  rw [ht, word_size_of_ahead hbl hw hk ha]
  simp [sizeSuffix]

/-- Digits and separators do not start with the marker of a hexadecimal numeral. -/
theorem startsHex_digits {ds : List Char} (hds : ∀ c ∈ ds, Numeral.isDecimalDigit c ∨ c = '_')
    (d : Char) : startsHex (d :: (ds ++ rest)) = false := by
  refine Bool.eq_false_iff.2 fun h => ?_
  obtain ⟨-, x, cs, hcs, hx⟩ := startsHex_cons h
  cases ds with
  | nil =>
    have hc : continuesWord x = false := by
      rw [List.nil_append] at hcs
      simpa [Breaks, hcs] using hb
    rcases hx with rfl | rfl <;> cases hc
  | cons e ds =>
    obtain ⟨rfl, -⟩ := List.cons.inj hcs
    have he : Numeral.isDecimalDigit e ∨ e = '_' := hds e (by simp)
    rcases hx with rfl | rfl <;> revert he <;> decide

/-- A decimal numeral is read back. -/
theorem word_number {ds : List Char} (hne : ds ≠ [])
    (hds : ∀ c ∈ ds, Numeral.isDecimalDigit c) :
    word (ds ++ rest) = ⟨.found ⟨.number, String.ofList ds⟩, ds.length⟩ := by
  have hplain : ds.filter (· ≠ '_') = ds := digitsOf_eq_self rfl hds
  obtain ⟨d, ds, rfl⟩ := List.exists_cons_of_ne_nil hne
  obtain ⟨hd, hds⟩ := List.forall_mem_cons.1 hds
  have hr := hb.digitRun fun _ hc => continuesWord_of_isHexDigit (isHexDigit_of_isDecimalDigit hc)
  have hds' : ∀ c ∈ ds, Numeral.isDecimalDigit c ∨ c = '_' := fun c hc => .inl (hds c hc)
  have hw := word_number_of_run hd hds' hr (startsHex_digits hb hds' d)
  rwa [hplain] at hw

/-- A hexadecimal numeral is read back. -/
theorem word_hexNumber {ds : List Char} (hne : ds ≠ []) (hds : ∀ c ∈ ds, Numeral.isHexDigit c) :
    word ('0' :: 'x' :: ds ++ rest) =
      ⟨.found ⟨.hexNumber, String.ofList ('0' :: 'x' :: ds)⟩, ds.length + 2⟩ := by
  have hplain : ('0' :: 'x' :: ds).filter (· ≠ '_') = '0' :: 'x' :: ds :=
    congrArg (['0', 'x'] ++ ·) (digitsOf_eq_self rfl hds)
  obtain ⟨d, hd⟩ := List.exists_mem_of_ne_nil ds hne
  have hu : d ≠ '_' := by
    rintro rfl
    cases hds _ hd
  have hr := hb.digitRun fun _ => continuesWord_of_isHexDigit
  have hw := word_hexNumber_of_run (.inl rfl) (fun c hc => .inl (hds c hc)) ⟨d, hd, hu⟩ hr
  rwa [hplain] at hw

end

/-- A mark is read back, whatever follows it. -/
theorem word_mark (m : Mark) (rest : List Char) :
    word (m.char :: rest) = ⟨.found ⟨.mark m, String.singleton m.char⟩, 1⟩ :=
  wordFrom_mark m rest

theorem word_newline (rest : List Char) :
    word ('\n' :: rest) = ⟨.found ⟨.newline, "\n"⟩, 1⟩ :=
  wordFrom_newline rest

/-- A text that is a comment when it stands in front of the end of its line. -/
def IsComment (cs : List Char) : Prop :=
  (∃ c ds, (c = ';' ∨ c = '#') ∧ cs = c :: ds) ∧ '\n' ∉ cs

/-- A comment goes on to the end of its line. -/
theorem word_comment {text : String} (h : IsComment text.toList) {rest : List Char}
    (hr : rest.head?.any (· ≠ '\n') = false) :
    word (text.toList ++ rest) = ⟨.found ⟨.comment, text⟩, text.toList.length⟩ := by
  obtain ⟨⟨c, ds, hc, hcs⟩, hn⟩ := h
  have ht : (text.toList ++ rest).takeWhile (· ≠ '\n') = text.toList := by
    refine takeWhile_append (fun d hd => ?_) hr
    simp only [ne_eq, decide_eq_true_eq]
    rintro rfl
    exact hn hd
  have hw : word (text.toList ++ rest) = comment (text.toList ++ rest) := by
    rw [hcs]
    exact wordFrom_comment hc (ds ++ rest)
  rw [hw, comment]
  simp only [ht, String.ofList_toList]

/-! ### Strings -/

/-- A text that the given quotes may stand around: no newline and no such quote stands in it
unescaped, and no backslash at its end escapes the closing quote. -/
def fitsBetween (quote : Char) : List Char → Bool
  | [] => true
  | c :: cs =>
    if c = quote || c = '\n' then false
    else if c = '\\' then
      match cs with
      | [] => false
      | d :: ds => d ≠ '\n' && fitsBetween quote ds
    else fitsBetween quote cs

/-- A quote behind a text that fits closes it; an escaped character is passed with its backslash. -/
theorem stringBody_append {quote : Char} {cs : List Char}
    (h : fitsBetween quote cs) (rest : List Char) :
    stringBody quote (cs ++ quote :: rest) = cs := by
  fun_induction fitsBetween quote cs with
  | case1 => rw [List.nil_append, stringBody.eq_def]; simp
  | case2 => cases h
  | case3 => cases h
  | case4 d ds hc ih =>
    obtain ⟨hd, h⟩ := Bool.and_eq_true_iff.1 h
    rw [List.cons_append, List.cons_append, stringBody.eq_def]
    simp only [if_neg hc, if_true, if_neg (of_decide_eq_true hd), ih h]
  | case5 c cs hc hb ih =>
    rw [List.cons_append, stringBody.eq_def]
    simp only [if_neg hc, if_neg hb, ih h]

/-- What a string holds fits between its quotes. -/
theorem fitsBetween_stringBody {quote : Char} (hq : quote ≠ '\n') {cs : List Char}
    (h : (cs.drop (stringBody quote cs).length).head? = some quote) :
    fitsBetween quote (stringBody quote cs) := by
  fun_induction stringBody quote cs with
  | case1 => rfl
  | case2 => rfl
  | case3 => cases h
  | case4 ds hc => exact absurd (Option.some.inj h).symm hq
  | case5 d ds hd hc ih =>
    rw [fitsBetween.eq_def]
    simpa only [if_neg hc, if_true, Bool.and_eq_true, decide_eq_true_eq, ne_eq, hd,
      not_false_eq_true, true_and] using ih h
  | case6 c cs hc hb ih =>
    rw [fitsBetween.eq_def]
    simpa only [if_neg hc, if_neg hb] using ih h

/-- A text that can be written as a string: it fits between quotes of one of the two kinds. -/
def IsQuotable (cs : List Char) : Prop := fitsBetween '"' cs ∨ fitsBetween '\'' cs

/-- Where single quotes fit, double ones do unless one of them stands in the text. -/
theorem fitsBetween_double {cs : List Char} (h : fitsBetween '\'' cs)
    (hd : Spelling.holdsDoubleQuote cs = false) : fitsBetween '"' cs := by
  fun_induction fitsBetween '\'' cs with
  | case1 => rfl
  | case2 => cases h
  | case3 => cases h
  | case4 d ds hc ih =>
    obtain ⟨hn, h⟩ := Bool.and_eq_true_iff.1 h
    rw [Spelling.holdsDoubleQuote.eq_def] at hd
    rw [fitsBetween.eq_def]
    simpa [of_decide_eq_true hn] using ih h (by simpa using hd)
  | case5 c cs hc hb ih =>
    rw [Spelling.holdsDoubleQuote.eq_def] at hd
    simp only [if_neg hb, Bool.or_eq_false_iff, decide_eq_false_iff_not] at hd
    rw [fitsBetween.eq_def]
    simp only [Bool.or_eq_true, decide_eq_true_eq, not_or] at hc
    simpa [hd.1, hc.2, hb] using ih h hd.2

/-- In a text that fits between double quotes none of them stands unescaped. -/
theorem holdsDoubleQuote_of_fits {cs : List Char} (h : fitsBetween '"' cs) :
    Spelling.holdsDoubleQuote cs = false := by
  fun_induction fitsBetween '"' cs with
  | case1 => rfl
  | case2 => cases h
  | case3 => cases h
  | case4 d ds hc ih =>
    rw [Spelling.holdsDoubleQuote.eq_def]
    simpa using ih (Bool.and_eq_true_iff.1 h).2
  | case5 c cs hc hb ih =>
    rw [Spelling.holdsDoubleQuote.eq_def]
    simp only [Bool.or_eq_true, decide_eq_true_eq, not_or] at hc
    simpa [hc.1, hb] using ih h

/-- A string ends with the quote that closes it. -/
theorem word_string_of_fits {quote : Char} {body rest : List Char}
    (hq : quote = '"' ∨ quote = '\'')
    (hb : fitsBetween quote body) :
    word (quote :: (body ++ [quote]) ++ rest) =
      ⟨.found ⟨.string, String.ofList body⟩, (quote :: (body ++ [quote])).length⟩ := by
  have hbody : stringBody quote (body ++ quote :: rest) = body := stringBody_append hb rest
  rw [List.cons_append, List.append_assoc]
  show wordFrom quote (body ++ quote :: rest) = _
  rw [wordFrom_string hq, string]
  simp [hbody]

theorem toList_string_ne_nil (text : String) : (Spelling.string text).toList ≠ [] := by
  unfold Spelling.string
  split <;> simp [String.toList_append]

/-- A string is read back from its spelling. -/
theorem word_string {text : String} (h : IsQuotable text.toList) (rest : List Char) :
    word ((Spelling.string text).toList ++ rest) =
      ⟨.found ⟨.string, text⟩, (Spelling.string text).toList.length⟩ := by
  obtain ⟨quote, hquote, hfits, hspell⟩ : ∃ quote : Char, (quote = '"' ∨ quote = '\'') ∧
      fitsBetween quote text.toList ∧
      (Spelling.string text).toList = quote :: text.toList ++ [quote] := by
    unfold Spelling.string
    cases hd : Spelling.holdsDoubleQuote text.toList with
    | true =>
      have hfits : fitsBetween '\'' text.toList := by
        refine h.resolve_left fun h => ?_
        rw [holdsDoubleQuote_of_fits h] at hd
        cases hd
      exact ⟨'\'', .inr rfl, hfits, by simp [String.toList_append]⟩
    | false =>
      have hfits : fitsBetween '"' text.toList := h.elim id fun h => fitsBetween_double h hd
      exact ⟨'"', .inl rfl, hfits, by simp [String.toList_append]⟩
  have hw : word (quote :: (text.toList ++ [quote]) ++ rest) = _ := word_string_of_fits hquote hfits
  rwa [String.ofList_toList, ← List.cons_append, ← hspell] at hw

end Lexeme

/-! ### The shape of words -/

/-- What a word of each kind looks like. -/
inductive Word.Lexed : Word → Prop where
  | number {text : String} (hne : text.toList ≠ [])
      (hds : ∀ c ∈ text.toList, Numeral.isDecimalDigit c) : Lexed ⟨.number, text⟩
  | hexNumber {text : String} {x : Char} {ds : List Char} (hx : x = 'x' ∨ x = 'X') (hne : ds ≠ [])
      (hds : ∀ c ∈ ds, Numeral.isHexDigit c) (ht : text.toList = '0' :: x :: ds) :
      Lexed ⟨.hexNumber, text⟩
  | ident {name : String} (hw : Lexeme.IsWord name.toList) (hr : isRegister name = false) :
      Lexed ⟨.ident, name⟩
  | register {name : String} (hw : Lexeme.IsWord name.toList) (hr : isRegister name) :
      Lexed ⟨.register, name⟩
  | string {text : String} (h : Lexeme.IsQuotable text.toList) : Lexed ⟨.string, text⟩
  | comment {text : String} (h : Lexeme.IsComment text.toList) : Lexed ⟨.comment, text⟩
  | newline : Lexed ⟨.newline, "\n"⟩
  | mark (m : Mark) : Lexed ⟨.mark m, String.singleton m.char⟩
  | size (w : Width) : Lexed ⟨.size w, w.keyword ++ " " ++ Lexeme.sizeSuffix⟩

namespace Word.Lexed

variable {w : Word}

/-- A word of the lexer is no end marker. -/
theorem kind_ne_eof (h : w.Lexed) : w.kind ≠ .eof := by
  cases h <;> simp

/-- The numerals of the lexer are well formed. -/
theorem isNumeral (h : w.Lexed) : w.IsNumeral where
  decimal hk := by
    cases h with
    | number _ hds => exact hds
    | _ => cases hk
  hexadecimal hk := by
    cases h with
    | hexNumber hx hne hds ht => exact ⟨_, hne, hds, .inr ⟨_, hx, ht⟩⟩
    | _ => cases hk

end Word.Lexed

namespace Lexeme

/-- A reader finds a word with `A` or is at fault; the text does not end too early for it. -/
inductive Yields (A : Word → Prop) : Reading Word → Prop where
  | found {w : Word} {n : Nat} (h : A w) : Yields A ⟨.found w, n⟩
  | fault {f : LexFault} {n : Nat} : Yields A ⟨.fault f, n⟩

/-- A comment is always found, up to the end of the text if need be. -/
theorem yields_comment {c : Char} (h : c = ';' ∨ c = '#') (cs : List Char) :
    Yields Word.Lexed (comment (c :: cs)) := by
  have hc : (c :: cs).takeWhile (· ≠ '\n') = c :: cs.takeWhile (· ≠ '\n') := by
    rcases h with rfl | rfl <;> rfl
  have hcomment : IsComment ((c :: cs).takeWhile (· ≠ '\n')) := by
    refine ⟨⟨c, cs.takeWhile (· ≠ '\n'), h, hc⟩, fun hm => ?_⟩
    simpa using List.mem_takeWhile_imp hm
  exact .found (.comment (by rwa [String.toList_ofList]))

/-- A numeral that has begun has a digit. -/
theorem yields_number {c : Char} (h : Numeral.isDecimalDigit c) (cs : List Char) :
    Yields Word.Lexed (number (c :: cs)) := by
  have hc : c ≠ '_' := by
    rintro rfl
    cases h
  have hne : digitsOf (digitRun Numeral.isDecimalDigit (c :: cs)) ≠ [] := by
    simp [digitRun, digitsOf, h, hc]
  have hds : ∀ d ∈ digitsOf (digitRun Numeral.isDecimalDigit (c :: cs)),
      Numeral.isDecimalDigit d := fun d hd => of_mem_digitsOf hd
  exact .found (.number (by rwa [String.toList_ofList]) (by rwa [String.toList_ofList]))

/-- A hexadecimal numeral is found, or it has no digit. -/
theorem yields_hexNumber {c : Char} {cs : List Char} (h : startsHex (c :: cs)) :
    Yields Word.Lexed (hexNumber (c :: cs)) := by
  obtain ⟨rfl, x, ds, rfl, hx⟩ := startsHex_cons h
  unfold hexNumber
  dsimp only
  split
  · exact .fault
  · next hne =>
    have hds : ∀ d ∈ digitsOf (digitRun Numeral.isHexDigit ds), Numeral.isHexDigit d :=
      fun d hd => of_mem_digitsOf hd
    exact .found (.hexNumber hx hne hds String.toList_ofList)

/-- What a name takes is a word. -/
theorem isWord_takeWhile {c : Char} (h : startsWord c) (cs : List Char) :
    IsWord ((c :: cs).takeWhile continuesWord) where
  starts := by simp [continuesWord_of_startsWord h, h]
  continues _ hd := List.mem_takeWhile_imp hd

/-- A whole word is a name or a register. -/
theorem lexed_of_isWord {name : String} (h : IsWord name.toList) :
    Word.Lexed ⟨if isRegister name then .register else .ident, name⟩ := by
  by_cases hr : isRegister name = true
  · rw [if_pos hr]
    exact .register h hr
  · rw [if_neg hr]
    exact .ident h (Bool.eq_false_iff.2 hr)

/-- A name is always found, as a register or as part of a size too. -/
theorem yields_identifier {c : Char} (h : startsWord c) (cs : List Char) :
    Yields Word.Lexed (identifier (c :: cs)) := by
  have hw : IsWord (String.ofList ((c :: cs).takeWhile continuesWord)).toList := by
    rw [String.toList_ofList]
    exact isWord_takeWhile h cs
  unfold identifier
  dsimp only
  split
  · split
    · exact .found (.size _)
    · exact .found (lexed_of_isWord hw)
  · exact .found (lexed_of_isWord hw)

/-- A string is found, or its line ends before its quote. -/
theorem yields_string {c : Char} (h : c = '"' ∨ c = '\'') (cs : List Char) :
    Yields Word.Lexed (string (c :: cs)) := by
  unfold string
  dsimp only
  split
  · next hclosed =>
    have hn : c ≠ '\n' := by
      rintro rfl
      simp at h
    have hfits : fitsBetween c (stringBody c cs) := fitsBetween_stringBody hn hclosed
    have hquotable : IsQuotable (stringBody c cs) := by
      rcases h with rfl | rfl
      · exact .inl hfits
      · exact .inr hfits
    exact .found (.string (by rwa [String.toList_ofList]))
  · exact .fault

/-- A word that is begun has the shape of its kind when it is found, and it is never cut short. -/
theorem yields_wordFrom (c : Char) (cs : List Char) : Yields Word.Lexed (wordFrom c cs) := by
  by_cases hn : c = '\n'
  · rw [hn, wordFrom_newline]
    exact .found .newline
  by_cases hc : c = ';' ∨ c = '#'
  · rw [wordFrom_comment hc]
    exact yields_comment hc cs
  by_cases hx : startsHex (c :: cs)
  · rw [wordFrom_hexNumber hx]
    exact yields_hexNumber hx
  by_cases hd : Numeral.isDecimalDigit c
  · rw [wordFrom_number hd (by simpa using hx)]
    exact yields_number hd cs
  by_cases hw : startsWord c
  · rw [wordFrom_identifier hw]
    exact yields_identifier hw cs
  by_cases hq : c = '"' ∨ c = '\''
  · rw [wordFrom_string hq]
    exact yields_string hq cs
  rw [wordFrom, if_neg hn, if_neg (by simpa using hc), if_neg hx, if_neg hd, if_neg hw,
    if_neg (by simpa using hq)]
  cases hm : Mark.ofChar? c with
  | none => exact .fault
  | some m =>
    have hchar : m.char = c := by simpa using List.find?_some hm
    rw [← hchar]
    exact .found (.mark m)

/-- A word that is found has the shape of its kind. -/
theorem lexed_of_wordFrom {c : Char} {cs : List Char} {w : Word}
    (h : (wordFrom c cs).outcome = .found w) : w.Lexed := by
  have hy := yields_wordFrom c cs
  generalize wordFrom c cs = r at h hy
  cases hy with
  | found hl =>
    cases h
    exact hl
  | fault => cases h

/-- No word that has begun runs out of text. -/
theorem wordFrom_ne_cutShort (c : Char) (cs : List Char) :
    (wordFrom c cs).outcome ≠ .cutShort := by
  have hy := yields_wordFrom c cs
  generalize wordFrom c cs = r at hy
  cases hy <;> simp

end Lexeme

end IntelAsm

import IntelAsm.Proofs.Text.Case

/-!
# The lexemes of words

A lexeme is the text of one word in a source, and it tells the word: `Word.Spells` says which text
is a lexeme of which word, kind by kind. Where a lexeme ends depends on what follows, for a word
takes all that continues it (`Word.EndsBefore`). The two together say what is found at the front of
a text: `word_eq_found_iff`.
-/

namespace IntelAsm

open Lexeme

theorem Width.ofKeyword?_eq_some {s : String} {w : Width} :
    Width.ofKeyword? s = some w ↔ s = w.keyword := by
  constructor
  · intro h
    simpa [eq_comm] using List.find?_some h
  · rintro rfl
    cases w <;> decide

/-- The words of sizes are made of letters without other case mappings. -/
theorem Width.isPlain_keyword (w : Width) : Text.IsPlain w.keyword.toList := by
  cases w <;> decide

namespace Lexeme

/-! ### The second word of a size specifier -/

/-- A text that goes on with the second word of a size specifier on the same line. -/
def SuffixAhead (cs : List Char) : Prop :=
  ∃ g u r, cs = g ++ (u ++ r) ∧ IsGap g ∧ Text.lower (String.ofList u) = sizeSuffix ∧ Breaks r

/-- The second word of a size is known character by character. -/
theorem lower_eq_sizeSuffix {u : List Char} :
    Text.lower (String.ofList u) = sizeSuffix ↔
      u.map Text.lowerChar = sizeSuffix.toList.map fun w => [w] := by
  rw [Text.lower_eq_iff isPlain_sizeSuffix, String.toList_ofList]

theorem isWord_of_lower_eq_sizeSuffix {u : List Char}
    (h : Text.lower (String.ofList u) = sizeSuffix) : IsWord u :=
  isWord_of_map_eq_sizeSuffix (lower_eq_sizeSuffix.1 h)

/-- Behind blanks a word stands in the open. -/
theorem IsWord.head?_append {u : List Char} (h : IsWord u) (r : List Char) :
    (u ++ r).head?.any isInlineSpace = false := by
  obtain ⟨c, cs, rfl⟩ := List.exists_cons_of_ne_nil h.ne_nil
  have hc : ¬isInlineSpace c = true :=
    not_isInlineSpace_of_continuesWord (h.continues c (by simp))
  simpa using hc

/-- The lexer does not see the word just where it does not stand. -/
theorem wordAhead_sizeSuffix {cs : List Char} :
    wordAhead sizeSuffix.toList cs = none ↔ ¬SuffixAhead cs := by
  rw [Option.eq_none_iff_forall_ne_some, not_iff_not.symm]
  simp only [not_forall, not_not, wordAhead_eq_some_iff]
  constructor
  · rintro ⟨n, g, u, r, hcs, hg, -, hu, hr, -⟩
    exact ⟨g, u, r, hcs, hg, lower_eq_sizeSuffix.2 hu, hr⟩
  · rintro ⟨g, u, r, hcs, hg, hu, hr⟩
    exact ⟨_, g, u, r, hcs, hg, (isWord_of_lower_eq_sizeSuffix hu).head?_append r,
      lower_eq_sizeSuffix.1 hu, hr, rfl⟩

/-! ### What a lexeme spells -/

end Lexeme

/-- The text `l` is a lexeme of a word. -/
inductive Word.Spells : Word → List Char → Prop where
  | newline : Spells ⟨.newline, "\n"⟩ ['\n']
  | comment {l : List Char} (h : IsComment l) : Spells ⟨.comment, String.ofList l⟩ l
  /-- A decimal literal starts with a digit; its separators are left out. -/
  | number {d : Char} {ds : List Char} (hd : Numeral.isDecimalDigit d)
      (hds : ∀ c ∈ ds, Numeral.isDecimalDigit c ∨ c = '_') :
      Spells ⟨.number, String.ofList ((d :: ds).filter (· ≠ '_'))⟩ (d :: ds)
  /-- A hexadecimal literal has a digit; its separators are left out. -/
  | hexNumber {x : Char} {ds : List Char} (hx : x = 'x' ∨ x = 'X')
      (hds : ∀ c ∈ ds, Numeral.isHexDigit c ∨ c = '_') (hd : ∃ c ∈ ds, c ≠ '_') :
      Spells ⟨.hexNumber, String.ofList (('0' :: x :: ds).filter (· ≠ '_'))⟩ ('0' :: x :: ds)
  /-- A string stands between two equal quotes, its escapes as they are. -/
  | string {quote : Char} {body : List Char} (hq : quote = '"' ∨ quote = '\'')
      (hb : fitsBetween quote body) :
      Spells ⟨.string, String.ofList body⟩ (quote :: (body ++ [quote]))
  | register {l : List Char} (hl : IsWord l) (hr : isRegister (String.ofList l)) :
      Spells ⟨.register, String.ofList l⟩ l
  | ident {l : List Char} (hl : IsWord l) (hr : isRegister (String.ofList l) = false) :
      Spells ⟨.ident, String.ofList l⟩ l
  /-- A size specifier is two words with blanks between them, both in any letter case. -/
  | size {w : Width} {k g u : List Char} (hk : Text.lower (String.ofList k) = w.keyword)
      (hg : IsGap g) (hne : g ≠ []) (hu : Text.lower (String.ofList u) = sizeSuffix) :
      Spells ⟨.size w, w.keyword ++ " " ++ sizeSuffix⟩ (k ++ (g ++ u))
  | mark (m : Mark) : Spells ⟨.mark m, String.singleton m.char⟩ [m.char]

/-- What follows a lexeme `l` of a word where it ends: no literal and no name goes on with the next
character, a comment runs to the end of its line, and a name that may start a size specifier is not
followed by the rest of one. -/
def Word.EndsBefore (w : Word) (l rest : List Char) : Prop :=
  match w.kind with
  | .comment => rest.head?.any (· ≠ '\n') = false
  | .number => rest.head?.any (fun c => Numeral.isDecimalDigit c || c = '_') = false ∧
      startsHex (l ++ rest) = false
  | .hexNumber => rest.head?.any (fun c => Numeral.isHexDigit c || c = '_') = false
  | .ident => Breaks rest ∧
      ((Width.ofKeyword? (Text.lower w.text)).isSome → ¬SuffixAhead rest)
  | .register => Breaks rest
  | .size _ => Breaks rest
  | _ => True

/-- Every lexeme has characters. -/
theorem Word.Spells.ne_nil {w : Word} {l : List Char} (h : w.Spells l) : l ≠ [] := by
  cases h with
  | comment h => exact h.1.elim fun _ ⟨_, _, h⟩ => h ▸ List.cons_ne_nil _ _
  | register hl => exact hl.ne_nil
  | ident hl => exact hl.ne_nil
  | size hk hg hne => simp [hne]
  | _ => simp

namespace Lexeme

/-! ### What is found is spelled -/

/-- What a reader finds is the word of a lexeme at the front of the text, which ends there. -/
def Cuts (cs : List Char) (r : Reading Word) : Prop :=
  ∀ w, r.outcome = .found w →
    ∃ l rest, cs = l ++ rest ∧ l.length = r.length ∧ w.Spells l ∧ w.EndsBefore l rest

/-- A comment is cut at the end of its line. -/
theorem cuts_comment {c : Char} (h : c = ';' ∨ c = '#') (cs : List Char) :
    Cuts (c :: cs) (comment (c :: cs)) := by
  rintro w ⟨⟩
  have hc : (c :: cs).takeWhile (· ≠ '\n') = c :: cs.takeWhile (· ≠ '\n') := by
    rcases h with rfl | rfl <;> rfl
  refine ⟨_, _, List.takeWhile_append_dropWhile.symm, rfl, .comment ⟨⟨c, _, h, hc⟩, ?_⟩, ?_⟩
  · exact fun hm => by simpa using List.mem_takeWhile_imp hm
  · exact head?_dropWhile _ _

theorem mem_digitRun {isDigit : Char → Bool} {cs : List Char} :
    ∀ c ∈ digitRun isDigit cs, isDigit c ∨ c = '_' := by
  intro c hc
  simpa using List.mem_takeWhile_imp hc

theorem digitRun_append_dropWhile (isDigit : Char → Bool) (cs : List Char) :
    digitRun isDigit cs ++ cs.dropWhile (fun c => isDigit c || c = '_') = cs :=
  List.takeWhile_append_dropWhile

/-- A numeral is cut behind its last digit or separator. -/
theorem cuts_number {d : Char} (hd : Numeral.isDecimalDigit d) {cs : List Char}
    (hx : startsHex (d :: cs) = false) : Cuts (d :: cs) (number (d :: cs)) := by
  rintro w ⟨⟩
  have hrun : digitRun Numeral.isDecimalDigit (d :: cs) =
      d :: digitRun Numeral.isDecimalDigit cs := List.takeWhile_cons_of_pos (by simp [hd])
  have hsplit := digitRun_append_dropWhile Numeral.isDecimalDigit (d :: cs)
  refine ⟨_, _, hsplit.symm, rfl, ?_, head?_dropWhile _ _, ?_⟩
  · rw [hrun]
    exact .number hd mem_digitRun
  · rw [hsplit]
    exact hx

/-- So is a hexadecimal one, behind its marker. -/
theorem cuts_hexNumber {x : Char} (hx : x = 'x' ∨ x = 'X') (cs : List Char) :
    Cuts ('0' :: x :: cs) (hexNumber ('0' :: x :: cs)) := by
  have hsplit := digitRun_append_dropWhile Numeral.isHexDigit cs
  unfold hexNumber
  dsimp only
  split
  · rintro w ⟨⟩
  · next hne =>
    rintro w ⟨⟩
    obtain ⟨c, hc⟩ := List.exists_mem_of_ne_nil _ hne
    obtain ⟨hmem, hc⟩ := List.mem_filter.1 hc
    have hfilter : '0' :: x :: digitsOf (digitRun Numeral.isHexDigit cs) =
        ('0' :: x :: digitRun Numeral.isHexDigit cs).filter (· ≠ '_') := by
      rcases hx with rfl | rfl <;> simp [digitsOf]
    refine ⟨'0' :: x :: digitRun Numeral.isHexDigit cs, _, ?_, rfl, ?_, head?_dropWhile _ cs⟩
    · rw [List.cons_append, List.cons_append, hsplit]
    · rw [hfilter]
      exact .hexNumber hx mem_digitRun ⟨c, hmem, of_decide_eq_true hc⟩

/-- The text between quotes is the front of what follows the first. -/
theorem stringBody_append_drop (quote : Char) (cs : List Char) :
    stringBody quote cs ++ cs.drop (stringBody quote cs).length = cs := by
  fun_induction stringBody quote cs with
  | case5 d ds hd hc ih => simpa using ih
  | case6 c cs hc hb ih => simpa using ih
  | _ => simp

/-- A string is cut behind the quote that closes it. -/
theorem cuts_string {quote : Char} (hq : quote = '"' ∨ quote = '\'') (cs : List Char) :
    Cuts (quote :: cs) (string (quote :: cs)) := by
  have hn : quote ≠ '\n' := by
    rintro rfl
    simp at hq
  unfold string
  dsimp only
  split
  · next hclosed =>
    rintro w ⟨⟩
    obtain ⟨rest, hrest⟩ := List.head?_eq_some_iff.1 hclosed
    refine ⟨_, rest, ?_, ?_, .string hq (fitsBetween_stringBody hn hclosed), trivial⟩
    · have hsplit := stringBody_append_drop quote cs
      rw [hrest] at hsplit
      simp [hsplit]
    · simp
  · rintro w ⟨⟩

/-- A word in full is a register or a name, unless it starts a size specifier. -/
theorem cuts_name {l rest : List Char} (hl : IsWord l) (hb : Breaks rest)
    (hs : (Width.ofKeyword? (Text.lower (String.ofList l))).isSome → ¬SuffixAhead rest) :
    Cuts (l ++ rest) ⟨.found ⟨if isRegister (String.ofList l) then .register else .ident,
      String.ofList l⟩, l.length⟩ := by
  intro w h
  obtain rfl := Outcome.found.inj h
  refine ⟨l, rest, rfl, rfl, ?_⟩
  cases hr : isRegister (String.ofList l) with
  | true => exact ⟨.register hl hr, hb⟩
  | false => exact ⟨.ident hl hr, hb, hs⟩

/-- A size is cut behind its second word. -/
theorem cuts_size {l rest : List Char} {w : Width} {n : Nat} (hb : Breaks rest)
    (hk : Width.ofKeyword? (Text.lower (String.ofList l)) = some w)
    (ha : wordAhead sizeSuffix.toList rest = some n) :
    Cuts (l ++ rest) ⟨.found ⟨.size w, w.keyword ++ " " ++ sizeSuffix⟩, l.length + n⟩ := by
  intro v h
  obtain rfl := Outcome.found.inj h
  obtain ⟨g, u, r, rfl, hg, -, hlower, hr, rfl⟩ := wordAhead_eq_some_iff.1 ha
  have hu := lower_eq_sizeSuffix.2 hlower
  have hword : IsWord u := isWord_of_lower_eq_sizeSuffix hu
  have hne : g ≠ [] := by
    rintro rfl
    obtain ⟨d, ds, rfl⟩ := List.exists_cons_of_ne_nil hword.ne_nil
    have hd : continuesWord d := hword.continues d (by simp)
    simp [Breaks, hd] at hb
  refine ⟨l ++ (g ++ u), r, ?_, ?_, .size (Width.ofKeyword?_eq_some.1 hk) hg hne hu, hr⟩
  · rw [List.append_assoc, List.append_assoc]
  · simp

/-- A name is cut where no letter or digit follows, and where no size goes on. -/
theorem cuts_identifier {c : Char} (hc : startsWord c) (cs : List Char) :
    Cuts (c :: cs) (identifier (c :: cs)) := by
  have hl : IsWord ((c :: cs).takeWhile continuesWord) := isWord_takeWhile hc cs
  have hb : Breaks ((c :: cs).dropWhile continuesWord) := head?_dropWhile _ _
  have hsplit := List.takeWhile_append_dropWhile (p := continuesWord) (l := c :: cs)
  unfold identifier
  dsimp only
  generalize (c :: cs).takeWhile continuesWord = l at hl hsplit ⊢
  generalize (c :: cs).dropWhile continuesWord = rest at hb hsplit ⊢
  rw [← hsplit]
  cases hk : Width.ofKeyword? (Text.lower (String.ofList l)) with
  | none => exact cuts_name hl hb (by simp [hk])
  | some w =>
    cases ha : wordAhead sizeSuffix.toList rest with
    | none => exact cuts_name hl hb fun _ => wordAhead_sizeSuffix.1 ha
    | some n => exact cuts_size hb hk ha

/-- What is found where a word is begun. -/
theorem cuts_wordFrom (c : Char) (cs : List Char) : Cuts (c :: cs) (wordFrom c cs) := by
  by_cases hn : c = '\n'
  · subst hn
    rw [wordFrom_newline]
    rintro w ⟨⟩
    exact ⟨['\n'], cs, rfl, rfl, .newline, trivial⟩
  by_cases hc : c = ';' ∨ c = '#'
  · rw [wordFrom_comment hc]
    exact cuts_comment hc cs
  by_cases hx : startsHex (c :: cs)
  · rw [wordFrom_hexNumber hx]
    obtain ⟨rfl, x, ds, rfl, hmarker⟩ := startsHex_cons hx
    exact cuts_hexNumber hmarker ds
  by_cases hd : Numeral.isDecimalDigit c
  · rw [wordFrom_number hd (by simpa using hx)]
    exact cuts_number hd (by simpa using hx)
  by_cases hw : startsWord c
  · rw [wordFrom_identifier hw]
    exact cuts_identifier hw cs
  by_cases hq : c = '"' ∨ c = '\''
  · rw [wordFrom_string hq]
    exact cuts_string hq cs
  rw [wordFrom, if_neg hn, if_neg (by simpa using hc), if_neg hx, if_neg hd, if_neg hw,
    if_neg (by simpa using hq)]
  cases hm : Mark.ofChar? c with
  | none => rintro w ⟨⟩
  | some m =>
    rintro w ⟨⟩
    have hchar : m.char = c := by simpa using List.find?_some hm
    rw [← hchar]
    exact ⟨[m.char], cs, rfl, rfl, .mark m, trivial⟩

/-! ### What is spelled is found -/

section
variable {l rest : List Char}

/-- The name of a register is found as such. -/
theorem word_register (hl : IsWord l) (hr : isRegister (String.ofList l)) (hb : Breaks rest) :
    word (l ++ rest) = ⟨.found ⟨.register, String.ofList l⟩, l.length⟩ := by
  have hl' : IsWord (String.ofList l).toList := by rwa [String.toList_ofList]
  have hw := word_name hb hl' (.inl (isWord_of_isRegister hr).2)
  simpa only [String.toList_ofList, if_pos hr] using hw

/-- Any other name is found as one, unless it is the first word of a size. -/
theorem word_ident (hl : IsWord l) (hr : isRegister (String.ofList l) = false) (hb : Breaks rest)
    (hs : (Width.ofKeyword? (Text.lower (String.ofList l))).isSome → ¬SuffixAhead rest) :
    word (l ++ rest) = ⟨.found ⟨.ident, String.ofList l⟩, l.length⟩ := by
  have hahead : Width.ofKeyword? (Text.lower (String.ofList l)) = none ∨
      wordAhead sizeSuffix.toList rest = none := by
    rw [wordAhead_sizeSuffix, ← Option.not_isSome_iff_eq_none]
    exact Decidable.not_or_of_imp hs
  have hl' : IsWord (String.ofList l).toList := by rwa [String.toList_ofList]
  have hw := word_name hb hl' hahead
  simpa [hr] using hw

theorem breaks_of_isGap {g : List Char} (hg : IsGap g) (hne : g ≠ []) (cs : List Char) :
    Breaks (g ++ cs) := by
  obtain ⟨c, ds, rfl⟩ := List.exists_cons_of_ne_nil hne
  have hc : ¬continuesWord c = true :=
    fun h => not_isInlineSpace_of_continuesWord h (hg c (by simp))
  simpa [Breaks] using hc

/-- Both words of a size are found as one. -/
theorem word_size_of_spelled {w : Width} {k g u : List Char}
    (hk : Text.lower (String.ofList k) = w.keyword) (hg : IsGap g) (hne : g ≠ [])
    (hu : Text.lower (String.ofList u) = sizeSuffix) (hb : Breaks rest) :
    word (k ++ (g ++ u) ++ rest) =
      ⟨.found ⟨.size w, w.keyword ++ " " ++ sizeSuffix⟩, (k ++ (g ++ u)).length⟩ := by
  have hkeyword : IsWord w.keyword.toList := by
    cases w <;> decide
  have hword : IsWord (String.ofList k).toList := by
    refine isWord_of_map_lowerChar w.isPlain_keyword hkeyword ?_
    exact (Text.lower_eq_iff w.isPlain_keyword).1 hk
  have hahead : wordAhead sizeSuffix.toList (g ++ (u ++ rest)) = some (g.length + u.length) :=
    wordAhead_eq_some_iff.2 ⟨g, u, rest, rfl, hg,
      (isWord_of_lower_eq_sizeSuffix hu).head?_append rest, lower_eq_sizeSuffix.1 hu, hb, rfl⟩
  have hw := word_size_of_ahead (breaks_of_isGap hg hne (u ++ rest)) hword
    (Width.ofKeyword?_eq_some.2 hk) hahead
  simpa only [String.toList_ofList, List.append_assoc, List.length_append] using hw

/-- A lexeme is found as its word where it ends. -/
theorem word_of_spells {w : Word} (hl : w.Spells l) (he : w.EndsBefore l rest) :
    word (l ++ rest) = ⟨.found w, l.length⟩ := by
  cases hl with
  | newline => exact word_newline rest
  | comment h =>
    have hl : IsComment (String.ofList l).toList := by rwa [String.toList_ofList]
    have hw := word_comment hl he
    simpa only [String.toList_ofList] using hw
  | number hd hds => exact word_number_of_run hd hds he.1 he.2
  | hexNumber hx hds hd => exact word_hexNumber_of_run hx hds hd he
  | string hq hb => exact word_string_of_fits hq hb
  | register hw hr => exact word_register hw hr he
  | ident hw hr => exact word_ident hw hr he.1 he.2
  | size hk hg hne hu => exact word_size_of_spelled hk hg hne hu he
  | mark m => exact word_mark m rest

/-- A word is found at the front of a text iff a lexeme of the word stands there and ends. -/
theorem word_eq_found_iff {w : Word} (hne : l ≠ []) :
    word (l ++ rest) = ⟨.found w, l.length⟩ ↔ w.Spells l ∧ w.EndsBefore l rest := by
  constructor
  · intro h
    obtain ⟨c, cs, rfl⟩ := List.exists_cons_of_ne_nil hne
    have hw : wordFrom c (cs ++ rest) = ⟨.found w, (c :: cs).length⟩ := h
    obtain ⟨l', rest', hl, hlength, hspells, hends⟩ := cuts_wordFrom c (cs ++ rest) w (by rw [hw])
    rw [hw] at hlength
    obtain ⟨rfl, rfl⟩ := List.append_inj hl hlength.symm
    exact ⟨hspells, hends⟩
  · exact fun h => word_of_spells h.1 h.2

end

end Lexeme

end IntelAsm

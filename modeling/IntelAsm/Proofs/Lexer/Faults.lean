import IntelAsm.Proofs.Lexer.Partition

/-!
# Lexical faults

What a fault says of a text can be told from the text alone (`LexFault.Shows`), and it is said of
the text at the word that the lexer was about to begin (`Lexer.BeginsWord`). Both directions hold:
tokenizing fails only where such a word is at fault, and it fails wherever one is. The text in front
of the word has the tokens that were read before the fault, since a lexeme that ends in front of
more text also ends where the text is cut off (`Cut.partition`).
-/

namespace IntelAsm

open Lexeme

/-! ### What faults say -/

/-- A character with which no lexeme starts and which separates none. -/
def Lexeme.IsForeign (c : Char) : Prop :=
  ¬isInlineSpace c ∧ c ≠ '\n' ∧ c ≠ ';' ∧ c ≠ '#' ∧ ¬Numeral.isDecimalDigit c ∧ ¬startsWord c ∧
    c ≠ '"' ∧ c ≠ '\'' ∧ ∀ m : Mark, c ≠ m.char

/-- What a fault says of the text in front of which the lexer stands. -/
inductive LexFault.Shows : LexFault → List Char → Prop where
  | unexpected {c : Char} {cs : List Char} (hc : IsForeign c) : Shows (.unexpected c) (c :: cs)
  /-- Behind the marker of a hexadecimal literal stands the longest run of digits and separators,
  and no digit is in it. -/
  | noHexDigits {x : Char} {run rest : List Char} (hx : x = 'x' ∨ x = 'X')
      (hrun : ∀ c ∈ run, Numeral.isHexDigit c ∨ c = '_')
      (hend : rest.head?.any (fun c => Numeral.isHexDigit c || c = '_') = false)
      (hno : ∀ c ∈ run, ¬Numeral.isHexDigit c) :
      Shows .noHexDigits ('0' :: x :: (run ++ rest))
  /-- No quote of the same kind stands behind a text that may stand in front of it. -/
  | unterminated {quote : Char} {cs : List Char} (hq : quote = '"' ∨ quote = '\'')
      (hopen : ∀ body rest, cs = body ++ quote :: rest → ¬fitsBetween quote body) :
      Shows .unterminated (quote :: cs)

namespace Lexeme

theorem hexNumber_eq_fault {x : Char} {run rest : List Char}
    (hrun : ∀ c ∈ run, Numeral.isHexDigit c ∨ c = '_')
    (hend : rest.head?.any (fun c => Numeral.isHexDigit c || c = '_') = false) {f : LexFault} :
    (hexNumber ('0' :: x :: (run ++ rest))).outcome = .fault f ↔
      f = .noHexDigits ∧ ∀ c ∈ run, ¬Numeral.isHexDigit c := by
  have hdigitRun : digitRun Numeral.isHexDigit (run ++ rest) = run :=
    takeWhile_append (fun c hc => by simpa using hrun c hc) hend
  have hnil : digitsOf run = [] ↔ ∀ c ∈ run, ¬Numeral.isHexDigit c := by
    simp only [digitsOf, List.filter_eq_nil_iff, decide_eq_true_eq, ne_eq, not_not]
    constructor
    · intro h c hc hd
      rw [h c hc] at hd
      cases hd
    · exact fun h c hc => (hrun c hc).resolve_left (h c hc)
  rw [hexNumber, hdigitRun, ← hnil]
  by_cases hd : digitsOf run = []
  · simp [hd, eq_comm]
  · simp [hd]

/-- A quote is closed iff the text up to the closing one may stand between the two. -/
theorem head?_drop_stringBody {quote : Char} (hq : quote ≠ '\n') {cs : List Char} :
    (cs.drop (stringBody quote cs).length).head? = some quote ↔
      ∃ body rest, cs = body ++ quote :: rest ∧ fitsBetween quote body := by
  constructor
  · intro h
    obtain ⟨rest, hrest⟩ := List.head?_eq_some_iff.1 h
    have hsplit := stringBody_append_drop quote cs
    rw [hrest] at hsplit
    exact ⟨_, rest, hsplit.symm, fitsBetween_stringBody hq h⟩
  · rintro ⟨body, rest, rfl, hfits⟩
    rw [stringBody_append hfits, List.drop_left]
    rfl

theorem string_eq_fault {quote : Char} (hq : quote ≠ '\n') (cs : List Char) {f : LexFault} :
    (string (quote :: cs)).outcome = .fault f ↔
      f = .unterminated ∧ ∀ body rest, cs = body ++ quote :: rest → ¬fitsBetween quote body := by
  have hopen : (∀ body rest, cs = body ++ quote :: rest → ¬fitsBetween quote body) ↔
      ¬(cs.drop (stringBody quote cs).length).head? = some quote := by
    rw [head?_drop_stringBody hq]
    simp
  rw [hopen, string]
  by_cases hc : (cs.drop (stringBody quote cs).length).head? = some quote
  · simp [hc]
  · rw [if_neg hc]
    simp only [hc, not_false_eq_true, and_true, Outcome.fault.injEq]
    exact eq_comm

/-- Names are never at fault. -/
theorem identifier_ne_fault (cs : List Char) (f : LexFault) :
    (identifier cs).outcome ≠ .fault f := by
  unfold identifier
  dsimp only
  split
  · split <;> simp
  · simp

theorem ne_newline_of_quote {quote : Char} (h : quote = '"' ∨ quote = '\'') : quote ≠ '\n' := by
  rintro rfl
  simp at h

/-- A fault where a word is begun shows what it says. -/
theorem shows_of_wordFrom {c : Char} {cs : List Char} {f : LexFault}
    (hb : ¬isInlineSpace c = true) (h : (wordFrom c cs).outcome = .fault f) : f.Shows (c :: cs) := by
  by_cases hn : c = '\n'
  · rw [hn, wordFrom_newline] at h
    cases h
  by_cases hc : c = ';' ∨ c = '#'
  · rw [wordFrom_comment hc] at h
    cases h
  by_cases hx : startsHex (c :: cs)
  · rw [wordFrom_hexNumber hx] at h
    obtain ⟨rfl, x, ds, rfl, hmarker⟩ := startsHex_cons hx
    have hsplit := digitRun_append_dropWhile Numeral.isHexDigit ds
    have hend := head?_dropWhile (fun c => Numeral.isHexDigit c || c = '_') ds
    rw [← hsplit] at h ⊢
    obtain ⟨rfl, hno⟩ := (hexNumber_eq_fault mem_digitRun hend).1 h
    exact .noHexDigits hmarker mem_digitRun hend hno
  by_cases hd : Numeral.isDecimalDigit c
  · rw [wordFrom_number hd (by simpa using hx)] at h
    cases h
  by_cases hw : startsWord c
  · rw [wordFrom_identifier hw] at h
    exact absurd h (identifier_ne_fault _ f)
  by_cases hq : c = '"' ∨ c = '\''
  · rw [wordFrom_string hq] at h
    obtain ⟨rfl, hopen⟩ := (string_eq_fault (ne_newline_of_quote hq) cs).1 h
    exact .unterminated hq hopen
  rw [wordFrom, if_neg hn, if_neg (by simpa using hc), if_neg hx, if_neg hd, if_neg hw,
    if_neg (by simpa using hq)] at h
  cases hm : Mark.ofChar? c with
  | some m =>
    rw [hm] at h
    cases h
  | none =>
    rw [hm] at h
    cases h
    rw [not_or] at hc hq
    refine .unexpected ⟨hb, hn, hc.1, hc.2, hd, hw, hq.1, hq.2, ?_⟩
    rintro m rfl
    rw [Mark.ofChar?_char] at hm
    cases hm

/-- What a fault shows is at fault. -/
theorem wordFrom_of_shows {c : Char} {cs : List Char} {f : LexFault} (h : f.Shows (c :: cs)) :
    (wordFrom c cs).outcome = .fault f := by
  cases h with
  | unexpected hc =>
    obtain ⟨-, hn, hsemi, hhash, hd, hw, hdouble, hsingle, hm⟩ := hc
    have hx : ¬startsHex (c :: cs) = true := by
      intro hx
      rw [(startsHex_cons hx).1] at hd
      exact hd rfl
    have hmark : Mark.ofChar? c = none := by
      rw [Option.eq_none_iff_forall_ne_some]
      intro m hc
      exact hm m (by simpa [eq_comm] using List.find?_some hc)
    rw [wordFrom, if_neg hn, if_neg (by simp [hsemi, hhash]), if_neg hx, if_neg hd, if_neg hw,
      if_neg (by simp [hdouble, hsingle]), hmark]
  | @noHexDigits x run rest hx hrun hend hno =>
    have hstarts : startsHex ('0' :: x :: (run ++ rest)) := by simpa [startsHex] using hx
    rw [wordFrom_hexNumber hstarts]
    exact (hexNumber_eq_fault hrun hend).2 ⟨rfl, hno⟩
  | unterminated hq hopen =>
    rw [wordFrom_string hq]
    exact (string_eq_fault (ne_newline_of_quote hq) cs).2 ⟨rfl, hopen⟩

end Lexeme

/-! ### The words in front of a place -/

/-- The text `cs`, which stands behind the text `before` and in front of `rest`, is cut into the
lexemes of the tokens, each ending where it does with everything behind it in place. -/
inductive Cut (rest : List Char) : (before cs : List Char) → List Token → Prop where
  | nil {before gap : List Char} (hg : IsGap gap) : Cut rest before gap []
  | cons {before gap l cs : List Char} {w : Word} {ts : List Token} (hg : IsGap gap)
      (hl : w.Spells l) (he : w.EndsBefore l (cs ++ rest))
      (hts : Cut rest (before ++ gap ++ l) cs ts) :
      Cut rest before (gap ++ (l ++ cs)) (⟨w, .behind (before ++ gap)⟩ :: ts)

namespace Lexeme

theorem head?_any_of_append {p : Char → Bool} {cs ds : List Char}
    (h : (cs ++ ds).head?.any p = false) : cs.head?.any p = false := by
  cases cs with
  | nil => rfl
  | cons c cs => exact h

theorem Breaks.of_append {cs ds : List Char} (h : Breaks (cs ++ ds)) : Breaks cs :=
  head?_any_of_append h

theorem startsHex_append {cs : List Char} (h : startsHex cs) (ds : List Char) :
    startsHex (cs ++ ds) := by
  unfold startsHex at h
  split at h
  · exact h
  · cases h

/-- No lexeme starts with a blank. -/
theorem not_blank_of_spells {w : Word} {c : Char} {cs rest : List Char} (hl : w.Spells (c :: cs))
    (he : w.EndsBefore (c :: cs) rest) : ¬isInlineSpace c = true := by
  intro hb
  have hw : wordFrom c (cs ++ rest) = ⟨.found w, (c :: cs).length⟩ := word_of_spells hl he
  rw [wordFrom_blank hb] at hw
  cases hw

theorem length_takeWhile_le_identifier (cs : List Char) :
    (cs.takeWhile continuesWord).length ≤ (identifier cs).length := by
  unfold identifier
  dsimp only
  split
  · split
    · exact Nat.le_add_right _ _
    · exact Nat.le_refl _
  · exact Nat.le_refl _

/-- A lexeme that starts like a name goes on for as long as a name does. -/
theorem breaks_of_spells {w : Word} {l cs rest : List Char} (hl : w.Spells l)
    (he : w.EndsBefore l (cs ++ rest)) (hword : IsWord (l ++ cs)) : Breaks rest := by
  obtain ⟨c, l, rfl⟩ := List.exists_cons_of_ne_nil hl.ne_nil
  have hstarts : startsWord c := by simpa using hword.starts
  have hw : wordFrom c (l ++ (cs ++ rest)) = ⟨.found w, (c :: l).length⟩ := word_of_spells hl he
  rw [wordFrom_identifier hstarts] at hw
  have hlength := length_takeWhile_le_identifier (c :: (l ++ (cs ++ rest)))
  have hrun : (c :: (l ++ (cs ++ rest))).takeWhile continuesWord =
      c :: l ++ cs ++ rest.takeWhile continuesWord := by
    rw [← List.takeWhile_append_of_pos hword.continues]
    simp
  rw [hw, hrun] at hlength
  have hnil : rest.takeWhile continuesWord = [] := by
    rw [← List.length_eq_zero_iff]
    simp only [List.length_append, List.length_cons] at hlength
    omega
  cases rest with
  | nil => rfl
  | cons d ds =>
    cases hd : continuesWord d with
    | false => simp [Breaks, hd]
    | true => simp [hd] at hnil

end Lexeme

namespace Cut

variable {rest before cs : List Char} {ts : List Token}

/-- A text that ends like a name is followed by nothing that continues it. -/
theorem breaks {g u : List Char} (h : Cut rest before cs ts) (hcs : cs = g ++ u) (hg : IsGap g)
    (hu : IsWord u) : Breaks rest := by
  obtain ⟨c, u, rfl⟩ := List.exists_cons_of_ne_nil hu.ne_nil
  have hc : ¬isInlineSpace c = true := not_isInlineSpace_of_continuesWord (hu.continues c (by simp))
  cases h with
  | nil hgap =>
    subst hcs
    exact absurd (hgap c (by simp)) hc
  | @cons _ gap l cs w ts hgap hl he hts =>
    obtain ⟨d, l, rfl⟩ := List.exists_cons_of_ne_nil hl.ne_nil
    have hd : ¬isInlineSpace d = true := not_blank_of_spells hl he
    -- the gap in front is the same however the text is split
    have hsplit : gap = g ∧ d :: l ++ cs = c :: u := by
      have htake := congrArg (List.takeWhile isInlineSpace) hcs
      rw [List.cons_append, takeWhile_append hgap (by simpa using hd),
        takeWhile_append hg (by simpa using hc)] at htake
      subst htake
      exact ⟨rfl, List.append_cancel_left hcs⟩
    rw [← hsplit.2] at hu
    exact breaks_of_spells hl he hu

/-- What ends in front of more text ends where the text is cut off. -/
theorem endsBefore {w : Word} {l : List Char} (h : Cut rest before cs ts)
    (he : w.EndsBefore l (cs ++ rest)) : w.EndsBefore l cs := by
  unfold Word.EndsBefore at he ⊢
  split at he
  · exact head?_any_of_append he
  · refine ⟨head?_any_of_append he.1, Bool.eq_false_iff.2 fun hx => ?_⟩
    rw [← List.append_assoc, startsHex_append hx] at he
    cases he.2
  · exact head?_any_of_append he
  · refine ⟨he.1.of_append, fun hk => ?_⟩
    rintro ⟨g, u, r, rfl, hg, hu, hr⟩
    have hbreaks : Breaks (r ++ rest) := by
      cases r with
      | cons c r => exact hr
      | nil =>
        rw [List.append_nil] at h
        exact h.breaks rfl hg (isWord_of_lower_eq_sizeSuffix hu)
    exact he.2 hk ⟨g, u, r ++ rest, by simp, hg, hu, hbreaks⟩
  · exact he.of_append
  · exact he.of_append
  · trivial

/-- The tokens of a text in front of a place are its tokens when it is cut off there. -/
theorem partition (h : Cut rest before cs ts) :
    Partition before cs (ts ++ [⟨⟨.eof, ""⟩, .behind (before ++ cs)⟩]) := by
  induction h with
  | nil hg => exact .last hg
  | @cons before gap l cs w ts hg hl he hts ih =>
    have hbefore : before ++ (gap ++ (l ++ cs)) = before ++ gap ++ l ++ cs := by simp
    rw [hbefore]
    exact .cons hg hl.ne_nil hl (hts.endsBefore he) ih

end Cut

/-! ### Where the lexer stands -/

namespace Lexer

/-- Reading tokens one after the other leads from one stream to another. -/
inductive Reaches : Stream → List Token → Stream → Prop where
  | refl (s : Stream) : Reaches s [] s
  | step {s s' s'' : Stream} {t : Token} {ts : List Token} (h : nextToken s = .ok t s')
      (ht : t.kind ≠ .eof) (hr : Reaches s' ts s'') : Reaches s (t :: ts) s''

/-- After these tokens the lexer begins the next word at an offset of the source. -/
def BeginsWord (source : String) (ts : List Token) (offset : Nat) : Prop :=
  ∃ s s', Reaches (.ofString source) ts s ∧ skipGap s = .ok () s' ∧ s'.position = offset

theorem skipGap_eq (s : Stream) : skipGap s = .ok () (s.skip (gap s.ahead).length) := rfl

theorem nextToken_of_skipGap {s s' : Stream} (h : skipGap s = .ok () s') :
    nextToken s = token Lexeme.word s' := by
  rw [skipGap_eq] at h
  cases h
  rfl

/-- Only blanks are skipped. -/
theorem ahead_of_skipGap {s s' : Stream} (h : skipGap s = .ok () s') :
    ∃ g, s.ahead = g ++ s'.ahead ∧ IsGap g ∧ s' = s.skip g.length := by
  rw [skipGap_eq] at h
  cases h
  have hsplit := List.take_append_drop (gap s.ahead).length s.ahead
  rw [take_gap] at hsplit
  exact ⟨gap s.ahead, hsplit.symm, isGap_gap _, rfl⟩

/-! ### Streams know where they stand -/

/-- A stream whose place is counted from the start of its source. -/
def Placed (s : Stream) : Prop := s.place = .behind (s.source.take s.position)

theorem placed_ofString (source : String) : Placed (.ofString source) := rfl

theorem Placed.skip {s : Stream} (h : Placed s) (n : Nat) : Placed (s.skip n) := by
  have htake : s.source.take (s.position + (s.ahead.take n).length) =
      s.source.take s.position ++ s.ahead.take n := by
    rw [List.take_add, ← s.ahead_eq]
    congr 1
    exact (List.prefix_iff_eq_take.1 (List.take_prefix n _)).symm
  show s.place.afterAll (s.ahead.take n) =
    .behind (s.source.take (s.position + (s.ahead.take n).length))
  rw [htake, show s.place = .behind _ from h, Pos.afterAll_behind]

/-- Behind the blanks the text is over, or a lexeme is the next token, or a word is at fault. -/
theorem nextToken_cases {s s' : Stream} (hgap : skipGap s = .ok () s') :
    (∃ t, t.kind = .eof ∧ nextToken s = .ok t s') ∨
    (∃ l w rest, s'.ahead = l ++ rest ∧ w.Spells l ∧ w.EndsBefore l rest ∧
      nextToken s = .ok ⟨w, s'.place⟩ (s'.skip l.length)) ∨
    ∃ f s'', f.Shows s'.ahead ∧ nextToken s = .error (.lexical ⟨f, s'.place⟩) s'' := by
  have hblank : ∀ c cs, s'.ahead = c :: cs → ¬isInlineSpace c = true := by
    intro c cs hcs
    rw [skipGap_eq] at hgap
    cases hgap
    exact not_blank_behind_gap hcs
  rw [nextToken_of_skipGap hgap]
  cases hcs : s'.ahead with
  | nil =>
    have hw : Lexeme.word s'.ahead = ⟨.found ⟨.eof, ""⟩, 0⟩ := by
      rw [hcs]
      rfl
    exact .inl ⟨_, rfl, token_found hw⟩
  | cons c cs =>
    have hw : Lexeme.word s'.ahead = wordFrom c cs := by
      rw [hcs]
      rfl
    have hy := yields_wordFrom c cs
    have hcuts := cuts_wordFrom c cs
    have hshows := @shows_of_wordFrom c cs
    generalize wordFrom c cs = r at hy hcuts hshows hw
    cases hy with
    | fault => exact .inr (.inr ⟨_, _, hshows (hblank c cs hcs) rfl, token_fault hw⟩)
    | @found w n =>
      obtain ⟨l, rest, hl, hlength, hspells, hends⟩ := hcuts w rfl
      obtain rfl : l.length = n := hlength
      exact .inr (.inl ⟨l, w, rest, hl, hspells, hends, token_found hw⟩)

/-- A token is a lexeme behind blanks. -/
theorem exists_lexeme_of_nextToken {s s' : Stream} {t : Token} (h : nextToken s = .ok t s')
    (ht : t.kind ≠ .eof) : ∃ g l w, s.ahead = g ++ (l ++ s'.ahead) ∧ IsGap g ∧ w.Spells l ∧
      w.EndsBefore l s'.ahead ∧ t = ⟨w, (s.skip g.length).place⟩ ∧
      s' = (s.skip g.length).skip l.length := by
  obtain ⟨g, hsplit, hg, hgap⟩ := ahead_of_skipGap (skipGap_eq s)
  rcases nextToken_cases (skipGap_eq s) with
    ⟨u, hu, hnext⟩ | ⟨l, w, rest, hl, hspells, hends, hnext⟩ | ⟨f, s'', -, hnext⟩
  · rw [h] at hnext
    cases hnext
    exact absurd hu ht
  · rw [h] at hnext
    cases hnext
    have hrest : ((s.skip (gap s.ahead).length).skip l.length).ahead = rest := by
      rw [Stream.ahead_skip, hl, List.drop_left]
    rw [hrest]
    rw [hl] at hsplit
    rw [hgap]
    exact ⟨g, l, w, hsplit, hg, hspells, hends, rfl, rfl⟩
  · rw [h] at hnext
    cases hnext

theorem position_skip {s : Stream} {l rest : List Char} (h : s.ahead = l ++ rest) :
    (s.skip l.length).position = s.position + l.length := by
  show s.position + (s.ahead.take l.length).length = _
  rw [h, List.take_left]

theorem place_skip {s : Stream} {l rest : List Char} (h : s.ahead = l ++ rest) :
    (s.skip l.length).place = s.place.afterAll l := by
  show s.place.afterAll (s.ahead.take l.length) = _
  rw [h, List.take_left]

/-- The text that was read is cut into the lexemes of the tokens. -/
theorem exists_cut_of_reaches {s s' : Stream} {ts : List Token} (h : Reaches s ts s')
    {g rest before : List Char} (hg : IsGap g) (ha : s'.ahead = g ++ rest)
    (hp : s.place = .behind before) :
    ∃ front, s.ahead = front ++ rest ∧ Cut rest before front ts ∧
      s'.position + g.length = s.position + front.length := by
  induction h generalizing before with
  | refl s => exact ⟨g, ha, .nil hg, rfl⟩
  | @step s s' s'' t ts h ht hr ih =>
    obtain ⟨g', l, w, hs, hg', hl, he, rfl, hs'⟩ := exists_lexeme_of_nextToken h ht
    have hahead : (s.skip g'.length).ahead = l ++ s'.ahead := by
      rw [Stream.ahead_skip, hs, List.drop_left]
    have hplace : (s.skip g'.length).place = .behind (before ++ g') := by
      rw [place_skip hs, hp, Pos.afterAll_behind]
    have hplace' : s'.place = .behind (before ++ g' ++ l) := by
      rw [hs', place_skip hahead, hplace, Pos.afterAll_behind]
    obtain ⟨front, hfront, hcut, hposition⟩ := ih ha hplace'
    rw [hfront] at hs he
    refine ⟨g' ++ (l ++ front), by simp [hs], ?_, ?_⟩
    · rw [hplace]
      exact .cons hg' hl he hcut
    · rw [hposition, hs', position_skip hahead, position_skip hs]
      simp only [List.length_append]
      omega

theorem Reaches.placed {s s' : Stream} {ts : List Token} (h : Reaches s ts s') (hs : Placed s) :
    Placed s' ∧ s'.source = s.source := by
  induction h with
  | refl s => exact ⟨hs, rfl⟩
  | @step s s' s'' t ts h ht hr ih =>
    obtain ⟨g, l, w, -, -, -, -, -, rfl⟩ := exists_lexeme_of_nextToken h ht
    exact ih ((hs.skip _).skip _)

section
variable {source : String} {ts : List Token} {s s' : Stream}

/-- Where a word is begun, the place and the text ahead are those of the offset. -/
theorem begun (h : Reaches (.ofString source) ts s) (hgap : skipGap s = .ok () s') :
    s'.place = .behind (source.toList.take s'.position) ∧
      s'.ahead = source.toList.drop s'.position := by
  obtain ⟨hplaced, hsource⟩ := h.placed (placed_ofString source)
  obtain ⟨g, -, -, rfl⟩ := ahead_of_skipGap hgap
  have hplaced' := hplaced.skip g.length
  have hsource' : (s.skip g.length).source = source.toList := hsource
  refine ⟨?_, ?_⟩
  · rw [hplaced', hsource']
  · rw [Stream.ahead_eq, hsource']

/-- The text in front of an offset has the tokens with which the lexer came there. -/
theorem scan_take {offset : Nat} (h : BeginsWord source ts offset) :
    scan .start (source.toList.take offset) =
      .ok (ts ++ [⟨⟨.eof, ""⟩, .behind (source.toList.take offset)⟩]) := by
  obtain ⟨s, s', hr, hgap, rfl⟩ := h
  obtain ⟨g, hahead, hg, rfl⟩ := ahead_of_skipGap hgap
  obtain ⟨front, hfront, hcut, hposition⟩ := exists_cut_of_reaches hr hg hahead Pos.behind_nil.symm
  have hlength : (s.skip g.length).position = front.length := by
    rw [position_skip hahead, hposition]
    exact Nat.zero_add _
  have htake : source.toList.take (s.skip g.length).position = front := by
    rw [hlength, show source.toList = front ++ _ from hfront, List.take_left]
  rw [htake]
  exact scan_of_partition hcut.partition

end

/-! ### Faults end the reading -/

/-- A word that shows a fault ends the reading with it. -/
theorem tokens_of_shows {s s' : Stream} {f : LexFault} (hgap : skipGap s = .ok () s')
    (h : f.Shows s'.ahead) : ∃ s'', tokens s = .error (.lexical ⟨f, s'.place⟩) s'' := by
  obtain ⟨c, cs, hcs⟩ : ∃ c cs, s'.ahead = c :: cs := by
    generalize s'.ahead = cs at h
    cases h <;> exact ⟨_, _, rfl⟩
  rw [hcs] at h
  have hw : Lexeme.word s'.ahead = ⟨.fault f, (wordFrom c cs).length⟩ := by
    rw [hcs, ← wordFrom_of_shows h]
    rfl
  refine ⟨s'.skip (wordFrom c cs).length, ?_⟩
  rw [tokens_unfold, nextToken_of_skipGap hgap, token_fault hw]

/-- What ends the reading behind some tokens ends it in front of them. -/
theorem tokens_of_reaches {s s' : Stream} {ts : List Token} (h : Reaches s ts s')
    {e : StreamError} {s'' : Stream} (he : tokens s' = .error e s'') : tokens s = .error e s'' := by
  induction h with
  | refl s => exact he
  | step h ht hr ih =>
    rw [tokens_unfold, h]
    simp only [if_neg ht, ih he]

/-- The reading ends early only with a fault that a word shows. -/
theorem exists_reaches_of_tokens {s s'' : Stream} {e : StreamError}
    (h : tokens s = .error e s'') :
    ∃ ts s₁ s₂ f, Reaches s ts s₁ ∧ skipGap s₁ = .ok () s₂ ∧ f.Shows s₂.ahead ∧
      e = .lexical ⟨f, s₂.place⟩ := by
  induction hn : s.ahead.length using Nat.strongRecOn generalizing s with
  | _ n ih =>
    subst hn
    rw [tokens_unfold] at h
    cases hnext : nextToken s with
    | ok t s' =>
      rw [hnext] at h
      by_cases ht : t.kind = .eof
      · simp [ht] at h
      simp only [if_neg ht] at h
      cases hrest : tokens s' with
      | ok us s₃ => simp [hrest] at h
      | error e' s₃ =>
        rw [hrest] at h
        cases h
        obtain ⟨ts, s₁, s₂, f, hr, hgap, hf, he⟩ :=
          ih _ (length_ahead_nextToken hnext ht) hrest rfl
        exact ⟨t :: ts, s₁, s₂, f, .step hnext ht hr, hgap, hf, he⟩
    | error e' s' =>
      rw [hnext] at h
      cases h
      rcases nextToken_cases (skipGap_eq s) with
        ⟨u, -, hnext'⟩ | ⟨l, w, rest, -, -, -, hnext'⟩ | ⟨f, s₃, hf, hnext'⟩
      all_goals
        rw [hnext] at hnext'
        cases hnext'
      exact ⟨[], s, _, f, .refl s, skipGap_eq s, hf, rfl⟩

end Lexer

/-! ### Faults of a source -/

open Lexer

/-- Tokenizing fails exactly where a word is at fault: at the first word that shows a fault, with
that fault, at its place, behind the tokens of the text in front of it. Wherever the lexer begins a
word that shows a fault, it fails with it. -/
theorem tokenize_fails_at_fault (source : String) :
    (∀ e, tokenize source = .error e →
      ∃ offset < source.toList.length, ∃ ts f, BeginsWord source ts offset ∧
        tokenize (String.ofList (source.toList.take offset)) =
          .ok (ts ++ [⟨⟨.eof, ""⟩, .behind (source.toList.take offset)⟩]) ∧
        f.Shows (source.toList.drop offset) ∧
        e = .lexical ⟨f, .behind (source.toList.take offset)⟩) ∧
    ∀ offset ts f, BeginsWord source ts offset → f.Shows (source.toList.drop offset) →
      tokenize source = .error (.lexical ⟨f, .behind (source.toList.take offset)⟩) := by
  constructor
  · intro e h
    obtain ⟨s'', htokens⟩ : ∃ s'', tokens (.ofString source) = .error e s'' := by
      unfold tokenize at h
      split at h <;> cases h
      exact ⟨_, by assumption⟩
    obtain ⟨ts, s, s', f, hr, hgap, hf, rfl⟩ := exists_reaches_of_tokens htokens
    obtain ⟨hplace, hahead⟩ := begun hr hgap
    rw [hahead] at hf
    have hbegins : BeginsWord source ts s'.position := ⟨s, s', hr, hgap, rfl⟩
    have hlt : s'.position < source.toList.length := by
      by_contra hge
      rw [List.drop_of_length_le (Nat.le_of_not_lt hge)] at hf
      cases hf
    refine ⟨s'.position, hlt, ts, f, hbegins, ?_, hf, by rw [hplace]⟩
    rw [tokenize_eq_ok, String.toList_ofList]
    exact scan_take hbegins
  · rintro _ ts f ⟨s, s', hr, hgap, rfl⟩ hf
    obtain ⟨hplace, hahead⟩ := begun hr hgap
    rw [← hahead] at hf
    obtain ⟨s'', herror⟩ := tokens_of_shows hgap hf
    rw [tokenize, tokens_of_reaches hr herror, hplace]

/-- Behind the marker stand a separator and a letter that is no digit; the name in front is read. -/
theorem tokenize_fails_at_fault_of_separator :
    (∃ offset < 6, ∃ ts f, BeginsWord "a 0x_g" ts offset ∧
      tokenize (String.ofList ("a 0x_g".toList.take offset)) =
        .ok (ts ++ [⟨⟨.eof, ""⟩, .behind ("a 0x_g".toList.take offset)⟩]) ∧
      f.Shows ("a 0x_g".toList.drop offset) ∧
      StreamError.lexical ⟨.noHexDigits, ⟨1, 3⟩⟩ =
        .lexical ⟨f, .behind ("a 0x_g".toList.take offset)⟩) ∧
    tokenize "a 0x_g" = .error (.lexical ⟨.noHexDigits, .behind ("a 0x_g".toList.take 2)⟩) := by
  have hword : Lexeme.word (Stream.ofString "a 0x_g").ahead = ⟨.found ⟨.ident, "a"⟩, 1⟩ := by
    decide +kernel
  have hnext : nextToken (.ofString "a 0x_g") =
      .ok ⟨⟨.ident, "a"⟩, .start⟩ (((Stream.ofString "a 0x_g").skip 0).skip 1) := token_found hword
  have hbegins : BeginsWord "a 0x_g" [⟨⟨.ident, "a"⟩, .start⟩] 2 :=
    ⟨_, _, .step hnext (by decide) (.refl _), skipGap_eq _, by decide +kernel⟩
  have hshows : LexFault.noHexDigits.Shows ("a 0x_g".toList.drop 2) := by
    have htext : "a 0x_g".toList.drop 2 = '0' :: 'x' :: (['_'] ++ ['g']) := by decide
    rw [htext]
    exact .noHexDigits (.inl rfl) (List.forall_mem_singleton.2 (by decide)) (by decide)
      (List.forall_mem_singleton.2 (by decide))
  exact ⟨(tokenize_fails_at_fault "a 0x_g").1 _ (by decide +kernel),
    (tokenize_fails_at_fault "a 0x_g").2 2 _ _ hbegins hshows⟩

end IntelAsm

import IntelAsm.Proofs.RoundTrip.Parsed
import IntelAsm.Proofs.RoundTrip.ParsePrint

/-!
# What assembly source loses

A program that was parsed is well formed, so it round-trips if its mnemonics respell. The converse
holds too (`roundTrips_iff_respells`): a mnemonic that does not respell keeps the source from being
parsed at all. There are three ways for that. In upper case a name may hold characters that belong
to no word, at which the lexer stops; it may be a register, with which no statement starts; and it
may start a size specifier with the operand behind it, since a name in parentheses is written
without them. All the causes lie in the first word of a line, so it does not matter what follows.
-/

namespace IntelAsm

open Lexeme
open Respelling (unplaced)

/-! ### Lines that are not read back -/

/-- Beyond ASCII there are no words but those made of letters. -/
theorem words_of_not_isAscii {c : Char} (ha : ¬Text.isAscii c = true)
    (hs : ¬startsWord c = true) (cs : List Char) : ∃ f, words (c :: cs) = .error f := by
  have hne : ∀ d, Text.isAscii d → c ≠ d := by
    rintro d hd rfl
    exact ha hd
  have hblank : ¬isInlineSpace c = true := by
    simp [isInlineSpace, hne ' ' rfl, hne '\t' rfl, hne '\r' rfl]
  have hhex : ¬startsHex (c :: cs) = true := fun h => hne '0' rfl (startsHex_cons h).1
  have hdigit : ¬Numeral.isDecimalDigit c = true :=
    fun hd => ha (Text.isAscii_of_isDecimalDigit hd)
  have hmark : Mark.ofChar? c = none := by
    cases hm : Mark.ofChar? c with
    | none => rfl
    | some m =>
      have hchar : m.char = c := by simpa using List.find?_some hm
      refine absurd hchar.symm (hne m.char ?_)
      cases m <;> rfl
  have hword : wordFrom c cs = ⟨.fault (.unexpected c), 0⟩ := by
    rw [wordFrom, if_neg (hne '\n' rfl), if_neg (by simp [hne ';' rfl, hne '#' rfl]), if_neg hhex,
      if_neg hdigit, if_neg hs, if_neg (by simp [hne '"' rfl, hne '\'' rfl]), hmark]
  exact ⟨_, words_fault hblank hword⟩

/-- What is a word but for characters beyond ASCII is no word of the lexer, if those are no
letters. -/
theorem words_of_not_isWord {cs : List Char} (hc : IsWordlike cs) (hw : ¬IsWord cs)
    (rest : List Char) : ∃ f, words (cs ++ rest) = .error f := by
  obtain ⟨c, ds, rfl⟩ := List.exists_cons_of_ne_nil hc.ne_nil
  by_cases hs : startsWord c = true
  · -- the word ends early, in front of a character that starts none
    have hsplit := List.takeWhile_append_dropWhile (p := continuesWord) (l := c :: ds)
    cases hd : (c :: ds).dropWhile continuesWord with
    | nil =>
      rw [hd, List.append_nil] at hsplit
      exact absurd (hsplit ▸ isWord_takeWhile hs ds) hw
    | cons d vs =>
      have hd' : ¬continuesWord d = true := by
        have hhead := List.head?_dropWhile_not continuesWord (c :: ds)
        simpa [hd] using hhead
      have hmem : d ∈ c :: ds := (List.dropWhile_sublist _).subset (by rw [hd]; simp)
      have ha : ¬Text.isAscii d = true := fun ha => hd' (hc.continues d hmem ha)
      have hds : ¬startsWord d = true := fun h => hd' (continuesWord_of_startsWord h)
      have hblank : ¬isInlineSpace d = true := by
        intro hb
        simp only [isInlineSpace, Bool.or_eq_true, decide_eq_true_eq] at hb
        rcases hb with (rfl | rfl) | rfl <;> exact ha rfl
      have hname : IsWord (String.ofList ((c :: ds).takeWhile continuesWord)).toList := by
        rw [String.toList_ofList]
        exact isWord_takeWhile hs ds
      have hwords := words_isWord hname (ends_cons hblank hd' (vs ++ rest))
      obtain ⟨f, hf⟩ := words_of_not_isAscii ha hds (vs ++ rest)
      refine ⟨f, ?_⟩
      rw [hf, before_error, String.toList_ofList] at hwords
      rw [← hsplit, hd, List.append_assoc]
      exact hwords
  · have ha : ¬Text.isAscii c = true := fun ha => hs (hc.starts c (by simp) ha)
    exact words_of_not_isAscii ha hs (ds ++ rest)

/-- A word with which no statement starts: a register or a size specifier. -/
def Word.StartsNone (w : Word) : Prop := w.kind = .register ∨ ∃ s, w.kind = .size s

section
variable {i : Instruction} (hi : i.WellFormed IsName) (rest : List Char)
include hi

/-- An instruction that starts like a size is read as one that does. -/
theorem words_of_startsLikeSize (hw : IsWord i.mnemonic.toList) (hs : i.StartsLikeSize) :
    ∃ w r, words (i.mnemonic.toList ++ i.tail rest) = before [w] r ∧ w.StartsNone := by
  obtain ⟨hkeyword, name, pos, os, hos, hl⟩ := hs
  obtain ⟨w, hk⟩ := Option.isSome_iff_exists.1 hkeyword
  have hd : i.directive = none := by
    cases he : isEquate i.mnemonic with
    | true =>
      rw [hi.operands_eq he] at hos
      cases hos
    | false => simpa [he] using hi.directive_isSome
  -- the name is no keyword, so it is written without parentheses
  have hsource : (Operand.mk (.labelRef name) none pos).source = name := by
    have hkey : isLabelKeyword name = false := by
      rw [isLabelKeyword, hl]
      decide
    simp [Operand.source, sizeSource, OperandForm.source, Spelling.symbol, hkey]
  obtain ⟨rest', hb, htail⟩ := exists_tail_eq hi rest hd hos
  rw [hsource] at htail
  have hmap := (Text.lower_eq_iff isPlain_sizeSuffix).1 hl
  have hname : IsWord name.toList := isWord_of_map_eq_sizeSuffix hmap
  have hahead : wordAhead sizeSuffix.toList (i.tail rest) = some 4 := by
    rw [htail]
    refine wordAhead_blank hmap ?_ hb
    obtain ⟨c, cs, hcs⟩ := List.exists_cons_of_ne_nil hname.ne_nil
    have hc : ¬isInlineSpace c = true :=
      not_isInlineSpace_of_continuesWord (hname.continues c (by simp [hcs]))
    simpa [hcs] using hc
  have hlength : name.toList.length = 3 := by simpa [sizeSuffix] using congrArg List.length hmap
  have hword := word_size_of_ahead (breaks_tail hi rest) hw hk hahead
  have hall : i.mnemonic.toList ++ i.tail rest =
      (i.mnemonic.toList ++ ' ' :: name.toList) ++ rest' := by simp [htail]
  rw [hall] at hword ⊢
  refine ⟨w.specifier, words rest', words_word (by simp) ?_, .inr ⟨w, rfl⟩⟩
  rw [hword]
  simp [hlength, Width.specifier]

/-- A line whose mnemonic does not respell is at fault or starts with what starts no statement. -/
theorem words_line_of_not_respells
    (hm : ∃ name, IsName name ∧ i.mnemonic = Text.upper name) (hr : ¬i.Respells IsName) :
    (∃ f, words ((i.line ++ "\n").toList ++ rest) = .error f) ∨
      ∃ w r, words ((i.line ++ "\n").toList ++ rest) = before [w] r ∧ w.StartsNone := by
  obtain ⟨name, hname, hmnemonic⟩ := hm
  rw [words_indent]
  by_cases hw : IsWord i.mnemonic.toList
  · right
    cases hreg : isRegister i.mnemonic with
    | true =>
      exact ⟨_, _, words_register hreg (breaks_tail hi rest), .inl rfl⟩
    | false =>
      refine words_of_startsLikeSize hi rest hw (of_not_not fun hs => hr ⟨⟨hw, hreg⟩, ?_, hs⟩)
      rw [hmnemonic, Text.upper_upper]
  · have hlike : IsWordlike i.mnemonic.toList := hmnemonic ▸ isWordlike_upper hname.1
    exact .inl (words_of_not_isWord hlike hw _)

end

/-! ### Programs that are not read back -/

namespace Parser

/-- A run fails in front of a word with which no statement starts. -/
theorem run_of_startsNone {s : Parser} {w : Word} {ts : List Token}
    (hs : s.cursor.ahead = ⟨w, {}⟩ :: ts) (hw : w.StartsNone) : ∃ e s', run s = .error e s' := by
  have hk : s.cursor.current.kind = .register ∨ ∃ size, s.cursor.current.kind = .size size := by
    rw [kind_current hs]
    exact hw
  have hcurrent : onTokens Parse.current s = .ok s.cursor.current s := rfl
  have hpeek : onTokens (Parse.peek 1) s = .ok (s.cursor.peek 1) s := rfl
  have hident : ¬s.cursor.current.kind = .ident := by
    rcases hk with hk | ⟨size, hk⟩ <;> simp [hk]
  have hstatement : statement s =
      onTokens (Parse.fail (.noStatement s.cursor.current.toWord) s.cursor.current) s := by
    rw [statement, bind_of_ok hcurrent, bind_of_ok hpeek, if_neg fun h => hident h.1,
      if_neg fun h => hident h.1, if_neg hident]
  rw [run_eq, if_neg, if_neg, hstatement]
  · exact ⟨_, _, rfl⟩
  all_goals rcases hk with hk | ⟨size, hk⟩ <;> simp [hk]

/-- A run fails where a mnemonic does not respell. -/
theorem run_of_not_respells {is : List Instruction} (his : ∀ i ∈ is, i.WellFormed IsName)
    (hm : ∀ i ∈ is, ¬i.isAnchor → ∃ name, IsName name ∧ i.mnemonic = Text.upper name)
    (hc : AnchorsClosed true is) (hr : ∃ i ∈ is, ¬i.isAnchor ∧ ¬i.Respells IsName) {ws : List Word}
    (hw : words (Style.sourceText (is.flatMap Instruction.lines)).toList = .ok ws) {s : Parser}
    (hp : s.pending.isSome → labelAhead true is) (hs : s.cursor.ahead = tokensOf ws) :
    ∃ e s', run s = .error e s' := by
  induction is generalizing s ws with
  | nil => simp at hr
  | cons i is ih =>
    obtain ⟨hi, his⟩ := List.forall_mem_cons.1 his
    obtain ⟨hmi, hm⟩ := List.forall_mem_cons.1 hm
    rw [toList_sourceText_cons] at hw
    by_cases hri : ¬i.isAnchor → i.Respells IsName
    · -- the instruction is read, and a later one is not
      rw [words_lines hi _ hri] at hw
      obtain ⟨us, hus, rfl⟩ := before_eq_ok.1 hw
      rw [tokensOf_append] at hs
      obtain ⟨s', hs'⟩ := exists_added hi (fun ha => (hri ha).upper) hp hs
      have hr' : ∃ j ∈ is, ¬j.isAnchor ∧ ¬j.Respells IsName := by
        obtain ⟨j, hj, ha, hrj⟩ := hr
        rcases List.mem_cons.1 hj with rfl | hj
        · exact absurd (hri ha) hrj
        · exact ⟨j, hj, ha, hrj⟩
      rw [hs'.run_eq]
      exact ih his hm hc.2 hr' hus (fun h => hc.1 (hs'.pending ▸ h)) hs'.ahead
    · obtain ⟨ha, hri⟩ := Classical.not_imp.1 hri
      rw [toList_lines ha, words_labelLine hi] at hw
      obtain ⟨f, hf⟩ | ⟨w, r, hwr, hstart⟩ := words_line_of_not_respells hi _ (hmi ha) hri
      · rw [hf, before_error] at hw
        cases hw
      · rw [hwr, before_before] at hw
        obtain ⟨us, -, rfl⟩ := before_eq_ok.1 hw
        rw [tokensOf_append, tokensOf_append, List.append_assoc] at hs
        obtain ⟨s', hs'⟩ := exists_labelled hp hs
        rw [hs'.run_eq]
        exact run_of_startsNone hs'.ahead hstart

end Parser

/-- A source in which a mnemonic does not respell is not parsed. -/
theorem parseSource_of_not_respells {p : Program} (hp : p.WellFormed IsName)
    (hm : ∀ i ∈ p.instructions, ¬i.isAnchor → ∃ name, IsName name ∧ i.mnemonic = Text.upper name)
    (hr : ∃ i ∈ p.instructions, ¬i.isAnchor ∧ ¬i.Respells IsName) (q : Program) :
    parseSource p.source ≠ .ok q := by
  intro hq
  have htokens := tokenize_words p.source
  cases hw : words p.source.toList with
  | error f =>
    rw [hw] at htokens
    obtain ⟨pos, ht⟩ := htokens
    simp [parseSource, ht] at hq
  | ok ws =>
    rw [hw] at htokens
    obtain ⟨ts, ht, rfl⟩ := htokens
    obtain ⟨e, s', h⟩ := Parser.run_of_not_respells hp.instructions hm hp.anchors hr hw
      (s := .ofTokens (tokensOf (ts.map (·.toWord)))) (by simp [Parser.ofTokens]) rfl
    have hparse := parse_unplaced ts
    rw [parseSource_of_tokenize ht] at hq
    rw [parse, h] at hparse
    cases hts : parse ts with
    | ok q' =>
      rw [hts] at hparse
      cases hparse
    | error e' =>
      rw [hts] at hq
      cases hq

/-- A program that was parsed round-trips iff its mnemonics respell. -/
theorem roundTrips_iff_respells {source : String} {p : Program} (h : parseSource source = .ok p) :
    p.RoundTrips ↔ ∀ i ∈ p.instructions, ¬i.isAnchor → i.Respells IsName := by
  obtain ⟨ts, hts, hp⟩ : ∃ ts, FromLexer ts ∧ p.From ts := by
    cases ht : tokenize source with
    | error e => simp [parseSource, ht] at h
    | ok ts =>
      rw [parseSource_of_tokenize ht] at h
      cases hparse : parse ts with
      | ok q =>
        rw [hparse] at h
        cases h
        exact ⟨ts, fromLexer_of_tokenize ht, from_of_parse hparse⟩
      | error e =>
        rw [hparse] at h
        cases h
  have hwf : p.WellFormed IsName := wellFormed_of_parse hts hp
  constructor
  · rintro ⟨text, q, hrender, hq, -⟩ i hi ha
    rw [render_program hwf.sized] at hrender
    cases hrender
    refine of_not_not fun hr => ?_
    exact parseSource_of_not_respells hwf (fun i => mnemonic_of_from hts hp) ⟨i, hi, ha, hr⟩ q hq
  · exact fun hr => Program.Canonical.roundTrips ⟨hwf, hr⟩

theorem roundTrips_iff_respells_of_ret :
    parseSource "a: ret" = .ok ⟨[⟨"RET", [], some "a", none, none, ⟨1, 4⟩⟩], [⟨"a", ⟨1, 1⟩⟩]⟩ ∧
      (Program.RoundTrips ⟨[⟨"RET", [], some "a", none, none, ⟨1, 4⟩⟩], [⟨"a", ⟨1, 1⟩⟩]⟩ ↔
        ∀ i ∈ [(⟨"RET", [], some "a", none, none, ⟨1, 4⟩⟩ : Instruction)], ¬i.isAnchor →
          i.Respells IsName) := by
  have h : parseSource "a: ret" =
      .ok ⟨[⟨"RET", [], some "a", none, none, ⟨1, 4⟩⟩], [⟨"a", ⟨1, 1⟩⟩]⟩ := by decide +kernel
  exact ⟨h, roundTrips_iff_respells h⟩

/-- Without the parentheses an operand makes a size specifier of the mnemonic in front of it. -/
theorem not_roundTrips_of_size_and_suffix :
    ∃ p, parseSource "dword (ptr)" = .ok p ∧ ¬p.RoundTrips := by
  refine ⟨⟨[⟨"DWORD", [⟨.labelRef "ptr", none, ⟨1, 7⟩⟩], none, none, none, ⟨1, 1⟩⟩], []⟩,
    by decide +kernel, ?_⟩
  rintro ⟨text, q, hrender, hq, -⟩
  have hsource : text = "    DWORD ptr\n" := by
    rw [render_program (by simp [Program.Sized])] at hrender
    cases hrender
    decide
  have hfails : (parseSource "    DWORD ptr\n").toOption = none := by decide +kernel
  rw [← hsource, hq] at hfails
  cases hfails

end IntelAsm

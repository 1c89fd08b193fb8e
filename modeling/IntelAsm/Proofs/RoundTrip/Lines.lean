import IntelAsm.Proofs.RoundTrip.Words

/-!
# Lines of assembly source

The lines of an instruction are read as its words, whatever follows them (`words_lines`), so the
source of a program is read as the words of its instructions (`words_source`).

The first word of a size specifier is the only word whose reading depends on the next one. That
matters behind a mnemonic alone, as everything else is followed by a mark or by the end of its line:
a mnemonic is read as itself unless its instruction starts like a size (`no_suffix_tail`).
-/

namespace IntelAsm

open Lexeme

/-! ### What starts like the second word of a size -/

theorem wordAhead_mark (m : Mark) (cs : List Char) :
    wordAhead sizeSuffix.toList (m.char :: cs) = none :=
  (ends_mark m cs).no_suffix

theorem wordAhead_isWord {name : String} (h : IsWord name.toList)
    (hne : Text.lower name ≠ sizeSuffix) {rest : List Char} (hr : Breaks rest) :
    wordAhead sizeSuffix.toList (name.toList ++ rest) = none :=
  wordAhead_eq_none h.ne_nil h.continues hr fun hmap =>
    hne ((Text.lower_eq_iff isPlain_sizeSuffix).2 hmap)

theorem wordAhead_register {name : String} (h : isRegister name) {rest : List Char}
    (hr : Breaks rest) : wordAhead sizeSuffix.toList (name.toList ++ rest) = none := by
  refine wordAhead_isWord (isWord_of_isRegister h).1 (fun hl => ?_) hr
  rw [isRegister, hl] at h
  exact absurd h (by decide)

theorem wordAhead_digit {c : Char} (h : Numeral.isDecimalDigit c) (cs : List Char) :
    wordAhead sizeSuffix.toList (c :: cs) = none := by
  have hall : ∀ n < 0x80, Numeral.isDecimalDigit (Char.ofNat n) →
      ¬isInlineSpace (Char.ofNat n) = true ∧ Text.lowerChar (Char.ofNat n) ≠ ['p'] := by decide
  obtain ⟨hb, hp⟩ := Text.of_isAscii (P := fun c => Numeral.isDecimalDigit c →
    ¬isInlineSpace c = true ∧ Text.lowerChar c ≠ ['p']) hall (Text.isAscii_of_isDecimalDigit h) h
  exact wordAhead_cons hb hp cs

theorem wordAhead_literal (v : Int) (isHex : Bool) (rest : List Char) :
    wordAhead sizeSuffix.toList ((Spelling.literal v isHex).toList ++ rest) = none := by
  obtain ⟨c, cs, ht, hc⟩ : ∃ c cs, (Spelling.literal v isHex).toList = c :: cs ∧
      Numeral.isDecimalDigit c := by
    unfold Spelling.literal
    split
    · exact ⟨'0', _, by simp [Numeral.hexadecimal]; rfl, by decide⟩
    · next h =>
      simp only [Bool.or_eq_true, decide_eq_true_eq, not_or] at h
      obtain ⟨d, ds, hds⟩ := List.exists_cons_of_ne_nil (Numeral.digits_ne_nil 10 v.natAbs)
      have hd : Numeral.isDecimalDigit (Numeral.digitChar d) :=
        Numeral.isDecimalDigit_of_mem (n := v.natAbs) (by simp [hds])
      refine ⟨Numeral.digitChar d, ds.map Numeral.digitChar, ?_, hd⟩
      rw [Numeral.decimal, if_neg h.2, Numeral.numeral, hds]
      simp
  rw [ht]
  exact wordAhead_digit hc _

theorem wordAhead_address {a : Address} (ha : a.WellFormed) (rest : List Char) :
    wordAhead sizeSuffix.toList ((Spelling.address a).toList ++ rest) = none := by
  unfold Spelling.address
  cases hs : a.segment with
  | none =>
    have ht : (Spelling.segment none ++ "[" ++ Spelling.addressTerms a ++ "]").toList ++ rest =
        Mark.leftBracket.char :: ((Spelling.addressTerms a ++ "]").toList ++ rest) := by
      simp [Spelling.segment, String.toList_append, Mark.char]
    rw [ht]
    exact wordAhead_mark _ _
  | some s =>
    have hreg : isRegister s := ha.segment s hs
    have hne : s ≠ "" := by
      rintro rfl
      exact absurd hreg (by decide)
    have ht : (Spelling.segment (some s) ++ "[" ++ Spelling.addressTerms a ++ "]").toList ++ rest =
        s.toList ++ Mark.colon.char ::
          (("[" ++ Spelling.addressTerms a ++ "]").toList ++ rest) := by
      simp [Spelling.segment, hne, String.toList_append, Mark.char]
    rw [ht]
    exact wordAhead_register hreg (ends_mark _ _).breaks

theorem wordAhead_expr {e : Expr} (he : e.WellFormed IsName)
    (hne : ∀ name pos, e ≠ .symbol name pos) (rest : List Char) :
    wordAhead sizeSuffix.toList (e.source.toList ++ rest) = none := by
  cases e with
  | literal v h pos => exact wordAhead_literal v h rest
  | symbol name pos => exact absurd rfl (hne name pos)
  | here pos =>
    have ht : (Expr.here pos).source.toList ++ rest = Mark.dollar.char :: rest := by
      simp [Expr.source, Mark.char]
    rw [ht]
    exact wordAhead_mark _ _
  | unary op e pos =>
    obtain ⟨⟨m, -, rfl⟩, -⟩ := he
    have ht : (Expr.unary (String.singleton m.char) e pos).source.toList ++ rest =
        m.char :: (e.source.toList ++ rest) := by
      simp [Expr.source, String.toList_append]
    rw [ht]
    exact wordAhead_mark _ _
  | binary op l r pos =>
    have ht : (Expr.binary op l r pos).source.toList ++ rest = Mark.leftParen.char ::
        ((l.source ++ " " ++ op ++ " " ++ r.source ++ ")").toList ++ rest) := by
      simp [Expr.source, String.toList_append, Mark.char]
    rw [ht]
    exact wordAhead_mark _ _

theorem wordAhead_labelRef {name : String} (h : IsName name) (hne : Text.lower name ≠ sizeSuffix)
    {rest : List Char} (hr : Breaks rest) :
    wordAhead sizeSuffix.toList ((Spelling.symbol name).toList ++ rest) = none := by
  unfold Spelling.symbol
  split
  · have ht : ("(" ++ name ++ ")").toList ++ rest =
        Mark.leftParen.char :: ((name ++ ")").toList ++ rest) := by
      simp [String.toList_append, Mark.char]
    rw [ht]
    exact wordAhead_mark _ _
  · exact wordAhead_isWord h.1 hne hr

theorem wordAhead_string (text : String) (rest : List Char) :
    wordAhead sizeSuffix.toList ((Spelling.string text).toList ++ rest) = none := by
  obtain ⟨c, cs, ht, hc⟩ : ∃ c cs, (Spelling.string text).toList = c :: cs ∧
      (c = '"' ∨ c = '\'') := by
    unfold Spelling.string
    split
    · exact ⟨'\'', _, by simp [String.toList_append]; rfl, .inr rfl⟩
    · exact ⟨'"', _, by simp [String.toList_append]; rfl, .inl rfl⟩
  rw [ht]
  rcases hc with rfl | rfl
  all_goals exact wordAhead_cons (by decide) (by decide) _

theorem wordAhead_form {form : OperandForm} (h : form.WellFormed IsName)
    (hne : ∀ name, form = .labelRef name → Text.lower name ≠ sizeSuffix) {rest : List Char}
    (hr : Breaks rest) : wordAhead sizeSuffix.toList (form.source.toList ++ rest) = none := by
  cases form with
  | register name => exact wordAhead_register h hr
  | immediate v isHex => exact wordAhead_literal v isHex rest
  | memory a => exact wordAhead_address h rest
  | labelRef name => exact wordAhead_labelRef h (hne name rfl) hr
  | string text => exact wordAhead_string text rest
  | expression e => exact wordAhead_expr h.1 h.2.2 rest

/-- Only a label reference without a size may be the second word of a size specifier. -/
theorem wordAhead_operand {o : Operand} (ho : o.WellFormed IsName)
    (hne : ∀ name, o.form = .labelRef name → o.size = none → Text.lower name ≠ sizeSuffix)
    {rest : List Char} (hr : Breaks rest) :
    wordAhead sizeSuffix.toList (o.source.toList ++ rest) = none := by
  obtain ⟨form, size, pos⟩ := o
  cases size with
  | some n =>
    -- the operand starts with the first word of its own size
    obtain ⟨w, rfl⟩ := ho.size n rfl
    have ht : (Operand.source ⟨form, some w.bits, pos⟩).toList ++ rest =
        w.keyword.toList ++ ' ' :: ("ptr ".toList ++ (form.source.toList ++ rest)) := by
      simp [Operand.source, sizeSource, String.toList_append]
    rw [ht]
    refine wordAhead_isWord ?_ ?_ rfl
    · cases w <;> decide
    · cases w <;> decide
  | none =>
    have ht : (Operand.source ⟨form, none, pos⟩).toList ++ rest = form.source.toList ++ rest := by
      simp [Operand.source, sizeSource]
    rw [ht]
    exact wordAhead_form ho.form (fun name hf => hne name hf rfl) hr

/-! ### Instructions -/

/-- The words of what stands behind a mnemonic. -/
def Instruction.bodyWords (i : Instruction) : List Word :=
  match i.directive, i.operands with
  | some e, _ => e.words
  | none, [] => []
  | none, o :: os => o.words ++ moreWords os

/-- The words of a comment and of the end of its line. -/
def trailWords (comment : Option String) : List Word :=
  (comment.map fun c => ⟨.comment, c⟩).toList ++ [lineBreak]

/-- The words of the line of an instruction. -/
def Instruction.lineWords (i : Instruction) : List Word :=
  ⟨.ident, i.mnemonic⟩ :: i.bodyWords ++ trailWords i.comment

/-- The words of the line of a label. -/
def labelWords : Option String → List Word
  | some l => [⟨.ident, l⟩, Mark.colon.word, lineBreak]
  | none => []

/-- The words of the lines of an instruction. -/
def Instruction.words (i : Instruction) : List Word :=
  labelWords i.label ++ if i.isAnchor then [] else i.lineWords

/-- What stands behind a mnemonic up to the next line. -/
def Instruction.tail (i : Instruction) (rest : List Char) : List Char :=
  i.body.toList ++ ((Style.trail i.comment).toList ++ '\n' :: rest)

/-- The line of an instruction starts with its mnemonic. -/
theorem words_indent (i : Instruction) (rest : List Char) :
    words ((i.line ++ "\n").toList ++ rest) = words (i.mnemonic.toList ++ i.tail rest) := by
  have ht : (i.line ++ "\n").toList ++ rest =
      ' ' :: ' ' :: ' ' :: ' ' :: (i.mnemonic.toList ++ i.tail rest) := by
    simp [Instruction.line, Instruction.tail, String.toList_append]
  rw [ht, words_blank (by decide), words_blank (by decide), words_blank (by decide),
    words_blank (by decide)]

/-- An instruction that is no anchor has the line of its label and a line of its own. -/
theorem toList_lines {i : Instruction} (ha : ¬i.isAnchor) (rest : List Char) :
    (Style.sourceText i.lines).toList ++ rest =
      (Style.sourceText (Style.labelLine i.label)).toList ++
        ((i.line ++ "\n").toList ++ rest) := by
  simp [Instruction.lines, ha, Style.sourceText, String.join_append, String.toList_append]

theorem words_trail {comment : Option String}
    (h : ∀ c, comment = some c → IsComment c.toList) (rest : List Char) :
    words ((Style.trail comment).toList ++ '\n' :: rest) =
        before (trailWords comment) (words rest) ∧
      Ends ((Style.trail comment).toList ++ '\n' :: rest) := by
  cases comment with
  | none => exact ⟨words_newline rest, ends_newline rest⟩
  | some c =>
    have hc : IsComment c.toList := h c rfl
    obtain ⟨⟨d, ds, hd, hcs⟩, -⟩ := hc
    have hne : c ≠ "" := by
      rintro rfl
      cases hcs
    have ht : (Style.trail (some c)).toList ++ '\n' :: rest =
        ' ' :: (c.toList ++ '\n' :: rest) := by
      simp [Style.trail, hne, String.toList_append]
    have hends : Ends (c.toList ++ '\n' :: rest) := by
      rw [hcs]
      rcases hd with rfl | rfl <;> exact ends_cons (by decide) (by decide) _
    have hcne : c.toList ≠ [] := by simp [hcs]
    refine ⟨?_, ht ▸ ends_blank hends.no_suffix⟩
    rw [ht, words_blank (by decide), words_word hcne (word_comment (h c rfl) rfl), words_newline]
    exact before_before _ _ _

section
variable {i : Instruction} (hi : i.WellFormed IsName) (rest : List Char)
include hi

theorem words_tail :
    words (i.tail rest) = before (i.bodyWords ++ trailWords i.comment) (words rest) := by
  obtain ⟨htrail, hends⟩ := words_trail hi.comment rest
  unfold Instruction.tail Instruction.body Instruction.bodyWords
  cases hd : i.directive with
  | some e =>
    have ht : (" " ++ e.source).toList ++ ((Style.trail i.comment).toList ++ '\n' :: rest) =
        ' ' :: (e.source.toList ++ ((Style.trail i.comment).toList ++ '\n' :: rest)) := by
      simp [String.toList_append]
    rw [ht, words_blank (by decide), words_expr (hi.directive e hd) hends, htrail]
    simp
  | none =>
    cases ho : i.operands with
    | nil => simpa [Style.operandList] using htrail
    | cons o os =>
      obtain ⟨ho, hos⟩ := List.forall_mem_cons.1 (ho ▸ hi.operands)
      have ht : (Style.operandList ((o :: os).map Operand.source)).toList ++
          ((Style.trail i.comment).toList ++ '\n' :: rest) =
          ' ' :: ((", ".intercalate ((o :: os).map Operand.source)).toList ++
            ((Style.trail i.comment).toList ++ '\n' :: rest)) := by
        simp [Style.operandList, String.toList_append]
      rw [ht, words_blank (by decide), words_operands ho hos hends, htrail]
      simp

/-- A mnemonic ends in front of its body. -/
theorem breaks_tail : Breaks (i.tail rest) := by
  obtain ⟨-, hends⟩ := words_trail hi.comment rest
  have hb : ∀ s : String, ∀ cs, Breaks ((" " ++ s).toList ++ cs) := by
    intro s cs
    have ht : (" " ++ s).toList ++ cs = ' ' :: (s.toList ++ cs) := by simp [String.toList_append]
    rw [ht]
    rfl
  unfold Instruction.tail Instruction.body
  cases i.directive with
  | some e => exact hb _ _
  | none =>
    cases i.operands with
    | nil => simpa [Style.operandList] using hends.breaks
    | cons o os => exact hb _ _

/-- The first operand stands behind a blank. -/
theorem exists_tail_eq (hd : i.directive = none) {o : Operand} {os : List Operand}
    (ho : i.operands = o :: os) :
    ∃ rest', Breaks rest' ∧ i.tail rest = ' ' :: (o.source.toList ++ rest') := by
  obtain ⟨-, hends⟩ := words_trail hi.comment rest
  obtain ⟨rest', hb, ht⟩ := exists_toList_operands o os hends.breaks
  refine ⟨rest', hb, ?_⟩
  rw [Instruction.tail, Instruction.body, hd, ho, ← ht]
  simp [Style.operandList, String.toList_append]

/-- A mnemonic starts no size specifier, unless its instruction starts like one. -/
theorem no_suffix_tail (hs : ¬i.StartsLikeSize) :
    Width.ofKeyword? (Text.lower i.mnemonic) = none ∨
      wordAhead sizeSuffix.toList (i.tail rest) = none := by
  obtain ⟨-, hends⟩ := words_trail hi.comment rest
  cases hk : Width.ofKeyword? (Text.lower i.mnemonic) with
  | none => exact .inl rfl
  | some w =>
    right
    -- no equate is spelled like the first word of a size
    have hd : i.directive = none := by
      have hequate : ∀ m ∈ equateMnemonics, Width.ofKeyword? (Text.lower m) = none := by decide
      have hm : isEquate i.mnemonic = false := by
        refine Bool.eq_false_iff.2 fun hm => ?_
        rw [hequate _ (by simpa [isEquate] using hm)] at hk
        cases hk
      have hsome := hi.directive_isSome
      rw [hm] at hsome
      simpa using hsome
    cases ho : i.operands with
    | nil =>
      unfold Instruction.tail Instruction.body
      rw [hd, ho]
      simpa [Style.operandList] using hends.no_suffix
    | cons o os =>
      obtain ⟨hwf, -⟩ := List.forall_mem_cons.1 (ho ▸ hi.operands)
      have hne : ∀ name, o.form = .labelRef name → o.size = none →
          Text.lower name ≠ sizeSuffix := by
        intro name hform hsize hl
        refine hs ⟨by rw [hk]; rfl, name, o.pos, os, ?_, hl⟩
        rw [ho, ← hform, ← hsize]
      obtain ⟨rest', hb, htail⟩ := exists_tail_eq hi rest hd ho
      rw [htail]
      exact (ends_blank (wordAhead_operand hwf hne hb)).no_suffix

/-- The line of an instruction is read as its words. -/
theorem words_line (hr : i.Respells IsName) :
    words ((i.line ++ "\n").toList ++ rest) = before i.lineWords (words rest) := by
  have hw : words (i.mnemonic.toList ++ i.tail rest) =
      before [⟨if isRegister i.mnemonic then .register else .ident, i.mnemonic⟩]
        (words (i.tail rest)) :=
    words_word hr.name.1.ne_nil
      (word_name (breaks_tail hi rest) hr.name.1 (no_suffix_tail hi rest hr.not_size))
  rw [words_indent, hw, hr.name.2, words_tail hi]
  simp [Instruction.lineWords]

theorem words_labelLine :
    words ((Style.sourceText (Style.labelLine i.label)).toList ++ rest) =
      before (labelWords i.label) (words rest) := by
  cases hl : i.label with
  | none => simp [Style.sourceText, Style.labelLine, labelWords]
  | some l =>
    have hname : IsName l := hi.label l hl
    have hne : l ≠ "" := by
      rintro rfl
      exact hname.1.ne_nil rfl
    have ht : (Style.sourceText (Style.labelLine (some l))).toList ++ rest =
        l.toList ++ Mark.colon.char :: '\n' :: rest := by
      simp [Style.sourceText, Style.labelLine, hne, String.toList_append, Mark.char]
    rw [ht, words_name hname (ends_mark _ _), words_mark, words_newline]
    simp [labelWords]

/-- The lines of an instruction are read as its words. -/
theorem words_lines (hr : ¬i.isAnchor → i.Respells IsName) :
    words ((Style.sourceText i.lines).toList ++ rest) = before i.words (words rest) := by
  cases ha : i.isAnchor with
  | true => simpa [Instruction.lines, Instruction.words, ha] using words_labelLine hi rest
  | false =>
    have ha' : ¬i.isAnchor = true := by simp [ha]
    rw [toList_lines ha', words_labelLine hi, words_line hi rest (hr ha')]
    simp [Instruction.words, ha]

end

/-! ### Programs -/

theorem toList_sourceText_cons (i : Instruction) (is : List Instruction) :
    (Style.sourceText ((i :: is).flatMap Instruction.lines)).toList =
      (Style.sourceText i.lines).toList ++
        (Style.sourceText (is.flatMap Instruction.lines)).toList := by
  simp [Style.sourceText, String.join_append, String.toList_append]

/-- The source of a canonical program is read as the words of its instructions. -/
theorem words_source {is : List Instruction} (his : ∀ i ∈ is, i.WellFormed IsName)
    (hr : ∀ i ∈ is, ¬i.isAnchor → i.Respells IsName) :
    words (Style.sourceText (is.flatMap Instruction.lines)).toList =
      .ok (is.flatMap Instruction.words ++ [⟨.eof, ""⟩]) := by
  induction is with
  | nil => exact words_nil
  | cons i is ih =>
    obtain ⟨hi, his⟩ := List.forall_mem_cons.1 his
    obtain ⟨hri, hr⟩ := List.forall_mem_cons.1 hr
    rw [toList_sourceText_cons, words_lines hi _ hri, ih his hr]
    simp [before, Except.map]

end IntelAsm

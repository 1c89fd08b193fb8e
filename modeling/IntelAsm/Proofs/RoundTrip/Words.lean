import IntelAsm.Proofs.Lexer.Scan
import IntelAsm.Proofs.RoundTrip.Source
import IntelAsm.Proofs.Text.Case

/-!
# Words of assembly source

The words that the source of a tree is made of, as a function of the tree (`Expr.words`,
`Address.words`, `Operand.words`), and the proof that the lexer finds them. For each part of a tree
there is one law: in front of any text its source has its words, and then come the words of that
text. A part that may end with a name asks that the name ends there (`Ends`).
-/

namespace IntelAsm

open Lexeme

/-! ### Where a name ends -/

/-- A text in front of which a name ends and starts no size specifier. -/
structure Ends (cs : List Char) : Prop where
  breaks : Breaks cs
  no_suffix : wordAhead sizeSuffix.toList cs = none

/-- What continues a word is the second word of a size specifier only as a whole. -/
theorem wordAhead_eq_none {us rest : List Char} (hne : us ≠ []) (hu : ∀ c ∈ us, continuesWord c)
    (hb : Breaks rest) (h : us.map Text.lowerChar ≠ sizeSuffix.toList.map fun c => [c]) :
    wordAhead sizeSuffix.toList (us ++ rest) = none := by
  have hdrop : (us ++ rest).dropWhile isInlineSpace = us ++ rest := by
    obtain ⟨c, cs, rfl⟩ := List.exists_cons_of_ne_nil hne
    exact List.dropWhile_cons_of_neg (not_isInlineSpace_of_continuesWord (hu c (by simp)))
  rw [wordAhead, hdrop]
  cases ha : afterWord sizeSuffix.toList (us ++ rest) with
  | none => rfl
  | some rest' =>
    obtain ⟨vs, hvs, hmap⟩ := afterWord_eq_some.1 ha
    have hv : IsWord vs := isWord_of_map_eq_sizeSuffix hmap
    cases hb' : rest'.head?.any continuesWord with
    | true => simp [hb']
    | false =>
      have hus : us = vs := by
        rw [← takeWhile_append hu hb, hvs, takeWhile_append hv.continues hb']
      exact absurd (hus ▸ hmap) h

/-- Nothing that starts with another letter is the second word of a size specifier. -/
theorem wordAhead_cons {c : Char} (hb : ¬isInlineSpace c = true) (hc : Text.lowerChar c ≠ ['p'])
    (cs : List Char) : wordAhead sizeSuffix.toList (c :: cs) = none := by
  have hp : sizeSuffix.toList = ['p', 't', 'r'] := by decide
  rw [wordAhead, List.dropWhile_cons_of_neg hb, hp, afterWord, if_neg hc]

/-- A name ends in front of a character that neither continues it nor is a blank. -/
theorem ends_cons {c : Char} (hb : ¬isInlineSpace c = true) (hc : ¬continuesWord c = true)
    (cs : List Char) : Ends (c :: cs) := by
  refine ⟨by simpa [Breaks] using hc, wordAhead_cons hb (fun hp => hc ?_) cs⟩
  have hplain : Text.IsPlain ['p'] := by decide
  have hw : IsWord [c] := isWord_of_map_lowerChar hplain (by decide) (by simp [hp])
  exact hw.continues c (by simp)

/-- It ends at a blank too, unless the second word of a size comes next. -/
theorem ends_blank {cs : List Char} (h : wordAhead sizeSuffix.toList cs = none) :
    Ends (' ' :: cs) := by
  have hd : (' ' :: cs).dropWhile isInlineSpace = cs.dropWhile isInlineSpace :=
    List.dropWhile_cons_of_pos (by decide)
  refine ⟨rfl, ?_⟩
  rw [wordAhead, hd]
  rw [wordAhead] at h
  cases ha : afterWord sizeSuffix.toList (cs.dropWhile isInlineSpace) with
  | none => rfl
  | some rest =>
    rw [ha] at h
    cases hb : rest.head?.any continuesWord with
    | true => simp [hb]
    | false => simp [hb] at h

theorem ends_mark (m : Mark) (cs : List Char) : Ends (m.char :: cs) :=
  ends_cons (by cases m <;> decide) (by cases m <;> decide) cs

theorem ends_newline (cs : List Char) : Ends ('\n' :: cs) :=
  ends_cons (by decide) (by decide) cs

/-! ### Single words -/

/-- The word of a mark. -/
def Mark.word (m : Mark) : Word := ⟨.mark m, String.singleton m.char⟩

/-- The end of a line. -/
def lineBreak : Word := ⟨.newline, "\n"⟩

/-- The words of a size. -/
def Width.specifier (w : Width) : Word := ⟨.size w, w.keyword ++ " " ++ sizeSuffix⟩

/-- The word of a literal. -/
def literalWord (v : Int) (isHex : Bool) : Word :=
  if isHex || v < 0 then ⟨.hexNumber, Numeral.hexadecimal (Numeral.unsignedWord v)⟩
  else ⟨.number, Numeral.decimal v⟩

/-- The words of a symbol or a label reference. -/
def symbolWords (name : String) : List Word :=
  if isLabelKeyword name then [Mark.leftParen.word, ⟨.ident, name⟩, Mark.rightParen.word]
  else [⟨.ident, name⟩]

/-- The word of an operator. -/
def operatorWord (op : String) : Word :=
  match op.toList with
  | [c] => ⟨(Mark.ofChar? c).elim (.other op) .mark, op⟩
  | _ => ⟨.other op, op⟩

@[simp] theorem operatorWord_singleton (m : Mark) :
    operatorWord (String.singleton m.char) = m.word := by
  simp [operatorWord, Mark.word]

/-- A mark is a word wherever it stands. -/
theorem words_mark (m : Mark) (rest : List Char) :
    words (m.char :: rest) = before [m.word] (words rest) :=
  words_word (l := [m.char]) (by simp) (word_mark m rest)

theorem words_newline (rest : List Char) :
    words ('\n' :: rest) = before [lineBreak] (words rest) :=
  words_word (l := ['\n']) (by simp) (word_newline rest)

/-- A name or a register is one word, whether it could start a size specifier or not. -/
theorem words_isWord {name : String} (h : IsWord name.toList) {rest : List Char} (hr : Ends rest) :
    words (name.toList ++ rest) =
      before [⟨if isRegister name then .register else .ident, name⟩] (words rest) :=
  words_word h.ne_nil (word_name hr.breaks h (.inr hr.no_suffix))

/-- A name is one word if it ends there. -/
theorem words_name {name : String} (h : IsName name) {rest : List Char} (hr : Ends rest) :
    words (name.toList ++ rest) = before [⟨.ident, name⟩] (words rest) := by
  rw [words_isWord h.1 hr, h.2]
  rfl

/-- A register is one word if it ends there. -/
theorem words_register {name : String} (h : isRegister name) {rest : List Char}
    (hr : Breaks rest) :
    words (name.toList ++ rest) = before [⟨.register, name⟩] (words rest) := by
  obtain ⟨hw, hk⟩ := isWord_of_isRegister h
  rw [words_word hw.ne_nil (word_name hr hw (.inl hk)), h]
  rfl

/-- A number is written as one word. -/
theorem words_decimal {v : Int} (h : 0 ≤ v) {rest : List Char} (hr : Breaks rest) :
    words ((Numeral.decimal v).toList ++ rest) =
      before [⟨.number, Numeral.decimal v⟩] (words rest) := by
  have hn : ¬v < 0 := by omega
  have ht : Numeral.decimal v =
      String.ofList ((Numeral.digits 10 v.natAbs).map Numeral.digitChar) := by
    rw [Numeral.decimal, if_neg hn]
    rfl
  have hne : (Numeral.digits 10 v.natAbs).map Numeral.digitChar ≠ [] := by
    simp [Numeral.digits_ne_nil]
  rw [ht, String.toList_ofList]
  exact words_word hne (word_number hr hne fun _ => Numeral.isDecimalDigit_of_mem)

/-- So is a hexadecimal one. -/
theorem words_hexadecimal (n : Nat) {rest : List Char} (hr : Breaks rest) :
    words ((Numeral.hexadecimal n).toList ++ rest) =
      before [⟨.hexNumber, Numeral.hexadecimal n⟩] (words rest) := by
  have ht : Numeral.hexadecimal n =
      String.ofList ('0' :: 'x' :: (Numeral.digits 16 n).map Numeral.digitChar) := by
    rw [Numeral.hexadecimal, Numeral.numeral, ← String.toList_inj]
    simp
  have hne : (Numeral.digits 16 n).map Numeral.digitChar ≠ [] := by
    simp [Numeral.digits_ne_nil]
  rw [ht, String.toList_ofList]
  exact words_word (by simp) (word_hexNumber hr hne fun _ => Numeral.isHexDigit_of_mem)

/-- So is a literal in either base. -/
theorem words_literal (v : Int) (isHex : Bool) {rest : List Char} (hr : Breaks rest) :
    words ((Spelling.literal v isHex).toList ++ rest) =
      before [literalWord v isHex] (words rest) := by
  unfold Spelling.literal literalWord
  split
  · exact words_hexadecimal _ hr
  · next h =>
    simp only [Bool.or_eq_true, decide_eq_true_eq, not_or, Int.not_lt] at h
    exact words_decimal h.2 hr

/-- A symbol is one word, or three if it stands in parentheses. -/
theorem words_symbol {name : String} (h : IsName name) {rest : List Char} (hr : Ends rest) :
    words ((Spelling.symbol name).toList ++ rest) = before (symbolWords name) (words rest) := by
  unfold Spelling.symbol symbolWords
  split
  · have ht : ("(" ++ name ++ ")").toList ++ rest =
        Mark.leftParen.char :: (name.toList ++ Mark.rightParen.char :: rest) := by
      simp [String.toList_append, Mark.char]
    rw [ht, words_mark, words_name h (ends_mark _ _), words_mark]
    simp
  · exact words_name h hr

/-! ### Expressions -/

/-- The words of an expression. -/
def Expr.words : Expr → List Word
  | .literal v h _ => [literalWord v h]
  | .symbol name _ => symbolWords name
  | .here _ => [Mark.dollar.word]
  | .unary op e _ => operatorWord op :: e.words
  | .binary op l r _ =>
    Mark.leftParen.word :: l.words ++ operatorWord op :: r.words ++ [Mark.rightParen.word]

/-- An expression has its words, by induction on it. -/
theorem words_expr {e : Expr} (he : e.WellFormed IsName) {rest : List Char} (hr : Ends rest) :
    words (e.source.toList ++ rest) = before e.words (words rest) := by
  -- on the expression, whatever follows: behind each part stands a mark or what ends the whole
  induction e generalizing rest with
  | literal v h pos => exact words_literal v h hr.breaks
  | symbol name pos => exact words_symbol he hr
  | here pos =>
    have ht : (Expr.here pos).source.toList ++ rest = Mark.dollar.char :: rest := by
      simp [Expr.source, Mark.char]
    rw [ht, words_mark]
    rfl
  | unary op e pos ih =>
    obtain ⟨⟨m, -, rfl⟩, he⟩ := he
    have ht : (Expr.unary (String.singleton m.char) e pos).source.toList ++ rest =
        m.char :: (e.source.toList ++ rest) := by
      simp [Expr.source, String.toList_append]
    rw [ht, words_mark, ih he hr]
    simp [Expr.words]
  | binary op l r pos ihl ihr =>
    obtain ⟨⟨m, -, rfl⟩, hl, hr'⟩ := he
    have ht : (Expr.binary (String.singleton m.char) l r pos).source.toList ++ rest =
        Mark.leftParen.char :: (l.source.toList ++ ' ' :: m.char :: ' ' ::
          (r.source.toList ++ Mark.rightParen.char :: rest)) := by
      simp [Expr.source, String.toList_append, Mark.char]
    have hm : Ends (' ' :: m.char :: ' ' ::
        (r.source.toList ++ Mark.rightParen.char :: rest)) :=
      ends_blank (ends_mark m _).no_suffix
    rw [ht, words_mark, ihl hl hm, words_blank (by decide), words_mark, words_blank (by decide),
      ihr hr' (ends_mark _ _), words_mark]
    simp [Expr.words]

/-! ### Addresses -/

/-- The words of the segment of an address. -/
def segmentWords : Option String → List Word
  | some s => [⟨.register, s⟩, Mark.colon.word]
  | none => []

/-- The words of a scaled index. -/
def indexWords (index : Option String) (scale : Int) : List Word :=
  match index with
  | some i =>
    Mark.plus.word :: ⟨.register, i⟩ ::
      if scale = 1 then [] else [Mark.star.word, literalWord scale false]
  | none => []

/-- The words of a number with its sign. -/
def signedWords (d : Int) : List Word :=
  if 0 ≤ d then [Mark.plus.word, ⟨.number, Numeral.decimal d⟩]
  else if -d > Numeral.maxSigned then
    [Mark.minus.word, ⟨.hexNumber, Numeral.hexadecimal d.natAbs⟩]
  else [Mark.minus.word, ⟨.number, Numeral.decimal (-d)⟩]

/-- The words of the terms of an address. -/
def Address.termWords (a : Address) : List Word :=
  match a.base, a.displacement with
  | some b, some d => ⟨.register, b⟩ :: indexWords a.index a.scale ++ signedWords d
  | some b, none => ⟨.register, b⟩ :: indexWords a.index a.scale
  | none, some d =>
    (if 0 ≤ d then [⟨.number, Numeral.decimal d⟩] else signedWords d) ++
      indexWords a.index a.scale
  | none, none => indexWords a.index a.scale

/-- The words of an address. -/
def Address.words (a : Address) : List Word :=
  segmentWords a.segment ++ Mark.leftBracket.word :: a.termWords ++ [Mark.rightBracket.word]

/-- The segment of an address has its words. -/
theorem words_segment {segment : Option String} (h : ∀ r, segment = some r → isRegister r)
    (rest : List Char) :
    words ((Spelling.segment segment).toList ++ rest) =
      before (segmentWords segment) (words rest) := by
  cases segment with
  | none => simp [Spelling.segment, segmentWords]
  | some s =>
    have hs : s ≠ "" := by
      rintro rfl
      exact absurd (h "" rfl) (by decide)
    have ht : (Spelling.segment (some s)).toList ++ rest =
        s.toList ++ Mark.colon.char :: rest := by
      simp [Spelling.segment, hs, String.toList_append, Mark.char]
    rw [ht, words_register (h s rfl) (ends_mark _ _).breaks, words_mark]
    simp [segmentWords]

/-- A scaled index has its words, and what stands in front of it ends there. -/
theorem words_indexTerm {index : Option String} (scale : Int)
    (h : ∀ r, index = some r → isRegister r) {rest : List Char} (hr : Breaks rest) :
    words ((Spelling.indexTerm index scale).toList ++ rest) =
        before (indexWords index scale) (words rest) ∧
      Breaks ((Spelling.indexTerm index scale).toList ++ rest) := by
  cases index with
  | none => exact ⟨by simp [Spelling.indexTerm, indexWords], hr⟩
  | some i =>
    by_cases hs : scale = 1
    · have ht : (Spelling.indexTerm (some i) scale).toList ++ rest =
          Mark.plus.char :: (i.toList ++ rest) := by
        simp [Spelling.indexTerm, hs, String.toList_append, Mark.char]
      rw [ht, words_mark, words_register (h i rfl) hr]
      exact ⟨by simp [indexWords, hs], (ends_mark _ _).breaks⟩
    · have ht : (Spelling.indexTerm (some i) scale).toList ++ rest =
          Mark.plus.char :: (i.toList ++ Mark.star.char ::
            ((Spelling.literal scale).toList ++ rest)) := by
        simp [Spelling.indexTerm, hs, String.toList_append, Mark.char]
      rw [ht, words_mark, words_register (h i rfl) (ends_mark _ _).breaks, words_mark,
        words_literal _ _ hr]
      exact ⟨by simp [indexWords, hs], (ends_mark _ _).breaks⟩

/-- A number behind its sign has its words, and what stands in front of it ends there. -/
theorem words_signed (d : Int) {rest : List Char} (hr : Breaks rest) :
    words ((Spelling.signed d).toList ++ rest) = before (signedWords d) (words rest) ∧
      Breaks ((Spelling.signed d).toList ++ rest) := by
  have happ : ∀ (m : Mark) (s : String) (w : Word),
      words (s.toList ++ rest) = before [w] (words rest) →
      words ((String.singleton m.char ++ s).toList ++ rest) = before [m.word, w] (words rest) ∧
        Breaks ((String.singleton m.char ++ s).toList ++ rest) := by
    intro m s w hs
    have ht : (String.singleton m.char ++ s).toList ++ rest = m.char :: (s.toList ++ rest) := by
      simp [String.toList_append]
    rw [ht, words_mark, hs]
    exact ⟨by simp, (ends_mark _ _).breaks⟩
  unfold Spelling.signed signedWords
  split
  · next h => exact happ .plus _ _ (words_decimal h hr)
  split
  · exact happ .minus _ _ (words_hexadecimal _ hr)
  · exact happ .minus _ _ (words_decimal (by omega) hr)

/-- The terms between the brackets have their words. -/
theorem words_addressTerms {a : Address} (ha : a.WellFormed) {rest : List Char}
    (hr : Breaks rest) :
    words ((Spelling.addressTerms a).toList ++ rest) = before a.termWords (words rest) := by
  obtain ⟨hindex, hbreaks⟩ := words_indexTerm a.scale ha.index hr
  unfold Spelling.addressTerms Address.termWords
  cases hb : a.base with
  | some b =>
    have hreg : isRegister b := ha.base b hb
    cases a.displacement with
    | some d =>
      obtain ⟨hsigned, hbreaks'⟩ := words_signed d hr
      obtain ⟨hindex', hbreaks''⟩ := words_indexTerm a.scale ha.index hbreaks'
      simp only [String.toList_append, List.append_assoc]
      rw [words_register hreg hbreaks'', hindex', hsigned]
      simp
    | none =>
      simp only [String.toList_append, List.append_assoc]
      rw [words_register hreg hbreaks, hindex]
      simp
  | none =>
    cases a.displacement with
    | some d =>
      simp only [String.toList_append, List.append_assoc]
      -- the displacement comes first, without a sign unless it is negative
      by_cases hd : 0 ≤ d
      · rw [if_pos hd, if_pos hd, words_decimal hd hbreaks, hindex]
        simp
      · rw [if_neg hd, if_neg hd, (words_signed d hbreaks).1, hindex]
        simp
    | none => exact hindex

/-- An address has its words. -/
theorem words_address {a : Address} (ha : a.WellFormed) (rest : List Char) :
    words ((Spelling.address a).toList ++ rest) = before a.words (words rest) := by
  have ht : (Spelling.address a).toList ++ rest =
      (Spelling.segment a.segment).toList ++ Mark.leftBracket.char ::
        ((Spelling.addressTerms a).toList ++ Mark.rightBracket.char :: rest) := by
    simp [Spelling.address, String.toList_append, Mark.char]
  rw [ht, words_segment ha.segment, words_mark, words_addressTerms ha (ends_mark _ _).breaks,
    words_mark]
  simp [Address.words]

/-! ### Operands -/

/-- The words of a size. -/
def sizeWords (size : Option Int) : List Word :=
  match size.bind Width.ofBits? with
  | some w => [w.specifier]
  | none => []

/-- The words of an operand, its size aside. -/
def OperandForm.words : OperandForm → List Word
  | .register name => [⟨.register, name⟩]
  | .immediate v h => [literalWord v h]
  | .memory a => a.words
  | .labelRef name => symbolWords name
  | .string text => [⟨.string, text⟩]
  | .expression e => e.words

/-- The words of an operand. -/
def Operand.words (o : Operand) : List Word := sizeWords o.size ++ o.form.words

/-- The words of operands that follow another one. -/
def moreWords (os : List Operand) : List Word := os.flatMap fun o => Mark.comma.word :: o.words

/-- A size has its one word. -/
theorem words_size (size : Option Int) (rest : List Char) :
    words ((sizeSource size).toList ++ rest) = before (sizeWords size) (words rest) := by
  unfold sizeSource sizeWords
  cases size.bind Width.ofBits? with
  | none => simp
  | some w =>
    have ht : (w.keyword ++ " ptr ").toList ++ rest =
        (w.keyword ++ " " ++ sizeSuffix).toList ++ ' ' :: rest := by
      simp [String.toList_append, sizeSuffix]
    have hne : (w.keyword ++ " " ++ sizeSuffix).toList ≠ [] := by
      simp [String.toList_append]
    have hb : Breaks (' ' :: rest) := rfl
    show words ((w.keyword ++ " ptr ").toList ++ rest) = _
    rw [ht, words_word hne (word_size hb w), words_blank (by decide)]
    rfl

/-- Every form of an operand has its words. -/
theorem words_form {form : OperandForm} (h : form.WellFormed IsName) {rest : List Char}
    (hr : Ends rest) :
    words (form.source.toList ++ rest) = before form.words (words rest) := by
  cases form with
  | register name => exact words_register h hr.breaks
  | immediate v isHex => exact words_literal v isHex hr.breaks
  | memory a => exact words_address h rest
  | labelRef name => exact words_symbol h hr
  | string text =>
    exact words_word (toList_string_ne_nil text) (word_string h rest)
  | expression e => exact words_expr h.1 hr

/-- An operand has its words. -/
theorem words_operand {o : Operand} (h : o.WellFormed IsName) {rest : List Char} (hr : Ends rest) :
    words (o.source.toList ++ rest) = before o.words (words rest) := by
  have ht : o.source.toList ++ rest =
      (sizeSource o.size).toList ++ (o.form.source.toList ++ rest) := by
    simp [Operand.source, String.toList_append]
  rw [ht, words_size, words_form h.form hr]
  simp [Operand.words]

/-- What follows the first operand of a list ends it. -/
theorem exists_toList_operands (o : Operand) (os : List Operand) {rest : List Char}
    (hr : Breaks rest) :
    ∃ rest', Breaks rest' ∧ (", ".intercalate ((o :: os).map Operand.source)).toList ++ rest =
      o.source.toList ++ rest' := by
  cases os with
  | nil => exact ⟨rest, hr, by simp⟩
  | cons o' os =>
    refine ⟨Mark.comma.char :: ' ' ::
      ((", ".intercalate ((o' :: os).map Operand.source)).toList ++ rest),
      (ends_mark _ _).breaks, ?_⟩
    simp [String.intercalate_cons_cons, String.toList_append, Mark.char]

/-- Operands with commas between them have their words. -/
theorem words_operands {o : Operand} {os : List Operand} (ho : o.WellFormed IsName)
    (hos : ∀ o ∈ os, o.WellFormed IsName) {rest : List Char} (hr : Ends rest) :
    words ((", ".intercalate ((o :: os).map Operand.source)).toList ++ rest) =
      before (o.words ++ moreWords os) (words rest) := by
  induction os generalizing o with
  | nil => simpa [moreWords] using words_operand ho hr
  | cons o' os ih =>
    obtain ⟨ho', hos⟩ := List.forall_mem_cons.1 hos
    have ht : (", ".intercalate ((o :: o' :: os).map Operand.source)).toList ++ rest =
        o.source.toList ++ Mark.comma.char :: ' ' ::
          ((", ".intercalate ((o' :: os).map Operand.source)).toList ++ rest) := by
      simp [String.intercalate_cons_cons, String.toList_append, Mark.char]
    rw [ht, words_operand ho (ends_mark _ _), words_mark, words_blank (by decide), ih ho' hos]
    simp [moreWords]

end IntelAsm

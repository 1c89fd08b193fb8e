import IntelAsm.Proofs.Parser.WellFormed
import IntelAsm.Proofs.RoundTrip.Source
import IntelAsm.Proofs.Text.OneLine
import Mathlib.Data.List.Basic

/-!
# The lines of a rendering

Both styles write a program that was parsed line by line. Nothing that the lexer lets into a tree
has a newline, so the text of an instruction stands on one line (`Instruction.oneLine_written`) and
a rendering has no lines but those that the style puts together. The two styles write the same for
an instruction in which no symbol is spelled like a keyword, its label aside
(`Instruction.content_eq`).
-/

namespace IntelAsm

open Text

/-! ### Words on one line -/

/-- No word goes on over a newline. -/
theorem Lexeme.IsWord.oneLine {s : String} (h : IsWord s.toList) : OneLine s := by
  intro hn
  have hcontinues : continuesWord '\n' := h.continues '\n' hn
  exact absurd hcontinues (by decide +kernel)

theorem IsName.oneLine {s : String} (h : IsName s) : OneLine s := h.1.oneLine

theorem IsName.ne_empty {s : String} (h : IsName s) : s ≠ "" := by
  rintro rfl
  exact h.1.ne_nil rfl

theorem oneLine_of_isRegister {s : String} (h : isRegister s) : OneLine s :=
  (isWord_of_isRegister h).1.oneLine

/-- A mnemonic is a name in upper case. -/
theorem oneLine_upper {name : String} (h : IsName name) : OneLine (upper name) := by
  intro hn
  have hcontinues : Lexeme.continuesWord '\n' :=
    (isWordlike_upper h.1).continues '\n' hn (by decide)
  exact absurd hcontinues (by decide +kernel)

/-! ### Operands on one line -/

namespace Spelling

/-- Literals are written in digits. -/
theorem oneLine_literal (v : Int) (isHex : Bool) : OneLine (literal v isHex) := by
  unfold literal
  split
  · exact Numeral.oneLine_hexadecimal _
  · exact Numeral.oneLine_decimal v

theorem oneLine_signed (d : Int) : OneLine (signed d) := by
  unfold signed
  split
  · exact .append (by decide) (Numeral.oneLine_decimal d)
  split
  · exact .append (by decide) (Numeral.oneLine_hexadecimal _)
  · exact .append (by decide) (Numeral.oneLine_decimal _)

/-- A text on one line is quoted on one line. -/
theorem oneLine_string {text : String} (h : OneLine text) : OneLine (string text) := by
  unfold string
  split
  · exact .append (.append (by decide) h) (by decide)
  · exact .append (.append (by decide) h) (by decide)

end Spelling

theorem Mark.oneLine (m : Mark) : OneLine (String.singleton m.char) := by
  cases m <;> decide

theorem oneLine_sizeSource (size : Option Int) : OneLine (sizeSource size) := by
  have hkeyword (w : Width) : OneLine w.keyword := by cases w <;> decide
  unfold sizeSource
  split
  · exact .append (hkeyword _) (by decide)
  · decide

namespace Address

variable {a : Address} (h : a.WellFormed)
include h

theorem oneLine_segment : OneLine (Spelling.segment a.segment) := by
  cases hs : a.segment with
  | none => decide
  | some s =>
    unfold Spelling.segment
    dsimp only
    split
    · decide
    · exact .append (oneLine_of_isRegister (h.segment s hs)) (by decide)

/-- Behind a register comes a factor, in digits. -/
theorem oneLine_indexTerm : OneLine (Spelling.indexTerm a.index a.scale) := by
  cases hi : a.index with
  | none =>
    show OneLine ""
    decide
  | some i =>
    have hindex : OneLine ("+" ++ i) := .append (by decide) (oneLine_of_isRegister (h.index i hi))
    unfold Spelling.indexTerm
    dsimp only
    split
    · exact hindex.append (by decide)
    · exact hindex.append (.append (by decide) (Spelling.oneLine_literal _ _))

/-- The terms of an address stand on one line, as each of them does. -/
theorem oneLine_addressTerms : OneLine (Spelling.addressTerms a) := by
  have hindex := oneLine_indexTerm h
  unfold Spelling.addressTerms
  split
  · next hb hd =>
    exact .append (.append (oneLine_of_isRegister (h.base _ hb)) hindex) (Spelling.oneLine_signed _)
  · next hb hd => exact .append (oneLine_of_isRegister (h.base _ hb)) hindex
  · split
    · exact .append (Numeral.oneLine_decimal _) hindex
    · exact .append (Spelling.oneLine_signed _) hindex
  · exact hindex

/-- An address stands on one line. -/
theorem oneLine : OneLine (Spelling.address a) :=
  .append (.append (.append (oneLine_segment h) (by decide)) (oneLine_addressTerms h)) (by decide)

end Address

section
variable (style : Style)

/-- Parentheses around a symbol add no newline. -/
theorem Style.oneLine_symbol {name : String} (h : OneLine name) : OneLine (style.symbol name) := by
  cases style with
  | outline => exact h
  | assembly =>
    show OneLine (Spelling.symbol name)
    unfold Spelling.symbol
    split
    · exact .append (.append (by decide) h) (by decide)
    · exact h

/-- By induction on the expression. -/
theorem Expr.oneLine_written {e : Expr} (h : e.WellFormed IsName) :
    OneLine (e.written style) := by
  induction e with
  | literal v isHex pos => exact Spelling.oneLine_literal v isHex
  | symbol name pos => exact style.oneLine_symbol (IsName.oneLine h)
  | here pos =>
    show OneLine "$"
    decide
  | unary op e pos ih =>
    obtain ⟨⟨m, -, rfl⟩, he⟩ := h
    exact .append m.oneLine (ih he)
  | binary op l r pos ihl ihr =>
    obtain ⟨⟨m, -, rfl⟩, hl, hr⟩ := h
    have hleft : OneLine ("(" ++ l.written style ++ " ") :=
      .append (.append (by decide) (ihl hl)) (by decide)
    exact .append (.append (.append (hleft.append m.oneLine) (by decide)) (ihr hr)) (by decide)

theorem OperandForm.oneLine_written {form : OperandForm} (h : form.WellFormed IsName) :
    OneLine (form.written style) := by
  cases form with
  | register name => exact oneLine_of_isRegister h
  | immediate v isHex => exact Spelling.oneLine_literal v isHex
  | memory a => exact Address.oneLine h
  | labelRef name => exact style.oneLine_symbol (IsName.oneLine h)
  | string text => exact Spelling.oneLine_string ((Lexeme.isQuotable_iff _).1 h).one_line
  | expression e => exact e.oneLine_written style h.1

/-- An operand stands on one line, its size included. -/
theorem Operand.oneLine_written {o : Operand} (h : o.WellFormed IsName) :
    OneLine (o.written style) :=
  .append (oneLine_sizeSource o.size) (OperandForm.oneLine_written style h.form)

/-! ### Instructions on one line -/

/-- What stands in front of an instruction adds no newline. -/
theorem Style.oneLine_lead {label : Option String} (h : ∀ l, label = some l → OneLine l) :
    OneLine (style.lead label) := by
  unfold Style.lead
  split
  · split
    · decide
    · exact .append (.append (by decide) (h _ rfl)) (by decide)
  · decide
  · decide

theorem Style.oneLine_trail {comment : Option String} (h : ∀ c, comment = some c → OneLine c) :
    OneLine (Style.trail comment) := by
  unfold Style.trail
  split
  · split
    · decide
    · exact .append (by decide) (h _ rfl)
  · decide

/-- Operands that stand on one line each stand on one line together. -/
theorem Style.oneLine_operandList {texts : List String} (h : ∀ t ∈ texts, OneLine t) :
    OneLine (Style.operandList texts) := by
  unfold Style.operandList
  split
  · decide
  · exact .append (by decide) (oneLine_intercalate (by decide) h)

theorem Instruction.oneLine_arguments {i : Instruction} (h : i.WellFormed IsName) :
    OneLine (i.arguments style) := by
  unfold arguments
  split
  · next e he => exact .append (by decide) (e.oneLine_written style (h.directive e he))
  · refine Style.oneLine_operandList fun t ht => ?_
    obtain ⟨o, ho, rfl⟩ := List.mem_map.1 ht
    exact o.oneLine_written style (h.operands o ho)

/-- An instruction stands on one line. -/
theorem Instruction.oneLine_written {i : Instruction} (h : i.WellFormed IsName)
    (hmnemonic : OneLine i.mnemonic) : OneLine (i.written style) := by
  have hlead := style.oneLine_lead fun l hl => (h.label l hl).oneLine
  have htrail := Style.oneLine_trail fun c hc => (h.comment c hc).2
  exact hlead.append ((hmnemonic.append (i.oneLine_arguments style h)).append htrail)

end

/-! ### The same text in both styles -/

/-- The symbols of an expression. -/
def Expr.symbols : Expr → List String
  | .symbol name _ => [name]
  | .unary _ e _ => e.symbols
  | .binary _ l r _ => l.symbols ++ r.symbols
  | .literal .. | .here _ => []

/-- The symbols of an operand, which may itself be one. -/
def OperandForm.symbols : OperandForm → List String
  | .labelRef name => [name]
  | .expression e => e.symbols
  | _ => []

/-- The symbols and references to labels in an instruction. -/
def Instruction.symbols (i : Instruction) : List String :=
  i.directive.toList.flatMap Expr.symbols ++ i.operands.flatMap (·.form.symbols)

/-- Names without a keyword among them. -/
def NoKeyword (names : List String) : Prop := ∀ name ∈ names, isLabelKeyword name = false

theorem NoKeyword.append {xs ys : List String} :
    NoKeyword (xs ++ ys) ↔ NoKeyword xs ∧ NoKeyword ys := List.forall_mem_append

/-- A symbol that is no keyword is written alike in both styles. -/
theorem Style.symbol_eq {name : String} (h : isLabelKeyword name = false) (style : Style) :
    style.symbol name = name := by
  cases style with
  | outline => rfl
  | assembly => exact if_neg (by simp [h])

/-- An expression without such symbols is written alike. -/
theorem Expr.written_eq {e : Expr} (h : NoKeyword e.symbols) (style style' : Style) :
    e.written style = e.written style' := by
  induction e with
  | literal | here => rfl
  | symbol name pos =>
    have hname : isLabelKeyword name = false := h name (by simp [symbols])
    rw [written, written, Style.symbol_eq hname, Style.symbol_eq hname]
  | unary op e pos ih => rw [written, written, ih h]
  | binary op l r pos ihl ihr =>
    obtain ⟨hl, hr⟩ := NoKeyword.append.1 h
    rw [written, written, ihl hl, ihr hr]

/-- So is an operand. -/
theorem Operand.written_eq {o : Operand} (h : NoKeyword o.form.symbols) (style style' : Style) :
    o.written style = o.written style' := by
  obtain ⟨form, size, pos⟩ := o
  have hform : form.written style = form.written style' := by
    cases form with
    | labelRef name =>
      have hname : isLabelKeyword name = false := h name (by simp [OperandForm.symbols])
      exact (Style.symbol_eq hname style).trans (Style.symbol_eq hname style').symm
    | expression e => exact Expr.written_eq h style style'
    | _ => rfl
  rw [written, written, hform]

/-- So is an instruction, its label aside. -/
theorem Instruction.content_eq {i : Instruction} (h : NoKeyword i.symbols) (style style' : Style) :
    i.content style = i.content style' := by
  obtain ⟨hdirective, hoperands⟩ := NoKeyword.append.1 h
  unfold content arguments
  cases hd : i.directive with
  | some e =>
    have he : NoKeyword e.symbols := fun name hname => hdirective name (by simp [hd, hname])
    simp only [Expr.written_eq he style style']
  | none =>
    have hos : i.operands.map (Operand.written style) = i.operands.map (Operand.written style') := by
      refine List.map_congr_left fun o ho => Operand.written_eq (fun name hname => ?_) style style'
      exact hoperands name (List.mem_flatMap.2 ⟨o, ho, hname⟩)
    simp only [hos]

/-! ### Programs -/

/-- Lines under a heading; without lines there is no heading. -/
def headed (heading : String) (lines : List String) : List String :=
  if lines = [] then [] else heading :: lines

/-- A heading is one line more, unless there is nothing under it. -/
theorem length_headed (heading : String) (lines : List String) :
    (headed heading lines).length = if 0 < lines.length then lines.length + 1 else 0 := by
  cases lines <;> simp [headed]

/-- The two texts of a program, line by line. -/
structure Program.Renderings (p : Program) (outline assembly : String) : Prop where
  render_outline : (Format.text .outline).render p.toNode = .ok outline
  render_assembly : (Format.text .assembly).render p.toNode = .ok assembly
  /-- What either style writes for an instruction, at whatever level. -/
  written : ∀ i ∈ p.instructions, ∀ style level,
    i.toNode.render style level = .ok (i.written style)
  lines_outline : lines outline = "Program:" ::
    headed "  Labels:" (p.labels.map fun l => "    " ++ (l.name ++ ":")) ++
    headed "  Instructions:" (p.instructions.map fun i => "    " ++ i.written .outline)
  length_lines_outline : (lines outline).length =
    1 + (if 0 < p.labels.length then p.labels.length + 1 else 0) +
      (if 0 < p.instructions.length then p.instructions.length + 1 else 0)
  /-- Each line has its newline, and nothing stands behind the last. -/
  lines_assembly : lines assembly =
    (p.instructions.flatMap fun i =>
      i.label.toList.map (· ++ ":") ++ if i.isAnchor then [] else [i.written .assembly]) ++ [""]
  labels : p.labels.map (·.name) = p.instructions.filterMap (·.label)
  /-- Both styles write the same behind the blanks and the label. -/
  same : ∀ i ∈ p.instructions, NoKeyword i.symbols → ∃ content,
    i.written .outline = (i.label.elim "" fun l => "[" ++ l ++ "] ") ++ content ∧
    i.written .assembly = "    " ++ content

theorem block_eq_headed (level : Nat) (heading : String) (items : List String) :
    Style.block level heading items =
      headed (Style.indent level ++ heading) (items.map (Style.indent (level + 1) ++ ·)) := by
  cases items <;> simp [Style.block, headed]

/-- An outline is a heading for the labels and one for the instructions. -/
theorem Program.outline_eq (p : Program) :
    p.outline 0 = "Program:" ::
      headed "  Labels:" (p.labels.map fun l => "    " ++ (l.name ++ ":")) ++
      headed "  Instructions:" (p.instructions.map fun i => "    " ++ i.written .outline) := by
  have hlabels : Style.indent 1 ++ "Labels:" = "  Labels:" := by decide
  have hinstructions : Style.indent 1 ++ "Instructions:" = "  Instructions:" := by decide
  have hblanks : Style.indent 2 = "    " := by decide
  simp only [outline, block_eq_headed, Nat.zero_add, Nat.reduceAdd, hlabels, hinstructions, hblanks,
    List.map_map]
  rfl

theorem oneLine_headed {heading : String} {texts : List String} (hheading : OneLine heading)
    (h : ∀ t ∈ texts, OneLine t) : ∀ t ∈ headed heading texts, OneLine t := by
  unfold headed
  split
  · simp
  · exact List.forall_mem_cons.2 ⟨hheading, h⟩

section
variable {p : Program} (hp : p.Regular)
  (hmnemonic : ∀ i ∈ p.instructions, OneLine i.mnemonic)
include hp hmnemonic

/-- The lines of an outline are those put together for it. -/
theorem Program.Regular.lines_outline : lines ("\n".intercalate (p.outline 0)) = p.outline 0 := by
  refine lines_intercalate (by simp [Program.outline]) ?_
  rw [p.outline_eq, List.cons_append, List.forall_mem_cons]
  refine ⟨by decide, List.forall_mem_append.2 ⟨?_, ?_⟩⟩
  · refine oneLine_headed (by decide) fun t ht => ?_
    obtain ⟨l, hl, rfl⟩ := List.mem_map.1 ht
    exact .append (by decide) (.append (hp.label_names l hl).oneLine (by decide))
  · refine oneLine_headed (by decide) fun t ht => ?_
    obtain ⟨i, hi, rfl⟩ := List.mem_map.1 ht
    exact .append (by decide)
      (i.oneLine_written .outline (hp.instructions i hi) (hmnemonic i hi))

omit hmnemonic in
/-- A label is not empty, so it has a line. -/
theorem Program.Regular.labelLine_eq {i : Instruction} (hi : i ∈ p.instructions) :
    Style.labelLine i.label = i.label.toList.map (· ++ ":") := by
  cases hl : i.label with
  | none => rfl
  | some l =>
    exact if_neg ((hp.instructions i hi).label l hl).ne_empty

/-- The lines of assembly source are those of labels and of instructions. -/
theorem Program.Regular.lines_source :
    lines p.source = (p.instructions.flatMap fun i =>
      i.label.toList.map (· ++ ":") ++ if i.isAnchor then [] else [i.written .assembly]) ++ [""] := by
  have hsource : p.instructions.flatMap Instruction.lines = p.instructions.flatMap fun i =>
      i.label.toList.map (· ++ ":") ++ if i.isAnchor then [] else [i.written .assembly] := by
    refine List.flatMap_congr fun i hi => ?_
    rw [Instruction.lines, hp.labelLine_eq hi, i.written_assembly]
  rw [Program.source, Style.sourceText, join_newlines, hsource]
  refine lines_intercalate (by simp) ?_
  rw [List.forall_mem_append]
  refine ⟨fun t ht => ?_, by decide⟩
  obtain ⟨i, hi, ht⟩ := List.mem_flatMap.1 ht
  rcases List.mem_append.1 ht with ht | ht
  · obtain ⟨l, hl, rfl⟩ := List.mem_map.1 ht
    exact .append ((hp.instructions i hi).label l (by simpa using hl)).oneLine (by decide)
  · split at ht
    · cases ht
    · rw [List.mem_singleton.1 ht]
      exact i.oneLine_written .assembly (hp.instructions i hi) (hmnemonic i hi)

end

/-- A program that was parsed is written in both styles, line by line: in an outline each label and
each instruction has a line, in order, under the heading of its block; in source each label has a
line directly in front of the instruction that carries it, which has a line unless it is an anchor;
and where no symbol is spelled like a keyword both styles write the same for an instruction. -/
theorem renderings_of_parseSource {source : String} {p : Program}
    (h : parseSource source = .ok p) : ∃ outline assembly, p.Renderings outline assembly := by
  obtain ⟨ts, htokenize, hparse⟩ := exists_of_parseSource h
  have hts : FromLexer ts := fromLexer_of_tokenize htokenize
  have hp : p.Regular := regular_of_parseSource h
  have hsized : p.Sized := hp.sized
  have hmnemonic : ∀ i ∈ p.instructions, OneLine i.mnemonic := by
    intro i hi
    by_cases ha : i.isAnchor
    · have hanchor : i.mnemonic = anchorMnemonic := by simpa [Instruction.isAnchor] using ha
      rw [hanchor]
      decide
    · obtain ⟨name, hname, heq⟩ := mnemonic_of_from hts (from_of_parse hparse) hi ha
      exact heq ▸ oneLine_upper hname
  have hlines := (hp.lines_outline hmnemonic).trans p.outline_eq
  exact ⟨"\n".intercalate (p.outline 0), p.source,
    { render_outline := render_text rfl (hsized.render_outline 0)
      render_assembly := render_program hsized
      written := fun i hi style level => i.render_written style level (hsized i hi)
      lines_outline := hlines
      length_lines_outline := by
        rw [hlines]
        simp only [List.cons_append, List.length_cons, List.length_append, length_headed,
          List.length_map]
        omega
      lines_assembly := hp.lines_source hmnemonic
      labels := hp.in_order
      same := by
        intro i hi hsymbols
        refine ⟨i.content .outline, ?_, ?_⟩
        · cases hl : i.label with
          | none => simp [Instruction.written, Style.lead, hl]
          | some l =>
            have hne : l ≠ "" := ((hp.instructions i hi).label l hl).ne_empty
            simp [Instruction.written, Style.lead, hl, hne]
        · rw [Instruction.content_eq hsymbols .outline .assembly]
          rfl }⟩

/-- Two labels, an anchor, and a symbol that the styles write differently. -/
theorem renderings_of_parseSource_of_keyword :
    ∃ p, parseSource "a: jmp (db) ; up\nb:" = .ok p ∧
      ∃ outline assembly, p.Renderings outline assembly := by
  have h : parseSource "a: jmp (db) ; up\nb:" =
      .ok ⟨[⟨"JMP", [⟨.labelRef "db", none, ⟨1, 8⟩⟩], some "a", some "; up", none, ⟨1, 4⟩⟩,
        .anchor ⟨"b", ⟨2, 1⟩⟩], [⟨"a", ⟨1, 1⟩⟩, ⟨"b", ⟨2, 1⟩⟩]⟩ := by
    decide +kernel
  exact ⟨_, h, renderings_of_parseSource h⟩

end IntelAsm

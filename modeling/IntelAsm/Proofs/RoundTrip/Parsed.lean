import IntelAsm.Proofs.Lexer.Scan
import IntelAsm.Proofs.RoundTrip.Canonical
import IntelAsm.Proofs.Text.Case

/-!
# Programs that the parser builds

What comes from the words of a source is well formed, since those words have the shapes of their
kinds: `wellFormed_of_parse` puts together where the parts of a program come from and what the lexer
makes. A mnemonic is a name in upper case. Apart from letters beyond ASCII that is a name again,
which keeps anchors apart from the instructions that are read.
-/

namespace IntelAsm

/-- The tokens of a source: words of the lexer, and the end marker. -/
def FromLexer (ts : List Token) : Prop := ∀ t ∈ ts, t.toWord.Lexed ∨ t.kind = .eof

/-- All tokens of a source but the last come from the reader of words. -/
theorem fromLexer_of_tokenize {source : String} {ts : List Token} (h : tokenize source = .ok ts) :
    FromLexer ts := by
  obtain ⟨vs, rfl, hvs⟩ := lexed_of_scan (tokenize_eq_ok.1 h)
  intro t ht
  rcases List.mem_append.1 ht with ht | ht
  · exact .inl (hvs t ht)
  · exact .inr (by rw [List.mem_singleton.1 ht])

/-- A program of a source is that of its tokens. -/
theorem exists_of_parseSource {source : String} {p : Program} (h : parseSource source = .ok p) :
    ∃ ts, tokenize source = .ok ts ∧ parse ts = .ok p := by
  unfold parseSource at h
  cases hts : tokenize source with
  | error e => simp [hts] at h
  | ok ts =>
    refine ⟨ts, rfl, ?_⟩
    cases hp : parse ts with
    | error e => simp [hts, hp] at h
    | ok q => simpa [hts, hp] using h

section
variable {ts : List Token} (hts : FromLexer ts)
include hts

theorem FromLexer.lexed {w : Word} {pos : Pos} (h : ⟨w, pos⟩ ∈ ts) (hk : w.kind ≠ .eof) : w.Lexed :=
  (hts _ h).resolve_right hk

/-! ### Words of the lexer -/

/-- An identifier among them is a name. -/
theorem isName_of_mem {name : String} {pos : Pos} (h : ⟨⟨.ident, name⟩, pos⟩ ∈ ts) :
    IsName name := by
  cases hts.lexed h (by simp) with
  | ident hw hr => exact ⟨hw, hr⟩

theorem isName_of_spelled {name : String} (h : Spelled ts .ident name) : IsName name :=
  h.elim fun _ h => isName_of_mem hts h

theorem isRegister_of_spelled {name : String} (h : Spelled ts .register name) :
    isRegister name := by
  obtain ⟨pos, h⟩ := h
  cases hts.lexed h (by simp) with
  | register hw hr => exact hr

/-- A string among them can stand between quotes. -/
theorem isQuotable_of_spelled {text : String} (h : Spelled ts .string text) :
    Lexeme.IsQuotable text.toList := by
  obtain ⟨pos, h⟩ := h
  cases hts.lexed h (by simp) with
  | string h => exact h

theorem isComment_of_spelled {text : String} (h : Spelled ts .comment text) :
    Lexeme.IsComment text.toList := by
  obtain ⟨pos, h⟩ := h
  cases hts.lexed h (by simp) with
  | comment h => exact h

/-- A mark among them is spelled with its character. -/
theorem text_of_mark {m : Mark} {text : String} {pos : Pos}
    (h : ⟨⟨.mark m, text⟩, pos⟩ ∈ ts) : text = String.singleton m.char := by
  cases hts.lexed h (by simp) with
  | mark m => rfl

/-- A number read from them can be written as a literal. -/
theorem isLiteral_of_numbered {v : Int} {isHex : Bool} {pos : Pos}
    (h : Numbered ts v isHex pos) : IsLiteral v isHex := by
  obtain ⟨w, hmem, hk, hv, rfl⟩ := h
  have hne : w.kind ≠ .eof := fun he => by
    rw [he] at hk
    cases hk
  obtain ⟨hlow, hhigh, hneg⟩ := (hts.lexed hmem hne).isNumeral.value_mem hk hv
  exact ⟨hlow, hhigh, fun h => by simpa using hneg h⟩

/-! ### Parts of programs -/

/-- By induction on the expression: its leaves come from the tokens. -/
theorem wellFormed_of_from {e : Expr} (he : e.From ts) : e.WellFormed IsName := by
  induction e with
  | literal v h pos => exact isLiteral_of_numbered hts he
  | symbol name pos => exact isName_of_mem hts he
  | here pos => trivial
  | unary op e pos ih =>
    obtain ⟨⟨m, hm, hop⟩, he⟩ := he
    exact ⟨⟨m, hm, text_of_mark hts hop⟩, ih he⟩
  | binary op l r pos ihl ihr =>
    obtain ⟨⟨m, hm, p, hop⟩, -, hl, hr⟩ := he
    exact ⟨⟨m, hm, text_of_mark hts hop⟩, ihl hl, ihr hr⟩

/-- An address that was read has a term at least, and its registers are registers. -/
theorem address_wellFormed {a : Address} (ha : a.From ts) (ht : a.HasTerm) : a.WellFormed where
  base r h := isRegister_of_spelled hts (ha.base r h)
  index r h := isRegister_of_spelled hts (ha.index r h)
  segment r h := isRegister_of_spelled hts (ha.segment r h)
  scale := by
    rcases ha.scale with h | ⟨-, isHex, pos, h⟩
    · rw [h]
      decide
    · have hl := isLiteral_of_numbered hts h
      exact ⟨hl.lower, hl.upper⟩
  scale_eq_one h := by
    rcases ha.scale with h1 | ⟨hi, -⟩
    · exact h1
    · simp [h] at hi
  displacement d h := by
    obtain ⟨v, isHex, pos, hv, rfl | rfl⟩ := ha.displacement d h
    · have hl := isLiteral_of_numbered hts hv
      exact ⟨hl.lower, hl.upper⟩
    · exact Word.signedWord_mem _
  hasTerm := ht

/-- An operand that was read has parts that can be written. -/
theorem form_wellFormed {form : OperandForm} (hf : form.From ts) : form.WellFormed IsName := by
  cases form with
  | register name => exact isRegister_of_spelled hts hf
  | immediate v h => exact hf.elim fun _ h => isLiteral_of_numbered hts h
  | memory a => exact address_wellFormed hts hf.1 hf.2
  | labelRef name => exact isName_of_spelled hts hf
  | string text => exact isQuotable_of_spelled hts hf
  | expression e => exact ⟨wellFormed_of_from hts hf.1, hf.2⟩

/-- No name of a source is in upper case what marks an anchor. -/
theorem namesApart : NamesApart ts := by
  intro t ht hk he
  have hname : IsName t.text := by
    have hmem : (⟨⟨.ident, t.text⟩, t.pos⟩ : Token) ∈ ts := hk ▸ ht
    exact isName_of_mem hts hmem
  have hw := isWordlike_upper hname.1
  rw [he] at hw
  exact absurd (hw.starts '.' (by decide) (by decide)) (by decide)

theorem anchor_wellFormed {l : Label} (hl : l.From ts) :
    (Instruction.anchor l).WellFormed IsName where
  label name h := by
    cases h
    exact isName_of_mem hts hl
  anchor _ := ⟨rfl, rfl, rfl, rfl⟩
  directive_isSome := by
    show false = isEquate anchorMnemonic
    decide
  operands_eq _ := rfl
  directive _ h := by cases h
  operands _ h := by cases h
  comment _ h := by cases h

/-- So has an instruction, with a label that is a name. -/
theorem instruction_wellFormed {i : Instruction} {label : Option String} (hi : i.From ts label)
    (hl : ∀ l, label = some l → IsName l) : i.WellFormed IsName where
  label l h := hl l (hi.label_eq ▸ h)
  anchor h := absurd h (hi.not_isAnchor (namesApart hts))
  directive_isSome := hi.directive_isSome
  operands_eq := hi.operands_eq
  directive e h := wellFormed_of_from hts (hi.directive e h)
  operands o h := ⟨form_wellFormed hts (hi.operands o h).form, (hi.operands o h).size⟩
  comment c h := isComment_of_spelled hts (hi.comment c h)

/-- A program that is parsed from a source is well formed. -/
theorem wellFormed_of_parse {p : Program} (hp : p.From ts) : p.WellFormed IsName where
  in_order := hp.in_order
  anchors := hp.anchors (namesApart hts)
  instructions i hi := by
    obtain ⟨l, hl, rfl⟩ | ⟨label, hfrom⟩ := hp.instructions i hi
    · exact anchor_wellFormed hts hl
    · refine instruction_wellFormed hts hfrom fun l hl => ?_
      -- the labels of instructions are those that were declared
      have hmem : l ∈ p.labels.map (·.name) := by
        rw [hp.in_order]
        exact List.mem_filterMap.2 ⟨i, hi, hfrom.label_eq.trans hl⟩
      obtain ⟨l', hl', rfl⟩ := List.mem_map.1 hmem
      exact isName_of_mem hts (hp.labels l' hl')

/-- The mnemonic of an instruction that was read is a name in upper case. -/
theorem mnemonic_of_from {p : Program} (hp : p.From ts) {i : Instruction}
    (hi : i ∈ p.instructions) (ha : ¬i.isAnchor) :
    ∃ name, IsName name ∧ i.mnemonic = Text.upper name := by
  obtain ⟨l, -, rfl⟩ | ⟨label, hfrom⟩ := hp.instructions i hi
  · simp [Instruction.isAnchor, Instruction.anchor] at ha
  · obtain ⟨name, hmem, hname⟩ := hfrom.mnemonic
    exact ⟨name, isName_of_mem hts hmem, hname⟩

end

end IntelAsm

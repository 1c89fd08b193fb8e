import IntelAsm.Proofs.RoundTrip.Parsed

/-!
# Parsed programs are well formed

A program that was parsed has the shape that `Program.WellFormed` demands of its instructions, and
its label declarations are names too (`regular_of_parseSource`). The texts of its strings are told
here by what stands in them unescaped, whichever quotes stood around them (`isQuotable_iff`).
-/

namespace IntelAsm

namespace Lexeme

/-! ### Texts of strings -/

/-- The characters of a text that neither escape nor are escaped. -/
def unescaped : List Char → List Char
  | [] => []
  | c :: cs =>
    if c = '\\' then
      match cs with
      | [] => []
      | _ :: ds => unescaped ds
    else c :: unescaped cs

/-- Whether a backslash at the end of a text would escape what follows. -/
def endsInEscape : List Char → Bool
  | [] => false
  | c :: cs =>
    if c = '\\' then
      match cs with
      | [] => true
      | _ :: ds => endsInEscape ds
    else endsInEscape cs

section
variable {c : Char}

@[simp] theorem unescaped_escape (d : Char) (ds : List Char) :
    unescaped ('\\' :: d :: ds) = unescaped ds := by
  rw [unescaped.eq_def]
  rfl

theorem unescaped_cons (hc : c ≠ '\\') (cs : List Char) :
    unescaped (c :: cs) = c :: unescaped cs := by
  rw [unescaped.eq_def]
  exact if_neg hc

@[simp] theorem endsInEscape_escape (d : Char) (ds : List Char) :
    endsInEscape ('\\' :: d :: ds) = endsInEscape ds := by
  rw [endsInEscape.eq_def]
  rfl

theorem endsInEscape_cons (hc : c ≠ '\\') (cs : List Char) :
    endsInEscape (c :: cs) = endsInEscape cs := by
  rw [endsInEscape.eq_def]
  exact if_neg hc

end

/-- The text of a string: it is whole on one line, and one of the two quotes can stand around it. -/
structure IsStringText (cs : List Char) : Prop where
  one_line : '\n' ∉ cs
  whole : endsInEscape cs = false
  quotes : ¬('"' ∈ unescaped cs ∧ '\'' ∈ unescaped cs)

theorem fitsBetween_iff {quote : Char} (hq : quote ≠ '\\') (cs : List Char) :
    fitsBetween quote cs ↔ '\n' ∉ cs ∧ endsInEscape cs = false ∧ quote ∉ unescaped cs := by
  fun_induction fitsBetween quote cs with
  | case1 => simp [endsInEscape, unescaped]
  | case2 c cs hc =>
    simp only [Bool.or_eq_true, decide_eq_true_eq] at hc
    rcases hc with rfl | rfl
    · simp [unescaped_cons hq]
    · simp
  | case3 hc => simp [endsInEscape]
  | case4 d ds hc ih =>
    have hd : '\n' ∉ '\\' :: d :: ds ↔ d ≠ '\n' ∧ '\n' ∉ ds := by simp [eq_comm]
    rw [Bool.and_eq_true, decide_eq_true_eq, ih, endsInEscape_escape, unescaped_escape, hd,
      and_assoc]
  | case5 c cs hc hb ih =>
    simp only [Bool.or_eq_true, decide_eq_true_eq, not_or] at hc
    rw [ih, endsInEscape_cons hb, unescaped_cons hb]
    simp [Ne.symm hc.1, Ne.symm hc.2]

/-- Quotable texts are those that strings have. -/
theorem isQuotable_iff (cs : List Char) : IsQuotable cs ↔ IsStringText cs := by
  unfold IsQuotable
  rw [fitsBetween_iff (by decide), fitsBetween_iff (by decide)]
  constructor
  · rintro (⟨hn, hw, hq⟩ | ⟨hn, hw, hq⟩)
    · exact ⟨hn, hw, fun h => hq h.1⟩
    · exact ⟨hn, hw, fun h => hq h.2⟩
  · rintro ⟨hn, hw, hq⟩
    by_cases hd : '"' ∈ unescaped cs
    · exact .inr ⟨hn, hw, fun hs => hq ⟨hd, hs⟩⟩
    · exact .inl ⟨hn, hw, hd⟩

end Lexeme

/-- A program whose parts all have the shape of what is read for them: the instructions and what
they hold (`WellFormed`), the label declarations, the sizes, and the texts of strings. -/
structure Program.Regular (p : Program) : Prop extends p.WellFormed IsName where
  label_names : ∀ l ∈ p.labels, IsName l.name
  sizes : ∀ i ∈ p.instructions, ∀ o ∈ i.operands, ∀ n, o.size = some n → n ∈ [8, 16, 32, 64]
  strings : ∀ i ∈ p.instructions, ∀ o ∈ i.operands, ∀ text, o.form = .string text →
    Lexeme.IsStringText text.toList

theorem Width.bits_mem (w : Width) : w.bits ∈ [8, 16, 32, 64] := by
  cases w <;> decide

/-- A program that was parsed is regular. -/
theorem regular_of_parseSource {source : String} {p : Program} (h : parseSource source = .ok p) :
    p.Regular := by
  obtain ⟨ts, htokenize, hparse⟩ := exists_of_parseSource h
  have hts : FromLexer ts := fromLexer_of_tokenize htokenize
  have hfrom : p.From ts := from_of_parse hparse
  have hwf : p.WellFormed IsName := wellFormed_of_parse hts hfrom
  refine { hwf with label_names := ?_, sizes := ?_, strings := ?_ }
  · exact fun l hl => isName_of_mem hts (hfrom.labels l hl)
  · intro i hi o ho n hn
    obtain ⟨w, rfl⟩ := ((hwf.instructions i hi).operands o ho).size n hn
    exact w.bits_mem
  · intro i hi o ho text htext
    have hform : o.form.WellFormed IsName := ((hwf.instructions i hi).operands o ho).form
    rw [htext] at hform
    exact (Lexeme.isQuotable_iff _).1 hform

/-- An equate, an address with all its parts, and a string with an escaped quote. -/
theorem regular_of_lines : ∃ p,
    parseSource "n equ 2*(k-1) ; k\nmov dword ptr es:[eax+ebx*4-8], -1\n  db 'it\\'s', 0xFF" =
      .ok p ∧ p.Regular := by
  have h :
      parseSource
        "n equ 2*(k-1) ; k\nmov dword ptr es:[eax+ebx*4-8], -1\n  db 'it\\'s', 0xFF" = .ok
      ⟨[⟨"EQU", [], some "n", some "; k",
          some (.binary "*" (.literal 2 false ⟨1, 7⟩) (.binary "-" (.symbol "k" ⟨1, 10⟩)
            (.literal 1 false ⟨1, 12⟩) ⟨1, 10⟩) ⟨1, 7⟩), ⟨1, 3⟩⟩,
        ⟨"MOV", [⟨.memory ⟨some "eax", some "ebx", 4, some (-8), some "es"⟩, some 32, ⟨2, 5⟩⟩,
          ⟨.expression (.unary "-" (.literal 1 false ⟨2, 34⟩) ⟨2, 33⟩), none, ⟨2, 33⟩⟩],
          none, none, none, ⟨2, 1⟩⟩,
        ⟨"DB", [⟨.string "it\\'s", none, ⟨3, 6⟩⟩, ⟨.immediate 255 true, none, ⟨3, 15⟩⟩],
          none, none, none, ⟨3, 3⟩⟩], [⟨"n", ⟨1, 1⟩⟩]⟩ := by decide +kernel
  exact ⟨_, h, regular_of_parseSource h⟩

/-- What a statement is can be told from its mnemonic: just the ones that give a name to an
expression hold one, they hold no operands, and they are no anchors. -/
theorem Instruction.WellFormed.isDirective_eq {Name : String → Prop} {i : Instruction}
    (hi : i.WellFormed Name) :
    i.isDirective = i.directive.isSome ∧
      (i.isDirective = true → i.operands = [] ∧ i.isAnchor = false) := by
  have hsome : i.directive.isSome = i.isDirective := hi.directive_isSome
  refine ⟨hsome.symm, fun hdirective => ⟨hi.operands_eq hdirective, ?_⟩⟩
  cases hanchor : i.isAnchor with
  | false => rfl
  | true =>
    obtain ⟨-, -, hnone, -⟩ := hi.anchor hanchor
    rw [← hsome, hnone] at hdirective
    cases hdirective

/-- So it is in every program that was parsed. -/
theorem isDirective_of_parseSource {source : String} {p : Program}
    (h : parseSource source = .ok p) {i : Instruction} (hi : i ∈ p.instructions) :
    i.isDirective = i.directive.isSome ∧
      (i.isDirective = true → i.operands = [] ∧ i.isAnchor = false) := by
  obtain ⟨ts, htokenize, hparse⟩ := exists_of_parseSource h
  have hwf : p.WellFormed IsName :=
    wellFormed_of_parse (fromLexer_of_tokenize htokenize) (from_of_parse hparse)
  exact (hwf.instructions i hi).isDirective_eq

end IntelAsm

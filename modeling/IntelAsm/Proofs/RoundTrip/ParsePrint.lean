import IntelAsm.Proofs.RoundTrip.Running

/-!
# Parsing undoes printing

A canonical program is rendered as a source that is parsed as the same program, and that program is
rendered as the same source (`roundTrips_of_canonical`). Canonical programs need not come from the
parser; with the names of the lexer (`IsName`) they include what it builds where mnemonics respell,
and with identifiers of ASCII (`IsIdentifier`) they can be told by their characters.
-/

namespace IntelAsm

open Respelling (unplaced)

/-- A program survives being written as assembly source: the source is parsed as the same program,
places aside, and that one is written as the same source. -/
def Program.RoundTrips (p : Program) : Prop :=
  ∃ text q, Format.render (.text .assembly) p.toNode = .ok text ∧ parseSource text = .ok q ∧
    q.toNode.same p.toNode ∧ Format.render (.text .assembly) q.toNode = .ok text

/-! ### Sources without places -/

@[simp] theorem source_unplaced_expr (e : Expr) : (unplaced.expr e).source = e.source := by
  induction e with
  | literal v h pos => rfl
  | symbol name pos => rfl
  | here pos => rfl
  | unary op e pos ih => simp [Respelling.expr, Expr.source, ih]
  | binary op l r pos ihl ihr => simp [Respelling.expr, Expr.source, ihl, ihr]

@[simp] theorem source_unplaced_operand (o : Operand) :
    (unplaced.operand o).source = o.source := by
  obtain ⟨form, size, pos⟩ := o
  cases form <;> simp [Respelling.operand, Respelling.form, Operand.source, OperandForm.source]

@[simp] theorem lines_unplaced (i : Instruction) :
    (unplaced.instruction i).lines = i.lines := by
  obtain ⟨m, os, l, c, d, pos⟩ := i
  have hos : (os.map unplaced.operand).map Operand.source = os.map Operand.source := by
    simp [List.map_map, Function.comp_def]
  cases d <;>
    simp [Instruction.lines, Instruction.line, Instruction.body, Instruction.isAnchor,
      Respelling.instruction, hos]

@[simp] theorem source_unplaced (p : Program) : (unplaced.program p).source = p.source := by
  simp [Program.source, Respelling.program, List.flatMap_map]

@[simp] theorem sized_unplaced (p : Program) : (unplaced.program p).Sized ↔ p.Sized := by
  simp [Program.Sized, Respelling.program, Respelling.instruction, Respelling.operand]

/-- Programs that are equal without places are rendered alike. -/
theorem render_of_unplaced_eq {p q : Program} (h : unplaced.program q = unplaced.program p)
    (hp : p.Sized) : Format.render (.text .assembly) q.toNode = .ok p.source := by
  have hq : q.Sized := by
    rw [← sized_unplaced, h, sized_unplaced]
    exact hp
  rw [render_program hq, ← source_unplaced q, h, source_unplaced]

/-! ### Tokens without places -/

/-- The places of tokens matter to the places of the program alone. -/
theorem parse_unplaced (ts : List Token) :
    parse (tokensOf (ts.map (·.toWord))) =
      ((parse ts).map unplaced.program).mapError unplaced.error := by
  have hts : tokensOf (ts.map (·.toWord)) = ts.map unplaced.token := by
    rw [tokensOf, List.map_map]
    rfl
  rw [hts, parse_respell Respelling.lawful_unplaced]

/-- The words of a canonical program form the program. -/
theorem parse_words {p : Program} (hp : p.Canonical IsName) :
    parse (tokensOf (p.instructions.flatMap Instruction.words ++ [⟨.eof, ""⟩])) =
      .ok (unplaced.program p) := by
  have hm : ∀ i ∈ p.instructions, ¬i.isAnchor → Text.upper i.mnemonic = i.mnemonic :=
    fun i hi ha => (hp.respells i hi ha).upper
  obtain ⟨s', h⟩ := Parser.run_program hp.instructions hm hp.anchors
    (s := .ofTokens (tokensOf (p.instructions.flatMap Instruction.words ++ [⟨.eof, ""⟩])))
    (by simp [Parser.ofTokens]) rfl
  have hlabels : (p.instructions.filterMap (·.label)).map (fun l => (⟨l, {}⟩ : Label)) =
      p.labels.map unplaced.label := by
    rw [← hp.in_order, List.map_map]
    rfl
  rw [parse, h, hlabels]
  rfl

theorem parseSource_of_tokenize {source : String} {ts : List Token}
    (h : tokenize source = .ok ts) : parseSource source = (parse ts).mapError .grammar := by
  rw [parseSource, h]
  dsimp only
  cases parse ts <;> rfl

/-- The source of a canonical program is parsed as the program. -/
theorem parseSource_source {p : Program} (hp : p.Canonical IsName) :
    ∃ q, parseSource p.source = .ok q ∧ unplaced.program q = unplaced.program p := by
  have htokens := tokenize_words p.source
  rw [Program.source, words_source hp.instructions hp.respells, ← Program.source] at htokens
  obtain ⟨ts, htokenize, hts⟩ := htokens
  have hparse := parse_unplaced ts
  rw [hts, parse_words hp] at hparse
  rw [parseSource_of_tokenize htokenize]
  cases hq : parse ts with
  | ok q =>
    rw [hq] at hparse
    exact ⟨q, rfl, (Except.ok.inj hparse).symm⟩
  | error e =>
    rw [hq] at hparse
    cases hparse

/-- Canonical programs with the names of the lexer round-trip. -/
theorem Program.Canonical.roundTrips {p : Program} (hp : p.Canonical IsName) : p.RoundTrips := by
  obtain ⟨q, hparse, hq⟩ := parseSource_source hp
  have hsized : p.Sized := hp.sized
  exact ⟨p.source, q, render_program hsized, hparse, program_same_iff.2 hq,
    render_of_unplaced_eq hq hsized⟩

/-! ### Identifiers of ASCII -/

/-- An identifier of ASCII that names no register, whatever the letter case. -/
structure IsIdentifier (s : String) : Prop where
  starts : s.toList.head?.any fun c => c.isAlpha || c = '_'
  continues : ∀ c ∈ s.toList, c.isAlphanum || c = '_'
  no_register : isRegister s = false

instance (s : String) : Decidable (IsIdentifier s) :=
  decidable_of_iff (s.toList.head?.any (fun c => c.isAlpha || c = '_') ∧
      s.toList.all (fun c => c.isAlphanum || c = '_') ∧ isRegister s = false)
    ⟨fun h => ⟨h.1, List.all_eq_true.1 h.2.1, h.2.2⟩,
      fun h => ⟨h.starts, List.all_eq_true.2 h.continues, h.no_register⟩⟩

theorem isAscii_of_isAlphanum {c : Char} (h : c.isAlphanum || c = '_') : Text.isAscii c := by
  have between {lo hi : UInt32} (hhi : hi.toNat < 0x80) (h : lo ≤ c.val ∧ c.val ≤ hi) :
      Text.isAscii c :=
    decide_eq_true (Nat.lt_of_le_of_lt (UInt32.le_iff_toNat_le.1 h.2) hhi)
  rcases Bool.or_eq_true_iff.1 h with h | h
  · rcases Bool.or_eq_true_iff.1 h with h | h
    · rcases Bool.or_eq_true_iff.1 h with h | h
      · exact between (by decide) (of_decide_eq_true h)
      · obtain ⟨h1, h2⟩ := Bool.and_eq_true_iff.1 h
        exact between (by decide) ⟨of_decide_eq_true h1, of_decide_eq_true h2⟩
    · obtain ⟨h1, h2⟩ := Bool.and_eq_true_iff.1 h
      exact between (by decide) ⟨of_decide_eq_true h1, of_decide_eq_true h2⟩
  · rw [of_decide_eq_true h]
    decide

theorem IsIdentifier.isName {s : String} (h : IsIdentifier s) : IsName s := by
  have hstarts : ∀ n < 0x80, ((Char.ofNat n).isAlpha || Char.ofNat n = '_') →
      Lexeme.startsWord (Char.ofNat n) := by decide
  have hcontinues : ∀ n < 0x80, ((Char.ofNat n).isAlphanum || Char.ofNat n = '_') →
      Lexeme.continuesWord (Char.ofNat n) := by decide
  refine ⟨⟨?_, fun c hc => ?_⟩, h.no_register⟩
  · obtain ⟨c, hc, hstart⟩ := (Option.any_eq_true _ _).1 h.starts
    have hmem : c ∈ s.toList := List.mem_of_mem_head? hc
    refine (Option.any_eq_true _ _).2 ⟨c, hc, ?_⟩
    exact Text.of_isAscii (P := fun c => (c.isAlpha || c = '_') → Lexeme.startsWord c) hstarts
      (isAscii_of_isAlphanum (h.continues c hmem)) hstart
  · exact Text.of_isAscii (P := fun c => (c.isAlphanum || c = '_') → Lexeme.continuesWord c)
      hcontinues (isAscii_of_isAlphanum (h.continues c hc)) (h.continues c hc)

/-- Parsing undoes printing on canonical programs with identifiers of ASCII. -/
theorem roundTrips_of_canonical {p : Program} (hp : p.Canonical IsIdentifier) : p.RoundTrips :=
  (hp.mono fun _ h => h.isName).roundTrips

/-- A label that stands alone, an equate with a symbol spelled like a keyword, and an operand of the
least displacement. -/
def extremes : Program where
  labels := [⟨"top", {}⟩, ⟨"Limit", {}⟩]
  instructions := [
    ⟨anchorMnemonic, [], some "top", none, none, {}⟩,
    ⟨"EQU", [], some "Limit", none,
      some (.unary "-" (.binary "*" (.symbol "dw" {}) (.literal Numeral.minSigned true {}) {}) {}),
      {}⟩,
    ⟨"MOV", [
      ⟨.memory ⟨some "RAX", some "rcx", -4, some Numeral.minSigned, some "fs"⟩, some 64, {}⟩,
      ⟨.labelRef "db", none, {}⟩,
      ⟨.string "\\'\"", none, {}⟩], none, some "; note", none, {}⟩]

theorem extremes_wellFormed : ∀ i ∈ extremes.instructions, i.WellFormed IsIdentifier := by
  simp only [extremes, List.forall_mem_cons]
  refine ⟨?_, ?_, ?_, by simp⟩
  · exact ⟨by simp; decide, by simp, by decide, by simp, by simp, by simp, by simp⟩
  · refine ⟨by simp; decide, by simp [Instruction.isAnchor, anchorMnemonic], by decide, by simp,
      ?_, by simp, by simp⟩
    rintro e ⟨⟩
    have hsymbol : IsIdentifier "dw" := by decide
    exact ⟨⟨.minus, by decide, by decide⟩, ⟨.star, by decide, by decide⟩, hsymbol,
      ⟨by decide, by decide, by simp⟩⟩
  · refine ⟨by simp, by simp [Instruction.isAnchor, anchorMnemonic], by decide,
      fun h => absurd h (by decide), by simp, ?_, ?_⟩
    · simp only [List.forall_mem_cons]
      refine ⟨⟨?_, fun n h => ⟨.qword, (Option.some.inj h).symm⟩⟩, ⟨?_, by simp⟩, ⟨?_, by simp⟩,
        by simp⟩
      · exact ⟨by simp; decide, by simp; decide, by simp; decide, by decide, by simp,
          by simp; decide, .inl rfl⟩
      · show IsIdentifier "db"
        decide
      · exact .inr (by decide)
    · rintro c ⟨⟩
      exact ⟨⟨';', _, .inl rfl, rfl⟩, by decide⟩

theorem extremes_canonical : extremes.Canonical IsIdentifier where
  in_order := rfl
  anchors := by simp [extremes, AnchorsClosed, labelAhead, Instruction.isAnchor, anchorMnemonic]
  instructions := extremes_wellFormed
  respells := by
    simp only [extremes, List.forall_mem_cons]
    refine ⟨fun h => absurd rfl h, fun _ => ⟨by decide, by decide, fun h => absurd h.1 (by decide)⟩,
      fun _ => ⟨by decide, by decide, fun h => absurd h.1 (by decide)⟩, by simp⟩

theorem roundTrips_extremes : extremes.Canonical IsIdentifier ∧ extremes.RoundTrips :=
  ⟨extremes_canonical, roundTrips_of_canonical extremes_canonical⟩

end IntelAsm

import IntelAsm.Proofs.RoundTrip.Lines
import IntelAsm.Proofs.RoundTrip.Reading

/-!
# Running through the words of a program

What the parser makes of the lines of an instruction. It reads the label of an instruction on a line
of its own, so between two lines that label is pending; counted as the anchor that it may become
(`Parser.flushed`), it is part of what has been read. With that, the lines of one instruction add
exactly the instruction (`exists_added`), provided that an instruction without a label finds no
pending one, and a run through the words of a program adds its instructions and labels in order
(`run_program`).
-/

namespace IntelAsm

open Respelling (unplaced)

/-! ### Instructions -/

theorem startsForm_of_startsExpr {w : Word} (h : w.startsExpr) : w.startsForm := by
  simp [Word.startsForm, h]

/-- A word that may stand behind a mnemonic: the statement goes on with it as an instruction. -/
structure Word.FollowsMnemonic (w : Word) : Prop where
  no_colon : w.kind ≠ .mark .colon
  no_keyword : ¬(w.kind = .ident ∧ isLabelKeyword w.text)

/-- An operand may stand behind a mnemonic. -/
theorem Word.of_startsForm {w : Word} (h : w.startsForm) :
    w.FollowsMnemonic ∧ w.kind.endsLine = false := by
  simp only [startsForm, Bool.or_eq_true, decide_eq_true_eq] at h
  rcases h with ((h | h) | h) | h
  · unfold startsExpr at h
    split at h
    case h_3 hk => exact ⟨⟨by simp [hk], by simpa [hk] using h⟩, by simp [hk, TokenKind.endsLine]⟩
    case h_8 => cases h
    all_goals
      next hk => exact ⟨⟨by simp [hk], by simp [hk]⟩, by simp [hk, TokenKind.endsLine]⟩
  all_goals exact ⟨⟨by simp [h], by simp [h]⟩, by simp [h, TokenKind.endsLine]⟩

/-- So may the words of an operand. -/
theorem operand_words_cons {o : Operand} (ho : o.WellFormed IsName) :
    ∃ w ws, o.words = w :: ws ∧ w.FollowsMnemonic ∧ w.kind.endsLine = false := by
  obtain ⟨w, ws, hw, hs⟩ := startsForm_words ho.form
  unfold Operand.words sizeWords
  split
  · exact ⟨_, _, rfl, ⟨by simp [Width.specifier], by simp [Width.specifier]⟩, rfl⟩
  · exact ⟨w, ws, hw, Word.of_startsForm hs⟩

/-- And so may what ends an instruction. -/
theorem trailWords_cons (comment : Option String) :
    ∃ w ws, trailWords comment = w :: ws ∧ w.FollowsMnemonic ∧ w.kind.endsLine := by
  cases comment with
  | none => exact ⟨_, _, rfl, ⟨by simp [lineBreak], by simp [lineBreak]⟩, rfl⟩
  | some c => exact ⟨_, _, rfl, ⟨by simp, by simp⟩, rfl⟩

/-- An instruction starts with its mnemonic, and nothing makes a label of it. -/
theorem lineWords_cons {i : Instruction} (hi : i.WellFormed IsName) :
    ∃ w ws, i.lineWords = ⟨.ident, i.mnemonic⟩ :: w :: ws ∧ w.FollowsMnemonic := by
  obtain ⟨u, us, hu, hfollows, -⟩ := trailWords_cons i.comment
  unfold Instruction.lineWords Instruction.bodyWords
  cases hd : i.directive with
  | some e =>
    obtain ⟨w, ws, hw, hs⟩ := startsExpr_words (hi.directive e hd)
    refine ⟨w, ws ++ trailWords i.comment, by simp [hw], ?_⟩
    exact (Word.of_startsForm (startsForm_of_startsExpr hs)).1
  | none =>
    cases ho : i.operands with
    | nil => exact ⟨u, us, by simp [hu], hfollows⟩
    | cons o os =>
      obtain ⟨w, ws, hw, hf, -⟩ := operand_words_cons (hi.operands o (by simp [ho]))
      exact ⟨w, ws ++ moreWords os ++ trailWords i.comment, by simp [hw], hf⟩

namespace Parse

/-- The comment is read up to the line break. -/
theorem takes_comment (text : Option String) (rest : List Token) :
    Takes comment (tokensOf (trailWords text) ++ rest) (⟨lineBreak, {}⟩ :: rest) text := by
  cases text with
  | none => exact takes_bind takes_current takes_pure
  | some c => exact takes_bind takes_current (takes_bind takes_advance takes_pure)

theorem takes_lineEnd (rest : List Token) :
    Takes lineEnd (⟨lineBreak, {}⟩ :: rest) rest () :=
  takes_bind (takes_comment none rest)
    (takes_bind takes_current (takes_bind takes_advance takes_pure))

section
variable {i : Instruction} (hi : i.WellFormed IsName) (rest : List Token)
include hi

/-- The expression of an equate is read as such. -/
theorem takes_directive {e : Expr} (hd : i.directive = some e) :
    Takes (directive i.mnemonic) (tokensOf (i.bodyWords ++ trailWords i.comment) ++ rest)
      (tokensOf (trailWords i.comment) ++ rest) (unplaced.expr e) := by
  have he : e.WellFormed IsName := hi.directive e hd
  obtain ⟨w, ws, hw, hs⟩ := startsExpr_words he
  obtain ⟨u, us, hu, -, hend⟩ := trailWords_cons i.comment
  have htakes : Takes expression (tokensOf e.words ++ (tokensOf (trailWords i.comment) ++ rest))
      (tokensOf (trailWords i.comment) ++ rest) (unplaced.expr e) := by
    refine takes_expression he ?_
    rw [hu]
    exact .lineEnd _ _ hend
  have hts : tokensOf (i.bodyWords ++ trailWords i.comment) ++ rest =
      tokensOf e.words ++ (tokensOf (trailWords i.comment) ++ rest) := by
    simp [Instruction.bodyWords, hd]
  rw [hts]
  rw [hw] at htakes ⊢
  refine takes_bind takes_current ?_
  rw [if_neg (by simp [(Word.of_startsForm (startsForm_of_startsExpr hs)).2])]
  exact htakes

/-- The operands of any other instruction are read as such, also if there are none. -/
theorem takes_operandsToLineEnd (hd : i.directive = none) :
    Takes operandsToLineEnd (tokensOf (i.bodyWords ++ trailWords i.comment) ++ rest)
      (tokensOf (trailWords i.comment) ++ rest) (i.operands.map unplaced.operand) := by
  rw [operandsToLineEnd_eq]
  obtain ⟨u, us, hu, -, hend⟩ := trailWords_cons i.comment
  cases ho : i.operands with
  | nil =>
    have hts : tokensOf (i.bodyWords ++ trailWords i.comment) ++ rest =
        tokensOf (trailWords i.comment) ++ rest := by simp [Instruction.bodyWords, hd, ho]
    rw [hts, hu]
    refine takes_bind takes_current ?_
    rw [if_pos hend]
    exact takes_pure
  | cons o os =>
    obtain ⟨hwf, hos⟩ := List.forall_mem_cons.1 (ho ▸ hi.operands)
    obtain ⟨w, ws, hw, -, hline⟩ := operand_words_cons hwf
    have hts : tokensOf (i.bodyWords ++ trailWords i.comment) ++ rest =
        tokensOf (o.words ++ moreWords os) ++ (tokensOf (trailWords i.comment) ++ rest) := by
      simp [Instruction.bodyWords, hd, ho]
    have htakes : Takes operands (tokensOf (o.words ++ moreWords os) ++
        (tokensOf (trailWords i.comment) ++ rest)) (tokensOf (trailWords i.comment) ++ rest)
        ((o :: os).map unplaced.operand) := by
      rw [hu]
      exact takes_operands hos hend hwf
    rw [hts]
    rw [hw] at htakes ⊢
    refine takes_bind takes_current ?_
    rw [if_neg (by simp [hline])]
    exact htakes

/-- The line of an instruction is the instruction, up to the end of the line. -/
theorem takes_instruction (hm : Text.upper i.mnemonic = i.mnemonic) :
    Takes (instruction i.label) (tokensOf i.lineWords ++ rest) (⟨lineBreak, {}⟩ :: rest)
      (unplaced.instruction i) := by
  have hts : tokensOf i.lineWords ++ rest = ⟨⟨.ident, i.mnemonic⟩, {}⟩ ::
      (tokensOf (i.bodyWords ++ trailWords i.comment) ++ rest) := by simp [Instruction.lineWords]
  rw [hts]
  refine takes_bind (takes_expect (by simp)) ?_
  simp only [hm]
  cases hd : i.directive with
  | some e =>
    have he : isEquate i.mnemonic = true := by rw [← hi.directive_isSome, hd]; rfl
    rw [if_pos he]
    refine takes_bind (takes_directive hi rest hd) (takes_bind (takes_comment i.comment rest) ?_)
    have hr : unplaced.instruction i =
        ⟨i.mnemonic, [], i.label, i.comment, some (unplaced.expr e), {}⟩ := by
      simp [Respelling.instruction, hd, hi.operands_eq he]
    rw [hr]
    exact takes_pure
  | none =>
    have he : ¬isEquate i.mnemonic = true := by rw [← hi.directive_isSome, hd]; simp
    rw [if_neg he]
    refine takes_bind (takes_operandsToLineEnd hi rest hd)
      (takes_bind (takes_comment i.comment rest) ?_)
    have hr : unplaced.instruction i =
        ⟨i.mnemonic, i.operands.map unplaced.operand, i.label, i.comment, none, {}⟩ := by
      simp [Respelling.instruction, hd]
    rw [hr]
    exact takes_pure

end

end Parse

/-! ### Statements -/

namespace Parser

open Parse

section
variable {α β : Type} {s s' : Parser} {a : α}

theorem bind_of_ok {p : Action α} {f : α → Action β} (h : p s = .ok a s') :
    (p >>= f) s = f a s' := by
  show EStateM.bind p f s = _
  rw [EStateM.bind, h]

/-- What is taken from the tokens is taken from those ahead of the parser. -/
theorem onTokens_of_takes {p : Parse α} {ts us : List Token} (h : Takes p ts us a)
    (hs : s.cursor.ahead = ts) :
    ∃ past, onTokens p s = .ok a { s with cursor := ⟨past, us⟩ } := by
  obtain ⟨past, h⟩ := h s.cursor.past
  have hc : s.cursor = ⟨s.cursor.past, ts⟩ := by rw [← hs]
  refine ⟨past, ?_⟩
  rw [onTokens, hc, h]

theorem onTokens_current {t : Token} {ts : List Token} (hs : s.cursor.ahead = t :: ts) :
    onTokens current s = .ok t s := by
  obtain ⟨⟨past, ahead⟩, pending, is, ls⟩ := s
  subst hs
  rfl

theorem onTokens_peek {t u : Token} {ts : List Token} (hs : s.cursor.ahead = t :: u :: ts) :
    onTokens (peek 1) s = .ok u s := by
  obtain ⟨⟨past, ahead⟩, pending, is, ls⟩ := s
  subst hs
  rfl

/-- What has been read, the pending label counted as an anchor. -/
def flushed (s : Parser) : List Instruction :=
  s.instructions.toList ++ (s.pending.map Instruction.anchor).toList

/-- The line of a label leaves the label pending, and an earlier one gets its anchor. -/
theorem statement_label {l : String} {rest : List Token}
    (hs : s.cursor.ahead = tokensOf (labelWords (some l)) ++ rest) :
    ∃ past is, statement s = .ok () ⟨⟨past, rest⟩, some ⟨l, {}⟩, is, s.labels.push ⟨l, {}⟩⟩ ∧
      is.toList = s.flushed := by
  obtain ⟨⟨past, ahead⟩, pending, is, ls⟩ := s
  subst hs
  refine ⟨⟨lineBreak, {}⟩ :: ⟨Mark.colon.word, {}⟩ :: ⟨⟨.ident, l⟩, {}⟩ :: past, ?_⟩
  cases pending with
  | none => exact ⟨is, rfl, by simp [flushed]⟩
  | some l' => exact ⟨is.push (.anchor l'), rfl, by simp [flushed]⟩

/-- An instruction up to the end of its line is added to what has been read. -/
theorem instructionLine_of_words {i : Instruction} (hi : i.WellFormed IsName)
    (hm : Text.upper i.mnemonic = i.mnemonic) {rest : List Token}
    (hs : s.cursor.ahead = tokensOf i.lineWords ++ rest) :
    ∃ past, instructionLine i.label s = .ok () { s with
      cursor := ⟨past, rest⟩, instructions := s.instructions.push (unplaced.instruction i) } := by
  obtain ⟨past, h⟩ := onTokens_of_takes (takes_instruction hi rest hm) hs
  obtain ⟨past', h'⟩ := onTokens_of_takes (takes_lineEnd rest)
    (s := { s with
      cursor := ⟨past, ⟨lineBreak, {}⟩ :: rest⟩
      instructions := s.instructions.push (unplaced.instruction i) }) rfl
  refine ⟨past', ?_⟩
  rw [instructionLine, bind_of_ok h]
  exact h'

/-- The line of an instruction takes the label of the instruction, which is pending. -/
theorem statement_line {i : Instruction} (hi : i.WellFormed IsName)
    (hm : Text.upper i.mnemonic = i.mnemonic) (hp : s.pending.map (·.name) = i.label)
    {rest : List Token} (hs : s.cursor.ahead = tokensOf i.lineWords ++ rest) :
    ∃ past, statement s = .ok () ⟨⟨past, rest⟩, none,
      s.instructions.push (unplaced.instruction i), s.labels⟩ := by
  obtain ⟨w, ws, hw, hfollows⟩ := lineWords_cons hi
  obtain ⟨past, h⟩ := instructionLine_of_words (s := { s with pending := none }) hi hm hs
  have hahead :
      s.cursor.ahead = ⟨⟨.ident, i.mnemonic⟩, {}⟩ :: ⟨w, {}⟩ :: (tokensOf ws ++ rest) := by
    rw [hs, hw]
    rfl
  have htake : takePending s = .ok i.label { s with pending := none } := by
    rw [takePending, hp]
  refine ⟨past, ?_⟩
  -- the second token is no colon and no keyword, so the first is a mnemonic and no label
  rw [statement, bind_of_ok (onTokens_current hahead), bind_of_ok (onTokens_peek hahead),
    if_neg fun h => hfollows.no_colon h.2, if_neg fun h => hfollows.no_keyword h.2, if_pos rfl,
    bind_of_ok htake]
  exact h

end

/-! ### Runs -/

theorem kind_current {s : Parser} {t : Token} {ts : List Token} (hs : s.cursor.ahead = t :: ts) :
    s.cursor.current.kind = t.kind := by
  obtain ⟨⟨past, ahead⟩, pending, is, ls⟩ := s
  subst hs
  rfl

/-- A run goes on behind a statement. -/
theorem run_of_statement {s s' : Parser} {t : Token} {ts : List Token}
    (hs : s.cursor.ahead = t :: ts) (hk : t.kind = .ident) (h : statement s = .ok () s') :
    run s = run s' := by
  have hc : s.cursor.current.kind = .ident := (kind_current hs).trans hk
  rw [run_eq, if_neg (by simp [hc]), if_neg (by simp [hc]), h]

/-- What is left to do in front of an instruction whose label has been read. -/
structure Labelled (label : Option String) (rest : List Token) (s s' : Parser) : Prop where
  run_eq : run s = run s'
  ahead : s'.cursor.ahead = rest
  pending : s'.pending = label.map fun l => ⟨l, {}⟩
  instructions : s'.instructions.toList = s.flushed
  labels : s'.labels.toList = s.labels.toList ++ (label.map fun l => ⟨l, {}⟩).toList

/-- What is left to do behind an instruction that has been read. -/
structure Added (i : Instruction) (rest : List Token) (s s' : Parser) : Prop where
  run_eq : run s = run s'
  ahead : s'.cursor.ahead = rest
  pending : s'.pending.isSome = i.isAnchor
  flushed : s'.flushed = s.flushed ++ [unplaced.instruction i]
  labels : s'.labels.toList = s.labels.toList ++ (i.label.map fun l => ⟨l, {}⟩).toList

section
variable {s : Parser} {rest : List Token}

/-- The label of an instruction is read, and is pending then. -/
theorem exists_labelled {label : Option String} (hp : s.pending.isSome → label.isSome)
    (hs : s.cursor.ahead = tokensOf (labelWords label) ++ rest) :
    ∃ s', Labelled label rest s s' := by
  cases label with
  | none =>
    have hnone : s.pending = none := by simpa using hp
    exact ⟨s, rfl, hs, hnone, by simp [flushed, hnone], by simp⟩
  | some l =>
    obtain ⟨past, is, h, his⟩ := statement_label hs
    exact ⟨_, run_of_statement hs rfl h, rfl, rfl, his, by simp⟩

/-- An anchor is all that its label makes. -/
theorem unplaced_anchor {i : Instruction} (hi : i.WellFormed IsName) (ha : i.isAnchor)
    {l : String} (hl : i.label = some l) : unplaced.instruction i = .anchor ⟨l, {}⟩ := by
  obtain ⟨-, hos, hd, hc⟩ := hi.anchor ha
  have hm : i.mnemonic = anchorMnemonic := by simpa [Instruction.isAnchor] using ha
  simp [Respelling.instruction, Instruction.anchor, hm, hos, hd, hc, hl]

/-- The words of an instruction add it to what has been read, with its label. -/
theorem exists_added {i : Instruction} (hi : i.WellFormed IsName)
    (hm : ¬i.isAnchor → Text.upper i.mnemonic = i.mnemonic)
    (hp : s.pending.isSome → i.label.isSome) (hs : s.cursor.ahead = tokensOf i.words ++ rest) :
    ∃ s', Added i rest s s' := by
  have hwords : tokensOf i.words ++ rest = tokensOf (labelWords i.label) ++
      (tokensOf (if i.isAnchor then [] else i.lineWords) ++ rest) := by simp [Instruction.words]
  obtain ⟨s', hs'⟩ := exists_labelled hp (hs.trans hwords)
  cases ha : i.isAnchor with
  | true =>
    -- an anchor has no line of its own, so its label is still pending
    obtain ⟨l, hl⟩ := Option.isSome_iff_exists.1 (hi.anchor ha).1
    refine ⟨s', hs'.run_eq, by simpa [ha] using hs'.ahead, ?_, ?_, hs'.labels⟩
    · simp [hs'.pending, hl, ha]
    · simp [flushed, hs'.pending, hs'.instructions, unplaced_anchor hi ha hl, hl]
  | false =>
    have hahead : s'.cursor.ahead = tokensOf i.lineWords ++ rest := by
      simpa [ha] using hs'.ahead
    have hpending : s'.pending.map (·.name) = i.label := by
      rw [hs'.pending]
      cases i.label <;> rfl
    obtain ⟨past, h⟩ := statement_line hi (hm (by simp [ha])) hpending hahead
    obtain ⟨w, ws, hw, -⟩ := lineWords_cons hi
    rw [hw] at hahead
    refine ⟨_, hs'.run_eq.trans (run_of_statement hahead rfl h), rfl, by simp [ha], ?_, hs'.labels⟩
    simp [flushed, hs'.instructions]

end

/-- At the end the pending label gets its anchor. -/
theorem run_end {s : Parser} {t : Token} {ts : List Token} (hs : s.cursor.ahead = t :: ts)
    (hk : t.kind = .eof) : ∃ s', run s = .ok ⟨s.flushed, s.labels.toList⟩ s' := by
  rw [run_eq, if_pos ((kind_current hs).trans hk)]
  obtain ⟨cursor, pending, is, ls⟩ := s
  cases pending with
  | none =>
    refine ⟨⟨cursor, none, is, ls⟩, ?_⟩
    show EStateM.Result.ok (Program.mk is.toList ls.toList) _ = _
    simp [flushed]
  | some l =>
    refine ⟨⟨cursor, none, is.push (.anchor l), ls⟩, ?_⟩
    show EStateM.Result.ok (Program.mk (is.push (.anchor l)).toList ls.toList) _ = _
    simp [flushed]

/-- A run through the words of a program adds its instructions and their labels. -/
theorem run_program {is : List Instruction} (his : ∀ i ∈ is, i.WellFormed IsName)
    (hm : ∀ i ∈ is, ¬i.isAnchor → Text.upper i.mnemonic = i.mnemonic)
    (hc : AnchorsClosed true is) {s : Parser} (hp : s.pending.isSome → labelAhead true is)
    (hs : s.cursor.ahead = tokensOf (is.flatMap Instruction.words ++ [⟨.eof, ""⟩])) :
    ∃ s', run s = .ok ⟨s.flushed ++ is.map unplaced.instruction,
      s.labels.toList ++ (is.filterMap (·.label)).map fun l => ⟨l, {}⟩⟩ s' := by
  -- by induction on the instructions; a label may be pending only if one comes next or none at all
  induction is generalizing s with
  | nil =>
    obtain ⟨s', h⟩ := run_end hs rfl
    exact ⟨s', by simpa using h⟩
  | cons i is ih =>
    obtain ⟨hi, his⟩ := List.forall_mem_cons.1 his
    obtain ⟨hmi, hm⟩ := List.forall_mem_cons.1 hm
    have hwords : tokensOf ((i :: is).flatMap Instruction.words ++ [⟨.eof, ""⟩]) =
        tokensOf i.words ++ tokensOf (is.flatMap Instruction.words ++ [⟨.eof, ""⟩]) := by simp
    obtain ⟨s', hs'⟩ := exists_added hi hmi hp (hs.trans hwords)
    obtain ⟨s'', h⟩ := ih his hm hc.2 (fun h => hc.1 (hs'.pending ▸ h)) hs'.ahead
    refine ⟨s'', ?_⟩
    rw [hs'.run_eq, h, hs'.flushed, hs'.labels]
    cases hl : i.label <;> simp [hl]

end Parser

end IntelAsm

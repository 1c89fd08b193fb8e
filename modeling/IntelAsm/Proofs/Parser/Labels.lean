import IntelAsm.Proofs.Parser.Origin

/-!
# What a run of the parser keeps

While a parser runs, a label that it has declared is in one of three places: an instruction carries
it, it is pending, or a statement holds it and is about to hand it to an instruction. `Parser.Holds`
says that the declared labels are the labels of those places, in order, and that an anchor is only
added where a labelled instruction follows. One statement keeps it (`triple_statement`), and so does
a whole run (`triple_run`). What is left at the end is said of the program alone (`Program.From`).
-/

namespace IntelAsm

/-! ### Labels in order -/

/-- Whether a list starts with a labelled instruction; `after` tells what follows an empty one. -/
def labelAhead (after : Bool) : List Instruction → Bool
  | [] => after
  | i :: _ => i.label.isSome

/-- Every anchor of a list is directly followed by a labelled instruction; `after` tells whether one
may follow the list. -/
def AnchorsClosed (after : Bool) : List Instruction → Prop
  | [] => True
  | i :: is => (i.isAnchor → labelAhead after is) ∧ AnchorsClosed after is

/-- An instruction at the end is ahead of those in front of it. -/
theorem labelAhead_append_singleton (after : Bool) (is : List Instruction) (i : Instruction) :
    labelAhead after (is ++ [i]) = labelAhead i.label.isSome is := by
  cases is <;> rfl

/-- One more instruction closes the anchor in front of it if it has a label. -/
theorem anchorsClosed_append_singleton {after : Bool} {is : List Instruction} {i : Instruction} :
    AnchorsClosed after (is ++ [i]) ↔
      AnchorsClosed i.label.isSome is ∧ (i.isAnchor → after) := by
  induction is with
  | nil => simp [AnchorsClosed, labelAhead]
  | cons j is ih =>
    simp only [List.cons_append, AnchorsClosed, ih, labelAhead_append_singleton, and_assoc]

/-- Anchors stay closed if what follows is known to have a label. -/
theorem AnchorsClosed.mono {after after' : Bool} {is : List Instruction}
    (h : AnchorsClosed after is) (ha : after → after') : AnchorsClosed after' is := by
  induction is with
  | nil => trivial
  | cons i is ih =>
    refine ⟨fun hi => ?_, ih h.2⟩
    have hl : labelAhead after is := h.1 hi
    cases is with
    | nil => exact ha hl
    | cons j is => exact hl

section
variable (ts : List Token)

/-- A label that some identifier of the list spells, at its place. -/
def Label.From (l : Label) : Prop := ⟨⟨.ident, l.name⟩, l.pos⟩ ∈ ts

/-- No identifier of the list has the mnemonic of an anchor. -/
def NamesApart : Prop := ∀ t ∈ ts, t.kind = .ident → Text.upper t.text ≠ anchorMnemonic

/-- What the parser adds to a program: the anchor of a label or an instruction that was read. -/
def Instruction.Added (i : Instruction) : Prop :=
  (∃ l, Label.From ts l ∧ i = .anchor l) ∨ ∃ label, i.From ts label

/-- A program whose parts come from the tokens of a list. -/
structure Program.From (p : Program) : Prop where
  labels : ∀ l ∈ p.labels, l.From ts
  instructions : ∀ i ∈ p.instructions, i.Added ts
  in_order : p.labels.map (·.name) = p.instructions.filterMap (·.label)
  anchors : NamesApart ts → AnchorsClosed true p.instructions

/-- The state of a parser in a list; `held` is a label that a statement is about to hand on. -/
structure Parser.Holds (held : Option String) (s : Parser) : Prop where
  tokens : s.cursor.tokens = ts
  pending : ∀ l, s.pending = some l → l.From ts
  labels : ∀ l ∈ s.labels.toList, l.From ts
  instructions : ∀ i ∈ s.instructions.toList, i.Added ts
  in_order : s.labels.toList.map (·.name) =
    s.instructions.toList.filterMap (·.label) ++ (s.pending.map (·.name)).toList ++ held.toList
  anchors : NamesApart ts →
    AnchorsClosed (s.pending.isSome || held.isSome) s.instructions.toList

/-- A state of a parser in which no label is pending. -/
structure Parser.Handing (held : Option String) (s : Parser) : Prop extends Holds ts held s where
  no_pending : s.pending = none

/-- A state of a parser that has left no label without an instruction. -/
structure Parser.Settled (s : Parser) : Prop where
  tokens : s.cursor.tokens = ts
  no_pending : s.pending = none
  program : s.program.From ts

end

/-- An instruction that was read is no anchor. -/
theorem Instruction.From.not_isAnchor {ts : List Token} {i : Instruction} {label : Option String}
    (hi : i.From ts label) (hts : NamesApart ts) : ¬i.isAnchor := by
  obtain ⟨name, hmem, hname⟩ := hi.mnemonic
  have hne : Text.upper name ≠ anchorMnemonic := hts ⟨⟨.ident, name⟩, i.pos⟩ hmem rfl
  simpa [isAnchor, hname] using hne

namespace Parser

open Parse Cursor

section
variable {ts : List Token} {α : Type} {held : Option String}

/-- An error that is blamed on the tokens, which are still there. -/
def Fails (ts : List Token) (e : ParseError) (s : Parser) : Prop :=
  s.cursor.tokens = ts ∧ Blamed ts e

theorem Holds.withCursor {s : Parser} (h : Holds ts held s) {c : Cursor} (hc : c.tokens = ts) :
    Holds ts held { s with cursor := c } :=
  { h with tokens := hc }

theorem Handing.withCursor {s : Parser} (h : Handing ts held s) {c : Cursor}
    (hc : c.tokens = ts) : Handing ts held { s with cursor := c } :=
  ⟨h.toHolds.withCursor hc, h.no_pending⟩

/-- Reading tokens keeps what does not depend on where the cursor stands. -/
theorem triple_onTokens_of {P : Parser → Prop} (htokens : ∀ s, P s → s.cursor.tokens = ts)
    (hcursor : ∀ s c, P s → c.tokens = ts → P { s with cursor := c }) {p : Parse α} {A : α → Prop}
    (hp : Reads ts A p) : Triple P (onTokens p) (fun a s => P s ∧ A a) (Fails ts) := by
  intro s hs
  unfold onTokens
  cases hr : p s.cursor with
  | ok a c =>
    obtain ⟨hc, ha⟩ := hp.of_ok (htokens s hs) hr
    exact ⟨hcursor s c hs hc, ha⟩
  | error e c => exact hp.of_error (htokens s hs) hr

/-- To read tokens changes no labels. -/
theorem triple_onTokens {p : Parse α} {A : α → Prop} (hp : Reads ts A p) :
    Triple (Holds ts held) (onTokens p) (fun a s => Holds ts held s ∧ A a) (Fails ts) :=
  triple_onTokens_of (fun _ hs => hs.tokens) (fun _ _ hs hc => hs.withCursor hc) hp

theorem triple_onTokens_handing {p : Parse α} {A : α → Prop} (hp : Reads ts A p) :
    Triple (Handing ts held) (onTokens p) (fun a s => Handing ts held s ∧ A a) (Fails ts) :=
  triple_onTokens_of (fun _ hs => hs.tokens) (fun _ _ hs hc => hs.withCursor hc) hp

/-! ### Changes of the program -/

/-- An instruction that was read takes the label that is held. -/
theorem Handing.addInstruction {s : Parser} (h : Handing ts held s) {i : Instruction}
    (hi : i.From ts held) :
    Holds ts none { s with instructions := s.instructions.push i } where
  tokens := h.tokens
  pending := h.pending
  labels := h.labels
  instructions := by
    intro j hj
    rw [Array.toList_push, List.mem_append, List.mem_singleton] at hj
    rcases hj with hj | rfl
    · exact h.instructions j hj
    · exact .inr ⟨held, hi⟩
  in_order := by
    have ho := h.in_order
    rw [h.no_pending] at ho
    rw [h.no_pending, Array.toList_push, List.filterMap_append]
    cases held <;> simpa [hi.label_eq, List.filterMap_cons] using ho
  anchors := by
    intro hts
    have ha := h.anchors hts
    rw [h.no_pending] at ha ⊢
    rw [Array.toList_push, anchorsClosed_append_singleton, hi.label_eq]
    exact ⟨by simpa using ha, fun hanchor => absurd hanchor (hi.not_isAnchor hts)⟩

/-- An instruction takes the label that was held. -/
theorem triple_addInstruction {i : Instruction} (hi : i.From ts held) :
    Triple (Handing ts held) (addInstruction i) (fun _ => Holds ts none) (Fails ts) :=
  fun _ hs => hs.addInstruction hi

/-- Flushing gives the pending label an anchor, in front of a label or of the end. -/
theorem triple_flushPending :
    Triple (Holds ts none) flushPending (fun _ => Settled ts) (Fails ts) := by
  intro s hs
  unfold flushPending
  cases hp : s.pending with
  | none =>
    refine ⟨hs.tokens, hp, hs.labels, hs.instructions, ?_, fun hts => ?_⟩
    · simpa [program, hp] using hs.in_order
    · exact (hs.anchors hts).mono fun _ => rfl
  | some l =>
    refine ⟨hs.tokens, rfl, hs.labels, ?_, ?_, fun hts => ?_⟩
    · intro i hi
      simp only [program, Array.toList_push, List.mem_append, List.mem_singleton] at hi
      rcases hi with hi | rfl
      · exact hs.instructions i hi
      · exact .inl ⟨l, hs.pending l hp, rfl⟩
    · simpa [program, hp, Instruction.anchor, List.filterMap_cons] using hs.in_order
    · have ha := hs.anchors hts
      simp only [program, Array.toList_push]
      rw [anchorsClosed_append_singleton]
      exact ⟨ha.mono fun _ => rfl, fun _ => rfl⟩

/-- A new label is held, behind all others. -/
theorem triple_addLabel {l : Label} (hl : l.From ts) :
    Triple (Settled ts) (addLabel l) (fun _ => Handing ts (some l.name)) (Fails ts) := by
  intro s hs
  have hno := hs.no_pending
  refine { tokens := hs.tokens, no_pending := hno, pending := ?_, labels := ?_,
           instructions := hs.program.instructions, in_order := ?_, anchors := fun hts => ?_ }
  · simp [hno]
  · intro l' hl'
    rw [Array.toList_push, List.mem_append, List.mem_singleton] at hl'
    rcases hl' with hl' | rfl
    · exact hs.program.labels l' hl'
    · exact hl
  · have ho : s.labels.toList.map (·.name) = s.instructions.toList.filterMap (·.label) :=
      hs.program.in_order
    simp [hno, ho]
  · exact (hs.program.anchors hts).mono fun _ => by simp

/-- A label that was held is pending then. -/
theorem triple_setPending {l : Label} (hl : l.From ts) :
    Triple (Handing ts (some l.name)) (setPending l) (fun _ => Holds ts none) (Fails ts) := by
  intro s hs
  have hno := hs.no_pending
  refine { hs.toHolds with pending := ?_, in_order := ?_, anchors := ?_ }
  · exact fun l' h => Option.some.inj h ▸ hl
  · simpa [hno] using hs.in_order
  · simpa [hno] using hs.anchors

/-- A pending label is held then. -/
theorem triple_takePending :
    Triple (Holds ts none) takePending (fun label => Handing ts label) (Fails ts) := by
  intro s hs
  refine { tokens := hs.tokens, no_pending := rfl, pending := by simp, labels := hs.labels,
           instructions := hs.instructions, in_order := ?_, anchors := ?_ }
  · simpa using hs.in_order
  · simpa using hs.anchors

/-! ### Statements -/

/-- To declare a label settles the pending one first. -/
theorem triple_declareLabel (colon : Bool) :
    Triple (Holds ts none) (declareLabel colon)
      (fun l s => l.From ts ∧ Handing ts (some l.name) s) (Fails ts) := by
  apply triple_bind (triple_onTokens (reads_expect (by decide) (by simp [Expected.From])))
  intro t s ht
  have hk : t.kind = .ident := by simpa using ht.2.2
  have hl : Label.From ts ⟨t.text, t.pos⟩ := by
    show (⟨⟨.ident, t.text⟩, t.pos⟩ : Token) ∈ ts
    exact hk ▸ ht.2.1
  refine triple_bind (triple_onTokens (reads_labelColon colon)) (fun _ s hs => ?_) s ht.1
  refine triple_bind triple_flushPending (fun _ => ?_) s hs.1
  exact triple_bind (triple_addLabel hl) fun _ => triple_pure _ fun _ hs => ⟨hl, hs⟩

theorem triple_lineEnd : Triple (Holds ts none) (onTokens lineEnd) (fun _ => Holds ts none)
    (Fails ts) :=
  (triple_onTokens reads_lineEnd).imp fun _ _ h => h.1

/-- A line takes the label that was held. -/
theorem triple_instructionLine (label : Option String) :
    Triple (Handing ts label) (instructionLine label) (fun _ => Holds ts none) (Fails ts) := by
  apply triple_bind (triple_onTokens_handing (reads_instruction label))
  intro i s hs
  exact triple_bind (triple_addInstruction hs.2) (fun _ => triple_lineEnd) s hs.1

/-- A label is handed on, or it is pending. -/
theorem triple_afterLabel {l : Label} (hl : l.From ts) :
    Triple (Handing ts (some l.name)) (afterLabel l) (fun _ => Holds ts none) (Fails ts) := by
  apply triple_bind (triple_onTokens_handing reads_current)
  intro t s ht
  refine triple_bind (triple_onTokens_handing (reads_peek 1)) (fun u s hu => ?_) s ht.1
  refine triple_ite (fun _ => triple_setPending hl) (fun _ => ?_) s hu.1
  refine triple_ite (fun _ => ?_) fun _ => triple_instructionLine _
  exact triple_bind (triple_setPending hl) fun _ => triple_lineEnd

/-- One statement keeps what a parser holds. -/
theorem triple_statement :
    Triple (Holds ts none) statement (fun _ => Holds ts none) (Fails ts) := by
  apply triple_bind (triple_onTokens reads_current)
  intro t s ht
  refine triple_bind (triple_onTokens (reads_peek 1)) (fun u s hu => ?_) s ht.1
  -- a label with a colon, a label without one, a mnemonic, and anything else
  refine triple_ite (fun _ => ?_) (fun _ => triple_ite (fun _ => ?_) fun _ =>
    triple_ite (fun _ => ?_) fun _ => ?_) s hu.1
  · apply triple_bind (triple_declareLabel true)
    intro l s hl
    exact triple_afterLabel hl.1 s hl.2
  · apply triple_bind (triple_declareLabel false)
    intro l s hl
    exact triple_instructionLine _ s hl.2
  · exact triple_bind triple_takePending triple_instructionLine
  · have hf : Reads ts (fun _ : Unit => True) (fail (.noStatement t.toWord) t) :=
      reads_fail ht.2 ⟨_, ht.2⟩
    exact (triple_onTokens hf).imp fun _ _ h => h.1

/-! ### Runs -/

/-- A run ends with a program of the tokens, or fails as a statement does. -/
theorem triple_run : Triple (Holds ts none) run (fun p _ => p.From ts) (Fails ts) := by
  intro s hs
  -- by induction on the run; every statement but the last hands on what it was given
  fun_induction run s with
  | case1 s he =>
    refine triple_bind triple_flushPending (fun _ => ?_) s hs
    exact fun s hs => hs.program
  | case2 s he hn ih => exact ih (hs.withCursor (s.cursor.tokens_advance.trans hs.tokens))
  | case3 s he hn s' hr ih => exact ih (triple_statement.of_ok hs hr)
  | case4 s he hn e s' hr => exact triple_statement.of_error hs hr

theorem holds_ofTokens (ts : List Token) : Holds ts none (.ofTokens ts) where
  tokens := rfl
  pending := by simp [ofTokens]
  labels := by simp [ofTokens]
  instructions := by simp [ofTokens]
  in_order := rfl
  anchors _ := trivial

end

end Parser

/-- The program that a token list forms comes from its tokens. -/
theorem from_of_parse {ts : List Token} {p : Program} (h : parse ts = .ok p) : p.From ts := by
  unfold parse at h
  cases hr : Parser.run (.ofTokens ts) with
  | ok q s =>
    rw [hr] at h
    cases h
    exact Parser.triple_run.of_ok (Parser.holds_ofTokens ts) hr
  | error e s => simp [hr] at h

/-- What keeps a token list from forming a program is blamed on its tokens. -/
theorem blamed_of_parse {ts : List Token} {e : ParseError} (h : parse ts = .error e) :
    Blamed ts e := by
  unfold parse at h
  cases hr : Parser.run (.ofTokens ts) with
  | ok q s => simp [hr] at h
  | error e' s =>
    rw [hr] at h
    cases h
    exact (Parser.triple_run.of_error (Parser.holds_ofTokens ts) hr).2

end IntelAsm

import IntelAsm.Proofs.Parser.Labels

/-!
# A program as a list of items

What a statement adds to a program depends on its tokens alone, but for the label that may be
pending in front of it. So a program is read in two stages that know nothing of each other. The
first reads the items of the tokens, one for each statement, and has no state but the cursor
(`Parse.items`). The second hands the labels to the instructions and has no tokens
(`Program.ofItems`). The parser does both at once: `parse_eq_items`.
-/

namespace IntelAsm

/-- What a statement adds to a program. -/
inductive Item where
  /-- A label that is left to what follows. -/
  | label (l : Label)
  /-- An instruction, which carries the label in front of it. -/
  | labelled (l : Label) (i : Instruction)
  /-- An instruction without a label of its own. -/
  | plain (i : Instruction)
deriving DecidableEq, Repr

namespace Item

/-- The label that an item declares. -/
def label? : Item → Option Label
  | .label l => some l
  | .labelled l _ => some l
  | .plain _ => none

/-- An item whose parts are tokens of a list. -/
def From (ts : List Token) : Item → Prop
  | .label l => l.From ts
  | .labelled l i => l.From ts ∧ i.From ts (some l.name)
  | .plain i => i.From ts none

end Item

/-! ### Handing labels to instructions -/

namespace Program

/-- The anchor of a pending label. -/
def anchors (pending : Option Label) : List Instruction := (pending.map Instruction.anchor).toList

/-- The instructions of items, with a label pending in front of them. -/
def instructionsFrom : Option Label → List Item → List Instruction
  | pending, [] => anchors pending
  | pending, .label l :: xs => anchors pending ++ instructionsFrom (some l) xs
  | pending, .labelled _ i :: xs => anchors pending ++ i :: instructionsFrom none xs
  | pending, .plain i :: xs =>
    { i with label := pending.map (·.name) } :: instructionsFrom none xs

/-- The program of items. -/
def ofItems (xs : List Item) : Program := ⟨instructionsFrom none xs, xs.filterMap Item.label?⟩

end Program

/-! ### Reading items -/

namespace Parse

/-- The label at the cursor, with a colon behind it or without. -/
def labelDeclaration (colon : Bool) : Parse Label := do
  let t ← expect (.kinds [.ident]) [.ident]
  labelColon colon
  return ⟨t.text, t.pos⟩

/-- An instruction and the end of its line. -/
def wholeLine (label : Option String) : Parse Instruction := do
  let i ← instruction label
  lineEnd
  return i

/-- The item that starts with a label and its colon. -/
def itemOfLabel (l : Label) : Parse Item := do
  let t ← current
  let u ← peek 1
  if t.kind = .ident ∧ u.kind = .mark .colon then return .label l
  else if t.kind.endsLine then do
    lineEnd
    return .label l
  else do
    let i ← wholeLine (some l.name)
    return .labelled l i

/-- The item of one statement. -/
def item : Parse Item := do
  let t ← current
  let u ← peek 1
  if t.kind = .ident ∧ u.kind = .mark .colon then do
    let l ← labelDeclaration true
    itemOfLabel l
  else if t.kind = .ident ∧ u.kind = .ident ∧ isLabelKeyword u.text then do
    let l ← labelDeclaration false
    let i ← wholeLine (some l.name)
    return .labelled l i
  else if t.kind = .ident then do
    let i ← wholeLine none
    return .plain i
  else fail (.noStatement t.toWord) t

/-! ### Progress -/

/-- A label takes at least its name. -/
theorem advancing_labelDeclaration (colon : Bool) : Advancing (labelDeclaration colon) := by
  apply advancing_bind (advancing_expect (by decide))
  intro t
  exact forward_bind (forward_labelColon _) fun _ => forward_pure _

/-- An instruction takes at least its mnemonic. -/
theorem advancing_wholeLine (label : Option String) : Advancing (wholeLine label) := by
  apply advancing_bind (advancing_instruction label)
  intro i
  exact forward_bind forward_lineEnd fun _ => forward_pure _

theorem forward_itemOfLabel (l : Label) : Forward (itemOfLabel l) := by
  apply forward_bind forward_current
  intro t
  apply forward_bind (forward_peek 1)
  intro u
  refine forward_ite (forward_pure _) (forward_ite ?_ ?_)
  · exact forward_bind forward_lineEnd fun _ => forward_pure _
  · exact forward_bind (advancing_wholeLine _).forward fun _ => forward_pure _

/-- So every item takes a token. -/
theorem advancing_item : Advancing item := by
  apply advancing_bind_right forward_current
  intro t
  apply advancing_bind_right (forward_peek 1)
  intro u
  refine advancing_ite ?_ (advancing_ite ?_ (advancing_ite ?_ ?_))
  · exact advancing_bind (advancing_labelDeclaration _) fun l => forward_itemOfLabel l
  · apply advancing_bind (advancing_labelDeclaration _)
    intro l
    exact forward_bind (advancing_wholeLine _).forward fun _ => forward_pure _
  · exact advancing_bind (advancing_wholeLine _) fun _ => forward_pure _
  · exact ⟨forward_fail _ _, fun c a c' h => by cases h⟩

/-- The items up to the end of the tokens. -/
def items : Parse (List Item) := fun c =>
  if c.current.kind = .eof then .ok [] c
  else if c.current.kind = .newline ∨ c.current.kind = .comment then items c.advance
  else
    match _ : item c with
    | .ok x c' =>
      match items c' with
      | .ok xs c'' => .ok (x :: xs) c''
      | .error e c'' => .error e c''
    | .error e c' => .error e c'
termination_by c => c.ahead.length
decreasing_by
  · exact Cursor.length_ahead_advance (by assumption)
  · exact advancing_item.consuming _ _ _ (by assumption)

/-- One round of the loop over statements. -/
theorem items_eq (c : Cursor) :
    items c =
      if c.current.kind = .eof then .ok [] c
      else if c.current.kind = .newline ∨ c.current.kind = .comment then items c.advance
      else
        match item c with
        | .ok x c' =>
          match items c' with
          | .ok xs c'' => .ok (x :: xs) c''
          | .error e c'' => .error e c''
        | .error e c' => .error e c' := by
  rw [items]
  split
  · rfl
  split
  · rfl
  · split
    · next hr => rw [hr]
    · next hr => rw [hr]

theorem items_of_eof {c : Cursor} (h : c.current.kind = .eof) : items c = .ok [] c := by
  rw [items_eq, if_pos h]

theorem items_of_skip {c : Cursor} (h : c.current.kind = .newline ∨ c.current.kind = .comment) :
    items c = items c.advance := by
  have he : c.current.kind ≠ .eof := by
    rcases h with h | h <;> rw [h] <;> decide
  rw [items_eq, if_neg he, if_pos h]

/-! ### Where items come from -/

section
variable {ts : List Token}

/-- A label is spelled by a name of the list. -/
theorem reads_labelDeclaration (colon : Bool) :
    Reads ts (Label.From ts) (labelDeclaration colon) := by
  apply reads_bind (reads_expect (by decide) (by simp [Expected.From]))
  intro t ht
  have hk : t.kind = .ident := by simpa using ht.2
  have hl : (⟨⟨.ident, t.text⟩, t.pos⟩ : Token) ∈ ts := hk ▸ ht.1
  exact reads_bind (reads_labelColon colon) fun _ _ => reads_pure hl

theorem reads_wholeLine (label : Option String) :
    Reads ts (fun i => i.From ts label) (wholeLine label) := by
  apply reads_bind (reads_instruction label)
  intro i hi
  exact reads_bind reads_lineEnd fun _ _ => reads_pure hi

/-- A label may be an item alone, or with its instruction. -/
theorem reads_itemOfLabel {l : Label} (hl : l.From ts) :
    Reads ts (Item.From ts) (itemOfLabel l) := by
  apply reads_bind reads_current
  intro t _
  apply reads_bind (reads_peek 1)
  intro u _
  refine reads_ite (fun _ => reads_pure hl) fun _ => reads_ite (fun _ => ?_) fun _ => ?_
  · exact reads_bind reads_lineEnd fun _ _ => reads_pure hl
  · exact reads_bind (reads_wholeLine _) fun i hi => reads_pure ⟨hl, hi⟩

/-- An item is made of tokens of the list. -/
theorem reads_item : Reads ts (Item.From ts) item := by
  apply reads_bind reads_current
  intro t ht
  apply reads_bind (reads_peek 1)
  intro u _
  refine reads_ite (fun _ => ?_) fun _ => reads_ite (fun _ => ?_) fun _ =>
    reads_ite (fun _ => ?_) fun _ => reads_fail ht ⟨_, ht⟩
  · exact reads_bind (reads_labelDeclaration true) fun l hl => reads_itemOfLabel hl
  · apply reads_bind (reads_labelDeclaration false)
    intro l hl
    exact reads_bind (reads_wholeLine _) fun i hi => reads_pure ⟨hl, hi⟩
  · exact reads_bind (reads_wholeLine none) fun i hi => reads_pure hi

/-- So are all items, by induction on the tokens ahead. -/
theorem reads_items : Reads ts (fun xs => ∀ x ∈ xs, Item.From ts x) items := by
  intro c hc
  -- by induction on the run, one item after the other
  fun_induction items c with
  | case1 c he => exact ⟨hc, by simp⟩
  | case2 c he hn ih => exact ih (c.tokens_advance.trans hc)
  | case3 c he hn x c' hx xs c'' hxs ih =>
    obtain ⟨hc', hfrom⟩ := reads_item.of_ok hc hx
    have hl := ih hc'
    rw [hxs] at hl
    exact ⟨hl.1, List.forall_mem_cons.2 ⟨hfrom, hl.2⟩⟩
  | case4 c he hn x c' hx e c'' hxs ih =>
    have hl := ih (reads_item.of_ok hc hx).1
    rwa [hxs] at hl
  | case5 c he hn e c' hx => exact reads_item.of_error hc hx

end

end Parse

/-! ### The parser reads items -/

namespace Parser

open Parse

/-- A parser whose pending label has its anchor. -/
def settled (s : Parser) : Parser where
  cursor := s.cursor
  instructions := s.instructions ++ Program.anchors s.pending
  labels := s.labels

/-- A parser with one more item. -/
def add (s : Parser) : Item → Parser
  | .label l => { s.settled with labels := s.labels.push l, pending := some l }
  | .labelled l i => { s.settled with
      labels := s.labels.push l, instructions := s.settled.instructions.push i }
  | .plain i => { s with
      instructions := s.instructions.push { i with label := s.pending.map (·.name) }
      pending := none }

/-- An action on a parser ends as one on its tokens does, and leaves the parser `f a` behind. -/
def Carries {α : Type} (f : α → Parser) (p : EStateM.Result ParseError Cursor α)
    (q : EStateM.Result ParseError Parser Unit) : Prop :=
  match p with
  | .ok a c => q = .ok () { f a with cursor := c }
  | .error e _ => ∃ s, q = .error e s

theorem flushPending_eq (s : Parser) : flushPending s = .ok () s.settled := by
  obtain ⟨c, pending, is, ls⟩ := s
  cases pending <;> simp [flushPending, settled, Program.anchors]

/-- To declare a label is to settle the pending one and to read the name. -/
theorem declareLabel_eq (colon : Bool) (s : Parser) :
    declareLabel colon s =
      match labelDeclaration colon s.cursor with
      | .ok l c => .ok l { s.settled with cursor := c, labels := s.labels.push l }
      | .error e c => .error e { s with cursor := c } := by
  simp only [declareLabel, labelDeclaration, Bind.bind, EStateM.bind, onTokens]
  cases expect (.kinds [.ident]) [.ident] s.cursor with
  | error e c => rfl
  | ok t c =>
    cases h : labelColon colon c with
    | error e c' => simp only [h]
    | ok u c' =>
      simp only [h, flushPending_eq]
      rfl

theorem carries_instructionLine (label : Option String) (s : Parser) :
    Carries (fun i => { s with instructions := s.instructions.push i })
      (wholeLine label s.cursor) (instructionLine label s) := by
  simp only [instructionLine, wholeLine, Bind.bind, EStateM.bind, onTokens]
  cases instruction label s.cursor with
  | error e c => exact ⟨_, rfl⟩
  | ok i c =>
    cases h : lineEnd c with
    | error e c' =>
      simp only [addInstruction, h]
      exact ⟨_, rfl⟩
    | ok u c' =>
      simp only [addInstruction, h]
      rfl

/-- The label that an instruction carries is the one that is handed to it. -/
theorem instruction_eq (label : Option String) (c : Cursor) :
    instruction label c =
      match instruction none c with
      | .ok i c' => .ok { i with label } c'
      | .error e c' => .error e c' := by
  simp only [instruction, Bind.bind, EStateM.bind]
  cases expect .mnemonic [.ident] c with
  | error e c' => rfl
  | ok t c' =>
    dsimp only
    split
    · cases hd : directive (Text.upper t.text) c' with
      | error e c'' => simp only [EStateM.bind, hd]
      | ok x c'' =>
        simp only [EStateM.bind, hd]
        cases comment c'' <;> rfl
    · cases ho : operandsToLineEnd c' with
      | error e c'' => simp only [EStateM.bind, ho]
      | ok os c'' =>
        simp only [EStateM.bind, ho]
        cases comment c'' <;> rfl

/-- The label of an instruction is handed on and nothing else. -/
theorem wholeLine_eq (label : Option String) (c : Cursor) :
    wholeLine label c =
      match wholeLine none c with
      | .ok i c' => .ok { i with label } c'
      | .error e c' => .error e c' := by
  simp only [wholeLine, Bind.bind, EStateM.bind]
  rw [instruction_eq]
  cases instruction none c with
  | error e c' => rfl
  | ok i c' =>
    cases h : lineEnd c' with
    | error e c'' => simp only [h]
    | ok u c'' =>
      simp only [h]
      rfl

/-- An instruction behind its label is added as the item is. -/
theorem carries_labelled (l : Label) (s : Parser) (c : Cursor) :
    Carries s.add ((wholeLine (some l.name) >>= fun i => pure (.labelled l i)) c)
      (instructionLine (some l.name)
        { s.settled with cursor := c, labels := s.labels.push l }) := by
  have hline := carries_instructionLine (some l.name)
    { s.settled with cursor := c, labels := s.labels.push l }
  simp only [Bind.bind, EStateM.bind]
  cases h : wholeLine (some l.name) c with
  | ok i c' =>
    rw [h] at hline
    exact hline
  | error e c' =>
    rw [h] at hline
    exact hline

/-- An instruction without a label takes the pending one. -/
theorem carries_plain (s : Parser) :
    Carries s.add ((wholeLine none >>= fun i => pure (.plain i)) s.cursor)
      (instructionLine (s.pending.map (·.name)) { s with pending := none }) := by
  have hline := carries_instructionLine (s.pending.map (·.name)) { s with pending := none }
  rw [wholeLine_eq] at hline
  simp only [Bind.bind, EStateM.bind]
  cases h : wholeLine none s.cursor with
  | ok i c =>
    simp only [h] at hline
    exact hline
  | error e c =>
    simp only [h] at hline
    exact hline

/-- What stands behind a label is added as the item is. -/
theorem carries_afterLabel (l : Label) (s : Parser) (c : Cursor) :
    Carries s.add (itemOfLabel l c)
      (afterLabel l { s.settled with cursor := c, labels := s.labels.push l }) := by
  have hlabelled := carries_labelled l s c
  simp only [itemOfLabel, afterLabel, current, peek, Bind.bind, EStateM.bind, onTokens]
    at hlabelled ⊢
  split
  · rfl
  split
  · cases h : lineEnd c with
    | ok u c' =>
      simp only [EStateM.bind, setPending, onTokens, h]
      rfl
    | error e c' =>
      simp only [EStateM.bind, setPending, onTokens, h]
      exact ⟨_, rfl⟩
  · exact hlabelled

/-- One statement adds its item. -/
theorem carries_statement (s : Parser) : Carries s.add (item s.cursor) (statement s) := by
  have hplain := carries_plain s
  simp only [item, statement, current, peek, Bind.bind, EStateM.bind, onTokens]
    at hplain ⊢
  split
  · simp only [EStateM.bind]
    rw [declareLabel_eq]
    cases labelDeclaration true s.cursor with
    | error e c => exact ⟨_, rfl⟩
    | ok l c => exact carries_afterLabel l s c
  split
  · simp only [EStateM.bind]
    rw [declareLabel_eq]
    cases labelDeclaration false s.cursor with
    | error e c => exact ⟨_, rfl⟩
    | ok l c => exact carries_labelled l s c
  split
  · exact hplain
  · exact ⟨_, rfl⟩

/-! ### Runs -/

/-- The program of a parser that has only items in front of it. -/
def programWith (s : Parser) (xs : List Item) : Program where
  instructions := s.instructions.toList ++ Program.instructionsFrom s.pending xs
  labels := s.labels.toList ++ xs.filterMap Item.label?

/-- With nothing more to add the pending label gets its anchor. -/
theorem programWith_nil (s : Parser) : s.programWith [] = s.settled.program := by
  simp [programWith, program, settled, Program.instructionsFrom]

/-- Items are added one by one. -/
theorem programWith_add (s : Parser) (x : Item) (xs : List Item) :
    (s.add x).programWith xs = s.programWith (x :: xs) := by
  cases x <;> simp [programWith, add, settled, Program.instructionsFrom, Program.anchors,
    Item.label?, List.filterMap_cons]

/-- A run adds the items ahead. -/
theorem run_eq_items (s : Parser) :
    match items s.cursor with
    | .ok xs _ => ∃ s', run s = .ok (s.programWith xs) s'
    | .error e _ => ∃ s', run s = .error e s' := by
  -- by induction on the run; in each round the item of the statement is the first of those ahead
  fun_induction run s with
  | case1 s he =>
    rw [items_of_eof he]
    refine ⟨s.settled, ?_⟩
    simp only [Bind.bind, EStateM.bind, flushPending_eq, programWith_nil]
    rfl
  | case2 s he hn ih =>
    rw [items_of_skip hn]
    exact ih
  | case3 s he hn s' hr ih =>
    rw [items_eq, if_neg he, if_neg hn]
    have hstep : Carries s.add (item s.cursor) (statement s) := carries_statement s
    cases hx : item s.cursor with
    | error e c =>
      rw [hx, hr] at hstep
      obtain ⟨s'', h⟩ := hstep
      cases h
    | ok x c =>
      rw [hx, hr] at hstep
      cases hstep
      have hwith (xs : List Item) : { s.add x with cursor := c }.programWith xs =
        s.programWith (x :: xs) := programWith_add s x xs
      cases hxs : items c with
      | ok xs c' => simpa only [hxs, hwith] using ih
      | error e c' => simpa only [hxs] using ih
  | case4 s he hn e s' hr =>
    rw [items_eq, if_neg he, if_neg hn]
    have hstep : Carries s.add (item s.cursor) (statement s) := carries_statement s
    cases hx : item s.cursor with
    | error e' c =>
      rw [hx, hr] at hstep
      obtain ⟨s'', h⟩ := hstep
      cases h
      exact ⟨s', rfl⟩
    | ok x c =>
      rw [hx, hr] at hstep
      cases hstep

end Parser

/-- The program of a token list is that of its items. -/
theorem parse_eq_items (ts : List Token) :
    parse ts =
      match Parse.items (.ofTokens ts) with
      | .ok xs _ => .ok (Program.ofItems xs)
      | .error e _ => .error e := by
  have hrun := Parser.run_eq_items (.ofTokens ts)
  have hcursor : (Parser.ofTokens ts).cursor = .ofTokens ts := rfl
  rw [hcursor] at hrun
  unfold parse
  cases hxs : Parse.items (.ofTokens ts) with
  | ok xs c =>
    rw [hxs] at hrun
    obtain ⟨s, hs⟩ := hrun
    rw [hs]
    rfl
  | error e c =>
    rw [hxs] at hrun
    obtain ⟨s, hs⟩ := hrun
    rw [hs]

/-- Token lists are parsed just if they are items, and then as the program of these. -/
theorem parse_eq_ok_iff {ts : List Token} {p : Program} :
    parse ts = .ok p ↔ ∃ xs c, Parse.items (.ofTokens ts) = .ok xs c ∧ p = .ofItems xs := by
  rw [parse_eq_items]
  cases Parse.items (.ofTokens ts) <;> simp [eq_comm]

end IntelAsm

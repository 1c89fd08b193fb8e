import IntelAsm.Lexer
import IntelAsm.Parser.Operand

/-!
# Statements and programs

    program     ::= { [statement] line-end }
    statement   ::= label ":" { label ":" } [instruction]
                  | label instruction          -- the instruction starts with a keyword
                  | instruction
    instruction ::= mnemonic (expr | [operand { "," operand }])
    line-end    ::= [comment] (newline | end)

A label in front of an instruction belongs to it. A label alone on its line is pending: it belongs
to the next instruction, or gets an anchor of its own if another label or the end comes first. So
every label belongs to exactly one instruction.
-/

namespace IntelAsm

/-- The state of a parser: what it has read so far, and where it stands. -/
structure Parser where
  cursor : Cursor
  /-- A label that no instruction has yet. -/
  pending : Option Label := none
  instructions : Array Instruction := #[]
  labels : Array Label := #[]
deriving DecidableEq, Repr

instance : Parse.HasCursor Parser where
  cursor := Parser.cursor

namespace Parse

/-! ### Instructions -/

/-- The comment at the cursor, if there is one. -/
def comment : Parse (Option String) := do
  let t ← current
  if t.kind = .comment then do
    let _ ← advance
    return some t.text
  else return none

/-- The expression of an equate. -/
def directive (mnemonic : String) : Parse Expr := do
  let t ← current
  if t.kind.endsLine then fail (.noExpression mnemonic) t else expression

/-- The operands of an instruction: none, if its line ends here. -/
def operandsToLineEnd : Parse (List Operand) := do
  if ← atLineEnd then return [] else operands

/-- To ask for the end of a line is to look at the kind of the next token. -/
theorem operandsToLineEnd_eq : operandsToLineEnd =
    (do let t ← current; if t.kind.endsLine then return [] else operands) := rfl

/-- An instruction, which carries the given label. -/
def instruction (label : Option String) : Parse Instruction := do
  let t ← expect .mnemonic [.ident]
  let mnemonic := Text.upper t.text
  if isEquate mnemonic then do
    let e ← directive mnemonic
    let comment ← comment
    return { mnemonic, label, comment, directive := some e, pos := t.pos }
  else do
    let operands ← operandsToLineEnd
    let comment ← comment
    return { mnemonic, operands, label, comment, pos := t.pos }

/-- The end of a statement, behind a comment or not. -/
def lineEnd : Parse Unit := do
  let _ ← comment
  let t ← current
  if t.kind = .newline then do
    let _ ← advance
    return ()
  else if t.kind = .eof then return ()
  else fail (.expected .lineEnd t.toWord) t

/-- The colon behind a label that has one. -/
def labelColon (colon : Bool) : Parse Unit :=
  if colon then do
    let _ ← expect (.kinds [.mark .colon]) [.mark .colon]
    return ()
  else return ()

theorem forward_comment : Forward comment := by
  apply forward_bind forward_current
  intro t
  refine forward_ite ?_ (forward_pure _)
  exact forward_bind forward_advance fun _ => forward_pure _

theorem forward_directive (mnemonic : String) : Forward (directive mnemonic) :=
  forward_bind forward_current fun _ => forward_ite (forward_fail _ _) forward_expression

theorem forward_operandsToLineEnd : Forward operandsToLineEnd :=
  forward_bind forward_current fun _ => forward_ite (forward_pure _) forward_operands

/-- An instruction takes at least its mnemonic. -/
theorem advancing_instruction (label : Option String) : Advancing (instruction label) := by
  apply advancing_bind (advancing_expect (by decide))
  intro t
  apply forward_ite
  · apply forward_bind (forward_directive _)
    intro e
    exact forward_bind forward_comment fun _ => forward_pure _
  · apply forward_bind forward_operandsToLineEnd
    intro os
    exact forward_bind forward_comment fun _ => forward_pure _

/-- The end of a line may be the end of the list, where nothing is taken. -/
theorem forward_lineEnd : Forward lineEnd := by
  apply forward_bind forward_comment
  intro text
  apply forward_bind forward_current
  intro t
  apply forward_ite
  · exact forward_bind forward_advance fun _ => forward_pure _
  · exact forward_ite (forward_pure _) (forward_fail _ _)

theorem forward_labelColon (colon : Bool) : Forward (labelColon colon) := by
  refine forward_ite ?_ (forward_pure _)
  exact forward_bind (forward_expect _ _) fun _ => forward_pure _

end Parse

namespace Parser

open Parse

/-- A parser in front of a token list. -/
def ofTokens (ts : List Token) : Parser where cursor := .ofTokens ts

/-- What has been read so far. -/
def program (s : Parser) : Program := ⟨s.instructions.toList, s.labels.toList⟩

/-- An action on a parser. -/
abbrev Action := EStateM ParseError Parser

/-- An action on the tokens alone. -/
def onTokens {α : Type} (p : Parse α) : Action α := fun s =>
  match p s.cursor with
  | .ok a c => .ok a { s with cursor := c }
  | .error e c => .error e { s with cursor := c }

/-- Adds an instruction. -/
def addInstruction (i : Instruction) : Action Unit := fun s =>
  .ok () { s with instructions := s.instructions.push i }

/-- Adds a label declaration. -/
def addLabel (l : Label) : Action Unit := fun s => .ok () { s with labels := s.labels.push l }

/-- Leaves a label to the next instruction. -/
def setPending (l : Label) : Action Unit := fun s => .ok () { s with pending := some l }

/-- The name of the pending label, which is pending no longer. -/
def takePending : Action (Option String) := fun s =>
  .ok (s.pending.map (·.name)) { s with pending := none }

/-- Gives a pending label an instruction of its own. -/
def flushPending : Action Unit := fun s =>
  match s.pending with
  | some l => .ok () { s with instructions := s.instructions.push (.anchor l), pending := none }
  | none => .ok () s

/-- Declares the label at the cursor, with a colon behind it or without. -/
def declareLabel (colon : Bool) : Action Label := do
  let t ← onTokens (expect (.kinds [.ident]) [.ident])
  onTokens (labelColon colon)
  flushPending
  addLabel ⟨t.text, t.pos⟩
  return ⟨t.text, t.pos⟩

/-- An instruction up to the end of its line. -/
def instructionLine (label : Option String) : Action Unit := do
  let i ← onTokens (instruction label)
  addInstruction i
  onTokens lineEnd

/-- What follows a label with a colon: one more such label, the end of the line, or the instruction
of the label. -/
def afterLabel (l : Label) : Action Unit := do
  let t ← onTokens current
  let u ← onTokens (peek 1)
  if t.kind = .ident ∧ u.kind = .mark .colon then setPending l
  else if t.kind.endsLine then do
    setPending l
    onTokens lineEnd
  else instructionLine (some l.name)

/-- A statement. -/
def statement : Action Unit := do
  let t ← onTokens current
  let u ← onTokens (peek 1)
  if t.kind = .ident ∧ u.kind = .mark .colon then do
    let l ← declareLabel true
    afterLabel l
  else if t.kind = .ident ∧ u.kind = .ident ∧ isLabelKeyword u.text then do
    let l ← declareLabel false
    instructionLine (some l.name)
  else if t.kind = .ident then do
    let label ← takePending
    instructionLine label
  else onTokens (fail (.noStatement t.toWord) t)

/-! ### Progress -/

section
variable {α : Type}

/-- What moves a cursor forward moves a parser forward. -/
theorem forward_onTokens {p : Parse α} (hp : Forward p) : Forward (onTokens p) := by
  intro s
  unfold onTokens
  cases h : p s.cursor with
  | ok a c => exact hp.of_ok h
  | error e c => exact hp.of_error h

theorem advancing_onTokens {p : Parse α} (hp : Advancing p) : Advancing (onTokens p) := by
  refine ⟨forward_onTokens hp.forward, ?_⟩
  intro s a s' h
  unfold onTokens at h
  cases hc : p s.cursor with
  | ok b c =>
    simp only [hc, EStateM.Result.ok.injEq] at h
    rw [← h.2]
    exact hp.consuming _ _ _ hc
  | error e c => simp [hc] at h

end

theorem forward_addInstruction (i : Instruction) : Forward (addInstruction i) := fun _ => .refl _

theorem forward_addLabel (l : Label) : Forward (addLabel l) := fun _ => .refl _

theorem forward_setPending (l : Label) : Forward (setPending l) := fun _ => .refl _

theorem forward_takePending : Forward takePending := fun _ => .refl _

/-- The anchor of a label takes no token. -/
theorem forward_flushPending : Forward flushPending := by
  intro s
  unfold flushPending
  split <;> exact .refl _

/-- A label takes at least its name. -/
theorem advancing_declareLabel (colon : Bool) : Advancing (declareLabel colon) := by
  apply advancing_bind (advancing_onTokens (advancing_expect (by decide)))
  intro t
  apply forward_bind (forward_onTokens (forward_labelColon _))
  intro _
  apply forward_bind forward_flushPending
  intro _
  exact forward_bind (forward_addLabel _) fun _ => forward_pure _

theorem advancing_instructionLine (label : Option String) : Advancing (instructionLine label) := by
  apply advancing_bind (advancing_onTokens (advancing_instruction _))
  intro i
  exact forward_bind (forward_addInstruction i) fun _ => forward_onTokens forward_lineEnd

/-- A label may be all that there is. -/
theorem forward_afterLabel (l : Label) : Forward (afterLabel l) := by
  apply forward_bind (forward_onTokens forward_current)
  intro t
  apply forward_bind (forward_onTokens (forward_peek 1))
  intro u
  apply forward_ite (forward_setPending _)
  refine forward_ite ?_ (advancing_instructionLine _).forward
  exact forward_bind (forward_setPending _) fun _ => forward_onTokens forward_lineEnd

theorem advancing_fail (fault : ParseFault) (t : Token) :
    Advancing (onTokens (fail fault t) : Action Unit) := by
  refine ⟨forward_onTokens (forward_fail fault t), ?_⟩
  intro s a s' h
  simp [onTokens, fail] at h

/-- A statement takes at least one token, or fails. -/
theorem advancing_statement : Advancing statement := by
  apply advancing_bind_right (forward_onTokens forward_current)
  intro t
  apply advancing_bind_right (forward_onTokens (forward_peek 1))
  intro u
  apply advancing_ite
  · exact advancing_bind (advancing_declareLabel _) fun _ => forward_afterLabel _
  apply advancing_ite
  · apply advancing_bind (advancing_declareLabel _)
    intro l
    exact (advancing_instructionLine _).forward
  apply advancing_ite
  · exact advancing_bind_right forward_takePending fun _ => advancing_instructionLine _
  · exact advancing_fail _ _

/-! ### Programs -/

/-- Reads to the end of the tokens. The program holds everything read, also by earlier actions. -/
def run : Action Program := fun s =>
  if s.cursor.current.kind = .eof then (do flushPending; return (← get).program) s
  else if s.cursor.current.kind = .newline ∨ s.cursor.current.kind = .comment then
    run { s with cursor := s.cursor.advance }
  else
    match _ : statement s with
    | .ok () s' => run s'
    | .error e s' => .error e s'
termination_by s => s.cursor.ahead.length
decreasing_by
  · exact Cursor.length_ahead_advance (by assumption)
  · exact advancing_statement.consuming _ _ _ (by assumption)

/-- One round of the loop over statements. -/
theorem run_eq (s : Parser) :
    run s =
      if s.cursor.current.kind = .eof then (do flushPending; return (← get).program) s
      else if s.cursor.current.kind = .newline ∨ s.cursor.current.kind = .comment then
        run { s with cursor := s.cursor.advance }
      else
        match statement s with
        | .ok () s' => run s'
        | .error e s' => .error e s' := by
  rw [run]
  split
  · rfl
  split
  · rfl
  · split
    · next hr => rw [hr]
    · next hr => rw [hr]

end Parser

/-- The program that a token list forms. -/
def parse (ts : List Token) : Except ParseError Program :=
  match Parser.run (.ofTokens ts) with
  | .ok p _ => .ok p
  | .error e _ => .error e

/-- Why a source text is no program. -/
inductive SourceError where
  | reading (e : StreamError)
  | grammar (e : ParseError)
deriving DecidableEq, Repr

/-- The program that a source text spells. -/
def parseSource (source : String) : Except SourceError Program :=
  match tokenize source with
  | .error e => .error (.reading e)
  | .ok ts =>
    match parse ts with
    | .ok p => .ok p
    | .error e => .error (.grammar e)

end IntelAsm

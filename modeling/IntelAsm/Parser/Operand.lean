import IntelAsm.Parser.Expression

/-!
# Operands

    operand ::= [size] (register | string | address | register ":" address | expr)
    address ::= "[" [register ":"] [first] { ("+" | "-") term } "]"
    first   ::= register | number
    term    ::= register ["*" number] | number

An address has at least one term, and a segment only once. A register with a sign is the index, and
there may be one of them; the last number is the displacement.
-/

namespace IntelAsm

/-- The operand that an expression is: a single literal is an immediate value and a single symbol
refers to a label. -/
def OperandForm.ofExpr : Expr → OperandForm
  | .literal v h _ => .immediate v h
  | .symbol name _ => .labelRef name
  | e => .expression e

namespace Parse

/-! ### Addresses -/

/-- The value of a numeric literal, which has to come next. -/
def number (what : Expected) : Parse Int := do
  let t ← current
  if t.kind.isNumeric then takeValue t.value else fail (.expected what t.toWord) t

/-- The scale behind an index, if there is one. -/
def scale (a : Address) : Parse Address := do
  let t ← current
  if t.kind = .mark .star then do
    let _ ← advance
    let n ← number .scale
    return { a with scale := n }
  else return a

/-- A term of an address, with its sign in front. -/
def signedTerm (a : Address) : Parse Address := do
  let sign ← expect .addressTerm [.mark .plus, .mark .minus]
  let t ← current
  if t.kind = .register then
    if a.index.isSome then fail .secondIndex t
    else do
      let _ ← advance
      scale { a with index := some t.text }
  else if t.kind.isNumeric then do
    let n ← number .number
    let n := if sign.kind = .mark .plus then n else Numeral.signedWord (-n)
    return { a with displacement := some n }
  else fail (.expected (.signedTerm sign.text) t.toWord) t

/-- The first term of an address, which may have no sign; one with a sign is left to what
follows. -/
def firstTerm (a : Address) : Parse Address := do
  let t ← current
  if t.kind = .register then do
    let _ ← advance
    return { a with base := some t.text }
  else if t.kind.isNumeric then do
    let n ← number .number
    return { a with displacement := some n }
  else if t.kind = .mark .plus ∨ t.kind = .mark .minus then return a
  else fail (.expected .addressTerm t.toWord) t

/-- The segment inside the brackets, if none stands in front of them. -/
def innerSegment (segment : Option String) : Parse (Option String) := do
  let t ← current
  let u ← peek 1
  if segment.isNone ∧ t.kind = .register ∧ u.kind = .mark .colon then do
    let _ ← advance
    let _ ← advance
    return some t.text
  else return segment

/-! ### Progress -/

theorem forward_number (what : Expected) : Forward (number what) := by
  apply forward_bind forward_current
  intro t
  exact forward_ite (forward_takeValue _) (forward_fail _ _)

theorem forward_scale (a : Address) : Forward (scale a) := by
  apply forward_bind forward_current
  intro t
  apply forward_ite
  · apply forward_bind forward_advance
    intro _
    exact forward_bind (forward_number _) fun _ => forward_pure _
  · exact forward_pure _

theorem advancing_signedTerm (a : Address) : Advancing (signedTerm a) := by
  apply advancing_bind (advancing_expect (by decide))
  intro sign
  apply forward_bind forward_current
  intro t
  apply forward_ite
  · apply forward_ite (forward_fail _ _)
    exact forward_bind forward_advance fun _ => forward_scale _
  · refine forward_ite ?_ (forward_fail _ _)
    exact forward_bind (forward_number _) fun _ => forward_pure _

theorem forward_firstTerm (a : Address) : Forward (firstTerm a) := by
  apply forward_bind forward_current
  intro t
  apply forward_ite
  · exact forward_bind forward_advance fun _ => forward_pure _
  · apply forward_ite
    · exact forward_bind (forward_number _) fun _ => forward_pure _
    · exact forward_ite (forward_pure _) (forward_fail _ _)

theorem forward_innerSegment (segment : Option String) : Forward (innerSegment segment) := by
  apply forward_bind forward_current
  intro t
  apply forward_bind (forward_peek 1)
  intro u
  refine forward_ite ?_ (forward_pure _)
  apply forward_bind forward_advance
  intro _
  exact forward_bind forward_advance fun _ => forward_pure _

/-- The terms of an address that have a sign. -/
def signedTerms (a : Address) : Parse Address := fun c =>
  if c.current.kind = .mark .plus ∨ c.current.kind = .mark .minus then
    match _ : signedTerm a c with
    | .ok a' c' => signedTerms a' c'
    | .error e c' => .error e c'
  else .ok a c
termination_by c => c.ahead.length
decreasing_by exact (advancing_signedTerm a).consuming _ _ _ (by assumption)

/-- One round of the loop over signed terms. -/
theorem signedTerms_eq (a : Address) (c : Cursor) :
    signedTerms a c =
      if c.current.kind = .mark .plus ∨ c.current.kind = .mark .minus then
        match signedTerm a c with
        | .ok a' c' => signedTerms a' c'
        | .error e c' => .error e c'
      else .ok a c := by
  rw [signedTerms]
  split
  · split
    · next hr => rw [hr]
    · next hr => rw [hr]
  · rfl

theorem forward_signedTerms (a : Address) : Forward (signedTerms a) := by
  intro c
  fun_induction signedTerms a c with
  | case1 a c h a' c' hc ih => exact ((advancing_signedTerm a).forward.of_ok hc).trans ih
  | case2 a c h e c' hc => exact (advancing_signedTerm a).forward.of_error hc
  | case3 a c h => exact .refl c

/-- An address in brackets; `segment` is the one in front of them. -/
def address (segment : Option String) : Parse Address := do
  let _ ← expect (.kinds [.mark .leftBracket]) [.mark .leftBracket]
  let segment ← innerSegment segment
  let a ← firstTerm { segment }
  let a ← signedTerms a
  let _ ← expect .closingBracket [.mark .rightBracket]
  return a

theorem forward_address (segment : Option String) : Forward (address segment) := by
  apply forward_bind (forward_expect _ _)
  intro _
  apply forward_bind (forward_innerSegment _)
  intro s
  apply forward_bind (forward_firstTerm _)
  intro a
  apply forward_bind (forward_signedTerms a)
  intro a'
  exact forward_bind (forward_expect _ _) fun _ => forward_pure _

/-! ### Operands of all kinds -/

/-- The size specifier in front of an operand, if there is one. -/
def sizeSpecifier : Parse (Option Int) := do
  let t ← current
  match t.kind with
  | .size w => do
    let _ ← advance
    return some w.bits
  | _ => return none

/-- An operand in memory. -/
def memoryOperand (pos : Pos) (size : Option Int) (segment : Option String) : Parse Operand := do
  let a ← address segment
  return { form := .memory a, size, pos }

/-- A register, or the segment of an operand in memory. -/
def registerOperand (pos : Pos) (size : Option Int) (register : Token) : Parse Operand := do
  let t ← peek 1
  let u ← peek 2
  let _ ← advance
  if t.kind = .mark .colon ∧ u.kind = .mark .leftBracket then do
    let _ ← advance
    memoryOperand pos size (some register.text)
  else return { form := .register register.text, size, pos }

/-- An operand; it stands where its first token does. -/
def operand : Parse Operand := do
  let start ← current
  let size ← sizeSpecifier
  let t ← current
  if t.kind = .mark .leftBracket then memoryOperand start.pos size none
  else if t.kind = .register then registerOperand start.pos size t
  else if t.kind = .string then do
    let _ ← advance
    return { form := .string t.text, size, pos := start.pos }
  else do
    let e ← expression
    return { form := .ofExpr e, size, pos := start.pos }

theorem forward_sizeSpecifier : Forward sizeSpecifier := by
  apply forward_bind forward_current
  intro t
  split
  · exact forward_bind forward_advance fun _ => forward_pure _
  · exact forward_pure _

theorem forward_memoryOperand (pos : Pos) (size : Option Int) (segment : Option String) :
    Forward (memoryOperand pos size segment) :=
  forward_bind (forward_address _) fun _ => forward_pure _

theorem forward_registerOperand (pos : Pos) (size : Option Int) (register : Token) :
    Forward (registerOperand pos size register) := by
  apply forward_bind (forward_peek 1)
  intro t
  apply forward_bind (forward_peek 2)
  intro u
  apply forward_bind forward_advance
  intro _
  refine forward_ite ?_ (forward_pure _)
  exact forward_bind forward_advance fun _ => forward_memoryOperand _ _ _

theorem forward_operand : Forward operand := by
  apply forward_bind forward_current
  intro start
  apply forward_bind forward_sizeSpecifier
  intro size
  apply forward_bind forward_current
  intro t
  apply forward_ite (forward_memoryOperand _ _ _)
  apply forward_ite (forward_registerOperand _ _ _)
  apply forward_ite
  · exact forward_bind forward_advance fun _ => forward_pure _
  · exact forward_bind forward_expression fun _ => forward_pure _

/-- An operand behind a comma. -/
def nextOperand : Parse Operand := do
  let _ ← expect (.kinds [.mark .comma]) [.mark .comma]
  operand

theorem advancing_nextOperand : Advancing nextOperand :=
  advancing_bind (advancing_expect (by decide)) fun _ => forward_operand

/-- The operands behind the first one, each with a comma in front. -/
def moreOperands : Parse (List Operand) := fun c =>
  if c.current.kind = .mark .comma then
    match _ : nextOperand c with
    | .ok o c' =>
      match moreOperands c' with
      | .ok os c'' => .ok (o :: os) c''
      | .error e c'' => .error e c''
    | .error e c' => .error e c'
  else .ok [] c
termination_by c => c.ahead.length
decreasing_by exact advancing_nextOperand.consuming _ _ _ (by assumption)

/-- One round of the loop over operands. -/
theorem moreOperands_eq (c : Cursor) :
    moreOperands c =
      if c.current.kind = .mark .comma then
        match nextOperand c with
        | .ok o c' =>
          match moreOperands c' with
          | .ok os c'' => .ok (o :: os) c''
          | .error e c'' => .error e c''
        | .error e c' => .error e c'
      else .ok [] c := by
  rw [moreOperands]
  split
  · split
    · next hr => rw [hr]
    · next hr => rw [hr]
  · rfl

theorem forward_moreOperands : Forward moreOperands := by
  intro c
  fun_induction moreOperands c with
  | case1 c h o c' hc os c'' hr ih =>
    rw [hr] at ih
    exact (advancing_nextOperand.forward.of_ok hc).trans ih
  | case2 c h o c' hc e c'' hr ih =>
    rw [hr] at ih
    exact (advancing_nextOperand.forward.of_ok hc).trans ih
  | case3 c h e c' hc => exact advancing_nextOperand.forward.of_error hc
  | case4 c h => exact .refl c

/-- One or more operands, separated by commas. -/
def operands : Parse (List Operand) := do
  let o ← operand
  let os ← moreOperands
  return o :: os

theorem forward_operands : Forward operands := by
  apply forward_bind forward_operand
  intro o
  exact forward_bind forward_moreOperands fun _ => forward_pure _

end Parse

end IntelAsm

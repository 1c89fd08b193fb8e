import IntelAsm.Proofs.Expression.Descent

/-!
# Expressions on two stacks

The same expressions, read with one stack of operands and one of operators, a count of the open
parentheses and a flag that tells whether an operand is due. Here nothing in the types keeps the two
stacks in balance: an operator may find too few operands, a closing parenthesis may find no opening
one, and an operator may have no precedence. Each of these is a `StackFault`.

The operators of a draft are the operator stack, cut at its parentheses and with each left operand
beside its operator (`Images`). So the reading on two stacks never meets a fault and yields what the
draft yields (`expression_eq_ok`), which is what the recursive grammar yields
(`expression_eq_descent`).
-/

namespace IntelAsm

/-- A state that a reading on two stacks must never reach. -/
inductive StackFault where
  /-- An operator is asked of an empty stack. -/
  | noOperator
  /-- An operand is asked of an empty stack. -/
  | noOperand
  /-- An operator on the stack has no precedence. -/
  | noPrecedence
deriving DecidableEq, Repr

/-- Two stacks, the top of each first. -/
structure Stacks where
  operators : List (OperatorRole × Token) := []
  operands : List Expr := []
  openParens : Nat := 0
  /-- Whether an operand has to come next. -/
  due : Bool := true
deriving DecidableEq, Repr

namespace Stacks

/-! ### Folding operators -/

/-- Folds an operator that was popped over the top of the operands. -/
def fold (entry : OperatorRole × Token) : List Expr → Except StackFault (List Expr)
  | [] => .error .noOperand
  | e :: es =>
    if entry.1 = .sign then .ok (.unary entry.2.text e entry.2.pos :: es)
    else
      match es with
      | [] => .error .noOperand
      | l :: es => .ok (.binary entry.2.text l e l.pos :: es)

/-- Folds the operators that bind at least as tightly as the one to come. -/
def foldDownTo (n : Nat) : List (OperatorRole × Token) → List Expr →
    Except StackFault (List (OperatorRole × Token) × List Expr)
  | [], es => .ok ([], es)
  | entry :: ops, es =>
    match entry.1.binding? with
    | none => .error .noPrecedence
    | some b =>
      if n ≤ b then do
        let es ← fold entry es
        foldDownTo n ops es
      else .ok (entry :: ops, es)

/-- Folds the operators down to the nearest open parenthesis, which is popped. -/
def foldToParen : List (OperatorRole × Token) → List Expr →
    Except StackFault (List (OperatorRole × Token) × List Expr)
  | [], _ => .error .noOperator
  | entry :: ops, es =>
    if entry.1 = .openParen then .ok (ops, es)
    else do
      let es ← fold entry es
      foldToParen ops es

/-- Folds all operators. -/
def foldAll : List (OperatorRole × Token) → List Expr → Except StackFault (List Expr)
  | [], es => .ok es
  | entry :: ops, es => do
    let es ← fold entry es
    foldAll ops es

/-! ### Reading -/

/-- The expression, where no token continues it. -/
def finish (s : Stacks) (c : Cursor) :
    Except StackFault (EStateM.Result ParseError Cursor Expr) :=
  if s.due then .ok (Parse.fail (.noOperand c.current.toWord) c.current c)
  else if s.openParens ≠ 0 then
    .ok (Parse.fail (.expected .closingParen c.current.toWord) c.current c)
  else do
    let es ← foldAll s.operators s.operands
    match es with
    | [] => .error .noOperand
    | e :: _ => return .ok e c

/-- Reads on, between the tokens passed and those ahead. -/
def resume (s : Stacks) (past : List Token) :
    List Token → Except StackFault (EStateM.Result ParseError Cursor Expr)
  | [] => s.finish ⟨past, []⟩
  | t :: ts =>
    if s.due then
      if t.kind = .mark .plus ∨ t.kind = .mark .minus then
        resume { s with operators := (.sign, t) :: s.operators } (t :: past) ts
      else if t.kind = .mark .leftParen then
        resume
          { s with operators := (.openParen, t) :: s.operators, openParens := s.openParens + 1 }
          (t :: past) ts
      else
        match t.operand? with
        | some (.ok e) =>
          resume { s with operands := e :: s.operands, due := false } (t :: past) ts
        | some (.error f) => .ok (.error ⟨f, t.pos⟩ ⟨t :: past, ts⟩)
        | none => s.finish ⟨past, t :: ts⟩
    else
      match precedence? t.kind with
      | some n => do
        let (ops, es) ← foldDownTo n s.operators s.operands
        resume { s with operators := (.between t.kind, t) :: ops, operands := es, due := true }
          (t :: past) ts
      | none =>
        if t.kind = .mark .rightParen ∧ s.openParens ≠ 0 then do
          let (ops, es) ← foldToParen s.operators s.operands
          resume { s with operators := ops, operands := es, openParens := s.openParens - 1 }
            (t :: past) ts
        else s.finish ⟨past, t :: ts⟩

/-- An expression, read on two stacks. -/
def expression (c : Cursor) : Except StackFault (EStateM.Result ParseError Cursor Expr) :=
  ({} : Stacks).resume c.past c.ahead

/-! ### Drafts as stacks -/

/-- The waiting operators of a draft, inside the innermost parenthesis and outside of it, are an
operator stack and the left operands below the top of an operand stack, with so many parentheses
open. -/
inductive Images : List Pending → List (List Pending) →
    List (OperatorRole × Token) → List Expr → Nat → Prop
  | nil : Images [] [] [] [] 0
  | sign {g o ops ls n} (t : Token) :
    Images g o ops ls n → Images (.sign t :: g) o ((.sign, t) :: ops) ls n
  | between {g o ops ls n k} {t : Token} (l : Expr) :
    Images g o ops ls n → precedence? t.kind = some k →
      Images (.between l t.text k :: g) o ((.between t.kind, t) :: ops) (l :: ls) n
  | paren {g o ops ls n} (t : Token) :
    Images g o ops ls n → Images [] (g :: o) ((.openParen, t) :: ops) ls (n + 1)

variable {g : List Pending} {o : List (List Pending)} {ops : List (OperatorRole × Token)}
  {ls : List Expr} {n : Nat}

theorem Images.openParens_eq (h : Images g o ops ls n) : n = o.length := by
  induction h with
  | nil => rfl
  | sign t _ ih => exact ih
  | between l _ _ ih => exact ih
  | paren t _ ih => rw [ih, List.length_cons]

/-- Folding down to a precedence is completing down to it, and leaves the stacks of what still
waits. -/
theorem Images.foldDownTo {k : Nat} (hk : 1 ≤ k) (h : Images g o ops ls n) (e : Expr) :
    ∃ ops' ls', Stacks.foldDownTo k ops (e :: ls) = .ok (ops', (completeDownTo k g e).2 :: ls') ∧
      Images (completeDownTo k g e).1 o ops' ls' n := by
  induction h generalizing e with
  | nil => exact ⟨[], [], rfl, .nil⟩
  | @sign g o ops ls n t hg ih =>
    by_cases hb : k ≤ signBinding
    · obtain ⟨ops', ls', hf, hi⟩ := ih (.unary t.text e t.pos)
      rw [completeDownTo_cons_of_le (p := .sign t) hb]
      refine ⟨ops', ls', ?_, hi⟩
      simpa [Stacks.foldDownTo, OperatorRole.binding?, hb, fold, bind, Except.bind] using hf
    · rw [completeDownTo_cons_of_lt (p := .sign t) (Nat.lt_of_not_le hb)]
      refine ⟨_, _, ?_, .sign t hg⟩
      simp [Stacks.foldDownTo, OperatorRole.binding?, hb]
  | @between g o ops ls n p t l hg hp ih =>
    by_cases hb : k ≤ p
    · obtain ⟨ops', ls', hf, hi⟩ := ih (.binary t.text l e l.pos)
      rw [completeDownTo_cons_of_le (p := .between l t.text p) hb]
      refine ⟨ops', ls', ?_, hi⟩
      simpa [Stacks.foldDownTo, OperatorRole.binding?, hp, hb, fold, bind, Except.bind] using hf
    · rw [completeDownTo_cons_of_lt (p := .between l t.text p) (Nat.lt_of_not_le hb)]
      refine ⟨_, _, ?_, .between l hg hp⟩
      simp [Stacks.foldDownTo, OperatorRole.binding?, hp, hb]
  | @paren g o ops ls n t hg =>
    refine ⟨_, _, ?_, .paren t hg⟩
    have hb : ¬k ≤ 0 := by omega
    simp [Stacks.foldDownTo, OperatorRole.binding?, hb]

/-- Folding to the nearest parenthesis completes a group and leaves the stacks of those around. -/
theorem Images.foldToParen {h : List Pending} (hi : Images g (h :: o) ops ls n) (e : Expr) :
    ∃ ops' ls' m, n = m + 1 ∧
      Stacks.foldToParen ops (e :: ls) = .ok (ops', completeAll g e :: ls') ∧
      Images h o ops' ls' m := by
  -- the groups around stay as they are until the parenthesis is met
  generalize ho : h :: o = outer at hi
  induction hi generalizing e with
  | nil => cases ho
  | @sign g o' ops ls n t hg ih =>
    obtain ⟨ops', ls', m, hn, hf, hm⟩ := ih (.unary t.text e t.pos) ho
    refine ⟨ops', ls', m, hn, ?_, hm⟩
    simpa [Stacks.foldToParen, fold, bind, Except.bind] using hf
  | @between g o' ops ls n p t l hg hp ih =>
    obtain ⟨ops', ls', m, hn, hf, hm⟩ := ih (.binary t.text l e l.pos) ho
    refine ⟨ops', ls', m, hn, ?_, hm⟩
    simpa [Stacks.foldToParen, fold, bind, Except.bind] using hf
  | @paren g o' ops ls n t hg =>
    cases ho
    exact ⟨ops, ls, n, rfl, by simp [Stacks.foldToParen], hg⟩

/-- Without an open parenthesis all operators fold to the completed expression. -/
theorem Images.foldAll (hi : Images g [] ops ls n) (e : Expr) :
    Stacks.foldAll ops (e :: ls) = .ok [completeAll g e] := by
  generalize ho : ([] : List (List Pending)) = outer at hi
  induction hi generalizing e with
  | nil => rfl
  | @sign g o' ops ls n t hg ih =>
    have hf := ih (.unary t.text e t.pos) ho
    simpa [Stacks.foldAll, fold, bind, Except.bind] using hf
  | @between g o' ops ls n p t l hg hp ih =>
    have hf := ih (.binary t.text l e l.pos) ho
    simpa [Stacks.foldAll, fold, bind, Except.bind] using hf
  | paren => cases ho

/-! ### No fault is reached -/

/-- The stacks of a draft; the operand read last is on top. -/
def ofDraft (d : Draft) (ops : List (OperatorRole × Token)) (ls : List Expr) (n : Nat) :
    Stacks where
  operators := ops
  operands := d.operand.toList ++ ls
  openParens := n
  due := d.operand.isNone

theorem finish_eq_ok {d : Draft} (h : Images d.group d.outer ops ls n) (c : Cursor) :
    (ofDraft d ops ls n).finish c = .ok (d.finish c) := by
  obtain ⟨g, o, x⟩ := d
  cases x with
  | none => rfl
  | some e =>
    cases o with
    | nil =>
      have hn : n = 0 := h.openParens_eq
      simp [finish, ofDraft, hn, h.foldAll e, bind, Except.bind, pure, Except.pure, Draft.finish]
    | cons a o =>
      have hn : n ≠ 0 := by
        rw [h.openParens_eq]
        exact Nat.succ_ne_zero _
      simp [finish, ofDraft, hn, Draft.finish]

/-- Stacks and the draft whose image they are read the same. -/
theorem resume_eq_ok {d : Draft} (h : Images d.group d.outer ops ls n) (past ahead : List Token) :
    (ofDraft d ops ls n).resume past ahead = .ok (d.resume past ahead) := by
  induction ahead generalizing d ops ls n past with
  | nil => exact finish_eq_ok h _
  | cons t ts ih =>
    obtain ⟨g, o, _ | e⟩ := d
    · -- an operand is due
      rw [resume, Draft.resume]
      by_cases hs : t.kind = .mark .plus ∨ t.kind = .mark .minus
      · rw [Draft.step_sign hs]
        simpa [ofDraft, hs] using ih (d := ⟨.sign t :: g, o, none⟩) (.sign t h) (t :: past)
      by_cases hp : t.kind = .mark .leftParen
      · rw [Draft.step_leftParen hp]
        simpa [ofDraft, hp] using ih (d := ⟨[], g :: o, none⟩) (.paren t h) (t :: past)
      rw [Draft.step_operand hs hp]
      simp only [ofDraft, Option.isNone_none, if_true, hs, hp, if_false]
      cases t.operand? with
      | none => exact finish_eq_ok h _
      | some v =>
        cases v with
        | error f => rfl
        | ok e => exact ih (d := ⟨g, o, some e⟩) h (t :: past)
    · -- an operand was read, so both stacks hold one
      rw [resume, Draft.resume]
      cases hp : precedence? t.kind with
      | some k =>
        rw [Draft.step_of_precedence hp]
        obtain ⟨ops', ls', hf, hi⟩ := Images.foldDownTo (one_le_precedence? hp) h e
        have hr := ih (d := ⟨_, o, none⟩) (.between (completeDownTo k g e).2 hi hp) (t :: past)
        simpa [ofDraft, hf, bind, Except.bind] using hr
      | none =>
        by_cases hr : t.kind = .mark .rightParen ∧ n ≠ 0
        · cases o with
          | nil => exact absurd h.openParens_eq hr.2
          | cons a o =>
            rw [Draft.step_rightParen hr.1]
            obtain ⟨ops', ls', m, rfl, hf, hi⟩ := Images.foldToParen h e
            have hm := ih (d := ⟨a, o, some (completeAll g e)⟩) hi (t :: past)
            simpa [ofDraft, hr.1, hf, bind, Except.bind] using hm
        · -- a parenthesis that closes none of those open ends the expression
          have ho : t.kind = .mark .rightParen → o = [] := fun hk => by
            have hn : n = 0 := by simpa [hk] using hr
            exact List.eq_nil_of_length_eq_zero (h.openParens_eq.symm.trans hn)
          rw [Draft.step_eq_stop hp ho]
          exact (if_neg hr).trans (finish_eq_ok h _)

/-- The reading on two stacks reaches no fault, and it is the reading of expressions. -/
theorem expression_eq_ok (c : Cursor) : expression c = .ok (Parse.expression c) :=
  resume_eq_ok (d := {}) .nil c.past c.ahead

/-- On two stacks or on a draft, reading an expression is reading it by recursive descent: the same
tree and the same cursor, or the same fault at the same place. -/
theorem expression_eq_descent (c : Cursor) :
    expression c = .ok (Descent.expression c) ∧ Parse.expression c = Descent.expression c := by
  have h : Parse.expression c = Descent.expression c := Descent.expression_eq c
  refine ⟨?_, h⟩
  rw [expression_eq_ok, h]

end Stacks

end IntelAsm

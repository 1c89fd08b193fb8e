import IntelAsm.Proofs.Respelling.Basic

/-!
# Respelled expressions and operands

Every action that reads a part of an operand commutes with a lawful respelling: the loops round by
round, and the draft of an expression token by token (`step_draft`).
-/

namespace IntelAsm

namespace Respelling

open Parse

section
variable {f : Respelling} (hf : f.Lawful)
include hf

/-! ### Expressions -/

omit hf in
/-- A fault in the value of a word is not respelled. -/
theorem fault_of_value {w : Word} {e : ParseFault} (h : w.value = .error e) : f.fault e = e := by
  unfold Word.value at h
  split at h
  · split at h
    · split at h <;> cases h
      rfl
    · cases h
      rfl
  · dsimp only at h
    split at h
    · cases h
      rfl
    · split at h
      · split at h <;> cases h
        rfl
      · cases h
        rfl

/-- The value of a numeral is what it was, and so is its fault. -/
theorem value_token {t : Token} (hk : t.kind.isNumeric) :
    (f.token t).value = (t.value.map id).mapError f.fault := by
  have hv : (f.token t).value = t.value := hf.value t.toWord hk
  rw [hv]
  cases h : t.value with
  | ok n => rfl
  | error e =>
    show Except.error e = Except.error (f.fault e)
    rw [fault_of_value h]

/-- A respelled token is the operand that its token was, in its new spelling. -/
theorem operand?_token (t : Token) :
    (f.token t).operand? = t.operand?.map fun v => (v.map f.expr).mapError f.fault := by
  unfold Token.operand?
  by_cases hn : t.kind.isNumeric = true
  · have hn' : (f.token t).kind.isNumeric = true := hn
    rw [if_pos hn, if_pos hn', value_token hf hn]
    cases t.value <;> rfl
  have hn' : ¬(f.token t).kind.isNumeric = true := hn
  rw [if_neg hn, if_neg hn']
  by_cases hd : t.kind = .mark .dollar
  · have hd' : (f.token t).kind = .mark .dollar := hd
    rw [if_pos hd, if_pos hd']
    rfl
  have hd' : ¬(f.token t).kind = .mark .dollar := hd
  rw [if_neg hd, if_neg hd']
  by_cases hi : t.kind = .ident
  · have hi' : (f.token t).kind = .ident := hi
    rw [if_pos hi, if_pos hi']
    have htext : (f.token t).text = f.text .ident t.text := by simp [token, word, hi]
    rw [htext]
    rfl
  · have hi' : ¬(f.token t).kind = .ident := hi
    rw [if_neg hi, if_neg hi']
    rfl

omit hf in
@[simp] theorem pos_expr (e : Expr) : (f.expr e).pos = f.place e.pos := by
  cases e <;> rfl

variable (f) in
/-- A waiting operator in its new place. -/
def pending : Pending → Pending
  | .sign op => .sign { op with pos := f.place op.pos }
  | .between l op n => .between (f.expr l) op n

variable (f) in
/-- A draft in its new spelling. -/
def draft (d : Draft) : Draft where
  group := d.group.map f.pending
  outer := d.outer.map (·.map f.pending)
  operand := d.operand.map f.expr

variable (f) in
/-- What a token does to a draft, in the new spelling. -/
def draftStep : DraftStep → DraftStep
  | .next d => .next (f.draft d)
  | .stop => .stop
  | .fault e => .fault (f.fault e)

omit hf in
/-- To complete an operator is the same before and after a respelling. -/
theorem complete_pending (p : Pending) (e : Expr) :
    (f.pending p).complete (f.expr e) = f.expr (p.complete e) := by
  cases p with
  | sign op => rfl
  | between l op n =>
    show Expr.binary op (f.expr l) (f.expr e) (f.expr l).pos = _
    rw [pos_expr]
    rfl

omit hf in
/-- Operators are completed down to a precedence as they were before. -/
theorem completeDownTo_pending (n : Nat) (ps : List Pending) (e : Expr) :
    completeDownTo n (ps.map f.pending) (f.expr e) =
      ((completeDownTo n ps e).1.map f.pending, f.expr (completeDownTo n ps e).2) := by
  induction ps generalizing e with
  | nil => rfl
  | cons p ps ih =>
    have hb : (f.pending p).binding = p.binding := by cases p <;> rfl
    by_cases hn : n ≤ p.binding
    · rw [List.map_cons, completeDownTo_cons_of_le (hb ▸ hn), completeDownTo_cons_of_le hn,
        complete_pending, ih]
    · have hlt : p.binding < n := Nat.lt_of_not_le hn
      rw [List.map_cons, completeDownTo_cons_of_lt (hb ▸ hlt), completeDownTo_cons_of_lt hlt]
      rfl

omit hf in
/-- All operators of a group are completed as they were before. -/
theorem completeAll_pending (ps : List Pending) (e : Expr) :
    completeAll (ps.map f.pending) (f.expr e) = f.expr (completeAll ps e) := by
  induction ps generalizing e with
  | nil => rfl
  | cons p ps ih =>
    rw [List.map_cons, completeAll_cons, completeAll_cons, complete_pending, ih]

/-- One step of a draft in respelled tokens is the respelled step. -/
theorem step_draft (d : Draft) (t : Token) :
    (f.draft d).step (f.token t) = f.draftStep (d.step t) := by
  rcases d with ⟨g, o, _ | e⟩
  · by_cases hs : t.kind = .mark .plus ∨ t.kind = .mark .minus
    · have htext : (f.token t).text = t.text :=
        hs.elim (text_token_mark hf) (text_token_mark hf)
      have ht : f.token t = { t with pos := f.place t.pos } := by
        show Token.mk ⟨t.kind, (f.token t).text⟩ (f.place t.pos) = _
        rw [htext]
      rw [Draft.step_sign hs, ht]
      exact Draft.step_sign hs
    by_cases hp : t.kind = .mark .leftParen
    · have hp' : (f.token t).kind = .mark .leftParen := hp
      rw [Draft.step_leftParen hp]
      exact Draft.step_leftParen hp'
    · have hs' : ¬((f.token t).kind = .mark .plus ∨ (f.token t).kind = .mark .minus) := hs
      have hp' : ¬(f.token t).kind = .mark .leftParen := hp
      rw [Draft.step_operand hs hp]
      refine (Draft.step_operand hs' hp').trans ?_
      rw [operand?_token hf]
      cases t.operand? with
      | none => rfl
      | some v => cases v <;> rfl
  · cases hp : precedence? t.kind with
    | some n =>
      have hp' : precedence? (f.token t).kind = some n := hp
      have htext : (f.token t).text = t.text := by
        obtain ⟨m, -, hm⟩ := mark_of_precedence? hp
        exact text_token_mark hf hm
      rw [Draft.step_of_precedence hp]
      refine (Draft.step_of_precedence hp').trans ?_
      rw [completeDownTo_pending, htext]
      rfl
    | none =>
      have hp' : precedence? (f.token t).kind = none := hp
      by_cases hr : t.kind = .mark .rightParen
      · have hr' : (f.token t).kind = .mark .rightParen := hr
        cases o with
        | nil =>
          rw [Draft.step_eq_stop hp fun _ => rfl]
          exact Draft.step_eq_stop hp' fun _ => rfl
        | cons g' o =>
          rw [Draft.step_rightParen hr]
          refine (Draft.step_rightParen hr').trans ?_
          rw [completeAll_pending]
          rfl
      · rw [Draft.step_eq_stop hp fun h => absurd h hr]
        exact Draft.step_eq_stop hp' fun h => absurd h hr

/-- A draft ends in the respelled expression, or with the respelled fault. -/
theorem commutes_finish (d : Draft) : f.Commutes f.cursor f.expr d.finish (f.draft d).finish := by
  intro c
  rcases d with ⟨g, o, _ | e⟩
  · show Parse.fail (.noOperand (f.cursor c).current.toWord) (f.cursor c).current (f.cursor c) = _
    rw [current_cursor hf]
    rfl
  · cases o with
    | nil =>
      show EStateM.Result.ok (completeAll (g.map f.pending) (f.expr e)) (f.cursor c) = _
      rw [completeAll_pending]
      rfl
    | cons g' o =>
      show Parse.fail (.expected .closingParen (f.cursor c).current.toWord)
        (f.cursor c).current (f.cursor c) = _
      rw [current_cursor hf]
      rfl

/-- A draft goes on in respelled tokens as it does in the tokens, by induction on them. -/
theorem resume_draft (d : Draft) (past ahead : List Token) :
    (f.draft d).resume (past.map f.token) (ahead.map f.token) =
      f.result f.cursor f.expr (d.resume past ahead) := by
  induction ahead generalizing d past with
  | nil => exact commutes_finish hf d ⟨past, []⟩
  | cons t ts ih =>
    rw [List.map_cons, Draft.resume, Draft.resume, step_draft hf]
    cases d.step t with
    | next d' => exact ih d' (t :: past)
    | stop => exact commutes_finish hf d ⟨past, t :: ts⟩
    | fault e => rfl

/-- Expressions are read alike in respelled tokens. -/
theorem commutes_expression : f.Commutes f.cursor f.expr expression expression :=
  fun c => resume_draft hf {} c.past c.ahead

/-! ### Operands -/

/-- The value of a literal does not change with its spelling. -/
theorem commutes_number (what : Expected) : f.Commutes f.cursor id (number what) (number what) := by
  apply commutes_bind (commutes_current hf)
  intro t
  apply commutes_ite .rfl
  · intro hk
    exact commutes_takeValue hf (value_token hf hk)
  · intro _
    exact commutes_fail rfl

/-- The factor behind an index is read alike. -/
theorem commutes_scale (a : Address) :
    f.Commutes f.cursor f.address (scale a) (scale (f.address a)) := by
  apply commutes_bind (commutes_current hf)
  intro t
  apply commutes_ite .rfl
  · intro _
    apply commutes_bind (commutes_advance hf)
    intro _
    apply commutes_bind (commutes_number hf _)
    intro n
    exact commutes_pure (g := f.address) _
  · intro _
    exact commutes_pure _

/-- A term behind its sign is read alike. -/
theorem commutes_signedTerm (a : Address) :
    f.Commutes f.cursor f.address (signedTerm a) (signedTerm (f.address a)) := by
  apply commutes_bind_of _ (commutes_expect hf _ _) fun _ _ _ => kind_of_expect
  intro sign hs
  apply commutes_bind (commutes_current hf)
  intro t
  have hsign : (f.token sign).text = sign.text := by
    simp only [List.mem_cons, List.not_mem_nil, or_false] at hs
    exact hs.elim (text_token_mark hf) (text_token_mark hf)
  have hi : a.index.isSome ↔ (f.address a).index.isSome := by simp [address]
  rw [hsign]
  apply commutes_ite .rfl
  · -- an index
    intro hr
    apply commutes_ite hi fun _ => commutes_fail rfl
    intro _
    apply commutes_bind (commutes_advance hf)
    intro _
    rw [text_token hr]
    exact commutes_scale hf { a with index := some t.text }
  · -- a displacement
    intro _
    refine commutes_ite .rfl (fun _ => ?_) fun _ => commutes_fail rfl
    apply commutes_bind (commutes_number hf _)
    intro n
    exact commutes_pure (g := f.address) _

/-- The first term of an address is read alike. -/
theorem commutes_firstTerm (a : Address) :
    f.Commutes f.cursor f.address (firstTerm a) (firstTerm (f.address a)) := by
  apply commutes_bind (commutes_current hf)
  intro t
  refine commutes_ite .rfl (fun hr => ?_) fun _ => commutes_ite .rfl (fun _ => ?_) fun _ => ?_
  · rw [text_token hr]
    apply commutes_bind (commutes_advance hf)
    intro _
    exact commutes_pure (g := f.address) { a with base := some t.text }
  · apply commutes_bind (commutes_number hf _)
    intro n
    exact commutes_pure (g := f.address) _
  · exact commutes_ite .rfl (fun _ => commutes_pure _) fun _ => commutes_fail rfl

/-- A segment register within the brackets is read alike. -/
theorem commutes_innerSegment (segment : Option String) :
    f.Commutes f.cursor (Option.map (f.text .register)) (innerSegment segment)
      (innerSegment (segment.map (f.text .register))) := by
  apply commutes_bind (commutes_current hf)
  intro t
  apply commutes_bind (commutes_peek hf 1)
  intro u
  refine commutes_ite ?_ (fun h => ?_) fun _ => commutes_pure _
  · rw [Option.isNone_map]
    rfl
  · rw [text_token h.2.1]
    apply commutes_bind (commutes_advance hf)
    intro _
    apply commutes_bind (commutes_advance hf)
    intro _
    exact commutes_pure (g := Option.map (f.text .register)) (some t.text)

/-- All terms behind the first are read alike, by induction on the tokens ahead. -/
theorem commutes_signedTerms (a : Address) :
    f.Commutes f.cursor f.address (signedTerms a) (signedTerms (f.address a)) := by
  intro c
  fun_induction signedTerms a c with
  | case1 a c h a' c' hr ih =>
    rw [signedTerms_eq, kind_current hf, if_pos h, commutes_signedTerm hf a c, hr]
    exact ih
  | case2 a c h e c' hr =>
    rw [signedTerms_eq, kind_current hf, if_pos h, commutes_signedTerm hf a c, hr]
    rfl
  | case3 a c h =>
    rw [signedTerms_eq, kind_current hf, if_neg h]
    rfl

/-- Addresses are read alike, whether a segment came in front of them or not. -/
theorem commutes_address (segment : Option String) :
    f.Commutes f.cursor f.address (Parse.address segment)
      (Parse.address (segment.map (f.text .register))) := by
  apply commutes_bind (commutes_expect hf _ _)
  intro _
  apply commutes_bind (commutes_innerSegment hf segment)
  intro s
  apply commutes_bind (commutes_firstTerm hf { segment := s })
  intro a
  apply commutes_bind (commutes_signedTerms hf a)
  intro a'
  apply commutes_bind (commutes_expect hf _ _)
  intro _
  exact commutes_pure _

/-- Sizes are told by kinds alone. -/
theorem commutes_sizeSpecifier : f.Commutes f.cursor id sizeSpecifier sizeSpecifier := by
  apply commutes_bind (commutes_current hf)
  intro t
  have hk : (f.token t).kind = t.kind := rfl
  rw [hk]
  cases t.kind with
  | size w => exact commutes_bind (commutes_advance hf) fun _ => commutes_pure _
  | _ => exact commutes_pure _

/-- An operand that is an address stays one. -/
theorem commutes_memoryOperand (pos : Pos) (size : Option Int) (segment : Option String) :
    f.Commutes f.cursor f.operand (memoryOperand pos size segment)
      (memoryOperand (f.place pos) size (segment.map (f.text .register))) := by
  apply commutes_bind (commutes_address hf segment)
  intro a
  exact commutes_pure (g := f.operand) _

/-- A register is an operand of its own, or the segment of the address behind it. -/
theorem commutes_registerOperand (pos : Pos) (size : Option Int) {t : Token}
    (ht : t.kind = .register) :
    f.Commutes f.cursor f.operand (registerOperand pos size t)
      (registerOperand (f.place pos) size (f.token t)) := by
  apply commutes_bind (commutes_peek hf 1)
  intro u
  apply commutes_bind (commutes_peek hf 2)
  intro v
  apply commutes_bind (commutes_advance hf)
  intro _
  rw [text_token ht]
  refine commutes_ite .rfl (fun _ => ?_) fun _ => commutes_pure (g := f.operand) _
  apply commutes_bind (commutes_advance hf)
  intro _
  exact commutes_memoryOperand hf pos size (some t.text)

omit hf in
/-- Which form an expression takes as an operand does not depend on its spelling. -/
theorem form_ofExpr_expr (e : Expr) : OperandForm.ofExpr (f.expr e) = f.form (.ofExpr e) := by
  cases e <;> rfl

/-- Operands are read alike, with the place of their first token. -/
theorem commutes_operand : f.Commutes f.cursor f.operand Parse.operand Parse.operand := by
  apply commutes_bind (commutes_current hf)
  intro start
  apply commutes_bind (commutes_sizeSpecifier hf)
  intro size
  apply commutes_bind (commutes_current hf)
  intro t
  refine commutes_ite .rfl (fun _ => commutes_memoryOperand hf start.pos size none) fun _ =>
    commutes_ite .rfl (commutes_registerOperand hf start.pos size) fun _ =>
      commutes_ite .rfl (fun ht => ?_) fun _ => ?_
  · rw [text_token ht]
    apply commutes_bind (commutes_advance hf)
    intro _
    exact commutes_pure (g := f.operand) _
  · apply commutes_bind (commutes_expression hf)
    intro e
    rw [form_ofExpr_expr]
    exact commutes_pure (g := f.operand) _

/-- An operand behind a comma is read alike. -/
theorem commutes_nextOperand : f.Commutes f.cursor f.operand nextOperand nextOperand :=
  commutes_bind (commutes_expect hf _ _) fun _ => commutes_operand hf

/-- All operands behind the first are read alike. -/
theorem commutes_moreOperands :
    f.Commutes f.cursor (List.map f.operand) moreOperands moreOperands := by
  intro c
  fun_induction moreOperands c with
  | case1 c h o c' hr os c'' hm ih =>
    rw [moreOperands_eq, kind_current hf, if_pos h, commutes_nextOperand hf c, hr]
    dsimp only [result]
    rw [ih, hm]
    rfl
  | case2 c h o c' hr e c'' hm ih =>
    rw [moreOperands_eq, kind_current hf, if_pos h, commutes_nextOperand hf c, hr]
    dsimp only [result]
    rw [ih, hm]
    rfl
  | case3 c h e c' hr =>
    rw [moreOperands_eq, kind_current hf, if_pos h, commutes_nextOperand hf c, hr]
    rfl
  | case4 c h =>
    rw [moreOperands_eq, kind_current hf, if_neg h]
    rfl

/-- The operands of an instruction are read alike. -/
theorem commutes_operands : f.Commutes f.cursor (List.map f.operand) operands operands := by
  apply commutes_bind (commutes_operand hf)
  intro o
  apply commutes_bind (commutes_moreOperands hf)
  intro os
  exact commutes_pure _

end

end Respelling

end IntelAsm

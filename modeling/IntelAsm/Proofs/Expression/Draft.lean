import IntelAsm.Parser.Expression

/-!
# Laws of drafts

A draft delays completing an operator until a token arrives that binds no tighter. No token binds
tighter than a product, so an operator of that level or a sign could just as well be completed at
once: the reader does not notice the difference (`resumeAt_complete`). The same holds for an
operator of any level in front of a token that does not multiply (`resumeAt_complete_sum`).

These two laws take the place of an invariant on the waiting operators in everything that is proved
about expressions.
-/

namespace IntelAsm

/-! ### Which tokens bind -/

/-- No operator between two operands binds tighter than a product. -/
theorem precedence?_le {k : TokenKind} {n : Nat} (h : precedence? k = some n) : n ≤ 2 := by
  unfold precedence? at h
  split at h <;> simp_all <;> omega

/-- Operators of sums bind least. -/
theorem one_le_precedence? {k : TokenKind} {n : Nat} (h : precedence? k = some n) : 1 ≤ n := by
  unfold precedence? at h
  split at h <;> simp_all <;> omega

/-- The marks of operators between two operands. -/
def operatorMarks : List Mark := [.plus, .minus, .star, .slash, .percent]

/-- Only marks are operators. -/
theorem mark_of_precedence? {k : TokenKind} {n : Nat} (h : precedence? k = some n) :
    ∃ m ∈ operatorMarks, k = .mark m := by
  unfold precedence? at h
  split at h
  case h_6 => cases h
  all_goals exact ⟨_, by decide, rfl⟩

@[simp] theorem Pending.complete_sign (t : Token) (e : Expr) :
    (Pending.sign t).complete e = .unary t.text e t.pos := rfl

@[simp] theorem Pending.complete_between (l e : Expr) (op : String) (n : Nat) :
    (Pending.between l op n).complete e = .binary op l e l.pos := rfl

@[simp] theorem completeDownTo_nil (n : Nat) (e : Expr) : completeDownTo n [] e = ([], e) := rfl

/-- An operator that binds as tightly is completed. -/
theorem completeDownTo_cons_of_le {n : Nat} {p : Pending} (h : n ≤ p.binding) (ps : List Pending)
    (e : Expr) : completeDownTo n (p :: ps) e = completeDownTo n ps (p.complete e) := by
  rw [completeDownTo, if_pos h]

/-- One that binds less waits on, with all behind it. -/
theorem completeDownTo_cons_of_lt {n : Nat} {p : Pending} (h : p.binding < n) (ps : List Pending)
    (e : Expr) : completeDownTo n (p :: ps) e = (p :: ps, e) := by
  rw [completeDownTo, if_neg (by omega)]

@[simp] theorem completeAll_nil (e : Expr) : completeAll [] e = e := rfl

@[simp] theorem completeAll_cons (p : Pending) (ps : List Pending) (e : Expr) :
    completeAll (p :: ps) e = completeAll ps (p.complete e) := rfl

namespace Draft

/-! ### Reading on at a cursor -/

/-- Reads on from a draft at a cursor. -/
def resumeAt (d : Draft) (c : Cursor) : EStateM.Result ParseError Cursor Expr :=
  d.resume c.past c.ahead

/-- The end of the tokens continues no draft. -/
theorem step_of_eof (d : Draft) {t : Token} (h : t.kind = .eof) : d.step t = .stop := by
  unfold step
  cases d.operand with
  | none => simp [stepOperand, Token.operand?, TokenKind.isNumeric, h]
  | some e => simp [stepOperator, precedence?, h]

/-- One token of the reading, the end of the list included. -/
theorem resumeAt_eq (d : Draft) (c : Cursor) :
    d.resumeAt c =
      match d.step c.current with
      | .next d' => d'.resumeAt c.advance
      | .stop => d.finish c
      | .fault f => .error ⟨f, c.current.pos⟩ c.advance := by
  rcases c with ⟨past, _ | ⟨t, ts⟩⟩
  · have hstop : d.step (Cursor.current ⟨past, []⟩) = .stop :=
      d.step_of_eof (Cursor.kind_current_of_ahead_eq_nil rfl)
    rw [hstop]
    rfl
  · show d.resume past (t :: ts) = _
    rw [resume]
    rfl

/-- A token that a draft takes is passed. -/
theorem resumeAt_of_next {d d' : Draft} {c : Cursor} (h : d.step c.current = .next d') :
    d.resumeAt c = d'.resumeAt c.advance := by
  rw [resumeAt_eq, h]

/-- A token that a draft does not take ends it. -/
theorem resumeAt_of_stop {d : Draft} {c : Cursor} (h : d.step c.current = .stop) :
    d.resumeAt c = d.finish c := by
  rw [resumeAt_eq, h]

/-! ### Single steps behind an operand -/

section
variable {g : List Pending} {o : List (List Pending)} {e : Expr} {t : Token}

/-- An operator completes those that bind as tightly, and waits itself. -/
theorem step_of_precedence {n : Nat} (h : precedence? t.kind = some n) :
    step ⟨g, o, some e⟩ t =
      .next ⟨.between (completeDownTo n g e).2 t.text n :: (completeDownTo n g e).1, o, none⟩ := by
  simp only [step, stepOperator, h]

/-- A parenthesis that closes completes its group. -/
theorem step_rightParen {h : List Pending} (ht : t.kind = .mark .rightParen) :
    step ⟨g, h :: o, some e⟩ t = .next ⟨h, o, some (completeAll g e)⟩ := by
  simp [step, stepOperator, precedence?, ht]

/-- A token that binds nothing and closes nothing ends the expression. -/
theorem step_eq_stop (hp : precedence? t.kind = none)
    (ht : t.kind = .mark .rightParen → o = []) : step ⟨g, o, some e⟩ t = .stop := by
  simp only [step, stepOperator, hp]
  split
  · next h => simp [ht h]
  · rfl

theorem finish_operand (c : Cursor) : finish ⟨g, [], some e⟩ c = .ok (completeAll g e) c := rfl

end

/-! ### Completing early -/

/-- An operator may be completed early if the next token would complete it anyway: it binds no
tighter than the operator, or it is no operator at all. -/
theorem resumeAt_complete_of_le {p : Pending} {c : Cursor}
    (h : ∀ n, precedence? c.current.kind = some n → n ≤ p.binding) (g : List Pending)
    (o : List (List Pending)) (e : Expr) :
    resumeAt ⟨p :: g, o, some e⟩ c = resumeAt ⟨g, o, some (p.complete e)⟩ c := by
  cases hp : precedence? c.current.kind with
  | some n =>
    rw [resumeAt_of_next (step_of_precedence hp), resumeAt_of_next (step_of_precedence hp),
      completeDownTo_cons_of_le (h n hp)]
  | none =>
    by_cases hr : c.current.kind = .mark .rightParen
    · cases o with
      | nil =>
        rw [resumeAt_of_stop (step_eq_stop hp fun _ => rfl),
          resumeAt_of_stop (step_eq_stop hp fun _ => rfl), finish_operand, finish_operand,
          completeAll_cons]
      | cons h' o =>
        rw [resumeAt_of_next (step_rightParen hr), resumeAt_of_next (step_rightParen hr),
          completeAll_cons]
    · rw [resumeAt_of_stop (step_eq_stop hp fun h => absurd h hr),
        resumeAt_of_stop (step_eq_stop hp fun h => absurd h hr)]
      cases o <;> rfl

/-- A sign or a product may be completed at once. -/
theorem resumeAt_complete {p : Pending} (hp : 2 ≤ p.binding) (g : List Pending)
    (o : List (List Pending)) (e : Expr) (c : Cursor) :
    resumeAt ⟨p :: g, o, some e⟩ c = resumeAt ⟨g, o, some (p.complete e)⟩ c :=
  resumeAt_complete_of_le (fun _ h => Nat.le_trans (precedence?_le h) hp) g o e

/-- A sum may be completed in front of a token that does not multiply. -/
theorem resumeAt_complete_sum {p : Pending} {c : Cursor} (hp : p.binding = 1)
    (hc : precedence? c.current.kind ≠ some 2) (g : List Pending) (o : List (List Pending))
    (e : Expr) :
    resumeAt ⟨p :: g, o, some e⟩ c = resumeAt ⟨g, o, some (p.complete e)⟩ c := by
  refine resumeAt_complete_of_le (fun n h => ?_) g o e
  have hn : n ≠ 2 := fun h2 => hc (h2 ▸ h)
  have := precedence?_le h
  omega

/-! ### Single steps where an operand is due -/

section
variable {g : List Pending} {o : List (List Pending)} {t : Token}

/-- A sign waits for its operand. -/
theorem step_sign (h : t.kind = .mark .plus ∨ t.kind = .mark .minus) :
    step ⟨g, o, none⟩ t = .next ⟨.sign t :: g, o, none⟩ := by
  simp only [step, stepOperand, if_pos h]

/-- A parenthesis that opens keeps the group outside. -/
theorem step_leftParen (h : t.kind = .mark .leftParen) :
    step ⟨g, o, none⟩ t = .next ⟨[], g :: o, none⟩ := by
  simp [step, stepOperand, h]

/-- Where an operand is due, a token that neither signs nor opens is the operand itself. -/
theorem step_operand (hs : ¬(t.kind = .mark .plus ∨ t.kind = .mark .minus))
    (hp : t.kind ≠ .mark .leftParen) :
    step ⟨g, o, none⟩ t =
      match t.operand? with
      | some (.ok e) => .next ⟨g, o, some e⟩
      | some (.error f) => .fault f
      | none => .stop := by
  show (if _ then _ else if _ then _ else _) = _
  exact (if_neg hs).trans (if_neg hp)

end

end Draft

end IntelAsm

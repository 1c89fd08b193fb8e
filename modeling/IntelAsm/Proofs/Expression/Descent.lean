import IntelAsm.Proofs.Expression.Draft

/-!
# The recursive grammar of expressions

`Descent` reads expressions by recursive descent, one function for each rule of

    expr    ::= term { ("+" | "-") term }
    term    ::= unary { ("*" | "/" | "%") unary }
    unary   ::= ("+" | "-") unary | primary
    primary ::= number | "$" | symbol | "(" expr ")"

where a repetition associates to the left, a sign stands at its own place and an operator at the
place of its left operand. Where it succeeds, a reading has fewer tokens ahead than before; the
recursion ends because of that, so the bound is part of the results (`Below`).

The reader that keeps waiting operators in a draft is this grammar: it yields the same tree, stops
at the same token, and blames the same token for the same fault (`expression_eq`).
-/

namespace IntelAsm

/-- The result of a reading; where it succeeds, fewer than `n` tokens are ahead. -/
def Below (n : Nat) : Type :=
  { r : EStateM.Result ParseError Cursor Expr // ∀ e d, r = .ok e d → d.ahead.length < n }

namespace Below

variable {m n : Nat}

def ok (e : Expr) (d : Cursor) (h : d.ahead.length < n) : Below n :=
  ⟨.ok e d, by rintro _ _ ⟨⟩; exact h⟩

/-- A fault at the token where the cursor stands. -/
def fault (f : ParseFault) (d : Cursor) : Below n :=
  ⟨.error ⟨f, d.current.pos⟩ d, nofun⟩

def mono (h : m ≤ n) (r : Below m) : Below n :=
  ⟨r.1, fun e d hr => Nat.lt_of_lt_of_le (r.2 e d hr) h⟩

/-- Goes on with what was read. -/
def bind (r : Below m) (f : (e : Expr) → (d : Cursor) → d.ahead.length < m → Below n) :
    Below n :=
  match r with
  | ⟨.ok e d, h⟩ => f e d (h e d rfl)
  | ⟨.error x d, _⟩ => ⟨.error x d, nofun⟩

end Below

/-- What a single token makes of itself. -/
theorem primary_eq (c : Cursor) :
    Parse.primary c =
      match c.current.operand? with
      | some (.ok e) => .ok e c.advance
      | some (.error f) => .error ⟨f, c.current.pos⟩ c.advance
      | none => .error ⟨.noOperand c.current.toWord, c.current.pos⟩ c := by
  simp only [Parse.primary, Parse.current, Bind.bind, EStateM.bind]
  cases c.current.operand? with
  | none => rfl
  | some v => cases v <;> rfl

theorem length_ahead_primary {c d : Cursor} {e : Expr} (h : Parse.primary c = .ok e d) :
    d.ahead.length < c.ahead.length := by
  rw [primary_eq] at h
  split at h
  · next hv =>
    cases h
    refine Cursor.length_ahead_advance fun heof => ?_
    simp [Token.operand?, TokenKind.isNumeric, heof] at hv
  · cases h
  · cases h

namespace Descent

theorem length_ahead_advance_mark {c : Cursor} {m : Mark} (h : c.current.kind = .mark m) :
    c.advance.ahead.length < c.ahead.length :=
  Cursor.length_ahead_advance (by rw [h]; nofun)

/-! ### The rules -/

/-- The operators of a sum, which are also the signs. -/
def IsSum (k : TokenKind) : Prop := k = .mark .plus ∨ k = .mark .minus

/-- The operators of a product. -/
def IsProduct (k : TokenKind) : Prop := k = .mark .star ∨ k = .mark .slash ∨ k = .mark .percent

instance : DecidablePred IsSum := fun _ => inferInstanceAs (Decidable (_ ∨ _))

instance : DecidablePred IsProduct := fun _ => inferInstanceAs (Decidable (_ ∨ _ ∨ _))

theorem IsSum.advance {c : Cursor} (h : IsSum c.current.kind) :
    c.advance.ahead.length < c.ahead.length :=
  h.elim length_ahead_advance_mark length_ahead_advance_mark

theorem IsProduct.advance {c : Cursor} (h : IsProduct c.current.kind) :
    c.advance.ahead.length < c.ahead.length :=
  h.elim length_ahead_advance_mark (·.elim length_ahead_advance_mark length_ahead_advance_mark)

/-- A primary of a single token. -/
def single (c : Cursor) : Below c.ahead.length :=
  ⟨Parse.primary c, fun _ _ => length_ahead_primary⟩

mutual

/-- A term and those added to it. -/
def expr (c : Cursor) : Below c.ahead.length :=
  (term c).bind fun l d hd => (sum l d).mono hd
termination_by (c.ahead.length, 4)

/-- The terms added to the expression on the left. -/
def sum (l : Expr) (c : Cursor) : Below (c.ahead.length + 1) :=
  if h : IsSum c.current.kind then
    have hlt := h.advance
    (term c.advance).bind fun r d hd =>
      (sum (.binary c.current.text l r l.pos) d).mono (by omega)
  else .ok l c (Nat.lt_succ_self _)
termination_by (c.ahead.length, 3)

/-- A factor and those multiplied to it. -/
def term (c : Cursor) : Below c.ahead.length :=
  (unary c).bind fun l d hd => (product l d).mono hd
termination_by (c.ahead.length, 2)

/-- The factors multiplied to the expression on the left. -/
def product (l : Expr) (c : Cursor) : Below (c.ahead.length + 1) :=
  if h : IsProduct c.current.kind then
    have hlt := h.advance
    (unary c.advance).bind fun r d hd =>
      (product (.binary c.current.text l r l.pos) d).mono (by omega)
  else .ok l c (Nat.lt_succ_self _)
termination_by (c.ahead.length, 1)

/-- A primary with any number of signs. -/
def unary (c : Cursor) : Below c.ahead.length :=
  if h : IsSum c.current.kind then
    have hlt := h.advance
    (unary c.advance).bind fun e d hd =>
      .ok (.unary c.current.text e c.current.pos) d (Nat.lt_trans hd hlt)
  else primary c
termination_by (c.ahead.length, 1)

/-- A single token, or an expression in parentheses. -/
def primary (c : Cursor) : Below c.ahead.length :=
  if h : c.current.kind = .mark .leftParen then
    have hlt := length_ahead_advance_mark h
    (expr c.advance).bind fun e d hd =>
      if d.current.kind = .mark .rightParen then
        .ok e d.advance
          (Nat.lt_of_le_of_lt d.before_advance.length_ahead (Nat.lt_trans hd hlt))
      else .fault (.expected .closingParen d.current.toWord) d
  else single c
termination_by (c.ahead.length, 0)

end

/-- An expression, read by recursive descent. -/
def expression : Parse Expr := fun c => (expr c).1

/-! ### Precedences -/

theorem precedence?_eq_one_iff {k : TokenKind} : precedence? k = some 1 ↔ IsSum k := by
  unfold precedence? IsSum
  split <;> simp_all

theorem precedence?_eq_two_iff {k : TokenKind} : precedence? k = some 2 ↔ IsProduct k := by
  unfold precedence? IsProduct
  split <;> simp_all

theorem precedence?_eq_none {k : TokenKind} (hs : ¬IsSum k) (hp : precedence? k ≠ some 2) :
    precedence? k = none := by
  cases h : precedence? k with
  | none => rfl
  | some n =>
    have hn : n ≠ 1 := fun h1 => hs (precedence?_eq_one_iff.mp (h1 ▸ h))
    have hn' : n ≠ 2 := fun h2 => hp (h2 ▸ h)
    have := precedence?_le h
    have := one_le_precedence? h
    omega

/-- A group whose nearest operator does not bind as tightly as a product. -/
def Flat (g : List Pending) : Prop := ∀ p ∈ g.head?, p.binding < 2

theorem Flat.completeDownTo {g : List Pending} (h : Flat g) (e : Expr) :
    completeDownTo 2 g e = (g, e) := by
  cases g with
  | nil => rfl
  | cons p ps => exact completeDownTo_cons_of_lt (h p rfl) ps e

/-! ### A draft follows the rules -/

/-- A draft that takes up what a rule has read. -/
def follow (g : List Pending) (o : List (List Pending)) :
    EStateM.Result ParseError Cursor Expr → EStateM.Result ParseError Cursor Expr
  | .ok e d => Draft.resumeAt ⟨g, o, some e⟩ d
  | .error x d => .error x d

/-- A reading that only stops in front of tokens of some kinds. -/
def StopsAt (P : TokenKind → Prop) (r : EStateM.Result ParseError Cursor Expr) : Prop :=
  ∀ e d, r = .ok e d → P d.current.kind

section
variable {m n : Nat} {r : Below m} {f : (e : Expr) → (d : Cursor) → d.ahead.length < m → Below n}

/-- A draft follows two rules in a row if it follows the second from where the first stopped. -/
theorem follow_bind {g g' : List Pending} {o o' : List (List Pending)}
    (h : ∀ e d (hd : d.ahead.length < m), r.1 = .ok e d →
      Draft.resumeAt ⟨g', o', some e⟩ d = follow g o (f e d hd).1) :
    follow g' o' r.1 = follow g o (r.bind f).1 := by
  obtain ⟨_ | _, hr⟩ := r
  · exact h _ _ (hr _ _ rfl) rfl
  · rfl

theorem stopsAt_bind {P : TokenKind → Prop}
    (h : ∀ e d (hd : d.ahead.length < m), r.1 = .ok e d → StopsAt P (f e d hd).1) :
    StopsAt P (r.bind f).1 := by
  obtain ⟨_ | _, hr⟩ := r
  · exact h _ _ (hr _ _ rfl) rfl
  · nofun

end

/-! ### What each rule means to a draft

Behind a sum or a product the draft may complete what waits, so the rule for terms stands in a flat
group and the one for sums in an empty group. -/

/-- A draft with an empty group follows the rule for expressions. -/
def FollowsExpr (c : Cursor) : Prop :=
  (∀ o, Draft.resumeAt ⟨[], o, none⟩ c = follow [] o (expr c).1) ∧
    StopsAt (precedence? · = none) (expr c).1

/-- A draft with an empty group follows the rule for sums, unless a product goes on there. -/
def FollowsSum (l : Expr) (c : Cursor) : Prop :=
  precedence? c.current.kind ≠ some 2 →
    (∀ o, Draft.resumeAt ⟨[], o, some l⟩ c = follow [] o (sum l c).1) ∧
      StopsAt (precedence? · = none) (sum l c).1

/-- A draft with a flat group follows the rule for terms. -/
def FollowsTerm (c : Cursor) : Prop :=
  (∀ g o, Flat g → Draft.resumeAt ⟨g, o, none⟩ c = follow g o (term c).1) ∧
    StopsAt (precedence? · ≠ some 2) (term c).1

/-- A draft with a flat group follows the rule for products. -/
def FollowsProduct (l : Expr) (c : Cursor) : Prop :=
  (∀ g o, Flat g → Draft.resumeAt ⟨g, o, some l⟩ c = follow g o (product l c).1) ∧
    StopsAt (precedence? · ≠ some 2) (product l c).1

/-- A draft follows the rule for signs. -/
def FollowsUnary (c : Cursor) : Prop :=
  ∀ g o, Draft.resumeAt ⟨g, o, none⟩ c = follow g o (unary c).1

/-- A draft follows the rule for primaries, unless a sign comes first. -/
def FollowsPrimary (c : Cursor) : Prop :=
  ∀ g o, ¬IsSum c.current.kind → Draft.resumeAt ⟨g, o, none⟩ c = follow g o (primary c).1

section
variable {c : Cursor} {l : Expr}

theorem followsExpr (hterm : FollowsTerm c)
    (hsum : ∀ l d, d.ahead.length < c.ahead.length → FollowsSum l d) : FollowsExpr c := by
  unfold FollowsExpr
  rw [expr]
  refine ⟨fun o => ?_, stopsAt_bind fun l d hd hl => (hsum l d hd (hterm.2 l d hl)).2⟩
  rw [hterm.1 [] o nofun]
  exact follow_bind fun l d hd hl => (hsum l d hd (hterm.2 l d hl)).1 o

/-- One more term is added. -/
theorem followsSum_of_isSum (h : IsSum c.current.kind) (hterm : FollowsTerm c.advance)
    (hsum : ∀ r d, d.ahead.length < c.advance.ahead.length →
      FollowsSum (.binary c.current.text l r l.pos) d) : FollowsSum l c := by
  intro _
  rw [sum, dif_pos h]
  refine ⟨fun o => ?_, stopsAt_bind fun r d hd hr => (hsum r d hd (hterm.2 r d hr)).2⟩
  -- the operator waits alone in its group until the term behind it is read
  rw [Draft.resumeAt_of_next (Draft.step_of_precedence (precedence?_eq_one_iff.mpr h)),
    completeDownTo_nil, hterm.1 _ o (by simp [Flat, Pending.binding])]
  refine follow_bind fun r d hd hr => ?_
  rw [Draft.resumeAt_complete_sum rfl (hterm.2 r d hr)]
  exact (hsum r d hd (hterm.2 r d hr)).1 o

/-- A sum ends. -/
theorem followsSum_of_not_isSum (h : ¬IsSum c.current.kind) : FollowsSum l c := by
  intro hproduct
  rw [sum, dif_neg h]
  refine ⟨fun o => rfl, ?_⟩
  rintro _ _ ⟨⟩
  exact precedence?_eq_none h hproduct

theorem followsTerm (hunary : FollowsUnary c)
    (hproduct : ∀ l d, d.ahead.length < c.ahead.length → FollowsProduct l d) : FollowsTerm c := by
  unfold FollowsTerm
  rw [term]
  refine ⟨fun g o hg => ?_, stopsAt_bind fun l d hd _ => (hproduct l d hd).2⟩
  rw [hunary g o]
  exact follow_bind fun l d hd _ => (hproduct l d hd).1 g o hg

/-- One more factor is multiplied. -/
theorem followsProduct_of_isProduct (h : IsProduct c.current.kind)
    (hunary : FollowsUnary c.advance)
    (hproduct : ∀ r d, d.ahead.length < c.advance.ahead.length →
      FollowsProduct (.binary c.current.text l r l.pos) d) : FollowsProduct l c := by
  unfold FollowsProduct
  rw [product, dif_pos h]
  refine ⟨fun g o hg => ?_, stopsAt_bind fun r d hd _ => (hproduct r d hd).2⟩
  -- in a flat group nothing is completed in front of the operator
  rw [Draft.resumeAt_of_next (Draft.step_of_precedence (precedence?_eq_two_iff.mpr h)),
    hg.completeDownTo, hunary]
  refine follow_bind fun r d hd _ => ?_
  rw [Draft.resumeAt_complete (by simp [Pending.binding])]
  exact (hproduct r d hd).1 g o hg

/-- A product ends. -/
theorem followsProduct_of_not_isProduct (h : ¬IsProduct c.current.kind) : FollowsProduct l c := by
  unfold FollowsProduct
  rw [product, dif_neg h]
  refine ⟨fun g o _ => rfl, ?_⟩
  rintro _ _ ⟨⟩
  exact fun hp => h (precedence?_eq_two_iff.mp hp)

/-- A sign comes first. -/
theorem followsUnary_of_isSum (h : IsSum c.current.kind) (hunary : FollowsUnary c.advance) :
    FollowsUnary c := by
  intro g o
  rw [unary, dif_pos h, Draft.resumeAt_of_next (Draft.step_sign h), hunary]
  refine follow_bind fun e d _ _ => ?_
  exact Draft.resumeAt_complete (p := .sign c.current) (by simp [Pending.binding, signBinding])
    g o e d

theorem followsUnary_of_not_isSum (h : ¬IsSum c.current.kind) (hprimary : FollowsPrimary c) :
    FollowsUnary c := by
  intro g o
  rw [unary, dif_neg h, hprimary g o h]

theorem followsPrimary_of_parenthesis (h : c.current.kind = .mark .leftParen)
    (hexpr : FollowsExpr c.advance) : FollowsPrimary c := by
  intro g o _
  rw [primary, dif_pos h, Draft.resumeAt_of_next (Draft.step_leftParen h), hexpr.1]
  refine follow_bind fun e d _ he => ?_
  split
  · next hr =>
    rw [Draft.resumeAt_of_next (Draft.step_rightParen hr)]
    rfl
  · next hr =>
    -- the rules stop here, and so does a draft that still has a parenthesis open
    rw [Draft.resumeAt_of_stop (Draft.step_eq_stop (hexpr.2 e d he) fun h => absurd h hr)]
    rfl

theorem followsPrimary_of_single (h : c.current.kind ≠ .mark .leftParen) : FollowsPrimary c := by
  intro g o hs
  rw [primary, dif_neg h, Draft.resumeAt_eq, Draft.step_operand hs h]
  show _ = follow g o (Parse.primary c)
  rw [primary_eq]
  cases c.current.operand? with
  | none => rfl
  | some v => cases v <;> rfl

end

/-- A draft follows every rule. -/
theorem follows :
    (∀ c, FollowsExpr c) ∧ (∀ l c, FollowsSum l c) ∧ (∀ c, FollowsTerm c) ∧
      (∀ l c, FollowsProduct l c) ∧ (∀ c, FollowsUnary c) ∧ ∀ c, FollowsPrimary c := by
  -- by induction on the rules, in the order in which they call each other
  apply expr.mutual_induct
  case _ => exact fun c ihTerm ihSum => followsExpr ihTerm ihSum
  case _ => exact fun l c h _ ihTerm ihSum => followsSum_of_isSum h ihTerm ihSum
  case _ => exact fun l c h => followsSum_of_not_isSum h
  case _ => exact fun c ihUnary ihProduct => followsTerm ihUnary ihProduct
  case _ => exact fun l c h _ ihUnary ihProduct => followsProduct_of_isProduct h ihUnary ihProduct
  case _ => exact fun l c h => followsProduct_of_not_isProduct h
  case _ => exact fun c h _ ihUnary => followsUnary_of_isSum h ihUnary
  case _ => exact fun c h ihPrimary => followsUnary_of_not_isSum h ihPrimary
  case _ => exact fun c h _ ihExpr => followsPrimary_of_parenthesis h ihExpr
  case _ => exact fun c h => followsPrimary_of_single h

/-- Reading an expression with waiting operators is reading it by recursive descent. -/
theorem expression_eq (c : Cursor) : Parse.expression c = Descent.expression c := by
  have h : FollowsExpr c := follows.1 c
  show Draft.resumeAt {} c = (expr c).1
  rw [h.1 []]
  cases hr : (expr c).1 with
  | error x d => rfl
  | ok e d => exact Draft.resumeAt_of_stop (Draft.step_eq_stop (h.2 e d hr) fun _ => rfl)

end Descent

end IntelAsm

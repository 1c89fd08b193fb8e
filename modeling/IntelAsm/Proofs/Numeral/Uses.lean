import IntelAsm.Proofs.Grammar.Completeness
import IntelAsm.Proofs.Numeral.Text

/-!
# Uses of literals

A literal is read as an operand of its own, in an expression, as a displacement and as a scale. In
each place the parser takes it for its value if it has one (`Token.Accepted`), and fails at it
otherwise (`Token.Refused`), whatever was read before and whatever follows.
-/

namespace IntelAsm

open Parse

/-! ### What is made of a literal -/

/-- The parser takes the token for the number `v` wherever it reads a literal. -/
structure Token.Accepted (t : Token) (isHex : Bool) (v : Int) : Prop where
  /-- An operand of its own, in front of a token that is no operator. -/
  immediate : ∀ past ts, precedence? (Cursor.current ⟨t :: past, ts⟩).kind = none →
    operand ⟨past, t :: ts⟩ = .ok { form := .immediate v isHex, pos := t.pos } ⟨t :: past, ts⟩
  /-- An operand of its own behind a size. -/
  sized : ∀ (s : Token) (w : Width) past ts, s.kind = .size w →
    precedence? (Cursor.current ⟨t :: s :: past, ts⟩).kind = none →
    operand ⟨past, s :: t :: ts⟩ =
      .ok { form := .immediate v isHex, size := some w.bits, pos := s.pos } ⟨t :: s :: past, ts⟩
  /-- An operand of an expression, wherever one is due. -/
  expression : ∀ group outer past ts,
    Draft.resumeAt ⟨group, outer, none⟩ ⟨past, t :: ts⟩ =
      Draft.resumeAt ⟨group, outer, some (.literal v isHex t.pos)⟩ ⟨t :: past, ts⟩
  /-- The first term of an address. -/
  first : ∀ a past ts, firstTerm a ⟨past, t :: ts⟩ =
    .ok { a with displacement := some v } ⟨t :: past, ts⟩
  plus : ∀ (s : Token) a past ts, s.kind = .mark .plus → signedTerm a ⟨past, s :: t :: ts⟩ =
    .ok { a with displacement := some v } ⟨t :: s :: past, ts⟩
  minus : ∀ (s : Token) a past ts, s.kind = .mark .minus → signedTerm a ⟨past, s :: t :: ts⟩ =
    .ok { a with displacement := some (Numeral.signedWord (-v)) } ⟨t :: s :: past, ts⟩
  /-- The factor of an index. -/
  scale : ∀ (s : Token) a past ts, s.kind = .mark .star → Parse.scale a ⟨past, s :: t :: ts⟩ =
    .ok { a with scale := v } ⟨t :: s :: past, ts⟩

/-- The parser fails at the token wherever it reads a literal, since the number is out of range. -/
structure Token.Refused (t : Token) : Prop where
  immediate : ∀ past ts,
    operand ⟨past, t :: ts⟩ = .error ⟨.outOfRange, t.pos⟩ ⟨t :: past, ts⟩
  sized : ∀ (s : Token) (w : Width) past ts, s.kind = .size w →
    operand ⟨past, s :: t :: ts⟩ = .error ⟨.outOfRange, t.pos⟩ ⟨t :: s :: past, ts⟩
  expression : ∀ group outer past ts, Draft.resumeAt ⟨group, outer, none⟩ ⟨past, t :: ts⟩ =
    .error ⟨.outOfRange, t.pos⟩ ⟨t :: past, ts⟩
  first : ∀ a past ts, firstTerm a ⟨past, t :: ts⟩ = .error ⟨.outOfRange, t.pos⟩ ⟨t :: past, ts⟩
  signed : ∀ (s : Token) a past ts, s.kind = .mark .plus ∨ s.kind = .mark .minus →
    signedTerm a ⟨past, s :: t :: ts⟩ = .error ⟨.outOfRange, t.pos⟩ ⟨t :: s :: past, ts⟩
  scale : ∀ (s : Token) a past ts, s.kind = .mark .star →
    Parse.scale a ⟨past, s :: t :: ts⟩ = .error ⟨.outOfRange, t.pos⟩ ⟨t :: s :: past, ts⟩

/-! ### Where a literal is due -/

namespace Token

/-- A literal in an expression has the value of its token. -/
theorem operand?_of_isNumeric {t : Token} (hk : t.kind.isNumeric) : t.operand? =
    some (t.value.map fun v => .literal v (t.kind = .hexNumber) t.pos) :=
  if_pos hk

/-- A literal starts no operand but an expression. -/
theorem ne_of_isNumeric {t : Token} (hk : t.kind.isNumeric) : (∀ m, t.kind ≠ .mark m) ∧
    t.kind ≠ .register ∧ t.kind ≠ .string ∧ ∀ w, t.kind ≠ .size w := by
  refine ⟨fun m => ?_, ?_, ?_, fun w => ?_⟩
  all_goals
    intro h
    rw [h] at hk
    cases hk

end Token

namespace Parse

section
variable {t : Token} (hk : t.kind.isNumeric)
include hk

/-- Where a number may stand, a literal is read as its value. -/
theorem number_bind {α : Type} (what : Expected) (f : Int → Parse α) (past ts : List Token) :
    (number what >>= f) ⟨past, t :: ts⟩ = (takeValue t.value >>= f) ⟨past, t :: ts⟩ := by
  have hnumber : number what ⟨past, t :: ts⟩ = takeValue t.value ⟨past, t :: ts⟩ := by
    show (if t.kind.isNumeric then takeValue t.value else _ : Parse Int) _ = _
    rw [if_pos hk]
  show EStateM.bind _ _ _ = EStateM.bind _ _ _
  rw [EStateM.bind, EStateM.bind, hnumber]

/-- A literal at the start of an address is its displacement. -/
theorem firstTerm_cons (a : Address) (past ts : List Token) :
    firstTerm a ⟨past, t :: ts⟩ =
      (takeValue t.value >>= fun v => pure { a with displacement := some v }) ⟨past, t :: ts⟩ := by
  show (if t.kind = .register then _ else if t.kind.isNumeric then _ else _ : Parse Address) _ = _
  rw [if_neg (Token.ne_of_isNumeric hk).2.1, if_pos hk]
  exact number_bind hk _ _ past ts

/-- A literal behind a sign is a displacement with this sign. -/
theorem signedTerm_cons {s : Token} (hs : s.kind = .mark .plus ∨ s.kind = .mark .minus)
    (a : Address) (past ts : List Token) :
    signedTerm a ⟨past, s :: t :: ts⟩ =
      (takeValue t.value >>= fun v =>
        pure { a with
          displacement := some (if s.kind = .mark .plus then v else Numeral.signedWord (-v)) })
        ⟨s :: past, t :: ts⟩ := by
  have hsign : expect .addressTerm [.mark .plus, .mark .minus] ⟨past, s :: t :: ts⟩ =
      .ok s ⟨s :: past, t :: ts⟩ := by
    have hmem : [TokenKind.mark .plus, .mark .minus].contains s.kind := by simpa using hs
    exact if_pos hmem
  show EStateM.bind (expect .addressTerm [.mark .plus, .mark .minus]) _ _ = _
  rw [EStateM.bind, hsign]
  show (if t.kind = .register then _ else if t.kind.isNumeric then _ else _ : Parse Address) _ = _
  rw [if_neg (Token.ne_of_isNumeric hk).2.1, if_pos hk]
  exact number_bind hk _ _ (s :: past) ts

/-- A literal behind a star is a scale. -/
theorem scale_cons {s : Token} (hs : s.kind = .mark .star) (a : Address) (past ts : List Token) :
    scale a ⟨past, s :: t :: ts⟩ =
      (takeValue t.value >>= fun v => pure { a with scale := v }) ⟨s :: past, t :: ts⟩ := by
  show (if s.kind = .mark .star then _ else _ : Parse Address) _ = _
  rw [if_pos hs]
  exact number_bind hk _ _ (s :: past) ts

/-- A literal starts no operand but an expression. -/
theorem operandForm_cons (pos : Pos) (size : Option Int) (past ts : List Token) :
    operandForm pos size ⟨past, t :: ts⟩ =
      (expression >>= fun e => pure { form := .ofExpr e, size, pos }) ⟨past, t :: ts⟩ := by
  obtain ⟨hmark, hregister, hstring, -⟩ := Token.ne_of_isNumeric hk
  show (if t.kind = .mark .leftBracket then _ else if t.kind = .register then _ else
    if t.kind = .string then _ else _ : Parse Operand) _ = _
  rw [if_neg (hmark _), if_neg hregister, if_neg hstring]

theorem operand_cons (past ts : List Token) :
    operand ⟨past, t :: ts⟩ = operandForm t.pos none ⟨past, t :: ts⟩ :=
  operand_of_no_size (Token.ne_of_isNumeric hk).2.2.2

end

/-- Behind a size specifier an operand is read as one without, from the next token on. -/
theorem operand_size_cons {s : Token} {w : Width} (hs : s.kind = .size w) (past ts : List Token) :
    operand ⟨past, s :: ts⟩ = operandForm s.pos (some w.bits) ⟨s :: past, ts⟩ :=
  operand_of_size hs

end Parse

/-! ### Literals with a value and without -/

namespace Token

variable {t : Token} (hk : t.kind.isNumeric)
include hk

/-- A literal with a value is accepted by every reader that may meet one. -/
theorem accepted_of_value {v : Int} (hv : t.value = .ok v) :
    t.Accepted (t.kind = .hexNumber) v := by
  have hmark := (ne_of_isNumeric hk).1
  have hoperand : t.operand? = some (.ok (.literal v (t.kind = .hexNumber) t.pos)) := by
    rw [operand?_of_isNumeric hk, hv]
    rfl
  have hexpression (group : List Pending) (outer : List (List Pending)) (past ts : List Token) :=
    Draft.resumeAt_operand hoperand (not_or_intro (hmark _) (hmark _)) (hmark _) group outer past ts
  have hform (pos : Pos) (size : Option Int) (past ts : List Token)
      (hp : precedence? (Cursor.current ⟨t :: past, ts⟩).kind = none) :
      operandForm pos size ⟨past, t :: ts⟩ =
        .ok { form := .immediate v (t.kind = .hexNumber), size, pos } ⟨t :: past, ts⟩ := by
    rw [operandForm_cons hk]
    have hread : expression ⟨past, t :: ts⟩ =
        .ok (.literal v (t.kind = .hexNumber) t.pos) ⟨t :: past, ts⟩ := by
      refine (hexpression [] [] past ts).trans ?_
      rw [Draft.resumeAt_of_stop (Draft.step_eq_stop hp fun _ => rfl), Draft.finish_operand]
      rfl
    show EStateM.bind _ _ _ = _
    rw [EStateM.bind, hread]
    rfl
  constructor
  case immediate =>
    intro past ts hp
    rw [operand_cons hk, hform _ _ _ _ hp]
  case sized =>
    intro s w past ts hs hp
    rw [operand_size_cons hs, hform _ _ _ _ hp]
  case expression => exact hexpression
  case first =>
    intro a past ts
    rw [firstTerm_cons hk, hv]
    rfl
  case plus =>
    intro s a past ts hs
    rw [signedTerm_cons hk (.inl hs), hv]
    simp only [hs, if_true]
    rfl
  case minus =>
    intro s a past ts hs
    rw [signedTerm_cons hk (.inr hs), hv]
    simp only [hs]
    rfl
  case scale =>
    intro s a past ts hs
    rw [scale_cons hk hs, hv]
    rfl

/-- A literal out of range is refused by each of them. -/
theorem refused_of_value (hv : t.value = .error .outOfRange) : t.Refused := by
  have hmark := (ne_of_isNumeric hk).1
  have hoperand : t.operand? = some (.error .outOfRange) := by
    rw [operand?_of_isNumeric hk, hv]
    rfl
  have hexpression (group : List Pending) (outer : List (List Pending)) (past ts : List Token) :
      Draft.resumeAt ⟨group, outer, none⟩ ⟨past, t :: ts⟩ =
        .error ⟨.outOfRange, t.pos⟩ ⟨t :: past, ts⟩ := by
    have hstep : Draft.step ⟨group, outer, none⟩ t = .fault .outOfRange := by
      rw [Draft.step_operand (not_or_intro (hmark _) (hmark _)) (hmark _), hoperand]
    have hcurrent : Draft.step ⟨group, outer, none⟩ (Cursor.current ⟨past, t :: ts⟩) =
        .fault .outOfRange := hstep
    rw [Draft.resumeAt_eq, hcurrent]
    rfl
  have hform (pos : Pos) (size : Option Int) (past ts : List Token) :
      operandForm pos size ⟨past, t :: ts⟩ = .error ⟨.outOfRange, t.pos⟩ ⟨t :: past, ts⟩ := by
    rw [operandForm_cons hk]
    have hread : expression ⟨past, t :: ts⟩ = .error ⟨.outOfRange, t.pos⟩ ⟨t :: past, ts⟩ :=
      hexpression [] [] past ts
    show EStateM.bind _ _ _ = _
    rw [EStateM.bind, hread]
  constructor
  case immediate =>
    intro past ts
    rw [operand_cons hk, hform]
  case sized =>
    intro s w past ts hs
    rw [operand_size_cons hs, hform]
  case expression => exact hexpression
  case first =>
    intro a past ts
    rw [firstTerm_cons hk, hv]
    rfl
  case signed =>
    intro s a past ts hs
    rw [signedTerm_cons hk hs, hv]
    rfl
  case scale =>
    intro s a past ts hs
    rw [scale_cons hk hs, hv]
    rfl

end Token

end IntelAsm

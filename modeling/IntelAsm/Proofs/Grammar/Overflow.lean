import IntelAsm.Proofs.Grammar.Line
import IntelAsm.Proofs.Numeral.Uses

/-!
# Literals out of range in programs

Where a program has a literal another one may be out of range, and then it is the error, whatever
follows it (`Lines.parse_eq_error`). The tokens in front of it are read as those of the program,
since the parser does not look into a literal before it is due. For each part of the grammar there
is one law, and each asks where among the tokens of the part the literal stands.
-/

namespace IntelAsm

open Parse
open Descent (IsSum IsProduct Flat)

/-! ### Where a literal stands -/

/-- The token stands in the list `ts` behind the tokens `us`. -/
def Token.Behind (z : Token) (us ts : List Token) : Prop := ∃ vs, ts = us ++ z :: vs

namespace Token.Behind

variable {z a : Token} {as bs us : List Token}

theorem not_nil (h : z.Behind us []) : False := by
  obtain ⟨vs, h⟩ := h
  simp at h

/-- The literal stands in the first part or in the second. -/
theorem of_append (h : z.Behind us (as ++ bs)) :
    z.Behind us as ∨ ∃ ws, us = as ++ ws ∧ z.Behind ws bs := by
  obtain ⟨vs, h⟩ := h
  rcases List.append_eq_append_iff.1 h with ⟨ws, hus, hbs⟩ | ⟨ws, has, hzs⟩
  · exact .inr ⟨ws, hus, vs, hbs⟩
  · cases ws with
    | nil => exact .inr ⟨[], by simpa using has.symm, vs, by simpa using hzs.symm⟩
    | cons w ws =>
      obtain ⟨rfl, -⟩ := List.cons.inj hzs
      exact .inl ⟨ws, has⟩

/-- The literal comes first, or it stands behind the first token. -/
theorem of_cons (h : z.Behind us (a :: as)) :
    us = [] ∧ a = z ∨ ∃ ws, us = a :: ws ∧ z.Behind ws as := by
  obtain ⟨vs, h⟩ := h
  cases us with
  | nil => exact .inl ⟨rfl, (List.cons.inj h).1⟩
  | cons u us =>
    obtain ⟨rfl, has⟩ := List.cons.inj h
    exact .inr ⟨us, rfl, vs, has⟩

theorem eq_nil (h : z.Behind us [a]) : us = [] :=
  h.of_cons.elim And.left fun ⟨_, _, h⟩ => h.not_nil.elim

/-- What holds of the first token, and of the literal `t` if it is the first, holds of the first one
up to the literal. -/
theorem head {P : Token → Prop} {t : Token} (h : z.Behind us (a :: as)) (ha : P a) (ht : P t) :
    ∃ u vs, us ++ [t] = u :: vs ∧ P u := by
  rcases h.of_cons with ⟨rfl, -⟩ | ⟨vs, rfl, -⟩
  · exact ⟨t, [], rfl, ht⟩
  · exact ⟨a, _, rfl, ha⟩

/-- A literal stands behind a token of another kind. -/
theorem of_cons_of_kind (hz : z.kind.isNumeric) {k : TokenKind} (ha : a.kind = k)
    (hk : k.isNumeric = false) (h : z.Behind us (a :: as)) :
    ∃ ws, us = a :: ws ∧ z.Behind ws as := by
  refine h.of_cons.resolve_left ?_
  rintro ⟨-, rfl⟩
  rw [ha, hk] at hz
  cases hz

/-- Where no literal can stand there is none. -/
theorem not_singleton (hz : z.kind.isNumeric) {k : TokenKind} (ha : a.kind = k)
    (hk : k.isNumeric = false) (h : z.Behind us [a]) : False := by
  obtain ⟨ws, -, h⟩ := h.of_cons_of_kind hz ha hk
  exact h.not_nil

/-- The operator of a sum is no literal, so the literal stands behind it. -/
theorem of_cons_of_sum (hz : z.kind.isNumeric) (ha : IsSum a.kind) (h : z.Behind us (a :: as)) :
    ∃ ws, us = a :: ws ∧ z.Behind ws as := by
  rcases ha with ha | ha <;> exact h.of_cons_of_kind hz ha rfl

/-- Nor is the operator of a product. -/
theorem of_cons_of_product (hz : z.kind.isNumeric) (ha : IsProduct a.kind)
    (h : z.Behind us (a :: as)) : ∃ ws, us = a :: ws ∧ z.Behind ws as := by
  rcases ha with ha | ha | ha <;> exact h.of_cons_of_kind hz ha rfl

end Token.Behind

/-! ### Actions at a literal that is out of range -/

namespace Parse

section
variable {α β : Type} {p : Parse α} {g : α → Parse β} {us vs : List Token} {t u : Token}
  {a : α}

/-- Wherever the tokens `us` are ahead and the literal `t` behind them, the action fails at it as
out of range. -/
def Overflows (p : Parse α) (us : List Token) (t : Token) : Prop :=
  ∀ past ws, ∃ d, p ⟨past, us ++ t :: ws⟩ = .error ⟨.outOfRange, t.pos⟩ d

/-- If the first action fails at the literal, so do both. -/
theorem overflows_bind_left (h : Overflows p us t) : Overflows (p >>= g) us t := by
  intro past ws
  obtain ⟨d, herror⟩ := h past ws
  refine ⟨d, ?_⟩
  show EStateM.bind p g _ = _
  rw [EStateM.bind, herror]

/-- If the first action passes the tokens in front, the second may fail. -/
theorem overflows_bind_right (us : List Token)
    (hp : ∀ ws, Takes p (us ++ (vs ++ t :: ws)) (vs ++ t :: ws) a)
    (hg : Overflows (g a) vs t) : Overflows (p >>= g) (us ++ vs) t := by
  intro past ws
  obtain ⟨past', hok⟩ := hp ws past
  obtain ⟨d, herror⟩ := hg past' ws
  refine ⟨d, ?_⟩
  show EStateM.bind p g _ = _
  rw [EStateM.bind, List.append_assoc, hok]
  exact herror

/-- To look at the next token is safe, also at the literal itself. -/
theorem overflows_current {f : Token → Parse β} (h : us ++ [t] = u :: vs)
    (hf : Overflows (f u) us t) : Overflows (current >>= f) us t := by
  intro past ws
  obtain ⟨d, herror⟩ := hf past ws
  rw [List.append_cons, h] at herror ⊢
  exact ⟨d, herror⟩

/-- So is a look further ahead. -/
theorem overflows_peek {n : Nat} {f : Token → Parse β} (h : (us ++ [t])[n]? = some u)
    (hf : Overflows (f u) us t) : Overflows (peek n >>= f) us t := by
  intro past ws
  obtain ⟨d, herror⟩ := hf past ws
  have hpeek : Cursor.peek ⟨past, us ++ t :: ws⟩ n = u := by
    have hget : (us ++ t :: ws)[n]? = some u := by
      rw [List.append_cons, List.getElem?_append_left (List.getElem?_eq_some_iff.1 h).1, h]
    simp only [Cursor.peek, hget]
  refine ⟨d, ?_⟩
  show f (Cursor.peek ⟨past, us ++ t :: ws⟩ n) _ = _
  rw [hpeek, herror]

end

end Parse

/-! ### Expressions -/

section
variable {z t : Token} (hz : z.kind.isNumeric) (ht : t.kind.isNumeric) (hr : t.Refused)
include hz ht hr

omit hz hr in
/-- A literal is no operator. -/
theorem precedence?_of_isNumeric : precedence? t.kind = none := by
  have hmark := (Token.ne_of_isNumeric ht).1
  unfold precedence?
  split
  all_goals first | rfl | exact absurd (by assumption) (hmark _)

/-- A draft that waits for an operand goes on up to the literal, at every level of the grammar. -/
theorem Expr.Spells.overflows_resumeAt {level : Level} {e : Expr} {ts : List Token}
    (h : e.Spells level ts) {us : List Token} (hts : z.Behind us ts) {g : List Pending}
    (hg : level.Fits g t) (o : List (List Pending)) (past ws : List Token) :
    ∃ d, Draft.resumeAt ⟨g, o, none⟩ ⟨past, us ++ t :: ws⟩ = .error ⟨.outOfRange, t.pos⟩ d := by
  have hnext : precedence? t.kind ≠ some 2 := by simp [precedence?_of_isNumeric ht]
  -- by induction on the rules; the draft grows by the operators that are passed, and stays fit for
  -- the level at which the literal is an operand
  induction h generalizing us g o past with
  | literal hk hv =>
    rw [hts.eq_nil]
    exact ⟨_, hr.expression g o past ws⟩
  | here hk => exact (hts.not_singleton hz hk rfl).elim
  | symbol hk => exact (hts.not_singleton hz hk rfl).elim
  | @paren l r e ts hl he hr' ih =>
    obtain ⟨vs, rfl, hin⟩ := hts.of_cons_of_kind hz hl rfl
    rw [List.cons_append, Draft.resumeAt_step (Draft.step_leftParen hl)]
    rcases hin.of_append with hin' | ⟨_, _, hin'⟩
    · exact ih hin' ⟨rfl, hnext⟩ _ _
    · exact (hin'.not_singleton hz hr' rfl).elim
  | @sign s e ts hs he ih =>
    obtain ⟨vs, rfl, hin⟩ := hts.of_cons_of_sum hz hs
    rw [List.cons_append, Draft.resumeAt_step (Draft.step_sign hs)]
    exact ih hin trivial _ _
  | ofOperand he ih => exact ih hts trivial o past
  | @mul u l r as bs hl hu hr' ihl ihr =>
    rcases hts.of_append with hin | ⟨_, rfl, hin⟩
    · exact ihl hin hg o past
    · obtain ⟨vs, rfl, hin'⟩ := hin.of_cons_of_product hz hu
      obtain ⟨past', h⟩ := hl.resumeAt (t := u) hg o past (vs ++ t :: ws)
      rw [List.append_assoc, List.cons_append, h,
        Draft.resumeAt_step (Draft.step_of_precedence (Descent.precedence?_eq_two_iff.2 hu))]
      exact ihr hin' trivial o (u :: past')
  | ofProduct he ih =>
    refine ih hts ?_ o past
    rw [hg.1]
    simp [Level.Fits, Flat]
  | @add u l r as bs hl hu hr' ihl ihr =>
    obtain ⟨rfl, -⟩ := hg
    have hu' := Descent.precedence?_eq_one_iff.2 hu
    rcases hts.of_append with hin | ⟨_, rfl, hin⟩
    · exact ihl hin ⟨rfl, hnext⟩ o past
    · obtain ⟨vs, rfl, hin'⟩ := hin.of_cons_of_sum hz hu
      obtain ⟨past', h⟩ :=
        hl.resumeAt (g := []) (t := u) ⟨rfl, by simp [hu']⟩ o past (vs ++ t :: ws)
      rw [List.append_assoc, List.cons_append, h,
        Draft.resumeAt_step (Draft.step_of_precedence hu')]
      exact ihr hin' (by simp [Level.Fits, Flat, Pending.binding]) o (u :: past')

/-- So an expression fails at its literal. -/
theorem Expr.Spells.overflows {e : Expr} {ts us : List Token} (h : e.Spells .sum ts)
    (hts : z.Behind us ts) : Overflows expression us t := by
  intro past ws
  have hnext : precedence? t.kind ≠ some 2 := by simp [precedence?_of_isNumeric ht]
  exact h.overflows_resumeAt hz ht hr hts (g := []) ⟨rfl, hnext⟩ [] past ws

/-! ### Addresses -/

omit ht in
/-- A term of an address fails at its number, or at its factor. -/
theorem Address.SpellsTerm.overflows {a b : Address} {ts us : List Token}
    (h : a.SpellsTerm b ts) (hts : z.Behind us ts) : Overflows (signedTerm a) us t := by
  cases h with
  | index hs ha hreg =>
    obtain ⟨vs, rfl, hin⟩ := hts.of_cons_of_sum hz hs
    exact (hin.not_singleton hz hreg rfl).elim
  | @scaled s r m u v hs ha hreg hm hk hv =>
    obtain ⟨_, rfl, hin⟩ := hts.of_cons_of_sum hz hs
    obtain ⟨_, rfl, hin'⟩ := hin.of_cons_of_kind hz hreg rfl
    obtain ⟨_, rfl, hin''⟩ := hin'.of_cons_of_kind hz hm rfl
    obtain rfl := hin''.eq_nil
    have hsign : s.kind ∈ [.mark .plus, .mark .minus] := by simpa [IsSum] using hs
    have hscale : Overflows (Parse.scale { a with index := some r.text }) [m] t :=
      fun past ws => ⟨_, hr.scale m _ past ws hm⟩
    refine overflows_bind_right [s] (fun ws => takes_expect hsign) ?_
    refine overflows_current rfl ?_
    rw [if_pos hreg, ha]
    exact overflows_bind_right [r] (fun ws => takes_advance) hscale
  | @displacement s u v hs hk hv =>
    obtain ⟨_, rfl, hin⟩ := hts.of_cons_of_sum hz hs
    obtain rfl := hin.eq_nil
    exact fun past ws => ⟨_, hr.signed s a past ws hs⟩

omit ht hr in
/-- A literal in a term with a sign stands behind one. -/
theorem Address.SpellsTerms.sign_behind {a b : Address} {ts us : List Token}
    (h : a.SpellsTerms b ts) (hts : z.Behind us ts) : ∃ s vs, us = s :: vs ∧ IsSum s.kind := by
  cases h with
  | nil => exact hts.not_nil.elim
  | cons hterm hterms =>
    obtain ⟨s, vs, rfl, hs⟩ := hterm.starts
    obtain ⟨vs', rfl, -⟩ := hts.of_cons_of_sum hz hs
    exact ⟨s, vs', rfl, hs⟩

omit ht in
/-- The literal is in one of the terms, by induction on them. -/
theorem Address.SpellsTerms.overflows {a b : Address} {ts us : List Token}
    (h : a.SpellsTerms b ts) (hts : z.Behind us ts) : Overflows (signedTerms a) us t := by
  induction h generalizing us with
  | nil => exact hts.not_nil.elim
  | @cons a b c as bs hterm hterms ih =>
    obtain ⟨s, as', rfl, hs⟩ := hterm.starts
    have hsign : s.kind = .mark .plus ∨ s.kind = .mark .minus := hs
    rw [signedTerms_eq_bind]
    rcases hts.of_append with hin | ⟨vs, rfl, hin⟩
    · have hterm' := hterm.overflows hz hr hin
      obtain ⟨vs, rfl, -⟩ := hin.of_cons_of_sum hz hs
      refine overflows_current rfl ?_
      rw [if_pos hsign]
      exact overflows_bind_left hterm'
    · -- the next term starts with a sign, so this one ends in front of it
      obtain ⟨u, vs, rfl, hu⟩ := hterms.sign_behind hz hin
      have hstar : u.kind ≠ .mark .star := by rcases hu with hk | hk <;> simp [hk]
      refine overflows_current rfl ?_
      rw [if_pos hsign]
      exact overflows_bind_right _ (fun ws => hterm.takes hstar _) (ih hin)

omit ht in
theorem Address.SpellsFirst.overflows {a b : Address} {ts us : List Token}
    (h : a.SpellsFirst b ts) (hts : z.Behind us ts) : Overflows (firstTerm a) us t := by
  cases h with
  | none => exact hts.not_nil.elim
  | base hreg => exact (hts.not_singleton hz hreg rfl).elim
  | displacement hk hv =>
    obtain rfl := hts.eq_nil
    exact fun past ws => ⟨_, hr.first a past ws⟩

omit ht hr in
/-- A segment has no literal. -/
theorem SpellsSegment.not_behind {outside segment : Option String} {ss us : List Token}
    (h : SpellsSegment outside segment ss) (hts : z.Behind us ss) : False := by
  cases h with
  | none => exact hts.not_nil
  | inside ho hreg hc =>
    obtain ⟨_, -, hin⟩ := hts.of_cons_of_kind hz hreg rfl
    exact hin.not_singleton hz hc rfl

omit hz hr in
/-- A literal behind a segment, and none in the place of one, ends it. -/
theorem SpellsSegment.takes_of_isNumeric {outside segment : Option String} {ss : List Token}
    (h : SpellsSegment outside segment ss) (rest : List Token) :
    Takes (innerSegment outside) (ss ++ t :: rest) (t :: rest) segment := by
  cases h with
  | none =>
    refine takes_bind takes_current (takes_peek_bind fun u => ?_)
    rw [if_neg fun h => (Token.ne_of_isNumeric ht).2.1 h.2.1]
    exact takes_pure
  | inside ho hreg hc =>
    refine takes_bind takes_current (takes_bind (takes_peek rfl) ?_)
    rw [if_pos ⟨by simp [ho], hreg, hc⟩]
    exact takes_bind takes_advance (takes_bind takes_advance takes_pure)

/-- An address fails at its literal. -/
theorem Address.Spells.overflows {outside : Option String} {a : Address} {ts us : List Token}
    (h : a.Spells outside ts) (hts : z.Behind us ts) : Overflows (address outside) us t := by
  cases h with
  | @mk l r segment a _ ss us vs hl hs hu hv hne hclose =>
    obtain ⟨_, rfl, hin⟩ := hts.of_cons_of_kind hz hl rfl
    refine overflows_bind_right [l] (fun ws => takes_expect (by simp [hl])) ?_
    rcases hin.of_append with hss | ⟨_, rfl, hin'⟩
    · exact (hs.not_behind hz hss).elim
    rcases hin'.of_append with hus | ⟨_, rfl, hin''⟩
    · -- the literal is the first term
      have hfirst := hu.overflows hz hr hus
      cases hu with
      | none => exact hus.not_nil.elim
      | base hreg => exact (hus.not_singleton hz hreg rfl).elim
      | displacement hk hval =>
        obtain rfl := hus.eq_nil
        exact overflows_bind_right _ (fun ws => hs.takes_of_isNumeric ht ws)
          (overflows_bind_left hfirst)
    rcases hin''.of_append with hvs | ⟨_, rfl, hclosing⟩
    · -- the literal is in a term with a sign, which comes behind the first term
      have hterms := hv.overflows hz hr hvs
      obtain ⟨s, vs', rfl, hsign⟩ := hv.sign_behind hz hvs
      have hfirst (ws : List Token) := hu.takes (fun _ => hsign) (vs' ++ t :: ws)
      refine overflows_bind_right ss (fun ws => ?_)
        (overflows_bind_right us hfirst (overflows_bind_left hterms))
      have hbehind : IsSum s.kind ∧ vs' ++ t :: ws ≠ [] := ⟨hsign, by simp⟩
      obtain ⟨u, v, rest, hrest, hcolon⟩ := hu.next (.inl hbehind)
      have hsplit : us ++ s :: vs' ++ t :: ws = u :: v :: rest := by simpa using hrest
      rw [hsplit]
      exact hs.takes hcolon rest
    · exact (hclosing.not_singleton hz hclose rfl).elim

/-! ### Operands -/

/-- An operand fails at its literal, whichever form it would have. -/
theorem OperandForm.Spells.overflows {f : OperandForm} {ts us : List Token} (h : f.Spells ts)
    (hts : z.Behind us ts) (pos : Pos) (size : Option Int) :
    Overflows (operandForm pos size) us t := by
  cases h with
  | register hk => exact (hts.not_singleton hz hk rfl).elim
  | string hk => exact (hts.not_singleton hz hk rfl).elim
  | memory ha =>
    have haddress := ha.overflows hz ht hr hts
    cases ha with
    | @mk l r segment a b ss us vs hl =>
      obtain ⟨vs', rfl, -⟩ := hts.of_cons_of_kind hz hl rfl
      refine overflows_current rfl ?_
      rw [if_pos hl]
      exact overflows_bind_left haddress
  | @segmented s c a ts hs hc ha =>
    obtain ⟨_, rfl, hin⟩ := hts.of_cons_of_kind hz hs rfl
    obtain ⟨_, rfl, hin'⟩ := hin.of_cons_of_kind hz hc rfl
    have haddress := ha.overflows hz ht hr hin'
    cases ha with
    | @mk l r segment a b ss us vs hl =>
      obtain ⟨vs', rfl, -⟩ := hin'.of_cons_of_kind hz hl rfl
      have hbracket : ¬s.kind = .mark .leftBracket := by simp [hs]
      refine overflows_current rfl ?_
      rw [if_neg hbracket, if_pos hs]
      refine overflows_peek rfl ?_
      refine overflows_peek rfl ?_
      refine overflows_bind_right [s] (fun ws => takes_advance) ?_
      rw [if_pos ⟨hc, hl⟩]
      exact overflows_bind_right [c] (fun ws => takes_advance)
        (overflows_bind_left haddress)
  | expression he =>
    have hexpression := he.overflows hz ht hr hts
    obtain ⟨v, vs, rfl, hv⟩ := he.starts
    obtain ⟨u, us', hsplit, hu⟩ := hts.head (P := (·.kind.StartsExpr)) hv (.inl ht)
    refine overflows_current hsplit ?_
    rw [if_neg hu.ne.1, if_neg hu.ne.2.1, if_neg hu.ne.2.2]
    exact overflows_bind_left hexpression

/-- A size in front of it changes nothing. -/
theorem Operand.Spells.overflows {o : Operand} {ts us : List Token} (h : o.Spells ts)
    (hts : z.Behind us ts) : Overflows operand us t := by
  intro past ws
  cases h with
  | @plain u f ts hf =>
    obtain ⟨v, vs, hv, hk⟩ := hf.starts
    obtain ⟨rfl, rfl⟩ := List.cons.inj hv
    obtain ⟨w, vs, hsplit, hw⟩ := hts.head (P := (·.kind.StartsForm)) hk (.inl (.inl ht))
    obtain ⟨d, herror⟩ := hf.overflows hz ht hr hts w.pos none past ws
    refine ⟨d, ?_⟩
    rw [List.append_cons, hsplit] at herror ⊢
    exact (operand_of_no_size (c := ⟨past, w :: (vs ++ ws)⟩) hw.not_size).trans herror
  | @sized u w f ts hu hf =>
    obtain ⟨vs, rfl, hin⟩ := hts.of_cons_of_kind hz hu rfl
    obtain ⟨d, herror⟩ := hf.overflows hz ht hr hin u.pos (some w.bits) (u :: past) ws
    exact ⟨d, (operand_size_cons hu past _).trans herror⟩

omit ht hr in
/-- In front of a literal in a later operand, the first one ends. -/
theorem Operand.SpellsMore.endsOperand {os : List Operand} {ts us : List Token}
    (h : Operand.SpellsMore os ts) (hts : z.Behind us ts) (ws : List Token) :
    EndsOperand (us ++ ws) := by
  cases h with
  | nil => exact hts.not_nil.elim
  | cons hc =>
    obtain ⟨vs, rfl, -⟩ := hts.of_cons_of_kind hz hc rfl
    exact .comma _ _ hc

/-- The literal is in one of the operands, by induction on them. -/
theorem Operand.SpellsMore.overflows {os : List Operand} {ts us : List Token}
    (h : Operand.SpellsMore os ts) (hts : z.Behind us ts) : Overflows moreOperands us t := by
  induction h generalizing us with
  | nil => exact hts.not_nil.elim
  | @cons c o os as bs hc ho hos ih =>
    obtain ⟨vs, rfl, hin⟩ := hts.of_cons_of_kind hz hc rfl
    have hexpect (ws : List Token) :
        Takes (expect (.kinds [.mark .comma]) [.mark .comma]) ([c] ++ ws) ws c :=
      takes_expect (by simp [hc])
    intro past ws
    have hcomma : (Cursor.current ⟨past, c :: vs ++ t :: ws⟩).kind = .mark .comma := hc
    rw [moreOperands_eq, if_pos hcomma]
    rcases hin.of_append with has | ⟨vs, rfl, hbs⟩
    · have hnext : Overflows nextOperand (c :: vs) t :=
        overflows_bind_right [c] (fun ws => hexpect _) (ho.overflows hz ht hr has)
      obtain ⟨d, herror⟩ := hnext past ws
      exact ⟨d, by rw [herror]⟩
    · have hnext : Takes nextOperand (c :: (as ++ (vs ++ t :: ws))) (vs ++ t :: ws) o :=
        takes_bind (hexpect _) (ho.takes (hos.endsOperand hz hbs _))
      obtain ⟨past', hok⟩ := hnext past
      obtain ⟨d, herror⟩ := ih hbs past' ws
      refine ⟨d, ?_⟩
      rw [List.cons_append, List.append_assoc, hok]
      simp only [herror]

/-- So the operands of an instruction fail at it. -/
theorem Operand.SpellsAll.overflows {os : List Operand} {ts us : List Token}
    (h : Operand.SpellsAll os ts) (hts : z.Behind us ts) : Overflows operandsToLineEnd us t := by
  rw [operandsToLineEnd_eq]
  cases h with
  | nil => exact hts.not_nil.elim
  | @cons o os as bs ho hos =>
    obtain ⟨u, as, rfl, hk⟩ := ho.starts
    have hend : ¬u.kind.endsLine := by
      rcases hk with hk | ⟨w, hk⟩
      · exact hk.not_endsLine
      · simp [hk, TokenKind.endsLine]
    have hend' : ¬t.kind.endsLine := TokenKind.StartsForm.not_endsLine (.inl (.inl ht))
    obtain ⟨v, vs, hsplit, hv⟩ := hts.head (P := (¬·.kind.endsLine)) hend hend'
    refine overflows_current hsplit ?_
    rw [if_neg hv]
    rcases hts.of_append with hin | ⟨vs, rfl, hin⟩
    · exact overflows_bind_left (ho.overflows hz ht hr hin)
    · exact overflows_bind_right _ (fun ws => ho.takes (hos.endsOperand hz hin _))
        (overflows_bind_left (hos.overflows hz ht hr hin))

/-! ### Statements -/

/-- The literal is among the operands, or in the expression of an equate. -/
theorem Instruction.Spells.overflows {label comment : Option String} {i : Instruction}
    {ts us : List Token} (h : i.Spells label comment ts) (hts : z.Behind us ts) :
    Overflows (wholeLine label) us t := by
  refine overflows_bind_left ?_
  have hmnemonic {m : Token} (hm : m.kind = .ident) (ws : List Token) :
      Takes (expect .mnemonic [.ident]) ([m] ++ ws) ws m := takes_expect (by simp [hm])
  cases h with
  | @equate m e ts hm hq he =>
    obtain ⟨vs, rfl, hin⟩ := hts.of_cons_of_kind hz hm rfl
    have hexpression := he.overflows hz ht hr hin
    obtain ⟨u, us, rfl, hu⟩ := he.starts
    obtain ⟨w, ws, hsplit, hw⟩ := hin.head (P := (·.kind.StartsExpr)) hu (.inl ht)
    refine overflows_bind_right _ (fun ws => hmnemonic hm _) ?_
    rw [if_pos hq]
    refine overflows_bind_left (overflows_current hsplit ?_)
    rw [if_neg (TokenKind.StartsForm.not_endsLine (.inl hw))]
    exact hexpression
  | @operation m os ts hm hq hos =>
    obtain ⟨vs, rfl, hin⟩ := hts.of_cons_of_kind hz hm rfl
    refine overflows_bind_right _ (fun ws => hmnemonic hm _) ?_
    rw [if_neg hq]
    exact overflows_bind_left (hos.overflows hz ht hr hin)

omit hr in
/-- Up to the literal, no colon comes behind the mnemonic, and a keyword only if the instruction
goes on with it. -/
theorem Instruction.Spells.next_behind {label comment : Option String} {i : Instruction}
    {ts us : List Token} (h : i.Spells label comment ts) (hts : z.Behind us ts) :
    ∃ m w ws, us ++ [t] = m :: w :: ws ∧ m.kind = .ident ∧ w.kind ≠ .mark .colon ∧
      (w.kind = .ident ∧ isLabelKeyword w.text → KeywordAhead ts.tail) := by
  obtain ⟨m, ts, rfl, hm⟩ := h.starts
  obtain ⟨vs, rfl, hin⟩ := hts.of_cons_of_kind hz hm rfl
  -- what follows the mnemonic starts like an operand
  obtain ⟨u, us, rfl, hu⟩ : ∃ u us, ts = u :: us ∧ u.kind ≠ .mark .colon := by
    cases h with
    | equate _ hq he =>
      obtain ⟨u, us, rfl, hu⟩ := he.starts
      refine ⟨u, us, rfl, fun hk => ?_⟩
      simp [hk, TokenKind.StartsExpr, TokenKind.isNumeric, IsSum] at hu
    | operation _ hq hos =>
      cases hos with
      | nil => exact hin.not_nil.elim
      | cons ho hos =>
        obtain ⟨u, us, rfl, hu⟩ := ho.starts
        refine ⟨u, _, rfl, fun hk => ?_⟩
        simp [hk, TokenKind.StartsForm, TokenKind.StartsExpr, TokenKind.isNumeric, IsSum] at hu
  have hident : t.kind ≠ .ident := by
    intro hk
    rw [hk] at ht
    cases ht
  obtain ⟨w, ws, hsplit, hcolon, hkeyword⟩ := hin.head
    (P := fun w => w.kind ≠ .mark .colon ∧
      (w.kind = .ident ∧ isLabelKeyword w.text → KeywordAhead (u :: us)))
    ⟨hu, id⟩ ⟨(Token.ne_of_isNumeric ht).1 _, fun hk => absurd hk.1 hident⟩
  exact ⟨m, w, ws, congrArg (m :: ·) hsplit, hm, hcolon, hkeyword⟩

theorem Instruction.Spells.overflows_itemOfLabel {l : Label} {comment : Option String}
    {i : Instruction} {ts us : List Token} (h : i.Spells (some l.name) comment ts)
    (hts : z.Behind us ts) : Overflows (itemOfLabel l) us t := by
  obtain ⟨m, w, ws, hsplit, hm, hw, -⟩ := h.next_behind hz ht hts
  refine overflows_current hsplit (overflows_peek (by rw [hsplit]; rfl) ?_)
  rw [if_neg fun hk => hw hk.2, if_neg (by simp [hm, TokenKind.endsLine])]
  exact overflows_bind_left (h.overflows hz ht hr hts)

/-- A label in front of it changes nothing. -/
theorem Item.Spells.overflows {comment : Option String} {x : Item} {ts us : List Token}
    (h : x.Spells comment ts) (hts : z.Behind us ts) : Overflows item us t := by
  cases h with
  | label hl hu =>
    obtain ⟨_, rfl, hin⟩ := hts.of_cons_of_kind hz hl rfl
    exact (hin.not_singleton hz hu rfl).elim
  | @labelled l u i ts hl hu hi =>
    obtain ⟨_, rfl, hin⟩ := hts.of_cons_of_kind hz hl rfl
    obtain ⟨vs, rfl, hin'⟩ := hin.of_cons_of_kind hz hu rfl
    refine overflows_current rfl (overflows_peek rfl ?_)
    rw [if_pos ⟨hl, hu⟩]
    exact overflows_bind_right [l, u] (fun ws => takes_labelDeclaration_colon hl hu _)
      (hi.overflows_itemOfLabel hz ht hr hin')
  | @keyword l i ts hl hk hi =>
    obtain ⟨vs, rfl, hin⟩ := hts.of_cons_of_kind hz hl rfl
    have hline := hi.overflows hz ht hr hin
    obtain ⟨m, us, rfl, hm⟩ := hi.starts
    obtain ⟨vs', rfl, -⟩ := hin.of_cons_of_kind hz hm rfl
    refine overflows_current rfl (overflows_peek rfl ?_)
    rw [if_neg (by simp [hm]), if_pos ⟨hl, hk⟩]
    exact overflows_bind_right [l] (fun ws => takes_labelDeclaration hl _)
      (overflows_bind_left hline)
  | plain hk hi =>
    obtain ⟨m, w, ws, hsplit, hm, hw, hkeyword⟩ := hi.next_behind hz ht hts
    refine overflows_current hsplit (overflows_peek (by rw [hsplit]; rfl) ?_)
    rw [if_neg fun h => hw h.2, if_neg fun h => hk (hkeyword h.2), if_pos hm]
    exact overflows_bind_left (hi.overflows hz ht hr hts)

omit ht hr in
/-- A comment has no literal. -/
theorem SpellsComment.not_behind {c : Option String} {cs us : List Token} (h : SpellsComment c cs)
    (hts : z.Behind us cs) : False := by
  cases h with
  | none => exact hts.not_nil
  | some hk => exact hts.not_singleton hz hk rfl

end

/-! ### Lines -/

section
variable {m t : Token} {us vs : List Token}

/-- Newlines and comments are skipped on the way to the literal. -/
theorem overflows_items_skip (hm : m.kind = .newline ∨ m.kind = .comment)
    (h : Overflows items us t) : Overflows items (m :: us) t := by
  intro past ws
  rw [items_of_skip (c := ⟨past, m :: us ++ t :: ws⟩) hm]
  exact h (m :: past) ws

/-- The item that has the literal fails at it. -/
theorem overflows_items_item (hm : m.kind = .ident) (h : Overflows item (m :: us) t) :
    Overflows items (m :: us) t := by
  intro past ws
  obtain ⟨d, herror⟩ := h past ws
  have hk : (Cursor.current ⟨past, m :: us ++ t :: ws⟩).kind = .ident := hm
  exact ⟨d, items_of_error (by rw [hk]; simp) (by rw [hk]; simp) herror⟩

/-- The items in front of it are read as they are. -/
theorem overflows_items_behind {x : Item} (hm : m.kind = .ident)
    (hx : ∀ ws, Takes item (m :: us ++ (vs ++ t :: ws)) (vs ++ t :: ws) x)
    (h : Overflows items vs t) : Overflows items (m :: us ++ vs) t := by
  intro past ws
  obtain ⟨past', hitem⟩ := hx ws past
  obtain ⟨d, herror⟩ := h past' ws
  have hk : (Cursor.current ⟨past, m :: us ++ (vs ++ t :: ws)⟩).kind = .ident := hm
  refine ⟨d, ?_⟩
  rw [List.append_assoc, items_of_item (by rw [hk]; simp) (by rw [hk]; simp) hitem, herror]
  rfl

end

/-- A literal out of range that stands where lines have one is the error, also behind a newline at
the front that the statement in front of it took. -/
theorem Lines.overflows {z t : Token} (hz : z.kind.isNumeric) (ht : t.kind.isNumeric)
    (hr : t.Refused) {xs : List Item} {ts us : List Token} (h : Lines xs ts)
    (hts : z.Behind us ts) : Overflows items us t ∧
      ∀ n vs, us = n :: vs → n.kind = .newline → Overflows items vs t := by
  -- by induction on the lines, of which those in front of the literal are taken one by one
  induction h generalizing us with
  | nil => exact hts.not_nil.elim
  | @skip m xs ts hm hxs ih =>
    obtain ⟨vs, rfl, hin⟩ : ∃ vs, us = m :: vs ∧ z.Behind vs ts := by
      rcases hm with hm | hm <;> exact hts.of_cons_of_kind hz hm rfl
    refine ⟨overflows_items_skip hm (ih hin).1, ?_⟩
    rintro n us hus -
    obtain ⟨rfl, rfl⟩ := List.cons.inj hus
    exact (ih hin).1
  | @label l u xs ts hl hu ha hxs ih =>
    obtain ⟨_, rfl, hin⟩ := hts.of_cons_of_kind hz hl rfl
    obtain ⟨vs, rfl, hin'⟩ := hin.of_cons_of_kind hz hu rfl
    have hitem (ws : List Token) : Takes item (l :: [u] ++ (vs ++ t :: ws)) (vs ++ t :: ws)
        (.label ⟨l.text, l.pos⟩) := by
      match ts, ha with
      | v :: w :: ts, ⟨hv, hw⟩ =>
        obtain ⟨_, rfl, hin''⟩ := hin'.of_cons_of_kind hz hv rfl
        obtain ⟨vs', rfl, -⟩ := hin''.of_cons_of_kind hz hw rfl
        refine takes_item_colon hl hu (takes_bind takes_current (takes_bind (takes_peek rfl) ?_))
        rw [if_pos ⟨hv, hw⟩]
        exact takes_pure
    refine ⟨overflows_items_behind hl hitem (ih hin').1, ?_⟩
    rintro n us hus hn
    rw [← (List.cons.inj hus).1, hl] at hn
    cases hn
  | @statement c x xs as cs bs hx hc hend hxs ih =>
    obtain ⟨m, as, rfl, hm⟩ := hx.starts
    have hnewline {us : List Token} (hus : ∃ vs, us = m :: vs) (n : Token) (vs : List Token)
        (h : us = n :: vs) (hn : n.kind = .newline) : Overflows items vs t := by
      obtain ⟨vs', rfl⟩ := hus
      rw [← (List.cons.inj h).1, hm] at hn
      cases hn
    rcases hts.of_append with hin | ⟨ws, rfl, hin⟩
    · have hitem := hx.overflows hz ht hr hin
      obtain ⟨vs, rfl, -⟩ := hin.of_cons_of_kind hz hm rfl
      exact ⟨overflows_items_item hm hitem, hnewline ⟨_, rfl⟩⟩
    rcases hin.of_append with hcs | ⟨vs, rfl, hbs⟩
    · exact (hc.not_behind hz hcs).elim
    -- the statement is read together with the newline behind it
    refine ⟨?_, hnewline ⟨_, rfl⟩⟩
    cases bs with
    | nil => exact hbs.not_nil.elim
    | cons n bs =>
      have hn : n.kind = .newline := hend n rfl
      obtain ⟨vs', rfl, -⟩ := hbs.of_cons_of_kind hz hn rfl
      have hitem (ws : List Token) :
          Takes item (m :: (as ++ (cs ++ [n])) ++ (vs' ++ t :: ws)) (vs' ++ t :: ws) x := by
        have hafter : behindEnd n (vs' ++ t :: ws) = vs' ++ t :: ws := if_pos hn
        simpa [hafter] using hx.takes hc (.inl hn) (vs' ++ t :: ws)
      have hsplit : m :: as ++ (cs ++ n :: vs') = m :: (as ++ (cs ++ [n])) ++ vs' := by simp
      rw [hsplit]
      exact overflows_items_behind hm hitem ((ih hbs).2 n vs' rfl hn)

theorem Lines.parse_eq_error {xs : List Item} {us vs : List Token} {z t : Token}
    (h : Lines xs (us ++ z :: vs)) (hz : z.kind.isNumeric) (ht : t.kind.isNumeric)
    (hr : t.Refused) (ws : List Token) : parse (us ++ t :: ws) = .error ⟨.outOfRange, t.pos⟩ := by
  obtain ⟨d, herror⟩ := (h.overflows hz ht hr ⟨vs, rfl⟩).1 [] ws
  have hcursor : Cursor.ofTokens (us ++ t :: ws) = ⟨[], us ++ t :: ws⟩ := rfl
  rw [parse_eq_items, hcursor, herror]

end IntelAsm

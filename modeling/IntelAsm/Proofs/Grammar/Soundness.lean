import IntelAsm.Proofs.Grammar.Rules
import IntelAsm.Proofs.Grammar.Decided

/-!
# The parser obeys the grammar

Every action of the parser obeys the rules for what it reads, from the operands of an expression up
to whole token lists (`follows_items`). Where it blames a token, something else could have stood
there: a `$` where an operand is due, a register or a number in an address, a bracket or a
parenthesis that closes what is open, or the end.
-/

namespace IntelAsm

open Parse
open Descent (IsSum IsProduct)

/-! ### Expressions -/

theorem Expr.spells_dollar : Expr.Spells .operand (.here {}) [⟨Mark.dollar.word, {}⟩] :=
  .here (t := ⟨Mark.dollar.word, {}⟩) rfl

/-- A token that is an operand by itself spells that operand. -/
theorem Expr.spells_of_operand? {t : Token} {e : Expr} (h : t.operand? = some (.ok e)) :
    e.Spells .operand [t] := by
  unfold Token.operand? at h
  split at h
  · next hk =>
    cases hv : t.value with
    | error f =>
      rw [hv] at h
      cases h
    | ok v =>
      rw [hv] at h
      cases h
      exact .literal hk hv
  split at h
  · next hk =>
    cases h
    exact .here hk
  split at h
  · next hk =>
    cases h
    exact .symbol hk
  · cases h

/-- The end marker is no operand, nor a failed one. -/
theorem ne_eof_of_operand? {t : Token} {x : Except ParseFault Expr} (h : t.operand? = some x) :
    t.kind ≠ .eof := by
  intro he
  simp [Token.operand?, TokenKind.isNumeric, he] at h

namespace Descent

theorem IsSum.ne_eof {k : TokenKind} (h : IsSum k) : k ≠ .eof := by
  rintro rfl
  cases h <;> contradiction

theorem IsProduct.ne_eof {k : TokenKind} (h : IsProduct k) : k ≠ .eof := by
  rintro rfl
  rcases h with h | h | h <;> cases h

/-- A single token is passed if it spells an operand, and otherwise `$` could stand there. -/
theorem obeys_single (c : Cursor) : Obeys c (Expr.Spells .operand) (single c).1 := by
  show Obeys c _ (Parse.primary c)
  rw [primary_eq]
  cases h : c.current.operand? with
  | none => exact obeys_fail _ Expr.spells_dollar
  | some x =>
    cases x with
    | ok e => exact ⟨[c.current], .advance (ne_eof_of_operand? h), Expr.spells_of_operand? h⟩
    | error f => exact ⟨[], c, .refl c, rfl, _, _, Expr.spells_dollar⟩

/-- Two rules in a row are obeyed if the first is, and the second is behind what it passed. -/
theorem obeys_bind {m n : Nat} {c : Cursor} {r : Below m}
    {f : (e : Expr) → (d : Cursor) → d.ahead.length < m → Below n} {G H : Expr → List Token → Prop}
    (hr : Obeys c G r.1) (hG : ∀ e us, G e us → Viable H us)
    (hf : ∀ e us d hd, c.Moves us d → G e us → Obeys d (fun b vs => H b (us ++ vs)) (f e d hd).1) :
    Obeys c H (r.bind f).1 := by
  obtain ⟨_ | _, hlt⟩ := r
  · obtain ⟨us, hm, hg⟩ := hr
    exact Follows.prepend hm ((hf _ us _ (hlt _ _ rfl) hm hg).follows us)
  · obtain ⟨us, d, hm, hpos, hv⟩ := hr
    exact ⟨us, d, hm, hpos, hv.imp hG⟩

/-- Each rule of the descent obeys the rules of its level, also behind a left operand. -/
theorem obeys_rules :
    (∀ c, Obeys c (Expr.Spells .sum) (expr c).1) ∧
    (∀ l c, ∀ us, l.Spells .sum us → Obeys c (fun e vs => e.Spells .sum (us ++ vs)) (sum l c).1) ∧
    (∀ c, Obeys c (Expr.Spells .product) (term c).1) ∧
    (∀ l c, ∀ us, l.Spells .product us →
      Obeys c (fun e vs => e.Spells .product (us ++ vs)) (product l c).1) ∧
    (∀ c, Obeys c (Expr.Spells .operand) (unary c).1) ∧
    ∀ c, Obeys c (Expr.Spells .operand) (primary c).1 := by
  apply expr.mutual_induct
  case _ => -- expr
    intro c ihTerm ihSum
    rw [expr]
    refine obeys_bind ihTerm (fun e us he => .of_rule (.ofProduct he)) fun l us d hd _ hl => ?_
    exact ihSum l d hd us (.ofProduct hl)
  case _ => -- sum, one more term
    intro l c h _ ihTerm ihSum us hl
    rw [sum, dif_pos h]
    refine .prepend (.advance h.ne_eof) (obeys_bind ihTerm ?_ fun r vs d hd _ hr => ?_)
    · exact fun r vs hr => .of_rule (.add hl h hr)
    · have hsum := ihSum r d hd _ (.add hl h hr)
      simp only [List.append_assoc, List.cons_append] at hsum
      exact hsum
  case _ => -- sum, at its end
    intro l c h us hl
    rw [sum, dif_neg h]
    exact ⟨[], .refl c, by simpa using hl⟩
  case _ => -- term
    intro c ihUnary ihProduct
    rw [term]
    refine obeys_bind ihUnary (fun e us he => .of_rule (.ofOperand he)) fun l us d hd _ hl => ?_
    exact ihProduct l d hd us (.ofOperand hl)
  case _ => -- product, one more factor
    intro l c h _ ihUnary ihProduct us hl
    rw [product, dif_pos h]
    refine .prepend (.advance h.ne_eof) (obeys_bind ihUnary ?_ fun r vs d hd _ hr => ?_)
    · exact fun r vs hr => .of_rule (.mul hl h hr)
    · have hproduct := ihProduct r d hd _ (.mul hl h hr)
      simp only [List.append_assoc, List.cons_append] at hproduct
      exact hproduct
  case _ => -- product, at its end
    intro l c h us hl
    rw [product, dif_neg h]
    exact ⟨[], .refl c, by simpa using hl⟩
  case _ => -- unary, a sign
    intro c h _ ihUnary
    rw [unary, dif_pos h]
    refine .prepend (.advance h.ne_eof) (obeys_bind ihUnary ?_ fun e us d hd _ he => ?_)
    · exact fun e us he => .of_rule (.sign h he)
    · exact ⟨[], .refl d, by simpa using Expr.Spells.sign h he⟩
  case _ => -- unary, no sign
    intro c h ihPrimary
    rwa [unary, dif_neg h]
  case _ => -- primary, in parentheses
    intro c h _ ihExpr
    rw [primary, dif_pos h]
    have hclose {e : Expr} {us : List Token} (he : e.Spells .sum us) :
        e.Spells .operand (c.current :: (us ++ [⟨Mark.rightParen.word, {}⟩])) := .paren h he rfl
    refine .prepend (.advance (by simp [h])) (obeys_bind ihExpr ?_ fun e us d hd _ he => ?_)
    · exact fun e us he => ⟨e, _, hclose he⟩
    · split
      · next hr =>
        exact ⟨[d.current], .advance (by simp [hr]), by simpa using Expr.Spells.paren h he hr⟩
      · exact ⟨[], d, .refl d, rfl, e, _, by simpa using hclose he⟩
  case _ => -- primary, a single token
    intro c h
    rw [primary, dif_neg h]
    exact obeys_single c

end Descent

/-- What is passed as an expression spells it; up to a fault some expression goes on. -/
theorem obeys_expression (c : Cursor) : Obeys c (Expr.Spells .sum) (expression c) := by
  rw [Descent.expression_eq]
  exact Descent.obeys_rules.1 c

/-! ### Addresses -/

namespace Address

/-- A number with which a term of an address can be completed. -/
def spareNumber : Token := ⟨⟨.number, "1"⟩, {}⟩

theorem value_spareNumber : spareNumber.value = .ok 1 := by decide

/-- A term has a sign. -/
theorem SpellsTerm.ne_nil {a b : Address} {us : List Token} (h : a.SpellsTerm b us) : us ≠ [] := by
  cases h <;> simp

/-- A signed term is decided at once: a register, with its factor, or a number. -/
theorem decides_signedTerm (a : Address) (c : Cursor) :
    Decides (signedTerm a) c (fun b us _ => a.SpellsTerm b us) (Viable a.SpellsTerm) := by
  have hnumber {s : Token} (hs : IsSum s.kind) : a.SpellsTerm _ [s, spareNumber] :=
    .displacement hs rfl value_spareNumber
  refine decides_expect (by decide)
    ⟨_, _, hnumber (s := ⟨Mark.plus.word, {}⟩) (.inl rfl)⟩ fun hs => ?_
  have hs : IsSum c.current.kind := by simpa [IsSum] using hs
  have hsign : Viable a.SpellsTerm [c.current] := ⟨_, [_], hnumber hs⟩
  apply decides_current
  refine decides_ite (fun hr => ?_) fun _ => decides_ite (fun hk => ?_) fun _ =>
    decides_fail nofun hsign
  · -- a register is the index, if that is not taken
    refine decides_ite (fun _ => decides_fail nofun hsign) fun ha => ?_
    have ha : a.index = none := by simpa using ha
    refine decides_advance (by simp [hr]) (decides_current (decides_ite (fun hm => ?_) fun _ => ?_))
    · have hscaled {t : Token} {v : Int} (hk : t.kind.isNumeric) (hv : t.value = .ok v) :=
        SpellsTerm.scaled hs ha hr hm hk hv
      refine decides_advance (by simp [hm])
        (decides_number ⟨_, [spareNumber], hscaled rfl value_spareNumber⟩ fun v hk hv => ?_)
      exact decides_pure (hscaled hk hv)
    · exact decides_pure (.index hs ha hr)
  · exact decides_number hsign fun v hk hv => decides_pure (.displacement hs hk hv)

/-- The terms are read one by one as long as a sign comes next. -/
theorem signedTerms_eq_bind (a : Address) :
    signedTerms a = do
      let t ← current
      if t.kind = .mark .plus ∨ t.kind = .mark .minus then do
        let a' ← signedTerm a
        signedTerms a'
      else return a := by
  funext c
  rw [signedTerms_eq]
  show _ = (if _ then signedTerm a >>= signedTerms else pure a) c
  split
  · show _ = EStateM.bind (signedTerm a) signedTerms c
    unfold EStateM.bind
    cases signedTerm a c <;> rfl
  · rfl

/-- So the terms are decided at once too, by induction on the tokens ahead. -/
theorem decides_signedTerms (a : Address) (c : Cursor) :
    Decides (signedTerms a) c
      (fun b us _ => a.SpellsTerms b us ∧ (IsSum c.current.kind → us ≠ []))
      (Viable fun b us => a.SpellsTerms b us ∧ us ≠ []) := by
  induction hn : c.ahead.length using Nat.strongRecOn generalizing a c with
  | _ n ih =>
    subst hn
    rw [signedTerms_eq_bind]
    refine decides_current (decides_ite (fun hs => ?_) fun hs => ?_)
    · refine decides_bind (decides_signedTerm a c) ?_ fun b us d hm ht => ?_
      · rintro us ⟨b, vs, ht⟩
        exact ⟨b, vs, by simpa using SpellsTerms.cons ht .nil, ht.ne_nil⟩
      have hlt : d.ahead.length < c.ahead.length := by
        have := List.length_pos_iff.2 ht.ne_nil
        simp [hm.ahead]
        omega
      refine (ih _ hlt b d rfl).imp ?_ ?_
      · exact fun b' vs e _ hb => ⟨.cons ht hb.1, fun _ => by simp [ht.ne_nil]⟩
      · rintro vs ⟨b', ws, hb, -⟩
        exact ⟨b', ws, by simpa using SpellsTerms.cons ht hb, by simp [ht.ne_nil]⟩
    · exact decides_pure ⟨.nil, fun h => absurd h hs⟩

/-- Without a first term, one with a sign comes next. -/
theorem decides_firstTerm (a : Address) (c : Cursor) :
    Decides (firstTerm a) c
      (fun b us d => a.SpellsFirst b us ∧ (us = [] → IsSum d.current.kind)) (· = []) := by
  refine decides_current (decides_ite (fun hr => ?_) fun _ => decides_ite (fun hk => ?_) fun _ =>
    decides_ite (fun hs => ?_) fun _ => decides_fail nofun rfl)
  · exact decides_advance (by simp [hr]) (decides_pure ⟨.base hr, by simp⟩)
  · exact decides_number rfl fun v hk hv => decides_pure ⟨.displacement hk hv, by simp⟩
  · exact decides_pure ⟨.none, fun _ => hs⟩

/-- The segment inside the brackets and the first term, without a look further ahead: a register
starts both, and the token behind it tells which. -/
def opening (outside : Option String) : Parse Address := do
  let t ← current
  if outside.isNone ∧ t.kind = .register then do
    let _ ← advance
    let u ← current
    if u.kind = .mark .colon then do
      let _ ← advance
      firstTerm { segment := some t.text }
    else return { base := some t.text }
  else firstTerm { segment := outside }

/-- A register is a segment only if a colon follows. -/
theorem innerSegment_apply (outside : Option String) (c : Cursor) :
    innerSegment outside c =
      if outside.isNone ∧ c.current.kind = .register ∧ (c.peek 1).kind = .mark .colon then
        .ok (some c.current.text) c.advance.advance
      else .ok outside c := by
  show (if _ then _ else _ : Parse (Option String)) c = _
  split <;> rfl

/-- To look for the colon first or to read the register first comes to the same. -/
theorem opening_eq (outside : Option String) :
    (innerSegment outside >>= fun s => firstTerm { segment := s }) = opening outside := by
  funext c
  show EStateM.bind _ _ c = (if _ then _ else _ : Parse Address) c
  rw [EStateM.bind, innerSegment_apply]
  by_cases ht : outside.isNone ∧ c.current.kind = .register
  · have hu : c.peek 1 = c.advance.current := Cursor.peek_succ (by simp [ht.2]) 0
    rw [if_pos ht, hu]
    show _ = (if c.advance.current.kind = .mark .colon then _ else _ : Parse Address) c.advance
    by_cases hc : c.advance.current.kind = .mark .colon
    · rw [if_pos ⟨ht.1, ht.2, hc⟩, if_pos hc]
      rfl
    · obtain rfl : outside = none := by simpa using ht.1
      have hfirst : firstTerm {} c = .ok { base := some c.current.text } c.advance := by
        show (if _ then _ else _ : Parse Address) c = _
        rw [if_pos ht.2]
        rfl
      rw [if_neg fun h => hc h.2.2, if_neg hc]
      exact hfirst
  · rw [if_neg fun h => ht ⟨h.1, h.2.1⟩, if_neg ht]

/-- The segment of an opening, and its first term unless a term with a sign comes next. -/
theorem decides_opening (outside : Option String) (c : Cursor) :
    Decides (opening outside) c
      (fun a us d => ∃ s ss vs, us = ss ++ vs ∧ SpellsSegment outside s ss ∧
        SpellsFirst { segment := s } a vs ∧ (vs = [] → IsSum d.current.kind))
      (fun us => ∃ s, SpellsSegment outside s us) := by
  have hfirst (s : Option String) (ss : List Token) (hs : SpellsSegment outside s ss) (d : Cursor) :
      Decides (firstTerm { segment := s }) d
        (fun a us d => ∃ s ss' vs, ss ++ us = ss' ++ vs ∧ SpellsSegment outside s ss' ∧
          SpellsFirst { segment := s } a vs ∧ (vs = [] → IsSum d.current.kind))
        (fun us => ∃ s, SpellsSegment outside s (ss ++ us)) := by
    refine (decides_firstTerm _ d).imp (fun a us e _ h => ⟨s, ss, us, rfl, hs, h⟩) ?_
    rintro _ rfl
    exact ⟨s, by simpa using hs⟩
  refine decides_current (decides_ite (fun ht => ?_) fun _ => hfirst outside [] .none c)
  obtain ⟨ho, hr⟩ := ht
  obtain rfl : outside = none := by simpa using ho
  refine decides_advance (by simp [hr]) (decides_current (decides_ite (fun hc => ?_) fun _ => ?_))
  · exact decides_advance (by simp [hc]) (hfirst _ [_, _] (.inside rfl hr hc) _)
  · exact decides_pure ⟨none, [], _, rfl, .none, .base hr, by simp⟩

/-- What an address in brackets is, is decided token by token. -/
theorem decides_address (outside : Option String) (c : Cursor) :
    Decides (address outside) c (fun a us _ => a.Spells outside us)
      (Viable (Address.Spells outside)) := by
  have hspare {s : Option String} : SpellsFirst { segment := s } _ [⟨⟨.register, "eax"⟩, {}⟩] :=
    .base rfl
  have haddress : address outside = do
      let _ ← expect (.kinds [.mark .leftBracket]) [.mark .leftBracket]
      let a ← opening outside
      let a ← signedTerms a
      let _ ← expect .closingBracket [.mark .rightBracket]
      return a := by
    rw [← opening_eq]
    simp only [address, bind_assoc]
  rw [haddress]
  refine decides_expect (by decide) (.of_append (.of_rule
    (.mk (l := ⟨Mark.leftBracket.word, {}⟩) (r := ⟨Mark.rightBracket.word, {}⟩) rfl .none hspare
      .nil (.inl (by simp)) rfl))) fun hl => ?_
  have hl : c.current.kind = .mark .leftBracket := by simpa using hl
  -- no segment, no first term and no term with a sign is needed, but one of the latter two
  refine decides_bind (decides_opening outside _) ?_ ?_
  · rintro ss ⟨s, hs⟩
    have h := Spells.mk (r := ⟨Mark.rightBracket.word, {}⟩) hl hs hspare .nil (.inl (by simp)) rfl
    exact ⟨_, [_, _], by simpa using h⟩
  rintro a _ d - ⟨s, ss, us, rfl, hs, hu, hsign⟩
  refine decides_bind (decides_signedTerms a d) ?_ fun b vs d' _ hv => ?_
  · rintro vs ⟨b, ws, hb, hne⟩
    refine ⟨b, ws ++ [⟨Mark.rightBracket.word, {}⟩], ?_⟩
    simpa using Spells.mk hl hs hu hb (.inr hne) rfl
  have hne : us ≠ [] ∨ vs ≠ [] := by
    by_cases h : us = []
    · exact .inr (hv.2 (hsign h))
    · exact .inl h
  have hclose {r : Token} (hr : r.kind = .mark .rightBracket) := Spells.mk hl hs hu hv.1 hne hr
  refine decides_expect (by decide) ⟨b, [⟨Mark.rightBracket.word, {}⟩], ?_⟩ fun hr => ?_
  · simpa using hclose (r := ⟨Mark.rightBracket.word, {}⟩) rfl
  · exact decides_pure (by simpa using hclose (by simpa using hr))

/-- What is passed as an address spells it; up to a fault some address goes on. -/
theorem obeys_address (outside : Option String) (c : Cursor) :
    Obeys c (Address.Spells outside) (address outside c) :=
  (decides_address outside c).follows

end Address

/-! ### Operands -/

section
variable (pos : Pos) (size : Option Int) (c : Cursor)

/-- The operand that a form makes with a size and a place. -/
def IsFormed (o : Operand) (us : List Token) : Prop :=
  ∃ f : OperandForm, o = ⟨f, size, pos⟩ ∧ f.Spells us

/-- A register is an operand of its own, or a segment in front of an address. -/
theorem obeys_registerOperand (hr : c.current.kind = .register) :
    Obeys c (IsFormed pos size) (registerOperand pos size c.current c) := by
  have he : c.current.kind ≠ .eof := by simp [hr]
  refine obeys_peek 1 (obeys_peek 2 (obeys_advance he (obeys_ite (fun h => ?_) fun _ => ?_)))
  · rw [Cursor.peek_succ he] at h
    have hc : c.advance.current.kind = .mark .colon := h.1
    refine obeys_advance (by simp [hc]) ?_
    refine obeys_bind (Address.obeys_address _ _) (fun a us ha => ?_) fun a us d _ ha => ?_
    · exact .of_rule ⟨_, rfl, .segmented hr hc ha⟩
    · exact obeys_pure ⟨_, rfl, .segmented hr hc (by simpa using ha)⟩
  · exact obeys_pure ⟨_, rfl, .register hr⟩

/-- Every form is told by its first token. -/
theorem obeys_operandForm : Obeys c (IsFormed pos size) (operandForm pos size c) := by
  refine obeys_current (obeys_ite (fun _ => ?_) fun _ => obeys_ite
    (fun hr => obeys_registerOperand pos size c hr) fun _ => obeys_ite (fun hs => ?_) fun _ => ?_)
  · refine obeys_bind (Address.obeys_address _ _) (fun a us ha => ?_) fun a us d _ ha => ?_
    · exact .of_rule ⟨_, rfl, .memory ha⟩
    · exact obeys_pure ⟨_, rfl, .memory (by simpa using ha)⟩
  · exact obeys_advance (by simp [hs]) (obeys_pure ⟨_, rfl, .string hs⟩)
  · refine obeys_bind (obeys_expression c) (fun e us he => ?_) fun e us d _ he => ?_
    · exact .of_rule ⟨_, rfl, .expression he⟩
    · exact obeys_pure ⟨_, rfl, .expression (by simpa using he)⟩

end

/-- What is passed as an operand spells it, its size included. -/
theorem obeys_operand (c : Cursor) : Obeys c Operand.Spells (operand c) := by
  by_cases hsize : ∃ w, c.current.kind = .size w
  · obtain ⟨w, hw⟩ := hsize
    rw [operand_of_size hw]
    refine .prepend (.advance (by simp [hw])) (Follows.imp (obeys_operandForm _ _ _) ?_ ?_)
    · rintro o us d - ⟨f, rfl, hf⟩
      exact .sized hw hf
    · rintro us ⟨_, vs, f, rfl, hf⟩
      exact ⟨_, vs, .sized hw hf⟩
  · rw [not_exists] at hsize
    rw [operand_of_no_size hsize]
    refine Follows.imp (obeys_operandForm _ _ _) ?_ ?_
    · rintro o us d hm ⟨f, rfl, hf⟩
      obtain ⟨t, us, rfl, -⟩ := hf.starts
      rw [hm.current_eq]
      exact .plain hf
    · rintro us ⟨_, vs, f, rfl, hf⟩
      obtain ⟨t, ts, hts, -⟩ := hf.starts
      rw [hts] at hf
      exact ⟨_, vs, by rw [hts]; exact .plain hf⟩

/-- An operand and the comma in front of it. -/
theorem obeys_nextOperand (c : Cursor) :
    Obeys c (fun o us => ∃ t vs, us = t :: vs ∧ t.kind = .mark .comma ∧ o.Spells vs)
      (nextOperand c) := by
  have hdollar : Operand.Spells _ [⟨Mark.dollar.word, {}⟩] :=
    .plain (.expression (.ofProduct (.ofOperand Expr.spells_dollar)))
  refine obeys_expect (by decide) ⟨⟨Mark.comma.word, {}⟩, _, rfl, rfl, hdollar⟩ fun hk => ?_
  have hk : c.current.kind = .mark .comma := by simpa using hk
  refine Follows.imp (obeys_operand _) ?_ ?_
  · exact fun o us d _ ho => ⟨_, us, rfl, hk, ho⟩
  · rintro us ⟨o, vs, ho⟩
    exact ⟨o, vs, _, _, rfl, hk, ho⟩

/-- By induction on the tokens ahead, operand by operand. -/
theorem obeys_moreOperands (c : Cursor) : Obeys c Operand.SpellsMore (moreOperands c) := by
  have hnext {c c' : Cursor} {o : Operand} (hc : nextOperand c = .ok o c') :
      ∃ t vs, c.Moves (t :: vs) c' ∧ t.kind = .mark .comma ∧ o.Spells vs := by
    obtain ⟨_, hm, t, vs, rfl, hk, ho⟩ := (obeys_nextOperand c).of_ok hc
    exact ⟨t, vs, hm, hk, ho⟩
  fun_induction moreOperands c with
  | case1 c h o c' hc os c'' hr ih =>
    obtain ⟨t, vs, hm, hk, ho⟩ := hnext hc
    obtain ⟨ws, hm', hos⟩ := ih.of_ok hr
    exact ⟨t :: vs ++ ws, hm.trans hm', .cons hk ho hos⟩
  | case2 c h o c' hc e c'' hr ih =>
    obtain ⟨t, vs, hm, hk, ho⟩ := hnext hc
    obtain ⟨ws, d, hm', hpos, os, xs, hos⟩ := ih.of_error hr
    exact ⟨t :: vs ++ ws, d, hm.trans hm', hpos, o :: os, xs, by simpa using .cons hk ho hos⟩
  | case3 c h e c' hc =>
    obtain ⟨us, d, hm, hpos, o, ws, t, vs, hus, hk, ho⟩ := (obeys_nextOperand c).of_error hc
    exact ⟨us, d, hm, hpos, [o], ws, by simpa [hus] using Operand.SpellsMore.cons hk ho .nil⟩
  | case4 c h => exact ⟨[], .refl c, .nil⟩

/-- There may be no operands at all, where the line ends at once. -/
theorem obeys_operandsToLineEnd (c : Cursor) :
    Obeys c Operand.SpellsAll (operandsToLineEnd c) := by
  rw [operandsToLineEnd_eq]
  refine obeys_current (obeys_ite (fun _ => obeys_pure .nil) fun _ => ?_)
  refine obeys_bind (obeys_operand c) (fun o us ho => ?_) fun o us d _ ho => ?_
  · exact .of_rule (by simpa using Operand.SpellsAll.cons ho .nil)
  · refine obeys_bind (obeys_moreOperands d) (fun os vs hos => ?_) fun os vs d' _ hos => ?_
    · exact .of_rule (.cons ho hos)
    · exact obeys_pure (by simpa using Operand.SpellsAll.cons ho hos)

/-! ### Instructions -/

/-- A cursor where a line is over, behind its newline if it has one. -/
def Cursor.EndsLine (d : Cursor) (nl : List Token) : Prop :=
  nl = [] ∧ d.current.kind = .eof ∨ ∃ n, nl = [n] ∧ n.kind = .newline

/-- The tokens of an instruction and its comment. -/
def Instruction.SpellsLine (label : Option String) (i : Instruction) (us : List Token) : Prop :=
  ∃ x ts cs, us = ts ++ cs ∧ i.Spells label x ts ∧ SpellsComment x cs

/-- The tokens of a statement and its comment. -/
def Item.SpellsLine (x : Item) (us : List Token) : Prop :=
  ∃ c ts cs, us = ts ++ cs ∧ x.Spells c ts ∧ SpellsComment c cs

/-- No comment is passed just where none comes next. -/
theorem follows_comment (c : Cursor) :
    Follows c (fun x us d => SpellsComment x us ∧ (us = [] → d.current.kind ≠ .comment))
      (fun _ => False) (comment c) := by
  refine follows_current (follows_ite (fun hk => ?_) fun hk => follows_pure ⟨.none, fun _ => hk⟩)
  exact follows_advance (by simp [hk]) (follows_pure ⟨.some hk, by simp⟩)

/-- An equate has to have an expression. -/
theorem obeys_directive (mnemonic : String) (c : Cursor) :
    Obeys c (Expr.Spells .sum) (directive mnemonic c) :=
  obeys_current (obeys_ite (fun _ => obeys_fail _ (.ofProduct (.ofOperand Expr.spells_dollar)))
    fun _ => obeys_expression c)

section
variable (label : Option String) {c d : Cursor}

/-- An instruction is passed with the comment behind it, if there is one. -/
theorem follows_comment_pure {i : Option String → Instruction} {us : List Token}
    {V : List Token → Prop} (hc : CommentsEnd c.ahead) (hm : c.Moves us d)
    (hi : ∀ x, (i x).Spells label x us) :
    Follows d (fun j vs e => j.SpellsLine label (us ++ vs) ∧ e.current.kind ≠ .comment) V
      ((comment >>= fun x => pure (i x)) d) := by
  refine follows_bind (follows_comment d) nofun fun x cs e hm' hx => ?_
  refine follows_pure ⟨⟨x, us, cs, by simp, hi x, hx.1⟩, ?_⟩
  cases hx.1 with
  | none => exact hx.2 rfl
  | some ht => exact hc.ne_comment (hm.trans hm') ht

/-- Behind an instruction no comment is left. -/
theorem follows_instruction (hc : CommentsEnd c.ahead) :
    Follows c (fun i us d => i.SpellsLine label us ∧ d.current.kind ≠ .comment)
      (Viable (Instruction.SpellsLine label)) (instruction label c) := by
  have hline {i : Instruction} {us : List Token} (h : i.Spells label none us) :
      Viable (Instruction.SpellsLine label) us :=
    ⟨i, [], none, us, [], by simp, h, .none⟩
  refine follows_bind (follows_expect_self (by decide)) (fun us hus => ?_) ?_
  · have hspare : Instruction.Spells label none _ [⟨⟨.ident, "ret"⟩, {}⟩] :=
      .operation rfl (by decide +kernel) .nil
    exact hus ▸ (hline hspare).of_append
  rintro t us d hm ⟨-, hk, rfl, -⟩
  have hk : t.kind = .ident := by simpa using hk
  refine follows_ite (fun hq => ?_) fun hq => ?_
  · refine follows_bind (obeys_directive _ d) ?_ fun e us d' hm' he => ?_
    · rintro us ⟨e, ws, he⟩
      have hviable : Viable _ (t :: us ++ ws) := hline (.equate hk hq he)
      exact hviable.of_append
    · simp only [← List.append_assoc]
      exact follows_comment_pure label hc (hm.trans hm') fun x => .equate hk hq he
  · refine follows_bind (obeys_operandsToLineEnd d) ?_ fun os us d' hm' hos => ?_
    · rintro us ⟨os, ws, hos⟩
      have hviable : Viable _ (t :: us ++ ws) := hline (.operation hk hq hos)
      exact hviable.of_append
    · simp only [← List.append_assoc]
      exact follows_comment_pure label hc (hm.trans hm') fun x => .operation hk hq hos

/-! ### Statements -/

/-- A line may only end, after a comment or without one. -/
theorem follows_lineEnd (c : Cursor) :
    Follows c (fun _ us d => ∃ x cs nl, us = cs ++ nl ∧ SpellsComment x cs ∧ d.EndsLine nl)
      (fun us => ∃ x, SpellsComment x us) (lineEnd c) := by
  refine follows_bind (follows_comment c) nofun fun x cs d _ hx => follows_current ?_
  refine follows_ite (fun hk => ?_) fun _ => follows_ite (fun hk => ?_) fun _ =>
    follows_fail _ ⟨x, by simpa using hx.1⟩
  · exact follows_advance (by simp [hk]) (follows_pure ⟨x, cs, _, rfl, hx.1, .inr ⟨_, rfl, hk⟩⟩)
  · exact follows_pure ⟨x, cs, [], rfl, hx.1, .inl ⟨rfl, hk⟩⟩

/-- In front of the end of a line where no comment stands, none is passed. -/
theorem SpellsComment.eq_nil {x : Option String} {us vs : List Token} (h : SpellsComment x us)
    (hm : c.Moves (us ++ vs) d) (hne : c.current.kind ≠ .comment) : us = [] := by
  cases h with
  | none => rfl
  | some ht => exact absurd (hm.current_eq ▸ ht) hne

/-- What is passed as a line spells an instruction up to the end of the line. -/
theorem follows_wholeLine (hc : CommentsEnd c.ahead) :
    Follows c (fun i us d => ∃ vs nl, us = vs ++ nl ∧ i.SpellsLine label vs ∧ d.EndsLine nl)
      (Viable (Instruction.SpellsLine label)) (wholeLine label c) := by
  refine follows_bind (follows_instruction label hc) (fun _ h => h) ?_
  rintro i us d hm ⟨hi, hne⟩
  have hline : Follows d (fun _ nl e => e.EndsLine nl) (· = []) (lineEnd d) := by
    have h := follows_lineEnd d
    cases hr : lineEnd d with
    | ok _ e =>
      obtain ⟨_, hm', x, cs, nl, rfl, hx, hend⟩ := h.of_ok hr
      obtain rfl := hx.eq_nil hm' hne
      exact ⟨nl, hm', hend⟩
    | error f e =>
      obtain ⟨vs, e, hm', hpos, x, hx⟩ := h.of_error hr
      have hm'' : d.Moves (vs ++ []) e := by simpa using hm'
      exact ⟨vs, e, hm', hpos, hx.eq_nil hm'' hne⟩
  refine follows_bind hline ?_ fun _ nl e _ hend => follows_pure ⟨us, nl, by simp, hi, hend⟩
  rintro _ rfl
  exact .of_rule (by simpa using hi)

end

/-! ### What the parser sees ahead -/

namespace Cursor

variable {c : Cursor}

/-- A cursor that sees no end stands at a token of its list. -/
theorem ahead_eq (h : c.current.kind ≠ .eof) : c.ahead = c.current :: c.advance.ahead :=
  (Moves.advance h).ahead

/-- A test of the token at the cursor that no end marker passes is one of the tokens ahead. -/
theorem keywordAhead_iff :
    c.current.kind = .ident ∧ isLabelKeyword c.current.text ↔ KeywordAhead c.ahead := by
  rcases c with ⟨past, _ | ⟨t, ts⟩⟩
  · rw [Cursor.kind_current_of_ahead_eq_nil rfl]
    simp [KeywordAhead]
  · rfl

/-- The parser sees a label by the two tokens that the grammar asks for. -/
theorem labelAhead_iff :
    c.current.kind = .ident ∧ (c.peek 1).kind = .mark .colon ↔ LabelAhead c.ahead := by
  rcases c with ⟨past, _ | ⟨t, _ | ⟨u, ts⟩⟩⟩
  · rw [Cursor.kind_current_of_ahead_eq_nil rfl]
    simp [LabelAhead]
  · -- behind the last token stands the end marker, which is no colon
    simp only [LabelAhead, iff_false, not_and]
    intro ht
    rw [peek_succ (by simp [ht])]
    show ¬(current _).kind = _
    rw [Cursor.kind_current_of_ahead_eq_nil rfl]
    decide
  · rfl

end Cursor

/-! ### Items -/

/-- A line in front of lines, with a newline between them, is one line more. -/
theorem Item.SpellsLine.lines {x : Item} {xs : List Item} {us ts : List Token}
    (hx : x.SpellsLine us) (hend : ∀ t ∈ ts.head?, t.kind = .newline) (hxs : Lines xs ts) :
    Lines (x :: xs) (us ++ ts) := by
  obtain ⟨c, vs, cs, rfl, hx, hc⟩ := hx
  rw [List.append_assoc]
  exact .statement hx hc hend hxs

/-- A line by itself is a program. -/
theorem Item.SpellsLine.single {x : Item} {us : List Token} (hx : x.SpellsLine us) :
    Lines [x] us := by
  have hlines : Lines [x] (us ++ []) := hx.lines (by simp) .nil
  simpa using hlines

/-- A name may be the only word of a statement, or it needs an expression behind it. -/
theorem viable_ident {t : Token} (ht : t.kind = .ident) : Viable Lines [t] := by
  have hline {i : Instruction} {us : List Token} (hk : ¬KeywordAhead us)
      (hi : i.Spells none none (t :: us)) : Viable Lines [t] := by
    have hx : Item.SpellsLine (.plain i) (t :: us) :=
      ⟨none, t :: us, [], by simp, .plain hk hi, .none⟩
    exact ⟨_, us, hx.single⟩
  by_cases hq : isEquate (Text.upper t.text)
  · have hdollar : Expr.Spells .sum _ _ := .ofProduct (.ofOperand Expr.spells_dollar)
    exact hline (by simp [KeywordAhead, Mark.word]) (.equate ht hq hdollar)
  · exact hline id (.operation ht hq .nil)

/-- A label and its colon, if it has one. -/
theorem follows_labelDeclaration (colon : Bool) (c : Cursor) :
    Follows c (fun l us _ => ∃ t, l = ⟨t.text, t.pos⟩ ∧ t.kind = .ident ∧
        if colon then ∃ u, us = [t, u] ∧ u.kind = .mark .colon else us = [t])
      (Viable Lines) (labelDeclaration colon c) := by
  refine follows_expect (by decide) ⟨[], [], .nil⟩ fun hk => ?_
  have hk : c.current.kind = .ident := by simpa using hk
  cases colon with
  | false => exact follows_pure ⟨_, rfl, hk, rfl⟩
  | true =>
    refine follows_bind (Q := fun _ us _ => ∃ u, us = [u] ∧ u.kind = .mark .colon) (V := (· = []))
      ?_ ?_ fun _ us d _ hu => ?_
    · refine follows_expect (by decide) rfl fun hk => follows_pure ⟨_, rfl, by simpa using hk⟩
    · rintro _ rfl
      exact viable_ident hk
    · obtain ⟨u, rfl, hu⟩ := hu
      exact follows_pure ⟨_, rfl, hk, u, rfl, hu⟩

/-- What an item passes: a label in front of another, or a statement to the end of its line. -/
def Item.Passed (x : Item) (us : List Token) (d : Cursor) : Prop :=
  (∃ t u, x = .label ⟨t.text, t.pos⟩ ∧ us = [t, u] ∧ t.kind = .ident ∧ u.kind = .mark .colon ∧
    LabelAhead d.ahead) ∨
  ∃ vs nl, us = vs ++ nl ∧ x.SpellsLine vs ∧ d.EndsLine nl

/-- Behind a label in front of its colon stands another label or a statement. -/
theorem follows_itemOfLabel {t u : Token} (ht : t.kind = .ident) (hu : u.kind = .mark .colon)
    {c : Cursor} (hc : CommentsEnd c.ahead) :
    Follows c (fun x us => x.Passed (t :: u :: us)) (fun us => Viable Lines (t :: u :: us))
      (itemOfLabel ⟨t.text, t.pos⟩ c) := by
  refine follows_current (follows_peek 1 (follows_ite (fun h => ?_) fun _ =>
    follows_ite (fun _ => ?_) fun _ => ?_))
  · exact follows_pure (.inl ⟨t, u, rfl, rfl, ht, hu, Cursor.labelAhead_iff.1 h⟩)
  · have hlabel {x : Option String} {cs : List Token} (hx : SpellsComment x cs) :
        Item.SpellsLine (.label ⟨t.text, t.pos⟩) (t :: u :: cs) :=
      ⟨x, [t, u], cs, rfl, .label ht hu, hx⟩
    refine follows_bind (follows_lineEnd c) ?_ ?_
    · rintro us ⟨x, hx⟩
      exact .of_rule (hlabel hx).single
    · rintro _ _ d - ⟨x, cs, nl, rfl, hx, hend⟩
      exact follows_pure (.inr ⟨t :: u :: cs, nl, by simp, hlabel hx, hend⟩)
  · have hlabelled {i : Instruction} {us : List Token} (hi : i.SpellsLine (some t.text) us) :
        Item.SpellsLine (.labelled ⟨t.text, t.pos⟩ i) (t :: u :: us) := by
      obtain ⟨x, vs, cs, rfl, hi, hx⟩ := hi
      exact ⟨x, t :: u :: vs, cs, rfl, .labelled ht hu hi, hx⟩
    refine follows_bind (follows_wholeLine _ hc) ?_ ?_
    · rintro us ⟨i, vs, hi⟩
      exact ⟨_, vs, (hlabelled hi).single⟩
    · rintro i _ d - ⟨vs, nl, rfl, hi, hend⟩
      exact follows_pure (.inr ⟨t :: u :: vs, nl, by simp, hlabelled hi, hend⟩)

/-- An instruction has a mnemonic. -/
theorem Instruction.SpellsLine.starts {label : Option String} {i : Instruction} {us : List Token}
    (h : i.SpellsLine label us) : ∃ t vs, us = t :: vs := by
  obtain ⟨x, ts, cs, rfl, hi, -⟩ := h
  obtain ⟨t, vs, rfl, -⟩ := hi.starts
  exact ⟨t, vs ++ cs, rfl⟩

/-- A name in front of a keyword labels the instruction of the keyword. -/
theorem Item.SpellsLine.keyword {t : Token} {i : Instruction} {us : List Token}
    (ht : t.kind = .ident) (hi : i.SpellsLine (some t.text) us) (hk : KeywordAhead us) :
    Item.SpellsLine (.labelled ⟨t.text, t.pos⟩ i) (t :: us) := by
  obtain ⟨x, ts, cs, rfl, hi, hx⟩ := hi
  obtain ⟨u, vs, rfl, -⟩ := hi.starts
  exact ⟨x, t :: u :: vs, cs, rfl, .keyword ht hk hi, hx⟩

/-- A name that is no label is the mnemonic of an instruction. -/
theorem Item.SpellsLine.plain {i : Instruction} {us : List Token} (hi : i.SpellsLine none us)
    (hk : ¬KeywordAhead us.tail) : Item.SpellsLine (.plain i) us := by
  obtain ⟨x, ts, cs, rfl, hi, hx⟩ := hi
  obtain ⟨u, vs, rfl, -⟩ := hi.starts
  exact ⟨x, u :: vs, cs, rfl, .plain (fun h => hk (h.append cs)) hi, hx⟩

section
variable {c : Cursor} (hc : CommentsEnd c.ahead)
include hc

/-- The instruction behind a label without a colon. -/
theorem follows_keywordLine {t : Token} (ht : t.kind = .ident) (hk : KeywordAhead c.ahead) :
    Follows c (fun x us => Item.Passed x (t :: us)) (fun us => Viable Lines (t :: us))
      ((wholeLine (some t.text) >>= fun i => pure (Item.labelled ⟨t.text, t.pos⟩ i)) c) := by
  refine follows_bind (follows_wholeLine _ hc).and_moves ?_ ?_
  · rintro us ⟨⟨i, ws, hi⟩, d, hm⟩
    rw [hm.ahead] at hk
    cases us with
    | nil => exact viable_ident ht
    | cons u us => exact ⟨_, ws, (Item.SpellsLine.keyword ht hi hk).single⟩
  · rintro i _ d hm ⟨vs, nl, rfl, hi, hend⟩
    rw [hm.ahead] at hk
    obtain ⟨u, vs, rfl⟩ := hi.starts
    exact follows_pure (.inr ⟨t :: u :: vs, nl, by simp, .keyword ht hi hk, hend⟩)

/-- An instruction without a label on its line. -/
theorem follows_plainLine (ht : c.current.kind = .ident) (hk : ¬KeywordAhead c.advance.ahead) :
    Follows c Item.Passed (Viable Lines) ((wholeLine none >>= fun i => pure (.plain i)) c) := by
  have hahead := Cursor.ahead_eq (c := c) (by simp [ht])
  refine follows_bind (follows_wholeLine _ hc).and_moves ?_ ?_
  · rintro us ⟨⟨i, ws, hi⟩, d, hm⟩
    rw [hm.ahead] at hahead
    match us with
    | [] => exact ⟨[], [], .nil⟩
    | [t] =>
      obtain ⟨rfl, -⟩ := List.cons.inj hahead
      exact viable_ident ht
    | t :: u :: us =>
      rw [← (List.cons.inj hahead).2] at hk
      exact ⟨_, ws, (Item.SpellsLine.plain hi hk).single⟩
  · rintro i _ d hm ⟨vs, nl, rfl, hi, hend⟩
    obtain ⟨u, vs, rfl⟩ := hi.starts
    rw [hm.ahead] at hahead
    rw [← (List.cons.inj hahead).2] at hk
    refine follows_pure (.inr ⟨u :: vs, nl, by simp, .plain hi fun h => hk ?_, hend⟩)
    simpa using h.append (nl ++ d.ahead)

/-- What is passed as an item spells it, and up to a fault some program goes on. -/
theorem follows_item : Follows c Item.Passed (Viable Lines) (item c) := by
  have hkeyword (he : c.current.kind ≠ .eof) :
      (c.peek 1).kind = .ident ∧ isLabelKeyword (c.peek 1).text ↔ KeywordAhead c.advance.ahead := by
    rw [Cursor.peek_succ he]
    exact Cursor.keywordAhead_iff
  refine follows_current (follows_peek 1 (follows_ite (fun _ => ?_) fun _ =>
    follows_ite (fun h => ?_) fun h => follows_ite (fun ht => ?_) fun _ =>
    follows_fail _ ⟨[], [], .nil⟩))
  · refine follows_bind (follows_labelDeclaration true c) (fun _ h => h) ?_
    rintro _ _ d hm ⟨t, rfl, ht, u, rfl, hu⟩
    exact follows_itemOfLabel ht hu (hc.moves hm)
  · obtain ⟨ht, hk⟩ := h
    have he : c.current.kind ≠ .eof := by simp [ht]
    rw [hkeyword he] at hk
    refine follows_bind (follows_labelDeclaration false c) (fun _ h => h) ?_
    rintro _ _ d hm ⟨t, rfl, ht, rfl⟩
    have hahead := Cursor.ahead_eq he
    rw [hm.ahead] at hahead
    rw [← (List.cons.inj hahead).2] at hk
    exact follows_keywordLine (hc.moves hm) ht hk
  · refine follows_plainLine hc ht fun hk => h ⟨ht, (hkeyword (by simp [ht])).2 hk⟩

end

/-- Nothing is passed behind the end. -/
theorem eq_nil_of_moves {d e : Cursor} {vs : List Token} (hm : d.Moves vs e)
    (hd : d.current.kind = .eof) : vs = [] := by
  cases vs with
  | nil => rfl
  | cons v vs => exact absurd (hm.current_eq ▸ hd) (hm.not_eof v (by simp))

/-- In front of a label is passed what can be told to be one. -/
theorem LabelAhead.of_moves {d e : Cursor} {vs : List Token} (h : LabelAhead d.ahead)
    (hm : d.Moves vs e) :
    vs = [] ∧ LabelAhead e.ahead ∨
      (∃ t, vs = [t] ∧ t.kind = .ident ∧ e.current.kind = .mark .colon) ∨
      ∀ ws, LabelAhead (vs ++ ws) := by
  rw [hm.ahead] at h
  match vs with
  | [] => exact .inl ⟨rfl, h⟩
  | [t] =>
    cases he : e.ahead with
    | nil =>
      rw [he] at h
      exact h.elim
    | cons u us =>
      rw [he] at h
      exact .inr (.inl ⟨t, rfl, h.1, by rw [current_eq he]; exact h.2⟩)
  | t :: u :: vs => exact .inr (.inr fun ws => h)

section
variable {x : Item} {us vs : List Token} {d e : Cursor} (hx : x.Passed us d) (hm : d.Moves vs e)
include hx hm

/-- An item in front of a program makes a program. -/
theorem Item.Passed.lines {xs : List Item} (hxs : Lines xs vs) (he : e.current.kind = .eof) :
    Lines (x :: xs) (us ++ vs) := by
  rcases hx with ⟨t, u, rfl, rfl, ht, hu, ha⟩ | ⟨ws, nl, rfl, hx, hend⟩
  · rcases ha.of_moves hm with ⟨-, hlabel⟩ | ⟨-, -, -, hcolon⟩ | hlabel
    · have hident := (Cursor.labelAhead_iff.2 hlabel).1
      simp [he] at hident
    · simp [he] at hcolon
    · exact .label ht hu (by simpa using hlabel []) hxs
  · rcases hend with ⟨rfl, hd⟩ | ⟨n, rfl, hn⟩
    · obtain rfl := eq_nil_of_moves hm hd
      simpa using hx.lines (by simp) hxs
    · have h : Lines (x :: xs) (ws ++ n :: vs) :=
        hx.lines (by simpa using hn) (.skip (.inl hn) hxs)
      simpa using h

/-- An item in front of the beginning of a program makes a beginning. -/
theorem Item.Passed.viable (hv : Viable Lines vs) : Viable Lines (us ++ vs) := by
  obtain ⟨xs, ws, hxs⟩ := hv
  rcases hx with ⟨t, u, rfl, rfl, ht, hu, ha⟩ | ⟨ts, nl, rfl, hx, hend⟩
  · have hlabel {t u : Token} (ht : t.kind = .ident) (hu : u.kind = .mark .colon) :
        Item.SpellsLine (.label ⟨t.text, t.pos⟩) [t, u] := ⟨none, _, [], rfl, .label ht hu, .none⟩
    -- a label whose colon was not passed may still have it
    rcases ha.of_moves hm with ⟨rfl, -⟩ | ⟨v, rfl, hv, -⟩ | hahead
    · exact .of_rule (hlabel ht hu).single
    · have hcolon := (hlabel hv (u := ⟨Mark.colon.word, {}⟩) rfl).single
      have ha : LabelAhead [v, ⟨Mark.colon.word, {}⟩] := ⟨hv, rfl⟩
      exact ⟨_, _, .label ht hu ha hcolon⟩
    · exact ⟨_, ws, .label ht hu (hahead ws) hxs⟩
  · rcases hend with ⟨rfl, hd⟩ | ⟨n, rfl, hn⟩
    · obtain rfl := eq_nil_of_moves hm hd
      exact .of_rule (by simpa using hx.single)
    · have h : Lines (x :: xs) (ts ++ n :: (vs ++ ws)) :=
        hx.lines (by simpa using hn) (.skip (.inl hn) hxs)
      exact ⟨_, ws, by simpa using h⟩

end

/-- The parser obeys the grammar on tokens among which every comment ends its line. -/
theorem follows_items {c : Cursor} (hc : CommentsEnd c.ahead) :
    Follows c (fun xs us d => Lines xs us ∧ d.current.kind = .eof) (Viable Lines) (items c) := by
  fun_induction items c with
  | case1 c he => exact ⟨[], .refl c, .nil, he⟩
  | case2 c he hn ih =>
    refine .prepend (.advance he) ((ih (hc.moves (.advance he))).imp ?_ ?_)
    · exact fun xs us d _ h => ⟨.skip hn h.1, h.2⟩
    · rintro us ⟨xs, ws, h⟩
      exact ⟨xs, ws, .skip hn h⟩
  | case3 c he hn x c' hx xs c'' hxs ih =>
    obtain ⟨us, hm, hpassed⟩ := (follows_item hc).of_ok hx
    obtain ⟨vs, hm', hlines, hend⟩ := (ih (hc.moves hm)).of_ok hxs
    exact ⟨us ++ vs, hm.trans hm', hpassed.lines hm' hlines hend, hend⟩
  | case4 c he hn x c' hx e c'' hxs ih =>
    obtain ⟨us, hm, hpassed⟩ := (follows_item hc).of_ok hx
    obtain ⟨vs, d, hm', hpos, hviable⟩ := (ih (hc.moves hm)).of_error hxs
    exact ⟨us ++ vs, d, hm.trans hm', hpos, hpassed.viable hm' hviable⟩
  | case5 c he hn e c' hx => exact (follows_item hc).of_error hx

end IntelAsm

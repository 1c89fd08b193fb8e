import IntelAsm.Proofs.Grammar.Rules
import IntelAsm.Proofs.Parser.Lines
import IntelAsm.Proofs.RoundTrip.Reading

/-!
# What the grammar spells is read

Wherever tokens stand that spell something, the parser takes exactly them and makes what they spell,
as long as nothing that continues it comes next. For each rule there is one law, in the order of the
grammar, from expressions up to whole token lists (`Lines.items_eq`).
-/

namespace IntelAsm

open Parse
open Descent (IsSum IsProduct Flat)

/-! ### Expressions -/

/-- Where an expression of a level is taken like a single operand: among the waiting operators of a
group, and in front of a token. -/
def Level.Fits (group : List Pending) (next : Token) : Level → Prop
  | .operand => True
  | .product => Flat group
  | .sum => group = [] ∧ precedence? next.kind ≠ some 2

/-- A draft takes a token that is an operand by itself. -/
theorem resumeAt_of_operand? {t : Token} {e : Expr} (h : t.operand? = some (.ok e))
    (g : List Pending) (o : List (List Pending)) (past ts : List Token) :
    ∃ past', Draft.resumeAt ⟨g, o, none⟩ ⟨past, t :: ts⟩ =
      Draft.resumeAt ⟨g, o, some e⟩ ⟨past', ts⟩ := by
  have hkind : t.kind.isNumeric ∨ t.kind = .mark .dollar ∨ t.kind = .ident := by
    unfold Token.operand? at h
    split at h
    · exact .inl (by assumption)
    split at h
    · exact .inr (.inl (by assumption))
    split at h
    · exact .inr (.inr (by assumption))
    · cases h
  refine ⟨_, Draft.resumeAt_operand h ?_ ?_ g o past ts⟩
  · rintro (hk | hk) <;> simp [hk, TokenKind.isNumeric] at hkind
  · intro hk
    simp [hk, TokenKind.isNumeric] at hkind

/-- The tokens of an expression are taken like a single operand where it fits. -/
theorem Expr.Spells.resumeAt {level : Level} {e : Expr} {ts : List Token} (h : e.Spells level ts)
    {g : List Pending} {t : Token} (hg : level.Fits g t) (o : List (List Pending))
    (past rest : List Token) :
    ∃ past', Draft.resumeAt ⟨g, o, none⟩ ⟨past, ts ++ t :: rest⟩ =
      Draft.resumeAt ⟨g, o, some e⟩ ⟨past', t :: rest⟩ := by
  induction h generalizing g t o past rest with
  | @literal u v hk hv =>
    exact resumeAt_of_operand? (by simp [Token.operand?, hk, hv, Except.map]) g o past _
  | @here u hk =>
    exact resumeAt_of_operand? (by simp [Token.operand?, hk, TokenKind.isNumeric]) g o past _
  | @symbol u hk =>
    exact resumeAt_of_operand? (by simp [Token.operand?, hk, TokenKind.isNumeric]) g o past _
  | @paren l r e ts hl he hr ih =>
    have hr' : precedence? r.kind ≠ some 2 := by simp [hr, precedence?]
    obtain ⟨past', h⟩ := ih (g := []) (t := r) ⟨rfl, hr'⟩ (g :: o) (l :: past) (t :: rest)
    refine ⟨r :: past', ?_⟩
    rw [List.cons_append, List.append_assoc, Draft.resumeAt_step (Draft.step_leftParen hl)]
    refine h.trans ?_
    rw [Draft.resumeAt_step (Draft.step_rightParen hr), completeAll_nil]
  | @sign u e ts hu he ih =>
    obtain ⟨past', h⟩ := ih (g := .sign u :: g) (t := t) trivial o (u :: past) rest
    refine ⟨past', ?_⟩
    rw [List.cons_append, Draft.resumeAt_step (Draft.step_sign hu), h,
      Draft.resumeAt_complete (by simp [Pending.binding, signBinding])]
    rfl
  | ofOperand he ih => exact ih trivial o past rest
  | @mul u l r us vs hl hu hr ihl ihr =>
    have hu' := Descent.precedence?_eq_two_iff.mpr hu
    obtain ⟨past', h⟩ := ihl (t := u) hg o past (vs ++ t :: rest)
    obtain ⟨past'', h'⟩ :=
      ihr (g := .between l u.text 2 :: g) (t := t) trivial o (u :: past') rest
    refine ⟨past'', ?_⟩
    rw [List.append_assoc, List.cons_append, h, Draft.resumeAt_step (Draft.step_of_precedence hu'),
      Flat.completeDownTo hg, h', Draft.resumeAt_complete (by simp [Pending.binding])]
    rfl
  | ofProduct he ih =>
    refine ih ?_ o past rest
    rw [hg.1]
    simp [Level.Fits, Flat]
  | @add u l r us vs hl hu hr ihl ihr =>
    obtain ⟨rfl, ht⟩ := hg
    have hu' := Descent.precedence?_eq_one_iff.mpr hu
    obtain ⟨past', h⟩ := ihl (g := []) (t := u) ⟨rfl, by simp [hu']⟩ o past (vs ++ t :: rest)
    obtain ⟨past'', h'⟩ := ihr (g := [.between l u.text 1]) (t := t)
      (by simp [Level.Fits, Flat, Pending.binding]) o (u :: past') rest
    refine ⟨past'', ?_⟩
    have hsum := Draft.resumeAt_complete_sum (c := ⟨past'', t :: rest⟩) (p := .between l u.text 1)
      rfl ht [] o r
    rw [List.append_assoc, List.cons_append, h, Draft.resumeAt_step (Draft.step_of_precedence hu'),
      completeDownTo_nil, h', hsum]
    rfl

/-- What spells an expression is taken for it. -/
theorem Expr.Spells.takes {e : Expr} {ts rest : List Token} (h : e.Spells .sum ts)
    (hr : EndsOperand rest) : Takes expression (ts ++ rest) rest e := by
  intro past
  obtain ⟨t, rest, rfl, hp⟩ := hr.precedence?_eq_none
  obtain ⟨past', h⟩ := h.resumeAt (g := []) (t := t) ⟨rfl, by simp [hp]⟩ [] past rest
  refine ⟨past', ?_⟩
  have hstop : Draft.step ⟨[], [], some e⟩ (Cursor.current ⟨past', t :: rest⟩) = .stop :=
    Draft.step_eq_stop hp fun _ => rfl
  show Draft.resumeAt {} ⟨past, _⟩ = _
  rw [h, Draft.resumeAt_of_stop hstop, Draft.finish_operand]
  rfl

/-! ### Addresses -/

namespace Address

/-- Each term behind the first has a sign. -/
theorem SpellsTerm.starts {a b : Address} {us : List Token} (h : a.SpellsTerm b us) :
    ∃ s vs, us = s :: vs ∧ IsSum s.kind := by
  cases h <;> exact ⟨_, _, rfl, by assumption⟩

/-- Behind a term with a sign comes another or the bracket. -/
theorem SpellsTerms.starts {a b : Address} {vs : List Token} (h : a.SpellsTerms b vs) {r : Token}
    (hr : r.kind = .mark .rightBracket) (rest : List Token) :
    ∃ t ts, vs ++ r :: rest = t :: ts ∧
      (IsSum t.kind ∧ ts ≠ [] ∨ vs = [] ∧ t.kind = .mark .rightBracket) := by
  cases h with
  | nil => exact ⟨r, rest, rfl, .inr ⟨rfl, hr⟩⟩
  | cons ht hts =>
    obtain ⟨s, us, rfl, hs⟩ := ht.starts
    exact ⟨s, _, rfl, .inl ⟨hs, by simp⟩⟩

/-- What spells a term is taken for it, unless a factor comes next. -/
theorem SpellsTerm.takes {a b : Address} {us : List Token} (h : a.SpellsTerm b us) {t : Token}
    (ht : t.kind ≠ .mark .star) (rest : List Token) :
    Takes (signedTerm a) (us ++ t :: rest) (t :: rest) b := by
  have hsign {s : Token} (hs : IsSum s.kind) : s.kind ∈ [.mark .plus, .mark .minus] := by
    simpa [IsSum] using hs
  cases h with
  | index hs ha hr =>
    refine takes_bind (takes_expect (hsign hs)) (takes_bind takes_current ?_)
    rw [if_pos hr, ha]
    refine takes_bind takes_advance (takes_bind takes_current ?_)
    rw [if_neg ht]
    exact takes_pure
  | scaled hs ha hr hm hk hv =>
    refine takes_bind (takes_expect (hsign hs)) (takes_bind takes_current ?_)
    rw [if_pos hr, ha]
    refine takes_bind takes_advance (takes_bind takes_current ?_)
    rw [if_pos hm]
    exact takes_bind takes_advance (takes_bind (takes_number hk hv) takes_pure)
  | displacement hs hk hv =>
    refine takes_bind (takes_expect (hsign hs)) (takes_bind takes_current ?_)
    rw [if_neg (ne_register_of_isNumeric hk), if_pos hk]
    exact takes_bind (takes_number hk hv) takes_pure

/-- All terms up to the bracket are taken. -/
theorem SpellsTerms.takes {a b : Address} {vs : List Token} (h : a.SpellsTerms b vs) {r : Token}
    (hr : r.kind = .mark .rightBracket) (rest : List Token) :
    Takes (signedTerms a) (vs ++ r :: rest) (r :: rest) b := by
  induction h with
  | nil => exact takes_signedTerms_nil (by simp [hr])
  | cons ht hts ih =>
    obtain ⟨s, us, rfl, hs⟩ := ht.starts
    obtain ⟨t, ts, hnext, hkind⟩ := hts.starts hr rest
    have hstar : t.kind ≠ .mark .star := by
      rcases hkind with ⟨hk | hk, -⟩ | ⟨-, hk⟩ <;> simp [hk]
    have htakes := ht.takes hstar ts
    rw [List.append_assoc, hnext]
    rw [hnext] at ih
    exact takes_signedTerms hs htakes ih

/-- The first term may be missing where a sign comes next. -/
theorem SpellsFirst.takes {a b : Address} {us : List Token} (h : a.SpellsFirst b us) {t : Token}
    (ht : us = [] → IsSum t.kind) (rest : List Token) :
    Takes (firstTerm a) (us ++ t :: rest) (t :: rest) b := by
  cases h with
  | none =>
    have hs : IsSum t.kind := ht rfl
    have hkind : t.kind ≠ .register ∧ ¬t.kind.isNumeric := by
      rcases hs with hk | hk <;> simp [hk, TokenKind.isNumeric]
    refine takes_bind takes_current ?_
    rw [if_neg hkind.1, if_neg hkind.2]
    exact (if_pos hs : _ = _) ▸ takes_pure
  | base hr =>
    refine takes_bind takes_current ?_
    rw [if_pos hr]
    exact takes_bind takes_advance takes_pure
  | displacement hk hv =>
    refine takes_bind takes_current ?_
    rw [if_neg (ne_register_of_isNumeric hk), if_pos hk]
    exact takes_bind (takes_number hk hv) takes_pure

end Address

/-- A register in front of a colon is a segment; the first term of an address is not. -/
theorem Address.SpellsFirst.next {a b : Address} {us : List Token} (h : a.SpellsFirst b us)
    {t : Token} {ts : List Token}
    (ht : IsSum t.kind ∧ ts ≠ [] ∨ us ≠ [] ∧ t.kind = .mark .rightBracket) :
    ∃ u v vs, us ++ t :: ts = u :: v :: vs ∧ ¬(u.kind = .register ∧ v.kind = .mark .colon) := by
  have hcolon : t.kind ≠ .mark .colon := by
    rcases ht with ⟨hk | hk, -⟩ | ⟨-, hk⟩ <;> simp [hk]
  cases h with
  | none =>
    obtain ⟨hs, hne⟩ : IsSum t.kind ∧ ts ≠ [] := by simpa using ht
    obtain ⟨v, vs, rfl⟩ := List.exists_cons_of_ne_nil hne
    refine ⟨t, v, vs, rfl, fun h => ?_⟩
    rcases hs with hk | hk <;> simp [hk] at h
  | base hr => exact ⟨_, t, ts, rfl, fun h => hcolon h.2⟩
  | displacement hk hv => exact ⟨_, t, ts, rfl, fun h => hcolon h.2⟩

/-- A segment is taken, and nothing is taken for one. -/
theorem SpellsSegment.takes {outside segment : Option String} {ss : List Token}
    (h : SpellsSegment outside segment ss) {t u : Token}
    (hrest : ¬(t.kind = .register ∧ u.kind = .mark .colon)) (rest : List Token) :
    Takes (innerSegment outside) (ss ++ t :: u :: rest) (t :: u :: rest) segment := by
  cases h with
  | none =>
    refine takes_bind takes_current (takes_bind (takes_peek rfl) ?_)
    rw [if_neg fun h => hrest h.2]
    exact takes_pure
  | inside ho hr hc =>
    refine takes_bind takes_current (takes_bind (takes_peek rfl) ?_)
    rw [if_pos ⟨by simp [ho], hr, hc⟩]
    exact takes_bind takes_advance (takes_bind takes_advance takes_pure)

/-- What spells an address is taken for it, whatever follows the bracket. -/
theorem Address.Spells.takes {outside : Option String} {a : Address} {ts : List Token}
    (h : a.Spells outside ts) (rest : List Token) : Takes (address outside) (ts ++ rest) rest a := by
  cases h with
  | @mk l r segment a _ ss us vs hl hs hu hv hne hr =>
    obtain ⟨t, ts, hterms, hkind⟩ := hv.starts hr rest
    have hnext : IsSum t.kind ∧ ts ≠ [] ∨ us ≠ [] ∧ t.kind = .mark .rightBracket :=
      hkind.imp_right fun h => ⟨hne.resolve_right (absurd h.1), h.2⟩
    have hfirst : us = [] → IsSum t.kind := fun h => (hnext.resolve_right fun h' => h'.1 h).1
    have hsplit : l :: (ss ++ (us ++ (vs ++ [r]))) ++ rest =
        l :: (ss ++ (us ++ (vs ++ r :: rest))) := by simp
    obtain ⟨u, v, ws, hws, hcolon⟩ := hu.next hnext
    rw [hsplit]
    refine takes_bind (takes_expect (by simp [hl])) ?_
    rw [hterms, hws]
    refine takes_bind (hs.takes hcolon ws) ?_
    rw [← hws]
    refine takes_bind (hu.takes hfirst ts) ?_
    rw [← hterms]
    refine takes_bind (hv.takes hr rest) ?_
    exact takes_bind (takes_expect (by simp [hr])) takes_pure

/-! ### Operands -/

/-- An expression starts like no other form of an operand. -/
theorem TokenKind.StartsExpr.ne {k : TokenKind} (h : k.StartsExpr) :
    k ≠ .mark .leftBracket ∧ k ≠ .register ∧ k ≠ .string := by
  rcases h with h | rfl | rfl | rfl | (rfl | rfl)
  · refine ⟨?_, ?_, ?_⟩ <;> rintro rfl <;> cases h
  all_goals simp

theorem TokenKind.StartsForm.not_size {k : TokenKind} (h : k.StartsForm) (w : Width) :
    k ≠ .size w := by
  rintro rfl
  rcases h with (h | h | h | h | (h | h)) | h | h | h <;> cases h

/-- No operand starts where a line ends. -/
theorem TokenKind.StartsForm.not_endsLine {k : TokenKind} (h : k.StartsForm) : ¬k.endsLine := by
  have hk : k.endsLine → k = .newline ∨ k = .comment ∨ k = .eof := by
    simp [TokenKind.endsLine, or_assoc]
  intro hend
  rcases hk hend with rfl | rfl | rfl <;>
    rcases h with (h | h | h | h | (h | h)) | h | h | h <;> cases h

/-- What spells a form is taken for it. -/
theorem OperandForm.Spells.takes {f : OperandForm} {ts rest : List Token} (h : f.Spells ts)
    (hr : EndsOperand rest) (pos : Pos) (size : Option Int) :
    Takes (operandForm pos size) (ts ++ rest) rest ⟨f, size, pos⟩ := by
  cases h with
  | register ht => exact takes_operandForm_register hr size ht pos
  | string ht =>
    refine takes_bind takes_current ?_
    rw [if_neg (by simp [ht]), if_neg (by simp [ht]), if_pos ht]
    exact takes_bind takes_advance takes_pure
  | memory ha =>
    have htakes := ha.takes rest
    cases ha with
    | mk hl =>
      refine takes_bind takes_current ?_
      rw [if_pos hl]
      exact takes_bind htakes takes_pure
  | segmented hs hc ha =>
    have htakes := ha.takes rest
    cases ha with
    | mk hl =>
      refine takes_bind takes_current ?_
      rw [if_neg (by simp [hs]), if_pos hs]
      refine takes_bind (takes_peek rfl) (takes_bind (takes_peek rfl) (takes_bind takes_advance ?_))
      rw [if_pos ⟨hc, hl⟩]
      exact takes_bind takes_advance (takes_bind htakes takes_pure)
  | expression he =>
    have htakes := he.takes hr
    obtain ⟨t, us, rfl, hk⟩ := he.starts
    obtain ⟨hbracket, hregister, hstring⟩ := hk.ne
    refine takes_bind takes_current ?_
    rw [if_neg hbracket, if_neg hregister, if_neg hstring]
    exact takes_bind htakes takes_pure

/-- What spells an operand is taken for it, its size included. -/
theorem Operand.Spells.takes {o : Operand} {ts rest : List Token} (h : o.Spells ts)
    (hr : EndsOperand rest) : Takes operand (ts ++ rest) rest o := by
  intro past
  cases h with
  | @plain t f ts hf =>
    obtain ⟨u, us, hts, hk⟩ := hf.starts
    obtain ⟨rfl, rfl⟩ := List.cons.inj hts
    obtain ⟨past', h⟩ := hf.takes hr t.pos none past
    have hsize (w : Width) : (Cursor.current ⟨past, t :: ts ++ rest⟩).kind ≠ .size w :=
      hk.not_size w
    exact ⟨past', (operand_of_no_size hsize).trans h⟩
  | @sized t w f ts ht hf =>
    obtain ⟨past', h⟩ := hf.takes hr t.pos (some w.bits) (t :: past)
    have hsize : (Cursor.current ⟨past, t :: ts ++ rest⟩).kind = .size w := ht
    exact ⟨past', (operand_of_size hsize).trans h⟩

/-- Operands behind commas are taken up to the end of the line. -/
theorem Operand.SpellsMore.takes {os : List Operand} {vs : List Token}
    (h : Operand.SpellsMore os vs) {t : Token} (ht : t.kind.endsLine) (rest : List Token) :
    EndsOperand (vs ++ t :: rest) ∧ Takes moreOperands (vs ++ t :: rest) (t :: rest) os := by
  induction h with
  | nil =>
    refine ⟨.lineEnd t rest ht, fun past => ⟨past, ?_⟩⟩
    have hcomma : ¬(Cursor.current ⟨past, t :: rest⟩).kind = .mark .comma := by
      show ¬t.kind = _
      intro hk
      simp [hk, TokenKind.endsLine] at ht
    rw [List.nil_append, moreOperands_eq, if_neg hcomma]
  | @cons c o os us vs hc ho hos ih =>
    refine ⟨.comma _ _ hc, fun past => ?_⟩
    have hnext : Takes nextOperand (c :: (us ++ (vs ++ t :: rest))) (vs ++ t :: rest) o :=
      takes_bind (takes_expect (by simp [hc])) (ho.takes ih.1)
    obtain ⟨past', h⟩ := hnext past
    obtain ⟨past'', h'⟩ := ih.2 past'
    refine ⟨past'', ?_⟩
    have hcomma : (Cursor.current ⟨past, c :: (us ++ (vs ++ t :: rest))⟩).kind = .mark .comma := hc
    rw [List.cons_append, List.append_assoc, moreOperands_eq, if_pos hcomma, h]
    simp only [h']

/-- What spells the operands of an instruction is taken for them. -/
theorem Operand.SpellsAll.takes {os : List Operand} {ts : List Token}
    (h : Operand.SpellsAll os ts) {t : Token} (ht : t.kind.endsLine) (rest : List Token) :
    Takes operandsToLineEnd (ts ++ t :: rest) (t :: rest) os := by
  rw [operandsToLineEnd_eq]
  cases h with
  | nil =>
    refine takes_bind takes_current ?_
    rw [if_pos ht]
    exact takes_pure
  | cons ho hos =>
    obtain ⟨hends, hmore⟩ := hos.takes ht rest
    have htakes := ho.takes hends
    obtain ⟨u, us, rfl, hk⟩ := ho.starts
    have hend : ¬u.kind.endsLine := by
      rcases hk with hk | ⟨w, hk⟩
      · exact hk.not_endsLine
      · simp [hk, TokenKind.endsLine]
    rw [List.append_assoc]
    refine takes_bind takes_current ?_
    rw [if_neg hend]
    exact takes_bind htakes (takes_bind hmore takes_pure)

/-! ### Instructions -/

theorem TokenKind.IsEnd.endsLine {k : TokenKind} (h : k.IsEnd) : k.endsLine ∧ k ≠ .comment := by
  rcases h with rfl | rfl <;> exact ⟨rfl, by decide⟩

section
variable {x : Option String} {cs : List Token} {t : Token} (ht : t.kind.IsEnd) (rest : List Token)
include ht

/-- A comment is taken, and nothing where there is none. -/
theorem SpellsComment.takes (h : SpellsComment x cs) :
    Takes comment (cs ++ t :: rest) (t :: rest) x := by
  cases h with
  | none =>
    refine takes_bind takes_current ?_
    rw [if_neg ht.endsLine.2]
    exact takes_pure
  | some hk =>
    refine takes_bind takes_current ?_
    rw [if_pos hk]
    exact takes_bind takes_advance takes_pure

/-- A comment ends the operands in front of it, and so does the end of the line. -/
theorem SpellsComment.endsLine (h : SpellsComment x cs) :
    ∃ u us, cs ++ t :: rest = u :: us ∧ u.kind.endsLine := by
  cases h with
  | none => exact ⟨t, rest, rfl, ht.endsLine.1⟩
  | some hk => exact ⟨_, _, rfl, by simp [hk, TokenKind.endsLine]⟩

/-- What spells an instruction and its comment is taken for both. -/
theorem Instruction.Spells.takes {label : Option String} {i : Instruction} {ts : List Token}
    (h : i.Spells label x ts) (hx : SpellsComment x cs) :
    Takes (instruction label) (ts ++ (cs ++ t :: rest)) (t :: rest) i := by
  obtain ⟨u, us, hend, hu⟩ := hx.endsLine ht rest
  have hcomment := hx.takes ht rest
  rw [hend] at hcomment ⊢
  cases h with
  | equate hk hm he =>
    have htakes := he.takes (.lineEnd u us hu)
    obtain ⟨v, vs, rfl, hv⟩ := he.starts
    refine takes_bind (takes_expect (by simp [hk])) ?_
    rw [if_pos hm]
    refine takes_bind ?_ (takes_bind hcomment takes_pure)
    refine takes_bind takes_current ?_
    rw [if_neg (TokenKind.StartsForm.not_endsLine (.inl hv))]
    exact htakes
  | operation hk hm hos =>
    refine takes_bind (takes_expect (by simp [hk])) ?_
    rw [if_neg hm]
    exact takes_bind (hos.takes hu us) (takes_bind hcomment takes_pure)

/-! ### Statements -/

/-- The end of a line is taken with the comment in front of it. -/
theorem takes_lineEnd (hx : SpellsComment x cs) :
    Takes lineEnd (cs ++ t :: rest) (behindEnd t rest) () := by
  refine takes_bind (hx.takes ht rest) (takes_bind takes_current ?_)
  unfold behindEnd
  rcases ht with hk | hk
  · rw [if_pos hk, if_pos hk]
    exact takes_bind takes_advance takes_pure
  · have hn : t.kind ≠ .newline := by simp [hk]
    rw [if_neg hn, if_neg hn, if_pos hk]
    exact takes_pure

/-- An instruction is taken to the end of its line. -/
theorem Instruction.Spells.takes_line {label : Option String} {i : Instruction} {ts : List Token}
    (h : i.Spells label x ts) (hx : SpellsComment x cs) :
    Takes (wholeLine label) (ts ++ (cs ++ t :: rest)) (behindEnd t rest) i :=
  takes_bind (h.takes ht rest hx) (takes_bind (takes_lineEnd ht rest .none) takes_pure)

/-- Behind the mnemonic comes no colon, and a keyword only if the instruction goes on with it. -/
theorem Instruction.Spells.next {label : Option String} {i : Instruction} {ts : List Token}
    (h : i.Spells label x ts) (hx : SpellsComment x cs) :
    ∃ m w ws, ts ++ (cs ++ t :: rest) = m :: w :: ws ∧ m.kind = .ident ∧ w.kind ≠ .mark .colon ∧
      (w.kind = .ident ∧ isLabelKeyword w.text → KeywordAhead ts.tail) := by
  obtain ⟨u, us, hend, hu⟩ := hx.endsLine ht rest
  have hbehind {m : Token} (hm : m.kind = .ident) :
      ∃ w ws, m :: (cs ++ t :: rest) = m :: w :: ws ∧ m.kind = .ident ∧ w.kind ≠ .mark .colon ∧
        (w.kind = .ident ∧ isLabelKeyword w.text → KeywordAhead []) := by
    refine ⟨u, us, by rw [hend], hm, fun hk => ?_, fun hk => ?_⟩
    · simp [hk, TokenKind.endsLine] at hu
    · simp [hk.1, TokenKind.endsLine] at hu
  cases h with
  | @equate m e ts hm hq he =>
    obtain ⟨w, ws, rfl, hw⟩ := he.starts
    refine ⟨m, w, _, rfl, hm, fun hk => ?_, id⟩
    simp [hk, TokenKind.StartsExpr, TokenKind.isNumeric, IsSum] at hw
  | @operation m os ts hm hq hos =>
    cases hos with
    | nil => exact ⟨m, hbehind hm⟩
    | cons ho hos =>
      obtain ⟨w, ws, rfl, hw⟩ := ho.starts
      refine ⟨m, w, _, rfl, hm, fun hk => ?_, id⟩
      simp [hk, TokenKind.StartsForm, TokenKind.StartsExpr, TokenKind.isNumeric, IsSum] at hw

/-- A label may stand on a line by itself. -/
theorem takes_itemOfLabel {l : Label} (hx : SpellsComment x cs) :
    Takes (itemOfLabel l) (cs ++ t :: rest) (behindEnd t rest) (.label l) := by
  have hline := takes_lineEnd ht rest hx
  obtain ⟨u, us, hend, hu⟩ := hx.endsLine ht rest
  rw [hend] at hline ⊢
  refine takes_bind takes_current (takes_peek_bind fun v => ?_)
  rw [if_neg (fun h => by simp [h.1, TokenKind.endsLine] at hu), if_pos hu]
  exact takes_bind hline takes_pure

/-- Or an instruction stands behind it. -/
theorem Instruction.Spells.takes_itemOfLabel {l : Label} {i : Instruction} {ts : List Token}
    (h : i.Spells (some l.name) x ts) (hx : SpellsComment x cs) :
    Takes (itemOfLabel l) (ts ++ (cs ++ t :: rest)) (behindEnd t rest) (.labelled l i) := by
  have hline := h.takes_line ht rest hx
  obtain ⟨m, w, ws, hts, hm, hw, -⟩ := h.next ht rest hx
  rw [hts] at hline ⊢
  refine takes_bind takes_current (takes_bind (takes_peek rfl) ?_)
  rw [if_neg fun h => hw h.2, if_neg (by simp [hm, TokenKind.endsLine])]
  exact takes_bind hline takes_pure

end

theorem takes_labelDeclaration {t : Token} (ht : t.kind = .ident) (ts : List Token) :
    Takes (labelDeclaration false) (t :: ts) ts ⟨t.text, t.pos⟩ :=
  takes_bind (takes_expect (by simp [ht])) (takes_bind takes_pure takes_pure)

theorem takes_labelDeclaration_colon {t u : Token} (ht : t.kind = .ident)
    (hu : u.kind = .mark .colon) (ts : List Token) :
    Takes (labelDeclaration true) (t :: u :: ts) ts ⟨t.text, t.pos⟩ := by
  have hcolon : Takes (labelColon true) (u :: ts) ts () :=
    takes_bind (takes_expect (by simp [hu])) takes_pure
  exact takes_bind (takes_expect (by simp [ht])) (takes_bind hcolon takes_pure)

/-- A label with a colon is declared, whatever item it makes. -/
theorem takes_item_colon {t u : Token} (ht : t.kind = .ident) (hu : u.kind = .mark .colon)
    {ts us : List Token} {x : Item} (h : Takes (itemOfLabel ⟨t.text, t.pos⟩) ts us x) :
    Takes item (t :: u :: ts) us x := by
  refine takes_bind takes_current (takes_bind (takes_peek rfl) ?_)
  rw [if_pos ⟨ht, hu⟩]
  exact takes_bind (takes_labelDeclaration_colon ht hu ts) h

/-- What spells an item is taken for it, to the end of its line. -/
theorem Item.Spells.takes {c : Option String} {x : Item} {us cs : List Token} (h : x.Spells c us)
    (hc : SpellsComment c cs) {t : Token} (ht : t.kind.IsEnd) (rest : List Token) :
    Takes item (us ++ (cs ++ t :: rest)) (behindEnd t rest) x := by
  cases h with
  | label hl hu => exact takes_item_colon hl hu (takes_itemOfLabel ht rest hc)
  | labelled hl hu hi => exact takes_item_colon hl hu (hi.takes_itemOfLabel ht rest hc)
  | @keyword l i ts hl hk hi =>
    have hline := hi.takes_line ht rest hc
    obtain ⟨m, vs, rfl, hm⟩ := hi.starts
    refine takes_bind takes_current (takes_bind (takes_peek rfl) ?_)
    rw [if_neg (by simp [hm]), if_pos ⟨hl, hk⟩]
    exact takes_bind (takes_labelDeclaration hl _) (takes_bind hline takes_pure)
  | plain hk hi =>
    have hline := hi.takes_line ht rest hc
    obtain ⟨m, w, ws, hts, hm, hw, hkey⟩ := hi.next ht rest hc
    rw [hts] at hline ⊢
    refine takes_bind takes_current (takes_bind (takes_peek rfl) ?_)
    rw [if_neg fun h => hw h.2, if_neg fun h => hk (hkey h.2), if_pos hm]
    exact takes_bind hline takes_pure

/-! ### Lines -/

/-- Newlines and comments between items are passed. -/
theorem takes_items_skip {t : Token} (ht : t.kind = .newline ∨ t.kind = .comment)
    {ts us : List Token} {xs : List Item} :
    Takes items (t :: ts) us xs ↔ ∀ past, ∃ past', items ⟨t :: past, ts⟩ = .ok xs ⟨past', us⟩ := by
  have hskip (past : List Token) : items ⟨past, t :: ts⟩ = items ⟨t :: past, ts⟩ :=
    items_of_skip (c := ⟨past, t :: ts⟩) ht
  simp only [Takes, hskip]

/-- One item is taken in front of the others. -/
theorem takes_items_item {t : Token} (ht : t.kind = .ident) {ts us vs : List Token} {x : Item}
    {xs : List Item} (hx : Takes item (t :: ts) us x) (hxs : Takes items us vs xs) :
    Takes items (t :: ts) vs (x :: xs) := by
  intro past
  obtain ⟨past', h⟩ := hx past
  obtain ⟨past'', h'⟩ := hxs past'
  have hk : (Cursor.current ⟨past, t :: ts⟩).kind = .ident := ht
  refine ⟨past'', ?_⟩
  rw [items_of_item (by simp [hk]) (by simp [hk]) h, h']
  rfl

/-- Every item starts with a name. -/
theorem Item.Spells.starts {c : Option String} {x : Item} {us : List Token} (h : x.Spells c us) :
    ∃ t ts, us = t :: ts ∧ t.kind = .ident := by
  cases h with
  | label ht => exact ⟨_, _, rfl, ht⟩
  | labelled ht => exact ⟨_, _, rfl, ht⟩
  | keyword ht => exact ⟨_, _, rfl, ht⟩
  | plain hk hi => exact hi.starts

/-- Lines are read up to the end, and so are those behind a newline at the front. -/
theorem Lines.takes {xs : List Item} {ts : List Token} (h : Lines xs ts) {e : Token}
    (he : e.kind = .eof) (rest : List Token) :
    Takes items (ts ++ e :: rest) (e :: rest) xs ∧
      ∀ n us, ts = n :: us → n.kind = .newline → Takes items (us ++ e :: rest) (e :: rest) xs := by
  have hend : Takes items (e :: rest) (e :: rest) [] :=
    fun past => ⟨past, items_of_eof (c := ⟨past, e :: rest⟩) he⟩
  induction h with
  | nil => exact ⟨hend, nofun⟩
  | skip ht hxs ih =>
    refine ⟨takes_items_skip ht |>.2 fun past => ih.1 _, ?_⟩
    rintro n us hus -
    obtain ⟨rfl, rfl⟩ := List.cons.inj hus
    exact ih.1
  | @label t u xs ts ht hu ha hxs ih =>
    refine ⟨takes_items_item ht (takes_item_colon ht hu ?_) ih.1, ?_⟩
    · match ts, ha with
      | v :: w :: ts, ⟨hv, hw⟩ =>
        refine takes_bind takes_current (takes_bind (takes_peek rfl) ?_)
        rw [if_pos ⟨hv, hw⟩]
        exact takes_pure
    · rintro n us hus hn
      rw [← (List.cons.inj hus).1, ht] at hn
      cases hn
  | @statement c x xs us cs ts hx hc hnl hxs ih =>
    -- the statement is read together with the newline behind it, if there is one
    obtain ⟨after, hitem, hitems⟩ : ∃ after,
        Takes item (us ++ (cs ++ (ts ++ e :: rest))) after x ∧ Takes items after (e :: rest) xs := by
      cases ts with
      | nil =>
        have hafter : behindEnd e rest = e :: rest := if_neg (by simp [he])
        exact ⟨_, hx.takes hc (.inr he) rest, hafter ▸ ih.1⟩
      | cons n ts =>
        have hn : n.kind = .newline := hnl n rfl
        have hafter : behindEnd n (ts ++ e :: rest) = ts ++ e :: rest := if_pos hn
        exact ⟨_, hx.takes hc (.inl hn) _, hafter ▸ ih.2 n ts rfl hn⟩
    obtain ⟨m, ms, rfl, hm⟩ := hx.starts
    refine ⟨by simpa using takes_items_item hm hitem hitems, fun n vs hvs hn => ?_⟩
    rw [← (List.cons.inj hvs).1, hm] at hn
    cases hn

/-- What the grammar spells is parsed as the program of its items. -/
theorem Lines.parse_eq {xs : List Item} {ts : List Token} (h : Lines xs ts) {e : Token}
    (he : e.kind = .eof) : parse (ts ++ [e]) = .ok (.ofItems xs) := by
  obtain ⟨past, hitems⟩ := (h.takes he []).1 []
  exact parse_eq_ok_iff.2 ⟨xs, _, hitems, rfl⟩

end IntelAsm

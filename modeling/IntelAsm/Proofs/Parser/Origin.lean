import IntelAsm.Parser.Statement
import IntelAsm.Proofs.Expression.Draft
import IntelAsm.Proofs.Parser.Triple

/-!
# Where trees come from

Every part of a tree that the parser builds is spelled by a token of the list, and stands at its
place: a name by an identifier, a register by a register, a value by a numeric literal, an operator
by a mark (`Expr.From`, `Operand.From`, `Instruction.From`). Together with the shape of the tree
this is what an action establishes for its value, whatever the tokens are. What the words of a
source look like is said elsewhere; here a word is only handed on.
-/

namespace IntelAsm

open Cursor (Seen)

/-! ### Parts of trees -/

section
variable (ts : List Token)

/-- A numeric literal of the list. -/
def Numbered (v : Int) (isHex : Bool) (pos : Pos) : Prop :=
  ∃ w : Word, ⟨w, pos⟩ ∈ ts ∧ w.kind.isNumeric ∧ w.value = .ok v ∧
    isHex = decide (w.kind = .hexNumber)

/-- A text that some token of a kind has. -/
def Spelled (k : TokenKind) (text : String) : Prop := ∃ pos, ⟨⟨k, text⟩, pos⟩ ∈ ts

/-- The marks of signs. -/
def signMarks : List Mark := [.plus, .minus]

/-- An expression whose leaves and operators are tokens of the list. -/
def Expr.From : Expr → Prop
  | .literal v h pos => Numbered ts v h pos
  | .symbol name pos => ⟨⟨.ident, name⟩, pos⟩ ∈ ts
  | .here pos => ∃ text, ⟨⟨.mark .dollar, text⟩, pos⟩ ∈ ts
  | .unary op e pos => (∃ m ∈ signMarks, ⟨⟨.mark m, op⟩, pos⟩ ∈ ts) ∧ e.From
  | .binary op l r pos =>
    (∃ m ∈ operatorMarks, Spelled ts (.mark m) op) ∧ pos = l.pos ∧ l.From ∧ r.From

/-- An address whose parts are tokens of the list. Its last number with a sign may have been
negated. -/
structure Address.From (a : Address) : Prop where
  base : ∀ r, a.base = some r → Spelled ts .register r
  index : ∀ r, a.index = some r → Spelled ts .register r
  segment : ∀ r, a.segment = some r → Spelled ts .register r
  scale : a.scale = 1 ∨ a.index.isSome ∧ ∃ h pos, Numbered ts a.scale h pos
  displacement : ∀ d, a.displacement = some d → ∃ v h pos, Numbered ts v h pos ∧
    (d = v ∨ d = Numeral.signedWord (-v))

/-- An address has a term. -/
def Address.HasTerm (a : Address) : Prop :=
  a.base.isSome ∨ a.index.isSome ∨ a.displacement.isSome

/-- An operand whose parts are tokens of the list. -/
def OperandForm.From : OperandForm → Prop
  | .register name => Spelled ts .register name
  | .immediate v h => ∃ pos, Numbered ts v h pos
  | .memory a => a.From ts ∧ a.HasTerm
  | .labelRef name => Spelled ts .ident name
  | .string text => Spelled ts .string text
  | .expression e =>
    e.From ts ∧ (∀ v h pos, e ≠ .literal v h pos) ∧ ∀ name pos, e ≠ .symbol name pos

/-- An operand of a size that some specifier gives. -/
structure Operand.From (o : Operand) : Prop where
  form : o.form.From ts
  size : ∀ n, o.size = some n → ∃ w : Width, n = w.bits

/-- An instruction that was read, with the label that was handed to it. -/
structure Instruction.From (i : Instruction) (label : Option String) : Prop where
  label_eq : i.label = label
  mnemonic : ∃ name, ⟨⟨.ident, name⟩, i.pos⟩ ∈ ts ∧ i.mnemonic = Text.upper name
  directive_isSome : i.directive.isSome = isEquate i.mnemonic
  operands_eq : isEquate i.mnemonic → i.operands = []
  directive : ∀ e, i.directive = some e → e.From ts
  operands : ∀ o ∈ i.operands, o.From ts
  comment : ∀ c, i.comment = some c → Spelled ts .comment c

end

/-! ### Expressions -/

section
variable {ts : List Token}

/-- A waiting operator of tokens of the list. -/
def Pending.From (ts : List Token) : Pending → Prop
  | .sign op => op ∈ ts ∧ (op.kind = .mark .plus ∨ op.kind = .mark .minus)
  | .between l op n => l.From ts ∧ ∃ t ∈ ts, t.text = op ∧ precedence? t.kind = some n

/-- A draft of tokens of the list. -/
structure Draft.From (ts : List Token) (d : Draft) : Prop where
  group : ∀ p ∈ d.group, p.From ts
  outer : ∀ g ∈ d.outer, ∀ p ∈ g, Pending.From ts p
  operand : ∀ e, d.operand = some e → e.From ts

/-- An operator of the list, completed, makes an expression of the list. -/
theorem Pending.From.complete {p : Pending} {e : Expr} (hp : p.From ts) (he : e.From ts) :
    (p.complete e).From ts := by
  cases p with
  | sign op =>
    obtain ⟨hmem, hk⟩ := hp
    refine ⟨?_, he⟩
    rcases hk with hk | hk
    · exact ⟨.plus, by decide, hk ▸ hmem⟩
    · exact ⟨.minus, by decide, hk ▸ hmem⟩
  | between l op n =>
    obtain ⟨hl, t, hmem, rfl, hn⟩ := hp
    obtain ⟨m, hm, hk⟩ := mark_of_precedence? hn
    exact ⟨⟨m, hm, t.pos, hk ▸ hmem⟩, rfl, hl, he⟩

/-- So do all operators down to a precedence, by induction on those that wait. -/
theorem from_completeDownTo {n : Nat} {g : List Pending} {e : Expr}
    (hg : ∀ p ∈ g, Pending.From ts p) (he : e.From ts) :
    (∀ p ∈ (completeDownTo n g e).1, Pending.From ts p) ∧ (completeDownTo n g e).2.From ts := by
  induction g generalizing e with
  | nil => exact ⟨by simp, he⟩
  | cons p ps ih =>
    unfold completeDownTo
    split
    · exact ih (fun q hq => hg q (List.mem_cons_of_mem _ hq)) ((hg p (by simp)).complete he)
    · exact ⟨hg, he⟩

/-- And so do all of a group. -/
theorem from_completeAll {g : List Pending} {e : Expr} (hg : ∀ p ∈ g, Pending.From ts p)
    (he : e.From ts) : (completeAll g e).From ts := by
  induction g generalizing e with
  | nil => exact he
  | cons p ps ih =>
    exact ih (fun q hq => hg q (List.mem_cons_of_mem _ hq)) ((hg p (by simp)).complete he)

/-- What a token of the list does to a draft of the list. -/
def DraftStep.From (ts : List Token) (t : Token) : DraftStep → Prop
  | .next d => d.From ts
  | .stop => True
  | .fault f => t.kind.isNumeric ∧ t.value = .error f

/-- A single token is an operand that it spells, or is at fault as its value is. -/
theorem from_operand {t : Token} {g : List Pending} {o : List (List Pending)} (ht : t ∈ ts)
    (hg : ∀ p ∈ g, Pending.From ts p) (ho : ∀ g' ∈ o, ∀ p ∈ g', Pending.From ts p) :
    DraftStep.From ts t
      (match t.operand? with
        | some (.ok e) => .next ⟨g, o, some e⟩
        | some (.error f) => .fault f
        | none => .stop) := by
  have hnext : ∀ e, e.From ts → DraftStep.From ts t (.next ⟨g, o, some e⟩) :=
    fun e he => ⟨hg, ho, fun e' h => Option.some.inj h ▸ he⟩
  unfold Token.operand?
  by_cases hn : t.kind.isNumeric = true
  · rw [if_pos hn]
    cases hv : t.value with
    | ok n => exact hnext _ ⟨t.toWord, ht, hn, hv, rfl⟩
    | error f => exact ⟨hn, hv⟩
  rw [if_neg hn]
  by_cases hd : t.kind = .mark .dollar
  · rw [if_pos hd]
    exact hnext _ ⟨t.text, hd ▸ ht⟩
  rw [if_neg hd]
  by_cases hi : t.kind = .ident
  · rw [if_pos hi]
    refine hnext _ ?_
    show (⟨⟨.ident, t.text⟩, t.pos⟩ : Token) ∈ ts
    exact hi ▸ ht
  rw [if_neg hi]
  trivial

/-- A token of the list takes a draft of the list to one of the list. -/
theorem Draft.From.step {d : Draft} {t : Token} (hd : d.From ts) (ht : t ∈ ts) :
    (d.step t).From ts t := by
  rcases d with ⟨g, o, _ | e⟩
  · -- an operand is due
    by_cases hs : t.kind = .mark .plus ∨ t.kind = .mark .minus
    · rw [Draft.step_sign hs]
      refine ⟨?_, hd.outer, by simp⟩
      exact List.forall_mem_cons.2 ⟨⟨ht, hs⟩, hd.group⟩
    by_cases hp : t.kind = .mark .leftParen
    · rw [Draft.step_leftParen hp]
      refine ⟨by simp, ?_, by simp⟩
      exact List.forall_mem_cons.2 ⟨hd.group, hd.outer⟩
    rw [Draft.step_operand hs hp]
    exact from_operand ht hd.group hd.outer
  · -- an operator may follow
    have he : e.From ts := hd.operand e rfl
    cases hp : precedence? t.kind with
    | some n =>
      rw [Draft.step_of_precedence hp]
      have hc := from_completeDownTo (n := n) hd.group he
      refine ⟨?_, hd.outer, by simp⟩
      exact List.forall_mem_cons.2 ⟨⟨hc.2, t, ht, rfl, hp⟩, hc.1⟩
    | none =>
      by_cases hc : t.kind = .mark .rightParen → o = []
      · rw [Draft.step_eq_stop hp hc]
        trivial
      · obtain ⟨hr, ho⟩ := Classical.not_imp.1 hc
        cases o with
        | nil => exact absurd rfl ho
        | cons g' o =>
          rw [Draft.step_rightParen hr]
          obtain ⟨hg', ho'⟩ := List.forall_mem_cons.1 hd.outer
          refine ⟨hg', ho', fun e' h => ?_⟩
          exact Option.some.inj h ▸ from_completeAll hd.group he

namespace Parse

/-- What a draft comes to in the end is of the list. -/
theorem reads_finish {d : Draft} (hd : d.From ts) : Reads ts (Expr.From ts) d.finish := by
  rcases d with ⟨g, o, _ | e⟩
  · rintro c rfl
    have hf : Reads c.tokens (Expr.From c.tokens)
        (fail (.noOperand c.current.toWord) c.current) :=
      reads_fail (c.seen_peek 0) ⟨_, c.seen_peek 0⟩
    exact hf c rfl
  · rintro c rfl
    cases o with
    | nil => exact ⟨rfl, from_completeAll hd.group (hd.operand e rfl)⟩
    | cons g' o =>
      have hf : Reads c.tokens (Expr.From c.tokens)
        (fail (.expected .closingParen c.current.toWord) c.current) :=
      reads_fail (c.seen_peek 0) ⟨trivial, _, c.seen_peek 0⟩
      exact hf c rfl

/-- Reading on from a draft of the list, wherever in it. -/
theorem reads_resume {d : Draft} (hd : d.From ts) (past ahead : List Token)
    (hc : past.reverse ++ ahead = ts) :
    Leaves (fun e c => c.tokens = ts ∧ e.From ts) (fun e c => c.tokens = ts ∧ Blamed ts e)
      (d.resume past ahead) := by
  induction ahead generalizing d past with
  | nil =>
    rw [Draft.resume]
    exact reads_finish hd ⟨past, []⟩ hc
  | cons t rest ih =>
    have ht : t ∈ ts := by simp [← hc]
    have hstep : (d.step t).From ts t := hd.step ht
    rw [Draft.resume]
    cases hs : d.step t with
    | next d' =>
      rw [hs] at hstep
      exact ih hstep (t :: past) (by simpa using hc)
    | stop => exact reads_finish hd ⟨past, t :: rest⟩ hc
    | fault f =>
      rw [hs] at hstep
      exact ⟨by simpa [Cursor.tokens] using hc, ⟨t, .inl ht, rfl⟩, .of_value ht hstep.1 hstep.2⟩

/-- An expression is made of tokens of the list, by induction on those ahead. -/
theorem reads_expression : Reads ts (Expr.From ts) expression := fun c hc =>
  reads_resume ⟨by simp, by simp, by simp⟩ c.past c.ahead hc

/-! ### Addresses -/

/-- A number that is taken from the token at the cursor. -/
theorem reads_value {t : Token} (ht : t ∈ ts) (hk : t.kind.isNumeric) :
    Reads ts (fun n => ∃ h pos, Numbered ts n h pos) (takeValue t.value) := by
  refine reads_takeValue (fun n hn => ?_) fun f hf => .of_value ht hk hf
  exact ⟨_, t.pos, t.toWord, ht, hk, hn, rfl⟩

/-- The value of a literal is that of a numeral of the list. -/
theorem reads_number {what : Expected} (hw : what.From ts) :
    Reads ts (fun n => ∃ h pos, Numbered ts n h pos) (number what) := by
  apply reads_bind reads_current
  intro t ht
  refine reads_ite (fun hk => ?_) fun _ => reads_fail ht ⟨hw, _, ht⟩
  have hmem : t ∈ ts := ht.mem fun he => by simp [he, TokenKind.isNumeric] at hk
  exact reads_value hmem hk

/-- A token that is seen, and is no end, spells its text. -/
theorem spelled_of_kind {t : Token} {k : TokenKind} (ht : Seen ts t) (hk : t.kind = k)
    (he : k ≠ .eof) : Spelled ts k t.text := by
  have hmem : t ∈ ts := ht.mem (hk ▸ he)
  exact ⟨t.pos, hk ▸ hmem⟩

/-- A factor changes nothing but the scale. -/
theorem reads_scale {a : Address} (ha : a.From ts) (hi : a.index.isSome) :
    Reads ts (fun a' => a'.From ts ∧ a'.HasTerm) (scale a) := by
  apply reads_bind reads_current
  intro t _
  apply reads_ite
  · intro _
    apply reads_bind reads_advance
    intro _ _
    apply reads_bind (reads_number (by trivial))
    intro n hn
    exact reads_pure ⟨{ ha with scale := .inr ⟨hi, hn⟩ }, .inr (.inl hi)⟩
  · intro _
    exact reads_pure ⟨ha, .inr (.inl hi)⟩

/-- A sign may be named in a message, since it is a token of the list. -/
theorem mark_of_sign {sign : Token}
    (h : sign ∈ ts ∧ sign.kind ∈ [TokenKind.mark .plus, .mark .minus]) :
    (Expected.signedTerm sign.text).From ts := by
  obtain ⟨⟨k, text⟩, pos⟩ := sign
  obtain ⟨hmem, hk⟩ := h
  simp only [List.mem_cons, List.not_mem_nil, or_false] at hk
  rcases hk with rfl | rfl
  · exact ⟨.plus, pos, hmem⟩
  · exact ⟨.minus, pos, hmem⟩

/-- A term adds a register of the list, or a number of it. -/
theorem reads_signedTerm {a : Address} (ha : a.From ts) :
    Reads ts (fun a' => a'.From ts ∧ a'.HasTerm) (signedTerm a) := by
  apply reads_bind (reads_expect (by decide) (by trivial))
  intro sign hsign
  apply reads_bind reads_current
  intro t ht
  refine reads_ite (fun hk => ?_) fun _ => ?_
  · -- an index, unless there is one already
    apply reads_ite fun _ => reads_fail ht (by trivial)
    intro _
    apply reads_bind reads_advance
    intro _ _
    have hr : Spelled ts .register t.text := spelled_of_kind ht hk (by simp)
    refine reads_scale { ha with index := ?_, scale := ?_ } rfl
    · exact fun r h => Option.some.inj h ▸ hr
    · exact ha.scale.imp_right fun h => ⟨rfl, h.2⟩
  · -- a displacement
    refine reads_ite (fun _ => ?_) fun _ => reads_fail ht ⟨mark_of_sign hsign, _, ht⟩
    apply reads_bind (reads_number (by trivial))
    intro n hn
    apply reads_pure
    obtain ⟨h, pos, hn⟩ := hn
    refine ⟨{ ha with displacement := fun d hd => ⟨n, h, pos, hn, ?_⟩ }, .inr (.inr rfl)⟩
    cases Option.some.inj hd
    split
    · exact .inl rfl
    · exact .inr rfl

/-- The address has a term, or the cursor stands at the sign of one. -/
def TermAt (a : Address) (c : Cursor) : Prop :=
  a.HasTerm ∨ c.current.kind = .mark .plus ∨ c.current.kind = .mark .minus

/-- Behind the first term the address has one, or a sign comes next. -/
theorem triple_firstTerm {a : Address} (ha : a.From ts) :
    Triple (fun c => c.tokens = ts) (firstTerm a)
      (fun a' c => c.tokens = ts ∧ a'.From ts ∧ TermAt a' c)
      fun e c => c.tokens = ts ∧ Blamed ts e := by
  apply triple_bind triple_current
  intro t
  refine triple_ite (fun hk => ?_) fun _ => triple_ite (fun hk => ?_) fun _ =>
    triple_ite (fun hk => ?_) fun _ => ?_
  · rintro c ⟨hc, rfl⟩
    have hseen : Seen ts c.current := hc ▸ c.seen_peek 0
    have hr : Spelled ts .register c.current.text := spelled_of_kind hseen hk (by simp)
    refine ⟨c.tokens_advance.trans hc, { ha with base := ?_ }, .inl (.inl rfl)⟩
    exact fun r h => Option.some.inj h ▸ hr
  · have hr : Reads ts (fun a' => a'.From ts ∧ a'.HasTerm)
        (number .number >>= fun n => return { a with displacement := some n }) := by
      apply reads_bind (reads_number (by trivial))
      intro n hn
      obtain ⟨h, pos, hn⟩ := hn
      refine reads_pure ⟨?_, .inr (.inr rfl)⟩
      refine { ha with displacement := fun d hd => ⟨n, h, pos, hn, .inl ?_⟩ }
      exact (Option.some.inj hd).symm
    exact hr.triple (fun _ h => h.1) fun a' c hc h => ⟨hc, h.1, .inl h.2⟩
  · rintro c ⟨hc, rfl⟩
    exact ⟨hc, ha, .inr hk⟩
  · rintro c ⟨hc, rfl⟩
    have hseen : Seen ts c.current := hc ▸ c.seen_peek 0
    exact ⟨hc, ⟨_, hseen, rfl⟩, trivial, _, hseen⟩

/-- So in the end the address has a term. -/
theorem triple_signedTerms {a : Address} (ha : a.From ts) :
    Triple (fun c => c.tokens = ts ∧ TermAt a c) (signedTerms a)
      (fun a' c => c.tokens = ts ∧ a'.From ts ∧ a'.HasTerm)
      fun e c => c.tokens = ts ∧ Blamed ts e := by
  rintro c ⟨hc, ht⟩
  fun_induction signedTerms a c with
  | case1 a c h a' c' hr ih =>
    obtain ⟨hc', ha', ht'⟩ := (reads_signedTerm ha).of_ok hc hr
    exact ih ha' hc' (.inl ht')
  | case2 a c h e c' hr => exact (reads_signedTerm ha).of_error hc hr
  | case3 a c h => exact ⟨hc, ha, ht.resolve_right h⟩

/-- A segment is a register of the list, wherever it stood. -/
theorem reads_innerSegment {segment : Option String}
    (hs : ∀ r, segment = some r → Spelled ts .register r) :
    Reads ts (fun s => ∀ r, s = some r → Spelled ts .register r) (innerSegment segment) := by
  apply reads_bind reads_current
  intro t ht
  apply reads_bind (reads_peek 1)
  intro u _
  refine reads_ite (fun hk => ?_) fun _ => reads_pure hs
  apply reads_bind reads_advance
  intro _ _
  apply reads_bind reads_advance
  intro _ _
  apply reads_pure
  exact fun r h => Option.some.inj h ▸ spelled_of_kind ht hk.2.1 (by simp)

/-- An address has a term, and is made of tokens of the list. -/
theorem reads_address {segment : Option String}
    (hs : ∀ r, segment = some r → Spelled ts .register r) :
    Reads ts (fun a => a.From ts ∧ a.HasTerm) (address segment) := by
  apply reads_bind (reads_expect (by decide) (by simp [Expected.From]))
  intro _ _
  apply reads_bind (reads_innerSegment hs)
  intro s hs
  have ha : Address.From ts { segment := s } := ⟨by simp, by simp, hs, .inl rfl, by simp⟩
  -- the terms are no action of their own on the tokens: whether there is one depends on the cursor
  apply triple_bind (triple_firstTerm ha)
  intro a c hc
  refine triple_bind (triple_signedTerms hc.2.1) (fun a c hc => ?_) c ⟨hc.1, hc.2.2⟩
  have hend : Reads ts (fun a => a.From ts ∧ a.HasTerm)
      (expect .closingBracket [.mark .rightBracket] >>= fun _ => return a) :=
    reads_bind (reads_expect (by decide) (by simp [Expected.From])) fun _ _ => reads_pure hc.2
  exact hend c hc.1

/-! ### Operands -/

/-- A size is one of those that have a specifier. -/
theorem reads_sizeSpecifier :
    Reads ts (fun s => ∀ n, s = some n → ∃ w : Width, n = w.bits) sizeSpecifier := by
  apply reads_bind reads_current
  intro t _
  split
  · next w _ =>
    apply reads_bind reads_advance
    intro _ _
    exact reads_pure fun n h => ⟨w, (Option.some.inj h).symm⟩
  · exact reads_pure (by simp)

section
variable {pos : Pos} {size : Option Int} (hsize : ∀ n, size = some n → ∃ w : Width, n = w.bits)
include hsize

theorem reads_memoryOperand {segment : Option String}
    (hs : ∀ r, segment = some r → Spelled ts .register r) :
    Reads ts (Operand.From ts) (memoryOperand pos size segment) := by
  apply reads_bind (reads_address hs)
  intro a ha
  exact reads_pure ⟨ha, hsize⟩

/-- A register of the list is an operand, or the segment of an address. -/
theorem reads_registerOperand {t : Token} (ht : Seen ts t) (hk : t.kind = .register) :
    Reads ts (Operand.From ts) (registerOperand pos size t) := by
  have hr : Spelled ts .register t.text := spelled_of_kind ht hk (by simp)
  apply reads_bind (reads_peek 1)
  intro u _
  apply reads_bind (reads_peek 2)
  intro v _
  apply reads_bind reads_advance
  intro _ _
  apply reads_ite
  · intro _
    apply reads_bind reads_advance
    intro _ _
    exact reads_memoryOperand hsize fun r h => Option.some.inj h ▸ hr
  · intro _
    exact reads_pure ⟨hr, hsize⟩

end

/-- A literal or a symbol alone is an operand of its own. -/
theorem form_ofExpr {e : Expr} (he : e.From ts) : (OperandForm.ofExpr e).From ts := by
  cases e with
  | literal v h pos => exact ⟨pos, he⟩
  | symbol name pos => exact ⟨pos, he⟩
  | here pos => exact ⟨he, by simp, by simp⟩
  | unary op e pos => exact ⟨he, by simp, by simp⟩
  | binary op l r pos => exact ⟨he, by simp, by simp⟩

/-- An operand is made of tokens of the list. -/
theorem reads_operand : Reads ts (Operand.From ts) operand := by
  apply reads_bind reads_current
  intro start _
  apply reads_bind reads_sizeSpecifier
  intro size hsize
  apply reads_bind reads_current
  intro t ht
  refine reads_ite (fun _ => reads_memoryOperand hsize (by simp)) fun _ =>
    reads_ite (fun hk => reads_registerOperand hsize ht hk) fun _ =>
      reads_ite (fun hk => ?_) fun _ => ?_
  · apply reads_bind reads_advance
    intro _ _
    exact reads_pure ⟨spelled_of_kind ht hk (by simp), hsize⟩
  · apply reads_bind reads_expression
    intro e he
    exact reads_pure ⟨form_ofExpr he, hsize⟩

theorem reads_nextOperand : Reads ts (Operand.From ts) nextOperand :=
  reads_bind (reads_expect (by decide) (by simp [Expected.From])) fun _ _ => reads_operand

/-- By induction on the tokens ahead, operand by operand. -/
theorem reads_moreOperands :
    Reads ts (fun os => ∀ o ∈ os, Operand.From ts o) moreOperands := by
  intro c hc
  fun_induction moreOperands c with
  | case1 c h o c' hr os c'' hm ih =>
    obtain ⟨hc', ho⟩ := reads_nextOperand.of_ok hc hr
    have hl := ih hc'
    rw [hm] at hl
    exact ⟨hl.1, List.forall_mem_cons.2 ⟨ho, hl.2⟩⟩
  | case2 c h o c' hr e c'' hm ih =>
    have hl := ih (reads_nextOperand.of_ok hc hr).1
    rwa [hm] at hl
  | case3 c h e c' hr => exact reads_nextOperand.of_error hc hr
  | case4 c h => exact ⟨hc, by simp⟩

theorem reads_operands : Reads ts (fun os => ∀ o ∈ os, Operand.From ts o) operands := by
  apply reads_bind reads_operand
  intro o ho
  apply reads_bind reads_moreOperands
  intro os hos
  exact reads_pure (List.forall_mem_cons.2 ⟨ho, hos⟩)

/-! ### Instructions -/

/-- A comment is one of the list. -/
theorem reads_comment :
    Reads ts (fun c => ∀ text, c = some text → Spelled ts .comment text) comment := by
  apply reads_bind reads_current
  intro t ht
  refine reads_ite (fun hk => ?_) fun _ => reads_pure (by simp)
  apply reads_bind reads_advance
  intro _ _
  refine reads_pure fun text h => ?_
  exact Option.some.inj h ▸ spelled_of_kind ht hk (by simp)

/-- The expression of an equate is made of tokens of the list. -/
theorem reads_directive {mnemonic : String} (hm : isEquate mnemonic) :
    Reads ts (Expr.From ts) (directive mnemonic) := by
  apply reads_bind reads_current
  intro t ht
  exact reads_ite (fun _ => reads_fail ht hm) fun _ => reads_expression

theorem reads_operandsToLineEnd :
    Reads ts (fun os => ∀ o ∈ os, Operand.From ts o) operandsToLineEnd := by
  rw [operandsToLineEnd_eq]
  apply reads_bind reads_current
  intro t _
  exact reads_ite (fun _ => reads_pure (by simp)) fun _ => reads_operands

/-- An instruction has the body that its mnemonic calls for, and the label it was given. -/
theorem reads_instruction (label : Option String) :
    Reads ts (fun i => i.From ts label) (instruction label) := by
  apply reads_bind (reads_expect (by decide) (by simp [Expected.From]))
  intro t ht
  have hk : t.kind = .ident := by simpa using ht.2
  have hm : ∃ name, ⟨⟨.ident, name⟩, t.pos⟩ ∈ ts ∧ Text.upper t.text = Text.upper name :=
    ⟨t.text, hk ▸ ht.1, rfl⟩
  apply reads_ite
  · intro he
    apply reads_bind (reads_directive he)
    intro e hfrom
    apply reads_bind reads_comment
    intro text hc
    refine reads_pure ⟨rfl, hm, by simp [he], fun _ => rfl, ?_, by simp, hc⟩
    exact fun e' h => Option.some.inj h ▸ hfrom
  · intro he
    apply reads_bind reads_operandsToLineEnd
    intro os hos
    apply reads_bind reads_comment
    intro text hc
    exact reads_pure ⟨rfl, hm, by simp [he], fun h => absurd h he, by simp, hos, hc⟩

theorem reads_lineEnd : Reads ts (fun _ => True) lineEnd := by
  apply reads_bind reads_comment
  intro text _
  apply reads_bind reads_current
  intro t ht
  apply reads_ite
  · intro _
    exact reads_bind reads_advance fun _ _ => reads_pure trivial
  · intro _
    exact reads_ite (fun _ => reads_pure trivial) fun _ => reads_fail ht ⟨trivial, _, ht⟩

theorem reads_labelColon (colon : Bool) : Reads ts (fun _ => True) (labelColon colon) := by
  refine reads_ite (fun _ => ?_) fun _ => reads_pure trivial
  apply reads_bind (reads_expect (by decide) (by simp [Expected.From]))
  exact fun _ _ => reads_pure trivial

end Parse

end

end IntelAsm

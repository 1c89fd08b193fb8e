import IntelAsm.Proofs.Respelling.Program
import IntelAsm.Proofs.RoundTrip.Words

/-!
# Reading the words of trees

The parser makes of the words of a tree the tree itself, its places aside (`unplaced`). For each
part of a tree there is one law, which says what an action makes of the words of that part in front
of any tokens that may follow it there (`takes_operand` and its like).

An expression is read on from any draft that waits for an operand, since its words leave the draft
as if the expression were a single token (`resumeAt_words`): behind a sign because a sign is
completed at once, and in parentheses because they keep the operators outside from what is inside.
-/

namespace IntelAsm

open Respelling (unplaced)

/-- The tokens of words, at no place in particular. -/
def tokensOf (ws : List Word) : List Token := ws.map fun w => ⟨w, {}⟩

@[simp] theorem tokensOf_nil : tokensOf [] = [] := rfl

@[simp] theorem tokensOf_cons (w : Word) (ws : List Word) :
    tokensOf (w :: ws) = ⟨w, {}⟩ :: tokensOf ws := rfl

@[simp] theorem tokensOf_append (vs ws : List Word) :
    tokensOf (vs ++ ws) = tokensOf vs ++ tokensOf ws :=
  List.map_append

/-! ### What an action takes -/

namespace Parse

section
variable {α β : Type} {p q : Parse α} {f : α → Parse β} {ts us vs : List Token} {t : Token}
  {a : α} {b : β}

/-- With the tokens `ts` ahead, whatever was passed, an action has the value `a` and leaves the
tokens `us` ahead. -/
def Takes (p : Parse α) (ts us : List Token) (a : α) : Prop :=
  ∀ past, ∃ past', p ⟨past, ts⟩ = .ok a ⟨past', us⟩

theorem takes_pure : Takes (pure a : Parse α) ts ts a := fun past => ⟨past, rfl⟩

/-- What the first of two actions leaves ahead is what the second takes from. -/
theorem takes_bind (hp : Takes p ts us a) (hf : Takes (f a) us vs b) : Takes (p >>= f) ts vs b := by
  intro past
  obtain ⟨past', h⟩ := hp past
  obtain ⟨past'', h'⟩ := hf past'
  refine ⟨past'', ?_⟩
  show EStateM.bind p f ⟨past, ts⟩ = _
  rw [EStateM.bind, h]
  exact h'

theorem takes_current : Takes current (t :: ts) (t :: ts) t := fun past => ⟨past, rfl⟩

theorem takes_advance : Takes advance (t :: ts) ts t := fun past => ⟨t :: past, rfl⟩

/-- A token that is looked at but does not matter. -/
theorem takes_peek_bind {g : Token → Parse β} {n : Nat} (h : ∀ u, Takes (g u) ts us b) :
    Takes (peek n >>= g) ts us b :=
  fun past => h _ past

theorem takes_peek {n : Nat} (h : ts[n]? = some t) : Takes (peek n) ts ts t := by
  intro past
  refine ⟨past, ?_⟩
  rw [peek, Cursor.peek]
  simp only [h]

/-- A token of an expected kind is taken. -/
theorem takes_expect {what : Expected} {kinds : List TokenKind} (h : t.kind ∈ kinds) :
    Takes (expect what kinds) (t :: ts) ts t := by
  intro past
  have hk : kinds.contains (Cursor.current ⟨past, t :: ts⟩).kind := by
    show kinds.contains t.kind
    simpa using h
  refine ⟨t :: past, ?_⟩
  rw [expect, if_pos hk]
  rfl

/-- A literal with a value is taken for that value. -/
theorem takes_number {what : Expected} {v : Int} (hk : t.kind.isNumeric) (hv : t.value = .ok v) :
    Takes (number what) (t :: ts) ts v := by
  refine takes_bind takes_current ?_
  rw [if_pos hk, hv]
  exact fun past => ⟨t :: past, rfl⟩

end

end Parse

open Parse

/-! ### Expressions -/

/-- A literal is written in the base in which it is kept. -/
theorem kind_literalWord {v : Int} {isHex : Bool} (h : IsLiteral v isHex) :
    (literalWord v isHex).kind = if isHex then .hexNumber else .number := by
  have hx := h.isHex
  unfold literalWord
  cases isHex with
  | true => rfl
  | false =>
    have hv : ¬v < 0 := fun hn => by simpa using hx hn
    simp [hv]

/-- In either base a literal is written as one numeral. -/
theorem isNumeric_literalWord (v : Int) (isHex : Bool) : (literalWord v isHex).kind.isNumeric := by
  unfold literalWord
  split <;> rfl

/-- A literal that fits 64 bits is read back as its value, also where it is negative. -/
theorem value_literalWord {v : Int} (h : Numeral.minSigned ≤ v) (h' : v ≤ Numeral.maxSigned)
    (isHex : Bool) : (literalWord v isHex).value = .ok v := by
  unfold literalWord
  split
  · rw [Word.value_hexadecimal (Word.unsignedWord_lt v), Word.signedWord_unsignedWord h h']
  · next hn =>
    simp only [Bool.or_eq_true, decide_eq_true_eq, not_or, Int.not_lt] at hn
    exact Word.value_decimal hn.2 h'

@[simp] theorem pos_unplaced (e : Expr) : (unplaced.expr e).pos = {} := by
  cases e <;> rfl

namespace Draft

/-- The token ahead is one step. -/
theorem resumeAt_step {d d' : Draft} {t : Token} (h : d.step t = .next d')
    (past ts : List Token) : d.resumeAt ⟨past, t :: ts⟩ = d'.resumeAt ⟨t :: past, ts⟩ := by
  have hc : d.step (Cursor.current ⟨past, t :: ts⟩) = .next d' := h
  exact resumeAt_of_next hc

/-- A token that is an operand is taken where one is due. -/
theorem resumeAt_operand {t : Token} {e : Expr} (h : t.operand? = some (.ok e))
    (hs : ¬(t.kind = .mark .plus ∨ t.kind = .mark .minus)) (hp : t.kind ≠ .mark .leftParen)
    (g : List Pending) (o : List (List Pending)) (past ts : List Token) :
    resumeAt ⟨g, o, none⟩ ⟨past, t :: ts⟩ = resumeAt ⟨g, o, some e⟩ ⟨t :: past, ts⟩ := by
  refine resumeAt_step ?_ past ts
  rw [step_operand hs hp, h]

/-- A draft takes a literal as its operand. -/
theorem resumeAt_literal {v : Int} {isHex : Bool} (h : IsLiteral v isHex) (g : List Pending)
    (o : List (List Pending)) (past ts : List Token) :
    ∃ past', resumeAt ⟨g, o, none⟩ ⟨past, ⟨literalWord v isHex, {}⟩ :: ts⟩ =
      resumeAt ⟨g, o, some (.literal v isHex {})⟩ ⟨past', ts⟩ := by
  have hk := kind_literalWord h
  have hoperand : (⟨literalWord v isHex, {}⟩ : Token).operand? =
      some (.ok (.literal v isHex {})) := by
    rw [Token.operand?, if_pos (isNumeric_literalWord v isHex),
      value_literalWord h.lower h.upper isHex, hk]
    cases isHex <;> rfl
  refine ⟨_, resumeAt_operand hoperand ?_ ?_ g o past ts⟩
  all_goals
    rw [hk]
    cases isHex <;> simp

/-- A draft takes a name as its operand. -/
theorem resumeAt_ident (name : String) (g : List Pending) (o : List (List Pending))
    (past ts : List Token) :
    resumeAt ⟨g, o, none⟩ ⟨past, ⟨⟨.ident, name⟩, {}⟩ :: ts⟩ =
      resumeAt ⟨g, o, some (.symbol name {})⟩ ⟨⟨⟨.ident, name⟩, {}⟩ :: past, ts⟩ :=
  resumeAt_operand rfl (by simp) (by simp) g o past ts

/-- A parenthesis opens an empty group in front of those that wait. -/
theorem resumeAt_leftParen (g : List Pending) (o : List (List Pending)) (past ts : List Token) :
    resumeAt ⟨g, o, none⟩ ⟨past, ⟨Mark.leftParen.word, {}⟩ :: ts⟩ =
      resumeAt ⟨[], g :: o, none⟩ ⟨⟨Mark.leftParen.word, {}⟩ :: past, ts⟩ :=
  resumeAt_step (step_leftParen rfl) past ts

/-- A parenthesis closes its group, which is completed in full. -/
theorem resumeAt_rightParen (g h : List Pending) (o : List (List Pending)) (e : Expr)
    (past ts : List Token) :
    resumeAt ⟨g, h :: o, some e⟩ ⟨past, ⟨Mark.rightParen.word, {}⟩ :: ts⟩ =
      resumeAt ⟨h, o, some (completeAll g e)⟩ ⟨⟨Mark.rightParen.word, {}⟩ :: past, ts⟩ :=
  resumeAt_step (step_rightParen rfl) past ts

/-- A symbol is taken as an operand, whether it stands in parentheses or not. -/
theorem resumeAt_symbol (name : String) (g : List Pending) (o : List (List Pending))
    (past ts : List Token) :
    ∃ past', resumeAt ⟨g, o, none⟩ ⟨past, tokensOf (symbolWords name) ++ ts⟩ =
      resumeAt ⟨g, o, some (.symbol name {})⟩ ⟨past', ts⟩ := by
  unfold symbolWords
  split
  · have hw : tokensOf [Mark.leftParen.word, ⟨.ident, name⟩, Mark.rightParen.word] ++ ts =
        ⟨Mark.leftParen.word, {}⟩ :: ⟨⟨.ident, name⟩, {}⟩ :: ⟨Mark.rightParen.word, {}⟩ :: ts := rfl
    rw [hw, resumeAt_leftParen, resumeAt_ident, resumeAt_rightParen]
    exact ⟨_, rfl⟩
  · exact ⟨_, resumeAt_ident name g o past ts⟩

/-- The words of an expression are taken like a single operand. -/
theorem resumeAt_words {e : Expr} (he : e.WellFormed IsName) (g : List Pending)
    (o : List (List Pending)) (past rest : List Token) :
    ∃ past', resumeAt ⟨g, o, none⟩ ⟨past, tokensOf e.words ++ rest⟩ =
      resumeAt ⟨g, o, some (unplaced.expr e)⟩ ⟨past', rest⟩ := by
  -- on the expression, for any draft: its parts are read where operators wait for them
  induction e generalizing g o past rest with
  | literal v h pos => exact resumeAt_literal he g o past rest
  | symbol name pos => exact resumeAt_symbol name g o past rest
  | here pos =>
    exact ⟨_, resumeAt_operand rfl (by simp [Mark.word]) (by simp [Mark.word]) g o past rest⟩
  | unary op e pos ih =>
    obtain ⟨⟨m, hm, rfl⟩, he⟩ := he
    have hs : m.word.kind = .mark .plus ∨ m.word.kind = .mark .minus := by
      simpa [signMarks, Mark.word] using hm
    obtain ⟨past', h⟩ := ih he (.sign ⟨m.word, {}⟩ :: g) o (⟨m.word, {}⟩ :: past) rest
    refine ⟨past', ?_⟩
    have hw : tokensOf (Expr.unary (String.singleton m.char) e pos).words ++ rest =
        ⟨m.word, {}⟩ :: (tokensOf e.words ++ rest) := by simp [Expr.words]
    rw [hw, resumeAt_step (step_sign hs), h,
      resumeAt_complete (by simp [Pending.binding, signBinding])]
    rfl
  | binary op l r pos ihl ihr =>
    obtain ⟨⟨m, hm, rfl⟩, hl, hr⟩ := he
    obtain ⟨n, hn⟩ : ∃ n, precedence? (⟨m.word, {}⟩ : Token).kind = some n := by
      simp only [operatorMarks, List.mem_cons, List.not_mem_nil, or_false] at hm
      rcases hm with rfl | rfl | rfl | rfl | rfl <;> exact ⟨_, rfl⟩
    have hw : tokensOf (Expr.binary (String.singleton m.char) l r pos).words ++ rest =
        ⟨Mark.leftParen.word, {}⟩ :: (tokensOf l.words ++ ⟨m.word, {}⟩ ::
          (tokensOf r.words ++ ⟨Mark.rightParen.word, {}⟩ :: rest)) := by simp [Expr.words]
    obtain ⟨past', h⟩ := ihl hl [] (g :: o) (⟨Mark.leftParen.word, {}⟩ :: past)
      (⟨m.word, {}⟩ :: (tokensOf r.words ++ ⟨Mark.rightParen.word, {}⟩ :: rest))
    obtain ⟨past'', h'⟩ := ihr hr [.between (unplaced.expr l) m.word.text n] (g :: o)
      (⟨m.word, {}⟩ :: past') (⟨Mark.rightParen.word, {}⟩ :: rest)
    refine ⟨⟨Mark.rightParen.word, {}⟩ :: past'', ?_⟩
    rw [hw, resumeAt_leftParen, h, resumeAt_step (step_of_precedence hn), completeDownTo_nil, h',
      resumeAt_rightParen, completeAll_cons, completeAll_nil, Pending.complete_between,
      pos_unplaced]
    rfl

end Draft

/-! ### How expressions and operands start -/

/-- A word with which an expression may start; a keyword starts none that is written. -/
def Word.startsExpr (w : Word) : Bool :=
  match w.kind with
  | .number | .hexNumber => true
  | .ident => !isLabelKeyword w.text
  | .mark .plus | .mark .minus | .mark .dollar | .mark .leftParen => true
  | _ => false

/-- A word with which an operand may start, its size aside. -/
def Word.startsForm (w : Word) : Bool :=
  w.startsExpr || w.kind = .register || w.kind = .string || w.kind = .mark .leftBracket

/-- No other form of an operand starts like an expression. -/
theorem Word.kind_of_startsExpr {w : Word} (h : w.startsExpr) :
    w.kind ≠ .mark .leftBracket ∧ w.kind ≠ .register ∧ w.kind ≠ .string ∧
      ∀ s, w.kind ≠ .size s := by
  unfold startsExpr at h
  split at h <;> simp_all

/-- What is written of an expression starts like one. -/
theorem startsExpr_words {e : Expr} (he : e.WellFormed IsName) :
    ∃ w ws, e.words = w :: ws ∧ w.startsExpr := by
  cases e with
  | literal v h pos =>
    refine ⟨_, _, rfl, ?_⟩
    rw [Word.startsExpr, kind_literalWord he]
    cases h <;> rfl
  | symbol name pos =>
    unfold Expr.words symbolWords
    split
    · exact ⟨_, _, rfl, rfl⟩
    · next hk => exact ⟨_, _, rfl, by simp [Word.startsExpr, hk]⟩
  | here pos => exact ⟨_, _, rfl, rfl⟩
  | unary op e pos =>
    obtain ⟨⟨m, hm, rfl⟩, -⟩ := he
    refine ⟨_, _, rfl, ?_⟩
    simp only [signMarks, List.mem_cons, List.not_mem_nil, or_false] at hm
    rw [operatorWord_singleton]
    rcases hm with rfl | rfl <;> rfl
  | binary op l r pos => exact ⟨_, _, rfl, rfl⟩

/-- What is written of an operand starts like one. -/
theorem startsForm_words {form : OperandForm} (h : form.WellFormed IsName) :
    ∃ w ws, form.words = w :: ws ∧ w.startsForm := by
  have hexpr : ∀ {e : Expr}, e.WellFormed IsName → ∃ w ws, e.words = w :: ws ∧ w.startsForm := by
    intro e he
    obtain ⟨w, ws, hw, hs⟩ := startsExpr_words he
    exact ⟨w, ws, hw, by simp [Word.startsForm, hs]⟩
  cases form with
  | register name => exact ⟨_, _, rfl, rfl⟩
  | immediate v isHex => exact hexpr (e := .literal v isHex {}) h
  | memory a =>
    show ∃ w ws, a.words = w :: ws ∧ w.startsForm
    rw [Address.words]
    cases a.segment <;> exact ⟨_, _, rfl, rfl⟩
  | labelRef name => exact hexpr (e := .symbol name {}) h
  | string text => exact ⟨_, _, rfl, rfl⟩
  | expression e => exact hexpr h.1

/-- Tokens that end an operand: a comma or the end of the line comes first. -/
inductive EndsOperand : List Token → Prop where
  | comma (t : Token) (ts : List Token) (h : t.kind = .mark .comma) : EndsOperand (t :: ts)
  | lineEnd (t : Token) (ts : List Token) (h : t.kind.endsLine) : EndsOperand (t :: ts)

/-- No operator goes on behind an operand that ends. -/
theorem EndsOperand.precedence?_eq_none {rest : List Token} (h : EndsOperand rest) :
    ∃ t ts, rest = t :: ts ∧ precedence? t.kind = none := by
  cases h with
  | comma t ts hk => exact ⟨t, ts, rfl, by rw [hk]; rfl⟩
  | lineEnd t ts hk =>
    refine ⟨t, ts, rfl, ?_⟩
    simp only [TokenKind.endsLine, Bool.or_eq_true, decide_eq_true_eq] at hk
    rcases hk with (hk | hk) | hk <;> rw [hk] <;> rfl

/-- The words of an expression are read as the expression, by itself. -/
theorem takes_expression {e : Expr} (he : e.WellFormed IsName) {rest : List Token}
    (hr : EndsOperand rest) :
    Takes expression (tokensOf e.words ++ rest) rest (unplaced.expr e) := by
  intro past
  obtain ⟨past', h⟩ := Draft.resumeAt_words he [] [] past rest
  refine ⟨past', ?_⟩
  obtain ⟨t, ts, rfl, hp⟩ := hr.precedence?_eq_none
  have hstop : Draft.step ⟨[], [], some (unplaced.expr e)⟩ (Cursor.current ⟨past', t :: ts⟩) =
      .stop := Draft.step_eq_stop hp fun _ => rfl
  show Draft.resumeAt {} ⟨past, _⟩ = _
  rw [h, Draft.resumeAt_of_stop hstop, Draft.finish_operand]
  rfl

/-! ### Addresses -/

namespace Parse

theorem ne_register_of_isNumeric {k : TokenKind} (h : k.isNumeric) : ¬k = .register := by
  rintro rfl
  cases h

/-- One more signed term is read in front of the others. -/
theorem takes_signedTerms {a a' b : Address} {ts us vs : List Token} {t : Token}
    (hk : t.kind = .mark .plus ∨ t.kind = .mark .minus) (h : Takes (signedTerm a) (t :: ts) us a')
    (h' : Takes (signedTerms a') us vs b) : Takes (signedTerms a) (t :: ts) vs b := by
  intro past
  obtain ⟨past', h⟩ := h past
  obtain ⟨past'', h'⟩ := h' past'
  refine ⟨past'', ?_⟩
  have hc : (Cursor.current ⟨past, t :: ts⟩).kind = .mark .plus ∨
      (Cursor.current ⟨past, t :: ts⟩).kind = .mark .minus := hk
  rw [signedTerms_eq, if_pos hc, h]
  exact h'

/-- Where no sign comes next the terms are at an end. -/
theorem takes_signedTerms_nil {a : Address} {t : Token} {ts : List Token}
    (hk : ¬(t.kind = .mark .plus ∨ t.kind = .mark .minus)) :
    Takes (signedTerms a) (t :: ts) (t :: ts) a := by
  intro past
  refine ⟨past, ?_⟩
  have hc : ¬((Cursor.current ⟨past, t :: ts⟩).kind = .mark .plus ∨
      (Cursor.current ⟨past, t :: ts⟩).kind = .mark .minus) := hk
  rw [signedTerms_eq, if_neg hc]

/-- The words of an index give an address the index and the scale. -/
theorem takes_index {a b : Address} {index : Option String} {scale : Int} (ha : a.index = none)
    (hs : a.scale = 1) (hi : index = none → scale = 1)
    (hscale : Numeral.minSigned ≤ scale ∧ scale ≤ Numeral.maxSigned) {ts us : List Token}
    (hts : ∃ t vs, ts = t :: vs ∧ t.kind ≠ .mark .star)
    (h : Takes (signedTerms { a with index, scale }) ts us b) :
    Takes (signedTerms a) (tokensOf (indexWords index scale) ++ ts) us b := by
  obtain ⟨t, ts, rfl, ht⟩ := hts
  obtain ⟨base, _, _, displacement, segment⟩ := a
  subst ha hs
  cases index with
  | none =>
    obtain rfl := hi rfl
    exact h
  | some i =>
    refine takes_signedTerms (.inl rfl) ?_ h
    refine takes_bind (takes_expect (by simp [Mark.word])) (takes_bind takes_current ?_)
    refine takes_bind takes_advance ?_
    by_cases h1 : scale = 1
    · subst h1
      refine takes_bind takes_current ?_
      rw [if_neg ht]
      exact takes_pure
    · rw [if_neg h1]
      have hv : (literalWord scale false).value = .ok scale :=
        value_literalWord hscale.1 hscale.2 false
      refine takes_bind takes_current (takes_bind takes_advance ?_)
      exact takes_bind (takes_number (isNumeric_literalWord scale false) hv) takes_pure

/-- Behind a plus a number is the displacement. -/
theorem takes_plus_number {a : Address} {w : Word} {d : Int} (hn : w.kind.isNumeric)
    (hv : w.value = .ok d) (ts : List Token) :
    Takes (signedTerm a) (⟨Mark.plus.word, {}⟩ :: ⟨w, {}⟩ :: ts) ts
      { a with displacement := some d } := by
  refine takes_bind (takes_expect (by simp [Mark.word])) (takes_bind takes_current ?_)
  rw [if_neg (ne_register_of_isNumeric hn), if_pos hn]
  exact takes_bind (takes_number hn hv) takes_pure

/-- Behind a minus the displacement is the number with its sign changed, as a word. -/
theorem takes_minus_number {a : Address} {w : Word} {v d : Int} (hn : w.kind.isNumeric)
    (hv : w.value = .ok v) (hd : Numeral.signedWord (-v) = d) (ts : List Token) :
    Takes (signedTerm a) (⟨Mark.minus.word, {}⟩ :: ⟨w, {}⟩ :: ts) ts
      { a with displacement := some d } := by
  refine takes_bind (takes_expect (by simp [Mark.word])) (takes_bind takes_current ?_)
  rw [if_neg (ne_register_of_isNumeric hn), if_pos hn]
  refine takes_bind (takes_number hn hv) ?_
  rw [if_neg (by simp [Mark.word]), hd]
  exact takes_pure

/-- The words of a signed number give an address the displacement. -/
theorem takes_signed {a b : Address} {d : Int} (hd : Numeral.minSigned ≤ d ∧ d ≤ Numeral.maxSigned)
    {ts us : List Token} (h : Takes (signedTerms { a with displacement := some d }) ts us b) :
    Takes (signedTerms a) (tokensOf (signedWords d) ++ ts) us b := by
  unfold signedWords
  split
  · next h0 =>
    have hv := Word.value_decimal h0 hd.2
    exact takes_signedTerms (.inl rfl) (takes_plus_number rfl hv ts) h
  split
  · next h0 h1 =>
    -- the magnitude of the least word is no signed word, and negation leaves that word as it is
    have hmin : d = Numeral.minSigned := by
      unfold Numeral.minSigned Numeral.maxSigned at *
      omega
    subst hmin
    have hlt : Numeral.minSigned.natAbs < Numeral.wordCount := by decide
    have hv := Word.value_hexadecimal hlt
    exact takes_signedTerms (.inr rfl) (takes_minus_number rfl hv (by decide) ts) h
  · next h0 h1 =>
    have hv := Word.value_decimal (v := -d) (by omega) (by omega)
    have hneg : Numeral.signedWord (- -d) = d := by
      rw [Int.neg_neg]
      exact Word.signedWord_eq_self hd.1 hd.2
    exact takes_signedTerms (.inr rfl) (takes_minus_number rfl hv hneg ts) h

/-- A signed number starts with its sign. -/
theorem signedWords_cons (d : Int) :
    ∃ w ws, signedWords d = w :: ws ∧ (w.kind = .mark .plus ∨ w.kind = .mark .minus) := by
  unfold signedWords
  split
  · exact ⟨_, _, rfl, .inl rfl⟩
  split
  · exact ⟨_, _, rfl, .inr rfl⟩
  · exact ⟨_, _, rfl, .inr rfl⟩

/-- A register in front is the base. -/
theorem takes_firstTerm_register (a : Address) (base : String) (ts : List Token) :
    Takes (firstTerm a) (⟨⟨.register, base⟩, {}⟩ :: ts) ts { a with base := some base } :=
  takes_bind takes_current (takes_bind takes_advance takes_pure)

/-- A number in front is the displacement. -/
theorem takes_firstTerm_number {a : Address} {d : Int} (h : 0 ≤ d) (h' : d ≤ Numeral.maxSigned)
    (ts : List Token) :
    Takes (firstTerm a) (⟨⟨.number, Numeral.decimal d⟩, {}⟩ :: ts) ts
      { a with displacement := some d } :=
  takes_bind takes_current (takes_bind (takes_number rfl (Word.value_decimal h h')) takes_pure)

/-- A sign in front is left to the terms that have one. -/
theorem takes_firstTerm_sign (a : Address) {t : Token}
    (hk : t.kind = .mark .plus ∨ t.kind = .mark .minus) (ts : List Token) :
    Takes (firstTerm a) (t :: ts) (t :: ts) a := by
  refine takes_bind takes_current ?_
  have hr : ¬t.kind = .register := by rcases hk with hk | hk <;> simp [hk]
  have hn : ¬t.kind.isNumeric = true := by
    rcases hk with hk | hk <;> simp [hk, TokenKind.isNumeric]
  rw [if_neg hr, if_neg hn, if_pos hk]
  exact takes_pure

section
variable {a : Address} (ha : a.WellFormed) (rest : List Token)
include ha

/-- The words of the terms of an address give it back, behind its segment. -/
theorem takes_terms :
    ∃ a' us, Takes (firstTerm { segment := a.segment })
        (tokensOf a.termWords ++ ⟨Mark.rightBracket.word, {}⟩ :: rest) us a' ∧
      Takes (signedTerms a') us (⟨Mark.rightBracket.word, {}⟩ :: rest) a := by
  obtain ⟨base, index, scale, displacement, segment⟩ := a
  have hend : ∀ a, Takes (signedTerms a) (⟨Mark.rightBracket.word, {}⟩ :: rest)
      (⟨Mark.rightBracket.word, {}⟩ :: rest) a :=
    fun a => takes_signedTerms_nil (by simp [Mark.word])
  have hbracket : ∃ t vs, (⟨Mark.rightBracket.word, {}⟩ : Token) :: rest = t :: vs ∧
      t.kind ≠ .mark .star := ⟨_, _, rfl, by simp [Mark.word]⟩
  have hone : index = none → scale = 1 := ha.scale_eq_one
  have hscale : Numeral.minSigned ≤ scale ∧ scale ≤ Numeral.maxSigned := ha.scale
  cases base with
  | some b =>
    -- base, index, displacement
    have hfirst := takes_firstTerm_register { segment } b
    cases displacement with
    | some d =>
      have hd := ha.displacement d rfl
      refine ⟨{ base := some b, segment }, tokensOf (indexWords index scale) ++
        (tokensOf (signedWords d) ++ ⟨Mark.rightBracket.word, {}⟩ :: rest), ?_,
        takes_index rfl rfl hone hscale ?_ (takes_signed hd (hend _))⟩
      · simpa [Address.termWords] using hfirst _
      · obtain ⟨w, ws, hw, hk⟩ := signedWords_cons d
        rw [hw]
        exact ⟨_, _, rfl, by rcases hk with hk | hk <;> simp [hk]⟩
    | none => exact ⟨_, _, hfirst _, takes_index rfl rfl hone hscale hbracket (hend _)⟩
  | none =>
    cases displacement with
    | some d =>
      have hd := ha.displacement d rfl
      -- without a base the displacement stands in front of the index, with a sign if negative
      by_cases h0 : 0 ≤ d
      · refine ⟨{ segment, displacement := some d }, tokensOf (indexWords index scale) ++
          ⟨Mark.rightBracket.word, {}⟩ :: rest, ?_,
          takes_index rfl rfl hone hscale hbracket (hend _)⟩
        have hfirst := takes_firstTerm_number (a := { segment }) h0 hd.2
          (tokensOf (indexWords index scale) ++ ⟨Mark.rightBracket.word, {}⟩ :: rest)
        simpa [Address.termWords, h0] using hfirst
      · obtain ⟨w, ws, hw, hk⟩ := signedWords_cons d
        refine ⟨{ segment }, tokensOf (signedWords d) ++ (tokensOf (indexWords index scale) ++
          ⟨Mark.rightBracket.word, {}⟩ :: rest), ?_,
          takes_signed hd (takes_index rfl rfl hone hscale hbracket (hend _))⟩
        simpa [Address.termWords, h0, hw] using takes_firstTerm_sign { segment } hk _
    | none =>
      cases index with
      | none =>
        have hterm := ha.hasTerm
        simp [Address.HasTerm] at hterm
      | some i =>
        exact ⟨_, _, takes_firstTerm_sign _ (.inl rfl) _,
          takes_index rfl rfl hone hscale hbracket (hend _)⟩

omit ha in
/-- No colon is written within the terms, so none of them is read as a segment. -/
theorem kind_ne_colon : ∀ w ∈ a.termWords, w.kind ≠ .mark .colon := by
  have hindex : ∀ w ∈ indexWords a.index a.scale, w.kind ≠ .mark .colon := by
    have hl : (literalWord a.scale false).kind ≠ .mark .colon := by
      intro h
      have hn := isNumeric_literalWord a.scale false
      rw [h] at hn
      cases hn
    unfold indexWords
    split
    · split <;> simp [Mark.word, hl]
    · simp
  have hsigned : ∀ d, ∀ w ∈ signedWords d, w.kind ≠ .mark .colon := by
    intro d
    unfold signedWords
    split
    · simp [Mark.word]
    split <;> simp [Mark.word]
  unfold Address.termWords
  split
  · simpa [List.forall_mem_append, or_imp, forall_and] using ⟨hindex, hsigned _⟩
  · simpa [or_imp, forall_and] using hindex
  · next d _ _ =>
    have hfirst : ∀ w ∈ (if 0 ≤ d then [⟨.number, Numeral.decimal d⟩] else signedWords d),
        Word.kind w ≠ .mark .colon := by
      split
      · simp
      · exact hsigned d
    exact List.forall_mem_append.2 ⟨hfirst, hindex⟩
  · exact hindex

/-- Even an address that says nothing is written with one term. -/
theorem termWords_ne_nil : a.termWords ≠ [] := by
  have hterm := ha.hasTerm
  unfold Address.HasTerm at hterm
  unfold Address.termWords
  split
  · simp
  · simp
  · next d _ _ =>
    obtain ⟨w, ws, hw, -⟩ := signedWords_cons d
    split
    · simp
    · simp [hw]
  · next hb hd =>
    cases hi : a.index with
    | none => simp [hb, hd, hi] at hterm
    | some i => simp [indexWords]

/-- Between brackets no segment is found. -/
theorem takes_innerSegment (segment : Option String) :
    Takes (innerSegment segment) (tokensOf a.termWords ++ ⟨Mark.rightBracket.word, {}⟩ :: rest)
      (tokensOf a.termWords ++ ⟨Mark.rightBracket.word, {}⟩ :: rest) segment := by
  -- a segment would be followed by a colon, and the second token is none
  obtain ⟨t, u, ts, hts, hu⟩ : ∃ t u ts, tokensOf a.termWords ++
      ⟨Mark.rightBracket.word, {}⟩ :: rest = t :: u :: ts ∧ u.kind ≠ .mark .colon := by
    obtain ⟨w, ws, hw⟩ := List.exists_cons_of_ne_nil (termWords_ne_nil ha)
    cases ws with
    | nil =>
      exact ⟨⟨w, {}⟩, ⟨Mark.rightBracket.word, {}⟩, rest, by rw [hw]; rfl, by simp [Mark.word]⟩
    | cons w' ws =>
      have hmem : w' ∈ a.termWords := by simp [hw]
      exact ⟨⟨w, {}⟩, ⟨w', {}⟩, _, by rw [hw]; rfl, kind_ne_colon w' hmem⟩
  rw [hts]
  refine takes_bind takes_current (takes_bind (takes_peek rfl) ?_)
  rw [if_neg fun h => hu h.2.2]
  exact takes_pure

/-- The words between the brackets are read as the address. -/
theorem takes_address :
    Takes (address a.segment) (⟨Mark.leftBracket.word, {}⟩ ::
      (tokensOf a.termWords ++ ⟨Mark.rightBracket.word, {}⟩ :: rest)) rest a := by
  obtain ⟨a', us, hfirst, hsigned⟩ := takes_terms ha rest
  refine takes_bind (takes_expect (by simp [Mark.word])) ?_
  refine takes_bind (takes_innerSegment ha rest a.segment) (takes_bind hfirst ?_)
  exact takes_bind hsigned (takes_bind (takes_expect (by simp [Mark.word])) takes_pure)

end

/-! ### Operands -/

/-- A size is read from its specifier, and none where there is none. -/
theorem takes_size {size : Option Int} (h : ∀ n, size = some n → ∃ w : Width, n = w.bits)
    {t : Token} {ts : List Token} (ht : ∀ w, t.kind ≠ .size w) :
    Takes sizeSpecifier (tokensOf (sizeWords size) ++ t :: ts) (t :: ts) size := by
  cases size with
  | none =>
    refine takes_bind takes_current ?_
    split
    · next w hw => exact absurd hw (ht w)
    · exact takes_pure
  | some n =>
    obtain ⟨w, rfl⟩ := h n rfl
    have hw : tokensOf (sizeWords (some w.bits)) ++ t :: ts = ⟨w.specifier, {}⟩ :: t :: ts := by
      simp [sizeWords]
    rw [hw]
    exact takes_bind takes_current (takes_bind takes_advance takes_pure)

/-- An expression that is no single literal or symbol stays an expression. -/
theorem ofExpr_unplaced {e : Expr} (hl : ∀ v h pos, e ≠ .literal v h pos)
    (hs : ∀ name pos, e ≠ .symbol name pos) :
    OperandForm.ofExpr (unplaced.expr e) = .expression (unplaced.expr e) := by
  cases e with
  | literal v h pos => exact absurd rfl (hl v h pos)
  | symbol name pos => exact absurd rfl (hs name pos)
  | _ => rfl

/-- The part of an operand behind its size. -/
def operandForm (pos : Pos) (size : Option Int) : Parse Operand := do
  let t ← current
  if t.kind = .mark .leftBracket then memoryOperand pos size none
  else if t.kind = .register then registerOperand pos size t
  else if t.kind = .string then do
    let _ ← advance
    return { form := .string t.text, size, pos }
  else do
    let e ← expression
    return { form := .ofExpr e, size, pos }

/-- An operand is its size and then its form, at the place where both begin. -/
theorem operand_eq : operand = (do
    let start ← current
    let size ← sizeSpecifier
    operandForm start.pos size) := rfl

theorem operand_of_size {c : Cursor} {w : Width} (h : c.current.kind = .size w) :
    operand c = operandForm c.current.pos (some w.bits) c.advance := by
  simp only [operand_eq, Bind.bind, EStateM.bind, current, sizeSpecifier, h]
  rfl

theorem operand_of_no_size {c : Cursor} (h : ∀ w, c.current.kind ≠ .size w) :
    operand c = operandForm c.current.pos none c := by
  have hsize : sizeSpecifier c = .ok none c := by
    simp only [Bind.bind, EStateM.bind, current, sizeSpecifier]
    rfl
  simp only [operand_eq, Bind.bind, EStateM.bind, current, hsize]

section
variable {rest : List Token} (hr : EndsOperand rest) (size : Option Int)
include hr

/-- An operand that starts like an expression is one. -/
theorem takes_operandForm_expr {e : Expr} (he : e.WellFormed IsName) :
    Takes (operandForm {} size) (tokensOf e.words ++ rest) rest
      ⟨.ofExpr (unplaced.expr e), size, {}⟩ := by
  obtain ⟨w, ws, hw, hs⟩ := startsExpr_words he
  obtain ⟨hbracket, hregister, hstring, -⟩ := Word.kind_of_startsExpr hs
  have htakes := takes_expression he hr
  rw [hw] at htakes ⊢
  refine takes_bind takes_current ?_
  -- its first word is none of those that start the other forms
  rw [if_neg hbracket, if_neg hregister, if_neg hstring]
  exact takes_bind htakes takes_pure

/-- A register is a segment only in front of a colon. -/
theorem takes_operandForm_register {r : Token} (hk : r.kind = .register) (pos : Pos) :
    Takes (operandForm pos size) (r :: rest) rest ⟨.register r.text, size, pos⟩ := by
  obtain ⟨t, ts, rfl, ht⟩ : ∃ t ts, rest = t :: ts ∧ t.kind ≠ .mark .colon := by
    cases hr with
    | comma t ts h => exact ⟨t, ts, rfl, by simp [h]⟩
    | lineEnd t ts h => exact ⟨t, ts, rfl, by rintro hk; simp [hk, TokenKind.endsLine] at h⟩
  refine takes_bind takes_current ?_
  rw [if_neg (by simp [hk]), if_pos hk]
  refine takes_bind (takes_peek rfl) (takes_peek_bind fun u => takes_bind takes_advance ?_)
  rw [if_neg fun h => ht h.1]
  exact takes_pure

omit hr in
/-- The words of an address are read as an operand in memory. -/
theorem takes_operandForm_memory {a : Address} (ha : a.WellFormed) :
    Takes (operandForm {} size) (tokensOf a.words ++ rest) rest ⟨.memory a, size, {}⟩ := by
  have haddress := takes_address ha rest
  have hw : tokensOf a.words ++ rest = tokensOf (segmentWords a.segment) ++
      ⟨Mark.leftBracket.word, {}⟩ :: (tokensOf a.termWords ++
        ⟨Mark.rightBracket.word, {}⟩ :: rest) := by simp [Address.words]
  rw [hw]
  cases hs : a.segment with
  | none =>
    rw [hs] at haddress
    exact takes_bind takes_current (takes_bind haddress takes_pure)
  | some s =>
    rw [hs] at haddress
    refine takes_bind takes_current ?_
    refine takes_bind (takes_peek rfl) (takes_bind (takes_peek rfl) (takes_bind takes_advance ?_))
    rw [if_pos ⟨rfl, rfl⟩]
    exact takes_bind takes_advance (takes_bind haddress takes_pure)

/-- The words of each form are read as that form. -/
theorem takes_operandForm {form : OperandForm} (h : form.WellFormed IsName) :
    Takes (operandForm {} size) (tokensOf form.words ++ rest) rest
      ⟨unplaced.form form, size, {}⟩ := by
  cases form with
  | register name => exact takes_operandForm_register hr size (r := ⟨⟨.register, name⟩, {}⟩) rfl {}
  | immediate v isHex =>
    exact takes_operandForm_expr hr size (e := .literal v isHex {}) h
  | memory a =>
    have hu : unplaced.form (.memory a) = .memory a := by simp [Respelling.form]
    rw [hu]
    exact takes_operandForm_memory size h
  | labelRef name => exact takes_operandForm_expr hr size (e := .symbol name {}) h
  | string text => exact takes_bind takes_current (takes_bind takes_advance takes_pure)
  | expression e =>
    have htakes := takes_operandForm_expr hr size h.1
    rwa [ofExpr_unplaced h.2.1 h.2.2] at htakes

/-- The words of an operand are read as the operand. -/
theorem takes_operand {o : Operand} (ho : o.WellFormed IsName) :
    Takes operand (tokensOf o.words ++ rest) rest (unplaced.operand o) := by
  obtain ⟨form, size, pos⟩ := o
  have hform : form.WellFormed IsName := ho.form
  obtain ⟨w, ws, hw, hs⟩ := startsForm_words hform
  have htakes := takes_operandForm hr size hform
  have hsize : ∀ n, size = some n → ∃ w : Width, n = w.bits := ho.size
  rw [operand_eq]
  rw [hw] at htakes
  have hts : tokensOf (Operand.words ⟨form, size, pos⟩) ++ rest =
      tokensOf (sizeWords size) ++ ⟨w, {}⟩ :: (tokensOf ws ++ rest) := by
    simp [Operand.words, hw]
  rw [hts]
  have hkind : ∀ s, w.kind ≠ .size s := by
    simp only [Word.startsForm, Bool.or_eq_true, decide_eq_true_eq] at hs
    rcases hs with ((hs | hs) | hs) | hs
    · exact (Word.kind_of_startsExpr hs).2.2.2
    all_goals simp [hs]
  have hrest : Takes (sizeSpecifier >>= operandForm {}) (tokensOf (sizeWords size) ++
      ⟨w, {}⟩ :: (tokensOf ws ++ rest)) rest ⟨unplaced.form form, size, {}⟩ :=
    takes_bind (takes_size hsize hkind) htakes
  -- an operand has the place of its first token, whether of its size or behind it
  obtain ⟨t, us, ht, hpos⟩ : ∃ t us, tokensOf (sizeWords size) ++
      ⟨w, {}⟩ :: (tokensOf ws ++ rest) = t :: us ∧ t.pos = {} := by
    unfold sizeWords
    split <;> exact ⟨_, _, rfl, rfl⟩
  rw [ht] at hrest ⊢
  refine takes_bind takes_current ?_
  rw [hpos]
  exact hrest

end

theorem takes_nextOperand {o : Operand} (ho : o.WellFormed IsName) {rest : List Token}
    (hr : EndsOperand rest) :
    Takes nextOperand (⟨Mark.comma.word, {}⟩ :: (tokensOf o.words ++ rest)) rest
      (unplaced.operand o) :=
  takes_bind (takes_expect (by simp [Mark.word])) (takes_operand hr ho)

section
variable {os : List Operand} (hos : ∀ o ∈ os, o.WellFormed IsName) {t : Token} {ts : List Token}
  (ht : t.kind.endsLine)
include ht

/-- Behind an operand comes a comma or the end of the line. -/
theorem endsOperand_moreWords (os : List Operand) :
    EndsOperand (tokensOf (moreWords os) ++ t :: ts) := by
  cases os with
  | nil => exact .lineEnd t ts ht
  | cons o os => exact .comma _ _ rfl

include hos

/-- The operands behind the first are read back, by induction on their list. -/
theorem takes_moreOperands :
    Takes moreOperands (tokensOf (moreWords os) ++ t :: ts) (t :: ts)
      (os.map unplaced.operand) := by
  induction os with
  | nil =>
    intro past
    refine ⟨past, ?_⟩
    have hc : ¬(Cursor.current ⟨past, t :: ts⟩).kind = .mark .comma := by
      show ¬t.kind = .mark .comma
      intro hk
      simp [hk, TokenKind.endsLine] at ht
    show moreOperands ⟨past, t :: ts⟩ = _
    rw [moreOperands_eq, if_neg hc]
    rfl
  | cons o os ih =>
    obtain ⟨ho, hos⟩ := List.forall_mem_cons.1 hos
    have hts : tokensOf (moreWords (o :: os)) ++ t :: ts = ⟨Mark.comma.word, {}⟩ ::
        (tokensOf o.words ++ (tokensOf (moreWords os) ++ t :: ts)) := by simp [moreWords]
    intro past
    obtain ⟨past', h⟩ := takes_nextOperand ho (endsOperand_moreWords ht os) past
    obtain ⟨past'', h'⟩ := ih hos past'
    refine ⟨past'', ?_⟩
    have hc : (Cursor.current ⟨past, ⟨Mark.comma.word, {}⟩ ::
        (tokensOf o.words ++ (tokensOf (moreWords os) ++ t :: ts))⟩).kind = .mark .comma := rfl
    rw [hts, moreOperands_eq, if_pos hc, h]
    simp only [h']
    rfl

/-- All operands of an instruction are read back. -/
theorem takes_operands {o : Operand} (ho : o.WellFormed IsName) :
    Takes operands (tokensOf (o.words ++ moreWords os) ++ t :: ts) (t :: ts)
      ((o :: os).map unplaced.operand) := by
  rw [tokensOf_append, List.append_assoc]
  refine takes_bind (takes_operand (endsOperand_moreWords ht os) ho) ?_
  exact takes_bind (takes_moreOperands hos ht) takes_pure

end

end Parse

end IntelAsm

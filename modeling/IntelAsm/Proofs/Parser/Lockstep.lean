import IntelAsm.Proofs.Parser.Item

/-!
# Cursors in lockstep

What a parsing action makes of its tokens depends on those that it takes and on the first that it
does not. Two cursors are in lockstep if they see the same tokens up to a place where both see the
end of a line or of the list (`Lockstep`). An action does the same at both, or fails at both, and
leaves them in lockstep; this holds of every action of the grammar up to the end of the line
(`Lockstep.agree_item`), where the cursors may part. If they do not, they read the same items up to
the end of the list (`Lockstep.agree_items`).
-/

namespace IntelAsm

namespace TokenKind

/-- The end of a line or of the list. -/
def IsEnd (k : TokenKind) : Prop := k = .newline ∨ k = .eof

instance (k : TokenKind) : Decidable k.IsEnd := inferInstanceAs (Decidable (_ ∨ _))

theorem not_isEnd_of_isNumeric {k : TokenKind} (h : k.isNumeric) : ¬k.IsEnd := by
  rintro (rfl | rfl) <;> cases h

end TokenKind

namespace Cursor

/-- The cursor behind the newline, if it stands at one. -/
def pastNewline (c : Cursor) : Cursor := if c.current.kind = .newline then c.advance else c

/-- The list keeps its last token. -/
@[simp] theorem endMarker_advance (c : Cursor) : c.advance.endMarker = c.endMarker := by
  rcases c with ⟨past, _ | ⟨t, ts⟩⟩
  · rfl
  · have hlast : last? ⟨t :: past, ts⟩ = last? ⟨past, t :: ts⟩ := by
      simp only [last?, List.getLast?_cons, List.head?_cons, Option.some_or]
      cases ts.getLast? <;> rfl
    simp only [advance, endMarker, hlast]

/-- What is seen ahead is seen one place nearer from one token further on. -/
theorem peek_succ {c : Cursor} (h : c.current.kind ≠ .eof) (n : Nat) :
    c.peek (n + 1) = c.advance.peek n := by
  cases hc : c.ahead with
  | nil => exact absurd (kind_current_of_ahead_eq_nil hc) h
  | cons t ts =>
    have hget : c.advance.ahead[n]? = c.ahead[n + 1]? := by simp [advance, hc]
    simp only [peek, hget, endMarker_advance]

end Cursor

/-! ### The relation -/

section
variable (R S : Cursor → Cursor → Prop) (E : ParseError → ParseError → Prop)

/-- Two cursors at the same token, and in `R` behind it. -/
structure Cursor.Alike (c d : Cursor) : Prop where
  current : c.current = d.current
  not_eof : c.current.kind ≠ .eof
  advance : R c.advance d.advance

/-- Two cursors at ends, behind which they are in `S`; errors at the ends are in `E`. -/
structure Cursor.AtEnds (c d : Cursor) : Prop where
  left : c.current.kind.IsEnd
  right : d.current.kind.IsEnd
  behind : S c.pastNewline d.pastNewline
  error : ∀ fault : Word → ParseFault,
    E ⟨fault c.current.toWord, c.current.pos⟩ ⟨fault d.current.toWord, d.current.pos⟩

/-- Cursors in `R` see the same tokens up to ends of lines, behind which they are in `S`. -/
structure Lockstep : Prop where
  view : ∀ {c d}, R c d → c.Alike R d ∨ c.AtEnds S E d
  behind : ∀ {c d}, R c d → S c d
  error_refl : ∀ e, E e e

end

namespace Parse

section
variable {α β : Type} {R S T : Cursor → Cursor → Prop} {E : ParseError → ParseError → Prop}

/-- Two results are the same value at cursors in `S`, or errors in `E`. -/
def Agree (S : Cursor → Cursor → Prop) (E : ParseError → ParseError → Prop) :
    EStateM.Result ParseError Cursor α → EStateM.Result ParseError Cursor α → Prop
  | .ok a c, .ok b d => a = b ∧ S c d
  | .error e _, .error e' _ => E e e'
  | _, _ => False

/-- A success at the first cursor is one at the second, with the same value. -/
theorem Agree.of_ok {a : α} {c : Cursor} {r : EStateM.Result ParseError Cursor α}
    (h : Agree S E (.ok a c) r) : ∃ d, r = .ok a d ∧ S c d := by
  cases r with
  | ok b d =>
    obtain ⟨rfl, h⟩ := h
    exact ⟨d, rfl, h⟩
  | error e d => exact h.elim

/-- A failure at the first cursor is one at the second, with an error like it. -/
theorem Agree.of_error {e : ParseError} {c : Cursor} {r : EStateM.Result ParseError Cursor α}
    (h : Agree S E (.error e c) r) : ∃ e' d, r = .error e' d ∧ E e e' := by
  cases r with
  | ok b d => exact h.elim
  | error e' d => exact ⟨e', d, rfl, h⟩

theorem agree_pure {c d : Cursor} (a : α) (h : S c d) :
    Agree S E ((pure a : Parse α) c) ((pure a : Parse α) d) := ⟨rfl, h⟩

/-- Two actions in a row agree if the first does and the second does wherever it ends. -/
theorem agree_bind {p q : Parse α} {f g : α → Parse β} {c d : Cursor} (hp : Agree R E (p c) (q d))
    (hf : ∀ a c' d', R c' d' → Agree S E (f a c') (g a d')) :
    Agree S E ((p >>= f) c) ((q >>= g) d) := by
  show Agree S E (EStateM.bind p f c) (EStateM.bind q g d)
  unfold EStateM.bind
  cases hc : p c with
  | ok a c' =>
    rw [hc] at hp
    obtain ⟨d', hd, h'⟩ := hp.of_ok
    rw [hd]
    exact hf a c' d' h'
  | error e c' =>
    rw [hc] at hp
    obtain ⟨e', d', hd, he⟩ := hp.of_error
    rw [hd]
    exact he

/-- A choice that is made alike at both cursors agrees if its branches do. -/
theorem agree_ite {b b' : Prop} [Decidable b] [Decidable b'] {p p' q q' : Parse α} {c d : Cursor}
    (hb : b ↔ b') (hp : b → Agree S E (p c) (p' d)) (hq : ¬b → Agree S E (q c) (q' d)) :
    Agree S E ((if b then p else q) c) ((if b' then p' else q') d) := by
  by_cases h : b
  · rw [if_pos h, if_pos (hb.1 h)]
    exact hp h
  · rw [if_neg h, if_neg fun h' => h (hb.2 h')]
    exact hq h

/-- What an action does next may depend on the token at the cursor. -/
theorem agree_current {f g : Token → Parse α} {c d : Cursor}
    (h : Agree S E (f c.current c) (g d.current d)) :
    Agree S E ((current >>= f) c) ((current >>= g) d) := h

theorem agree_peek {f g : Token → Parse α} {c d : Cursor} (n : Nat)
    (h : Agree S E (f (c.peek n) c) (g (d.peek n) d)) :
    Agree S E ((peek n >>= f) c) ((peek n >>= g) d) := h

theorem agree_advance {f g : Token → Parse α} {c d : Cursor}
    (h : Agree S E (f c.current c.advance) (g d.current d.advance)) :
    Agree S E ((advance >>= f) c) ((advance >>= g) d) := h

end

end Parse

/-- The end of a line or of the list continues no draft. -/
theorem Draft.step_of_isEnd (draft : Draft) {t : Token} (ht : t.kind.IsEnd) :
    draft.step t = .stop := by
  rcases ht with ht | ht
  · unfold step
    cases draft.operand with
    | none => simp [stepOperand, Token.operand?, TokenKind.isNumeric, ht]
    | some e => simp [stepOperator, precedence?, ht]
  · exact draft.step_of_eof ht

/-! ### Basic actions -/

namespace Lockstep

open Parse

variable {R S T : Cursor → Cursor → Prop} {E : ParseError → ParseError → Prop}
  (hL : Lockstep R S E) {c d : Cursor} (h : R c d)
include hL h

/-- Cursors in lockstep see the same token, unless it ends a line. -/
theorem alike (hk : ¬c.current.kind.IsEnd) : c.Alike R d :=
  (hL.view h).resolve_right fun ha => hk ha.left

/-- So it is where the token is known and ends no line. -/
theorem alike_of_eq {k : TokenKind} (hk : c.current.kind = k) (hn : ¬k.IsEnd) :
    c.Alike R d :=
  hL.alike h (hk ▸ hn)

/-- A token of a kind that is no end stands at both cursors or at none. -/
theorem kind_iff {P : TokenKind → Prop} (hP : ∀ k, P k → ¬k.IsEnd) :
    P c.current.kind ↔ P d.current.kind := by
  rcases hL.view h with ha | ha
  · rw [ha.current]
  · exact iff_of_false (fun hc => hP _ hc ha.left) fun hd => hP _ hd ha.right

/-- A kind that ends no line is seen by both or by neither. -/
theorem eq_iff {k : TokenKind} (hn : ¬k.IsEnd) :
    c.current.kind = k ↔ d.current.kind = k :=
  hL.kind_iff h (P := (· = k)) fun _ hk => hk ▸ hn

theorem isNumeric_iff : c.current.kind.isNumeric ↔ d.current.kind.isNumeric :=
  hL.kind_iff h (P := (·.isNumeric)) fun _ => TokenKind.not_isEnd_of_isNumeric

/-- Both see a sign, or neither does. -/
theorem isSign_iff : c.current.kind = .mark .plus ∨ c.current.kind = .mark .minus ↔
    d.current.kind = .mark .plus ∨ d.current.kind = .mark .minus :=
  or_congr (hL.eq_iff h (by decide)) (hL.eq_iff h (by decide))

/-- What is asked of the tokens behind one that is no end has the same answer too. -/
theorem and_iff {k : TokenKind} {Q Q' : Prop} (hQ : c.Alike R d → (Q ↔ Q'))
    (hn : ¬k.IsEnd) : c.current.kind = k ∧ Q ↔ d.current.kind = k ∧ Q' := by
  rw [← hL.eq_iff h hn]
  exact and_congr_right fun hk => hQ (hL.alike_of_eq h hk hn)

/-- The token that is seen may be blamed for any fault. -/
theorem error (fault : Word → ParseFault) :
    E ⟨fault c.current.toWord, c.current.pos⟩ ⟨fault d.current.toWord, d.current.pos⟩ := by
  rcases hL.view h with ha | ha
  · rw [ha.current]
    exact hL.error_refl _
  · exact ha.error fault

/-- A failure at the token that is seen. -/
theorem agree_fail {α : Type} (fault : Word → ParseFault) :
    Agree T E ((fail (fault c.current.toWord) c.current : Parse α) c)
      (fail (fault d.current.toWord) d.current d) :=
  hL.error h fault

/-- Tokens that end no line are expected alike. -/
theorem agree_expect (what : Expected) {kinds : List TokenKind}
    (hn : ∀ k ∈ kinds, ¬k.IsEnd) :
    Agree R E (expect what kinds c) (expect what kinds d) := by
  have hiff : c.current.kind ∈ kinds ↔ d.current.kind ∈ kinds :=
    hL.kind_iff h (P := (· ∈ kinds)) hn
  unfold expect
  by_cases hk : c.current.kind ∈ kinds
  · have ha : c.Alike R d := hL.alike h (hn _ hk)
    rw [if_pos (by simpa using hk), if_pos (by simpa using hiff.1 hk)]
    exact ⟨ha.current, ha.advance⟩
  · rw [if_neg (by simpa using hk), if_neg (by simpa using mt hiff.2 hk)]
    exact hL.error h _

/-! ### Addresses -/

/-- Numerals end no line. -/
theorem agree_number (what : Expected) : Agree R E (number what c) (number what d) := by
  apply agree_current
  refine agree_ite (hL.isNumeric_iff h) (fun hk => ?_) fun _ => hL.agree_fail h (.expected what)
  have ha : c.Alike R d := hL.alike h (TokenKind.not_isEnd_of_isNumeric hk)
  rw [← ha.current]
  unfold takeValue
  cases c.current.value with
  | ok n => exact ⟨rfl, ha.advance⟩
  | error f =>
    rw [← ha.current]
    exact hL.error_refl _

theorem agree_scale (a : Address) : Agree R E (scale a c) (scale a d) := by
  apply agree_current
  refine agree_ite (hL.eq_iff h (by decide)) (fun hk => ?_) fun _ => agree_pure _ h
  apply agree_advance
  have ha : c.Alike R d := hL.alike_of_eq h hk (by decide)
  exact agree_bind (hL.agree_number ha.advance _) fun n c' d' h' => agree_pure _ h'

theorem agree_signedTerm (a : Address) : Agree R E (signedTerm a c) (signedTerm a d) := by
  apply agree_bind (hL.agree_expect h _ (by decide))
  intro sign c d h
  apply agree_current
  refine agree_ite (hL.eq_iff h (by decide)) (fun hk => ?_) fun _ =>
    agree_ite (hL.isNumeric_iff h) (fun _ => ?_) fun _ =>
      hL.agree_fail h (.expected (.signedTerm sign.text))
  · -- an index, unless there is one already
    refine agree_ite .rfl (fun _ => hL.agree_fail h fun _ => .secondIndex) fun _ => ?_
    have ha : c.Alike R d := hL.alike_of_eq h hk (by decide)
    apply agree_advance
    rw [← ha.current]
    exact hL.agree_scale ha.advance _
  · -- a displacement
    exact agree_bind (hL.agree_number h _) fun n c' d' h' => agree_pure _ h'

theorem agree_firstTerm (a : Address) : Agree R E (firstTerm a c) (firstTerm a d) := by
  apply agree_current
  refine agree_ite (hL.eq_iff h (by decide)) (fun hk => ?_) fun _ =>
    agree_ite (hL.isNumeric_iff h) (fun _ => ?_) fun _ =>
      agree_ite (hL.isSign_iff h) (fun _ => agree_pure _ h) fun _ =>
        hL.agree_fail h (.expected .addressTerm)
  · have ha : c.Alike R d := hL.alike_of_eq h hk (by decide)
    apply agree_advance
    rw [← ha.current]
    exact agree_pure _ ha.advance
  · exact agree_bind (hL.agree_number h _) fun n c' d' h' => agree_pure _ h'

omit h in
/-- Behind a token that both see, a kind that ends no line is again seen by both or by neither. -/
theorem peek_iff (ha : c.Alike R d) {k : TokenKind} (hn : ¬k.IsEnd) :
    (c.peek 1).kind = k ↔ (d.peek 1).kind = k := by
  rw [Cursor.peek_succ ha.not_eof, Cursor.peek_succ (ha.current ▸ ha.not_eof)]
  exact hL.eq_iff ha.advance hn

/-- Two tokens in a row are seen by both, or by neither. -/
theorem pair_iff {k k' : TokenKind} (hn : ¬k.IsEnd) (hn' : ¬k'.IsEnd) :
    c.current.kind = k ∧ (c.peek 1).kind = k' ↔ d.current.kind = k ∧ (d.peek 1).kind = k' :=
  hL.and_iff h (hL.peek_iff · hn') hn

omit h in
/-- Where both see two tokens in a row, they are alike behind the first. -/
theorem alike_of_peek (ha : c.Alike R d) {k : TokenKind} (hk : (c.peek 1).kind = k)
    (hn : ¬k.IsEnd) : c.advance.Alike R d.advance := by
  rw [Cursor.peek_succ ha.not_eof] at hk
  exact hL.alike_of_eq ha.advance hk hn

theorem agree_innerSegment (segment : Option String) :
    Agree R E (innerSegment segment c) (innerSegment segment d) := by
  apply agree_current
  apply agree_peek 1
  refine agree_ite (and_congr_right fun _ => hL.pair_iff h (by decide) (by decide))
    (fun hk => ?_) fun _ => agree_pure _ h
  have ha : c.Alike R d := hL.alike_of_eq h hk.2.1 (by decide)
  apply agree_advance
  apply agree_advance
  rw [← ha.current]
  exact agree_pure _ (hL.alike_of_peek ha hk.2.2 (by decide)).advance

/-- By induction on the tokens ahead of the first cursor. -/
theorem agree_signedTerms (a : Address) : Agree R E (signedTerms a c) (signedTerms a d) := by
  -- by induction on the run at the first cursor; the second makes the same rounds
  fun_induction signedTerms a c generalizing d with
  | case1 a c hs a' c' hr ih =>
    obtain ⟨d', hd, h'⟩ := Agree.of_ok (hr ▸ hL.agree_signedTerm h a)
    rw [signedTerms_eq a d, if_pos ((hL.isSign_iff h).1 hs), hd]
    exact ih h'
  | case2 a c hs e c' hr =>
    obtain ⟨e', d', hd, he⟩ := Agree.of_error (hr ▸ hL.agree_signedTerm h a)
    rw [signedTerms_eq a d, if_pos ((hL.isSign_iff h).1 hs), hd]
    exact he
  | case3 a c hs =>
    rw [signedTerms_eq a d, if_neg (mt (hL.isSign_iff h).2 hs)]
    exact ⟨rfl, h⟩

/-- An address ends at its bracket, or fails no later than at the end of its line. -/
theorem agree_address (segment : Option String) :
    Agree R E (address segment c) (address segment d) := by
  apply agree_bind (hL.agree_expect h _ (by decide))
  intro _ c d h
  apply agree_bind (hL.agree_innerSegment h segment)
  intro s c d h
  apply agree_bind (hL.agree_firstTerm h _)
  intro a c d h
  apply agree_bind (hL.agree_signedTerms h a)
  intro a c d h
  exact agree_bind (hL.agree_expect h _ (by decide)) fun _ c' d' h' => agree_pure _ h'

/-! ### Expressions -/

/-- What a draft comes to in the end is told by the token that stopped it. -/
theorem agree_finish (draft : Draft) : Agree R E (draft.finish c) (draft.finish d) := by
  unfold Draft.finish
  cases draft.operand with
  | none => exact hL.agree_fail h .noOperand
  | some e =>
    cases draft.outer with
    | nil => exact ⟨rfl, h⟩
    | cons g gs => exact hL.agree_fail h (.expected .closingParen)

/-- A draft goes on alike at both cursors, by induction on the tokens ahead. -/
theorem agree_resumeAt (draft : Draft) : Agree R E (draft.resumeAt c) (draft.resumeAt d) := by
  -- by induction on the tokens ahead of the first cursor
  generalize hn : c.ahead.length = n
  induction n using Nat.strongRecOn generalizing c d draft with
  | _ n ih =>
    rw [Draft.resumeAt_eq draft c, Draft.resumeAt_eq draft d]
    rcases hL.view h with ha | ha
    · rw [← ha.current]
      cases draft.step c.current with
      | next draft' =>
        have hlt : c.advance.ahead.length < n := hn ▸ Cursor.length_ahead_advance ha.not_eof
        exact ih _ hlt ha.advance draft' rfl
      | stop => exact hL.agree_finish h draft
      | fault f => exact hL.error_refl _
    · rw [draft.step_of_isEnd ha.left, draft.step_of_isEnd ha.right]
      exact hL.agree_finish h draft

theorem agree_expression : Agree R E (expression c) (expression d) := hL.agree_resumeAt h {}

/-! ### Operands -/

omit hL h in
/-- No size begins at the end of a line. -/
theorem sizeSpecifier_of_isEnd (hc : c.current.kind.IsEnd) : sizeSpecifier c = .ok none c := by
  rcases hc with hk | hk
  all_goals
    simp only [sizeSpecifier, current, Bind.bind, EStateM.bind, hk]
    rfl

theorem agree_sizeSpecifier : Agree R E (sizeSpecifier c) (sizeSpecifier d) := by
  rcases hL.view h with ha | ha
  · apply agree_current
    rw [← ha.current]
    cases c.current.kind with
    | size w => exact agree_advance (agree_pure _ ha.advance)
    | _ => exact agree_pure none h
  · rw [sizeSpecifier_of_isEnd ha.left, sizeSpecifier_of_isEnd ha.right]
    exact ⟨rfl, h⟩

theorem agree_memoryOperand (pos : Pos) (size : Option Int) (segment : Option String) :
    Agree R E (memoryOperand pos size segment c) (memoryOperand pos size segment d) :=
  agree_bind (hL.agree_address h segment) fun _ _ _ h' => agree_pure _ h'

omit h in
/-- The colon behind a segment register is seen by both cursors. -/
theorem agree_registerOperand (ha : c.Alike R d) (pos : Pos) (size : Option Int) (t : Token) :
    Agree R E (registerOperand pos size t c) (registerOperand pos size t d) := by
  have hc := Cursor.peek_succ ha.not_eof
  have hd := Cursor.peek_succ (ha.current ▸ ha.not_eof)
  apply agree_peek 1
  apply agree_peek 2
  apply agree_advance
  rw [hc, hc, hd, hd]
  refine agree_ite (hL.pair_iff ha.advance (by decide) (by decide)) (fun hk => ?_)
    fun _ => agree_pure _ ha.advance
  have ha' : c.advance.Alike R d.advance := hL.alike_of_eq ha.advance hk.1 (by decide)
  exact agree_advance (hL.agree_memoryOperand ha'.advance _ _ _)

omit hL h in
/-- Where a line ends there is no operand. -/
theorem operand_of_isEnd (hc : c.current.kind.IsEnd) :
    operand c = .error ⟨.noOperand c.current.toWord, c.current.pos⟩ c := by
  have hexpression : expression c = .error ⟨.noOperand c.current.toWord, c.current.pos⟩ c := by
    show Draft.resumeAt {} c = _
    rw [Draft.resumeAt_of_stop (Draft.step_of_isEnd _ hc)]
    rfl
  have hne {k : TokenKind} (hk : ¬k.IsEnd) : c.current.kind ≠ k := fun he => hk (he ▸ hc)
  simp only [operand, current, Bind.bind, EStateM.bind, sizeSpecifier_of_isEnd hc,
    if_neg (hne (k := .mark .leftBracket) (by decide)), if_neg (hne (k := .register) (by decide)),
    if_neg (hne (k := .string) (by decide)), hexpression]

/-- Operands are read alike, in each of their forms. -/
theorem agree_operand : Agree R E (operand c) (operand d) := by
  rcases hL.view h with ha | ha
  · apply agree_current
    rw [← ha.current]
    apply agree_bind (hL.agree_sizeSpecifier h)
    intro size c' d' h
    apply agree_current
    refine agree_ite (hL.eq_iff h (by decide)) (fun _ => hL.agree_memoryOperand h _ _ _) fun _ =>
      agree_ite (hL.eq_iff h (by decide)) (fun hk => ?_) fun _ =>
        agree_ite (hL.eq_iff h (by decide)) (fun hk => ?_) fun _ => ?_
    · have ha : c'.Alike R d' := hL.alike_of_eq h hk (by decide)
      rw [← ha.current]
      exact hL.agree_registerOperand ha _ _ _
    · have ha : c'.Alike R d' := hL.alike_of_eq h hk (by decide)
      apply agree_advance
      rw [← ha.current]
      exact agree_pure _ ha.advance
    · exact agree_bind (hL.agree_expression h) fun e _ _ h' => agree_pure _ h'
  · rw [operand_of_isEnd ha.left, operand_of_isEnd ha.right]
    exact hL.error h .noOperand

theorem agree_nextOperand : Agree R E (nextOperand c) (nextOperand d) :=
  agree_bind (hL.agree_expect h _ (by decide)) fun _ _ _ h' => hL.agree_operand h'

/-- By induction on the tokens ahead, operand by operand. -/
theorem agree_moreOperands : Agree R E (moreOperands c) (moreOperands d) := by
  fun_induction moreOperands c generalizing d with
  | case1 c hk o c' hr os c'' hm ih =>
    obtain ⟨d', hd, h'⟩ := Agree.of_ok (hr ▸ hL.agree_nextOperand h)
    obtain ⟨d'', hd', h''⟩ := Agree.of_ok (hm ▸ ih h')
    rw [moreOperands_eq d, if_pos ((hL.eq_iff h (by decide)).1 hk), hd]
    simp only [hd']
    exact ⟨rfl, h''⟩
  | case2 c hk o c' hr e c'' hm ih =>
    obtain ⟨d', hd, h'⟩ := Agree.of_ok (hr ▸ hL.agree_nextOperand h)
    obtain ⟨e', d'', hd', he⟩ := Agree.of_error (hm ▸ ih h')
    rw [moreOperands_eq d, if_pos ((hL.eq_iff h (by decide)).1 hk), hd]
    simp only [hd']
    exact he
  | case3 c hk e c' hr =>
    obtain ⟨e', d', hd, he⟩ := Agree.of_error (hr ▸ hL.agree_nextOperand h)
    rw [moreOperands_eq d, if_pos ((hL.eq_iff h (by decide)).1 hk), hd]
    exact he
  | case4 c hk =>
    rw [moreOperands_eq d, if_neg (mt (hL.eq_iff h (by decide)).2 hk)]
    exact ⟨rfl, h⟩

theorem agree_operands : Agree R E (operands c) (operands d) := by
  apply agree_bind (hL.agree_operand h)
  intro o c d h
  exact agree_bind (hL.agree_moreOperands h) fun os _ _ h' => agree_pure _ h'

/-! ### Statements -/

theorem agree_comment : Agree R E (comment c) (comment d) := by
  apply agree_current
  refine agree_ite (hL.eq_iff h (by decide)) (fun hk => ?_) fun _ => agree_pure _ h
  have ha : c.Alike R d := hL.alike_of_eq h hk (by decide)
  apply agree_advance
  rw [← ha.current]
  exact agree_pure _ ha.advance

/-- What ends the operands of a line ends them at both cursors. -/
theorem endsLine_iff : c.current.kind.endsLine ↔ d.current.kind.endsLine := by
  have hend (k : TokenKind) (hk : k.IsEnd) : k.endsLine := by
    rcases hk with rfl | rfl <;> rfl
  rcases hL.view h with ha | ha
  · rw [ha.current]
  · exact iff_of_true (hend _ ha.left) (hend _ ha.right)

theorem agree_directive (mnemonic : String) :
    Agree R E (directive mnemonic c) (directive mnemonic d) := by
  apply agree_current
  exact agree_ite (hL.endsLine_iff h) (fun _ => hL.agree_fail h fun _ => .noExpression mnemonic)
    fun _ => hL.agree_expression h

/-- So the operands up to there are the same. -/
theorem agree_operandsToLineEnd : Agree R E (operandsToLineEnd c) (operandsToLineEnd d) := by
  rw [operandsToLineEnd_eq]
  apply agree_current
  exact agree_ite (hL.endsLine_iff h) (fun _ => agree_pure _ h) fun _ => hL.agree_operands h

/-- An instruction is read alike, whichever body its mnemonic calls for. -/
theorem agree_instruction (label : Option String) :
    Agree R E (instruction label c) (instruction label d) := by
  apply agree_bind (hL.agree_expect h _ (by decide))
  intro t c d h
  refine agree_ite .rfl (fun _ => ?_) fun _ => ?_
  · apply agree_bind (hL.agree_directive h _)
    intro e c d h
    exact agree_bind (hL.agree_comment h) fun _ _ _ h' => agree_pure _ h'
  · apply agree_bind (hL.agree_operandsToLineEnd h)
    intro os c d h
    exact agree_bind (hL.agree_comment h) fun _ _ _ h' => agree_pure _ h'

/-- Behind their lines the cursors may part. -/
theorem agree_lineEnd : Agree S E (lineEnd c) (lineEnd d) := by
  apply agree_bind (hL.agree_comment h)
  intro _ c d h
  apply agree_current
  rcases hL.view h with ha | ha
  · rw [← ha.current]
    refine agree_ite .rfl (fun _ => ?_) fun _ => agree_ite .rfl (fun he => ?_) fun _ => ?_
    · exact agree_advance (agree_pure _ (hL.behind ha.advance))
    · exact absurd he ha.not_eof
    · exact hL.error_refl _
  · have hbehind : S c.pastNewline d.pastNewline := ha.behind
    unfold Cursor.pastNewline at hbehind
    rcases ha.left with hc | hc <;> rcases ha.right with hd | hd <;>
      simp only [hc, hd, if_true, if_false, reduceCtorEq] at hbehind ⊢ <;>
      exact ⟨rfl, hbehind⟩

theorem agree_labelColon (colon : Bool) : Agree R E (labelColon colon c) (labelColon colon d) := by
  refine agree_ite .rfl (fun _ => ?_) fun _ => agree_pure _ h
  exact agree_bind (hL.agree_expect h _ (by decide)) fun _ _ _ h' => agree_pure _ h'

theorem agree_labelDeclaration (colon : Bool) :
    Agree R E (labelDeclaration colon c) (labelDeclaration colon d) := by
  apply agree_bind (hL.agree_expect h _ (by decide))
  intro t c d h
  exact agree_bind (hL.agree_labelColon h colon) fun _ _ _ h' => agree_pure _ h'

/-- Behind a whole line the cursors may have parted. -/
theorem agree_wholeLine (label : Option String) :
    Agree S E (wholeLine label c) (wholeLine label d) := by
  apply agree_bind (hL.agree_instruction h label)
  intro i c d h
  exact agree_bind (hL.agree_lineEnd h) fun _ _ _ h' => agree_pure _ h'

theorem agree_itemOfLabel (l : Label) : Agree S E (itemOfLabel l c) (itemOfLabel l d) := by
  apply agree_current
  apply agree_peek 1
  refine agree_ite (hL.pair_iff h (by decide) (by decide))
    (fun _ => agree_pure _ (hL.behind h)) fun _ =>
    agree_ite (hL.endsLine_iff h) (fun _ => ?_) fun _ => ?_
  · exact agree_bind (hL.agree_lineEnd h) fun _ _ _ h' => agree_pure _ h'
  · exact agree_bind (hL.agree_wholeLine h _) fun _ _ _ h' => agree_pure _ h'

/-- Cursors in lockstep are in front of the same item. -/
theorem agree_item : Agree S E (item c) (item d) := by
  have hkeyword (ha : c.Alike R d) :
      (c.peek 1).kind = .ident ∧ isLabelKeyword (c.peek 1).text ↔
        (d.peek 1).kind = .ident ∧ isLabelKeyword (d.peek 1).text := by
    rw [Cursor.peek_succ ha.not_eof, Cursor.peek_succ (ha.current ▸ ha.not_eof)]
    refine hL.and_iff ha.advance (fun ha' => ?_) (by decide)
    show isLabelKeyword c.advance.current.text ↔ isLabelKeyword d.advance.current.text
    rw [ha'.current]
  apply agree_current
  apply agree_peek 1
  refine agree_ite (hL.pair_iff h (by decide) (by decide)) (fun _ => ?_) fun _ =>
    agree_ite (hL.and_iff h hkeyword (by decide)) (fun _ => ?_) fun _ =>
      agree_ite (hL.eq_iff h (by decide)) (fun _ => ?_) fun _ => hL.agree_fail h .noStatement
  · exact agree_bind (hL.agree_labelDeclaration h true) fun l _ _ h' => hL.agree_itemOfLabel h' l
  · apply agree_bind (hL.agree_labelDeclaration h false)
    intro l c d h
    exact agree_bind (hL.agree_wholeLine h _) fun _ _ _ h' => agree_pure _ h'
  · exact agree_bind (hL.agree_wholeLine h none) fun _ _ _ h' => agree_pure _ h'

end Lockstep

/-! ### Items -/

namespace Lockstep

open Parse

variable {R : Cursor → Cursor → Prop} {E : ParseError → ParseError → Prop} (hL : Lockstep R R E)
  (hkind : ∀ {c d}, R c d → c.current.kind = d.current.kind) {c d : Cursor} (h : R c d)
include hL hkind h

/-- What stands between two items is skipped at both cursors. -/
theorem advance_of_skip
    (hs : c.current.kind = .newline ∨ c.current.kind = .comment) : R c.advance d.advance := by
  rcases hL.view h with ha | ha
  · exact ha.advance
  · have hc : c.current.kind = .newline := by
      rcases hs with hs | hs
      · exact hs
      · exact absurd (hs ▸ ha.left) (by decide)
    have hbehind : R c.pastNewline d.pastNewline := ha.behind
    unfold Cursor.pastNewline at hbehind
    rwa [if_pos hc, if_pos (hkind h ▸ hc)] at hbehind

/-- Cursors in lockstep whose lines and lists end together are in front of the same items. -/
theorem agree_items : Agree R E (items c) (items d) := by
  -- by induction on the run at the first cursor; the second makes the same rounds
  fun_induction items c generalizing d with
  | case1 c he =>
    rw [items_of_eof (hkind h ▸ he)]
    exact ⟨rfl, h⟩
  | case2 c he hs ih =>
    have hd : d.current.kind = .newline ∨ d.current.kind = .comment := hkind h ▸ hs
    rw [items_of_skip hd]
    exact ih (hL.advance_of_skip hkind h hs)
  | case3 c he hs x c' hx xs c'' hxs ih =>
    obtain ⟨d', hd, h'⟩ := Agree.of_ok (hx ▸ hL.agree_item h)
    obtain ⟨d'', hd', h''⟩ := Agree.of_ok (hxs ▸ ih h')
    rw [items_eq, if_neg (hkind h ▸ he), if_neg (hkind h ▸ hs), hd]
    simp only [hd']
    exact ⟨rfl, h''⟩
  | case4 c he hs x c' hx e c'' hxs ih =>
    obtain ⟨d', hd, h'⟩ := Agree.of_ok (hx ▸ hL.agree_item h)
    obtain ⟨e', d'', hd', he'⟩ := Agree.of_error (hxs ▸ ih h')
    rw [items_eq, if_neg (hkind h ▸ he), if_neg (hkind h ▸ hs), hd]
    simp only [hd']
    exact he'
  | case5 c he hs e c' hx =>
    obtain ⟨e', d', hd, he'⟩ := Agree.of_error (hx ▸ hL.agree_item h)
    rw [items_eq, if_neg (hkind h ▸ he), if_neg (hkind h ▸ hs), hd]
    exact he'

end Lockstep

end IntelAsm

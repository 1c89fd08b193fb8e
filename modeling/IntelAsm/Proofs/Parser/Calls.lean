import IntelAsm.Proofs.Address.Exact
import IntelAsm.Proofs.FrontEnd

/-!
# Calls of a parser

A parser can be used through any of its readers, in any order and again after a failure
(`Parser.Call`), so also from states that a run never passes. Whatever is called, the cursor moves
forward in the same tokens, from where each of them is still seen (`Cursor.Before.look_eq`), and
what has been read stays in front of what is read next (`Parser.Grows`). If the numerals among the
tokens are well formed, then a call that fails finds an error of grammar at one of the tokens
(`ParseError.Shown`).

Both hold of each action on a parser (`Parser.Adds`), by one law for each way to build an action,
and so of any calls one after the other (`calls_only_add`).
-/

namespace IntelAsm

open Cursor (Seen)

/-! ### Looking around -/

namespace Cursor

/-- A cursor that moves on stays in its list. -/
theorem Before.tokens_eq {c d : Cursor} (h : c.Before d) : d.tokens = c.tokens := by
  obtain ⟨us, hahead, hpast⟩ := h
  simp [tokens, hahead, hpast]

/-- A cursor that moves on has passed no fewer tokens. -/
theorem Before.position_le {c d : Cursor} (h : c.Before d) : c.position ≤ d.position := by
  obtain ⟨us, -, hpast⟩ := h
  simp [position, hpast]

/-- What is seen from one token further on is seen one place nearer. -/
theorem look_advance {c : Cursor} (h : c.ahead ≠ []) (k : Int) :
    c.advance.look (k - 1) = c.look k := by
  obtain ⟨t, ts, hahead⟩ := List.exists_cons_of_ne_nil h
  have htokens : c.advance.tokens = c.tokens := (before_advance c).tokens_eq
  have hposition : c.advance.position = c.position + 1 := by simp [advance, hahead, position]
  have hadvance : c.advance.ahead = ts := by simp [advance, hahead]
  have hindex : (c.advance.position : Int) + (k - 1) = c.position + k := by
    rw [hposition]
    omega
  simp only [look]
  rw [hindex, htokens]
  rcases lt_trichotomy k 0 with hk | rfl | hk
  · have hk' : ¬(0 : Int) ≤ k - 1 := by omega
    rw [if_neg hk', if_neg (by omega : ¬0 ≤ k)]
  · -- the token just passed
    have hcurrent : c.tokens[((c.position : Int) + 0).toNat]? = some t := by
      simp [tokens, position, hahead]
    have hle : (0 : Int) ≤ c.position + 0 := by omega
    have hneg : ¬(0 : Int) ≤ 0 - 1 := by omega
    rw [if_neg hneg, if_pos hle, hcurrent]
    simp [peek, hahead]
  · obtain ⟨n, rfl⟩ : ∃ n : Nat, k = n + 1 := ⟨(k - 1).toNat, by omega⟩
    have hn : ((n : Int) + 1 - 1).toNat = n := by omega
    have hn' : ((n : Int) + 1).toNat = n + 1 := by omega
    rw [if_pos (by omega), if_pos (by omega), hn, hn', peek, peek, hadvance, hahead,
      List.getElem?_cons_succ, endMarker_advance]

/-- What is seen is told by its place in the list, wherever the cursor stands. -/
theorem Before.look_eq {c d : Cursor} (h : c.Before d) (k : Int) :
    d.look (k - (d.position - c.position : Nat)) = c.look k := by
  obtain ⟨us, hahead, hpast⟩ := h
  induction us generalizing c k with
  | nil =>
    obtain rfl : c = d := by
      obtain ⟨past, ahead⟩ := c
      obtain ⟨past', ahead'⟩ := d
      cases hahead
      cases hpast
      rfl
    simp
  | cons u us ih =>
    have hc : c.ahead ≠ [] := by simp [hahead]
    have hadvance : c.advance = ⟨u :: c.past, us ++ d.ahead⟩ := by simp [advance, hahead]
    have hposition : c.advance.position = c.position + 1 := by simp [hadvance, position]
    have hle : c.position + 1 ≤ d.position := by
      simp only [position, hpast, List.length_append, List.length_reverse, List.length_cons]
      omega
    have hk : k - (d.position - c.position : Nat) =
        k - 1 - (d.position - c.advance.position : Nat) := by omega
    rw [← look_advance hc k, hk]
    refine ih (k - 1) ?_ ?_
    · rw [hadvance]
    · rw [hpast, hadvance, List.reverse_cons, List.append_assoc, List.singleton_append]

/-- Nothing is seen only where it would be counted back more than once through the list. -/
theorem look_eq_none_iff (c : Cursor) (k : Int) :
    c.look k = none ↔ c.position + c.tokens.length + k < 0 := by
  have hle : c.position ≤ c.tokens.length := by simp [position, tokens]
  unfold look
  dsimp only
  split
  · exact iff_of_false (Option.some_ne_none _) (by omega)
  split
  · rw [List.getElem?_eq_none_iff]
    omega
  split
  · rw [List.getElem?_eq_none_iff]
    omega
  · exact iff_of_true rfl (by omega)

end Cursor

/-! ### Errors at tokens -/

/-- An error of grammar at the place of a token of the list, or at the default place where there is
none. -/
structure ParseError.Shown (ts : List Token) (e : ParseError) : Prop where
  isSyntax : e.IsSyntax
  place : (∃ t ∈ ts, e.pos = t.pos) ∨ ts = [] ∧ e.pos = {}

section
variable {ts : List Token}

/-- The end marker stands at the place of the last token. -/
theorem Cursor.Seen.place {t : Token} (h : Seen ts t) :
    (∃ u ∈ ts, t.pos = u.pos) ∨ ts = [] ∧ t.pos = {} := by
  rcases h with hmem | ⟨-, hpos⟩
  · exact .inl ⟨t, hmem, rfl⟩
  · cases hlast : ts.getLast? with
    | none => exact .inr ⟨List.getLast?_eq_none_iff.1 hlast, by simpa [hlast] using hpos⟩
    | some u => exact .inl ⟨u, List.mem_of_getLast? hlast, by simpa [hlast] using hpos⟩

/-- What is blamed on well-formed tokens is an error of grammar. -/
theorem Blamed.shown {e : ParseError} (h : Blamed ts e) (hts : ∀ t ∈ ts, t.toWord.IsNumeral) :
    e.Shown ts := by
  obtain ⟨t, ht, hpos⟩ := h.pos
  refine ⟨fun base text hf => ?_, hpos ▸ ht.place⟩
  obtain ⟨u, hu, hk, hv⟩ := h.numeral base text hf
  rw [hf] at hv
  exact (hts u hu).value_ne hk base text hv

end

/-- A token that makes an operand of its own is at fault only as its value is. -/
theorem Token.value_eq_of_operand? {t : Token} {f : ParseFault} (h : t.operand? = some (.error f)) :
    t.kind.isNumeric ∧ t.value = .error f := by
  unfold Token.operand? at h
  split at h
  · next hk =>
    refine ⟨hk, ?_⟩
    cases hv : t.value with
    | ok v => simp [hv, Except.map] at h
    | error f' => simpa [hv, Except.map] using h
  · split at h
    · cases h
    · split at h <;> cases h

namespace Parse

section
variable {α β : Type} {ts : List Token} {A : α → Prop} {B : β → Prop} {p : Parse α}

/-- An action in the list `ts`: its value has `A`, and its errors are shown by the list. -/
def Tells (ts : List Token) (A : α → Prop) (p : Parse α) : Prop :=
  Triple (fun c => c.tokens = ts) p (fun a c => c.tokens = ts ∧ A a) fun e _ => e.Shown ts

/-- Two actions in a row are told by the tokens if both are. -/
theorem tells_bind {f : α → Parse β} (hp : Tells ts A p) (hf : ∀ a, A a → Tells ts B (f a)) :
    Tells ts B (p >>= f) :=
  triple_bind hp fun a c hc => hf a hc.2 c hc.1

/-- A failure for a fault of grammar, at a token that is seen. -/
theorem tells_fail {fault : ParseFault} {t : Token} (ht : Seen ts t)
    (hf : ∀ base text, fault ≠ .notNumeral base text) : Tells ts A (fail fault t : Parse α) := by
  rintro c rfl
  exact ⟨hf, ht.place⟩

/-- To take a value fails only for a fault of grammar. -/
theorem tells_takeValue {value : Except ParseFault α}
    (hf : ∀ base text, value ≠ .error (.notNumeral base text)) :
    Tells ts (fun _ => True) (takeValue value) := by
  rintro c rfl
  cases value with
  | ok a => exact ⟨c.tokens_advance, trivial⟩
  | error f => exact ⟨fun base text h => hf base text (congrArg _ h), (c.seen_peek 0).place⟩

/-- A token of another kind is blamed itself. -/
theorem tells_expect (what : Expected) (kinds : List TokenKind) :
    Tells ts (fun _ => True) (expect what kinds) := by
  rintro c rfl
  unfold expect
  split
  · exact ⟨c.tokens_advance, trivial⟩
  · exact ⟨nofun, (c.seen_peek 0).place⟩

variable (hts : ∀ t ∈ ts, t.toWord.IsNumeral)
include hts

/-- What leaves the tokens alone and blames one of them is told by them. -/
theorem Reads.tells (h : Reads ts A p) : Tells ts A p := by
  intro c hc
  cases hr : p c with
  | ok a d => exact h.of_ok hc hr
  | error e d => exact (h.of_error hc hr).2.shown hts

/-- Numerals that are well formed have a value or are out of range. -/
theorem value_ne_of_seen {t : Token} (ht : Seen ts t) (hk : t.kind.isNumeric) (base : Nat)
    (text : String) : t.value ≠ .error (.notNumeral base text) := by
  have hmem : t ∈ ts := ht.mem fun he => by simp [he, TokenKind.isNumeric] at hk
  exact (hts t hmem).value_ne hk base text

theorem tells_number (what : Expected) : Tells ts (fun _ => True) (number what) := by
  apply tells_bind (reads_current.tells hts)
  intro t ht
  apply triple_ite
  · exact fun hk => tells_takeValue (value_ne_of_seen hts ht hk)
  · exact fun _ => tells_fail ht nofun

/-- A primary is told by the tokens, also where its numeral is out of range. -/
theorem tells_primary : Tells ts (fun _ => True) primary := by
  apply tells_bind (reads_current.tells hts)
  intro t ht
  cases h : t.operand? with
  | none => exact tells_fail ht nofun
  | some value =>
    refine tells_takeValue fun base text hv => ?_
    obtain ⟨hk, hv⟩ := Token.value_eq_of_operand? (hv ▸ h)
    exact value_ne_of_seen hts ht hk base text hv

/-- The segment in front of an address may be any text. -/
theorem tells_memoryOperand (pos : Pos) (size : Option Int) (segment : Option String) :
    Tells ts (fun _ => True) (memoryOperand pos size segment) := by
  rintro c rfl
  cases h : memoryOperand pos size segment c with
  | ok o d => exact ⟨((forward_memoryOperand pos size segment).of_ok h).tokens_eq, trivial⟩
  | error e d =>
    obtain ⟨n, -, hblames, -⟩ := address_eq_error (memoryOperand_eq_error h)
    have hseen : Seen c.tokens (c.peek n) := c.seen_peek n
    have hnumeral : (c.peek n).toWord.IsNumeral := by
      rcases hseen with hmem | ⟨heof, -⟩
      · exact hts _ hmem
      · exact ⟨by simp [heof], by simp [heof]⟩
    exact ⟨hblames.isSyntax.resolve_right fun hn => hn hnumeral, hblames.pos ▸ hseen.place⟩

end

/-- A primary moves the cursor over one token at most. -/
theorem forward_primary : Forward primary := by
  apply forward_bind forward_current
  intro t
  split
  · exact forward_takeValue _
  · exact forward_fail _ _

end Parse

namespace Parser

open Parse

/-! ### What a parser keeps -/

/-- The second state is reached from the first: the cursor moved forward in the same tokens, and
instructions and labels were added at the end. -/
structure Grows (s s' : Parser) : Prop where
  cursor : s.cursor.Before s'.cursor
  instructions : s.instructions.toList <+: s'.instructions.toList
  labels : s.labels.toList <+: s'.labels.toList

theorem Grows.refl (s : Parser) : s.Grows s :=
  ⟨.refl _, List.prefix_refl _, List.prefix_refl _⟩

theorem Grows.trans {s s' s'' : Parser} (h : s.Grows s') (h' : s'.Grows s'') : s.Grows s'' :=
  ⟨h.cursor.trans h'.cursor, h.instructions.trans h'.instructions, h.labels.trans h'.labels⟩

/-- A cursor that moves on adds nothing. -/
theorem grows_withCursor (s : Parser) {c : Cursor} (h : s.cursor.Before c) :
    s.Grows { s with cursor := c } :=
  ⟨h, List.prefix_refl _, List.prefix_refl _⟩

/-- An instruction is added at the end. -/
theorem grows_push (s : Parser) (i : Instruction) (pending : Option Label) :
    s.Grows { s with instructions := s.instructions.push i, pending := pending } :=
  ⟨.refl _, by simp, List.prefix_refl _⟩

section
variable {α β : Type} {s : Parser} {A : α → Prop} {B : β → Prop} {p q : Action α}

/-- An action that lets any parser behind `s` grow; its value has `A`, and its errors are shown by
the tokens. -/
def Adds (s : Parser) (A : α → Prop) (p : Action α) : Prop :=
  Triple s.Grows p (fun a s' => s.Grows s' ∧ A a)
    fun e s' => s.Grows s' ∧ e.Shown s.cursor.tokens

theorem adds_pure {a : α} (h : A a) : Adds s A (pure a : Action α) :=
  triple_pure a fun _ hs => ⟨hs, h⟩

/-- Two actions in a row only add if both do. -/
theorem adds_bind {f : α → Action β} (hp : Adds s A p) (hf : ∀ a, A a → Adds s B (f a)) :
    Adds s B (p >>= f) :=
  triple_bind hp fun a s' hs => hf a hs.2 s' hs.1

theorem adds_ite {b : Prop} [Decidable b] (hp : Adds s A p) (hq : Adds s A q) :
    Adds s A (if b then p else q) :=
  triple_ite (fun _ => hp) fun _ => hq

/-- An action on tokens adds nothing to what was read. -/
theorem adds_onTokens {p : Parse α} (hf : Forward p) (hp : Tells s.cursor.tokens A p) :
    Adds s A (onTokens p) := by
  intro s' hs
  have htokens : s'.cursor.tokens = s.cursor.tokens := hs.cursor.tokens_eq
  unfold onTokens
  cases hr : p s'.cursor with
  | ok a c => exact ⟨hs.trans (s'.grows_withCursor (hf.of_ok hr)), (hp.of_ok htokens hr).2⟩
  | error e c => exact ⟨hs.trans (s'.grows_withCursor (hf.of_error hr)), hp.of_error htokens hr⟩

/-- It does not matter whether the value is used. -/
theorem adds_discard (hp : Adds s A p) : Adds s (fun _ => True) (discard p) := by
  intro s' hs
  show Leaves _ _ (EStateM.map _ p s')
  unfold EStateM.map
  cases hr : p s' with
  | ok a s'' => exact ⟨(hp.of_ok hs hr).1, trivial⟩
  | error e s'' => exact hp.of_error hs hr

/-! ### Changes of the program -/

theorem adds_addInstruction (i : Instruction) : Adds s (fun _ => True) (addInstruction i) :=
  fun s' hs => ⟨hs.trans (s'.grows_push i s'.pending), trivial⟩

theorem adds_addLabel (l : Label) : Adds s (fun _ => True) (addLabel l) := by
  intro s' hs
  have hpush : s'.labels.toList <+: (s'.labels.push l).toList := by simp
  exact ⟨hs.trans ⟨.refl _, List.prefix_refl _, hpush⟩, trivial⟩

theorem adds_setPending (l : Label) : Adds s (fun _ => True) (setPending l) :=
  fun _ hs => ⟨⟨hs.cursor, hs.instructions, hs.labels⟩, trivial⟩

theorem adds_takePending : Adds s (fun _ => True) takePending :=
  fun _ hs => ⟨⟨hs.cursor, hs.instructions, hs.labels⟩, trivial⟩

/-- A label that waits gets its anchor at the end. -/
theorem adds_flushPending : Adds s (fun _ => True) flushPending := by
  intro s' hs
  unfold flushPending
  cases s'.pending with
  | some l => exact ⟨hs.trans (s'.grows_push (.anchor l) none), trivial⟩
  | none => exact ⟨hs, trivial⟩

/-! ### Statements and runs -/

variable (hts : ∀ t ∈ s.cursor.tokens, t.toWord.IsNumeral)
include hts

/-- What is read of the tokens leaves the rest of the parser alone. -/
theorem adds_reads {p : Parse α} (hf : Forward p) (hp : Reads s.cursor.tokens A p) :
    Adds s A (onTokens p) :=
  adds_onTokens hf (hp.tells hts)

theorem adds_lineEnd : Adds s (fun _ => True) (onTokens lineEnd) :=
  adds_reads hts forward_lineEnd reads_lineEnd

/-- A label is added to those before it, and waits for its instruction. -/
theorem adds_declareLabel (colon : Bool) : Adds s (fun _ => True) (declareLabel colon) := by
  apply adds_bind (adds_onTokens (forward_expect _ _) (tells_expect _ _))
  intro t _
  apply adds_bind (adds_reads hts (forward_labelColon _) (reads_labelColon _))
  intro _ _
  apply adds_bind adds_flushPending
  intro _ _
  exact adds_bind (adds_addLabel _) fun _ _ => adds_pure trivial

/-- An instruction is added once its line is read. -/
theorem adds_instructionLine (label : Option String) :
    Adds s (fun _ => True) (instructionLine label) := by
  apply adds_bind (adds_reads hts (advancing_instruction _).forward (reads_instruction _))
  intro i _
  exact adds_bind (adds_addInstruction i) fun _ _ => adds_lineEnd hts

/-- Behind a label comes another, or an instruction, or the label waits on. -/
theorem adds_afterLabel (l : Label) : Adds s (fun _ => True) (afterLabel l) := by
  apply adds_bind (adds_reads hts forward_current reads_current)
  intro t _
  apply adds_bind (adds_reads hts (forward_peek 1) (reads_peek 1))
  intro u _
  apply adds_ite (adds_setPending _)
  refine adds_ite ?_ (adds_instructionLine hts _)
  exact adds_bind (adds_setPending _) fun _ _ => adds_lineEnd hts

/-- A statement adds at most one label and one instruction, and an anchor. -/
theorem adds_statement : Adds s (fun _ => True) statement := by
  apply adds_bind (adds_reads hts forward_current reads_current)
  intro t ht
  apply adds_bind (adds_reads hts (forward_peek 1) (reads_peek 1))
  intro u _
  apply adds_ite
  · exact adds_bind (adds_declareLabel hts _) fun l _ => adds_afterLabel hts l
  apply adds_ite
  · exact adds_bind (adds_declareLabel hts _) fun l _ => adds_instructionLine hts _
  apply adds_ite
  · exact adds_bind adds_takePending fun _ _ => adds_instructionLine hts _
  · exact adds_onTokens (forward_fail _ _) (tells_fail ht nofun)

/-- A run goes from statement to statement, by induction on the tokens ahead. -/
theorem adds_run : Adds s (fun _ => True) run := by
  intro s' hs
  -- by induction on the run; it goes on from a parser that grew
  fun_induction run s' with
  | case1 s' he =>
    refine adds_bind adds_flushPending (fun _ _ => ?_) s' hs
    exact fun _ hs => ⟨hs, trivial⟩
  | case2 s' he hn ih => exact ih (hs.trans (s'.grows_withCursor s'.cursor.before_advance))
  | case3 s' he hn s'' hr ih => exact ih ((adds_statement hts).of_ok hs hr).1
  | case4 s' he hn e s'' hr => exact (adds_statement hts).of_error hs hr

end

/-! ### Calls -/

/-- What can be asked of a parser. -/
inductive Call where
  | advance
  | expect (what : Expected) (kinds : List TokenKind)
  | statement
  | lineEnd
  | declareLabel (colon : Bool)
  | flushPending
  | instruction (label : Option String)
  | operand
  | memoryOperand (pos : Pos) (size : Option Int) (segment : Option String)
  | expression
  | primary
  | number (what : Expected)
  | run
deriving DecidableEq, Repr

/-- What a call does; its value is not used. -/
def Call.action : Call → Action Unit
  | .advance => discard (onTokens Parse.advance)
  | .expect what kinds => discard (onTokens (Parse.expect what kinds))
  | .statement => Parser.statement
  | .lineEnd => onTokens Parse.lineEnd
  | .declareLabel colon => discard (Parser.declareLabel colon)
  | .flushPending => Parser.flushPending
  | .instruction label => discard (onTokens (Parse.instruction label))
  | .operand => discard (onTokens Parse.operand)
  | .memoryOperand pos size segment => discard (onTokens (Parse.memoryOperand pos size segment))
  | .expression => discard (onTokens Parse.expression)
  | .primary => discard (onTokens Parse.primary)
  | .number what => discard (onTokens (Parse.number what))
  | .run => discard Parser.run

/-- The parser after some calls, those that failed included. -/
def after (s : Parser) (calls : List Call) : Parser :=
  calls.foldl (fun s call => stateOf (call.action s)) s

/-- Calls may be made in two rows. -/
theorem after_append (s : Parser) (calls more : List Call) :
    s.after (calls ++ more) = (s.after calls).after more := by
  simp [after]

section
variable {s : Parser} (hts : ∀ t ∈ s.cursor.tokens, t.toWord.IsNumeral)
include hts

/-- Every call lets a parser grow or finds an error of grammar. -/
theorem adds_action (call : Call) : Adds s (fun _ => True) call.action := by
  cases call with
  | advance => exact adds_discard (adds_reads hts forward_advance reads_advance)
  | expect what kinds =>
    exact adds_discard (adds_onTokens (forward_expect what kinds) (tells_expect what kinds))
  | statement => exact adds_statement hts
  | lineEnd => exact adds_lineEnd hts
  | declareLabel colon => exact adds_discard (adds_declareLabel hts colon)
  | flushPending => exact adds_flushPending
  | instruction label =>
    exact adds_discard
      (adds_reads hts (advancing_instruction label).forward (reads_instruction label))
  | operand => exact adds_discard (adds_reads hts forward_operand reads_operand)
  | memoryOperand pos size segment =>
    exact adds_discard
      (adds_onTokens (forward_memoryOperand pos size segment)
        (tells_memoryOperand hts pos size segment))
  | expression => exact adds_discard (adds_reads hts forward_expression reads_expression)
  | primary => exact adds_discard (adds_onTokens forward_primary (tells_primary hts))
  | number what =>
    exact adds_discard (adds_onTokens (forward_number what) (tells_number hts what))
  | run => exact adds_discard (adds_run hts)

/-- Whatever is called, in any order, the parser only grows. -/
theorem grows_after (calls : List Call) : s.Grows (s.after calls) := by
  -- from the last call: the parser in front of it has grown from `s`
  induction calls using List.reverseRecOn with
  | nil => exact .refl s
  | append_singleton calls call ih =>
    rw [after_append]
    show s.Grows (stateOf (call.action (s.after calls)))
    cases hr : call.action (s.after calls) with
    | ok a s' => exact ((adds_action hts call).of_ok ih hr).1
    | error e s' => exact ((adds_action hts call).of_error ih hr).1

end

/-- After any calls on a list of tokens with well-formed numerals, whether they succeed or fail,
more calls move the cursor forward in the same tokens and add instructions and labels at the end. A
call that fails finds an error of grammar at a token of the list, and at no cursor do the stacks of
an expression lack what is taken from them. -/
theorem calls_only_add (ts : List Token) (hts : ∀ t ∈ ts, t.toWord.IsNumeral)
    (calls more : List Call) (call : Call) (c : Cursor) :
    let s := (ofTokens ts).after calls
    let s' := s.after more
    (s'.cursor.tokens = ts ∧ s.cursor.position ≤ s'.cursor.position ∧
        s'.cursor.position ≤ ts.length ∧ s.instructions.toList <+: s'.instructions.toList ∧
        s.labels.toList <+: s'.labels.toList) ∧
      (∀ e t, call.action s = .error e t →
        e.IsSyntax ∧ ((∃ u ∈ ts, e.pos = u.pos) ∨ ts = [] ∧ e.pos = ⟨0, 0⟩)) ∧
      Stacks.expression c = .ok (Parse.expression c) := by
  intro s s'
  have hstart : ∀ t ∈ (ofTokens ts).cursor.tokens, t.toWord.IsNumeral := hts
  have hs : (ofTokens ts).Grows s := grows_after hstart calls
  have htokens : s.cursor.tokens = ts := hs.cursor.tokens_eq
  have hs' : s.Grows s' := grows_after (htokens.symm ▸ hts) more
  have htokens' : s'.cursor.tokens = ts := hs'.cursor.tokens_eq.trans htokens
  refine ⟨⟨htokens', hs'.cursor.position_le, ?_, hs'.instructions, hs'.labels⟩, ?_,
    Stacks.expression_eq_ok c⟩
  · rw [← htokens']
    simp [Cursor.position, Cursor.tokens]
  · intro e t he
    obtain ⟨-, hshown⟩ := (adds_action hstart call).of_error hs he
    exact ⟨hshown.isSyntax, hshown.place⟩

/-- A statement that fails behind its label leaves the label declared, and the next call goes on
from there. -/
theorem calls_only_add_behind_label :
    ∃ ts : List Token, ts = [⟨⟨.ident, "a"⟩, ⟨1, 1⟩⟩, ⟨⟨.mark .colon, ":"⟩, ⟨1, 2⟩⟩,
        ⟨⟨.number, "7"⟩, ⟨1, 4⟩⟩] ∧
      (∀ t ∈ ts, t.toWord.IsNumeral) ∧
      (∃ e s, Call.action .statement (ofTokens ts) = .error e s ∧ e.IsSyntax ∧
        ∃ t ∈ ts, e.pos = t.pos) ∧
      ((ofTokens ts).after [.statement]).labels = #[⟨"a", ⟨1, 1⟩⟩] ∧
      ((ofTokens ts).after [.statement, .number .number]).cursor.position = 3 ∧
      ((ofTokens ts).after [.statement]).labels.toList <+:
        ((ofTokens ts).after [.statement, .number .number]).labels.toList := by
  have hts : ∀ t ∈ [(⟨⟨.ident, "a"⟩, ⟨1, 1⟩⟩ : Token), ⟨⟨.mark .colon, ":"⟩, ⟨1, 2⟩⟩,
      ⟨⟨.number, "7"⟩, ⟨1, 4⟩⟩], t.toWord.IsNumeral := by
    simp only [List.forall_mem_cons]
    exact ⟨⟨by simp, by simp⟩, ⟨by simp, by simp⟩,
      ⟨fun _ => List.all_eq_true.1 (by decide), by simp⟩, by simp⟩
  obtain ⟨-, herror, -⟩ := calls_only_add _ hts [] [] .statement (.ofTokens [])
  obtain ⟨⟨-, -, -, -, hlabels⟩, -⟩ :=
    calls_only_add _ hts [.statement] [.number .number] .statement (.ofTokens [])
  obtain ⟨hgrammar, hplace⟩ := herror _ _ rfl
  exact ⟨_, rfl, hts, ⟨_, _, rfl, hgrammar, hplace.resolve_right (by simp)⟩, by decide +kernel,
    by decide +kernel, hlabels⟩

end Parser

end IntelAsm

import IntelAsm.Parser.Expression

/-!
# What parsing actions establish

`Triple P p Q E` says what an action does from a state with `P`: it ends with `Q`, or it fails with
`E`. On tokens two things hold of every action, whatever it reads. It leaves the token list as it
is, and an error is blamed on a token of the list (`Blamed`): it has that token's place, its fault
speaks of tokens of the list, and the only fault that is not one of grammar comes from a numeric
token whose text spells no number.
`Reads` is the triple with both; what an action establishes beyond them is said of its value.

The laws of this module are one for each way to build an action and one for each basic action.
-/

namespace IntelAsm

namespace Cursor

/-- A token that a cursor in a list can see: one of the list, or the end marker behind it. -/
def Seen (ts : List Token) (t : Token) : Prop :=
  t ∈ ts ∨ t.kind = .eof ∧ t.pos = (ts.getLast?.map (·.pos)).getD {}

/-- A token that is seen and is no end marker is one of the list. -/
theorem Seen.mem {ts : List Token} {t : Token} (h : Seen ts t) (hk : t.kind ≠ .eof) : t ∈ ts :=
  h.resolve_right fun h => hk h.1

@[simp] theorem tokens_advance (c : Cursor) : c.advance.tokens = c.tokens := by
  rcases c with ⟨past, _ | ⟨t, ts⟩⟩ <;> simp [advance, tokens]

/-- The last token of the list is the last one wherever the cursor stands. -/
theorem last?_eq (c : Cursor) : c.last? = c.tokens.getLast? := by
  simp [last?, tokens, List.getLast?_append]

/-- The end marker stands at the place of the last token. -/
theorem seen_endMarker (c : Cursor) : Seen c.tokens c.endMarker := by
  unfold endMarker
  rw [last?_eq]
  split
  · next t ht =>
    split
    · exact .inl (List.mem_of_getLast? ht)
    · exact .inr ⟨rfl, by simp [ht]⟩
  · next hn => exact .inr ⟨rfl, by simp [hn]⟩

/-- What is seen ahead is a token of the list, or the end marker. -/
theorem seen_peek (c : Cursor) (n : Nat) : Seen c.tokens (c.peek n) := by
  unfold peek
  split
  · next t ht =>
    have hmem : t ∈ c.ahead := List.mem_of_getElem? ht
    exact .inl (by simp [tokens, hmem])
  · exact seen_endMarker c

end Cursor

open Cursor (Seen)

/-- What the grammar calls for is told by kinds with names of their own, or by a mark of the
list. -/
def Expected.From (ts : List Token) : Expected → Prop
  | .kinds ks => ∀ name, .other name ∉ ks
  | .signedTerm sign => ∃ m pos, ⟨⟨.mark m, sign⟩, pos⟩ ∈ ts
  | .described _ => False
  | _ => True

/-- A fault speaks of tokens that are seen in the list; one of a text that spells no number is that
of a numeric token. -/
def ParseFault.From (ts : List Token) : ParseFault → Prop
  | .expected what found => what.From ts ∧ ∃ pos, Seen ts ⟨found, pos⟩
  | .noStatement found | .noOperand found => ∃ pos, Seen ts ⟨found, pos⟩
  | .noExpression mnemonic => isEquate mnemonic
  | .secondIndex | .outOfRange => True
  | .notNumeral base text =>
    ∃ t ∈ ts, t.kind.isNumeric ∧ t.value = .error (.notNumeral base text)
  | .described _ => False

/-- What a numeric token of the list is at fault with. -/
theorem ParseFault.From.of_value {ts : List Token} {t : Token} {f : ParseFault} (ht : t ∈ ts)
    (hk : t.kind.isNumeric) (h : t.value = .error f) : f.From ts := by
  have hcases : f = .outOfRange ∨ ∃ base text, f = .notNumeral base text := by
    unfold Word.value at h
    grind
  obtain rfl | ⟨base, text, rfl⟩ := hcases
  · trivial
  · exact ⟨t, ht, hk, h⟩

/-- What an error owes to the tokens: the place of one of them, and a fault that speaks of them. -/
structure Blamed (ts : List Token) (e : ParseError) : Prop where
  pos : ∃ t, Seen ts t ∧ e.pos = t.pos
  fault : e.fault.From ts

/-- A fault in a numeral is that of a numeric token of the list. -/
theorem Blamed.numeral {ts : List Token} {e : ParseError} (h : Blamed ts e) (base : Nat)
    (text : String) (hf : e.fault = .notNumeral base text) :
    ∃ t ∈ ts, t.kind.isNumeric ∧ t.value = .error e.fault := by
  have hfrom := h.fault
  rw [hf] at hfrom ⊢
  exact hfrom

namespace Parse

/-! ### Laws of composition -/

section
variable {σ α β : Type} {P : σ → Prop} {Q Q' : α → σ → Prop} {R : β → σ → Prop}
  {E : ParseError → σ → Prop} {p q : EStateM ParseError σ α} {f : α → EStateM ParseError σ β}

/-- The result has `Q` if it is a value and `E` if it is an error. -/
def Leaves (Q : α → σ → Prop) (E : ParseError → σ → Prop) :
    EStateM.Result ParseError σ α → Prop
  | .ok a s => Q a s
  | .error e s => E e s

/-- From a state with `P` the action ends with `Q` or fails with `E`. -/
def Triple (P : σ → Prop) (p : EStateM ParseError σ α) (Q : α → σ → Prop)
    (E : ParseError → σ → Prop) : Prop :=
  ∀ s, P s → Leaves Q E (p s)

/-- What an action establishes where it succeeds. -/
theorem Triple.of_ok (h : Triple P p Q E) {s s' : σ} {a : α} (hs : P s) (hp : p s = .ok a s') :
    Q a s' := by
  have hl : Leaves Q E (p s) := h s hs
  rwa [hp] at hl

/-- What an action establishes where it fails. -/
theorem Triple.of_error (h : Triple P p Q E) {s s' : σ} {e : ParseError} (hs : P s)
    (hp : p s = .error e s') : E e s' := by
  have hl : Leaves Q E (p s) := h s hs
  rwa [hp] at hl

theorem triple_pure (a : α) (h : ∀ s, P s → Q a s) :
    Triple P (pure a : EStateM ParseError σ α) Q E := h

/-- What the first action establishes is what the second starts from. -/
theorem triple_bind (hp : Triple P p Q E) (hf : ∀ a, Triple (Q a) (f a) R E) :
    Triple P (p >>= f) R E := by
  intro s hs
  show Leaves R E (EStateM.bind p f s)
  unfold EStateM.bind
  cases h : p s with
  | ok a s' => exact hf a s' (hp.of_ok hs h)
  | error e s' => exact hp.of_error hs h

/-- A choice establishes what both of its branches do. -/
theorem triple_ite {b : Prop} [Decidable b] (hp : b → Triple P p Q E)
    (hq : ¬b → Triple P q Q E) : Triple P (if b then p else q) Q E := by
  split
  · next h => exact hp h
  · next h => exact hq h

/-- What is said of a success may be weakened. -/
theorem Triple.imp (h : Triple P p Q E) (hq : ∀ a s, Q a s → Q' a s) : Triple P p Q' E := by
  intro s hs
  cases hr : p s with
  | ok a s' => exact hq a s' (h.of_ok hs hr)
  | error e s' => exact h.of_error hs hr

end

/-! ### Actions on tokens -/

section
variable {ts : List Token} {α β : Type} {A A' : α → Prop} {B : β → Prop} {p q : Parse α}
  {f : α → Parse β}

/-- An action in the list `ts`: its value has `A`, and its errors are blamed on the list. -/
def Reads (ts : List Token) (A : α → Prop) (p : Parse α) : Prop :=
  Triple (fun c => c.tokens = ts) p (fun a c => c.tokens = ts ∧ A a)
    (fun e c => c.tokens = ts ∧ Blamed ts e)

theorem reads_pure {a : α} (h : A a) : Reads ts A (pure a : Parse α) :=
  triple_pure a fun _ hs => ⟨hs, h⟩

/-- Two actions in a row leave the tokens alone if both do. -/
theorem reads_bind (hp : Reads ts A p) (hf : ∀ a, A a → Reads ts B (f a)) :
    Reads ts B (p >>= f) :=
  triple_bind hp fun a c hc => hf a hc.2 c hc.1

theorem reads_ite {b : Prop} [Decidable b] (hp : b → Reads ts A p) (hq : ¬b → Reads ts A q) :
    Reads ts A (if b then p else q) :=
  triple_ite hp hq

theorem Reads.imp (h : Reads ts A p) (ha : ∀ a, A a → A' a) : Reads ts A' p :=
  Triple.imp h fun _ _ hc => ⟨hc.1, ha _ hc.2⟩

/-- The next token is seen. -/
theorem reads_current : Reads ts (Seen ts) current := by
  rintro c rfl
  exact ⟨rfl, c.seen_peek 0⟩

/-- A token further ahead is seen. -/
theorem reads_peek (n : Nat) : Reads ts (Seen ts) (peek n) := by
  rintro c rfl
  exact ⟨rfl, c.seen_peek n⟩

theorem reads_advance : Reads ts (fun _ => True) advance := by
  rintro c rfl
  exact ⟨c.tokens_advance, trivial⟩

/-- A failure at a token that is seen, for a fault that speaks of seen tokens. -/
theorem reads_fail {fault : ParseFault} {t : Token} (ht : Seen ts t) (hf : fault.From ts) :
    Reads ts A (fail fault t : Parse α) := by
  rintro c rfl
  exact ⟨rfl, ⟨t, ht, rfl⟩, hf⟩

/-- A token that was expected is one of the list, unless an end marker is among those expected. -/
theorem reads_expect {what : Expected} {kinds : List TokenKind} (h : .eof ∉ kinds)
    (hw : what.From ts) :
    Reads ts (fun t => t ∈ ts ∧ t.kind ∈ kinds) (expect what kinds) := by
  rintro c rfl
  unfold expect
  by_cases hk : kinds.contains c.current.kind
  · rw [if_pos hk]
    have hmem : c.current.kind ∈ kinds := by simpa using hk
    exact ⟨c.tokens_advance, (c.seen_peek 0).mem fun he => h (he ▸ hmem), hmem⟩
  · rw [if_neg hk]
    have hf : Reads c.tokens (fun t => t ∈ c.tokens ∧ t.kind ∈ kinds)
        (fail (.expected what c.current.toWord) c.current) :=
      reads_fail (c.seen_peek 0) ⟨hw, _, c.seen_peek 0⟩
    exact hf c rfl

/-- A value that is taken from a token may be missing only as the token's own value is. -/
theorem reads_takeValue {value : Except ParseFault α} (ha : ∀ a, value = .ok a → A a)
    (hf : ∀ f, value = .error f → f.From ts) : Reads ts A (takeValue value) := by
  rintro c rfl
  cases value with
  | ok a => exact ⟨c.tokens_advance, ha a rfl⟩
  | error f => exact ⟨c.tokens_advance, ⟨_, c.seen_peek 0, rfl⟩, hf f rfl⟩

/-- To look at the next token changes nothing. -/
theorem triple_current {P : Cursor → Prop} {E : ParseError → Cursor → Prop} :
    Triple P current (fun t c => P c ∧ t = c.current) E := fun _ hc => ⟨hc, rfl⟩

/-- What an action reads, whatever held of its cursor. -/
theorem Reads.triple {P : Cursor → Prop}
    {Q : α → Cursor → Prop} (h : Reads ts A p) (hP : ∀ c, P c → c.tokens = ts)
    (hQ : ∀ a c, c.tokens = ts → A a → Q a c) :
    Triple P p Q fun e c => c.tokens = ts ∧ Blamed ts e := by
  intro c hc
  cases hr : p c with
  | ok a c' =>
    obtain ⟨hts, ha⟩ := h.of_ok (hP c hc) hr
    exact hQ a c' hts ha
  | error e c' => exact h.of_error (hP c hc) hr

end

end Parse

end IntelAsm

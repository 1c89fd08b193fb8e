import IntelAsm.Proofs.Lexer.Partition
import IntelAsm.Proofs.Parser.Lines
import Mathlib.Data.List.Chain

/-!
# Readings that obey rules

Rules say which tokens spell which value. An action obeys them from a cursor if two things hold. If
it succeeds, the tokens that it passed spell its value. If it fails, the token that it blames is
ahead, and the tokens in front of that one begin some that spell a value (`Viable`). The second is
needed of a part once the first is known of the parts in front of it, so both are said of a result
at once (`Parse.Obeys`).

`Parse.Follows` is the same with any two conditions, for actions of which more is known where they
stop. The laws are one for each way to go on behind a basic action.
-/

namespace IntelAsm

/-! ### Passing tokens -/

/-- The cursor `d` stands behind the tokens `us` that are ahead of `c`. -/
structure Cursor.Moves (c : Cursor) (us : List Token) (d : Cursor) : Prop where
  ahead : c.ahead = us ++ d.ahead
  past : d.past = us.reverse ++ c.past
  /-- The end marker is not passed. -/
  not_eof : ∀ t ∈ us, t.kind ≠ .eof

namespace Cursor.Moves

variable {c d e : Cursor} {us vs : List Token}

theorem refl (c : Cursor) : c.Moves [] c := ⟨rfl, rfl, by simp⟩

/-- Tokens passed in two moves are passed in one. -/
theorem trans (h : c.Moves us d) (h' : d.Moves vs e) : c.Moves (us ++ vs) e where
  ahead := by rw [h.ahead, h'.ahead, List.append_assoc]
  past := by rw [h'.past, h.past, List.reverse_append, List.append_assoc]
  not_eof := List.forall_mem_append.2 ⟨h.not_eof, h'.not_eof⟩

theorem advance (h : c.current.kind ≠ .eof) : c.Moves [c.current] c.advance where
  ahead := by
    rcases c with ⟨past, _ | ⟨t, ts⟩⟩
    · exact absurd (Cursor.kind_current_of_ahead_eq_nil rfl) h
    · rfl
  past := by
    rcases c with ⟨past, _ | ⟨t, ts⟩⟩
    · exact absurd (Cursor.kind_current_of_ahead_eq_nil rfl) h
    · rfl
  not_eof := List.forall_mem_singleton.2 h

/-- A cursor that passed nothing did not move. -/
theorem eq_of_nil (h : c.Moves [] d) : d = c := by
  rcases c with ⟨past, ts⟩
  rcases d with ⟨past', us⟩
  obtain ⟨hahead, hpast, -⟩ := h
  rw [show past' = past from hpast, show ts = us from hahead]

/-- The first token that is passed is the one at which the cursor stood. -/
theorem current_eq {t : Token} (h : c.Moves (t :: us) d) : c.current = t :=
  Parse.current_eq h.ahead

/-- The first token passed was the one seen first. -/
theorem tail {t : Token} (h : c.Moves (t :: us) d) : c.advance.Moves us d := by
  obtain ⟨hahead, hpast, hne⟩ := h
  rcases c with ⟨past, ts⟩
  obtain rfl : ts = t :: (us ++ d.ahead) := hahead
  refine ⟨rfl, ?_, (List.forall_mem_cons.1 hne).2⟩
  rw [hpast, List.reverse_cons, List.append_assoc]
  rfl

/-- What is seen from behind the tokens that were passed was seen from in front of them. -/
theorem peek_eq (h : c.Moves us d) (n : Nat) : d.peek n = c.peek (us.length + n) := by
  induction us generalizing c with
  | nil => rw [h.eq_of_nil, List.length_nil, Nat.zero_add]
  | cons t us ih =>
    have hne : c.current.kind ≠ .eof := h.current_eq ▸ h.not_eof t (by simp)
    rw [List.length_cons, Nat.add_right_comm, Cursor.peek_succ hne, ih h.tail]

/-- What is seen behind a move was seen ahead before it. -/
theorem current_eq_peek (h : c.Moves us d) : d.current = c.peek us.length := h.peek_eq 0

/-- The token behind those that were passed is seen first if none was. -/
theorem exists_append_eq (h : c.Moves us d) (ws : List Token) :
    ∃ vs, us ++ d.current :: ws = c.current :: vs := by
  cases us with
  | nil => exact ⟨ws, by rw [h.eq_of_nil]; rfl⟩
  | cons t us => exact ⟨us ++ d.current :: ws, by rw [h.current_eq]; rfl⟩

end Cursor.Moves

/-- Every comment runs to the end of its line. -/
def CommentsEnd (ts : List Token) : Prop :=
  ts.IsChain fun t u => t.kind = .comment → u.kind.IsEnd

namespace CommentsEnd

variable {c d : Cursor} {us : List Token}

/-- What holds of all comments ahead holds of those that are left. -/
theorem moves (h : CommentsEnd c.ahead) (hm : c.Moves us d) : CommentsEnd d.ahead := by
  unfold CommentsEnd at h
  rw [hm.ahead] at h
  exact h.right_of_append

/-- Behind a comment comes no other. -/
theorem ne_comment {t : Token} (h : CommentsEnd c.ahead) (hm : c.Moves (us ++ [t]) d)
    (ht : t.kind = .comment) : d.current.kind ≠ .comment := by
  rcases hd : d.ahead with _ | ⟨u, vs⟩
  · rw [Cursor.kind_current_of_ahead_eq_nil hd]
    decide
  · unfold CommentsEnd at h
    rw [hm.ahead, hd, List.isChain_append] at h
    have hend : u.kind.IsEnd := h.2.2 t (by simp) u (by simp) ht
    rw [Parse.current_eq hd]
    rcases hend with hk | hk <;> simp [hk]

end CommentsEnd

namespace Partition

variable {before cs : List Char} {ts : List Token}

/-- Where the line of a text is over, the first token ends it. -/
theorem isEnd_of_head (h : Partition before cs ts) (hcs : cs.head?.any (· ≠ '\n') = false) :
    ∀ t ∈ ts.head?, t.kind.IsEnd := by
  have hscan := scan_of_partition h
  cases cs with
  | nil =>
    rw [scan_nil] at hscan
    cases hscan
    simp [TokenKind.IsEnd]
  | cons c cs =>
    obtain rfl : c = '\n' := by simpa using hcs
    rw [scan_found _ (Lexeme.wordFrom_newline cs)] at hscan
    revert hscan
    generalize scan _ _ = r
    intro hscan
    cases r with
    | error e => cases hscan
    | ok us =>
      cases hscan
      simp [TokenKind.IsEnd]

/-- A comment takes the rest of its line. -/
theorem commentsEnd (h : Partition before cs ts) : CommentsEnd ts := by
  induction h with
  | last hg => exact List.isChain_singleton _
  | @cons before gap l rest w ts hg hne hl he hts ih =>
    refine List.isChain_cons.2 ⟨fun t ht hw => hts.isEnd_of_head ?_ t ht, ih⟩
    have hk : w.kind = .comment := hw
    unfold Word.EndsBefore at he
    rw [hk] at he
    exact he

end Partition

/-- The end marker of a list is never passed, so the token at the cursor is one of the list. -/
theorem Parse.exists_current_of_moves {ts us : List Token} (hts : Ended ts) {c d : Cursor}
    (hc : c.ahead = ts) (hm : c.Moves us d) : ∃ vs, ts = us ++ d.current :: vs := by
  obtain ⟨ws, e, rfl, he, -⟩ := hts
  have hahead := hm.ahead
  rw [hc] at hahead
  cases hd : d.ahead with
  | nil =>
    rw [hd, List.append_nil] at hahead
    exact absurd he (hm.not_eof e (by simp [← hahead]))
  | cons t vs =>
    rw [current_eq hd, hahead, hd]
    exact ⟨vs, rfl⟩

/-- Tokens that begin some with `G`. -/
def Viable {α : Type} (G : α → List Token → Prop) (us : List Token) : Prop :=
  ∃ a vs, G a (us ++ vs)

namespace Viable

variable {α β : Type} {G : α → List Token → Prop} {H : β → List Token → Prop} {us vs : List Token}

/-- Tokens that spell something begin what they spell. -/
theorem of_rule {a : α} (h : G a us) : Viable G us := ⟨a, [], by rwa [List.append_nil]⟩

/-- What begins tokens that begin something begins it. -/
theorem of_append (h : Viable G (us ++ vs)) : Viable G us := by
  obtain ⟨a, ws, h⟩ := h
  exact ⟨a, vs ++ ws, by rwa [← List.append_assoc]⟩

/-- Tokens begin whatever is spelled in one way or another. -/
theorem imp (h : Viable G us) (hGH : ∀ a vs, G a vs → Viable H vs) : Viable H us := by
  obtain ⟨a, vs, h⟩ := h
  exact (hGH a _ h).of_append

/-- Behind tokens that were passed a part may go on. -/
theorem behind (h : Viable (fun a ws => G a (us ++ ws)) vs) : Viable G (us ++ vs) := by
  obtain ⟨a, ws, h⟩ := h
  exact ⟨a, ws, by rwa [List.append_assoc]⟩

end Viable

namespace Parse

section
variable {α β : Type} {c d : Cursor} {Q Q' : α → List Token → Cursor → Prop}
  {R : β → List Token → Cursor → Prop} {V V' : List Token → Prop}
  {r : EStateM.Result ParseError Cursor α} {p q : Parse α} {f : α → Parse β}

/-- The result of a reading that started at `c`: the tokens that were passed have `Q`, or those in
front of the token to blame have `V`. -/
def Follows (c : Cursor) (Q : α → List Token → Cursor → Prop) (V : List Token → Prop) :
    EStateM.Result ParseError Cursor α → Prop :=
  Leaves (fun a d => ∃ us, c.Moves us d ∧ Q a us d)
    fun e _ => ∃ us d, c.Moves us d ∧ e.pos = d.current.pos ∧ V us

namespace Follows

/-- A success passed tokens as it should. -/
theorem of_ok {a : α} (h : Follows c Q V r) (hr : r = .ok a d) : ∃ us, c.Moves us d ∧ Q a us d := by
  subst hr
  exact h

/-- A failure stands at the token behind those that were passed. -/
theorem of_error {e : ParseError} (h : Follows c Q V r) (hr : r = .error e d) :
    ∃ us d, c.Moves us d ∧ e.pos = d.current.pos ∧ V us := by
  subst hr
  exact h

theorem imp (h : Follows c Q V r) (hQ : ∀ a us d, c.Moves us d → Q a us d → Q' a us d)
    (hV : ∀ us, V us → V' us) : Follows c Q' V' r := by
  cases r with
  | ok a d =>
    obtain ⟨us, hm, hq⟩ := h
    exact ⟨us, hm, hQ a us d hm hq⟩
  | error e d =>
    obtain ⟨us, d, hm, hpos, hv⟩ := h
    exact ⟨us, d, hm, hpos, hV us hv⟩

/-- The tokens in front of the one to blame are ahead. -/
theorem and_moves (h : Follows c Q V r) : Follows c Q (fun us => V us ∧ ∃ d, c.Moves us d) r := by
  cases r with
  | ok a d => exact h
  | error e d =>
    obtain ⟨us, d, hm, hpos, hv⟩ := h
    exact ⟨us, d, hm, hpos, hv, d, hm⟩

/-- What was passed in front counts as passed. -/
theorem prepend {us : List Token} (hm : c.Moves us d)
    (h : Follows d (fun a vs => Q a (us ++ vs)) (fun vs => V (us ++ vs)) r) : Follows c Q V r := by
  cases r with
  | ok a e =>
    obtain ⟨vs, hm', hq⟩ := h
    exact ⟨us ++ vs, hm.trans hm', hq⟩
  | error x e =>
    obtain ⟨vs, e, hm', hpos, hv⟩ := h
    exact ⟨us ++ vs, e, hm.trans hm', hpos, hv⟩

end Follows

theorem follows_pure {a : α} (h : Q a [] c) : Follows c Q V ((pure a : Parse α) c) :=
  ⟨[], .refl c, h⟩

theorem follows_fail (fault : ParseFault) (h : V []) :
    Follows c Q V (fail fault c.current c : EStateM.Result ParseError Cursor α) :=
  ⟨[], c, .refl c, rfl, h⟩

theorem follows_ite {b : Prop} [Decidable b] (hp : b → Follows c Q V (p c))
    (hq : ¬b → Follows c Q V (q c)) : Follows c Q V ((if b then p else q) c) := by
  split
  · next h => exact hp h
  · next h => exact hq h

/-- Two actions in a row obey if the first does and the second does from where it ends. -/
theorem follows_bind (hp : Follows c Q V (p c)) (hV : ∀ us, V us → V' us)
    (hf : ∀ a us d, c.Moves us d → Q a us d →
      Follows d (fun b vs => R b (us ++ vs)) (fun vs => V' (us ++ vs)) (f a d)) :
    Follows c R V' ((p >>= f) c) := by
  show Follows c R V' (EStateM.bind p f c)
  unfold EStateM.bind
  cases h : p c with
  | ok a d =>
    obtain ⟨us, hm, hq⟩ := hp.of_ok h
    exact .prepend hm (hf a us d hm hq)
  | error e d =>
    obtain ⟨us, d, hm, hpos, hv⟩ := hp.of_error h
    exact ⟨us, d, hm, hpos, hV us hv⟩

variable {g : Token → Parse α}

/-- A token that is only looked at. -/
theorem follows_current (h : Follows c Q V (g c.current c)) : Follows c Q V ((current >>= g) c) := h

theorem follows_peek (n : Nat) (h : Follows c Q V (g (c.peek n) c)) :
    Follows c Q V ((peek n >>= g) c) := h

/-- One token is passed, whatever it is. -/
theorem follows_advance (he : c.current.kind ≠ .eof)
    (h : Follows c.advance (fun a us => Q a (c.current :: us)) (fun us => V (c.current :: us))
      (g c.current c.advance)) : Follows c Q V ((advance >>= g) c) :=
  .prepend (.advance he) h

/-- What `expect` does: it takes the token at the cursor, or it blames it. -/
theorem follows_expect_self {what : Expected} {kinds : List TokenKind} (he : .eof ∉ kinds) :
    Follows c (fun t us d => t = c.current ∧ t.kind ∈ kinds ∧ us = [t] ∧ d = c.advance) (· = [])
      (expect what kinds c) := by
  unfold expect
  split
  · next hk =>
    have hk : c.current.kind ∈ kinds := by simpa using hk
    exact ⟨[c.current], .advance fun h => he (h ▸ hk), rfl, hk, rfl, rfl⟩
  · exact follows_fail _ rfl

/-- A token of an expected kind is passed, and any other is blamed. -/
theorem follows_expect {what : Expected} {kinds : List TokenKind} (he : .eof ∉ kinds) (hV : V [])
    (h : c.current.kind ∈ kinds → Follows c.advance (fun a us => Q a (c.current :: us))
      (fun us => V (c.current :: us)) (g c.current c.advance)) :
    Follows c Q V ((expect what kinds >>= g) c) := by
  refine follows_bind (follows_expect_self he) (fun us hus => hus ▸ hV) ?_
  rintro t us d - ⟨rfl, hk, rfl, rfl⟩
  exact h hk

theorem ne_eof_of_isNumeric {k : TokenKind} (h : k.isNumeric) : k ≠ .eof := by
  rintro rfl
  cases h

end

/-! ### Obeying rules -/

section
variable {α β : Type} {c : Cursor} {G : α → List Token → Prop} {H : β → List Token → Prop}
  {r : EStateM.Result ParseError Cursor α} {p q : Parse α} {f : α → Parse β} {g : Token → Parse α}

/-- A reading that started at `c` passed tokens with `G`, or the tokens in front of the one to blame
begin some with `G`. -/
def Obeys (c : Cursor) (G : α → List Token → Prop) (r : EStateM.Result ParseError Cursor α) : Prop :=
  Follows c (fun a us _ => G a us) (Viable G) r

/-- What goes on behind tokens obeys the rules for the whole. -/
theorem Obeys.follows (us : List Token) (h : Obeys c (fun a vs => G a (us ++ vs)) r) :
    Follows c (fun a vs _ => G a (us ++ vs)) (fun vs => Viable G (us ++ vs)) r :=
  Follows.imp h (fun _ _ _ _ hG => hG) fun _ => Viable.behind

/-- What was passed before counts as passed. -/
theorem Obeys.prepend {d : Cursor} {us : List Token} (hm : c.Moves us d)
    (h : Obeys d (fun a vs => G a (us ++ vs)) r) : Obeys c G r :=
  Follows.prepend hm (h.follows us)

theorem obeys_pure {a : α} (h : G a []) : Obeys c G ((pure a : Parse α) c) := follows_pure h

/-- A token may be blamed where something else could have stood. -/
theorem obeys_fail (fault : ParseFault) {a : α} {vs : List Token} (h : G a vs) :
    Obeys c G (fail fault c.current c : EStateM.Result ParseError Cursor α) :=
  follows_fail fault ⟨a, vs, h⟩

theorem obeys_ite {b : Prop} [Decidable b] (hp : b → Obeys c G (p c)) (hq : ¬b → Obeys c G (q c)) :
    Obeys c G ((if b then p else q) c) :=
  follows_ite hp hq

/-- Two actions in a row obey a rule that puts their parts together. -/
theorem obeys_bind (hp : Obeys c G (p c)) (hG : ∀ a us, G a us → Viable H us)
    (hf : ∀ a us d, c.Moves us d → G a us → Obeys d (fun b vs => H b (us ++ vs)) (f a d)) :
    Obeys c H ((p >>= f) c) :=
  follows_bind hp (fun _ h => h.imp hG) fun a us d hm ha => (hf a us d hm ha).follows us

theorem obeys_current (h : Obeys c G (g c.current c)) : Obeys c G ((current >>= g) c) := h

theorem obeys_peek (n : Nat) (h : Obeys c G (g (c.peek n) c)) : Obeys c G ((peek n >>= g) c) := h

/-- One token is passed, and what follows obeys the rest of the rule. -/
theorem obeys_advance (he : c.current.kind ≠ .eof)
    (h : Obeys c.advance (fun a us => G a (c.current :: us)) (g c.current c.advance)) :
    Obeys c G ((advance >>= g) c) :=
  .prepend (.advance he) h

/-- One token of an expected kind is passed, or one of them could have stood there. -/
theorem obeys_expect {what : Expected} {kinds : List TokenKind} (he : .eof ∉ kinds) {a : α}
    {vs : List Token} (ha : G a vs)
    (h : c.current.kind ∈ kinds →
      Obeys c.advance (fun a us => G a (c.current :: us)) (g c.current c.advance)) :
    Obeys c G ((expect what kinds >>= g) c) :=
  follows_expect he ⟨a, vs, ha⟩ fun hk => (h hk).follows [c.current]

end

end Parse

end IntelAsm

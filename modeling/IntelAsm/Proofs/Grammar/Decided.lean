import IntelAsm.Proofs.FrontEnd
import IntelAsm.Proofs.Grammar.Viable
import IntelAsm.Proofs.RoundTrip.Reading

/-!
# Readings decided at once

What an action makes of its tokens may be decided by those that it passes and the one behind them:
then they have the same value whatever follows (`Takes`). A failure may be decided by the token to
blame and those in front of it: then no other tokens behind it can help (`Refuses`). An action
decides at a cursor (`Parse.Decides`) if both hold there, and if what is passed or viable is told by
conditions as in `Parse.Follows`.

The laws are again one for each way to go on behind a basic action. There is none for a look at a
token behind the next one, since that is what an action that decides at once does not need.
-/

namespace IntelAsm

/-- An error stands at the token, and it is one of grammar unless the token is to be a number and
spells none. -/
structure ParseError.Blames (e : ParseError) (t : Token) : Prop where
  pos : e.pos = t.pos
  isSyntax : e.IsSyntax ∨ ¬t.toWord.IsNumeral

namespace Parse

section
variable {α β : Type} {p : Parse α} {f : α → Parse β} {us vs : List Token} {t : Token} {a : α}

/-- The action fails wherever the tokens `us`, and `t` behind them, are ahead. -/
def Refuses (p : Parse α) (us : List Token) (t : Token) : Prop :=
  ∀ past ws, ∃ e d, p ⟨past, us ++ t :: ws⟩ = .error e d

/-- Tokens that an action refuses cannot be passed, whatever follows them. -/
theorem Refuses.not_takes (h : Refuses p us t) (ws : List Token) :
    ¬Takes p (us ++ t :: ws) vs a := by
  intro htakes
  obtain ⟨e, d, herror⟩ := h [] ws
  obtain ⟨past, hok⟩ := htakes []
  rw [herror] at hok
  cases hok

/-- What the first of two actions refuses is refused by both. -/
theorem refuses_bind_left (h : Refuses p us t) : Refuses (p >>= f) us t := by
  intro past ws
  obtain ⟨e, d, herror⟩ := h past ws
  refine ⟨e, d, ?_⟩
  show EStateM.bind p f _ = _
  rw [EStateM.bind, herror]

/-- Behind tokens that the first action passes, both refuse what the second does. -/
theorem refuses_bind_right (hp : ∀ ws, Takes p (us ++ (vs ++ t :: ws)) (vs ++ t :: ws) a)
    (hf : Refuses (f a) vs t) : Refuses (p >>= f) (us ++ vs) t := by
  intro past ws
  obtain ⟨past', hok⟩ := hp ws past
  obtain ⟨e, d, herror⟩ := hf past' ws
  refine ⟨e, d, ?_⟩
  show EStateM.bind p f _ = _
  rw [EStateM.bind, List.append_assoc, hok]
  exact herror

/-- A token of no expected kind is refused at once. -/
theorem refuses_expect {what : Expected} {kinds : List TokenKind} (hk : t.kind ∉ kinds) :
    Refuses (expect what kinds) [] t := by
  intro past ws
  have hcurrent : ¬kinds.contains (Cursor.current ⟨past, t :: ws⟩).kind := by
    show ¬kinds.contains t.kind
    simpa using hk
  exact ⟨_, _, if_neg hcurrent⟩

end

section
variable {α β : Type} {c : Cursor} {p q : Parse α} {f : α → Parse β} {g : Token → Parse α}
  {Q Q' : α → List Token → Cursor → Prop} {R : β → List Token → Cursor → Prop}
  {V V' : List Token → Prop}

/-- From `c` the action passes tokens with `Q`, on which its value depends alone but for the token
behind them; or it blames a token that it refuses behind tokens with `V`. -/
def Decides (p : Parse α) (c : Cursor) (Q : α → List Token → Cursor → Prop)
    (V : List Token → Prop) : Prop :=
  Leaves
    (fun a d => ∃ us, c.Moves us d ∧ Q a us d ∧
      ∀ ws, Takes p (us ++ d.current :: ws) (d.current :: ws) a)
    (fun e _ => ∃ us d, c.Moves us d ∧ e.Blames d.current ∧ V us ∧ Refuses p us d.current)
    (p c)

namespace Decides

/-- Where the action succeeds, its value was decided by the tokens it passed and the next one. -/
theorem of_ok {a : α} {d : Cursor} (h : Decides p c Q V) (hp : p c = .ok a d) :
    ∃ us, c.Moves us d ∧ Q a us d ∧ ∀ ws, Takes p (us ++ d.current :: ws) (d.current :: ws) a := by
  unfold Decides at h
  rwa [hp] at h

/-- Where the action fails, the failure was decided at the token that it blames. -/
theorem of_error {e : ParseError} {d : Cursor} (h : Decides p c Q V) (hp : p c = .error e d) :
    ∃ us d, c.Moves us d ∧ e.Blames d.current ∧ V us ∧ Refuses p us d.current := by
  unfold Decides at h
  rwa [hp] at h

/-- What is said of the tokens passed, and of those in front of a fault, may be weakened. -/
theorem imp (h : Decides p c Q V) (hQ : ∀ a us d, c.Moves us d → Q a us d → Q' a us d)
    (hV : ∀ us, V us → V' us) : Decides p c Q' V' := by
  unfold Decides
  cases hp : p c with
  | ok a d =>
    obtain ⟨us, hm, hq, htakes⟩ := h.of_ok hp
    exact ⟨us, hm, hQ a us d hm hq, htakes⟩
  | error e d =>
    obtain ⟨us, d, hm, hblames, hv, hrefuses⟩ := h.of_error hp
    exact ⟨us, d, hm, hblames, hV us hv, hrefuses⟩

/-- An action that decides at once passes and blames tokens as its conditions say. -/
theorem follows (h : Decides p c Q V) : Follows c Q V (p c) := by
  cases hp : p c with
  | ok a d =>
    obtain ⟨us, hm, hq, -⟩ := h.of_ok hp
    exact ⟨us, hm, hq⟩
  | error e d =>
    obtain ⟨us, d, hm, hblames, hv, -⟩ := h.of_error hp
    exact ⟨us, d, hm, hblames.pos, hv⟩

end Decides

theorem decides_pure {a : α} (h : Q a [] c) : Decides (pure a) c Q V :=
  ⟨[], .refl c, h, fun _ => takes_pure⟩

/-- A failure for a fault of grammar is decided by the token it is blamed on. -/
theorem decides_fail {fault : ParseFault} (hf : ∀ base text, fault ≠ .notNumeral base text)
    (h : V []) : Decides (fail fault c.current) c Q V :=
  ⟨[], c, .refl c, ⟨rfl, .inl hf⟩, h, fun _ _ => ⟨_, _, rfl⟩⟩

theorem decides_ite {b : Prop} [Decidable b] (hp : b → Decides p c Q V)
    (hq : ¬b → Decides q c Q V) : Decides (if b then p else q) c Q V := by
  split
  · next h => exact hp h
  · next h => exact hq h

/-- Two actions decide if the first does and the second does wherever the first ends. -/
theorem decides_bind (hp : Decides p c Q V) (hV : ∀ us, V us → V' us)
    (hf : ∀ a us d, c.Moves us d → Q a us d →
      Decides (f a) d (fun b vs => R b (us ++ vs)) fun vs => V' (us ++ vs)) :
    Decides (p >>= f) c R V' := by
  show Leaves _ _ (EStateM.bind p f c)
  unfold EStateM.bind
  cases hc : p c with
  | error e d =>
    obtain ⟨us, d, hm, hblames, hv, hrefuses⟩ := hp.of_error hc
    exact ⟨us, d, hm, hblames, hV us hv, refuses_bind_left hrefuses⟩
  | ok a d =>
    obtain ⟨us, hm, hq, htakes⟩ := hp.of_ok hc
    have hrest := hf a us d hm hq
    -- the first token that the second action sees is the one behind the tokens of the first
    have htakes' {vs : List Token} {e : Cursor} (hm' : d.Moves vs e) (ws : List Token) :
        Takes p (us ++ (vs ++ e.current :: ws)) (vs ++ e.current :: ws) a := by
      obtain ⟨ws', hws⟩ := hm'.exists_append_eq ws
      rw [hws]
      exact htakes ws'
    show Leaves _ _ (f a d)
    cases hd : f a d with
    | ok b e =>
      obtain ⟨vs, hm', hr, hb⟩ := hrest.of_ok hd
      refine ⟨us ++ vs, hm.trans hm', hr, fun ws => ?_⟩
      rw [List.append_assoc]
      exact takes_bind (htakes' hm' ws) (hb ws)
    | error x e =>
      obtain ⟨vs, e, hm', hblames, hv, hrefuses⟩ := hrest.of_error hd
      exact ⟨us ++ vs, e, hm.trans hm', hblames, hv, refuses_bind_right (htakes' hm') hrefuses⟩

/-- To look at the next token decides nothing: that token is known to what follows. -/
theorem decides_current (h : Decides (g c.current) c Q V) : Decides (current >>= g) c Q V := by
  have hcurrent : Decides current c (fun t us _ => t = c.current ∧ us = []) fun _ => False :=
    ⟨[], .refl c, ⟨rfl, rfl⟩, fun _ => takes_current⟩
  refine decides_bind hcurrent nofun ?_
  rintro t us d hm ⟨rfl, rfl⟩
  rw [hm.eq_of_nil]
  exact h

/-- A token that is taken if it is not the end marker. -/
theorem decides_advance (he : c.current.kind ≠ .eof)
    (h : Decides (g c.current) c.advance (fun a us => Q a (c.current :: us))
      fun us => V (c.current :: us)) : Decides (advance >>= g) c Q V := by
  have hadvance : Decides advance c
      (fun t us d => t = c.current ∧ us = [c.current] ∧ d = c.advance) fun _ => False :=
    ⟨[c.current], .advance he, ⟨rfl, rfl, rfl⟩, fun _ => takes_advance⟩
  refine decides_bind hadvance nofun ?_
  rintro t us d - ⟨rfl, rfl, rfl⟩
  exact h

/-- A token that has to be of some kinds is refused or passed, and nothing else. -/
theorem decides_expect {what : Expected} {kinds : List TokenKind} (he : .eof ∉ kinds) (hV : V [])
    (h : c.current.kind ∈ kinds → Decides (g c.current) c.advance
      (fun a us => Q a (c.current :: us)) fun us => V (c.current :: us)) :
    Decides (expect what kinds >>= g) c Q V := by
  have hexpect : Decides (expect what kinds) c
      (fun t us d => t = c.current ∧ t.kind ∈ kinds ∧ us = [t] ∧ d = c.advance) (· = []) := by
    unfold Decides
    by_cases hk : c.current.kind ∈ kinds
    · have hok : expect what kinds c = .ok c.current c.advance := if_pos (by simpa using hk)
      rw [hok]
      exact ⟨[c.current], .advance fun h => he (h ▸ hk), ⟨rfl, hk, rfl, rfl⟩,
        fun _ => takes_expect hk⟩
    · have herror : expect what kinds c =
          .error ⟨.expected what c.current.toWord, c.current.pos⟩ c := if_neg (by simpa using hk)
      rw [herror]
      exact ⟨[], c, .refl c, ⟨rfl, .inl nofun⟩, rfl, refuses_expect hk⟩
  refine decides_bind hexpect (fun us hus => hus ▸ hV) ?_
  rintro t us d - ⟨rfl, hk, rfl, rfl⟩
  exact h hk

/-- A literal that has to have a value is refused or passed with that value. -/
theorem decides_number {g : Int → Parse α} {what : Expected} (hV : V [])
    (h : ∀ v, c.current.kind.isNumeric → c.current.value = .ok v → Decides (g v) c.advance
      (fun a us => Q a (c.current :: us)) fun us => V (c.current :: us)) :
    Decides (number what >>= g) c Q V := by
  have hnumber : Decides (number what) c (fun v us d => c.current.kind.isNumeric ∧
      c.current.value = .ok v ∧ us = [c.current] ∧ d = c.advance) (· = []) := by
    refine decides_current (decides_ite (fun hk => ?_) fun _ => decides_fail nofun rfl)
    cases hv : c.current.value with
    | ok v =>
      exact ⟨[c.current], .advance (ne_eof_of_isNumeric hk), ⟨hk, rfl, rfl, rfl⟩,
        fun ws past => ⟨_, rfl⟩⟩
    | error f =>
      have hblames : ParseError.Blames ⟨f, c.current.pos⟩ c.current := by
        refine ⟨rfl, (em c.current.toWord.IsNumeral).imp_left fun hn base text hf => ?_⟩
        exact hn.value_ne hk base text (hv.trans (congrArg _ hf))
      exact ⟨[], c, .refl c, hblames, rfl, fun _ _ => ⟨_, _, rfl⟩⟩
  refine decides_bind hnumber (fun us hus => hus ▸ hV) ?_
  rintro v us d - ⟨hk, hv, rfl, rfl⟩
  exact h v hk hv

end

end Parse

end IntelAsm

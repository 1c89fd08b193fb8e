import IntelAsm.Proofs.Grammar.Rules
import Mathlib.Data.List.Forall2

/-!
# Exchanging literals

The grammar asks of a literal that it has a value, and not which, and it does not ask where tokens
stand. So literals of a program may be exchanged for others that have values, wherever that puts the
tokens, and they still form a program (`Lines.exchange`). There is one law for each part of the
grammar. All that later parts need of the tree of an earlier one is the index of an address, since
an address has no second one.
-/

namespace IntelAsm

open Descent (IsSum IsProduct)

/-- The token `u` may stand in the place of `t`: it is the same word, or both are literals and `u`
has a value. -/
def Token.Exchanges (t u : Token) : Prop :=
  u.toWord = t.toWord ∨ t.kind.isNumeric ∧ u.kind.isNumeric ∧ ∃ v, u.value = .ok v

/-- The tokens `us` are `ts` with literals exchanged. -/
abbrev Exchanged (ts us : List Token) : Prop := List.Forall₂ Token.Exchanges ts us

namespace Exchanged

variable {t : Token} {k : TokenKind} {as bs ts us : List Token}

/-- Tokens that are the same words, at whatever places, are exchanged for each other. -/
theorem of_words (h : us.map Token.toWord = ts.map Token.toWord) : Exchanged ts us := by
  have heq : List.Forall₂ (· = ·) (ts.map Token.toWord) (us.map Token.toWord) := by
    rw [List.forall₂_eq_eq_eq]
    exact h.symm
  exact (List.forall₂_map_right_iff.1 (List.forall₂_map_left_iff.1 heq)).imp fun t u htu =>
    .inl htu.symm

theorem of_nil (h : Exchanged [] us) : us = [] := List.forall₂_nil_left_iff.1 h

/-- An exchange in a row of tokens is one in each of its parts. -/
theorem of_append (h : Exchanged (as ++ bs) us) :
    ∃ cs ds, us = cs ++ ds ∧ Exchanged as cs ∧ Exchanged bs ds := by
  induction as generalizing us with
  | nil => exact ⟨[], us, rfl, .nil, h⟩
  | cons a as ih =>
    obtain ⟨u, us, hu, hus, rfl⟩ := List.forall₂_cons_left_iff.1 h
    obtain ⟨cs, ds, rfl, hcs, hds⟩ := ih hus
    exact ⟨u :: cs, ds, rfl, .cons hu hcs, hds⟩

/-- A token that is no literal stays the word that it is. -/
theorem of_cons (ht : t.kind = k) (hk : k.isNumeric = false) (h : Exchanged (t :: ts) us) :
    ∃ u vs, us = u :: vs ∧ u.kind = k ∧ u.text = t.text ∧ Exchanged ts vs := by
  obtain ⟨u, vs, hu, hvs, rfl⟩ := List.forall₂_cons_left_iff.1 h
  rcases hu with hword | ⟨hn, -⟩
  · exact ⟨u, vs, rfl, (congrArg Word.kind hword).trans ht, congrArg Word.text hword, hvs⟩
  · rw [ht, hk] at hn
    cases hn

/-- The operator of a sum stays one. -/
theorem of_cons_sum (ht : IsSum t.kind) (h : Exchanged (t :: ts) us) :
    ∃ u vs, us = u :: vs ∧ IsSum u.kind ∧ Exchanged ts vs := by
  rcases ht with ht | ht
  · obtain ⟨u, vs, rfl, hu, -, hvs⟩ := h.of_cons ht rfl
    exact ⟨u, vs, rfl, .inl hu, hvs⟩
  · obtain ⟨u, vs, rfl, hu, -, hvs⟩ := h.of_cons ht rfl
    exact ⟨u, vs, rfl, .inr hu, hvs⟩

/-- The operator of a product stays one. -/
theorem of_cons_product (ht : IsProduct t.kind) (h : Exchanged (t :: ts) us) :
    ∃ u vs, us = u :: vs ∧ IsProduct u.kind ∧ Exchanged ts vs := by
  rcases ht with ht | ht | ht
  · obtain ⟨u, vs, rfl, hu, -, hvs⟩ := h.of_cons ht rfl
    exact ⟨u, vs, rfl, .inl hu, hvs⟩
  · obtain ⟨u, vs, rfl, hu, -, hvs⟩ := h.of_cons ht rfl
    exact ⟨u, vs, rfl, .inr (.inl hu), hvs⟩
  · obtain ⟨u, vs, rfl, hu, -, hvs⟩ := h.of_cons ht rfl
    exact ⟨u, vs, rfl, .inr (.inr hu), hvs⟩

/-- A single token that is no literal stays the word that it is. -/
theorem of_singleton (ht : t.kind = k) (hk : k.isNumeric = false) (h : Exchanged [t] us) :
    ∃ u, us = [u] ∧ u.kind = k ∧ u.text = t.text := by
  obtain ⟨u, vs, rfl, hu, htext, hvs⟩ := h.of_cons ht hk
  obtain rfl := of_nil hvs
  exact ⟨u, rfl, hu, htext⟩

/-- A literal with a value is exchanged for one with a value. -/
theorem of_literal {v : Int} (ht : t.kind.isNumeric) (hv : t.value = .ok v)
    (h : Exchanged [t] us) : ∃ u w, us = [u] ∧ u.kind.isNumeric ∧ u.value = .ok w := by
  obtain ⟨u, vs, hu, hvs, rfl⟩ := List.forall₂_cons_left_iff.1 h
  obtain rfl := of_nil hvs
  rcases hu with hword | ⟨-, hn, w, hw⟩
  · have hk : u.kind = t.kind := congrArg Word.kind hword
    have hvalue : u.value = t.value := congrArg Word.value hword
    exact ⟨u, v, rfl, hk ▸ ht, hvalue.trans hv⟩
  · exact ⟨u, w, rfl, hn, hw⟩

theorem ne_nil (h : Exchanged ts us) (hts : ts ≠ []) : us ≠ [] := by
  rintro rfl
  exact hts (List.forall₂_nil_right_iff.1 h)

/-- No exchange makes or takes away a keyword. -/
theorem keywordAhead_iff (h : Exchanged ts us) : KeywordAhead ts ↔ KeywordAhead us := by
  cases h with
  | nil => rfl
  | @cons t u ts us hu hus =>
    rcases hu with hword | ⟨ht, hu, -⟩
    · show t.kind = .ident ∧ isLabelKeyword t.text ↔ u.kind = .ident ∧ isLabelKeyword u.text
      rw [show u.kind = t.kind from congrArg Word.kind hword,
        show u.text = t.text from congrArg Word.text hword]
    · have hne {a : Token} (ha : a.kind.isNumeric) (as : List Token) : ¬KeywordAhead (a :: as) := by
        rintro ⟨hk, -⟩
        rw [hk] at ha
        cases ha
      exact iff_of_false (hne ht _) (hne hu _)

/-- A label in front of its colon stays one. -/
theorem labelAhead (h : Exchanged ts us) (ha : LabelAhead ts) : LabelAhead us := by
  match ts, ha with
  | t :: u :: ts, ⟨ht, hu⟩ =>
    obtain ⟨_, _, rfl, ht', -, hin⟩ := h.of_cons ht rfl
    obtain ⟨_, _, rfl, hu', -, -⟩ := hin.of_cons hu rfl
    exact ⟨ht', hu'⟩

end Exchanged

/-! ### One law for each part of the grammar -/

/-- With literals exchanged an expression is still spelled, at the same level. -/
theorem Expr.Spells.exchange {level : Level} {e : Expr} {ts us : List Token}
    (h : e.Spells level ts) (hus : Exchanged ts us) : ∃ f, Expr.Spells level f us := by
  induction h generalizing us with
  | literal hk hv =>
    obtain ⟨u, w, rfl, hu, hw⟩ := hus.of_literal hk hv
    exact ⟨_, .literal hu hw⟩
  | here hk =>
    obtain ⟨u, rfl, hu, -⟩ := hus.of_singleton hk rfl
    exact ⟨_, .here hu⟩
  | symbol hk =>
    obtain ⟨u, rfl, hu, -⟩ := hus.of_singleton hk rfl
    exact ⟨_, .symbol hu⟩
  | paren hl he hr ih =>
    obtain ⟨_, _, rfl, hl', -, hin⟩ := hus.of_cons hl rfl
    obtain ⟨cs, _, rfl, hcs, hend⟩ := hin.of_append
    obtain ⟨_, rfl, hr', -⟩ := hend.of_singleton hr rfl
    obtain ⟨f, hf⟩ := ih hcs
    exact ⟨f, .paren hl' hf hr'⟩
  | sign ht he ih =>
    obtain ⟨_, _, rfl, ht', hin⟩ := hus.of_cons_sum ht
    obtain ⟨f, hf⟩ := ih hin
    exact ⟨_, .sign ht' hf⟩
  | ofOperand he ih =>
    obtain ⟨f, hf⟩ := ih hus
    exact ⟨f, .ofOperand hf⟩
  | mul hl ht hr ihl ihr =>
    obtain ⟨cs, _, rfl, hcs, hin⟩ := hus.of_append
    obtain ⟨_, ds, rfl, ht', hds⟩ := hin.of_cons_product ht
    obtain ⟨f, hf⟩ := ihl hcs
    obtain ⟨g, hg⟩ := ihr hds
    exact ⟨_, .mul hf ht' hg⟩
  | ofProduct he ih =>
    obtain ⟨f, hf⟩ := ih hus
    exact ⟨f, .ofProduct hf⟩
  | add hl ht hr ihl ihr =>
    obtain ⟨cs, _, rfl, hcs, hin⟩ := hus.of_append
    obtain ⟨_, ds, rfl, ht', hds⟩ := hin.of_cons_sum ht
    obtain ⟨f, hf⟩ := ihl hcs
    obtain ⟨g, hg⟩ := ihr hds
    exact ⟨_, .add hf ht' hg⟩

namespace Address

section
variable {a b c : Address} {ts us : List Token} (hc : c.index = a.index) (hus : Exchanged ts us)
include hc hus

/-- A term of an address stays one, and has an index only if it had one. -/
theorem SpellsTerm.exchange (h : a.SpellsTerm b ts) :
    ∃ d, c.SpellsTerm d us ∧ d.index = b.index := by
  cases h with
  | index hs ha hr =>
    obtain ⟨_, _, rfl, hs', hin⟩ := hus.of_cons_sum hs
    obtain ⟨_, rfl, hr', htext⟩ := hin.of_singleton hr rfl
    exact ⟨_, .index hs' (hc.trans ha) hr', congrArg some htext⟩
  | scaled hs ha hr hm ht hv =>
    obtain ⟨_, _, rfl, hs', hin⟩ := hus.of_cons_sum hs
    obtain ⟨_, _, rfl, hr', htext, hin'⟩ := hin.of_cons hr rfl
    obtain ⟨_, _, rfl, hm', -, hin''⟩ := hin'.of_cons hm rfl
    obtain ⟨u, w, rfl, hu, hw⟩ := hin''.of_literal ht hv
    exact ⟨_, .scaled hs' (hc.trans ha) hr' hm' hu hw, congrArg some htext⟩
  | displacement hs ht hv =>
    obtain ⟨_, _, rfl, hs', hin⟩ := hus.of_cons_sum hs
    obtain ⟨u, w, rfl, hu, hw⟩ := hin.of_literal ht hv
    exact ⟨_, .displacement hs' hu hw, hc⟩

/-- So do all terms behind the first. -/
theorem SpellsTerms.exchange (h : a.SpellsTerms b ts) : ∃ d, c.SpellsTerms d us := by
  induction h generalizing c us with
  | nil =>
    obtain rfl := hus.of_nil
    exact ⟨c, .nil⟩
  | cons ht hts ih =>
    obtain ⟨cs, ds, rfl, hcs, hds⟩ := hus.of_append
    obtain ⟨d, hd, hindex⟩ := ht.exchange hc hcs
    obtain ⟨e, he⟩ := ih hindex hds
    exact ⟨e, .cons hd he⟩

/-- And so does the first. -/
theorem SpellsFirst.exchange (h : a.SpellsFirst b ts) :
    ∃ d, c.SpellsFirst d us ∧ d.index = b.index := by
  cases h with
  | none =>
    obtain rfl := hus.of_nil
    exact ⟨c, .none, hc⟩
  | base hr =>
    obtain ⟨_, rfl, hr', -⟩ := hus.of_singleton hr rfl
    exact ⟨_, .base hr', hc⟩
  | displacement ht hv =>
    obtain ⟨u, w, rfl, hu, hw⟩ := hus.of_literal ht hv
    exact ⟨_, .displacement hu hw, hc⟩

end

end Address

/-- Segment registers are never exchanged. -/
theorem SpellsSegment.exchange {outside segment : Option String} {ts us : List Token}
    (h : SpellsSegment outside segment ts) (hus : Exchanged ts us) :
    SpellsSegment outside segment us := by
  cases h with
  | none =>
    obtain rfl := hus.of_nil
    exact .none
  | inside ho hr hc =>
    obtain ⟨_, _, rfl, hr', htext, hin⟩ := hus.of_cons hr rfl
    obtain ⟨_, rfl, hc', -⟩ := hin.of_singleton hc rfl
    exact htext ▸ .inside ho hr' hc'

/-- An address stays an address. -/
theorem Address.Spells.exchange {outside : Option String} {a : Address} {ts us : List Token}
    (h : a.Spells outside ts) (hus : Exchanged ts us) : ∃ b, Address.Spells outside b us := by
  cases h with
  | mk hl hs hu hv hne hr =>
    obtain ⟨_, _, rfl, hl', -, hin⟩ := hus.of_cons hl rfl
    obtain ⟨ss, _, rfl, hss, hin'⟩ := hin.of_append
    obtain ⟨us, _, rfl, hfirst, hin''⟩ := hin'.of_append
    obtain ⟨vs, _, rfl, hterms, hend⟩ := hin''.of_append
    obtain ⟨_, rfl, hr', -⟩ := hend.of_singleton hr rfl
    obtain ⟨d, hd, hindex⟩ := hu.exchange rfl hfirst
    obtain ⟨e, he⟩ := hv.exchange hindex hterms
    have hne' := hne.imp (Exchanged.ne_nil hfirst) (Exchanged.ne_nil hterms)
    exact ⟨e, .mk hl' (hs.exchange hss) hd he hne' hr'⟩

/-- An operand stays one, though its form may be another. -/
theorem OperandForm.Spells.exchange {f : OperandForm} {ts us : List Token} (h : f.Spells ts)
    (hus : Exchanged ts us) : ∃ g, OperandForm.Spells g us := by
  cases h with
  | register ht =>
    obtain ⟨_, rfl, hu, -⟩ := hus.of_singleton ht rfl
    exact ⟨_, .register hu⟩
  | string ht =>
    obtain ⟨_, rfl, hu, -⟩ := hus.of_singleton ht rfl
    exact ⟨_, .string hu⟩
  | memory ha =>
    obtain ⟨b, hb⟩ := ha.exchange hus
    exact ⟨_, .memory hb⟩
  | segmented hs hc ha =>
    obtain ⟨_, _, rfl, hs', htext, hin⟩ := hus.of_cons hs rfl
    obtain ⟨_, _, rfl, hc', -, hin'⟩ := hin.of_cons hc rfl
    obtain ⟨b, hb⟩ := ha.exchange hin'
    rw [← htext] at hb
    exact ⟨_, .segmented hs' hc' hb⟩
  | expression he =>
    obtain ⟨e, he⟩ := he.exchange hus
    exact ⟨_, .expression he⟩

namespace Operand

variable {o : Operand} {os : List Operand} {ts us : List Token}

/-- With its size in front of it, an operand stays one. -/
theorem Spells.exchange (h : o.Spells ts) (hus : Exchanged ts us) : ∃ p, Operand.Spells p us := by
  cases h with
  | plain hf =>
    obtain ⟨g, hg⟩ := hf.exchange hus
    obtain ⟨u, us, rfl, -⟩ := hg.starts
    exact ⟨_, .plain hg⟩
  | sized ht hf =>
    obtain ⟨_, _, rfl, ht', -, hin⟩ := hus.of_cons ht rfl
    obtain ⟨g, hg⟩ := hf.exchange hin
    exact ⟨_, .sized ht' hg⟩

/-- Operands behind commas stay operands. -/
theorem SpellsMore.exchange (h : SpellsMore os ts) (hus : Exchanged ts us) :
    ∃ ps, SpellsMore ps us := by
  induction h generalizing us with
  | nil =>
    obtain rfl := hus.of_nil
    exact ⟨[], .nil⟩
  | cons ht ho hos ih =>
    obtain ⟨_, _, rfl, ht', -, hin⟩ := hus.of_cons ht rfl
    obtain ⟨cs, ds, rfl, hcs, hds⟩ := hin.of_append
    obtain ⟨p, hp⟩ := ho.exchange hcs
    obtain ⟨ps, hps⟩ := ih hds
    exact ⟨p :: ps, .cons ht' hp hps⟩

/-- A list of operands stays one. -/
theorem SpellsAll.exchange (h : SpellsAll os ts) (hus : Exchanged ts us) :
    ∃ ps, SpellsAll ps us := by
  cases h with
  | nil =>
    obtain rfl := hus.of_nil
    exact ⟨[], .nil⟩
  | cons ho hos =>
    obtain ⟨cs, ds, rfl, hcs, hds⟩ := hus.of_append
    obtain ⟨p, hp⟩ := ho.exchange hcs
    obtain ⟨ps, hps⟩ := hos.exchange hds
    exact ⟨p :: ps, .cons hp hps⟩

end Operand

section
variable {label comment : Option String} {ts us : List Token}

/-- An instruction stays one, with the same label and comment. -/
theorem Instruction.Spells.exchange {i : Instruction} (h : i.Spells label comment ts)
    (hus : Exchanged ts us) : ∃ j, Instruction.Spells label comment j us := by
  cases h with
  | equate ht hm he =>
    obtain ⟨_, _, rfl, ht', htext, hin⟩ := hus.of_cons ht rfl
    obtain ⟨f, hf⟩ := he.exchange hin
    rw [← htext] at hm
    exact ⟨_, .equate ht' hm hf⟩
  | operation ht hm hos =>
    obtain ⟨_, _, rfl, ht', htext, hin⟩ := hus.of_cons ht rfl
    obtain ⟨ps, hps⟩ := hos.exchange hin
    rw [← htext] at hm
    exact ⟨_, .operation ht' hm hps⟩

/-- Comments are never exchanged. -/
theorem SpellsComment.exchange (h : SpellsComment comment ts) (hus : Exchanged ts us) :
    SpellsComment comment us := by
  cases h with
  | none =>
    obtain rfl := hus.of_nil
    exact .none
  | some ht =>
    obtain ⟨_, rfl, ht', htext⟩ := hus.of_singleton ht rfl
    exact htext ▸ .some ht'

/-- What stands on a line stays a label or a statement. -/
theorem Item.Spells.exchange {x : Item} (h : x.Spells comment ts) (hus : Exchanged ts us) :
    ∃ y, Item.Spells comment y us := by
  cases h with
  | label ht hu =>
    obtain ⟨_, _, rfl, ht', -, hin⟩ := hus.of_cons ht rfl
    obtain ⟨_, rfl, hu', -⟩ := hin.of_singleton hu rfl
    exact ⟨_, .label ht' hu'⟩
  | labelled ht hu hi =>
    obtain ⟨_, _, rfl, ht', htext, hin⟩ := hus.of_cons ht rfl
    obtain ⟨_, _, rfl, hu', -, hin'⟩ := hin.of_cons hu rfl
    obtain ⟨j, hj⟩ := hi.exchange hin'
    rw [← htext] at hj
    exact ⟨_, .labelled ht' hu' hj⟩
  | keyword ht hk hi =>
    obtain ⟨_, _, rfl, ht', htext, hin⟩ := hus.of_cons ht rfl
    obtain ⟨j, hj⟩ := hi.exchange hin
    rw [← htext] at hj
    exact ⟨_, .keyword ht' (hin.keywordAhead_iff.1 hk) hj⟩
  | plain hk hi =>
    obtain ⟨j, hj⟩ := hi.exchange hus
    obtain ⟨m, ts, rfl, hm⟩ := hi.starts
    obtain ⟨_, _, rfl, -, -, hin⟩ := hus.of_cons hm rfl
    exact ⟨_, .plain (fun h => hk (hin.keywordAhead_iff.2 h)) hj⟩

end

/-- A program stays a program, line by line. -/
theorem Lines.exchange {xs : List Item} {ts us : List Token} (h : Lines xs ts)
    (hus : Exchanged ts us) : ∃ ys, Lines ys us := by
  induction h generalizing us with
  | nil =>
    obtain rfl := hus.of_nil
    exact ⟨[], .nil⟩
  | skip ht hxs ih =>
    rcases ht with ht | ht
    · obtain ⟨_, _, rfl, ht', -, hin⟩ := hus.of_cons ht rfl
      obtain ⟨ys, hys⟩ := ih hin
      exact ⟨ys, .skip (.inl ht') hys⟩
    · obtain ⟨_, _, rfl, ht', -, hin⟩ := hus.of_cons ht rfl
      obtain ⟨ys, hys⟩ := ih hin
      exact ⟨ys, .skip (.inr ht') hys⟩
  | label ht hu ha hxs ih =>
    obtain ⟨_, _, rfl, ht', -, hin⟩ := hus.of_cons ht rfl
    obtain ⟨_, _, rfl, hu', -, hin'⟩ := hin.of_cons hu rfl
    obtain ⟨ys, hys⟩ := ih hin'
    exact ⟨_, .label ht' hu' (hin'.labelAhead ha) hys⟩
  | statement hx hc hend hxs ih =>
    obtain ⟨cs, _, rfl, hcs, hin⟩ := hus.of_append
    obtain ⟨ds, es, rfl, hds, hes⟩ := hin.of_append
    obtain ⟨y, hy⟩ := hx.exchange hcs
    obtain ⟨ys, hys⟩ := ih hes
    refine ⟨y :: ys, .statement hy (hc.exchange hds) ?_ hys⟩
    rintro n hn
    cases hes with
    | nil => cases hn
    | cons hu hes' =>
      obtain ⟨_, _, heq, hnewline, -⟩ := Exchanged.of_cons (hend _ rfl) rfl (.cons hu hes')
      obtain ⟨rfl, -⟩ := List.cons.inj heq
      obtain rfl : _ = n := Option.some.inj hn
      exact hnewline

end IntelAsm

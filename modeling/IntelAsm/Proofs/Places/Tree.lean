import IntelAsm.Proofs.Grammar.Rules
import IntelAsm.Proofs.Lexer.Partition

/-!
# Places in trees

Where the parts of a statement stand among its tokens: an operand and an instruction at the first of
theirs, and a node of an expression at the first that opens no parenthesis. Each part has its own
tokens, which are some of those of the whole, in one piece.

So the places of operands, of a directive and of the two sides of an operator come in the order of
the tokens (`Instruction.Spells.ordered`).
-/

namespace IntelAsm

open Descent (IsSum IsProduct)

/-! ### Expressions -/

/-- An expression and all expressions inside it. -/
def Expr.nodes : Expr → List Expr
  | .unary op e pos => .unary op e pos :: e.nodes
  | .binary op l r pos => .binary op l r pos :: (l.nodes ++ r.nodes)
  | e => [e]

/-- Where the first token stands that opens no parenthesis. -/
def firstPos? (ts : List Token) : Option Pos :=
  (ts.find? (·.kind ≠ .mark .leftParen)).map (·.pos)

/-- An expression with its own tokens, and so every expression inside it. A node stands at the first
of its tokens that opens no parenthesis. -/
inductive Expr.PlacedOn : Expr → List Token → Prop where
  | literal {t : Token} {v : Int} {isHex : Bool} (hk : t.kind.isNumeric) :
      PlacedOn (.literal v isHex t.pos) [t]
  | here {t : Token} (hk : t.kind = .mark .dollar) : PlacedOn (.here t.pos) [t]
  | symbol {t : Token} (hk : t.kind = .ident) : PlacedOn (.symbol t.text t.pos) [t]
  | paren {l r : Token} {e : Expr} {ts : List Token} (hl : l.kind = .mark .leftParen)
      (he : PlacedOn e ts) (hr : r.kind = .mark .rightParen) : PlacedOn e (l :: (ts ++ [r]))
  | sign {t : Token} {e : Expr} {ts : List Token} (ht : IsSum t.kind) (he : PlacedOn e ts) :
      PlacedOn (.unary t.text e t.pos) (t :: ts)
  | operator {t : Token} {l r : Expr} {us vs : List Token} {pos : Pos} (hl : PlacedOn l us)
      (ht : IsSum t.kind ∨ IsProduct t.kind) (hr : PlacedOn r vs)
      (hpos : firstPos? (us ++ t :: vs) = some pos) :
      PlacedOn (.binary t.text l r pos) (us ++ t :: vs)

/-- What is on the left of an operator stands before what is on its right. -/
def Expr.Ordered (e : Expr) : Prop :=
  ∀ op l r pos, .binary op l r pos ∈ e.nodes → ∀ m ∈ l.nodes, ∀ n ∈ r.nodes, m.pos < n.pos

theorem firstPos?_cons {t : Token} (ht : t.kind ≠ .mark .leftParen) (ts : List Token) :
    firstPos? (t :: ts) = some t.pos := by
  unfold firstPos?
  rw [List.find?_cons_of_pos (by simpa using ht)]
  rfl

theorem firstPos?_cons_of_leftParen {l : Token} (hl : l.kind = .mark .leftParen) (ts : List Token) :
    firstPos? (l :: ts) = firstPos? ts := by
  unfold firstPos?
  rw [List.find?_cons_of_neg (by simpa using hl)]

theorem firstPos?_append {us : List Token} {pos : Pos} (h : firstPos? us = some pos)
    (vs : List Token) : firstPos? (us ++ vs) = some pos := by
  unfold firstPos? at *
  obtain ⟨t, ht, rfl⟩ := Option.map_eq_some_iff.1 h
  rw [List.find?_append, ht]
  rfl

/-- Every node stands at the first of its tokens that opens no parenthesis. -/
theorem Expr.PlacedOn.firstPos?_eq {e : Expr} {us : List Token} (h : e.PlacedOn us) :
    firstPos? us = some e.pos := by
  induction h with
  | literal hk => exact firstPos?_cons (by rintro h; simp [h, TokenKind.isNumeric] at hk) []
  | here hk => exact firstPos?_cons (by simp [hk]) []
  | symbol hk => exact firstPos?_cons (by simp [hk]) []
  | paren hl he hr ih =>
    rw [firstPos?_cons_of_leftParen hl]
    exact firstPos?_append ih _
  | sign ht he ih => exact firstPos?_cons (by rcases ht with ht | ht <;> simp [ht]) _
  | operator hl ht hr hpos ihl ihr => exact hpos

namespace Expr.Spells

variable {level : Level} {e : Expr} {us : List Token}

/-- The tokens that spell an expression are its own. -/
theorem placedOn (h : e.Spells level us) : e.PlacedOn us := by
  induction h with
  | literal hk hv => exact .literal hk
  | here hk => exact .here hk
  | symbol hk => exact .symbol hk
  | paren hl he hr ih => exact .paren hl ih hr
  | sign ht he ih => exact .sign ht ih
  | ofOperand he ih => exact ih
  | mul hl ht hr ihl ihr =>
    exact .operator ihl (.inr ht) ihr (firstPos?_append ihl.firstPos?_eq _)
  | ofProduct he ih => exact ih
  | add hl ht hr ihl ihr =>
    exact .operator ihl (.inl ht) ihr (firstPos?_append ihl.firstPos?_eq _)

/-- Every node of an expression has its own tokens. -/
theorem of_mem_nodes (h : e.Spells level us) {n : Expr} (hn : n ∈ e.nodes) :
    ∃ vs level, vs <:+: us ∧ n.Spells level vs := by
  have hsides {l r : Expr} {t : Token} {us vs : List Token}
      (ihl : n ∈ l.nodes → ∃ ws level, ws <:+: us ∧ n.Spells level ws)
      (ihr : n ∈ r.nodes → ∃ ws level, ws <:+: vs ∧ n.Spells level ws)
      (hn : n ∈ l.nodes ++ r.nodes) :
      ∃ ws level, ws <:+: us ++ t :: vs ∧ n.Spells level ws := by
    rcases List.mem_append.1 hn with hn | hn
    · obtain ⟨ws, lv, hws, hn⟩ := ihl hn
      exact ⟨ws, lv, hws.trans (List.prefix_append _ _).isInfix, hn⟩
    · obtain ⟨ws, lv, hws, hn⟩ := ihr hn
      exact ⟨ws, lv, hws.trans ⟨us ++ [t], [], by simp⟩, hn⟩
  induction h with
  | literal hk hv =>
    obtain rfl := List.mem_singleton.1 hn
    exact ⟨_, _, List.infix_refl _, .literal hk hv⟩
  | here hk =>
    obtain rfl := List.mem_singleton.1 hn
    exact ⟨_, _, List.infix_refl _, .here hk⟩
  | symbol hk =>
    obtain rfl := List.mem_singleton.1 hn
    exact ⟨_, _, List.infix_refl _, .symbol hk⟩
  | @paren l r e ts hl he hr ih =>
    obtain ⟨vs, lv, hvs, hn⟩ := ih hn
    exact ⟨vs, lv, hvs.trans ⟨[l], [r], by simp⟩, hn⟩
  | @sign t e ts ht he ih =>
    rcases List.mem_cons.1 hn with rfl | hn
    · exact ⟨_, _, List.infix_refl _, .sign ht he⟩
    · obtain ⟨vs, lv, hvs, hn⟩ := ih hn
      exact ⟨vs, lv, hvs.trans (List.suffix_cons t ts).isInfix, hn⟩
  | ofOperand he ih => exact ih hn
  | mul hl ht hr ihl ihr =>
    rcases List.mem_cons.1 hn with rfl | hn
    · exact ⟨_, _, List.infix_refl _, .mul hl ht hr⟩
    · exact hsides ihl ihr hn
  | ofProduct he ih => exact ih hn
  | add hl ht hr ihl ihr =>
    rcases List.mem_cons.1 hn with rfl | hn
    · exact ⟨_, _, List.infix_refl _, .add hl ht hr⟩
    · exact hsides ihl ihr hn

theorem pos_mem (h : e.Spells level us) : e.pos ∈ us.map (·.pos) := by
  obtain ⟨t, ht, hpos⟩ := Option.map_eq_some_iff.1 h.placedOn.firstPos?_eq
  exact List.mem_map.2 ⟨t, List.mem_of_find?_eq_some ht, hpos⟩

/-- Every node stands at one of the tokens. -/
theorem pos_mem_of_mem_nodes (h : e.Spells level us) {n : Expr} (hn : n ∈ e.nodes) :
    n.pos ∈ us.map (·.pos) := by
  obtain ⟨vs, lv, hvs, hn⟩ := h.of_mem_nodes hn
  exact (hvs.map _).subset hn.pos_mem

/-- The tokens of the sides of an operator do not overlap. -/
theorem sides {op : String} {l r : Expr} {pos : Pos}
    (h : (Expr.binary op l r pos).Spells level us) :
    ∃ vs ws lv lv', (vs ++ ws).Sublist us ∧ l.Spells lv vs ∧ r.Spells lv' ws := by
  generalize he : Expr.binary op l r pos = e at h
  induction h with
  | paren hl h hr ih =>
    obtain ⟨vs, ws, lv, lv', hsub, hl, hr⟩ := ih he
    exact ⟨vs, ws, lv, lv', (hsub.trans (List.sublist_append_left _ _)).cons _, hl, hr⟩
  | ofOperand h ih => exact ih he
  | ofProduct h ih => exact ih he
  | mul hl ht hr ihl ihr =>
    cases he
    exact ⟨_, _, _, _, (List.Sublist.refl _).append (List.sublist_cons_self _ _), hl, hr⟩
  | add hl ht hr ihl ihr =>
    cases he
    exact ⟨_, _, _, _, (List.Sublist.refl _).append (List.sublist_cons_self _ _), hl, hr⟩
  | _ => cases he

theorem ordered (h : e.Spells level us) (hus : us.Pairwise (·.pos < ·.pos)) : e.Ordered := by
  intro op l r pos he m hm n hn
  obtain ⟨vs, lv, hvs, hbinary⟩ := h.of_mem_nodes he
  obtain ⟨ls, rs, ll, lr, hsub, hl, hr⟩ := hbinary.sides
  have hpairwise := List.pairwise_map.2 (hus.sublist (hsub.trans hvs.sublist))
  rw [List.map_append] at hpairwise
  exact (List.pairwise_append.1 hpairwise).2.2 _ (hl.pos_mem_of_mem_nodes hm) _
    (hr.pos_mem_of_mem_nodes hn)

end Expr.Spells

/-! ### Operands -/

/-- An operand with its own tokens, which stands at the first of them, and with those of the
expression that it is: all that stands behind the size. -/
structure Operand.PlacedOn (o : Operand) (us : List Token) : Prop where
  spells : o.Spells us
  first : us.head?.map (·.pos) = some o.pos
  expression : ∀ e, o.form = .expression e →
    ∃ ss vs, us = ss ++ vs ∧ (∀ t ∈ ss, ∃ w, t.kind = .size w) ∧ e.PlacedOn vs

theorem OperandForm.ofExpr_eq_expression {e e' : Expr} (h : ofExpr e = .expression e') :
    e = e' := by
  cases e <;> cases h <;> rfl

theorem OperandForm.Spells.of_expression {f : OperandForm} {us : List Token} (h : f.Spells us)
    {e : Expr} (hf : f = .expression e) : e.Spells .sum us := by
  cases h with
  | expression he => exact OperandForm.ofExpr_eq_expression hf ▸ he
  | _ => cases hf

namespace Operand.Spells

variable {o : Operand} {us : List Token}

theorem head?_pos (h : o.Spells us) : us.head?.map (·.pos) = some o.pos := by
  cases h <;> rfl

theorem pos_mem (h : o.Spells us) : o.pos ∈ us.map (·.pos) := by
  obtain ⟨t, ht, hpos⟩ := Option.map_eq_some_iff.1 h.head?_pos
  exact List.mem_map.2 ⟨t, List.mem_of_mem_head? ht, hpos⟩

/-- The expression that an operand is has its tokens behind the size. -/
theorem expression (h : o.Spells us) {e : Expr} (ho : o.form = .expression e) :
    ∃ ss vs, us = ss ++ vs ∧ (∀ t ∈ ss, ∃ w, t.kind = .size w) ∧ e.Spells .sum vs := by
  cases h with
  | plain hf => exact ⟨[], _, rfl, by simp, hf.of_expression ho⟩
  | @sized t w f ts ht hf =>
    exact ⟨[t], ts, rfl, by simpa using ⟨w, ht⟩, hf.of_expression ho⟩

/-- The tokens that spell an operand are its own. -/
theorem placedOn (h : o.Spells us) : o.PlacedOn us where
  spells := h
  first := h.head?_pos
  expression e ho := by
    obtain ⟨ss, vs, hus, hss, he⟩ := h.expression ho
    exact ⟨ss, vs, hus, hss, he.placedOn⟩

end Operand.Spells

/-- Operands with their own tokens, and a comma between each and the next. -/
inductive Operand.PlacedApart : List Operand → List Token → Prop where
  | nil : PlacedApart [] []
  | last {o : Operand} {us : List Token} (ho : o.PlacedOn us) : PlacedApart [o] us
  | cons {o o' : Operand} {os : List Operand} {t : Token} {us vs : List Token} (ho : o.PlacedOn us)
      (ht : t.kind = .mark .comma) (hos : PlacedApart (o' :: os) vs) :
      PlacedApart (o :: o' :: os) (us ++ t :: vs)

theorem Operand.SpellsMore.placedApart {o : Operand} {os : List Operand} {us vs : List Token}
    (ho : o.Spells us) (hos : SpellsMore os vs) : PlacedApart (o :: os) (us ++ vs) := by
  induction hos generalizing o us with
  | nil =>
    rw [List.append_nil]
    exact .last ho.placedOn
  | cons ht ho' hos ih => exact .cons ho.placedOn ht (ih ho')

/-- The tokens that spell operands are theirs. -/
theorem Operand.SpellsAll.placedApart {os : List Operand} {us : List Token} (h : SpellsAll os us) :
    PlacedApart os us := by
  cases h with
  | nil => exact .nil
  | cons ho hos => exact hos.placedApart ho

/-- Each of several operands has its own tokens. -/
theorem Operand.SpellsMore.of_mem {os : List Operand} {us : List Token} (h : SpellsMore os us)
    {o : Operand} (ho : o ∈ os) : ∃ vs, vs <:+: us ∧ o.Spells vs := by
  induction h with
  | nil => cases ho
  | @cons t o' os us vs ht ho' hos ih =>
    rcases List.mem_cons.1 ho with rfl | ho
    · exact ⟨us, ⟨[t], vs, by simp⟩, ho'⟩
    · obtain ⟨ws, hws, ho⟩ := ih ho
      exact ⟨ws, hws.trans ⟨t :: us, [], by simp⟩, ho⟩

theorem Operand.SpellsMore.sublist {os : List Operand} {us : List Token} (h : SpellsMore os us) :
    (os.map (·.pos)).Sublist (us.map (·.pos)) := by
  induction h with
  | nil => exact .slnil
  | cons ht ho hos ih =>
    rw [List.map_cons, List.map_cons, List.map_append]
    exact ((List.singleton_sublist.2 ho.pos_mem).append ih).cons _

theorem Operand.SpellsAll.of_mem {os : List Operand} {us : List Token} (h : SpellsAll os us)
    {o : Operand} (ho : o ∈ os) : ∃ vs, vs <:+: us ∧ o.Spells vs := by
  cases h with
  | nil => cases ho
  | @cons o' os us vs ho' hos =>
    rcases List.mem_cons.1 ho with rfl | ho
    · exact ⟨us, (List.prefix_append us vs).isInfix, ho'⟩
    · obtain ⟨ws, hws, ho⟩ := hos.of_mem ho
      exact ⟨ws, hws.trans (List.suffix_append us vs).isInfix, ho⟩

theorem Operand.SpellsAll.sublist {os : List Operand} {us : List Token} (h : SpellsAll os us) :
    (os.map (·.pos)).Sublist (us.map (·.pos)) := by
  cases h with
  | nil => exact .slnil
  | cons ho hos =>
    rw [List.map_cons, List.map_append]
    exact (List.singleton_sublist.2 ho.pos_mem).append hos.sublist

/-! ### Instructions -/

/-- An instruction with its own tokens: its mnemonic, where it stands, and behind it those of its
directive, or of its operands. -/
inductive Instruction.PlacedOn (i : Instruction) : List Token → Prop where
  | directive {t : Token} {e : Expr} {us : List Token} (ht : t.kind = .ident)
      (hm : i.mnemonic = Text.upper t.text) (hpos : i.pos = t.pos) (ho : i.operands = [])
      (hd : i.directive = some e) (hs : e.Spells .sum us) (he : e.PlacedOn us) :
      PlacedOn i (t :: us)
  | operands {t : Token} {us : List Token} (ht : t.kind = .ident)
      (hm : i.mnemonic = Text.upper t.text) (hpos : i.pos = t.pos) (hd : i.directive = none)
      (hos : Operand.PlacedApart i.operands us) : PlacedOn i (t :: us)

/-- The places of an instruction and of its operands or its directive. -/
def Instruction.places (i : Instruction) : List Pos :=
  i.pos :: (i.operands.map (·.pos) ++ (i.directive.map (·.pos)).toList)

/-- The parts of an instruction stand in order. -/
structure Instruction.Ordered (i : Instruction) : Prop where
  places : i.places.Pairwise (· < ·)
  operands : ∀ o ∈ i.operands, ∀ e, o.form = .expression e → e.Ordered
  directive : ∀ e, i.directive = some e → e.Ordered

namespace Instruction.Spells

variable {label comment : Option String} {i : Instruction} {us : List Token}

/-- The tokens that spell an instruction are its own. -/
theorem placedOn (h : i.Spells label comment us) : i.PlacedOn us := by
  cases h with
  | equate ht hm he => exact .directive ht rfl rfl rfl rfl he he.placedOn
  | operation ht hm hos => exact .operands ht rfl rfl rfl hos.placedApart

theorem sublist (h : i.Spells label comment us) : i.places.Sublist (us.map (·.pos)) := by
  cases h with
  | equate ht hm he => exact (List.singleton_sublist.2 he.pos_mem).cons_cons _
  | operation ht hm hos => simpa [places] using hos.sublist

/-- Tokens at increasing places spell an instruction whose parts are in order. -/
theorem ordered (h : i.Spells label comment us) (hus : us.Pairwise (·.pos < ·.pos)) :
    i.Ordered := by
  have hplaces := (List.pairwise_map.2 hus).sublist h.sublist
  cases h with
  | equate ht hm he =>
    refine ⟨hplaces, by simp, ?_⟩
    rintro e ⟨⟩
    exact he.ordered hus.of_cons
  | operation ht hm hos =>
    refine ⟨hplaces, fun o ho e he => ?_, by simp⟩
    obtain ⟨vs, hvs, ho⟩ := hos.of_mem ho
    obtain ⟨ss, ws, rfl, -, he⟩ := ho.expression he
    have hws : ws.Sublist (ss ++ ws) := List.sublist_append_right ss ws
    exact he.ordered (hus.of_cons.sublist (hws.trans hvs.sublist))

end Instruction.Spells

end IntelAsm

import IntelAsm.Proofs.Expression.Descent
import IntelAsm.Proofs.Parser.Item

/-!
# The grammar of token lists

Which token lists spell which trees, told without a parser: `Expr.Spells`, `Address.Spells`,
`Operand.Spells` and `Instruction.Spells` have one rule for each way to write a tree, and `Lines`
puts statements together. The trees are complete, places included.

No rule looks at what stands behind the tokens that it is about. Where the parser decides by looking
ahead, the rules say with which tokens a part can start.
-/

namespace IntelAsm

open Descent (IsSum IsProduct)

/-! ### Expressions -/

/-- What may stand outside the parentheses of an expression: operators of sums and of products,
those of products only, or none but signs. -/
inductive Level where
  | sum
  | product
  | operand
deriving DecidableEq, Repr

/-- The tokens of an expression. Operators between two operands associate to the left, and the
expression stands where the left operand does; a sign belongs to the operand behind it. -/
inductive Expr.Spells : Level → Expr → List Token → Prop where
  | literal {t : Token} {v : Int} (hk : t.kind.isNumeric) (hv : t.value = .ok v) :
      Spells .operand (.literal v (t.kind = .hexNumber) t.pos) [t]
  | here {t : Token} (hk : t.kind = .mark .dollar) : Spells .operand (.here t.pos) [t]
  | symbol {t : Token} (hk : t.kind = .ident) : Spells .operand (.symbol t.text t.pos) [t]
  | paren {l r : Token} {e : Expr} {ts : List Token} (hl : l.kind = .mark .leftParen)
      (he : Spells .sum e ts) (hr : r.kind = .mark .rightParen) :
      Spells .operand e (l :: (ts ++ [r]))
  | sign {t : Token} {e : Expr} {ts : List Token} (ht : IsSum t.kind)
      (he : Spells .operand e ts) : Spells .operand (.unary t.text e t.pos) (t :: ts)
  | ofOperand {e : Expr} {ts : List Token} (he : Spells .operand e ts) : Spells .product e ts
  | mul {t : Token} {l r : Expr} {us vs : List Token} (hl : Spells .product l us)
      (ht : IsProduct t.kind) (hr : Spells .operand r vs) :
      Spells .product (.binary t.text l r l.pos) (us ++ t :: vs)
  | ofProduct {e : Expr} {ts : List Token} (he : Spells .product e ts) : Spells .sum e ts
  | add {t : Token} {l r : Expr} {us vs : List Token} (hl : Spells .sum l us)
      (ht : IsSum t.kind) (hr : Spells .product r vs) :
      Spells .sum (.binary t.text l r l.pos) (us ++ t :: vs)

/-- The kinds of tokens with which expressions start. -/
def TokenKind.StartsExpr (k : TokenKind) : Prop :=
  k.isNumeric ∨ k = .ident ∨ k = .mark .dollar ∨ k = .mark .leftParen ∨ IsSum k

/-- Every expression starts with a token that no other operand starts with. -/
theorem Expr.Spells.starts {level : Level} {e : Expr} {ts : List Token} (h : e.Spells level ts) :
    ∃ t us, ts = t :: us ∧ t.kind.StartsExpr := by
  induction h with
  | literal hk hv => exact ⟨_, _, rfl, .inl hk⟩
  | symbol hk => exact ⟨_, _, rfl, .inr (.inl hk)⟩
  | here hk => exact ⟨_, _, rfl, .inr (.inr (.inl hk))⟩
  | paren hl he hr ih => exact ⟨_, _, rfl, .inr (.inr (.inr (.inl hl)))⟩
  | sign ht he ih => exact ⟨_, _, rfl, .inr (.inr (.inr (.inr ht)))⟩
  | ofOperand he ih => exact ih
  | ofProduct he ih => exact ih
  | mul hl ht hr ihl ihr =>
    obtain ⟨t, us, rfl, hk⟩ := ihl
    exact ⟨t, _, rfl, hk⟩
  | add hl ht hr ihl ihr =>
    obtain ⟨t, us, rfl, hk⟩ := ihl
    exact ⟨t, _, rfl, hk⟩

/-! ### Addresses -/

/-- The tokens of a term with a sign, which makes the address `b` of the address `a`. -/
inductive Address.SpellsTerm (a : Address) : (b : Address) → List Token → Prop where
  | index {s r : Token} (hs : IsSum s.kind) (ha : a.index = none) (hr : r.kind = .register) :
      SpellsTerm a { a with index := some r.text } [s, r]
  | scaled {s r m t : Token} {v : Int} (hs : IsSum s.kind) (ha : a.index = none)
      (hr : r.kind = .register) (hm : m.kind = .mark .star) (ht : t.kind.isNumeric)
      (hv : t.value = .ok v) :
      SpellsTerm a { a with index := some r.text, scale := v } [s, r, m, t]
  | displacement {s t : Token} {v : Int} (hs : IsSum s.kind) (ht : t.kind.isNumeric)
      (hv : t.value = .ok v) :
      SpellsTerm a
        { a with displacement := some (if s.kind = .mark .plus then v else Numeral.signedWord (-v)) }
        [s, t]

/-- The tokens of terms with signs, the earlier ones first. -/
inductive Address.SpellsTerms : (a b : Address) → List Token → Prop where
  | nil {a : Address} : SpellsTerms a a []
  | cons {a b c : Address} {us vs : List Token} (ht : a.SpellsTerm b us) (hts : b.SpellsTerms c vs) :
      SpellsTerms a c (us ++ vs)

/-- The tokens of a term without a sign, which is the first one if there is any. -/
inductive Address.SpellsFirst (a : Address) : (b : Address) → List Token → Prop where
  | none : SpellsFirst a a []
  | base {r : Token} (hr : r.kind = .register) : SpellsFirst a { a with base := some r.text } [r]
  | displacement {t : Token} {v : Int} (ht : t.kind.isNumeric) (hv : t.value = .ok v) :
      SpellsFirst a { a with displacement := some v } [t]

/-- The tokens of a segment inside brackets that have the segment `outside` in front of them. -/
inductive SpellsSegment (outside : Option String) : Option String → List Token → Prop where
  | none : SpellsSegment outside outside []
  | inside {r c : Token} (ho : outside = .none) (hr : r.kind = .register)
      (hc : c.kind = .mark .colon) : SpellsSegment outside (some r.text) [r, c]

/-- The tokens of an address from bracket to bracket, which has at least one term. -/
inductive Address.Spells (outside : Option String) : Address → List Token → Prop where
  | mk {l r : Token} {segment : Option String} {a b : Address} {ss us vs : List Token}
      (hl : l.kind = .mark .leftBracket) (hs : SpellsSegment outside segment ss)
      (hu : SpellsFirst { segment } a us) (hv : a.SpellsTerms b vs) (hne : us ≠ [] ∨ vs ≠ [])
      (hr : r.kind = .mark .rightBracket) : Spells outside b (l :: (ss ++ (us ++ (vs ++ [r]))))

/-! ### Operands -/

/-- The tokens of an operand behind its size. -/
inductive OperandForm.Spells : OperandForm → List Token → Prop where
  | register {t : Token} (ht : t.kind = .register) : Spells (.register t.text) [t]
  | string {t : Token} (ht : t.kind = .string) : Spells (.string t.text) [t]
  | memory {a : Address} {ts : List Token} (ha : a.Spells none ts) : Spells (.memory a) ts
  | segmented {s c : Token} {a : Address} {ts : List Token} (hs : s.kind = .register)
      (hc : c.kind = .mark .colon) (ha : a.Spells (some s.text) ts) :
      Spells (.memory a) (s :: c :: ts)
  | expression {e : Expr} {ts : List Token} (he : e.Spells .sum ts) : Spells (.ofExpr e) ts

/-- The kinds of tokens with which operands start, their sizes aside. -/
def TokenKind.StartsForm (k : TokenKind) : Prop :=
  k.StartsExpr ∨ k = .register ∨ k = .string ∨ k = .mark .leftBracket

/-- Every operand starts with one of a few kinds of tokens. -/
theorem OperandForm.Spells.starts {f : OperandForm} {ts : List Token} (h : f.Spells ts) :
    ∃ t us, ts = t :: us ∧ t.kind.StartsForm := by
  cases h with
  | register ht => exact ⟨_, _, rfl, .inr (.inl ht)⟩
  | string ht => exact ⟨_, _, rfl, .inr (.inr (.inl ht))⟩
  | memory ha =>
    cases ha with
    | mk hl => exact ⟨_, _, rfl, .inr (.inr (.inr hl))⟩
  | segmented hs => exact ⟨_, _, rfl, .inr (.inl hs)⟩
  | expression he =>
    obtain ⟨t, us, rfl, hk⟩ := he.starts
    exact ⟨t, us, rfl, .inl hk⟩

/-- The tokens of an operand, which stands where the first of them does. -/
inductive Operand.Spells : Operand → List Token → Prop where
  | plain {t : Token} {f : OperandForm} {ts : List Token} (hf : f.Spells (t :: ts)) :
      Spells { form := f, pos := t.pos } (t :: ts)
  | sized {t : Token} {w : Width} {f : OperandForm} {ts : List Token} (ht : t.kind = .size w)
      (hf : f.Spells ts) : Spells { form := f, size := some w.bits, pos := t.pos } (t :: ts)

/-- Or with its size. -/
theorem Operand.Spells.starts {o : Operand} {ts : List Token} (h : o.Spells ts) :
    ∃ t us, ts = t :: us ∧ (t.kind.StartsForm ∨ ∃ w, t.kind = .size w) := by
  cases h with
  | plain hf =>
    obtain ⟨t, us, hts, hk⟩ := hf.starts
    exact ⟨t, us, hts, .inl hk⟩
  | sized ht hf => exact ⟨_, _, rfl, .inr ⟨_, ht⟩⟩

/-- The tokens of operands that have a comma in front of each. -/
inductive Operand.SpellsMore : List Operand → List Token → Prop where
  | nil : SpellsMore [] []
  | cons {t : Token} {o : Operand} {os : List Operand} {us vs : List Token}
      (ht : t.kind = .mark .comma) (ho : o.Spells us) (hos : SpellsMore os vs) :
      SpellsMore (o :: os) (t :: (us ++ vs))

/-- The tokens of any number of operands, separated by commas. -/
inductive Operand.SpellsAll : List Operand → List Token → Prop where
  | nil : SpellsAll [] []
  | cons {o : Operand} {os : List Operand} {us vs : List Token} (ho : o.Spells us)
      (hos : SpellsMore os vs) : SpellsAll (o :: os) (us ++ vs)

/-! ### Statements -/

/-- The tokens of an instruction that carries a label and a comment, without the tokens of both. -/
inductive Instruction.Spells (label comment : Option String) : Instruction → List Token → Prop where
  | equate {t : Token} {e : Expr} {ts : List Token} (ht : t.kind = .ident)
      (hm : isEquate (Text.upper t.text)) (he : e.Spells .sum ts) :
      Spells label comment
        { mnemonic := Text.upper t.text, label, comment, directive := some e, pos := t.pos } (t :: ts)
  | operation {t : Token} {os : List Operand} {ts : List Token} (ht : t.kind = .ident)
      (hm : ¬isEquate (Text.upper t.text)) (hos : Operand.SpellsAll os ts) :
      Spells label comment
        { mnemonic := Text.upper t.text, operands := os, label, comment, pos := t.pos } (t :: ts)

/-- Every instruction starts with its mnemonic. -/
theorem Instruction.Spells.starts {label comment : Option String} {i : Instruction}
    {ts : List Token} (h : i.Spells label comment ts) : ∃ t us, ts = t :: us ∧ t.kind = .ident := by
  cases h with
  | equate ht => exact ⟨_, _, rfl, ht⟩
  | operation ht => exact ⟨_, _, rfl, ht⟩

/-- The tokens of a comment, or none. -/
inductive SpellsComment : Option String → List Token → Prop where
  | none : SpellsComment .none []
  | some {t : Token} (ht : t.kind = .comment) : SpellsComment (.some t.text) [t]

/-- A name and a colon come first. -/
def LabelAhead : List Token → Prop
  | t :: u :: _ => t.kind = .ident ∧ u.kind = .mark .colon
  | _ => False

/-- A word that makes a label of the name in front of it comes first. -/
def KeywordAhead : List Token → Prop
  | t :: _ => t.kind = .ident ∧ isLabelKeyword t.text
  | [] => False

/-- A keyword that comes first still does with more behind it. -/
theorem KeywordAhead.append {ts : List Token} (h : KeywordAhead ts) (us : List Token) :
    KeywordAhead (ts ++ us) := by
  cases ts with
  | nil => exact h.elim
  | cons t ts => exact h

theorem KeywordAhead.of_append {ts us : List Token} (h : KeywordAhead (ts ++ us)) (hne : ts ≠ []) :
    KeywordAhead ts := by
  cases ts with
  | nil => exact absurd rfl hne
  | cons t ts => exact h

/-- The tokens of a statement in front of the comment that it carries. -/
inductive Item.Spells (comment : Option String) : Item → List Token → Prop where
  | label {t u : Token} (ht : t.kind = .ident) (hu : u.kind = .mark .colon) :
      Spells comment (.label ⟨t.text, t.pos⟩) [t, u]
  | labelled {t u : Token} {i : Instruction} {ts : List Token} (ht : t.kind = .ident)
      (hu : u.kind = .mark .colon) (hi : i.Spells (some t.text) comment ts) :
      Spells comment (.labelled ⟨t.text, t.pos⟩ i) (t :: u :: ts)
  | keyword {t : Token} {i : Instruction} {ts : List Token} (ht : t.kind = .ident)
      (hk : KeywordAhead ts) (hi : i.Spells (some t.text) comment ts) :
      Spells comment (.labelled ⟨t.text, t.pos⟩ i) (t :: ts)
  | plain {i : Instruction} {ts : List Token} (hk : ¬KeywordAhead ts.tail)
      (hi : i.Spells none comment ts) : Spells comment (.plain i) ts

/-- The tokens of statements up to the end of a list that has no end marker. A statement ends in
front of a newline or there; a label with a colon also ends in front of another. -/
inductive Lines : List Item → List Token → Prop where
  | nil : Lines [] []
  | skip {t : Token} {xs : List Item} {ts : List Token} (ht : t.kind = .newline ∨ t.kind = .comment)
      (hxs : Lines xs ts) : Lines xs (t :: ts)
  | label {t u : Token} {xs : List Item} {ts : List Token} (ht : t.kind = .ident)
      (hu : u.kind = .mark .colon) (ha : LabelAhead ts) (hxs : Lines xs ts) :
      Lines (.label ⟨t.text, t.pos⟩ :: xs) (t :: u :: ts)
  | statement {c : Option String} {x : Item} {xs : List Item} {us cs ts : List Token}
      (hx : x.Spells c us) (hc : SpellsComment c cs) (hend : ∀ t ∈ ts.head?, t.kind = .newline)
      (hxs : Lines xs ts) : Lines (x :: xs) (us ++ (cs ++ ts))

end IntelAsm

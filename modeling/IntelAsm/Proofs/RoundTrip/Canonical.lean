import IntelAsm.Proofs.Lexer.Words
import IntelAsm.Proofs.Parser.Labels

/-!
# Canonical programs

A program is well formed if it has the shape of what the parser builds: values fit their words,
registers are registers, sizes have a specifier, comments and strings can be written on one line,
and its labels are those of its instructions, in order, with an anchor only in front of a label or
at the end (`Program.WellFormed`). What counts as a name is a parameter; the lexer knows names of
all scripts.

A canonical program is well formed, and its mnemonics are respelled as what they are
(`Instruction.Respells`): as names in upper case that form no size specifier with the operand behind
them. The parser ensures the first half. It does not ensure the second, since it stores a mnemonic
in upper case without asking what that spells.
-/

namespace IntelAsm

/-- A name of the lexer: one word, and no register. -/
def IsName (s : String) : Prop := Lexeme.IsWord s.toList ∧ isRegister s = false

/-- A value of a literal; only a hexadecimal one may be negative. -/
structure IsLiteral (v : Int) (isHex : Bool) : Prop where
  lower : Numeral.minSigned ≤ v
  upper : v ≤ Numeral.maxSigned
  isHex : v < 0 → isHex

section
variable (Name : String → Prop)

/-- An expression that the parser may build. -/
def Expr.WellFormed : Expr → Prop
  | .literal v h _ => IsLiteral v h
  | .symbol name _ => Name name
  | .here _ => True
  | .unary op e _ => (∃ m ∈ signMarks, op = String.singleton m.char) ∧ e.WellFormed
  | .binary op l r _ =>
    (∃ m ∈ operatorMarks, op = String.singleton m.char) ∧ l.WellFormed ∧ r.WellFormed

/-- An address that the parser may build. -/
structure Address.WellFormed (a : Address) : Prop where
  base : ∀ r, a.base = some r → isRegister r
  index : ∀ r, a.index = some r → isRegister r
  segment : ∀ r, a.segment = some r → isRegister r
  scale : Numeral.minSigned ≤ a.scale ∧ a.scale ≤ Numeral.maxSigned
  scale_eq_one : a.index = none → a.scale = 1
  displacement : ∀ d, a.displacement = some d → Numeral.minSigned ≤ d ∧ d ≤ Numeral.maxSigned
  hasTerm : a.HasTerm

/-- What an operand may be. -/
def OperandForm.WellFormed : OperandForm → Prop
  | .register name => isRegister name
  | .immediate v h => IsLiteral v h
  | .memory a => a.WellFormed
  | .labelRef name => Name name
  | .string text => Lexeme.IsQuotable text.toList
  | .expression e =>
    e.WellFormed Name ∧ (∀ v h pos, e ≠ .literal v h pos) ∧ ∀ name pos, e ≠ .symbol name pos

/-- An operand of a size that has a specifier, or of none. -/
structure Operand.WellFormed (o : Operand) : Prop where
  form : o.form.WellFormed Name
  size : ∀ n, o.size = some n → ∃ w : Width, n = w.bits

/-- An instruction that carries a label if it is an anchor, and else a mnemonic with what belongs to
it: an expression for an equate, operands for any other. -/
structure Instruction.WellFormed (i : Instruction) : Prop where
  label : ∀ l, i.label = some l → Name l
  anchor : i.isAnchor →
    i.label.isSome ∧ i.operands = [] ∧ i.directive = none ∧ i.comment = none
  directive_isSome : i.directive.isSome = isEquate i.mnemonic
  operands_eq : isEquate i.mnemonic → i.operands = []
  directive : ∀ e, i.directive = some e → e.WellFormed Name
  operands : ∀ o ∈ i.operands, o.WellFormed Name
  comment : ∀ c, i.comment = some c → Lexeme.IsComment c.toList

/-- The first word of a size in front of an operand that is spelled like the second. -/
def Instruction.StartsLikeSize (i : Instruction) : Prop :=
  (Width.ofKeyword? (Text.lower i.mnemonic)).isSome ∧
    ∃ name pos os, i.operands = ⟨.labelRef name, none, pos⟩ :: os ∧
      Text.lower name = Lexeme.sizeSuffix

/-- A mnemonic is read back as itself. -/
structure Instruction.Respells (i : Instruction) : Prop where
  name : Name i.mnemonic
  upper : Text.upper i.mnemonic = i.mnemonic
  not_size : ¬i.StartsLikeSize

/-- A program that the parser may build. -/
structure Program.WellFormed (p : Program) : Prop where
  in_order : p.labels.map (·.name) = p.instructions.filterMap (·.label)
  anchors : AnchorsClosed true p.instructions
  instructions : ∀ i ∈ p.instructions, i.WellFormed Name

/-- A program that is read back from its assembly source. -/
structure Program.Canonical (p : Program) : Prop extends p.WellFormed Name where
  respells : ∀ i ∈ p.instructions, ¬i.isAnchor → i.Respells Name

end

/-! ### Fewer names -/

section
variable {Name Name' : String → Prop} (hname : ∀ s, Name s → Name' s)
include hname

/-- What is well formed for a set of names is so for a larger one. -/
theorem Expr.WellFormed.mono {e : Expr} (he : e.WellFormed Name) : e.WellFormed Name' := by
  induction e with
  | literal v h pos => exact he
  | symbol name pos => exact hname name he
  | here pos => trivial
  | unary op e pos ih => exact ⟨he.1, ih he.2⟩
  | binary op l r pos ihl ihr => exact ⟨he.1, ihl he.2.1, ihr he.2.2⟩

theorem OperandForm.WellFormed.mono {form : OperandForm} (h : form.WellFormed Name) :
    form.WellFormed Name' := by
  cases form with
  | labelRef name => exact hname name h
  | expression e => exact ⟨Expr.WellFormed.mono hname h.1, h.2⟩
  | _ => exact h

theorem Instruction.WellFormed.mono {i : Instruction} (hi : i.WellFormed Name) :
    i.WellFormed Name' where
  label l hl := hname l (hi.label l hl)
  anchor := hi.anchor
  directive_isSome := hi.directive_isSome
  operands_eq := hi.operands_eq
  directive e he := Expr.WellFormed.mono hname (hi.directive e he)
  operands o ho := ⟨OperandForm.WellFormed.mono hname (hi.operands o ho).form,
    (hi.operands o ho).size⟩
  comment := hi.comment

/-- What is canonical for a set of names is so for a larger one. -/
theorem Program.Canonical.mono {p : Program} (hp : p.Canonical Name) : p.Canonical Name' where
  in_order := hp.in_order
  anchors := hp.anchors
  instructions i hi := Instruction.WellFormed.mono hname (hp.instructions i hi)
  respells i hi ha :=
    let h := hp.respells i hi ha
    ⟨hname _ h.name, h.upper, h.not_size⟩

end

end IntelAsm

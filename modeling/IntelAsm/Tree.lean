import IntelAsm.Pos
import IntelAsm.Vocabulary

/-!
# Trees of assembly programs

What the parser builds: a program is a list of instructions and a list of label declarations, an
instruction has operands or the expression of an equate, and everything but the program itself
knows where it starts. The texts in a tree are those that the parser reads; a tree put together by
hand may be over texts of another type.
-/

namespace IntelAsm

/-! ### Expressions -/

/-- An arithmetic expression. Operators are kept as they were spelled. -/
inductive Expr (τ : Type := String) where
  | literal (value : Int) (isHex : Bool) (pos : Pos)
  | symbol (name : τ) (pos : Pos)
  /-- The address of the statement itself, written `$`. -/
  | here (pos : Pos)
  | unary (op : τ) (operand : Expr τ) (pos : Pos)
  | binary (op : τ) (left right : Expr τ) (pos : Pos)
deriving DecidableEq, Repr

/-- Where an expression starts. -/
def Expr.pos {τ : Type} : Expr τ → Pos
  | .literal _ _ pos => pos
  | .symbol _ pos => pos
  | .here pos => pos
  | .unary _ _ pos => pos
  | .binary _ _ _ pos => pos

/-! ### Operands -/

/-- An address in memory, `segment:[base + index * scale + displacement]`. Each part may be
absent; the scale is one unless an index is scaled. -/
structure Address (τ : Type := String) where
  base : Option τ := none
  index : Option τ := none
  scale : Int := 1
  displacement : Option Int := none
  segment : Option τ := none
deriving DecidableEq, Repr

/-- What an operand is, its size aside. -/
inductive OperandForm (τ : Type := String) where
  | register (name : τ)
  | immediate (value : Int) (isHex : Bool)
  | memory (address : Address τ)
  | labelRef (name : τ)
  | string (text : τ)
  /-- An expression that is neither a single literal nor a single symbol. -/
  | expression (body : Expr τ)
deriving DecidableEq, Repr

/-- An operand; the size is the number of bits that a specifier in front of it gives. -/
structure Operand (τ : Type := String) where
  form : OperandForm τ
  size : Option Int := none
  pos : Pos := {}
deriving DecidableEq, Repr

/-! ### Statements -/

/-- A label declaration. -/
structure Label (τ : Type := String) where
  name : τ
  pos : Pos := {}
deriving DecidableEq, Repr

/-- A statement. An equate has a directive, any other instruction has operands. -/
structure Instruction (τ : Type := String) where
  mnemonic : τ
  operands : List (Operand τ) := []
  label : Option τ := none
  /-- The comment behind the statement, its marker included. -/
  comment : Option τ := none
  directive : Option (Expr τ) := none
  pos : Pos := {}
deriving DecidableEq, Repr

/-- A program: its statements and its label declarations, each in the order of the source. -/
structure Program (τ : Type := String) where
  instructions : List (Instruction τ) := []
  labels : List (Label τ) := []
deriving DecidableEq, Repr

/-- Whether a mnemonic is one whose body is an expression. -/
def isEquate (mnemonic : String) : Bool := equateMnemonics.contains mnemonic

namespace Instruction

/-- Whether an instruction gives a name to an expression. -/
def isDirective (i : Instruction) : Bool := isEquate i.mnemonic

/-- Whether an instruction stands only for its label. -/
def isAnchor (i : Instruction) : Bool := i.mnemonic = anchorMnemonic

/-- The instruction that stands for a label without one of its own. -/
def anchor (l : Label) : Instruction where
  mnemonic := anchorMnemonic
  label := some l.name
  pos := l.pos

end Instruction

/-! ### Depth -/

/-- Whether an expression has at most `n` levels of operators. It looks no deeper than that. -/
def Expr.fits : Nat → Expr → Bool
  | _, .literal .. => true
  | _, .symbol .. => true
  | _, .here _ => true
  | 0, _ => false
  | n + 1, .unary _ e _ => e.fits n
  | n + 1, .binary _ l r _ => l.fits n && r.fits n

/-- Whether no expression of a program has more than `n` levels of operators. -/
def Program.fits (n : Nat) (p : Program) : Bool :=
  p.instructions.all fun i =>
    i.directive.all (·.fits n) && i.operands.all fun o =>
      match o.form with
      | .expression e => e.fits n
      | _ => true

end IntelAsm

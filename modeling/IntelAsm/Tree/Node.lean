import IntelAsm.Tree

/-!
# Nodes

A node is any part of a tree, and also anything that can stand where a part of a tree is expected.
Trees of the parser are nodes of a regular shape (`Program.toNode`); nodes put together by hand need
not be: an operand list may hold a label, a size may be any number, and a child may be no node at
all but a text, a number, a list or nothing.

`Node.same` compares nodes and ignores where they stand in a source.
-/

namespace IntelAsm

/-- A part of a tree, or a value in the place of one. -/
inductive Node (τ : Type := String) where
  | literal (value : Int) (isHex : Bool) (pos : Pos)
  | symbol (name : τ) (pos : Pos)
  | here (pos : Pos)
  | unary (op : τ) (operand : Node τ) (pos : Pos)
  | binary (op : τ) (left right : Node τ) (pos : Pos)
  | register (name : τ) (size : Option Int) (pos : Pos)
  | immediate (value : Int) (isHex : Bool) (size : Option Int) (pos : Pos)
  | memory (address : Address τ) (size : Option Int) (pos : Pos)
  | labelRef (name : τ) (size : Option Int) (pos : Pos)
  | string (text : τ) (size : Option Int) (pos : Pos)
  | expression (body : Node τ) (size : Option Int) (pos : Pos)
  | label (name : τ) (pos : Pos)
  | instruction (mnemonic : τ) (operands : List (Node τ)) (label comment : Option τ)
      (directive : Option (Node τ)) (pos : Pos)
  | program (instructions labels : List (Node τ))
  /-- A text where a node should be. -/
  | strayText (text : τ)
  /-- A number where a node should be. -/
  | strayNumber (value : Int)
  /-- A list where a node should be. -/
  | strayList (items : List (Node τ))
  /-- Nothing where a node should be. -/
  | nothing

namespace Node

/-- The name of a node's type in messages. -/
def typeName {τ : Type} : Node τ → String
  | .literal .. => "LiteralExpr"
  | .symbol .. => "SymbolExpr"
  | .here .. => "CurrentLocationExpr"
  | .unary .. => "UnaryExpr"
  | .binary .. => "BinaryExpr"
  | .register .. => "RegisterOperand"
  | .immediate .. => "ImmediateOperand"
  | .memory .. => "MemoryOperand"
  | .labelRef .. => "LabelReferenceOperand"
  | .string .. => "StringOperand"
  | .expression .. => "ExpressionOperand"
  | .label .. => "Label"
  | .instruction .. => "Instruction"
  | .program .. => "Program"
  | .strayText _ => "str"
  | .strayNumber _ => "int"
  | .strayList _ => "tuple"
  | .nothing => "NoneType"

/-- Whether a value is a part of a tree. -/
def isNode : Node → Bool
  | .strayText _ | .strayNumber _ | .strayList _ | .nothing => false
  | _ => true

/-- Whether a value is a program. -/
def isProgram : Node → Bool
  | .program .. => true
  | _ => false

/-! ### Equality up to places -/

mutual
/-- Whether two nodes are alike in everything but their places. -/
def same : Node → Node → Bool
  | .literal v h _, .literal v' h' _ => v = v' && h = h'
  | .symbol n _, .symbol n' _ => n = n'
  | .here _, .here _ => true
  | .unary op a _, .unary op' a' _ => op = op' && a.same a'
  | .binary op l r _, .binary op' l' r' _ => op = op' && l.same l' && r.same r'
  | .register n s _, .register n' s' _ => n = n' && s = s'
  | .immediate v h s _, .immediate v' h' s' _ => v = v' && h = h' && s = s'
  | .memory a s _, .memory a' s' _ => a = a' && s = s'
  | .labelRef n s _, .labelRef n' s' _ => n = n' && s = s'
  | .string t s _, .string t' s' _ => t = t' && s = s'
  | .expression e s _, .expression e' s' _ => e.same e' && s = s'
  | .label n _, .label n' _ => n = n'
  | .instruction m os l c d _, .instruction m' os' l' c' d' _ =>
    m = m' && sameItems os os' && l = l' && c = c' && sameOption d d'
  | .program is ls, .program is' ls' => sameItems is is' && sameItems ls ls'
  | .strayText t, .strayText t' => t = t'
  | .strayNumber n, .strayNumber n' => n = n'
  | .strayList xs, .strayList xs' => sameItems xs xs'
  | .nothing, .nothing => true
  | _, _ => false

/-- Whether two lists hold the same nodes in the same order. -/
def sameItems : List Node → List Node → Bool
  | [], [] => true
  | x :: xs, y :: ys => x.same y && sameItems xs ys
  | _, _ => false

/-- Whether two optional nodes are both absent or both the same. -/
def sameOption : Option Node → Option Node → Bool
  | none, none => true
  | some x, some y => x.same y
  | _, _ => false
end

end Node

/-! ### Trees as nodes -/

/-- An expression as a node. -/
def Expr.toNode {τ : Type} : Expr τ → Node τ
  | .literal v h pos => .literal v h pos
  | .symbol n pos => .symbol n pos
  | .here pos => .here pos
  | .unary op e pos => .unary op e.toNode pos
  | .binary op l r pos => .binary op l.toNode r.toNode pos

/-- An operand as a node. -/
def Operand.toNode {τ : Type} (o : Operand τ) : Node τ :=
  match o.form with
  | .register name => .register name o.size o.pos
  | .immediate v h => .immediate v h o.size o.pos
  | .memory a => .memory a o.size o.pos
  | .labelRef name => .labelRef name o.size o.pos
  | .string text => .string text o.size o.pos
  | .expression e => .expression e.toNode o.size o.pos

/-- A label declaration as a node. -/
def Label.toNode {τ : Type} (l : Label τ) : Node τ := .label l.name l.pos

/-- An instruction as a node. -/
def Instruction.toNode {τ : Type} (i : Instruction τ) : Node τ :=
  .instruction i.mnemonic (i.operands.map Operand.toNode) i.label i.comment
    (i.directive.map Expr.toNode) i.pos

/-- A program as a node. -/
def Program.toNode {τ : Type} (p : Program τ) : Node τ :=
  .program (p.instructions.map Instruction.toNode) (p.labels.map Label.toNode)

end IntelAsm

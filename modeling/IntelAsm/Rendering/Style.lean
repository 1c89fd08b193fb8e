import IntelAsm.Rendering.Error
import IntelAsm.Rendering.Spelling
import IntelAsm.Tree.Node

/-!
# Programs as text

Two styles write a program as text: an indented outline of its labels and instructions, and
assembly source, which the parser reads back.

The outline indents by levels. A node is rendered at the level that is current, and a program
raises the level for the parts that it lists. Where a part cannot be rendered, the failure tells
the level that was reached, since whoever keeps the level does not get it lowered again.
-/

namespace IntelAsm

/-- A way to write programs as text. -/
inductive Style where
  /-- An indented outline. -/
  | outline
  /-- Source that can be parsed again, one statement on a line. -/
  | assembly
deriving DecidableEq, Repr

/-- A failure to render, and the level at which it happened. -/
structure RenderFailure where
  cause : RenderError
  level : Nat
deriving DecidableEq, Repr

namespace Style

/-- A symbol or a reference to a label. -/
def symbol : Style → String → String
  | .outline, name => name
  | .assembly, name => Spelling.symbol name

/-- The blanks in front of a line at the given level of an outline. -/
def indent (level : Nat) : String := String.ofList (List.replicate (2 * level) ' ')

/-- The specifier of a size, for an operand that has one. -/
def sizeSpecifier (level : Nat) : Option Int → Except RenderFailure String
  | none => .ok ""
  | some n =>
    match Width.ofBits? n with
    | some w => .ok (w.keyword ++ " ptr ")
    | none => .error ⟨.unknownSize n, level⟩

/-- What stands in front of the body of an instruction. -/
def lead : Style → Option String → String
  | .outline, some l => if l = "" then "" else "[" ++ l ++ "] "
  | .outline, none => ""
  | .assembly, _ => "    "

/-- What stands behind the operands of an instruction. -/
def trail : Option String → String
  | some c => if c = "" then "" else " " ++ c
  | none => ""

/-- The operands of an instruction, behind its mnemonic. -/
def operandList (operands : List String) : String :=
  if operands = [] then "" else " " ++ ", ".intercalate operands

/-- The line that declares the label of an instruction in assembly source. -/
def labelLine : Option String → List String
  | some l => if l = "" then [] else [l ++ ":"]
  | none => []

/-- A list of items under a heading, one level below it; nothing for an empty list. -/
def block (level : Nat) (heading : String) (items : List String) : List String :=
  if items = [] then []
  else (indent level ++ heading) :: items.map (indent (level + 1) ++ ·)

/-- Lines of source, each with its newline. -/
def sourceText (lines : List String) : String := String.join (lines.map (· ++ "\n"))

end Style

namespace Node

open Style

/-- The label of an instruction, and whether the instruction is an anchor. -/
def statement? : Node → Option (Option String × Bool)
  | .instruction mnemonic _ l _ _ _ => some (l, mnemonic = anchorMnemonic)
  | _ => none

mutual
/-- A node as text, at the given level. -/
def render (style : Style) (level : Nat) : Node → Except RenderFailure String
  | .literal v h _ => .ok (Spelling.literal v h)
  | .symbol name _ => .ok (style.symbol name)
  | .here _ => .ok "$"
  | .unary op e _ => do
    let e ← e.render style level
    return op ++ e
  | .binary op l r _ => do
    let l ← l.render style level
    let r ← r.render style level
    return "(" ++ l ++ " " ++ op ++ " " ++ r ++ ")"
  | .register name size _ => do
    let s ← sizeSpecifier level size
    return s ++ name
  | .immediate v h size _ => do
    let s ← sizeSpecifier level size
    return s ++ Spelling.literal v h
  | .memory a size _ => do
    let s ← sizeSpecifier level size
    return s ++ Spelling.address a
  | .labelRef name size _ => do
    let s ← sizeSpecifier level size
    return s ++ style.symbol name
  | .string text size _ => do
    let s ← sizeSpecifier level size
    return s ++ Spelling.string text
  | .expression e size _ => do
    let s ← sizeSpecifier level size
    let e ← e.render style level
    return s ++ e
  | .label name _ => .ok (name ++ ":")
  | .instruction mnemonic _ l c (some e) _ => do
    let e ← e.render style level
    return style.lead l ++ mnemonic ++ " " ++ e ++ trail c
  | .instruction mnemonic os l c none _ => do
    let os ← renderItems style level os
    return style.lead l ++ mnemonic ++ operandList os ++ trail c
  | .program is ls =>
    match style with
    | .outline => do
      let ls ← renderItems .outline (level + 2) ls
      let is ← renderItems .outline (level + 2) is
      return "\n".intercalate
        ("Program:" :: block (level + 1) "Labels:" ls ++ block (level + 1) "Instructions:" is)
    | .assembly => do
      let lines ← renderSource level is
      return sourceText lines
  | .strayText t => .error ⟨.notANode (strayText t : Node).typeName, level⟩
  | .strayNumber n => .error ⟨.notANode (strayNumber n : Node).typeName, level⟩
  | .strayList xs => .error ⟨.notANode (strayList xs : Node).typeName, level⟩
  | .nothing => .error ⟨.notANode (nothing : Node).typeName, level⟩

/-- The nodes of a list, each as text. -/
def renderItems (style : Style) (level : Nat) : List Node → Except RenderFailure (List String)
  | [] => .ok []
  | x :: xs => do
    let t ← x.render style level
    let ts ← renderItems style level xs
    return t :: ts

/-- The lines of source for the instructions of a program: a label has its own line in front of the
instruction, and an anchor has no other. -/
def renderSource (level : Nat) : List Node → Except RenderFailure (List String)
  | [] => .ok []
  | x :: xs =>
    match x.statement? with
    | none => .error ⟨.lacks x.typeName "label", level⟩
    | some (l, true) => do
      let ts ← renderSource level xs
      return labelLine l ++ ts
    | some (l, false) => do
      let t ← x.render .assembly level
      let ts ← renderSource level xs
      return labelLine l ++ t :: ts
end

/-- The failure of a style that has no rules. -/
def renderBare (n : Node) : RenderError :=
  if n.isNode then .noRule n.typeName else .notANode n.typeName

end Node

end IntelAsm

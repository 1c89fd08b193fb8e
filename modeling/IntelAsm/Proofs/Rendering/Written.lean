import IntelAsm.Rendering.Emitter

/-!
# Texts of trees

The text that a style writes for each part of a tree, as a function of the tree. The two styles have
the same rules for expressions and operands but for the names of symbols; they differ in what stands
around the content of an instruction (`Instruction.written`).

Rendering a tree of the parser can fail only where a size has no specifier, so a tree whose sizes
have one is rendered at every level, and as its text (`Instruction.render_written`).
-/

namespace IntelAsm

open Style

/-! ### Expressions and operands -/

/-- The text of an expression. -/
def Expr.written (style : Style) : Expr → String
  | .literal v h _ => Spelling.literal v h
  | .symbol name _ => style.symbol name
  | .here _ => "$"
  | .unary op e _ => op ++ e.written style
  | .binary op l r _ => "(" ++ l.written style ++ " " ++ op ++ " " ++ r.written style ++ ")"

/-- The specifier of a size, with the blank behind it. -/
def sizeSource (size : Option Int) : String :=
  match size.bind Width.ofBits? with
  | some w => w.keyword ++ " ptr "
  | none => ""

/-- The text of an operand, its size aside. -/
def OperandForm.written (style : Style) : OperandForm → String
  | .register name => name
  | .immediate v h => Spelling.literal v h
  | .memory a => Spelling.address a
  | .labelRef name => style.symbol name
  | .string text => Spelling.string text
  | .expression e => e.written style

/-- The text of an operand. -/
def Operand.written (style : Style) (o : Operand) : String :=
  sizeSource o.size ++ o.form.written style

/-- A size that has a specifier, or none. -/
def Operand.Sized (o : Operand) : Prop := ∀ n, o.size = some n → ∃ w : Width, n = w.bits

section
variable (style : Style) (level : Nat)

theorem Expr.render_written (e : Expr) :
    e.toNode.render style level = .ok (e.written style) := by
  induction e with
  | literal | symbol | here => rfl
  | unary op e pos ih =>
    show (do return op ++ (← e.toNode.render style level)) = _
    rw [ih]
    rfl
  | binary op l r pos ihl ihr =>
    show (do
      let s ← l.toNode.render style level
      let t ← r.toNode.render style level
      return "(" ++ s ++ " " ++ op ++ " " ++ t ++ ")") = _
    rw [ihl, ihr]
    rfl

theorem sizeSpecifier_eq {size : Option Int}
    (h : ∀ n, size = some n → ∃ w : Width, n = w.bits) :
    sizeSpecifier level size = .ok (sizeSource size) := by
  cases size with
  | none => rfl
  | some n =>
    obtain ⟨w, rfl⟩ := h n rfl
    rw [sizeSpecifier, sizeSource, Option.bind_some, Width.ofBits?_bits]

theorem Operand.render_written {o : Operand} (h : o.Sized) :
    o.toNode.render style level = .ok (o.written style) := by
  obtain ⟨form, size, pos⟩ := o
  have hsize : sizeSpecifier level size = .ok (sizeSource size) := sizeSpecifier_eq level h
  cases form with
  | expression e =>
    show (do return (← sizeSpecifier level size) ++ (← e.toNode.render style level)) = _
    rw [hsize, e.render_written]
    rfl
  | _ =>
    show (do return (← sizeSpecifier level size) ++ _) = _
    rw [hsize]
    rfl

/-- The texts of a list of parts, each of which has one. -/
theorem renderItems_map {α : Type} {toNode : α → Node} {text : α → String} {as : List α}
    (h : ∀ a ∈ as, (toNode a).render style level = .ok (text a)) :
    Node.renderItems style level (as.map toNode) = .ok (as.map text) := by
  induction as with
  | nil => rfl
  | cons a as ih =>
    obtain ⟨ha, has⟩ := List.forall_mem_cons.1 h
    show (do
      let t ← (toNode a).render style level
      return t :: (← Node.renderItems style level (as.map toNode))) = _
    rw [ha, ih has]
    rfl

/-! ### Instructions and programs -/

/-- What stands behind a mnemonic: the expression of an equate, or the operands. -/
def Instruction.arguments (i : Instruction) : String :=
  match i.directive with
  | some e => " " ++ e.written style
  | none => operandList (i.operands.map (Operand.written style))

/-- What an instruction says, its label aside. -/
def Instruction.content (i : Instruction) : String :=
  i.mnemonic ++ i.arguments style ++ trail i.comment

/-- The text of an instruction. -/
def Instruction.written (i : Instruction) : String := style.lead i.label ++ i.content style

/-- All sizes of an instruction have a specifier. -/
def Instruction.Sized (i : Instruction) : Prop := ∀ o ∈ i.operands, o.Sized

theorem Instruction.render_written {i : Instruction} (h : i.Sized) :
    i.toNode.render style level = .ok (i.written style) := by
  obtain ⟨m, os, l, c, d, pos⟩ := i
  cases d with
  | some e =>
    have htext : style.lead l ++ m ++ " " ++ e.written style ++ trail c =
        style.lead l ++ (m ++ (" " ++ e.written style) ++ trail c) := by
      simp only [String.append_assoc]
    show (do return style.lead l ++ m ++ " " ++ (← e.toNode.render style level) ++ trail c) = _
    rw [e.render_written]
    exact congrArg Except.ok htext
  | none =>
    have hos := renderItems_map style level fun o ho => Operand.render_written style level (h o ho)
    have htext : style.lead l ++ m ++ operandList (os.map (Operand.written style)) ++ trail c =
        style.lead l ++ (m ++ operandList (os.map (Operand.written style)) ++ trail c) := by
      simp only [String.append_assoc]
    show (do
      let os ← Node.renderItems style level (os.map Operand.toNode)
      return style.lead l ++ m ++ operandList os ++ trail c) = _
    rw [hos]
    exact congrArg Except.ok htext

end

/-- All sizes of a program have a specifier. -/
def Program.Sized (p : Program) : Prop :=
  ∀ i ∈ p.instructions, ∀ o ∈ i.operands, ∀ n, o.size = some n → ∃ w : Width, n = w.bits

/-- The lines of an outline, those of an empty program being the first alone. -/
def Program.outline (level : Nat) (p : Program) : List String :=
  "Program:" ::
    block (level + 1) "Labels:" (p.labels.map (·.name ++ ":")) ++
    block (level + 1) "Instructions:" (p.instructions.map (Instruction.written .outline))

theorem Program.Sized.render_outline {p : Program} (h : p.Sized) (level : Nat) :
    p.toNode.render .outline level = .ok ("\n".intercalate (p.outline level)) := by
  have hlabels : Node.renderItems .outline (level + 2) (p.labels.map Label.toNode) =
      .ok (p.labels.map (·.name ++ ":")) :=
    renderItems_map .outline (level + 2) fun _ _ => rfl
  have hinstructions :=
    renderItems_map .outline (level + 2) fun i hi => Instruction.render_written .outline
      (level + 2) (h i hi)
  show (do
    let ls ← Node.renderItems .outline (level + 2) (p.labels.map Label.toNode)
    let is ← Node.renderItems .outline (level + 2) (p.instructions.map Instruction.toNode)
    return "\n".intercalate
      ("Program:" :: block (level + 1) "Labels:" ls ++ block (level + 1) "Instructions:" is)) = _
  rw [hlabels, hinstructions]
  rfl

/-- A program that a style renders has that text as the format of the style. -/
theorem render_text {style : Style} {n : Node} (hn : n.isProgram) {t : String}
    (h : n.render style 0 = .ok t) : (Format.text style).render n = .ok t := by
  simp only [Format.render, if_pos hn, Emitter.ofFormat, Emitter.emit, h, Emitter.output,
    Array.toList_push, List.nil_append, String.intercalate_singleton]

end IntelAsm

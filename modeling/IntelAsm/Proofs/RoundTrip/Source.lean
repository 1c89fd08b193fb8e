import IntelAsm.Proofs.Rendering.Written
import IntelAsm.Proofs.RoundTrip.Canonical

/-!
# Assembly source of trees

The source that the assembly style writes for each part of a tree, as a function of the tree: an
expression is one text (`Expr.source`), an instruction one line behind the line of its label
(`Instruction.lines`). Rendering can fail only where a size has no specifier, so a well-formed
program is always rendered, and as its lines (`render_program`).
-/

namespace IntelAsm

open Style

/-! ### Expressions and operands -/

/-- The source of an expression. -/
def Expr.source : Expr → String
  | .literal v h _ => Spelling.literal v h
  | .symbol name _ => Spelling.symbol name
  | .here _ => "$"
  | .unary op e _ => op ++ e.source
  | .binary op l r _ => "(" ++ l.source ++ " " ++ op ++ " " ++ r.source ++ ")"

/-- The source of an operand, its size aside. -/
def OperandForm.source : OperandForm → String
  | .register name => name
  | .immediate v h => Spelling.literal v h
  | .memory a => Spelling.address a
  | .labelRef name => Spelling.symbol name
  | .string text => Spelling.string text
  | .expression e => e.source

/-- The source of an operand. -/
def Operand.source (o : Operand) : String := sizeSource o.size ++ o.form.source

/-! ### Instructions and programs -/

/-- The body of an instruction: the expression of an equate, or the operands. -/
def Instruction.body (i : Instruction) : String :=
  match i.directive with
  | some e => " " ++ e.source
  | none => operandList (i.operands.map Operand.source)

/-- The line of an instruction that is no anchor. -/
def Instruction.line (i : Instruction) : String :=
  "    " ++ i.mnemonic ++ i.body ++ trail i.comment

/-- The lines of an instruction: its label has one of its own, and an anchor has no other. -/
def Instruction.lines (i : Instruction) : List String :=
  labelLine i.label ++ if i.isAnchor then [] else [i.line]

/-- The source of a program. -/
def Program.source (p : Program) : String := sourceText (p.instructions.flatMap Instruction.lines)

/-! ### Source is the text in the assembly style -/

/-- In assembly an expression is written as its source. -/
theorem Expr.written_assembly (e : Expr) : e.written .assembly = e.source := by
  induction e with
  | literal | symbol | here => rfl
  | unary op e pos ih => rw [written, source, ih]
  | binary op l r pos ihl ihr => rw [written, source, ihl, ihr]

theorem Operand.written_assembly (o : Operand) : o.written .assembly = o.source := by
  obtain ⟨form, size, pos⟩ := o
  cases form with
  | expression e => exact congrArg (sizeSource size ++ ·) e.written_assembly
  | _ => rfl

theorem Instruction.arguments_assembly (i : Instruction) : i.arguments .assembly = i.body := by
  unfold arguments body
  cases i.directive with
  | some e => simp only [e.written_assembly]
  | none => simp only [funext Operand.written_assembly]

/-- An instruction is written as its line. -/
theorem Instruction.written_assembly (i : Instruction) : i.written .assembly = i.line := by
  simp only [written, content, line, i.arguments_assembly, lead, String.append_assoc]

/-- Instructions with sizes that have specifiers are rendered line by line. -/
theorem renderSource_eq (level : Nat) {is : List Instruction} (h : ∀ i ∈ is, i.Sized) :
    Node.renderSource level (is.map Instruction.toNode) =
      .ok (is.flatMap Instruction.lines) := by
  induction is with
  | nil => rfl
  | cons i is ih =>
    obtain ⟨hi, his⟩ := List.forall_mem_cons.1 h
    have hs : i.toNode.statement? = some (i.label, i.isAnchor) := rfl
    rw [List.map_cons, Node.renderSource, hs]
    cases ha : i.isAnchor with
    | true =>
      show (do
        let ts ← Node.renderSource level (is.map Instruction.toNode)
        return labelLine i.label ++ ts) = _
      rw [ih his]
      simp [Instruction.lines, ha, pure, Except.pure, bind, Except.bind]
    | false =>
      show (do
        let t ← i.toNode.render .assembly level
        let ts ← Node.renderSource level (is.map Instruction.toNode)
        return labelLine i.label ++ t :: ts) = _
      rw [i.render_written .assembly level hi, i.written_assembly, ih his]
      simp [Instruction.lines, ha, pure, Except.pure, bind, Except.bind]

/-- A program whose sizes have specifiers is rendered as its source. -/
theorem render_program {p : Program} (h : p.Sized) :
    Format.render (.text .assembly) p.toNode = .ok p.source := by
  apply render_text rfl
  show (do
    let lines ← Node.renderSource 0 (p.instructions.map Instruction.toNode)
    return sourceText lines) = _
  rw [renderSource_eq 0 h]
  rfl

/-- Well-formed operands have such sizes. -/
theorem Program.WellFormed.sized {Name : String → Prop} {p : Program} (h : p.WellFormed Name) :
    p.Sized :=
  fun i hi o ho => ((h.instructions i hi).operands o ho).size

end IntelAsm

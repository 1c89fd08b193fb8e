import IntelAsm.Proofs.Respelling.Operand
import IntelAsm.Tree.Node

/-!
# Respelled programs

Instructions, statements and whole runs commute with a lawful respelling, so tokens may be respelled
before they are parsed or their program afterwards (`parse_respell`). For the respelling that
forgets all places this says that places do not matter to the structure of a program; two trees are
the same up to places iff they are equal without them (`program_same_iff`).
-/

namespace IntelAsm

namespace Respelling

open Parse

section
variable {f : Respelling} (hf : f.Lawful)
include hf

/-! ### Instructions -/

/-- A comment is respelled like other texts. -/
theorem commutes_comment :
    f.Commutes f.cursor (Option.map (f.text .comment)) comment comment := by
  apply commutes_bind (commutes_current hf)
  intro t
  refine commutes_ite .rfl (fun ht => ?_) fun _ => commutes_pure _
  rw [text_token ht]
  apply commutes_bind (commutes_advance hf)
  intro _
  exact commutes_pure (some t.text)

/-- The expression of an equate is read alike. -/
theorem commutes_directive (mnemonic : String) :
    f.Commutes f.cursor f.expr (directive mnemonic) (directive mnemonic) := by
  apply commutes_bind (commutes_current hf)
  intro t
  exact commutes_ite .rfl (fun _ => commutes_fail rfl) fun _ => commutes_expression hf

theorem commutes_operandsToLineEnd :
    f.Commutes f.cursor (List.map f.operand) operandsToLineEnd operandsToLineEnd := by
  rw [operandsToLineEnd_eq]
  apply commutes_bind (commutes_current hf)
  intro t
  exact commutes_ite .rfl (fun _ => commutes_pure _) fun _ => commutes_operands hf

/-- An instruction is read alike: its mnemonic is in upper case before it is respelled. -/
theorem commutes_instruction (label : Option String) :
    f.Commutes f.cursor f.instruction (Parse.instruction label)
      (Parse.instruction (label.map (f.text .ident))) := by
  apply commutes_bind_of _ (commutes_expect hf _ _) fun _ _ _ => kind_of_expect
  intro t ht
  have ht : t.kind = .ident := by simpa using ht
  have hm : Text.upper (f.token t).text = Text.upper t.text := by rw [text_token ht, hf.upper]
  rw [hm]
  apply commutes_ite .rfl
  · intro _
    apply commutes_bind (commutes_directive hf _)
    intro e
    apply commutes_bind (commutes_comment hf)
    intro text
    exact commutes_pure (g := f.instruction) _
  · intro _
    apply commutes_bind (commutes_operandsToLineEnd hf)
    intro os
    apply commutes_bind (commutes_comment hf)
    intro text
    exact commutes_pure (g := f.instruction) _

/-- A line ends where it did. -/
theorem commutes_lineEnd : f.Commutes f.cursor id lineEnd lineEnd := by
  apply commutes_bind (commutes_comment hf)
  intro text
  apply commutes_bind (commutes_current hf)
  intro t
  apply commutes_ite .rfl
  · intro _
    apply commutes_bind (commutes_advance hf)
    intro _
    exact commutes_pure _
  · intro _
    exact commutes_ite .rfl (fun _ => commutes_pure _) fun _ => commutes_fail rfl

theorem commutes_labelColon (colon : Bool) :
    f.Commutes f.cursor id (labelColon colon) (labelColon colon) := by
  refine commutes_ite .rfl (fun _ => ?_) fun _ => commutes_pure _
  apply commutes_bind (commutes_expect hf _ _)
  intro _
  exact commutes_pure _

/-! ### Statements and programs -/

open IntelAsm.Parser

omit hf in
/-- What reads tokens alike does so as part of a parser. -/
theorem commutes_onTokens {α β : Type} {g : α → β} {p : Parse α} {p' : Parse β}
    (hp : f.Commutes f.cursor g p p') : f.Commutes f.parser g (onTokens p) (onTokens p') := by
  intro s
  have hcursor : (f.parser s).cursor = f.cursor s.cursor := rfl
  rw [onTokens, onTokens, hcursor, hp s.cursor]
  cases p s.cursor <;> rfl

omit hf in
theorem commutes_addInstruction (i : Instruction) :
    f.Commutes f.parser id (addInstruction i) (addInstruction (f.instruction i)) := by
  intro s
  simp [addInstruction, result, parser]

omit hf in
theorem commutes_addLabel (l : Label) :
    f.Commutes f.parser id (addLabel l) (addLabel (f.label l)) := by
  intro s
  simp [addLabel, result, parser]

omit hf in
theorem commutes_setPending (l : Label) :
    f.Commutes f.parser id (setPending l) (setPending (f.label l)) := fun _ => rfl

omit hf in
theorem commutes_takePending :
    f.Commutes f.parser (Option.map (f.text .ident)) takePending takePending := by
  intro s
  simp only [takePending, result, parser, Option.map_map]
  cases s.pending <;> rfl

omit hf in
/-- The anchor of a label is respelled with the label. -/
theorem commutes_flushPending : f.Commutes f.parser id flushPending flushPending := by
  intro s
  unfold flushPending
  cases hp : s.pending with
  | none =>
    have hp' : (f.parser s).pending = none := by simp [parser, hp]
    rw [hp']
    rfl
  | some l =>
    have hp' : (f.parser s).pending = some (f.label l) := by simp [parser, hp]
    have ha : Instruction.anchor (f.label l) = f.instruction (.anchor l) := rfl
    rw [hp']
    simp [result, parser, ha]

/-- A label is declared in its new spelling. -/
theorem commutes_declareLabel (colon : Bool) :
    f.Commutes f.parser f.label (declareLabel colon) (declareLabel colon) := by
  refine commutes_bind_of (fun t => t.kind = .ident) (commutes_onTokens (commutes_expect hf _ _))
    ?_ fun t ht => ?_
  · intro s t s' h
    unfold onTokens at h
    cases hr : expect (.kinds [.ident]) [.ident] s.cursor with
    | ok u c =>
      rw [hr] at h
      cases h
      simpa using kind_of_expect hr
    | error e c =>
      rw [hr] at h
      cases h
  · rw [text_token ht]
    apply commutes_bind (commutes_onTokens (commutes_labelColon hf colon))
    intro _
    apply commutes_bind commutes_flushPending
    intro _
    apply commutes_bind (commutes_addLabel ⟨t.text, t.pos⟩)
    intro _
    exact commutes_pure (g := f.label) _

theorem commutes_instructionLine (label : Option String) :
    f.Commutes f.parser id (instructionLine label)
      (instructionLine (label.map (f.text .ident))) := by
  apply commutes_bind (commutes_onTokens (commutes_instruction hf label))
  intro i
  apply commutes_bind (commutes_addInstruction i)
  intro _
  exact commutes_onTokens (commutes_lineEnd hf)

/-- Whether a label needs a colon does not depend on the spelling. -/
theorem commutes_afterLabel (l : Label) :
    f.Commutes f.parser id (afterLabel l) (afterLabel (f.label l)) := by
  apply commutes_bind (commutes_onTokens (commutes_current hf))
  intro t
  apply commutes_bind (commutes_onTokens (commutes_peek hf 1))
  intro u
  refine commutes_ite .rfl (fun _ => commutes_setPending l) fun _ =>
    commutes_ite .rfl (fun _ => ?_) fun _ => commutes_instructionLine hf (some l.name)
  apply commutes_bind (commutes_setPending l)
  intro _
  exact commutes_onTokens (commutes_lineEnd hf)

/-- A statement is read alike, with the labels in front of it. -/
theorem commutes_statement : f.Commutes f.parser id statement statement := by
  apply commutes_bind (commutes_onTokens (commutes_current hf))
  intro t
  apply commutes_bind (commutes_onTokens (commutes_peek hf 1))
  intro u
  refine commutes_ite .rfl (fun _ => ?_) fun _ => commutes_ite ?_ (fun _ => ?_) fun _ =>
    commutes_ite .rfl (fun _ => ?_) fun _ => commutes_onTokens (commutes_fail rfl)
  · apply commutes_bind (commutes_declareLabel hf true)
    intro l
    exact commutes_afterLabel hf l
  · refine and_congr_right fun _ => and_congr_right_iff.2 fun hu => ?_
    rw [text_token hu, hf.keyword]
  · apply commutes_bind (commutes_declareLabel hf false)
    intro l
    exact commutes_instructionLine hf (some l.name)
  · apply commutes_bind commutes_takePending
    intro label
    exact commutes_instructionLine hf label

/-- So is a whole program, by induction on the tokens ahead. -/
theorem commutes_run : f.Commutes f.parser f.program run run := by
  intro s
  have hk : ∀ s : Parser, (f.parser s).cursor.current.kind = s.cursor.current.kind :=
    fun s => kind_current hf s.cursor
  fun_induction run s with
  | case1 s h =>
    rw [run_eq, hk, if_pos h]
    have hget : f.Commutes f.parser f.program (do return (← get).program)
        (do return (← get).program) := by
      intro s
      have hprogram : (f.parser s).program = f.program s.program := by
        simp only [Parser.program, Respelling.program, parser, Array.toList_map]
      show EStateM.Result.ok (f.parser s).program (f.parser s) = _
      rw [hprogram]
      rfl
    exact commutes_bind commutes_flushPending (fun _ => hget) s
  | case2 s h hn ih =>
    rw [run_eq, hk, if_neg h, if_pos hn]
    have ha : { f.parser s with cursor := (f.parser s).cursor.advance } =
        f.parser { s with cursor := s.cursor.advance } := by
      show Parser.mk (f.cursor s.cursor).advance _ _ _ = _
      rw [advance_cursor]
      rfl
    rw [ha]
    exact ih
  | case3 s h hn s' hr ih =>
    rw [run_eq, hk, if_neg h, if_neg hn, commutes_statement hf s, hr]
    exact ih
  | case4 s h hn e s' hr =>
    rw [run_eq, hk, if_neg h, if_neg hn, commutes_statement hf s, hr]
    rfl

end

end Respelling

open Respelling

/-- Tokens may be respelled before they are parsed, or the program afterwards. -/
theorem parse_respell {f : Respelling} (hf : f.Lawful) (ts : List Token) :
    parse (ts.map f.token) = ((parse ts).map f.program).mapError f.error := by
  have hs : Parser.ofTokens (ts.map f.token) = f.parser (.ofTokens ts) := by
    simp [Parser.ofTokens, Cursor.ofTokens, parser, cursor]
  rw [parse, hs, commutes_run hf, parse]
  cases Parser.run (.ofTokens ts) <;> rfl

/-! ### Trees without places -/

@[simp] theorem text_unplaced (k : TokenKind) : unplaced.text k = id := rfl

@[simp] theorem place_unplaced (pos : Pos) : unplaced.place pos = {} := rfl

@[simp] theorem address_unplaced (a : Address) : unplaced.address a = a := by
  cases a
  simp [Respelling.address]

attribute [local simp] Node.same Node.sameItems Node.sameOption

/-- Expressions are the same just if they are equal without places. -/
theorem expr_same_iff (e e' : Expr) :
    e.toNode.same e'.toNode ↔ unplaced.expr e = unplaced.expr e' := by
  induction e generalizing e' with
  | literal v h pos => cases e' <;> simp [Expr.toNode, expr]
  | symbol name pos => cases e' <;> simp [Expr.toNode, expr]
  | here pos => cases e' <;> simp [Expr.toNode, expr]
  | unary op e pos ih => cases e' <;> simp [Expr.toNode, expr, ih]
  | binary op l r pos ihl ihr =>
    cases e' <;> simp [Expr.toNode, expr, ihl, ihr, and_assoc]

/-- So are operands. -/
theorem operand_same_iff (o o' : Operand) :
    o.toNode.same o'.toNode ↔ unplaced.operand o = unplaced.operand o' := by
  obtain ⟨form, size, pos⟩ := o
  obtain ⟨form', size', pos'⟩ := o'
  cases form <;> cases form' <;>
    simp [Operand.toNode, Respelling.operand, Respelling.form, expr_same_iff, and_assoc]

/-- Lists of trees are the same iff they are equal without places. -/
theorem sameItems_iff {α : Type} {toNode : α → Node} {g : α → α}
    (h : ∀ a a', (toNode a).same (toNode a') ↔ g a = g a') (as as' : List α) :
    Node.sameItems (as.map toNode) (as'.map toNode) ↔ as.map g = as'.map g := by
  induction as generalizing as' with
  | nil => cases as' <;> simp
  | cons a as ih => cases as' <;> simp [h, ih]

theorem sameOption_iff {α : Type} {toNode : α → Node} {g : α → α}
    (h : ∀ a a', (toNode a).same (toNode a') ↔ g a = g a') (a a' : Option α) :
    Node.sameOption (a.map toNode) (a'.map toNode) ↔ a.map g = a'.map g := by
  cases a <;> cases a' <;> simp [h]

/-- So are instructions. -/
theorem instruction_same_iff (i i' : Instruction) :
    i.toNode.same i'.toNode ↔ unplaced.instruction i = unplaced.instruction i' := by
  obtain ⟨m, os, l, c, d, pos⟩ := i
  obtain ⟨m', os', l', c', d', pos'⟩ := i'
  have hos := sameItems_iff operand_same_iff os os'
  have hd := sameOption_iff expr_same_iff d d'
  simp only [Instruction.toNode, Node.same, Bool.and_eq_true, decide_eq_true_eq, hos, hd]
  simp [Respelling.instruction, and_assoc]

theorem label_same_iff (l l' : Label) :
    l.toNode.same l'.toNode ↔ unplaced.label l = unplaced.label l' := by
  simp [Label.toNode, Respelling.label]

/-- Programs are the same up to places iff they are equal without them. -/
theorem program_same_iff {p p' : Program} :
    p.toNode.same p'.toNode ↔ unplaced.program p = unplaced.program p' := by
  have hi := sameItems_iff instruction_same_iff p.instructions p'.instructions
  have hl := sameItems_iff label_same_iff p.labels p'.labels
  simp only [Program.toNode, Node.same, Bool.and_eq_true, hi, hl]
  simp [Respelling.program]

end IntelAsm

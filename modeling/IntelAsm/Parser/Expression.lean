import IntelAsm.Numeral.Integer
import IntelAsm.Parser.Basic
import IntelAsm.Tree

/-!
# Expressions

Sums and products of signed operands, with parentheses:

    expr  ::= term  { ("+" | "-") term }
    term  ::= unary { ("*" | "/" | "%") unary }
    unary ::= ("+" | "-") unary | number | symbol | "$" | "(" expr ")"

The reader keeps what it has seen in a `Draft`: the operators that still wait for their right
operand, in one group per open parenthesis. Each token is one step of the draft, so expressions may
be nested to any depth. An expression ends in front of the first token that cannot continue it.
-/

namespace IntelAsm

/-! ### Numeric literals -/

/-- The number of digits of the largest decimal literal. -/
def maxDecimalDigits : Nat := 19

/-- The value of a word as a number. Decimal numerals must fit a signed word of 64 bits, and those
with too many digits are not even read; hexadecimal ones may fill an unsigned word and stand for the
signed word of the same bits. -/
def Word.value (w : Word) : Except ParseFault Int :=
  if w.kind = .hexNumber then
    match Numeral.integer? 16 w.text.toList with
    | some n => if n < Numeral.wordCount then .ok (Numeral.signedWord n) else .error .outOfRange
    | none => .error (.notNumeral 16 w.text)
  else
    let digits := Numeral.significant w.text.toList
    if digits.length > maxDecimalDigits then .error .outOfRange
    else
      match Numeral.integer? 10 digits with
      | some n => if n ≤ Numeral.maxSigned then .ok n else .error .outOfRange
      | none => .error (.notNumeral 10 (String.ofList digits))

/-! ### Operators -/

/-- How tightly an operator between two operands binds. -/
def precedence? : TokenKind → Option Nat
  | .mark .plus => some 1
  | .mark .minus => some 1
  | .mark .star => some 2
  | .mark .slash => some 2
  | .mark .percent => some 2
  | _ => none

/-- How tightly a sign binds: more than any operator between two operands. -/
def signBinding : Nat := 3

/-- The part that a token plays among the operators that are still open. -/
inductive OperatorRole where
  | openParen
  | sign
  | between (kind : TokenKind)
deriving DecidableEq, Repr

/-- How tightly an open operator binds; a parenthesis gives way to none. -/
def OperatorRole.binding? : OperatorRole → Option Nat
  | .openParen => some 0
  | .sign => some signBinding
  | .between kind => precedence? kind

/-- An operator that waits for its right operand. -/
inductive Pending where
  | sign (op : Token)
  | between (left : Expr) (op : String) (precedence : Nat)
deriving DecidableEq, Repr

namespace Pending

/-- How tightly a waiting operator binds. -/
def binding : Pending → Nat
  | .sign _ => signBinding
  | .between _ _ n => n

/-- The expression that the right operand completes. It stands where its first token does, a
parenthesis aside. -/
def complete : Pending → Expr → Expr
  | .sign op, e => .unary op.text e op.pos
  | .between l op _, e => .binary op l e l.pos

end Pending

/-- Completes the waiting operators that bind at least as tightly as the one to come. -/
def completeDownTo (precedence : Nat) : List Pending → Expr → List Pending × Expr
  | [], e => ([], e)
  | p :: ps, e =>
    if precedence ≤ p.binding then completeDownTo precedence ps (p.complete e) else (p :: ps, e)

/-- Completes every waiting operator of a group. -/
def completeAll (ps : List Pending) (e : Expr) : Expr := ps.foldl (fun e p => p.complete e) e

/-! ### Drafts -/

/-- An expression that is being read. -/
structure Draft where
  /-- The waiting operators inside the innermost open parenthesis, the nearest first. -/
  group : List Pending := []
  /-- Those of the enclosing parentheses and of the whole, the innermost first. -/
  outer : List (List Pending) := []
  /-- The operand that was read last; none if one is due. -/
  operand : Option Expr := none
deriving DecidableEq, Repr

/-- What a token does to a draft. -/
inductive DraftStep where
  | next (d : Draft)
  /-- The token does not belong to the expression. -/
  | stop
  | fault (f : ParseFault)
deriving DecidableEq, Repr

/-- The operand that a single token makes, if it is of a kind that makes one. -/
def Token.operand? (t : Token) : Option (Except ParseFault Expr) :=
  if t.kind.isNumeric then some (t.value.map fun v => .literal v (t.kind = .hexNumber) t.pos)
  else if t.kind = .mark .dollar then some (.ok (.here t.pos))
  else if t.kind = .ident then some (.ok (.symbol t.text t.pos))
  else none

namespace Draft

/-- A token where an operand is due. -/
def stepOperand (d : Draft) (t : Token) : DraftStep :=
  if t.kind = .mark .plus ∨ t.kind = .mark .minus then
    .next { d with group := .sign t :: d.group }
  else if t.kind = .mark .leftParen then
    .next { group := [], outer := d.group :: d.outer }
  else
    match t.operand? with
    | some (.ok e) => .next { d with operand := some e }
    | some (.error f) => .fault f
    | none => .stop

/-- A token behind the operand `e`. -/
def stepOperator (d : Draft) (e : Expr) (t : Token) : DraftStep :=
  match precedence? t.kind with
  | some n =>
    let (waiting, left) := completeDownTo n d.group e
    .next { group := .between left t.text n :: waiting, outer := d.outer }
  | none =>
    if t.kind = .mark .rightParen then
      match d.outer with
      | g :: gs => .next { group := g, outer := gs, operand := some (completeAll d.group e) }
      | [] => .stop
    else .stop

/-- What a token does to a draft. -/
def step (d : Draft) (t : Token) : DraftStep :=
  match d.operand with
  | none => d.stepOperand t
  | some e => d.stepOperator e t

/-- The expression, where no token continues it: no operand may be due and no parenthesis open. -/
def finish (d : Draft) : Parse Expr := fun c =>
  match d.operand with
  | none => Parse.fail (.noOperand c.current.toWord) c.current c
  | some e =>
    match d.outer with
    | [] => .ok (completeAll d.group e) c
    | _ :: _ => Parse.fail (.expected .closingParen c.current.toWord) c.current c

/-- Reads on from a draft, between the tokens passed and those ahead. -/
def resume (d : Draft) (past : List Token) : List Token → EStateM.Result ParseError Cursor Expr
  | [] => d.finish ⟨past, []⟩
  | t :: ts =>
    match d.step t with
    | .next d' => d'.resume (t :: past) ts
    | .stop => d.finish ⟨past, t :: ts⟩
    | .fault f => .error ⟨f, t.pos⟩ ⟨t :: past, ts⟩

end Draft

namespace Parse

/-- A single operand of an expression. -/
def primary : Parse Expr := do
  let t ← current
  match t.operand? with
  | some value => takeValue value
  | none => fail (.noOperand t.toWord) t

/-- An expression. -/
def expression : Parse Expr := fun c => ({} : Draft).resume c.past c.ahead

/-! ### Expressions are read forward -/

theorem forward_finish (d : Draft) : Forward d.finish := by
  intro c
  unfold Draft.finish
  split
  · exact .refl c
  · split <;> exact .refl c

theorem before_resume (d : Draft) (past ahead : List Token) :
    Cursor.Before ⟨past, ahead⟩ (stateOf (d.resume past ahead)) := by
  induction ahead generalizing d past with
  | nil => exact forward_finish d _
  | cons t ts ih =>
    unfold Draft.resume
    split
    · exact (Cursor.before_advance ⟨past, t :: ts⟩).trans (ih _ _)
    · exact forward_finish d _
    · exact Cursor.before_advance ⟨past, t :: ts⟩

theorem forward_expression : Forward expression := fun c => before_resume _ c.past c.ahead

end Parse

end IntelAsm

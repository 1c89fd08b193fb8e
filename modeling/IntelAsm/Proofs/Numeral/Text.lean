import IntelAsm.Proofs.Lexer.Partition
import IntelAsm.Proofs.Numeral.Signed
import IntelAsm.Rendering.Spelling

/-!
# Texts of literals

A numeric literal of a source has digits, separators among them, and zeros in front; its text stands
for a number, however many digits it has (`LiteralText`). Where it stands in a source the lexer
finds one word (`LiteralText.lexedAs`). That word has a value exactly if the number fits 64 bits,
and then the value is that number or, for a hexadecimal literal, the signed word of its bits
(`LiteralText.value_eq`).

The texts that `Spelling` writes are such texts (`literalText_literal`).
-/

namespace IntelAsm

open Lexeme

/-! ### Texts and their numbers -/

namespace Numeral

/-- The number that the digits of a text stand for; separators do not count. -/
def ofText (base : Nat) (cs : List Char) : Nat := ofDigits base (cs.filterMap (digit? base))

/-- The largest number that a literal may stand for. -/
def limit (isHex : Bool) : Nat := if isHex then 0xFFFFFFFFFFFFFFFF else 0x7FFFFFFFFFFFFFFF

/-- What is kept of the number of a literal: the number, or for a hexadecimal one the signed word
that is the same modulo 2^64. -/
def stored (isHex : Bool) (n : Nat) : Int := if isHex then signedWord n else n

end Numeral

open Numeral (ofText limit stored isDecimalDigit isHexDigit)

/-- The text of a numeric literal, and the number that it stands for. -/
inductive LiteralText : (isHex : Bool) → List Char → Nat → Prop where
  /-- A digit, and any digits and separators behind it. -/
  | decimal {d : Char} {ds : List Char} (hd : isDecimalDigit d)
      (hds : ∀ c ∈ ds, isDecimalDigit c ∨ c = '_') :
      LiteralText false (d :: ds) (ofText 10 (d :: ds))
  /-- The marker, and any hexadecimal digits and separators behind it, with one digit at least. -/
  | hexadecimal {x : Char} {ds : List Char} (hx : x = 'x' ∨ x = 'X')
      (hds : ∀ c ∈ ds, isHexDigit c ∨ c = '_') (hd : ∃ c ∈ ds, c ≠ '_') :
      LiteralText true ('0' :: x :: ds) (ofText 16 ds)

/-- The word of a literal with a given text. -/
def Word.ofLiteral (isHex : Bool) (l : List Char) : Word :=
  ⟨if isHex then .hexNumber else .number, String.ofList (l.filter (· ≠ '_'))⟩

/-- Where a text ends in a source it is one token, which starts where the text does. -/
def LexedAs (l : List Char) (w : Word) : Prop :=
  ∀ p rest, w.EndsBefore l rest → scan p (l ++ rest) = (scan (p.afterAll l) rest).map (⟨w, p⟩ :: ·)

namespace Numeral

theorem digit?_separator (base : Nat) : digit? base '_' = none := rfl

/-- Without its separators a text stands for the same number. -/
theorem ofText_filter (base : Nat) (cs : List Char) :
    ofText base (cs.filter (· ≠ '_')) = ofText base cs := by
  unfold ofText
  rw [List.filterMap_filter]
  congr 2
  funext c
  by_cases hc : c = '_'
  · simp [hc, digit?_separator]
  · simp [hc]

theorem ofText_zero_cons (cs : List Char) : ofText 10 ('0' :: cs) = ofText 10 cs := by
  have hd : digit? 10 '0' = some 0 := rfl
  rw [ofText, List.filterMap_cons_some hd]
  rfl

/-- Without its leading zeros a text stands for the same number. -/
theorem ofText_significant (cs : List Char) : ofText 10 (significant cs) = ofText 10 cs := by
  have hdrop : ofText 10 (cs.dropWhile (· = '0')) = ofText 10 cs := by
    induction cs with
    | nil => rfl
    | cons c cs ih =>
      by_cases hc : c = '0'
      · rw [hc, List.dropWhile_cons_of_pos rfl, ih, ofText_zero_cons]
      · rw [List.dropWhile_cons_of_neg (by simpa using hc)]
  unfold significant
  split
  · next h => rw [← hdrop, h]; rfl
  · exact hdrop

end Numeral

namespace LiteralText

variable {isHex : Bool} {l : List Char} {n : Nat}

theorem isNumeric (isHex : Bool) (l : List Char) : (Word.ofLiteral isHex l).kind.isNumeric := by
  cases isHex <;> rfl

theorem spells (h : LiteralText isHex l n) : (Word.ofLiteral isHex l).Spells l := by
  cases h with
  | decimal hd hds => exact .number hd hds
  | hexadecimal hx hds hd => exact .hexNumber hx hds hd

/-- The lexer finds a literal as one word, whatever stands around it. -/
theorem lexedAs (h : LiteralText isHex l n) : LexedAs l (Word.ofLiteral isHex l) :=
  fun p _ he => scan_of_spells h.spells he p

/-- A literal ends in front of everything that continues no word. -/
theorem endsBefore (h : LiteralText isHex l n) {rest : List Char} (hb : Breaks rest) :
    (Word.ofLiteral isHex l).EndsBefore l rest := by
  cases h with
  | @decimal d ds hd hds =>
    refine ⟨hb.digitRun fun _ hc => ?_, startsHex_digits hb hds d⟩
    exact continuesWord_of_isHexDigit (isHexDigit_of_isDecimalDigit hc)
  | hexadecimal hx hds hd => exact hb.digitRun fun _ => continuesWord_of_isHexDigit

/-! ### Numbers -/

theorem isDigit_of_mem_filter {isDigit : Char → Bool} {ds : List Char}
    (hds : ∀ c ∈ ds, isDigit c ∨ c = '_') {c : Char} (hc : c ∈ ds.filter (· ≠ '_')) :
    isDigit c := by
  obtain ⟨hmem, hne⟩ := List.mem_filter.1 hc
  exact (hds c hmem).resolve_right (of_decide_eq_true hne)

/-- The digits behind the marker stay where the separators are left out. -/
theorem filter_marked {x : Char} (hx : x = 'x' ∨ x = 'X') (ds : List Char) :
    ('0' :: x :: ds).filter (· ≠ '_') = '0' :: x :: ds.filter (· ≠ '_') := by
  rcases hx with rfl | rfl <;> rfl

/-- A text in decimal notation stands for a number; the separators and zeros in front are left
out before it is read. -/
theorem number?_decimal {ds : List Char} (hds : ∀ c ∈ ds, isDecimalDigit c ∨ c = '_') :
    (Word.ofLiteral false ds).number? = some (ofText 10 ds : Int) := by
  have hdigits : ∀ c ∈ ds.filter (· ≠ '_'), isDecimalDigit c := fun c => isDigit_of_mem_filter hds
  have hread := Numeral.integer?_eq (Numeral.isDigits_significant hdigits)
  rw [← ofText, Numeral.ofText_significant, Numeral.ofText_filter] at hread
  simpa [Word.ofLiteral, Word.number?] using hread

theorem number?_hexadecimal {x : Char} {ds : List Char} (hx : x = 'x' ∨ x = 'X')
    (hds : ∀ c ∈ ds, isHexDigit c ∨ c = '_') (hd : ∃ c ∈ ds, c ≠ '_') :
    (Word.ofLiteral true ('0' :: x :: ds)).number? = some (ofText 16 ds : Int) := by
  have hdigits : Numeral.IsDigits 16 (ds.filter (· ≠ '_')) := by
    obtain ⟨c, hc, hne⟩ := hd
    refine ⟨List.ne_nil_of_mem (List.mem_filter.2 ⟨hc, decide_eq_true hne⟩), fun c hc => ?_⟩
    exact Numeral.digit?_sixteen_isSome (isDigit_of_mem_filter hds hc)
  have hread := Numeral.integer?_sixteen hx hdigits
  rw [← ofText, Numeral.ofText_filter, ← filter_marked hx] at hread
  simpa [Word.ofLiteral, Word.number?] using hread

theorem number?_eq (h : LiteralText isHex l n) :
    (Word.ofLiteral isHex l).number? = some (n : Int) := by
  cases h with
  | decimal hd hds => exact number?_decimal (List.forall_mem_cons.2 ⟨.inl hd, hds⟩)
  | hexadecimal hx hds hd => exact number?_hexadecimal hx hds hd

/-! ### Values -/

theorem isNumeral (h : LiteralText isHex l n) : (Word.ofLiteral isHex l).IsNumeral := by
  cases h with
  | decimal hd hds =>
    refine ⟨fun _ c hc => ?_, nofun⟩
    rw [Word.ofLiteral, String.toList_ofList] at hc
    exact isDigit_of_mem_filter (List.forall_mem_cons.2 ⟨.inl hd, hds⟩) hc
  | @hexadecimal x ds hx hds hd =>
    obtain ⟨c, hc, hne⟩ := hd
    refine ⟨nofun, fun _ => ⟨ds.filter (· ≠ '_'), ?_, fun c => isDigit_of_mem_filter hds, .inr ?_⟩⟩
    · exact List.ne_nil_of_mem (List.mem_filter.2 ⟨hc, decide_eq_true hne⟩)
    · refine ⟨x, hx, ?_⟩
      rw [Word.ofLiteral, String.toList_ofList, filter_marked hx]

theorem largest_eq (isHex : Bool) (l : List Char) :
    (Word.ofLiteral isHex l).largest = (limit isHex : Int) := by
  cases isHex <;> rfl

theorem signedWord_eq_stored {isHex : Bool} {n : Nat} (h : n ≤ limit isHex) :
    Numeral.signedWord n = stored isHex n := by
  cases isHex with
  | true => rw [stored, if_pos rfl]
  | false =>
    have hn : n ≤ 0x7FFFFFFFFFFFFFFF := by simpa [limit] using h
    rw [stored, if_neg (by decide)]
    refine Word.signedWord_eq_self ?_ ?_
    · unfold Numeral.minSigned
      omega
    · unfold Numeral.maxSigned
      omega

/-- A literal has a value exactly if its number is in range. -/
theorem value_eq (h : LiteralText isHex l n) : (Word.ofLiteral isHex l).value =
    if n ≤ limit isHex then .ok (stored isHex n) else .error .outOfRange := by
  have hk := isNumeric isHex l
  have hiff (v : Int) : (Word.ofLiteral isHex l).value = .ok v ↔
      n ≤ limit isHex ∧ v = Numeral.signedWord n := by
    rw [h.isNumeral.value_eq_ok_iff hk, h.number?_eq, largest_eq]
    simp
  split
  · next hle => exact (hiff _).2 ⟨hle, (signedWord_eq_stored hle).symm⟩
  · next hlt => exact h.isNumeral.value_eq_error hk fun v hv => hlt ((hiff v).1 hv).1

end LiteralText

/-! ### Written literals -/

section
open Numeral (digits digitChar)

/-- A number is what its digits stand for. -/
theorem ofText_digits {base : Nat} (hb : 2 ≤ base) (hb' : base ≤ 16) (n : Nat) :
    ofText base ((digits base n).map digitChar) = n :=
  Numeral.ofDigits_map_digitChar hb hb' n

theorem literalText_decimal (n : Nat) : LiteralText false (Numeral.decimal n).toList n := by
  have ht : (Numeral.decimal (n : Int)).toList = (digits 10 n).map digitChar := by
    rw [Numeral.decimal, if_neg (by omega), Numeral.numeral, String.toList_ofList]
    rfl
  have hdigit : ∀ c ∈ (digits 10 n).map digitChar, isDecimalDigit c :=
    fun _ => Numeral.isDecimalDigit_of_mem
  have hn := @ofText_digits 10 (by omega) (by omega) n
  rw [ht]
  obtain ⟨d, ds, hds⟩ := List.exists_cons_of_ne_nil
    (@Numeral.isDigits_map_digitChar 10 (by omega) (by omega) n).ne_nil
  rw [hds] at hdigit hn ⊢
  have h := LiteralText.decimal (hdigit d (by simp))
    fun c hc => .inl (hdigit c (List.mem_cons_of_mem d hc))
  rwa [hn] at h

theorem literalText_hexadecimal (n : Nat) : LiteralText true (Numeral.hexadecimal n).toList n := by
  have ht : (Numeral.hexadecimal n).toList = '0' :: 'x' :: (digits 16 n).map digitChar := by
    simp [Numeral.hexadecimal, Numeral.numeral]
  have hdigits := @Numeral.isDigits_map_digitChar 16 (by omega) (by omega) n
  obtain ⟨c, hc⟩ := List.exists_mem_of_ne_nil _ hdigits.ne_nil
  have h := LiteralText.hexadecimal (.inl rfl) (fun c hc => .inl (Numeral.isHexDigit_of_mem hc))
    ⟨c, hc, hdigits.ne_separator hc⟩
  rwa [ofText_digits (by omega) (by omega), ← ht] at h

theorem stored_unsignedWord {v : Int} (h : Numeral.minSigned ≤ v) (h' : v ≤ Numeral.maxSigned) :
    Numeral.unsignedWord v ≤ limit true ∧ stored true (Numeral.unsignedWord v) = v := by
  have hlt := Word.unsignedWord_lt v
  unfold Numeral.wordCount at hlt
  refine ⟨by simpa [limit] using Nat.le_of_lt_succ hlt, ?_⟩
  rw [stored, if_pos rfl, Word.signedWord_unsignedWord h h']

/-- A signed word is written as the text of a literal that stands for it, if it is not negative or
may be hexadecimal. -/
theorem literalText_literal {v : Int} {isHex : Bool} (h : Numeral.minSigned ≤ v)
    (h' : v ≤ Numeral.maxSigned) (hv : 0 ≤ v ∨ isHex) :
    ∃ n, LiteralText isHex (Spelling.literal v isHex).toList n ∧ n ≤ limit isHex ∧
      stored isHex n = v := by
  cases isHex with
  | true => exact ⟨_, literalText_hexadecimal _, stored_unsignedWord h h'⟩
  | false =>
    obtain ⟨n, rfl⟩ := Int.eq_ofNat_of_zero_le (hv.resolve_right (by decide))
    have ht : Spelling.literal (n : Int) = Numeral.decimal n := by
      rw [Spelling.literal, if_neg (by simp)]
    have hle : n ≤ limit false := by
      unfold Numeral.maxSigned at h'
      simp only [limit, Bool.false_eq_true, if_false]
      omega
    exact ⟨n, ht ▸ literalText_decimal n, hle, by simp [stored]⟩

/-- A number with its sign is written as a sign and the text of a literal, which is worth the number
behind that sign. -/
theorem literalText_signed {d : Int} (h : Numeral.minSigned ≤ d) (h' : d ≤ Numeral.maxSigned) :
    ∃ m isHex l n, (m = .plus ∨ m = .minus) ∧ (Spelling.signed d).toList = Mark.char m :: l ∧
      LiteralText isHex l n ∧ n ≤ limit isHex ∧
      (if TokenKind.mark m = .mark .plus then stored isHex n
        else Numeral.signedWord (-stored isHex n)) = d := by
  unfold Numeral.minSigned at h
  unfold Numeral.maxSigned at h'
  unfold Spelling.signed Numeral.maxSigned
  split
  · next h0 =>
    obtain ⟨n, rfl⟩ := Int.eq_ofNat_of_zero_le h0
    refine ⟨.plus, false, _, n, .inl rfl, by simp [Mark.char], literalText_decimal n, ?_, ?_⟩
    · simp only [limit, Bool.false_eq_true, if_false]
      omega
    · simp [stored]
  split
  · -- the least word is the negation of itself
    obtain rfl : d = -0x8000000000000000 := by omega
    exact ⟨.minus, true, _, 0x8000000000000000, .inr rfl, by simp [Mark.char],
      literalText_hexadecimal _, by decide, by decide⟩
  · obtain ⟨n, hn⟩ := Int.eq_ofNat_of_zero_le (a := -d) (by omega)
    obtain rfl : d = -n := by omega
    rw [hn]
    refine ⟨.minus, false, _, n, .inr rfl, by simp [Mark.char], literalText_decimal n, ?_, ?_⟩
    · simp only [limit, Bool.false_eq_true, if_false]
      omega
    · simp only [stored, Bool.false_eq_true, if_false, TokenKind.mark.injEq, reduceCtorEq]
      exact Word.signedWord_eq_self (by unfold Numeral.minSigned; omega)
        (by unfold Numeral.maxSigned; omega)

end

end IntelAsm

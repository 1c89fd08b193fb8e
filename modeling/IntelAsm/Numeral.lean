/-!
# Numerals

Natural numbers in positional notation: `digits` writes a number, `ofDigits` reads it back
(`ofDigits_digits`). On top of them stand the spellings of the assembly language: decimal and
upper-case hexadecimal numerals, and 64-bit words as signed numbers.
-/

namespace IntelAsm.Numeral

/-! ### Positional notation -/

/-- The digits of `n`, the most significant first; zero has one digit. -/
def digits (base n : Nat) : List Nat :=
  if n < base ∨ base < 2 then [n] else digits base (n / base) ++ [n % base]
termination_by n
decreasing_by
  rename_i h
  exact Nat.div_lt_self (by omega) (by omega)

/-- The number that a row of digits stands for. -/
def ofDigits (base : Nat) (ds : List Nat) : Nat :=
  ds.foldl (fun n d => n * base + d) 0

theorem ofDigits_append_singleton (base : Nat) (ds : List Nat) (d : Nat) :
    ofDigits base (ds ++ [d]) = ofDigits base ds * base + d := by
  simp [ofDigits]

/-- A number is read back from its digits. -/
theorem ofDigits_digits (base n : Nat) : ofDigits base (digits base n) = n := by
  fun_induction digits base n with
  | case1 n h => simp [ofDigits]
  | case2 n h ih => rw [ofDigits_append_singleton, ih, Nat.div_add_mod']

/-! ### Digit characters -/

/-- The character of a digit below sixteen, letters in upper case. -/
def digitChar (d : Nat) : Char :=
  if d < 10 then Char.ofNat (0x30 + d) else Char.ofNat (0x37 + d)

/-- The value of a digit character, letters in either case. -/
def digitValue? (c : Char) : Option Nat :=
  if '0' ≤ c ∧ c ≤ '9' then some (c.toNat - 0x30)
  else if 'A' ≤ c ∧ c ≤ 'F' then some (c.toNat - 0x37)
  else if 'a' ≤ c ∧ c ≤ 'f' then some (c.toNat - 0x57)
  else none

/-- A decimal digit. -/
def isDecimalDigit (c : Char) : Bool := '0' ≤ c && c ≤ '9'

/-- A hexadecimal digit, in either case. -/
def isHexDigit (c : Char) : Bool := (digitValue? c).isSome

theorem digitValue?_digitChar {d : Nat} (h : d < 16) : digitValue? (digitChar d) = some d := by
  rcases d with _ | _ | _ | _ | _ | _ | _ | _ | _ | _ | _ | _ | _ | _ | _ | _ | d
  all_goals first | rfl | omega

/-! ### Writing -/

/-- The numeral of `n` in the given base, at most sixteen. -/
def numeral (base n : Nat) : String := String.ofList ((digits base n).map digitChar)

/-- A number in decimal notation, a minus sign in front of a negative one. -/
def decimal (i : Int) : String :=
  if i < 0 then "-" ++ numeral 10 i.natAbs else numeral 10 i.natAbs

/-- A number in upper-case hexadecimal notation behind the marker `0x`. -/
def hexadecimal (n : Nat) : String := "0x" ++ numeral 16 n

/-- Lower-case hexadecimal digits of `n`, filled up with zeros to `width` digits. -/
def paddedHex (width n : Nat) : List Char :=
  let cs := (digits 16 n).map fun d => (digitChar d).toLower
  List.replicate (width - cs.length) '0' ++ cs

/-! ### Words of 64 bits -/

/-- The number of 64-bit words. -/
def wordCount : Nat := 0x10000000000000000

/-- The largest number that a signed 64-bit word holds. -/
def maxSigned : Int := 0x7FFFFFFFFFFFFFFF

/-- The smallest number that a signed 64-bit word holds. -/
def minSigned : Int := -0x8000000000000000

/-- The low 64 bits of a number, as an unsigned word. -/
def unsignedWord (i : Int) : Nat := (i % wordCount).toNat

/-- The low 64 bits of a number, as a signed word. -/
def signedWord (i : Int) : Int := i.bmod wordCount

end IntelAsm.Numeral

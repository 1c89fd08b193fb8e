import IntelAsm.Numeral
import IntelAsm.Text.Blank
import IntelAsm.Text.Digits

/-!
# Integers as texts spell them

    integer ::= blanks ["+" | "-"] natural blanks
    natural ::= ["0x" ["_"]] digit { ["_"] digit }        -- the marker in base 16 only

Digits and blanks may be those of any script; a digit beyond nine is a letter in either case.
`integer?` reads a whole text. A row of plain digits is read as its number (`row?_map_digitChar`).
-/

namespace IntelAsm.Numeral

/-- The ASCII character that means the same, for digits and blanks of other scripts. -/
def asciiForm (c : Char) : Char :=
  if Text.isAscii c then c
  else if Text.isBlank c then ' '
  else
    match Text.decimalValue? c with
    | some d => digitChar d
    | none => c

/-- The value of a digit below the base. -/
def digit? (base : Nat) (c : Char) : Option Nat := (digitValue? c).filter (· < base)

/-- The digits of a row, without the separators between them: a separator stands between two
digits, and no two of them stand together. -/
def row? (base : Nat) : List Char → Option (List Nat)
  | [] => none
  | c :: cs => do
    let d ← digit? base c
    match cs with
    | [] => return [d]
    | '_' :: cs => return d :: (← row? base cs)
    | cs => return d :: (← row? base cs)

/-- What follows the marker of a hexadecimal numeral, if there is one; a separator may end the
marker. -/
def afterMarker : List Char → List Char
  | '0' :: x :: cs =>
    if x = 'x' || x = 'X' then
      match cs with
      | '_' :: ds => ds
      | ds => ds
    else '0' :: x :: cs
  | cs => cs

/-- The number that a row of digits spells. -/
def natural? (base : Nat) (cs : List Char) : Option Nat :=
  (row? base (if base = 16 then afterMarker cs else cs)).map (ofDigits base)

/-- The number that a text spells. -/
def integer? (base : Nat) (cs : List Char) : Option Int :=
  match Text.trimBlanks (cs.map asciiForm) with
  | '+' :: ds => (natural? base ds).map fun n => (n : Int)
  | '-' :: ds => (natural? base ds).map fun n => -(n : Int)
  | ds => (natural? base ds).map fun n => (n : Int)

/-- The digits of a numeral from the first one that counts; zero has one. -/
def significant (cs : List Char) : List Char :=
  match cs.dropWhile (· = '0') with
  | [] => ['0']
  | ds => ds

/-! ### Plain digits -/

theorem digit?_digitChar {base d : Nat} (hbase : base ≤ 16) (hd : d < base) :
    digit? base (digitChar d) = some d := by
  rw [digit?, digitValue?_digitChar (Nat.lt_of_lt_of_le hd hbase)]
  simp [hd]

theorem digitChar_ne_separator {d : Nat} (h : d < 16) : digitChar d ≠ '_' := by
  intro hd
  have hv := digitValue?_digitChar h
  rw [hd] at hv
  cases hv

/-- A row of digits without separators is read digit by digit. -/
theorem row?_map_digitChar {base : Nat} (hbase : base ≤ 16) :
    ∀ {ds : List Nat}, ds ≠ [] → (∀ d ∈ ds, d < base) → row? base (ds.map digitChar) = some ds
  | [], hne, _ => absurd rfl hne
  | [d], _, h => by
    have hd : d < base := h d (by simp)
    simp [row?, digit?_digitChar hbase hd]
  | d :: e :: ds, _, h => by
    have hd : d < base := h d (by simp)
    have he : digitChar e ≠ '_' :=
      digitChar_ne_separator (Nat.lt_of_lt_of_le (h e (by simp)) hbase)
    have ih : row? base ((e :: ds).map digitChar) = some (e :: ds) :=
      row?_map_digitChar hbase (by simp) fun x hx => h x (List.mem_cons_of_mem _ hx)
    rw [List.map_cons, row?, digit?_digitChar hbase hd]
    simp only [List.map_cons] at ih ⊢
    split
    · next h0 => cases h0
    · next h0 => exact absurd (List.cons.inj h0).1 he
    · next h0 => simp [ih]

end IntelAsm.Numeral

/-!
# Texts of code points

A text of characters is a row of Unicode code points, and none of them is a surrogate. Texts that
come from elsewhere may hold surrogates too: these are texts of code points (`Str`). `Textual`
stands for both types, so that a tree can be built over either.
-/

namespace IntelAsm

/-- A Unicode code point. Unlike a character it may be a surrogate. -/
structure CodePoint where
  toNat : Nat
  lt : toNat < 0x110000 := by decide
deriving DecidableEq, Repr

namespace CodePoint

theorem ext {c d : CodePoint} (h : c.toNat = d.toNat) : c = d := by
  cases c
  cases d
  cases h
  rfl

/-- The code point of a character. -/
def ofChar (c : Char) : CodePoint where
  toNat := c.toNat
  lt := by
    have hvalid := c.valid
    simp only [UInt32.isValidChar, Nat.isValidChar] at hvalid
    have hn : c.toNat = c.val.toNat := rfl
    omega

/-- Different characters are different code points. -/
theorem ofChar_inj {c d : Char} (h : ofChar c = ofChar d) : c = d :=
  Char.toNat_inj.1 (congrArg toNat h)

/-- The first half of a pair that stands for one code point in UTF-16. -/
def isHigh (c : CodePoint) : Bool := 0xD800 ≤ c.toNat && c.toNat < 0xDC00

/-- The second half of such a pair. -/
def isLow (c : CodePoint) : Bool := 0xDC00 ≤ c.toNat && c.toNat < 0xE000

/-- The character of a code point that is no surrogate. -/
def char? (c : CodePoint) : Option Char :=
  if h : c.toNat.isValidChar then some (Char.ofNatAux c.toNat h) else none

@[simp] theorem char?_ofChar (c : Char) : (ofChar c).char? = some c := by
  have hvalid : (ofChar c).toNat.isValidChar := c.valid
  rw [char?, dif_pos hvalid]
  rfl

/-- A code point that is a character is that character. -/
theorem ofChar_of_char? {c : CodePoint} {ch : Char} (h : c.char? = some ch) : ofChar ch = c := by
  by_cases hvalid : c.toNat.isValidChar
  · rw [char?, dif_pos hvalid] at h
    cases h
    exact ext rfl
  · rw [char?, dif_neg hvalid] at h
    cases h

/-- A surrogate is no character. -/
theorem char?_eq_none {c : CodePoint} (h : 0xD800 ≤ c.toNat) (h' : c.toNat < 0xE000) :
    c.char? = none := by
  have hinvalid : ¬c.toNat.isValidChar := by
    unfold Nat.isValidChar
    omega
  rw [char?, dif_neg hinvalid]

end CodePoint

/-- A text that may hold surrogates. -/
abbrev Str := List CodePoint

/-- A type of texts, each told by its code points. -/
class Textual (τ : Type) where
  codePoints : τ → Str
  injective : ∀ {s t : τ}, codePoints s = codePoints t → s = t

/-- The code points of a text of characters. -/
def Text.codePoints (s : String) : Str := s.toList.map CodePoint.ofChar

/-- A text is told by its code points. -/
theorem Text.codePoints_injective {s t : String} (h : Text.codePoints s = Text.codePoints t) :
    s = t :=
  String.toList_inj.1 (List.map_inj_right (fun _ _ => CodePoint.ofChar_inj) |>.1 h)

theorem Text.mem_codePoints {c : Char} {s : String} :
    CodePoint.ofChar c ∈ Text.codePoints s ↔ c ∈ s.toList := by
  simp only [Text.codePoints, List.mem_map]
  constructor
  · rintro ⟨d, hd, heq⟩
    exact CodePoint.ofChar_inj heq ▸ hd
  · exact fun h => ⟨c, h, rfl⟩

/-- The characters of a text, each surrogate replaced. -/
def Text.ofCodePoints (s : Str) : String := String.ofList (s.map fun c => c.char?.getD '\uFFFD')

/-- A text of characters is one of code points. -/
instance : Coe String Str := ⟨Text.codePoints⟩

instance : Textual String := ⟨Text.codePoints, Text.codePoints_injective⟩

instance : Textual Str := ⟨id, id⟩

end IntelAsm

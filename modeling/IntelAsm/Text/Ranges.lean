/-!
# Sets of characters as ranges of code points

The character classes of this library are tables. A table is a list of inclusive ranges, in
ascending order and disjoint; `Ranges.has` asks whether a character lies in one of them.
-/

namespace IntelAsm.Text

/-- A set of characters: the first and last code point of each of its ranges. -/
abbrev Ranges := List (Nat × Nat)

/-- A character belongs to a set iff one of the ranges covers its code point. -/
def Ranges.has (rs : Ranges) (c : Char) : Bool :=
  rs.any fun r => r.1 ≤ c.toNat && c.toNat ≤ r.2

/-- Characters of the ASCII block are classified without a table. -/
def isAscii (c : Char) : Bool := c.toNat < 0x80

end IntelAsm.Text

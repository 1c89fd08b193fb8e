import IntelAsm.Numeral
import IntelAsm.Text.CodePoint

/-!
# JSON documents

A value type for JSON and its written form. A document is written on one line, or with every item
on a line of its own and indented by its level; empty lists and objects stay on one line. All
output is printable ASCII: other code points are written as UTF-16 units, and a surrogate as the
unit that it is.
-/

namespace IntelAsm

/-- A JSON value without fractions; an object keeps the order of its fields. -/
inductive Json where
  | null
  | bool (b : Bool)
  | integer (n : Int)
  | string (s : Str)
  | array (items : List Json)
  | object (fields : List (String × Json))

namespace Json

/-- A value that may be absent. -/
def ofOption {α : Type} (f : α → Json) : Option α → Json
  | none => .null
  | some a => f a

/-- A text as a value. -/
def text {τ : Type} [Textual τ] (t : τ) : Json := .string (Textual.codePoints t)

@[simp] theorem text_inj {τ : Type} [Textual τ] {s t : τ} : text s = text t ↔ s = t := by
  constructor
  · exact fun h => Textual.injective (string.inj h)
  · rintro rfl
    rfl

/-! ### Strings -/

/-- A UTF-16 unit as an escape. -/
def escapedUnit (n : Nat) : List Char := '\\' :: 'u' :: Numeral.paddedHex 4 n

/-- One code point of a string. -/
def escaped (c : CodePoint) : List Char :=
  if c = .ofChar '"' then ['\\', '"']
  else if c = .ofChar '\\' then ['\\', '\\']
  else if c = .ofChar '\n' then ['\\', 'n']
  else if c = .ofChar '\r' then ['\\', 'r']
  else if c = .ofChar '\t' then ['\\', 't']
  else if c = .ofChar '\x08' then ['\\', 'b']
  else if c = .ofChar '\x0c' then ['\\', 'f']
  else if 0x20 ≤ c.toNat && c.toNat < 0x7F then [Char.ofNat c.toNat]
  else if c.toNat < 0x10000 then escapedUnit c.toNat
  else
    escapedUnit (0xD800 + (c.toNat - 0x10000) / 0x400) ++
      escapedUnit (0xDC00 + (c.toNat - 0x10000) % 0x400)

/-- A string between quotes. -/
def writeString (s : Str) : String := String.ofList ('"' :: s.flatMap escaped ++ ['"'])

/-- The name of a field between quotes. -/
def writeKey (k : String) : String := writeString (Text.codePoints k)

/-! ### Layout -/

/-- How the items of lists and objects are set: all on one line, or each on its own. -/
inductive Layout where
  | oneLine
  /-- Each level moves its lines to the right by this many blanks. -/
  | indented (step : Nat)

/-- The layout for an indentation; less than none is none. -/
def Layout.ofIndent : Option Int → Layout
  | none => .oneLine
  | some n => .indented n.toNat

/-- What precedes an item at the given level, or the bracket that closes the level above it. -/
def Layout.lineBreak : Layout → Nat → String
  | .oneLine, _ => ""
  | .indented step, level => "\n" ++ String.ofList (List.replicate (step * level) ' ')

/-- What stands between two items at the given level. -/
def Layout.comma (layout : Layout) (level : Nat) : String :=
  match layout with
  | .oneLine => ", "
  | .indented _ => "," ++ layout.lineBreak level

mutual
/-- The text of a value that stands at the given level. -/
def writeAt (layout : Layout) (level : Nat) : Json → String
  | .null => "null"
  | .bool true => "true"
  | .bool false => "false"
  | .integer n => Numeral.decimal n
  | .string s => writeString s
  | .array [] => "[]"
  | .array (x :: xs) =>
    "[" ++ layout.lineBreak (level + 1) ++ writeAt layout (level + 1) x ++
      writeItems layout (level + 1) xs ++ layout.lineBreak level ++ "]"
  | .object [] => "\x7b\x7d"
  | .object ((k, x) :: fs) =>
    "\x7b" ++ layout.lineBreak (level + 1) ++ writeKey k ++ ": " ++
      writeAt layout (level + 1) x ++ writeFields layout (level + 1) fs ++
      layout.lineBreak level ++ "\x7d"

/-- The items of a list behind its first. -/
def writeItems (layout : Layout) (level : Nat) : List Json → String
  | [] => ""
  | x :: xs => layout.comma level ++ writeAt layout level x ++ writeItems layout level xs

/-- The fields of an object behind its first. -/
def writeFields (layout : Layout) (level : Nat) : List (String × Json) → String
  | [] => ""
  | (k, x) :: fs =>
    layout.comma level ++ writeKey k ++ ": " ++ writeAt layout level x ++
      writeFields layout level fs
end

/-- The text of a document. -/
def write (layout : Layout) (j : Json) : String := writeAt layout 0 j

end Json

end IntelAsm

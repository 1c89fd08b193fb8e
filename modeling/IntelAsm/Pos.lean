import IntelAsm.Numeral

/-!
# Places in a source text

A place is a line and a column, both counted from one in characters. `Pos.after` moves a place
over one character, and `Pos.afterAll` over a text.
-/

namespace IntelAsm

/-- A line and a column; the default stands for "nowhere". -/
structure Pos where
  line : Int := 0
  column : Int := 0
deriving DecidableEq, Repr, Inhabited

namespace Pos

/-- Where a text begins. -/
def start : Pos := ⟨1, 1⟩

/-- The place behind a character: a newline ends its line. -/
def after (p : Pos) (c : Char) : Pos :=
  if c = '\n' then ⟨p.line + 1, 1⟩ else ⟨p.line, p.column + 1⟩

/-- The place behind a text. -/
def afterAll (p : Pos) (cs : List Char) : Pos := cs.foldl after p

@[simp] theorem afterAll_nil (p : Pos) : p.afterAll [] = p := rfl

@[simp] theorem afterAll_cons (p : Pos) (c : Char) (cs : List Char) :
    p.afterAll (c :: cs) = (p.after c).afterAll cs := rfl

theorem afterAll_append (p : Pos) (cs ds : List Char) :
    p.afterAll (cs ++ ds) = (p.afterAll cs).afterAll ds := by
  simp [afterAll]

/-- How messages name a place, behind what they say of it. -/
def message (p : Pos) : String :=
  " at line " ++ Numeral.decimal p.line ++ ", col " ++ Numeral.decimal p.column

end Pos

end IntelAsm

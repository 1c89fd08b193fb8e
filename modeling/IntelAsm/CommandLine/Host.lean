import IntelAsm.Rendering.Emitter
import IntelAsm.Text.Utf8

/-!
# What a run depends on

A run reads a file, may write another, prints, and renders as deep as the stack allows. All of this
is up to the system that it runs on, the `Host`: which names lead to which files and whether these
can be opened and filled, which code points the output stream can encode, and which renderings run
out of stack. What is done with the answers is up to the run: names and texts are encoded here, and
a text that has no encoding is found out only when its file was opened, and emptied.
-/

namespace IntelAsm.CommandLine

/-! ### Files -/

/-- What the system has against the use of a file. The reason stands on one line. -/
structure FileError where
  number : Nat
  reason : String
  /-- Whether the file could not even be opened; messages name it then. -/
  onOpening : Bool := true
  oneLine : '\n' ∉ reason.toList := by decide
deriving DecidableEq, Repr

namespace FileError

/-- How messages describe the error, with the path that was asked for. -/
def message (e : FileError) (path : Str) : String :=
  "[Errno " ++ Numeral.decimal e.number ++ "] " ++ e.reason ++
    if e.onOpening then ": " ++ Text.quotedPoints path else ""

/-- The number of the error that no file has the name. -/
def missingNumber : Nat := 2

/-- Whether a file is just not there. -/
def isMissing (e : FileError) : Bool := e.number = missingNumber

end FileError

/-- Files by name, a name being a row of bytes. Several names may lead to one file. -/
structure FileSystem where
  State : Type
  File : Type
  /-- The content of a file, if it is there. -/
  content : State → File → Option (List UInt8)
  /-- Reads the file of a name to its end. -/
  read : State → (name : List UInt8) → Except FileError (List UInt8)
  /-- Opens the file of a name to be written, which makes or empties it. -/
  create : State → (name : List UInt8) → Except FileError (File × State)
  /-- Writes to a file that was opened, and closes it. -/
  fill : State → File → List UInt8 → State × Option FileError

/-! ### Hosts -/

/-- What a run depends on. -/
structure Host where
  files : FileSystem
  /-- Whether the output stream has an encoding for a code point. -/
  prints : CodePoint → Bool
  /-- Whether rendering a program in a format runs out of stack. -/
  overflows : Format → Program → Bool

/-- Why a file is not opened. -/
inductive OpenError where
  /-- Its path has no encoding. -/
  | unencodable (e : Utf8.EncodeError)
  /-- Its path holds a null character, with which no file is ever looked for. -/
  | nullInName
  | system (e : FileError)
deriving DecidableEq, Repr

/-- How messages describe why the file of a path is not opened. -/
def OpenError.message (e : OpenError) (path : Str) : String :=
  match e with
  | .unencodable e => e.message
  | .nullInName => "embedded null byte"
  | .system e => e.message path

/-- Why a file does not get its text. -/
inductive WriteError where
  | unopened (e : OpenError)
  /-- The text has no encoding. -/
  | unencodable (e : Utf8.EncodeError)
  | system (e : FileError)
deriving DecidableEq, Repr

/-- How messages describe why the file of a path does not get its text. -/
def WriteError.message (e : WriteError) (path : Str) : String :=
  match e with
  | .unopened e => e.message path
  | .unencodable e => e.message
  | .system e => e.message path

/-- The name that a path is for the system. -/
def nameOfPath (path : Str) : Except OpenError (List UInt8) :=
  match Utf8.encodeName path with
  | .error e => .error (.unencodable e)
  | .ok name => if name.contains 0 then .error .nullInName else .ok name

/-- What comes of rendering a program. -/
inductive Rendering where
  | text (t : String)
  | overflow
  | refused (e : RenderError)
deriving DecidableEq, Repr

namespace Host

variable (h : Host)

/-- Reads the file of a path. -/
def read (s : h.files.State) (path : Str) : Except OpenError (List UInt8) :=
  match nameOfPath path with
  | .error e => .error e
  | .ok name => (h.files.read s name).mapError .system

/-- Writes a text to the file of a path. -/
def write (s : h.files.State) (path text : Str) : h.files.State × Option WriteError :=
  match nameOfPath path with
  | .error e => (s, some (.unopened e))
  | .ok name =>
    match h.files.create s name with
    | .error e => (s, some (.unopened (.system e)))
    | .ok (file, opened) =>
      match Utf8.encode text with
      | .error e => (opened, some (.unencodable e))
      | .ok bytes =>
        let (filled, e) := h.files.fill opened file bytes
        (filled, e.map .system)

/-- Prints texts, one after the other, up to the first that has no encoding; of that one, tells a
code point without. -/
def print : List Str → Str × Option CodePoint
  | [] => ([], none)
  | t :: ts =>
    match t.find? fun c => !h.prints c with
    | some c => ([], some c)
    | none =>
      let (printed, c) := print ts
      (t ++ printed, c)

/-- Renders a program as long as there is stack. -/
def render (f : Format) (p : Program) : Rendering :=
  if h.overflows f p then .overflow
  else
    match f.render p.toNode with
    | .ok t => .text t
    | .error e => .refused e

end Host

end IntelAsm.CommandLine

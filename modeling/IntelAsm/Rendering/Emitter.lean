import IntelAsm.Rendering.Style
import IntelAsm.Tree.Dictionary

/-!
# Emitters

An emitter collects programs and gives all of them as one output: texts in one of the two styles,
joined by newlines, or JSON documents, of which several become one list. It can be used again after
a program failed; an emitter of texts then goes on at the level that the failure reached.
-/

namespace IntelAsm

/-- The formats in which programs are written. -/
inductive Format where
  | text (style : Style)
  | json
deriving DecidableEq, Repr

/-- What a format is called, in lower case. -/
def Format.names : List (String × Format) :=
  [("text", .text .outline), ("txt", .text .outline), ("json", .json), ("asm", .text .assembly)]

/-- The format with the given name, in any letter case. -/
def Format.ofName (name : String) : Except RenderError Format :=
  let name := Text.lower name
  match names.lookup name with
  | some f => .ok f
  | none => .error (.unknownTarget name)

/-! ### JSON -/

/-- A collection of programs as JSON documents. -/
structure JsonEmitter where
  indent : Option Int
  documents : Array Json := #[]

namespace JsonEmitter

/-- Adds the document of a program, over texts of any type. -/
def emit {τ : Type} [Textual τ] (n : Node τ) : EStateM RenderError JsonEmitter Unit := fun s =>
  match n.toJson with
  | .ok j => .ok () { s with documents := s.documents.push j }
  | .error e => .error e s

/-- The text of the only document, or of the list of all. -/
def output (s : JsonEmitter) : String :=
  match s.documents.toList with
  | [j] => j.write (.ofIndent s.indent)
  | js => (Json.array js).write (.ofIndent s.indent)

end JsonEmitter

/-! ### Every format -/

/-- A collection of programs in one format. -/
inductive Emitter where
  | text (style : Style) (programs : Array String) (level : Nat)
  | json (indent : Option Int) (documents : Array Json)

namespace Emitter

/-- The number of blanks by which JSON is indented unless one asks for another. -/
def defaultIndent : Int := 2

/-- An emitter without programs. -/
def ofFormat : Format → Emitter
  | .text style => .text style #[] 0
  | .json => .json (some defaultIndent) #[]

/-- Adds a program; the state that a failure leaves behind is kept. -/
def emit (n : Node) : EStateM RenderError Emitter Unit := fun
  | .text style programs level =>
    match n.render style level with
    | .ok t => .ok () (.text style (programs.push t) level)
    | .error f => .error f.cause (.text style programs f.level)
  | .json indent documents =>
    match JsonEmitter.emit n ⟨indent, documents⟩ with
    | .ok _ s => .ok () (.json s.indent s.documents)
    | .error e s => .error e (.json s.indent s.documents)

/-- Everything that was emitted. -/
def output : Emitter → String
  | .text _ programs _ => "\n".intercalate programs.toList
  | .json indent documents => JsonEmitter.output ⟨indent, documents⟩

end Emitter

/-- A program in the given format. -/
def Format.render (f : Format) (n : Node) : Except RenderError String :=
  if n.isProgram then
    match Emitter.emit n (.ofFormat f) with
    | .ok _ e => .ok e.output
    | .error e _ => .error e
  else .error (.notAProgram n.typeName)

end IntelAsm

import IntelAsm.CommandLine.Arguments
import IntelAsm.CommandLine.Host
import IntelAsm.Parser.Statement

/-!
# Runs of the program

A run reads a source, parses it, renders it, and delivers the rendering. `Request.prepare` is all of
that but the delivery: it either yields an output to be delivered whole, or one failure to be
reported. `Request.perform` delivers on a host, and `perform` runs a whole command line there.
-/

namespace IntelAsm.CommandLine

/-! ### Requests -/

/-- Where the text of a program comes from. -/
inductive Source where
  | text (s : String)
  | file (path : Str)
deriving DecidableEq, Repr

/-- What one run is asked to do. -/
structure Request where
  source : Source
  /-- The name of the format of the output; without a name there is no output. -/
  format : Option String := some "text"
  /-- The path of the file that the output goes to; an empty path stands for none. -/
  out : Option Str := none
  verbose : Bool := false
deriving DecidableEq, Repr

/-- What messages call a source. -/
def Source.origin : Source → Str
  | .text _ => "<string>"
  | .file path => path

/-- The path of the file that the output goes to. -/
def Request.output (r : Request) : Option Str := r.out.filter (· ≠ [])

/-! ### Failures -/

/-- Why a run has no output. -/
inductive Failure where
  | notFound (path : Str)
  | unreadable (path : Str) (e : FileError)
  | undecodable (path : Str) (e : Utf8.Error)
  | unparsable (origin : Str) (e : SourceError)
  /-- An expression has too many levels to be rendered. -/
  | tooDeep (origin : Str)
deriving DecidableEq, Repr

/-- How messages describe an error in a source text. -/
def sourceMessage : SourceError → String
  | .reading e => e.message
  | .grammar e => e.message

/-- How a failure is reported. -/
def Failure.message : Failure → Str
  | .notFound path => "Error: File '" ++ path ++ "' not found."
  | .unreadable path e => "Error reading '" ++ path ++ "': " ++ e.message path
  | .undecodable path e => "Error reading '" ++ path ++ "': " ++ e.message
  | .unparsable origin e => "Error parsing " ++ origin ++ ": " ++ sourceMessage e
  | .tooDeep origin => "Error rendering " ++ origin ++ ": expression nested too deeply"

/-- Why a run is given up. -/
inductive Stop where
  /-- A failure that the run reports itself. It does not do so with the others. -/
  | failed (f : Failure)
  /-- A request for a format that does not exist. -/
  | refused (e : RenderError)
  | unread (path : Str) (e : OpenError)
  | unwritten (path : Str) (e : WriteError)
  /-- The output stream has no encoding for a code point. -/
  | unprintable (c : CodePoint)
deriving DecidableEq, Repr

/-! ### Reading -/

/-- The text of a file with one newline at the end of each line, however lines end in the file. -/
def joinLineEnds : List Char → List Char
  | [] => []
  | '\r' :: '\n' :: cs => '\n' :: joinLineEnds cs
  | '\r' :: cs => '\n' :: joinLineEnds cs
  | c :: cs => c :: joinLineEnds cs

/-- The text in a file. -/
def textOfFile (path : Str) : Except OpenError (List UInt8) → Except Stop String
  | .error (.system e) =>
    .error (.failed (if e.isMissing then .notFound path else .unreadable path e))
  | .error e => .error (.unread path e)
  | .ok bytes =>
    match Utf8.decode bytes with
    | .ok cs => .ok (String.ofList (joinLineEnds cs))
    | .error e => .error (.failed (.undecodable path e))

/-! ### The log -/

/-- A line about the progress of a run. -/
def logLine (text : Str) : Str := "DEBUG: " ++ text ++ "\n"

/-- The line on a file that has been read. -/
def logRead (path : Str) (text : String) : Str :=
  logLine ("read " ++ Numeral.decimal text.length ++ " characters from " ++ path)

/-- The line on a text that has been split into tokens. -/
def logTokens (ts : List Token) : Str :=
  logLine ("lexed " ++ Numeral.decimal ts.length ++ " tokens")

/-- The line on a label that got an instruction of its own. -/
def logAnchor (i : Instruction) : Str :=
  logLine ("anchoring label " ++ Text.quoted (i.label.getD "") ++ " declared at line " ++
    Numeral.decimal i.pos.line)

/-- The lines on the labels that got instructions of their own. -/
def logAnchors (s : Parser) : Str :=
  (s.instructions.toList.filter Instruction.isAnchor).flatMap logAnchor

/-- The line on a program that has been parsed. -/
def logProgram (p : Program) : Str :=
  logLine ("parsed " ++ Numeral.decimal p.instructions.length ++ " instructions, " ++
    Numeral.decimal p.labels.length ++ " labels")

/-- A result, and what there is to say of the way to it. -/
structure Logged (α : Type) where
  log : Str := []
  result : α

/-- Parses a source text. -/
def parseLogged (origin : Str) (text : String) : Logged (Except Failure Program) :=
  match tokenize text with
  | .error e => { result := .error (.unparsable origin (.reading e)) }
  | .ok ts =>
    match Parser.run (.ofTokens ts) with
    | .error e s =>
      { log := logTokens ts ++ logAnchors s
        result := .error (.unparsable origin (.grammar e)) }
    | .ok p s => { log := logTokens ts ++ logAnchors s ++ logProgram p, result := .ok p }

/-! ### Rendering -/

/-- What a run delivers. -/
structure Output where
  text : String
  /-- What is printed behind the text, or behind the note of where it went. -/
  closing : List String
deriving DecidableEq, Repr

/-- The counts that are printed behind the text format. -/
def counts (p : Program) : List String :=
  ["\nInstructions parsed: " ++ Numeral.decimal p.instructions.length ++ "\n",
    "Labels found: " ++ Numeral.decimal p.labels.length ++ "\n"]

namespace Request

/-- The format of the output. A request without a name holds a list without elements in its place,
which cannot be looked up. -/
def target (r : Request) : Except RenderError Format :=
  match r.format with
  | some name => Format.ofName name
  | none => .error (.lacks "list" "lower")

section
variable (r : Request) (render : Format → Program → Rendering)

/-- The output of a run for a program. An overflow of the stack is a failure like others. -/
def outputOf (p : Program) : Except Stop Output :=
  match r.target with
  | .error e => .error (.refused e)
  | .ok f =>
    match render f p with
    | .text t => .ok ⟨t, if r.format = some "text" then counts p else []⟩
    | .overflow => .error (.failed (.tooDeep r.source.origin))
    | .refused e => .error (.refused e)

/-- The output of a run for a source text. -/
def outputOfText (text : String) : Logged (Except Stop Output) :=
  let parsed := parseLogged r.source.origin text
  { log := parsed.log
    result :=
      match parsed.result with
      | .ok p => r.outputOf render p
      | .error f => .error (.failed f) }

/-- The output of a run, given how files are read. -/
def prepare (read : Str → Except OpenError (List UInt8)) : Logged (Except Stop Output) :=
  match r.source with
  | .text text => r.outputOfText render text
  | .file path =>
    match textOfFile path (read path) with
    | .error stop => { result := .error stop }
    | .ok text =>
      let out := r.outputOfText render text
      { log := logRead path text ++ out.log, result := out.result }

end

/-- What is printed when an output has been delivered, one text after the other. -/
def printed (r : Request) (o : Output) : List Str :=
  (match r.output with
    | some path => "(wrote to " ++ path ++ ")\n"
    | none => Text.codePoints (o.text ++ "\n")) :: o.closing.map Text.codePoints

end Request

/-! ### Delivery on a host -/

/-- What a run leaves behind. -/
structure Report (σ : Type) where
  stdout : Str := []
  stderr : Str := []
  /-- The exit status, or why the run was given up. -/
  status : Except Stop Nat := .ok 0
  files : σ

/-- The files with the output of a run in its own, if it goes to a file. -/
def Request.deliver (r : Request) (h : Host) (s : h.files.State) (o : Output) :
    h.files.State × Option Stop :=
  match r.output with
  | none => (s, none)
  | some path =>
    let (files, e) := h.write s path o.text
    (files, e.map (.unwritten path))

/-- The status of a run that has nothing to do but to print. -/
def statusOfPrint : Option CodePoint → Except Stop Nat
  | none => .ok 0
  | some c => .error (.unprintable c)

/-- A run on a host. -/
def Request.perform (r : Request) (h : Host) (s : h.files.State) : Report h.files.State :=
  let prepared := r.prepare h.render (h.read s)
  let stderr := if r.verbose then prepared.log else []
  match prepared.result with
  | .error (.failed f) => { stderr := stderr ++ f.message ++ "\n", status := .ok 1, files := s }
  | .error stop => { stderr, status := .error stop, files := s }
  | .ok o =>
    match r.deliver h s o with
    | (files, some stop) => { stderr, status := .error stop, files }
    | (files, none) =>
      let (stdout, c) := h.print (r.printed o)
      { stdout, stderr, status := statusOfPrint c, files }

/-! ### The sample program -/

/-- The source of the sample program. -/
def sampleSource : String := lines [
  "; demo: a tiny function and some data",
  "STACK_SIZE equ 8*2",
  "main:",
  "    push rbp",
  "    mov rbp, rsp",
  "    sub rsp, STACK_SIZE",
  "    mov rax, 0x10",
  "    mov qword ptr [rbp-8], rax",
  "    lea rsi, [rbx+rcx*4+16]",
  "    mov eax, dword ptr fs:[0x28]",
  "    call compute",
  "    jmp done",
  "",
  "compute:",
  "    mov rax, [rbp+16]   ; first stack argument",
  "    add rax, (len - 1) * 4",
  "    ret",
  "",
  "msg db \"hello\", 0",
  "len equ $ - msg",
  "done:"]

/-- What is printed in front of the output for the sample program. -/
def samplePreface : String :=
  lines ["Input Assembly Code:", "--------------------", sampleSource, "Generated AST:",
    "--------------------"]

/-! ### Command lines -/

/-- What the settings ask for: the sample program if they name no source, or else a run with it. The
text in front is what is printed first. -/
def Settings.request (s : Settings) : String × Request :=
  let sample : String × Request :=
    (samplePreface, { source := .text sampleSource, format := s.format, verbose := s.verbose })
  match s.source with
  | none => sample
  | some source =>
    if s.demo then sample
    else
      ("", { source := if s.isString then .text source else .file source
             format := s.format
             out := s.out.map Text.codePoints
             verbose := s.verbose })

/-- A whole command line on a host. -/
def perform (args : List String) (h : Host) (s : h.files.State) : Report h.files.State :=
  match Settings.ofArguments args with
  | .help =>
    let (stdout, c) := h.print [help]
    { stdout, status := statusOfPrint c, files := s }
  | .mistake e => { stderr := e.report, status := .ok 2, files := s }
  | .run settings =>
    let (preface, r) := settings.request
    match h.print [Text.codePoints preface] with
    | (stdout, some c) => { stdout, status := .error (.unprintable c), files := s }
    | (stdout, none) =>
      let report := r.perform h s
      { report with stdout := stdout ++ report.stdout }

end IntelAsm.CommandLine

import IntelAsm.CommandLine.Directory
import IntelAsm.CommandLine.Run

/-!
# The command

Reads the file of the source, and delivers what `Request.prepare` makes of it: the output on the
standard output or in a file, everything else on the standard error.
-/

namespace IntelAsm.CommandLine

/-- An error of the system, with the first line of what it says. -/
def fileErrorOf (code : UInt32) (details : String) : FileError where
  number := (min code (0 - code)).toNat
  reason := String.ofList (details.toList.takeWhile (· ≠ '\n'))
  oneLine := by
    intro h
    rw [String.toList_ofList] at h
    have hall : (details.toList.takeWhile (· ≠ '\n')).all (· ≠ '\n') := List.all_takeWhile
    simpa using List.all_eq_true.1 hall _ h

/-- The cause of a failed attempt to open a file. -/
def fileError : IO.Error → FileError
  | .noFileOrDirectory _ code details | .inappropriateType _ code details
  | .permissionDenied _ code details | .invalidArgument _ code details
  | .resourceExhausted _ code details | .otherError code details => fileErrorOf code details
  | e => fileErrorOf 5 e.toString

/-- The content of a file. -/
def readBytes (path : Str) : IO (Except OpenError (List UInt8)) := do
  match nameOfPath path with
  | .error e => return .error e
  | .ok _ =>
    try
      let bytes ← IO.FS.readBinFile (Text.ofCodePoints path)
      return .ok bytes.toList
    catch e => return .error (.system (fileError e))

/-- What is printed when a run is given up. -/
def stopMessage : Stop → Str
  | .failed f => f.message
  | .refused e => e.message
  | .unread path e => e.message path
  | .unwritten path e => e.message path
  | .unprintable c => Text.quotedPoints [c]

/-- Performs a run; the exit status tells whether it had an output. -/
def performIO (preface : String) (r : Request) : IO UInt32 := do
  let file ← match r.source with
    | .file path => readBytes path
    | .text _ => pure (.ok [])
  let prepared := r.prepare memory.render fun _ => file
  IO.print preface
  if r.verbose then
    IO.eprint (Text.ofCodePoints prepared.log)
  match prepared.result with
  | .error stop =>
    IO.eprintln (Text.ofCodePoints (stopMessage stop))
    return 1
  | .ok o =>
    if let some path := r.output then
      IO.FS.writeFile (Text.ofCodePoints path) o.text
    for text in r.printed o do
      IO.print (Text.ofCodePoints text)
    return 0

end IntelAsm.CommandLine

open IntelAsm.CommandLine in
/-- The entry point of the command. -/
def main (args : List String) : IO UInt32 := do
  match Settings.ofArguments args with
  | .help =>
    IO.print help
    return 0
  | .mistake e =>
    IO.eprint e.report
    return 2
  | .run s =>
    let (preface, r) := s.request
    performIO preface r

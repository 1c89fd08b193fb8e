import IntelAsm.Text.Digits
import IntelAsm.Text.Quoted

/-!
# Command-line arguments

Options may stand in any order before and behind the source. A long option may be shortened as long
as it is unambiguous, and short ones may be written together. The value of an option is attached to
it or is the next argument. An equals sign may stand in front of what is attached to a long option
or to the first letter of an argument, be that a value or further letters; behind other letters it
belongs to the value. Behind `--` there are no options; an argument that starts with a dash is no
option either if it is a number or contains a blank.

`Settings.ofArguments` reads the arguments from left to right, and the first mistake wins; arguments
that nothing asks for are reported last.
-/

namespace IntelAsm.CommandLine

/-! ### Options -/

/-- The options. -/
inductive Flag where
  | help
  | string
  | format
  | out
  | demo
  | verbose
deriving DecidableEq, Repr

namespace Flag

/-- Every option. -/
def all : List Flag := [.help, .string, .format, .out, .demo, .verbose]

/-- The short name of an option, behind its dash. -/
def short? : Flag → Option Char
  | .help => some 'h'
  | .string => some 's'
  | .format => some 'f'
  | .out => some 'o'
  | .demo => none
  | .verbose => some 'v'

/-- The long name of an option, its dashes included. -/
def long : Flag → String
  | .help => "--help"
  | .string => "--string"
  | .format => "--format"
  | .out => "--out"
  | .demo => "--demo"
  | .verbose => "--verbose"

/-- Whether an option has a value. -/
def takesValue : Flag → Bool
  | .format => true
  | .out => true
  | _ => false

/-- All names of an option, as messages give them. -/
def display (f : Flag) : String :=
  match f.short? with
  | some c => String.ofList ['-', c] ++ "/" ++ f.long
  | none => f.long

/-- The option with the given short name. -/
def ofShort? (c : Char) : Option Flag := all.find? (·.short? = some c)

/-- The option with the given long name. -/
def ofLong? (name : List Char) : Option Flag := all.find? (·.long.toList = name)

/-- The options whose long names begin with the given characters. -/
def startingWith (name : List Char) : List Flag := all.filter (name.isPrefixOf ·.long.toList)

end Flag

/-! ### Mistakes -/

/-- What is wrong with the arguments. -/
inductive UsageError where
  | expectedValue (flag : Flag)
  | invalidChoice (flag : Flag) (value : String) (choices : List String)
  | ignoredValue (flag : Flag) (value : String)
  | ambiguous (argument : String) (matching : List Flag)
  | unrecognized (arguments : List String)
deriving DecidableEq, Repr

/-- How messages describe the mistake. -/
def UsageError.message : UsageError → String
  | .expectedValue f => "argument " ++ f.display ++ ": expected one argument"
  | .invalidChoice f value choices =>
    "argument " ++ f.display ++ ": invalid choice: " ++ Text.quoted value ++ " (choose from " ++
      ", ".intercalate (choices.map Text.quoted) ++ ")"
  | .ignoredValue f value =>
    "argument " ++ f.display ++ ": ignored explicit argument " ++ Text.quoted value
  | .ambiguous argument matching =>
    "ambiguous option: " ++ argument ++ " could match " ++
      ", ".intercalate (matching.map Flag.long)
  | .unrecognized arguments => "unrecognized arguments: " ++ " ".intercalate arguments

/-! ### Arguments one by one -/

/-- Options as one argument spells them. -/
inductive Spelled where
  /-- A long option, and the value behind an equals sign. -/
  | long (flag : Flag) (value : Option (List Char))
  /-- A short option, and what is attached to its letter. -/
  | short (flag : Flag) (attached : Option (List Char))
deriving DecidableEq, Repr

/-- What an argument is. -/
inductive Argument where
  | plain (text : String)
  /-- The first `--`. -/
  | separator
  | options (o : Spelled)
  /-- An option that does not exist. -/
  | unknown (text : String)
deriving DecidableEq, Repr

/-- Whether a text is a negative number, such as `-5` or `-.5`, in the digits of any script. A
newline may end it. -/
def isNegativeNumber (cs : List Char) : Bool :=
  let cs := if cs.getLast? = some '\n' then cs.dropLast else cs
  match cs with
  | '-' :: ds =>
    match ds.dropWhile Text.isDecimal with
    | [] => ds ≠ []
    | '.' :: fs => fs ≠ [] && fs.all Text.isDecimal
    | _ => false
  | _ => false

/-- An argument that starts with a dash and names no option. -/
def Argument.withoutOption (text : String) : Argument :=
  if isNegativeNumber text.toList || text.toList.contains ' ' then .plain text else .unknown text

/-- The value behind the first equals sign. -/
def valueOf (cs : List Char) : Option (List Char) :=
  match cs.dropWhile (· ≠ '=') with
  | [] => none
  | _ :: value => some value

/-- What is attached to the letter of a short option, an equals sign between them aside. -/
def attachedTo : List Char → Option (List Char)
  | [] => none
  | '=' :: cs => some cs
  | cs => some cs

/-- What an argument in front of the separator is. -/
def Argument.ofText (text : String) : Except UsageError Argument :=
  match text.toList with
  | '-' :: '-' :: cs =>
    let name := '-' :: '-' :: cs.takeWhile (· ≠ '=')
    match Flag.ofLong? name, Flag.startingWith name with
    | some f, _ => .ok (.options (.long f (valueOf cs)))
    | none, [] => .ok (withoutOption text)
    | none, [f] => .ok (.options (.long f (valueOf cs)))
    | none, fs => .error (.ambiguous text fs)
  | '-' :: c :: cs =>
    match Flag.ofShort? c with
    | some f => .ok (.options (.short f (attachedTo cs)))
    | none => .ok (withoutOption text)
  | _ => .ok (.plain text)

/-- What each argument is. -/
def Argument.ofTexts : List String → Except UsageError (List Argument)
  | [] => .ok []
  | t :: ts =>
    if t = "--" then .ok (.separator :: ts.map .plain)
    else do
      let a ← ofText t
      let as ← ofTexts ts
      return a :: as

/-! ### Groups of options -/

/-- An option and its value; an option without a value has none. -/
structure Setting where
  flag : Flag
  value : Option String := none
deriving DecidableEq, Repr

/-- What the options in one argument come to. -/
structure Group where
  settings : List Setting
  /-- The last option, if its value is the next argument. -/
  waiting : Option Flag := none
deriving DecidableEq, Repr

namespace Group

/-- The value that is attached to an option. The separator is no value, wherever it stands. -/
def attachedValue (cs : List Char) : Option String :=
  if cs = ['-', '-'] then none else some (String.ofList cs)

/-- An option to which nothing is attached. -/
def alone (f : Flag) : Group :=
  if f.takesValue then { settings := [], waiting := some f } else { settings := [⟨f, none⟩] }

/-- An option with a value attached to it. -/
def withValue (f : Flag) (cs : List Char) : Except UsageError Group :=
  if f.takesValue then .ok { settings := [⟨f, attachedValue cs⟩] }
  else .error (.ignoredValue f (String.ofList cs))

/-- A short option with the letters behind it: its value, or more short options. -/
def ofLetters (f : Flag) : List Char → Except UsageError Group
  | [] => .ok (alone f)
  | c :: cs =>
    match f.takesValue, Flag.ofShort? c with
    | false, some f' => do
      let g ← ofLetters f' cs
      return { g with settings := ⟨f, none⟩ :: g.settings }
    | _, _ => withValue f (c :: cs)

/-- The options that one argument spells. -/
def ofSpelled : Spelled → Except UsageError Group
  | .long f none => .ok (alone f)
  | .long f (some cs) => withValue f cs
  | .short f none => .ok (alone f)
  -- Nothing behind an equals sign is a value too.
  | .short f (some []) => withValue f []
  | .short f (some cs) => ofLetters f cs

end Group

/-! ### Settings -/

/-- What a run is to do. -/
structure Settings where
  source : Option String := none
  isString : Bool := false
  /-- The name of the format; none if the option for it came without a name. -/
  format : Option String := some "text"
  out : Option String := none
  demo : Bool := false
  verbose : Bool := false
deriving DecidableEq, Repr

/-- What the arguments ask for. -/
inductive Demand where
  | run (s : Settings)
  | help
  | mistake (e : UsageError)
deriving DecidableEq, Repr

/-- The formats that the command line offers. -/
def formats : List String := ["text", "json", "asm"]

namespace Settings

/-- Puts an option into effect. The request for help ends the reading at once. -/
def set (s : Settings) (x : Setting) : Except Demand Settings :=
  match x.flag with
  | .help => .error .help
  | .string => .ok { s with isString := true }
  | .format =>
    match x.value with
    | none => .ok { s with format := none }
    | some name =>
      if formats.contains name then .ok { s with format := some name }
      else .error (.mistake (.invalidChoice .format name formats))
  | .out => .ok { s with out := x.value }
  | .demo => .ok { s with demo := true }
  | .verbose => .ok { s with verbose := true }

/-- The end of the arguments: there may be none that nothing asked for. -/
def finish (s : Settings) (extras : List String) : Demand :=
  if extras = [] then .run s else .mistake (.unrecognized extras)

/-- Reads the arguments. The first plain one is the source, and a separator next to it is dropped;
`extras` are those that nothing asked for. -/
def read (s : Settings) (extras : List String) : List Argument → Demand
  | [] => s.finish extras
  | .plain t :: .separator :: as =>
    if s.source.isNone then { s with source := some t }.read extras as
    else s.read (extras ++ [t, "--"]) as
  | .plain t :: as =>
    if s.source.isNone then { s with source := some t }.read extras as
    else s.read (extras ++ [t]) as
  | .separator :: .plain t :: as =>
    if s.source.isNone then { s with source := some t }.read extras as
    else s.read (extras ++ ["--", t]) as
  | .separator :: as => s.read (if s.source.isNone then extras else extras ++ ["--"]) as
  | .unknown t :: as => s.read (extras ++ [t]) as
  | .options o :: as =>
    match Group.ofSpelled o with
    | .error e => .mistake e
    | .ok g =>
      match g.waiting with
      | none =>
        match g.settings.foldlM set s with
        | .error d => d
        | .ok s' => s'.read extras as
      | some f =>
        match as with
        | .plain t :: as =>
          match (g.settings ++ [Setting.mk f (some t)]).foldlM set s with
          | .error d => d
          | .ok s' => s'.read extras as
        | _ => .mistake (.expectedValue f)

/-- What command-line arguments ask for. -/
def ofArguments (args : List String) : Demand :=
  match Argument.ofTexts args with
  | .ok as => ({} : Settings).read [] as
  | .error e => .mistake e

end Settings

/-! ### Help -/

/-- Lines, each with its newline. -/
def lines (ls : List String) : String := String.join (ls.map (· ++ "\n"))

/-- How the command is used. -/
def usage : List String := [
  "usage: asmtree [-h] [-s] [-f \x7btext,json,asm\x7d] [-o OUTFILE] [--demo] [-v]",
  "               [source]"]

/-- The help text. -/
def help : String := lines (usage ++ [
  "",
  "Parse x86-64 assembly and print its syntax tree.",
  "",
  "positional arguments:",
  "  source                Filename or raw source (with -s)",
  "",
  "options:",
  "  -h, --help            show this help message and exit",
  "  -s, --string          Interpret source as literal string",
  "  -f \x7btext,json,asm\x7d, --format \x7btext,json,asm\x7d",
  "                        Output format (default: text)",
  "  -o OUTFILE, --out OUTFILE",
  "                        Output to file",
  "  --demo                Parse the built-in sample program",
  "  -v, --verbose         Enable debug logging"])

/-- What is printed for a mistake in the arguments. -/
def UsageError.report (e : UsageError) : String :=
  lines (usage ++ ["asmtree: error: " ++ e.message])

end IntelAsm.CommandLine

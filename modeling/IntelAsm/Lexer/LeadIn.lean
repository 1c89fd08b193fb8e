import IntelAsm.Lexer

/-!
# Streams that start in front of their text

A negative position counts back from the end of a text, once through it: the characters from there
to the end are a lead-in, which is taken before the text itself. A cursor in front of its text takes
characters but sees none of them ahead. So a reader takes the whole lead-in, whatever it is made of,
before it can find an end; only an identifier, which needs a letter ahead, ends at once. A cursor
further in front of the text than it is long has nothing to take.

Without a lead-in the actions are those of the lexer (`toLexer`).
-/

namespace IntelAsm

/-- A stream with what is taken before its text. -/
structure LeadIn where
  /-- The number of positions in front of the lead-in, where there is nothing to take. -/
  distance : Nat := 0
  lead : List Char := []
  stream : Stream

/-- Why an action on a stream with a lead-in failed. -/
inductive LeadInError where
  | stream (e : StreamError)
  /-- The cursor stands too far in front of the text. -/
  | outOfText
deriving DecidableEq, Repr

/-- What a message says of the failure. -/
def LeadInError.message : LeadInError → String
  | .stream e => e.message
  | .outOfText => "string index out of range"

namespace LeadIn

/-- An action on a stream with a lead-in; it keeps the state also where it fails. -/
abbrev Action := EStateM LeadInError LeadIn

/-- The cursor at a position of a text, counted back from the end if it is negative. -/
def ofPosition (source : List Char) (position : Int) (place : Pos) : LeadIn :=
  if 0 ≤ position then { stream := { source, position := position.toNat, place } }
  else
    let n := position.natAbs
    { distance := n - source.length
      lead := source.drop (source.length - n)
      stream := { source, place } }

/-- The position of the cursor. -/
def position (l : LeadIn) : Int := l.stream.position - (l.lead.length + l.distance : Nat)

/-- Whether the cursor stands at its text or behind its start. -/
def isInText (l : LeadIn) : Bool := l.distance = 0 && l.lead.isEmpty

/-- Whether no character follows the cursor. -/
def atEnd (l : LeadIn) : Bool := l.isInText && l.stream.atEnd

/-- The character `offset` places from the cursor, if the text has one there. -/
def peek (l : LeadIn) (offset : Int) : Option Char :=
  l.stream.peek (offset - (l.lead.length + l.distance : Nat))

/-- The stream behind the lead-in. -/
def behindLead (l : LeadIn) : Stream := { l.stream with place := l.stream.place.afterAll l.lead }

/-! ### Snapshots -/

/-- What is remembered of a cursor. -/
structure Snapshot where
  position : Int
  place : Pos
deriving DecidableEq, Repr

/-- Where the cursor stands. -/
def snapshot (l : LeadIn) : Snapshot := ⟨l.position, l.stream.place⟩

/-- The cursor put back where a snapshot was taken. -/
def restore (l : LeadIn) (m : Snapshot) : LeadIn := ofPosition l.stream.source m.position m.place

/-! ### Actions -/

/-- An action of the lexer behind the lead-in, which is taken first. -/
def toLexer {α : Type} (action : Lexer α) : Action α := fun l =>
  if 0 < l.distance then .error .outOfText l
  else
    match action l.behindLead with
    | .ok a s => .ok a { stream := s }
    | .error e s => .error (.stream e) { stream := s }

/-- Takes one character. -/
def next : Action Char := fun l =>
  match l.distance, l.lead with
  | 0, c :: cs => .ok c { lead := cs, stream := { l.stream with place := l.stream.place.after c } }
  | _, _ => toLexer Lexer.next l

/-- Moves to the end of the given word if it comes next, blanks aside. -/
def matchWord (word : String) : Action Bool := fun l =>
  match toLexer (Lexer.matchWord word) l with
  | .ok false _ => .ok false l
  | r => r

/-- Reads a word that starts in the lead-in, if there is one, and otherwise as the lexer does. The
reader is given the lead-in and says how much it took of the text behind it. -/
def token (reader : List Char → List Char → Reading Word) : Action Token := fun l =>
  match toLexer (Lexer.token (reader l.lead)) l with
  | .ok t l' => .ok { t with pos := l.stream.place } l'
  | .error (.stream (.lexical e)) l' => .error (.stream (.lexical ⟨e.fault, l.stream.place⟩)) l'
  | r => r

/-! ### Readers -/

/-- A word with more text in front. -/
def prepend (cs : List Char) (r : Reading Word) : Reading Word :=
  match r.outcome with
  | .found w => ⟨.found ⟨w.kind, String.ofList cs ++ w.text⟩, r.length⟩
  | _ => r

/-- A comment that starts in the lead-in. -/
def comment (lead cs : List Char) : Reading Word := prepend lead (Lexeme.comment cs)

/-- A decimal literal that starts in the lead-in. -/
def number (lead cs : List Char) : Reading Word :=
  prepend (Lexeme.digitsOf lead) (Lexeme.number cs)

/-- A hexadecimal literal that starts in the lead-in, which may hold its marker or half of it. -/
def hexNumber (lead cs : List Char) : Reading Word :=
  let own := 2 - lead.length
  match lead ++ cs.take own with
  | x :: y :: rest =>
    let run := Lexeme.digitRun Numeral.isHexDigit (cs.drop own)
    let digits := Lexeme.digitsOf (rest ++ run)
    if digits = [] then ⟨.fault .noHexDigits, own + run.length⟩
    else ⟨.found ⟨.hexNumber, String.ofList (x :: y :: digits)⟩, own + run.length⟩
  | _ => ⟨.cutShort, cs.length⟩

/-- A string that starts in the lead-in: there its quote is the first character, and nothing is
escaped and nothing closes it. -/
def string (lead cs : List Char) : Reading Word :=
  match lead with
  | [] => Lexeme.string cs
  | quote :: rest =>
    let body := Lexeme.stringBody quote cs
    if (cs.drop body.length).head? = some quote then
      ⟨.found ⟨.string, String.ofList (rest ++ body)⟩, body.length + 1⟩
    else ⟨.fault .unterminated, body.length⟩

/-- Reads an identifier, which is empty in front of the text. -/
def identifier : Action Token := fun l =>
  if l.isInText then toLexer (Lexer.token Lexeme.identifier) l
  else .ok ⟨⟨.ident, ""⟩, l.stream.place⟩ l

end LeadIn

end IntelAsm

import IntelAsm.Numeral
import IntelAsm.Text.Quoted

/-!
# UTF-8

`Utf8.decode` reads bytes as text, or names the first bytes that are none. A sequence that breaks
off is faulty up to the byte that cannot follow; that byte may start the next one.

Overlong forms, surrogates and code points beyond the last plane are excluded by the second byte
of a sequence, whose range depends on the first.

`Utf8.encode` writes text as bytes, or names the first surrogates in it, which have no encoding. In
the name of a file some surrogates stand for bytes that are no text (`Utf8.encodeName`).
-/

namespace IntelAsm.Utf8

/-! ### Reading -/

/-- Why bytes are no text. -/
inductive Reason where
  /-- No sequence starts with this byte. -/
  | invalidStart
  /-- The sequence breaks off before a byte that cannot continue it. -/
  | invalidContinuation
  /-- The input ends inside the sequence. -/
  | unexpectedEnd
deriving DecidableEq, Repr

/-- How messages describe the reason. -/
def Reason.message : Reason → String
  | .invalidStart => "invalid start byte"
  | .invalidContinuation => "invalid continuation byte"
  | .unexpectedEnd => "unexpected end of data"

/-- The faulty bytes: the first of them, its position, and how many they are. -/
structure Error where
  byte : UInt8
  position : Nat
  length : Nat
  reason : Reason
deriving DecidableEq, Repr

/-- How messages describe faulty bytes. -/
def Error.message (e : Error) : String :=
  "'utf-8' codec can't decode " ++
    (if e.length = 1 then
      "byte 0x" ++ String.ofList (Numeral.paddedHex 2 e.byte.toNat) ++ " in position " ++
        Numeral.decimal e.position
    else
      "bytes in position " ++ Numeral.decimal e.position ++ "-" ++
        Numeral.decimal (e.position + e.length - 1 : Nat)) ++
    ": " ++ e.reason.message

/-- A sequence that is not complete. -/
structure Sequence where
  /-- The first byte and its position. -/
  byte : UInt8
  position : Nat
  /-- The bits read so far. -/
  bits : Nat
  /-- The number of bytes that are missing, less one. -/
  more : Nat
  /-- The range of the next byte. -/
  low : Nat := 0x80
  high : Nat := 0xBF
deriving DecidableEq, Repr

/-- The sequence that a byte starts. -/
def Sequence.start? (byte : UInt8) (position : Nat) : Option Sequence :=
  let b := byte.toNat
  if 0xC2 ≤ b ∧ b ≤ 0xDF then some { byte, position, bits := b - 0xC0, more := 0 }
  else if b = 0xE0 then some { byte, position, bits := 0, more := 1, low := 0xA0 }
  else if b = 0xED then some { byte, position, bits := 0xD, more := 1, high := 0x9F }
  else if 0xE1 ≤ b ∧ b ≤ 0xEF then some { byte, position, bits := b - 0xE0, more := 1 }
  else if b = 0xF0 then some { byte, position, bits := 0, more := 2, low := 0x90 }
  else if 0xF1 ≤ b ∧ b ≤ 0xF3 then some { byte, position, bits := b - 0xF0, more := 2 }
  else if b = 0xF4 then some { byte, position, bits := 4, more := 2, high := 0x8F }
  else none

/-- The fault of a sequence that breaks off before the given position. -/
def Sequence.error (s : Sequence) (position : Nat) (reason : Reason) : Error :=
  ⟨s.byte, s.position, position - s.position, reason⟩

/-- Reads on at a position, inside the given sequence if there is one. -/
def decodeFrom (position : Nat) : Option Sequence → List UInt8 → Except Error (List Char)
  | none, [] => .ok []
  | some s, [] => .error (s.error position .unexpectedEnd)
  | none, byte :: bytes =>
    if byte.toNat < 0x80 then
      (Char.ofNat byte.toNat :: ·) <$> decodeFrom (position + 1) none bytes
    else
      match Sequence.start? byte position with
      | some s => decodeFrom (position + 1) (some s) bytes
      | none => .error ⟨byte, position, 1, .invalidStart⟩
  | some s, byte :: bytes =>
    if s.low ≤ byte.toNat ∧ byte.toNat ≤ s.high then
      let bits := s.bits * 64 + (byte.toNat - 0x80)
      match s.more with
      | 0 => (Char.ofNat bits :: ·) <$> decodeFrom (position + 1) none bytes
      | n + 1 =>
        decodeFrom (position + 1)
          (some { byte := s.byte, position := s.position, bits, more := n }) bytes
    else .error (s.error position .invalidContinuation)

/-- The text that bytes spell. -/
def decode (bytes : List UInt8) : Except Error (List Char) := decodeFrom 0 none bytes

/-! ### Writing -/

/-- Surrogates without an encoding: the first of them, its position, and how many there are in a
row. -/
structure EncodeError where
  point : CodePoint
  position : Nat
  length : Nat
deriving DecidableEq, Repr

/-- How messages describe what cannot be encoded. -/
def EncodeError.message (e : EncodeError) : String :=
  "'utf-8' codec can't encode " ++
    (if e.length = 1 then
      "character '" ++ String.ofList (Text.codePoint e.point.toNat) ++ "' in position " ++
        Numeral.decimal e.position
    else
      "characters in position " ++ Numeral.decimal e.position ++ "-" ++
        Numeral.decimal (e.position + e.length - 1 : Nat)) ++
    ": surrogates not allowed"

/-- Encodes text that starts at a position. Some surrogates may stand for a byte. -/
def encodeFrom (byte? : CodePoint → Option UInt8) (position : Nat) :
    Str → Except EncodeError (List UInt8)
  | [] => .ok []
  | c :: s =>
    match c.char?, byte? c with
    | some ch, _ => (String.utf8EncodeChar ch ++ ·) <$> encodeFrom byte? (position + 1) s
    | none, some b => (b :: ·) <$> encodeFrom byte? (position + 1) s
    | none, none => .error ⟨c, position, ((c :: s).takeWhile (·.char?.isNone)).length⟩

/-- The bytes of a text. -/
def encode (s : Str) : Except EncodeError (List UInt8) := encodeFrom (fun _ => none) 0 s

/-- The byte that a surrogate stands for in the name of a file. -/
def escapedByte? (c : CodePoint) : Option UInt8 :=
  if 0xDC80 ≤ c.toNat ∧ c.toNat < 0xDD00 then some (UInt8.ofNat (c.toNat - 0xDC00)) else none

/-- The bytes of the name of a file. -/
def encodeName (s : Str) : Except EncodeError (List UInt8) := encodeFrom escapedByte? 0 s

end IntelAsm.Utf8

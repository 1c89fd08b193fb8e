import IntelAsm.Text.Case

/-!
# The reserved words of the assembly language

Register names, the keywords that define data or give a name to an expression, and the operand
sizes. All of them are recognised in any letter case.
-/

namespace IntelAsm

/-! ### Registers -/

/-- The register names, in lower case: general registers by width, then segment registers. -/
def registers : List String := [
  "rax", "rbx", "rcx", "rdx", "rsi", "rdi", "rbp", "rsp",
  "r8", "r9", "r10", "r11", "r12", "r13", "r14", "r15", "rip",
  "eax", "ebx", "ecx", "edx", "esi", "edi", "ebp", "esp",
  "r8d", "r9d", "r10d", "r11d", "r12d", "r13d", "r14d", "r15d",
  "ax", "bx", "cx", "dx", "si", "di", "bp", "sp",
  "r8w", "r9w", "r10w", "r11w", "r12w", "r13w", "r14w", "r15w",
  "al", "bl", "cl", "dl", "sil", "dil", "bpl", "spl", "ah", "bh", "ch", "dh",
  "r8b", "r9b", "r10b", "r11b", "r12b", "r13b", "r14b", "r15b",
  "cs", "ds", "es", "fs", "gs", "ss"]

/-- Whether a word names a register. -/
def isRegister (word : String) : Bool := registers.contains (Text.lower word)

/-! ### Directives -/

/-- The keywords before which a label needs no colon, in lower case. -/
def labelKeywords : List String := ["db", "dw", "dd", "dq", "eq", "eqo", "equ"]

/-- Whether a word is a keyword before which a label needs no colon. -/
def isLabelKeyword (word : String) : Bool := labelKeywords.contains (Text.lower word)

/-- The mnemonics whose body is one expression, in upper case. -/
def equateMnemonics : List String := ["EQU", "EQO", "EQ"]

/-- The mnemonic of an instruction that only carries a label. No identifier starts with a dot, so
no source text can spell it. -/
def anchorMnemonic : String := ".ANCHOR"

/-! ### Operand sizes -/

/-- The size of an operand. -/
inductive Width where
  | byte
  | word
  | dword
  | qword
deriving DecidableEq, Repr

namespace Width

/-- Every width, in ascending order. -/
def all : List Width := [.byte, .word, .dword, .qword]

/-- The keyword of a width, in lower case. -/
def keyword : Width → String
  | .byte => "byte"
  | .word => "word"
  | .dword => "dword"
  | .qword => "qword"

/-- The number of bits of a width. -/
def bits : Width → Int
  | .byte => 8
  | .word => 16
  | .dword => 32
  | .qword => 64

/-- The width with the given lower-case keyword. -/
def ofKeyword? (s : String) : Option Width := all.find? (·.keyword = s)

/-- The width with the given number of bits. -/
def ofBits? (n : Int) : Option Width := all.find? (·.bits = n)

@[simp] theorem ofBits?_bits (w : Width) : ofBits? w.bits = some w := by
  cases w <;> rfl

end Width

end IntelAsm

import WordMachine.Word

/-!
# Instructions

An instruction is one byte. Its upper three bits are the class, its lower five the operand. Class 0
holds the extended opcodes, numbered by the operand; the classes 1 to 7 are register operations
whose operand names the register. The bytes of class 0 that carry no opcode do nothing.

`Instruction.decode` is total on bytes, and `Instruction.encode` is its left inverse:
`encode_decode` gives every byte back.
-/

namespace WordMachine

/-- The extended opcodes, those of instruction class 0. -/
inductive Opcode where
  | nop | interrupt | reset | dup | halt | pushImm | call | ret | load | store
  | add | sub | mul | mod | div | regSwap
  | and | or | xor | not | swap | neg | cmpSigned | cmpUnsigned | jump | jumpIfZero
  deriving DecidableEq, Repr

/-- The register operations, one for each of the classes 1 to 7. -/
inductive RegisterOp where
  | mask | shift | rotate | push | pop | inc | dec
  deriving DecidableEq, Repr

namespace Opcode

/-- Every opcode, in the order of the bytes. -/
def all : List Opcode :=
  [nop, interrupt, reset, dup, halt, pushImm, call, ret, load, store, add, sub, mul, mod, div,
    regSwap, and, or, xor, not, swap, neg, cmpSigned, cmpUnsigned, jump, jumpIfZero]

/-- The byte of an opcode. -/
def toByte : Opcode → UInt8
  | nop => 0x00 | interrupt => 0x01 | reset => 0x02 | dup => 0x03
  | halt => 0x04 | pushImm => 0x05 | call => 0x06 | ret => 0x07
  | load => 0x08 | store => 0x09 | add => 0x0A | sub => 0x0B
  | mul => 0x0C | mod => 0x0D | div => 0x0E | regSwap => 0x0F
  | and => 0x10 | or => 0x11 | xor => 0x12 | not => 0x13
  | swap => 0x14 | neg => 0x17 | cmpSigned => 0x18 | cmpUnsigned => 0x19
  | jump => 0x1E | jumpIfZero => 0x1F

/-- The opcode of a byte, if it has one. -/
def ofByte? (b : UInt8) : Option Opcode := all.find? fun op => op.toByte == b

/-- The name of an opcode in assembly text. -/
def mnemonic : Opcode → String
  | nop => "NO" | interrupt => "IN" | reset => "RS" | dup => "DP"
  | halt => "HL" | pushImm => "PI" | call => "SV" | ret => "RT"
  | load => "LD" | store => "ST" | add => "AD" | sub => "SU"
  | mul => "MU" | mod => "MO" | div => "DV" | regSwap => "RX"
  | and => "AN" | or => "OR" | xor => "XR" | not => "NT"
  | swap => "SW" | neg => "NE" | cmpSigned => "CS" | cmpUnsigned => "CU"
  | jump => "JP" | jumpIfZero => "JZ"

/-- The opcode named by a mnemonic. -/
def ofMnemonic? (text : String) : Option Opcode := all.find? fun op => op.mnemonic == text

/-- The number of operand bytes that follow the opcode in memory. -/
def immediateLength : Opcode → Nat
  | pushImm => 2
  | _ => 0

/-- The list of the opcodes is complete. -/
theorem mem_all (op : Opcode) : op ∈ all := by cases op <;> decide

/-- An opcode is found by its byte. -/
@[simp]
theorem ofByte?_toByte (op : Opcode) : ofByte? op.toByte = some op := by cases op <;> decide

/-- The opcode found for a byte has that byte. -/
theorem toByte_of_ofByte? {b : UInt8} {op : Opcode} (h : ofByte? b = some op) : op.toByte = b := by
  simpa using List.find?_some h

/-- An opcode is found by its mnemonic. -/
@[simp]
theorem ofMnemonic?_mnemonic (op : Opcode) : ofMnemonic? op.mnemonic = some op := by
  cases op <;> decide

/-- The opcode found for a text has that text as its mnemonic. -/
theorem mnemonic_of_ofMnemonic? {text : String} {op : Opcode} (h : ofMnemonic? text = some op) :
    op.mnemonic = text := by
  simpa using List.find?_some h

end Opcode

namespace RegisterOp

/-- Every register operation, in the order of the classes. -/
def all : List RegisterOp := [mask, shift, rotate, push, pop, inc, dec]

/-- The instruction class of a register operation. -/
def toClass : RegisterOp → UInt8
  | mask => 1 | shift => 2 | rotate => 3 | push => 4 | pop => 5 | inc => 6 | dec => 7

/-- The register operation of a class, if it has one. -/
def ofClass? (c : UInt8) : Option RegisterOp := all.find? fun op => op.toClass == c

/-- The name of a register operation in assembly text, before the dot and the register. -/
def mnemonic : RegisterOp → String
  | mask => "RM" | shift => "RL" | rotate => "RR" | push => "RP" | pop => "PR" | inc => "RI"
  | dec => "RD"

/-- The register operation named by a mnemonic. -/
def ofMnemonic? (text : String) : Option RegisterOp := all.find? fun op => op.mnemonic == text

/-- The list of the register operations is complete. -/
theorem mem_all (op : RegisterOp) : op ∈ all := by cases op <;> decide

/-- A register operation is found by its class. -/
@[simp]
theorem ofClass?_toClass (op : RegisterOp) : ofClass? op.toClass = some op := by
  cases op <;> decide

/-- A register operation is found by its mnemonic. -/
@[simp]
theorem ofMnemonic?_mnemonic (op : RegisterOp) : ofMnemonic? op.mnemonic = some op := by
  cases op <;> decide

/-- The register operation found for a text has that text as its mnemonic. -/
theorem mnemonic_of_ofMnemonic? {text : String} {op : RegisterOp}
    (h : ofMnemonic? text = some op) : op.mnemonic = text := by
  simpa using List.find?_some h

end RegisterOp

/-- A decoded instruction byte. -/
inductive Instruction where
  | extended (op : Opcode)
  | register (op : RegisterOp) (reg : UInt8)
  | unassigned (byte : UInt8)
  deriving DecidableEq, Repr

namespace Instruction

/-- The instruction of a byte. -/
def decode (b : UInt8) : Instruction :=
  match RegisterOp.ofClass? (b >>> 5) with
  | some op => .register op (b &&& 0x1F)
  | none =>
    match Opcode.ofByte? (b &&& 0x1F) with
    | some op => .extended op
    | none => .unassigned b

/-- The byte of an instruction; of a register number only the lower five bits are kept. -/
def encode : Instruction → UInt8
  | .extended op => op.toByte
  | .register op reg => (op.toClass <<< 5) ||| (reg &&& 0x1F)
  | .unassigned b => b

/-- The number of operand bytes that follow the instruction in memory. -/
def immediateLength : Instruction → Nat
  | .extended op => op.immediateLength
  | _ => 0

/-- Encoding gives back the byte that was decoded. -/
theorem encode_decode (b : UInt8) : (decode b).encode = b := by
  have key : ∀ n : Fin 256, (decode (UInt8.ofNat n)).encode = UInt8.ofNat n := by
    decide +kernel
  simpa using key ⟨b.toNat, b.toNat_lt⟩

end Instruction

end WordMachine

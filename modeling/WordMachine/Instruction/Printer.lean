import WordMachine.Instruction.Basic
import WordMachine.Text.Hex

/-!
# Instruction text

The text of an instruction in a trace. For the opcodes without operand and the register operations
it is also what the assembler reads.
-/

namespace WordMachine.Instruction

/-- The text of an instruction: the mnemonic, the mnemonic with a register, or the no-operation
mnemonic with the byte that stands in its place. -/
def render : Instruction → String
  | .extended op => op.mnemonic
  | .register op reg => op.mnemonic ++ "." ++ reg.toNat.repr
  | .unassigned b => Opcode.nop.mnemonic ++ "(0x" ++ Text.hex 2 b.toNat ++ ")"

end WordMachine.Instruction

import WordMachine.Machine.Basic
import WordMachine.Instruction.Basic

/-!
# Operations of the machine

What each instruction does to the machine, apart from the step of the instruction pointer that
follows every instruction. Operands are taken from the stack before they are checked, so an
operation that fails has already consumed those it popped. Because of the step that follows,
control transfers store the address before their target.
-/

namespace WordMachine.Machine

/-- The value of an instruction pointer whose next step arrives at `target`. -/
def before (target : Word) : Word := target - 1

/-- The result of a division by zero. -/
def divisionByZero : Word := 0x8000

/-- Replaces the two top words by one. `f` gets the lower word first. -/
def binary (f : Word → Word → Word) : Op Unit := do
  let b ← pop
  let a ← pop
  push (f a b)

/-- Replaces the top word. -/
def unary (f : Word → Word) : Op Unit := do
  let a ← pop
  push (f a)

/-- Replaces the two top words by their remainder. -/
def modulo : Op Unit := do
  let b ← pop
  let a ← pop
  if b = 0 then throw .moduloByZero
  push (Word.remainder a b)

/-- The quotient that the division instruction leaves. -/
def divide (a b : Word) : Word := if b = 0 then divisionByZero else Word.quotient a b

/-- Pushes the word stored in the code after the instruction and passes over it. -/
def pushImmediate : Op Unit := do
  let m ← get
  push (Word.ofBytes (m.code.get (m.ip + 1)) (m.code.get (m.ip + 2)))
  modify fun m => { m with ip := m.ip + 2 }

/-- Jumps to the popped address, leaving the own address in the return register. -/
def call : Op Unit := do
  let target ← pop
  modify fun m => { m.setReg .returnAddress m.ip with ip := before target }

/-- Jumps to the popped address if the word below it is zero. -/
def jumpIfZero : Op Unit := do
  let target ← pop
  let condition ← pop
  if condition = 0 then modify fun m => { m with ip := before target }

/-- Exchanges register 0 with the stack pointer. -/
def exchangeStackPointer (m : Machine) : Machine :=
  let base := m.reg .zero
  (m.setReg .zero m.stack.pointer).setReg .stackPointer base

/-- What an opcode does to the machine. Interrupts, resets and halts are served outside of it. -/
def exec : Opcode → Op Unit
  | .nop | .interrupt | .reset | .halt => pure ()
  | .dup => do push (← onStack Stack.top)
  | .pushImm => pushImmediate
  | .call => call
  | .ret => modify fun m => { m with ip := m.reg .returnAddress }
  | .load => do
    let a ← pop
    let m ← get
    push (m.data.get a)
  | .store => do
    let w ← pop
    let a ← pop
    modify fun m => { m with data := m.data.set a w }
  | .add => binary (· + ·)
  | .sub => binary (· - ·)
  | .mul => binary (· * ·)
  | .mod => modulo
  | .div => binary divide
  | .regSwap => modify exchangeStackPointer
  | .and => binary (· &&& ·)
  | .or => binary (· ||| ·)
  | .xor => binary (· ^^^ ·)
  | .not => unary fun a => Word.ofBool (a == 0)
  | .neg => unary (~~~ ·)
  | .swap => do onStack (Stack.swap (← pop))
  | .cmpSigned => binary fun a b => Word.ofBool (decide (Word.signed a < Word.signed b))
  | .cmpUnsigned => binary fun a b => Word.ofBool (decide (a < b))
  | .jump => do
    let target ← pop
    modify fun m => { m with ip := before target }
  | .jumpIfZero => jumpIfZero

/-! ## Register operations -/

/-- The distance that a shift control word asks for. -/
def shiftDistance (control : Word) : Nat := (control &&& 31).toNat

/-- A register value shifted as a control word says: left if it is positive, else right. -/
def shifted (v control : Word) : Word :=
  if 0 < Word.signed control then Word.shiftLeft v (shiftDistance control)
  else Word.shiftRight v (shiftDistance control)

/-- A register value turned as a control word says. A turn by 16 places or more gives zero. -/
def rotated (v control : Word) : Word :=
  if 16 ≤ shiftDistance control then 0
  else if 0 < Word.signed control then Word.rotateLeft v (shiftDistance control)
  else Word.rotateRight v (shiftDistance control)

/-- Writes to a register what `f` makes of its value and a popped word. The register is read after
the word has been popped. -/
def updateReg (i : RegIndex) (f : Word → Word → Word) : Op Unit := do
  let w ← pop
  modify fun m => m.setReg i (f (m.reg i) w)

/-- What a register operation does to the machine. -/
def execRegister (op : RegisterOp) (i : RegIndex) : Op Unit :=
  match op with
  | .mask => do
    let mask ← pop
    let m ← get
    push (mask &&& m.reg i)
  | .shift => updateReg i shifted
  | .rotate => updateReg i rotated
  | .push => do
    let m ← get
    push (m.reg i)
  | .pop => updateReg i fun _ w => w
  | .inc => modify fun m => m.setReg i (m.reg i + 1)
  | .dec => modify fun m => m.setReg i (m.reg i - 1)

end WordMachine.Machine

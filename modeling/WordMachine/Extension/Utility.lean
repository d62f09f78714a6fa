import WordMachine.Machine.Basic

/-!
# Utilities

An extension offers utilities that work on the running machine. A utility is the tree of what it
asks for: each request names the utility that goes on with the answer, so a utility may decide by
what it has seen. It reaches the stack, the data segment, strings and registers, and the standard
output; asking to run machine code is refused. What it works on is any `Utility.Target`, of which
the machine is one. Registers are read and written as a whole; `Utility.reg` and `Utility.setReg`
work on one of them.
-/

namespace WordMachine

/-- Something a utility has noted down. -/
inductive Observation where
  | word (w : Word)
  | text (s : Option String)
  deriving DecidableEq, Repr

/-- What an extension does with a machine, request by request. -/
inductive Utility where
  | done
  | pop (next : Word → Utility)
  | push (w : Word) (next : Utility)
  | read (address : Word) (next : Word → Utility)
  | write (address w : Word) (next : Utility)
  | string (address : Word) (next : Option String → Utility)
  | registers (next : RegisterFile → Utility)
  | setRegisters (r : RegisterFile) (next : Utility)
  | enter (address : Word) (next : Utility)
  | print (text : String) (next : Utility)
  | note (o : Observation) (next : Utility)

namespace Utility

/-- Asks for the value of one register. -/
def reg (i : RegIndex) (next : Word → Utility) : Utility := .registers fun r => next (r.read i)

/-- Writes one register and leaves the others as they are. -/
def setReg (i : RegIndex) (w : Word) (next : Utility) : Utility :=
  .registers fun r => .setRegisters (r.write i w) next

/-- What a machine offers to the utilities that work on it. -/
class Target (M : Type) where
  pop : EStateM Fault M Word
  push (w : Word) : EStateM Fault M Unit
  read (m : M) (address : Word) : Word
  write (m : M) (address w : Word) : M
  stringAt (m : M) (address : Word) : String
  registers (m : M) : RegisterFile
  setRegisters (m : M) (r : RegisterFile) : M
  stackPointer (m : M) : Word

instance : Target Machine where
  pop := Machine.pop
  push := Machine.push
  read m address := m.data.get address
  write m address w := { m with data := m.data.set address w }
  stringAt := Machine.stringAt
  registers := Machine.registers
  setRegisters := Machine.setRegisters
  stackPointer m := m.stack.pointer

/-- What a running utility works on: the machine, the notes taken, and the text printed. -/
structure Scope (M : Type := Machine) where
  machine : M
  notes : Array Observation
  printed : String

variable {M : Type}

/-- The scope of a utility that is about to start. -/
def Scope.ofMachine (m : M) : Scope M := ⟨m, #[], ""⟩

/-- An action of a utility on a kind of machine: a result, or a fault that leaves the scope
behind. -/
abbrev OpOn (M α : Type) := EStateM Fault (Scope M) α

/-- An action of a utility on the machine. -/
abbrev Op (α : Type) := EStateM Fault Scope α

/-- Runs an action on the machine. -/
def onMachine {α : Type} (act : EStateM Fault M α) : OpOn M α := fun ⟨machine, notes, printed⟩ =>
  match act machine with
  | .ok x machine => .ok x ⟨machine, notes, printed⟩
  | .error e machine => .error e ⟨machine, notes, printed⟩

/-- Changes the machine. -/
def modifyMachine (f : M → M) : OpOn M Unit :=
  modify fun s => { s with machine := f s.machine }

end Utility

end WordMachine

import WordMachine.Vm.Interrupt
import WordMachine.Machine.Exec
import WordMachine.Instruction.Printer

/-!
# Running instructions

A step fetches the byte that the lower half of the instruction pointer names, carries the
instruction out, and moves the instruction pointer on by one. A halt does not move it, and neither
does an instruction that fails. The operand of a push stands at the full address.
-/

namespace WordMachine.Vm

variable {M : Type}

/-- How a step ends when it does not fail. -/
inductive Outcome where
  | next
  | halt
  deriving DecidableEq, Repr

/-- The instruction that the next step carries out. -/
def fetch (m : Machine) : Instruction := Instruction.decode (m.code.get (m.ip &&& 0xFF))

/-- The log line of an instruction that is about to be carried out. -/
def traceLine (m : Machine) : String := Text.hex 4 m.ip.toNat ++ ": " ++ (fetch m).render

/-- Logs what `line` says of the machine, if instructions are logged. -/
def traceWith (line : M → String) : OpOn M Unit := do
  let vm ← get
  if vm.trace then
    onHost (modify fun host => { host with log := host.log.info (line vm.machine) })

/-- Logs the next instruction, if instructions are logged. -/
def traceNext : Op Unit := traceWith traceLine

/-- The image that a reset loads. -/
def sourceImage : OpOn M Image := do
  match (← get).source with
  | .memory img => return img
  | .file path => onHost (readImage path)

/-- Starts the program over: the image is loaded again, as `load` says, and the names and the save
file are let go. The console goes on where it is. -/
def restart (load : M → Image → M) : OpOn M Unit := do
  let img ← sourceImage
  modify fun vm => { vm with
    machine := load vm.machine img
    names := .empty
    save := vm.save.close }

/-- The reset instruction. The instruction pointer is left just before address 0. -/
def reset : Op Unit := restart fun m img => { m.load img with ip := Machine.before 0 }

/-- The number of the register that an instruction names. -/
def registerIndex (reg : UInt8) : RegIndex := ⟨reg.toNat % 33, Nat.mod_lt _ (by decide)⟩

/-- Carries an instruction out. -/
def execute : Instruction → Op Outcome
  | .extended .interrupt => do
    interrupt
    return .next
  | .extended .reset => do
    reset
    return .next
  | .extended .halt => do
    onConsole Console.flush
    return .halt
  | .extended op => do
    onMachine (Machine.exec op)
    return .next
  | .register op reg => do
    onMachine (Machine.execRegister op (registerIndex reg))
    return .next
  | .unassigned _ => return .next

/-- Carries out one instruction. -/
def step : Op Outcome := do
  traceNext
  match ← execute (fetch (← get).machine) with
  | .halt => return .halt
  | .next =>
    modifyMachine fun m => { m with ip := m.ip + 1 }
    return .next

/-- How a run of several steps ends. -/
inductive Ending where
  | limit
  | halt
  | fault (e : Fault)
  deriving DecidableEq, Repr

/-- Runs at most `left` steps after `count` have been done: the number of steps that went on to the
next, how the run ended, and the state it reached. -/
def stepsFrom : (left count : Nat) → Vm → Nat × Ending × Vm
  | 0, count, vm => (count, .limit, vm)
  | left + 1, count, vm =>
    match step vm with
    | .ok .next vm => stepsFrom left (count + 1) vm
    | .ok .halt vm => (count, .halt, vm)
    | .error e vm => (count, .fault e, vm)

/-- Runs at most `limit` steps. -/
def steps (limit : Nat) (vm : Vm) : Nat × Ending × Vm := stepsFrom limit 0 vm

/-- Runs until a halt, for at most `limit` steps; false when the limit ended the run. Output is
handed over also when the run fails, and a failure of that is not reported. -/
def run (limit : Nat) : Op Bool := fun vm =>
  match steps limit vm with
  | (_, .limit, vm) => .ok false vm
  | (_, .halt, vm) => .ok true vm
  | (_, .fault e, vm) =>
    match onConsole Console.flush vm with
    | .ok () vm => .error e vm
    | .error _ vm => .error e vm

end WordMachine.Vm

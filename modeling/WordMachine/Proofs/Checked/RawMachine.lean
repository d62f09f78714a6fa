import Mathlib.Algebra.Group.Int.Defs
import Mathlib.Algebra.Group.Nat.Defs
import WordMachine.Vm.Step

/-!
# The machine with every access checked

The reference for safety. Its registers, segments and slots are arrays of fixed length, but its
depth is any number, and a register number, an address or a slot is just an index: each access tests
it, and traps where it is out of range (`RawMachine.element`, `RawMachine.replace`,
`RawMachine.slice`). So do sums that leave 32 bits, differences below zero, divisions by zero,
shifts by the width or more, and a depth beyond the slots. A `Trap` is not a fault of the program:
nothing raises it on purpose.

The instructions are written out access by access, registers by their number as it stands in the
instruction byte. Division and shift work on whole numbers, that is, on the value that the operation
has before it is cut to a word. The services are those of the virtual machine, whose handle table
has one fault that stands for a sum out of range; it counts as a trap (`Stop.ofFault`).
-/

namespace WordMachine

/-! ## Checked actions -/

/-- What must not happen. -/
inductive Trap where
  | index
  | overflow
  | division
  | shift
  | depth
  deriving DecidableEq, Repr

/-- What stops a checked action. -/
inductive Stop where
  | fault (e : Fault)
  | trap (t : Trap)
  deriving DecidableEq, Repr

/-- How a fault stops a checked action. -/
def Stop.ofFault : Fault → Stop
  | .handleOverflow => .trap .overflow
  | e => .fault e

/-- The action with its faults as stops. -/
def checked {σ α : Type} (act : EStateM Fault σ α) : EStateM Stop σ α := fun s =>
  match act s with
  | .ok x t => .ok x t
  | .error e t => .error (.ofFault e) t

/-! ## The machine -/

/-- A machine whose depth is any number. Register 31 has a place of its own among the registers, but
it is neither read nor written. -/
@[ext]
structure RawMachine where
  regs : Vector Word 33
  code : Vector UInt8 segmentSize
  data : Vector Word segmentSize
  slots : Vector Word segmentSize
  depth : Nat

namespace RawMachine

/-- A checked action on a machine. -/
abbrev Op (α : Type) := EStateM Stop RawMachine α

section

variable {σ α : Type} {n : Nat}

/-- The element at an index. -/
def element (v : Vector α n) (i : Nat) : EStateM Stop σ α :=
  if h : i < n then pure v[i] else throw (.trap .index)

/-- The array with the element at an index replaced. -/
def replace (v : Vector α n) (i : Nat) (x : α) : EStateM Stop σ (Vector α n) :=
  if h : i < n then pure (v.set i x) else throw (.trap .index)

/-- The elements from one index up to another. -/
def slice (v : Vector α n) (start stop : Nat) : EStateM Stop σ (List α) :=
  if start ≤ stop ∧ stop ≤ n then pure (v.toArray.extract start stop).toList
  else throw (.trap .index)

/-- A sum of indices, in 32 bits. -/
def sum (a b : Nat) : EStateM Stop σ Nat :=
  if a + b < 2 ^ 32 then pure (a + b) else throw (.trap .overflow)

/-- A difference of indices. -/
def difference (a b : Nat) : EStateM Stop σ Nat :=
  if b ≤ a then pure (a - b) else throw (.trap .overflow)

end

/-- The machine that starts on an image. -/
def ofImage (img : Image) : RawMachine :=
  ⟨Vector.replicate 33 0, img.code.cells, img.data.cells, Vector.replicate segmentSize 0, 0⟩

/-! ## Registers -/

/-- The value of the register with a number. -/
def reg (i : Nat) : Op Word := do
  let m ← get
  if i = 31 then return UInt16.ofNat m.depth else element m.regs i

/-- Moves the depth, which must not pass the slots. -/
def setDepth (n : Nat) : Op Unit :=
  if n ≤ segmentSize then modify fun m => { m with depth := n } else throw (.trap .depth)

/-- Writes the register with a number. -/
def setReg (i : Nat) (w : Word) : Op Unit :=
  if i = 31 then setDepth w.toNat else do
    let m ← get
    let regs ← replace m.regs i w
    set { m with regs }

/-- The instruction pointer. -/
def ip : Op Word := do element (← get).regs 32

/-- Writes the instruction pointer. -/
def setIp (w : Word) : Op Unit := do
  let m ← get
  let regs ← replace m.regs 32 w
  set { m with regs }

/-- A copy of all registers, the stack pointer filled in. -/
def registers : Op RegisterFile := do
  let m ← get
  replace m.regs 31 (← reg 31)

/-- Writes one register of a copy back. The stack pointer is left out if it reads as it does. -/
def writeBack (r : RegisterFile) (i : RegIndex) : Op Unit := do
  if i = .stackPointer ∧ r.read i = (← reg 31) then pure () else setReg i (r.read i)

/-- Writes all registers of a copy back, in the order of their numbers. -/
def setRegisters (r : RegisterFile) : Op Unit := (List.finRange 33).forM (writeBack r)

/-! ## Memory -/

/-- The code byte at an address. -/
def readCode (a : Word) : Op UInt8 := do element (← get).code a.toNat

/-- The data word at an address. -/
def readData (a : Word) : Op Word := do element (← get).data a.toNat

/-- Writes the data word at an index. -/
def writeAt (i : Nat) (w : Word) : Op Unit := do
  let m ← get
  let data ← replace m.data i w
  set { m with data }

/-- Writes the data word at an address. -/
def writeData (a w : Word) : Op Unit := writeAt a.toNat w

/-- The end of a range of data words, which must not pass the segment. -/
def dataEnd (a n : Word) : Op Nat := do
  let stop ← sum a.toNat n.toNat
  if segmentSize < stop then throw (.fault (.memoryRangeOutOfBounds a n)) else return stop

/-- The data words of a range. -/
def dataRange (a n : Word) : Op (List Word) := do
  let stop ← dataEnd a n
  slice (← get).data a.toNat stop

/-- Writes data words one after the other, from an index on. -/
def storeFrom (i : Nat) : List Word → Op Unit
  | [] => pure ()
  | w :: ws => do
    writeAt i w
    let next ← sum i 1
    storeFrom next ws

/-- The characters of a packed string from an address on, behind those read already. -/
def charsFrom (a : Word) : (words : Nat) → (read : List Char) → Op (List Char)
  | 0, read => return read.reverse
  | words + 1, read => do
    let w ← readData a
    let first := Char.ofNat (Word.high w).toNat
    let second := Char.ofNat (Word.low w).toNat
    if Word.high w = 0 then return read.reverse
    else if Word.low w = 0 then return (first :: read).reverse
    else charsFrom (a + 1) words (second :: first :: read)

/-- The packed string at an address. -/
def stringAt (a : Word) : Op String := do return String.ofList (← charsFrom a segmentSize [])

/-! ## The operand stack -/

/-- Adds a word on top. -/
def push (w : Word) : Op Unit := do
  let m ← get
  if m.depth = segmentSize then throw (.fault .stackOverflow) else
    let slots ← replace m.slots m.depth w
    let depth ← sum m.depth 1
    set { m with slots, depth }

/-- Takes the top word away. -/
def pop : Op Word := do
  let m ← get
  if m.depth = 0 then throw (.fault .stackUnderflow) else
    let depth ← difference m.depth 1
    let w ← element m.slots depth
    set { m with depth }
    return w

/-- The top word, which stays. -/
def top : Op Word := do
  let m ← get
  if m.depth = 0 then throw (.fault .stackUnderflow) else
    element m.slots (← difference m.depth 1)

/-- Exchanges the top word with the one `n` places below it. -/
def swap (n : Word) : Op Unit := do
  let m ← get
  if m.depth ≤ n.toNat then throw (.fault (.stackIndexOutOfRange n m.depth)) else
    let upper ← difference m.depth 1
    let lower ← difference upper n.toNat
    let a ← element m.slots upper
    let b ← element m.slots lower
    let slots ← replace m.slots upper b
    let slots ← replace slots lower a
    set { m with slots }

/-! ## Instructions -/

/-- The quotient of two words read as two's complement numbers, rounded toward zero. -/
def quotient (a b : Word) : Op Word :=
  if b = 0 then throw (.trap .division)
  else pure (Word.ofInt ((Word.signed a).tdiv (Word.signed b)))

/-- The remainder that belongs to `quotient`. -/
def remainder (a b : Word) : Op Word :=
  if b = 0 then throw (.trap .division)
  else pure (Word.ofInt ((Word.signed a).tmod (Word.signed b)))

/-- A register value shifted in 32 bits as a control word says, and cut to a word. -/
def shift (v control : Word) : Op Word :=
  let amount := (control &&& 31).toNat
  if 32 ≤ amount then throw (.trap .shift)
  else if 0 < Word.signed control then
    pure (Word.ofInt ((Word.signed v * 2 ^ amount).bmod (2 ^ 32)))
  else pure (Word.ofInt (Word.signed v >>> amount))

/-- Replaces the two top words by one. -/
def binary (f : Word → Word → Op Word) : Op Unit := do
  let b ← pop
  let a ← pop
  push (← f a b)

/-- Replaces the top word. -/
def unary (f : Word → Word) : Op Unit := do
  let a ← pop
  push (f a)

/-- What an opcode does to the machine. -/
def exec : Opcode → Op Unit
  | .nop | .interrupt | .reset | .halt => pure ()
  | .dup => do push (← top)
  | .pushImm => do
    let here ← ip
    let high ← readCode (here + 1)
    let low ← readCode (here + 2)
    push (Word.ofBytes high low)
    setIp (here + 2)
  | .call => do
    let target ← pop
    setReg 30 (← ip)
    setIp (target - 1)
  | .ret => do setIp (← reg 30)
  | .load => do
    let a ← pop
    push (← readData a)
  | .store => do
    let w ← pop
    let a ← pop
    writeData a w
  | .add => binary fun a b => pure (a + b)
  | .sub => binary fun a b => pure (a - b)
  | .mul => binary fun a b => pure (a * b)
  | .mod => binary fun a b => if b = 0 then throw (.fault .moduloByZero) else remainder a b
  | .div => binary fun a b => if b = 0 then pure 0x8000 else quotient a b
  | .regSwap => do
    let base ← reg 0
    let pointer ← reg 31
    setReg 0 pointer
    setReg 31 base
  | .and => binary fun a b => pure (a &&& b)
  | .or => binary fun a b => pure (a ||| b)
  | .xor => binary fun a b => pure (a ^^^ b)
  | .not => unary fun a => Word.ofBool (a == 0)
  | .neg => unary fun a => ~~~ a
  | .swap => do swap (← pop)
  | .cmpSigned =>
    binary fun a b => pure (Word.ofBool (decide (Word.signed a < Word.signed b)))
  | .cmpUnsigned => binary fun a b => pure (Word.ofBool (decide (a < b)))
  | .jump => do
    let target ← pop
    setIp (target - 1)
  | .jumpIfZero => do
    let target ← pop
    let condition ← pop
    if condition = 0 then setIp (target - 1) else pure ()

/-- What a register operation does to the machine, the register being given by its number. -/
def execRegister (op : RegisterOp) (i : Nat) : Op Unit :=
  match op with
  | .mask => do
    let mask ← pop
    push (mask &&& (← reg i))
  | .shift => do
    let control ← pop
    setReg i (← shift (← reg i) control)
  | .rotate => do
    let control ← pop
    setReg i (Machine.rotated (← reg i) control)
  | .push => do push (← reg i)
  | .pop => do
    let w ← pop
    setReg i w
  | .inc => do setReg i ((← reg i) + 1)
  | .dec => do setReg i ((← reg i) - 1)

/-! ## Utilities -/

open Utility (Scope)

/-- Runs a checked action on the machine of a scope. -/
def onScope {α : Type} (act : Op α) : EStateM Stop (Scope RawMachine) α := fun s =>
  match act s.machine with
  | .ok x m => .ok x { s with machine := m }
  | .error e m => .error e { s with machine := m }

/-- Takes the answer to a request: a fault is an answer, a trap goes through. -/
def attempt {α : Type} (act : EStateM Stop (Scope RawMachine) α) :
    EStateM Stop (Scope RawMachine) (Except Fault α) := fun s =>
  match act s with
  | .ok x s => .ok (.ok x) s
  | .error (.fault e) s => .ok (.error e) s
  | .error (.trap t) s => .error (.trap t) s

/-- Serves the requests of a utility of the host. -/
def runBuiltin : Builtin → EStateM Stop (Scope RawMachine) Unit
  | .done (.ok ()) => pure ()
  | .done (.error e) => throw (.fault e)
  | .pop next => do
    let r ← attempt (onScope pop)
    runBuiltin (next r)
  | .push w next => do
    let r ← attempt (onScope (push w))
    runBuiltin (next r)
  | .read a next => do
    let w ← onScope (readData a)
    runBuiltin (next w)
  | .write a w next => do
    onScope (writeData a w)
    runBuiltin next
  | .string a next => do
    let s ← onScope (stringAt a)
    runBuiltin (next s)
  | .registers next => do
    let r ← onScope registers
    runBuiltin (next r)
  | .setRegisters r next => do
    onScope (setRegisters r)
    runBuiltin next
  | .enter a next => runBuiltin (next (.error (.reentryUnsupported a)))
  | .print text next => do
    modify fun s => { s with printed := s.printed ++ text }
    runBuiltin next
  | .note o next => do
    modify fun s => { s with notes := s.notes.push o }
    runBuiltin next

/-- A checked action on the bridge to a library. -/
abbrev BridgeOp (α : Type) := EStateM Stop (Bridge RawMachine) α

/-- Runs a checked action on the machine behind the bridge. -/
def onBridge {α : Type} (act : Op α) : BridgeOp α := fun b =>
  match onScope act b.scope with
  | .ok x scope => .ok x { b with scope }
  | .error e scope => .error e { b with scope }

/-- Brings the copy's stack pointer up to date, from a new copy of all registers. -/
def syncPointer : BridgeOp Unit := do
  let r ← onBridge registers
  modify fun b => { b with regs := b.regs.write .stackPointer (r.read .stackPointer) }

/-- Serves a stack request through the bridge: a fault is remembered and `otherwise` the answer, a
trap goes through. -/
def onBridgeStack {α : Type} (act : Op α) (otherwise : α) : BridgeOp α := fun b =>
  match onBridge act b with
  | .ok x b => (do syncPointer; return x : BridgeOp α) b
  | .error (.fault e) b => .ok otherwise (b.record e)
  | .error (.trap t) b => .error (.trap t) b

/-- Serves all requests of a utility through the bridge. -/
def drive : Utility → BridgeOp Unit
  | .done => pure ()
  | .pop next => do
    let w ← onBridgeStack pop 0
    drive (next w)
  | .push w next => do
    onBridgeStack (push w) ()
    drive next
  | .read a next => do
    let w ← onBridge (readData a)
    drive (next w)
  | .write a w next => do
    onBridge (writeData a w)
    drive next
  | .string a next => do
    let s ← onBridge (stringAt a)
    drive (next (Bridge.byteText? s))
  | .registers next => do
    let b ← get
    drive (next b.regs)
  | .setRegisters r next => do
    modify fun b => { b with regs := r }
    drive next
  | .enter a next => do
    modify fun b => b.record (.reentryUnsupported a)
    drive next
  | .print text next => do
    modify fun b => { b with scope := { b.scope with printed := b.scope.printed ++ text } }
    drive next
  | .note o next => do
    modify fun b => { b with scope := { b.scope with notes := b.scope.notes.push o } }
    drive next

/-- Runs a utility through the bridge: on a copy of the registers, which is written back at the end
if no fault was remembered. -/
def runBridged (u : Utility) : EStateM Stop (Scope RawMachine) Unit := do
  let r ← onScope registers
  let s ← get
  match drive u ⟨s, r, none⟩ with
  | .error e b => do
    set b.scope
    throw e
  | .ok () b => do
    set b.scope
    match b.fault with
    | some e => throw (.fault e)
    | none => onScope (setRegisters b.regs)

/-- Runs an entry. -/
def runEntry : Entry → EStateM Stop (Scope RawMachine) Unit
  | .builtin b => runBuiltin b
  | .bridged u => runBridged u

/-! ## The virtual machine -/

/-- A checked action on the virtual machine. -/
abbrev VmOp (α : Type) := EStateM Stop (Vm RawMachine) α

/-- Runs a checked action on the machine. -/
def onVm {α : Type} (act : Op α) : VmOp α := fun vm =>
  match act vm.machine with
  | .ok x m => .ok x { vm with machine := m }
  | .error e m => .error e { vm with machine := m }

/-- Runs a utility on the machine, and takes over what it noted and printed. -/
def callEntry (entry : Entry) (fromLibrary : Bool) : VmOp Unit := fun vm =>
  let finish (scope : Scope RawMachine) : Vm RawMachine :=
    let after : Vm RawMachine :=
      { vm with machine := scope.machine, notes := vm.notes ++ scope.notes }
    after.showPrinted scope.printed fromLibrary
  match runEntry entry (.ofMachine vm.machine) with
  | .ok () scope => .ok () (finish scope)
  | .error e scope => .error e (finish scope)

/-- Calls the utility of an extension at an index. -/
def callExtension (name : String) (index : Word) : VmOp Unit := do
  let ext ← checked (Vm.loadExtension name)
  let entry ← checked (Vm.check (Loader.entry name ext index))
  callEntry entry ext.fromLibrary

/-- Serves a request with a string in the name table. -/
def withName {α : Type} (text : String) (serve : String → VmOp α) : VmOp α := fun vm =>
  let (handle, names) := vm.names.assign text
  let name := (names.get? handle).getD ""
  match serve name { vm with names } with
  | .ok x vm => (do checked (Vm.releaseName handle); return x) vm
  | .error e vm => (do checked (Vm.releaseName handle); throw e) vm

/-- Asks the save store for the slots from `start` on: the sum that its check makes, and the byte
offset of their end. -/
def checkSlots (start : Word) (n : Nat) : VmOp Unit := do
  let stop ← sum start.toNat n
  let _ ← sum stop stop

/-- Serves a service. -/
def serve : Service → VmOp Unit
  | .reserved => throw (.fault .reservedSelector)
  | .logWord => do
    let w ← onVm pop
    checked (Vm.onConsole (Console.logWord w))
  | .logString => do
    let address ← onVm pop
    let text ← onVm (stringAt address)
    withName text fun s => checked (Vm.onConsole (Console.logText s))
  | .saveRead => do
    let slot ← onVm pop
    checkSlots slot 1
    let w ← checked (Vm.onSave (SaveStore.read slot))
    onVm (push w)
  | .saveWrite => do
    let slot ← onVm pop
    let w ← onVm pop
    checkSlots slot 1
    checked (Vm.onSave (SaveStore.write slot w))
  | .saveToMemory => do
    let address ← onVm pop
    let length ← onVm pop
    let start ← onVm pop
    let _ ← onVm (dataRange address length)
    checkSlots start length.toNat
    let words ← checked (Vm.onSave (SaveStore.readRange start length.toNat))
    onVm (storeFrom address.toNat words)
  | .memoryToSave => do
    let address ← onVm pop
    let length ← onVm pop
    let start ← onVm pop
    let words ← onVm (dataRange address length)
    checkSlots start words.length
    checked (Vm.onSave (SaveStore.writeRange start words))
  | .extension => do
    let address ← onVm pop
    let index ← onVm pop
    let text ← onVm (stringAt address)
    withName text fun name => callExtension name index

/-- The interrupt instruction. -/
def interrupt : VmOp Unit := do
  let selector ← onVm pop
  match Service.ofSelector? selector with
  | none => throw (.fault (.undefinedUtility selector))
  | some service => serve service

/-- The reset instruction. -/
def reset : VmOp Unit := do
  checked (Vm.restart fun _ img => ofImage img)
  onVm (setIp (0 - 1))

/-- Carries an instruction out. -/
def execute : Instruction → VmOp Vm.Outcome
  | .extended .interrupt => do
    interrupt
    return .next
  | .extended .reset => do
    reset
    return .next
  | .extended .halt => do
    checked (Vm.onConsole Console.flush)
    return .halt
  | .extended op => do
    onVm (exec op)
    return .next
  | .register op i => do
    onVm (execRegister op i.toNat)
    return .next
  | .unassigned _ => return .next

/-- Carries out one instruction. -/
def step : VmOp Vm.Outcome := do
  let here ← onVm ip
  let instruction := Instruction.decode (← onVm (readCode (here &&& 0xFF)))
  checked (Vm.traceWith fun _ => Text.hex 4 here.toNat ++ ": " ++ instruction.render)
  match ← execute instruction with
  | .halt => return .halt
  | .next => do
    let here ← onVm ip
    onVm (setIp (here + 1))
    return .next

end RawMachine

end WordMachine

import WordMachine.Vm.Step

/-!
# The machine with a list for a stack

The reference for the operand stack. Its stack is a list of at most 65536 words, the top first, and
nothing else is remembered of it: no slot survives a pop. Every instruction says how many operands
it takes (`Opcode.operands`, `RegisterOp.operands`, `Service.operands`) and what it does with them
once they are off the list (`ListMachine.effect`, `ListMachine.registerEffect`,
`ListMachine.serve`).

Three operations can fail on the list, and each says when: a push when the list has 65536 words, a
pop when it has none, an exchange when the distance is not below its length. Register 31 reads as
the length in 16 bits and cannot be written.
-/

namespace WordMachine

/-! ## Operands -/

/-- How many words an opcode takes from the stack; an interrupt takes more once it has its
selector. -/
def Opcode.operands : Opcode → Nat
  | .nop | .reset | .halt | .pushImm | .ret | .regSwap => 0
  | .interrupt | .dup | .call | .load | .not | .neg | .swap | .jump => 1
  | .store | .add | .sub | .mul | .mod | .div | .and | .or | .xor | .cmpSigned | .cmpUnsigned
  | .jumpIfZero => 2

/-- How many words a register operation takes from the stack. -/
def RegisterOp.operands : RegisterOp → Nat
  | .mask | .shift | .rotate | .pop => 1
  | .push | .inc | .dec => 0

/-- How many words a service takes from the stack after its selector. -/
def Service.operands : Service → Nat
  | .reserved => 0
  | .logWord | .logString | .saveRead => 1
  | .saveWrite | .extension => 2
  | .saveToMemory | .memoryToSave => 3

/-! ## The machine -/

/-- A machine whose stack is a list, the top first. -/
structure ListMachine where
  code : Segment UInt8
  data : Segment Word
  stack : List Word
  general : Vector Word 31
  ip : Word
  stack_le : stack.length ≤ segmentSize

namespace ListMachine

/-- An action on a machine with a list: a result, or a fault that leaves the machine behind. -/
abbrev Op (α : Type) := EStateM Fault ListMachine α

/-- Puts a word on the list, unless it is full. -/
def push (w : Word) : Op Unit := fun m =>
  if h : m.stack.length < segmentSize then .ok () { m with stack := w :: m.stack, stack_le := h }
  else .error .stackOverflow m

/-- Takes the first word off the list, if there is one. -/
def pop : Op Word := fun m =>
  match m.stack.head? with
  | some w =>
    .ok w { m with stack := m.stack.tail, stack_le := Nat.le_trans (by simp) m.stack_le }
  | none => .error .stackUnderflow m

/-- The machine with `n` words off its list. -/
def dropWords (m : ListMachine) (n : Nat) : ListMachine :=
  { m with stack := m.stack.drop n, stack_le := Nat.le_trans (by simp) m.stack_le }

/-- Words are dropped one after the other. -/
theorem dropWords_dropWords (m : ListMachine) (i j : Nat) :
    (m.dropWords i).dropWords j = m.dropWords (i + j) := by
  simp only [dropWords, List.drop_drop]

/-- What is left and what was dropped make up the list. -/
theorem length_dropWords {m : ListMachine} {n : Nat} (h : n ≤ m.stack.length) :
    (m.dropWords n).stack.length + n = m.stack.length := by
  rw [dropWords, List.length_drop, Nat.sub_add_cancel h]

/-- A pop takes the first word. -/
theorem pop_of_cons {m : ListMachine} {w : Word} {ws : List Word} (h : m.stack = w :: ws) :
    pop m = .ok w (m.dropWords 1) := by
  obtain ⟨code, data, stack, general, ip, hle⟩ := m
  subst h
  rfl

/-- A pop on an empty list is a fault. -/
theorem pop_of_nil {m : ListMachine} (h : m.stack = []) : pop m = .error .stackUnderflow m := by
  obtain ⟨code, data, stack, general, ip, hle⟩ := m
  subst h
  rfl

/-- What a pop that succeeds found on the list. -/
theorem pop_eq_ok {m m' : ListMachine} {w : Word} (h : pop m = .ok w m') :
    m.stack = w :: m'.stack ∧ m' = m.dropWords 1 := by
  cases hs : m.stack with
  | nil =>
    rw [pop_of_nil hs] at h
    nomatch h
  | cons w' rest =>
    rw [pop_of_cons hs] at h
    obtain ⟨rfl, rfl⟩ := EStateM.Result.ok.inj h
    simp [dropWords, hs]

/-- The list with its first word exchanged for the one `n` places behind it. -/
def exchanged : (n : Nat) → List Word → List Word
  | n + 1, w :: ws => ws.getD n w :: ws.set n w
  | _, ws => ws

/-- An exchange keeps the length. -/
theorem length_exchanged (n : Nat) (ws : List Word) : (exchanged n ws).length = ws.length := by
  unfold exchanged
  split <;> simp

/-- Place 0 gets the word of place `n`, place `n` that of place 0, and the others keep theirs. -/
theorem getElem?_exchanged {n : Nat} {ws : List Word} (h : n < ws.length) (i : Nat) :
    (exchanged n ws)[i]? = if i = 0 then ws[n]? else if i = n then ws[0]? else ws[i]? := by
  -- at distance 0 nothing changes; otherwise the two places are those of the word in front and of
  -- the one set
  match n, ws with
  | 0, ws =>
    by_cases hi : i = 0 <;> simp [exchanged, hi]
  | n + 1, w :: ws =>
    have hn : n < ws.length := by simpa using h
    cases i with
    | zero => simp [exchanged, hn]
    | succ i =>
      by_cases hi : i = n
      · simp [exchanged, hi, hn]
      · simp [exchanged, hi, List.getElem?_set_ne (Ne.symm hi)]

/-- Exchanges the first word for the one `n` places behind it, if the list reaches that far. -/
def exchange (n : Word) : Op Unit := fun m =>
  if n.toNat < m.stack.length then
    .ok () { m with
      stack := exchanged n.toNat m.stack
      stack_le := Nat.le_trans (Nat.le_of_eq (length_exchanged ..)) m.stack_le }
  else .error (.stackIndexOutOfRange n m.stack.length) m

/-- Takes `n` words off the list, the first of them first. -/
def take : (n : Nat) → Op (List Word)
  | 0 => pure []
  | n + 1 => do
    let w ← pop
    let ws ← take n
    return w :: ws

/-- The length of the list as a word. -/
def pointer (m : ListMachine) : Word := UInt16.ofNat m.stack.length

/-- The value of a register. -/
def reg (m : ListMachine) (i : RegIndex) : Word :=
  if h : i.val < 31 then m.general[i.val]
  else if i = .stackPointer then m.pointer
  else m.ip

/-- The machine with one register written; register 31 is not. -/
def setReg (m : ListMachine) (i : RegIndex) (w : Word) : ListMachine :=
  if h : i.val < 31 then { m with general := m.general.set i.val w }
  else if i = .stackPointer then m
  else { m with ip := w }

/-- The machine that goes on at an address after the step that follows every instruction. -/
def jumpTo (m : ListMachine) (target : Word) : ListMachine := { m with ip := target - 1 }

/-- The machine that starts on an image. -/
def ofImage (img : Image) : ListMachine :=
  ⟨img.code, img.data, [], Vector.replicate 31 0, 0, Nat.zero_le _⟩

/-! ## Instructions -/

/-- What an opcode does once its operands are off the list; the first of them was on top. -/
def effect : Opcode → List Word → Op Unit
  | .dup, [a] => do
    push a
    push a
  | .pushImm, [] => do
    let m ← get
    push (Word.ofBytes (m.code.get (m.ip + 1)) (m.code.get (m.ip + 2)))
    modify fun m => { m with ip := m.ip + 2 }
  | .call, [target] => modify fun m => (m.setReg .returnAddress m.ip).jumpTo target
  | .ret, [] => modify fun m => { m with ip := m.reg .returnAddress }
  | .load, [a] => do push ((← get).data.get a)
  | .store, [w, a] => modify fun m => { m with data := m.data.set a w }
  | .add, [b, a] => push (a + b)
  | .sub, [b, a] => push (a - b)
  | .mul, [b, a] => push (a * b)
  | .mod, [b, a] => if b = 0 then throw .moduloByZero else push (Word.remainder a b)
  | .div, [b, a] => push (if b = 0 then 0x8000 else Word.quotient a b)
  | .and, [b, a] => push (a &&& b)
  | .or, [b, a] => push (a ||| b)
  | .xor, [b, a] => push (a ^^^ b)
  | .not, [a] => push (Word.ofBool (a == 0))
  | .neg, [a] => push (~~~ a)
  | .swap, [n] => exchange n
  | .cmpSigned, [b, a] => push (Word.ofBool (decide (Word.signed a < Word.signed b)))
  | .cmpUnsigned, [b, a] => push (Word.ofBool (decide (a < b)))
  | .jump, [target] => modify fun m => m.jumpTo target
  | .jumpIfZero, [target, c] => if c = 0 then modify fun m => m.jumpTo target else pure ()
  | _, _ => pure ()

/-- What a register operation does once its operands are off the list. -/
def registerEffect (op : RegisterOp) (i : RegIndex) (ws : List Word) : Op Unit :=
  match op, ws with
  | .mask, [w] => do push (w &&& (← get).reg i)
  | .shift, [w] => modify fun m => m.setReg i (Machine.shifted (m.reg i) w)
  | .rotate, [w] => modify fun m => m.setReg i (Machine.rotated (m.reg i) w)
  | .push, [] => do push ((← get).reg i)
  | .pop, [w] => modify fun m => m.setReg i w
  | .inc, [] => modify fun m => m.setReg i (m.reg i + 1)
  | .dec, [] => modify fun m => m.setReg i (m.reg i - 1)
  | _, _ => pure ()

/-! ## What utilities reach -/

instance : Utility.Target ListMachine where
  pop := pop
  push := push
  read m a := m.data.get a
  write m a w := { m with data := m.data.set a w }
  stringAt m a := String.ofList (Machine.packedChars m.data a segmentSize [])
  registers m := Vector.ofFn m.reg
  setRegisters m r :=
    { m with
      general := Vector.ofFn fun i : Fin 31 => r.read (i.castAdd 2)
      ip := r.read .instructionPointer }
  stackPointer := pointer

/-! ## The virtual machine -/

/-- The instruction that the next step carries out. -/
def fetch (m : ListMachine) : Instruction := Instruction.decode (m.code.get (m.ip &&& 0xFF))

/-- The `n` data words from an address on, if the segment reaches that far. -/
def dataRange (m : ListMachine) (a n : Word) : Except Fault (List Word) :=
  if a.toNat + n.toNat ≤ segmentSize then .ok (m.data.slice a n.toNat)
  else .error (.memoryRangeOutOfBounds a n)

open Vm (OpOn onMachine onConsole onSave check modifyMachine withName callExtension)

/-- What a service does once its operands are off the list. -/
def serve : Service → List Word → OpOn ListMachine Unit
  | .reserved, [] => throw .reservedSelector
  | .logWord, [w] => onConsole (Console.logWord w)
  | .logString, [a] => do
    withName (Utility.Target.stringAt (← get).machine a) fun s => onConsole (Console.logText s)
  | .saveRead, [slot] => do
    let w ← onSave (SaveStore.read slot)
    onMachine (push w)
  | .saveWrite, [slot, w] => onSave (SaveStore.write slot w)
  | .saveToMemory, [a, n, start] => do
    let _ ← check ((← get).machine.dataRange a n)
    let words ← onSave (SaveStore.readRange start n.toNat)
    modifyMachine fun m => { m with data := m.data.setAll a words }
  | .memoryToSave, [a, n, start] => do
    let words ← check ((← get).machine.dataRange a n)
    onSave (SaveStore.writeRange start words)
  | .extension, [a, index] => do
    withName (Utility.Target.stringAt (← get).machine a) fun name => callExtension name index
  | _, _ => pure ()

/-- The service that the selector on top of the list asks for. -/
def interrupt (selector : Word) : OpOn ListMachine Unit :=
  match Service.ofSelector? selector with
  | none => throw (.undefinedUtility selector)
  | some service => do
    let ws ← onMachine (take service.operands)
    serve service ws

/-- Carries an instruction out. -/
def execute : Instruction → OpOn ListMachine Vm.Outcome
  | .extended .interrupt => do
    onMachine pop >>= interrupt
    return .next
  | .extended .reset => do
    Vm.restart fun _ img => (ofImage img).jumpTo 0
    return .next
  | .extended .halt => do
    onConsole Console.flush
    return .halt
  | .extended op => do
    onMachine (do effect op (← take op.operands))
    return .next
  | .register op reg => do
    onMachine (do registerEffect op (Vm.registerIndex reg) (← take op.operands))
    return .next
  | .unassigned _ => return .next

/-- Carries out one instruction. -/
def step : OpOn ListMachine Vm.Outcome := do
  Vm.traceWith fun m => Text.hex 4 m.ip.toNat ++ ": " ++ m.fetch.render
  match ← execute (← get).machine.fetch with
  | .halt => return .halt
  | .next =>
    modifyMachine fun m => { m with ip := m.ip + 1 }
    return .next

end ListMachine

end WordMachine

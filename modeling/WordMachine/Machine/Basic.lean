import WordMachine.Stack

/-!
# The machine

A machine has a code segment, a data segment, an operand stack and 33 registers: 31 of general use,
of which the last, number 30, holds return addresses; the stack pointer, number 31; and the
instruction pointer, number 32. The stack pointer is not stored. Reading it gives the depth of the
stack as a word, writing it moves the depth. A `RegisterFile` is a copy of all 33 registers.
-/

namespace WordMachine

/-- The number of a register. -/
abbrev RegIndex := Fin 33

namespace RegIndex

/-- The first general register. -/
def zero : RegIndex := ⟨0, by decide⟩

/-- The register that a call leaves its own address in. -/
def returnAddress : RegIndex := 30

/-- The stack pointer. -/
def stackPointer : RegIndex := 31

/-- The instruction pointer. -/
def instructionPointer : RegIndex := 32

end RegIndex

/-- A copy of all registers. -/
abbrev RegisterFile := Vector Word 33

namespace RegisterFile

/-- The value that a copy holds for a register. -/
def read (r : RegisterFile) (i : RegIndex) : Word := r[i]

/-- The copy with the value of one register replaced. -/
def write (r : RegisterFile) (i : RegIndex) (w : Word) : RegisterFile := r.set i w

end RegisterFile

/-- The state of a machine. -/
structure Machine where
  code : Segment UInt8
  data : Segment Word
  stack : Stack
  general : Vector Word 31
  ip : Word

namespace Machine

/-- An action on a machine: a result, or a fault that leaves the machine behind. -/
abbrev Op (α : Type) := EStateM Fault Machine α

/-- The machine that starts on an image: registers and stack are zero. -/
def ofImage (img : Image) : Machine :=
  ⟨img.code, img.data, .empty, Vector.replicate 31 0, 0⟩

instance : Inhabited Machine := ⟨ofImage .empty⟩

/-- The machine reloaded with an image. Nothing of its old state stays. -/
def load (_ : Machine) (img : Image) : Machine := ofImage img

/-! ## Registers -/

/-- The value of a register. -/
def reg (m : Machine) (i : RegIndex) : Word :=
  if h : i.val < 31 then m.general[i.val]
  else if i = .stackPointer then m.stack.pointer
  else m.ip

/-- The machine with one register written. -/
def setReg (m : Machine) (i : RegIndex) (w : Word) : Machine :=
  if h : i.val < 31 then { m with general := m.general.set i.val w }
  else if i = .stackPointer then { m with stack := m.stack.setPointer w }
  else { m with ip := w }

/-- A register reads as it was written, the stack pointer and the instruction pointer included. -/
theorem reg_setReg_self (m : Machine) (i : RegIndex) (w : Word) : (m.setReg i w).reg i = w := by
  unfold setReg reg
  split
  · simp
  · split
    · simp [Stack.setPointer, Stack.setDepth, Stack.pointer]
    · rfl

/-- Writing one register leaves what the others read alone. -/
theorem reg_setReg_of_ne (m : Machine) {i j : RegIndex} (w : Word) (h : i ≠ j) :
    (m.setReg i w).reg j = m.reg j := by
  have hval : i.val ≠ j.val := fun e => h (Fin.ext e)
  have hsp : ¬ RegIndex.stackPointer.val < 31 := by decide
  have upper : ∀ k : RegIndex, ¬ k.val < 31 → k ≠ .stackPointer → k.val = 32 := by decide
  unfold setReg reg
  by_cases hi : i.val < 31
  · by_cases hj : j.val < 31
    · simp [hi, hj, hval]
    · simp [hi, hj]
  · by_cases hs : i = .stackPointer
    · have hs' : j ≠ .stackPointer := fun e => h (hs.trans e.symm)
      simp [hs, hs', hsp]
    · by_cases hj : j = .stackPointer
      · simp [hi, hs, hj, hsp]
      · have hj' : j.val < 31 := Decidable.byContradiction fun hn =>
          hval ((upper i hi hs).trans (upper j hn hj).symm)
        simp [hi, hs, hj']

/-- A copy of all registers. -/
def registers (m : Machine) : RegisterFile := Vector.ofFn m.reg

/-- The machine with all registers written. A stack pointer that reads as it already does leaves
the stack alone, which keeps a full stack full. -/
def setRegisters (m : Machine) (r : RegisterFile) : Machine :=
  { m with
    general := Vector.ofFn fun i : Fin 31 => r[i.val]
    ip := r.read .instructionPointer
    stack :=
      if r.read .stackPointer = m.stack.pointer then m.stack
      else m.stack.setPointer (r.read .stackPointer) }

/-! ## Memory -/

/-- The `n` data words from an address on; the range must not pass the end of the segment. -/
def dataRange (m : Machine) (a n : Word) : Except Fault (List Word) :=
  if a.toNat + n.toNat ≤ segmentSize then .ok (m.data.slice a n.toNat)
  else .error (.memoryRangeOutOfBounds a n)

/-- The machine with the `n` data words from an address on replaced by one word; the range must not
pass the end of the segment. -/
def fillRange (m : Machine) (a n w : Word) : Except Fault Machine :=
  if a.toNat + n.toNat ≤ segmentSize then
    .ok { m with data := m.data.setAll a (List.replicate n.toNat w) }
  else .error (.memoryRangeOutOfBounds a n)

/-- The characters of a packed string, put behind those of `read` in reverse: from `a` on, high byte
before low byte, up to the first zero byte or until `words` words have been read. The address wraps
at the end of the segment. -/
def packedChars (data : Segment Word) (a : Word) : (words : Nat) → (read : List Char) → List Char
  | 0, read => read.reverse
  | words + 1, read =>
    let w := data.get a
    let first := Char.ofNat (Word.high w).toNat
    let second := Char.ofNat (Word.low w).toNat
    if Word.high w = 0 then read.reverse
    else if Word.low w = 0 then (first :: read).reverse
    else packedChars data (a + 1) words (second :: first :: read)

/-- The packed string at an address; a string without end stops after one turn through memory. -/
def stringAt (m : Machine) (a : Word) : String :=
  String.ofList (packedChars m.data a segmentSize [])

/-! ## The operand stack -/

/-- Runs an action on the operand stack. -/
def onStack {α : Type} (act : Stack.Op α) : Op α := fun ⟨code, data, stack, general, ip⟩ =>
  match act stack with
  | .ok x stack => .ok x ⟨code, data, stack, general, ip⟩
  | .error e stack => .error e ⟨code, data, stack, general, ip⟩

/-- Adds a word to the operand stack. -/
def push (w : Word) : Op Unit := onStack (Stack.push w)

/-- Takes a word from the operand stack. -/
def pop : Op Word := onStack Stack.pop

end Machine

end WordMachine

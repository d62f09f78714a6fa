import WordMachine.Machine.Basic

/-!
# Register files

A register file is a copy of the 33 registers, and a machine gives one and takes one. The laws here
say what a copy reads after an entry is written, that a machine's copy reads as the machine does
(`read_registers`), that writing a machine's own copy back changes nothing
(`setRegisters_registers`), a full stack whose pointer reads as zero included, and that any copy is
read back as it was written (`registers_setRegisters`).
-/

namespace WordMachine

namespace RegisterFile

/-- An entry of a copy reads as it was written. -/
@[simp]
theorem read_write_self (r : RegisterFile) (i : RegIndex) (w : Word) :
    (r.write i w).read i = w := by
  simp [read, write]

/-- Writing one entry of a copy leaves the others alone. -/
theorem read_write_of_ne (r : RegisterFile) {i j : RegIndex} (w : Word) (h : i ≠ j) :
    (r.write i w).read j = r.read j := by
  have hval : i.val ≠ j.val := fun e => h (Fin.ext e)
  simp [read, write, hval]

/-- Register files are equal when they read alike. -/
theorem ext_read {r r' : RegisterFile} (h : ∀ i, r.read i = r'.read i) : r = r' := by
  refine Vector.ext fun i hi => ?_
  exact h ⟨i, hi⟩

end RegisterFile

/-- The pointer reads as it was set. -/
theorem Stack.pointer_setPointer (s : Stack) (w : Word) : (s.setPointer w).pointer = w := by
  simp [setPointer, setDepth, pointer]

namespace Machine

/-- The copy of a machine reads as the machine does. -/
@[simp]
theorem read_registers (m : Machine) (i : RegIndex) : m.registers.read i = m.reg i := by
  simp [registers, RegisterFile.read]

/-- The register of the stack pointer reads the depth. -/
theorem reg_stackPointer (m : Machine) : m.reg .stackPointer = m.stack.pointer := rfl

/-- The last register reads the instruction pointer. -/
theorem reg_instructionPointer (m : Machine) : m.reg .instructionPointer = m.ip := rfl

/-- A machine's own copy, written back, changes nothing. -/
theorem setRegisters_registers (m : Machine) : m.setRegisters m.registers = m := by
  have hgeneral : (Vector.ofFn fun i : Fin 31 => m.registers[i.val]) = m.general := by
    ext i hi
    simp [registers, reg]
  unfold setRegisters
  rw [hgeneral, read_registers, read_registers, reg_stackPointer, reg_instructionPointer,
    if_pos rfl]

/-- Writing a copy whose stack pointer reads as the machine's own leaves the stack alone. -/
theorem setRegisters_of_pointer {m : Machine} {r : RegisterFile}
    (h : r.read .stackPointer = m.stack.pointer) :
    m.setRegisters r =
      { m with
        general := Vector.ofFn fun i : Fin 31 => r.read (i.castAdd 2)
        ip := r.read .instructionPointer } := by
  unfold setRegisters
  rw [if_pos h]
  rfl

/-- Of two copies written one after the other, the first leaving the stack alone, the second
counts. -/
theorem setRegisters_setRegisters {m : Machine} {r : RegisterFile} (r' : RegisterFile)
    (h : r.read .stackPointer = m.stack.pointer) :
    (m.setRegisters r).setRegisters r' = m.setRegisters r' := by
  rw [setRegisters_of_pointer h]
  simp only [setRegisters]

/-! ## Writing any copy -/

/-- A register other than the stack pointer reads as the copy says afterwards. -/
theorem reg_setRegisters (m : Machine) (r : RegisterFile) {i : RegIndex}
    (h : i ≠ .stackPointer) : (m.setRegisters r).reg i = r.read i := by
  unfold reg setRegisters
  split
  · simp [RegisterFile.read]
  · rename_i hi
    -- of the registers above the general ones, only the instruction pointer is left
    have hval : i.val ≠ 31 := fun e => h (Fin.ext e)
    have hip : i = .instructionPointer := by
      apply Fin.ext
      change i.val = 32
      omega
    rw [hip]

/-- However the stack is moved, its pointer reads as the copy says afterwards. -/
theorem pointer_setRegisters (m : Machine) (r : RegisterFile) :
    (m.setRegisters r).stack.pointer = r.read .stackPointer := by
  simp only [setRegisters]
  split
  · rename_i h
    exact h.symm
  · exact Stack.pointer_setPointer _ _

/-- The copy of a machine to which a copy was written is that copy. -/
theorem registers_setRegisters (m : Machine) (r : RegisterFile) :
    (m.setRegisters r).registers = r := by
  apply RegisterFile.ext_read
  intro i
  rw [read_registers]
  by_cases hi : i = .stackPointer
  · rw [hi]
    exact pointer_setRegisters m r
  · exact reg_setRegisters m r hi

end Machine

end WordMachine

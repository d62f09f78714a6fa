import Mathlib.Order.Fin.Basic
import WordMachine.Proofs.Machine.Registers

/-!
# Writing a copy of the registers

A copy that is written to a machine sets all of its registers but does not carry the whole state. Of
the stack it moves the depth only, and a word has one value less than there are depths: the empty
and the full stack have the same pointer, any other two have different ones
(`Stack.pointer_eq_iff`). So the depth becomes what the copy says unless the stack is full and the
copy says zero (`depth_setRegisters`).

Nothing depends on the registers being written at once. Written one after the other, each leaves the
others alone, and the stack pointer moves the stack only where it reads differently
(`foldl_writeBack`), which comes to the same (`setRegisters_eq_foldl`). `register_file_laws` puts
these facts together.
-/

namespace WordMachine

/-- A pointer tells the depth, but for the full stack, which reads as zero. -/
theorem Stack.pointer_eq_iff {s : Stack} {w : Word} :
    s.pointer = w ↔ s.depth = w.toNat ∨ s.depth = segmentSize ∧ w = 0 := by
  have hle : s.depth ≤ 65536 := s.depth_le
  have hw : w.toNat < 65536 := w.toNat_lt
  rw [← UInt16.toNat_inj, pointer, UInt16.toNat_ofNat', ← UInt16.toNat_inj (b := 0)]
  change s.depth % 65536 = w.toNat ↔ _ ∨ s.depth = 65536 ∧ w.toNat = 0
  omega

namespace Machine

/-! ## The stack -/

/-- Writing a copy leaves the slots of the stack alone, live or not. -/
theorem slots_setRegisters (m : Machine) (r : RegisterFile) :
    (m.setRegisters r).stack.slots = m.stack.slots := by
  simp only [setRegisters]
  split <;> rfl

/-- The depth is what the copy says, unless a full stack is told zero, which it reads as already. -/
theorem depth_setRegisters (m : Machine) (r : RegisterFile) :
    (m.setRegisters r).stack.depth =
      if m.stack.depth = segmentSize ∧ r.read .stackPointer = 0 then segmentSize
      else (r.read .stackPointer).toNat := by
  have hne : (r.read .stackPointer).toNat ≠ segmentSize :=
    Nat.ne_of_lt (r.read .stackPointer).toNat_lt
  have hpointer := Stack.pointer_eq_iff (s := m.stack) (w := r.read .stackPointer)
  simp only [setRegisters]
  by_cases h : r.read .stackPointer = m.stack.pointer
  · -- the stack stays, and is as deep as the copy says or full
    rw [if_pos h]
    rcases hpointer.1 h.symm with hdepth | hfull
    · rw [if_neg fun hfull => hne (hdepth.symm.trans hfull.1), hdepth]
    · rw [if_pos hfull, hfull.1]
  · -- the stack moves; a full one that is told zero would have stayed
    have hfull : ¬ (m.stack.depth = segmentSize ∧ r.read .stackPointer = 0) :=
      fun hfull => h (hpointer.2 (.inr hfull)).symm
    rw [if_neg h, if_neg hfull]
    rfl

/-! ## One register after the other -/

/-- Writing a register leaves the memory alone. -/
theorem memory_setReg (m : Machine) (i : RegIndex) (w : Word) :
    (m.setReg i w).code = m.code ∧ (m.setReg i w).data = m.data := by
  unfold setReg
  split
  · exact ⟨rfl, rfl⟩
  · split
    · exact ⟨rfl, rfl⟩
    · exact ⟨rfl, rfl⟩

/-- Only the stack pointer's register reaches the stack. -/
theorem stack_setReg (m : Machine) {i : RegIndex} (w : Word) (h : i ≠ .stackPointer) :
    (m.setReg i w).stack = m.stack := by
  unfold setReg
  split
  · rfl
  · rfl

/-- Machines are equal when their memories, stacks and registers are. -/
theorem ext_reg {m m' : Machine} (hcode : m.code = m'.code) (hdata : m.data = m'.data)
    (hstack : m.stack = m'.stack) (h : ∀ i, i ≠ RegIndex.stackPointer → m.reg i = m'.reg i) :
    m = m' := by
  -- the general registers are compared one by one, and none of them is the stack pointer
  have hgeneral : m.general = m'.general := by
    refine Vector.ext fun i hi => ?_
    have hne : (⟨i, by omega⟩ : RegIndex) ≠ RegIndex.stackPointer := fun e => by
      have hval : i = 31 := congrArg Fin.val e
      omega
    have hi' := h _ hne
    simpa only [reg, hi, dif_pos] using hi'
  have hip : m.ip = m'.ip := h .instructionPointer (by decide)
  obtain ⟨code, data, stack, general, ip⟩ := m
  obtain ⟨code', data', stack', general', ip'⟩ := m'
  simp only at hcode hdata hstack hgeneral hip
  rw [hcode, hdata, hstack, hgeneral, hip]

/-- The machine with one register of a copy written back. -/
def writeBack (r : RegisterFile) (m : Machine) (i : RegIndex) : Machine :=
  if i = .stackPointer ∧ r.read i = m.stack.pointer then m else m.setReg i (r.read i)

/-- Writing one register of a copy back leaves the memory alone. -/
theorem memory_writeBack (r : RegisterFile) (m : Machine) (i : RegIndex) :
    (writeBack r m i).code = m.code ∧ (writeBack r m i).data = m.data := by
  unfold writeBack
  split
  · exact ⟨rfl, rfl⟩
  · exact memory_setReg m i _

/-- Writing one register of a copy back moves the stack if it is the stack pointer and reads
differently. -/
theorem stack_writeBack (r : RegisterFile) (m : Machine) (i : RegIndex) :
    (writeBack r m i).stack =
      if i = .stackPointer ∧ r.read .stackPointer ≠ m.stack.pointer
        then m.stack.setPointer (r.read .stackPointer) else m.stack := by
  unfold writeBack
  by_cases hi : i = .stackPointer
  · subst hi
    by_cases hr : r.read .stackPointer = m.stack.pointer
    · simp [hr]
    · simp only [hr, and_false, if_false, ne_eq, not_false_eq_true, and_true, if_true]
      rfl
  · simp only [hi, false_and, if_false]
    exact stack_setReg m _ hi

/-- Writing one register of a copy back makes it read as the copy says and leaves the others alone.
-/
theorem reg_writeBack (r : RegisterFile) (m : Machine) {i j : RegIndex} (h : i ≠ .stackPointer) :
    (writeBack r m j).reg i = if i = j then r.read i else m.reg i := by
  unfold writeBack
  by_cases hij : i = j
  · subst hij
    rw [if_neg fun hc => h hc.1, if_pos rfl, reg_setReg_self]
  · rw [if_neg hij]
    split
    · rfl
    · exact reg_setReg_of_ne m _ fun e => hij e.symm

/-- Written back one by one: the registers named are those of the copy, and the stack moves if the
stack pointer is among them and reads differently. -/
theorem foldl_writeBack (r : RegisterFile) (l : List RegIndex) (m : Machine) :
    (l.foldl (writeBack r) m).code = m.code ∧ (l.foldl (writeBack r) m).data = m.data ∧
    (l.foldl (writeBack r) m).stack =
      (if .stackPointer ∈ l ∧ r.read .stackPointer ≠ m.stack.pointer
        then m.stack.setPointer (r.read .stackPointer) else m.stack) ∧
    ∀ i, i ≠ RegIndex.stackPointer →
      (l.foldl (writeBack r) m).reg i = if i ∈ l then r.read i else m.reg i := by
  -- by induction on the registers to be written; the first one is written before the others
  induction l generalizing m with
  | nil => simp
  | cons j l ih =>
    obtain ⟨hcode, hdata, hstack, hreg⟩ := ih (writeBack r m j)
    have hmemory := memory_writeBack r m j
    refine ⟨hcode.trans hmemory.1, hdata.trans hmemory.2, ?_, fun i hi => ?_⟩
    · rw [List.foldl_cons, hstack, stack_writeBack]
      by_cases hj : j = .stackPointer
      · subst hj
        by_cases hr : r.read .stackPointer = m.stack.pointer
        · simp [hr]
        · -- once moved, the stack pointer reads as the copy says and stays
          simp [hr, Stack.pointer_setPointer]
      · have hj' : RegIndex.stackPointer ≠ j := fun e => hj e.symm
        simp [hj, hj']
    · rw [List.foldl_cons, hreg i hi, reg_writeBack r m hi]
      by_cases hij : i = j
      · simp [hij]
      · simp [hij]

/-- Writing a copy is writing its registers one after the other. -/
theorem setRegisters_eq_foldl (m : Machine) (r : RegisterFile) :
    m.setRegisters r = (List.finRange 33).foldl (writeBack r) m := by
  have hall : ∀ i : RegIndex, i ∈ List.finRange 33 := List.mem_finRange
  obtain ⟨hcode, hdata, hstack, hreg⟩ := foldl_writeBack r (List.finRange 33) m
  symm
  refine ext_reg hcode hdata ?_ fun i hi => ?_
  · rw [hstack]
    unfold setRegisters
    by_cases hr : r.read .stackPointer = m.stack.pointer
    · simp [hr]
    · simp [hr, hall]
  · rw [hreg i hi, if_pos (hall i), reg_setRegisters m r hi]

/-- A machine's own copy, written back, changes nothing, also if the stack is full and its pointer
reads as zero like that of the empty one. Any copy that is written is read back; the stack is as
deep as it says, except that a full stack stays full if it says zero; and the code, the data and the
slots of the stack are left alone. All this holds as well when the registers are written one after
the other. -/
theorem register_file_laws (m : Machine) :
    m.setRegisters m.registers = m ∧
    (m.registers.read .stackPointer = 0 ↔ m.stack.depth = 0 ∨ m.stack.depth = segmentSize) ∧
    ∀ r : RegisterFile,
      (m.setRegisters r).registers = r ∧
      (m.setRegisters r).stack.depth =
        (if m.stack.depth = segmentSize ∧ r.read .stackPointer = 0 then segmentSize
          else (r.read .stackPointer).toNat) ∧
      (m.setRegisters r).code = m.code ∧ (m.setRegisters r).data = m.data ∧
      (m.setRegisters r).stack.slots = m.stack.slots ∧
      m.setRegisters r = (List.finRange 33).foldl (writeBack r) m := by
  refine ⟨setRegisters_registers m, ?_, fun r => ⟨registers_setRegisters m r,
    depth_setRegisters m r, rfl, rfl, slots_setRegisters m r, setRegisters_eq_foldl m r⟩⟩
  rw [read_registers, reg_stackPointer, Stack.pointer_eq_iff]
  simp

end Machine

end WordMachine

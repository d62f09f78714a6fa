import WordMachine.Proofs.Assembly.Reference
import WordMachine.Proofs.Memory.Segments
import WordMachine.Proofs.Vm.Advance

/-!
# Running assembled code

The virtual machine carries out the instructions that an assembly text spells. The instructions of a
program stand in its code one after the other (`Program.offset`), so a machine whose instruction
pointer is at the place of one of them fetches this one, finds the operand of a push behind it, and
goes on to the place of the next: `step_at_offset`. A step fetches by the lower half of the
instruction pointer, so this holds for the places below 256.
-/

namespace WordMachine

/-- The instructions that a token can spell are decoded from their own byte. -/
theorem Assembly.IsInstruction.decode_encode {t : Token} {i : Instruction}
    (h : IsInstruction t i) : Instruction.decode i.encode = i := by
  cases h with
  | @extended op _ _ => cases op <;> decide
  | @register op digits reg _ hreg =>
    have hall : ∀ op ∈ RegisterOp.all, ∀ n < 32, Instruction.decode
        (Instruction.register op (UInt8.ofNat n)).encode = .register op (UInt8.ofNat n) := by
      decide
    simpa using hall op op.mem_all reg.toNat hreg.2.2.2

/-- The instructions that a token can spell alone have no operand. -/
theorem Assembly.IsInstruction.immediateLength {t : Token} {i : Instruction}
    (h : IsInstruction t i) : i.immediateLength = 0 := by
  cases h with
  | @extended op _ hop =>
    cases op with
    | pushImm => contradiction
    | _ => rfl
  | register _ _ => rfl

/-- Below 256 the lower half of an address is the address. -/
theorem Word.and_of_lt {n : Nat} (h : n < 256) : UInt16.ofNat n &&& 0xFF = UInt16.ofNat n := by
  have hn : (UInt16.ofNat n).toNat = n := UInt16.toNat_ofNat_of_lt' (Nat.lt_trans h (by decide))
  rw [← UInt16.toNat_inj, UInt16.toNat_and, hn]
  exact (Nat.and_two_pow_sub_one_eq_mod n 8).trans (Nat.mod_eq_of_lt h)

namespace Assembly

/-! ## The instructions of a program -/

/-- The instruction of a statement that has one. -/
def Statement.instruction? : Statement → Option Instruction
  | .push _ => some (.extended .pushImm)
  | .instruction i => some i
  | _ => none

namespace Program

/-- The statements of a program that are instructions, in its order. -/
def instructions (p : Program) : List Statement := p.filter fun s => s.instruction?.isSome

/-- The place of an instruction in the code: the bytes of the instructions before it. -/
def offset (p : Program) (k : Nat) : Nat := ((p.instructions.take k).map Statement.codeSize).sum

variable {p : Program} {k : Nat} {s : Statement}

/-- The code of a program is that of its instructions. -/
theorem flatMap_instructions (p : Program) (address : String → Word) :
    p.instructions.flatMap (Statement.code address) = p.flatMap (Statement.code address) := by
  unfold instructions
  -- statements that are no instructions have no code
  induction p with
  | nil => rfl
  | cons s p ih =>
    cases s with
    | directive _ | entry _ _ _ | label _ => exact ih
    | push _ | instruction _ => exact congrArg (List.append _) ih

/-- The code of statements takes the room that they say. -/
theorem length_flatMap_code (statements : List Statement) (address : String → Word) :
    (statements.flatMap (Statement.code address)).length =
      (statements.map Statement.codeSize).sum := by
  rw [List.length_flatMap]
  simp only [length_code_statement]

/-- The next instruction stands behind this one. -/
theorem offset_succ (h : p.instructions[k]? = some s) :
    p.offset (k + 1) = p.offset k + s.codeSize := by
  rw [offset, List.take_add_one, h, List.map_append, List.sum_append]
  rfl

/-- The bytes of an instruction stand in the code at its place. -/
theorem holdsAt_offset (hp : p.codeSize ≤ segmentSize) (h : p.instructions[k]? = some s) :
    p.image.code.HoldsAt (UInt16.ofNat (p.offset k)) (s.code p.address) := by
  obtain ⟨hlt, rfl⟩ := List.getElem?_eq_some_iff.1 h
  have hsplit : p.instructions = p.instructions.take k ++
      (p.instructions[k] :: p.instructions.drop (k + 1)) := by
    rw [← List.drop_eq_getElem_cons hlt, List.take_append_drop]
  have hcode : p.code = (p.instructions.take k).flatMap (Statement.code p.address) ++
      (p.instructions[k].code p.address ++
        (p.instructions.drop (k + 1)).flatMap (Statement.code p.address)) := by
    rw [code, ← flatMap_instructions, ← List.flatMap_cons, ← List.flatMap_append, ← hsplit]
  have hoffset : p.offset k =
      ((p.instructions.take k).flatMap (Statement.code p.address)).length :=
    (length_flatMap_code _ _).symm
  -- The instruction is within the code, and the code is within the segment.
  have hle : p.code.length ≤ segmentSize := by
    rw [code, length_flatMap_code]
    exact hp
  rw [hcode, List.length_append, List.length_append] at hle
  rw [image, hcode, hoffset]
  exact Segment.holdsAt_ofArray _ _ _ _ (by omega)

end Program

/-- An instruction without an operand in a program that is spelled has a token that spells it. -/
theorem Parses.exists_isInstruction {area : Area} {ts : List Token} {p : Program} {i : Instruction}
    (h : Parses area ts p) (hi : .instruction i ∈ p) : ∃ t, IsInstruction t i := by
  -- only one rule adds such a statement, and it has the token
  induction h with
  | done => simp at hi
  | directive _ _ ih | label _ _ ih => exact ih (by simpa using hi)
  | entry _ _ _ _ _ ih => exact ih (by simpa using hi)
  | push _ _ _ ih => exact ih (by simpa using hi)
  | instruction hinst _ ih =>
    rcases List.mem_cons.1 hi with heq | hi
    · obtain rfl := Statement.instruction.inj heq
      exact ⟨_, hinst⟩
    · exact ih hi

/-! ## Steps -/

/-- An instruction of a program that is spelled takes one byte and those of its operand. -/
theorem Parses.codeSize_eq {area : Area} {ts : List Token} {p : Program} {s : Statement}
    {i : Instruction} (h : Parses area ts p) (hs : s ∈ p) (hi : s.instruction? = some i) :
    s.codeSize = 1 + i.immediateLength := by
  cases s with
  | directive _ | entry _ _ _ | label _ => cases hi
  | push operand =>
    obtain rfl := Option.some.inj hi
    rfl
  | instruction i =>
    obtain rfl := Option.some.inj hi
    obtain ⟨t, ht⟩ := h.exists_isInstruction hs
    rw [ht.immediateLength]
    rfl

/-- At the place of an instruction, the machine fetches it. -/
theorem fetch_at_offset {p : Program} {k : Nat} {s : Statement} {m : Machine} {ts : List Token}
    (hparses : Parses .data ts p) (hsize : p.codeSize ≤ segmentSize)
    (hk : p.instructions[k]? = some s) (hoffset : p.offset k < 256)
    (hcode : m.code = p.image.code) (hip : m.ip = UInt16.ofNat (p.offset k)) :
    s.instruction? = some (Vm.fetch m) := by
  have hholds := Program.holdsAt_offset hsize hk
  have hmem : s ∈ p ∧ s.instruction?.isSome = true :=
    List.mem_filter.1 (List.mem_of_getElem? hk)
  rw [Vm.fetch, hcode, hip, Word.and_of_lt hoffset]
  cases s with
  | directive _ | entry _ _ _ | label _ => simp [Statement.instruction?] at hmem
  | push operand =>
    have hpush : Instruction.decode 0x05 = .extended .pushImm := by decide
    rw [hholds.1, hpush]
    rfl
  | instruction i =>
    obtain ⟨t, ht⟩ := hparses.exists_isInstruction hmem.1
    rw [hholds.1, ht.decode_encode]
    rfl

/-- At the place of a push, the word behind it is its operand. -/
theorem immediate_at_offset {p : Program} {k : Nat} {operand : Operand} {m : Machine}
    (hsize : p.codeSize ≤ segmentSize) (hk : p.instructions[k]? = some (.push operand))
    (hcode : m.code = p.image.code) (hip : m.ip = UInt16.ofNat (p.offset k)) :
    m.immediate = operand.word p.address := by
  obtain ⟨-, hhigh, hlow, -⟩ := Program.holdsAt_offset hsize hk
  have hnext : UInt16.ofNat (p.offset k) + 1 + 1 = UInt16.ofNat (p.offset k) + 2 :=
    UInt16.add_assoc _ 1 1
  rw [hnext] at hlow
  rw [Machine.immediate, hcode, hip, hhigh, hlow, Word.ofBytes_high_low]

/-- Whenever the instruction pointer is at the place of an instruction of an assembled text, a step
carries out this instruction. A push adds its operand to the stack, which it can do if there is
room. A step that goes on and transfers no control leads to the place of the next instruction. -/
theorem step_at_offset {text : String} {img : Image} {p : Program} {k : Nat} {s : Statement}
    {vm : Vm} (h : assemble text = .ok img) (hparses : Parses .data (Scan.ofText text).tokens p)
    (hk : p.instructions[k]? = some s) (hoffset : p.offset k < 256)
    (hcode : vm.machine.code = img.code) (hip : vm.machine.ip = UInt16.ofNat (p.offset k)) :
    s.instruction? = some (Vm.fetch vm.machine) ∧
    (∀ operand, s = .push operand → vm.machine.stack.depth < segmentSize →
      ∃ vm', vm.step = .ok .next vm') ∧
    ∀ vm', vm.step = .ok .next vm' →
      (∀ operand, s = .push operand →
        vm'.machine.stack.toList = vm.machine.stack.toList ++ [operand.word p.address]) ∧
      (¬ Vm.Transfers vm.machine →
        vm'.machine.ip.toNat = p.offset k + s.codeSize ∧
          p.offset (k + 1) = p.offset k + s.codeSize) := by
  obtain ⟨hsound, rfl⟩ := image_of_parses h hparses
  have hsize := hsound.codeSize_le
  have hfetch := fetch_at_offset hparses hsize hk hoffset hcode hip
  have hpush : ∀ operand, s = .push operand → Vm.fetch vm.machine = .extended .pushImm := by
    rintro operand rfl
    exact (Option.some.inj hfetch).symm
  refine ⟨hfetch, ?_, ?_⟩
  · intro operand hs hroom
    exact Vm.exists_step_push (hpush operand hs) hroom
  · intro vm' hstep
    refine ⟨?_, fun hstay => ⟨?_, Program.offset_succ hk⟩⟩
    · rintro operand rfl
      rw [Vm.toList_of_step_push (hpush operand rfl) hstep,
        immediate_at_offset hsize hk hcode hip]
    · -- The step moves by the length of the instruction, which does not wrap so early.
      have hmem : s ∈ p := List.mem_of_mem_filter (List.mem_of_getElem? hk)
      have hle : s.codeSize ≤ 3 := by cases s <;> simp [Statement.codeSize]
      have hlt : p.offset k + s.codeSize < UInt16.size :=
        Nat.lt_of_lt_of_le (Nat.add_lt_add_of_lt_of_le hoffset hle) (by decide)
      rw [Vm.ip_of_step hstep hstay, hip, ← hparses.codeSize_eq hmem hfetch, ← UInt16.ofNat_add]
      exact UInt16.toNat_ofNat_of_lt' hlt

/-- The push of a label that is defined behind it, at offset 1. -/
theorem step_at_offset_label : ∃ img, assemble ".code NO PI :e :e HL" = .ok img ∧
    ∃ vm', Vm.step { Vm.ofImage img ⟨.ofSink (.capture .unlimited), .ofPath "", .ofDirs [], []⟩
        ⟨.empty, .empty⟩ with machine := { Machine.ofImage img with ip := 1 } } = .ok .next vm' ∧
      vm'.machine.stack.toList = [4] ∧ vm'.machine.ip.toNat = 4 := by
  let p : Program := [.directive .code, .instruction (.extended .nop), .push (.label "e"),
    .label "e", .instruction (.extended .halt)]
  have htokens : (Scan.ofText ".code NO PI :e :e HL").tokens =
      [⟨".code", 1⟩, ⟨"NO", 1⟩, ⟨"PI", 1⟩, ⟨":e", 1⟩, ⟨":e", 1⟩, ⟨"HL", 1⟩] := by decide +kernel
  have hparses : Parses .data (Scan.ofText ".code NO PI :e :e HL").tokens p := by
    rw [htokens]
    exact .directive rfl (.instruction (.extended rfl (by decide)) (.push rfl (.label rfl)
      (.label rfl (.instruction (.extended rfl (by decide)) .done))))
  have hreferences : p.references = ["e"] := rfl
  have hnames : p.names = ["e"] := rfl
  have hsound : p.Sound :=
    ⟨by rw [hnames]; simp, by rw [hreferences, hnames]; simp, by decide, by decide⟩
  have himg := assemble_of_parses (by decide +kernel) hparses hsound
  let vm : Vm := { Vm.ofImage p.image
    ⟨.ofSink (.capture .unlimited), .ofPath "", .ofDirs [], []⟩ ⟨.empty, .empty⟩ with
    machine := { Machine.ofImage p.image with ip := 1 } }
  have hpush : p.instructions[1]? = some (.push (.label "e")) := rfl
  have hcode : vm.machine.code = p.image.code := rfl
  have hip : vm.machine.ip = UInt16.ofNat (p.offset 1) := rfl
  obtain ⟨hfetch, hgo, hstep⟩ := step_at_offset himg hparses hpush (by decide) hcode hip
  obtain ⟨vm', hvm'⟩ := hgo _ rfl (by decide)
  obtain ⟨hstack, hnext⟩ := hstep vm' hvm'
  -- a push transfers no control
  have hstay : ¬ Vm.Transfers vm.machine := by
    have hfetch : .extended .pushImm = Vm.fetch vm.machine := Option.some.inj hfetch
    rintro (h | h | h | h | ⟨h, -⟩ | ⟨h, -⟩) <;> cases hfetch.trans h
  refine ⟨_, himg, vm', hvm', ?_, (hnext hstay).1⟩
  have hempty : vm.machine.stack.toList = [] := List.take_zero
  rw [hstack _ rfl, hempty]
  rfl

end Assembly

end WordMachine

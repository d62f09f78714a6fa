import WordMachine.Proofs.Checked.Instructions
import WordMachine.Proofs.Vm.Parts

/-!
# Where a step leaves the instruction pointer

An instruction that is carried out moves the instruction pointer by its own length, the operand
included, unless it transfers control: `ip_of_step`. The machine's operations leave the pointer
where it is, apart from the push of an immediate, which passes over its operand, and from the
transfers; the services leave the whole machine's pointer alone, apart from the call of an
extension, whose utility may set it. The step then adds one.

`Transfers` lists the instructions that the rule leaves out, at a machine: a branch counts only
where it is taken, and an interrupt only where it calls an extension.
-/

namespace WordMachine

/-! ## Operations of the machine -/

namespace Machine

/-- Writing another register leaves the instruction pointer alone. -/
theorem ip_setReg (m : Machine) {i : RegIndex} (w : Word) (h : i ≠ .instructionPointer) :
    (m.setReg i w).ip = m.ip := by
  rw [← reg_instructionPointer, reg_setReg_of_ne m w h, reg_instructionPointer]

section

variable {α : Type} {a : Word}

/-- Actions on the stack leave the instruction pointer alone. -/
theorem keepsIp_onStack (act : Stack.Op α) : Preserves (fun m => m.ip = a) (onStack act) :=
  preserves_onStack fun _ h => h

/-- A push does. -/
theorem keepsIp_push (w : Word) : Preserves (fun m => m.ip = a) (push w) := keepsIp_onStack _

/-- A pop does. -/
theorem keepsIp_pop : Preserves (fun m => m.ip = a) pop := keepsIp_onStack _

/-- An operation on two words does. -/
theorem keepsIp_binary (f : Word → Word → Word) : Preserves (fun m => m.ip = a) (binary f) :=
  keepsIp_pop.bind fun _ => keepsIp_pop.bind fun _ => keepsIp_push _

/-- An operation on one word does. -/
theorem keepsIp_unary (f : Word → Word) : Preserves (fun m => m.ip = a) (unary f) :=
  keepsIp_pop.bind fun _ => keepsIp_push _

/-- A remainder does, by zero or not. -/
theorem keepsIp_modulo : Preserves (fun m => m.ip = a) modulo := by
  refine keepsIp_pop.bind fun b => keepsIp_pop.bind fun _ => ?_
  split
  · exact preserves_throw _
  · exact keepsIp_push _

/-- The update of another register does. -/
theorem keepsIp_updateReg {i : RegIndex} (h : i ≠ .instructionPointer) (f : Word → Word → Word) :
    Preserves (fun m => m.ip = a) (updateReg i f) :=
  keepsIp_pop.bind fun _ => preserves_modify fun m hm => (ip_setReg m _ h).trans hm

end

/-- An action on the stack that succeeds changes the stack only. -/
theorem onStack_eq_ok {α : Type} {act : Stack.Op α} {m m' : Machine} {x : α}
    (h : onStack act m = .ok x m') :
    ∃ s, act m.stack = .ok x s ∧ m' = { m with stack := s } := by
  rw [onStack_eq] at h
  exact mapState_eq_ok h

/-- The word that stands behind an instruction in the code. -/
def immediate (m : Machine) : Word := Word.ofBytes (m.code.get (m.ip + 1)) (m.code.get (m.ip + 2))

/-- The push of an immediate adds the word behind it to the stack and passes over the word. -/
theorem pushImmediate_eq_ok {m m' : Machine} (h : pushImmediate m = .ok () m') :
    m'.ip = m.ip + 2 ∧ m'.stack.toList = m.stack.toList ++ [m.immediate] := by
  have hseq : (push m.immediate >>= fun _ => modify fun m => { m with ip := m.ip + 2 }) m =
      .ok () m' := h
  obtain ⟨_, m₁, hpush, hmove⟩ := bind_eq_ok hseq
  obtain ⟨s, hs, rfl⟩ := onStack_eq_ok hpush
  obtain ⟨-, rfl⟩ := EStateM.Result.ok.inj hmove
  exact ⟨rfl, Stack.toList_of_push hs⟩

/-- The push of an immediate succeeds while there is room on the stack. -/
theorem exists_pushImmediate {m : Machine} (h : m.stack.depth < segmentSize) :
    ∃ m', pushImmediate m = .ok () m' := by
  have hpush : push m.immediate m = .ok () _ := onStack_of_ok (dif_pos h)
  exact ⟨_, bind_of_ok hpush⟩

/-- A branch that is not taken leaves the instruction pointer alone. -/
theorem ip_of_jumpIfZero {m m' : Machine} (h : jumpIfZero m = .ok () m')
    (hcond : ∀ words target, m.stack.toList ≠ words ++ [0, target]) : m'.ip = m.ip := by
  obtain ⟨target, m₁, htarget, h⟩ := bind_eq_ok h
  obtain ⟨condition, m₂, hcondition, h⟩ := bind_eq_ok h
  obtain ⟨s₁, hs₁, rfl⟩ := onStack_eq_ok htarget
  obtain ⟨s₂, hs₂, rfl⟩ := onStack_eq_ok hcondition
  have hstack : m.stack.toList = s₂.toList ++ [condition, target] := by
    have h₁ : m.stack.toList = s₁.toList ++ [target] := Stack.toList_of_pop hs₁
    have h₂ : s₁.toList = s₂.toList ++ [condition] := Stack.toList_of_pop hs₂
    rw [h₁, h₂, List.append_assoc]
    rfl
  -- the branch is taken only where the condition is zero
  split at h
  · rename_i hzero
    exact absurd (hzero ▸ hstack) (hcond s₂.toList target)
  · obtain ⟨-, rfl⟩ := EStateM.Result.ok.inj h
    rfl

/-- An opcode that does not transfer control moves the instruction pointer over its operand. -/
theorem ip_of_exec {op : Opcode} {m m' : Machine} (h : exec op m = .ok () m')
    (hcall : op ≠ .call) (hret : op ≠ .ret) (hjump : op ≠ .jump)
    (hcond : op = .jumpIfZero → ∀ words target, m.stack.toList ≠ words ++ [0, target]) :
    m'.ip = m.ip + UInt16.ofNat op.immediateLength := by
  -- only the push has an operand
  suffices hkeep : op ≠ .pushImm → m'.ip = m.ip by
    by_cases hpush : op = .pushImm
    · subst hpush
      exact (pushImmediate_eq_ok h).1
    · have hlength : op.immediateLength = 0 := by cases op <;> first | rfl | exact absurd rfl hpush
      rw [hkeep hpush, hlength]
      exact (UInt16.add_zero _).symm
  intro hpush
  cases op with
  | call | ret | jump | pushImm => contradiction
  | jumpIfZero => exact ip_of_jumpIfZero h (hcond rfl)
  | nop | interrupt | reset | halt =>
    obtain ⟨-, rfl⟩ := EStateM.Result.ok.inj h
    rfl
  | dup => exact ((keepsIp_onStack _).bind fun w => keepsIp_push w).of_ok rfl h
  | load =>
    exact (keepsIp_pop.bind fun a => preserves_get.bind fun m => keepsIp_push _).of_ok rfl h
  | store =>
    have hstore : Preserves (fun t : Machine => t.ip = m.ip) (exec .store) :=
      keepsIp_pop.bind fun w => keepsIp_pop.bind fun a => preserves_modify fun t ht => ht
    exact hstore.of_ok rfl h
  | add | sub | mul | div | and | or | xor | cmpSigned | cmpUnsigned =>
    exact (keepsIp_binary _).of_ok rfl h
  | mod => exact keepsIp_modulo.of_ok rfl h
  | not | neg => exact (keepsIp_unary _).of_ok rfl h
  | swap => exact (keepsIp_pop.bind fun n => keepsIp_onStack _).of_ok rfl h
  | regSwap =>
    obtain ⟨-, rfl⟩ := EStateM.Result.ok.inj h
    exact (ip_setReg _ _ (by decide)).trans (ip_setReg m _ (by decide))

/-- A register operation leaves the instruction pointer alone, which it cannot name. -/
theorem keepsIp_execRegister {i : RegIndex} {a : Word} (op : RegisterOp)
    (h : i ≠ .instructionPointer) : Preserves (fun m => m.ip = a) (execRegister op i) := by
  cases op with
  | mask => exact keepsIp_pop.bind fun w => preserves_get.bind fun m => keepsIp_push _
  | push => exact preserves_get.bind fun m => keepsIp_push _
  | shift => exact keepsIp_updateReg h shifted
  | rotate => exact keepsIp_updateReg h rotated
  | pop => exact keepsIp_updateReg h fun _ w => w
  | inc | dec => exact preserves_modify fun m hm => (ip_setReg m _ h).trans hm

end Machine

/-! ## Services -/

namespace Vm

/-- No service but the call of an extension moves the instruction pointer. -/
theorem keepsIp_serve {service : Service} {a : Word} (h : service ≠ .extension) :
    Preserves (fun vm => vm.machine.ip = a) (serve service) := by
  have hstable := serviceStable_of_machine (q := fun m => m.ip = a) Machine.keepsIp_onStack
    fun _ _ h => h
  exact hstable.serve fun heq => absurd heq h

/-- An interrupt that calls no extension leaves the instruction pointer alone. -/
theorem ip_of_interrupt {vm vm' : Vm} (h : interrupt vm = .ok () vm')
    (hcall : ∀ words, vm.machine.stack.toList ≠ words ++ [Service.selector .extension]) :
    vm'.machine.ip = vm.machine.ip := by
  obtain ⟨selector, vm₁, hpop, hserve⟩ := bind_eq_ok h
  obtain ⟨m, hm, rfl⟩ := onMachine_eq_ok hpop
  obtain ⟨s, hs, rfl⟩ := Machine.onStack_eq_ok hm
  cases hservice : Service.ofSelector? selector with
  | none =>
    rw [hservice] at hserve
    cases hserve
  | some service =>
    rw [hservice] at hserve
    -- the service is not a call, or the top of the stack would have been its selector
    have hne : service ≠ .extension := by
      rintro rfl
      rw [← Service.selector_of_ofSelector? hservice] at hs
      exact hcall s.toList (Stack.toList_of_pop hs)
    refine (keepsIp_serve hne).of_ok ?_ hserve
    rfl

/-! ## Steps -/

/-- The next instruction sets the instruction pointer to where it likes. -/
inductive Transfers (m : Machine) : Prop where
  | reset : fetch m = .extended .reset → Transfers m
  | call : fetch m = .extended .call → Transfers m
  | ret : fetch m = .extended .ret → Transfers m
  | jump : fetch m = .extended .jump → Transfers m
  | branch {words : List Word} {target : Word} : fetch m = .extended .jumpIfZero →
      m.stack.toList = words ++ [0, target] → Transfers m
  | extension {words : List Word} : fetch m = .extended .interrupt →
      m.stack.toList = words ++ [Service.selector .extension] → Transfers m

/-- A step logs the next instruction, if it is to, carries it out, and then moves the instruction
pointer on by one, unless the instruction halts or fails. -/
theorem exists_step_eq (vm : Vm) : ∃ log, step vm =
    match execute (fetch vm.machine) { vm with host := { vm.host with log } } with
    | .ok .next t => .ok .next { t with machine := { t.machine with ip := t.machine.ip + 1 } }
    | .ok .halt t => .ok .halt t
    | .error e t => .error e t := by
  obtain ⟨log, hlog⟩ := exists_traceWith traceLine vm
  have htrace : traceNext vm = _ := hlog
  refine ⟨log, ?_⟩
  rw [step, bind_of_ok htrace]
  refine (bind_of_ok rfl).trans ?_
  -- what follows the instruction depends on how it ends only
  cases hexecute : execute (fetch vm.machine) { vm with host := { vm.host with log } } with
  | ok outcome t =>
    rw [bind_of_ok hexecute]
    cases outcome <;> rfl
  | error e t => rw [bind_of_error hexecute]

/-- A step that goes on has carried out the next instruction. -/
theorem execute_of_step {vm vm' : Vm} (h : step vm = .ok .next vm') : ∃ (log : Log) (t : Vm),
    execute (fetch vm.machine) { vm with host := { vm.host with log } } = .ok .next t ∧
      vm' = { t with machine := { t.machine with ip := t.machine.ip + 1 } } := by
  obtain ⟨log, hstep⟩ := exists_step_eq vm
  rw [hstep] at h
  split at h
  · rename_i t hexecute
    obtain ⟨-, rfl⟩ := EStateM.Result.ok.inj h
    exact ⟨log, t, hexecute, rfl⟩
  · cases h
  · cases h

/-- The opcodes that are not served outside of the machine. -/
theorem execute_extended {op : Opcode} (hinterrupt : op ≠ .interrupt) (hreset : op ≠ .reset)
    (hhalt : op ≠ .halt) : execute (.extended op) = (do
      onMachine (Machine.exec op)
      return .next) := by
  cases op with
  | interrupt | reset | halt => contradiction
  | _ => rfl

/-- An instruction that goes on and transfers no control moves the instruction pointer over its
operand. -/
theorem ip_of_execute {vm t : Vm} (h : execute (fetch vm.machine) vm = .ok .next t)
    (hstay : ¬ Transfers vm.machine) :
    t.machine.ip = vm.machine.ip + UInt16.ofNat (fetch vm.machine).immediateLength := by
  cases hfetch : fetch vm.machine with
  | unassigned b =>
    rw [hfetch] at h
    obtain ⟨-, rfl⟩ := EStateM.Result.ok.inj h
    exact (UInt16.add_zero _).symm
  | register op reg =>
    -- the byte of a register operation has five bits for the register, one too few for the pointer
    have hne : registerIndex reg ≠ .instructionPointer := by
      intro heq
      have hval := congrArg Fin.val heq
      rw [registerIndex_of_decode hfetch] at hval
      have hlt := Instruction.toNat_lt_of_decode hfetch
      have hip : RegIndex.instructionPointer.val = 32 := rfl
      omega
    rw [hfetch] at h
    obtain ⟨_, _, hact, hdone⟩ := bind_eq_ok h
    obtain ⟨-, rfl⟩ := EStateM.Result.ok.inj hdone
    obtain ⟨m, hm, rfl⟩ := onMachine_eq_ok hact
    rw [(Machine.keepsIp_execRegister op hne).of_ok rfl hm]
    exact (UInt16.add_zero _).symm
  | extended op =>
    rw [hfetch] at h
    -- three opcodes are carried out outside of the machine: a reset transfers control, a halt does
    -- not go on, and an interrupt is looked at by itself
    have hreset : op ≠ .reset := fun heq => hstay (.reset (heq ▸ hfetch))
    by_cases hhalt : op = .halt
    · subst hhalt
      obtain ⟨_, _, _, hdone⟩ := bind_eq_ok h
      cases hdone
    by_cases hinterrupt : op = .interrupt
    · subst hinterrupt
      obtain ⟨_, _, hact, hdone⟩ := bind_eq_ok h
      obtain ⟨-, rfl⟩ := EStateM.Result.ok.inj hdone
      rw [ip_of_interrupt hact fun words hwords => hstay (.extension hfetch hwords)]
      exact (UInt16.add_zero _).symm
    -- the others are the machine's own
    rw [execute_extended hinterrupt hreset hhalt] at h
    obtain ⟨_, _, hact, hdone⟩ := bind_eq_ok h
    obtain ⟨-, rfl⟩ := EStateM.Result.ok.inj hdone
    obtain ⟨m, hm, rfl⟩ := onMachine_eq_ok hact
    exact Machine.ip_of_exec hm (fun heq => hstay (.call (heq ▸ hfetch)))
      (fun heq => hstay (.ret (heq ▸ hfetch))) (fun heq => hstay (.jump (heq ▸ hfetch)))
      fun heq words target hstack => hstay (.branch (heq ▸ hfetch) hstack)

/-- A step that goes on and transfers no control leads to the byte behind the instruction and its
operand. -/
theorem ip_of_step {vm vm' : Vm} (h : step vm = .ok .next vm') (hstay : ¬ Transfers vm.machine) :
    vm'.machine.ip = vm.machine.ip + UInt16.ofNat (1 + (fetch vm.machine).immediateLength) := by
  obtain ⟨log, t, hexecute, rfl⟩ := execute_of_step h
  have hip := @ip_of_execute { vm with host := { vm.host with log } } t hexecute hstay
  calc t.machine.ip + 1
      = vm.machine.ip + UInt16.ofNat (fetch vm.machine).immediateLength + 1 := by rw [hip]
    _ = vm.machine.ip + UInt16.ofNat (1 + (fetch vm.machine).immediateLength) := by
        rw [UInt16.add_assoc, Nat.add_comm, UInt16.ofNat_add]
        rfl

/-! ## The push of an immediate -/

/-- A step that pushes an immediate adds the word behind the instruction to the stack. -/
theorem toList_of_step_push {vm vm' : Vm} (hfetch : fetch vm.machine = .extended .pushImm)
    (h : step vm = .ok .next vm') :
    vm'.machine.stack.toList = vm.machine.stack.toList ++ [vm.machine.immediate] := by
  obtain ⟨log, t, hexecute, rfl⟩ := execute_of_step h
  rw [hfetch] at hexecute
  obtain ⟨_, _, hact, hdone⟩ := bind_eq_ok hexecute
  obtain ⟨-, rfl⟩ := EStateM.Result.ok.inj hdone
  obtain ⟨m, hm, rfl⟩ := onMachine_eq_ok hact
  exact (Machine.pushImmediate_eq_ok hm).2

/-- A step that pushes an immediate goes on if there is room on the stack. -/
theorem exists_step_push {vm : Vm} (hfetch : fetch vm.machine = .extended .pushImm)
    (h : vm.machine.stack.depth < segmentSize) : ∃ vm', step vm = .ok .next vm' := by
  obtain ⟨log, hstep⟩ := exists_step_eq vm
  obtain ⟨m, hm⟩ := Machine.exists_pushImmediate h
  have hexecute : execute (fetch vm.machine) { vm with host := { vm.host with log } } =
      .ok .next { vm with host := { vm.host with log }, machine := m } := by
    rw [hfetch]
    exact bind_of_ok (onMachine_of_ok _ hm)
  rw [hstep, hexecute]
  exact ⟨_, rfl⟩

end Vm

end WordMachine

import WordMachine.Proofs.Vm.Footprint

/-!
# Where a step lands

The address that a step goes on at can be read off the machine before the step (`landing`), with all
arithmetic on addresses modulo 65536: transfers of control land on the address that they pop, a
return behind the call that left its address in the return register, and every other instruction
behind itself. `ip_of_landing` says so of every step that goes on, except for the call of an
extension, whose utility may set the instruction pointer.

Transfers store the address before their target, and the step adds one; `before_add_one` is why no
target is missed, 0 and 65535 included. What does not transfer control has been dealt with by
`ip_of_step`.

A call leaves its own address in the return register. As long as no step writes that register
(`SparesReturn`), it stays there, so a return lands behind the call (`reg_of_sparesReturn`).
-/

namespace WordMachine

/-! ## Transfers -/

namespace Machine

variable {m m' : Machine}

/-- One behind the address before a target is the target, modulo 65536. -/
theorem before_add_one (target : Word) : before target + 1 = target :=
  UInt16.sub_add_cancel target 1

/-- A jump sets the pointer just before the address it pops. -/
theorem exec_jump_eq_ok (h : exec .jump m = .ok () m') :
    ∃ target rest, m.stack.live = target :: rest ∧ m'.ip = before target := by
  obtain ⟨target, hlive, hjump⟩ := pop_bind_eq_ok h
  obtain ⟨-, rfl⟩ := EStateM.Result.ok.inj hjump
  exact ⟨target, _, hlive, rfl⟩

/-- So does a call, which leaves its own address in the return register. -/
theorem exec_call_eq_ok (h : exec .call m = .ok () m') :
    ∃ target rest, m.stack.live = target :: rest ∧ m'.ip = before target ∧
      m'.reg .returnAddress = m.ip := by
  obtain ⟨target, hlive, hcall⟩ := pop_bind_eq_ok h
  obtain ⟨-, rfl⟩ := EStateM.Result.ok.inj hcall
  refine ⟨target, _, hlive, rfl, ?_⟩
  exact reg_setReg_self (m.spend 1) .returnAddress m.ip

/-- A branch goes to the address on top if the word below it is zero, and on otherwise. -/
theorem exec_jumpIfZero_eq_ok (h : exec .jumpIfZero m = .ok () m') :
    ∃ target condition rest, m.stack.live = target :: condition :: rest ∧
      m'.ip = if condition = 0 then before target else m.ip := by
  obtain ⟨target, h₁, h⟩ := pop_bind_eq_ok h
  obtain ⟨condition, h₂, h⟩ := pop_bind_eq_ok h
  refine ⟨target, condition, _, h₁.trans (congrArg _ h₂), ?_⟩
  by_cases hzero : condition = 0
  · rw [if_pos hzero] at h ⊢
    obtain ⟨-, rfl⟩ := EStateM.Result.ok.inj h
    rfl
  · rw [if_neg hzero] at h ⊢
    obtain ⟨-, rfl⟩ := EStateM.Result.ok.inj h
    rfl

end Machine

namespace Vm

variable {vm vm' : Vm}

/-! ## The next address -/

/-- The address at which a machine goes on after its next instruction. -/
def landing (m : Machine) : Word :=
  match fetch m, m.stack.live with
  | .extended .jump, target :: _ => target
  | .extended .call, target :: _ => target
  | .extended .jumpIfZero, target :: condition :: _ => if condition = 0 then target else m.ip + 1
  | .extended .ret, _ => m.reg .returnAddress + 1
  | .extended .pushImm, _ => m.ip + 3
  | .extended .reset, _ => 0
  | _, _ => m.ip + 1

/-- Without a transfer of control, that is the byte behind the instruction and its operand. -/
theorem landing_of_not_transfers {m : Machine} (h : ¬ Transfers m) :
    landing m = m.ip + UInt16.ofNat (1 + (fetch m).immediateLength) := by
  cases hfetch : fetch m with
  | register op reg | unassigned b =>
    simp only [landing, hfetch]
    rfl
  | extended op =>
    cases op with
    | jump => exact absurd (.jump hfetch) h
    | call => exact absurd (.call hfetch) h
    | ret => exact absurd (.ret hfetch) h
    | reset => exact absurd (.reset hfetch) h
    | jumpIfZero =>
      cases hlive : m.stack.live with
      | nil =>
        simp only [landing, hfetch, hlive]
        rfl
      | cons target below =>
        cases below with
        | nil =>
          simp only [landing, hfetch, hlive]
          rfl
        | cons condition rest =>
          -- a zero below the target would make the branch a transfer
          have hne : condition ≠ 0 := by
            rintro rfl
            refine h (.branch hfetch (?_ : _ = rest.reverse ++ [0, target]))
            rw [← List.reverse_inj]
            simpa [Stack.live] using hlive
          simp only [landing, hfetch, hlive, if_neg hne]
          rfl
    | _ =>
      simp only [landing, hfetch]
      rfl

/-- A transfer of control lands on its target. -/
theorem ip_of_transfers (h : step vm = .ok .next vm') (htransfers : Transfers vm.machine)
    (hcall : vm.service? ≠ some .extension) : vm'.machine.ip = landing vm.machine := by
  -- all but the reset and the interrupt are operations of the machine
  have hstep {op : Opcode} (hfetch : fetch vm.machine = .extended op)
      (hop : IsOperation (.extended op)) : ∃ m, Machine.exec op vm.machine = .ok () m ∧
        vm'.machine.ip = m.ip + 1 := by
    obtain ⟨m, hm, hmachine⟩ := operation_of_step h (hfetch ▸ hop)
    rw [hfetch] at hm
    exact ⟨m, hm, by rw [hmachine]⟩
  cases htransfers with
  | reset hfetch =>
    rcases step_reset_cases rfl hfetch with ⟨img, log, -, hok⟩ | ⟨-, e, t, herror⟩
    · rw [hok] at h
      obtain ⟨-, rfl⟩ := EStateM.Result.ok.inj h
      simp only [landing, hfetch]
      rfl
    · rw [herror] at h
      cases h
  | jump hfetch =>
    obtain ⟨m, hm, hnext⟩ := hstep hfetch (by simp [IsOperation])
    obtain ⟨target, rest, hlive, hip⟩ := Machine.exec_jump_eq_ok hm
    simp only [landing, hfetch, hlive, hnext, hip, Machine.before_add_one]
  | call hfetch =>
    obtain ⟨m, hm, hnext⟩ := hstep hfetch (by simp [IsOperation])
    obtain ⟨target, rest, hlive, hip, -⟩ := Machine.exec_call_eq_ok hm
    simp only [landing, hfetch, hlive, hnext, hip, Machine.before_add_one]
  | branch hfetch =>
    obtain ⟨m, hm, hnext⟩ := hstep hfetch (by simp [IsOperation])
    obtain ⟨target, condition, rest, hlive, hip⟩ := Machine.exec_jumpIfZero_eq_ok hm
    simp only [landing, hfetch, hlive, hnext, hip]
    split
    · exact Machine.before_add_one target
    · rfl
  | ret hfetch =>
    obtain ⟨m, hm, hnext⟩ := hstep hfetch (by simp [IsOperation])
    obtain ⟨-, rfl⟩ := EStateM.Result.ok.inj hm
    simp only [landing, hfetch, hnext]
  | extension hfetch hstack =>
    -- this is the case that is excluded
    refine absurd ?_ hcall
    rw [service?_of_fetch hfetch, Stack.live, hstack, List.reverse_append]
    rfl

/-- A step that goes on, and calls no extension, lands where the machine said beforehand. -/
theorem ip_of_landing (h : step vm = .ok .next vm') (hcall : vm.service? ≠ some .extension) :
    vm'.machine.ip = landing vm.machine := by
  by_cases htransfers : Transfers vm.machine
  · exact ip_of_transfers h htransfers hcall
  · rw [ip_of_step h htransfers, landing_of_not_transfers htransfers]

/-! ## Calls and returns -/

/-- A step that calls leaves its own address in the return register. -/
theorem reg_of_call (h : step vm = .ok .next vm') (hfetch : fetch vm.machine = .extended .call) :
    vm'.machine.reg .returnAddress = vm.machine.ip := by
  obtain ⟨m, hm, hmachine⟩ := operation_of_step h (by simp [hfetch, IsOperation])
  rw [hfetch] at hm
  obtain ⟨target, rest, -, -, hreg⟩ := Machine.exec_call_eq_ok hm
  rw [hmachine]
  exact hreg

/-- A step goes on and does not write the return register. What an extension does to it can be told
by its value only. -/
structure SparesReturn (vm vm' : Vm) : Prop where
  goes_on : step vm = .ok .next vm'
  no_reset : fetch vm.machine ≠ .extended .reset
  no_write : (fetch vm.machine).target? ≠ some .returnAddress
  extension : vm.service? = some .extension →
    vm'.machine.reg .returnAddress = vm.machine.reg .returnAddress

/-- A step that does not write the return register keeps it. -/
theorem SparesReturn.reg_eq (h : SparesReturn vm vm') :
    vm'.machine.reg .returnAddress = vm.machine.reg .returnAddress := by
  by_cases hcall : vm.service? = some .extension
  · exact h.extension hcall
  · exact (footprint_of_step h.goes_on h.no_reset hcall).registers _ (by decide) (by decide)
      h.no_write

/-- So the register is the same after any number of such steps. -/
theorem reg_of_sparesReturn (h : Relation.ReflTransGen SparesReturn vm vm') :
    vm'.machine.reg .returnAddress = vm.machine.reg .returnAddress := by
  -- by induction on the steps between
  induction h with
  | refl => rfl
  | tail _ hstep ih => rw [hstep.reg_eq, ih]

/-- A step that goes on, and calls no extension, lands on `landing`: a jump, a taken branch and a
call on the address they pop, a return behind the address in the return register, a push of an
immediate behind its operand, a reset at 0, and everything else behind itself. A call leaves its own
address in the return register, so if no step from there to a return writes that register, the
return lands behind the call. A step that halts stays where it is. -/
theorem step_lands_on_target :
    (∀ vm vm' : Vm, step vm = .ok .next vm' → vm.service? ≠ some .extension →
      vm'.machine.ip = landing vm.machine) ∧
    (∀ vm vm' : Vm, step vm = .ok .next vm' → fetch vm.machine = .extended .call →
      vm'.machine.reg .returnAddress = vm.machine.ip) ∧
    (∀ vm₁ vm₂ vm₃ vm₄ : Vm, fetch vm₁.machine = .extended .call → step vm₁ = .ok .next vm₂ →
      Relation.ReflTransGen SparesReturn vm₂ vm₃ → fetch vm₃.machine = .extended .ret →
      step vm₃ = .ok .next vm₄ → vm₄.machine.ip = vm₁.machine.ip + 1) ∧
    ∀ vm vm' : Vm, step vm = .ok .halt vm' →
      fetch vm.machine = .extended .halt ∧ vm'.machine.ip = vm.machine.ip := by
  refine ⟨fun _ _ => ip_of_landing, fun _ _ => reg_of_call, ?_, ?_⟩
  · -- the register at the return is the one that the call left
    intro vm₁ vm₂ vm₃ vm₄ hcall h₁₂ hrun hret h₃₄
    have hservice : vm₃.service? ≠ some .extension := by simp [service?, hret]
    have hland : landing vm₃.machine = vm₃.machine.reg .returnAddress + 1 := by
      simp only [landing, hret]
    rw [ip_of_landing h₃₄ hservice, hland, reg_of_sparesReturn hrun, reg_of_call h₁₂ hcall]
  · intro vm vm' h
    -- of all instructions only the halt ends in a halt
    by_cases hreset : fetch vm.machine = .extended .reset
    · rcases step_reset_cases rfl hreset with ⟨img, log, -, hok⟩ | ⟨-, e, t, herror⟩
      · rw [hok] at h
        cases h
      · rw [herror] at h
        cases h
    obtain ⟨log, ⟨-, hne, -⟩ | ⟨hfetch, -, console, -, rfl⟩ | ⟨hne, -⟩⟩ := step_cases h hreset
    · cases hne
    · exact ⟨hfetch, rfl⟩
    · cases hne

/-- A subroutine at 5 that is called from 3, does nothing and returns: the call lands on 5, the
return on 4, where the program halts. -/
theorem step_lands_on_target_subroutine :
    let code : Segment UInt8 := (((((Segment.fill 0).set 0 5).set 2 5).set 3 6).set 4 4).set 6 7
    let vm : Vm := ofImage ⟨code, .fill 0⟩
      ⟨.ofSink (.capture .unlimited), .ofPath "save", .ofDirs [], []⟩ ⟨.empty, .empty⟩
    let run (n : Nat) : Vm := after (List.replicate n .step) vm
    (run 1).machine.ip = 3 ∧ (run 2).machine.ip = 5 ∧ (run 2).machine.reg .returnAddress = 3 ∧
      (run 4).machine.ip = 4 ∧ (run 5).machine.ip = 4 := by
  intro code vm run
  -- a state of the run and the next one are a step apart, by evaluation of how the step ends
  have hends (n : Nat) (outcome : Outcome)
      (h : (match step (run n) with | .ok o _ => some o | .error _ _ => none) = some outcome) :
      step (run n) = .ok outcome (run (n + 1)) := by
    have hnext : run (n + 1) = stateOf (step (run n)) := by
      show after (List.replicate (n + 1) .step) vm = _
      rw [List.replicate_succ', after_append]
      rfl
    rw [hnext]
    cases hstep : step (run n) with
    | error e t =>
      rw [hstep] at h
      cases h
    | ok o t =>
      rw [hstep] at h
      obtain rfl := Option.some.inj h
      rfl
  obtain ⟨hland, hcall, hreturn, hhalt⟩ := step_lands_on_target
  have h₁ := hends 0 .next (by decide +kernel)
  have h₂ := hends 1 .next (by decide +kernel)
  have h₃ := hends 2 .next (by decide +kernel)
  have h₄ := hends 3 .next (by decide +kernel)
  have h₅ := hends 4 .halt (by decide +kernel)
  have hspares : SparesReturn (run 2) (run 3) :=
    ⟨h₃, by decide +kernel, by decide +kernel, fun h => absurd h (by decide +kernel)⟩
  have hip : (run 1).machine.ip = 3 := by
    rw [hland _ _ h₁ (by decide +kernel)]
    decide +kernel
  have hback : (run 4).machine.ip = 4 := by
    rw [hreturn _ _ _ _ (by decide +kernel) h₂ (.single hspares) (by decide +kernel) h₄, hip]
    rfl
  refine ⟨hip, ?_, ?_, hback, ?_⟩
  · rw [hland _ _ h₂ (by decide +kernel)]
    decide +kernel
  · rw [hcall _ _ h₂ (by decide +kernel), hip]
  · rw [(hhalt _ _ h₅).2, hback]

end Vm

end WordMachine

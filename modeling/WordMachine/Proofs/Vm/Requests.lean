import WordMachine.Proofs.Vm.Advance
import WordMachine.Proofs.Vm.Failure

/-!
# What the next step asks for

A step reaches the services through the interrupt alone, and which service it asks for can be read
off the machine beforehand: `service?` is that of the selector on top of the stack, `operands` the
words below it.

A step that asks for no service keeps what the operations of the machine, a flush and a reset keep
(`preserves_of_no_service`). A step that asks for one does what the service does to everything but
the machine (`exists_step_serve`). So a property that does not speak of the machine has only to be
looked at service by service.
-/

namespace WordMachine

/-- A pop finds the stack empty, or spends its top word. -/
theorem Machine.pop_cases (m : Machine) :
    m.stack.live = [] ∧ pop m = .error .stackUnderflow m ∨
      ∃ w, m.stack.live = w :: (m.spend 1).stack.live ∧ pop m = .ok w (m.spend 1) := by
  rcases Stack.pop_cases m.stack with ⟨w, s, hpop, hlive⟩ | ⟨hempty, hpop⟩
  · have hok : pop m = .ok w { m with stack := s } := onStack_of_ok hpop
    have hspend : ({ m with stack := s } : Machine) = m.spend 1 := (pop_eq_ok hok).2
    refine .inr ⟨w, ?_, hspend ▸ hok⟩
    rw [← hspend]
    exact hlive
  · exact .inl ⟨hempty, onStack_of_error hpop⟩

/-- One word spent leaves what stands below the top. -/
theorem Machine.live_spend_one (m : Machine) : (m.spend 1).stack.live = m.stack.live.tail := by
  rcases m.pop_cases with ⟨hempty, -⟩ | ⟨w, hlive, -⟩
  · have hdepth : (m.spend 1).stack.depth = m.stack.depth - 1 := rfl
    have hzero : m.stack.live.length = 0 := by rw [hempty, List.length_nil]
    rw [Stack.length_live] at hzero
    rw [hempty, List.tail_nil, ← List.length_eq_zero_iff, Stack.length_live, hdepth, hzero]
  · rw [hlive, List.tail_cons]

/-- A pop of a stack whose top word is known. -/
theorem Machine.pop_of_live {m : Machine} {w : Word} {lower : List Word}
    (h : m.stack.live = w :: lower) : pop m = .ok w (m.spend 1) := by
  rcases m.pop_cases with ⟨hempty, -⟩ | ⟨w', hlive, hpop⟩
  · rw [h] at hempty
    cases hempty
  · obtain ⟨rfl, -⟩ := List.cons.inj (h.symm.trans hlive)
    exact hpop

/-- The same, for a stack whose top word is known. -/
theorem Machine.live_spend_of_live {m : Machine} {w : Word} {lower : List Word}
    (h : m.stack.live = w :: lower) : (m.spend 1).stack.live = lower := by
  rw [live_spend_one, h, List.tail_cons]

namespace Vm

/-- What begins with a pop fails at once, or goes on with the top word. -/
theorem pop_bind_cases {α : Type} (vm : Vm) (k : Word → Op α) :
    vm.machine.stack.live = [] ∧ (pop >>= k) vm = .error .stackUnderflow vm ∨
      ∃ w, vm.machine.stack.live = w :: (vm.machine.spend 1).stack.live ∧
        (pop >>= k) vm = k w { vm with machine := vm.machine.spend 1 } := by
  rcases vm.machine.pop_cases with ⟨hempty, hm⟩ | ⟨w, hlive, hm⟩
  · have hpop : pop vm = .error .stackUnderflow vm := onMachine_of_error vm hm
    exact .inl ⟨hempty, bind_of_error hpop⟩
  · have hpop : pop vm = .ok w { vm with machine := vm.machine.spend 1 } := onMachine_of_ok vm hm
    exact .inr ⟨w, hlive, bind_of_ok hpop⟩

/-- The service that the next step asks for, if it does: an interrupt is next, and its selector is
assigned. -/
def service? (vm : Vm) : Option Service :=
  match fetch vm.machine with
  | .extended .interrupt => vm.machine.stack.live.head?.bind Service.ofSelector?
  | _ => none

/-- What stands below the selector of an interrupt, the top first. -/
def operands (vm : Vm) : List Word := vm.machine.stack.live.tail

/-- At an interrupt the service is that of the top word. -/
theorem service?_of_fetch {vm : Vm} (h : fetch vm.machine = .extended .interrupt) :
    vm.service? = vm.machine.stack.live.head?.bind Service.ofSelector? := by
  rw [service?, h]

/-- A service is asked for by an interrupt only. -/
theorem fetch_of_service? {vm : Vm} {service : Service} (h : vm.service? = some service) :
    fetch vm.machine = .extended .interrupt := by
  unfold service? at h
  split at h
  · assumption
  · cases h

/-- A step does what its instruction does, to everything but the machine. -/
theorem exists_stateOf_step (vm : Vm) : ∃ (log : Log) (m : Machine), stateOf (step vm) =
    { stateOf (execute (fetch vm.machine) { vm with host := { vm.host with log } }) with
      machine := m } := by
  obtain ⟨log, hstep⟩ := exists_step_eq vm
  rw [hstep]
  split
  · -- the step goes on
    rename_i t ht
    exact ⟨log, _, by rw [ht]; rfl⟩
  · -- it halts
    rename_i t ht
    exact ⟨log, t.machine, by rw [ht]; rfl⟩
  · -- it fails
    rename_i e t ht
    exact ⟨log, t.machine, by rw [ht]; rfl⟩

/-- A step that asks for no service works on the machine, flushes or resets. -/
theorem preserves_of_no_service {p : Vm → Prop} (hreset : Preserves p reset)
    (hflush : Preserves p (onConsole Console.flush))
    (hmachine : ∀ {α : Type} (act : Machine.Op α), Preserves p (onMachine act))
    (hlog : ∀ vm log, p vm → p { vm with host := { vm.host with log } }) {vm : Vm}
    (hservice : vm.service? = none) (hvm : p vm) : p (stateOf (step vm)) := by
  obtain ⟨log, m, hstep⟩ := exists_stateOf_step vm
  let vm₁ : Vm := { vm with host := { vm.host with log } }
  have hvm₁ : p vm₁ := hlog vm log hvm
  have hexecute : p (stateOf (execute (fetch vm.machine) vm₁)) := by
    -- an interrupt that asks for no service pops its selector and fails
    by_cases hfetch : fetch vm.machine = .extended .interrupt
    · rw [service?_of_fetch hfetch] at hservice
      rw [hfetch]
      have hpop : p (stateOf (pop vm₁)) := hmachine _ vm₁ hvm₁
      -- the selector is missing, or it is not assigned
      have hinterrupt : ∃ e, interrupt vm₁ = .error e (stateOf (pop vm₁)) := by
        rcases vm.machine.pop_cases with ⟨-, hm⟩ | ⟨selector, hlive, hm⟩
        · have hpop₁ : pop vm₁ = .error _ _ := onMachine_of_error vm₁ hm
          exact ⟨_, by rw [interrupt, bind_of_error hpop₁, hpop₁]; rfl⟩
        · have hpop₁ : pop vm₁ = .ok selector _ := onMachine_of_ok vm₁ hm
          have hnone : Service.ofSelector? selector = none := by
            rw [hlive] at hservice
            exact hservice
          exact ⟨_, by rw [interrupt, bind_of_ok hpop₁, hnone, hpop₁]; rfl⟩
      obtain ⟨e, hinterrupt⟩ := hinterrupt
      have hexec : execute (.extended .interrupt) vm₁ = .error e (stateOf (pop vm₁)) :=
        bind_of_error hinterrupt
      rw [hexec]
      exact hpop
    · exact preserves_execute_of_ne hreset hflush hmachine hfetch vm₁ hvm₁
  rw [hstep]
  exact hmachine (fun _ => .ok () m) _ hexecute

/-- A step that asks for a service does what the service does, to everything but the machine. -/
theorem exists_step_serve {vm : Vm} {service : Service} (h : vm.service? = some service) :
    ∃ (log : Log) (m : Machine), stateOf (step vm) =
      { stateOf (serve service { vm with
          machine := vm.machine.spend 1
          host := { vm.host with log } }) with machine := m } := by
  obtain ⟨log, m, hstep⟩ := exists_stateOf_step vm
  refine ⟨log, m, hstep.trans ?_⟩
  have hfetch := fetch_of_service? h
  rw [service?_of_fetch hfetch] at h
  rcases vm.machine.pop_cases with ⟨hempty, -⟩ | ⟨selector, hlive, hpop⟩
  · -- no selector, so no service
    rw [hempty] at h
    cases h
  · rw [hlive] at h
    let vm₁ : Vm := { vm with host := { vm.host with log } }
    have hpop₁ : pop vm₁ = .ok selector _ := onMachine_of_ok vm₁ hpop
    have hinterrupt : interrupt vm₁ = serve service { vm₁ with machine := vm.machine.spend 1 } := by
      have hservice : Service.ofSelector? selector = some service := h
      rw [interrupt, bind_of_ok hpop₁, hservice]
    have hexecute : stateOf (execute (.extended .interrupt) vm₁) = stateOf (interrupt vm₁) :=
      stateOf_bind_pure fun _ => Outcome.next
    rw [hfetch, hexecute, hinterrupt]

end Vm

end WordMachine

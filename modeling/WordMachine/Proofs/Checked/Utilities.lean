import WordMachine.Proofs.Checked.Mirroring

/-!
# Utilities without traps

A utility that works on the checked machine sees what it sees on the machine, request by request:
at once for a utility of the host (`Builtin.mirrors_run`), and through the bridge (`drive_raw`,
`mirrors_runBridged`). A utility is any tree of requests, and it may write any word to any register
and any address; no request leads to a trap.
-/

namespace WordMachine

namespace RawMachine

open Utility (Scope)

variable {α : Type} {act : Op α} {x : α} {m : RawMachine} {e : Stop}

/-- An action of the checked machine with a result, on behalf of a utility. -/
theorem onScope_of_ok {s : Scope RawMachine} (h : act s.machine = .ok x m) :
    onScope act s = .ok x { s with machine := m } := by
  simp only [onScope, h]

/-- The same for an action that stops. -/
theorem onScope_of_error {s : Scope RawMachine} (h : act s.machine = .error e m) :
    onScope act s = .error e { s with machine := m } := by
  simp only [onScope, h]

/-- An action with a result, behind the bridge. -/
theorem onBridge_of_ok {b : Bridge RawMachine} (h : act b.scope.machine = .ok x m) :
    onBridge act b = .ok x { b with scope := { b.scope with machine := m } } := by
  simp only [onBridge, onScope_of_ok h]

/-- The same for an action that stops. -/
theorem onBridge_of_error {b : Bridge RawMachine} (h : act b.scope.machine = .error e m) :
    onBridge act b = .error e { b with scope := { b.scope with machine := m } } := by
  simp only [onBridge, onScope_of_error h]

/-! What is left to do once the requests have been served. -/

section

variable {u : Utility} {s : Scope RawMachine} {r : RegisterFile} {b : Bridge RawMachine}
  (hregs : registers s.machine = .ok r s.machine) (hdrive : drive u ⟨s, r, none⟩ = .ok () b)

include hregs hdrive

/-- A fault that the bridge remembers is that of the call, and no register is written back. -/
theorem runBridged_of_fault {e : Fault} (h : b.fault = some e) :
    runBridged u s = .error (.fault e) b.scope := by
  have hget : (get : EStateM Stop (Scope RawMachine) (Scope RawMachine)) s = .ok s s := rfl
  refine (bind_of_ok (onScope_of_ok hregs)).trans ((bind_of_ok hget).trans ?_)
  simp only [hdrive, h]
  rfl

/-- Without a fault, the copy of the registers is written back. -/
theorem runBridged_of_none (h : b.fault = none)
    (hset : setRegisters b.regs b.scope.machine = .ok () m) :
    runBridged u s = .ok () { b.scope with machine := m } := by
  have hget : (get : EStateM Stop (Scope RawMachine) (Scope RawMachine)) s = .ok s s := rfl
  refine (bind_of_ok (onScope_of_ok hregs)).trans ((bind_of_ok hget).trans ?_)
  simp only [hdrive, h]
  have hput : (set b.scope : EStateM Stop (Scope RawMachine) PUnit) s = .ok ⟨⟩ b.scope := rfl
  exact (bind_of_ok hput).trans (onScope_of_ok hset)

end

end RawMachine

namespace Utility

variable {α : Type}

/-- An action on the machine of a scope is mirrored if it is on the machine itself. -/
theorem mirrors_onMachine {act : Machine.Op α} {act' : RawMachine.Op α} {s : Scope}
    (h : Mirrors Machine.raw act act' s.machine) :
    Mirrors (Scope.map Machine.raw) (onMachine act) (RawMachine.onScope act') s := by
  cases hact : act s.machine with
  | ok x m =>
    exact mirrors_of_ok (onMachine_of_ok hact)
      (RawMachine.onScope_of_ok (s := s.map Machine.raw) (h.of_ok hact))
  | error e m =>
    exact mirrors_of_error (onMachine_of_error hact)
      (RawMachine.onScope_of_error (s := s.map Machine.raw) (h.of_error hact))

/-- So is a change of the machine. -/
theorem mirrors_modifyMachine {g : Machine → Machine} {act' : RawMachine.Op Unit} {s : Scope}
    (h : act' s.machine.raw = .ok () (g s.machine).raw) :
    Mirrors (Scope.map Machine.raw) (modifyMachine g) (RawMachine.onScope act') s :=
  mirrors_modify (RawMachine.onScope_of_ok (s := s.map Machine.raw) h)

/-- The checked machine answers a request alike: with the result, or with the fault. -/
theorem mirrors_attempt {act : Op α} {act' : EStateM Stop (Scope RawMachine) α} {s : Scope}
    (h : Mirrors (Scope.map Machine.raw) act act' s) :
    Mirrors (Scope.map Machine.raw) (attempt act) (RawMachine.attempt act') s := by
  cases hact : act s with
  | ok x t =>
    refine mirrors_of_ok (x := .ok x) (t := t) (by simp only [attempt, answer_of_ok hact]) ?_
    simp only [RawMachine.attempt, h.of_ok hact]
  | error e t =>
    refine mirrors_of_ok (x := .error e) (t := t) (by simp only [attempt, answer_of_error hact]) ?_
    simp only [RawMachine.attempt, h.of_error hact]

end Utility

/-! ## Served at once -/

namespace Builtin

open Utility

/-- A utility of the host has the same outcome on the checked machine. -/
theorem mirrors_run (b : Builtin) (s : Scope) :
    Mirrors (Scope.map Machine.raw) b.run (RawMachine.runBuiltin b) s := by
  -- request by request, with the scope that the requests before have left
  induction b generalizing s with
  | done result =>
    cases result with
    | ok _ => exact mirrors_pure ()
    | error e => exact mirrors_throw e
  | pop next ih =>
    have hpop := mirrors_onMachine (s := s) (Machine.mirrors_pop s.machine)
    exact (mirrors_attempt hpop).bind fun r t _ => ih r t
  | push w next ih =>
    have hpush := mirrors_onMachine (s := s) (Machine.mirrors_push w s.machine)
    exact (mirrors_attempt hpush).bind fun r t _ => ih r t
  | read a next ih =>
    exact mirrors_get_bind (mirrors_read_bind
      (RawMachine.onScope_of_ok (Machine.readData_raw s.machine a)) (ih _ s))
  | write a w next ih =>
    have hwrite : Mirrors (Scope.map Machine.raw) (modifyMachine fun m => Target.write m a w)
        (RawMachine.onScope (RawMachine.writeData a w)) s :=
      mirrors_modifyMachine (Machine.writeData_raw s.machine a w)
    exact hwrite.bind fun _ t _ => ih t
  | string a next ih =>
    exact mirrors_get_bind (mirrors_read_bind
      (RawMachine.onScope_of_ok (Machine.stringAt_raw s.machine a)) (ih _ s))
  | registers next ih =>
    exact mirrors_get_bind (mirrors_read_bind
      (RawMachine.onScope_of_ok (Machine.registers_raw s.machine)) (ih _ s))
  | setRegisters r next ih =>
    have hset : Mirrors (Scope.map Machine.raw) (modifyMachine fun m => Target.setRegisters m r)
        (RawMachine.onScope (RawMachine.setRegisters r)) s :=
      mirrors_modifyMachine (Machine.setRegisters_raw s.machine r)
    exact hset.bind fun _ t _ => ih t
  | enter a next ih => exact ih _ s
  | print text next ih => exact (mirrors_modify rfl).bind fun _ t _ => ih t
  | note o next ih => exact (mirrors_modify rfl).bind fun _ t _ => ih t

end Builtin

/-! ## Through the bridge -/

namespace Bridge

open Utility (Target Scope)

/-- Bringing the stack pointer up to date takes it from a copy of all registers. -/
theorem syncPointer_raw (b : Bridge) :
    RawMachine.syncPointer (b.map Machine.raw) = .ok () (b.syncStackPointer.map Machine.raw) := by
  have hread : b.scope.machine.registers.read .stackPointer = b.scope.machine.stack.pointer :=
    Machine.read_registers b.scope.machine .stackPointer
  unfold RawMachine.syncPointer
  rw [bind_of_ok (RawMachine.onBridge_of_ok (b := b.map Machine.raw)
    (Machine.registers_raw b.scope.machine))]
  change EStateM.Result.ok () _ = _
  rw [hread]
  rfl

/-- A stack request through the bridge: the answer is the same, and so is the fault remembered. -/
theorem onStack_raw {α : Type} {act : Machine.Op α} {act' : RawMachine.Op α} {b : Bridge}
    (h : Mirrors Machine.raw act act' b.scope.machine) (otherwise : α) :
    RawMachine.onBridgeStack act' otherwise (b.map Machine.raw) =
      .ok (b.onStack act otherwise).1 ((b.onStack act otherwise).2.map Machine.raw) := by
  unfold RawMachine.onBridgeStack
  cases hact : act b.scope.machine with
  | ok x m =>
    rw [RawMachine.onBridge_of_ok (b := b.map Machine.raw) (h.of_ok hact),
      onStack_of_ok (Utility.onMachine_of_ok hact)]
    exact bind_of_ok (syncPointer_raw ⟨⟨m, b.scope.notes, b.scope.printed⟩, b.regs, b.fault⟩)
  | error e m =>
    rw [RawMachine.onBridge_of_error (b := b.map Machine.raw) (h.of_error hact),
      onStack_of_error (Utility.onMachine_of_error hact)]
    rfl

end Bridge

namespace Utility

/-- All requests are served through the bridge, and the checked machine is never in the way. -/
theorem drive_raw (u : Utility) (b : Bridge) :
    RawMachine.drive u (b.map Machine.raw) =
      .ok () ((u.drive Target.stringAt b).map Machine.raw) := by
  -- request by request; a fault is remembered and does not stop the utility
  induction u generalizing b with
  | done => rfl
  | pop next ih =>
    rw [drive_pop]
    exact (bind_of_ok (Bridge.onStack_raw (Machine.mirrors_pop b.scope.machine) 0)).trans (ih _ _)
  | push w next ih =>
    rw [drive_push]
    exact (bind_of_ok (Bridge.onStack_raw (Machine.mirrors_push w b.scope.machine) ())).trans (ih _)
  | read a next ih =>
    exact (bind_of_ok (RawMachine.onBridge_of_ok (b := b.map Machine.raw)
      (Machine.readData_raw b.scope.machine a))).trans (ih _ b)
  | write a w next ih =>
    refine (bind_of_ok (RawMachine.onBridge_of_ok (b := b.map Machine.raw)
      (Machine.writeData_raw b.scope.machine a w))).trans ?_
    exact ih { b with scope := { b.scope with machine := Target.write b.scope.machine a w } }
  | string a next ih =>
    exact (bind_of_ok (RawMachine.onBridge_of_ok (b := b.map Machine.raw)
      (Machine.stringAt_raw b.scope.machine a))).trans (ih _ b)
  | registers next ih => exact ih _ b
  | setRegisters r next ih => exact ih { b with regs := r }
  | enter a next ih => exact ih (b.record (.reentryUnsupported a))
  | print text next ih =>
    exact ih { b with scope := { b.scope with printed := b.scope.printed ++ text } }
  | note o next ih =>
    exact ih { b with scope := { b.scope with notes := b.scope.notes.push o } }

/-- Through the bridge, a utility has the same outcome on the checked machine. -/
theorem mirrors_runBridged (u : Utility) (s : Scope) :
    Mirrors (Scope.map Machine.raw) u.runBridged (RawMachine.runBridged u) s := by
  have hregs : RawMachine.registers (s.map Machine.raw).machine =
      .ok s.machine.registers (s.map Machine.raw).machine := Machine.registers_raw s.machine
  have hdrive : RawMachine.drive u ⟨s.map Machine.raw, s.machine.registers, none⟩ =
      .ok () ((u.drive Target.stringAt (.ofScope s)).map Machine.raw) := drive_raw u (.ofScope s)
  cases hfault : (u.drive Target.stringAt (.ofScope s)).fault with
  | some e =>
    exact mirrors_of_error (runBridgedWith_of_fault hfault)
      (RawMachine.runBridged_of_fault hregs hdrive hfault)
  | none =>
    exact mirrors_of_ok (runBridgedWith_of_none hfault)
      (RawMachine.runBridged_of_none hregs hdrive hfault (Machine.setRegisters_raw _ _))

end Utility

/-- A call of a utility has the same outcome on the checked machine. -/
theorem Entry.mirrors_run (entry : Entry) (s : Utility.Scope) :
    Mirrors (Utility.Scope.map Machine.raw) entry.run (RawMachine.runEntry entry) s := by
  cases entry with
  | builtin b => exact b.mirrors_run s
  | bridged u => exact u.mirrors_runBridged s

end WordMachine

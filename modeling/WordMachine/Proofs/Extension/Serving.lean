import WordMachine.Extension.Bridge
import WordMachine.Extension.Builtin
import WordMachine.Proofs.Action

/-!
# Serving one request

What each request of a utility does to the state it is served on, for both ways of serving and any
kind of machine. A utility of the host is told the fault of a request (`answer_of_ok`,
`answer_of_error`); one that passes it on stops there (`runDirect_pop`, `runDirect_push`). The
bridge remembers a fault and goes on (`onStack_of_ok`, `onStack_of_error`), to decide at the end
whether the copy of the registers is written back (`runBridgedWith_of_fault`,
`runBridgedWith_of_none`). On the machine itself, a stack request changes the stack and nothing else
(`onMachine_onStack_cases`).
-/

namespace WordMachine

namespace Utility

section

variable {α M : Type} {act : EStateM Fault M α} {s : Scope M} {m : M}

/-- An action on the machine that succeeds changes the machine of the scope. -/
theorem onMachine_of_ok {x : α} (h : act s.machine = .ok x m) :
    onMachine act s = .ok x { s with machine := m } := by
  simp only [onMachine, h]

/-- So does one that faults. -/
theorem onMachine_of_error {e : Fault} (h : act s.machine = .error e m) :
    onMachine act s = .error e { s with machine := m } := by
  simp only [onMachine, h]

end

/-! ## At once -/

section

variable {α M : Type} {act : OpOn M α} {s t : Scope M}

/-- The answer to a request that succeeds is its result. -/
theorem answer_of_ok {x : α} (h : act s = .ok x t) : answer act s = (.ok x, t) := by
  simp only [answer, h]

/-- The answer to a request that fails is its fault. -/
theorem answer_of_error {e : Fault} (h : act s = .error e t) : answer act s = (.error e, t) := by
  simp only [answer, h]

end

end Utility

namespace Builtin

open Utility

variable {M : Type} [Target M]

/-- A utility of the host goes on with the answer to a pop. -/
theorem run_pop (next : Except Fault Word → Builtin) (s : Scope M) :
    (pop next).run s =
      (next (answer (onMachine Target.pop) s).1).run (answer (onMachine Target.pop) s).2 := rfl

/-- A utility of the host goes on with the answer to a push. -/
theorem run_push (w : Word) (next : Except Fault Unit → Builtin) (s : Scope M) :
    (push w next).run s =
      (next (answer (onMachine (Target.push w)) s).1).run
        (answer (onMachine (Target.push w)) s).2 := rfl

end Builtin

namespace Utility

variable {α M : Type} [Target M]

/-- A utility goes on with the word popped, and stops where the stack is empty. -/
theorem runDirect_pop (next : Word → Utility) (s : Scope M) :
    (pop next).runDirect s =
      match onMachine Target.pop s with
      | .ok w t => (next w).runDirect t
      | .error e t => .error e t := by
  rw [runDirect, toBuiltin, Builtin.run_pop]
  cases h : onMachine Target.pop s with
  | ok w t =>
    rw [answer_of_ok h]
    rfl
  | error e t =>
    rw [answer_of_error h]
    rfl

/-- A utility goes on after a push, and stops where the stack is full. -/
theorem runDirect_push (w : Word) (next : Utility) (s : Scope M) :
    (push w next).runDirect s =
      match onMachine (Target.push w) s with
      | .ok () t => next.runDirect t
      | .error e t => .error e t := by
  rw [runDirect, toBuiltin, Builtin.run_push]
  cases h : onMachine (Target.push w) s with
  | ok _ t =>
    rw [answer_of_ok h]
    rfl
  | error e t =>
    rw [answer_of_error h]
    rfl

/-- Reading a word cannot fail. -/
theorem runDirect_read (a : Word) (next : Word → Utility) (s : Scope M) :
    (read a next).runDirect s = (next (Target.read s.machine a)).runDirect s := rfl

/-- Reading a string cannot fail, and the string is there. -/
theorem runDirect_string (a : Word) (next : Option String → Utility) (s : Scope M) :
    (string a next).runDirect s = (next (some (Target.stringAt s.machine a))).runDirect s := rfl

/-- The registers are those of the machine itself. -/
theorem runDirect_registers (next : RegisterFile → Utility) (s : Scope M) :
    (registers next).runDirect s = (next (Target.registers s.machine)).runDirect s := rfl

end Utility

/-! ## Through the bridge -/

namespace Bridge

variable {α M : Type} [Utility.Target M] {act : EStateM Fault M α} {b : Bridge M}

/-- After a stack request that succeeds, the bridge brings the stack pointer of its copy up to date.
-/
theorem onStack_of_ok {x otherwise : α} {t : Utility.Scope M}
    (h : Utility.onMachine act b.scope = .ok x t) :
    b.onStack act otherwise = (x, syncStackPointer ⟨t, b.regs, b.fault⟩) := by
  obtain ⟨scope, regs, fault⟩ := b
  simp only [onStack, h]

/-- After one that faults, the bridge remembers the fault and answers otherwise. -/
theorem onStack_of_error {e : Fault} {otherwise : α} {t : Utility.Scope M}
    (h : Utility.onMachine act b.scope = .error e t) :
    b.onStack act otherwise = (otherwise, record ⟨t, b.regs, b.fault⟩ e) := by
  obtain ⟨scope, regs, fault⟩ := b
  simp only [onStack, h]

end Bridge

namespace Utility

variable {α M : Type} [Target M]

/-- The bridge goes on after a pop, whatever came of it. -/
theorem drive_pop (strings : M → Word → String) (next : Word → Utility) (b : Bridge M) :
    (pop next).drive strings b =
      (next (b.onStack Target.pop 0).1).drive strings (b.onStack Target.pop 0).2 := rfl

/-- The bridge goes on after a push, whatever came of it. -/
theorem drive_push (strings : M → Word → String) (w : Word) (next : Utility) (b : Bridge M) :
    (push w next).drive strings b = next.drive strings (b.onStack (Target.push w) ()).2 := rfl

section

variable {strings : M → Word → String} {u : Utility} {s : Scope M}

/-- If a fault was remembered, it is the outcome, and the copy of the registers is dropped. -/
theorem runBridgedWith_of_fault {e : Fault} (h : (u.drive strings (.ofScope s)).fault = some e) :
    u.runBridgedWith strings s = .error e (u.drive strings (.ofScope s)).scope := by
  simp only [runBridgedWith, h]

/-- If none was, the copy of the registers is written back. -/
theorem runBridgedWith_of_none (h : (u.drive strings (.ofScope s)).fault = none) :
    let b := u.drive strings (.ofScope s)
    u.runBridgedWith strings s =
      .ok () { b.scope with machine := Target.setRegisters b.scope.machine b.regs } := by
  simp only [runBridgedWith, h]

end

/-! ## Stack requests on the machine -/

/-- Popping off the machine is popping off its stack. -/
theorem target_pop : (Target.pop : EStateM Fault Machine Word) = Machine.onStack Stack.pop := rfl

/-- Pushing on the machine is pushing on its stack. -/
theorem target_push (w : Word) :
    (Target.push w : EStateM Fault Machine Unit) = Machine.onStack (Stack.push w) := rfl

/-- The scope with another operand stack. -/
def Scope.withStack (s : Scope) (st : Stack) : Scope :=
  { s with machine := { s.machine with stack := st } }

/-- The scope with one data word replaced. -/
def Scope.withData (s : Scope) (a w : Word) : Scope :=
  { s with machine := { s.machine with data := s.machine.data.set a w } }

/-- The scope with all registers written. -/
def Scope.withRegisters (s : Scope) (r : RegisterFile) : Scope :=
  { s with machine := s.machine.setRegisters r }

variable {act : Stack.Op α} {s : Scope} {st : Stack}

/-- A stack action that succeeds leaves a scope with the new stack. -/
theorem onMachine_onStack_of_ok {x : α} (h : act s.machine.stack = .ok x st) :
    onMachine (Machine.onStack act) s = .ok x (s.withStack st) := by
  obtain ⟨⟨code, data, stack, general, ip⟩, notes, printed⟩ := s
  simp only at h
  simp only [onMachine, Machine.onStack, h]
  rfl

/-- A stack action that faults leaves a scope with the stack that it left. -/
theorem onMachine_onStack_of_error {e : Fault} (h : act s.machine.stack = .error e st) :
    onMachine (Machine.onStack act) s = .error e (s.withStack st) := by
  obtain ⟨⟨code, data, stack, general, ip⟩, notes, printed⟩ := s
  simp only at h
  simp only [onMachine, Machine.onStack, h]
  rfl

/-- A stack action on a scope changes the stack only. -/
theorem onMachine_onStack_cases (act : Stack.Op α) (s : Scope) :
    (∃ x st, onMachine (Machine.onStack act) s = .ok x (s.withStack st)) ∨
    (∃ e st, onMachine (Machine.onStack act) s = .error e (s.withStack st)) := by
  cases h : act s.machine.stack with
  | ok x st => exact .inl ⟨x, st, onMachine_onStack_of_ok h⟩
  | error e st => exact .inr ⟨e, st, onMachine_onStack_of_error h⟩

/-- Whatever a stack request answers, it leaves the scope with another stack. -/
theorem exists_answer_onStack (act : Stack.Op α) (s : Scope) :
    ∃ r st, answer (onMachine (Machine.onStack act)) s = (r, s.withStack st) := by
  rcases onMachine_onStack_cases act s with ⟨x, st, h⟩ | ⟨e, st, h⟩
  · exact ⟨.ok x, st, answer_of_ok h⟩
  · exact ⟨.error e, st, answer_of_error h⟩

end Utility

end WordMachine

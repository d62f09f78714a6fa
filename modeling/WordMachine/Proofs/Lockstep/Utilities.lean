import WordMachine.Proofs.Lockstep.Instructions
import WordMachine.Extension.Loader

/-!
# Utilities on slots and on the list

A utility sees a machine only through what a `Target` offers, and the view of a machine offers the
same: the same words, strings and registers, register 31 included. Only one request tells them
apart: a register file set with another stack pointer moves the depth on the slots, and is ignored
on the list. `Entry.KeepsPointer` says that a call makes no such request. Then it has the same
outcome on the machine and on its view, at once for a utility of the host (`Builtin.commutes_run`)
or through the bridge (`commutes_runBridged`).
-/

namespace WordMachine

/-! ## The view as a target -/

namespace Machine

open Utility (Target)

/-- The list has the same register file. -/
theorem registers_view (m : Machine) : Target.registers m.view = Target.registers m := by
  change Vector.ofFn m.view.reg = Vector.ofFn m.reg
  congr 1
  exact funext (reg_view m)

/-- The list has the same strings. -/
theorem stringAt_view (m : Machine) (a : Word) :
    Target.stringAt m.view a = Target.stringAt m a := by
  -- both read the same data segment; opened one at a time, the reader itself is not evaluated
  change String.ofList (packedChars m.view.data a segmentSize []) = m.stringAt a
  rw [stringAt]
  rfl

/-- The list has the same stack pointer. -/
theorem stackPointer_view (m : Machine) : Target.stackPointer m.view = m.stack.pointer :=
  pointer_view m

/-- A register file that does not move the stack pointer is set alike on slots and list. -/
theorem setRegisters_view {m : Machine} {r : RegisterFile}
    (h : r.read .stackPointer = Target.stackPointer m.view) :
    Target.setRegisters m.view r = (Target.setRegisters m r).view := by
  have h' : r.read .stackPointer = m.stack.pointer := h.trans (stackPointer_view m)
  change _ = (m.setRegisters r).view
  rw [setRegisters_of_pointer h']
  rfl

end Machine

namespace Utility

variable {α M N : Type}

/-- The scope with its machine mapped. -/
def Scope.map (f : M → N) (s : Scope M) : Scope N := ⟨f s.machine, s.notes, s.printed⟩

/-- An action on the machine of a scope commutes with a map of machines if it does so on the
machine. -/
theorem commutes_onMachine {f : M → N} {act : EStateM Fault M α} {act' : EStateM Fault N α}
    {s : Scope M} (h : Commutes f act act' s.machine) :
    Commutes (Scope.map f) (onMachine act) (onMachine act') s := by
  obtain ⟨machine, notes, printed⟩ := s
  have h' : act' (f machine) = mapState f (act machine) := h
  change onMachine act' ⟨f machine, notes, printed⟩ = _
  simp only [onMachine]
  rw [h']
  cases act machine <;> rfl

/-- On mapped scopes, actions that commute answer alike and leave mapped scopes behind. -/
theorem answer_map {f : M → N} {act : OpOn M α} {act' : OpOn N α} {s : Scope M}
    (h : Commutes (Scope.map f) act act' s) :
    answer act' (s.map f) = ((answer act s).1, (answer act s).2.map f) := by
  have h' : act' (s.map f) = mapState (Scope.map f) (act s) := h
  unfold answer
  rw [h']
  cases act s <;> rfl

/-- Attempts of actions that commute do so themselves. -/
theorem commutes_attempt {f : M → N} {act : OpOn M α} {act' : OpOn N α} {s : Scope M}
    (h : Commutes (Scope.map f) act act' s) :
    Commutes (Scope.map f) (attempt act) (attempt act') s := by
  unfold Commutes attempt
  rw [answer_map h]
  rfl

end Utility

/-! ## Served at once -/

namespace Builtin

open Utility

variable {M : Type}

/-- No register file that the utility sets moves the stack pointer, as far as it gets. -/
def KeepsPointer [Target M] : Builtin → Scope M → Prop
  | done _, _ => True
  | pop next, s =>
    let (r, s) := answer (onMachine Target.pop) s
    KeepsPointer (next r) s
  | push w next, s =>
    let (r, s) := answer (onMachine (Target.push w)) s
    KeepsPointer (next r) s
  | read a next, s => KeepsPointer (next (Target.read s.machine a)) s
  | write a w next, s => KeepsPointer next { s with machine := Target.write s.machine a w }
  | string a next, s => KeepsPointer (next (Target.stringAt s.machine a)) s
  | registers next, s => KeepsPointer (next (Target.registers s.machine)) s
  | setRegisters r next, s =>
    r.read .stackPointer = Target.stackPointer s.machine ∧
      KeepsPointer next { s with machine := Target.setRegisters s.machine r }
  | enter a next, s => KeepsPointer (next (.error (.reentryUnsupported a))) s
  | print text next, s => KeepsPointer next { s with printed := s.printed ++ text }
  | note o next, s => KeepsPointer next { s with notes := s.notes.push o }

/-- A utility of the host that keeps the stack pointer commutes with the view. -/
theorem commutes_run (b : Builtin) (s : Scope) (h : b.KeepsPointer (s.map Machine.view)) :
    Commutes (Scope.map Machine.view) b.run b.run s := by
  -- by induction on the utility; the condition on the rest of it is about the view
  induction b generalizing s with
  | done result =>
    cases result with
    | ok _ => exact commutes_pure ()
    | error e => exact commutes_throw e
  | pop next ih =>
    have hpop : Commutes (Scope.map Machine.view) (onMachine Target.pop) (onMachine Target.pop) s :=
      commutes_onMachine (Machine.commutes_pop s.machine)
    rw [KeepsPointer, answer_map hpop] at h
    refine (commutes_attempt hpop).bind fun r t ht => ?_
    obtain ⟨rfl, rfl⟩ := EStateM.Result.ok.inj ht
    exact ih _ _ h
  | push w next ih =>
    have hpush : Commutes (Scope.map Machine.view) (onMachine (Target.push w))
        (onMachine (Target.push w)) s := commutes_onMachine (Machine.commutes_push w s.machine)
    rw [KeepsPointer, answer_map hpush] at h
    refine (commutes_attempt hpush).bind fun r t ht => ?_
    obtain ⟨rfl, rfl⟩ := EStateM.Result.ok.inj ht
    exact ih _ _ h
  | read a next ih => exact ih _ s h
  | write a w next ih => exact ih { s with machine := Target.write s.machine a w } h
  | string a next ih =>
    have hstring : Target.stringAt (s.map Machine.view).machine a = Target.stringAt s.machine a :=
      s.machine.stringAt_view a
    rw [KeepsPointer, hstring] at h
    change (next (Target.stringAt (s.map Machine.view).machine a)).run (s.map Machine.view) = _
    rw [hstring]
    exact ih _ s h
  | registers next ih =>
    have hregs : Target.registers (s.map Machine.view).machine = Target.registers s.machine :=
      s.machine.registers_view
    rw [KeepsPointer, hregs] at h
    change (next (Target.registers (s.map Machine.view).machine)).run (s.map Machine.view) = _
    rw [hregs]
    exact ih _ s h
  | setRegisters r next ih =>
    have hset : Target.setRegisters (s.map Machine.view).machine r =
        (Target.setRegisters s.machine r).view := Machine.setRegisters_view h.1
    have hnext := h.2
    rw [hset] at hnext
    change next.run { s.map Machine.view with
      machine := Target.setRegisters (s.map Machine.view).machine r } = _
    rw [hset]
    exact ih { s with machine := Target.setRegisters s.machine r } hnext
  | enter a next ih => exact ih _ s h
  | print text next ih => exact ih { s with printed := s.printed ++ text } h
  | note o next ih => exact ih { s with notes := s.notes.push o } h

end Builtin

/-! ## Through the bridge -/

namespace Bridge

open Utility (Target Scope)

/-- The bridge with its machine mapped. -/
def map {M N : Type} (f : M → N) (b : Bridge M) : Bridge N := ⟨b.scope.map f, b.regs, b.fault⟩

/-- A stack request through the bridge has the same answer on the view, and leaves the view of the
bridge behind. -/
theorem onStack_map {α : Type} {act : Machine.Op α} {act' : ListMachine.Op α} {b : Bridge}
    (h : Commutes Machine.view act act' b.scope.machine) (otherwise : α) :
    (b.map Machine.view).onStack act' otherwise =
      ((b.onStack act otherwise).1, (b.onStack act otherwise).2.map Machine.view) := by
  have hscope : Utility.onMachine act' (b.scope.map Machine.view) =
      mapState (Scope.map Machine.view) (Utility.onMachine act b.scope) :=
    Utility.commutes_onMachine h
  cases hact : Utility.onMachine act b.scope with
  | ok x t =>
    rw [hact, mapState_ok] at hscope
    rw [onStack_of_ok hact, onStack_of_ok (b := b.map Machine.view) hscope]
    -- both copies get the live stack pointer, which is the length of the list
    have hsync : syncStackPointer ⟨t.map Machine.view, b.regs, b.fault⟩ =
        (syncStackPointer ⟨t, b.regs, b.fault⟩).map Machine.view := by
      unfold syncStackPointer
      simp only [Scope.map, map, Machine.stackPointer_view]
      rfl
    exact congrArg (Prod.mk x) hsync
  | error e t =>
    rw [hact, mapState_error] at hscope
    rw [onStack_of_error hact, onStack_of_error (b := b.map Machine.view) hscope]
    rfl

end Bridge

namespace Utility

/-- While its requests are served through the bridge, a utility sees the same on the view. -/
theorem drive_map (u : Utility) (b : Bridge) :
    u.drive Target.stringAt (b.map Machine.view) =
      (u.drive Target.stringAt b).map Machine.view := by
  induction u generalizing b with
  | done => rfl
  | pop next ih =>
    have h : (b.map Machine.view).onStack Target.pop 0 =
        ((b.onStack Target.pop 0).1, (b.onStack Target.pop 0).2.map Machine.view) :=
      Bridge.onStack_map (Machine.commutes_pop b.scope.machine) 0
    rw [drive_pop, drive_pop, h]
    exact ih _ _
  | push w next ih =>
    have h : (b.map Machine.view).onStack (Target.push w) () =
        ((b.onStack (Target.push w) ()).1, (b.onStack (Target.push w) ()).2.map Machine.view) :=
      Bridge.onStack_map (Machine.commutes_push w b.scope.machine) ()
    rw [drive_push, drive_push, h]
    exact ih _
  | read a next ih => exact ih _ b
  | write a w next ih =>
    exact ih { b with scope := { b.scope with machine := Target.write b.scope.machine a w } }
  | string a next ih =>
    have hstring : Target.stringAt (b.map Machine.view).scope.machine a =
        Target.stringAt b.scope.machine a := b.scope.machine.stringAt_view a
    rw [drive, drive, hstring]
    exact ih _ b
  | registers next ih => exact ih _ b
  | setRegisters r next ih => exact ih { b with regs := r }
  | enter a next ih => exact ih (b.record (.reentryUnsupported a))
  | print text next ih =>
    exact ih { b with scope := { b.scope with printed := b.scope.printed ++ text } }
  | note o next ih =>
    exact ih { b with scope := { b.scope with notes := b.scope.notes.push o } }

/-- Through the bridge, a utility commutes with the view if the copy it writes back does not move
the stack pointer. -/
theorem commutes_runBridged (u : Utility) (s : Scope)
    (h : let b := u.drive Target.stringAt (.ofScope (s.map Machine.view))
      b.fault = none → b.regs.read .stackPointer = Target.stackPointer b.scope.machine) :
    Commutes (Scope.map Machine.view) u.runBridged u.runBridged s := by
  have hstart : Bridge.ofScope (s.map Machine.view) = (Bridge.ofScope s).map Machine.view := by
    unfold Bridge.ofScope
    rw [Scope.map, Machine.registers_view]
    rfl
  have hdrive : u.drive Target.stringAt (Bridge.ofScope (s.map Machine.view)) =
      (u.drive Target.stringAt (.ofScope s)).map Machine.view := by
    rw [hstart, drive_map]
  unfold Commutes runBridged
  cases hf : (u.drive Target.stringAt (.ofScope s)).fault with
  | some e =>
    have hf' : (u.drive Target.stringAt (Bridge.ofScope (s.map Machine.view))).fault = some e := by
      rw [hdrive]
      exact hf
    rw [runBridgedWith_of_fault hf, runBridgedWith_of_fault hf', hdrive]
    rfl
  | none =>
    have hf' : (u.drive Target.stringAt (Bridge.ofScope (s.map Machine.view))).fault = none := by
      rw [hdrive]
      exact hf
    -- the copy is written back here, the only place where the stack pointer could be moved
    have hpointer := h hf'
    rw [hdrive] at hpointer
    rw [runBridgedWith_of_none hf, runBridgedWith_of_none hf', hdrive, mapState_ok]
    exact congrArg (fun m => EStateM.Result.ok () (Scope.mk m _ _))
      (Machine.setRegisters_view hpointer)

end Utility

namespace Entry

open Utility (Scope Target)

/-- The call of a utility does not move the stack pointer by setting registers: no register file
that a utility of the host sets does so; through the bridge, the copy written back does not. -/
def KeepsPointer {M : Type} [Target M] : Entry → Scope M → Prop
  | .builtin b, s => b.KeepsPointer s
  | .bridged u, s =>
    let b := u.drive Target.stringAt (.ofScope s)
    b.fault = none → b.regs.read .stackPointer = Target.stackPointer b.scope.machine

/-- A call that keeps the stack pointer commutes with the view. -/
theorem commutes_run (e : Entry) (s : Scope) (h : e.KeepsPointer (s.map Machine.view)) :
    Commutes (Scope.map Machine.view) e.run e.run s := by
  cases e with
  | builtin b => exact b.commutes_run s h
  | bridged u => exact u.commutes_runBridged s h

end Entry

end WordMachine

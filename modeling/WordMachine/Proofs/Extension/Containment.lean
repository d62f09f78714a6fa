import WordMachine.Proofs.Extension.Serving
import WordMachine.Proofs.Machine.Registers
import WordMachine.Extension.Script

/-!
# What a utility can reach

A utility never touches the code segment, however it is served and whether it faults. The
instruction pointer is another matter: it is entry 32 of the register file, and a utility may set a
whole register file. `Builtin.run_control` and `drive_control` say where the instruction pointer
goes: to the entry of the last register file set, which the bridge keeps to itself when the call
faults.
So the instruction pointer stays exactly when that entry is its old value
(`control_unchanged_iff`), and a utility that writes register 32 and does nothing else moves it
(`setReg_instructionPointer_moves_ip`).
-/

namespace WordMachine

namespace Builtin

open Utility (Scope Target answer onMachine)

/-- The last register file that a utility of the host sets before it ends. -/
def lastFile? : Builtin → Scope → Option RegisterFile
  | done _, _ => none
  | pop next, s =>
    let (r, s) := answer (onMachine Target.pop) s
    lastFile? (next r) s
  | push w next, s =>
    let (r, s) := answer (onMachine (Target.push w)) s
    lastFile? (next r) s
  | read a next, s => lastFile? (next (s.machine.data.get a)) s
  | write a w next, s => lastFile? next (s.withData a w)
  | string a next, s => lastFile? (next (s.machine.stringAt a)) s
  | registers next, s => lastFile? (next s.machine.registers) s
  | setRegisters r next, s => (lastFile? next (s.withRegisters r)).or (some r)
  | enter a next, s => lastFile? (next (.error (.reentryUnsupported a))) s
  | print text next, s => lastFile? next { s with printed := s.printed ++ text }
  | note o next, s => lastFile? next { s with notes := s.notes.push o }

end Builtin

namespace Utility

/-- The last register file that a utility sets when all its requests are served through the
bridge. -/
def lastCopy? (strings : Machine → Word → String) : Utility → Bridge → Option RegisterFile
  | done, _ => none
  | pop next, b =>
    let (w, b) := b.onStack Target.pop 0
    lastCopy? strings (next w) b
  | push w next, b => lastCopy? strings next (b.onStack (Target.push w) ()).2
  | read a next, b => lastCopy? strings (next (b.scope.machine.data.get a)) b
  | write a w next, b => lastCopy? strings next { b with scope := b.scope.withData a w }
  | string a next, b => lastCopy? strings (next (Bridge.byteText? (strings b.scope.machine a))) b
  | registers next, b => lastCopy? strings (next b.regs) b
  | setRegisters r next, b => (lastCopy? strings next { b with regs := r }).or (some r)
  | enter a next, b => lastCopy? strings next (b.record (.reentryUnsupported a))
  | print text next, b =>
    lastCopy? strings next { b with scope := { b.scope with printed := b.scope.printed ++ text } }
  | note o next, b =>
    lastCopy? strings next { b with scope := { b.scope with notes := b.scope.notes.push o } }

/-- Where a register file, if there is one, puts the instruction pointer. -/
def ipAfter (ip : Word) (r : Option RegisterFile) : Word :=
  (r.map (·.read .instructionPointer)).getD ip

/-- A file that is set before others counts where the others leave the pointer alone. -/
theorem ipAfter_or_some (ip : Word) (r : RegisterFile) (o : Option RegisterFile) :
    ipAfter ip (o.or (some r)) = ipAfter (r.read .instructionPointer) o := by
  cases o with
  | none => rfl
  | some r' => rfl

/-- The pointer stays when no file is set, or when the file holds the old value. -/
theorem ipAfter_eq_iff (ip : Word) (o : Option RegisterFile) :
    ipAfter ip o = ip ↔ ∀ r ∈ o, r.read .instructionPointer = ip := by
  cases o with
  | none => simp [ipAfter]
  | some r => simp [ipAfter]

end Utility

namespace Builtin

open Utility

/-- A utility of the host keeps the code and leaves the instruction pointer where the last register
file it sets puts it. -/
theorem run_control (b : Builtin) (s : Scope) :
    (stateOf (b.run s)).machine.code = s.machine.code ∧
      (stateOf (b.run s)).machine.ip = ipAfter s.machine.ip (b.lastFile? s) := by
  -- by induction on the utility; no stack request reaches code or pointer, whatever its answer is
  induction b generalizing s with
  | done result => cases result <;> exact ⟨rfl, rfl⟩
  | pop next ih =>
    obtain ⟨r, st, h⟩ := exists_answer_onStack Stack.pop s
    rw [run_pop, lastFile?, target_pop, h]
    exact ih r (s.withStack st)
  | push w next ih =>
    obtain ⟨r, st, h⟩ := exists_answer_onStack (Stack.push w) s
    rw [run_push, lastFile?, target_push, h]
    exact ih r (s.withStack st)
  | read a next ih => exact ih _ s
  | write a w next ih => exact ih (s.withData a w)
  | string a next ih => exact ih _ s
  | registers next ih => exact ih _ s
  | setRegisters r next ih =>
    -- the rest of the run starts at the entry of `r`, so a later file overrides it and `r` itself
    -- counts when there is none
    rw [lastFile?, ipAfter_or_some]
    exact ih (s.withRegisters r)
  | enter a next ih => exact ih _ s
  | print text next ih => exact ih { s with printed := s.printed ++ text }
  | note o next ih => exact ih { s with notes := s.notes.push o }

end Builtin

namespace Utility

/-- A stack request through the bridge changes neither code nor instruction pointer, on the machine
or in the copy. -/
theorem onStack_control {α : Type} (b : Bridge) (act : Stack.Op α) (otherwise : α) :
    let b' := (b.onStack (Machine.onStack act) otherwise).2
    b'.scope.machine.code = b.scope.machine.code ∧ b'.scope.machine.ip = b.scope.machine.ip ∧
      b'.regs.read .instructionPointer = b.regs.read .instructionPointer := by
  rcases onMachine_onStack_cases act b.scope with ⟨x, st, h⟩ | ⟨e, st, h⟩
  · rw [Bridge.onStack_of_ok h]
    -- the stack pointer is brought up to date in the copy, which is another entry
    refine ⟨rfl, rfl, ?_⟩
    exact RegisterFile.read_write_of_ne _ _ (by decide)
  · rw [Bridge.onStack_of_error h]
    exact ⟨rfl, rfl, rfl⟩

/-- While requests are served through the bridge, code and instruction pointer of the machine stay,
and the copy's instruction pointer is the one of the last register file set. -/
theorem drive_control (strings : Machine → Word → String) (u : Utility) (b : Bridge) :
    (u.drive strings b).scope.machine.code = b.scope.machine.code ∧
      (u.drive strings b).scope.machine.ip = b.scope.machine.ip ∧
      (u.drive strings b).regs.read .instructionPointer =
        ipAfter (b.regs.read .instructionPointer) (u.lastCopy? strings b) := by
  induction u generalizing b with
  | done => exact ⟨rfl, rfl, rfl⟩
  | pop next ih =>
    rw [drive, lastCopy?]
    obtain ⟨hcode, hip, hcopy⟩ := onStack_control b Stack.pop 0
    rw [← hcode, ← hip, ← hcopy]
    exact ih _ _
  | push w next ih =>
    rw [drive, lastCopy?]
    obtain ⟨hcode, hip, hcopy⟩ := onStack_control b (Stack.push w) ()
    rw [← hcode, ← hip, ← hcopy]
    exact ih _
  | read a next ih =>
    rw [drive, lastCopy?]
    exact ih _ b
  | write a w next ih => exact ih { b with scope := b.scope.withData a w }
  | string a next ih =>
    rw [drive, lastCopy?]
    exact ih _ b
  | registers next ih =>
    rw [drive, lastCopy?]
    exact ih _ b
  | setRegisters r next ih =>
    rw [lastCopy?, ipAfter_or_some]
    exact ih { b with regs := r }
  | enter a next ih =>
    rw [drive, lastCopy?]
    exact ih (b.record (.reentryUnsupported a))
  | print text next ih =>
    exact ih { b with scope := { b.scope with printed := b.scope.printed ++ text } }
  | note o next ih =>
    exact ih { b with scope := { b.scope with notes := b.scope.notes.push o } }

/-- Through the bridge a call keeps the code. A fault keeps the instruction pointer too; otherwise
it goes where the last register file set puts it. -/
theorem runBridgedWith_control (strings : Machine → Word → String) (u : Utility) (s : Scope) :
    (stateOf (u.runBridgedWith strings s)).machine.code = s.machine.code ∧
      (stateOf (u.runBridgedWith strings s)).machine.ip =
        if (u.drive strings (.ofScope s)).fault.isSome then s.machine.ip
        else ipAfter s.machine.ip (u.lastCopy? strings (.ofScope s)) := by
  obtain ⟨hcode, hip, hcopy⟩ := drive_control strings u (.ofScope s)
  have hstart : (Bridge.ofScope s).regs.read .instructionPointer = s.machine.ip :=
    s.machine.read_registers .instructionPointer
  rw [hstart] at hcopy
  -- after a fault the copy is dropped, otherwise it is written back as a whole
  cases hf : (u.drive strings (.ofScope s)).fault with
  | some e =>
    rw [runBridgedWith_of_fault hf]
    exact ⟨hcode, hip⟩
  | none =>
    rw [runBridgedWith_of_none hf]
    exact ⟨hcode, hcopy⟩

/-- A utility never changes the code. One of the host, whatever it does about the faults of its
requests, keeps the instruction pointer exactly when it sets no register file, or the last one holds
the old instruction pointer; one behind the bridge, exactly when the call faults or the same holds
of the files it set there. -/
theorem control_unchanged_iff (strings : Machine → Word → String) (b : Builtin) (u : Utility)
    (s : Scope) :
    ((stateOf (b.run s)).machine.code = s.machine.code ∧
      ((stateOf (b.run s)).machine.ip = s.machine.ip ↔
        ∀ r ∈ b.lastFile? s, r.read .instructionPointer = s.machine.ip)) ∧
    ((stateOf (u.runBridgedWith strings s)).machine.code = s.machine.code ∧
      ((stateOf (u.runBridgedWith strings s)).machine.ip = s.machine.ip ↔
        (∃ e t, u.runBridgedWith strings s = .error e t) ∨
          ∀ r ∈ u.lastCopy? strings (.ofScope s), r.read .instructionPointer = s.machine.ip)) := by
  obtain ⟨hcode, hip⟩ := b.run_control s
  obtain ⟨hcode', hip'⟩ := runBridgedWith_control strings u s
  refine ⟨⟨hcode, ?_⟩, hcode', ?_⟩
  · rw [hip, ipAfter_eq_iff]
  · rw [hip']
    cases hf : (u.drive strings (.ofScope s)).fault with
    | some e => simp [runBridgedWith_of_fault hf]
    | none => simp [runBridgedWith_of_none hf, ipAfter_eq_iff]

/-- A utility that writes register 32 and does nothing else moves the instruction pointer, on the
machine itself and through the bridge. -/
theorem setReg_instructionPointer_moves_ip :
    let u := Script.toUtility [.setReg .instructionPointer (some 5)]
    let s := Scope.ofMachine default
    s.machine.ip = 0 ∧ u.runDirect s = .ok () (s.withRegisters (s.machine.registers.write 32 5)) ∧
      (stateOf (u.runDirect s)).machine.ip = 5 ∧ (stateOf (u.runBridged s)).machine.ip = 5 := by
  exact ⟨rfl, rfl, rfl, rfl⟩

end Utility

end WordMachine

import WordMachine.Extension.Utility

/-!
# The callback bridge

A utility of a library cannot be stopped in the middle. `Utility.runBridged` serves all its requests
to the end: a request that fails has no effect, answers zero where an answer is due, and its fault
is remembered if it is the first. Registers are a copy taken at the start. Every pop and push that
succeeds brings the copy's stack pointer up to date, and the copy is written back at the end if no
fault was remembered. Strings pass as bytes ended by a zero, so one that holds a zero is no answer.
-/

namespace WordMachine

/-- A utility's scope, its copy of the registers, and the first fault. -/
structure Bridge (M : Type := Machine) where
  scope : Utility.Scope M
  regs : RegisterFile
  fault : Option Fault

namespace Bridge

open Utility (Target)

variable {M : Type}

/-- The bridge at the start of a utility. -/
def ofScope [Target M] (s : Utility.Scope M) : Bridge M := ⟨s, Target.registers s.machine, none⟩

/-- The bridge that remembers a fault, unless there is an earlier one. -/
def record (b : Bridge M) (e : Fault) : Bridge M := { b with fault := b.fault <|> some e }

/-- The bridge with the copy's stack pointer brought up to date. -/
def syncStackPointer [Target M] (b : Bridge M) : Bridge M :=
  { b with regs := b.regs.write .stackPointer (Target.stackPointer b.scope.machine) }

/-- Serves a stack request: the answer, or `otherwise` when it fails. -/
def onStack [Target M] {α : Type} (b : Bridge M) (act : EStateM Fault M α) (otherwise : α) :
    α × Bridge M :=
  let ⟨scope, regs, fault⟩ := b
  match Utility.onMachine act scope with
  | .ok x scope => (x, syncStackPointer ⟨scope, regs, fault⟩)
  | .error e scope => (otherwise, record ⟨scope, regs, fault⟩ e)

/-- A text as bytes, one for each character, read back as characters. A text with a zero byte does
not pass. -/
def byteText? (text : String) : Option String :=
  let chars := text.toList.map fun c => Char.ofNat (c.toNat % 256)
  if chars.contains (Char.ofNat 0) then none else some (String.ofList chars)

end Bridge

namespace Utility

variable {M : Type} [Target M]

/-- Serves all requests of a utility. `strings` is how the host looks up a string. -/
def drive (strings : M → Word → String) : Utility → Bridge M → Bridge M
  | done, b => b
  | pop next, b =>
    let (w, b) := b.onStack Target.pop 0
    drive strings (next w) b
  | push w next, b =>
    let ((), b) := b.onStack (Target.push w) ()
    drive strings next b
  | read address next, b => drive strings (next (Target.read b.scope.machine address)) b
  | write address w next, ⟨⟨m, notes, printed⟩, regs, fault⟩ =>
    drive strings next ⟨⟨Target.write m address w, notes, printed⟩, regs, fault⟩
  | string address next, b =>
    drive strings (next (Bridge.byteText? (strings b.scope.machine address))) b
  | registers next, b => drive strings (next b.regs) b
  | setRegisters r next, ⟨scope, _, fault⟩ => drive strings next ⟨scope, r, fault⟩
  | enter address next, b => drive strings next (b.record (.reentryUnsupported address))
  | print text next, ⟨⟨m, notes, printed⟩, regs, fault⟩ =>
    drive strings next ⟨⟨m, notes, printed ++ text⟩, regs, fault⟩
  | note o next, ⟨⟨m, notes, printed⟩, regs, fault⟩ =>
    drive strings next ⟨⟨m, notes.push o, printed⟩, regs, fault⟩

/-- Runs a utility through the bridge, with the host's look-up of strings given. -/
def runBridgedWith (strings : M → Word → String) (u : Utility) : OpOn M Unit := fun s =>
  let b := u.drive strings (Bridge.ofScope s)
  match b.fault with
  | some e => .error e b.scope
  | none => .ok () { b.scope with machine := Target.setRegisters b.scope.machine b.regs }

/-- Runs a utility through the bridge. -/
def runBridged (u : Utility) : OpOn M Unit := runBridgedWith Target.stringAt u

end Utility

end WordMachine

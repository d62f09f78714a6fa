import WordMachine.Extension.Utility

/-!
# Utilities of the host

A utility that is part of the host sees how each of its requests has ended. A request that may fail
is answered with its result or its fault, and the utility goes on from there as it likes. At its end
it has a result of its own, which may be a fault that no request has raised. `Builtin.run` serves
the requests on the machine itself, and registers are written at once.

A utility that does not look at faults becomes one of these by passing on every fault
(`Utility.toBuiltin`). That is how it is served on the machine itself (`Utility.runDirect`): the
first request that fails ends it.
-/

namespace WordMachine

/-- What a utility of the host does with a machine, request by request, the answers to requests that
may fail being results or faults. -/
inductive Builtin where
  | done (result : Except Fault Unit)
  | pop (next : Except Fault Word → Builtin)
  | push (w : Word) (next : Except Fault Unit → Builtin)
  | read (address : Word) (next : Word → Builtin)
  | write (address w : Word) (next : Builtin)
  | string (address : Word) (next : String → Builtin)
  | registers (next : RegisterFile → Builtin)
  | setRegisters (r : RegisterFile) (next : Builtin)
  | enter (address : Word) (next : Except Fault Unit → Builtin)
  | print (text : String) (next : Builtin)
  | note (o : Observation) (next : Builtin)

namespace Utility

variable {M : Type}

/-- The answer to a request that may fail, and the scope that it leaves behind. -/
def answer {α : Type} (act : OpOn M α) (s : Scope M) : Except Fault α × Scope M :=
  match act s with
  | .ok x s => (.ok x, s)
  | .error e s => (.error e, s)

/-- Takes the answer to a request, which goes on also after a fault. -/
def attempt {α : Type} (act : OpOn M α) : OpOn M (Except Fault α) := fun s =>
  let (r, s) := answer act s
  .ok r s

end Utility

namespace Builtin

open Utility (Target OpOn attempt onMachine modifyMachine)

variable {M : Type}

/-- Goes on with the result of a request, or ends with its fault. -/
def unlessFault {α : Type} (next : α → Builtin) : Except Fault α → Builtin
  | .ok x => next x
  | .error e => done (.error e)

/-- Serves the requests of a utility of the host. -/
def run [Target M] : Builtin → OpOn M Unit
  | done (.ok ()) => pure ()
  | done (.error e) => throw e
  | pop next => do
    let r ← attempt (onMachine Target.pop)
    run (next r)
  | push w next => do
    let r ← attempt (onMachine (Target.push w))
    run (next r)
  | read address next => do
    let w := Target.read (← get).machine address
    run (next w)
  | write address w next => do
    modifyMachine fun m => Target.write m address w
    run next
  | string address next => do
    let s := Target.stringAt (← get).machine address
    run (next s)
  | registers next => do
    let r := Target.registers (← get).machine
    run (next r)
  | setRegisters r next => do
    modifyMachine fun m => Target.setRegisters m r
    run next
  | enter address next => run (next (.error (.reentryUnsupported address)))
  | print text next => do
    modify fun s => { s with printed := s.printed ++ text }
    run next
  | note o next => do
    modify fun s => { s with notes := s.notes.push o }
    run next

end Builtin

namespace Utility

open Builtin (unlessFault)

variable {M : Type}

/-- The utility of the host that does what a utility does and passes on the first fault. -/
def toBuiltin : Utility → Builtin
  | done => .done (.ok ())
  | pop next => .pop (unlessFault fun w => toBuiltin (next w))
  | push w next => .push w (unlessFault fun _ => toBuiltin next)
  | read address next => .read address fun w => toBuiltin (next w)
  | write address w next => .write address w (toBuiltin next)
  | string address next => .string address fun s => toBuiltin (next (some s))
  | registers next => .registers fun r => toBuiltin (next r)
  | setRegisters r next => .setRegisters r (toBuiltin next)
  | enter address next => .enter address (unlessFault fun _ => toBuiltin next)
  | print text next => .print text (toBuiltin next)
  | note o next => .note o (toBuiltin next)

/-- Serves the requests of a utility on the machine itself. -/
def runDirect [Target M] (u : Utility) : OpOn M Unit := u.toBuiltin.run

end Utility

end WordMachine

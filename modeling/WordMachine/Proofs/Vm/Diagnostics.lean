import Mathlib.Tactic.ByContra
import WordMachine.Proofs.Console.Columns
import WordMachine.Proofs.Vm.Restart
import WordMachine.Vm.Config

/-!
# Diagnostics do not influence a run

Whether instructions are logged, which level the log keeps and what it holds makes no difference to
what a virtual machine does: without its diagnostics (`Vm.quiet`) it is the same virtual machine
after every step, and it goes on or fails in the same way. On a log that keeps everything, the
logging of instructions puts one line in front of what a step itself logs (`Vm.logged`), and changes
nothing else: `diagnostics_are_invisible`.

A log that keeps neither `info` nor `warn` takes nothing that a step has to say, so a map to such
logs is an `OutputMap`, whatever it makes of the level (`OutputMap.ofLevel`). If two such maps agree
on a level, they agree after a step, and so the level is the same after a step (`least_next`).
-/

namespace WordMachine

/-- Adding to a log does not change its level. -/
theorem Log.least_add (log : Log) (level : Level) (message : String) :
    (log.add level message).least = log.least := by
  unfold add
  split <;> rfl

namespace OutputMap

/-- The map to logs that take neither `info` nor `warn` and hold what `g` makes of the level. -/
def ofLevel (g : Level → Array (Level × String)) : OutputMap where
  log l := ⟨.error, g l.least⟩
  printed := id
  notes := id
  log_info l message := by
    have hleast : (l.info message).least = l.least := l.least_add .info message
    rw [hleast]
    rfl
  log_warn l message := by
    have hleast : (l.warn message).least = l.least := l.least_add .warn message
    rw [hleast]
    rfl
  printed_append _ _ := rfl
  notes_append _ _ := rfl

/-- The map that puts earlier entries in front of the log. -/
def behindEntries (entries : Array (Level × String)) : OutputMap where
  log := Log.behind entries
  printed := id
  notes := id
  log_info l message := l.behind_add entries .info message
  log_warn l message := l.behind_add entries .warn message
  printed_append _ _ := rfl
  notes_append _ _ := rfl

end OutputMap

namespace Vm

/-- The virtual machine with other settings for its diagnostics and another log. -/
def withDiagnostics (vm : Vm) (trace : Bool) (log : Log) : Vm :=
  { vm with trace, host := { vm.host with log } }

/-- The virtual machine without its diagnostics. -/
def quiet (vm : Vm) : Vm := vm.withDiagnostics false ⟨.error, #[]⟩

/-- The state after a step, whether it failed or not. -/
def next (vm : Vm) : Vm := stateOf (step vm)

/-- What a step logs, apart from the line of its instruction. -/
def logged (vm : Vm) : List (Level × String) :=
  (next (vm.withDiagnostics false .empty)).host.log.entries.toList

/-! ## Steps -/

/-- The entry of the next instruction, if instructions are logged. -/
def heading (trace : Bool) (m : Machine) : List (Level × String) :=
  if trace then [(.info, traceLine m)] else []

/-- A step logs its instruction, if it is to, and carries it out. -/
theorem exists_step_eq_carryOut (vm : Vm) : ∃ log, step vm =
    carryOut { vm with host := { vm.host with log } } := by
  obtain ⟨log, hlog⟩ := exists_traceWith traceLine vm
  have htrace : traceNext vm = _ := hlog
  exact ⟨log, by rw [step_eq, bind_of_ok htrace]⟩

/-- A step does the same without diagnostics. -/
theorem commutes_quiet_step (vm : Vm) : Commutes quiet step step vm := by
  obtain ⟨log, hstep⟩ := exists_step_eq_carryOut vm
  -- whatever has been logged before the instruction is carried out is taken away again
  have hcarry := (OutputMap.ofLevel fun _ => #[]).commutes_carryOut (b := fun _ => false)
    { vm with host := { vm.host with log } }
  rw [Commutes, hstep]
  exact hcarry

/-- A step does not change the level that the log keeps. -/
theorem least_next (vm : Vm) : (next vm).host.log.least = vm.host.log.least := by
  -- One map forgets the level, the other one marks every other level. They agree before the step,
  -- and as the step commutes with both of them, they agree after it.
  let forget : OutputMap := .ofLevel fun _ => #[]
  let mark : OutputMap := .ofLevel fun level =>
    if level = vm.host.log.least then #[] else #[(.error, "")]
  have hbefore : forget.vm vm = mark.vm vm := by
    simp [forget, mark, OutputMap.vm, OutputMap.host, OutputMap.ofLevel]
  have hstep : mapState forget.vm (step vm) = mapState mark.vm (step vm) :=
    calc mapState forget.vm (step vm) = step (forget.vm vm) := (forget.commutes_step vm).symm
      _ = step (mark.vm vm) := by rw [hbefore]
      _ = mapState mark.vm (step vm) := mark.commutes_step vm
  have hafter : forget.vm (next vm) = mark.vm (next vm) := by
    have hstate := congrArg stateOf hstep
    rwa [stateOf_mapState, stateOf_mapState] at hstate
  have hentries : #[] = if (next vm).host.log.least = vm.host.log.least then #[]
      else #[(Level.error, "")] := congrArg (fun v => v.host.log.entries) hafter
  by_contra hne
  rw [if_neg hne] at hentries
  cases hentries

/-- On a log that keeps everything, the line of the instruction is added if it is to be. -/
theorem step_withDiagnostics (vm : Vm) (trace : Bool) (entries : List (Level × String)) :
    step (vm.withDiagnostics trace ⟨.info, entries.toArray⟩) = carryOut
      (vm.withDiagnostics trace ⟨.info, (entries ++ heading trace vm.machine).toArray⟩) := by
  cases trace with
  | false =>
    rw [heading, if_neg Bool.false_ne_true, List.append_nil]
    rfl
  | true =>
    have hlog : Log.info ⟨.info, entries.toArray⟩ (traceLine vm.machine) =
        ⟨.info, (entries ++ heading true vm.machine).toArray⟩ := by
      simp [Log.info, Log.add, Log.enabled, heading]
    rw [← hlog]
    rfl

/-- On a log that keeps everything, a step adds the line of its instruction, if it is to, and then
what it logs itself. -/
theorem next_withDiagnostics (vm : Vm) (trace : Bool) (entries : List (Level × String)) :
    next (vm.withDiagnostics trace ⟨.info, entries.toArray⟩) =
      (next (vm.withDiagnostics false .empty)).withDiagnostics trace
        ⟨.info, (entries ++ (heading trace vm.machine ++ logged vm)).toArray⟩ := by
  -- the step is the one on an empty log, with what is logged already put in front
  let front : List (Level × String) := entries ++ heading trace vm.machine
  let f : OutputMap := .behindEntries front.toArray
  have hstart : f.tracing (fun _ => trace) (vm.withDiagnostics false .empty) =
      vm.withDiagnostics trace ⟨.info, front.toArray⟩ := by
    simp [f, OutputMap.tracing, OutputMap.vm, OutputMap.host, OutputMap.behindEntries, Log.behind,
      Log.empty, withDiagnostics]
  have hcarry : carryOut (f.tracing (fun _ => trace) (vm.withDiagnostics false .empty)) =
      mapState (f.tracing fun _ => trace) (step (vm.withDiagnostics false .empty)) :=
    f.commutes_carryOut _
  have hleast : (next (vm.withDiagnostics false .empty)).host.log.least = .info := least_next _
  rw [next, step_withDiagnostics, ← hstart, hcarry, stateOf_mapState, ← next, ← hleast]
  simp [f, front, OutputMap.tracing, OutputMap.vm, OutputMap.host, OutputMap.behindEntries,
    Log.behind, withDiagnostics, logged]

/-! ## Runs -/

/-- What is in the log after some steps: what was there before, and for each step the line of its
instruction, if it is to be logged, and what the step logged itself. -/
theorem log_iterate_next (vm : Vm) (trace : Bool) (entries entries₀ : List (Level × String))
    (n : Nat) : (next^[n] (vm.withDiagnostics trace ⟨.info, entries.toArray⟩)).host.log =
      ⟨.info, (entries ++ (List.iterate next (vm.withDiagnostics false ⟨.info, entries₀.toArray⟩)
        n).flatMap fun s => heading trace s.machine ++ logged s).toArray⟩ := by
  -- the entries of both runs vary, since each step adds to its own log
  induction n generalizing vm entries entries₀ with
  | zero => simp [withDiagnostics]
  | succ n ih =>
    -- both runs go on from the same state, with different logs
    have hrest := ih (next (vm.withDiagnostics false .empty))
      (entries ++ (heading trace vm.machine ++ logged vm))
      (entries₀ ++ (heading false vm.machine ++ logged vm))
    rw [← next_withDiagnostics, ← next_withDiagnostics, List.append_assoc] at hrest
    exact hrest

/-- A run of several steps is the same without diagnostics. -/
theorem stepsFrom_quiet (left count : Nat) (vm : Vm) : stepsFrom left count vm.quiet =
    ((stepsFrom left count vm).1, (stepsFrom left count vm).2.1,
      (stepsFrom left count vm).2.2.quiet) := by
  -- by induction on the limit, step by step
  induction left generalizing count vm with
  | zero => rfl
  | succ left ih =>
    have hstep : step vm.quiet = mapState quiet (step vm) := commutes_quiet_step vm
    cases hvm : step vm with
    | ok outcome t =>
      rw [hvm] at hstep
      cases outcome with
      | next => simpa only [stepsFrom, hvm, hstep, mapState_ok] using ih (count + 1) t
      | halt => simp only [stepsFrom, hvm, hstep, mapState_ok]
    | error e t =>
      rw [hvm] at hstep
      simp only [stepsFrom, hvm, hstep, mapState_error]

/-- A run with a limit does the same without diagnostics, the flush behind a fault included. -/
theorem commutes_quiet_run (limit : Nat) (vm : Vm) : Commutes quiet (run limit) (run limit) vm := by
  simp only [Commutes, run, steps, stepsFrom_quiet]
  rcases stepsFrom limit 0 vm with ⟨count, ending, t⟩
  cases ending with
  | limit | halt => rfl
  | fault e =>
    have hflush : onConsole Console.flush t.quiet = mapState quiet (onConsole Console.flush t) :=
      (OutputMap.ofLevel fun _ => #[]).commutes_onConsole (b := fun _ => false) t _
    dsimp only
    rw [hflush]
    cases onConsole Console.flush t with
    | ok x u | error e' u => rfl

/-! ## Opening -/

/-- What opening a virtual machine leads to, without diagnostics. -/
def unlogged : EStateM.Result Fault Host Vm → EStateM.Result Fault Disk Vm
  | .ok vm host => .ok vm.quiet host.disk
  | .error e host => .error e host.disk

/-- Opening a virtual machine leads to what it leads to on a log that takes nothing. -/
theorem unlogged_load (config : Config) (libraries : Libraries) (host : Host) :
    unlogged (load config libraries host) =
      match readImage config.image ⟨host.disk, ⟨.error, #[]⟩⟩ with
      | .ok img host => .ok (quiet (start img (.file config.image) ⟨.ofSink (.terminal .empty),
          .ofPath config.save, .ofDirs config.libDirs, libraries⟩ host)) host.disk
      | .error e host => .error e host.disk := by
  let f : OutputMap := .ofLevel fun _ => #[]
  have hread : readImage config.image ⟨host.disk, ⟨.error, #[]⟩⟩ =
      mapState f.host (readImage config.image host) := f.commutes_readImage config.image host
  rw [hread]
  cases himg : readImage config.image host with
  | ok img t =>
    have hload : load config libraries host = .ok _ t := bind_of_ok (bind_of_ok himg)
    rw [hload]
    rfl
  | error e t =>
    have hload : load config libraries host = .error e t := bind_of_error (bind_of_error himg)
    rw [hload]
    rfl

/-! ## Two runs -/

/-- The line of an instruction: the instruction pointer in four upper-case hexadecimal digits, and
the text of the instruction. -/
theorem traceLine_eq (m : Machine) : traceLine m =
    String.ofList (Console.lastDigits 4 m.ip.toNat) ++ ": " ++ (fetch m).render := by
  rw [traceLine, Text.hex, ← Console.padded_hexDigits (k := 3) m.ip.toNat_lt]
  rfl

/-- Diagnostics do not influence what a virtual machine does. Two virtual machines that differ in
their log and in whether they log instructions are opened in the same way, give the same results in
any number of steps and in runs with any limit, and leave the same states behind, apart from these.
On a log that keeps everything, what is logged in some steps is added to what was there before; if
instructions are logged, the line of the instruction stands in front of what each step logs. -/
theorem diagnostics_are_invisible :
    (∀ (config : Config) (libraries : Libraries) (disk : Disk) (trace trace' : Bool)
      (log log' : Log), unlogged (load { config with trace } libraries ⟨disk, log⟩) =
        unlogged (load { config with trace := trace' } libraries ⟨disk, log'⟩)) ∧
    (∀ (vm : Vm) (n : Nat) (trace trace' : Bool) (log log' : Log),
      (trail step n (vm.withDiagnostics trace log)).map (mapState quiet) =
        (trail step n (vm.withDiagnostics trace' log')).map (mapState quiet) ∧
      mapState quiet (run n (vm.withDiagnostics trace log)) =
        mapState quiet (run n (vm.withDiagnostics trace' log'))) ∧
    ∀ (vm : Vm) (n : Nat) (entries : List (Level × String)),
      let start (trace : Bool) : Vm := vm.withDiagnostics trace ⟨.info, entries.toArray⟩
      let states : List Vm := List.iterate next (start false) n
      (next^[n] (start false)).host.log = ⟨.info, (entries ++ states.flatMap logged).toArray⟩ ∧
      (next^[n] (start true)).host.log = ⟨.info, (entries ++ states.flatMap fun s =>
        (.info, String.ofList (Console.lastDigits 4 s.machine.ip.toNat) ++ ": " ++
          (fetch s.machine).render) :: logged s).toArray⟩ := by
  refine ⟨fun config libraries disk trace trace' log log' => ?_,
    fun vm n trace trace' log log' => ⟨?_, ?_⟩, fun vm n entries => ?_⟩
  · rw [unlogged_load, unlogged_load]
  · have htrail (v : Vm) : trail step n v.quiet = (trail step n v).map (mapState quiet) :=
      trail_map (fun v _ => commutes_quiet_step v) (along_of_forall (fun _ => trivial) n v)
    rw [← htrail, ← htrail]
    rfl
  · have hrun (v : Vm) : run n v.quiet = mapState quiet (run n v) := commutes_quiet_run n v
    rw [← hrun, ← hrun]
    rfl
  · refine ⟨log_iterate_next vm false entries entries n, ?_⟩
    simp only [← traceLine_eq]
    exact log_iterate_next vm true entries entries n

end Vm

end WordMachine

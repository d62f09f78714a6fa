import WordMachine.Proofs.Lockstep.Commuting

/-!
# Output is only added to

Beside its console a virtual machine puts out diagnostics, what extensions print while the console
is elsewhere, and what their scripts note. It adds to all three and never looks at them. So a map of
them that goes through adding (`OutputMap`) goes through every action: the services in
`commutes_serve`, a step in `commutes_step`, a reset in `commutes_reset`. The map that puts earlier
output in front of what there is, `OutputMap.behind`, is one of them.

Whether instructions are logged is looked at only where a step starts. What comes behind the log
line of the instruction, `Vm.carryOut`, goes through a change of that as well (`OutputMap.tracing`).
-/

namespace WordMachine

open Utility (Target Scope)

section

variable {ε σ τ α : Type} {g : σ → τ} {s : σ} {c : Prop} [Decidable c]

/-- A map goes through a choice that both sides make alike. -/
theorem commutes_ite {act act₂ : EStateM ε σ α} {act' act₂' : EStateM ε τ α}
    (h : Commutes g act act' s) (h₂ : Commutes g act₂ act₂' s) :
    Commutes g (if c then act else act₂) (if c then act' else act₂') s := by
  split
  · exact h
  · exact h₂

/-- A check in front of an action. -/
theorem commutes_guard {e : ε} {k : PUnit → EStateM ε σ α} {k' : PUnit → EStateM ε τ α}
    (h : Commutes g (k ()) (k' ()) s) :
    Commutes g (if c then throw e >>= k else k ()) (if c then throw e >>= k' else k' ()) s :=
  commutes_ite rfl h

end

/-- What a step does behind the log line of its instruction. -/
def Vm.carryOut : Vm.Op Vm.Outcome := do
  match ← execute (fetch (← get).machine) with
  | .halt => return .halt
  | .next =>
    modifyMachine fun m => { m with ip := m.ip + 1 }
    return .next

/-- A step is the log line and then the rest. -/
theorem Vm.step_eq : Vm.step = (do traceNext; carryOut : Vm.Op Vm.Outcome) := rfl

/-- A map of what has been put out that goes through adding more. -/
structure OutputMap where
  log : Log → Log
  printed : ByteArray → ByteArray
  notes : Array Observation → Array Observation
  log_info : ∀ l message, log (l.info message) = (log l).info message
  log_warn : ∀ l message, log (l.warn message) = (log l).warn message
  printed_append : ∀ old new, printed (old ++ new) = printed old ++ new
  notes_append : ∀ old new, notes (old ++ new) = notes old ++ new

/-- The log behind earlier entries. -/
def Log.behind (entries : Array (Level × String)) (log : Log) : Log :=
  { log with entries := entries ++ log.entries }

/-- Adding to a log and putting earlier entries in front can be done in either order, since what is
logged depends on the level alone. -/
theorem Log.behind_add (entries : Array (Level × String)) (log : Log) (level : Level)
    (message : String) :
    (log.add level message).behind entries = (log.behind entries).add level message := by
  have henabled : (log.behind entries).enabled level = log.enabled level := rfl
  unfold add
  rw [henabled]
  split
  · simp [behind]
  · rfl

namespace OutputMap

/-- The map that puts earlier output in front. -/
def behind (entries : Array (Level × String)) (printed : ByteArray) (notes : Array Observation) :
    OutputMap where
  log := Log.behind entries
  printed := (printed ++ ·)
  notes := (notes ++ ·)
  log_info l message := l.behind_add entries .info message
  log_warn l message := l.behind_add entries .warn message
  printed_append _ _ := ByteArray.append_assoc.symm
  notes_append _ _ := Array.append_assoc.symm

variable {M α : Type} (f : OutputMap)

/-- The host with its log mapped. -/
def host (h : Host) : Host := { h with log := f.log h.log }

/-- The virtual machine with all its output mapped. -/
def vm (v : Vm M) : Vm M :=
  { v with host := f.host v.host, printed := f.printed v.printed, notes := f.notes v.notes }

/-- The virtual machine with all its output mapped, and whether instructions are logged as well. -/
def tracing (b : Bool → Bool) (v : Vm M) : Vm M := { f.vm v with trace := b v.trace }

/-! ## The save store -/

/-- A save store and a host whose log is mapped. -/
def store (s : SaveStore × Host) : SaveStore × Host := (s.1, f.host s.2)

/-- Opening a save file does not look at the log, to which it may add a line. -/
theorem openFile_host (h : Host) (path : String) : SaveStore.openFile (f.host h) path =
    (SaveStore.openFile h path).map fun (number, h) => (number, f.host h) := by
  unfold SaveStore.openFile
  dsimp only [host]
  cases hopen : h.disk.openFile path with
  | error cause => rfl
  | ok opened =>
    obtain ⟨number, disk⟩ := opened
    -- the file is as long as it should be, or it is made anew and that is logged
    by_cases hsize : (disk.bytes number).size = SaveStore.byteSize
    · simp [hsize, bind, Except.bind, pure, Except.pure, Except.map]
    · cases h.disk.exists? path <;>
        simp [hsize, bind, Except.bind, pure, Except.pure, Except.map, f.log_info, f.log_warn]

variable (s : SaveStore × Host)

/-- The file of a save store is found, or opened, whatever the log holds. -/
theorem commutes_fileNumber : Commutes f.store SaveStore.fileNumber SaveStore.fileNumber s := by
  obtain ⟨⟨path, file⟩, h⟩ := s
  cases file with
  | some number => rfl
  | none =>
    simp only [Commutes, SaveStore.fileNumber, store, f.openFile_host]
    cases SaveStore.openFile h path <;> rfl

/-- A range of slots is read whatever the log holds. -/
theorem commutes_readRange (start : Word) (length : Nat) :
    Commutes f.store (SaveStore.readRange start length) (SaveStore.readRange start length) s := by
  unfold SaveStore.readRange
  refine commutes_guard (commutes_ite (commutes_pure _) ?_)
  refine (f.commutes_fileNumber s).bind fun number t _ => commutes_get_bind ?_
  obtain ⟨save, h⟩ := t
  dsimp only [store, host]
  split
  · exact commutes_pure _
  · exact commutes_throw _

/-- What is done to the disk does not look at the log. -/
theorem commutes_onDisk (act : EStateM OsError Disk α) :
    Commutes f.store (SaveStore.onDisk act) (SaveStore.onDisk act) s := by
  obtain ⟨save, h⟩ := s
  simp only [Commutes, SaveStore.onDisk, store, host]
  cases act h.disk <;> rfl

/-- A range of slots is written whatever the log holds. -/
theorem commutes_writeRange (start : Word) (words : List Word) :
    Commutes f.store (SaveStore.writeRange start words) (SaveStore.writeRange start words) s := by
  unfold SaveStore.writeRange
  refine commutes_guard (commutes_ite (commutes_pure _) ?_)
  exact (f.commutes_fileNumber s).bind fun _ t _ => f.commutes_onDisk t _

/-- One slot is read whatever the log holds. -/
theorem commutes_read (slot : Word) :
    Commutes f.store (SaveStore.read slot) (SaveStore.read slot) s := by
  unfold SaveStore.read
  refine commutes_guard ?_
  exact (f.commutes_readRange s slot 1).bind fun _ _ _ => commutes_pure _

/-- One slot is written whatever the log holds. -/
theorem commutes_write (slot w : Word) :
    Commutes f.store (SaveStore.write slot w) (SaveStore.write slot w) s := by
  unfold SaveStore.write
  exact commutes_guard (f.commutes_writeRange s slot [w])

/-! ## The parts of a virtual machine -/

variable {b : Bool → Bool} (v : Vm M)

/-- What works on the machine does not look at the output. -/
theorem commutes_onMachine (act : EStateM Fault M α) :
    Commutes (f.tracing b) (Vm.onMachine act) (Vm.onMachine act) v := by
  simp only [Commutes, Vm.onMachine, tracing, vm]
  cases act v.machine <;> rfl

/-- Changing the machine does not look at the output. -/
theorem commutes_modifyMachine (g : M → M) :
    Commutes (f.tracing b) (Vm.modifyMachine g) (Vm.modifyMachine g) v := rfl

/-- What works on the console does not look at what is put out beside it. -/
theorem commutes_onConsole (act : Console.Op α) :
    Commutes (f.tracing b) (Vm.onConsole act) (Vm.onConsole act) v := by
  simp only [Commutes, Vm.onConsole, tracing, vm]
  cases act v.console <;> rfl

/-- What works on the save store does not look at the output, if it does not look at the log. -/
theorem commutes_onSave {act : SaveStore.Op α} (h : Commutes f.store act act (v.save, v.host)) :
    Commutes (f.tracing b) (Vm.onSave act) (Vm.onSave act) v := by
  have h' : act (v.save, f.host v.host) = mapState f.store (act (v.save, v.host)) := h
  simp only [Commutes, Vm.onSave, tracing, vm, h']
  cases act (v.save, v.host) <;> rfl

/-- The same for what works on the host. -/
theorem commutes_onHost {act : EStateM Fault Host α} (h : Commutes f.host act act v.host) :
    Commutes (f.tracing b) (Vm.onHost act) (Vm.onHost act) v := by
  have h' : act (f.host v.host) = mapState f.host (act v.host) := h
  simp only [Commutes, Vm.onHost, tracing, vm, h']
  cases act v.host <;> rfl

/-- A check does not look at the output. -/
theorem commutes_check (r : Except Fault α) :
    Commutes (f.tracing b) (Vm.check r) (Vm.check r) v := by
  cases r <;> rfl

/-! ## Names and extensions -/

/-- A request that does not look at the output is served under a name without looking at it. -/
theorem commutes_withName {text : String} {serve : String → Vm.OpOn M α}
    (h : ∀ t, Commutes (f.tracing b) (serve text) (serve text) t) :
    Commutes (f.tracing b) (Vm.withName text serve) (Vm.withName text serve) v := by
  have hrelease (handle : Handle) (t : Vm M) :
      Commutes (f.tracing b) (Vm.releaseName handle) (Vm.releaseName handle) t := by
    simp only [Commutes, Vm.releaseName, tracing, vm]
    cases t.names.dispose handle <;> rfl
  have hname : ((v.names.assign text).2.get? (v.names.assign text).1).getD "" = text := by
    rw [Vm.get?_assign]
    rfl
  have hserve : serve text { f.tracing b v with names := (v.names.assign text).2 } =
      mapState (f.tracing b) (serve text { v with names := (v.names.assign text).2 }) :=
    h { v with names := (v.names.assign text).2 }
  have hnames : (f.tracing b v).names = v.names := rfl
  simp only [Commutes, Vm.withName, hnames, hname, hserve]
  -- the handle is released in the state that the request leaves behind, however it ends
  cases serve text { v with names := (v.names.assign text).2 } with
  | ok x t => exact (hrelease _ t).bind fun _ _ _ => commutes_pure x
  | error e t => exact (hrelease _ t).bind fun _ _ _ => commutes_throw e

/-- Showing what an extension printed adds to the console or to the output. -/
theorem tracing_showPrinted (text : String) (fromLibrary : Bool) :
    f.tracing b (Vm.showPrinted v text fromLibrary) =
      Vm.showPrinted (f.tracing b v) text fromLibrary := by
  obtain ⟨machine, source, trace, names, ⟨sink, column⟩, save, loader, libraries, h, printed,
    notes⟩ := v
  -- a terminal shows the text, a capturing console leaves it to the output
  cases sink with
  | terminal t => rfl
  | capture c => simp only [Vm.showPrinted, tracing, vm, f.printed_append]

/-- A utility runs on the machine alone; what it printed and noted is added when it ends, with a
fault or without. -/
theorem commutes_runEntry [Target M] (entry : Entry) (fromLibrary : Bool) :
    Commutes (f.tracing b) (Vm.runEntry entry fromLibrary) (Vm.runEntry entry fromLibrary) v := by
  have hfinish (scope : Scope M) : f.tracing b (Vm.showPrinted { v with
        machine := scope.machine
        notes := v.notes ++ scope.notes } scope.printed fromLibrary) =
      Vm.showPrinted { f.tracing b v with
        machine := scope.machine
        notes := f.notes v.notes ++ scope.notes } scope.printed fromLibrary := by
    rw [tracing_showPrinted, ← f.notes_append]
    rfl
  simp only [Commutes, Vm.runEntry, tracing, vm]
  cases entry.run (Scope.ofMachine v.machine) with
  | ok x scope => exact congrArg (EStateM.Result.ok ()) (hfinish scope).symm
  | error e scope => exact congrArg (EStateM.Result.error e) (hfinish scope).symm

/-- An extension is looked for whatever the log holds; finding it may add a line. -/
theorem load_log (opens : String → Option Library) (name : String) (l : Loader) (log : Log) :
    Loader.load opens name (l, f.log log) =
      mapState (fun (l, log) => (l, f.log log)) (Loader.load opens name (l, log)) := by
  unfold Loader.load
  dsimp only
  -- known already, not to be found, or found now and logged
  split
  · rfl
  · split
    · rfl
    · simp only [mapState_ok, f.log_info]

/-- Loading an extension does not look at the output. -/
theorem commutes_loadExtension (name : String) :
    Commutes (f.tracing b) (Vm.loadExtension name) (Vm.loadExtension name) v := by
  simp only [Commutes, Vm.loadExtension, tracing, vm, host, f.load_log]
  cases Loader.load (v.libraries.open? v.host.disk) name (v.loader, v.host.log) <;> rfl

/-- Calling a utility does not look at the output. -/
theorem commutes_callExtension [Target M] (name : String) (index : Word) :
    Commutes (f.tracing b) (Vm.callExtension name index) (Vm.callExtension name index) v :=
  (f.commutes_loadExtension v name).bind fun _ t _ =>
    (f.commutes_check t _).bind fun entry t _ => f.commutes_runEntry t entry _

/-! ## Resets -/

/-- Reading an image file adds to the log without looking at it. -/
theorem commutes_readImage (path : String) (h : Host) :
    Commutes f.host (Vm.readImage path) (Vm.readImage path) h := by
  refine (commutes_modify ?_).bind fun _ t _ => commutes_get_bind ?_
  · simp only [host, f.log_info]
  · dsimp only [host]
    split
    · exact commutes_throw _
    · exact commutes_ite ((commutes_modify (by simp only [host, f.log_warn])).bind
        fun _ _ _ => commutes_pure _) (commutes_pure _)

/-- A restart does not look at the output. -/
theorem commutes_restart (load : M → Image → M) :
    Commutes (f.tracing b) (Vm.restart load) (Vm.restart load) v := by
  have hsource : Commutes (f.tracing b) Vm.sourceImage Vm.sourceImage v := by
    obtain ⟨machine, source, trace, names, console, save, loader, libraries, h, printed, notes⟩ := v
    refine commutes_get_bind ?_
    cases source with
    | memory img => exact commutes_pure img
    | file path => exact f.commutes_onHost _ (f.commutes_readImage path h)
  exact hsource.bind fun img t _ => commutes_modify rfl

/-! ## Steps -/

/-- Taking an operand does not look at the output. -/
theorem commutes_pop (v : Vm) : Commutes (f.tracing b) Vm.pop Vm.pop v := f.commutes_onMachine v _

/-- No service looks at the output. -/
theorem commutes_serve (service : Service) (v : Vm) :
    Commutes (f.tracing b) (Vm.serve service) (Vm.serve service) v := by
  -- each service pops its operands and then does one thing to one part
  cases service with
  | reserved => exact commutes_throw _
  | logWord => exact (f.commutes_pop v).bind fun w v _ => f.commutes_onConsole v _
  | logString =>
    exact (f.commutes_pop v).bind fun address v _ => commutes_get_bind
      (f.commutes_withName v fun t => f.commutes_onConsole t _)
  | saveRead =>
    exact (f.commutes_pop v).bind fun slot v _ =>
      (f.commutes_onSave v (f.commutes_read _ slot)).bind fun w v _ => f.commutes_onMachine v _
  | saveWrite =>
    exact (f.commutes_pop v).bind fun slot v _ => (f.commutes_pop v).bind fun w v _ =>
      f.commutes_onSave v (f.commutes_write _ slot w)
  | saveToMemory =>
    exact (f.commutes_pop v).bind fun address v _ => (f.commutes_pop v).bind fun length v _ =>
      (f.commutes_pop v).bind fun start v _ => commutes_get_bind ((f.commutes_check v _).bind
        fun _ v _ => (f.commutes_onSave v (f.commutes_readRange _ start length.toNat)).bind
          fun words v _ => f.commutes_modifyMachine v _)
  | memoryToSave =>
    exact (f.commutes_pop v).bind fun address v _ => (f.commutes_pop v).bind fun length v _ =>
      (f.commutes_pop v).bind fun start v _ => commutes_get_bind ((f.commutes_check v _).bind
        fun words v _ => f.commutes_onSave v (f.commutes_writeRange _ start words))
  | extension =>
    exact (f.commutes_pop v).bind fun address v _ => (f.commutes_pop v).bind fun index v _ =>
      commutes_get_bind (f.commutes_withName v fun t => f.commutes_callExtension t _ index)

/-- An interrupt does not look at the output. -/
theorem commutes_interrupt (v : Vm) : Commutes (f.tracing b) Vm.interrupt Vm.interrupt v := by
  refine (f.commutes_pop v).bind fun selector v _ => ?_
  cases Service.ofSelector? selector with
  | none => exact commutes_throw _
  | some service => exact f.commutes_serve service v

/-- No instruction looks at the output, nor at whether instructions are logged. -/
theorem commutes_execute (i : Instruction) (v : Vm) :
    Commutes (f.tracing b) (Vm.execute i) (Vm.execute i) v := by
  unfold Vm.execute
  split
  · -- the interrupt, the reset and the halt, then what the machine does by itself
    exact (f.commutes_interrupt v).bind fun _ v _ => commutes_pure _
  · exact (f.commutes_restart v _).bind fun _ v _ => commutes_pure _
  · exact (f.commutes_onConsole v _).bind fun _ v _ => commutes_pure _
  · exact (f.commutes_onMachine v _).bind fun _ v _ => commutes_pure _
  · exact (f.commutes_onMachine v _).bind fun _ v _ => commutes_pure _
  · exact commutes_pure _

/-- The rest of a step behind the log line does not either. -/
theorem commutes_carryOut (v : Vm) : Commutes (f.tracing b) Vm.carryOut Vm.carryOut v := by
  refine commutes_get_bind ((f.commutes_execute _ v).bind fun outcome v _ => ?_)
  cases outcome with
  | halt => exact commutes_pure _
  | next => exact (f.commutes_modifyMachine v _).bind fun _ v _ => commutes_pure _

/-- A log line is added if lines are wanted; here the map must leave alone whether they are. -/
theorem commutes_traceWith (line : M → String) :
    Commutes f.vm (Vm.traceWith line) (Vm.traceWith line) v := by
  refine commutes_get_bind ?_
  change Commutes f.vm (if v.trace then _ else _) (if v.trace then _ else _) v
  split
  · refine f.commutes_onHost (b := id) v (commutes_modify ?_)
    simp only [host, f.log_info]
  · exact commutes_pure ()

/-- A step does not look at what has been put out. -/
theorem commutes_step (v : Vm) : Commutes f.vm Vm.step Vm.step v :=
  (f.commutes_traceWith v _).bind fun _ v _ => f.commutes_carryOut (b := id) v

/-- Neither does a reset. -/
theorem commutes_reset (v : Vm) : Commutes f.vm Vm.reset Vm.reset v :=
  f.commutes_restart (b := id) v _

end OutputMap

end WordMachine

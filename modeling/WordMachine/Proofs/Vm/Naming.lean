import WordMachine.Proofs.Vm.Reachable

/-!
# Names that nobody sees

A service that gets a string by its address is served under a name: the string is entered into the
name table, looked up again, and released when the service ends. None of this can be seen. The
services that are served so do not look at the table (`commutes_callExtension_names`), the look-up
finds the string that was entered, and the table is empty before and after. So the service does what
it does when the string is handed to it directly: `withName_eq_serve`.

`serveDirectly`, `interruptDirectly` and `stepDirectly` are the services, the interrupt and the step
of a virtual machine without a name table. From every state that a virtual machine can get into,
whole runs of the two kinds are the same (`names_are_invisible`).
-/

namespace WordMachine

open Utility (Target Scope)

namespace Vm

/-! ## What does not look at the names -/

section

variable {M α : Type} (names : NameTable) (vm : Vm M)

/-- The virtual machine with another name table. -/
def withNames (vm : Vm M) : Vm M := { vm with names }

/-- Printing does not look at the name table. -/
theorem commutes_onConsole_names (act : Console.Op α) :
    Commutes (withNames names) (onConsole act) (onConsole act) vm := by
  simp only [Commutes, onConsole, withNames]
  cases act vm.console <;> rfl

/-- Showing what an extension printed does not look at it. -/
theorem withNames_showPrinted (text : String) (fromLibrary : Bool) :
    (showPrinted vm text fromLibrary).withNames names =
      showPrinted (vm.withNames names) text fromLibrary := by
  obtain ⟨machine, source, trace, old, ⟨sink, column⟩, save, loader, libraries, host, printed,
    notes⟩ := vm
  cases sink <;> rfl

/-- Running a utility does not look at it, since a utility is given the machine alone. -/
theorem commutes_runEntry_names [Target M] (entry : Entry) (fromLibrary : Bool) :
    Commutes (withNames names) (runEntry entry fromLibrary) (runEntry entry fromLibrary) vm := by
  have hfinish (scope : Scope M) := withNames_showPrinted names
    { vm with machine := scope.machine, notes := vm.notes ++ scope.notes } scope.printed fromLibrary
  simp only [Commutes, runEntry, withNames]
  cases entry.run (Scope.ofMachine vm.machine) with
  | ok x scope => exact congrArg (EStateM.Result.ok ()) (hfinish scope).symm
  | error e scope => exact congrArg (EStateM.Result.error e) (hfinish scope).symm

/-- Calling an extension does not look at the name table. -/
theorem commutes_callExtension_names [Target M] (name : String) (index : Word) :
    Commutes (withNames names) (callExtension name index) (callExtension name index) vm := by
  have hload : Commutes (withNames names) (loadExtension name) (loadExtension name) vm := by
    simp only [Commutes, loadExtension, withNames]
    cases Loader.load (vm.libraries.open? vm.host.disk) name (vm.loader, vm.host.log) <;> rfl
  refine hload.bind fun ext t _ => ?_
  have hcheck : Commutes (withNames names) (check (Loader.entry name ext index))
      (check (Loader.entry name ext index)) t := by
    cases Loader.entry name ext index <;> rfl
  exact hcheck.bind fun entry t _ => commutes_runEntry_names names t entry ext.fromLibrary

/-- A request that neither looks at the names nor changes them is served under a name, by a virtual
machine that keeps none, as if it got the string directly. -/
theorem withName_eq_serve {text : String} (serve : String → OpOn M α) {vm : Vm M}
    (hvm : Nameless vm) (hkeep : ∀ t : Vm M, (stateOf (serve text t)).names = t.names)
    (hblind : ∀ names, Commutes (withNames names) (serve text) (serve text) vm) :
    withName text serve vm = serve text vm := by
  have hserve : serve text { vm with names := (NameTable.empty.assign text).2 } =
      mapState (withNames (NameTable.empty.assign text).2) (serve text vm) := hblind _
  have hnames : (stateOf (serve text vm)).names = .empty := (hkeep vm).trans hvm
  rw [withName_of_nameless hvm hkeep, hserve]
  -- the request leaves the empty table behind, so emptying the table again changes nothing
  have hback (t : Vm M) (ht : t.names = .empty) :
      { t.withNames (NameTable.empty.assign text).2 with names := .empty } = t := by
    rw [← ht]
    rfl
  cases hresult : serve text vm with
  | ok x t =>
    rw [hresult] at hnames
    rw [mapState_ok, mapState_ok, hback t hnames]
  | error e t =>
    rw [hresult] at hnames
    rw [mapState_error, mapState_error, hback t hnames]

end

/-! ## A virtual machine without names -/

/-- Serves a service, with its string handed over as it is. -/
def serveDirectly : Service → Op Unit
  | .logString => do
    let address ← pop
    let text := (← get).machine.stringAt address
    onConsole (Console.logText text)
  | .extension => do
    let address ← pop
    let index ← pop
    let text := (← get).machine.stringAt address
    callExtension text index
  | service => serve service

/-- The interrupt instruction, with strings handed over as they are. -/
def interruptDirectly : Op Unit := do
  let selector ← pop
  match Service.ofSelector? selector with
  | none => throw (.undefinedUtility selector)
  | some service => serveDirectly service

/-- Carries an instruction out, with strings handed over as they are. -/
def executeDirectly : Instruction → Op Outcome
  | .extended .interrupt => do
    interruptDirectly
    return .next
  | i => execute i

/-- Carries out one instruction, with strings handed over as they are. -/
def stepDirectly : Op Outcome := do
  traceNext
  match ← executeDirectly (fetch (← get).machine) with
  | .halt => return .halt
  | .next =>
    modifyMachine fun m => { m with ip := m.ip + 1 }
    return .next

variable {vm : Vm}

/-- A service does what it does when strings are handed over directly. -/
theorem serve_eq_serveDirectly (hvm : Nameless vm) (service : Service) :
    serve service vm = serveDirectly service vm := by
  -- only the two services that get a string enter a name
  cases service with
  | logString =>
    refine bind_congr_of_ok fun address t ht => ?_
    have hnameless : Nameless t := (nameless_onMachine _).of_ok hvm ht
    exact withName_eq_serve (fun text => onConsole (Console.logText text)) hnameless
      (names_onConsole _) fun names => commutes_onConsole_names names t _
  | extension =>
    refine bind_congr_of_ok fun address t ht => bind_congr_of_ok fun index u hu => ?_
    have hnameless : Nameless u :=
      (nameless_onMachine _).of_ok ((nameless_onMachine _).of_ok hvm ht) hu
    exact withName_eq_serve (fun name => callExtension name index) hnameless
      (names_callExtension _ index) fun names => commutes_callExtension_names names u _ index
  | reserved | logWord | saveRead | saveWrite | saveToMemory | memoryToSave => rfl

/-- So does an interrupt. -/
theorem interrupt_eq_interruptDirectly (hvm : Nameless vm) :
    interrupt vm = interruptDirectly vm := by
  refine bind_congr_of_ok fun selector t ht => ?_
  have hnameless : Nameless t := (nameless_onMachine _).of_ok hvm ht
  cases Service.ofSelector? selector with
  | none => rfl
  | some service => exact serve_eq_serveDirectly hnameless service

/-- So does every instruction, of which only the interrupt is served under names. -/
theorem execute_eq_executeDirectly (hvm : Nameless vm) (i : Instruction) :
    execute i vm = executeDirectly i vm := by
  unfold executeDirectly
  split
  · exact bind_congr_left (interrupt_eq_interruptDirectly hvm)
  · rfl

/-- So does a step. -/
theorem step_eq_stepDirectly (hvm : Nameless vm) : step vm = stepDirectly vm := by
  refine bind_congr_of_ok fun _ t ht => ?_
  have hnameless : Nameless t := (preserves_traceWith fun _ _ h => h).of_ok hvm ht
  exact bind_congr_left (execute_eq_executeDirectly hnameless (fetch t.machine))

/-- Runs of any length are the same. -/
theorem trail_step_eq_stepDirectly (hvm : Nameless vm) (n : Nat) :
    trail step n vm = trail stepDirectly n vm := by
  -- by induction on the length, for every state without names
  induction n generalizing vm with
  | zero => rfl
  | succ n ih =>
    -- the next state has no names either, whether the step failed or not
    have hnext := ih (nameless_step vm hvm)
    rw [trail, trail, hnext, step_eq_stepDirectly hvm]

/-! ## Reachable states -/

/-- Names cannot be seen. In every state that a virtual machine can get into, the name table is the
one it started with: no names, no holes, mark 0. There a string that is entered is found under its
handle, and releasing the handle gives the table back. So every service, and with it the interrupt
and runs of any length, does what it does when strings are handed over directly: the same results,
the same faults and the same state left behind, in which the table is empty again whether the
service ended or failed. -/
theorem names_are_invisible (h : Reachable vm) :
    vm.names = ⟨∅, [], 0⟩ ∧
    (∀ text, (vm.names.assign text).2.get? (vm.names.assign text).1 = some text ∧
      (vm.names.assign text).2.dispose (vm.names.assign text).1 = .ok vm.names) ∧
    (∀ service, serve service vm = serveDirectly service vm ∧
      (stateOf (serve service vm)).names = ⟨∅, [], 0⟩) ∧
    interrupt vm = interruptDirectly vm ∧ (stateOf (interrupt vm)).names = ⟨∅, [], 0⟩ ∧
    ∀ n, trail step n vm = trail stepDirectly n vm := by
  have hvm : Nameless vm := h.names_eq_empty
  have hinterrupt : Preserves Nameless interrupt := by
    refine (nameless_onMachine _).bind fun selector => ?_
    split
    · exact preserves_throw _
    · exact nameless_serve _
  refine ⟨hvm, fun text => ⟨get?_assign _ text, ?_⟩, fun service => ?_,
    interrupt_eq_interruptDirectly hvm, hinterrupt vm hvm, trail_step_eq_stepDirectly hvm⟩
  · rw [hvm]
    exact NameTable.dispose_assign_empty text
  · exact ⟨serve_eq_serveDirectly hvm service, nameless_serve service vm hvm⟩

/-- A string printed to a sink that takes nothing: the step fails, and the name is gone. -/
theorem names_are_invisible_refused :
    let full : Sink := .capture ⟨.empty, some 0, none⟩
    let services : Services := ⟨.ofSink full, .ofPath "s", .ofDirs [], []⟩
    let machine : Machine := { (default : Machine) with
      code := .fill 1
      data := (Segment.fill 0).set 0 0x4100
      stack := ⟨(Segment.fill 0).set 1 5, 2, by decide⟩ }
    let vm : Vm := { ofImage .empty services ⟨.empty, .empty⟩ with machine }
    Reachable vm ∧ (∃ vm', step vm = .error (.output .shortWrite) vm' ∧ vm'.names = ⟨∅, [], 0⟩) ∧
      interrupt vm = interruptDirectly vm := by
  intro full services machine vm
  have hreach : Reachable vm := .edit machine (.start _ _ _ _)
  -- the step fails by evaluation; that the name is gone comes from the theorem, at the next state
  have hfault : (match step vm with | .error e _ => some e | .ok _ _ => none) =
      some (.output .shortWrite) := by decide +kernel
  refine ⟨hreach, ?_, (names_are_invisible hreach).2.2.2.1⟩
  cases hstep : step vm with
  | ok x vm' =>
    rw [hstep] at hfault
    cases hfault
  | error e vm' =>
    rw [hstep] at hfault
    obtain rfl := Option.some.inj hfault
    have hafter : Reachable (stateOf (step vm)) := .step hreach
    rw [hstep] at hafter
    exact ⟨vm', rfl, (names_are_invisible hafter).1⟩

end Vm

end WordMachine

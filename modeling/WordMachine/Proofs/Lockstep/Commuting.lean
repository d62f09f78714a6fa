import WordMachine.Proofs.Extension.Serving
import WordMachine.Vm.Step

/-!
# Actions in lock step

Two machines run in lock step when a map from the states of one to those of the other takes every
action of the first to the matching action of the second: the same result or the same fault, and the
state left behind is the image of the state left behind. `Commutes` says this of one pair of actions
at one state; it goes through sequencing (`Commutes.bind`), where the second action is only looked
at in states that the first one leads to.

An action on one part of a virtual machine is the action on that part, with the rest of the state
put around what it leaves behind (`Vm.onMachine_eq`, `Vm.onSave_eq`, `Vm.onHost_eq`). So what it
gives and where it fails can be read off the part.

The services of a virtual machine do not look at the machine they serve, so their actions commute
with every map of machines. These facts are collected here: console, save store, host, name table,
loader, reset.
-/

namespace WordMachine

variable {ε σ τ α β : Type}

/-- A result with the state it leaves behind mapped. -/
def mapState (f : σ → τ) : EStateM.Result ε σ α → EStateM.Result ε τ α
  | .ok x s => .ok x (f s)
  | .error e s => .error e (f s)

/-- The state of a result is mapped, the result stays. -/
@[simp]
theorem mapState_ok (f : σ → τ) (x : α) (s : σ) :
    mapState f (.ok x s : EStateM.Result ε σ α) = .ok x (f s) := rfl

/-- The state of a fault is mapped, the fault stays. -/
@[simp]
theorem mapState_error (f : σ → τ) (e : ε) (s : σ) :
    mapState f (.error e s : EStateM.Result ε σ α) = .error e (f s) := rfl

/-- What is left behind is the image of what was left behind. -/
@[simp]
theorem stateOf_mapState (f : σ → τ) (r : EStateM.Result ε σ α) :
    stateOf (mapState f r) = f (stateOf r) := by
  cases r <;> rfl

/-- Mapping the state neither makes a result nor loses one. -/
theorem mapState_eq_ok {f : σ → τ} {r : EStateM.Result ε σ α} {x : α} {t : τ}
    (h : mapState f r = .ok x t) : ∃ s, r = .ok x s ∧ t = f s := by
  cases r with
  | ok y s =>
    obtain ⟨rfl, rfl⟩ := EStateM.Result.ok.inj h
    exact ⟨s, rfl, rfl⟩
  | error e s => cases h

/-- Nor does it make a fault or lose one. -/
theorem mapState_eq_error {f : σ → τ} {r : EStateM.Result ε σ α} {e : ε} {t : τ}
    (h : mapState f r = .error e t) : ∃ s, r = .error e s ∧ t = f s := by
  cases r with
  | ok x s => cases h
  | error e' s =>
    obtain ⟨rfl, rfl⟩ := EStateM.Result.error.inj h
    exact ⟨s, rfl, rfl⟩

/-- On the image of `s`, the action `act'` does what `act` does on `s`. -/
def Commutes (f : σ → τ) (act : EStateM ε σ α) (act' : EStateM ε τ α) (s : σ) : Prop :=
  act' (f s) = mapState f (act s)

section

variable {f : σ → τ} {s : σ}

/-- Giving a result commutes with every map. -/
theorem commutes_pure (x : α) : Commutes f (pure x : EStateM ε σ α) (pure x) s := rfl

/-- Faulting commutes with every map. -/
theorem commutes_throw (e : ε) : Commutes f (throw e : EStateM ε σ α) (throw e) s := rfl

/-- Changes of the state commute if the functions behind them do. -/
theorem commutes_modify {g : σ → σ} {g' : τ → τ} (h : g' (f s) = f (g s)) :
    Commutes f (modify g : EStateM ε σ Unit) (modify g') s := by
  change EStateM.Result.ok () (g' (f s)) = EStateM.Result.ok () (f (g s))
  rw [h]

/-- Sequencing: the continuations need to agree only where the first action leads. -/
theorem Commutes.bind {act : EStateM ε σ α} {act' : EStateM ε τ α} {k : α → EStateM ε σ β}
    {k' : α → EStateM ε τ β} (h : Commutes f act act' s)
    (hk : ∀ x t, act s = .ok x t → Commutes f (k x) (k' x) t) :
    Commutes f (act >>= k) (act' >>= k') s := by
  have h' : act' (f s) = mapState f (act s) := h
  unfold Commutes
  cases hs : act s with
  | ok x t =>
    rw [hs, mapState_ok] at h'
    rw [bind_of_ok hs, bind_of_ok h']
    exact hk x t hs
  | error e t =>
    rw [hs, mapState_error] at h'
    rw [bind_of_error hs, bind_of_error h', mapState_error]

/-- An action that goes on with the state it is in. -/
theorem commutes_get_bind {k : σ → EStateM ε σ β} {k' : τ → EStateM ε τ β}
    (h : Commutes f (k s) (k' (f s)) s) : Commutes f (get >>= k) (get >>= k') s := h

end

/-! ## Whole runs -/

/-- The results of `n` runs of an action, each in the state that the one before left behind, whether
it was a fault or not. -/
def trail (act : EStateM ε σ α) : (n : Nat) → σ → List (EStateM.Result ε σ α)
  | 0, _ => []
  | n + 1, s => act s :: trail act n (stateOf (act s))

/-- A property holds in the first `n` states of such a run. -/
def Along (act : EStateM ε σ α) (p : σ → Prop) : (n : Nat) → σ → Prop
  | 0, _ => True
  | n + 1, s => p s ∧ Along act p n (stateOf (act s))

/-- Actions that commute in every state of a run keep the whole run in lock step. -/
theorem trail_map {f : σ → τ} {act : EStateM ε σ α} {act' : EStateM ε τ α} {p : σ → Prop}
    (h : ∀ s, p s → Commutes f act act' s) {n : Nat} {s : σ} (hs : Along act p n s) :
    trail act' n (f s) = (trail act n s).map (mapState f) := by
  -- by induction on the number of steps; the rest of the run starts in mapped states
  induction n generalizing s with
  | zero => rfl
  | succ n ih =>
    have hstep : act' (f s) = mapState f (act s) := h s hs.1
    rw [trail, hstep, stateOf_mapState, ih hs.2, trail, List.map_cons]

/-- What holds in every state holds along every run. -/
theorem along_of_forall {act : EStateM ε σ α} {p : σ → Prop} (h : ∀ s, p s) (n : Nat) (s : σ) :
    Along act p n s := by
  induction n generalizing s with
  | zero => trivial
  | succ n ih => exact ⟨h s, ih _⟩

/-- What follows from a property holds along a run wherever the property does. -/
theorem Along.imp {act : EStateM ε σ α} {p q : σ → Prop} (h : ∀ s, p s → q s) {n : Nat} {s : σ}
    (hs : Along act p n s) : Along act q n s := by
  induction n generalizing s with
  | zero => trivial
  | succ n ih => exact ⟨h s hs.1, ih hs.2⟩

/-- A property of the image holds along the run of the image. -/
theorem along_map {f : σ → τ} {act : EStateM ε σ α} {act' : EStateM ε τ α} {p : τ → Prop}
    (h : ∀ s, p (f s) → Commutes f act act' s) {n : Nat} {s : σ} :
    Along act (fun s => p (f s)) n s ↔ Along act' p n (f s) := by
  induction n generalizing s with
  | zero => exact Iff.rfl
  | succ n ih =>
    -- the steps agree where the property holds, which is all that the rest of the run needs
    refine and_congr_right fun hp => ?_
    have hstep : act' (f s) = mapState f (act s) := h s hp
    rw [hstep, stateOf_mapState]
    exact ih

/-- The results of actions that are done one after the other, each in the state that the one before
left behind, whether it was a fault or not. -/
def results {κ : Type} (act : κ → EStateM ε σ α) : List κ → σ → List (EStateM.Result ε σ α)
  | [], _ => []
  | k :: ks, s => act k s :: results act ks (stateOf (act k s))

/-- Actions that commute in every state keep a whole run of them in lock step. -/
theorem results_map {κ : Type} {f : σ → τ} {act : κ → EStateM ε σ α} {act' : κ → EStateM ε τ α}
    (h : ∀ k s, Commutes f (act k) (act' k) s) (ks : List κ) (s : σ) :
    results act' ks (f s) = (results act ks s).map (mapState f) := by
  induction ks generalizing s with
  | nil => rfl
  | cons k ks ih =>
    have hk : act' k (f s) = mapState f (act k s) := h k s
    rw [results, hk, stateOf_mapState, ih, results, List.map_cons]

/-! ## Actions on a part -/

/-- An action on the stack changes the stack only. -/
theorem Machine.onStack_eq (act : Stack.Op α) (m : Machine) :
    onStack act m = mapState (fun stack => { m with stack }) (act m.stack) := by
  simp only [onStack]
  cases act m.stack <;> rfl

namespace Vm

variable {M : Type} {vm t : Vm M} {x : α} {e : Fault}

/-- An action on the machine leaves the services alone. -/
theorem onMachine_eq (act : EStateM Fault M α) (vm : Vm M) :
    onMachine act vm = mapState (fun machine => { vm with machine }) (act vm.machine) := by
  simp only [onMachine]
  cases act vm.machine <;> rfl

/-- An action on the save store changes the store and the host only. -/
theorem onSave_eq (act : SaveStore.Op α) (vm : Vm M) :
    onSave act vm =
      mapState (fun s => { vm with save := s.1, host := s.2 }) (act (vm.save, vm.host)) := by
  simp only [onSave]
  cases act (vm.save, vm.host) <;> rfl

/-- An action on the host changes the host only. -/
theorem onHost_eq (act : EStateM Fault Host α) (vm : Vm M) :
    onHost act vm = mapState (fun host => { vm with host }) (act vm.host) := by
  simp only [onHost]
  cases act vm.host <;> rfl

/-- An action on the console that succeeds changes the console only. -/
theorem onConsole_of_ok {act : Console.Op α} {console : Console}
    (h : act vm.console = .ok x console) : onConsole act vm = .ok x { vm with console } := by
  simp only [onConsole, h]

/-- A fault of the console is a fault of the output. -/
theorem onConsole_of_error {act : Console.Op α} {cause : OsError} {console : Console}
    (h : act vm.console = .error cause console) :
    onConsole act vm = .error (.output cause) { vm with console } := by
  simp only [onConsole, h]

/-- What an action on the machine that succeeds has done. -/
theorem onMachine_eq_ok {act : EStateM Fault M α} (h : onMachine act vm = .ok x t) :
    ∃ m, act vm.machine = .ok x m ∧ t = { vm with machine := m } := by
  rw [onMachine_eq] at h
  exact mapState_eq_ok h

/-- What an action on the machine that faults has left. -/
theorem onMachine_eq_error {act : EStateM Fault M α} (h : onMachine act vm = .error e t) :
    ∃ m, act vm.machine = .error e m ∧ t = { vm with machine := m } := by
  rw [onMachine_eq] at h
  exact mapState_eq_error h

/-- What an action on the save store that succeeds has done. -/
theorem onSave_eq_ok {act : SaveStore.Op α} (h : onSave act vm = .ok x t) :
    ∃ s, act (vm.save, vm.host) = .ok x s ∧ t = { vm with save := s.1, host := s.2 } := by
  rw [onSave_eq] at h
  exact mapState_eq_ok h

/-- What an action on the save store that faults has left. -/
theorem onSave_eq_error {act : SaveStore.Op α} (h : onSave act vm = .error e t) :
    ∃ s, act (vm.save, vm.host) = .error e s ∧ t = { vm with save := s.1, host := s.2 } := by
  rw [onSave_eq] at h
  exact mapState_eq_error h

/-- What an action on the host that faults has left. -/
theorem onHost_eq_error {act : EStateM Fault Host α} (h : onHost act vm = .error e t) :
    ∃ host, act vm.host = .error e host ∧ t = { vm with host } := by
  rw [onHost_eq] at h
  exact mapState_eq_error h

/-- An action on the console changes the console only. -/
theorem onConsole_eq_ok {act : Console.Op α} (h : onConsole act vm = .ok x t) :
    ∃ console, act vm.console = .ok x console ∧ t = { vm with console } := by
  cases hact : act vm.console with
  | ok y console =>
    rw [onConsole_of_ok hact] at h
    obtain ⟨rfl, rfl⟩ := EStateM.Result.ok.inj h
    exact ⟨console, rfl, rfl⟩
  | error cause console =>
    rw [onConsole_of_error hact] at h
    cases h

/-- An action on the console that faults has failed in the operating system. -/
theorem onConsole_eq_error {act : Console.Op α} (h : onConsole act vm = .error e t) :
    ∃ cause console, act vm.console = .error cause console ∧ e = .output cause ∧
      t = { vm with console } := by
  cases hact : act vm.console with
  | ok x console =>
    rw [onConsole_of_ok hact] at h
    cases h
  | error cause console =>
    rw [onConsole_of_error hact] at h
    obtain ⟨rfl, rfl⟩ := EStateM.Result.error.inj h
    exact ⟨cause, console, rfl, rfl, rfl⟩

/-- However an action on the console ends, nothing but the console changes. -/
theorem stateOf_onConsole (act : Console.Op α) (vm : Vm M) :
    stateOf (onConsole act vm) = { vm with console := stateOf (act vm.console) } := by
  cases hact : act vm.console with
  | ok x console => rw [onConsole_of_ok hact, stateOf_ok, stateOf_ok]
  | error cause console => rw [onConsole_of_error hact, stateOf_error, stateOf_error]

end Vm

/-! ## Services -/

namespace Vm

variable {M N : Type} (f : M → N) (vm : Vm M)

/-- The virtual machine with another machine in its place. -/
def mapMachine (vm : Vm M) : Vm N :=
  ⟨f vm.machine, vm.source, vm.trace, vm.names, vm.console, vm.save, vm.loader, vm.libraries,
    vm.host, vm.printed, vm.notes⟩

/-- An action on the machine commutes with the map if it does so on the machine itself. -/
theorem commutes_onMachine {act : EStateM Fault M α} {act' : EStateM Fault N α}
    (h : Commutes f act act' vm.machine) :
    Commutes (mapMachine f) (onMachine act) (onMachine act') vm := by
  have h' : act' (f vm.machine) = mapState f (act vm.machine) := h
  simp only [Commutes, onMachine, mapMachine, h']
  cases act vm.machine <;> rfl

/-- A change of the machine commutes with the map if the functions behind it do. -/
theorem commutes_modifyMachine {g : M → M} {g' : N → N} (h : g' (f vm.machine) = f (g vm.machine)) :
    Commutes (mapMachine f) (modifyMachine g) (modifyMachine g') vm := by
  apply commutes_modify
  simp only [mapMachine, h]

/-- What is done to the console does not depend on the machine. -/
theorem commutes_onConsole (act : Console.Op α) :
    Commutes (mapMachine f) (onConsole act) (onConsole act) vm := by
  simp only [Commutes, onConsole, mapMachine]
  cases act vm.console <;> rfl

/-- What is done to the save store does not depend on the machine. -/
theorem commutes_onSave (act : SaveStore.Op α) :
    Commutes (mapMachine f) (onSave act) (onSave act) vm := by
  simp only [Commutes, onSave, mapMachine]
  cases act (vm.save, vm.host) <;> rfl

/-- What is done to the host does not depend on the machine. -/
theorem commutes_onHost (act : EStateM Fault Host α) :
    Commutes (mapMachine f) (onHost act) (onHost act) vm := by
  simp only [Commutes, onHost, mapMachine]
  cases act vm.host <;> rfl

/-- Checking a result does not depend on the machine. -/
theorem commutes_check (r : Except Fault α) :
    Commutes (mapMachine f) (check r) (check r) vm := by
  cases r <;> rfl

/-- Looking for an extension does not depend on the machine. -/
theorem commutes_loadExtension (name : String) :
    Commutes (mapMachine f) (loadExtension name) (loadExtension name) vm := by
  simp only [Commutes, loadExtension, mapMachine]
  cases Loader.load (vm.libraries.open? vm.host.disk) name (vm.loader, vm.host.log) <;> rfl

/-- Releasing a name does not depend on the machine. -/
theorem commutes_releaseName (handle : Handle) :
    Commutes (mapMachine f) (releaseName handle) (releaseName handle) vm := by
  simp only [Commutes, releaseName, mapMachine]
  cases vm.names.dispose handle <;> rfl

/-- The table holds a name under the handle that it was given. -/
theorem get?_assign (t : NameTable) (text : String) :
    (t.assign text).2.get? (t.assign text).1 = some text := by
  simp [NameTable.assign, NameTable.get?]

/-- A request served under a name commutes if it does so once the name has its handle. -/
theorem commutes_withName {text : String} {serve : String → OpOn M α} {serve' : String → OpOn N α}
    (h : Commutes (mapMachine f) (serve text) (serve' text)
      { vm with names := (vm.names.assign text).2 }) :
    Commutes (mapMachine f) (withName text serve) (withName text serve') vm := by
  have hname : ((vm.names.assign text).2.get? (vm.names.assign text).1).getD "" = text := by
    rw [get?_assign]
    rfl
  have h' : serve' text { mapMachine f vm with names := (vm.names.assign text).2 } =
      mapState (mapMachine f) (serve text { vm with names := (vm.names.assign text).2 }) := h
  have hnames : (mapMachine f vm).names = vm.names := rfl
  simp only [Commutes, withName, hnames, hname, h']
  -- the handle is released in the state that the request leaves behind, however it ends
  cases serve text { vm with names := (vm.names.assign text).2 } with
  | ok x t => exact (commutes_releaseName f t _).bind fun _ _ _ => commutes_pure x
  | error e t => exact (commutes_releaseName f t _).bind fun _ _ _ => commutes_throw e

/-- Showing what a utility printed does not depend on the machine. -/
theorem mapMachine_showPrinted (text : String) (fromLibrary : Bool) :
    mapMachine f (showPrinted vm text fromLibrary) =
      showPrinted (mapMachine f vm) text fromLibrary := by
  obtain ⟨machine, source, trace, names, ⟨sink, column⟩, save, loader, libraries, host, printed,
    notes⟩ := vm
  cases sink <;> rfl

/-- Logging an instruction commutes with the map if the line is the same. -/
theorem commutes_traceWith {line : M → String} {line' : N → String}
    (h : line' (f vm.machine) = line vm.machine) :
    Commutes (mapMachine f) (traceWith line) (traceWith line') vm := by
  refine commutes_get_bind ?_
  change Commutes (mapMachine f) (if vm.trace then _ else _) (if vm.trace then _ else _) vm
  split
  · change Commutes (mapMachine f) _ (onHost (modify fun host =>
      { host with log := host.log.info (line' (f vm.machine)) })) vm
    rw [h]
    exact commutes_onHost f vm _
  · exact commutes_pure ()

/-- Reading the image again does not depend on the machine. -/
theorem commutes_sourceImage : Commutes (mapMachine f) sourceImage sourceImage vm := by
  obtain ⟨machine, source, trace, names, console, save, loader, libraries, host, printed, notes⟩ :=
    vm
  refine commutes_get_bind ?_
  cases source with
  | memory img => exact commutes_pure img
  | file path => exact commutes_onHost f _ _

/-- Starting over commutes with the map if loading an image does. -/
theorem commutes_restart {load : M → Image → M} {load' : N → Image → N}
    (h : ∀ m img, load' (f m) img = f (load m img)) :
    Commutes (mapMachine f) (restart load) (restart load') vm := by
  refine (commutes_sourceImage f vm).bind fun img t _ => commutes_modify ?_
  simp only [mapMachine, h]

end Vm

end WordMachine

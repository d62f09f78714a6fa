import WordMachine.Proofs.Lockstep.Faults

/-!
# Services and the stack

Which faults a service cannot raise (`Avoids`): once its operands are off the list, no service
raises a fault of the stack on its own; only the utility that an extension call runs can do so
(`faults_serve`). The handle of a name that a service works under is always released, so that no
other fault takes the place of the utility's.
-/

namespace WordMachine

/-- The fault is raised where an extension or its utility is looked up. -/
def Fault.IsLookup : Fault → Prop
  | .extensionNotFound _ _ _ | .missingInitializer _ | .utilityIndexOutOfRange _ _ _ => True
  | _ => False

/-- A fault of a lookup is none of the stack. -/
theorem Fault.IsLookup.not_isStack : {e : Fault} → e.IsLookup → ¬ e.IsStack
  | .extensionNotFound _ _ _, _ | .missingInitializer _, _ | .utilityIndexOutOfRange _ _ _, _ => id

/-! ## Kinds of faults that do not arise -/

/-- The action raises no fault of a kind, in whatever state it runs. -/
def Avoids {σ α : Type} (p : Fault → Prop) (act : EStateM Fault σ α) : Prop :=
  ∀ s e, p e → ¬ Faults act s e

section

variable {σ α β : Type} {p : Fault → Prop}

/-- Giving a result raises no fault. -/
theorem avoids_pure (x : α) : Avoids p (pure x : EStateM Fault σ α) :=
  fun _ _ _ => not_faults_pure x

/-- Changing the state raises no fault. -/
theorem avoids_modify (g : σ → σ) : Avoids p (modify g : EStateM Fault σ Unit) :=
  fun _ _ _ => not_faults_modify g

/-- A fault that is not of the kind may be thrown. -/
theorem avoids_throw {e : Fault} (h : ¬ p e) : Avoids p (throw e : EStateM Fault σ α) := by
  intro s e' he' hf
  rw [faults_throw] at hf
  exact h (hf ▸ he')

/-- A sequence avoids what both of its parts avoid. -/
theorem Avoids.bind {act : EStateM Fault σ α} {k : α → EStateM Fault σ β} (h : Avoids p act)
    (hk : ∀ x, Avoids p (k x)) : Avoids p (act >>= k) := by
  intro s e he hf
  rw [faults_bind_of_not fun x t => hk x t e he] at hf
  exact h s e he hf

/-- Looking at the state raises no fault. -/
theorem avoids_get : Avoids p (get : EStateM Fault σ σ) := fun _ _ _ => faults_of_ok rfl

/-- A choice between two actions avoids what both of them avoid. -/
theorem avoids_ite {c : Prop} [Decidable c] {act act' : EStateM Fault σ α} (h : Avoids p act)
    (h' : Avoids p act') : Avoids p (if c then act else act') := by
  split
  · exact h
  · exact h'

/-- A check in front of an action. -/
theorem avoids_guard {c : Prop} [Decidable c] {e : Fault} {k : PUnit → EStateM Fault σ α}
    (h : ¬ p e) (hk : ∀ x, Avoids p (k x)) : Avoids p (if c then throw e >>= k else k ()) :=
  avoids_ite ((avoids_throw h).bind hk) (hk ())

end

namespace SaveStore

variable {p : Fault → Prop} (hsave : ∀ path cause, ¬ p (.save path cause))

include hsave

/-- Getting at the file fails in the operating system only. -/
theorem avoids_fileNumber : Avoids p fileNumber := by
  rintro ⟨store, host⟩ e he ⟨t, ht⟩
  simp only [fileNumber] at ht
  split at ht
  · cases ht
  · split at ht
    · cases ht
    · obtain ⟨rfl, -⟩ := EStateM.Result.error.inj ht
      exact hsave _ _ he

/-- What is read once the range has been checked. -/
theorem avoids_readChecked (start : Word) (n : Nat) :
    Avoids p (if n = 0 then pure [] else do
      let number ← fileNumber
      let (store, host) ← get
      match host.disk.readAt number (2 * start.toNat) (2 * n) with
      | .ok bytes => return Word.ofLittleEndian bytes
      | .error cause => throw (.save store.path cause) : Op (List Word)) := by
  refine avoids_ite (avoids_pure _) ((avoids_fileNumber hsave).bind fun number =>
    avoids_get.bind fun s => ?_)
  dsimp only
  split
  · exact avoids_pure _
  · exact avoids_throw (hsave _ _)

/-- What the disk reports is a fault of the store. -/
theorem avoids_onDisk {α : Type} (act : EStateM OsError Disk α) : Avoids p (onDisk act) := by
  rintro ⟨store, host⟩ e he ⟨t, h⟩
  simp only [onDisk] at h
  split at h
  · cases h
  · rename_i cause disk hact
    obtain ⟨rfl, -⟩ := EStateM.Result.error.inj h
    exact hsave _ _ he

/-- What is written once the range has been checked. -/
theorem avoids_writeChecked (start : Word) (words : List Word) :
    Avoids p (if words = [] then pure () else do
      let number ← fileNumber
      onDisk (Disk.writeOpen number (2 * start.toNat) (Word.littleEndian words)) : Op Unit) :=
  avoids_ite (avoids_pure _) ((avoids_fileNumber hsave).bind fun _ => avoids_onDisk hsave _)

variable (hrange : ∀ start n, ¬ p (.saveRangeOutOfBounds start n))

include hrange

/-- Reading a range raises faults of the store only. -/
theorem avoids_readRange (start : Word) (n : Nat) : Avoids p (readRange start n) :=
  avoids_guard (hrange _ _) fun _ => avoids_readChecked hsave start n

/-- Writing a range raises faults of the store only. -/
theorem avoids_writeRange (start : Word) (words : List Word) : Avoids p (writeRange start words) :=
  avoids_guard (hrange _ _) fun _ => avoids_writeChecked hsave start words

variable (hslot : ∀ slot, ¬ p (.saveSlotOutOfRange slot))

include hslot

/-- Reading a slot raises faults of the store only. -/
theorem avoids_read (slot : Word) : Avoids p (read slot) := by
  unfold read
  exact avoids_guard (hslot slot) fun _ => (avoids_readRange hsave hrange slot 1).bind fun _ =>
    avoids_pure _

/-- Writing a slot raises faults of the store only. -/
theorem avoids_write (slot w : Word) : Avoids p (write slot w) :=
  avoids_guard (hslot slot) fun _ => avoids_writeRange hsave hrange slot [w]

end SaveStore

namespace Vm

open Utility (Target Scope)

variable {M α : Type} {p : Fault → Prop}

/-- An action on the machine faults as it does on the machine itself. -/
theorem faults_onMachine {act : EStateM Fault M α} {vm : Vm M} {e : Fault} :
    Faults (onMachine act) vm e ↔ Faults act vm.machine e := by
  cases h : act vm.machine with
  | ok x m => exact iff_of_false (faults_of_ok (onMachine_of_ok vm h)) (faults_of_ok h)
  | error e' m => rw [faults_of_error (onMachine_of_error vm h), faults_of_error h]

/-- Printing raises faults of the output only. -/
theorem avoids_onConsole (h : ∀ cause, ¬ p (.output cause)) (act : Console.Op α) :
    Avoids p (onConsole act : OpOn M α) := by
  rintro vm e he ⟨t, ht⟩
  obtain ⟨cause, -, -, rfl, -⟩ := onConsole_eq_error ht
  exact h cause he

/-- Printing changes no name. -/
theorem names_onConsole (act : Console.Op α) (vm : Vm M) :
    (stateOf (onConsole act vm)).names = vm.names := by
  rw [stateOf_onConsole]

/-- An action on the save store avoids what it avoids on the store itself. -/
theorem avoids_onSave {act : SaveStore.Op α} (h : Avoids p act) :
    Avoids p (onSave act : OpOn M α) := by
  rintro vm e he ⟨t, ht⟩
  obtain ⟨s, hact, -⟩ := onSave_eq_error ht
  exact h _ e he ⟨s, hact⟩

/-- An action on the host avoids what it avoids on the host itself. -/
theorem avoids_onHost {act : EStateM Fault Host α} (h : Avoids p act) :
    Avoids p (onHost act : OpOn M α) := by
  rintro vm e he ⟨t, ht⟩
  obtain ⟨host, hact, -⟩ := onHost_eq_error ht
  exact h _ e he ⟨host, hact⟩

/-- Reading an image raises faults of the image only. -/
theorem avoids_readImage (h : ∀ cause, ¬ p (.image cause)) (path : String) :
    Avoids p (readImage path) := by
  refine (avoids_modify _).bind fun _ => avoids_get.bind fun host => ?_
  dsimp only
  split
  · exact avoids_throw (h _)
  · refine avoids_ite ((avoids_modify _).bind fun _ => avoids_pure _) (avoids_pure _)

/-- Getting the image again raises faults of the image only. -/
theorem avoids_sourceImage (h : ∀ cause, ¬ p (.image cause)) :
    Avoids p (sourceImage : OpOn M Image) := by
  refine avoids_get.bind fun vm => ?_
  split
  · exact avoids_pure _
  · exact avoids_onHost (avoids_readImage h _)

/-- Starting over raises faults of the image only. -/
theorem avoids_restart (h : ∀ cause, ¬ p (.image cause)) (load : M → Image → M) :
    Avoids p (restart load) :=
  (avoids_sourceImage h).bind fun _ => avoids_modify _

/-- The handle of a name just entered can be released. -/
theorem dispose_assign (t : NameTable) (text : String) :
    ∃ t', (t.assign text).2.dispose (t.assign text).1 = .ok t' := by
  obtain ⟨names, holes, mark⟩ := t
  cases holes with
  | nil => simp [NameTable.assign, NameTable.allocate, NameTable.dispose, NameTable.release]
  | cons hole rest =>
    -- a handle out of a hole is below the end of the hole, so it is not the last of all handles
    have hlt : hole.lo < hole.lo + 1 := by
      have h := UInt16.lt_iff_toNat_lt.1 hole.lo_lt_hi
      have hhi := hole.hi.toNat_lt
      have hmod : (hole.lo + 1).toNat = (hole.lo.toNat + 1) % 65536 := by simp [UInt16.toNat_add]
      rw [UInt16.lt_iff_toNat_lt, hmod]
      omega
    by_cases hmark : hole.lo + 1 = mark <;>
      simp [NameTable.assign, NameTable.allocate, NameTable.dispose, NameTable.release, hmark, hlt]

/-- A request that leaves the name table alone is served under a name as it is by itself, and the
name is released in the state it leaves behind. -/
theorem withName_eq {text : String} {serve : String → OpOn M α} {vm : Vm M} {names : NameTable}
    (hnames : (vm.names.assign text).2.dispose (vm.names.assign text).1 = .ok names)
    (h : (stateOf (serve text { vm with names := (vm.names.assign text).2 })).names =
      (vm.names.assign text).2) :
    withName text serve vm = mapState (fun t => { t with names := names })
      (serve text { vm with names := (vm.names.assign text).2 }) := by
  have hname : ((vm.names.assign text).2.get? (vm.names.assign text).1).getD "" = text := by
    rw [get?_assign]
    rfl
  -- the table is as it was when the handle was taken, so releasing it succeeds
  have hrelease : ∀ t : Vm M, t.names = (vm.names.assign text).2 →
      releaseName (vm.names.assign text).1 t = .ok () { t with names := names } := by
    intro t ht
    simp only [releaseName, ht, hnames]
  simp only [withName, hname]
  cases hserve : serve text { vm with names := (vm.names.assign text).2 } with
  | ok x t =>
    rw [hserve, stateOf_ok] at h
    exact bind_of_ok (hrelease t h)
  | error e t =>
    rw [hserve, stateOf_error] at h
    exact bind_of_ok (hrelease t h)

/-- A request that leaves the name table alone faults under a name as it does by itself. -/
theorem faults_withName {text : String} {serve : String → OpOn M α} {vm : Vm M} {e : Fault}
    (h : (stateOf (serve text { vm with names := (vm.names.assign text).2 })).names =
      (vm.names.assign text).2) :
    Faults (withName text serve) vm e ↔
      Faults (serve text) { vm with names := (vm.names.assign text).2 } e := by
  obtain ⟨names, hnames⟩ := dispose_assign vm.names text
  have heq := withName_eq hnames h
  -- released or not, the fault is the request's: the release itself succeeds in both cases
  cases hserve : serve text { vm with names := (vm.names.assign text).2 } with
  | ok x t =>
    rw [hserve, mapState_ok] at heq
    exact iff_of_false (faults_of_ok heq) (faults_of_ok hserve)
  | error e' t =>
    rw [hserve, mapState_error] at heq
    rw [faults_of_error heq, faults_of_error hserve]

/-! ## Calls of utilities -/

/-- Showing what a utility printed changes no name. -/
theorem names_showPrinted (vm : Vm M) (text : String) (fromLibrary : Bool) :
    (showPrinted vm text fromLibrary).names = vm.names := by
  unfold showPrinted
  split <;> rfl

/-- A utility that succeeds makes the call succeed, and no name has changed. -/
theorem runEntry_of_ok [Target M] {e : Entry} (fromLibrary : Bool) {vm : Vm M} {s : Scope M}
    (h : e.run (.ofMachine vm.machine) = .ok () s) :
    ∃ t, runEntry e fromLibrary vm = .ok () t ∧ t.names = vm.names := by
  refine ⟨_, by simp only [runEntry, h]; rfl, ?_⟩
  exact names_showPrinted _ _ _

/-- A utility that faults makes the call fault in the same way, and no name has changed. -/
theorem runEntry_of_error [Target M] {e : Entry} (fromLibrary : Bool) {vm : Vm M} {s : Scope M}
    {fault : Fault} (h : e.run (.ofMachine vm.machine) = .error fault s) :
    ∃ t, runEntry e fromLibrary vm = .error fault t ∧ t.names = vm.names := by
  refine ⟨_, by simp only [runEntry, h]; rfl, ?_⟩
  exact names_showPrinted _ _ _

/-- What an extension is does not depend on the log. -/
theorem load_of_log {opens : String → Option Library} {name : String} {l : Loader} {log : Log}
    {ext : Extension} {found : Loader × Log} (h : Loader.load opens name (l, log) = .ok ext found)
    (log' : Log) : ∃ found', Loader.load opens name (l, log') = .ok ext found' := by
  unfold Loader.load at h ⊢
  dsimp only at h ⊢
  split at h
  · obtain ⟨rfl, -⟩ := EStateM.Result.ok.inj h
    exact ⟨_, rfl⟩
  · split at h
    · cases h
    · obtain ⟨rfl, -⟩ := EStateM.Result.ok.inj h
      exact ⟨_, rfl⟩

/-- Looking for an extension fails in one of the ways of a lookup. -/
theorem isLookup_of_load {opens : String → Option Library} {name : String} {s t : Loader × Log}
    {e : Fault} (h : Loader.load opens name s = .error e t) : e.IsLookup := by
  unfold Loader.load Loader.find at h
  dsimp only at h
  split at h
  · cases h
  · split at h
    · rename_i hfind
      obtain ⟨rfl, -⟩ := EStateM.Result.error.inj h
      split at hfind
      · obtain rfl := Except.error.inj hfind
        trivial
      · obtain rfl := Except.error.inj hfind
        trivial
      · cases hfind
    · cases h

/-- The virtual machine with what the loader leaves behind. -/
def withLoaded (vm : Vm M) (found : Loader × Log) : Vm M :=
  { vm with loader := found.1, host := { vm.host with log := found.2 } }

/-- Calling an extension ends before any utility runs, or it runs the utility that the loader finds.
Until then only the loader and the log have changed. -/
theorem callExtension_cases [Target M] (name : String) (index : Word) (vm : Vm M) :
    (∃ e found, callExtension name index vm = .error e (vm.withLoaded found) ∧ e.IsLookup ∧
      ∀ ext log found', Loader.load (vm.libraries.open? vm.host.disk) name (vm.loader, log) =
        .ok ext found' → ext.entries[index.toNat]? = none) ∨
    (∃ ext found entry,
      Loader.load (vm.libraries.open? vm.host.disk) name (vm.loader, vm.host.log) = .ok ext found ∧
      ext.entries[index.toNat]? = some entry ∧
      callExtension name index vm = runEntry entry ext.fromLibrary (vm.withLoaded found)) := by
  -- the loader answers the same whatever the log is, so its answer at this log decides
  cases hload : Loader.load (vm.libraries.open? vm.host.disk) name (vm.loader, vm.host.log) with
  | error e found =>
    have herr : loadExtension name vm = .error e (vm.withLoaded found) := by
      simp only [loadExtension, hload, withLoaded]
    refine .inl ⟨e, found, bind_of_error herr, isLookup_of_load hload, ?_⟩
    intro ext log found' hok
    obtain ⟨found'', hok'⟩ := load_of_log hok vm.host.log
    rw [hload] at hok'
    cases hok'
  | ok ext found =>
    have hok : loadExtension name vm = .ok ext (vm.withLoaded found) := by
      simp only [loadExtension, hload, withLoaded]
    have hcall := bind_of_ok (k := fun ext => do
      let entry ← check (Loader.entry name ext index)
      runEntry entry ext.fromLibrary) hok
    cases hentry : ext.entries[index.toNat]? with
    | none =>
      have hcheck : Loader.entry name ext index =
          .error (.utilityIndexOutOfRange name index ext.entries.length) := by
        simp only [Loader.entry, hentry]
      refine .inl ⟨.utilityIndexOutOfRange name index ext.entries.length, found, ?_, trivial, ?_⟩
      · exact hcall.trans (bind_of_error (by rw [hcheck]; rfl))
      · intro ext' log found' hok'
        obtain ⟨found'', hok''⟩ := load_of_log hok' vm.host.log
        rw [hload] at hok''
        obtain ⟨rfl, -⟩ := EStateM.Result.ok.inj hok''
        exact hentry
    | some entry =>
      have hcheck : Loader.entry name ext index = .ok entry := by simp only [Loader.entry, hentry]
      refine .inr ⟨ext, found, entry, rfl, hentry, ?_⟩
      exact hcall.trans (bind_of_ok (by rw [hcheck]; rfl))

/-- Calling an extension changes no name. -/
theorem names_callExtension [Target M] (name : String) (index : Word) (vm : Vm M) :
    (stateOf (callExtension name index vm)).names = vm.names := by
  rcases callExtension_cases name index vm with
    ⟨e, found, h, -⟩ | ⟨ext, found, entry, -, -, h⟩
  · rw [h]
    rfl
  · rw [h]
    cases hrun : entry.run (.ofMachine (vm.withLoaded found).machine) with
    | ok x s =>
      obtain ⟨t', ht', hn⟩ := runEntry_of_ok ext.fromLibrary hrun
      rw [ht', stateOf_ok, hn]
      rfl
    | error e s =>
      obtain ⟨t', ht', hn⟩ := runEntry_of_error ext.fromLibrary hrun
      rw [ht', stateOf_error, hn]
      rfl

/-- Running a utility faults as the utility does. -/
theorem faults_runEntry [Target M] {entry : Entry} {fromLibrary : Bool} {vm : Vm M} {e : Fault} :
    Faults (runEntry entry fromLibrary) vm e ↔ Faults entry.run (.ofMachine vm.machine) e := by
  cases hrun : entry.run (.ofMachine vm.machine) with
  | ok x s =>
    obtain ⟨t, ht, -⟩ := runEntry_of_ok fromLibrary hrun
    exact iff_of_false (faults_of_ok ht) (faults_of_ok hrun)
  | error e' s =>
    obtain ⟨t, ht, -⟩ := runEntry_of_error fromLibrary hrun
    rw [faults_of_error ht, faults_of_error hrun]

/-- Calling an extension faults on the stack exactly when the utility called does. -/
theorem faults_callExtension [Target M] {name : String} {index : Word} {vm : Vm M} {e : Fault}
    (he : e.IsStack) :
    Faults (callExtension name index) vm e ↔
      ∃ ext log found entry,
        Loader.load (vm.libraries.open? vm.host.disk) name (vm.loader, log) = .ok ext found ∧
        ext.entries[index.toNat]? = some entry ∧ Faults entry.run (.ofMachine vm.machine) e := by
  rcases callExtension_cases name index vm with
    ⟨e', found, h, hlookup, hnone⟩ | ⟨ext, found, entry, hload, hentry, h⟩
  · -- no utility was found, and the fault says so
    refine iff_of_false (fun hf => ?_) ?_
    · rw [faults_of_error h] at hf
      exact hlookup.not_isStack (hf ▸ he)
    · rintro ⟨ext, log, found, entry, hload, hentry, -⟩
      rw [hnone ext log found hload] at hentry
      cases hentry
  · have hrun : Faults (callExtension name index) vm e ↔
        Faults entry.run (.ofMachine vm.machine) e := by
      have hmachine : (vm.withLoaded found).machine = vm.machine := rfl
      rw [← hmachine, ← faults_runEntry]
      unfold Faults
      rw [h]
    rw [hrun]
    refine ⟨fun hf => ⟨ext, vm.host.log, found, entry, hload, hentry, hf⟩, ?_⟩
    rintro ⟨ext', log, found', entry', hload', hentry', hf⟩
    obtain ⟨found'', hload''⟩ := load_of_log hload' vm.host.log
    rw [hload] at hload''
    obtain ⟨rfl, -⟩ := EStateM.Result.ok.inj hload''
    rw [hentry] at hentry'
    obtain rfl := Option.some.inj hentry'
    exact hf

end Vm

namespace ListMachine

open Utility (Target)
open Vm (OpOn)

/-! ## All services -/

/-- A range of the data segment is there or not; no stack is asked. -/
theorem avoids_check_dataRange (m : ListMachine) (a n : Word) :
    Avoids Fault.IsStack (Vm.check (m.dataRange a n) : OpOn ListMachine (List Word)) := by
  unfold dataRange
  split
  · exact avoids_pure _
  · exact avoids_throw id

/-- Once its operands are off the list, a service faults on the stack only through the utility that
it calls. -/
theorem faults_serve {service : Service} {ws : List Word} {v : Vm ListMachine} {e : Fault}
    (hws : ws.length = service.operands)
    (hroom : v.machine.stack.length + service.operands < segmentSize) (he : e.IsStack) :
    Faults (serve service ws) v e ↔
      service = .extension ∧ ∃ a index, ws = [a, index] ∧ ∃ ext log found entry,
        Loader.load (v.libraries.open? v.host.disk) (Target.stringAt v.machine a) (v.loader, log) =
          .ok ext found ∧
        ext.entries[index.toNat]? = some entry ∧ Faults entry.run (.ofMachine v.machine) e := by
  cases service with
  | reserved =>
    obtain rfl := List.eq_nil_of_length_eq_zero hws
    exact iff_of_false (avoids_throw (p := Fault.IsStack) id v e he) (by simp)
  | logWord =>
    obtain ⟨w, rfl⟩ := List.length_eq_one_iff.1 hws
    exact iff_of_false (Vm.avoids_onConsole (fun _ => id) _ v e he) (by simp)
  | logString =>
    obtain ⟨a, rfl⟩ := List.length_eq_one_iff.1 hws
    refine iff_of_false ?_ (by simp)
    rw [serve, faults_get_bind, Vm.faults_withName (Vm.names_onConsole _ _)]
    exact Vm.avoids_onConsole (fun _ => id) _ _ e he
  | saveRead =>
    obtain ⟨slot, rfl⟩ := List.length_eq_one_iff.1 hws
    refine iff_of_false ?_ (by simp)
    rw [serve, faults_bind]
    rintro (hf | ⟨w, t, ht, hf⟩)
    · exact Vm.avoids_onSave (SaveStore.avoids_read (fun _ _ => id) (fun _ _ => id) (fun _ => id)
        slot) v e he hf
    · -- the slot's number has left room for the slot's word
      obtain ⟨store, -, rfl⟩ := Vm.onSave_eq_ok ht
      rw [Vm.faults_onMachine] at hf
      exact not_faults_push (Nat.lt_of_succ_lt hroom) hf
  | saveWrite =>
    obtain ⟨slot, w, rfl⟩ := List.length_eq_two.1 hws
    exact iff_of_false (Vm.avoids_onSave (SaveStore.avoids_write (fun _ _ => id) (fun _ _ => id)
      (fun _ => id) slot w) v e he) (by simp)
  | saveToMemory =>
    obtain ⟨a, n, start, rfl⟩ := List.length_eq_three.1 hws
    refine iff_of_false ?_ (by simp)
    rw [serve, faults_get_bind]
    exact (avoids_check_dataRange _ a n).bind (fun _ => (Vm.avoids_onSave
      (SaveStore.avoids_readRange (fun _ _ => id) (fun _ _ => id) start _)).bind fun _ =>
        avoids_modify _) v e he
  | memoryToSave =>
    obtain ⟨a, n, start, rfl⟩ := List.length_eq_three.1 hws
    refine iff_of_false ?_ (by simp)
    rw [serve, faults_get_bind]
    exact (avoids_check_dataRange _ a n).bind (fun words => Vm.avoids_onSave
      (SaveStore.avoids_writeRange (fun _ _ => id) (fun _ _ => id) start words)) v e he
  | extension =>
    obtain ⟨a, index, rfl⟩ := List.length_eq_two.1 hws
    rw [serve, faults_get_bind, Vm.faults_withName (Vm.names_callExtension _ _ _),
      Vm.faults_callExtension he]
    simp

end ListMachine

end WordMachine

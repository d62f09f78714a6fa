import WordMachine.Proofs.Checked.Instructions
import WordMachine.Proofs.Checked.Utilities
import WordMachine.Proofs.Lockstep.ServiceFaults
import WordMachine.Proofs.Save.PersistentArray

/-!
# Steps without traps

A step of the virtual machine is mirrored by the checked step (`mirrors_step`), and so is a reset
(`mirrors_reset`), in every state. The instructions are those of `mirrors_exec` and
`mirrors_execRegister`. A service pops its operands and then leaves the machine alone, apart from
words that it stores in the data segment; there are never more of them than the range that was
checked holds (`length_readRange`). The one fault that counts as a trap is raised by the name table,
when a handle cannot be released; a service releases the handle that it has just been given, and
that goes through (`mirrors_withName`).
-/

namespace WordMachine

/-- Two bytes make a word, and a last odd byte makes none. -/
theorem Word.length_ofLittleEndian (bytes : List UInt8) :
    (ofLittleEndian bytes).length = bytes.length / 2 := by
  fun_induction ofLittleEndian bytes with
  | case1 lo hi rest ih =>
    simp only [List.length_cons, ih]
    omega
  | case2 bytes h =>
    rcases bytes with _ | ⟨lo, _ | ⟨hi, rest⟩⟩
    · rfl
    · simp
    · exact absurd rfl (h lo hi rest)

/-- A disk reads as many bytes as it is asked for, or none. -/
theorem Disk.length_readAt {d : Disk} {number offset length : Nat} {bytes : List UInt8}
    (h : d.readAt number offset length = .ok bytes) : bytes.length = length := by
  unfold readAt at h
  dsimp only at h
  split at h
  · rename_i hle
    obtain rfl := Except.ok.inj h
    have hsize : (d.bytes number).data.toList.length = (d.bytes number).size := rfl
    rw [List.length_take, List.length_drop, hsize]
    omega
  · cases h

/-- The save store reads as many slots as it is asked for. -/
theorem SaveStore.length_readRange {start : Word} {length : Nat} {s t : SaveStore × Host}
    {words : List Word} (h : readRange start length s = .ok words t) : words.length = length := by
  by_cases hin : start.toNat + length ≤ saveSlots
  · by_cases hzero : length = 0
    · -- no slots are asked for, so no file is
      subst hzero
      rw [readRange_empty hin] at h
      obtain ⟨rfl, -⟩ := EStateM.Result.ok.inj h
      rfl
    · cases hnumber : fileNumber s with
      | error e t' =>
        rw [readRange_of_error hin hzero hnumber] at h
        cases h
      | ok number t' =>
        cases hread : t'.2.disk.readAt number (2 * start.toNat) (2 * length) with
        | error cause =>
          rw [readRange_of_shortRead hin hzero hnumber hread] at h
          cases h
        | ok bytes =>
          rw [readRange_of_ok hin hzero hnumber hread] at h
          obtain ⟨rfl, -⟩ := EStateM.Result.ok.inj h
          -- the file gives two bytes for each slot
          rw [Word.length_ofLittleEndian, Disk.length_readAt hread]
          omega
  · rw [readRange_outside hin] at h
    cases h

namespace RawMachine

variable {α : Type} {act : Op α} {x : α} {m : RawMachine} {e : Stop} {v : Vm RawMachine}

/-- An action of the checked machine with a result, inside of a virtual machine. -/
theorem onVm_of_ok (h : act v.machine = .ok x m) : onVm act v = .ok x { v with machine := m } := by
  simp only [onVm, h]

/-- The same for an action that stops. -/
theorem onVm_of_error (h : act v.machine = .error e m) :
    onVm act v = .error e { v with machine := m } := by
  simp only [onVm, h]

section

variable {text : String} {serve : String → VmOp α} {t : Vm RawMachine} {names : NameTable}
  (hdispose : t.names.dispose (v.names.assign text).1 = .ok names)

include hdispose

/-- A handle that can be disposed of is released without a trap. -/
theorem checked_releaseName :
    checked (Vm.releaseName (v.names.assign text).1) t = .ok () { t with names := names } := by
  simp only [checked, Vm.releaseName, hdispose]

/-- Under a name that can be released, a request has the outcome it has by itself. -/
theorem withName_of_ok (h : serve text { v with names := (v.names.assign text).2 } = .ok x t) :
    withName text serve v = .ok x { t with names := names } := by
  have hname : ((v.names.assign text).2.get? (v.names.assign text).1).getD "" = text := by
    rw [Vm.get?_assign]
    rfl
  simp only [withName, hname, h]
  exact bind_of_ok (checked_releaseName hdispose)

/-- A request that stops still has its name released. -/
theorem withName_of_error
    (h : serve text { v with names := (v.names.assign text).2 } = .error e t) :
    withName text serve v = .error e { t with names := names } := by
  have hname : ((v.names.assign text).2.get? (v.names.assign text).1).getD "" = text := by
    rw [Vm.get?_assign]
    rfl
  simp only [withName, hname, h]
  exact bind_of_ok (checked_releaseName hdispose)

end

/-- The sums that the save store makes of a start and a length are small. -/
theorem checkSlots_of_le {start : Word} {n : Nat} (h : n ≤ segmentSize) :
    checkSlots start n v = .ok () v := by
  have hsize : segmentSize = 65536 := rfl
  have hstart := start.toNat_lt
  unfold checkSlots
  rw [bind_of_ok (sum_of_lt (by omega)), bind_of_ok (sum_of_lt (by omega))]
  rfl

end RawMachine

/-- The image alone gives the raw form of the machine that starts on it. -/
theorem Machine.raw_ofImage (img : Image) : (ofImage img).raw = RawMachine.ofImage img := by
  refine RawMachine.ext (Vector.ext fun i hi => ?_) rfl rfl rfl rfl
  simp only [raw, rawRegs, RawMachine.ofImage, reg, ofImage, Vector.getElem_ofFn,
    Vector.getElem_replicate]
  split
  · rfl
  · rename_i hne
    split
    · rfl
    · rfl

namespace Vm

open Utility (Scope)

variable {α : Type} {vm : Vm}

/-! ## Single actions -/

/-- An action that the checked machine mirrors is mirrored inside of a virtual machine. -/
theorem mirrors_onMachine {act : Machine.Op α} {act' : RawMachine.Op α}
    (h : Mirrors Machine.raw act act' vm.machine) :
    Mirrors (mapMachine Machine.raw) (onMachine act) (RawMachine.onVm act') vm := by
  cases hact : act vm.machine with
  | ok x m =>
    exact mirrors_of_ok (onMachine_of_ok vm hact)
      (RawMachine.onVm_of_ok (v := vm.mapMachine Machine.raw) (h.of_ok hact))
  | error e m =>
    exact mirrors_of_error (onMachine_of_error vm hact)
      (RawMachine.onVm_of_error (v := vm.mapMachine Machine.raw) (h.of_error hact))

/-- So is a change of the machine. -/
theorem mirrors_modifyMachine {g : Machine → Machine} {act' : RawMachine.Op Unit}
    (h : act' vm.machine.raw = .ok () (g vm.machine).raw) :
    Mirrors (mapMachine Machine.raw) (modifyMachine g) (RawMachine.onVm act') vm :=
  mirrors_modify (RawMachine.onVm_of_ok (v := vm.mapMachine Machine.raw) h)

/-- A pop, and what follows it in the state that it leads to. -/
theorem mirrors_pop_bind {β : Type} {k : Word → Op β} {k' : Word → RawMachine.VmOp β}
    (h : ∀ w vm, Mirrors (mapMachine Machine.raw) (k w) (k' w) vm) :
    Mirrors (mapMachine Machine.raw) (pop >>= k) (RawMachine.onVm RawMachine.pop >>= k') vm :=
  (mirrors_onMachine (Machine.mirrors_pop vm.machine)).bind fun w t _ => h w t

/-- Looking at the machine first. -/
theorem mirrors_look_bind {β : Type} {act : Op β} {look : RawMachine.Op α}
    {k' : α → RawMachine.VmOp β} {x : α} (hlook : look vm.machine.raw = .ok x vm.machine.raw)
    (h : Mirrors (mapMachine Machine.raw) act (k' x) vm) :
    Mirrors (mapMachine Machine.raw) act (RawMachine.onVm look >>= k') vm :=
  mirrors_read_bind (RawMachine.onVm_of_ok (v := vm.mapMachine Machine.raw) hlook) h

/-- The console does not know the machine, and none of its faults counts as a trap. -/
theorem mirrors_onConsole (act : Console.Op α) :
    Mirrors (mapMachine Machine.raw) (onConsole act) (checked (onConsole act)) vm :=
  (commutes_onConsole Machine.raw vm act).mirrors
    (avoids_onConsole (p := (· = .handleOverflow)) nofun act vm _ rfl)

/-- The same holds of a request to the save store. -/
theorem mirrors_onSave {act : SaveStore.Op α} (h : Avoids (· = .handleOverflow) act) :
    Mirrors (mapMachine Machine.raw) (onSave act) (checked (onSave act)) vm :=
  (commutes_onSave Machine.raw vm act).mirrors (avoids_onSave h vm _ rfl)

/-- The check of a range of data words has the same outcome. -/
theorem mirrors_dataRange (a n : Word) :
    Mirrors (mapMachine Machine.raw) (check (vm.machine.dataRange a n))
      (RawMachine.onVm (RawMachine.dataRange a n)) vm := by
  by_cases h : a.toNat + n.toNat ≤ segmentSize
  · have hok : vm.machine.dataRange a n = .ok (vm.machine.data.slice a n.toNat) := if_pos h
    rw [hok]
    exact mirrors_of_ok rfl (RawMachine.onVm_of_ok (v := vm.mapMachine Machine.raw)
      (Machine.dataRange_raw_of_le vm.machine h))
  · have herror : vm.machine.dataRange a n = .error (.memoryRangeOutOfBounds a n) := if_neg h
    rw [herror]
    exact mirrors_of_error rfl (RawMachine.onVm_of_error (v := vm.mapMachine Machine.raw)
      (Machine.dataRange_raw_of_lt vm.machine (Nat.not_le.1 h)))

/-- A range that passes the check is there, and nothing has changed. -/
theorem check_dataRange_eq_ok {a n : Word} {t : Vm} {words : List Word} {m : Machine}
    (h : check (m.dataRange a n) vm = .ok words t) :
    t = vm ∧ a.toNat + n.toNat ≤ segmentSize ∧ words.length ≤ n.toNat := by
  unfold Machine.dataRange at h
  split at h
  · rename_i hle
    obtain ⟨rfl, rfl⟩ := EStateM.Result.ok.inj h
    refine ⟨rfl, hle, ?_⟩
    unfold Segment.slice
    rw [Array.length_toList, Array.size_extract]
    omega
  · cases h

/-! ## Names -/

/-- A request is mirrored under a name if it is so by itself and leaves the name table alone: the
handle can then be released. -/
theorem mirrors_withName {text : String} {serve : String → Op α}
    {serve' : String → RawMachine.VmOp α}
    (h : Mirrors (mapMachine Machine.raw) (serve text) (serve' text)
      { vm with names := (vm.names.assign text).2 })
    (hnames : (stateOf (serve text { vm with names := (vm.names.assign text).2 })).names =
      (vm.names.assign text).2) :
    Mirrors (mapMachine Machine.raw) (withName text serve) (RawMachine.withName text serve')
      vm := by
  -- the handle has just been assigned, so it can be disposed of
  obtain ⟨names, hdispose⟩ := dispose_assign vm.names text
  have heq := withName_eq hdispose hnames
  cases hserve : serve text { vm with names := (vm.names.assign text).2 } with
  | ok x t =>
    rw [hserve, stateOf_ok] at hnames
    rw [hserve, mapState_ok] at heq
    rw [← hnames] at hdispose
    exact mirrors_of_ok heq (RawMachine.withName_of_ok (v := vm.mapMachine Machine.raw)
      (t := t.mapMachine Machine.raw) hdispose (h.of_ok hserve))
  | error e t =>
    rw [hserve, stateOf_error] at hnames
    rw [hserve, mapState_error] at heq
    rw [← hnames] at hdispose
    exact mirrors_of_error heq (RawMachine.withName_of_error (v := vm.mapMachine Machine.raw)
      (t := t.mapMachine Machine.raw) hdispose (h.of_error hserve))

/-! ## Calls of utilities -/

/-- A call of a utility is mirrored, together with the text it prints and the notes it leaves. -/
theorem mirrors_runEntry (entry : Entry) (fromLibrary : Bool) :
    Mirrors (mapMachine Machine.raw) (runEntry entry fromLibrary)
      (RawMachine.callEntry entry fromLibrary) vm := by
  -- what the utility prints and notes is shown afterwards, result or fault
  have hrun := entry.mirrors_run (.ofMachine vm.machine)
  cases h : entry.run (.ofMachine vm.machine) with
  | ok x s =>
    refine mirrors_of_ok (by simp only [runEntry, h]; rfl) ?_
    have hraw : RawMachine.runEntry entry (.ofMachine (vm.mapMachine Machine.raw).machine) =
        .ok () (s.map Machine.raw) := hrun.of_ok h
    simp only [RawMachine.callEntry, hraw]
    rw [mapMachine_showPrinted]
    rfl
  | error e s =>
    refine mirrors_of_error (by simp only [runEntry, h]; rfl) ?_
    have hraw : RawMachine.runEntry entry (.ofMachine (vm.mapMachine Machine.raw).machine) =
        .error (.fault e) (s.map Machine.raw) := hrun.of_error h
    simp only [RawMachine.callEntry, hraw]
    rw [mapMachine_showPrinted]
    rfl

/-- Loading an extension does not touch the machine, and its faults are those of the lookup. -/
theorem mirrors_loadExtension (name : String) :
    Mirrors (mapMachine Machine.raw) (loadExtension name) (checked (loadExtension name)) vm := by
  refine (commutes_loadExtension Machine.raw vm name).mirrors ?_
  -- a fault of the loader is one of its lookup
  rintro ⟨t, ht⟩
  unfold loadExtension at ht
  cases hload : Loader.load (vm.libraries.open? vm.host.disk) name (vm.loader, vm.host.log) with
  | ok ext found =>
    rw [hload] at ht
    cases ht
  | error e found =>
    rw [hload] at ht
    obtain ⟨rfl, -⟩ := EStateM.Result.error.inj ht
    exact isLookup_of_load hload

/-- A call of an extension: it is loaded, its entry is looked up, and that is run. -/
theorem mirrors_callExtension (name : String) (index : Word) :
    Mirrors (mapMachine Machine.raw) (callExtension name index)
      (RawMachine.callExtension name index) vm := by
  refine (mirrors_loadExtension name).bind fun ext t _ => ?_
  refine Mirrors.bind ?_ fun entry t' _ => mirrors_runEntry entry ext.fromLibrary
  refine (commutes_check Machine.raw t _).mirrors ?_
  unfold Loader.entry
  split
  · exact not_faults_pure _
  · exact fun hf => nomatch faults_throw.1 hf

/-! ## Services -/

/-- Every service is mirrored. -/
theorem mirrors_serve (service : Service) :
    Mirrors (mapMachine Machine.raw) (serve service) (RawMachine.serve service) vm := by
  cases service with
  | reserved => exact mirrors_throw _
  | logWord => exact mirrors_pop_bind fun w vm => mirrors_onConsole _
  | logString =>
    refine mirrors_pop_bind fun a vm => mirrors_get_bind
      (mirrors_look_bind (Machine.stringAt_raw vm.machine a) ?_)
    exact mirrors_withName (mirrors_onConsole _) (names_onConsole _ _)
  | saveRead =>
    refine mirrors_pop_bind fun slot vm =>
      mirrors_read_bind (RawMachine.checkSlots_of_le (by decide)) ?_
    refine (mirrors_onSave (SaveStore.avoids_read nofun nofun nofun slot)).bind fun w t _ => ?_
    exact mirrors_onMachine (Machine.mirrors_push w t.machine)
  | saveWrite =>
    refine mirrors_pop_bind fun slot vm => mirrors_pop_bind fun w vm =>
      mirrors_read_bind (RawMachine.checkSlots_of_le (by decide)) ?_
    exact mirrors_onSave (SaveStore.avoids_write nofun nofun nofun slot w)
  | saveToMemory =>
    refine mirrors_pop_bind fun a vm => mirrors_pop_bind fun n vm =>
      mirrors_pop_bind fun start vm => mirrors_get_bind ?_
    refine (mirrors_dataRange a n).bind fun _ t ht => ?_
    obtain ⟨rfl, hle, -⟩ := check_dataRange_eq_ok ht
    refine mirrors_read_bind (RawMachine.checkSlots_of_le (Nat.le_of_lt n.toNat_lt)) ?_
    refine (mirrors_onSave (SaveStore.avoids_readRange nofun nofun start n.toNat)).bind
      fun words t ht => mirrors_modifyMachine ?_
    -- the store answers with just the words asked for, which the range checked before can take
    obtain ⟨store, hread, -⟩ := onSave_eq_ok ht
    have hlen : words.length = n.toNat := SaveStore.length_readRange hread
    exact Machine.storeFrom_raw t.machine words (fun _ => rfl) (by omega)
  | memoryToSave =>
    refine mirrors_pop_bind fun a vm => mirrors_pop_bind fun n vm =>
      mirrors_pop_bind fun start vm => mirrors_get_bind ?_
    refine (mirrors_dataRange a n).bind fun words t ht => ?_
    obtain ⟨rfl, -, hlen⟩ := check_dataRange_eq_ok ht
    -- a range of memory is never longer than the segment, so its end among the slots is small
    have hsize : words.length ≤ segmentSize := Nat.le_trans hlen (Nat.le_of_lt n.toNat_lt)
    refine mirrors_read_bind (RawMachine.checkSlots_of_le hsize) ?_
    exact mirrors_onSave (SaveStore.avoids_writeRange nofun nofun start words)
  | extension =>
    refine mirrors_pop_bind fun a vm => mirrors_pop_bind fun index vm => mirrors_get_bind
      (mirrors_look_bind (Machine.stringAt_raw vm.machine a) ?_)
    exact mirrors_withName (mirrors_callExtension _ index) (names_callExtension _ index _)

/-- An interrupt is mirrored, whatever the selector is. -/
theorem mirrors_interrupt : Mirrors (mapMachine Machine.raw) interrupt RawMachine.interrupt vm := by
  refine mirrors_pop_bind fun selector vm => ?_
  cases Service.ofSelector? selector with
  | none => exact mirrors_throw _
  | some service => exact mirrors_serve service

/-! ## Instructions -/

/-- A reset loads the image and then moves the instruction pointer. -/
theorem reset_eq : reset = restart Machine.load >>= fun _ =>
    modifyMachine fun m => { m with ip := Machine.before 0 } := by
  funext vm
  cases h : sourceImage vm with
  | ok img t =>
    have hload : ∀ load, restart load vm = .ok () { t with
        machine := load t.machine img
        names := .empty
        save := t.save.close } := fun load => bind_of_ok h
    rw [bind_of_ok (hload Machine.load)]
    exact hload _
  | error e t =>
    have hload : ∀ load, restart load vm = .error e t := fun load => bind_of_error h
    rw [bind_of_error (hload Machine.load)]
    exact hload _

/-- A reset is mirrored. -/
theorem mirrors_reset : Mirrors (mapMachine Machine.raw) reset RawMachine.reset vm := by
  rw [reset_eq]
  have hrestart : Commutes (mapMachine Machine.raw) (restart Machine.load)
      (restart fun _ img => RawMachine.ofImage img) vm :=
    commutes_restart Machine.raw vm fun m img => (Machine.raw_ofImage img).symm
  refine (hrestart.mirrors (avoids_restart (p := (· = .handleOverflow)) nofun _ vm _ rfl)).bind
    fun _ t _ => ?_
  exact mirrors_modifyMachine (Machine.setIp_raw t.machine _)

/-- The instruction comes from a byte, so that its register is one of the machine. -/
theorem mirrors_execute (b : UInt8) :
    Mirrors (mapMachine Machine.raw) (execute (.decode b)) (RawMachine.execute (.decode b)) vm := by
  cases hdecode : Instruction.decode b with
  | unassigned byte => exact mirrors_pure _
  | register op reg =>
    -- the byte has five bits for the register
    have hreg := registerIndex_of_decode hdecode
    have hexec := mirrors_onMachine (Machine.mirrors_execRegister (m := vm.machine) op
      (registerIndex reg))
    rw [hreg] at hexec
    exact hexec.bind fun _ _ _ => mirrors_pure _
  | extended op =>
    cases op with
    | interrupt => exact mirrors_interrupt.bind fun _ _ _ => mirrors_pure _
    | reset => exact mirrors_reset.bind fun _ _ _ => mirrors_pure _
    | halt => exact (mirrors_onConsole _).bind fun _ _ _ => mirrors_pure _
    | _ =>
      exact (mirrors_onMachine (Machine.mirrors_exec _)).bind fun _ _ _ => mirrors_pure _

/-- A step is mirrored by the checked step. -/
theorem mirrors_step : Mirrors (mapMachine Machine.raw) step RawMachine.step vm := by
  refine mirrors_look_bind (Machine.ip_raw vm.machine) (mirrors_look_bind
    (Machine.readCode_raw vm.machine _) ?_)
  obtain ⟨log, hlog⟩ := exists_traceWith traceLine vm
  -- the log line is made of what the checked step has read: the address and the instruction
  refine ((commutes_traceWith Machine.raw vm rfl).mirrors (faults_of_ok hlog)).bind fun _ t ht => ?_
  obtain ⟨-, rfl⟩ := EStateM.Result.ok.inj (hlog.symm.trans ht)
  refine mirrors_get_bind ((mirrors_execute _).bind fun outcome t _ => ?_)
  cases outcome with
  | halt => exact mirrors_pure _
  | next =>
    -- the address moves on by one, and wraps
    refine mirrors_look_bind (Machine.ip_raw t.machine) ?_
    have hnext : Mirrors (mapMachine Machine.raw) (modifyMachine fun m => { m with ip := m.ip + 1 })
        (RawMachine.onVm (RawMachine.setIp (t.machine.ip + 1))) t :=
      mirrors_modifyMachine (Machine.setIp_raw t.machine _)
    exact hnext.bind fun _ _ _ => mirrors_pure _

end Vm

end WordMachine

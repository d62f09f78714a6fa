import WordMachine.Proofs.Lockstep.ServiceFaults

/-!
# Properties of the parts of a virtual machine

An action on one part of a virtual machine keeps a property of the whole if the property survives
what the action does to its part. So a property of the machine is kept by whatever works on the
console, the save store or the host, and each action on the machine has only to be looked at there
(`preserves_onMachine`). A name that a request is served under is gone when it ends, so a property
that does not speak of names is kept under a name as it is without (`preserves_withName`).

What a service is made of is said once. A property that these actions keep (`ServiceStable`) is kept
by every service (`ServiceStable.serve`), and with the instructions and the reset by a step
(`preserves_step`). Of a property of the machine only actions on the stack and other data matter
(`serviceStable_of_machine`). A property that printing does not keep may still be kept by the
services of the save store (`StorageStable.serve`).
-/

namespace WordMachine

/-- An action on the stack keeps what survives the stack it leaves. -/
theorem Machine.preserves_onStack {α : Type} {q : Machine → Prop} {act : Stack.Op α}
    (h : ∀ m, q m → q { m with stack := stateOf (act m.stack) }) : Preserves q (onStack act) := by
  intro m hm
  rw [onStack_eq, stateOf_mapState]
  exact h m hm

namespace Vm

variable {M α : Type} {p : Vm M → Prop}

/-- An action on the machine keeps what survives the machine it leaves. -/
theorem preserves_onMachine {act : EStateM Fault M α}
    (h : ∀ vm, p vm → p { vm with machine := stateOf (act vm.machine) }) :
    Preserves p (onMachine act) := by
  intro vm hvm
  rw [onMachine_eq, stateOf_mapState]
  exact h vm hvm

/-- An action on the console keeps what survives the console it leaves. -/
theorem preserves_onConsole {act : Console.Op α}
    (h : ∀ vm, p vm → p { vm with console := stateOf (act vm.console) }) :
    Preserves p (onConsole act) := by
  intro vm hvm
  rw [stateOf_onConsole]
  exact h vm hvm

/-- An action on the save store keeps what survives the store and the host it leaves. -/
theorem preserves_onSave {act : SaveStore.Op α}
    (h : ∀ vm, p vm → p { vm with
      save := (stateOf (act (vm.save, vm.host))).1
      host := (stateOf (act (vm.save, vm.host))).2 }) :
    Preserves p (onSave act) := by
  intro vm hvm
  rw [onSave_eq, stateOf_mapState]
  exact h vm hvm

/-- An action on the host keeps what survives the host it leaves. -/
theorem preserves_onHost {act : EStateM Fault Host α}
    (h : ∀ vm, p vm → p { vm with host := stateOf (act vm.host) }) :
    Preserves p (onHost act) := by
  intro vm hvm
  rw [onHost_eq, stateOf_mapState]
  exact h vm hvm

/-- A change of the machine keeps what survives it. -/
theorem preserves_modifyMachine {g : M → M}
    (h : ∀ vm, p vm → p { vm with machine := g vm.machine }) :
    Preserves p (modifyMachine g) := preserves_modify h

/-- A check keeps everything. -/
theorem preserves_check (r : Except Fault α) : Preserves p (check r) := by
  cases r with
  | ok x => exact preserves_pure x
  | error e => exact preserves_throw e

/-- A log line keeps what does not speak of the log. -/
theorem preserves_traceWith {line : M → String}
    (h : ∀ vm log, p vm → p { vm with host := { vm.host with log } }) :
    Preserves p (traceWith line) := by
  intro vm hvm
  obtain ⟨log, hlog⟩ := exists_traceWith line vm
  rw [hlog]
  exact h vm log hvm

/-- A request served under a name keeps what the request keeps and what does not speak of names. -/
theorem preserves_withName {text : String} {serve : String → OpOn M α}
    (hp : ∀ vm names, p vm → p { vm with names }) (h : ∀ name, Preserves p (serve name)) :
    Preserves p (withName text serve) := by
  intro vm hvm
  -- the handle is released or not, but nothing else happens after the request
  have hrelease : ∀ handle, Preserves p (releaseName handle : OpOn M Unit) := by
    intro handle t ht
    unfold releaseName
    cases t.names.dispose handle with
    | ok names => exact hp t names ht
    | error e => exact ht
  have hserve := h (((vm.names.assign text).2.get? (vm.names.assign text).1).getD "") _
    (hp vm (vm.names.assign text).2 hvm)
  simp only [withName]
  split
  · rename_i x t hok
    rw [hok] at hserve
    exact (hrelease _).bind (fun _ => preserves_pure x) t hserve
  · rename_i e t herr
    rw [herr] at hserve
    exact (hrelease _).bind (fun _ => preserves_throw e) t hserve

/-- A call of an extension changes the loader and the log, then the machine and the notes, and shows
what was printed. -/
theorem preserves_callExtension [Utility.Target M]
    (hload : ∀ vm loader log, p vm → p { vm with loader, host := { vm.host with log } })
    (hrun : ∀ vm machine notes, p vm → p { vm with machine, notes })
    (hshow : ∀ vm text fromLibrary, p vm → p (showPrinted vm text fromLibrary)) (name : String)
    (index : Word) : Preserves p (callExtension name index) := by
  have hfound : Preserves p (loadExtension name) := by
    intro vm hvm
    unfold loadExtension
    split
    · exact hload vm _ _ hvm
    · exact hload vm _ _ hvm
  -- the utility ends or fails, and either way what it printed is shown
  refine hfound.bind fun ext => (preserves_check _).bind fun entry => ?_
  intro vm hvm
  simp only [runEntry]
  split
  · exact hshow _ _ _ (hrun vm _ _ hvm)
  · exact hshow _ _ _ (hrun vm _ _ hvm)

/-- A restart reads the image, loads it, and lets go of the names and the save file. -/
theorem preserves_restart {load : M → Image → M}
    (hhost : ∀ vm path, p vm → p { vm with host := stateOf (readImage path vm.host) })
    (hload : ∀ vm img, p vm → p { vm with
      machine := load vm.machine img
      names := .empty
      save := vm.save.close }) : Preserves p (restart load) := by
  have hsource : Preserves p (sourceImage : OpOn M Image) := by
    refine preserves_get.bind fun vm => ?_
    -- the image is at hand, or it is read from the file
    split
    · exact preserves_pure _
    · exact preserves_onHost fun vm hvm => hhost vm _ hvm
  exact hsource.bind fun img => preserves_modify fun vm hvm => hload vm img hvm

/-! ## Services and steps -/

/-- The actions that the services of the save store are made of keep a property. -/
structure StorageStable (p : Vm → Prop) : Prop where
  pop : Preserves p pop
  push : ∀ w, Preserves p (onMachine (Machine.push w))
  copy : ∀ a words, Preserves p
    (modifyMachine fun m : Machine => { m with data := m.data.setAll a words })
  read : ∀ slot, Preserves p (onSave (SaveStore.read slot))
  write : ∀ slot w, Preserves p (onSave (SaveStore.write slot w))
  readRange : ∀ start n, Preserves p (onSave (SaveStore.readRange start n))
  writeRange : ∀ start words, Preserves p (onSave (SaveStore.writeRange start words))

/-- The actions that services are made of, apart from the calls of extensions, keep a property. -/
structure ServiceStable (p : Vm → Prop) : Prop extends StorageStable p where
  logWord : ∀ w, Preserves p (onConsole (Console.logWord w))
  logText : ∀ text, Preserves p (withName text fun s => onConsole (Console.logText s))

/-- A service that neither prints nor calls an extension. -/
theorem StorageStable.serve {p : Vm → Prop} (h : StorageStable p) {service : Service}
    (hword : service ≠ .logWord) (hstring : service ≠ .logString)
    (hcall : service ≠ .extension) : Preserves p (serve service) := by
  cases service with
  | logWord | logString | extension => contradiction
  | reserved => exact preserves_throw _
  | saveRead => exact h.pop.bind fun slot => (h.read slot).bind h.push
  | saveWrite => exact h.pop.bind fun slot => h.pop.bind (h.write slot)
  | saveToMemory =>
    exact h.pop.bind fun address => h.pop.bind fun length => h.pop.bind fun start =>
      preserves_get.bind fun vm => (preserves_check _).bind fun _ =>
        (h.readRange start length.toNat).bind (h.copy address)
  | memoryToSave =>
    exact h.pop.bind fun address => h.pop.bind fun length => h.pop.bind fun start =>
      preserves_get.bind fun vm => (preserves_check _).bind (h.writeRange start)

/-- What services are made of keeps the property, so each service does, as far as it calls no
extension or the calls keep it. -/
theorem ServiceStable.serve {p : Vm → Prop} (h : ServiceStable p) {service : Service}
    (hcall : service = .extension → ∀ text index,
      Preserves p (withName text fun name => callExtension name index)) :
    Preserves p (serve service) := by
  cases service with
  | logWord => exact h.pop.bind h.logWord
  | logString => exact h.pop.bind fun address => preserves_get.bind fun vm => h.logText _
  | extension =>
    exact h.pop.bind fun address => h.pop.bind fun index => preserves_get.bind fun vm =>
      hcall rfl _ index
  | reserved | saveRead | saveWrite | saveToMemory | memoryToSave =>
    exact h.toStorageStable.serve nofun nofun nofun

/-- A property of the machine that survives actions on its stack and other data survives what
services are made of. -/
theorem serviceStable_of_machine {q : Machine → Prop}
    (hstack : ∀ {α : Type} (act : Stack.Op α), Preserves q (Machine.onStack act))
    (hdata : ∀ m data, q m → q { m with data }) : ServiceStable fun vm => q vm.machine where
  pop := preserves_onMachine fun vm => hstack _ vm.machine
  push := fun _ => preserves_onMachine fun vm => hstack _ vm.machine
  copy := fun _ _ => preserves_modifyMachine fun vm => hdata vm.machine _
  logWord := fun _ => preserves_onConsole fun _ h => h
  logText := fun _ => preserves_withName (fun _ _ h => h) fun _ => preserves_onConsole fun _ h => h
  read := fun _ => preserves_onSave fun _ h => h
  write := fun _ _ => preserves_onSave fun _ h => h
  readRange := fun _ _ => preserves_onSave fun _ h => h
  writeRange := fun _ _ => preserves_onSave fun _ h => h

/-- An instruction other than the interrupt works on the machine, flushes or resets. -/
theorem preserves_execute_of_ne {p : Vm → Prop} (hreset : Preserves p reset)
    (hflush : Preserves p (onConsole Console.flush))
    (hmachine : ∀ {α : Type} (act : Machine.Op α), Preserves p (onMachine act)) {i : Instruction}
    (hi : i ≠ .extended .interrupt) : Preserves p (execute i) := by
  unfold execute
  split
  · -- the cases of `execute` in order: interrupt, reset, halt, and what the machine does itself
    exact absurd rfl hi
  · exact hreset.bind fun _ => preserves_pure _
  · exact hflush.bind fun _ => preserves_pure _
  · exact (hmachine _).bind fun _ => preserves_pure _
  · exact (hmachine _).bind fun _ => preserves_pure _
  · exact preserves_pure _

/-- Every instruction keeps what the services, a reset, a flush and the machine's actions keep. -/
theorem preserves_execute {p : Vm → Prop} (hserve : ∀ service, Preserves p (serve service))
    (hreset : Preserves p reset) (hflush : Preserves p (onConsole Console.flush))
    (hmachine : ∀ {α : Type} (act : Machine.Op α), Preserves p (onMachine act)) (i : Instruction) :
    Preserves p (execute i) := by
  by_cases hi : i = .extended .interrupt
  · subst hi
    refine ((hmachine _).bind fun selector => ?_).bind fun _ => preserves_pure _
    -- the selector names no service, or the service is asked
    split
    · exact preserves_throw _
    · exact hserve _
  · exact preserves_execute_of_ne hreset hflush hmachine hi

/-- So does a step, which adds a log line in front and moves the instruction pointer on behind. -/
theorem preserves_step {p : Vm → Prop} (hserve : ∀ service, Preserves p (serve service))
    (hreset : Preserves p reset) (hflush : Preserves p (onConsole Console.flush))
    (hmachine : ∀ {α : Type} (act : Machine.Op α), Preserves p (onMachine act))
    (hlog : ∀ vm log, p vm → p { vm with host := { vm.host with log } }) : Preserves p step := by
  refine (preserves_traceWith hlog).bind fun _ => preserves_get.bind fun vm =>
    (preserves_execute hserve hreset hflush hmachine _).bind fun outcome => ?_
  cases outcome with
  | halt => exact preserves_pure _
  | next =>
    exact (hmachine (modify fun m => { m with ip := m.ip + 1 })).bind fun _ => preserves_pure _

end Vm

end WordMachine

import WordMachine.Proofs.Lockstep.Utilities

/-!
# Steps on slots and on the list

One step of the virtual machine is one step of the list machine, seen through the view, as long as
it does not write register 31: `commutes_step`. The instructions come from `commutes_exec` and
`commutes_execRegister`, the services from what each pops and from the actions that do not look at
the machine, and the call of a utility from `Entry.commutes_run`.

`ListMachine.SparesPointer` is the condition. It is read off the view: the next instruction is none
of those that write register 31, and if it calls a utility (`ListMachine.Calls`), the call keeps the
stack pointer.
-/

namespace WordMachine

/-- The instruction writes register 31. -/
def Instruction.WritesPointer : Instruction → Prop
  | .extended op => op = .regSwap
  | .register op reg => Vm.registerIndex reg = .stackPointer ∧ op ≠ .mask ∧ op ≠ .push
  | .unassigned _ => False

namespace ListMachine

open Utility (Target Scope)

/-- The next step calls the utility `e` on the machine `m`, whose operands are off the list. -/
def Calls (v : Vm ListMachine) (e : Entry) (m : ListMachine) : Prop :=
  v.machine.fetch = .extended .interrupt ∧
    ∃ (a index : Word) (rest : List Word),
      v.machine.stack = Service.extension.selector :: a :: index :: rest ∧
      m = v.machine.dropWords 3 ∧
      ∃ (ext : Extension) (log : Log) (found : Loader × Log),
        Loader.load (v.libraries.open? v.host.disk) (Target.stringAt m a) (v.loader, log) =
          .ok ext found ∧ ext.entries[index.toNat]? = some e

/-- The next step does not write register 31, neither itself nor in a utility. -/
def SparesPointer (v : Vm ListMachine) : Prop :=
  ¬ v.machine.fetch.WritesPointer ∧ ∀ e m, Calls v e m → e.KeepsPointer (.ofMachine m)

end ListMachine

/-- A pop that succeeds takes the same word off the list. -/
theorem Machine.pop_view {m n : Machine} {w : Word} (h : pop m = .ok w n) :
    ListMachine.pop m.view = .ok w n.view := by
  have hpop : ListMachine.pop m.view = mapState view (pop m) := commutes_pop m
  rw [hpop, h, mapState_ok]

namespace Vm

open Utility (Target Scope)

variable {M α β : Type}

/-- The virtual machine as the live words of its machine show it. -/
def view (vm : Vm) : Vm ListMachine := vm.mapMachine Machine.view

/-! ## What single actions leave alone -/

/-- An action on the machine that succeeds leaves the services alone. -/
theorem onMachine_of_ok {act : EStateM Fault M α} (vm : Vm M) {x : α} {m : M}
    (h : act vm.machine = .ok x m) : onMachine act vm = .ok x { vm with machine := m } := by
  rw [onMachine_eq, h, mapState_ok]

/-- So does one that faults. -/
theorem onMachine_of_error {act : EStateM Fault M α} (vm : Vm M) {e : Fault} {m : M}
    (h : act vm.machine = .error e m) : onMachine act vm = .error e { vm with machine := m } := by
  rw [onMachine_eq, h, mapState_error]

/-- Logging an instruction changes the log only. -/
theorem exists_traceWith (line : M → String) (vm : Vm M) :
    ∃ log, traceWith line vm = .ok () { vm with host := { vm.host with log := log } } := by
  change ∃ log, (if vm.trace then _ else _ : OpOn M Unit) vm = _
  split
  · exact ⟨_, rfl⟩
  · exact ⟨_, rfl⟩

/-- Loading an extension finds what the loader finds, and leaves the machine alone. -/
theorem loadExtension_eq_ok {name : String} {vm t : Vm M} {ext : Extension}
    (h : loadExtension name vm = .ok ext t) :
    t.machine = vm.machine ∧ ∃ found,
      Loader.load (vm.libraries.open? vm.host.disk) name (vm.loader, vm.host.log) =
        .ok ext found := by
  unfold loadExtension at h
  cases hload : Loader.load (vm.libraries.open? vm.host.disk) name (vm.loader, vm.host.log) with
  | ok ext' found =>
    rw [hload] at h
    obtain ⟨rfl, rfl⟩ := EStateM.Result.ok.inj h
    exact ⟨rfl, found, rfl⟩
  | error e found =>
    rw [hload] at h
    nomatch h

/-! ## Operands of services -/

/-- Two actions on the machine in a row are one. -/
theorem onMachine_bind (act : EStateM Fault M α) (k : α → EStateM Fault M β) :
    onMachine (act >>= k) = onMachine act >>= fun x => onMachine (k x) := by
  funext vm
  cases hact : act vm.machine with
  | ok x m =>
    rw [bind_of_ok (onMachine_of_ok vm hact)]
    cases hk : k x m with
    | ok y n =>
      rw [onMachine_of_ok vm ((bind_of_ok hact).trans hk)]
      exact (onMachine_of_ok { vm with machine := m } hk).symm
    | error e n =>
      rw [onMachine_of_error vm ((bind_of_ok hact).trans hk)]
      exact (onMachine_of_error { vm with machine := m } hk).symm
  | error e m =>
    rw [bind_of_error (onMachine_of_error vm hact), onMachine_of_error vm (bind_of_error hact)]

/-- The first of several operands that a service takes. -/
theorem commutes_take_succ {n : Nat} {act : Word → Op α} {k : List Word → OpOn ListMachine α}
    {vm : Vm}
    (h : ∀ w m, Machine.pop vm.machine = .ok w m →
      Commutes view (act w) (onMachine (ListMachine.take n) >>= fun ws => k (w :: ws))
        { vm with machine := m }) :
    Commutes view (pop >>= act) (onMachine (ListMachine.take (n + 1)) >>= k) vm := by
  have htake : onMachine (ListMachine.take (n + 1)) >>= k =
      onMachine ListMachine.pop >>= fun w =>
        onMachine (ListMachine.take n) >>= fun ws => k (w :: ws) := by
    rw [ListMachine.take, onMachine_bind, bind_assoc]
    congr 1
    funext w
    rw [onMachine_bind, bind_assoc]
    rfl
  rw [htake]
  refine (commutes_onMachine Machine.view vm (Machine.commutes_pop vm.machine)).bind
    fun w t ht => ?_
  obtain ⟨m, hm, rfl⟩ := onMachine_eq_ok ht
  exact h w m hm

/-- A service that takes no further operand. -/
theorem commutes_take_zero {act : Op α} {k : List Word → OpOn ListMachine α} {vm : Vm}
    (h : Commutes view act (k []) vm) :
    Commutes view act (onMachine (ListMachine.take 0) >>= k) vm := h

/-! ## Calls of utilities -/

/-- Running a utility that keeps the stack pointer commutes with the view. -/
theorem commutes_runEntry {e : Entry} {vm : Vm} (fromLibrary : Bool)
    (h : e.KeepsPointer (.ofMachine vm.machine.view)) :
    Commutes view (runEntry e fromLibrary) (runEntry e fromLibrary) vm := by
  have hrun : e.run (Scope.ofMachine vm.machine.view) =
      mapState (Scope.map Machine.view) (e.run (Scope.ofMachine vm.machine)) :=
    e.commutes_run (.ofMachine vm.machine) h
  have hmap : view vm = mapMachine Machine.view vm := rfl
  simp only [Commutes, runEntry, hmap, mapMachine, hrun]
  cases e.run (Scope.ofMachine vm.machine) with
  | ok x s =>
    simp only [mapState_ok]
    rw [view, mapMachine_showPrinted]
    rfl
  | error e s =>
    simp only [mapState_error]
    rw [view, mapMachine_showPrinted]
    rfl

/-- A call of an extension commutes with the view if the utility that it runs keeps the stack
pointer. -/
theorem commutes_callExtension {name : String} {index : Word} {vm : Vm}
    (h : ∀ ext e log found,
      Loader.load (vm.libraries.open? vm.host.disk) name (vm.loader, log) = .ok ext found →
      ext.entries[index.toNat]? = some e → e.KeepsPointer (.ofMachine vm.machine.view)) :
    Commutes view (callExtension name index) (callExtension name index) vm := by
  refine (commutes_loadExtension Machine.view vm name).bind fun ext t ht => ?_
  obtain ⟨hmachine, found, hload⟩ := loadExtension_eq_ok ht
  refine (commutes_check Machine.view t _).bind fun e t' ht' => ?_
  -- the entry that the index names is the one whose call is known to keep the stack pointer
  have hentry : ext.entries[index.toNat]? = some e ∧ t' = t := by
    unfold Loader.entry at ht'
    cases hindex : ext.entries[index.toNat]? with
    | none =>
      rw [hindex] at ht'
      nomatch ht'
    | some e' =>
      rw [hindex] at ht'
      obtain ⟨rfl, rfl⟩ := EStateM.Result.ok.inj ht'
      exact ⟨rfl, rfl⟩
  obtain ⟨hindex, rfl⟩ := hentry
  exact commutes_runEntry _ (hmachine ▸ h ext e _ found hload hindex)

/-! ## Services -/

/-- A service that keeps the stack pointer commutes with the view, its operands being taken on both
sides. The condition is about the call of a utility; the other services meet it. -/
theorem commutes_serve {service : Service} {vm : Vm}
    (h : service = .extension → ∀ a index m₂ m₃, ListMachine.pop vm.machine.view = .ok a m₂ →
      ListMachine.pop m₂ = .ok index m₃ → ∀ ext e log found,
      Loader.load (vm.libraries.open? vm.host.disk) (Target.stringAt m₃ a) (vm.loader, log) =
        .ok ext found →
      ext.entries[index.toNat]? = some e → e.KeepsPointer (.ofMachine m₃)) :
    Commutes view (serve service)
      (onMachine (ListMachine.take service.operands) >>= ListMachine.serve service) vm := by
  cases service with
  | reserved => exact commutes_take_zero (commutes_throw _)
  | logWord =>
    exact commutes_take_succ fun w m _ => commutes_take_zero (commutes_onConsole _ _ _)
  | logString =>
    refine commutes_take_succ fun a m _ => commutes_take_zero (commutes_get_bind ?_)
    change Commutes view _ (withName (Target.stringAt m.view a) _) _
    rw [Machine.stringAt_view]
    exact commutes_withName Machine.view _ (commutes_onConsole Machine.view _ _)
  | saveRead =>
    refine commutes_take_succ fun slot m _ => commutes_take_zero ?_
    refine (commutes_onSave Machine.view _ _).bind fun w t _ => ?_
    exact commutes_onMachine Machine.view t (Machine.commutes_push w t.machine)
  | saveWrite =>
    exact commutes_take_succ fun slot m _ => commutes_take_succ fun w m _ =>
      commutes_take_zero (commutes_onSave _ _ _)
  | saveToMemory =>
    refine commutes_take_succ fun a m _ => commutes_take_succ fun n m _ =>
      commutes_take_succ fun start m _ => commutes_take_zero (commutes_get_bind ?_)
    refine (commutes_check Machine.view _ _).bind fun _ t _ => ?_
    refine (commutes_onSave Machine.view _ _).bind fun words t _ => ?_
    exact commutes_modifyMachine Machine.view t rfl
  | memoryToSave =>
    refine commutes_take_succ fun a m _ => commutes_take_succ fun n m _ =>
      commutes_take_succ fun start m _ => commutes_take_zero (commutes_get_bind ?_)
    refine (commutes_check Machine.view _ _).bind fun words t _ => ?_
    exact commutes_onSave Machine.view t _
  | extension =>
    refine commutes_take_succ fun a m hm => commutes_take_succ fun index m' hm' =>
      commutes_take_zero (commutes_get_bind ?_)
    change Commutes view _ (withName (Target.stringAt m'.view a) _) _
    rw [Machine.stringAt_view]
    refine commutes_withName Machine.view _ (commutes_callExtension ?_)
    intro ext e log found hload hindex
    refine h rfl a index m.view m'.view (Machine.pop_view hm) (Machine.pop_view hm') ext e log found
      ?_ hindex
    rw [Machine.stringAt_view]
    exact hload

/-- The interrupt commutes with the view: the selector is popped, then the service is as above. -/
theorem commutes_interrupt {vm : Vm}
    (h : ∀ a index m₁ m₂ m₃, ListMachine.pop vm.machine.view = .ok Service.extension.selector m₁ →
      ListMachine.pop m₁ = .ok a m₂ → ListMachine.pop m₂ = .ok index m₃ → ∀ ext e log found,
      Loader.load (vm.libraries.open? vm.host.disk) (Target.stringAt m₃ a) (vm.loader, log) =
        .ok ext found →
      ext.entries[index.toNat]? = some e → e.KeepsPointer (.ofMachine m₃)) :
    Commutes view interrupt (onMachine ListMachine.pop >>= ListMachine.interrupt) vm := by
  refine (commutes_onMachine Machine.view vm (Machine.commutes_pop vm.machine)).bind
    fun selector t ht => ?_
  obtain ⟨m, hm, rfl⟩ := onMachine_eq_ok ht
  unfold ListMachine.interrupt
  cases hservice : Service.ofSelector? selector with
  | none => exact commutes_throw _
  | some service =>
    refine commutes_serve ?_
    rintro rfl a index m₂ m₃ h₂ h₃
    have hselector := Service.selector_of_ofSelector? hservice
    exact h a index m.view m₂ m₃ (hselector ▸ Machine.pop_view hm) h₂ h₃

/-! ## Instructions -/

/-- An instruction that spares the stack pointer commutes with the view. -/
theorem commutes_execute {vm : Vm} (h : ListMachine.SparesPointer vm.view) :
    Commutes view (execute (fetch vm.machine)) (ListMachine.execute vm.view.machine.fetch) vm := by
  have hfetch : vm.view.machine.fetch = fetch vm.machine := rfl
  obtain ⟨hwrites, hcalls⟩ := h
  rw [hfetch] at hwrites ⊢
  cases hinstr : fetch vm.machine with
  | unassigned byte => exact commutes_pure _
  | register op reg =>
    rw [hinstr] at hwrites
    have hop : registerIndex reg = .stackPointer → op = .mask ∨ op = .push := by
      intro hreg
      by_cases hmask : op = .mask
      · exact .inl hmask
      · exact .inr (Decidable.byContradiction fun hpush => hwrites ⟨hreg, hmask, hpush⟩)
    exact (commutes_onMachine Machine.view vm (Machine.commutes_execRegister hop vm.machine)).bind
      fun _ _ _ => commutes_pure _
  | extended op =>
    rw [hinstr] at hwrites
    cases op with
    | regSwap => exact absurd rfl hwrites
    | interrupt =>
      refine Commutes.bind ?_ fun _ _ _ => commutes_pure _
      refine commutes_interrupt fun a index m₁ m₂ m₃ h₁ h₂ h₃ ext e log found hload hindex => ?_
      -- three pops in a row find the call's three operands in front of the list
      obtain ⟨hs₁, rfl⟩ := ListMachine.pop_eq_ok h₁
      obtain ⟨hs₂, rfl⟩ := ListMachine.pop_eq_ok h₂
      obtain ⟨hs₃, rfl⟩ := ListMachine.pop_eq_ok h₃
      rw [hs₃] at hs₂
      rw [hs₂] at hs₁
      exact hcalls e _ ⟨hfetch.trans hinstr, a, index, _, hs₁,
        by simp only [ListMachine.dropWords_dropWords]; rfl, ext, log, found, hload, hindex⟩
    | reset =>
      exact (commutes_restart Machine.view vm fun _ _ => rfl).bind fun _ _ _ => commutes_pure _
    | halt => exact (commutes_onConsole Machine.view vm _).bind fun _ _ _ => commutes_pure _
    | _ =>
      exact (commutes_onMachine Machine.view vm
        (Machine.commutes_exec (by decide) (by decide) vm.machine)).bind
          fun _ _ _ => commutes_pure _

/-- One step that spares the stack pointer is one step of the list machine. -/
theorem commutes_step {vm : Vm} (h : ListMachine.SparesPointer vm.view) :
    Commutes view step ListMachine.step vm := by
  refine (commutes_traceWith Machine.view vm rfl).bind fun _ t ht => ?_
  -- logging the instruction changes neither machine nor condition
  obtain ⟨log, hlog⟩ := exists_traceWith traceLine vm
  obtain ⟨-, rfl⟩ := EStateM.Result.ok.inj (hlog.symm.trans ht)
  refine commutes_get_bind ?_
  refine (commutes_execute ?_).bind fun outcome t _ => ?_
  · exact h
  · cases outcome with
    | halt => exact commutes_pure _
    | next =>
      exact (commutes_modifyMachine Machine.view t rfl).bind fun _ _ _ => commutes_pure _

end Vm

end WordMachine

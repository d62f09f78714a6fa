import WordMachine.Proofs.Vm.Requests
import WordMachine.Proofs.Vm.Restart

/-!
# What a run does to files

A virtual machine touches files through its save store alone. What a step asks of the store can be
read off the machine beforehand (`request?`), and apart from what the store does to serve that
request, a step leaves the store and the files as they are, or closes the store
(`storage_step`). Logging does not count here.

So a property of the store and the files that every request keeps is kept by whatever happens, as
long as nobody else changes files (`storage_after`).
-/

namespace WordMachine

/-- What a service asks of the save store, given the words that it finds on the stack, the top
first. -/
def Service.request? (m : Machine) : Service → List Word → Option SaveStore.Request
  | .saveRead, slot :: _ => some (.read slot)
  | .saveWrite, slot :: w :: _ => some (.write slot w)
  | .saveToMemory, address :: length :: start :: _ =>
    (m.dataRange address length).toOption.map fun _ => .readRange start length.toNat
  | .memoryToSave, address :: length :: start :: _ =>
    (m.dataRange address length).toOption.map fun words => .writeRange start words
  | _, _ => none

/-- The store and the host after a request, if there is one. -/
def SaveStore.afterRequest : Option Request → SaveStore × Host → SaveStore × Host
  | none, s => s
  | some r, s => stateOf (serve r s)

namespace Vm

/-- What a virtual machine asks of the save store in the next step. -/
def request? (vm : Vm) : Option SaveStore.Request :=
  vm.service?.bind fun service => service.request? vm.machine vm.operands

/-- Nobody else changes files in the event. -/
def Event.Inside : Event → Prop
  | .outside _ _ => False
  | _ => True

/-- What an event asks of the save store. -/
def eventRequest? (vm : Vm) : Event → Option SaveStore.Request
  | .step => vm.request?
  | _ => none

/-- The save store, and the host with the files. -/
def storage (vm : Vm) : SaveStore × Host := (vm.save, vm.host)

variable {p : SaveStore × Host → Prop} {vm : Vm}

/-! ## Services -/

/-- What works on the save store leaves behind the store and the host of its own result. -/
theorem storage_onSave {α : Type} (act : SaveStore.Op α) (vm : Vm) :
    (stateOf (onSave act vm)).storage = stateOf (act vm.storage) := by
  rw [onSave_eq, stateOf_mapState]
  rfl

/-- Showing what was printed changes neither store nor host. -/
theorem storage_showPrinted (vm : Vm) (text : String) (fromLibrary : Bool) :
    (showPrinted vm text fromLibrary).storage = vm.storage := by
  unfold showPrinted
  split <;> rfl

/-- A service that pops a word, and what follows. -/
theorem storage_pop_bind {k : Word → Op Unit}
    (hempty : vm.machine.stack.live = [] → p vm.storage)
    (hk : ∀ w, vm.machine.stack.live = w :: (vm.machine.spend 1).stack.live →
      p (stateOf (k w { vm with machine := vm.machine.spend 1 })).storage) :
    p (stateOf ((pop >>= k) vm)).storage := by
  rcases pop_bind_cases vm k with ⟨hlive, hpop⟩ | ⟨w, hlive, hpop⟩
  · rw [hpop]
    exact hempty hlive
  · rw [hpop]
    exact hk w hlive

/-- A service that copies a range of words pops its operands and checks the range of data. -/
theorem storage_copy_bind {k : Word → Word → Word → List Word → Op Unit} {service : Service}
    (hvm : p (SaveStore.afterRequest (service.request? vm.machine vm.machine.stack.live)
      vm.storage))
    (hservice : service = .saveToMemory ∨ service = .memoryToSave)
    (hk : ∀ address length start words rest (m : Machine),
      vm.machine.stack.live = address :: length :: start :: rest →
      vm.machine.dataRange address length = .ok words →
      p (stateOf (k address length start words { vm with machine := m })).storage) :
    p (stateOf ((do
      let address ← pop
      let length ← pop
      let start ← pop
      let words ← check ((← get).machine.dataRange address length)
      k address length start words : Op Unit) vm)).storage := by
  -- without three operands, and a range that is there, nothing is asked of the store
  have hnone : service.request? vm.machine vm.machine.stack.live = none → p vm.storage := by
    intro hrequest
    rwa [hrequest] at hvm
  refine storage_pop_bind (fun hempty => hnone ?_) fun address h₁ =>
    storage_pop_bind (fun hempty => hnone ?_) fun length h₂ =>
      storage_pop_bind (fun hempty => hnone ?_) fun start h₃ => ?_
  · -- the operands run out at the first, the second or the third pop
    rw [hempty]
    rcases hservice with rfl | rfl <;> rfl
  · rw [h₁, show (vm.machine.spend 1).stack.live = [] from hempty]
    rcases hservice with rfl | rfl <;> rfl
  · rw [h₁, show (vm.machine.spend 1).stack.live = _ from h₂,
      show ((vm.machine.spend 1).spend 1).stack.live = [] from hempty]
    rcases hservice with rfl | rfl <;> rfl
  · let m : Machine := ((vm.machine.spend 1).spend 1).spend 1
    have hlive : vm.machine.stack.live = address :: length :: start :: m.stack.live := by
      rw [h₁]
      exact congrArg _ (h₂.trans (congrArg _ h₃))
    -- the pops leave the data alone
    have hdata : m.dataRange address length = vm.machine.dataRange address length := rfl
    rw [get_bind_eq]
    show p (stateOf ((check (m.dataRange address length) >>= fun words =>
      k address length start words) { vm with machine := m })).storage
    cases hrange : vm.machine.dataRange address length with
    | error e =>
      rw [hdata, hrange]
      refine hnone ?_
      rw [hlive]
      rcases hservice with rfl | rfl <;> (rw [Service.request?, hrange]; rfl)
    | ok words =>
      rw [hdata, hrange]
      exact hk address length start words _ m hlive hrange

/-- A service does to the save store and the files what it asks of the store, and nothing else. -/
theorem storage_serve (hlog : ∀ {store host}, p (store, host) → ∀ log, p (store, { host with log }))
    {service : Service}
    (h : p (SaveStore.afterRequest (service.request? vm.machine vm.machine.stack.live)
      vm.storage)) :
    p (stateOf (serve service vm)).storage := by
  have hpop : Preserves (fun vm : Vm => p vm.storage) pop := preserves_onMachine fun _ h => h
  cases service with
  | reserved => exact h
  | logWord =>
    have hkeeps : Preserves (fun vm : Vm => p vm.storage) (serve .logWord) :=
      hpop.bind fun w => preserves_onConsole fun _ h => h
    exact hkeeps vm h
  | logString =>
    have hkeeps : Preserves (fun vm : Vm => p vm.storage) (serve .logString) :=
      hpop.bind fun address => preserves_get.bind fun _ =>
        preserves_withName (fun _ _ h => h) fun _ => preserves_onConsole fun _ h => h
    exact hkeeps vm h
  | extension =>
    have hkeeps : Preserves (fun vm : Vm => p vm.storage) (serve .extension) := by
      refine hpop.bind fun address => hpop.bind fun index => preserves_get.bind fun _ =>
        preserves_withName (fun _ _ h => h) fun name => ?_
      refine preserves_callExtension ?_ (fun _ _ _ h => h) ?_ name index
      · intro vm loader log h
        exact hlog h log
      · intro vm text fromLibrary h
        rwa [storage_showPrinted]
    exact hkeeps vm h
  | saveRead =>
    -- without a slot's number nothing is asked of the store
    refine storage_pop_bind (fun hempty => ?_) fun slot hlive => ?_
    · rw [hempty] at h
      exact h
    · rw [hlive] at h
      refine stateOf_bind (p := fun vm : Vm => p vm.storage) ?_ fun w =>
        preserves_onMachine fun _ h => h
      rw [storage_onSave]
      rwa [Service.request?, SaveStore.afterRequest, SaveStore.serve, stateOf_bind_pure] at h
  | saveWrite =>
    refine storage_pop_bind (fun hempty => ?_) fun slot h₁ =>
      storage_pop_bind (fun hempty => ?_) fun w h₂ => ?_
    · rw [hempty] at h
      exact h
    · rw [h₁, show (vm.machine.spend 1).stack.live = [] from hempty] at h
      exact h
    · rw [h₁, show (vm.machine.spend 1).stack.live = _ from h₂] at h
      rw [storage_onSave]
      rwa [Service.request?, SaveStore.afterRequest, SaveStore.serve, stateOf_bind_pure] at h
  | saveToMemory =>
    refine storage_copy_bind h (.inl rfl) ?_
    intro address length start words rest m hlive hrange
    rw [hlive, Service.request?, hrange] at h
    refine stateOf_bind (p := fun vm : Vm => p vm.storage) ?_ fun words =>
      preserves_modifyMachine fun _ h => h
    rw [storage_onSave]
    exact h
  | memoryToSave =>
    refine storage_copy_bind h (.inr rfl) ?_
    intro address length start words rest m hlive hrange
    rw [hlive, Service.request?, hrange] at h
    have hwrite : p (stateOf (SaveStore.serve (.writeRange start words) vm.storage)) := h
    rw [storage_onSave]
    rwa [SaveStore.serve, stateOf_bind_pure] at hwrite

/-! ## Steps -/

section

variable (hlog : ∀ {store host}, p (store, host) → ∀ log, p (store, { host with log }))
  (hclose : ∀ {store host}, p (store, host) → p (store.close, host))

include hlog hclose

/-- A reset keeps what survives lines in the log and the closing of the store. -/
theorem storage_reset : Preserves (fun vm : Vm => p vm.storage) reset := by
  refine preserves_restart ?_ fun _ _ h => hclose h
  intro vm path h
  obtain ⟨log, hread⟩ := exists_stateOf_readImage path vm.host
  rw [hread]
  exact hlog h log

/-- A step does to the save store and the files what it asks of the store, and may close the store
besides. -/
theorem storage_step (h : ∀ log, p (SaveStore.afterRequest vm.request?
    (vm.save, { vm.host with log }))) : p (stateOf (step vm)).storage := by
  cases hservice : vm.service? with
  | none =>
    have hvm : p vm.storage := by
      have hnow := h vm.host.log
      rwa [request?, hservice] at hnow
    exact preserves_of_no_service (storage_reset hlog hclose) (preserves_onConsole fun _ h => h)
      (fun _ => preserves_onMachine fun _ h => h) (fun _ log h => hlog h log) hservice hvm
  | some service =>
    -- the service finds on the stack what the request was read off
    obtain ⟨log, m, hstep⟩ := exists_step_serve hservice
    let vm₁ : Vm := { vm with
      machine := vm.machine.spend 1
      host := { vm.host with log } }
    have h₁ : p (SaveStore.afterRequest (service.request? vm₁.machine vm₁.machine.stack.live)
        vm₁.storage) := by
      have hlogged := h log
      rwa [request?, hservice, Option.bind_some, operands, ← vm.machine.live_spend_one] at hlogged
    rw [hstep]
    exact storage_serve hlog h₁

/-- What happens to a virtual machine without changing files from outside does to the files what it
asks of the save store. -/
theorem storage_event {e : Event} (he : e.Inside) (h : ∀ log, p (SaveStore.afterRequest
    (vm.eventRequest? e) (vm.save, { vm.host with log }))) : p (stateOf (event e vm)).storage := by
  cases e with
  | step => exact storage_step hlog hclose h
  | reset =>
    have hreset : Preserves (fun vm : Vm => p vm.storage) (event .reset) :=
      (storage_reset hlog hclose).bind fun _ => preserves_pure _
    exact hreset vm (h vm.host.log)
  | flush =>
    have hflush : Preserves (fun vm : Vm => p vm.storage) (event .flush) :=
      (preserves_onConsole fun _ h => h).bind fun _ => preserves_pure _
    exact hflush vm (h vm.host.log)
  | edit change | trace on => exact h vm.host.log
  | outside files libraries => exact he.elim

end

/-- Whatever happens, a property that every request keeps is kept. -/
theorem storage_after (hlog : ∀ {store host}, p (store, host) → ∀ log, p (store, { host with log }))
    (hserve : ∀ r, Preserves p (SaveStore.serve r)) (hvm : p vm.storage) {events : List Event}
    (hinside : ∀ e ∈ events, e.Inside) : p (after events vm).storage := by
  have hclose {store : SaveStore} {host : Host} (h : p (store, host)) : p (store.close, host) :=
    hserve .close (store, host) h
  -- each event asks one thing of the store at most, which keeps the property
  induction events generalizing vm with
  | nil => exact hvm
  | cons e events ih =>
    refine ih ?_ fun e' he' => hinside e' (List.mem_cons_of_mem e he')
    refine storage_event hlog hclose (hinside e (List.mem_cons_self ..)) fun log => ?_
    have hlogged : p (vm.save, { vm.host with log }) := hlog hvm log
    cases vm.eventRequest? e with
    | none => exact hlogged
    | some r => exact hserve r _ hlogged

/-! ## Runs that access slots -/

/-- One of the requests that some events make accesses slots. -/
def AccessesSlots : List Event → Vm → Prop
  | [], _ => False
  | e :: events, vm => (∃ r, vm.eventRequest? e = some r ∧ r.Accesses) ∨
      AccessesSlots events (stateOf (event e vm))

/-- The store is closed and on a path, and the files are as they are on a disk. -/
def Untouched (path : String) (disk : Disk) (s : SaveStore × Host) : Prop :=
  s.1 = .ofPath path ∧ s.2.disk = disk

/-- Closing a store that is closed does nothing. -/
theorem Untouched.close {path : String} {disk : Disk} {store : SaveStore} {host : Host}
    (h : Untouched path disk (store, host)) : Untouched path disk (store.close, host) := by
  obtain ⟨hstore, hdisk⟩ := h
  obtain rfl : store = .ofPath path := hstore
  exact ⟨rfl, hdisk⟩

open SaveStore (Attached Filled)

/-- Until slots are accessed, nothing happens to any file. From then on, a save file stands at the
path of the store. -/
theorem untouched_or_filled {path : String} {disk : Disk} (hopens : disk.Opens path)
    (hvm : Untouched path disk vm.storage) {events : List Event}
    (hinside : ∀ e ∈ events, e.Inside) :
    AccessesSlots events vm ∧ Filled path (after events vm).storage ∨
      ¬ AccessesSlots events vm ∧ Untouched path disk (after events vm).storage := by
  -- the first event that accesses slots decides, and what comes after it keeps the save file
  induction events generalizing vm with
  | nil => exact .inr ⟨id, hvm⟩
  | cons e events ih =>
    have he : e.Inside := hinside e (List.mem_cons_self ..)
    have hrest : ∀ e' ∈ events, e'.Inside := fun e' he' => hinside e' (List.mem_cons_of_mem e he')
    have hattached (log : Log) : Attached path (vm.save, { vm.host with log }) := by
      obtain ⟨hsave, hdisk⟩ := hvm
      have hsave : vm.save = .ofPath path := hsave
      have hopens : vm.host.disk.Opens path := by rwa [show vm.host.disk = disk from hdisk]
      rw [hsave]
      exact SaveStore.attached_ofPath hopens
    by_cases haccess : ∃ r, vm.eventRequest? e = some r ∧ r.Accesses
    · -- the store is opened now
      obtain ⟨r, hr, haccesses⟩ := haccess
      have hfilled : Filled path (stateOf (event e vm)).storage := by
        refine storage_event (fun h => h.logged) (SaveStore.preserves_filled .close _) he ?_
        intro log
        rw [hr]
        exact (hattached log).filled haccesses
      exact .inl ⟨.inl ⟨r, hr, haccesses⟩,
        storage_after (fun h => h.logged) SaveStore.preserves_filled hfilled hrest⟩
    · -- the store stays closed, or is closed once more
      have hnext : Untouched path disk (stateOf (event e vm)).storage := by
        refine storage_event (fun h _ => h) Untouched.close he fun log => ?_
        have hlogged : Untouched path disk (vm.save, { vm.host with log }) := hvm
        cases hr : vm.eventRequest? e with
        | none => exact hlogged
        | some r =>
          have hnot : ¬ r.Accesses := fun haccesses => haccess ⟨r, hr, haccesses⟩
          show Untouched path disk (stateOf (SaveStore.serve r _))
          rcases (hattached log).serve_of_not_accesses hnot with heq | heq
          · rw [heq]
            exact hlogged
          · rw [heq]
            exact hlogged.close
      rcases ih hnext hrest with ⟨hlater, hfilled⟩ | ⟨hnever, huntouched⟩
      · exact .inl ⟨.inr hlater, hfilled⟩
      · exact .inr ⟨fun h => h.elim haccess hnever, huntouched⟩

end Vm

end WordMachine

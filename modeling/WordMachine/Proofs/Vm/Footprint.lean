import WordMachine.Proofs.Checked.Steps
import WordMachine.Proofs.Extension.Containment
import WordMachine.Proofs.Machine.Frame
import WordMachine.Proofs.Memory.Segments
import WordMachine.Proofs.Save.Contents
import WordMachine.Proofs.Vm.Printing
import WordMachine.Proofs.Vm.Storage

/-!
# The footprint of a step

Which parts of a virtual machine a step may change can be told beforehand from its instruction and
the top of the stack. `Footprint` lists them, and `footprint_of_step` says that a step that succeeds
keeps to them, apart from a reset, which changes everything, and from the call of an extension,
whose utility is not known.

A step that succeeds is an operation of the machine, a halt, a service or a reset (`step_cases`).
The operations keep to their frame (`Machine.within_exec`). A service pops its operands and then
works on the console or the save store; two of them write to the machine besides, a word on top of
the stack or a range of data (`within_serve`).

Nothing but a reset changes the code, a utility and a failed step included (`code_step`). So it
stays that of the image all through a run without resets (`code_after`).
-/

namespace WordMachine.Vm

open Machine (Within)

variable {α : Type} {cells : Word → Prop} {vm vm' : Vm}

/-! ## What a step can be -/

/-- What an instruction that is served inside of the machine does to it. -/
def operation : Instruction → Machine.Op Unit
  | .extended op => Machine.exec op
  | .register op reg => Machine.execRegister op (registerIndex reg)
  | .unassigned _ => pure ()

/-- The instruction is carried out by the machine alone. -/
def IsOperation (i : Instruction) : Prop :=
  i ≠ .extended .interrupt ∧ i ≠ .extended .reset ∧ i ≠ .extended .halt

/-- An operation of the machine always goes on. -/
theorem execute_of_isOperation {i : Instruction} (h : IsOperation i) :
    execute i = (do
      onMachine (operation i)
      return .next) := by
  cases i with
  | extended op =>
    exact execute_extended (fun heq => h.1 (heq ▸ rfl)) (fun heq => h.2.1 (heq ▸ rfl))
      fun heq => h.2.2 (heq ▸ rfl)
  | register op reg => rfl
  | unassigned b => rfl

/-- An interrupt that goes through finds a selector that is assigned, and serves what it asks
for. -/
theorem interrupt_eq_ok (hfetch : fetch vm.machine = .extended .interrupt) {t : Vm}
    (h : interrupt vm = .ok () t) :
    ∃ service, vm.service? = some service ∧
      serve service { vm with machine := vm.machine.spend 1 } = .ok () t := by
  rw [service?_of_fetch hfetch]
  obtain ⟨selector, vm₁, hpop, hserve⟩ := bind_eq_ok h
  obtain ⟨m, hm, rfl⟩ := onMachine_eq_ok hpop
  rcases vm.machine.pop_cases with ⟨-, herror⟩ | ⟨w, hlive, hok⟩
  · rw [herror] at hm
    cases hm
  · rw [hok] at hm
    obtain ⟨rfl, rfl⟩ := EStateM.Result.ok.inj hm
    rw [hlive, List.head?_cons, Option.bind_some]
    cases hservice : Service.ofSelector? w with
    | none =>
      rw [hservice] at hserve
      cases hserve
    | some service =>
      rw [hservice] at hserve
      exact ⟨service, rfl, hserve⟩

/-- An instruction that succeeds, and is no reset, is an operation of the machine, a halt, which
flushes the console, or the request for a service. -/
theorem execute_cases {outcome : Outcome} {t : Vm}
    (h : execute (fetch vm.machine) vm = .ok outcome t)
    (hreset : fetch vm.machine ≠ .extended .reset) :
    (IsOperation (fetch vm.machine) ∧ outcome = .next ∧ ∃ m,
      operation (fetch vm.machine) vm.machine = .ok () m ∧ t = { vm with machine := m }) ∨
    (fetch vm.machine = .extended .halt ∧ outcome = .halt ∧ ∃ console,
      Console.flush vm.console = .ok () console ∧ t = { vm with console }) ∨
    (outcome = .next ∧ ∃ service, vm.service? = some service ∧
      serve service { vm with machine := vm.machine.spend 1 } = .ok () t) := by
  by_cases hinterrupt : fetch vm.machine = .extended .interrupt
  · -- an interrupt
    rw [hinterrupt] at h
    obtain ⟨_, _, hserve, hdone⟩ := bind_eq_ok h
    obtain ⟨rfl, rfl⟩ := EStateM.Result.ok.inj hdone
    exact .inr (.inr ⟨rfl, interrupt_eq_ok hinterrupt hserve⟩)
  by_cases hhalt : fetch vm.machine = .extended .halt
  · -- a halt
    rw [hhalt] at h
    obtain ⟨_, _, hflush, hdone⟩ := bind_eq_ok h
    obtain ⟨rfl, rfl⟩ := EStateM.Result.ok.inj hdone
    exact .inr (.inl ⟨hhalt, rfl, onConsole_eq_ok hflush⟩)
  · -- everything else is an operation
    have hop : IsOperation (fetch vm.machine) := ⟨hinterrupt, hreset, hhalt⟩
    rw [execute_of_isOperation hop] at h
    obtain ⟨_, _, hact, hdone⟩ := bind_eq_ok h
    obtain ⟨rfl, rfl⟩ := EStateM.Result.ok.inj hdone
    exact .inl ⟨hop, rfl, onMachine_eq_ok hact⟩

/-- A step that succeeds has carried out the next instruction, and has moved on unless that was a
halt. -/
theorem step_eq_ok {outcome : Outcome} (h : step vm = .ok outcome vm') : ∃ (log : Log) (t : Vm),
    execute (fetch vm.machine) { vm with host := { vm.host with log } } = .ok outcome t ∧
      (outcome = .halt ∧ vm' = t ∨
        outcome = .next ∧
          vm' = { t with machine := { t.machine with ip := t.machine.ip + 1 } }) := by
  obtain ⟨log, hstep⟩ := exists_step_eq vm
  rw [hstep] at h
  -- the instruction goes on, halts or fails
  split at h
  · rename_i t hexecute
    obtain ⟨rfl, rfl⟩ := EStateM.Result.ok.inj h
    exact ⟨log, t, hexecute, .inr ⟨rfl, rfl⟩⟩
  · rename_i t hexecute
    obtain ⟨rfl, rfl⟩ := EStateM.Result.ok.inj h
    exact ⟨log, t, hexecute, .inl ⟨rfl, rfl⟩⟩
  · cases h

/-- What a step that succeeds can be, a reset apart. -/
theorem step_cases {outcome : Outcome} (h : step vm = .ok outcome vm')
    (hreset : fetch vm.machine ≠ .extended .reset) : ∃ log : Log,
    (IsOperation (fetch vm.machine) ∧ outcome = .next ∧ ∃ m,
      operation (fetch vm.machine) vm.machine = .ok () m ∧
      vm' = { vm with machine := { m with ip := m.ip + 1 }, host := { vm.host with log } }) ∨
    (fetch vm.machine = .extended .halt ∧ outcome = .halt ∧ ∃ console,
      Console.flush vm.console = .ok () console ∧
      vm' = { vm with console, host := { vm.host with log } }) ∨
    (outcome = .next ∧ ∃ service t, vm.service? = some service ∧
      serve service { vm with machine := vm.machine.spend 1, host := { vm.host with log } } =
        .ok () t ∧
      vm' = { t with machine := { t.machine with ip := t.machine.ip + 1 } }) := by
  obtain ⟨log, t, hexecute, hend⟩ := step_eq_ok h
  refine ⟨log, ?_⟩
  rcases @execute_cases { vm with host := { vm.host with log } } outcome t hexecute hreset with
    ⟨hop, rfl, m, hm, rfl⟩ | ⟨hfetch, rfl, console, hflush, rfl⟩ | ⟨rfl, service, hservice, hserve⟩
  · obtain ⟨hne, -⟩ | ⟨-, rfl⟩ := hend
    · cases hne
    · exact .inl ⟨hop, rfl, m, hm, rfl⟩
  · obtain ⟨-, rfl⟩ | ⟨hne, -⟩ := hend
    · exact .inr (.inl ⟨hfetch, rfl, console, hflush, rfl⟩)
    · cases hne
  · obtain ⟨hne, -⟩ | ⟨-, rfl⟩ := hend
    · cases hne
    · exact .inr (.inr ⟨rfl, service, t, hservice, hserve, rfl⟩)

/-- A step that carries out an operation does to the machine what the operation does, and moves
on. -/
theorem operation_of_step {outcome : Outcome} (h : step vm = .ok outcome vm')
    (hop : IsOperation (fetch vm.machine)) : ∃ m,
    operation (fetch vm.machine) vm.machine = .ok () m ∧
      vm'.machine = { m with ip := m.ip + 1 } := by
  obtain ⟨log, ⟨-, -, m, hm, rfl⟩ | ⟨hfetch, -⟩ | ⟨-, service, t, hservice, -⟩⟩ :=
    step_cases h hop.2.1
  · exact ⟨m, hm, rfl⟩
  · exact absurd hfetch hop.2.2
  · exact absurd (fetch_of_service? hservice) hop.1

/-! ## The machine -/

/-- An operation stays within its frame: a store writes the cell it pops, and a register is written
by the instruction that names it. -/
theorem within_operation {i : Instruction} {m m' : Machine} (h : operation i m = .ok () m') :
    Within (fun a => i = .extended .store ∧ ∃ w rest, m.stack.live = w :: a :: rest) i.target?
      m m' := by
  cases i with
  | extended op => exact (Machine.within_exec h).mono fun a ha => ⟨congrArg _ ha.1, ha.2⟩
  | register op reg => exact (Machine.within_execRegister h).mono fun a ha => ha.elim
  | unassigned b =>
    obtain ⟨-, rfl⟩ := EStateM.Result.ok.inj h
    exact Machine.within_refl m

/-- Where the action succeeds, it stays within some cells of the machine and writes no register. -/
def StaysWithin (cells : Word → Prop) (act : Op α) (vm : Vm) : Prop :=
  ∀ x vm', act vm = .ok x vm' → Within cells none vm.machine vm'.machine

/-- A pop in front stays within the same cells, since it moves the depth only. -/
theorem staysWithin_pop_bind {k : Word → Op α}
    (h : ∀ w, vm.machine.stack.live = w :: (vm.machine.spend 1).stack.live →
      StaysWithin cells (k w) { vm with machine := vm.machine.spend 1 }) :
    StaysWithin cells (pop >>= k) vm := by
  intro x vm' hok
  rcases pop_bind_cases vm k with ⟨-, hpop⟩ | ⟨w, hlive, hpop⟩
  · rw [hpop] at hok
    cases hok
  · rw [hpop] at hok
    exact (h w hlive x vm' hok).of_spend

/-- An action that leaves the machine alone. -/
theorem staysWithin_of_preserves {act : Op α}
    (h : ∀ m, Preserves (fun vm : Vm => vm.machine = m) act) : StaysWithin cells act vm := by
  intro x vm' hok
  rw [(h vm.machine).of_ok rfl hok]
  exact Machine.within_refl _

/-- No service but the call of an extension writes a register, and none writes data but the one that
copies slots there, which writes the range that it pops. -/
theorem within_serve {service : Service} (hservice : service ≠ .extension)
    (h : serve service vm = .ok () vm') :
    Within (fun a => service = .saveToMemory ∧ ∃ address length rest,
      vm.machine.stack.live = address :: length :: rest ∧ address.toNat ≤ a.toNat ∧
      a.toNat < address.toNat + length.toNat) none vm.machine vm'.machine := by
  revert vm'
  suffices hact : StaysWithin (fun a => service = .saveToMemory ∧ ∃ address length rest,
      vm.machine.stack.live = address :: length :: rest ∧ address.toNat ≤ a.toNat ∧
      a.toNat < address.toNat + length.toNat) (serve service) vm from fun {vm'} h => hact () vm' h
  cases service with
  | extension => contradiction
  | reserved =>
    intro x vm' hok
    cases hok
  | logWord =>
    exact staysWithin_pop_bind fun w _ => staysWithin_of_preserves fun m =>
      preserves_onConsole fun _ hm => hm
  | logString =>
    refine staysWithin_pop_bind fun address _ => staysWithin_of_preserves fun m => ?_
    exact preserves_get.bind fun _ => preserves_withName (fun _ _ hm => hm) fun _ =>
      preserves_onConsole fun _ hm => hm
  | saveRead =>
    refine staysWithin_pop_bind fun slot _ => ?_
    intro x vm' hok
    -- the word of the slot takes the place of the slot's number
    obtain ⟨w, t, hread, hpush⟩ := bind_eq_ok hok
    obtain ⟨s, -, rfl⟩ := onSave_eq_ok hread
    obtain ⟨m, hm, rfl⟩ := onMachine_eq_ok hpush
    exact Machine.within_push hm
  | saveWrite =>
    exact staysWithin_pop_bind fun slot _ => staysWithin_pop_bind fun w _ =>
      staysWithin_of_preserves fun m => preserves_onSave fun _ hm => hm
  | memoryToSave =>
    refine staysWithin_pop_bind fun address _ => staysWithin_pop_bind fun length _ =>
      staysWithin_pop_bind fun start _ => staysWithin_of_preserves fun m => ?_
    exact preserves_get.bind fun _ => (preserves_check _).bind fun words =>
      preserves_onSave fun _ hm => hm
  | saveToMemory =>
    refine staysWithin_pop_bind fun address h₁ => staysWithin_pop_bind fun length h₂ =>
      staysWithin_pop_bind fun start h₃ => ?_
    intro x vm' hok
    obtain ⟨_, t, hcheck, hok⟩ := bind_eq_ok (get_bind_eq.symm.trans hok)
    obtain ⟨rfl, hle, -⟩ := check_dataRange_eq_ok hcheck
    obtain ⟨words, t', hread, hcopy⟩ := bind_eq_ok hok
    obtain ⟨s, hs, rfl⟩ := onSave_eq_ok hread
    obtain ⟨-, rfl⟩ := EStateM.Result.ok.inj hcopy
    have hlength : words.length = length.toNat := SaveStore.length_readRange hs
    refine ⟨rfl, fun a ha => ?_, fun _ _ _ _ => rfl, fun _ _ _ => rfl⟩
    -- outside of the range, no word falls on the cell
    refine (Segment.get_setAll _ (by rw [hlength]; exact hle) a).trans ?_
    by_cases hlow : address.toNat ≤ a.toNat
    · have hhigh : ¬ a.toNat < address.toNat + length.toNat := fun hlt =>
        ha ⟨rfl, address, length, _, h₁.trans (congrArg _ h₂), hlow, hlt⟩
      rw [if_pos hlow, List.getElem?_eq_none (by omega)]
      rfl
    · rw [if_neg hlow]

/-! ## The save store and the console -/

/-- A service that writes no slot changes none, even if it opens the save file. -/
theorem contents_serve {service : Service} (hwrite : service ≠ .saveWrite)
    (hcopy : service ≠ .memoryToSave) :
    SaveStore.contents (stateOf (serve service vm)).storage = SaveStore.contents vm.storage := by
  let slots := SaveStore.contents vm.storage
  refine storage_serve (p := fun s => SaveStore.contents s = slots) (fun h _ => h) ?_
  cases hrequest : service.request? vm.machine vm.machine.stack.live with
  | none => rfl
  | some r =>
    show SaveStore.contents (stateOf (SaveStore.serve r vm.storage)) = slots
    revert hrequest
    unfold Service.request?
    split
    · rintro ⟨⟩
      exact ((SaveStore.keepsContents_read _).bind fun _ => preserves_pure _) vm.storage rfl
    · -- the services that write slots are excluded; the others that ask the store read
      exact absurd rfl hwrite
    · intro hrequest
      obtain ⟨_, -, rfl⟩ := Option.map_eq_some_iff.1 hrequest
      exact SaveStore.keepsContents_readRange _ _ vm.storage rfl
    · exact absurd rfl hcopy
    · nofun

/-- A service that neither prints nor calls an extension leaves the console alone. -/
theorem console_serve {service : Service} (hword : service ≠ .logWord)
    (hstring : service ≠ .logString) (hcall : service ≠ .extension) :
    (stateOf (serve service vm)).console = vm.console := by
  have hstable : StorageStable fun t : Vm => t.console = vm.console :=
    { pop := preserves_onMachine fun _ h => h
      push := fun _ => preserves_onMachine fun _ h => h
      copy := fun _ _ => preserves_modifyMachine fun _ h => h
      read := fun _ => preserves_onSave fun _ h => h
      write := fun _ _ => preserves_onSave fun _ h => h
      readRange := fun _ _ => preserves_onSave fun _ h => h
      writeRange := fun _ _ => preserves_onSave fun _ h => h }
  exact hstable.serve hword hstring hcall vm rfl

/-- A flush hands over what waits, and changes neither the stream nor the column. -/
theorem flush_eq_ok {c c' : Console} (h : Console.flush c = .ok () c') :
    c'.secondColumn = c.secondColumn ∧ c'.sink.stream = c.sink.stream := by
  obtain ⟨sink, column⟩ := c
  cases sink with
  | terminal t =>
    obtain ⟨-, rfl⟩ := EStateM.Result.ok.inj h
    refine ⟨rfl, ?_⟩
    simp [Sink.stream, Terminal.flush]
  | capture c =>
    simp only [Console.flush, Console.onSink, Sink.flush] at h
    -- a capturing sink hands nothing over, or refuses
    split at h
    · rename_i hflush
      split at hflush
      · obtain ⟨-, rfl⟩ := EStateM.Result.ok.inj hflush
        obtain ⟨-, rfl⟩ := EStateM.Result.ok.inj h
        exact ⟨rfl, rfl⟩
      · cases hflush
    · cases h

/-! ## The code -/

section

variable {code : Segment UInt8}

/-- A utility leaves the code alone, whoever serves its requests. -/
theorem code_run (entry : Entry) (s : Utility.Scope) :
    (stateOf (entry.run s)).machine.code = s.machine.code := by
  cases entry with
  | builtin b => exact (b.run_control s).1
  | bridged u => exact (u.runBridgedWith_control _ s).1

/-- Showing what was printed does not change the machine. -/
theorem machine_showPrinted (vm : Vm) (text : String) (fromLibrary : Bool) :
    (showPrinted vm text fromLibrary).machine = vm.machine := by
  unfold showPrinted
  split <;> rfl

/-- A call of an extension keeps the code, whether the utility ends or fails. -/
theorem keepsCode_callExtension (name : String) (index : Word) :
    Preserves (fun vm : Vm => vm.machine.code = code) (callExtension name index) := by
  intro vm hvm
  rcases callExtension_cases name index vm with
    ⟨e, found, hcall, -⟩ | ⟨ext, found, entry, -, -, hcall⟩
  · -- no utility was found, so the machine is as before
    rw [hcall]
    exact hvm
  · rw [hcall]
    have hrun := (code_run entry (.ofMachine vm.machine)).trans hvm
    simp only [runEntry]
    split
    · rename_i scope hok
      have hok : entry.run (.ofMachine vm.machine) = .ok () scope := hok
      rw [hok] at hrun
      exact (congrArg Machine.code (machine_showPrinted _ _ _)).trans hrun
    · rename_i e scope herror
      have herror : entry.run (.ofMachine vm.machine) = .error e scope := herror
      rw [herror] at hrun
      exact (congrArg Machine.code (machine_showPrinted _ _ _)).trans hrun

/-- Actions on the stack keep the code. -/
theorem keepsCode_onStack (act : Stack.Op α) :
    Preserves (fun m : Machine => m.code = code) (Machine.onStack act) :=
  Machine.preserves_onStack fun _ h => h

/-- Every service keeps the code. -/
theorem keepsCode_serve (service : Service) :
    Preserves (fun vm : Vm => vm.machine.code = code) (serve service) := by
  have hstable := serviceStable_of_machine (q := fun m => m.code = code) keepsCode_onStack
    fun _ _ h => h
  exact hstable.serve fun _ text index =>
    preserves_withName (fun _ _ h => h) fun name => keepsCode_callExtension name index

/-- An operation keeps the code: where it succeeds by its frame, where it fails because it has only
popped. -/
theorem keepsCode_operation (i : Instruction) :
    Preserves (fun m : Machine => m.code = code) (operation i) := by
  intro m hm
  cases hact : operation i m with
  | ok x m' => exact (within_operation hact).code.trans hm
  | error e m' =>
    have hspent : ∃ n, Machine.Spent n m m' := by
      cases i with
      | extended op => exact ⟨2, Machine.failsWithin_exec op m e m' hact⟩
      | register op reg => exact ⟨1, Machine.failsWithin_execRegister op _ m e m' hact⟩
      | unassigned b => cases hact
    obtain ⟨n, k, -, rfl⟩ := hspent
    exact hm

/-- Every instruction but a reset keeps the code. -/
theorem keepsCode_execute {i : Instruction} (hreset : i ≠ .extended .reset) :
    Preserves (fun vm : Vm => vm.machine.code = code) (execute i) := by
  by_cases hinterrupt : i = .extended .interrupt
  · subst hinterrupt
    refine Preserves.bind ?_ fun _ => preserves_pure _
    refine (preserves_onMachine fun vm => keepsCode_onStack _ vm.machine).bind fun selector => ?_
    split
    · exact preserves_throw _
    · exact keepsCode_serve _
  by_cases hhalt : i = .extended .halt
  · subst hhalt
    exact (preserves_onConsole fun _ h => h).bind fun _ => preserves_pure _
  · rw [execute_of_isOperation ⟨hinterrupt, hreset, hhalt⟩]
    exact (preserves_onMachine fun vm => keepsCode_operation i vm.machine).bind fun _ =>
      preserves_pure _

/-- A step that is no reset keeps the code, however it ends. -/
theorem code_step (hreset : fetch vm.machine ≠ .extended .reset) :
    (stateOf (step vm)).machine.code = vm.machine.code := by
  obtain ⟨log, hstep⟩ := exists_step_eq vm
  have hexecute := keepsCode_execute hreset { vm with host := { vm.host with log } } rfl
  rw [hstep]
  -- however the instruction ends, the step moves the instruction pointer at most
  split <;> rename_i hend <;> rw [hend] at hexecute <;> exact hexecute

/-- So does any number of steps among which there is no reset. -/
theorem code_after {n : Nat} (h : Along step (fun vm => fetch vm.machine ≠ .extended .reset) n vm) :
    (after (List.replicate n .step) vm).machine.code = vm.machine.code := by
  -- the code of each state is that of the one before
  induction n generalizing vm with
  | zero => rfl
  | succ n ih => exact (ih h.2).trans (code_step h.1)

end

/-! ## The footprint -/

/-- The next step may write the data cell at an address: it is a store that pops the address, or it
copies slots to a range that holds the address. -/
inductive WritesCell (vm : Vm) (a : Word) : Prop where
  | store {w : Word} {rest : List Word} : fetch vm.machine = .extended .store →
      vm.machine.stack.live = w :: a :: rest → WritesCell vm a
  | copy {address length : Word} {rest : List Word} : vm.service? = some .saveToMemory →
      vm.operands = address :: length :: rest → address.toNat ≤ a.toNat →
      a.toNat < address.toNat + length.toNat → WritesCell vm a

/-- What a step from one state to another has left alone. -/
structure Footprint (vm vm' : Vm) : Prop where
  code : vm'.machine.code = vm.machine.code
  data : ∀ a, ¬ vm.WritesCell a → vm'.machine.data.get a = vm.machine.data.get a
  registers : ∀ i, i ≠ .stackPointer → i ≠ .instructionPointer →
    (fetch vm.machine).target? ≠ some i → vm'.machine.reg i = vm.machine.reg i
  slots : ∀ a : Word, max vm.machine.stack.depth vm'.machine.stack.depth ≤ a.toNat →
    vm'.machine.stack.slots.get a = vm.machine.stack.slots.get a
  save : vm.service? ≠ some .saveWrite → vm.service? ≠ some .memoryToSave →
    SaveStore.contents vm'.storage = SaveStore.contents vm.storage
  /-- A halt shows what waits in the line buffer of a terminal, which is in the stream already. -/
  console : vm.service? ≠ some .logWord → vm.service? ≠ some .logString →
    vm'.console.secondColumn = vm.console.secondColumn ∧
    vm'.console.sink.stream = vm.console.sink.stream ∧
    (fetch vm.machine ≠ .extended .halt → vm'.console = vm.console)

/-- A step that keeps the machine within what its instruction may write. -/
theorem Footprint.of_within
    (h : Within vm.WritesCell (fetch vm.machine).target? vm.machine vm'.machine)
    (hsave : vm.service? ≠ some .saveWrite → vm.service? ≠ some .memoryToSave →
      SaveStore.contents vm'.storage = SaveStore.contents vm.storage)
    (hconsole : vm.service? ≠ some .logWord → vm.service? ≠ some .logString →
      vm'.console.secondColumn = vm.console.secondColumn ∧
      vm'.console.sink.stream = vm.console.sink.stream ∧
      (fetch vm.machine ≠ .extended .halt → vm'.console = vm.console)) : Footprint vm vm' where
  code := h.code
  data := h.data
  registers := h.reg
  slots a ha := h.slots a (Nat.le_trans (Nat.le_max_left _ _) ha)
    (Nat.le_trans (Nat.le_max_right _ _) ha)
  save := hsave
  console := hconsole

/-- A step that succeeds, and neither resets nor calls an extension, keeps to its footprint. -/
theorem footprint_of_step {outcome : Outcome} (h : step vm = .ok outcome vm')
    (hreset : fetch vm.machine ≠ .extended .reset) (hcall : vm.service? ≠ some .extension) :
    Footprint vm vm' := by
  obtain ⟨log, ⟨hop, -, m, hm, rfl⟩ | ⟨hfetch, -, console, hflush, rfl⟩ |
    ⟨-, service, t, hservice, hserve, rfl⟩⟩ := step_cases h hreset
  · -- an operation of the machine
    refine .of_within ?_ (fun _ _ => rfl) fun _ _ => ⟨rfl, rfl, fun _ => rfl⟩
    refine Within.withIp ((within_operation hm).mono fun a ha => ?_) _
    obtain ⟨hstore, w, rest, hlive⟩ := ha
    exact .store hstore hlive
  · -- a halt
    obtain ⟨hcolumn, hstream⟩ := flush_eq_ok hflush
    refine .of_within (Machine.within_refl _) (fun _ _ => rfl) fun _ _ => ?_
    exact ⟨hcolumn, hstream, fun hne => absurd hfetch hne⟩
  · -- a service
    have hstate : stateOf (serve service
        { vm with machine := vm.machine.spend 1, host := { vm.host with log } }) = t := by
      rw [hserve]
      rfl
    have hext : service ≠ .extension := fun heq => hcall (heq ▸ hservice)
    refine .of_within ?_ (fun hwrite hcopy => ?_) fun hword hstring => ?_
    · have htarget : (fetch vm.machine).target? = none := by rw [fetch_of_service? hservice]; rfl
      rw [htarget]
      refine Within.withIp (Within.of_spend ((within_serve hext hserve).mono fun a ha => ?_)) _
      obtain ⟨rfl, address, length, rest, hlive, hlow, hhigh⟩ := ha
      exact .copy hservice (vm.machine.live_spend_one.symm.trans hlive) hlow hhigh
    · have hcontents := @contents_serve
        { vm with machine := vm.machine.spend 1, host := { vm.host with log } } service
        (fun heq => hwrite (heq ▸ hservice)) fun heq => hcopy (heq ▸ hservice)
      rw [hstate] at hcontents
      exact hcontents
    · have hsame := @console_serve
        { vm with machine := vm.machine.spend 1, host := { vm.host with log } } service
        (fun heq => hword (heq ▸ hservice)) (fun heq => hstring (heq ▸ hservice)) hext
      rw [hstate] at hsame
      have hsame : t.console = vm.console := hsame
      exact ⟨congrArg _ hsame, congrArg _ (congrArg _ hsame), fun _ => hsame⟩

/-- A step that succeeds, and neither resets nor calls an extension, leaves alone what is not in its
footprint: the code, all data but the cell of a store and the range that slots are copied to, all
registers but the two pointers and the one that the instruction writes, the stack slots at and above
both depths, the save slots unless the step writes slots, and the console unless it prints. In a run
without resets, whatever else happens in it, the code stays that of the image loaded. -/
theorem step_keeps_to_footprint :
    (∀ (vm vm' : Vm) (outcome : Outcome), step vm = .ok outcome vm' →
      fetch vm.machine ≠ .extended .reset → vm.service? ≠ some .extension → Footprint vm vm') ∧
    ∀ (img : Image) (vm : Vm) (n : Nat), vm.machine.code = img.code →
      Along step (fun vm => fetch vm.machine ≠ .extended .reset) n vm →
        (after (List.replicate n .step) vm).machine.code = img.code :=
  ⟨fun _ _ _ h hreset hcall => footprint_of_step h hreset hcall,
    fun _ _ _ hcode hrun => (code_after hrun).trans hcode⟩

/-- A store of 7 at address 5 writes that cell and leaves the one behind it alone. The store after
it finds no operands; it fails and leaves the code alone as well. -/
theorem step_keeps_to_footprint_store :
    let img : Image := ⟨.fill 9, .fill 3⟩
    let vm : Vm :=
      { ofImage img ⟨.ofSink (.capture .unlimited), .ofPath "save", .ofDirs [], []⟩
          ⟨.empty, .empty⟩ with
        machine := { Machine.ofImage img with
          stack := ⟨((Segment.fill 0).set 0 5).set 1 7, 2, by decide⟩ } }
    (∃ vm', step vm = .ok .next vm' ∧ vm'.machine.data.get 5 = 7 ∧ vm'.machine.data.get 6 = 3) ∧
      (after [.step, .step] vm).machine.code = .fill 9 := by
  intro img vm
  have hreset : fetch vm.machine ≠ .extended .reset := by decide +kernel
  refine ⟨?_, step_keeps_to_footprint.2 img vm 2 rfl ⟨hreset, by decide +kernel, trivial⟩⟩
  have houtcome : (match step vm with | .ok outcome _ => some outcome | .error _ _ => none) =
      some .next := by decide +kernel
  have hcell : (stateOf (step vm)).machine.data.get 5 = 7 := by decide +kernel
  have hlive : vm.machine.stack.live = [7, 5] := by decide +kernel
  cases hstep : step vm with
  | error e vm' =>
    rw [hstep] at houtcome
    cases houtcome
  | ok outcome vm' =>
    rw [hstep] at houtcome hcell
    obtain rfl := Option.some.inj houtcome
    refine ⟨vm', rfl, hcell, ?_⟩
    have hcall : vm.service? ≠ some .extension := by decide +kernel
    -- the store pops address 5, so cell 6 is not in its footprint
    have hspares : ¬ vm.WritesCell 6 := by
      rintro (⟨-, hstack⟩ | ⟨hservice, -⟩)
      · rw [hlive] at hstack
        cases hstack
      · exact absurd hservice (by decide +kernel)
    rw [(step_keeps_to_footprint.1 vm vm' .next hstep hreset hcall).data 6 hspares]
    exact Segment.get_fill 3 6

end WordMachine.Vm

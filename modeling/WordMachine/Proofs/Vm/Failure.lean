import WordMachine.Proofs.Vm.Reachable

/-!
# Failed steps

A step that fails has at most taken operands off the stack. Operations and services pop what they
work on before they look at it, and whatever can go wrong goes wrong before the first write to a
register, to memory or to a slot. So the machine that a failed step leaves is the old one with up to
four words fewer on its stack (`Machine.Spent`): an interrupt takes its selector and at most three
operands. Popping moves the depth and keeps the slots, which is why the old depth brings the whole
machine back.

`Vm.FailsWithin n` says this of an action at a state, together with what stays of the services. The
exception is a utility that has begun to run, since its requests have effects of their own.
-/

namespace WordMachine

/-- The fault is raised by the check of a range or of an index. -/
def Fault.IsRangeCheck : Fault → Prop
  | .stackIndexOutOfRange _ _ | .saveSlotOutOfRange _ | .saveRangeOutOfBounds _ _
  | .memoryRangeOutOfBounds _ _ | .utilityIndexOutOfRange _ _ _ => True
  | _ => False

/-! ## Operations of the machine -/

namespace Machine

/-- The machine with `k` words taken off its stack, as far as there are so many. -/
def spend (m : Machine) (k : Nat) : Machine :=
  have h : m.stack.depth - k ≤ segmentSize := Nat.le_trans (Nat.sub_le _ _) m.stack.depth_le
  { m with stack := m.stack.setDepth (m.stack.depth - k) h }

/-- Taking words twice is taking them together. -/
theorem spend_spend (m : Machine) (j k : Nat) : (m.spend j).spend k = m.spend (j + k) := by
  simp only [spend, Stack.setDepth, Nat.sub_sub]

/-- What is left when at most `n` words have been taken off the stack and nothing else has
changed. -/
def Spent (n : Nat) (m m' : Machine) : Prop := ∃ k ≤ n, m' = m.spend k

/-- Nothing may have been spent. -/
theorem spent_refl (n : Nat) (m : Machine) : Spent n m m := ⟨0, Nat.zero_le n, rfl⟩

/-- A bound on what was spent may be raised. -/
theorem Spent.mono {i n : Nat} {m m' : Machine} (h : Spent i m m') (hle : i ≤ n) :
    Spent n m m' := by
  obtain ⟨k, hk, rfl⟩ := h
  exact ⟨k, Nat.le_trans hk hle, rfl⟩

/-- What was spent behind a pop counts together with the popped word. -/
theorem Spent.succ {n : Nat} {m m' : Machine} (h : Spent n (m.spend 1) m') :
    Spent (n + 1) m m' := by
  obtain ⟨k, hk, rfl⟩ := h
  exact ⟨1 + k, by omega, spend_spend m 1 k⟩

/-- Giving the stack its old depth back undoes what was spent. -/
theorem Spent.restore {n : Nat} {m m' : Machine} (h : Spent n m m') :
    { m' with stack := m'.stack.setDepth m.stack.depth m.stack.depth_le } = m := by
  obtain ⟨k, -, rfl⟩ := h
  rfl

/-- Only the stack pointer shows what was spent. -/
theorem Spent.reg_eq {n : Nat} {m m' : Machine} (h : Spent n m m') {i : RegIndex}
    (hi : i ≠ .stackPointer) : m'.reg i = m.reg i := by
  obtain ⟨k, -, rfl⟩ := h
  unfold reg spend
  rw [if_neg hi, if_neg hi]

/-- The depth has gone down, by the bound at most. -/
theorem Spent.depth_le {n : Nat} {m m' : Machine} (h : Spent n m m') :
    m'.stack.depth ≤ m.stack.depth ∧ m.stack.depth ≤ m'.stack.depth + n := by
  obtain ⟨k, hk, rfl⟩ := h
  have hdepth : (m.spend k).stack.depth = m.stack.depth - k := rfl
  omega

/-- A pop that succeeds found a word, and spends it. -/
theorem pop_eq_ok {m m' : Machine} {w : Word} (h : pop m = .ok w m') :
    0 < m.stack.depth ∧ m' = m.spend 1 := by
  unfold pop at h
  -- an empty stack has nothing to pop
  by_cases hzero : m.stack.depth = 0
  · have hpop : Stack.pop m.stack = .error .stackUnderflow m.stack := if_pos hzero
    rw [onStack_of_error hpop] at h
    cases h
  · have hpop : Stack.pop m.stack = .ok _ (m.spend 1).stack := if_neg hzero
    rw [onStack_of_ok hpop] at h
    exact ⟨Nat.pos_of_ne_zero hzero, (EStateM.Result.ok.inj h).2.symm⟩

/-- A word popped leaves room for another. -/
theorem exists_push_of_pop {m m' : Machine} {v : Word} (h : pop m = .ok v m') (w : Word) :
    ∃ t, push w m' = .ok () t := by
  obtain ⟨hpos, rfl⟩ := pop_eq_ok h
  have hle := m.stack.depth_le
  have hdepth : (m.spend 1).stack.depth = m.stack.depth - 1 := rfl
  have hroom : (m.spend 1).stack.depth < segmentSize := by omega
  have hpush : Stack.push w (m.spend 1).stack = .ok () _ := dif_pos hroom
  exact ⟨_, onStack_of_ok hpush⟩

/-- A look at the top word changes nothing. -/
theorem eq_of_top {m m' : Machine} {w : Word} (h : onStack Stack.top m = .ok w m') : m' = m := by
  cases htop : m.stack.top? with
  | some w' =>
    have hok : Stack.top m.stack = .ok w' m.stack := by simp only [Stack.top, htop]
    rw [onStack_of_ok hok] at h
    exact (EStateM.Result.ok.inj h).2.symm
  | none =>
    have herr : Stack.top m.stack = .error .stackUnderflow m.stack := by
      simp only [Stack.top, htop]
    rw [onStack_of_error herr] at h
    cases h

/-- The action, where it fails, has taken at most `n` words off the stack and done nothing else. -/
def FailsWithin {α : Type} (n : Nat) (act : Op α) : Prop :=
  ∀ m e m', act m = .error e m' → Spent n m m'

section

variable {α β : Type} {n : Nat}

/-- A result cannot fail. -/
theorem failsWithin_pure (x : α) : FailsWithin n (pure x) := nofun

/-- A change cannot fail. -/
theorem failsWithin_modify (f : Machine → Machine) : FailsWithin n (modify f) := nofun

/-- A fault raised at once has spent nothing. -/
theorem failsWithin_throw (e : Fault) : FailsWithin n (throw e : Op α) := by
  intro m e' m' h
  obtain ⟨-, rfl⟩ := EStateM.Result.error.inj h
  exact spent_refl n m

/-- An action on the stack that leaves the stack alone where it fails. -/
theorem failsWithin_onStack {act : Stack.Op α}
    (hact : ∀ s e s', act s = .error e s' → s' = s) : FailsWithin n (onStack act) := by
  intro m e m' h
  cases hs : act m.stack with
  | ok x s =>
    rw [onStack_of_ok hs] at h
    cases h
  | error e' s =>
    rw [onStack_of_error hs] at h
    obtain ⟨-, rfl⟩ := EStateM.Result.error.inj h
    rw [hact _ _ _ hs]
    exact spent_refl n m

/-- A push that fails leaves the stack as it is. -/
theorem failsWithin_push (w : Word) : FailsWithin n (push w) := by
  refine failsWithin_onStack fun s e s' h => ?_
  unfold Stack.push at h
  split at h
  · cases h
  · exact (EStateM.Result.error.inj h).2.symm

/-- A pop that fails leaves the stack as it is. -/
theorem failsWithin_pop : FailsWithin n pop := by
  refine failsWithin_onStack fun s e s' h => ?_
  unfold Stack.pop at h
  split at h
  · exact (EStateM.Result.error.inj h).2.symm
  · cases h

/-- A look at the top word of an empty stack leaves it as it is. -/
theorem failsWithin_top : FailsWithin n (onStack Stack.top) := by
  refine failsWithin_onStack fun s e s' h => ?_
  unfold Stack.top at h
  split at h
  · cases h
  · exact (EStateM.Result.error.inj h).2.symm

/-- A swap that is out of range leaves the stack as it is. -/
theorem failsWithin_swap (w : Word) : FailsWithin n (onStack (Stack.swap w)) := by
  refine failsWithin_onStack fun s e s' h => ?_
  unfold Stack.swap at h
  split at h
  · cases h
  · exact (EStateM.Result.error.inj h).2.symm

/-- An operand popped first counts as one more word spent. -/
theorem failsWithin_pop_bind {k : Word → Op β} (h : ∀ w, FailsWithin n (k w)) :
    FailsWithin (n + 1) (pop >>= k) := by
  intro m e m' herr
  rcases bind_eq_error herr with hpop | ⟨w, m₁, hpop, hk⟩
  · exact failsWithin_pop m e m' hpop
  · rw [(pop_eq_ok hpop).2] at hk
    exact (h w _ e m' hk).succ

/-- An action that looks at the machine first. -/
theorem failsWithin_get_bind {k : Machine → Op β} (h : ∀ m, FailsWithin n (k m)) :
    FailsWithin n (get >>= k) := fun m e m' herr => h m m e m' herr

/-- What follows an action need not be looked at where it cannot fail. -/
theorem FailsWithin.bind_modify {act : Op α} (h : FailsWithin n act) (f : α → Machine → Machine) :
    FailsWithin n (act >>= fun x => modify (f x)) := by
  intro m e m' herr
  rcases bind_eq_error herr with hact | ⟨x, m₁, -, hk⟩
  · exact h m e m' hact
  · cases hk

end

/-- An operation on two words spends them at most. -/
theorem failsWithin_binary (f : Word → Word → Word) : FailsWithin 2 (binary f) :=
  failsWithin_pop_bind fun _ => failsWithin_pop_bind fun _ => failsWithin_push _

/-- An operation on one word. -/
theorem failsWithin_unary (f : Word → Word) : FailsWithin 2 (unary f) :=
  failsWithin_pop_bind fun _ => failsWithin_push _

/-- A remainder by zero has spent both operands. -/
theorem failsWithin_modulo : FailsWithin 2 modulo := by
  refine failsWithin_pop_bind fun b => failsWithin_pop_bind fun a => ?_
  split
  · exact failsWithin_throw .moduloByZero
  · exact failsWithin_push _

/-- No opcode takes more than two operands, and none writes before it can fail. -/
theorem failsWithin_exec (op : Opcode) : FailsWithin 2 (exec op) := by
  cases op with
  | nop | interrupt | reset | halt => exact failsWithin_pure ()
  | dup =>
    intro m e m' herr
    rcases bind_eq_error herr with htop | ⟨w, m₁, htop, hk⟩
    · exact failsWithin_top m e m' htop
    · -- a look at the top word has not moved the stack
      rw [eq_of_top htop] at hk
      exact failsWithin_push w m e m' hk
  | pushImm =>
    exact failsWithin_get_bind fun m => (failsWithin_push _).bind_modify fun _ m =>
      { m with ip := m.ip + 2 }
  | call => exact failsWithin_pop_bind fun target => failsWithin_modify _
  | ret | regSwap => exact failsWithin_modify _
  | load => exact failsWithin_pop_bind fun a => failsWithin_get_bind fun m => failsWithin_push _
  | store => exact failsWithin_pop_bind fun w => failsWithin_pop_bind fun a => failsWithin_modify _
  | add | sub | mul | div | and | or | xor | cmpSigned | cmpUnsigned => exact failsWithin_binary _
  | mod => exact failsWithin_modulo
  | not | neg => exact failsWithin_unary _
  | swap => exact failsWithin_pop_bind fun n => failsWithin_swap n
  | jump => exact failsWithin_pop_bind fun target => failsWithin_modify _
  | jumpIfZero =>
    refine failsWithin_pop_bind fun target => failsWithin_pop_bind fun condition => ?_
    split
    · exact failsWithin_modify _
    · exact failsWithin_pure ()

/-- A register operation takes one operand at most. -/
theorem failsWithin_execRegister (op : RegisterOp) (i : RegIndex) :
    FailsWithin 1 (execRegister op i) := by
  cases op with
  | mask => exact failsWithin_pop_bind fun w => failsWithin_get_bind fun m => failsWithin_push _
  | shift | rotate | pop => exact failsWithin_pop_bind fun w => failsWithin_modify _
  | push => exact failsWithin_get_bind fun m => failsWithin_push _
  | inc | dec => exact failsWithin_modify _

end Machine

/-! ## The save store -/

namespace SaveStore

/-- The action checks its ranges before it does anything else. -/
def ChecksFirst {α : Type} (act : Op α) : Prop :=
  ∀ s e t, act s = .error e t → e.IsRangeCheck → t = s

/-- A check in front of an action that raises no fault of this kind. -/
theorem checksFirst_guard {α : Type} {c : Prop} [Decidable c] {e : Fault} {k : PUnit → Op α}
    (hk : ChecksFirst (k ())) : ChecksFirst (if c then throw e >>= k else k ()) := by
  split
  · intro s e' t h _
    exact (EStateM.Result.error.inj h).2.symm
  · exact hk

/-- An action that refuses no range has nothing to check. -/
theorem Avoids.checksFirst {α : Type} {act : Op α} (h : Avoids Fault.IsRangeCheck act) :
    ChecksFirst act := fun s e t hact he => absurd ⟨t, hact⟩ (h s e he)

/-- Reading a range checks it before the file is touched. -/
theorem checksFirst_readRange (start : Word) (n : Nat) : ChecksFirst (readRange start n) := by
  unfold readRange
  exact checksFirst_guard (Avoids.checksFirst (avoids_readChecked (fun _ _ => id) start n))

/-- Writing a range checks it before the file is touched. -/
theorem checksFirst_writeRange (start : Word) (words : List Word) :
    ChecksFirst (writeRange start words) := by
  unfold writeRange
  exact checksFirst_guard (Avoids.checksFirst (avoids_writeChecked (fun _ _ => id) start words))

/-- Reading a slot checks its number first. -/
theorem checksFirst_read (slot : Word) : ChecksFirst (read slot) := by
  unfold read
  refine checksFirst_guard fun s e t h he => ?_
  rcases bind_eq_error h with hread | ⟨words, s', -, hpure⟩
  · exact checksFirst_readRange slot 1 s e t hread he
  · cases hpure

/-- Writing a slot checks its number first. -/
theorem checksFirst_write (slot w : Word) : ChecksFirst (write slot w) := by
  unfold write
  exact checksFirst_guard (checksFirst_writeRange slot [w])

end SaveStore

/-! ## Services -/

namespace Vm

open Utility (Target)

/-- What a failed action leaves behind: at most `n` words are off the stack, the names are those of
before, and if a range was refused, so are the files and the state of the save store. -/
structure Leaves (n : Nat) (e : Fault) (vm vm' : Vm) : Prop where
  machine : vm.machine.Spent n vm'.machine
  names : vm'.names = vm.names
  storage : e.IsRangeCheck → vm'.host.disk = vm.host.disk ∧ vm'.save = vm.save

/-- Where the action fails, it leaves all but `n` operands as they were. -/
def FailsWithin {α : Type} (n : Nat) (act : Op α) (vm : Vm) : Prop :=
  ∀ e vm', act vm = .error e vm' → Leaves n e vm vm'

section

variable {α β : Type} {n : Nat} {vm : Vm}

/-- A state left as it was. -/
theorem leaves_refl (n : Nat) (e : Fault) (vm : Vm) : Leaves n e vm vm :=
  ⟨Machine.spent_refl n _, rfl, fun _ => ⟨rfl, rfl⟩⟩

/-- A fault raised at once leaves everything. -/
theorem failsWithin_throw (e : Fault) : FailsWithin n (throw e : Op α) vm := by
  intro e' vm' h
  obtain ⟨-, rfl⟩ := EStateM.Result.error.inj h
  exact leaves_refl n e' vm

/-- An action that succeeds does not fail. -/
theorem failsWithin_of_ok {act : Op α} {x : α} {t : Vm} (h : act vm = .ok x t) :
    FailsWithin n act vm := by
  intro e vm' herr
  rw [h] at herr
  cases herr

/-- An operation of the machine, where it fails, leaves the services as they were. -/
theorem failsWithin_onMachine {act : Machine.Op α} (h : Machine.FailsWithin n act) :
    FailsWithin n (onMachine act) vm := by
  intro e vm' herr
  obtain ⟨m, hact, rfl⟩ := onMachine_eq_error herr
  exact ⟨h _ _ _ hact, rfl, fun _ => ⟨rfl, rfl⟩⟩

/-- A console that refuses to print has changed nothing but itself. -/
theorem failsWithin_onConsole (act : Console.Op α) : FailsWithin n (onConsole act) vm := by
  intro e vm' herr
  obtain ⟨_, console, -, -, rfl⟩ := onConsole_eq_error herr
  exact ⟨Machine.spent_refl n _, rfl, fun _ => ⟨rfl, rfl⟩⟩

/-- What works on the host and refuses no range spends no operand. -/
theorem failsWithin_onHost {act : EStateM Fault Host α} (h : Avoids Fault.IsRangeCheck act) :
    FailsWithin n (onHost act) vm := by
  intro e vm' herr
  obtain ⟨host, hact, rfl⟩ := onHost_eq_error herr
  exact ⟨Machine.spent_refl n _, rfl, fun he => absurd ⟨host, hact⟩ (h _ _ he)⟩

/-- A save store that checks ranges first has not changed when it refuses one. -/
theorem failsWithin_onSave {act : SaveStore.Op α} (h : SaveStore.ChecksFirst act) :
    FailsWithin n (onSave act) vm := by
  intro e vm' herr
  obtain ⟨s, hact, rfl⟩ := onSave_eq_error herr
  refine ⟨Machine.spent_refl n _, rfl, fun he => ?_⟩
  rw [h _ _ _ hact he]
  exact ⟨rfl, rfl⟩

/-- An operand popped first counts as one more word spent. -/
theorem failsWithin_pop_bind {k : Word → Op β}
    (h : ∀ w m, Machine.pop vm.machine = .ok w m → FailsWithin n (k w) { vm with machine := m }) :
    FailsWithin (n + 1) (pop >>= k) vm := by
  intro e vm' herr
  rcases bind_eq_error herr with hpop | ⟨w, t, hpop, hk⟩
  · exact failsWithin_onMachine Machine.failsWithin_pop e vm' hpop
  · obtain ⟨m, hm, rfl⟩ := onMachine_eq_ok hpop
    obtain ⟨hmachine, hnames, hstorage⟩ := h w m hm e vm' hk
    rw [(Machine.pop_eq_ok hm).2] at hmachine
    exact ⟨hmachine.succ, hnames, hstorage⟩

/-- An action that looks at the state first. -/
theorem failsWithin_get_bind {k : Vm → Op β} (h : FailsWithin n (k vm) vm) :
    FailsWithin n (get >>= k) vm := h

/-- A check changes nothing, so what follows it fails in the same state. -/
theorem failsWithin_check_bind {r : Except Fault α} {k : α → Op β}
    (h : ∀ x, FailsWithin n (k x) vm) : FailsWithin n (check r >>= k) vm := by
  cases r with
  | ok x => exact h x
  | error e => exact failsWithin_throw e

/-- What follows an action need not be looked at where it cannot fail. -/
theorem FailsWithin.bind_ok {act : Op α} {k : α → Op β} (h : FailsWithin n act vm)
    (hk : ∀ x t, act vm = .ok x t → ∃ y u, k x t = .ok y u) : FailsWithin n (act >>= k) vm := by
  intro e vm' herr
  rcases bind_eq_error herr with hact | ⟨x, t, hact, hkx⟩
  · exact h e vm' hact
  · obtain ⟨y, u, hok⟩ := hk x t hact
    rw [hok] at hkx
    cases hkx

/-- A bound on the operands may be raised. -/
theorem FailsWithin.mono {i : Nat} {act : Op α} (h : FailsWithin i act vm) (hle : i ≤ n) :
    FailsWithin n act vm := by
  intro e vm' herr
  obtain ⟨hmachine, hnames, hstorage⟩ := h e vm' herr
  exact ⟨hmachine.mono hle, hnames, hstorage⟩

/-- A log line written first makes no difference. -/
theorem failsWithin_traceWith_bind {line : Machine → String} {k : Unit → Op β}
    (h : ∀ log, FailsWithin n (k ()) { vm with host := { vm.host with log := log } }) :
    FailsWithin n (traceWith line >>= k) vm := by
  intro e vm' herr
  obtain ⟨log, hlog⟩ := exists_traceWith line vm
  rw [bind_of_ok hlog] at herr
  obtain ⟨hmachine, hnames, hstorage⟩ := h log e vm' herr
  exact ⟨hmachine, hnames, hstorage⟩

/-- The name that a request is served under is released when the request fails. -/
theorem failsWithin_withName {text : String} {serve : String → Op α} (hvm : Nameless vm)
    (hserve : ∀ t : Vm, (stateOf (serve text t)).names = t.names)
    (h : FailsWithin n (serve text) { vm with names := (NameTable.empty.assign text).2 }) :
    FailsWithin n (withName text serve) vm := by
  intro e vm' herr
  rw [withName_of_nameless hvm hserve] at herr
  -- where the request fails, so does the whole, in the state of the request with the table emptied
  cases hs : serve text { vm with names := (NameTable.empty.assign text).2 } with
  | ok x t =>
    rw [hs] at herr
    cases herr
  | error e' t =>
    rw [hs] at herr
    obtain ⟨rfl, rfl⟩ := EStateM.Result.error.inj herr
    obtain ⟨hmachine, -, hstorage⟩ := h e' t hs
    exact ⟨hmachine, hvm.symm, hstorage⟩

end

section

variable {vm : Vm}

/-- An extension that is not there, or lacks the utility asked for, changes nothing but the loader
and the log. -/
theorem failsWithin_callExtension {name : String} {index : Word}
    (h : ∀ ext log found, Loader.load (vm.libraries.open? vm.host.disk) name (vm.loader, log) =
      .ok ext found → ext.entries[index.toNat]? = none) :
    FailsWithin 0 (callExtension name index) vm := by
  intro e vm' herr
  rcases callExtension_cases name index vm with
    ⟨e', found, hcall, -⟩ | ⟨ext, found, entry, hload, hentry, -⟩
  · -- the load failed, or the extension has no such utility
    rw [hcall] at herr
    obtain ⟨-, rfl⟩ := EStateM.Result.error.inj herr
    exact ⟨Machine.spent_refl 0 _, rfl, fun _ => ⟨rfl, rfl⟩⟩
  · rw [h ext _ found hload] at hentry
    cases hentry

/-- A service takes three operands at most, and none writes to the machine before it can fail. The
condition is that no utility is called. -/
theorem failsWithin_serve {service : Service} (hvm : Nameless vm)
    (h : service = .extension → ∀ a index m₂ m₃, Machine.pop vm.machine = .ok a m₂ →
      Machine.pop m₂ = .ok index m₃ → ∀ ext log found,
      Loader.load (vm.libraries.open? vm.host.disk) (m₃.stringAt a) (vm.loader, log) =
        .ok ext found → ext.entries[index.toNat]? = none) :
    FailsWithin 3 (serve service) vm := by
  cases service with
  | reserved => exact failsWithin_throw _
  | logWord => exact failsWithin_pop_bind fun w m _ => failsWithin_onConsole _
  | logString =>
    refine failsWithin_pop_bind fun a m _ => failsWithin_get_bind ?_
    exact failsWithin_withName hvm (fun t => names_onConsole _ t) (failsWithin_onConsole _)
  | saveRead =>
    refine failsWithin_pop_bind fun slot m hm =>
      (failsWithin_onSave (SaveStore.checksFirst_read slot)).bind_ok fun w t ht => ?_
    -- the slot's number has left room for the slot's word
    obtain ⟨m', hpush⟩ := Machine.exists_push_of_pop hm w
    obtain ⟨store, -, rfl⟩ := onSave_eq_ok ht
    exact ⟨(), _, onMachine_of_ok _ hpush⟩
  | saveWrite =>
    exact failsWithin_pop_bind fun slot m _ => failsWithin_pop_bind fun w m _ =>
      failsWithin_onSave (SaveStore.checksFirst_write slot w)
  | saveToMemory =>
    -- words are copied into memory once they have all been read
    refine failsWithin_pop_bind fun a m _ => failsWithin_pop_bind fun n m _ =>
      failsWithin_pop_bind fun start m _ => failsWithin_get_bind ?_
    exact failsWithin_check_bind fun _ => (failsWithin_onSave
      (SaveStore.checksFirst_readRange start _)).bind_ok fun words t _ => ⟨(), _, rfl⟩
  | memoryToSave =>
    refine failsWithin_pop_bind fun a m _ => failsWithin_pop_bind fun n m _ =>
      failsWithin_pop_bind fun start m _ => failsWithin_get_bind ?_
    exact failsWithin_check_bind fun words =>
      failsWithin_onSave (SaveStore.checksFirst_writeRange start words)
  | extension =>
    refine failsWithin_pop_bind fun a m hm => failsWithin_pop_bind fun index m' hm' =>
      failsWithin_get_bind ?_
    refine failsWithin_withName hvm (fun t => names_callExtension _ _ t) ?_
    refine (failsWithin_callExtension ?_).mono (Nat.zero_le 1)
    exact h rfl a index m m' hm hm'

/-- An interrupt takes its selector in addition. -/
theorem failsWithin_interrupt (hvm : Nameless vm)
    (h : ∀ a index m₁ m₂ m₃, Machine.pop vm.machine = .ok Service.extension.selector m₁ →
      Machine.pop m₁ = .ok a m₂ → Machine.pop m₂ = .ok index m₃ → ∀ ext log found,
      Loader.load (vm.libraries.open? vm.host.disk) (m₃.stringAt a) (vm.loader, log) =
        .ok ext found → ext.entries[index.toNat]? = none) :
    FailsWithin 4 interrupt vm := by
  refine failsWithin_pop_bind fun selector m hm => ?_
  cases hservice : Service.ofSelector? selector with
  | none => exact failsWithin_throw _
  | some service =>
    refine failsWithin_serve hvm ?_
    rintro rfl a index m₂ m₃ h₂ h₃
    rw [← Service.selector_of_ofSelector? hservice] at hm
    exact h a index m m₂ m₃ hm h₂ h₃

/-- The image is read before anything is let go. -/
theorem failsWithin_reset {n : Nat} : FailsWithin n reset vm := by
  -- loading cannot fail, so only the reading of the image is looked at
  refine FailsWithin.bind_ok ?_ fun img t _ => ⟨(), _, rfl⟩
  refine failsWithin_get_bind ?_
  cases vm.source with
  | memory img => exact failsWithin_of_ok rfl
  | file path => exact failsWithin_onHost (avoids_readImage (fun _ => id) path)

/-- Where the next step calls no utility, an extension call finds none to run. -/
theorem entry_eq_none_of_not_calls (hcall : ∀ entry m, ¬ ListMachine.Calls vm.view entry m)
    (hfetch : fetch vm.machine = .extended .interrupt) {a index : Word} {m₁ m₂ m₃ : Machine}
    (h₁ : Machine.pop vm.machine = .ok Service.extension.selector m₁)
    (h₂ : Machine.pop m₁ = .ok a m₂) (h₃ : Machine.pop m₂ = .ok index m₃) {ext : Extension}
    {log : Log} {found : Loader × Log}
    (hload : Loader.load (vm.libraries.open? vm.host.disk) (m₃.stringAt a) (vm.loader, log) =
      .ok ext found) : ext.entries[index.toNat]? = none := by
  cases hentry : ext.entries[index.toNat]? with
  | none => rfl
  | some entry =>
    -- three pops in a row find the call's three operands in front of the list
    obtain ⟨hs₁, hm₁⟩ := ListMachine.pop_eq_ok (Machine.pop_view h₁)
    obtain ⟨hs₂, hm₂⟩ := ListMachine.pop_eq_ok (Machine.pop_view h₂)
    obtain ⟨hs₃, hm₃⟩ := ListMachine.pop_eq_ok (Machine.pop_view h₃)
    rw [hs₃] at hs₂
    rw [hs₂] at hs₁
    rw [hm₂, hm₁, ListMachine.dropWords_dropWords, ListMachine.dropWords_dropWords] at hm₃
    have hload' : Loader.load (vm.libraries.open? vm.host.disk) (Target.stringAt m₃.view a)
        (vm.loader, log) = .ok ext found := by
      rw [Machine.stringAt_view]
      exact hload
    exact absurd ⟨hfetch, a, index, _, hs₁, hm₃, ext, log, found, hload', hentry⟩ (hcall entry _)

/-- An instruction that fails and calls no utility has spent four operands at most. -/
theorem failsWithin_execute (hvm : Nameless vm)
    (hcall : ∀ entry m, ¬ ListMachine.Calls vm.view entry m) :
    FailsWithin 4 (execute (fetch vm.machine)) vm := by
  cases hinstr : fetch vm.machine with
  | unassigned byte => exact failsWithin_of_ok rfl
  | register op reg =>
    exact ((failsWithin_onMachine (Machine.failsWithin_execRegister op _)).bind_ok
      fun _ t _ => ⟨.next, t, rfl⟩).mono (by decide)
  | extended op =>
    -- the interrupt, the reset and the halt are carried out outside of the machine
    cases op with
    | interrupt =>
      refine FailsWithin.bind_ok ?_ fun _ t _ => ⟨.next, t, rfl⟩
      exact failsWithin_interrupt hvm fun a index m₁ m₂ m₃ h₁ h₂ h₃ ext log found hload =>
        entry_eq_none_of_not_calls hcall hinstr h₁ h₂ h₃ hload
    | reset => exact failsWithin_reset.bind_ok fun _ t _ => ⟨.next, t, rfl⟩
    | halt => exact (failsWithin_onConsole _).bind_ok fun _ t _ => ⟨.halt, t, rfl⟩
    | _ =>
      exact ((failsWithin_onMachine (Machine.failsWithin_exec _)).bind_ok
        fun _ t _ => ⟨.next, t, rfl⟩).mono (by decide)

/-- So has a step that fails: its log line comes before, and moving on cannot fail. -/
theorem failsWithin_step (hvm : Nameless vm)
    (hcall : ∀ entry m, ¬ ListMachine.Calls vm.view entry m) : FailsWithin 4 step vm := by
  refine failsWithin_traceWith_bind fun log => failsWithin_get_bind ?_
  refine (failsWithin_execute ?_ ?_).bind_ok fun outcome t _ => ?_
  · exact hvm
  · exact hcall
  · cases outcome with
    | halt => exact ⟨.halt, t, rfl⟩
    | next => exact ⟨.next, _, rfl⟩

end

/-- A step that fails, other than in a utility that has begun to run, has spent at most four
operands. Code, data, every register but the stack pointer, every slot of the stack, live or not,
and the name table are as before, so writing the old depth back gives the old machine. A range that
was refused leaves the files and the save store as they were. -/
theorem failed_step_spends_operands {vm vm' : Vm} {e : Fault} (hreach : Reachable vm)
    (hcall : ∀ entry m, ¬ ListMachine.Calls vm.view entry m) (h : step vm = .error e vm') :
    vm'.machine.code = vm.machine.code ∧ vm'.machine.data = vm.machine.data ∧
    (∀ i, i ≠ RegIndex.stackPointer → vm'.machine.reg i = vm.machine.reg i) ∧
    vm'.machine.stack.slots = vm.machine.stack.slots ∧ vm'.names = vm.names ∧
    vm'.machine.stack.depth ≤ vm.machine.stack.depth ∧
    vm.machine.stack.depth ≤ vm'.machine.stack.depth + 4 ∧
    { vm'.machine with
      stack := vm'.machine.stack.setDepth vm.machine.stack.depth vm.machine.stack.depth_le } =
        vm.machine ∧
    (e.IsRangeCheck → vm'.host.disk = vm.host.disk ∧ vm'.save = vm.save) := by
  obtain ⟨hmachine, hnames, hstorage⟩ := failsWithin_step hreach.names_eq_empty hcall e vm' h
  obtain ⟨hle, hge⟩ := hmachine.depth_le
  have hrestore := hmachine.restore
  -- all but the depth can be read off the machine that the old depth gives back
  have hcode := congrArg Machine.code hrestore
  have hdata := congrArg Machine.data hrestore
  have hslots := congrArg (fun m => m.stack.slots) hrestore
  exact ⟨hcode, hdata, fun i hi => hmachine.reg_eq hi, hslots, hnames, hle, hge, hrestore, hstorage⟩

/-- Words of the save store asked for behind the end of the data segment: the selector and all three
operands are spent, and the stack still holds them above its depth. -/
theorem failed_step_spends_operands_memory :
    let slots : Segment Word := (((Segment.fill 0).set 3 12).set 2 0xFFFF).set 1 2
    let vm : Vm :=
      { ofImage .empty ⟨.ofSink (.capture .unlimited), .ofPath "save", .ofDirs [], []⟩
          ⟨.empty, .empty⟩ with
        machine := { (default : Machine) with code := .fill 1, stack := ⟨slots, 4, by decide⟩ } }
    ∃ vm', step vm = .error (.memoryRangeOutOfBounds 0xFFFF 2) vm' ∧
      vm'.machine.stack.depth = 0 ∧ vm'.machine.stack.slots = slots ∧
      { vm'.machine with stack := vm'.machine.stack.setDepth 4 (by decide) } = vm.machine ∧
      vm'.host.disk = vm.host.disk := by
  intro slots vm
  have hreach : Reachable vm := .edit _ (.start _ _ _ _)
  -- the selector is that of a copy out of the save store, not of a call
  have hcall : ∀ entry m, ¬ ListMachine.Calls vm.view entry m := by
    rintro entry m ⟨-, a, index, rest, hstack, -⟩
    have hhead : vm.view.machine.stack.head? = some 12 := by decide +kernel
    rw [hstack] at hhead
    cases hhead
  -- the step is run by evaluation; what it leaves comes from the theorem
  have hfault : (match step vm with | .error e _ => some e | .ok _ _ => none) =
      some (.memoryRangeOutOfBounds 0xFFFF 2) := by decide +kernel
  have hdepth : (stateOf (step vm)).machine.stack.depth = 0 := by decide +kernel
  cases hstep : step vm with
  | ok x vm' =>
    rw [hstep] at hfault
    cases hfault
  | error e vm' =>
    rw [hstep] at hfault hdepth
    obtain rfl := Option.some.inj hfault
    obtain ⟨-, -, -, hslots, -, -, -, hrestore, hstorage⟩ :=
      failed_step_spends_operands hreach hcall hstep
    exact ⟨vm', rfl, hdepth, hslots, hrestore, (hstorage trivial).1⟩

end Vm

end WordMachine

import WordMachine.Proofs.Extension.Agreement
import WordMachine.Proofs.Lockstep.Instructions

/-!
# Calls that fault

A utility that is served through the bridge goes on after a callback of it has failed, so a call
that faults still carries out all callbacks of the utility. `Utility.callbacks` lists them, each
with what came of it, and `Callback.after` says what each makes of the machine: one that failed
leaves it as it is, and registers are not among what callbacks write.

`Accounts` is what serving keeps while the list grows: the machine is the one that the callbacks
make, the fault remembered is that of the first one that failed, and each of them came to what the
machine of its moment lets it come to (`accounts_drive`). What a faulted call leaves behind is then
read off the list (`faulted_call_keeps_registers`).
-/

namespace WordMachine

/-- The fault that a result is, if it is one. -/
def faultOf {σ α : Type} : EStateM.Result Fault σ α → Option Fault
  | .ok _ _ => none
  | .error e _ => some e

namespace Utility

/-! ## Callbacks -/

/-- A callback of a utility and what came of it: the word that a pop gave the utility, and the fault
if it failed. -/
inductive Callback where
  | pop (answer : Word) (fault : Option Fault)
  | push (w : Word) (fault : Option Fault)
  | write (address w : Word)
  | enter (address : Word)

namespace Callback

/-- The fault of a callback that failed. Asking to run machine code always fails. -/
def fault? : Callback → Option Fault
  | pop _ fault | push _ fault => fault
  | write _ _ => none
  | enter address => some (.reentryUnsupported address)

/-- What a callback makes of the machine. One that failed leaves it as it is. -/
def after (m : Machine) : Callback → Machine
  | pop _ none => stateOf (Machine.pop m)
  | push w none => stateOf (Machine.push w m)
  | write address w => { m with data := m.data.set address w }
  | pop _ (some _) | push _ (some _) | enter _ => m

/-- The callback is a pop that succeeded. -/
def isPop : Callback → Bool
  | pop _ none => true
  | _ => false

/-- The callback is a push that succeeded. -/
def isPush : Callback → Bool
  | push _ none => true
  | _ => false

/-- The address and the word of a write. -/
def written? : Callback → Option (Word × Word)
  | write address w => some (address, w)
  | _ => none

/-- What can come of a callback on a machine. -/
inductive Happens (m : Machine) : Callback → Prop
  | pop {w : Word} {rest : List Word} : m.stack.live = w :: rest → Happens m (.pop w none)
  | underflow : m.stack.live = [] → Happens m (.pop 0 (some .stackUnderflow))
  | push (w : Word) : m.stack.live.length < segmentSize → Happens m (.push w none)
  | overflow (w : Word) : m.stack.live.length = segmentSize →
      Happens m (.push w (some .stackOverflow))
  | write (address w : Word) : Happens m (.write address w)
  | enter (address : Word) : Happens m (.enter address)

end Callback

/-- The callbacks of a utility that is served through the bridge, in the order in which they are
made. Reading, and writing to the copy of the registers, is not listed: neither can fail, nor does
it change the machine. -/
def callbacks (strings : Machine → Word → String) : Utility → Bridge → List Callback
  | done, _ => []
  | pop next, b =>
    let (w, b') := b.onStack Target.pop 0
    .pop w (faultOf (Machine.pop b.scope.machine)) :: callbacks strings (next w) b'
  | push w next, b =>
    .push w (faultOf (Machine.push w b.scope.machine)) ::
      callbacks strings next (b.onStack (Target.push w) ()).2
  | read a next, b => callbacks strings (next (b.scope.machine.data.get a)) b
  | write a w next, b =>
    .write a w :: callbacks strings next { b with scope := b.scope.withData a w }
  | string a next, b => callbacks strings (next (Bridge.byteText? (strings b.scope.machine a))) b
  | registers next, b => callbacks strings (next b.regs) b
  | setRegisters r next, b => callbacks strings next { b with regs := r }
  | enter a next, b => .enter a :: callbacks strings next (b.record (.reentryUnsupported a))
  | print text next, b =>
    callbacks strings next { b with scope := { b.scope with printed := b.scope.printed ++ text } }
  | note o next, b =>
    callbacks strings next { b with scope := { b.scope with notes := b.scope.notes.push o } }

/-- A list of callbacks tells how a bridge has got to another one: the machine is what they make of
it, the fault is the one remembered before or that of the first callback that failed, and what came
of each is what can come of it on the machine of its moment. -/
structure Accounts (b b' : Bridge) (log : List Callback) : Prop where
  machine : b'.scope.machine = log.foldl Callback.after b.scope.machine
  fault : b'.fault = b.fault.or (log.findSome? Callback.fault?)
  happens : ∀ front c back, log = front ++ c :: back →
    c.Happens (front.foldl Callback.after b.scope.machine)

section

variable {b b₁ b' : Bridge} {c : Callback} {log : List Callback}

/-- No callback tells that nothing has changed. -/
theorem accounts_nil (b : Bridge) : Accounts b b [] where
  machine := rfl
  fault := Option.or_none.symm
  happens front c back h := by simp at h

/-- One callback in front. -/
theorem Accounts.cons (h : Accounts b₁ b' log) (hc : c.Happens b.scope.machine)
    (hmachine : b₁.scope.machine = c.after b.scope.machine)
    (hfault : b₁.fault = b.fault.or c.fault?) : Accounts b b' (c :: log) where
  machine := by rw [h.machine, hmachine, List.foldl_cons]
  fault := by
    rw [h.fault, hfault, Option.or_assoc, List.findSome?_cons]
    cases c.fault? <;> rfl
  happens front c' back hsplit := by
    cases front with
    | nil =>
      obtain ⟨rfl, -⟩ := List.cons.inj hsplit
      exact hc
    | cons c'' front =>
      obtain ⟨rfl, hrest⟩ := List.cons.inj hsplit
      rw [List.foldl_cons, ← hmachine]
      exact h.happens front c' back hrest

/-- What changes neither the machine nor the fault is not told. -/
theorem Accounts.of_eq (h : Accounts b₁ b' log) (hmachine : b₁.scope.machine = b.scope.machine)
    (hfault : b₁.fault = b.fault) : Accounts b b' log where
  machine := by rw [h.machine, hmachine]
  fault := by rw [h.fault, hfault]
  happens front c back hsplit := by
    rw [← hmachine]
    exact h.happens front c back hsplit

end

/-- A fault is remembered only if none was before. -/
theorem fault_record (b : Bridge) (e : Fault) : (b.record e).fault = b.fault.or (some e) := by
  cases h : b.fault <;> simp [Bridge.record, h]

/-! ## Stack callbacks -/

/-- A pop through the bridge. -/
theorem accounts_pop (b : Bridge) :
    let c := Callback.pop (b.onStack Target.pop 0).1 (faultOf (Machine.pop b.scope.machine))
    c.Happens b.scope.machine ∧
      (b.onStack Target.pop 0).2.scope.machine = c.after b.scope.machine ∧
      (b.onStack Target.pop 0).2.fault = b.fault.or c.fault? := by
  rcases Stack.pop_cases b.scope.machine.stack with ⟨w, st, hpop, hlive⟩ | ⟨hempty, hpop⟩
  · have hmachine : Machine.pop b.scope.machine = .ok w _ := Machine.onStack_of_ok hpop
    rw [target_pop, Bridge.onStack_of_ok (onMachine_onStack_of_ok hpop), hmachine]
    refine ⟨.pop hlive, ?_, Option.or_none.symm⟩
    simp only [faultOf, Callback.after, hmachine, stateOf_ok]
    rfl
  · have hmachine : Machine.pop b.scope.machine = .error .stackUnderflow _ :=
      Machine.onStack_of_error hpop
    rw [target_pop, Bridge.onStack_of_error (onMachine_onStack_of_error hpop), hmachine]
    exact ⟨.underflow hempty, rfl, fault_record _ _⟩

/-- A push through the bridge. -/
theorem accounts_push (b : Bridge) (w : Word) :
    let c := Callback.push w (faultOf (Machine.push w b.scope.machine))
    c.Happens b.scope.machine ∧
      (b.onStack (Target.push w) ()).2.scope.machine = c.after b.scope.machine ∧
      (b.onStack (Target.push w) ()).2.fault = b.fault.or c.fault? := by
  rcases Stack.push_cases w b.scope.machine.stack with ⟨hroom, st, hpush, -⟩ | ⟨hfull, hpush⟩
  · have hmachine : Machine.push w b.scope.machine = .ok () _ := Machine.onStack_of_ok hpush
    rw [target_push, Bridge.onStack_of_ok (onMachine_onStack_of_ok hpush), hmachine]
    refine ⟨.push w hroom, ?_, Option.or_none.symm⟩
    simp only [faultOf, Callback.after, hmachine, stateOf_ok]
    rfl
  · have hmachine : Machine.push w b.scope.machine = .error .stackOverflow _ :=
      Machine.onStack_of_error hpush
    rw [target_push, Bridge.onStack_of_error (onMachine_onStack_of_error hpush), hmachine]
    exact ⟨.overflow w hfull, rfl, fault_record _ _⟩

/-! ## Whole utilities -/

/-- The callbacks of a utility tell what serving it does. -/
theorem accounts_drive (strings : Machine → Word → String) (u : Utility) (b : Bridge) :
    Accounts b (u.drive strings b) (u.callbacks strings b) := by
  -- by induction on the utility; the requests that are not listed change neither machine nor fault
  induction u generalizing b with
  | done => exact accounts_nil b
  | pop next ih =>
    obtain ⟨hc, hmachine, hfault⟩ := accounts_pop b
    exact (ih _ _).cons hc hmachine hfault
  | push w next ih =>
    obtain ⟨hc, hmachine, hfault⟩ := accounts_push b w
    exact (ih _).cons hc hmachine hfault
  | read a next ih => exact ih _ b
  | write a w next ih =>
    exact (ih { b with scope := b.scope.withData a w }).cons (.write a w) rfl Option.or_none.symm
  | string a next ih => exact ih _ b
  | registers next ih => exact ih _ b
  | setRegisters r next ih => exact (ih { b with regs := r }).of_eq rfl rfl
  | enter a next ih => exact (ih (b.record _)).cons (.enter a) rfl (fault_record b _)
  | print text next ih =>
    exact (ih { b with
      scope := { b.scope with printed := b.scope.printed ++ text } }).of_eq rfl rfl
  | note o next ih =>
    exact (ih { b with scope := { b.scope with notes := b.scope.notes.push o } }).of_eq rfl rfl

/-! ## What callbacks make of the machine -/

namespace Callback

/-- A callback works on the stack, and on the data if it is a write. -/
theorem exists_after_eq (m : Machine) (c : Callback) : ∃ stack, c.after m =
    { m with
      data := c.written?.elim m.data fun written => m.data.set written.1 written.2
      stack := stack } := by
  have hstack {α : Type} (act : Stack.Op α) :
      stateOf (Machine.onStack act m) = { m with stack := stateOf (act m.stack) } := by
    rw [Machine.onStack_eq, stateOf_mapState]
  cases c with
  | pop w fault =>
    cases fault with
    | none => exact ⟨_, hstack Stack.pop⟩
    | some e => exact ⟨m.stack, rfl⟩
  | push w fault =>
    cases fault with
    | none => exact ⟨_, hstack (Stack.push w)⟩
    | some e => exact ⟨m.stack, rfl⟩
  | write a w => exact ⟨m.stack, rfl⟩
  | enter a => exact ⟨m.stack, rfl⟩

variable {log : List Callback}

/-- No callback writes a register, other than the stack pointer. -/
theorem reg_foldl_after (log : List Callback) (m : Machine) {i : RegIndex}
    (hi : i ≠ .stackPointer) : (log.foldl after m).reg i = m.reg i := by
  induction log generalizing m with
  | nil => rfl
  | cons c log ih =>
    obtain ⟨stack, hafter⟩ := c.exists_after_eq m
    rw [List.foldl_cons, ih, hafter]
    -- the stack of a machine shows in its stack pointer only
    unfold Machine.reg
    rw [if_neg hi, if_neg hi]

/-- The data hold what was written, in order. -/
theorem data_foldl_after (log : List Callback) (m : Machine) : (log.foldl after m).data =
    (log.filterMap written?).foldl (fun data written => data.set written.1 written.2) m.data := by
  induction log generalizing m with
  | nil => rfl
  | cons c log ih =>
    obtain ⟨stack, hafter⟩ := c.exists_after_eq m
    rw [List.foldl_cons, ih, hafter, List.filterMap_cons]
    cases c.written? <;> rfl

/-- The depth after a callback that came to what it can come to. -/
theorem Happens.depth_after {m : Machine} {c : Callback} (h : c.Happens m) :
    (c.after m).stack.depth + (if c.isPop then 1 else 0) =
      m.stack.depth + if c.isPush then 1 else 0 := by
  cases h with
  | @pop w rest hlive =>
    rcases Stack.pop_cases m.stack with ⟨w', st, hpop, hlive'⟩ | ⟨hempty, -⟩
    · have hmachine : Machine.pop m = .ok w' { m with stack := st } := Machine.onStack_of_ok hpop
      have hdepth : m.stack.depth = st.depth + 1 := by
        rw [← Stack.length_live, hlive', List.length_cons, Stack.length_live]
      simp only [after, hmachine, stateOf_ok, hdepth]
      rfl
    · rw [hempty] at hlive
      cases hlive
  | push w hroom =>
    rcases Stack.push_cases w m.stack with ⟨-, st, hpush, hlive⟩ | ⟨hfull, -⟩
    · have hmachine : Machine.push w m = .ok () { m with stack := st } :=
        Machine.onStack_of_ok hpush
      have hdepth : st.depth = m.stack.depth + 1 := by
        rw [← Stack.length_live, hlive, List.length_cons, Stack.length_live]
      simp only [after, hmachine, stateOf_ok, hdepth]
      rfl
    · omega
  | underflow | overflow | write | enter => rfl

/-- Every pop that succeeded took a word and every push that succeeded added one. -/
theorem depth_foldl_after {m : Machine}
    (h : ∀ front c back, log = front ++ c :: back → c.Happens (front.foldl after m)) :
    (log.foldl after m).stack.depth + log.countP isPop = m.stack.depth + log.countP isPush := by
  induction log generalizing m with
  | nil => rfl
  | cons c log ih =>
    have hc := (h [] c log rfl).depth_after
    have hlog := ih fun front c' back hsplit => by
      rw [hsplit] at h
      exact h (c :: front) c' back rfl
    rw [List.foldl_nil] at hc
    rw [List.foldl_cons, List.countP_cons, List.countP_cons]
    omega

end Callback

/-- A call through the bridge of which a callback fails ends with the fault of the first one that
does, whatever the utility does afterwards. All registers but the stack pointer are as before, the
instruction pointer and the return address among them. The depth has moved by the pushes and pops
that succeeded, and the data hold what was written, in order. The machine is the one that the
callbacks make of it, of which those that failed make nothing, and each came to what it can come to
at its moment; in particular, a pop that failed gave the utility zero. -/
theorem faulted_call_keeps_registers (strings : Machine → Word → String) (u : Utility) (s : Scope)
    (hfails : ∃ c ∈ u.callbacks strings (.ofScope s), c.fault? ≠ none) :
    let log := u.callbacks strings (.ofScope s)
    ∃ front c back e t, log = front ++ c :: back ∧ (∀ c' ∈ front, c'.fault? = none) ∧
      c.fault? = some e ∧ u.runBridgedWith strings s = .error e t ∧
      (∀ i, i ≠ RegIndex.stackPointer → t.machine.reg i = s.machine.reg i) ∧
      t.machine.stack.depth + log.countP Callback.isPop =
        s.machine.stack.depth + log.countP Callback.isPush ∧
      t.machine.data = (log.filterMap Callback.written?).foldl
        (fun data written => data.set written.1 written.2) s.machine.data ∧
      t.machine = log.foldl Callback.after s.machine ∧
      (∀ front c back, log = front ++ c :: back →
        c.Happens (front.foldl Callback.after s.machine)) ∧
      ∀ w e', Callback.pop w (some e') ∈ log → w = 0 ∧ e' = .stackUnderflow := by
  intro log
  obtain ⟨hmachine, hfault, hhappens⟩ := accounts_drive strings u (.ofScope s)
  -- the first callback that failed gives the fault that is remembered
  have hsome : ∃ e, log.findSome? Callback.fault? = some e := by
    obtain ⟨c, hc, hne⟩ := hfails
    exact Option.ne_none_iff_exists'.1 fun hnone => hne (List.findSome?_eq_none_iff.1 hnone c hc)
  obtain ⟨e, he⟩ := hsome
  obtain ⟨front, c, back, hsplit, hc, hfront⟩ := List.findSome?_eq_some_iff.1 he
  have hstart : (Bridge.ofScope s).fault = none := rfl
  rw [hstart, Option.none_or, he] at hfault
  refine ⟨front, c, back, e, _, hsplit, hfront, hc, runBridgedWith_of_fault hfault, ?_, ?_, ?_,
    hmachine, hhappens, ?_⟩
  · intro i hi
    rw [hmachine, Callback.reg_foldl_after _ _ hi]
    rfl
  · rw [hmachine]
    exact Callback.depth_foldl_after hhappens
  · rw [hmachine]
    exact Callback.data_foldl_after _ _
  · intro w e' hmem
    obtain ⟨front', back', hpop⟩ := List.append_of_mem hmem
    cases hhappens front' _ back' hpop
    exact ⟨rfl, rfl⟩

/-- On an empty stack: the copies of register 0, of the instruction pointer and of the stack pointer
are written, a pop fails, and the utility goes on with a push, a write, machine code to run and two
more pops, of which the second fails. The first fault is the result, and of the rest the data word
is left. -/
theorem faulted_call_keeps_registers_empty :
    let s := Scope.ofMachine default
    let u := Script.toUtility [.setReg .zero (some 5), .setReg .instructionPointer (some 7),
      .setReg .stackPointer (some 3), .pop, .push (some 9), .write 4 (some 8), .enter 1, .pop, .pop]
    (∃ c ∈ u.callbacks Target.stringAt (.ofScope s), c.fault? ≠ none) ∧
      ∃ t, u.runBridged s = .error .stackUnderflow t ∧ t.machine.reg .zero = 0 ∧
        t.machine.ip = 0 ∧ t.machine.stack.depth = 0 ∧
        t.machine.data = (Segment.fill 0).set 4 8 := by
  intro s u
  let log := u.callbacks Target.stringAt (.ofScope s)
  have hfirst : log.findSome? Callback.fault? = some .stackUnderflow := rfl
  have hfails : ∃ c ∈ log, c.fault? ≠ none := ⟨_, List.mem_cons_self .., nofun⟩
  refine ⟨hfails, ?_⟩
  obtain ⟨front, c, back, e, t, hsplit, hfront, hc, hrun, hreg, hdepth, hdata, -⟩ :=
    faulted_call_keeps_registers Target.stringAt u s hfails
  have he : log.findSome? Callback.fault? = some e :=
    List.findSome?_eq_some_iff.2 ⟨front, c, back, hsplit, hc, hfront⟩
  obtain rfl := Option.some.inj (he.symm.trans hfirst)
  refine ⟨t, hrun, ?_, ?_, ?_, hdata⟩
  · exact (hreg .zero (by decide)).trans rfl
  · exact (hreg .instructionPointer (by decide)).trans rfl
  · have hone : t.machine.stack.depth + 1 = 0 + 1 := hdepth
    omega

end Utility

end WordMachine

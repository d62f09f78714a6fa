import WordMachine.Proofs.Lockstep.ServiceFaults

/-!
# The operand stack is a list

Over whole runs that do not write register 31, the virtual machine and the machine with a list move
in lock step, and the list is the live slots. What lies in the slots at or above the depth is never
seen.

A step ends in a fault of the stack for one of four reasons (`faults_step_iff`). An operand is
missing, a word is pushed that has no room, or the distance of a swap reaches past the list: these
are read off the instruction and the list (`Instruction.StackFault`). Or a utility that the step
calls ended in that fault.
-/

namespace WordMachine

/-- Different services have different selectors. -/
theorem Service.selector_injective : Function.Injective Service.selector := by
  intro s t h
  have hsome := congrArg ofSelector? h
  simpa using hsome

/-! ## Faults that the list foretells -/

namespace Instruction

/-- How many words an instruction takes from a list; an interrupt takes its selector and then the
operands of the service. -/
def needed : Instruction → List Word → Nat
  | .extended .interrupt, selector :: _ =>
    1 + ((Service.ofSelector? selector).map Service.operands).getD 0
  | .extended op, _ => op.operands
  | .register op _, _ => op.operands
  | .unassigned _, _ => 0

/-- The instruction leaves one word more on the list than it takes. -/
def Grows : Instruction → Prop
  | .extended op => op = .dup ∨ op = .pushImm
  | .register op _ => op = .push
  | .unassigned _ => False

/-- The instruction cannot be carried out on the list: what it takes is not there, or what it leaves
has no room, or it is a swap over a distance that the list behind the distance does not have. -/
def StackFault (i : Instruction) (ws : List Word) : Fault → Prop
  | .stackUnderflow => ws.length < i.needed ws
  | .stackOverflow => i.Grows ∧ ws.length = segmentSize
  | .stackIndexOutOfRange n depth =>
    i = .extended .swap ∧ ∃ rest, ws = n :: rest ∧ depth = rest.length ∧ rest.length ≤ n.toNat
  | _ => False

/-- An opcode other than an interrupt takes its own operands only. -/
theorem needed_extended {op : Opcode} (h : op ≠ .interrupt) (ws : List Word) :
    (extended op).needed ws = op.operands := by
  cases op with
  | interrupt => exact absurd rfl h
  | _ => rfl

/-- An instruction that makes the list longer takes one word at most. -/
theorem needed_le_one_of_grows {i : Instruction} (h : i.Grows) (ws : List Word) :
    i.needed ws ≤ 1 := by
  cases i with
  | extended op => rcases h with rfl | rfl <;> simp [needed, Opcode.operands]
  | register op reg =>
    obtain rfl : op = .push := h
    exact Nat.zero_le 1
  | unassigned byte => exact h.elim

variable {i : Instruction} {ws : List Word} {e : Fault}

/-- With an operand missing, an instruction comes to nothing else. -/
theorem stackFault_of_lt_needed (h : ws.length < i.needed ws) (he : e.IsStack) :
    i.StackFault ws e ↔ e = .stackUnderflow := by
  cases e with
  | stackUnderflow => exact iff_of_true h rfl
  | stackOverflow =>
    refine iff_of_false ?_ nofun
    rintro ⟨hgrows, hfull⟩
    have hone := needed_le_one_of_grows hgrows ws
    rw [hfull] at h
    exact absurd (Nat.lt_of_lt_of_le h hone) (by decide)
  | stackIndexOutOfRange n depth =>
    refine iff_of_false ?_ nofun
    rintro ⟨rfl, rest, rfl, -⟩
    exact absurd h (Nat.not_lt.2 (Nat.succ_le_succ (Nat.zero_le _)))
  | _ => exact he.elim

/-- An instruction that neither grows the list nor swaps can only miss operands. -/
theorem stackFault_iff_underflow (hgrows : ¬ i.Grows) (hswap : i ≠ .extended .swap)
    (he : e.IsStack) : i.StackFault ws e ↔ e = .stackUnderflow ∧ ws.length < i.needed ws := by
  cases e with
  | stackUnderflow => simp [StackFault]
  | stackOverflow => simp [StackFault, hgrows]
  | stackIndexOutOfRange n depth => simp [StackFault, hswap]
  | _ => exact he.elim

/-- An instruction that takes nothing and leaves nothing is carried out on every list. -/
theorem not_stackFault (hneeded : i.needed ws = 0) (hgrows : ¬ i.Grows)
    (hswap : i ≠ .extended .swap) (he : e.IsStack) : ¬ i.StackFault ws e := by
  rw [stackFault_iff_underflow hgrows hswap he, hneeded]
  simp

end Instruction

namespace ListMachine

open Utility (Target Scope)
open Vm (onMachine)

variable {m : ListMachine} {v : Vm ListMachine} {e : Fault}

/-- A swap that finds its distance on the list faults exactly when the rest is not longer. -/
theorem stackFault_swap_iff {n : Word} {depth : Nat} :
    (∃ n', m.stack.take 1 = [n'] ∧
      Fault.stackIndexOutOfRange n depth =
        .stackIndexOutOfRange n' (m.dropWords 1).stack.length ∧
      (m.dropWords 1).stack.length ≤ n'.toNat) ↔
    ∃ rest, m.stack = n :: rest ∧ depth = rest.length ∧ rest.length ≤ n.toNat := by
  constructor
  · rintro ⟨n', htake, hfault, hdist⟩
    obtain ⟨rfl, rfl⟩ := Fault.stackIndexOutOfRange.inj hfault
    refine ⟨m.stack.drop 1, ?_, rfl, hdist⟩
    rw [← List.singleton_append, ← htake]
    exact (List.take_append_drop 1 m.stack).symm
  · rintro ⟨rest, hrest, rfl, hdist⟩
    have hdrop : (m.dropWords 1).stack = rest := by simp [dropWords, hrest]
    rw [hdrop]
    exact ⟨n, by simp [hrest], rfl, hdist⟩

/-- An opcode faults on the stack exactly when the list foretells it. -/
theorem faults_opcode_iff {op : Opcode} (hop : op ≠ .interrupt) (he : e.IsStack) :
    Faults (take op.operands >>= effect op) m e ↔
      (Instruction.extended op).StackFault m.stack e := by
  have hneeded := Instruction.needed_extended hop m.stack
  by_cases hle : op.operands ≤ m.stack.length
  · -- with all operands there, what remains is the effect
    have hlen := length_dropWords hle
    rw [faults_bind_of_ok (take_of_le hle),
      faults_effect (List.length_take_of_le hle) (hlen ▸ m.stack_le) he, hlen]
    cases e with
    | stackUnderflow => simp [Instruction.StackFault, hneeded, hle]
    | stackOverflow => simp [Instruction.StackFault, Instruction.Grows]
    | stackIndexOutOfRange n depth =>
      rw [or_iff_right nofun]
      change _ ↔ Instruction.extended op = .extended .swap ∧ _
      rw [Instruction.extended.injEq]
      refine and_congr_right ?_
      rintro rfl
      exact stackFault_swap_iff
    | _ => exact he.elim
  · have hlt := Nat.not_le.1 hle
    rw [faults_take_bind_of_lt hlt, Instruction.stackFault_of_lt_needed (hneeded ▸ hlt) he]

/-- A register operation faults on the stack exactly when the list foretells it. -/
theorem faults_registerOp_iff {op : RegisterOp} {reg : UInt8} (he : e.IsStack) :
    Faults (take op.operands >>= registerEffect op (Vm.registerIndex reg)) m e ↔
      (Instruction.register op reg).StackFault m.stack e := by
  by_cases hle : op.operands ≤ m.stack.length
  · have hlen := length_dropWords hle
    rw [faults_bind_of_ok (take_of_le hle),
      faults_registerEffect (List.length_take_of_le hle) (hlen ▸ m.stack_le), hlen]
    cases e with
    | stackUnderflow => simp [Instruction.StackFault, Instruction.needed, hle]
    | stackOverflow => simp [Instruction.StackFault, Instruction.Grows]
    | stackIndexOutOfRange n depth => simp [Instruction.StackFault]
    | _ => exact he.elim
  · have hlt := Nat.not_le.1 hle
    rw [faults_take_bind_of_lt hlt, Instruction.stackFault_of_lt_needed hlt he]

/-! ## Faults of a step -/

/-- The next step calls a utility, and the call ends in the fault. -/
def CallFaults (v : Vm ListMachine) (e : Fault) : Prop :=
  ∃ entry m, Calls v entry m ∧ Faults entry.run (.ofMachine m) e

/-- Only an interrupt calls a utility. -/
theorem not_callFaults (h : v.machine.fetch ≠ .extended .interrupt) : ¬ CallFaults v e :=
  fun ⟨_, _, hcalls, _⟩ => h hcalls.1

/-- A call finds its three operands in front of the list. -/
theorem Calls.cons {entry : Entry} {selector : Word} {rest : List Word}
    (h : Calls v entry m) (hs : v.machine.stack = selector :: rest) :
    selector = Service.extension.selector ∧ 2 ≤ rest.length := by
  obtain ⟨-, a, index, tail, hcons, -⟩ := h
  rw [hs] at hcons
  obtain ⟨rfl, rfl⟩ := List.cons.inj hcons
  simp

/-- With all its operands on the list, an interrupt faults on the stack only through the utility
that it calls. -/
theorem faults_serve_iff_callFaults {service : Service} {rest : List Word}
    (hfetch : v.machine.fetch = .extended .interrupt)
    (hs : v.machine.stack = service.selector :: rest) (hle : service.operands ≤ rest.length)
    (he : e.IsStack) :
    Faults (serve service (rest.take service.operands))
      { v with machine := v.machine.dropWords (1 + service.operands) } e ↔ CallFaults v e := by
  -- with the selector off the list there is room for one word, which reading a save slot needs
  have hstack := v.machine.stack_le
  rw [hs, List.length_cons] at hstack
  have hdrop : (v.machine.dropWords (1 + service.operands)).stack = rest.drop service.operands := by
    simp [dropWords, hs, Nat.add_comm 1]
  have hroom : (v.machine.dropWords (1 + service.operands)).stack.length + service.operands <
      segmentSize := by
    rw [hdrop, List.length_drop]
    omega
  rw [faults_serve (List.length_take_of_le hle) hroom he]
  constructor
  · rintro ⟨rfl, a, index, hws, ext, log, found, entry, hload, hentry, hf⟩
    have hrest : rest = a :: index :: rest.drop 2 := by
      calc rest = rest.take 2 ++ rest.drop 2 := (List.take_append_drop 2 rest).symm
        _ = [a, index] ++ rest.drop 2 := congrArg (· ++ rest.drop 2) hws
    refine ⟨entry, _, ⟨hfetch, a, index, rest.drop 2, ?_, rfl, ext, log, found, hload, hentry⟩, hf⟩
    rw [hs, ← hrest]
  · rintro ⟨entry, m, ⟨-, a, index, tail, hcons, rfl, ext, log, found, hload, hentry⟩, hf⟩
    rw [hs] at hcons
    obtain ⟨hselector, rfl⟩ := List.cons.inj hcons
    obtain rfl := Service.selector_injective hselector
    exact ⟨rfl, a, index, rfl, ext, log, found, entry, hload, hentry, hf⟩

/-- An interrupt faults on the stack when an operand is missing or through the utility it calls. -/
theorem faults_interrupt_iff (hfetch : v.machine.fetch = .extended .interrupt) (he : e.IsStack) :
    Faults (onMachine pop >>= interrupt) v e ↔
      (Instruction.extended .interrupt).StackFault v.machine.stack e ∨ CallFaults v e := by
  rw [Instruction.stackFault_iff_underflow (by simp [Instruction.Grows]) (by simp) he]
  cases hs : v.machine.stack with
  | nil =>
    -- not even the selector is there
    have hcall : ¬ CallFaults v e := by
      rintro ⟨entry, m, ⟨-, a, index, rest, hcons, -⟩, -⟩
      rw [hs] at hcons
      cases hcons
    rw [faults_bind_of_error (Vm.onMachine_of_error v (pop_of_nil hs)), or_iff_left hcall]
    simp [Instruction.needed, Opcode.operands]
  | cons selector rest =>
    rw [faults_bind_of_ok (Vm.onMachine_of_ok v (pop_of_cons hs)), interrupt]
    cases hservice : Service.ofSelector? selector with
    | none =>
      -- a selector that no service has is a fault, but not one of the stack
      refine iff_of_false (avoids_throw (p := Fault.IsStack) id _ e he) ?_
      rintro (⟨-, hlt⟩ | ⟨entry, m, hcalls, -⟩)
      · simp [Instruction.needed, hservice] at hlt
      · rw [(hcalls.cons hs).1, Service.ofSelector?_selector] at hservice
        cases hservice
    | some service =>
      obtain rfl := Service.selector_of_ofSelector? hservice
      have hneeded : (Instruction.extended .interrupt).needed (service.selector :: rest) =
          1 + service.operands := by
        simp [Instruction.needed]
      have hrest : (v.machine.dropWords 1).stack = rest := by simp [dropWords, hs]
      rw [hneeded, List.length_cons]
      by_cases hle : service.operands ≤ rest.length
      · have htake : take service.operands (v.machine.dropWords 1) =
            .ok (rest.take service.operands) (v.machine.dropWords (1 + service.operands)) := by
          rw [take_of_le (hrest ▸ hle), hrest, dropWords_dropWords]
        have hnot : ¬ (e = .stackUnderflow ∧ rest.length + 1 < 1 + service.operands) := by
          omega
        rw [or_iff_right hnot, ← faults_serve_iff_callFaults hfetch hs hle he]
        exact faults_bind_of_ok (Vm.onMachine_of_ok _ htake)
      · -- an operand of the service is missing, so the service is not reached
        obtain ⟨t, ht⟩ : Faults (take service.operands) (v.machine.dropWords 1) .stackUnderflow :=
          faults_take.2 ⟨rfl, hrest ▸ Nat.not_le.1 hle⟩
        have hcall : ¬ CallFaults v e := by
          rintro ⟨entry, m, hcalls, -⟩
          obtain ⟨hselector, hlength⟩ := hcalls.cons hs
          obtain rfl := Service.selector_injective hselector
          exact hle hlength
        rw [or_iff_left hcall, faults_bind_of_error (Vm.onMachine_of_error _ ht)]
        exact ⟨fun h => ⟨h, by omega⟩, fun h => h.1⟩

/-- An instruction faults on the stack exactly when the list foretells it or the utility that it
calls does so. -/
theorem faults_execute_iff (he : e.IsStack) :
    Faults (execute v.machine.fetch) v e ↔
      v.machine.fetch.StackFault v.machine.stack e ∨ CallFaults v e := by
  cases hinstr : v.machine.fetch with
  | unassigned byte =>
    have hcall : ¬ CallFaults v e := not_callFaults (by rw [hinstr]; exact nofun)
    rw [or_iff_left hcall]
    exact iff_of_false (not_faults_pure _) (Instruction.not_stackFault rfl id (by simp) he)
  | register op reg =>
    have hcall : ¬ CallFaults v e := not_callFaults (by rw [hinstr]; exact nofun)
    rw [or_iff_left hcall, ← faults_registerOp_iff he, ← Vm.faults_onMachine]
    exact faults_bind_of_not fun _ _ => not_faults_pure _
  | extended op =>
    by_cases hop : op = .interrupt
    · subst hop
      rw [← faults_interrupt_iff hinstr he]
      exact faults_bind_of_not fun _ _ => not_faults_pure _
    · have hcall : ¬ CallFaults v e := not_callFaults (by simpa [hinstr] using hop)
      rw [or_iff_left hcall]
      cases op with
      | interrupt => exact absurd rfl hop
      | reset =>
        refine iff_of_false ?_ (Instruction.not_stackFault rfl (by simp [Instruction.Grows])
          (by simp) he)
        exact (Vm.avoids_restart (fun _ => id) _).bind (fun _ => avoids_pure _) v e he
      | halt =>
        refine iff_of_false ?_ (Instruction.not_stackFault rfl (by simp [Instruction.Grows])
          (by simp) he)
        exact (Vm.avoids_onConsole (fun _ => id) _).bind (fun _ => avoids_pure _) v e he
      | _ =>
        rw [← faults_opcode_iff hop he, ← Vm.faults_onMachine]
        exact faults_bind_of_not fun _ _ => not_faults_pure _

/-- A step faults on the stack exactly when its instruction does. -/
theorem faults_step_iff (he : e.IsStack) :
    Faults step v e ↔ v.machine.fetch.StackFault v.machine.stack e ∨ CallFaults v e := by
  obtain ⟨log, hlog⟩ := Vm.exists_traceWith
    (fun m : ListMachine => Text.hex 4 m.ip.toNat ++ ": " ++ m.fetch.render) v
  rw [step, faults_bind_of_ok hlog, faults_get_bind, faults_bind_of_not]
  · exact faults_execute_iff he
  · intro outcome t
    cases outcome with
    | halt => exact not_faults_pure _
    | next => exact faults_of_ok rfl

end ListMachine

/-! ## The slots -/

namespace Stack

variable {s t : Stack} {e : Fault}

/-- A push faults exactly if there are 65536 live words. -/
theorem faults_push {w : Word} :
    Faults (push w) s e ↔ e = .stackOverflow ∧ s.live.length = segmentSize := by
  rcases push_cases w s with ⟨hlt, t, ht, -⟩ | ⟨hfull, herr⟩
  · exact iff_of_false (faults_of_ok ht) fun hf => Nat.ne_of_lt hlt hf.2
  · rw [faults_of_error herr, and_iff_left hfull]

/-- A pop faults exactly if there is no live word. -/
theorem faults_pop : Faults pop s e ↔ e = .stackUnderflow ∧ s.live = [] := by
  rcases pop_cases s with ⟨w, t, ht, hcons⟩ | ⟨hnil, herr⟩
  · exact iff_of_false (faults_of_ok ht) fun hf => List.cons_ne_nil w _ (hcons.symm.trans hf.2)
  · rw [faults_of_error herr, and_iff_left hnil]

/-- A swap faults exactly if its distance is not below the number of live words. -/
theorem faults_swap {n : Word} :
    Faults (swap n) s e ↔
      e = .stackIndexOutOfRange n s.live.length ∧ s.live.length ≤ n.toNat := by
  rcases swap_cases n s with ⟨hlt, t, ht, -⟩ | ⟨hle, herr⟩
  · exact iff_of_false (faults_of_ok ht) fun hf => Nat.not_le_of_lt hlt hf.2
  · rw [faults_of_error herr, and_iff_left hle]

/-- The live words are those in the slots below the depth. -/
theorem live_eq (hdepth : t.depth = s.depth)
    (hslots : ∀ a : Word, a.toNat < s.depth → t.slots.get a = s.slots.get a) :
    t.live = s.live := by
  apply List.ext_getElem?
  intro i
  rw [getElem?_live, getElem?_live, hdepth]
  split
  · rename_i hi
    rw [hslots _ (by rw [toNat_slot hi]; omega)]
  · rfl

end Stack

namespace Vm

/-- The virtual machine with other words in the slots of its stack. -/
def withSlots (vm : Vm) (slots : Segment Word) : Vm :=
  { vm with machine := { vm.machine with stack := { vm.machine.stack with slots := slots } } }

/-- The view does not show the slots at and above the depth. -/
theorem view_withSlots {vm : Vm} {slots : Segment Word}
    (h : ∀ a : Word, a.toNat < vm.machine.stack.depth →
      slots.get a = vm.machine.stack.slots.get a) : (vm.withSlots slots).view = vm.view := by
  have hlive := Stack.live_eq (s := vm.machine.stack)
    (t := { vm.machine.stack with slots := slots }) rfl h
  have hmachine : (vm.withSlots slots).machine.view = vm.machine.view := by
    simp only [withSlots, Machine.view, hlive]
  simp only [view, mapMachine, hmachine]
  rfl

/-! ## Whole runs -/

/-- As long as register 31 is not written, the virtual machine moves in lock step with the list
machine: every step has the same result and leaves the same behind, and the list is the live slots.
A step faults on the stack exactly when its operands are not on the list, when what it pushes finds
65536 words, when it swaps over a distance of at least what is left behind the distance, or when
that happens to the utility it calls. What the slots hold at and above the depth makes no
difference. -/
theorem lockstep_list (vm : Vm) (n : Nat)
    (h : Along step (fun vm => ListMachine.SparesPointer vm.view) n vm) :
    trail ListMachine.step n vm.view = (trail step n vm).map (mapState view) ∧
    Along step (fun vm => ∀ e, e.IsStack →
      (Faults step vm e ↔ (fetch vm.machine).StackFault vm.machine.stack.live e ∨
        ListMachine.CallFaults vm.view e)) n vm ∧
    (∀ (s : Stack) (w : Word) (e : Fault),
      (Faults (Stack.push w) s e ↔ e = .stackOverflow ∧ s.live.length = segmentSize) ∧
      (Faults Stack.pop s e ↔ e = .stackUnderflow ∧ s.live = []) ∧
      (Faults (Stack.swap w) s e ↔
        e = .stackIndexOutOfRange w s.live.length ∧ s.live.length ≤ w.toNat)) ∧
    ∀ slots : Segment Word,
      (∀ a : Word, a.toNat < vm.machine.stack.depth →
        slots.get a = vm.machine.stack.slots.get a) →
      (trail step n (vm.withSlots slots)).map (mapState view) =
        (trail step n vm).map (mapState view) := by
  refine ⟨trail_map (fun _ => commutes_step) h, h.imp fun vm hvm e he => ?_, ?_, ?_⟩
  · rw [(commutes_step hvm).faults_iff]
    exact ListMachine.faults_step_iff he
  · intro s w e
    exact ⟨Stack.faults_push, Stack.faults_pop, Stack.faults_swap⟩
  · -- the two start with one view, and the condition on the run is a condition on the views
    intro slots hslots
    have hview := view_withSlots hslots
    have h' : Along step (fun vm => ListMachine.SparesPointer vm.view) n (vm.withSlots slots) := by
      rw [along_map fun _ => commutes_step, hview]
      exact (along_map fun _ => commutes_step).1 h
    rw [← trail_map (fun _ => commutes_step) h', ← trail_map (fun _ => commutes_step) h, hview]

/-- A program of copies on a stack with one free slot: the first step fills the stack, the others
overflow, and the word that stood in the free slot is not seen. -/
theorem lockstep_list_full :
    let vm : Vm :=
      { ofImage .empty ⟨.ofSink (.capture .unlimited), .ofPath "", .ofDirs [], []⟩
          ⟨.empty, .empty⟩ with
        machine := { (default : Machine) with
          code := .fill 3, stack := ⟨.fill 1, 65535, by decide⟩ } }
    Along step (fun vm => ListMachine.SparesPointer vm.view) 3 vm ∧
      trail ListMachine.step 3 vm.view = (trail step 3 vm).map (mapState view) ∧
      Faults step (stateOf (step vm)) .stackOverflow ∧
      ∀ slots : Segment Word,
        (∀ a : Word, a.toNat < 65535 → slots.get a = (Segment.fill 1).get a) →
        (trail step 3 (vm.withSlots slots)).map (mapState view) =
          (trail step 3 vm).map (mapState view) := by
  intro vm
  have spares (vm : Vm) (hdup : fetch vm.machine = .extended .dup) :
      ListMachine.SparesPointer vm.view := by
    have hfetch : vm.view.machine.fetch = .extended .dup := hdup
    refine ⟨?_, fun e m hcalls => ?_⟩
    · rw [hfetch]
      exact nofun
    · nomatch hfetch.symm.trans hcalls.1
  have hdup : fetch (stateOf (step vm)).machine = .extended .dup := by decide +kernel
  have h : Along step (fun vm => ListMachine.SparesPointer vm.view) 3 vm :=
    ⟨spares _ (by decide +kernel), spares _ hdup, spares _ (by decide +kernel), trivial⟩
  obtain ⟨htrail, hfaults, -, hslots⟩ := lockstep_list vm 3 h
  have hdepth : (stateOf (step vm)).machine.stack.depth = 65536 := by decide +kernel
  refine ⟨h, htrail, (hfaults.2.1 .stackOverflow trivial).2 (.inl ?_), hslots⟩
  rw [hdup]
  exact ⟨.inl rfl, (Stack.length_live _).trans hdepth⟩

end Vm

end WordMachine

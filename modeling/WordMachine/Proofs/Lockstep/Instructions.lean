import WordMachine.Proofs.Lockstep.ListMachine
import WordMachine.Proofs.Lockstep.Commuting
import WordMachine.Proofs.Machine.Registers

/-!
# Instructions on slots and on the list

`Machine.view` forgets the slots at and above the depth: the machine is seen with the list of its
live words, the top first. Each of the stack's operations does on the slots what the list's does on
the view, with the same answer and the same fault (`commutes_push`, `commutes_pop`,
`commutes_exchange`). Every instruction is made of these, and the register operations that do not
write register 31, so every such instruction commutes with the view too (`commutes_exec`,
`commutes_execRegister`).
-/

namespace WordMachine

namespace Stack

/-- The live words, the top first. -/
def live (s : Stack) : List Word := s.toList.reverse

/-- There are as many live words as the stack is deep. -/
@[simp]
theorem length_live (s : Stack) : s.live.length = s.depth := by
  simp [live]

/-- There are at most 65536 live words. -/
theorem length_live_le (s : Stack) : s.live.length ≤ segmentSize := by
  rw [length_live]
  exact s.depth_le

/-- The number of a live slot fits into a word. -/
theorem toNat_slot {s : Stack} {i : Nat} (h : i < s.depth) :
    (UInt16.ofNat (s.depth - 1 - i)).toNat = s.depth - 1 - i := by
  have hle := s.depth_le
  have hlt : s.depth - 1 - i < segmentSize := by omega
  exact UInt16.toNat_ofNat_of_lt' hlt

/-- The word `i` places below the top is in the slot `i` places below the top slot. -/
theorem getElem?_live (s : Stack) (i : Nat) :
    s.live[i]? =
      if i < s.depth then some (s.slots.get (UInt16.ofNat (s.depth - 1 - i))) else none := by
  have hle := s.depth_le
  split
  · rename_i hi
    have hlt : s.depth - 1 - i < segmentSize := by omega
    have hlen : i < s.toList.length := by simpa using hi
    have htake : s.depth - 1 - i < s.depth := by omega
    rw [live, List.getElem?_reverse hlen, length_toList, toList, List.getElem?_take_of_lt htake,
      List.getElem?_eq_getElem (by simpa using hlt)]
    simp [Segment.get, toNat_slot hi]
  · rename_i hi
    exact List.getElem?_eq_none (by simpa using hi)

/-- A push puts its word in front of the live words. -/
theorem live_of_push {s t : Stack} {w : Word} (h : push w s = .ok () t) : t.live = w :: s.live := by
  simp [live, toList_of_push h]

/-- A pop takes the first of the live words. -/
theorem live_of_pop {s t : Stack} {w : Word} (h : pop s = .ok w t) : s.live = w :: t.live := by
  simp [live, toList_of_pop h]

/-- Different live words are in different slots. -/
theorem slot_ne {s : Stack} {i j : Nat} (hi : i < s.depth) (hj : j < s.depth) (h : i ≠ j) :
    UInt16.ofNat (s.depth - 1 - i) ≠ UInt16.ofNat (s.depth - 1 - j) := by
  intro e
  have hn := congrArg UInt16.toNat e
  rw [toNat_slot hi, toNat_slot hj] at hn
  omega

/-- Exchanging two slots exchanges the words in the list. -/
theorem live_of_swap {s t : Stack} {n : Word} (h : swap n s = .ok () t) :
    t.live = ListMachine.exchanged n.toNat s.live := by
  unfold swap at h
  split at h
  · rename_i hn
    simp only [EStateM.Result.ok.injEq, true_and] at h
    subst h
    apply List.ext_getElem?
    intro i
    rw [getElem?_live, ListMachine.getElem?_exchanged (by simpa using hn)]
    simp only [getElem?_live]
    -- slot by slot: the place written last, the place written first, all others
    by_cases hi : i < s.depth
    · by_cases hin : i = n.toNat
      · -- the lower of the two slots, written last
        subst hin
        have h0 : 0 < s.depth := by omega
        rw [if_pos hn, if_pos hn, if_pos rfl, if_pos h0, Segment.get_set_self]
        split
        · rename_i hzero
          rw [hzero]
          rfl
        · rfl
      · rw [if_pos hi, if_neg hin, Segment.get_set_of_ne _ _ (slot_ne hn hi (Ne.symm hin))]
        by_cases h0 : i = 0
        · subst h0
          rw [if_pos rfl, if_pos hn]
          exact congrArg some (Segment.get_set_self _ _ _)
        · -- any other slot
          rw [if_neg h0, if_pos hi]
          have hne := slot_ne (i := 0) (by omega) hi (Ne.symm h0)
          exact congrArg some (Segment.get_set_of_ne _ _ hne)
    · have h0 : i ≠ 0 := by omega
      have hin : i ≠ n.toNat := by omega
      rw [if_neg hi, if_neg h0, if_neg hin, if_neg hi]
  · simp at h

/-- The top word is the first of the live words. -/
theorem top?_eq_head? (s : Stack) : s.top? = s.live.head? := by
  rw [List.head?_eq_getElem?, getElem?_live, top?]
  by_cases h : s.depth = 0
  · simp [h]
  · rw [if_neg h, if_pos (Nat.pos_of_ne_zero h)]
    rfl

/-- A push succeeds exactly when the list is not full. -/
theorem push_cases (w : Word) (s : Stack) :
    (s.live.length < segmentSize ∧ ∃ t, push w s = .ok () t ∧ t.live = w :: s.live) ∨
      (s.live.length = segmentSize ∧ push w s = .error .stackOverflow s) := by
  have hle := s.depth_le
  by_cases h : s.depth < segmentSize
  · have hok : ∃ t, push w s = .ok () t := ⟨_, by rw [push, dif_pos h]⟩
    obtain ⟨t, ht⟩ := hok
    exact .inl ⟨by simpa using h, t, ht, live_of_push ht⟩
  · refine .inr ⟨?_, by rw [push, dif_neg h]⟩
    rw [length_live]
    omega

/-- A pop succeeds exactly when the list is not empty. -/
theorem pop_cases (s : Stack) :
    (∃ w t, pop s = .ok w t ∧ s.live = w :: t.live) ∨
      (s.live = [] ∧ pop s = .error .stackUnderflow s) := by
  by_cases h : s.depth = 0
  · exact .inr ⟨List.eq_nil_of_length_eq_zero (by simpa using h), by rw [pop, if_pos h]⟩
  · have hok : ∃ w t, pop s = .ok w t := ⟨_, _, by rw [pop, if_neg h]⟩
    obtain ⟨w, t, ht⟩ := hok
    exact .inl ⟨w, t, ht, live_of_pop ht⟩

/-- A swap succeeds exactly when its distance is below the length of the list. -/
theorem swap_cases (n : Word) (s : Stack) :
    (n.toNat < s.live.length ∧ ∃ t, swap n s = .ok () t ∧
      t.live = ListMachine.exchanged n.toNat s.live) ∨
    (s.live.length ≤ n.toNat ∧ swap n s = .error (.stackIndexOutOfRange n s.live.length) s) := by
  by_cases h : n.toNat < s.depth
  · have hok : ∃ t, swap n s = .ok () t := ⟨_, by rw [swap, if_pos h]⟩
    obtain ⟨t, ht⟩ := hok
    exact .inl ⟨by simpa using h, t, ht, live_of_swap ht⟩
  · refine .inr ⟨by simpa using h, ?_⟩
    rw [swap, if_neg h, length_live]

end Stack

namespace Machine

/-- The machine as its live words show it. -/
def view (m : Machine) : ListMachine :=
  ⟨m.code, m.data, m.stack.live, m.general, m.ip, m.stack.length_live_le⟩

/-- The view depends on the stack through its live words only. -/
theorem view_withStack (m : Machine) {t : Stack} {ws : List Word} (h : t.live = ws)
    (hle : ws.length ≤ segmentSize) :
    view { m with stack := t } = { m.view with stack := ws, stack_le := hle } := by
  subst h
  rfl

/-- An action on the stack that succeeds changes the stack of the machine. -/
theorem onStack_of_ok {α : Type} {act : Stack.Op α} {m : Machine} {x : α} {t : Stack}
    (h : act m.stack = .ok x t) : onStack act m = .ok x { m with stack := t } := by
  rw [onStack_eq, h, mapState_ok]

/-- So does one that faults. -/
theorem onStack_of_error {α : Type} {act : Stack.Op α} {m : Machine} {e : Fault} {t : Stack}
    (h : act m.stack = .error e t) : onStack act m = .error e { m with stack := t } := by
  rw [onStack_eq, h, mapState_error]

/-! ## The stack's operations -/

/-- A push on the slots is a push on the list. -/
theorem commutes_push (w : Word) (m : Machine) :
    Commutes view (push w) (ListMachine.push w) m := by
  unfold Commutes push ListMachine.push
  rcases Stack.push_cases w m.stack with ⟨hlt, t, hs, ht⟩ | ⟨hfull, hs⟩
  · have hlt' : m.view.stack.length < segmentSize := hlt
    rw [onStack_of_ok hs, mapState_ok, view_withStack m ht hlt, dif_pos hlt']
    rfl
  · have hnot : ¬ m.view.stack.length < segmentSize := Nat.not_lt.2 (Nat.le_of_eq hfull.symm)
    rw [onStack_of_error hs, mapState_error, dif_neg hnot]

/-- A pop off the slots is a pop off the list. -/
theorem commutes_pop (m : Machine) : Commutes view pop ListMachine.pop m := by
  unfold Commutes pop ListMachine.pop
  rcases Stack.pop_cases m.stack with ⟨w, t, hs, ht⟩ | ⟨hempty, hs⟩
  · have hhead : m.view.stack.head? = some w := by simp [view, ht]
    have htail : t.live = m.view.stack.tail := by simp [view, ht]
    rw [onStack_of_ok hs, mapState_ok, view_withStack m htail, hhead]
  · have hhead : m.view.stack.head? = none := by simp [view, hempty]
    rw [onStack_of_error hs, mapState_error, hhead]

/-- An exchange of slots is an exchange of words on the list. -/
theorem commutes_exchange (n : Word) (m : Machine) :
    Commutes view (onStack (Stack.swap n)) (ListMachine.exchange n) m := by
  unfold Commutes ListMachine.exchange
  rcases Stack.swap_cases n m.stack with ⟨hlt, t, hs, ht⟩ | ⟨hle, hs⟩
  · have hlt' : n.toNat < m.view.stack.length := hlt
    rw [onStack_of_ok hs, mapState_ok, view_withStack m ht, if_pos hlt']
    rfl
  · have hnot : ¬ n.toNat < m.view.stack.length := Nat.not_lt.2 hle
    rw [onStack_of_error hs, mapState_error, if_neg hnot]
    rfl

/-! ## Registers -/

/-- The stack pointer reads the same on the list. -/
theorem pointer_view (m : Machine) : m.view.pointer = m.stack.pointer := by
  simp [ListMachine.pointer, view, Stack.pointer]

/-- Every register reads the same on the list, the stack pointer included. -/
theorem reg_view (m : Machine) (i : RegIndex) : m.view.reg i = m.reg i := by
  unfold ListMachine.reg reg
  rw [pointer_view]
  rfl

/-- Writing a register other than the stack pointer commutes with the view. -/
theorem setReg_view (m : Machine) {i : RegIndex} (h : i ≠ .stackPointer) (w : Word) :
    m.view.setReg i w = (m.setReg i w).view := by
  unfold ListMachine.setReg setReg
  split
  · rfl
  · -- by `h`, the entry above the general ones is the instruction pointer
    rfl

/-! ## Operands -/

/-- An instruction that takes no operand. -/
theorem commutes_take_zero {α : Type} {act : Op α} {k : List Word → ListMachine.Op α} {m : Machine}
    (h : Commutes view act (k []) m) : Commutes view act (ListMachine.take 0 >>= k) m := h

/-- Operands are popped one by one. -/
theorem take_succ_bind {α : Type} (n : Nat) (k : List Word → ListMachine.Op α) :
    ListMachine.take (n + 1) >>= k =
      ListMachine.pop >>= fun w => ListMachine.take n >>= fun ws => k (w :: ws) := by
  simp only [ListMachine.take, bind_assoc, pure_bind]

/-- The first of several operands. -/
theorem commutes_take_succ {α : Type} {n : Nat} {act : Word → Op α}
    {k : List Word → ListMachine.Op α} {m : Machine}
    (h : ∀ w t, Commutes view (act w) (ListMachine.take n >>= fun ws => k (w :: ws)) t) :
    Commutes view (pop >>= act) (ListMachine.take (n + 1) >>= k) m := by
  rw [take_succ_bind]
  exact (commutes_pop m).bind fun w t _ => h w t

/-- An instruction with one operand and one result. -/
theorem commutes_unary {f : Word → Word} {k : List Word → ListMachine.Op Unit} {m : Machine}
    (h : ∀ a, k [a] = ListMachine.push (f a)) :
    Commutes view (unary f) (ListMachine.take 1 >>= k) m := by
  refine commutes_take_succ fun a t => commutes_take_zero ?_
  rw [h]
  exact commutes_push (f a) t

/-- An instruction with two operands and one result. -/
theorem commutes_binary {f : Word → Word → Word} {k : List Word → ListMachine.Op Unit} {m : Machine}
    (h : ∀ a b, k [b, a] = ListMachine.push (f a b)) :
    Commutes view (binary f) (ListMachine.take 2 >>= k) m := by
  refine commutes_take_succ fun b t => commutes_take_succ fun a t => commutes_take_zero ?_
  rw [h]
  exact commutes_push (f a b) t

/-! ## Opcodes -/

/-- A word taken off the list can be put back. -/
theorem push_of_pop {m n : ListMachine} {w : Word} (h : ListMachine.pop m = .ok w n) :
    ListMachine.push w n = .ok () m := by
  obtain ⟨code, data, stack, general, ip, hle⟩ := m
  cases stack with
  | nil => simp [ListMachine.pop] at h
  | cons a ws =>
    simp only [ListMachine.pop, List.head?_cons, List.tail_cons, EStateM.Result.ok.injEq] at h
    obtain ⟨rfl, rfl⟩ := h
    have hlt : ws.length < segmentSize := hle
    rw [ListMachine.push, dif_pos hlt]

/-- Copying the top word is taking it and putting it back twice; the first of the two always has
room. -/
theorem commutes_dup (m : Machine) :
    Commutes view (do push (← onStack Stack.top))
      (ListMachine.take 1 >>= ListMachine.effect .dup) m := by
  unfold Commutes
  rw [take_succ_bind]
  change (ListMachine.pop >>= fun a => do ListMachine.push a; ListMachine.push a) m.view =
    mapState view ((onStack Stack.top >>= push) m)
  -- the slots are only looked at where the list is popped, so the two meet after the first push
  have hpop : ListMachine.pop m.view = mapState view (pop m) := commutes_pop m
  rcases Stack.pop_cases m.stack with ⟨w, t, hs, ht⟩ | ⟨hempty, hs⟩
  · have htop : Stack.top m.stack = .ok w m.stack := by
      rw [Stack.top, Stack.top?_eq_head?, ht, List.head?_cons]
    rw [pop, onStack_of_ok hs, mapState_ok] at hpop
    calc (ListMachine.pop >>= fun a => do ListMachine.push a; ListMachine.push a) m.view
        = (do ListMachine.push w; ListMachine.push w) (view { m with stack := t }) :=
          bind_of_ok hpop
      _ = ListMachine.push w m.view := bind_of_ok (push_of_pop hpop)
      _ = mapState view (push w m) := commutes_push w m
      _ = mapState view ((onStack Stack.top >>= push) m) := by
          rw [bind_of_ok (onStack_of_ok htop)]
  · -- without a word on top, both stop
    have htop : Stack.top m.stack = .error .stackUnderflow m.stack := by
      rw [Stack.top, Stack.top?_eq_head?, hempty, List.head?_nil]
    rw [pop, onStack_of_error hs, mapState_error] at hpop
    rw [bind_of_error hpop, bind_of_error (onStack_of_error htop), mapState_error]

/-- Every opcode that is served by the machine alone commutes with the view, but for the exchange of
register 0 with the stack pointer. -/
theorem commutes_exec {op : Opcode} (h : op ≠ .regSwap) (hint : op ≠ .interrupt) (m : Machine) :
    Commutes view (exec op) (ListMachine.take op.operands >>= ListMachine.effect op) m := by
  -- for each opcode, the operands come off first and then the same effect follows on both sides
  cases op with
  | nop | reset | halt => exact commutes_take_zero (commutes_pure ())
  | regSwap => exact absurd rfl h
  | interrupt => exact absurd rfl hint
  | dup => exact commutes_dup m
  | pushImm =>
    refine commutes_take_zero (commutes_get_bind ((commutes_push _ m).bind fun _ t _ => ?_))
    exact commutes_modify rfl
  | call =>
    refine commutes_take_succ fun target t => commutes_take_zero (commutes_modify ?_)
    rw [ListMachine.jumpTo, setReg_view t (by decide)]
    rfl
  | ret =>
    refine commutes_take_zero (commutes_modify ?_)
    simp only [reg_view]
    rfl
  | load =>
    refine commutes_take_succ fun a t => commutes_take_zero (commutes_get_bind ?_)
    exact commutes_push _ t
  | store =>
    refine commutes_take_succ fun w t => commutes_take_succ fun a t => commutes_take_zero ?_
    exact commutes_modify rfl
  | add | sub | mul | div | and | or | xor | cmpSigned | cmpUnsigned =>
    exact commutes_binary fun a b => rfl
  | mod =>
    refine commutes_take_succ fun b t => commutes_take_succ fun a t => commutes_take_zero ?_
    change Commutes view (if b = 0 then _ else _) (if b = 0 then _ else _) t
    split
    · exact commutes_throw _
    · exact commutes_push _ t
  | not | neg => exact commutes_unary fun a => rfl
  | swap => exact commutes_take_succ fun n t => commutes_take_zero (commutes_exchange n t)
  | jump => exact commutes_take_succ fun target t => commutes_take_zero (commutes_modify rfl)
  | jumpIfZero =>
    refine commutes_take_succ fun target t => commutes_take_succ fun c t => commutes_take_zero ?_
    change Commutes view (if c = 0 then _ else _) (if c = 0 then _ else _) t
    split
    · exact commutes_modify rfl
    · exact commutes_pure ()

/-! ## Register operations -/

/-- An operation that sets a register from the top word, other than the stack pointer. -/
theorem commutes_updateReg {i : RegIndex} (hi : i ≠ .stackPointer) {f : Word → Word → Word}
    {k : List Word → ListMachine.Op Unit} {m : Machine}
    (h : ∀ w, k [w] = modify fun m => m.setReg i (f (m.reg i) w)) :
    Commutes view (updateReg i f) (ListMachine.take 1 >>= k) m := by
  refine commutes_take_succ fun w t => commutes_take_zero ?_
  rw [h]
  apply commutes_modify
  rw [reg_view, setReg_view t hi]

/-- Every register operation commutes with the view, but for those that write register 31. -/
theorem commutes_execRegister {op : RegisterOp} {i : RegIndex}
    (h : i = .stackPointer → op = .mask ∨ op = .push) (m : Machine) :
    Commutes view (execRegister op i)
      (ListMachine.take op.operands >>= ListMachine.registerEffect op i) m := by
  cases op with
  | mask =>
    refine commutes_take_succ fun w t => commutes_take_zero (commutes_get_bind ?_)
    rw [reg_view]
    exact commutes_push _ t
  | push =>
    refine commutes_take_zero (commutes_get_bind ?_)
    rw [reg_view]
    exact commutes_push _ m
  | shift | rotate =>
    have hi : i ≠ .stackPointer := fun e => by simpa using h e
    apply commutes_updateReg hi
    intro w
    rfl
  | pop =>
    have hi : i ≠ .stackPointer := fun e => by simpa using h e
    exact commutes_updateReg (f := fun _ w => w) hi fun w => rfl
  | inc | dec =>
    have hi : i ≠ .stackPointer := fun e => by simpa using h e
    refine commutes_take_zero (commutes_modify ?_)
    rw [reg_view, setReg_view m hi]

end Machine

end WordMachine

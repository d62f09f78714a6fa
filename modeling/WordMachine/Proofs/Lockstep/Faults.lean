import Mathlib.Data.List.Basic
import WordMachine.Proofs.Lockstep.Steps

/-!
# When the list faults

Which actions end in a fault (`Faults`), and in which. A sequence faults in its first action or
where that one leads (`faults_bind`), so the faults of an instruction follow from those of the three
operations on the list: a push faults exactly on a full list, a pop exactly on an empty one, an
exchange exactly when the list does not reach that far. `faults_take` says when operands are
missing; `faults_effect` and `faults_registerEffect` say what can go wrong once they are off the
list.
-/

namespace WordMachine

/-- The fault is one of the stack's. -/
def Fault.IsStack : Fault → Prop
  | .stackOverflow | .stackUnderflow | .stackIndexOutOfRange _ _ => True
  | _ => False

/-- The action ends in a fault. -/
def Faults {ε σ α : Type} (act : EStateM ε σ α) (s : σ) (e : ε) : Prop := ∃ t, act s = .error e t

section

variable {ε σ α β : Type} {s : σ} {e : ε}

/-- An action that gives a result does not fault. -/
theorem faults_of_ok {act : EStateM ε σ α} {x : α} {t : σ} (h : act s = .ok x t) :
    ¬ Faults act s e := by
  rintro ⟨t', ht'⟩
  rw [h] at ht'
  nomatch ht'

/-- An action that faults does so in one way. -/
theorem faults_of_error {act : EStateM ε σ α} {e' : ε} {t : σ} (h : act s = .error e' t) :
    Faults act s e ↔ e = e' := by
  refine ⟨?_, fun he => ⟨t, he ▸ h⟩⟩
  rintro ⟨t', ht'⟩
  rw [h] at ht'
  exact (EStateM.Result.error.inj ht').1.symm

/-- Giving a result is no fault. -/
theorem not_faults_pure (x : α) : ¬ Faults (pure x : EStateM ε σ α) s e := faults_of_ok rfl

/-- Changing the state is no fault. -/
theorem not_faults_modify (g : σ → σ) : ¬ Faults (modify g : EStateM ε σ Unit) s e :=
  faults_of_ok rfl

/-- A fault thrown is that fault. -/
theorem faults_throw {e' : ε} : Faults (throw e' : EStateM ε σ α) s e ↔ e = e' :=
  faults_of_error rfl

/-- A sequence whose first action succeeds faults where the second does. -/
theorem faults_bind_of_ok {act : EStateM ε σ α} {k : α → EStateM ε σ β} {x : α} {t : σ}
    (h : act s = .ok x t) : Faults (act >>= k) s e ↔ Faults (k x) t e := by
  unfold Faults
  rw [bind_of_ok h]

/-- A sequence whose first action faults has that fault. -/
theorem faults_bind_of_error {act : EStateM ε σ α} {k : α → EStateM ε σ β} {e' : ε} {t : σ}
    (h : act s = .error e' t) : Faults (act >>= k) s e ↔ e = e' :=
  faults_of_error (bind_of_error h)

/-- An action that goes on with the state it is in. -/
theorem faults_get_bind {k : σ → EStateM ε σ β} : Faults (get >>= k) s e ↔ Faults (k s) s e :=
  faults_bind_of_ok rfl

/-- A sequence faults in its first action, or in the second where the first led. -/
theorem faults_bind {act : EStateM ε σ α} {k : α → EStateM ε σ β} :
    Faults (act >>= k) s e ↔ Faults act s e ∨ ∃ x t, act s = .ok x t ∧ Faults (k x) t e := by
  cases h : act s with
  | ok x t =>
    rw [faults_bind_of_ok h]
    constructor
    · exact fun hk => .inr ⟨x, t, rfl, hk⟩
    · rintro (hf | ⟨y, u, hyu, hk⟩)
      · exact absurd hf (faults_of_ok h)
      · obtain ⟨rfl, rfl⟩ := EStateM.Result.ok.inj hyu
        exact hk
  | error e' t =>
    rw [faults_bind_of_error h, faults_of_error h]
    constructor
    · exact .inl
    · rintro (he | ⟨y, u, hyu, -⟩)
      · exact he
      · nomatch hyu

/-- A sequence whose second action cannot fault. -/
theorem faults_bind_of_not {act : EStateM ε σ α} {k : α → EStateM ε σ β}
    (h : ∀ x t, ¬ Faults (k x) t e) : Faults (act >>= k) s e ↔ Faults act s e := by
  rw [faults_bind]
  refine ⟨?_, .inl⟩
  rintro (hf | ⟨x, t, -, hk⟩)
  · exact hf
  · exact absurd hk (h x t)

/-- Actions that commute end in the same faults. -/
theorem Commutes.faults_iff {τ : Type} {f : σ → τ} {act : EStateM ε σ α} {act' : EStateM ε τ α}
    (h : Commutes f act act' s) : Faults act s e ↔ Faults act' (f s) e := by
  have h' : act' (f s) = mapState f (act s) := h
  constructor
  · rintro ⟨t, ht⟩
    exact ⟨f t, by rw [h', ht, mapState_error]⟩
  · rintro ⟨t, ht⟩
    obtain ⟨s', hs', -⟩ := mapState_eq_error (h'.symm.trans ht)
    exact ⟨s', hs'⟩

end

/-! ## The list's operations -/

namespace ListMachine

variable {m : ListMachine} {e : Fault}

/-- A push faults exactly when the list is full. -/
theorem faults_push {w : Word} :
    Faults (push w) m e ↔ e = .stackOverflow ∧ m.stack.length = segmentSize := by
  have hle := m.stack_le
  by_cases h : m.stack.length < segmentSize
  · have hok : ∃ t, push w m = .ok () t := ⟨_, by rw [push, dif_pos h]⟩
    obtain ⟨t, ht⟩ := hok
    refine iff_of_false (faults_of_ok ht) fun hf => ?_
    omega
  · have herr : push w m = .error .stackOverflow m := by rw [push, dif_neg h]
    rw [faults_of_error herr]
    exact ⟨fun he => ⟨he, by omega⟩, fun hf => hf.1⟩

/-- A pop faults exactly when the list is empty. -/
theorem faults_pop : Faults pop m e ↔ e = .stackUnderflow ∧ m.stack = [] := by
  cases h : m.stack with
  | nil =>
    rw [faults_of_error (pop_of_nil h)]
    simp
  | cons w ws => exact iff_of_false (faults_of_ok (pop_of_cons h)) fun hf => by simp at hf

/-- An exchange faults exactly when the list does not reach that far. -/
theorem faults_exchange {n : Word} :
    Faults (exchange n) m e ↔
      e = .stackIndexOutOfRange n m.stack.length ∧ m.stack.length ≤ n.toNat := by
  by_cases h : n.toNat < m.stack.length
  · have hok : ∃ t, exchange n m = .ok () t := ⟨_, by rw [exchange, if_pos h]⟩
    obtain ⟨t, ht⟩ := hok
    refine iff_of_false (faults_of_ok ht) fun hf => ?_
    omega
  · have herr : exchange n m = .error (.stackIndexOutOfRange n m.stack.length) m := by
      rw [exchange, if_neg h]
    rw [faults_of_error herr]
    exact ⟨fun he => ⟨he, by omega⟩, fun hf => hf.1⟩

/-- Taking operands that are there gives them and leaves the rest. -/
theorem take_of_le {n : Nat} (h : n ≤ m.stack.length) :
    take n m = .ok (m.stack.take n) (m.dropWords n) := by
  -- by induction on the number of operands; the first is popped and the others come from the rest
  induction n generalizing m with
  | zero => rfl
  | succ n ih =>
    cases hs : m.stack with
    | nil => simp [hs] at h
    | cons w ws =>
      have hdrop : (m.dropWords 1).stack = ws := by simp [dropWords, hs]
      have hrest : take n (m.dropWords 1) = .ok (ws.take n) ((m.dropWords 1).dropWords n) := by
        rw [ih (by simpa [hdrop, hs] using h), hdrop]
      rw [take, bind_of_ok (pop_of_cons hs), bind_of_ok hrest]
      simp [dropWords]
      rfl

/-- Taking operands faults exactly when they are not all there. -/
theorem faults_take {n : Nat} :
    Faults (take n) m e ↔ e = .stackUnderflow ∧ m.stack.length < n := by
  induction n generalizing m with
  | zero => exact iff_of_false (not_faults_pure _) fun hf => absurd hf.2 (Nat.not_lt_zero _)
  | succ n ih =>
    cases hs : m.stack with
    | nil =>
      rw [take, faults_bind_of_error (pop_of_nil hs)]
      simp
    | cons w ws =>
      have hdrop : (m.dropWords 1).stack = ws := by simp [dropWords, hs]
      rw [take, faults_bind_of_ok (pop_of_cons hs), faults_bind_of_not fun _ _ => not_faults_pure _,
        ih, hdrop]
      simp

/-- Without its operands, nothing that takes them gets further. -/
theorem faults_take_bind_of_lt {α : Type} {n : Nat} {k : List Word → Op α}
    (h : m.stack.length < n) : Faults (take n >>= k) m e ↔ e = .stackUnderflow := by
  obtain ⟨t, ht⟩ : Faults (take n) m .stackUnderflow := faults_take.2 ⟨rfl, h⟩
  exact faults_bind_of_error ht

/-! ## Instructions -/

/-- A push does not fault while there is room. -/
theorem not_faults_push {w : Word} (h : m.stack.length < segmentSize) : ¬ Faults (push w) m e := by
  rw [faults_push]
  rintro ⟨-, hfull⟩
  omega

/-- Copying a word has room for the first of its two pushes, which only puts the word back. -/
theorem faults_effect_dup {a : Word} (h : m.stack.length < segmentSize) :
    Faults (effect .dup [a]) m e ↔ e = .stackOverflow ∧ m.stack.length + 1 = segmentSize := by
  have hpush : push a m = .ok () { m with stack := a :: m.stack, stack_le := h } := by
    rw [push, dif_pos h]
  change Faults (push a >>= fun _ => push a) m e ↔ _
  rw [faults_bind_of_ok hpush, faults_push]
  rfl

/-- Once the operands are off the list, an opcode faults on the stack only for want of room, having
taken fewer words than it leaves, or for a swap that reaches too far. -/
theorem faults_effect {op : Opcode} {ws : List Word} (hws : ws.length = op.operands)
    (hroom : m.stack.length + op.operands ≤ segmentSize) (he : e.IsStack) :
    Faults (effect op ws) m e ↔
      (e = .stackOverflow ∧ (op = .dup ∨ op = .pushImm) ∧
        m.stack.length + op.operands = segmentSize) ∨
      (op = .swap ∧ ∃ n, ws = [n] ∧ e = .stackIndexOutOfRange n m.stack.length ∧
        m.stack.length ≤ n.toNat) := by
  cases op with
  | nop | reset | halt | regSwap | ret =>
    obtain rfl := List.eq_nil_of_length_eq_zero hws
    exact iff_of_false (faults_of_ok rfl) (by simp)
  | interrupt | call | jump =>
    obtain ⟨a, rfl⟩ := List.length_eq_one_iff.1 hws
    exact iff_of_false (faults_of_ok rfl) (by simp)
  | store =>
    obtain ⟨b, a, rfl⟩ := List.length_eq_two.1 hws
    exact iff_of_false (faults_of_ok rfl) (by simp)
  | dup =>
    obtain ⟨a, rfl⟩ := List.length_eq_one_iff.1 hws
    rw [faults_effect_dup hroom]
    simp [Opcode.operands]
  | pushImm =>
    obtain rfl := List.eq_nil_of_length_eq_zero hws
    -- moving past the two bytes of the word cannot fail
    change Faults (push _ >>= fun _ => modify _) m e ↔ _
    rw [faults_bind_of_not fun _ _ => not_faults_modify _, faults_push]
    simp [Opcode.operands]
  | load | not | neg =>
    -- what is pushed goes where an operand was
    obtain ⟨a, rfl⟩ := List.length_eq_one_iff.1 hws
    have hlt : m.stack.length < segmentSize := hroom
    exact iff_of_false (not_faults_push hlt) (by simp)
  | add | sub | mul | div | and | or | xor | cmpSigned | cmpUnsigned =>
    obtain ⟨b, a, rfl⟩ := List.length_eq_two.1 hws
    have hlt : m.stack.length < segmentSize := Nat.lt_of_succ_le (Nat.le_of_succ_le hroom)
    exact iff_of_false (not_faults_push hlt) (by simp)
  | mod =>
    obtain ⟨b, a, rfl⟩ := List.length_eq_two.1 hws
    have hlt : m.stack.length < segmentSize := Nat.lt_of_succ_le (Nat.le_of_succ_le hroom)
    -- division by zero is a fault, but not one of the stack
    refine iff_of_false ?_ (by simp)
    change ¬ Faults (if b = 0 then throw .moduloByZero else push _) m e
    split
    · rw [faults_throw]
      rintro rfl
      exact he
    · exact not_faults_push hlt
  | jumpIfZero =>
    obtain ⟨target, c, rfl⟩ := List.length_eq_two.1 hws
    refine iff_of_false ?_ (by simp)
    change ¬ Faults (if c = 0 then modify _ else pure ()) m e
    split
    · exact not_faults_modify _
    · exact not_faults_pure _
  | swap =>
    obtain ⟨n, rfl⟩ := List.length_eq_one_iff.1 hws
    change Faults (exchange n) m e ↔ _
    rw [faults_exchange]
    simp

/-- Once its operand is off the list, a register operation faults on the stack only for want of
room. -/
theorem faults_registerEffect {op : RegisterOp} {i : RegIndex} {ws : List Word}
    (hws : ws.length = op.operands) (hroom : m.stack.length + op.operands ≤ segmentSize) :
    Faults (registerEffect op i ws) m e ↔
      e = .stackOverflow ∧ op = .push ∧ m.stack.length + op.operands = segmentSize := by
  cases op with
  | inc | dec =>
    obtain rfl := List.eq_nil_of_length_eq_zero hws
    exact iff_of_false (faults_of_ok rfl) (by simp)
  | shift | rotate | pop =>
    obtain ⟨a, rfl⟩ := List.length_eq_one_iff.1 hws
    exact iff_of_false (faults_of_ok rfl) (by simp)
  | mask =>
    obtain ⟨a, rfl⟩ := List.length_eq_one_iff.1 hws
    have hlt : m.stack.length < segmentSize := hroom
    exact iff_of_false (not_faults_push hlt) (by simp)
  | push =>
    obtain rfl := List.eq_nil_of_length_eq_zero hws
    change Faults (push _) m e ↔ _
    rw [faults_push]
    simp [RegisterOp.operands]

end ListMachine

end WordMachine

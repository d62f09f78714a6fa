import WordMachine.Proofs.Vm.Requests

/-!
# What an operation leaves alone

An operation of the machine writes the stack, and apart from that one register or one data cell at
most. `Within cells target m m'` says what stays: the code, the data outside of `cells`, every
register but `target` and the two pointers, and the stack slots that are live neither before nor
after. `within_exec` and `within_execRegister` say it of every operation that succeeds, with the
cell of a store and the register that the instruction writes (`Instruction.target?`).

The last part is why frames do not compose: a word pushed and popped again leaves its slot changed
above both depths. No operation does that. Each pops first, which moves the depth and keeps the
slots (`Within.of_spend`), and then pushes once at most.
-/

namespace WordMachine

/-- The register that an instruction writes, the two pointers apart. -/
def Instruction.target? : Instruction → Option RegIndex
  | .extended .call => some .returnAddress
  | .extended .regSwap => some .zero
  | .register .shift reg | .register .rotate reg | .register .pop reg
  | .register .inc reg | .register .dec reg => some (Vm.registerIndex reg)
  | _ => none

namespace Machine

/-- The machine has changed inside of some data cells and a register at most, apart from its stack
and instruction pointer, and kept every slot that is live neither before nor after. -/
structure Within (cells : Word → Prop) (target : Option RegIndex) (m m' : Machine) : Prop where
  code : m'.code = m.code
  data : ∀ a, ¬ cells a → m'.data.get a = m.data.get a
  reg : ∀ i, i ≠ .stackPointer → i ≠ .instructionPointer → target ≠ some i → m'.reg i = m.reg i
  slots : ∀ a : Word, m.stack.depth ≤ a.toNat → m'.stack.depth ≤ a.toNat →
    m'.stack.slots.get a = m.stack.slots.get a

variable {α : Type} {cells cells' : Word → Prop} {target : Option RegIndex} {m m' : Machine}

/-- A machine that has not changed has changed within anything. -/
theorem within_refl (m : Machine) : Within cells target m m :=
  ⟨rfl, fun _ _ => rfl, fun _ _ _ _ => rfl, fun _ _ _ => rfl⟩

/-- What stays within some cells stays within more cells. -/
theorem Within.mono (h : Within cells target m m') (hcells : ∀ a, cells a → cells' a) :
    Within cells' target m m' :=
  ⟨h.code, fun a ha => h.data a fun hin => ha (hcells a hin), h.reg, h.slots⟩

/-- The stack and the instruction pointer show in the two pointers only. -/
theorem reg_withStackIp (m : Machine) (stack : Stack) (ip : Word) {i : RegIndex}
    (hsp : i ≠ .stackPointer) (hip : i ≠ .instructionPointer) :
    ({ m with stack, ip } : Machine).reg i = m.reg i := by
  have general : ∀ i : RegIndex, i ≠ .stackPointer → i ≠ .instructionPointer → i.val < 31 := by
    decide
  simp only [reg, dif_pos (general i hsp hip)]

/-- Words popped first count for nothing. -/
theorem Within.of_spend {k : Nat} (h : Within cells target (m.spend k) m') :
    Within cells target m m' where
  code := h.code
  data := h.data
  reg i hsp hip hi := (h.reg i hsp hip hi).trans (reg_withStackIp m _ m.ip hsp hip)
  slots a hold hnew := h.slots a (Nat.le_trans (Nat.sub_le _ _) hold) hnew

/-- Nor does the instruction pointer. -/
theorem Within.withIp (h : Within cells target m m') (ip : Word) :
    Within cells target m { m' with ip } where
  code := h.code
  data := h.data
  reg i hsp hip hi := (reg_withStackIp m' m'.stack ip hsp hip).trans (h.reg i hsp hip hi)
  slots := h.slots

/-- A push writes the slot that it makes live. -/
theorem within_push {w : Word} (h : push w m = .ok () m') : Within cells target m m' := by
  obtain ⟨s, hpush, rfl⟩ := onStack_eq_ok h
  refine ⟨rfl, fun _ _ => rfl, fun i hsp hip _ => reg_withStackIp m s m.ip hsp hip, ?_⟩
  intro a hold hnew
  unfold Stack.push at hpush
  split at hpush
  · rename_i hlt
    obtain ⟨-, rfl⟩ := EStateM.Result.ok.inj hpush
    -- the slot that is written is the one that becomes live
    refine Segment.get_set_of_ne _ _ fun heq => ?_
    have hval : m.stack.depth = a.toNat := by
      rw [← heq]
      exact (UInt16.toNat_ofNat_of_lt' hlt).symm
    have hdepth : m.stack.depth + 1 ≤ a.toNat := hnew
    omega
  · cases hpush

/-- Exchanging two live words leaves the other slots alone. -/
theorem within_swap {n : Word} (h : onStack (Stack.swap n) m = .ok () m') :
    Within cells target m m' := by
  obtain ⟨s, hswap, rfl⟩ := onStack_eq_ok h
  refine ⟨rfl, fun _ _ => rfl, fun i hsp hip _ => reg_withStackIp m s m.ip hsp hip, ?_⟩
  intro a hold hnew
  unfold Stack.swap at hswap
  split at hswap
  · rename_i hlt
    obtain ⟨-, rfl⟩ := EStateM.Result.ok.inj hswap
    -- both slots are live, and the slot in question is not
    have hslot (k : Nat) (hk : k < m.stack.depth) :
        UInt16.ofNat (m.stack.depth - 1 - k) ≠ a := by
      intro heq
      have hval := Stack.toNat_slot hk
      rw [heq] at hval
      omega
    have hlower := hslot n.toNat hlt
    have hupper := hslot 0 (by omega)
    exact (Segment.get_set_of_ne _ _ hlower).trans (Segment.get_set_of_ne _ _ hupper)
  · cases hswap

/-- Writing a register keeps all but that register, and the slots of the stack. -/
theorem within_setReg {i : RegIndex} (w : Word)
    (hi : i = .stackPointer ∨ i = .instructionPointer ∨ target = some i) :
    Within cells target m (m.setReg i w) := by
  -- a register that is not among the three named is another one
  have hreg : ∀ j, j ≠ .stackPointer → j ≠ .instructionPointer → target ≠ some j →
      (m.setReg i w).reg j = m.reg j := by
    intro j hsp hip hj
    refine reg_setReg_of_ne m w ?_
    rintro rfl
    rcases hi with rfl | rfl | rfl
    · exact hsp rfl
    · exact hip rfl
    · exact hj rfl
  have hrest : (m.setReg i w).code = m.code ∧ (m.setReg i w).data = m.data ∧
      (m.setReg i w).stack.slots = m.stack.slots := by
    unfold setReg
    split
    · exact ⟨rfl, rfl, rfl⟩
    · split <;> exact ⟨rfl, rfl, rfl⟩
  obtain ⟨hcode, hdata, hslots⟩ := hrest
  exact ⟨hcode, fun a _ => by rw [hdata], hreg, fun a _ _ => by rw [hslots]⟩

/-! ## Actions -/

/-- Where the action succeeds, it stays within some cells and a register. -/
def StaysWithin (cells : Word → Prop) (target : Option RegIndex) (act : Op α) (m : Machine) :
    Prop :=
  ∀ x m', act m = .ok x m' → Within cells target m m'

/-- What follows a pop that succeeds starts with the top word. -/
theorem pop_bind_eq_ok {k : Word → Op α} {x : α} (h : (pop >>= k) m = .ok x m') :
    ∃ w, m.stack.live = w :: (m.spend 1).stack.live ∧ k w (m.spend 1) = .ok x m' := by
  rcases m.pop_cases with ⟨-, hpop⟩ | ⟨w, hlive, hpop⟩
  · rw [bind_of_error hpop] at h
    cases h
  · rw [bind_of_ok hpop] at h
    exact ⟨w, hlive, h⟩

/-- A pop in front of an action leaves no trace of its own. -/
theorem staysWithin_pop_bind {k : Word → Op α}
    (h : ∀ w, m.stack.live = w :: (m.spend 1).stack.live →
      StaysWithin cells target (k w) (m.spend 1)) : StaysWithin cells target (pop >>= k) m := by
  intro x m' hok
  obtain ⟨w, hlive, hk⟩ := pop_bind_eq_ok hok
  exact (h w hlive x m' hk).of_spend

/-- A push stays within no cells and no register. -/
theorem staysWithin_push (w : Word) : StaysWithin cells target (push w) m :=
  fun _ _ h => within_push h

/-- A change of the machine stays within what the function behind it does. -/
theorem staysWithin_modify {f : Machine → Machine} (h : Within cells target m (f m)) :
    StaysWithin cells target (modify f) m := by
  intro x m' hok
  obtain ⟨-, rfl⟩ := EStateM.Result.ok.inj hok
  exact h

/-- Doing nothing stays within anything. -/
theorem staysWithin_pure (x : α) : StaysWithin cells target (pure x) m := by
  intro y m' hok
  obtain ⟨-, rfl⟩ := EStateM.Result.ok.inj hok
  exact within_refl m

/-- Two pops and a push stay within no cells and no register. -/
theorem staysWithin_binary (f : Word → Word → Word) : StaysWithin cells target (binary f) m :=
  staysWithin_pop_bind fun _ _ => staysWithin_pop_bind fun _ _ => staysWithin_push _

/-- A pop and a push stay within no cells and no register. -/
theorem staysWithin_unary (f : Word → Word) : StaysWithin cells target (unary f) m :=
  staysWithin_pop_bind fun _ _ => staysWithin_push _

/-- A remainder is a word operation like the others where it succeeds. -/
theorem staysWithin_modulo : StaysWithin cells target modulo m := by
  refine staysWithin_pop_bind fun b _ => staysWithin_pop_bind fun a _ => ?_
  split
  · intro x m' hok
    cases hok
  · exact staysWithin_push _

/-- Setting a register from the top word stays within that register. -/
theorem staysWithin_updateReg (i : RegIndex) (f : Word → Word → Word) :
    StaysWithin cells (some i) (updateReg i f) m :=
  staysWithin_pop_bind fun _ _ => staysWithin_modify (within_setReg _ (.inr (.inr rfl)))

/-- An opcode writes the data cell whose address a store pops, and the register that it names. -/
theorem within_exec {op : Opcode} (h : exec op m = .ok () m') :
    Within (fun a => op = .store ∧ ∃ w rest, m.stack.live = w :: a :: rest)
      (Instruction.extended op).target? m m' := by
  -- the statement about actions carries the pops in front of what is done
  revert m'
  suffices hact : StaysWithin (fun a => op = .store ∧ ∃ w rest, m.stack.live = w :: a :: rest)
      (Instruction.extended op).target? (exec op) m from fun {m'} h => hact () m' h
  cases op with
  | nop | interrupt | reset | halt => exact staysWithin_pure ()
  | dup =>
    intro x m' hok
    obtain ⟨w, m₁, htop, hpush⟩ := bind_eq_ok hok
    obtain rfl := eq_of_top htop
    exact within_push hpush
  | pushImm =>
    intro x m' hok
    have hseq : (push m.immediate >>= fun _ => modify fun m => { m with ip := m.ip + 2 }) m =
        .ok () m' := hok
    obtain ⟨_, m₁, hpush, hmove⟩ := bind_eq_ok hseq
    obtain ⟨-, rfl⟩ := EStateM.Result.ok.inj hmove
    exact (within_push hpush).withIp _
  | call =>
    refine staysWithin_pop_bind fun target _ => staysWithin_modify (Within.withIp ?_ _)
    exact within_setReg _ (.inr (.inr rfl))
  | ret => exact staysWithin_modify ((within_refl m).withIp _)
  | load =>
    refine staysWithin_pop_bind fun a _ => ?_
    intro x m' hok
    exact within_push hok
  | store =>
    refine staysWithin_pop_bind fun w h₁ => staysWithin_pop_bind fun a h₂ => staysWithin_modify ?_
    refine ⟨rfl, fun b hb => Segment.get_set_of_ne _ _ ?_, fun _ _ _ _ => rfl, fun _ _ _ => rfl⟩
    rintro rfl
    -- the second word popped is the address of the cell
    refine hb ⟨rfl, w, _, h₁.trans (congrArg _ h₂)⟩
  | add | sub | mul | div | and | or | xor | cmpSigned | cmpUnsigned => exact staysWithin_binary _
  | mod => exact staysWithin_modulo
  | not | neg => exact staysWithin_unary _
  | regSwap =>
    refine staysWithin_modify ?_
    refine ⟨rfl, fun _ _ => rfl, fun i hsp hip hi => ?_, fun _ _ _ => rfl⟩
    -- the register that is exchanged with the stack pointer is the target
    have hzero : RegIndex.zero ≠ i := fun heq => hi (congrArg some heq)
    exact (reg_setReg_of_ne _ _ hsp.symm).trans (reg_setReg_of_ne m _ hzero)
  | swap =>
    refine staysWithin_pop_bind fun n _ => ?_
    intro x m' hok
    exact within_swap hok
  | jump => exact staysWithin_pop_bind fun target _ => staysWithin_modify ((within_refl _).withIp _)
  | jumpIfZero =>
    refine staysWithin_pop_bind fun target _ => staysWithin_pop_bind fun condition _ => ?_
    split
    · exact staysWithin_modify ((within_refl _).withIp _)
    · exact staysWithin_pure ()

/-- A register operation writes no data, and no register but the one that it names. -/
theorem within_execRegister {op : RegisterOp} {reg : UInt8}
    (h : execRegister op (Vm.registerIndex reg) m = .ok () m') :
    Within (fun _ => False) (Instruction.register op reg).target? m m' := by
  revert m'
  suffices hact : StaysWithin (fun _ => False) (Instruction.register op reg).target?
      (execRegister op (Vm.registerIndex reg)) m from fun {m'} h => hact () m' h
  cases op with
  | mask =>
    refine staysWithin_pop_bind fun w _ => ?_
    intro x m' hok
    exact within_push hok
  | push =>
    intro x m' hok
    exact within_push hok
  | shift => exact staysWithin_updateReg _ shifted
  | rotate => exact staysWithin_updateReg _ rotated
  | pop => exact staysWithin_updateReg _ fun _ w => w
  | inc | dec => exact staysWithin_modify (within_setReg _ (.inr (.inr rfl)))

end Machine

end WordMachine

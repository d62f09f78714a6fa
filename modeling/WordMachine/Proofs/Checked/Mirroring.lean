import WordMachine.Proofs.Checked.RawMachine
import WordMachine.Proofs.Lockstep.Faults
import WordMachine.Proofs.Machine.Snapshots

/-!
# Accesses without traps

Every machine is a checked machine (`Machine.raw`), and there an action mirrors one of the machine
(`Mirrors`): the same result or the same fault, the state left behind being the raw form of the
state left behind. So the checked action does not trap.

An index in range, a sum below `2^32` and a difference that is not negative go through
(`RawMachine.element_of_lt` and so on). The equations that follow say that the accesses to a raw
form are of this kind: registers, memory and, with a depth of at most 65536, the slots of the stack.
A copy of the registers is written back one by one, which writes it as a whole
(`Machine.setRegisters_eq_foldl`).
-/

namespace WordMachine

/-! ## Mirrored actions -/

section

variable {σ τ α β : Type}

/-- The action with its faults as stops that are no traps. -/
def lifted (act : EStateM Fault σ α) : EStateM Stop σ α := fun s =>
  match act s with
  | .ok x t => .ok x t
  | .error e t => .error (.fault e) t

/-- A result is lifted as it is. -/
theorem lifted_of_ok {act : EStateM Fault σ α} {s t : σ} {x : α} (h : act s = .ok x t) :
    lifted act s = .ok x t := by
  simp only [lifted, h]

/-- A fault is lifted to a stop that is no trap. -/
theorem lifted_of_error {act : EStateM Fault σ α} {s t : σ} {e : Fault} (h : act s = .error e t) :
    lifted act s = .error (.fault e) t := by
  simp only [lifted, h]

/-- On the image of `s`, the checked action does what `act` does on `s`. -/
def Mirrors (f : σ → τ) (act : EStateM Fault σ α) (act' : EStateM Stop τ α) (s : σ) : Prop :=
  Commutes f (lifted act) act' s

variable {f : σ → τ} {s : σ}

section

variable {act : EStateM Fault σ α} {act' : EStateM Stop τ α}

/-- Where the action has a result, the checked action has the same one. -/
theorem Mirrors.of_ok {x : α} {t : σ} (h : Mirrors f act act' s) (hs : act s = .ok x t) :
    act' (f s) = .ok x (f t) := by
  have h' : act' (f s) = mapState f (lifted act s) := h
  rw [h', lifted_of_ok hs, mapState_ok]

/-- Where the action faults, the checked action stops with that fault. -/
theorem Mirrors.of_error {e : Fault} {t : σ} (h : Mirrors f act act' s) (hs : act s = .error e t) :
    act' (f s) = .error (.fault e) (f t) := by
  have h' : act' (f s) = mapState f (lifted act s) := h
  rw [h', lifted_of_error hs, mapState_error]

/-- The mirrored action leaves the image behind. -/
theorem Mirrors.stateOf_eq (h : Mirrors f act act' s) :
    stateOf (act' (f s)) = f (stateOf (act s)) := by
  cases hs : act s with
  | ok x t => rw [h.of_ok hs, stateOf_ok, stateOf_ok]
  | error e t => rw [h.of_error hs, stateOf_error, stateOf_error]

/-- A mirrored action does not trap. -/
theorem Mirrors.ne_trap {trap : Trap} {v : τ} (h : Mirrors f act act' s) :
    act' (f s) ≠ .error (.trap trap) v := by
  cases hs : act s with
  | ok x t =>
    rw [h.of_ok hs]
    exact nofun
  | error e t =>
    rw [h.of_error hs]
    exact nofun

/-- Actions with the same result mirror each other. -/
theorem mirrors_of_ok {x : α} {t : σ} (h : act s = .ok x t) (h' : act' (f s) = .ok x (f t)) :
    Mirrors f act act' s := by
  unfold Mirrors Commutes
  rw [lifted_of_ok h, h', mapState_ok]

/-- So do actions with the same fault. -/
theorem mirrors_of_error {e : Fault} {t : σ} (h : act s = .error e t)
    (h' : act' (f s) = .error (.fault e) (f t)) : Mirrors f act act' s := by
  unfold Mirrors Commutes
  rw [lifted_of_error h, h', mapState_error]

end

/-- A change of the state is mirrored by whatever leads to the image of the changed state. -/
theorem mirrors_modify {g : σ → σ} {act' : EStateM Stop τ Unit}
    (h : act' (f s) = .ok () (f (g s))) : Mirrors f (modify g) act' s :=
  mirrors_of_ok rfl h

/-- To give a result and do nothing mirrors itself. -/
theorem mirrors_pure (x : α) : Mirrors f (pure x : EStateM Fault σ α) (pure x) s := rfl

/-- A fault is mirrored by the stop that it is. -/
theorem mirrors_throw (e : Fault) :
    Mirrors f (throw e : EStateM Fault σ α) (throw (.fault e)) s := rfl

/-- Mirrored actions one after the other; the second need be mirrored only behind a result of the
first. -/
theorem Mirrors.bind {act : EStateM Fault σ α} {act' : EStateM Stop τ α}
    {k : α → EStateM Fault σ β} {k' : α → EStateM Stop τ β} (h : Mirrors f act act' s)
    (hk : ∀ x t, act s = .ok x t → Mirrors f (k x) (k' x) t) :
    Mirrors f (act >>= k) (act' >>= k') s := by
  unfold Mirrors Commutes
  cases hs : act s with
  | ok x t =>
    -- behind a result, both go on with the second action
    have hbind : lifted (act >>= k) s = lifted (k x) t := by
      unfold lifted
      rw [bind_of_ok hs]
    rw [bind_of_ok (h.of_ok hs), hbind]
    exact hk x t hs
  | error e t =>
    -- a fault of the first action is that of both
    rw [bind_of_error (h.of_error hs), lifted_of_error (bind_of_error hs), mapState_error]

/-- The action looks at the state it is in; what it sees needs no counterpart. -/
theorem mirrors_get_bind {k : σ → EStateM Fault σ β} {act' : EStateM Stop τ β}
    (h : Mirrors f (k s) act' s) : Mirrors f (get >>= k) act' s := h

/-- The checked action reads something first and changes nothing. -/
theorem mirrors_read_bind {act : EStateM Fault σ β} {read : EStateM Stop τ α}
    {k' : α → EStateM Stop τ β} {x : α} (hread : read (f s) = .ok x (f s))
    (h : Mirrors f act (k' x) s) : Mirrors f act (read >>= k') s := by
  have h' : k' x (f s) = mapState f (lifted act s) := h
  unfold Mirrors Commutes
  rw [bind_of_ok hread, h']

/-- A service that commutes with the map mirrors itself, unless its fault counts as a trap. -/
theorem Commutes.mirrors {act : EStateM Fault σ α} {act' : EStateM Fault τ α}
    (h : Commutes f act act' s) (hno : ¬ Faults act s .handleOverflow) :
    Mirrors f act (checked act') s := by
  have h' : act' (f s) = mapState f (act s) := h
  cases hs : act s with
  | ok x t =>
    rw [hs, mapState_ok] at h'
    exact mirrors_of_ok hs (by simp only [checked, h'])
  | error e t =>
    rw [hs, mapState_error] at h'
    -- all faults but this one are stops of the same name
    have he : Stop.ofFault e = .fault e := by
      cases e with
      | handleOverflow => exact absurd ⟨t, hs⟩ hno
      | _ => rfl
    exact mirrors_of_error hs (by simp only [checked, h', he])

end

/-! ## Accesses in range -/

namespace RawMachine

variable {σ α : Type} {n : Nat} {s : σ}

/-- An index in range reads its element. -/
theorem element_of_lt {v : Vector α n} {i : Nat} (h : i < n) : element v i s = .ok v[i] s := by
  unfold element
  rw [dif_pos h]
  rfl

/-- An index in range writes its element. -/
theorem replace_of_lt {v : Vector α n} {i : Nat} (x : α) (h : i < n) :
    replace v i x s = .ok (v.set i x) s := by
  unfold replace
  rw [dif_pos h]
  rfl

/-- A sum that 32 bits can hold does not overflow. -/
theorem sum_of_lt {a b : Nat} (h : a + b < 2 ^ 32) : sum a b s = .ok (a + b) s := by
  unfold sum
  rw [if_pos h]
  rfl

/-- A difference that is not negative does not overflow. -/
theorem difference_of_le {a b : Nat} (h : b ≤ a) : difference a b s = .ok (a - b) s := by
  unfold difference
  rw [if_pos h]
  rfl

variable {m : RawMachine}

/-- A push below the limit writes the slot at the depth. -/
theorem push_of_lt (w : Word) (h : m.depth < segmentSize) :
    push w m = .ok () { m with slots := m.slots.set m.depth w, depth := m.depth + 1 } := by
  have hsize : segmentSize = 65536 := rfl
  change (if m.depth = segmentSize then _ else _ : Op Unit) m = _
  rw [if_neg (Nat.ne_of_lt h)]
  exact (bind_of_ok (replace_of_lt w h)).trans (bind_of_ok (sum_of_lt (by omega)))

/-- A push onto a full stack is a fault, and no slot is asked for. -/
theorem push_of_eq (w : Word) (h : m.depth = segmentSize) :
    push w m = .error (.fault .stackOverflow) m := by
  change (if m.depth = segmentSize then _ else _ : Op Unit) m = _
  rw [if_pos h]
  rfl

/-- A pop reads the slot below the depth. -/
theorem pop_of_lt (h : m.depth ≠ 0) (hlt : m.depth - 1 < segmentSize) :
    pop m = .ok m.slots[m.depth - 1] { m with depth := m.depth - 1 } := by
  change (if m.depth = 0 then _ else _ : Op Word) m = _
  rw [if_neg h]
  exact (bind_of_ok (difference_of_le (Nat.pos_of_ne_zero h))).trans
    (bind_of_ok (element_of_lt hlt))

/-- A pop from an empty stack is a fault, and nothing is subtracted. -/
theorem pop_of_zero (h : m.depth = 0) : pop m = .error (.fault .stackUnderflow) m := by
  change (if m.depth = 0 then _ else _ : Op Word) m = _
  rw [if_pos h]
  rfl

/-- The top word is in the slot below the depth. -/
theorem top_of_lt (h : m.depth ≠ 0) (hlt : m.depth - 1 < segmentSize) :
    top m = .ok m.slots[m.depth - 1] m := by
  change (if m.depth = 0 then _ else _ : Op Word) m = _
  rw [if_neg h]
  exact (bind_of_ok (difference_of_le (Nat.pos_of_ne_zero h))).trans (element_of_lt hlt)

/-- An empty stack has no top word, which is a fault. -/
theorem top_of_zero (h : m.depth = 0) : top m = .error (.fault .stackUnderflow) m := by
  change (if m.depth = 0 then _ else _ : Op Word) m = _
  rw [if_pos h]
  rfl

/-- A swap with a word of the stack exchanges the two slots. -/
theorem swap_of_lt {w : Word} (h : w.toNat < m.depth) (hlt : m.depth - 1 < segmentSize) :
    have hlower : m.depth - 1 - w.toNat < segmentSize := Nat.lt_of_le_of_lt (Nat.sub_le _ _) hlt
    swap w m = .ok () { m with
      slots := (m.slots.set (m.depth - 1) m.slots[m.depth - 1 - w.toNat]).set
        (m.depth - 1 - w.toNat) m.slots[m.depth - 1] } := by
  intro hlower
  change (if m.depth ≤ w.toNat then _ else _ : Op Unit) m = _
  rw [if_neg (Nat.not_le.2 h)]
  refine (bind_of_ok (difference_of_le (by omega))).trans ?_
  refine (bind_of_ok (difference_of_le (by omega))).trans ?_
  refine (bind_of_ok (element_of_lt hlt)).trans ?_
  refine (bind_of_ok (element_of_lt hlower)).trans ?_
  refine (bind_of_ok (replace_of_lt _ hlt)).trans ?_
  exact bind_of_ok (replace_of_lt _ hlower)

/-- A swap with a word below the stack is a fault, before any slot is asked for. -/
theorem swap_of_le {w : Word} (h : m.depth ≤ w.toNat) :
    swap w m = .error (.fault (.stackIndexOutOfRange w m.depth)) m := by
  change (if m.depth ≤ w.toNat then _ else _ : Op Unit) m = _
  rw [if_pos h]
  rfl

end RawMachine

namespace Machine

/-- The registers of the machine, with nothing in the place of the stack pointer. -/
def rawRegs (m : Machine) : Vector Word 33 :=
  Vector.ofFn fun i => if i = RegIndex.stackPointer then 0 else m.reg i

/-- The machine as a checked machine. -/
def raw (m : Machine) : RawMachine :=
  ⟨m.rawRegs, m.code.cells, m.data.cells, m.stack.slots.cells, m.stack.depth⟩

/-! ## Registers -/

/-- Two machines whose registers agree, the stack pointer apart, have the same raw registers. -/
theorem rawRegs_congr {m m' : Machine} (h : ∀ i, i ≠ RegIndex.stackPointer → m'.reg i = m.reg i) :
    m'.rawRegs = m.rawRegs := by
  unfold rawRegs
  congr 1
  funext i
  by_cases hi : i = RegIndex.stackPointer
  · rw [if_pos hi, if_pos hi]
  · rw [if_neg hi, if_neg hi, h i hi]

/-- Every register but the stack pointer has its place in the raw form. -/
theorem get_rawRegs (m : Machine) {i : RegIndex} (h : i ≠ .stackPointer) :
    m.rawRegs.get i = m.reg i := by
  change m.rawRegs[i.val] = m.reg i
  rw [rawRegs, Vector.getElem_ofFn, if_neg h]

/-- The checked machine reads the registers of the machine, also the one that the stack keeps. -/
theorem reg_raw (m : Machine) (i : RegIndex) : RawMachine.reg i m.raw = .ok (m.reg i) m.raw := by
  by_cases h : i = .stackPointer
  · subst h
    rfl
  · have hne : i.val ≠ 31 := fun e => h (Fin.ext e)
    have hreg : RawMachine.reg i m.raw = RawMachine.element m.rawRegs i m.raw := by
      change (if i.val = 31 then _ else _ : RawMachine.Op Word) m.raw = _
      rw [if_neg hne]
      rfl
    rw [hreg, RawMachine.element_of_lt i.isLt]
    exact congrArg (EStateM.Result.ok · m.raw) (get_rawRegs m h)

/-- Register 31 is taken from the depth. -/
theorem pointer_raw (m : Machine) : RawMachine.reg 31 m.raw = .ok m.stack.pointer m.raw := rfl

/-- The instruction pointer is read as any other register. -/
theorem ip_raw (m : Machine) : RawMachine.ip m.raw = .ok m.ip m.raw := by
  have hip : RawMachine.ip m.raw = RawMachine.element m.rawRegs 32 m.raw := rfl
  rw [hip, RawMachine.element_of_lt (by decide)]
  exact congrArg (EStateM.Result.ok · m.raw)
    (get_rawRegs m (i := .instructionPointer) (by decide))

/-- The stack shows in slots and depth only. -/
theorem raw_withStack (m : Machine) (st : Stack) :
    raw { m with stack := st } = { m.raw with slots := st.slots.cells, depth := st.depth } := by
  refine RawMachine.ext (rawRegs_congr fun i hi => ?_) rfl rfl rfl rfl
  unfold reg
  rw [if_neg hi, if_neg hi]

/-- Writing a register other than the stack pointer writes its place in the raw form. -/
theorem raw_setReg (m : Machine) {i : RegIndex} (w : Word) (h : i ≠ .stackPointer) :
    (m.setReg i w).raw = { m.raw with regs := m.rawRegs.set i w i.isLt } := by
  have hregs : (m.setReg i w).rawRegs = m.rawRegs.set i w i.isLt := by
    refine Vector.ext fun j hj => ?_
    rw [Vector.getElem_set]
    by_cases hij : i.val = j
    · subst hij
      rw [if_pos rfl]
      exact (get_rawRegs _ h).trans (reg_setReg_self m i w)
    · have hne : i ≠ ⟨j, hj⟩ := fun e => hij (congrArg Fin.val e)
      rw [if_neg hij]
      simp only [rawRegs, Vector.getElem_ofFn, reg_setReg_of_ne m w hne]
  have hmemory := memory_setReg m i w
  unfold raw
  rw [hregs, hmemory.1, hmemory.2, stack_setReg m w h]

/-- Writing a register does not trap: a word that becomes the depth is at most the number of slots.
-/
theorem setReg_raw (m : Machine) (i : RegIndex) (w : Word) :
    RawMachine.setReg i w m.raw = .ok () (m.setReg i w).raw := by
  by_cases h : i = .stackPointer
  · subst h
    -- the stack pointer: the word becomes the depth
    have hle : w.toNat ≤ segmentSize := Nat.le_of_lt w.toNat_lt
    have hset : RawMachine.setReg RegIndex.stackPointer w = RawMachine.setDepth w.toNat := rfl
    have hraw : (m.setReg .stackPointer w).raw = { m.raw with depth := w.toNat } :=
      raw_withStack m (m.stack.setPointer w)
    rw [hset, hraw]
    unfold RawMachine.setDepth
    rw [if_pos hle]
    rfl
  · -- any other register has its own place
    have hne : i.val ≠ 31 := fun e => h (Fin.ext e)
    have hset : RawMachine.setReg i w m.raw = (do
        let regs ← RawMachine.replace m.rawRegs i w
        set { m.raw with regs } : RawMachine.Op Unit) m.raw := by
      unfold RawMachine.setReg
      rw [if_neg hne]
      rfl
    rw [hset, bind_of_ok (RawMachine.replace_of_lt w i.isLt), raw_setReg m w h]
    rfl

/-- Nor does writing the instruction pointer. -/
theorem setIp_raw (m : Machine) (w : Word) :
    RawMachine.setIp w m.raw = .ok () { m with ip := w }.raw := by
  have hset : RawMachine.setIp w m.raw = (do
      let regs ← RawMachine.replace m.rawRegs 32 w
      set { m.raw with regs } : RawMachine.Op Unit) m.raw := rfl
  have hraw : { m with ip := w }.raw = { m.raw with regs := m.rawRegs.set 32 w } :=
    raw_setReg m (i := .instructionPointer) w (by decide)
  rw [hset, bind_of_ok (RawMachine.replace_of_lt w (by decide)), hraw]
  rfl

/-- A copy of all registers has the stack pointer in its place. -/
theorem registers_raw (m : Machine) : RawMachine.registers m.raw = .ok m.registers m.raw := by
  -- what is missing in the raw registers is the stack pointer
  have hregs : m.rawRegs.set 31 m.stack.pointer = m.registers := by
    refine Vector.ext fun j hj => ?_
    rw [Vector.getElem_set]
    by_cases hj31 : 31 = j
    · subst hj31
      rw [if_pos rfl]
      exact (read_registers m .stackPointer).symm
    · have hne : (⟨j, hj⟩ : RegIndex) ≠ RegIndex.stackPointer :=
        fun e => hj31 (congrArg Fin.val e).symm
      rw [if_neg hj31]
      exact (get_rawRegs m hne).trans (read_registers m ⟨j, hj⟩).symm
  have hread : RawMachine.registers m.raw = (do
      let w ← RawMachine.reg 31
      RawMachine.replace m.rawRegs 31 w : RawMachine.Op RegisterFile) m.raw := rfl
  rw [hread, bind_of_ok (pointer_raw m), RawMachine.replace_of_lt _ (by decide), hregs]

/-- Writing one register back from a copy, unless it is the stack pointer and has not changed. -/
theorem writeBack_raw (r : RegisterFile) (m : Machine) (i : RegIndex) :
    RawMachine.writeBack r i m.raw = .ok () (writeBack r m i).raw := by
  refine (bind_of_ok (pointer_raw m)).trans ?_
  unfold writeBack
  split
  · rfl
  · exact setReg_raw m i _

/-- Writing several registers back, one after the other. -/
theorem forM_writeBack_raw (r : RegisterFile) (l : List RegIndex) (m : Machine) :
    l.forM (RawMachine.writeBack r) m.raw = .ok () (l.foldl (writeBack r) m).raw := by
  induction l generalizing m with
  | nil => rfl
  | cons i l ih =>
    refine (bind_of_ok (writeBack_raw r m i)).trans ?_
    exact ih _

/-- Writing all registers back writes the copy as a whole. -/
theorem setRegisters_raw (m : Machine) (r : RegisterFile) :
    RawMachine.setRegisters r m.raw = .ok () (m.setRegisters r).raw := by
  unfold RawMachine.setRegisters
  rw [forM_writeBack_raw, ← setRegisters_eq_foldl]

/-! ## Memory -/

/-- Every address is one of the code segment. -/
theorem readCode_raw (m : Machine) (a : Word) :
    RawMachine.readCode a m.raw = .ok (m.code.get a) m.raw :=
  RawMachine.element_of_lt (v := m.code.cells) a.toNat_lt

/-- Every address is one of the data segment. -/
theorem readData_raw (m : Machine) (a : Word) :
    RawMachine.readData a m.raw = .ok (m.data.get a) m.raw :=
  RawMachine.element_of_lt (v := m.data.cells) a.toNat_lt

/-- A word can be written to every address of the data segment. -/
theorem writeData_raw (m : Machine) (a w : Word) :
    RawMachine.writeData a w m.raw = .ok () (raw { m with data := m.data.set a w }) :=
  bind_of_ok (RawMachine.replace_of_lt w a.toNat_lt)

/-- The characters at an address are read without a trap, since addresses wrap. -/
theorem charsFrom_raw (m : Machine) (a : Word) (words : Nat) (read : List Char) :
    RawMachine.charsFrom a words read m.raw = .ok (packedChars m.data a words read) m.raw := by
  -- word by word: a zero byte ends the string, in either half of a word
  induction words generalizing a read with
  | zero => rfl
  | succ words ih =>
    unfold RawMachine.charsFrom packedChars
    rw [bind_of_ok (readData_raw m a)]
    dsimp only
    split
    · rfl
    · split
      · rfl
      · exact ih _ _

/-- So is the string at an address. -/
theorem stringAt_raw (m : Machine) (a : Word) :
    RawMachine.stringAt a m.raw = .ok (m.stringAt a) m.raw := by
  unfold RawMachine.stringAt
  rw [bind_of_ok (charsFrom_raw m a segmentSize [])]
  rfl

/-- The sum that bounds a range of data words is below `2^17`. -/
theorem toNat_add_toNat_lt (a n : Word) : a.toNat + n.toNat < 2 ^ 17 := by
  have ha := a.toNat_lt
  have hn := n.toNat_lt
  omega

/-- A range that ends within the data segment is cut out of it. -/
theorem dataRange_raw_of_le (m : Machine) {a n : Word} (h : a.toNat + n.toNat ≤ segmentSize) :
    RawMachine.dataRange a n m.raw = .ok (m.data.slice a n.toNat) m.raw := by
  have hsum := toNat_add_toNat_lt a n
  have hend : RawMachine.dataEnd a n m.raw = .ok (a.toNat + n.toNat) m.raw := by
    unfold RawMachine.dataEnd
    rw [bind_of_ok (RawMachine.sum_of_lt (by omega)), if_neg (Nat.not_lt.2 h)]
    rfl
  have hslice : RawMachine.slice m.data.cells a.toNat (a.toNat + n.toNat) m.raw =
      .ok (m.data.slice a n.toNat) m.raw := by
    unfold RawMachine.slice
    rw [if_pos ⟨Nat.le_add_right _ _, h⟩]
    rfl
  unfold RawMachine.dataRange
  rw [bind_of_ok hend]
  exact hslice

/-- A range that ends behind the data segment is a fault, before anything is cut. -/
theorem dataRange_raw_of_lt (m : Machine) {a n : Word} (h : segmentSize < a.toNat + n.toNat) :
    RawMachine.dataRange a n m.raw = .error (.fault (.memoryRangeOutOfBounds a n)) m.raw := by
  have hsum := toNat_add_toNat_lt a n
  have hend : RawMachine.dataEnd a n m.raw =
      .error (.fault (.memoryRangeOutOfBounds a n)) m.raw := by
    unfold RawMachine.dataEnd
    rw [bind_of_ok (RawMachine.sum_of_lt (by omega)), if_pos h]
    rfl
  unfold RawMachine.dataRange
  exact bind_of_error hend

/-- Words stored one after the other, as long as they do not pass the segment. -/
theorem storeFrom_raw (m : Machine) (ws : List Word) {a : Word} {i : Nat}
    (ha : ws ≠ [] → a.toNat = i) (h : i + ws.length ≤ segmentSize) :
    RawMachine.storeFrom i ws m.raw = .ok () (raw { m with data := m.data.setAll a ws }) := by
  -- word by word; the address is the index until the last word has been stored
  induction ws generalizing m a i with
  | nil => rfl
  | cons w ws ih =>
    have hai : a.toNat = i := ha (List.cons_ne_nil w ws)
    subst hai
    have hsize : segmentSize = 65536 := rfl
    have hlen : a.toNat + ws.length + 1 ≤ segmentSize := h
    -- the next address wraps only behind the last word
    have hnext : ws ≠ [] → (a + 1).toNat = a.toNat + 1 := by
      intro hne
      have hpos := List.length_pos_iff.2 hne
      have hadd : (a + 1).toNat = (a.toNat + 1) % 65536 := by simp [UInt16.toNat_add]
      rw [hadd]
      exact Nat.mod_eq_of_lt (by omega)
    refine (bind_of_ok (writeData_raw m a w)).trans ?_
    refine (bind_of_ok (RawMachine.sum_of_lt (by omega))).trans ?_
    exact ih { m with data := m.data.set a w } hnext (by omega)

/-! ## The operand stack -/

/-- A stack operation with a result is mirrored by one that leaves its slots and its depth. -/
theorem mirrors_onStack {α : Type} {act : Stack.Op α} {act' : RawMachine.Op α} {m : Machine}
    {x : α} {st : Stack} (h : act m.stack = .ok x st)
    (h' : act' m.raw = .ok x { m.raw with slots := st.slots.cells, depth := st.depth }) :
    Mirrors raw (onStack act) act' m := by
  refine mirrors_of_ok (onStack_of_ok h) ?_
  rw [raw_withStack]
  exact h'

/-- The checked machine pushes as the machine does. -/
theorem mirrors_push (w : Word) (m : Machine) : Mirrors raw (push w) (RawMachine.push w) m := by
  by_cases h : m.stack.depth < segmentSize
  · have hslot : (UInt16.ofNat m.stack.depth).toNat = m.stack.depth := UInt16.toNat_ofNat_of_lt' h
    refine mirrors_onStack (by rw [Stack.push, dif_pos h]) ?_
    rw [RawMachine.push_of_lt w h]
    simp only [Segment.set, hslot]
    rfl
  · -- the depth is no larger than the number of slots, so the stack is just full
    have hfull : m.stack.depth = segmentSize := Nat.le_antisymm m.stack.depth_le (Nat.not_lt.1 h)
    refine mirrors_of_error (onStack_of_error (by rw [Stack.push, dif_neg h])) ?_
    exact RawMachine.push_of_eq w hfull

/-- The slot of the top word is there. -/
theorem top_lt (s : Stack) : s.depth - 1 < segmentSize := by
  have hle := s.depth_le
  have hsize : segmentSize = 65536 := rfl
  omega

/-- It pops as the machine does. -/
theorem mirrors_pop (m : Machine) : Mirrors raw pop RawMachine.pop m := by
  have hlt := top_lt m.stack
  by_cases h : m.stack.depth = 0
  · refine mirrors_of_error (onStack_of_error (by rw [Stack.pop, if_pos h])) ?_
    exact RawMachine.pop_of_zero h
  · have hslot : (UInt16.ofNat (m.stack.depth - 1)).toNat = m.stack.depth - 1 :=
      UInt16.toNat_ofNat_of_lt' hlt
    refine mirrors_onStack (by rw [Stack.pop, if_neg h]) ?_
    rw [RawMachine.pop_of_lt (m := m.raw) h hlt]
    simp only [Segment.get, hslot]
    rfl

/-- It looks at the top word as the machine does. -/
theorem mirrors_top (m : Machine) : Mirrors raw (onStack Stack.top) RawMachine.top m := by
  have hlt := top_lt m.stack
  by_cases h : m.stack.depth = 0
  · have htop : Stack.top m.stack = .error .stackUnderflow m.stack := by
      simp only [Stack.top, Stack.top?, if_pos h]
    exact mirrors_of_error (onStack_of_error htop) (RawMachine.top_of_zero h)
  · have hslot : (UInt16.ofNat (m.stack.depth - 1)).toNat = m.stack.depth - 1 :=
      UInt16.toNat_ofNat_of_lt' hlt
    have htop : Stack.top m.stack = .ok (m.stack.slots.get (UInt16.ofNat (m.stack.depth - 1)))
        m.stack := by
      simp only [Stack.top, Stack.top?, if_neg h]
    refine mirrors_onStack htop ?_
    rw [RawMachine.top_of_lt (m := m.raw) h hlt]
    simp only [Segment.get, hslot]
    rfl

/-- It swaps words as the machine does. -/
theorem mirrors_swap (n : Word) (m : Machine) :
    Mirrors raw (onStack (Stack.swap n)) (RawMachine.swap n) m := by
  have hlt := top_lt m.stack
  by_cases h : n.toNat < m.stack.depth
  · have hupper : (UInt16.ofNat (m.stack.depth - 1)).toNat = m.stack.depth - 1 :=
      UInt16.toNat_ofNat_of_lt' hlt
    have hlower : (UInt16.ofNat (m.stack.depth - 1 - n.toNat)).toNat =
        m.stack.depth - 1 - n.toNat :=
      UInt16.toNat_ofNat_of_lt' (Nat.lt_of_le_of_lt (Nat.sub_le _ _) hlt)
    refine mirrors_onStack (by rw [Stack.swap, if_pos h]) ?_
    rw [RawMachine.swap_of_lt (m := m.raw) h hlt]
    simp only [Segment.set, Segment.get, hupper, hlower]
    rfl
  · refine mirrors_of_error (onStack_of_error (by rw [Stack.swap, if_neg h])) ?_
    exact RawMachine.swap_of_le (Nat.not_lt.1 h)

end Machine

end WordMachine

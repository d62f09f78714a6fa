import WordMachine.Proofs.Checked.Mirroring
import WordMachine.Proofs.Word

/-!
# Instructions without traps

The checked machine carries out every instruction as the machine does: an opcode by `mirrors_exec`,
a register operation by `mirrors_execRegister`, whose register number is one that an instruction
byte can hold. Behind the arithmetic are three facts on words: the quotient and the remainder of the
whole numbers, cut to a word, are those of the words (`ofInt_tdiv`, `ofInt_tmod`), also for the one
quotient that does not fit; and a shift in 32 bits by up to 31 places, cut to a word, is the shift
of the word (`ofInt_shiftLeft`).
-/

namespace WordMachine

/-! ## Quotients and shifts cut to a word -/

namespace Word

/-- The quotient of the whole numbers. At `-32768 / -1` it is `32768`, which a word reads as
`-32768`. -/
theorem ofInt_tdiv (a b : Word) : ofInt ((signed a).tdiv (signed b)) = quotient a b := by
  rw [← ofInt_signed (quotient a b), signed_quotient, ofInt_bmod _ (by decide)]

/-- The remainder of the whole numbers always fits. -/
theorem ofInt_tmod (a b : Word) : ofInt ((signed a).tmod (signed b)) = remainder a b := by
  rw [← ofInt_signed (remainder a b), signed_remainder]

/-- A left shift in 32 bits leaves the lower 16 as a shift in 16 bits does. -/
theorem ofInt_shiftLeft (v : Word) (k : Nat) :
    ofInt ((signed v * 2 ^ k).bmod (2 ^ 32)) = shiftLeft v k := by
  -- the sign of the word and the wrap at 32 bits are both whole multiples of 2^16
  have hmod : (signed v * 2 ^ k) % 65536 = ((v.toNat * 2 ^ k : Nat) : Int) % 65536 := by
    have hv : signed v % 65536 = (v.toNat : Int) % 65536 := by
      have hlt := v.toNat_lt
      rw [signed_emod]
      omega
    rw [Int.mul_emod, hv, ← Int.mul_emod]
    push_cast
    rfl
  rw [ofInt_bmod _ (by decide), ofInt_eq_ofInt_iff.2 hmod, ofInt_natCast, ← UInt16.toNat_inj,
    toNat_shiftLeft, UInt16.toNat_ofNat']

end Word

/-- The register number of an instruction byte is below 32. -/
theorem Instruction.toNat_lt_of_decode {b : UInt8} {op : RegisterOp} {reg : UInt8}
    (h : decode b = .register op reg) : reg.toNat < 32 := by
  have hreg : reg = b &&& 0x1F := by
    unfold decode at h
    split at h
    · exact (Instruction.register.inj h).2.symm
    · split at h
      · cases h
      · cases h
  rw [hreg, UInt8.toNat_and]
  exact Nat.lt_of_le_of_lt Nat.and_le_right (by decide)

/-- So the number of the register is its index. -/
theorem Vm.registerIndex_of_decode {b : UInt8} {op : RegisterOp} {reg : UInt8}
    (h : Instruction.decode b = .register op reg) : (registerIndex reg).val = reg.toNat :=
  Nat.mod_eq_of_lt (Nat.lt_of_lt_of_le (Instruction.toNat_lt_of_decode h) (by decide))

namespace Machine

variable {m : Machine}

/-! ## Opcodes -/

/-- A division by a number other than zero does not trap. -/
theorem quotient_raw {a b : Word} (h : b ≠ 0) :
    RawMachine.quotient a b m.raw = .ok (Word.quotient a b) m.raw := by
  unfold RawMachine.quotient
  rw [if_neg h, Word.ofInt_tdiv]
  rfl

/-- Nor does its remainder. -/
theorem remainder_raw {a b : Word} (h : b ≠ 0) :
    RawMachine.remainder a b m.raw = .ok (Word.remainder a b) m.raw := by
  unfold RawMachine.remainder
  rw [if_neg h, Word.ofInt_tmod]
  rfl

/-- An operation on two words is mirrored if the checked machine has the same word as its result. -/
theorem mirrors_binary {f : Word → Word → Word} {f' : Word → Word → RawMachine.Op Word}
    (h : ∀ a b (m : Machine), f' a b m.raw = .ok (f a b) m.raw) :
    Mirrors raw (binary f) (RawMachine.binary f') m :=
  (mirrors_pop m).bind fun b m _ => (mirrors_pop m).bind fun a m _ =>
    mirrors_read_bind (h a b m) (mirrors_push _ m)

/-- An operation on one word is mirrored. -/
theorem mirrors_unary (f : Word → Word) : Mirrors raw (unary f) (RawMachine.unary f) m :=
  (mirrors_pop m).bind fun _ m _ => mirrors_push _ m

/-- The remainder is mirrored: a zero divisor is the same fault for both. -/
theorem mirrors_modulo : Mirrors raw modulo (RawMachine.exec .mod) m := by
  refine (mirrors_pop m).bind fun b m _ => (mirrors_pop m).bind fun a m _ => ?_
  -- the fault comes before the division could trap
  by_cases h : b = 0
  · subst h
    exact mirrors_of_error (e := .moduloByZero) (t := m) rfl rfl
  · rw [if_neg h]
    refine mirrors_read_bind (x := Word.remainder a b) ?_ (mirrors_push _ m)
    dsimp only
    rw [if_neg h]
    exact remainder_raw h

/-- A push leaves the instruction pointer alone. -/
theorem ip_of_push {w : Word} {t : Machine} (h : push w m = .ok () t) : t.ip = m.ip := by
  cases hstack : Stack.push w m.stack with
  | ok x st =>
    have hpush : push w m = .ok x { m with stack := st } := onStack_of_ok hstack
    rw [hpush] at h
    exact (congrArg Machine.ip (EStateM.Result.ok.inj h).2).symm
  | error e st =>
    have hpush : push w m = .error e { m with stack := st } := onStack_of_error hstack
    rw [hpush] at h
    cases h

/-- Moving the instruction pointer. -/
theorem mirrors_setIp {g : Machine → Machine} {w : Word} (h : g m = { m with ip := w }) :
    Mirrors raw (modify g) (RawMachine.setIp w) m := by
  apply mirrors_modify
  rw [h]
  exact setIp_raw m w

/-- The checked machine carries out an opcode as the machine does. -/
theorem mirrors_exec (op : Opcode) : Mirrors raw (exec op) (RawMachine.exec op) m := by
  cases op with
  | nop | interrupt | reset | halt => exact mirrors_pure ()
  | dup => exact (mirrors_top m).bind fun w m _ => mirrors_push w m
  | pushImm =>
    refine mirrors_get_bind (mirrors_read_bind (ip_raw m) (mirrors_read_bind (readCode_raw m _)
      (mirrors_read_bind (readCode_raw m _) ((mirrors_push _ m).bind fun _ t ht => ?_))))
    -- the push has left the instruction pointer alone, so both move it from the same place
    exact mirrors_setIp (by rw [ip_of_push ht])
  | call =>
    -- the old place is kept in the return register before the pointer moves
    refine (mirrors_pop m).bind fun target m _ => mirrors_read_bind (ip_raw m) ?_
    apply mirrors_modify
    exact (bind_of_ok (setReg_raw m .returnAddress m.ip)).trans (setIp_raw _ _)
  | ret => exact mirrors_read_bind (reg_raw m .returnAddress) (mirrors_setIp rfl)
  | load =>
    exact (mirrors_pop m).bind fun a m _ => mirrors_get_bind
      (mirrors_read_bind (readData_raw m a) (mirrors_push _ m))
  | store =>
    exact (mirrors_pop m).bind fun w m _ => (mirrors_pop m).bind fun a m _ =>
      mirrors_modify (writeData_raw m a w)
  | add | sub | mul | and | or | xor | cmpSigned | cmpUnsigned =>
    exact mirrors_binary fun _ _ _ => rfl
  | mod => exact mirrors_modulo
  | div =>
    refine mirrors_binary fun a b m => ?_
    -- a zero divisor is answered without a division
    unfold divide
    split
    · rfl
    · exact quotient_raw ‹_›
  | regSwap =>
    refine mirrors_read_bind (reg_raw m .zero) (mirrors_read_bind (pointer_raw m) ?_)
    apply mirrors_modify
    -- register 0 may hold any word; as a depth it is within the slots
    refine (bind_of_ok (setReg_raw m .zero _)).trans ?_
    exact setReg_raw _ .stackPointer _
  | not | neg => exact mirrors_unary _
  | swap => exact (mirrors_pop m).bind fun n m _ => mirrors_swap n m
  | jump => exact (mirrors_pop m).bind fun target m _ => mirrors_setIp rfl
  | jumpIfZero =>
    refine (mirrors_pop m).bind fun target m _ => (mirrors_pop m).bind fun condition m _ => ?_
    by_cases h : condition = 0
    · rw [if_pos h, if_pos h]
      exact mirrors_setIp rfl
    · rw [if_neg h, if_neg h]
      exact mirrors_pure ()

/-! ## Register operations -/

/-- A shift does not trap: at most 31 places are asked for. -/
theorem shift_raw (v control : Word) :
    RawMachine.shift v control m.raw = .ok (shifted v control) m.raw := by
  -- five bits of the control word count, and they stay below the 32 bits of the shift
  have hle : (control &&& 31).toNat ≤ 31 := by
    rw [UInt16.toNat_and]
    exact Nat.and_le_right
  unfold RawMachine.shift shifted
  rw [if_neg (by omega), Word.ofInt_shiftLeft]
  split
  · rfl
  · rfl

/-- The checked machine carries out a register operation as the machine does. -/
theorem mirrors_execRegister (op : RegisterOp) (i : RegIndex) :
    Mirrors raw (execRegister op i) (RawMachine.execRegister op i) m := by
  cases op with
  | mask =>
    exact (mirrors_pop m).bind fun mask m _ => mirrors_get_bind
      (mirrors_read_bind (reg_raw m i) (mirrors_push _ m))
  | shift =>
    exact (mirrors_pop m).bind fun control m _ => mirrors_read_bind (reg_raw m i)
      (mirrors_read_bind (shift_raw _ control) (mirrors_modify (setReg_raw m i _)))
  | rotate =>
    exact (mirrors_pop m).bind fun control m _ => mirrors_read_bind (reg_raw m i)
      (mirrors_modify (setReg_raw m i _))
  | push => exact mirrors_get_bind (mirrors_read_bind (reg_raw m i) (mirrors_push _ m))
  | pop =>
    exact (mirrors_pop m).bind fun w m _ => mirrors_modify (setReg_raw m i w)
  | inc | dec => exact mirrors_read_bind (reg_raw m i) (mirrors_modify (setReg_raw m i _))

end Machine

end WordMachine

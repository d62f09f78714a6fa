import Mathlib.Data.Int.ModEq
import WordMachine.Proofs.Vm.Requests
import WordMachine.Proofs.Word

/-!
# Arithmetic on the stack

The instructions for arithmetic take two words off the stack, the lower one being the left operand,
and put one word in their place (`Replaces`). What a word operation gives on two words is thereby
what the instruction gives on every machine (`binary_of_live`), and the words below do not matter.

Sums, differences and products are those of the two's complement numbers, wrapped to 16 bits. A
division rounds toward zero, and the two instructions for it fit together (`IsDivision`): quotient
and remainder give the dividend back up to a multiple of `2^16`, which is needed for the one
quotient that does not fit.
-/

namespace WordMachine

namespace Word

/-- `q` is the quotient of `a` and `b` that is rounded toward zero, and `r` the remainder that
belongs to it. -/
structure IsDivision (a b q r : Word) : Prop where
  /-- They give the dividend back, up to what a word does not show. -/
  congruent : signed q * signed b + signed r ≡ signed a [ZMOD 65536]
  remainder_lt : |signed r| < |signed b|
  remainder_sign : signed r = 0 ∨ (signed r).sign = (signed a).sign
  /-- The quotient is cut, not rounded down, and wraps where it does not fit. -/
  quotient_eq : signed q =
    if signed a = -32768 ∧ signed b = -1 then -32768 else (signed a).tdiv (signed b)
  remainder_overflow : signed a = -32768 ∧ signed b = -1 → r = 0

/-- Only the zero word is read as zero. -/
theorem signed_eq_zero_iff {w : Word} : signed w = 0 ↔ w = 0 := by
  constructor
  · intro h
    rw [← ofInt_signed w, h]
    rfl
  · rintro rfl
    rfl

/-- The one quotient that does not fit wraps back to the dividend. -/
theorem signed_quotient_overflow {a b : Word} (ha : signed a = -32768) (hb : signed b = -1) :
    signed (quotient a b) = -32768 := by
  rw [signed_quotient, ha, hb]
  decide

/-- The quotient and the remainder of words belong together. -/
theorem isDivision {a b : Word} (hb : b ≠ 0) :
    IsDivision a b (quotient a b) (remainder a b) where
  congruent := by
    -- the wrapped quotient differs from the exact one by a multiple of 2^16
    have hwrap : signed (quotient a b) ≡ (signed a).tdiv (signed b) [ZMOD 65536] := by
      rw [signed_quotient]
      exact Int.bmod_emod
    calc signed (quotient a b) * signed b + signed (remainder a b)
        ≡ (signed a).tdiv (signed b) * signed b + (signed a).tmod (signed b) [ZMOD 65536] := by
          rw [signed_remainder]
          exact (hwrap.mul_right _).add_right _
      _ = signed a := Int.tdiv_mul_add_tmod _ _
  remainder_lt := by
    -- a divisor that is not zero bounds the remainder of the magnitudes
    have hpos : 0 < (signed b).natAbs := Int.natAbs_pos.2 (mt signed_eq_zero_iff.1 hb)
    have hlt : ((signed a).tmod (signed b)).natAbs < (signed b).natAbs := by
      rw [Int.natAbs_tmod]
      exact Nat.mod_lt _ hpos
    rw [signed_remainder, Int.abs_eq_natAbs, Int.abs_eq_natAbs]
    exact_mod_cast hlt
  remainder_sign := by
    rw [signed_remainder, ← Int.sign_eq_zero_iff_zero, Int.sign_tmod]
    split
    · exact .inl rfl
    · exact .inr rfl
  quotient_eq := by
    split
    · rename_i h
      exact signed_quotient_overflow h.1 h.2
    · rename_i h
      exact signed_quotient_of_fits h
  remainder_overflow := by
    rintro ⟨ha, hb⟩
    rw [← signed_eq_zero_iff, signed_remainder, ha, hb]
    rfl

end Word

namespace Machine

/-! ## Two operands -/

section Operands

variable {m : Machine} {a b w : Word} {lower : List Word}

/-- A word that has been popped leaves room for another one, and nothing but the stack changes. -/
theorem push_of_spend (h : m.stack.live = w :: lower) (x : Word) :
    ∃ s : Stack, push x (m.spend 1) = .ok () { m with stack := s } ∧ s.live = x :: lower := by
  obtain ⟨m', hok⟩ := exists_push_of_pop (pop_of_live h) x
  obtain ⟨s, hpush, rfl⟩ := onStack_eq_ok hok
  exact ⟨s, hok, by rw [Stack.live_of_push hpush, live_spend_of_live h]⟩

/-- A word operation on the two top words. -/
theorem binary_of_live (f : Word → Word → Word) (h : m.stack.live = b :: a :: lower) :
    ∃ s : Stack, binary f m = .ok () { m with stack := s } ∧ s.live = f a b :: lower := by
  have h₁ := live_spend_of_live h
  obtain ⟨s, hpush, hlive⟩ := push_of_spend h₁ (f a b)
  refine ⟨s, ?_, hlive⟩
  rw [binary, bind_of_ok (pop_of_live h), bind_of_ok (pop_of_live h₁)]
  exact hpush

end Operands

/-! ## The instructions -/

/-- The instruction puts `w` in the place of the two top words, below which are the `lower` ones,
and changes nothing but the stack. -/
def Replaces (op : Opcode) (m : Machine) (w : Word) (lower : List Word) : Prop :=
  ∃ s : Stack, exec op m = .ok () { m with stack := s } ∧ s.live = w :: lower

section Instructions

variable {m : Machine} {a b : Word} {lower : List Word} (h : m.stack.live = b :: a :: lower)
include h

/-- The instruction for quotients, whatever the divisor is. -/
theorem replaces_div : Replaces .div m (divide a b) lower := binary_of_live divide h

/-- The instruction for remainders, unless the divisor is zero. -/
theorem replaces_mod (hb : b ≠ 0) : Replaces .mod m (Word.remainder a b) lower := by
  have h₁ := live_spend_of_live h
  obtain ⟨s, hpush, hlive⟩ := binary_of_live Word.remainder h
  refine ⟨s, ?_, hlive⟩
  -- past its check for zero, the instruction is a word operation like the others
  rw [← hpush]
  change modulo m = _
  rw [modulo, binary, bind_of_ok (pop_of_live h), bind_of_ok (pop_of_live h),
    bind_of_ok (pop_of_live h₁), bind_of_ok (pop_of_live h₁), if_neg hb]

/-- A remainder of a division by zero is a fault, with both operands spent. -/
theorem mod_zero (hb : b = 0) : exec .mod m = .error .moduloByZero (m.spend 2) := by
  change modulo m = _
  rw [modulo, bind_of_ok (pop_of_live h), bind_of_ok (pop_of_live (live_spend_of_live h)),
    if_pos hb, spend_spend]
  rfl

/-- On a stack with `b` on top and `a` below it, division and remainder succeed unless `b` is zero,
belong together and round toward zero; by zero, the quotient is `-32768` and the remainder a fault.
Sums, differences and products are those of the whole numbers, wrapped to 16 bits. All of them put
the one result in the place of the two operands, and leave the words below and everything but the
stack alone. -/
theorem arithmetic_on_stack :
    (b ≠ 0 → ∃ q r, Replaces .div m q lower ∧ Replaces .mod m r lower ∧ Word.IsDivision a b q r) ∧
    (b = 0 → (∃ q, Replaces .div m q lower ∧ Word.signed q = -32768) ∧
      exec .mod m = .error .moduloByZero (m.spend 2)) ∧
    (∃ w, Replaces .add m w lower ∧
      Word.signed w = (Word.signed a + Word.signed b).bmod 65536) ∧
    (∃ w, Replaces .sub m w lower ∧
      Word.signed w = (Word.signed a - Word.signed b).bmod 65536) ∧
    (∃ w, Replaces .mul m w lower ∧
      Word.signed w = (Word.signed a * Word.signed b).bmod 65536) := by
  have hdiv := replaces_div h
  refine ⟨fun hb => ?_, fun hb => ⟨?_, mod_zero h hb⟩, ?_, ?_, ?_⟩
  · rw [divide, if_neg hb] at hdiv
    exact ⟨_, _, hdiv, replaces_mod h hb, Word.isDivision hb⟩
  · rw [divide, if_pos hb] at hdiv
    exact ⟨_, hdiv, by decide⟩
  · exact ⟨_, binary_of_live (· + ·) h, Word.signed_add a b⟩
  · exact ⟨_, binary_of_live (· - ·) h, Word.signed_sub a b⟩
  · exact ⟨_, binary_of_live (· * ·) h, Word.signed_mul a b⟩

end Instructions

/-- The one quotient that does not fit, on top of another word. -/
theorem arithmetic_on_stack_overflow :
    let m : Machine := { ofImage .empty with
      stack := ⟨(((Segment.fill 0).set 0 7).set 1 0x8000).set 2 0xFFFF, 3, by decide⟩ }
    Word.signed 0x8000 = -32768 ∧ Word.signed 0xFFFF = -1 ∧
      ∃ q, Replaces .div m q [7] ∧ Replaces .mod m 0 [7] ∧ Word.signed q = -32768 := by
  intro m
  have hlive : m.stack.live = [0xFFFF, 0x8000, 7] := by decide +kernel
  have hoverflow : Word.signed 0x8000 = -32768 ∧ Word.signed 0xFFFF = -1 := by decide
  obtain ⟨q, r, hdiv, hmod, h⟩ := (arithmetic_on_stack hlive).1 (by decide)
  obtain rfl := h.remainder_overflow hoverflow
  exact ⟨hoverflow.1, hoverflow.2, q, hdiv, hmod, h.quotient_eq.trans (if_pos hoverflow)⟩

end Machine

end WordMachine

import Mathlib.Algebra.Order.Field.Power
import Mathlib.Data.Int.ModEq
import Mathlib.Data.Rat.Floor
import WordMachine.Extension.Sample
import WordMachine.Proofs.Extension.Agreement
import WordMachine.Proofs.Lockstep.Instructions
import WordMachine.Proofs.Word

/-!
# Powers

The sample extension raises one number on the stack to the power of another. With an exponent that
is not negative the result is the power of the whole numbers wrapped to 16 bits
(`signed_natPower`), so powers of one base multiply as they should (`signed_power_add`). With a
negative exponent the power is a fraction, and the result is the fraction rounded toward zero
(`signed_power_of_neg`): only the bases 1 and -1 leave more than zero of it.

The utility pops twice and pushes once. It leaves the registers alone, so the bridge does with it
what the machine would (`outcome_of_tracks`), and nothing but the two words changes
(`raise_replaces`).
-/

namespace WordMachine

namespace Stack

variable {s : Stack} {w : Word} {lower : List Word}

/-- A pop leaves the slots as they are. -/
theorem exists_pop_of_live (h : s.live = w :: lower) :
    ∃ t, pop s = .ok w t ∧ t.live = lower ∧ t.slots = s.slots := by
  rcases pop_cases s with ⟨w', t, hpop, hlive⟩ | ⟨hempty, -⟩
  · obtain ⟨rfl, rfl⟩ := List.cons.inj (h.symm.trans hlive)
    refine ⟨t, hpop, rfl, ?_⟩
    unfold pop at hpop
    split at hpop
    · cases hpop
    · cases hpop
      rfl
  · rw [h] at hempty
    cases hempty

/-- A push writes the slot above the live words. -/
theorem exists_push_of_length_lt (h : s.live.length < segmentSize) (w : Word) :
    ∃ t, push w s = .ok () t ∧ t.live = w :: s.live ∧
      t.slots = s.slots.set (UInt16.ofNat s.live.length) w := by
  have hdepth : s.depth < segmentSize := by rwa [length_live] at h
  have hpush : push w s =
      .ok () ⟨s.slots.set (UInt16.ofNat s.depth) w, s.depth + 1, hdepth⟩ := dif_pos hdepth
  refine ⟨_, hpush, live_of_push hpush, ?_⟩
  rw [length_live]

end Stack

namespace Sample

open Utility (Scope SparesStackPointer)

/-! ## On whole numbers and fractions -/

/-- A fraction rounded toward zero. -/
def truncate (q : ℚ) : ℤ := if 0 ≤ q then ⌊q⌋ else ⌈q⌉

/-- Whole numbers need no rounding. -/
theorem truncate_intCast (n : ℤ) : truncate n = n := by
  simp [truncate]

/-- What is nearer to zero than 1 is rounded to zero. -/
theorem truncate_eq_zero {q : ℚ} (h : |q| < 1) : truncate q = 0 := by
  obtain ⟨hlow, hhigh⟩ := abs_lt.1 h
  unfold truncate
  split
  · rename_i hq
    exact Int.floor_eq_zero_iff.2 ⟨hq, hhigh⟩
  · rename_i hq
    exact Int.ceil_eq_zero_iff.2 ⟨hlow, le_of_not_ge hq⟩

/-- The product of words is the power of the whole numbers, wrapped to 16 bits. -/
theorem signed_natPower (base : Word) (n : ℕ) :
    Word.signed (natPower base n) = (Word.signed base ^ n).bmod 65536 := by
  induction n with
  | zero =>
    rw [pow_zero]
    rfl
  | succ n ih => rw [natPower, Word.signed_mul, ih, Int.bmod_mul_bmod, pow_succ]

/-! ## Exponents that are not negative -/

/-- A word that is not negative is the same number both ways. -/
theorem toNat_signed {w : Word} (h : 0 ≤ Word.signed w) : (Word.signed w).toNat = w.toNat := by
  have hmod := Word.signed_emod w
  have hle := Word.signed_le w
  omega

/-- With an exponent that is not negative, the power is that of the whole numbers, wrapped. -/
theorem signed_power_of_nonneg {base exponent : Word} (h : 0 ≤ Word.signed exponent) :
    Word.signed (power base exponent) =
      (Word.signed base ^ (Word.signed exponent).toNat).bmod 65536 := by
  rw [power, if_pos h, signed_natPower, toNat_signed h]

/-- A power is the power of the whole numbers up to a multiple of `2^16`. -/
theorem signed_power_modEq {base exponent : Word} (h : 0 ≤ Word.signed exponent) :
    Word.signed (power base exponent) ≡
      Word.signed base ^ (Word.signed exponent).toNat [ZMOD 65536] := by
  rw [signed_power_of_nonneg h]
  exact Int.bmod_emod

/-- Powers of one base multiply by adding exponents, as long as the sum of these does not wrap. -/
theorem signed_power_add (base : Word) {m n : Word} (hm : 0 ≤ Word.signed m)
    (hn : 0 ≤ Word.signed n) (hsum : Word.signed m + Word.signed n ≤ 32767) :
    Word.signed (power base (m + n)) ≡
      Word.signed (power base m) * Word.signed (power base n) [ZMOD 65536] := by
  have hadd : Word.signed (m + n) = Word.signed m + Word.signed n := by
    rw [Word.signed_add, Int.bmod_eq_of_le] <;> omega
  have hsplit : (Word.signed (m + n)).toNat = (Word.signed m).toNat + (Word.signed n).toNat := by
    omega
  calc Word.signed (power base (m + n))
      ≡ Word.signed base ^ (Word.signed (m + n)).toNat [ZMOD 65536] :=
        signed_power_modEq (by omega)
    _ = Word.signed base ^ (Word.signed m).toNat * Word.signed base ^ (Word.signed n).toNat := by
        rw [hsplit, pow_add]
    _ ≡ Word.signed (power base m) * Word.signed (power base n) [ZMOD 65536] :=
        ((signed_power_modEq hm).mul (signed_power_modEq hn)).symm

/-! ## Negative exponents -/

/-- The last bit tells even from odd numbers, whatever their sign. -/
theorem even_signed_iff (w : Word) : Even (Word.signed w) ↔ w % 2 = 0 := by
  have hmod := Word.signed_emod w
  have hbit : (w % 2).toNat = w.toNat % 2 := UInt16.toNat_mod w 2
  have hzero : (0 : Word).toNat = 0 := rfl
  rw [Int.even_iff, ← UInt16.toNat_inj, hbit, hzero]
  omega

/-- A base beyond 1 and -1 leaves less than one of a negative power. -/
theorem abs_zpow_lt_one {base exponent : ℤ} (hbase : 1 < |base|) (h : exponent < 0) :
    |(base : ℚ) ^ exponent| < 1 := by
  have hcast : (1 : ℚ) < |(base : ℚ)| := by exact_mod_cast hbase
  rw [abs_zpow]
  exact zpow_lt_one_of_neg₀ hcast h

/-- With a negative exponent, the power is the fraction rounded toward zero. -/
theorem signed_power_of_neg {base exponent : Word} (h : Word.signed exponent < 0)
    (hbase : base ≠ 0) :
    Word.signed (power base exponent) =
      truncate ((Word.signed base : ℚ) ^ Word.signed exponent) := by
  have hne : Word.signed base ≠ 0 := by
    intro hzero
    rw [← Word.ofInt_signed base, hzero] at hbase
    exact hbase rfl
  rw [power, if_neg (not_le.2 h)]
  split
  · -- the base is 1
    rename_i hone
    rw [hone, Int.cast_one, one_zpow]
    exact (truncate_intCast 1).symm
  · rename_i hone
    split
    · -- the base is -1, and the last bit of the exponent decides
      rename_i hminus
      rw [hminus, Int.cast_neg, Int.cast_one]
      split
      · rename_i heven
        rw [((even_signed_iff exponent).2 heven).neg_one_zpow]
        exact (truncate_intCast 1).symm
      · rename_i hodd
        have hodd' : Odd (Word.signed exponent) :=
          Int.not_even_iff_odd.1 (mt (even_signed_iff exponent).1 hodd)
        rw [hodd'.neg_one_zpow, hminus]
        exact (truncate_intCast (-1)).symm
    · rename_i hminus
      have habs : 1 < |Word.signed base| := by
        rcases lt_or_gt_of_ne hne with hneg | hpos
        · rw [abs_of_neg hneg]
          omega
        · rw [abs_of_pos hpos]
          omega
      rw [truncate_eq_zero (abs_zpow_lt_one habs h)]
      rfl

/-! ## On the stack -/

/-- The utility writes no register. -/
theorem sparesStackPointer_raise : SparesStackPointer raise :=
  .pop fun _ => .pop fun _ => .push _ .done

/-- Served on the machine itself, the utility puts the power in the place of its operands. -/
theorem exists_runDirect_raise {s : Scope} {base exponent : Word} {lower : List Word}
    (h : s.machine.stack.live = exponent :: base :: lower) :
    ∃ st : Stack, raise.runDirect s = .ok () (s.withStack st) ∧
      st.live = power base exponent :: lower ∧
      st.slots = s.machine.stack.slots.set (UInt16.ofNat lower.length) (power base exponent) := by
  obtain ⟨s₁, hpop₁, hlive₁, hslots₁⟩ := Stack.exists_pop_of_live h
  obtain ⟨s₂, hpop₂, hlive₂, hslots₂⟩ := Stack.exists_pop_of_live hlive₁
  -- two words have been popped, so there is room for one
  have hroom : s₂.live.length < segmentSize := by
    have hle := s.machine.stack.length_live_le
    rw [h] at hle
    rw [hlive₂]
    simp only [List.length_cons] at hle
    omega
  obtain ⟨st, hpush, hlive, hslots⟩ := Stack.exists_push_of_length_lt hroom (power base exponent)
  refine ⟨st, ?_, by rw [hlive, hlive₂], by rw [hslots, hlive₂, hslots₂, hslots₁]⟩
  have h₁ := Utility.onMachine_onStack_of_ok hpop₁
  have h₂ : Utility.onMachine (Machine.onStack Stack.pop) (s.withStack s₁) =
      .ok base (s.withStack s₂) := Utility.onMachine_onStack_of_ok hpop₂
  have h₃ : Utility.onMachine (Machine.onStack (Stack.push (power base exponent)))
      (s.withStack s₂) = .ok () (s.withStack st) := Utility.onMachine_onStack_of_ok hpush
  rw [raise, Utility.runDirect_pop, Utility.target_pop, h₁]
  dsimp only
  rw [Utility.runDirect_pop, Utility.target_pop, h₂]
  dsimp only
  rw [Utility.runDirect_push, Utility.target_push, h₃]
  rfl

/-- Through the bridge, the utility takes an exponent and a base below it off the stack and puts the
power in their place: that of the whole numbers wrapped to 16 bits if the exponent is not negative,
and the fraction rounded toward zero if it is. Neither a word below nor a slot beyond the one that
it writes nor anything outside the stack changes. Powers of one base multiply by adding exponents,
up to a multiple of `2^16`. -/
theorem raise_replaces (s : Scope) {base exponent : Word} {lower : List Word}
    (h : s.machine.stack.live = exponent :: base :: lower) :
    (∃ st : Stack, raise.runBridged s = .ok () (s.withStack st) ∧
      st.live = power base exponent :: lower ∧
      st.slots = s.machine.stack.slots.set (UInt16.ofNat lower.length) (power base exponent)) ∧
    (0 ≤ Word.signed exponent → Word.signed (power base exponent) =
      (Word.signed base ^ (Word.signed exponent).toNat).bmod 65536) ∧
    (Word.signed exponent < 0 → base ≠ 0 → Word.signed (power base exponent) =
      truncate ((Word.signed base : ℚ) ^ Word.signed exponent)) ∧
    ∀ m n : Word, 0 ≤ Word.signed m → 0 ≤ Word.signed n → Word.signed m + Word.signed n ≤ 32767 →
      Word.signed (power base (m + n)) ≡
        Word.signed (power base m) * Word.signed (power base n) [ZMOD 65536] := by
  refine ⟨?_, signed_power_of_nonneg, signed_power_of_neg, fun m n hm hn hsum =>
    signed_power_add base hm hn hsum⟩
  -- the bridge has the same outcome as the machine, which is known
  obtain ⟨st, hdirect, hlive, hslots⟩ := exists_runDirect_raise h
  refine ⟨st, ?_, hlive, hslots⟩
  have halike := Utility.outcome_of_tracks sparesStackPointer_raise (Utility.tracks_ofScope s)
  rcases Utility.runBridged_of_endsAlike halike with ⟨t, ht, hbridged⟩ | ⟨e, t, t', ht, -⟩
  · rw [hdirect] at ht
    cases ht
    exact hbridged
  · rw [hdirect] at ht
    cases ht

/-- Above another word, `3^11 = 177147` wraps to -19461 and `(-1)^(-3)` is -1. -/
theorem raise_replaces_wrapped :
    let s (base exponent : Word) : Scope := .ofMachine { Machine.ofImage .empty with
      stack := ⟨(((Segment.fill 0).set 0 7).set 1 base).set 2 exponent, 3, by decide⟩ }
    (s 3 11).machine.stack.live = [11, 3, 7] ∧
    (∃ st : Stack, raise.runBridged (s 3 11) = .ok () ((s 3 11).withStack st) ∧
      st.live = [power 3 11, 7]) ∧ Word.signed (power 3 11) = -19461 ∧
    (s 0xFFFF 0xFFFD).machine.stack.live = [0xFFFD, 0xFFFF, 7] ∧
    (∃ st : Stack, raise.runBridged (s 0xFFFF 0xFFFD) = .ok () ((s 0xFFFF 0xFFFD).withStack st) ∧
      st.live = [power 0xFFFF 0xFFFD, 7]) ∧ Word.signed (power 0xFFFF 0xFFFD) = -1 := by
  intro s
  have hplus : (s 3 11).machine.stack.live = [11, 3, 7] := by decide +kernel
  have hminus : (s 0xFFFF 0xFFFD).machine.stack.live = [0xFFFD, 0xFFFF, 7] := by decide +kernel
  obtain ⟨⟨st, hrun, hlive, -⟩, hvalue, -, -⟩ := raise_replaces (s 3 11) hplus
  obtain ⟨⟨st', hrun', hlive', -⟩, -, hvalue', -⟩ := raise_replaces (s 0xFFFF 0xFFFD) hminus
  refine ⟨hplus, ⟨st, hrun, hlive⟩, (hvalue (by decide)).trans (by decide), hminus,
    ⟨st', hrun', hlive'⟩, (hvalue' (by decide) (by decide)).trans ?_⟩
  have hbase : Word.signed 0xFFFF = -1 := by decide
  have hexponent : Word.signed 0xFFFD = -3 := by decide
  rw [hbase, hexponent]
  norm_num [truncate]

end Sample

end WordMachine

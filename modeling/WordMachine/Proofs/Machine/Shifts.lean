import Mathlib.Algebra.Order.GroupWithZero.Basic
import Mathlib.Algebra.Order.Ring.Int
import WordMachine.Proofs.Machine.Arithmetic

/-!
# Shifts and rotations

A shift or a rotation of a register pops a control word. The sign of the control gives the
direction, left if it is positive, and its value modulo 32 the number of places (`Word.places`); so
for a negative control the places are not its magnitude.

`Word.IsShift` and `Word.IsRotation` say what becomes of a value, for a shift by its numeric value
and for a rotation bit by bit (`Word.bit`). The operations do it on every register but the stack
pointer (`updateReg_of_live`), whose value the pop itself changes. That a rotation is undone by one
in the other direction by as many places follows from where the bits go alone
(`Word.IsRotation.undone`).
-/

namespace WordMachine

namespace Word

/-! ## Bits -/

/-- The bit of a word that is worth `2 ^ i`. -/
def bit (w : Word) (i : Nat) : Bool := w.toNat.testBit i

/-- A word has no bits behind its sixteenth. -/
theorem bit_of_le (w : Word) {i : Nat} (h : 16 ≤ i) : bit w i = false :=
  Nat.testBit_lt_two_pow (Nat.lt_of_lt_of_le w.toNat_lt (Nat.pow_le_pow_right (by decide) h))

/-- The 16 bits of a number are kept when it is cut to a word. -/
theorem bit_ofNat (n : Nat) {i : Nat} (h : i < 16) : bit (UInt16.ofNat n) i = n.testBit i := by
  rw [bit, UInt16.toNat_ofNat', Nat.testBit_mod_two_pow, decide_eq_true h, Bool.true_and]

/-- A word is made of its 16 bits. -/
theorem ext_bit {v w : Word} (h : ∀ i < 16, bit v i = bit w i) : v = w := by
  apply UInt16.toNat_inj.1
  apply Nat.eq_of_testBit_eq
  intro i
  by_cases hi : i < 16
  · exact h i hi
  · rw [← bit, ← bit, bit_of_le v (by omega), bit_of_le w (by omega)]

/-- A bit that is turned left comes from `k` places to its right, around the end of the word. -/
theorem bit_rotateLeft (v : Word) {k i : Nat} (hk : k ≤ 16) (hi : i < 16) :
    bit (rotateLeft v k) i = bit v ((i + 16 - k) % 16) := by
  -- the two parts of the word, bit by bit
  have hbits : bit (rotateLeft v k) i =
      (decide (k ≤ i) && bit v (i - k) || bit v (16 - k + i)) := by
    rw [rotateLeft, bit_ofNat _ hi, Nat.testBit_or, Nat.testBit_shiftRight,
      show 65536 = 2 ^ 16 from rfl, Nat.testBit_mod_two_pow, Nat.testBit_shiftLeft,
      decide_eq_true hi, Bool.true_and]
    rfl
  rw [hbits]
  -- of the two parts, one has the bit and the other reads behind an end of the word
  by_cases hki : k ≤ i
  · have hindex : (i + 16 - k) % 16 = i - k := by omega
    rw [bit_of_le v (by omega : 16 ≤ 16 - k + i), decide_eq_true hki, hindex, Bool.true_and,
      Bool.or_false]
  · have hindex : (i + 16 - k) % 16 = 16 - k + i := by omega
    rw [decide_eq_false hki, hindex, Bool.false_and, Bool.false_or]

/-- To turn right by `k` places is to turn left by the others. -/
theorem rotateRight_eq (v : Word) {k : Nat} (hk : k ≤ 16) :
    rotateRight v k = rotateLeft v (16 - k) := by
  rw [rotateRight, rotateLeft, Nat.or_comm, Nat.sub_sub_self hk]

/-- A bit that is turned right comes from `k` places to its left. -/
theorem bit_rotateRight (v : Word) {k i : Nat} (hk : k ≤ 16) (hi : i < 16) :
    bit (rotateRight v k) i = bit v ((i + k) % 16) := by
  have hindex : i + 16 - (16 - k) = i + k := by omega
  rw [rotateRight_eq v hk, bit_rotateLeft v (Nat.sub_le 16 k) hi, hindex]

/-! ## Control words -/

/-- How many places a control word asks for: its value modulo 32. -/
def places (c : Word) : Nat := (signed c % 32).toNat

/-- Modulo 32 it makes no difference which number a word is read as. -/
theorem places_eq (c : Word) : places c = c.toNat % 32 := by
  have hmod := signed_emod c
  rw [places]
  omega

/-- `w` is `v` shifted as `c` says. -/
structure IsShift (v c w : Word) : Prop where
  /-- To the left, the bits that leave the word are lost. -/
  left : 0 < signed c → w.toNat = v.toNat * 2 ^ places c % 65536
  /-- To the right, the two's complement value is divided and rounded down. -/
  right : signed c ≤ 0 → signed w = signed v / 2 ^ places c

/-- `w` is `v` turned as `c` says. -/
structure IsRotation (v c w : Word) : Prop where
  /-- Turns by the width of the word or more clear it. -/
  far : 16 ≤ places c → w = 0
  left : places c < 16 → 0 < signed c → ∀ i < 16, bit w i = bit v ((i + 16 - places c) % 16)
  right : places c < 16 → signed c ≤ 0 → ∀ i < 16, bit w i = bit v ((i + places c) % 16)

/-- The control words ask for as many places, less than 16, in different directions. -/
structure Opposite (c c' : Word) : Prop where
  direction : 0 < signed c ∧ signed c' ≤ 0 ∨ signed c ≤ 0 ∧ 0 < signed c'
  congruent : signed c ≡ signed c' [ZMOD 32]
  places_lt : places c < 16

/-- Far to the left, nothing is left of a value. -/
theorem IsShift.left_far {v c w : Word} (h : IsShift v c w) (hc : 0 < signed c)
    (hfar : 16 ≤ places c) : w = 0 := by
  obtain ⟨d, hd⟩ : (65536 : Nat) ∣ 2 ^ places c := pow_dvd_pow 2 hfar
  apply UInt16.toNat_inj.1
  rw [h.left hc, hd, Nat.mul_left_comm, Nat.mul_mod_right]
  rfl

/-- Far to the right, only the sign is left of a value. -/
theorem IsShift.right_far {v c w : Word} (h : IsShift v c w) (hc : signed c ≤ 0)
    (hfar : 16 ≤ places c) : signed w = if signed v < 0 then -1 else 0 := by
  have hle := le_signed v
  have hge := signed_le v
  -- the divisor is greater than any number that a word can be read as
  have hbig : (2 : Int) ^ 16 ≤ 2 ^ places c := pow_le_pow_right₀ (by decide) hfar
  rw [h.right hc]
  split
  · rename_i hneg
    exact Int.ediv_eq_neg_one_of_neg_of_le hneg (by omega)
  · exact Int.ediv_eq_zero_of_lt (by omega) (by omega)

/-- A rotation is undone by one in the other direction. -/
theorem IsRotation.undone {v c w c' u : Word} (h : IsRotation v c w) (h' : IsRotation w c' u)
    (hc : Opposite c c') : u = v := by
  have hplaces : places c' = places c := by rw [places, places, hc.congruent]
  have hlt := hc.places_lt
  apply ext_bit
  intro i hi
  have hindex (j : Nat) : (j % 16 : Nat) < 16 := Nat.mod_lt j (by decide)
  -- the two indices add up to that of the bit itself, whichever rotation comes first
  rcases hc.direction with ⟨hleft, hright⟩ | ⟨hright, hleft⟩
  · rw [h'.right (hplaces ▸ hlt) hright i hi, h.left hlt hleft _ (hindex _), hplaces]
    congr 1
    omega
  · rw [h'.left (hplaces ▸ hlt) hleft i hi, h.right hlt hright _ (hindex _), hplaces]
    congr 1
    omega

end Word

namespace Machine

open Word (signed places)

/-- The lower five bits of a control word are its value modulo 32. -/
theorem shiftDistance_eq (c : Word) : shiftDistance c = places c := by
  rw [shiftDistance, UInt16.toNat_and, Word.places_eq]
  exact Nat.and_two_pow_sub_one_eq_mod c.toNat 5

/-- The shift of the machine is a shift. -/
theorem isShift_shifted (v c : Word) : Word.IsShift v c (shifted v c) where
  left hc := by rw [shifted, if_pos hc, Word.toNat_shiftLeft, shiftDistance_eq]
  right hc := by
    rw [shifted, if_neg (Int.not_lt.2 hc), Word.signed_shiftRight, shiftDistance_eq]

/-- The rotation of the machine is a rotation. -/
theorem isRotation_rotated (v c : Word) : Word.IsRotation v c (rotated v c) where
  far hfar := by rw [rotated, shiftDistance_eq, if_pos hfar]
  left hlt hc i hi := by
    rw [rotated, shiftDistance_eq, if_neg (Nat.not_le.2 hlt), if_pos hc,
      Word.bit_rotateLeft v (Nat.le_of_lt hlt) hi]
  right hlt hc i hi := by
    rw [rotated, shiftDistance_eq, if_neg (Nat.not_le.2 hlt), if_neg (Int.not_lt.2 hc),
      Word.bit_rotateRight v (Nat.le_of_lt hlt) hi]

/-- A register other than the stack pointer is updated with the value that it had before the pop. -/
theorem updateReg_of_live {i : RegIndex} (hi : i ≠ .stackPointer) {m : Machine} {c : Word}
    {lower : List Word} (h : m.stack.live = c :: lower) (f : Word → Word → Word) :
    updateReg i f m = .ok () ((m.spend 1).setReg i (f (m.reg i) c)) := by
  -- the register is read after the pop, which only the stack pointer shows
  have hreg : (m.spend 1).reg i = m.reg i := Spent.reg_eq ⟨1, Nat.le_refl 1, rfl⟩ hi
  rw [updateReg, bind_of_ok (pop_of_live h), ← hreg]
  rfl

/-- Shifts and rotations of a register other than the stack pointer pop their control word and set
the register to the shifted or turned value. By 16 places or more, a shift leaves nothing of the
value but its sign, and to the left nothing at all. A rotation and one in the other direction by as
many places, in either order and with anything in between that keeps the register, restore it. -/
theorem shift_and_rotate {i : RegIndex} (hi : i ≠ .stackPointer) :
    (∀ (m : Machine) (c : Word) (lower : List Word), m.stack.live = c :: lower →
      ∃ w, execRegister .shift i m = .ok () ((m.spend 1).setReg i w) ∧
        Word.IsShift (m.reg i) c w ∧ (16 ≤ places c → 0 < signed c → w = 0) ∧
        (16 ≤ places c → signed c ≤ 0 → signed w = if signed (m.reg i) < 0 then -1 else 0)) ∧
    (∀ (m : Machine) (c : Word) (lower : List Word), m.stack.live = c :: lower →
      ∃ w, execRegister .rotate i m = .ok () ((m.spend 1).setReg i w) ∧
        Word.IsRotation (m.reg i) c w) ∧
    ∀ (m n : Machine) (c c' : Word) (lower lower' : List Word), m.stack.live = c :: lower →
      n.stack.live = c' :: lower' → Word.Opposite c c' →
        ∃ w, execRegister .rotate i m = .ok () ((m.spend 1).setReg i w) ∧
          (n.reg i = w → execRegister .rotate i n = .ok () ((n.spend 1).setReg i (m.reg i))) := by
  refine ⟨fun m c lower h => ?_, fun m c lower h => ?_, fun m n c c' lower lower' h h' hc => ?_⟩
  · have hshift := isShift_shifted (m.reg i) c
    exact ⟨_, updateReg_of_live hi h shifted, hshift, fun hfar hc => hshift.left_far hc hfar,
      fun hfar hc => hshift.right_far hc hfar⟩
  · exact ⟨_, updateReg_of_live hi h rotated, isRotation_rotated (m.reg i) c⟩
  · refine ⟨_, updateReg_of_live hi h rotated, fun hn => ?_⟩
    -- the register has the turned value, so it is turned back
    have hundone : rotated (n.reg i) c' = m.reg i := by
      rw [hn]
      exact (isRotation_rotated _ c).undone (isRotation_rotated _ c') hc
    rw [← hundone]
    exact updateReg_of_live hi h' rotated

/-- Four places to the left, and back with the control `-28`, which is four modulo 32. -/
theorem shift_and_rotate_back :
    let m : Machine := { ofImage .empty with
      stack := ⟨(Segment.fill 0).set 0 4, 1, by decide⟩
      general := (Vector.replicate 31 0).set 7 0x1234 }
    let n : Machine := { ofImage .empty with
      stack := ⟨(Segment.fill 0).set 0 0xFFE4, 1, by decide⟩
      general := (Vector.replicate 31 0).set 7 0x2341 }
    signed 0xFFE4 = -28 ∧ Word.Opposite 4 0xFFE4 ∧
      execRegister .rotate 7 m = .ok () ((m.spend 1).setReg 7 0x2341) ∧
      execRegister .rotate 7 n = .ok () ((n.spend 1).setReg 7 0x1234) := by
  intro m n
  have hm : m.stack.live = [4] := by decide +kernel
  have hn : n.stack.live = [0xFFE4] := by decide +kernel
  have hopposite : Word.Opposite 4 0xFFE4 := ⟨by decide, by decide, by decide⟩
  have hi : (7 : RegIndex) ≠ .stackPointer := by decide
  obtain ⟨w, hfirst, hsecond⟩ := (shift_and_rotate hi).2.2 m n 4 0xFFE4 [] [] hm hn hopposite
  have hturned : (stateOf (execRegister .rotate 7 m)).reg 7 = 0x2341 := by decide +kernel
  obtain rfl : w = 0x2341 := by rwa [hfirst, stateOf_ok, reg_setReg_self] at hturned
  exact ⟨by decide, hopposite, hfirst, hsecond rfl⟩

end Machine

end WordMachine

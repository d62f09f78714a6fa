import Mathlib.Algebra.Group.Int.Defs
import Mathlib.Algebra.Group.Nat.Defs
import WordMachine.Word

/-!
# Whole numbers cut to a word

A word keeps a whole number up to a multiple of `2^16`, so two numbers leave the same word exactly
if they differ by such a multiple (`ofInt_eq_ofInt_iff`). Both ways to read a word, as a number
below `2^16` and as a two's complement number, give a number that leaves the word again
(`ofInt_toNat`, `ofInt_signed`).

The arithmetic of words is that of the two's complement numbers, wrapped to 16 bits. Remainders need
no wrapping, and of the quotients only `-32768 / -1` does (`signed_quotient_of_fits`).
-/

namespace WordMachine.Word

/-- Two whole numbers leave the same word exactly if they differ by a multiple of `2^16`. -/
theorem ofInt_eq_ofInt_iff {x y : Int} : ofInt x = ofInt y ↔ x % 65536 = y % 65536 := by
  have hx := Int.emod_nonneg x (by decide : (65536 : Int) ≠ 0)
  have hy := Int.emod_nonneg y (by decide : (65536 : Int) ≠ 0)
  have hx' := Int.emod_lt_of_pos x (by decide : (0 : Int) < 65536)
  have hy' := Int.emod_lt_of_pos y (by decide : (0 : Int) < 65536)
  unfold ofInt
  rw [← UInt16.toNat_inj, UInt16.toNat_ofNat', UInt16.toNat_ofNat']
  omega

/-- On natural numbers, `ofInt` is the conversion of the library. -/
theorem ofInt_natCast (n : Nat) : ofInt n = UInt16.ofNat n := by
  unfold ofInt
  rw [← UInt16.toNat_inj, UInt16.toNat_ofNat', UInt16.toNat_ofNat']
  omega

/-- Whole multiples of `2^16` do not show in a word. -/
theorem ofInt_bmod (x : Int) {m : Nat} (h : (65536 : Int) ∣ m) : ofInt (x.bmod m) = ofInt x := by
  rw [ofInt_eq_ofInt_iff, ← Int.emod_emod_of_dvd (x.bmod m) h, Int.bmod_emod,
    Int.emod_emod_of_dvd x h]

/-- A word and the number it is read as agree up to a multiple of `2^16`. -/
theorem signed_emod (w : Word) : signed w % 65536 = w.toNat := by
  have hw : w.toNat < 65536 := w.toNat_lt
  have hsigned : signed w = (w.toNat : Int).bmod 65536 := BitVec.toInt_eq_toNat_bmod w.toBitVec
  have hmod : (w.toNat : Int).bmod 65536 % 65536 = w.toNat % 65536 := Int.bmod_emod
  rw [hsigned, hmod]
  omega

/-- The two's complement number of a word leaves that word. -/
theorem ofInt_signed (w : Word) : ofInt (signed w) = w := by
  have hw : w.toNat < 65536 := w.toNat_lt
  unfold ofInt
  rw [← UInt16.toNat_inj, UInt16.toNat_ofNat', signed_emod]
  omega

/-- The natural number of a word leaves that word. -/
theorem ofInt_toNat (w : Word) : ofInt w.toNat = w := by
  rw [ofInt_natCast, UInt16.ofNat_toNat]

/-! ## Arithmetic -/

/-- The least two's complement number is `-32768`. -/
theorem le_signed (w : Word) : -32768 ≤ signed w := w.toInt16.le_toInt

/-- The greatest two's complement number is `32767`. -/
theorem signed_le (w : Word) : signed w ≤ 32767 := w.toInt16.toInt_le

/-- A whole number that fits is read back. -/
theorem signed_ofInt {x : Int} (hle : -32768 ≤ x) (hge : x ≤ 32767) : signed (ofInt x) = x := by
  have hmod := ofInt_eq_ofInt_iff.1 (ofInt_signed (ofInt x))
  have hle' := le_signed (ofInt x)
  have hge' := signed_le (ofInt x)
  omega

/-- Sums are those of the two's complement numbers, wrapped. -/
theorem signed_add (a b : Word) : signed (a + b) = (signed a + signed b).bmod 65536 := by
  unfold signed
  rw [UInt16.toInt16_add, Int16.toInt_add]

/-- Differences are those of the two's complement numbers, wrapped. -/
theorem signed_sub (a b : Word) : signed (a - b) = (signed a - signed b).bmod 65536 := by
  unfold signed
  rw [UInt16.toInt16_sub, Int16.toInt_sub]

/-- Products are those of the two's complement numbers, wrapped. -/
theorem signed_mul (a b : Word) : signed (a * b) = (signed a * signed b).bmod 65536 := by
  unfold signed
  rw [UInt16.toInt16_mul, Int16.toInt_mul]

/-- Quotients are those of the two's complement numbers, rounded toward zero and wrapped. -/
theorem signed_quotient (a b : Word) :
    signed (quotient a b) = ((signed a).tdiv (signed b)).bmod 65536 := by
  unfold signed quotient
  rw [Int16.toInt16_toUInt16, Int16.toInt_div]

/-- Every quotient but one is that of the whole numbers. -/
theorem signed_quotient_of_fits {a b : Word} (h : ¬ (signed a = -32768 ∧ signed b = -1)) :
    signed (quotient a b) = (signed a).tdiv (signed b) := by
  unfold signed quotient at *
  rw [Int16.toInt16_toUInt16]
  -- the library knows the quotient to fit as soon as one of the two numbers is not the bad one
  by_cases ha : a.toInt16 = Int16.minValue
  · have hb : b.toInt16 ≠ -1 := fun hb => h ⟨by rw [ha]; rfl, by rw [hb]; rfl⟩
    exact Int16.toInt_div_of_ne_right _ _ hb
  · exact Int16.toInt_div_of_ne_left _ _ ha

/-- Remainders are those of the two's complement numbers and never need to be wrapped. -/
theorem signed_remainder (a b : Word) :
    signed (remainder a b) = (signed a).tmod (signed b) := by
  unfold signed remainder
  rw [Int16.toInt16_toUInt16, Int16.toInt_mod]

/-- A left shift by `k` multiplies by `2 ^ k` and keeps the lower 16 bits. -/
theorem toNat_shiftLeft (v : Word) (k : Nat) : (shiftLeft v k).toNat = v.toNat * 2 ^ k % 65536 := by
  rw [shiftLeft, UInt16.toNat_ofNat', Nat.shiftLeft_eq]
  exact Nat.mod_mod _ _

/-- A right shift rounds down. -/
theorem signed_shiftRight (v : Word) (k : Nat) : signed (shiftRight v k) = signed v / 2 ^ k := by
  have hpos : (0 : Int) < 2 ^ k := Int.pow_pos (by decide)
  have hle := le_signed v
  have hge := signed_le v
  -- the quotient stays within the range of the number that is divided
  have hlow : -32768 ≤ signed v / 2 ^ k := (Int.le_ediv_iff_mul_le hpos).2 (by omega)
  have hhigh : signed v / 2 ^ k < 32768 := (Int.ediv_lt_iff_lt_mul hpos).2 (by omega)
  have hshift : signed v >>> k = signed v / 2 ^ k := by
    rw [Int.shiftRight_eq_div_pow, Int.natCast_pow]
    rfl
  rw [shiftRight, hshift]
  exact signed_ofInt hlow (by omega)

end WordMachine.Word

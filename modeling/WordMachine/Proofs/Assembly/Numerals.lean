import WordMachine.Proofs.Assembly.Spelling
import WordMachine.Proofs.Word

/-!
# How a word is written

The texts that denote a word in assembly text: a decimal number, read as unsigned or, with a sign,
as two's complement, or hexadecimal, binary or octal digits behind `0x`, `0b` or `0`
(`Numeral`). Digits are given by what they are worth (`Digits`), not by how they are read: one
digit, or digits with one more behind them. Leading zeros are fine where the base is marked; a
decimal number has none, since a zero in front makes it octal. `number?_of_numeral` says that a
numeral is read as a number that leaves its word.
-/

namespace WordMachine.Assembly

/-! ## Digits -/

/-- A digit of a base, in either case, and its value. -/
def IsDigit (base : Nat) (c : Char) (d : Nat) : Prop :=
  d < base ∧ (c = Nat.digitChar d ∨ c = (Nat.digitChar d).toUpper)

/-- One digit or more of a base, and the number that they denote. -/
inductive Digits (base : Nat) : List Char → Nat → Prop where
  | one {c : Char} {d : Nat} : IsDigit base c d → Digits base [c] d
  | more {cs : List Char} {n : Nat} {c : Char} {d : Nat} : Digits base cs n → IsDigit base c d →
      Digits base (cs ++ [c]) (base * n + d)

variable {base : Nat}

/-- A digit of a base is read as its value. -/
theorem IsDigit.digitIn? {c : Char} {d : Nat} (h : IsDigit base c d) (hbase : base ≤ 16) :
    Assembly.digitIn? base c = some d := by
  obtain ⟨hd, hc⟩ := h
  -- the value of the character does not depend on the base
  have hvalue : ∀ d < 16, digitValue? (Nat.digitChar d) = some d ∧
      digitValue? (Nat.digitChar d).toUpper = some d := by decide
  have hc' : digitValue? c = some d := by
    rcases hc with rfl | rfl
    · exact (hvalue d (by omega)).1
    · exact (hvalue d (by omega)).2
  rw [Assembly.digitIn?, hc', Option.filter_some, if_pos (by simpa using hd)]

/-- The last digit is read last. -/
theorem foldDigits?_concat (value : Nat) (cs : List Char) (c : Char) :
    foldDigits? base value (cs ++ [c]) =
      (foldDigits? base value cs).bind fun n => (digitIn? base c).map (base * n + ·) := by
  -- from the front, with the value of the digits passed
  induction cs generalizing value with
  | nil => cases h : digitIn? base c <;> simp [foldDigits?, h]
  | cons c' cs ih => cases h : digitIn? base c' <;> simp [foldDigits?, h, ih]

/-- Digits are at least one. -/
theorem Digits.ne_nil {cs : List Char} {n : Nat} (h : Digits base cs n) : cs ≠ [] := by
  cases h <;> simp

/-- Digits are read as the number that they denote, below the bound on numbers. -/
theorem Digits.digits? {cs : List Char} {n : Nat} (h : Digits base cs n) (hbase : base ≤ 16)
    (hn : n < magnitudeBound) : Assembly.digits? base cs = some n := by
  have hfold : foldDigits? base 0 cs = some n := by
    clear hn
    -- one digit, or digits and one more
    induction h with
    | one hd => simp [foldDigits?, hd.digitIn? hbase]
    | more _ hd ih => simp [foldDigits?_concat, ih, hd.digitIn? hbase]
  rw [Assembly.digits?, if_neg h.ne_nil, hfold, Option.filter_some, if_pos (by simpa using hn)]

/-- What holds of every digit of a base holds of every character of digits. -/
theorem Digits.forall_mem {P : Char → Prop} {cs : List Char} {n : Nat} (h : Digits base cs n)
    (hP : ∀ d < base, P (Nat.digitChar d) ∧ P (Nat.digitChar d).toUpper) : ∀ c ∈ cs, P c := by
  have hdigit : ∀ {c d}, IsDigit base c d → P c := by
    rintro c d ⟨hd, rfl | rfl⟩
    · exact (hP d hd).1
    · exact (hP d hd).2
  induction h with
  | one hd => simpa using hdigit hd
  | more _ hd ih => simpa [or_imp, forall_and] using ⟨ih, hdigit hd⟩

/-! ## Numerals -/

/-- A decimal number without a zero in front. -/
def Decimal (cs : List Char) (n : Nat) : Prop := Digits 10 cs n ∧ (cs.head? = some '0' → cs = ['0'])

/-- The texts that denote a word. -/
inductive Numeral : Word → List Char → Prop where
  | unsigned {w : Word} {cs : List Char} : Decimal cs w.toNat → Numeral w cs
  | negative {w : Word} {cs : List Char} {n : Nat} : Decimal cs n → Word.signed w = -(n : Int) →
      Numeral w ('-' :: cs)
  | positive {w : Word} {cs : List Char} {n : Nat} : Decimal cs n → Word.signed w = n →
      Numeral w ('+' :: cs)
  | hexadecimal {w : Word} {cs : List Char} : Digits 16 cs w.toNat → Numeral w ('0' :: 'x' :: cs)
  | binary {w : Word} {cs : List Char} : Digits 2 cs w.toNat → Numeral w ('0' :: 'b' :: cs)
  | octal {w : Word} {cs : List Char} : Digits 8 cs w.toNat → Numeral w ('0' :: cs)

/-- A decimal number has the mark of no other base, so it is read as it is. -/
theorem Decimal.magnitude? {cs : List Char} {n : Nat} (h : Decimal cs n) (hn : n < magnitudeBound) :
    Assembly.magnitude? cs = some n := by
  obtain ⟨hdigits, hzero⟩ := h
  have hten := hdigits.digits? (by decide) hn
  unfold Assembly.magnitude?
  split <;> simp_all

/-- Octal digits behind a zero are read as such. -/
theorem magnitude?_octal {cs : List Char} {n : Nat} (h : Digits 8 cs n) (hn : n < magnitudeBound) :
    magnitude? ('0' :: cs) = some n := by
  have height := h.digits? (by decide) hn
  -- no octal digit is one of the letters that mark another base
  have hmarks : ∀ c ∈ cs, c ≠ 'x' ∧ c ≠ 'X' ∧ c ≠ 'b' ∧ c ≠ 'B' := h.forall_mem (by decide)
  cases cs with
  | nil => exact absurd rfl h.ne_nil
  | cons c cs =>
    obtain ⟨hx, hX, hb, hB⟩ := hmarks c List.mem_cons_self
    unfold magnitude?
    split <;> simp_all

/-- A text that starts with no sign is a number without sign. -/
theorem number?_of_ne {c : Char} (cs : List Char) (hminus : c ≠ '-') (hplus : c ≠ '+') :
    number? (String.ofList (c :: cs)) = (magnitude? (c :: cs)).map Int.ofNat := by
  unfold number?
  rw [String.toList_ofList]
  split <;> simp_all

/-- A numeral is read as a number that fits a word and leaves the word that it denotes. -/
theorem number?_of_numeral {w : Word} {cs : List Char} (h : Numeral w cs) :
    ∃ n, number? (String.ofList cs) = some n ∧ FitsWord n ∧ Word.ofInt n = w := by
  have hw : w.toNat < 65536 := w.toNat_lt
  have hbound : (65536 : Nat) ≤ magnitudeBound := by decide
  have hlow := Word.le_signed w
  have hhigh := Word.signed_le w
  have hunsigned : FitsWord (Int.ofNat w.toNat) ∧ Word.ofInt (Int.ofNat w.toNat) = w := by
    refine ⟨?_, Word.ofInt_toNat w⟩
    simp only [FitsWord, Int.ofNat_eq_natCast]
    omega
  have hzero (cs : List Char) := number?_of_ne cs (by decide : '0' ≠ '-') (by decide)
  -- signed numerals are read as two's complement, the others as they are
  cases h with
  | @unsigned cs hdec =>
    obtain ⟨c, rest, rfl⟩ := List.exists_cons_of_ne_nil hdec.1.ne_nil
    have hsign : ∀ x ∈ c :: rest, x ≠ '-' ∧ x ≠ '+' := hdec.1.forall_mem (by decide)
    obtain ⟨hminus, hplus⟩ := hsign c List.mem_cons_self
    refine ⟨_, ?_, hunsigned⟩
    rw [number?_of_ne rest hminus hplus, hdec.magnitude? (by omega)]
    rfl
  | @negative cs n hdec hsigned =>
    refine ⟨-(n : Int), ?_, ?_, ?_⟩
    · simp [number?, hdec.magnitude? (by omega)]
    · rw [← hsigned]
      exact ⟨hlow, by omega⟩
    · rw [← hsigned, Word.ofInt_signed]
  | @positive cs n hdec hsigned =>
    refine ⟨(n : Int), ?_, ?_, ?_⟩
    · simp [number?, hdec.magnitude? (by omega)]
    · rw [← hsigned]
      exact ⟨hlow, by omega⟩
    · rw [← hsigned, Word.ofInt_signed]
  | hexadecimal hdigits =>
    refine ⟨_, ?_, hunsigned⟩
    rw [hzero, magnitude?, hdigits.digits? (by decide) (by omega)]
    rfl
  | binary hdigits =>
    refine ⟨_, ?_, hunsigned⟩
    rw [hzero, magnitude?, hdigits.digits? (by decide) (by omega)]
    rfl
  | octal hdigits =>
    refine ⟨_, ?_, hunsigned⟩
    rw [hzero, magnitude?_octal hdigits (by omega)]
    rfl

end WordMachine.Assembly

import Mathlib.Algebra.Group.Int.Defs
import Mathlib.Algebra.Group.Nat.Defs
import Mathlib.Data.List.Induction
import Mathlib.Tactic.ByContra
import WordMachine.Proofs.Assembly.Numerals

/-!
# The grammar of numbers

A number in assembly text is an optional sign and a magnitude: digits behind the mark of a base, or
a decimal number without a zero in front. `IsMagnitude` and `IsNumber` are this grammar, with the
number that a text denotes; `number?_grammar` says that the reader accepts exactly its texts, up to
the magnitude that 63 bits hold, and that every such number is read back from the way it is written
in each of the four bases.

The marks overlap: a zero alone is a number, in front of a letter it starts the mark of hexadecimal
or binary digits, and in front of anything else it is the mark of octal digits. The cases of the
grammar exclude each other because no octal digit is one of these letters.
-/

namespace WordMachine.Assembly

/-! ## Digits -/

section Digits

variable {base : Nat}

/-- The digits of a base are the characters that are read as such. -/
theorem digitIn?_eq_some_iff (hbase : base ≤ 16) {c : Char} {d : Nat} :
    digitIn? base c = some d ↔ IsDigit base c d := by
  -- all characters that can be digits are among the first 128
  have hall : ∀ n < 128, ∀ d ∈ digitValue? (Char.ofNat n),
      Char.ofNat n = Nat.digitChar d ∨ Char.ofNat n = (Nat.digitChar d).toUpper := by
    decide
  refine ⟨fun h => ?_, fun h => h.digitIn? hbase⟩
  obtain ⟨hvalue, hd⟩ := Option.filter_eq_some_iff.1 h
  have hsmall : c.toNat < 128 := by
    unfold digitValue? at hvalue
    simp only [char_le_iff] at hvalue
    have h9 : '9'.toNat < 128 := by decide
    have hf : 'f'.toNat < 128 := by decide
    have hF : 'F'.toNat < 128 := by decide
    split_ifs at hvalue <;> omega
  have hchar := hall c.toNat hsmall d
  rw [Char.ofNat_toNat] at hchar
  exact ⟨by simpa using hd, hchar hvalue⟩

/-- What is read as a number in a base consists of digits of the base. -/
theorem digits_of_foldDigits? (hbase : base ≤ 16) {cs : List Char} (hne : cs ≠ []) {n : Nat}
    (h : foldDigits? base 0 cs = some n) : Digits base cs n := by
  -- the last digit is the one that is read last
  induction cs using List.reverseRecOn generalizing n with
  | nil => exact absurd rfl hne
  | append_singleton cs c ih =>
    rw [foldDigits?_concat] at h
    obtain ⟨m, hm, hc⟩ := Option.bind_eq_some_iff.1 h
    obtain ⟨d, hd, rfl⟩ := Option.map_eq_some_iff.1 hc
    have hdigit := (digitIn?_eq_some_iff hbase).1 hd
    by_cases hcs : cs = []
    · subst hcs
      obtain rfl : 0 = m := by simpa [foldDigits?] using hm
      simpa using Digits.one hdigit
    · exact .more (ih hcs hm) hdigit

/-- Digits are read exactly if they denote a number below the bound on magnitudes. -/
theorem digits?_eq_some_iff (hbase : base ≤ 16) {cs : List Char} {n : Nat} :
    digits? base cs = some n ↔ Digits base cs n ∧ n < magnitudeBound := by
  refine ⟨fun h => ?_, fun ⟨h, hn⟩ => h.digits? hbase hn⟩
  unfold digits? at h
  split at h
  · cases h
  · rename_i hne
    obtain ⟨hfold, hn⟩ := Option.filter_eq_some_iff.1 h
    exact ⟨digits_of_foldDigits? hbase hne hfold, by simpa using hn⟩

end Digits

/-! ## The grammar -/

/-- The texts of a number without sign, and the number that they denote. -/
inductive IsMagnitude : List Char → Nat → Prop where
  | hexadecimal {x : Char} {cs : List Char} {n : Nat} : x = 'x' ∨ x = 'X' → Digits 16 cs n →
      IsMagnitude ('0' :: x :: cs) n
  | binary {b : Char} {cs : List Char} {n : Nat} : b = 'b' ∨ b = 'B' → Digits 2 cs n →
      IsMagnitude ('0' :: b :: cs) n
  | octal {cs : List Char} {n : Nat} : Digits 8 cs n → IsMagnitude ('0' :: cs) n
  | decimal {cs : List Char} {n : Nat} : Decimal cs n → IsMagnitude cs n

/-- The texts of a number, and the number that they denote. -/
inductive IsNumber : List Char → Int → Prop where
  | plain {cs : List Char} {n : Nat} : IsMagnitude cs n → IsNumber cs n
  | plus {cs : List Char} {n : Nat} : IsMagnitude cs n → IsNumber ('+' :: cs) n
  | minus {cs : List Char} {n : Nat} : IsMagnitude cs n → IsNumber ('-' :: cs) (-n)

/-- A magnitude of the grammar is read as the number that it denotes. -/
theorem magnitude?_of_isMagnitude {cs : List Char} {n : Nat} (h : IsMagnitude cs n)
    (hn : n < magnitudeBound) : magnitude? cs = some n := by
  cases h with
  | hexadecimal hx hdigits =>
    have hread := hdigits.digits? (by decide) hn
    rcases hx with rfl | rfl <;> exact hread
  | binary hb hdigits =>
    have hread := hdigits.digits? (by decide) hn
    rcases hb with rfl | rfl <;> exact hread
  | octal hdigits => exact magnitude?_octal hdigits hn
  | decimal hdec => exact hdec.magnitude? hn

/-- What is read as a magnitude is one of the grammar. -/
theorem isMagnitude_of_magnitude? {cs : List Char} {n : Nat} (h : magnitude? cs = some n) :
    IsMagnitude cs n ∧ n < magnitudeBound := by
  unfold magnitude? at h
  -- the cases of the reader in order: two marks for hexadecimal, two for binary, a zero, no mark
  split at h
  case h_1 | h_2 =>
    obtain ⟨hdigits, hn⟩ := (digits?_eq_some_iff (by decide)).1 h
    exact ⟨.hexadecimal (by simp) hdigits, hn⟩
  case h_3 | h_4 =>
    obtain ⟨hdigits, hn⟩ := (digits?_eq_some_iff (by decide)).1 h
    exact ⟨.binary (by simp) hdigits, hn⟩
  case h_5 =>
    obtain ⟨hdigits, hn⟩ := (digits?_eq_some_iff (by decide)).1 h
    exact ⟨.octal hdigits, hn⟩
  case h_6 hoctal =>
    obtain ⟨hdigits, hn⟩ := (digits?_eq_some_iff (by decide)).1 h
    refine ⟨.decimal ⟨hdigits, fun hzero => ?_⟩, hn⟩
    -- a zero in front with more to follow has been read as another base
    cases cs with
    | nil => cases hzero
    | cons c rest =>
      obtain rfl : c = '0' := by simpa using hzero
      cases rest with
      | nil => rfl
      | cons c rest => exact absurd rfl (hoctal c rest)

/-- A magnitude starts with a digit. -/
theorem IsMagnitude.exists_head {cs : List Char} {n : Nat} (h : IsMagnitude cs n) :
    ∃ c rest, cs = c :: rest ∧ c ≠ '-' ∧ c ≠ '+' := by
  cases h with
  | hexadecimal _ _ | binary _ _ | octal _ => exact ⟨'0', _, rfl, by decide, by decide⟩
  | decimal hdec =>
    obtain ⟨c, rest, rfl⟩ := List.exists_cons_of_ne_nil hdec.1.ne_nil
    have hsign : ∀ x ∈ c :: rest, x ≠ '-' ∧ x ≠ '+' := hdec.1.forall_mem (by decide)
    exact ⟨c, rest, rfl, hsign c List.mem_cons_self⟩

/-- The reader takes the sign off and reads the magnitude. -/
theorem number?_minus (cs : List Char) :
    number? (String.ofList ('-' :: cs)) = (magnitude? cs).map fun n : Nat => -(n : Int) := by
  simp only [number?, String.toList_ofList]
  cases magnitude? cs <;> rfl

/-- A plus in front changes nothing. -/
theorem number?_plus (cs : List Char) :
    number? (String.ofList ('+' :: cs)) = (magnitude? cs).map Int.ofNat := by
  simp only [number?, String.toList_ofList]

/-- A text of the grammar is read as the number that it denotes. -/
theorem number?_of_isNumber {cs : List Char} {v : Int} (h : IsNumber cs v)
    (hv : v.natAbs < magnitudeBound) : number? (String.ofList cs) = some v := by
  cases h with
  | plain hmag =>
    obtain ⟨c, rest, rfl, hminus, hplus⟩ := hmag.exists_head
    rw [number?_of_ne rest hminus hplus, magnitude?_of_isMagnitude hmag (by simpa using hv)]
    rfl
  | plus hmag =>
    rw [number?_plus, magnitude?_of_isMagnitude hmag (by simpa using hv)]
    rfl
  | minus hmag =>
    rw [number?_minus, magnitude?_of_isMagnitude hmag (by simpa using hv)]
    rfl

/-- A text that is read as a number is one of the grammar. -/
theorem isNumber_of_number? {cs : List Char} {v : Int} (h : number? (String.ofList cs) = some v) :
    IsNumber cs v ∧ v.natAbs < magnitudeBound := by
  cases cs with
  | nil => simp [number?, magnitude?, digits?] at h
  | cons c rest =>
    -- the first character is a sign or belongs to the magnitude
    by_cases hminus : c = '-'
    · rw [hminus, number?_minus] at h
      obtain ⟨n, hn, rfl⟩ := Option.map_eq_some_iff.1 h
      obtain ⟨hmag, hlt⟩ := isMagnitude_of_magnitude? hn
      exact ⟨hminus ▸ .minus hmag, by simpa using hlt⟩
    by_cases hplus : c = '+'
    · rw [hplus, number?_plus] at h
      obtain ⟨n, hn, rfl⟩ := Option.map_eq_some_iff.1 h
      obtain ⟨hmag, hlt⟩ := isMagnitude_of_magnitude? hn
      exact ⟨hplus ▸ .plus hmag, by simpa using hlt⟩
    · rw [number?_of_ne rest hminus hplus] at h
      obtain ⟨n, hn, rfl⟩ := Option.map_eq_some_iff.1 h
      obtain ⟨hmag, hlt⟩ := isMagnitude_of_magnitude? hn
      exact ⟨.plain hmag, by simpa using hlt⟩

/-- A text is read as a number exactly if the grammar gives it the number, below the bound on
magnitudes. -/
theorem number?_eq_some_iff {text : String} {v : Int} :
    number? text = some v ↔ IsNumber text.toList v ∧ v.natAbs < magnitudeBound := by
  have htext : String.ofList text.toList = text := String.ofList_toList
  constructor
  · intro h
    rw [← htext] at h
    exact isNumber_of_number? h
  · rintro ⟨h, hv⟩
    rw [← htext]
    exact number?_of_isNumber h hv

/-! ## Numbers as they are written -/

/-- The bases in which a number is written. -/
inductive Radix where
  | decimal
  | hexadecimal
  | binary
  | octal

namespace Radix

/-- The number of digits of a base. -/
def base : Radix → Nat
  | decimal => 10
  | hexadecimal => 16
  | binary => 2
  | octal => 8

/-- What stands in front of the digits of a base. -/
def mark : Radix → List Char
  | decimal => []
  | hexadecimal => ['0', 'x']
  | binary => ['0', 'b']
  | octal => ['0']

/-- A number written in a base: its sign if it is negative, the mark of the base and the digits of
its magnitude. -/
def render (r : Radix) (v : Int) : String :=
  String.ofList ((if v < 0 then ['-'] else []) ++ (r.mark ++ Nat.toDigits r.base v.natAbs))

end Radix

/-- The digits of a number denote it. -/
theorem digits_toDigits {base : Nat} (hbase : 1 < base) (n : Nat) :
    Digits base (Nat.toDigits base n) n := by
  -- the last digit is the remainder, and the digits before it are those of the quotient
  induction n using Nat.strongRecOn with
  | ind n ih =>
    by_cases hn : n < base
    · rw [Nat.toDigits_of_lt_base hn]
      exact .one ⟨hn, .inl rfl⟩
    · have hdigit : IsDigit base (Nat.digitChar (n % base)) (n % base) :=
        ⟨Nat.mod_lt n (by omega), .inl rfl⟩
      have hmore := Digits.more (ih (n / base) (Nat.div_lt_self (by omega) hbase)) hdigit
      rw [Nat.div_add_mod] at hmore
      rw [Nat.toDigits_of_base_le hbase (by omega)]
      exact hmore

/-- They start with a zero only if the number is zero. -/
theorem head?_toDigits_ten {n : Nat} (hn : 0 < n) : (Nat.toDigits 10 n).head? ≠ some '0' := by
  -- the first digit is that of the quotient, until one digit is left
  induction n using Nat.strongRecOn with
  | ind n ih =>
    by_cases hsmall : n < 10
    · have hdigit : ∀ n < 10, 0 < n → Nat.digitChar n ≠ '0' := by decide
      rw [Nat.toDigits_of_lt_base hsmall]
      simpa using hdigit n hsmall hn
    · rw [Nat.toDigits_of_base_le (by decide) (by omega),
        List.head?_append_of_ne_nil _ Nat.toDigits_ne_nil]
      exact ih (n / 10) (by omega) (by omega)

/-- A magnitude as it is written in a base is one of the grammar. -/
theorem isMagnitude_render (r : Radix) (n : Nat) :
    IsMagnitude (r.mark ++ Nat.toDigits r.base n) n := by
  cases r with
  | decimal =>
    refine .decimal ⟨digits_toDigits (by decide) n, fun hzero => ?_⟩
    obtain rfl : n = 0 := by
      by_contra hn
      exact head?_toDigits_ten (Nat.pos_of_ne_zero hn) hzero
    rfl
  | hexadecimal => exact .hexadecimal (.inl rfl) (digits_toDigits (by decide) n)
  | binary => exact .binary (.inl rfl) (digits_toDigits (by decide) n)
  | octal => exact .octal (digits_toDigits (by decide) n)

/-- A number as it is written in a base is one of the grammar. -/
theorem isNumber_render (r : Radix) (v : Int) : IsNumber (r.render v).toList v := by
  have hmag := isMagnitude_render r v.natAbs
  rw [Radix.render, String.toList_ofList]
  by_cases hv : v < 0
  · have hminus := IsNumber.minus hmag
    rw [Int.ofNat_natAbs_of_nonpos (Int.le_of_lt hv), Int.neg_neg] at hminus
    rw [if_pos hv]
    exact hminus
  · have hplain := IsNumber.plain hmag
    rw [Int.natAbs_of_nonneg (Int.not_lt.1 hv)] at hplain
    rw [if_neg hv]
    exact hplain

/-- A magnitude that is read and its negation are numbers of 64 bits. -/
theorem toInt_neg_of_magnitude? {cs : List Char} {n : Nat} (h : magnitude? cs = some n) :
    (Int64.ofNat n).toInt = n ∧ (-Int64.ofNat n).toInt = -(n : Int) := by
  have hn : n < 2 ^ 63 := (isMagnitude_of_magnitude? h).2
  have hexact : (Int64.ofNat n).toInt = n := Int64.toInt_ofNat_of_lt hn
  refine ⟨hexact, ?_⟩
  rw [Int64.toInt_neg, hexact]
  exact Int.bmod_eq_of_le (by omega) (by omega)

/-- A text is read as a number exactly when the grammar gives it this number and 63 bits hold its
magnitude. So every number of such a magnitude is read back from the way it is written in each
base, and the negation of a magnitude, in 64 bits, is never out of range. -/
theorem number?_grammar :
    (∀ (text : String) (v : Int),
      number? text = some v ↔ IsNumber text.toList v ∧ v.natAbs ≤ 2 ^ 63 - 1) ∧
    (∀ (r : Radix) (v : Int), v.natAbs < 2 ^ 63 → number? (r.render v) = some v) ∧
    ∀ (cs : List Char) (n : Nat), magnitude? cs = some n →
      (Int64.ofNat n).toInt = n ∧ (-Int64.ofNat n).toInt = -(n : Int) := by
  refine ⟨fun text v => ?_, fun r v hv => number?_eq_some_iff.2 ⟨isNumber_render r v, hv⟩,
    fun cs n => toInt_neg_of_magnitude?⟩
  have hbound : v.natAbs < magnitudeBound ↔ v.natAbs ≤ 2 ^ 63 - 1 := by
    show v.natAbs < 2 ^ 63 ↔ v.natAbs ≤ 2 ^ 63 - 1
    omega
  rw [number?_eq_some_iff, hbound]

/-- The number of the largest magnitude and negative sign, in octal digits. -/
theorem number?_grammar_least :
    number? "-0777777777777777777777" = some (-(2 ^ 63 - 1)) ∧
      (-Int64.ofNat (2 ^ 63 - 1)).toInt = -(2 ^ 63 - 1) := by
  obtain ⟨-, hrender, hneg⟩ := number?_grammar
  have hread := hrender .octal (-(2 ^ 63 - 1)) (by decide)
  have htext : Radix.octal.render (-(2 ^ 63 - 1)) = "-0777777777777777777777" := by decide +kernel
  rw [htext] at hread
  have hmag : magnitude? "0777777777777777777777".toList = some (2 ^ 63 - 1) := by decide +kernel
  exact ⟨hread, (hneg _ _ hmag).2⟩

end WordMachine.Assembly

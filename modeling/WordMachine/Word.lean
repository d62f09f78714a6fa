/-!
# Machine words

Memory, registers and the operand stack hold 16-bit words. A word is read either as a number below
`2^16` (an address, a count, a handle) or as a two's complement number (`Word.signed`). Its two
bytes are stored high byte first in an image and low byte first in a save file, so both orders are
assembled from `Word.high` and `Word.low`.
-/

namespace WordMachine

/-- A 16-bit machine word. -/
abbrev Word := UInt16

namespace Word

/-- The word read as a two's complement number. -/
def signed (w : Word) : Int := w.toInt16.toInt

/-- The word that a whole number leaves in 16 bits. -/
def ofInt (i : Int) : Word := UInt16.ofNat (i % 65536).toNat

/-- The eight upper bits. -/
def high (w : Word) : UInt8 := (w >>> 8).toUInt8

/-- The eight lower bits. -/
def low (w : Word) : UInt8 := w.toUInt8

/-- The word with the given upper and lower bytes. -/
def ofBytes (high low : UInt8) : Word := (high.toUInt16 <<< 8) ||| low.toUInt16

/-- The upper byte counts 256 times. Shifted up, it shares no bit with the lower one, so joining
them adds them. -/
theorem toNat_ofBytes (high low : UInt8) :
    (ofBytes high low).toNat = 256 * high.toNat + low.toNat := by
  have hh := high.toNat_lt
  have hl := low.toNat_lt
  have hor : high.toNat <<< 8 ||| low.toNat = high.toNat <<< 8 + low.toNat :=
    (Nat.shiftLeft_add_eq_or_of_lt (i := 8) (by simpa using hl) high.toNat).symm
  have hs : high.toNat <<< 8 = 256 * high.toNat := by rw [Nat.shiftLeft_eq, Nat.mul_comm]
  simp only [ofBytes, UInt16.toNat_or, UInt16.toNat_shiftLeft, UInt8.toNat_toUInt16,
    UInt16.toNat_ofNat]
  simp only [Nat.reducePow, Nat.reduceMod] at *
  rw [Nat.mod_eq_of_lt (by omega), hor, hs]

/-- The upper byte is the quotient by 256. -/
theorem toNat_high (w : Word) : (high w).toNat = w.toNat / 256 := by
  have hw := w.toNat_lt
  simp only [high, UInt16.toNat_toUInt8, UInt16.toNat_shiftRight, UInt16.toNat_ofNat,
    Nat.shiftRight_eq_div_pow]
  simp only [Nat.reducePow, Nat.reduceMod] at *
  omega

/-- The lower byte is the remainder by 256. -/
theorem toNat_low (w : Word) : (low w).toNat = w.toNat % 256 := UInt16.toNat_toUInt8 w

/-- The upper byte of a word is the one that it was made with. -/
@[simp]
theorem high_ofBytes (h l : UInt8) : high (ofBytes h l) = h := by
  apply UInt8.toNat_inj.1
  have hl := l.toNat_lt
  rw [toNat_high, toNat_ofBytes]
  omega

/-- The lower byte of a word is the one that it was made with. -/
@[simp]
theorem low_ofBytes (h l : UInt8) : low (ofBytes h l) = l := by
  apply UInt8.toNat_inj.1
  have hl := l.toNat_lt
  rw [toNat_low, toNat_ofBytes]
  omega

/-- A word is made of its two bytes. -/
@[simp]
theorem ofBytes_high_low (w : Word) : ofBytes (high w) (low w) = w := by
  apply UInt16.toNat_inj.1
  rw [toNat_ofBytes, toNat_high, toNat_low]
  omega

/-- One for true, zero for false. -/
def ofBool (b : Bool) : Word := if b then 1 else 0

/-! ## Arithmetic on two's complement words -/

/-- The quotient rounded toward zero. The one quotient that does not fit, `-32768 / -1`, wraps back
to `-32768`. -/
def quotient (a b : Word) : Word := (a.toInt16 / b.toInt16).toUInt16

/-- The remainder that belongs to `quotient`; it has the sign of `a`. -/
def remainder (a b : Word) : Word := (a.toInt16 % b.toInt16).toUInt16

/-- `a` shifted left by `k` places. -/
def shiftLeft (a : Word) (k : Nat) : Word := UInt16.ofNat ((a.toNat <<< k) % 65536)

/-- `a` shifted right by `k` places, copies of the sign bit moving in. -/
def shiftRight (a : Word) (k : Nat) : Word := ofInt (signed a >>> k)

/-- `a` turned left by `k < 16` places. -/
def rotateLeft (a : Word) (k : Nat) : Word :=
  UInt16.ofNat ((a.toNat <<< k) % 65536 ||| (a.toNat >>> (16 - k)))

/-- `a` turned right by `k < 16` places. -/
def rotateRight (a : Word) (k : Nat) : Word :=
  UInt16.ofNat ((a.toNat >>> k) ||| (a.toNat <<< (16 - k)) % 65536)

/-! ## Bytes of word sequences -/

/-- The bytes of a sequence of words, high byte before low byte. -/
def bigEndian (ws : List Word) : List UInt8 := ws.flatMap fun w => [high w, low w]

/-- The bytes of a sequence of words, low byte before high byte. -/
def littleEndian (ws : List Word) : List UInt8 := ws.flatMap fun w => [low w, high w]

/-- The words whose bytes are given low byte first; a last odd byte is dropped. -/
def ofLittleEndian : List UInt8 → List Word
  | lo :: hi :: rest => ofBytes hi lo :: ofLittleEndian rest
  | _ => []

/-- Words written low byte first are read back. -/
@[simp]
theorem ofLittleEndian_littleEndian (ws : List Word) : ofLittleEndian (littleEndian ws) = ws := by
  induction ws with
  | nil => rfl
  | cons w ws ih =>
    have hcons : littleEndian (w :: ws) = low w :: high w :: littleEndian ws := by
      simp [littleEndian]
    rw [hcons, ofLittleEndian, ih, ofBytes_high_low]

end Word

end WordMachine

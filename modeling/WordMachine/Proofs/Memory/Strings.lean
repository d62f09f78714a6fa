import WordMachine.Machine.Basic
import WordMachine.Proofs.Memory.Segments

/-!
# Strings in memory

A string in memory is a row of bytes, two to a word, that ends before the first zero. Looking one up
scans the bytes from its address on, through the end of the segment and at most once around:
`stringAt_eq` says that the result is the part of these bytes in front of the first zero. So where
some words stand in a row, the string is decided by their bytes alone as soon as one of them is zero
(`stringAt_of_holdsAt`); what follows in memory does not matter.
-/

namespace WordMachine

/-- The character that a byte of a string stands for. -/
def byteChar (b : UInt8) : Char := Char.ofNat b.toNat

/-- A character of one byte is the character of that byte. -/
theorem byteChar_ofNat {c : Char} (h : c.toNat ≤ 0xFF) : byteChar (UInt8.ofNat c.toNat) = c := by
  have hbyte : (UInt8.ofNat c.toNat).toNat = c.toNat :=
    UInt8.toNat_ofNat_of_lt' (Nat.lt_succ_of_le h)
  rw [byteChar, hbyte, Char.ofNat_toNat]

/-- Nothing behind the first zero counts. -/
theorem takeWhile_append_zero (bytes later : List UInt8) :
    (bytes ++ 0 :: later).takeWhile (· ≠ 0) = bytes.takeWhile (· ≠ 0) := by
  induction bytes with
  | nil => simp
  | cons b bytes ih =>
    by_cases hb : b = 0
    · simp [hb]
    · simpa [hb] using ih

namespace Machine

/-- The bytes of the words from an address on, high byte before low byte. The address wraps at the
end of the segment. -/
def bytesFrom (data : Segment Word) (a : Word) : (words : Nat) → List UInt8
  | 0 => []
  | words + 1 => Word.high (data.get a) :: Word.low (data.get a) :: bytesFrom data (a + 1) words

/-- What the search adds to the characters read so far are those of the bytes in front of the first
zero. -/
theorem packedChars_eq (data : Segment Word) (a : Word) (words : Nat) (read : List Char) :
    packedChars data a words read =
      read.reverse ++ ((bytesFrom data a words).takeWhile (· ≠ 0)).map byteChar := by
  -- the cases are those of the search: no words left, a zero above, a zero below, or a whole word
  fun_induction packedChars data a words read with
  | case1 a read => simp [bytesFrom]
  | case2 a read words w hhigh =>
    have hhigh' : Word.high (data.get a) = 0 := hhigh
    simp [bytesFrom, hhigh']
  | case3 a read words w first hhigh hlow =>
    have hhigh' : Word.high (data.get a) ≠ 0 := hhigh
    have hlow' : Word.low (data.get a) = 0 := hlow
    simp [bytesFrom, hhigh', hlow', first, w, byteChar]
  | case4 a read words w first second hhigh hlow ih =>
    have hhigh' : Word.high (data.get a) ≠ 0 := hhigh
    have hlow' : Word.low (data.get a) ≠ 0 := hlow
    rw [ih]
    simp [bytesFrom, hhigh', hlow', first, second, w, byteChar]

/-- The string at an address is the text of the bytes from there on, up to the first zero. -/
theorem stringAt_eq (m : Machine) (a : Word) : m.stringAt a =
    String.ofList (((bytesFrom m.data a segmentSize).takeWhile (· ≠ 0)).map byteChar) := by
  rw [stringAt, packedChars_eq, List.reverse_nil, List.nil_append]

/-- Where words stand in a row, their bytes are the first to be scanned. -/
theorem bytesFrom_of_holdsAt {data : Segment Word} {a : Word} {ws : List Word} {words : Nat}
    (h : data.HoldsAt a ws) (hlen : ws.length ≤ words) :
    ∃ later, bytesFrom data a words = Word.bigEndian ws ++ later := by
  induction ws generalizing a words with
  | nil => exact ⟨bytesFrom data a words, rfl⟩
  | cons w ws ih =>
    cases words with
    | zero => simp at hlen
    | succ words =>
      obtain ⟨rfl, hrest⟩ := h
      obtain ⟨later, hlater⟩ := ih hrest (Nat.le_of_succ_le_succ hlen)
      exact ⟨later, by rw [bytesFrom, hlater]; rfl⟩

/-- The string where words stand in a row whose bytes are some bytes and a zero behind them. -/
theorem stringAt_of_holdsAt {m : Machine} {a : Word} {ws : List Word} {bytes pad : List UInt8}
    (h : m.data.HoldsAt a ws) (hlen : ws.length ≤ segmentSize)
    (hbytes : Word.bigEndian ws = bytes ++ 0 :: pad) :
    m.stringAt a = String.ofList ((bytes.takeWhile (· ≠ 0)).map byteChar) := by
  obtain ⟨later, hlater⟩ := bytesFrom_of_holdsAt h hlen
  rw [stringAt_eq, hlater, hbytes, List.append_assoc, List.cons_append, takeWhile_append_zero]

end Machine

end WordMachine

import Mathlib.Data.List.TakeWhile
import WordMachine.Proofs.Memory.Images
import WordMachine.Proofs.Memory.Strings

/-!
# One turn through memory

Looking up a string reads word after word and starts over at address 0 behind the last one.
`Segment.turn` lists the bytes of one turn by the remainders of their addresses, and the string is
made of the longest run of bytes at the front of the turn that has no zero in it
(`longestNonzero_takeWhile`).

`Machine.scan` is the same search with the addresses noted down that it reads. They follow one
another (`scan_fst`), and there is one for every two characters and one for the end, unless the turn
ends first. Nothing else is looked at: a memory that agrees at these addresses has the same string
(`scan_congr`).
-/

namespace WordMachine

/-! ## Bytes in front of the first zero -/

/-- The longest piece at the front of some bytes that has no zero in it. -/
structure LongestNonzero (front bytes : List UInt8) : Prop where
  isPrefix : front <+: bytes
  nonzero : 0 ∉ front
  longest : ∀ other, other <+: bytes → 0 ∉ other → other <+: front

/-- The bytes in front of the first zero are the longest such piece. -/
theorem longestNonzero_takeWhile (bytes : List UInt8) :
    LongestNonzero (bytes.takeWhile (· ≠ 0)) bytes where
  isPrefix := List.takeWhile_prefix _
  nonzero h := by simpa using List.mem_takeWhile_imp h
  longest := by
    rintro other ⟨rest, rfl⟩ hother
    -- the bytes are `other` and a rest, and none of `other` stops the search
    have hall : ∀ b ∈ other, decide (b ≠ 0) = true := by
      intro b hb
      exact decide_eq_true fun hzero => hother (hzero ▸ hb)
    rw [List.takeWhile_append_of_pos hall]
    exact List.prefix_append other _

namespace LongestNonzero

variable {front bytes : List UInt8}

/-- Bytes without a zero are taken whole. -/
theorem eq_of_nonzero (h : LongestNonzero front bytes) (hbytes : 0 ∉ bytes) : front = bytes :=
  h.isPrefix.eq_of_length_le (h.longest bytes (List.prefix_refl bytes) hbytes).length_le

end LongestNonzero

/-! ## Addresses around the end -/

namespace Segment

/-- The address `i` cells behind another one, around the end of the segment. -/
def addressBehind (a : Word) (i : Nat) : Word := UInt16.ofNat ((a.toNat + i) % segmentSize)

/-- An address is zero cells behind itself. -/
@[simp]
theorem addressBehind_zero (a : Word) : addressBehind a 0 = a := by
  rw [addressBehind, Nat.add_zero, Nat.mod_eq_of_lt a.toNat_lt, UInt16.ofNat_toNat]

/-- One cell further behind an address is as far behind the next one. -/
theorem addressBehind_succ (a : Word) (i : Nat) :
    addressBehind a (i + 1) = addressBehind (a + 1) i := by
  have hnext : (a + 1).toNat = (a.toNat + 1) % segmentSize := UInt16.toNat_add a 1
  rw [addressBehind, addressBehind, hnext, Nat.mod_add_mod, Nat.add_right_comm]
  rfl

/-- The addresses of `n` cells in a row. -/
def addressesFrom (a : Word) (n : Nat) : List Word := (List.range n).map (addressBehind a)

/-- There are as many addresses as cells asked for. -/
@[simp]
theorem length_addressesFrom (a : Word) (n : Nat) : (addressesFrom a n).length = n := by
  simp [addressesFrom]

/-- Cells in a row are the first one and those from the next one on. -/
theorem addressesFrom_succ (a : Word) (n : Nat) :
    addressesFrom a (n + 1) = a :: addressesFrom (a + 1) n := by
  simp [addressesFrom, List.range_succ_eq_map, addressBehind_succ]

/-- The bytes of one turn through memory from an address on, high byte before low byte. -/
def turn (data : Segment Word) (a : Word) : List UInt8 :=
  Word.bigEndian ((addressesFrom a segmentSize).map data.get)

/-- One turn passes two bytes for each cell. -/
theorem length_turn (data : Segment Word) (a : Word) : (data.turn a).length = 2 * segmentSize := by
  rw [turn, Word.length_bigEndian, List.length_map, length_addressesFrom]

end Segment

namespace Machine

open Segment (addressesFrom)

/-- The bytes of words in a row, by the addresses of the words. -/
theorem bytesFrom_eq (data : Segment Word) (a : Word) (words : Nat) :
    bytesFrom data a words = Word.bigEndian ((addressesFrom a words).map data.get) := by
  induction words generalizing a with
  | zero => rfl
  | succ words ih =>
    rw [bytesFrom, ih, Segment.addressesFrom_succ, List.map_cons, Word.bigEndian_cons]

/-- The string at an address is the text of the bytes of the turn in front of the first zero. -/
theorem toList_stringAt (m : Machine) (a : Word) :
    (m.stringAt a).toList = ((m.data.turn a).takeWhile (· ≠ 0)).map byteChar := by
  rw [stringAt_eq, bytesFrom_eq, String.toList_ofList, Segment.turn]

/-! ## The words that are read -/

/-- The search for the end of a packed string: the addresses that it reads, in order, and the
characters that it finds. -/
def scan (data : Segment Word) (a : Word) : (words : Nat) → List Word × List Char
  | 0 => ([], [])
  | words + 1 =>
    let first := Word.high (data.get a)
    let second := Word.low (data.get a)
    if first = 0 then ([a], [])
    else if second = 0 then ([a], [byteChar first])
    else
      let later := scan data (a + 1) words
      (a :: later.1, byteChar first :: byteChar second :: later.2)

/-- Noting the addresses down does not change the characters. -/
theorem packedChars_eq_scan (data : Segment Word) (a : Word) (words : Nat) (read : List Char) :
    packedChars data a words read = read.reverse ++ (scan data a words).2 := by
  induction words generalizing a read with
  | zero => simp [packedChars, scan]
  | succ words ih =>
    -- both searches stop at a zero in the upper byte, then at one in the lower
    by_cases hfirst : Word.high (data.get a) = 0
    · simp [packedChars, scan, hfirst]
    · by_cases hsecond : Word.low (data.get a) = 0
      · simp [packedChars, scan, hfirst, hsecond, byteChar]
      · simp [packedChars, scan, hfirst, hsecond, byteChar, ih]

/-- One word is read for every two characters and one for the end, as far as words may be read. -/
theorem scan_fst (data : Segment Word) (a : Word) (words : Nat) :
    (scan data a words).1 =
      addressesFrom a (min words ((scan data a words).2.length / 2 + 1)) := by
  induction words generalizing a with
  | zero => rfl
  | succ words ih =>
    -- where the search stops, this word is the only one that is read
    have hone : addressesFrom a (min (words + 1) 1) = [a] := by
      rw [Nat.min_eq_right (Nat.le_add_left 1 words), Segment.addressesFrom_succ]
      rfl
    by_cases hfirst : Word.high (data.get a) = 0
    · simpa [scan, hfirst] using hone.symm
    · by_cases hsecond : Word.low (data.get a) = 0
      · simpa [scan, hfirst, hsecond] using hone.symm
      · -- two characters more and one word more
        have hmin (k : Nat) : min (words + 1) ((k + 2) / 2 + 1) = min words (k / 2 + 1) + 1 := by
          omega
        simp only [scan, hfirst, hsecond, if_false, List.length_cons, hmin,
          Segment.addressesFrom_succ, ← ih]

/-- Only the cells that are read count. -/
theorem scan_congr {data data' : Segment Word} {a : Word} {words : Nat}
    (h : ∀ b ∈ (scan data a words).1, data'.get b = data.get b) :
    scan data' a words = scan data a words := by
  induction words generalizing a with
  | zero => rfl
  | succ words ih =>
    -- the first word is read in any case, so both searches take the same branch
    have hmem : a ∈ (scan data a (words + 1)).1 := by
      rw [scan_fst, Nat.add_min_add_right, Segment.addressesFrom_succ]
      exact List.mem_cons_self
    have ha : data'.get a = data.get a := h a hmem
    by_cases hfirst : Word.high (data.get a) = 0
    · simp [scan, ha, hfirst]
    · by_cases hsecond : Word.low (data.get a) = 0
      · simp [scan, ha, hfirst, hsecond]
      · -- the later words are among those read, so the hypothesis reaches them
        have hlater : scan data' (a + 1) words = scan data (a + 1) words :=
          ih fun b hb => h b (by simp [scan, hfirst, hsecond, hb])
        simp only [scan, ha, hlater]

/-- The search behind the string at an address. -/
theorem scan_stringAt (m : Machine) (a : Word) :
    scan m.data a segmentSize =
      (addressesFrom a (min segmentSize ((m.stringAt a).length / 2 + 1)),
        (m.stringAt a).toList) := by
  have hchars : (m.stringAt a).toList = (scan m.data a segmentSize).2 := by
    rw [stringAt, packedChars_eq_scan, String.toList_ofList, List.reverse_nil, List.nil_append]
  rw [← String.length_toList, hchars, ← scan_fst]

/-- A memory that agrees at the addresses that are read has the same string. -/
theorem stringAt_congr {m m' : Machine} {a : Word}
    (h : ∀ b ∈ addressesFrom a (min segmentSize ((m.stringAt a).length / 2 + 1)),
      m'.data.get b = m.data.get b) : m'.stringAt a = m.stringAt a := by
  have hscan : scan m'.data a segmentSize = scan m.data a segmentSize := by
    apply scan_congr
    rwa [scan_stringAt]
  rw [scan_stringAt, scan_stringAt] at hscan
  exact String.toList_injective (Prod.ext_iff.1 hscan).2

/-- Without a zero byte the string takes the whole turn. -/
theorem length_stringAt_of_nonzero {m : Machine} {a : Word} (h : 0 ∉ m.data.turn a) :
    (m.stringAt a).length = 2 * segmentSize := by
  rw [← String.length_toList, toList_stringAt, List.length_map,
    (longestNonzero_takeWhile _).eq_of_nonzero h, Segment.length_turn]

end Machine

end WordMachine

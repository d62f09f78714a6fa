import WordMachine.Proofs.Host.Files
import WordMachine.Proofs.Memory.ByteOrder
import WordMachine.SaveStore

/-!
# The slots of a save file

A save file is 256 words, the low byte of each before the high one. `Slots.ofFile` reads them off
the bytes by position, and a file of any other length counts as zeros. `Slots.encode` is the way
back. The two ranges of bytes that the store reads and writes are ranges of slots:
`readAt_encode` and `overwrite_encode`, where `Slots.splice` says slot by slot what a write changes.
Bytes that are only a part of words still change no slot outside of their range
(`getElem?_ofFile_overwrite`).
-/

namespace WordMachine

namespace SaveStore

/-- The words of all slots. -/
abbrev Slots := Vector Word saveSlots

namespace Slots

/-- Every slot zero. -/
def zero : Slots := Vector.replicate saveSlots 0

/-- The slots that reading a file gives: the words of its bytes, low byte first, if it has the
length of a save file; zeros for any other file and for none. -/
def ofFile : Except OsError ByteArray → Slots
  | .ok bytes =>
    if bytes.size = byteSize then
      Vector.ofFn fun i => Word.ofBytes (bytes.data.toList[2 * i.val + 1]?.getD 0)
        (bytes.data.toList[2 * i.val]?.getD 0)
    else zero
  | .error _ => zero

/-- The bytes of a save file. -/
def encode (slots : Slots) : ByteArray := ⟨(Word.littleEndian slots.toList).toArray⟩

/-- The words of `length` slots from `start` on. -/
def range (slots : Slots) (start length : Nat) : List Word :=
  (slots.toList.drop start).take length

/-- The slots with words written from `start` on: a slot that a word falls on holds that word, and
every other slot holds what it held. -/
def splice (slots : Slots) (start : Nat) (words : List Word) : Slots :=
  Vector.ofFn fun i =>
    if start ≤ i.val then words[i.val - start]?.getD slots[i] else slots[i]

/-- The bytes of a save file are those of its words. -/
theorem toList_encode (slots : Slots) :
    slots.encode.data.toList = Word.littleEndian slots.toList := by
  simp [encode]

/-- A save file has two bytes for each slot. -/
theorem size_encode (slots : Slots) : slots.encode.size = byteSize := by
  have hlen : slots.encode.data.toList.length = byteSize := by
    rw [toList_encode, Word.length_littleEndian, Vector.length_toList]
  simpa using hlen

/-- The slots that a save file was written with are read back. -/
theorem ofFile_encode (slots : Slots) : ofFile (.ok slots.encode) = slots := by
  rw [ofFile, if_pos slots.size_encode]
  refine Vector.ext fun i hi => ?_
  have hlt : i < slots.toList.length := by simpa using hi
  obtain ⟨hlow, hhigh⟩ := Word.getElem?_littleEndian hlt
  rw [Vector.getElem_ofFn]
  simp only [toList_encode, hlow, hhigh, Option.getD_some, Word.ofBytes_high_low]
  simp

/-- A file of the right length holds the slots that reading it gives. -/
theorem eq_encode {bytes : ByteArray} (h : bytes.size = byteSize) :
    bytes = (ofFile (.ok bytes)).encode := by
  have hlen : bytes.data.toList.length = 2 * saveSlots := by simpa using h
  obtain ⟨ws, hws, hbytes⟩ := Word.exists_littleEndian hlen
  -- the words that the bytes are made of are as many as there are slots
  have hslots : bytes = encode ⟨ws.toArray, by simpa using hws⟩ := by
    apply ByteArray.ext
    apply Array.toList_inj.1
    rw [toList_encode, hbytes]
    simp [Vector.toList]
  rw [hslots, ofFile_encode]

/-- The bytes of a file that is made anew are those of zeros in every slot. -/
theorem zeros_eq : zeros = zero.encode := by
  have hbytes : ∀ n, Word.littleEndian (List.replicate n 0) = List.replicate (2 * n) 0 := by
    intro n
    induction n with
    | zero => rfl
    | succ n ih =>
      have hn : 2 * (n + 1) = 2 * n + 1 + 1 := by omega
      rw [List.replicate_succ, Word.littleEndian_cons, ih, hn, List.replicate_succ,
        List.replicate_succ]
      rfl
  apply ByteArray.ext
  apply Array.toList_inj.1
  rw [toList_encode]
  simp [zeros, zero, hbytes]

/-! ## Ranges -/

/-- An empty range has no words. -/
theorem range_zero (slots : Slots) (start : Nat) : slots.range start 0 = [] := by
  simp [range]

/-- A range of one slot has the word of that slot. -/
theorem range_one (slots : Slots) {slot : Nat} (h : slot < saveSlots) :
    slots.range slot 1 = [slots[slot]] := by
  have hlt : slot < slots.toList.length := by simpa using h
  rw [range, List.drop_eq_getElem_cons hlt]
  simp

/-- Reading the bytes of a range gives its words. -/
theorem readAt_encode {d : Disk} {number start length : Nat} {slots : Slots}
    (hbytes : d.bytes number = slots.encode) (h : start + length ≤ saveSlots) :
    d.readAt number (2 * start) (2 * length) =
      .ok (Word.littleEndian (slots.range start length)) := by
  have hsize : slots.encode.size = 2 * saveSlots := slots.size_encode
  have hle : 2 * start + 2 * length ≤ slots.encode.size := by omega
  unfold Disk.readAt
  rw [hbytes, if_pos hle, toList_encode, Word.drop_littleEndian, Word.take_littleEndian, range]

/-- Writing no words changes nothing. -/
theorem splice_nil (slots : Slots) (start : Nat) : slots.splice start [] = slots := by
  refine Vector.ext fun i hi => ?_
  simp [splice]

/-- Writing one word sets one slot. -/
theorem splice_one (slots : Slots) {slot : Nat} (h : slot < saveSlots) (w : Word) :
    slots.splice slot [w] = slots.set slot w := by
  refine Vector.ext fun i hi => ?_
  simp only [splice, Vector.getElem_ofFn, Vector.getElem_set]
  by_cases heq : slot = i
  · simp [heq]
  · by_cases hle : slot ≤ i
    · have hpos : i - slot ≠ 0 := by omega
      simp [heq, hle, hpos]
    · simp [heq, hle]

/-- A slot behind the start of a write holds the word that falls on it, if there is one. -/
theorem getElem?_splice (slots : Slots) (start : Nat) (words : List Word) {i : Nat}
    (h : i < saveSlots) :
    (slots.splice start words).toList[i]? =
      if start ≤ i then words[i - start]?.or slots.toList[i]? else slots.toList[i]? := by
  have hslot : slots.toList[i]? = some slots[i] := by simp [h]
  have hleft : (slots.splice start words).toList[i]? =
      some (if start ≤ i then words[i - start]?.getD slots[i] else slots[i]) := by
    simp [splice, h]
  rw [hleft, hslot]
  split
  · cases words[i - start]? <;> rfl
  · rfl

/-- The slots in front of a write, the words written, and the slots behind them. -/
theorem toList_splice {slots : Slots} {start : Nat} {words : List Word}
    (h : start + words.length ≤ saveSlots) :
    (slots.splice start words).toList =
      slots.toList.take start ++ words ++ slots.toList.drop (start + words.length) := by
  have hslots : slots.toList.length = saveSlots := Vector.length_toList
  have htake : (slots.toList.take start).length = start := by
    rw [List.length_take, hslots]
    omega
  apply List.ext_getElem?
  intro i
  by_cases hi : i < saveSlots
  · rw [getElem?_splice slots start words hi]
    by_cases hlow : i < start
    · -- before the range
      rw [if_neg (by omega), List.append_assoc, List.getElem?_append_left (by omega),
        List.getElem?_take_of_lt hlow]
    · rw [if_pos (by omega), List.append_assoc, List.getElem?_append_right (by omega), htake]
      by_cases hin : i - start < words.length
      · -- in the range
        rw [List.getElem?_append_left hin, List.getElem?_eq_getElem hin]
        rfl
      · -- behind the range
        rw [List.getElem?_append_right (by omega), List.getElem?_eq_none (by omega),
          List.getElem?_drop]
        have hback : start + words.length + (i - start - words.length) = i := by omega
        rw [hback]
        rfl
  · -- both lists end after the last slot
    rw [List.getElem?_eq_none, List.getElem?_eq_none]
    · rw [List.length_append, List.length_append, htake, List.length_drop, hslots]
      omega
    · rw [Vector.length_toList]
      omega

/-- Writing words over a range of bytes writes its slots. -/
theorem overwrite_encode {slots : Slots} {start : Nat} {words : List Word}
    (h : start + words.length ≤ saveSlots) :
    Disk.overwrite slots.encode (2 * start) (Word.littleEndian words) =
      (slots.splice start words).encode := by
  have hsize : slots.encode.size = 2 * saveSlots := slots.size_encode
  have hlength : (Word.littleEndian words).length = 2 * words.length := Word.length_littleEndian _
  have hend : 2 * start + 2 * words.length = 2 * (start + words.length) := by omega
  apply ByteArray.ext
  apply Array.toList_inj.1
  rw [Disk.toList_overwrite (by omega), toList_encode, toList_encode, toList_splice h,
    Word.littleEndian_append, Word.littleEndian_append, hlength, hend, Word.take_littleEndian,
    Word.drop_littleEndian]

/-- A slot is read off its two bytes. -/
theorem getElem?_ofFile_congr {bytes bytes' : ByteArray} {k : Nat}
    (hsize : bytes.size = bytes'.size)
    (hlow : bytes.data.toList[2 * k]? = bytes'.data.toList[2 * k]?)
    (hhigh : bytes.data.toList[2 * k + 1]? = bytes'.data.toList[2 * k + 1]?) :
    (ofFile (.ok bytes))[k]? = (ofFile (.ok bytes'))[k]? := by
  rw [ofFile, ofFile, hsize]
  split
  · by_cases hk : k < saveSlots
    · rw [Vector.getElem?_eq_getElem hk, Vector.getElem?_eq_getElem hk, Vector.getElem_ofFn,
        Vector.getElem_ofFn, hlow, hhigh]
    · rw [Vector.getElem?_eq_none (by omega), Vector.getElem?_eq_none (by omega)]
  · rfl

/-- Bytes written over some slots, not necessarily all of their bytes, leave the other slots. -/
theorem getElem?_ofFile_overwrite {slots : Slots} {start length k : Nat} {new : List UInt8}
    (h : start + length ≤ saveSlots) (hnew : new.length ≤ 2 * length)
    (hk : k < start ∨ start + length ≤ k) :
    (ofFile (.ok (Disk.overwrite slots.encode (2 * start) new)))[k]? = slots[k]? := by
  have hsize : slots.encode.size = 2 * saveSlots := slots.size_encode
  have hin : 2 * start + new.length ≤ slots.encode.size := by omega
  -- neither of the two bytes of the slot is among those written
  have hsame := getElem?_ofFile_congr (Disk.size_overwrite hin)
    (Disk.getElem?_overwrite_outside hin (k := 2 * k) (by omega))
    (Disk.getElem?_overwrite_outside hin (k := 2 * k + 1) (by omega))
  rw [hsame, ofFile_encode]

end Slots

end SaveStore

end WordMachine

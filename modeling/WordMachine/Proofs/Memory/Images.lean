import Mathlib.Tactic.ByContra
import WordMachine.Image
import WordMachine.Proofs.Memory.ByteOrder
import WordMachine.Proofs.Memory.Segments

/-!
# Images as bytes

The written form of an image gives the image back, whatever bytes follow it: `parse_toBytes_append`.
The code is read off byte by byte; a data word is read off from the two bytes at twice its address
behind the code, which are those that were written for it (`getElem?_bigEndian`).

The other way round, bytes that are long enough are read as some image (`Image.ofBytes`), whose
written form they start with: `toBytes_ofBytes`. So an image and its written form determine each
other, and the bytes behind the written form are counted and otherwise make no difference
(`parse_inverts_toBytes`).
-/

namespace WordMachine

namespace Segment

variable {α : Type}

/-- A segment has 65536 cells. -/
theorem size_toArray (s : Segment α) : s.toArray.size = segmentSize := s.cells.size_toArray

/-- The cells of a segment in the order of their addresses. -/
theorem getElem?_toArray (s : Segment α) (a : Word) : s.toArray[a.toNat]? = some (s.get a) := by
  have h : a.toNat < segmentSize := a.toNat_lt
  simp [toArray, get, h]

end Segment

namespace Image

/-- The written form of an image has one byte for each code cell and two for each data cell. -/
theorem size_toBytes (img : Image) : img.toBytes.size = byteSize := by
  have hcode := img.code.size_toArray
  have hdata := img.data.size_toArray
  have hthree : segmentSize + 2 * segmentSize = byteSize := rfl
  simp only [toBytes, ByteArray.size, Array.size_append, List.size_toArray, Word.length_bigEndian,
    Array.length_toList, hcode, hdata, hthree]

/-- The bytes of a byte array are those of the array below it. -/
theorem getElem?_data (bytes : ByteArray) (i : Nat) : bytes[i]? = bytes.data[i]? := rfl

/-- A byte of the written form, with other bytes behind it: one of the code, or of a data word. -/
theorem getElem?_toBytes (img : Image) (later : ByteArray) {i : Nat} (h : i < byteSize) :
    (img.toBytes ++ later)[i]? = if i < segmentSize then img.code.toArray[i]?
      else (Word.bigEndian img.data.toArray.toList)[i - segmentSize]? := by
  have hcode := img.code.size_toArray
  have hfront : i < img.toBytes.data.size := by
    rw [← img.size_toBytes] at h
    exact h
  rw [getElem?_data, ByteArray.data_append, Array.getElem?_append_left hfront]
  -- the code stands in front and the data behind it
  split
  · rename_i hi
    rw [toBytes, Array.getElem?_append_left (by omega)]
  · rename_i hi
    rw [toBytes, Array.getElem?_append_right (by omega), hcode, List.getElem?_toArray]

/-- The size of the written form, by its two parts. -/
theorem byteSize_eq : byteSize = segmentSize + 2 * segmentSize := rfl

/-- A byte of the code. -/
theorem getElem?_toBytes_code (img : Image) (later : ByteArray) (a : Word) :
    (img.toBytes ++ later)[a.toNat]? = some (img.code.get a) := by
  have ha : a.toNat < segmentSize := a.toNat_lt
  have hlt : a.toNat < byteSize := by
    rw [byteSize_eq]
    omega
  rw [getElem?_toBytes img later hlt, if_pos ha, Segment.getElem?_toArray]

/-- The two bytes of a data word. -/
theorem getElem?_toBytes_data (img : Image) (later : ByteArray) (a : Word) :
    (img.toBytes ++ later)[segmentSize + 2 * a.toNat]? = some (Word.high (img.data.get a)) ∧
      (img.toBytes ++ later)[segmentSize + 2 * a.toNat + 1]? =
        some (Word.low (img.data.get a)) := by
  have ha : a.toNat < segmentSize := a.toNat_lt
  have hlt : a.toNat < img.data.toArray.toList.length := by
    rw [Array.length_toList, img.data.size_toArray]
    exact ha
  -- the word at this place of the list is the one at this address
  have hword : img.data.toArray.toList[a.toNat] = img.data.get a := by
    have := img.data.getElem?_toArray a
    rw [← Array.getElem?_toList, List.getElem?_eq_getElem hlt] at this
    exact Option.some.inj this
  obtain ⟨hhigh, hlow⟩ := Word.getElem?_bigEndian hlt
  rw [hword] at hhigh hlow
  constructor
  · rw [getElem?_toBytes img later (by rw [byteSize_eq]; omega), if_neg (by omega),
      Nat.add_sub_cancel_left, hhigh]
  · rw [getElem?_toBytes img later (by rw [byteSize_eq]; omega), if_neg (by omega), Nat.add_assoc,
      Nat.add_sub_cancel_left, hlow]

/-- The written form of an image, with other bytes behind it, is read as the image and the number of
bytes that follow. -/
theorem parse_toBytes_append (img : Image) (later : ByteArray) :
    parse (img.toBytes ++ later) = .ok (img, later.size) := by
  have hsize : (img.toBytes ++ later).size = byteSize + later.size := by
    rw [ByteArray.size_append, size_toBytes]
  -- both segments agree with those of the image cell by cell
  have hcode : (Segment.ofFn fun i => (img.toBytes ++ later)[i]?.getD 0) = img.code := by
    apply Segment.ext_get
    intro a
    rw [Segment.get_ofFn, getElem?_toBytes_code, Option.getD_some]
  have hdata : (Segment.ofFn fun i =>
      Word.ofBytes ((img.toBytes ++ later)[segmentSize + 2 * i]?.getD 0)
        ((img.toBytes ++ later)[segmentSize + 2 * i + 1]?.getD 0)) = img.data := by
    apply Segment.ext_get
    intro a
    obtain ⟨hhigh, hlow⟩ := img.getElem?_toBytes_data later a
    simp only [Segment.get_ofFn, hhigh, hlow, Option.getD_some, Word.ofBytes_high_low]
  unfold parse
  rw [if_neg (by omega), hcode, hdata, hsize, Nat.add_sub_cancel_left]

/-! ## Bytes as images -/

/-- The image that bytes are read as, with zeros where they end too soon. -/
def ofBytes (bytes : ByteArray) : Image where
  code := .ofFn fun i => bytes[i]?.getD 0
  data := .ofFn fun i =>
    Word.ofBytes (bytes[segmentSize + 2 * i]?.getD 0) (bytes[segmentSize + 2 * i + 1]?.getD 0)

/-- The written form of an image is read as the image, with nothing left over. -/
theorem parse_toBytes (img : Image) : parse img.toBytes = .ok (img, 0) := by
  simpa using img.parse_toBytes_append .empty

/-- Too few bytes are refused. -/
theorem parse_of_lt {bytes : ByteArray} (h : bytes.size < byteSize) :
    parse bytes = .error (.tooSmall bytes.size) := if_pos h

/-- Enough bytes are read as the image that they give, and those behind it are counted. -/
theorem parse_of_le {bytes : ByteArray} (h : byteSize ≤ bytes.size) :
    parse bytes = .ok (ofBytes bytes, bytes.size - byteSize) := if_neg (Nat.not_lt.2 h)

/-- A data word of the image that bytes are read as. -/
theorem get_data_ofBytes (bytes : ByteArray) (a : Word) :
    (ofBytes bytes).data.get a =
      Word.ofBytes (bytes[segmentSize + 2 * a.toNat]?.getD 0)
        (bytes[segmentSize + 2 * a.toNat + 1]?.getD 0) := by
  rw [ofBytes, Segment.get_ofFn]

/-- The written form of the image that bytes are read as holds these bytes. -/
theorem getElem?_toBytes_ofBytes (bytes : ByteArray) {i : Nat} (h : i < byteSize) :
    (ofBytes bytes).toBytes[i]? = some (bytes[i]?.getD 0) := by
  rw [byteSize_eq] at h
  by_cases hcode : i < segmentSize
  · have hword : (UInt16.ofNat i).toNat = i := UInt16.toNat_ofNat_of_lt' hcode
    have hget := (ofBytes bytes).getElem?_toBytes_code .empty (UInt16.ofNat i)
    rwa [ByteArray.append_empty, ofBytes, Segment.get_ofFn, hword] at hget
  · -- behind the code stands the upper or the lower byte of a word
    obtain ⟨k, hk, hi⟩ : ∃ k < segmentSize,
        i = segmentSize + 2 * k ∨ i = segmentSize + 2 * k + 1 :=
      ⟨(i - segmentSize) / 2, by omega, by omega⟩
    have hword : (UInt16.ofNat k).toNat = k := UInt16.toNat_ofNat_of_lt' hk
    obtain ⟨hhigh, hlow⟩ := (ofBytes bytes).getElem?_toBytes_data .empty (UInt16.ofNat k)
    rw [ByteArray.append_empty, get_data_ofBytes, hword] at hhigh hlow
    rcases hi with hi | hi
    · rw [hi, hhigh, Word.high_ofBytes]
    · rw [hi, hlow, Word.low_ofBytes]

/-- Reading bytes and writing the image gives the bytes back, as far as the image reaches. -/
theorem toBytes_ofBytes {bytes : ByteArray} (h : byteSize ≤ bytes.size) :
    (ofBytes bytes).toBytes = bytes.extract 0 byteSize := by
  have hsize : (bytes.extract 0 byteSize).size = byteSize := by
    rw [ByteArray.size_extract]
    omega
  -- compared byte by byte
  apply ByteArray.ext
  apply Array.ext_getElem?
  intro i
  rw [← getElem?_data, ← getElem?_data]
  by_cases hi : i < byteSize
  · -- within the image, both have the byte that was read
    have hlt : i < bytes.size := Nat.lt_of_lt_of_le hi h
    have hkept : (bytes.extract 0 byteSize)[i]? = bytes[i]? := by
      have hend : i < min byteSize bytes.data.size - 0 := Nat.lt_min.2 ⟨hi, hlt⟩
      rw [getElem?_data, getElem?_data, ByteArray.data_extract, Array.getElem?_extract,
        if_pos hend, Nat.zero_add]
    rw [getElem?_toBytes_ofBytes bytes hi, hkept, getElem?_pos bytes i hlt]
    rfl
  · -- both end where the image does
    rw [getElem?_neg _ i (by rw [size_toBytes]; exact hi),
      getElem?_neg _ i (by rw [hsize]; exact hi)]

/-! ## Both directions -/

/-- Only bytes that are too few are no image, and the failure says how many there are. -/
theorem parse_eq_error_iff {bytes : ByteArray} {e : ImageError} :
    parse bytes = .error e ↔ bytes.size < byteSize ∧ e = .tooSmall bytes.size := by
  by_cases h : bytes.size < byteSize
  · rw [parse_of_lt h]
    constructor
    · intro he
      exact ⟨h, (Except.error.inj he).symm⟩
    · rintro ⟨-, rfl⟩
      rfl
  · rw [parse_of_le (Nat.not_lt.1 h)]
    exact ⟨nofun, fun he => absurd he.1 h⟩

/-- Bytes are read as the image whose written form they start with. -/
theorem parse_eq_ok_iff {bytes : ByteArray} {img : Image} {n : Nat} :
    parse bytes = .ok (img, n) ↔
      byteSize ≤ bytes.size ∧ n = bytes.size - byteSize ∧
        img.toBytes = bytes.extract 0 byteSize := by
  constructor
  · intro h
    have hle : byteSize ≤ bytes.size := by
      by_contra hlt
      rw [parse_of_lt (Nat.not_le.1 hlt)] at h
      cases h
    rw [parse_of_le hle] at h
    obtain ⟨himg, hn⟩ := Prod.mk.inj (Except.ok.inj h)
    exact ⟨hle, hn.symm, himg ▸ toBytes_ofBytes hle⟩
  · rintro ⟨hle, hn, himg⟩
    -- the bytes are the written form and what follows it
    have hsplit : bytes = img.toBytes ++ bytes.extract byteSize bytes.size := by
      rw [himg, ← ByteArray.extract_eq_extract_append_extract byteSize (Nat.zero_le _) hle,
        ByteArray.extract_zero_size]
    have hlater : (bytes.extract byteSize bytes.size).size = bytes.size - byteSize := by
      rw [ByteArray.size_extract, Nat.min_self]
    rw [hsplit, parse_toBytes_append, hlater, hn]

/-- Reading and writing images are inverse to each other. Reading fails exactly on fewer than 196608
bytes, and says how many there are. Any other bytes are read as the image whose written form they
start with, and the rest of them is counted. Every image has a written form of 196608 bytes: the
code, then the data words, upper byte first. It is read as the image again, whatever follows it. So
two sequences of bytes are read as one image only if they agree in their first 196608 bytes. -/
theorem parse_inverts_toBytes :
    (∀ bytes e, parse bytes = .error e ↔ bytes.size < 196608 ∧ e = .tooSmall bytes.size) ∧
    (∀ bytes, 196608 ≤ bytes.size → ∃ img, parse bytes = .ok (img, bytes.size - 196608) ∧
      img.toBytes = bytes.extract 0 196608) ∧
    (∀ img : Image, img.toBytes.size = 196608 ∧
      ∀ later, parse (img.toBytes ++ later) = .ok (img, later.size) ∧
        ∀ a : Word, (img.toBytes ++ later)[a.toNat]? = some (img.code.get a) ∧
          (img.toBytes ++ later)[65536 + 2 * a.toNat]? = some (Word.high (img.data.get a)) ∧
          (img.toBytes ++ later)[65536 + 2 * a.toNat + 1]? = some (Word.low (img.data.get a))) ∧
    ∀ bytes bytes' img n n', parse bytes = .ok (img, n) → parse bytes' = .ok (img, n') →
      bytes.extract 0 196608 = bytes'.extract 0 196608 := by
  refine ⟨fun bytes e => parse_eq_error_iff, ?_, ?_, ?_⟩
  · intro bytes hle
    exact ⟨ofBytes bytes, parse_of_le hle, toBytes_ofBytes hle⟩
  · intro img
    exact ⟨img.size_toBytes, fun later => ⟨img.parse_toBytes_append later,
      fun a => ⟨img.getElem?_toBytes_code later a, img.getElem?_toBytes_data later a⟩⟩⟩
  · intro bytes bytes' img n n' h h'
    obtain ⟨-, -, hbytes⟩ := parse_eq_ok_iff.1 h
    obtain ⟨-, -, hbytes'⟩ := parse_eq_ok_iff.1 h'
    exact hbytes.symm.trans hbytes'

/-- The written form of an image, with and without a byte behind it: both are read as the image, and
they agree in front. -/
theorem parse_inverts_toBytes_trailing :
    let img : Image := ⟨.ofFn UInt8.ofNat, .ofFn fun i => UInt16.ofNat (256 * i)⟩
    let long : ByteArray := img.toBytes ++ ⟨#[7]⟩
    parse long = .ok (img, 1) ∧ (∃ img', parse long = .ok (img', long.size - 196608) ∧
      img'.toBytes = long.extract 0 196608) ∧
    long.extract 0 196608 = (img.toBytes ++ .empty).extract 0 196608 := by
  intro img long
  obtain ⟨-, hread, hwrite, hsame⟩ := parse_inverts_toBytes
  obtain ⟨hsize, hlater⟩ := hwrite img
  have hlong : 196608 ≤ long.size := by
    rw [ByteArray.size_append, hsize]
    exact Nat.le_add_right _ _
  exact ⟨(hlater ⟨#[7]⟩).1, hread long hlong,
    hsame _ _ img 1 0 (hlater ⟨#[7]⟩).1 (hlater .empty).1⟩

end Image

end WordMachine

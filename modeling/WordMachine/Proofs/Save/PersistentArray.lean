import WordMachine.Proofs.Action
import WordMachine.Proofs.Host.Files
import WordMachine.Proofs.Save.Slots

/-!
# The save store as a persistent array

A program that keeps words in a save store sees an array of 256 words that outlives the store. The
array is what the file holds (`Slots.ofFile`), before the file was opened for the first time as well
as after it was closed, or the store dropped and made anew. `Slots.answer` and `Slots.after` say
what such an array answers to a request and what it holds then, with no file in sight.

The file is touched through the store alone, its path can be opened (`Disk.Opens`), and the disk has
room for what is written (`Disk.Takes`). The relation that one request keeps is `Attached`: the
number under which the store has its file open, if it has, is that of the file at its path, and that
file has the length of a save file. `fileNumber_attached` carries the proof: whatever the file was,
opening it leaves the bytes of the array there. On a disk without room a write fails, and still
leaves a save file in which the other slots are as before (`writeRange_refused`).
-/

namespace WordMachine

/-- The path can be opened: a file with contents stands there, or one can be created. -/
def Disk.Opens (d : Disk) (path : String) : Prop :=
  ∃ number d', d.openFile path = .ok (number, d') ∧ number < d'.contents.size

/-- The path of a file that is there can be opened. -/
theorem Disk.HasFile.opens {d : Disk} {path : String} {number : Nat}
    (h : d.HasFile path number) : d.Opens path := ⟨number, d, h.openFile_eq, h.2⟩

namespace SaveStore

/-! ## Requests -/

/-- What is asked of a save store. To renew it is to drop it and make a new one on its path. -/
inductive Request where
  | read (slot : Word)
  | write (slot w : Word)
  | readRange (start : Word) (length : Nat)
  | writeRange (start : Word) (words : List Word)
  | close
  | renew

/-- Serves a request and gives the words that it reads, which are none if it does not read. -/
def serve : Request → Op (List Word)
  | .read slot => do return [← read slot]
  | .write slot w => do
    write slot w
    return []
  | .readRange start length => readRange start length
  | .writeRange start words => do
    writeRange start words
    return []
  | .close => do
    modify fun (store, host) => (store.close, host)
    return []
  | .renew => do
    modify fun (store, host) => (.ofPath store.path, host)
    return []

/-- The store and the host after some requests, whether they failed or not. -/
def served (requests : List Request) (s : SaveStore × Host) : SaveStore × Host :=
  requests.foldl (fun s r => stateOf (serve r s)) s

/-- What a request came to. -/
def answerOf {σ α : Type} : EStateM.Result Fault σ α → Except Fault α
  | .ok x _ => .ok x
  | .error e _ => .error e

/-- The first slot and the number of slots that a request is about, if it accesses slots at all. -/
def Request.span? : Request → Option (Nat × Nat)
  | .read slot | .write slot _ => some (slot.toNat, 1)
  | .readRange start length => some (start.toNat, length)
  | .writeRange start words => some (start.toNat, words.length)
  | .close | .renew => none

/-- How many bytes of the file a request writes. -/
def Request.written : Request → Nat
  | .write _ _ => 2
  | .writeRange _ words => 2 * words.length
  | .read _ | .readRange _ _ | .close | .renew => 0

/-- How many bytes of the file requests write in all. -/
def written : List Request → Nat
  | [] => 0
  | r :: requests => r.written + written requests

/-- A request writes two bytes for each slot that it is about, or none. -/
theorem Request.written_le {r : Request} {start length : Nat}
    (h : r.span? = some (start, length)) : r.written ≤ 2 * length := by
  cases r with
  | read slot | readRange start length => exact Nat.zero_le _
  | write slot w =>
    obtain ⟨-, rfl⟩ := Prod.mk.inj (Option.some.inj h)
    exact Nat.le_refl _
  | writeRange start words =>
    obtain ⟨-, rfl⟩ := Prod.mk.inj (Option.some.inj h)
    exact Nat.le_refl _
  | close | renew => cases h

namespace Slots

/-- What an array of 256 words answers to a request. -/
def answer (slots : Slots) : Request → Except Fault (List Word)
  | .read slot =>
    if h : slot.toNat < saveSlots then .ok [slots[slot.toNat]]
    else .error (.saveSlotOutOfRange slot)
  | .write slot _ =>
    if slot.toNat < saveSlots then .ok [] else .error (.saveSlotOutOfRange slot)
  | .readRange start length =>
    if start.toNat + length ≤ saveSlots then .ok (slots.range start.toNat length)
    else .error (.saveRangeOutOfBounds start (UInt16.ofNat length))
  | .writeRange start words =>
    if start.toNat + words.length ≤ saveSlots then .ok []
    else .error (.saveRangeOutOfBounds start (UInt16.ofNat words.length))
  | .close | .renew => .ok []

/-- What an array of 256 words holds after a request. -/
def after (slots : Slots) : Request → Slots
  | .write slot w => if h : slot.toNat < saveSlots then slots.set slot.toNat w else slots
  | .writeRange start words =>
    if start.toNat + words.length ≤ saveSlots then slots.splice start.toNat words else slots
  | .read _ | .readRange _ _ | .close | .renew => slots

end Slots

/-! ## Opening the file -/

/-- The store is on the path, which can be opened. If it has a file open, that is the file at the
path, and it has the length of a save file. -/
structure Attached (path : String) (s : SaveStore × Host) : Prop where
  path_eq : s.1.path = path
  opens : s.2.disk.Opens path
  current : ∀ number, s.1.file = some number →
    s.2.disk.HasFile path number ∧ (s.2.disk.bytes number).size = byteSize

/-- The array that a file at the path stands for. -/
def slotsAt (path : String) (s : SaveStore × Host) : Slots := .ofFile (s.2.disk.read path)

/-- The store has the file at the path open under a number, and the file holds the slots. -/
structure Holds (path : String) (number : Nat) (slots : Slots) (s : SaveStore × Host) : Prop where
  path_eq : s.1.path = path
  file_eq : s.1.file = some number
  hasFile : s.2.disk.HasFile path number
  bytes_eq : s.2.disk.bytes number = slots.encode

variable {path : String} {s t : SaveStore × Host} {number : Nat} {slots : Slots}

/-- A store that holds slots is attached to its path. -/
theorem Holds.attached (h : Holds path number slots s) : Attached path s where
  path_eq := h.path_eq
  opens := h.hasFile.opens
  current n hn := by
    obtain rfl : number = n := Option.some.inj (h.file_eq.symm.trans hn)
    exact ⟨h.hasFile, by rw [h.bytes_eq, Slots.size_encode]⟩

/-- What a store holds can be read under its path. -/
theorem Holds.read_eq (h : Holds path number slots s) : s.2.disk.read path = .ok slots.encode := by
  rw [h.hasFile.read_eq, h.bytes_eq]

/-- What a store holds is the array at its path. -/
theorem Holds.slotsAt_eq (h : Holds path number slots s) : slotsAt path s = slots := by
  rw [slotsAt, h.read_eq, Slots.ofFile_encode]

/-- The file that has been opened has been found or created, and has been made anew if it was not
as long as a save file. -/
theorem openFile_eq_ok {host host' : Host} {path : String}
    (h : openFile host path = .ok (number, host')) :
    ∃ disk, host.disk.openFile path = .ok (number, disk) ∧
      (host' = { host with disk } ∨ (disk.bytes number).size ≠ byteSize ∧
        ∃ log, host' = ⟨disk.setBytes number zeros, log⟩) := by
  simp only [openFile, bind, Except.bind] at h
  cases hopen : host.disk.openFile path with
  | error e => simp [hopen] at h
  | ok found =>
    obtain ⟨number', disk⟩ := found
    rw [hopen] at h
    dsimp only at h
    split at h
    · obtain ⟨rfl, rfl⟩ := Prod.mk.inj (Except.ok.inj h)
      exact ⟨disk, rfl, .inl rfl⟩
    · -- a file of another length is overwritten with zeros, and that is logged
      rename_i hsize
      obtain ⟨rfl, rfl⟩ := Prod.mk.inj (Except.ok.inj h)
      exact ⟨disk, rfl, .inr ⟨hsize, _, rfl⟩⟩

/-- Getting at the file leaves it open. -/
theorem file_of_fileNumber (h : fileNumber s = .ok number t) : t.1.file = some number := by
  obtain ⟨⟨path, file⟩, host⟩ := s
  cases file with
  | some n =>
    obtain ⟨rfl, rfl⟩ := EStateM.Result.ok.inj h
    rfl
  | none =>
    simp only [fileNumber] at h
    split at h
    · obtain ⟨rfl, rfl⟩ := EStateM.Result.ok.inj h
      rfl
    · cases h

/-- Getting at the file takes no room. -/
theorem room_of_fileNumber (h : fileNumber s = .ok number t) : t.2.disk.room = s.2.disk.room := by
  obtain ⟨⟨path, file⟩, host⟩ := s
  cases file with
  | some n =>
    obtain ⟨-, rfl⟩ := EStateM.Result.ok.inj h
    rfl
  | none =>
    simp only [fileNumber] at h
    split at h
    · rename_i n host' hopen
      obtain ⟨-, rfl⟩ := EStateM.Result.ok.inj h
      -- zeros may be written to the file, but no room is taken for them
      obtain ⟨disk, hdisk, rfl | ⟨-, log, rfl⟩⟩ := openFile_eq_ok hopen
      · exact Disk.room_openFile hdisk
      · show disk.room = host.disk.room
        exact Disk.room_openFile hdisk
    · cases h

/-- What stands on the disk after a file was opened whose number and disk are known: the file of
the path, with the slots that it stood for. -/
theorem openFile_holds {host : Host} (h : host.disk.Opens path) :
    ∃ number host', openFile host path = .ok (number, host') ∧
      host'.disk.HasFile path number ∧
      host'.disk.bytes number = (Slots.ofFile (host.disk.read path)).encode := by
  obtain ⟨number, disk, hopen, hlt⟩ := h
  obtain ⟨hfile, hcases⟩ := Disk.openFile_cases hopen hlt
  by_cases hsize : (disk.bytes number).size = byteSize
  · -- a save file is left as it is; it cannot be new, since a new one is empty
    refine ⟨number, { host with disk := disk }, ?_, hfile, ?_⟩
    · simp only [openFile, hopen, bind, Except.bind, hsize]
      rfl
    · rcases hcases with rfl | ⟨-, hempty⟩
      · rw [hfile.read_eq]
        exact Slots.eq_encode hsize
      · rw [hempty] at hsize
        nomatch hsize
  · -- any other file is made anew with zeros, which is what it stood for
    have hzero : Slots.ofFile (host.disk.read path) = Slots.zero := by
      rcases hcases with rfl | ⟨⟨e, herr⟩, -⟩
      · rw [hfile.read_eq, Slots.ofFile, if_neg hsize]
      · rw [herr, Slots.ofFile]
    obtain ⟨log, hanew⟩ :
        ∃ log, openFile host path = .ok (number, ⟨disk.setBytes number zeros, log⟩) := by
      simp only [openFile, hopen, bind, Except.bind, if_neg hsize]
      exact ⟨_, rfl⟩
    refine ⟨number, ⟨disk.setBytes number zeros, log⟩, hanew, hfile.setBytes number zeros, ?_⟩
    rw [Disk.bytes_setBytes_self zeros hlt, hzero, Slots.zeros_eq]

/-- Getting at the file leaves it open, holding the array that it stood for before. -/
theorem fileNumber_attached (h : Attached path s) :
    ∃ number t, fileNumber s = .ok number t ∧ Holds path number (slotsAt path s) t := by
  obtain ⟨⟨path', file⟩, host⟩ := s
  obtain rfl : path' = path := h.path_eq
  cases file with
  | some number =>
    -- an open file has been found at the path before and has the right length
    obtain ⟨hfile, hsize⟩ := h.current number rfl
    refine ⟨number, _, rfl, rfl, rfl, hfile, ?_⟩
    rw [slotsAt, hfile.read_eq]
    exact Slots.eq_encode hsize
  | none =>
    obtain ⟨number, host', hopen, hfile, hbytes⟩ := openFile_holds h.opens
    refine ⟨number, (⟨path', some number⟩, host'), ?_, rfl, rfl, hfile, hbytes⟩
    simp only [fileNumber, hopen]

/-! ## Ranges -/

/-- A range is there if it ends at the last slot or before. -/
theorem inRange_eq (start : Word) (length : Nat) :
    inRange start length = decide (start.toNat + length ≤ saveSlots) := rfl

/-- Reading a range that is not there is a fault and does nothing else. -/
theorem readRange_outside {start : Word} {length : Nat} (h : ¬ start.toNat + length ≤ saveSlots)
    (s : SaveStore × Host) :
    readRange start length s = .error (.saveRangeOutOfBounds start (UInt16.ofNat length)) s := by
  unfold readRange
  rw [inRange_eq, decide_eq_false h]
  rfl

/-- Reading an empty range opens no file. -/
theorem readRange_empty {start : Word} (h : start.toNat ≤ saveSlots) (s : SaveStore × Host) :
    readRange start 0 s = .ok [] s := by
  unfold readRange
  rw [inRange_eq, Nat.add_zero, decide_eq_true h]
  rfl

section

variable {start : Word} {length : Nat} (h : start.toNat + length ≤ saveSlots) (hpos : length ≠ 0)

include h hpos

/-- A range that is there is read from the file, once that has a number. -/
theorem readRange_eq (s : SaveStore × Host) :
    readRange start length s = (do
      let number ← fileNumber
      let (store, host) ← get
      match host.disk.readAt number (2 * start.toNat) (2 * length) with
      | .ok bytes => return Word.ofLittleEndian bytes
      | .error cause => throw (.save store.path cause) : Op (List Word)) s := by
  unfold readRange
  rewrite [inRange_eq, decide_eq_true h, if_neg (by decide), if_neg hpos]
  rfl

/-- If the file cannot be opened, reading a range fails for that reason. -/
theorem readRange_of_error {s t : SaveStore × Host} {e : Fault}
    (hnumber : fileNumber s = .error e t) : readRange start length s = .error e t :=
  (readRange_eq h hpos s).trans (bind_of_error hnumber)

section

variable {s t : SaveStore × Host} {number : Nat} (hnumber : fileNumber s = .ok number t)

include hnumber

/-- Once the file has a number, reading a range is reading its bytes. -/
theorem readRange_of_number :
    readRange start length s =
      (match t.2.disk.readAt number (2 * start.toNat) (2 * length) with
      | .ok bytes => pure (Word.ofLittleEndian bytes)
      | .error cause => throw (.save t.1.path cause) : Op (List Word)) t :=
  (readRange_eq h hpos s).trans ((bind_of_ok hnumber).trans get_bind_eq)

/-- The words of a range are those of its bytes. -/
theorem readRange_of_ok {bytes : List UInt8}
    (hread : t.2.disk.readAt number (2 * start.toNat) (2 * length) = .ok bytes) :
    readRange start length s = .ok (Word.ofLittleEndian bytes) t := by
  rw [readRange_of_number h hpos hnumber, hread]
  rfl

/-- A file that is too short for the range is a fault that names the path. -/
theorem readRange_of_shortRead {cause : OsError}
    (hread : t.2.disk.readAt number (2 * start.toNat) (2 * length) = .error cause) :
    readRange start length s = .error (.save t.1.path cause) t := by
  rw [readRange_of_number h hpos hnumber, hread]
  rfl

end

end

/-- Reading a range that is there gives the words of the array and leaves the array alone. -/
theorem readRange_inside {start : Word} {length : Nat} (h : start.toNat + length ≤ saveSlots)
    (hpos : length ≠ 0) (hs : Attached path s) :
    ∃ number t, readRange start length s =
        .ok ((slotsAt path s).range start.toNat length) t ∧
      Holds path number (slotsAt path s) t ∧ t.2.disk.room = s.2.disk.room := by
  obtain ⟨number, t, hnumber, hholds⟩ := fileNumber_attached hs
  refine ⟨number, t, ?_, hholds, room_of_fileNumber hnumber⟩
  have hread := Slots.readAt_encode hholds.bytes_eq h
  rw [readRange_of_ok h hpos hnumber hread, Word.ofLittleEndian_littleEndian]

/-- Writing a range that is not there is a fault and does nothing else. -/
theorem writeRange_outside {start : Word} {words : List Word}
    (h : ¬ start.toNat + words.length ≤ saveSlots) (s : SaveStore × Host) :
    writeRange start words s =
      .error (.saveRangeOutOfBounds start (UInt16.ofNat words.length)) s := by
  unfold writeRange
  rw [inRange_eq, decide_eq_false h]
  rfl

/-- Writing no words opens no file. -/
theorem writeRange_empty {start : Word} (h : start.toNat ≤ saveSlots) (s : SaveStore × Host) :
    writeRange start [] s = .ok () s := by
  unfold writeRange
  rw [inRange_eq, List.length_nil, Nat.add_zero, decide_eq_true h]
  rfl

section

variable {start : Word} {words : List Word} (h : start.toNat + words.length ≤ saveSlots)
  (hne : words ≠ [])

include h hne

/-- A range that is there is written to the file, once that has a number. -/
theorem writeRange_eq (hnumber : fileNumber s = .ok number t) :
    writeRange start words s =
      onDisk (Disk.writeOpen number (2 * start.toNat) (Word.littleEndian words)) t := by
  unfold writeRange
  rw [inRange_eq, decide_eq_true h, if_neg (by decide), if_neg hne]
  exact bind_of_ok hnumber

/-- It is written as a whole where the disk has room for it. -/
theorem writeRange_of_takes (hnumber : fileNumber s = .ok number t)
    (htakes : t.2.disk.Takes (2 * words.length)) :
    writeRange start words s = .ok () (t.1, { t.2 with
      disk := (t.2.disk.writeAt number (2 * start.toNat) (Word.littleEndian words)).spend
        (2 * words.length) }) := by
  rw [← Word.length_littleEndian] at htakes ⊢
  rw [writeRange_eq h hne hnumber]
  simp only [onDisk, Disk.writeOpen_of_takes _ htakes]

/-- Elsewhere the bytes that fit are written, and the disk's report is the fault. -/
theorem writeRange_of_not_takes (hnumber : fileNumber s = .ok number t)
    (hfull : ¬ t.2.disk.Takes (2 * words.length)) :
    writeRange start words s = .error (.save t.1.path .noSpace) (t.1, { t.2 with
      disk := (t.2.disk.writeAt number (2 * start.toNat)
        (t.2.disk.fitting (Word.littleEndian words))).spend (2 * words.length) }) := by
  rw [← Word.length_littleEndian] at hfull ⊢
  rw [writeRange_eq h hne hnumber]
  simp only [onDisk, Disk.writeOpen_of_not_takes _ hfull]

end

section

variable {slot : Word}

/-- A slot that is there is read as a range of one. -/
theorem read_of_readRange {w : Word} (h : slot.toNat + 1 ≤ saveSlots)
    (hread : readRange slot 1 s = .ok [w] t) : read slot s = .ok w t := by
  unfold read
  rw [inRange_eq, decide_eq_true h]
  exact bind_of_ok hread

/-- A slot that is not there is reported as such, and not as a range. -/
theorem read_outside (h : ¬ slot.toNat + 1 ≤ saveSlots) (s : SaveStore × Host) :
    read slot s = .error (.saveSlotOutOfRange slot) s := by
  unfold read
  rw [inRange_eq, decide_eq_false h]
  rfl

/-- A slot that is there is written as a range of one. -/
theorem write_eq_writeRange (w : Word) (h : slot.toNat + 1 ≤ saveSlots) (s : SaveStore × Host) :
    write slot w s = writeRange slot [w] s := by
  unfold write
  rw [inRange_eq, decide_eq_true h]
  rfl

/-- Nothing is written to a slot that is not there. -/
theorem write_outside (w : Word) (h : ¬ slot.toNat + 1 ≤ saveSlots) (s : SaveStore × Host) :
    write slot w s = .error (.saveSlotOutOfRange slot) s := by
  unfold write
  rw [inRange_eq, decide_eq_false h]
  rfl

end

/-- The bytes of a file that holds slots, once words have been written to a range of them. -/
theorem bytes_writeAt_encode {d : Disk} {number start : Nat} {slots : Slots} {words : List Word}
    (hlt : number < d.contents.size) (hbytes : d.bytes number = slots.encode)
    (h : start + words.length ≤ saveSlots) :
    (d.writeAt number (2 * start) (Word.littleEndian words)).bytes number =
      (slots.splice start words).encode := by
  rw [Disk.writeAt, Disk.bytes_setBytes_self _ hlt, hbytes, Slots.overwrite_encode h]

/-- A file that is written to is still the one at its path. -/
theorem Holds.hasFile_written (h : Holds path number slots s) (offset n : Nat) (new : List UInt8) :
    ((s.2.disk.writeAt number offset new).spend n).HasFile path number :=
  (Disk.hasFile_spend_iff n).2 (h.hasFile.setBytes number _)

section

variable {start : Word} {words : List Word} (h : start.toNat + words.length ≤ saveSlots)
  (hne : words ≠ []) (hs : Attached path s)

include h hne hs

/-- With room on the disk, the array changes in the range. -/
theorem writeRange_inside (htakes : s.2.disk.Takes (2 * words.length)) :
    ∃ number t, writeRange start words s = .ok () t ∧
      Holds path number ((slotsAt path s).splice start.toNat words) t ∧
      t.2.disk.room = (s.2.disk.spend (2 * words.length)).room := by
  obtain ⟨number, t, hnumber, hholds⟩ := fileNumber_attached hs
  have hroom := room_of_fileNumber hnumber
  have htakes' : t.2.disk.Takes (2 * words.length) := by rwa [Disk.Takes, hroom]
  refine ⟨number, _, writeRange_of_takes h hne hnumber htakes', ⟨hholds.path_eq, hholds.file_eq,
    hholds.hasFile_written _ _ _, bytes_writeAt_encode hholds.hasFile.2 hholds.bytes_eq h⟩, ?_⟩
  exact congrArg (Option.map (· - 2 * words.length)) hroom

/-- Without room, the write fails, and leaves a save file in which the slots outside of the range
are as before. -/
theorem writeRange_refused (hfull : ¬ s.2.disk.Takes (2 * words.length)) :
    ∃ number slots t, writeRange start words s = .error (.save path .noSpace) t ∧
      Holds path number slots t ∧
      ∀ k, k < start.toNat ∨ start.toNat + words.length ≤ k → slots[k]? = (slotsAt path s)[k]? := by
  obtain ⟨number, t, hnumber, hholds⟩ := fileNumber_attached hs
  have hfull' : ¬ t.2.disk.Takes (2 * words.length) := by
    rwa [Disk.Takes, room_of_fileNumber hnumber]
  have hserve := writeRange_of_not_takes h hne hnumber hfull'
  rw [hholds.path_eq] at hserve
  -- a part of the bytes may have arrived, and none outside of the range
  have hlength : (t.2.disk.fitting (Word.littleEndian words)).length ≤ 2 * words.length :=
    Nat.le_trans (t.2.disk.length_fitting_le _) (Nat.le_of_eq (Word.length_littleEndian _))
  have hbytes : (t.2.disk.writeAt number (2 * start.toNat)
      (t.2.disk.fitting (Word.littleEndian words))).bytes number =
        Disk.overwrite (slotsAt path s).encode (2 * start.toNat)
          (t.2.disk.fitting (Word.littleEndian words)) := by
    rw [Disk.writeAt, Disk.bytes_setBytes_self _ hholds.hasFile.2, hholds.bytes_eq]
  have hencode : (slotsAt path s).encode.size = 2 * saveSlots := Slots.size_encode _
  have hin : 2 * start.toNat + (t.2.disk.fitting (Word.littleEndian words)).length ≤
      (slotsAt path s).encode.size := by omega
  have hsize := Disk.size_overwrite hin
  refine ⟨number, _, _, hserve, ⟨hholds.path_eq, hholds.file_eq, hholds.hasFile_written _ _ _,
    hbytes.trans (Slots.eq_encode (hsize.trans hencode))⟩, fun k hk => ?_⟩
  exact Slots.getElem?_ofFile_overwrite h hlength hk

end

/-! ## One request -/

/-- What one request does to a store that is attached to a path. With room on the disk it answers as
the array does and leaves the array behind as the request says; without, a write fails and changes
no slot but those it is about. An access outside of the slots changes nothing at all, nor does one
to no slot; any other access leaves a save file behind. -/
structure Serves (path : String) (r : Request) (s : SaveStore × Host) : Prop where
  answer_eq : s.2.disk.Takes r.written → answerOf (serve r s) = (slotsAt path s).answer r
  after_eq : s.2.disk.Takes r.written →
    slotsAt path (stateOf (serve r s)) = (slotsAt path s).after r
  takes : ∀ n, s.2.disk.Takes (r.written + n) → (stateOf (serve r s)).2.disk.Takes n
  refused : ¬ s.2.disk.Takes r.written → ∀ start length, r.span? = some (start, length) →
    start + length ≤ saveSlots → ∃ t, serve r s = .error (.save path .noSpace) t ∧
      ∀ k, k < start ∨ start + length ≤ k → (slotsAt path t)[k]? = (slotsAt path s)[k]?
  attached : Attached path (stateOf (serve r s))
  outside : ∀ start length, r.span? = some (start, length) → saveSlots < start + length →
    ∃ e, serve r s = .error e s
  empty : ∀ start, r.span? = some (start, 0) → start ≤ saveSlots → serve r s = .ok [] s
  fills : ∀ start length, r.span? = some (start, length) → start + length ≤ saveSlots →
    length ≠ 0 → ∃ bytes, (stateOf (serve r s)).2.disk.read path = .ok bytes ∧
      bytes.size = byteSize

/-- An access to slots that exist, once it is known what it reads and what it leaves. -/
theorem Serves.of_holds {r : Request} {start length : Nat} {words : List Word}
    (htakes : s.2.disk.Takes r.written) (hspan : r.span? = some (start, length))
    (hin : start + length ≤ saveSlots) (hpos : length ≠ 0) (hserve : serve r s = .ok words t)
    (hanswer : (slotsAt path s).answer r = .ok words)
    (hholds : Holds path number ((slotsAt path s).after r) t)
    (hroom : t.2.disk.room = (s.2.disk.spend r.written).room) : Serves path r s where
  answer_eq _ := by rw [hserve, hanswer, answerOf]
  after_eq _ := by rw [hserve, stateOf_ok, hholds.slotsAt_eq]
  takes n h := by
    rw [hserve, stateOf_ok, Disk.Takes, hroom]
    exact h.spend
  refused hfull := absurd htakes hfull
  attached := by
    rw [hserve]
    exact hholds.attached
  outside start' length' hspan' hout := by
    obtain ⟨rfl, rfl⟩ := Prod.mk.inj (Option.some.inj (hspan.symm.trans hspan'))
    omega
  empty start' hspan' _ := by
    obtain ⟨rfl, rfl⟩ := Prod.mk.inj (Option.some.inj (hspan.symm.trans hspan'))
    exact absurd rfl hpos
  fills _ _ _ _ _ := ⟨_, by rw [hserve, stateOf_ok, hholds.read_eq], Slots.size_encode _⟩

/-- A write for which the disk has no room. -/
theorem Serves.of_refused {r : Request} {start length : Nat}
    (hfull : ¬ s.2.disk.Takes r.written) (hspan : r.span? = some (start, length))
    (hin : start + length ≤ saveSlots) (hserve : serve r s = .error (.save path .noSpace) t)
    (hholds : Holds path number slots t)
    (hkeeps : ∀ k, k < start ∨ start + length ≤ k → slots[k]? = (slotsAt path s)[k]?) :
    Serves path r s where
  answer_eq h := absurd h hfull
  after_eq h := absurd h hfull
  takes n h := absurd (h.mono (Nat.le_add_right _ n)) hfull
  refused _ start' length' hspan' _ := by
    obtain ⟨rfl, rfl⟩ := Prod.mk.inj (Option.some.inj (hspan.symm.trans hspan'))
    refine ⟨t, hserve, fun k hk => ?_⟩
    rw [hholds.slotsAt_eq, hkeeps k hk]
  attached := by
    rw [hserve]
    exact hholds.attached
  outside start' length' hspan' hout := by
    obtain ⟨rfl, rfl⟩ := Prod.mk.inj (Option.some.inj (hspan.symm.trans hspan'))
    omega
  empty start' hspan' _ := absurd (s.2.disk.takes_zero.mono (Request.written_le hspan')) hfull
  fills _ _ _ _ _ := ⟨_, by rw [hserve, stateOf_error, hholds.read_eq], Slots.size_encode _⟩

/-- An access to slots that do not all exist. -/
theorem Serves.of_outside {r : Request} {start length : Nat} {e : Fault} (hs : Attached path s)
    (hspan : r.span? = some (start, length)) (hout : ¬ start + length ≤ saveSlots)
    (hserve : serve r s = .error e s) (hanswer : (slotsAt path s).answer r = .error e)
    (hafter : (slotsAt path s).after r = slotsAt path s) : Serves path r s where
  answer_eq _ := by rw [hserve, hanswer, answerOf]
  after_eq _ := by rw [hserve, stateOf_error, hafter]
  takes n h := by
    rw [hserve]
    exact h.mono (Nat.le_add_left n _)
  refused _ start' length' hspan' hin := by
    obtain ⟨rfl, rfl⟩ := Prod.mk.inj (Option.some.inj (hspan.symm.trans hspan'))
    exact absurd hin hout
  attached := by
    rw [hserve]
    exact hs
  outside _ _ _ _ := ⟨e, hserve⟩
  empty start' hspan' hle := by
    obtain ⟨rfl, rfl⟩ := Prod.mk.inj (Option.some.inj (hspan.symm.trans hspan'))
    exact absurd hle hout
  fills start' length' hspan' hin _ := by
    obtain ⟨rfl, rfl⟩ := Prod.mk.inj (Option.some.inj (hspan.symm.trans hspan'))
    exact absurd hin hout

/-- An access to no slot. -/
theorem Serves.of_empty {r : Request} {start : Nat} (hs : Attached path s)
    (hspan : r.span? = some (start, 0)) (hin : start ≤ saveSlots) (hserve : serve r s = .ok [] s)
    (hanswer : (slotsAt path s).answer r = .ok [])
    (hafter : (slotsAt path s).after r = slotsAt path s) : Serves path r s where
  answer_eq _ := by rw [hserve, hanswer, answerOf]
  after_eq _ := by rw [hserve, stateOf_ok, hafter]
  takes n h := by
    rw [hserve]
    exact h.mono (Nat.le_add_left n _)
  refused hfull := absurd (s.2.disk.takes_zero.mono (Request.written_le hspan)) hfull
  attached := by
    rw [hserve]
    exact hs
  outside start' length' hspan' hout := by
    obtain ⟨rfl, rfl⟩ := Prod.mk.inj (Option.some.inj (hspan.symm.trans hspan'))
    omega
  empty _ _ _ := hserve
  fills start' length' hspan' _ hpos := by
    obtain ⟨rfl, rfl⟩ := Prod.mk.inj (Option.some.inj (hspan.symm.trans hspan'))
    exact absurd rfl hpos

/-- A request that lets go of the file. -/
theorem Serves.of_detached {r : Request} (hs : Attached path s) (hspan : r.span? = none)
    (hserve : serve r s = .ok [] (⟨s.1.path, none⟩, s.2))
    (hanswer : (slotsAt path s).answer r = .ok [])
    (hafter : (slotsAt path s).after r = slotsAt path s) : Serves path r s where
  answer_eq _ := by rw [hserve, hanswer, answerOf]
  after_eq _ := by
    rw [hserve, stateOf_ok, hafter]
    rfl
  takes n h := by
    rw [hserve]
    exact h.mono (Nat.le_add_left n _)
  refused _ _ _ hspan' := nomatch hspan.symm.trans hspan'
  attached := by
    rw [hserve]
    exact ⟨hs.path_eq, hs.opens, nofun⟩
  outside _ _ hspan' _ := nomatch hspan.symm.trans hspan'
  empty _ hspan' _ := nomatch hspan.symm.trans hspan'
  fills _ _ hspan' _ _ := nomatch hspan.symm.trans hspan'

/-- Every request serves an attached store as an array. -/
theorem Attached.serves (hs : Attached path s) (r : Request) : Serves path r s := by
  cases r with
  | read slot =>
    by_cases h : slot.toNat + 1 ≤ saveSlots
    · obtain ⟨number, t, hread, hholds, hroom⟩ := readRange_inside h (by decide) hs
      have hanswer : (slotsAt path s).answer (.read slot) = .ok [(slotsAt path s)[slot.toNat]] :=
        dif_pos h
      refine .of_holds (Disk.takes_zero _) rfl h (by decide) ?_ hanswer hholds
        (hroom.trans (Disk.room_spend_zero _).symm)
      rw [Slots.range_one _ h] at hread
      exact bind_of_ok (read_of_readRange h hread)
    · exact .of_outside hs rfl h (bind_of_error (read_outside h s)) (dif_neg h) rfl
  | write slot w =>
    by_cases h : slot.toNat + 1 ≤ saveSlots
    · have hone : slot.toNat + [w].length ≤ saveSlots := h
      have hslot := write_eq_writeRange w h s
      by_cases htakes : s.2.disk.Takes 2
      · obtain ⟨number, t, hwrite, hholds, hroom⟩ := writeRange_inside hone (by simp) hs htakes
        have hafter : (slotsAt path s).after (.write slot w) =
            (slotsAt path s).splice slot.toNat [w] := by
          rw [Slots.splice_one _ h]
          exact dif_pos h
        exact .of_holds htakes rfl h (by decide) (bind_of_ok (hslot.trans hwrite)) (if_pos h)
          (hafter ▸ hholds) hroom
      · obtain ⟨number, slots, t, hwrite, hholds, hkeeps⟩ :=
          writeRange_refused hone (by simp) hs htakes
        exact .of_refused htakes rfl h (bind_of_error (hslot.trans hwrite)) hholds hkeeps
    · exact .of_outside hs rfl h (bind_of_error (write_outside w h s)) (if_neg h) (dif_neg h)
  | readRange start length =>
    by_cases h : start.toNat + length ≤ saveSlots
    · by_cases hpos : length = 0
      · subst hpos
        refine .of_empty hs rfl h (readRange_empty h s) ?_ rfl
        rw [Slots.answer, if_pos h, Slots.range_zero]
      · obtain ⟨number, t, hread, hholds, hroom⟩ := readRange_inside h hpos hs
        exact .of_holds (Disk.takes_zero _) rfl h hpos hread (if_pos h) hholds
          (hroom.trans (Disk.room_spend_zero _).symm)
    · exact .of_outside hs rfl h (readRange_outside h s) (if_neg h) rfl
  | writeRange start words =>
    by_cases h : start.toNat + words.length ≤ saveSlots
    · have hafter : (slotsAt path s).after (.writeRange start words) =
          (slotsAt path s).splice start.toNat words := if_pos h
      by_cases hne : words = []
      · subst hne
        refine .of_empty hs rfl h (bind_of_ok (writeRange_empty h s)) (if_pos h) ?_
        rw [hafter, Slots.splice_nil]
      · have hpos : words.length ≠ 0 := fun hlen => hne (List.eq_nil_of_length_eq_zero hlen)
        by_cases htakes : s.2.disk.Takes (2 * words.length)
        · obtain ⟨number, t, hwrite, hholds, hroom⟩ := writeRange_inside h hne hs htakes
          exact .of_holds htakes rfl h hpos (bind_of_ok hwrite) (if_pos h) (hafter ▸ hholds) hroom
        · obtain ⟨number, slots, t, hwrite, hholds, hkeeps⟩ := writeRange_refused h hne hs htakes
          exact .of_refused htakes rfl h (bind_of_error hwrite) hholds hkeeps
    · exact .of_outside hs rfl h (bind_of_error (writeRange_outside h s)) (if_neg h) (if_neg h)
  | close => exact .of_detached hs rfl rfl rfl rfl
  | renew => exact .of_detached hs rfl rfl rfl rfl

/-! ## Any number of requests -/

/-- A new store on a path that can be opened is attached to it. -/
theorem attached_ofPath {host : Host} (h : host.disk.Opens path) :
    Attached path (.ofPath path, host) := ⟨rfl, h, nofun⟩

/-- An attached store stays attached. -/
theorem Attached.served (hs : Attached path s) (requests : List Request) :
    Attached path (served requests s) := by
  induction requests generalizing s with
  | nil => exact hs
  | cons r requests ih => exact ih (hs.serves r).attached

/-- On a disk with room for what requests write and for more, the array follows the requests, and
there is room for the rest. -/
theorem Attached.slotsAt_served (hs : Attached path s) {requests : List Request} {n : Nat}
    (htakes : s.2.disk.Takes (written requests + n)) :
    slotsAt path (SaveStore.served requests s) = requests.foldl Slots.after (slotsAt path s) ∧
      (SaveStore.served requests s).2.disk.Takes n := by
  induction requests generalizing s with
  | nil => exact ⟨rfl, htakes.mono (Nat.le_add_left n _)⟩
  | cons r requests ih =>
    have hserves := hs.serves r
    rw [written, Nat.add_assoc] at htakes
    rw [List.foldl_cons, ← hserves.after_eq (htakes.mono (Nat.le_add_right _ _))]
    exact ih hserves.attached (hserves.takes _ htakes)

/-- A save store is an array of 256 words that the file keeps. The array starts as the words of the
file at the path if that has the length of a save file, and as zeros otherwise. After any requests,
the next one answers as the array does and changes it as the request says, closing the store and
making a new one included, provided that the disk has room for what they write. An access that is
not wholly inside of the slots fails and changes neither the store nor any file, an access to no
slot succeeds and changes neither, and after any other access the file is there and has the length
of a save file. A write for which the disk has no room any more is reported as such, and changes no
slot but those it is about. -/
theorem store_is_persistent_array (path : String) (host : Host) (h : host.disk.Opens path)
    (past : List Request) (r : Request) :
    let s := served past (.ofPath path, host)
    let slots := past.foldl Slots.after (.ofFile (host.disk.read path))
    (host.disk.Takes (written past + r.written) → answerOf (serve r s) = slots.answer r ∧
      Slots.ofFile ((stateOf (serve r s)).2.disk.read path) = slots.after r) ∧
    (∀ start length, r.span? = some (start, length) → saveSlots < start + length →
      ∃ e, serve r s = .error e s) ∧
    (∀ start, r.span? = some (start, 0) → start ≤ saveSlots → serve r s = .ok [] s) ∧
    (∀ start length, r.span? = some (start, length) → start + length ≤ saveSlots → length ≠ 0 →
      ∃ bytes, (stateOf (serve r s)).2.disk.read path = .ok bytes ∧ bytes.size = byteSize) ∧
    (¬ s.2.disk.Takes r.written → ∀ start length, r.span? = some (start, length) →
      start + length ≤ saveSlots → ∃ t, serve r s = .error (.save path .noSpace) t ∧
        ∀ k, k < start ∨ start + length ≤ k → (Slots.ofFile (t.2.disk.read path))[k]? =
          (Slots.ofFile (s.2.disk.read path))[k]?) := by
  intro s slots
  have hstart := attached_ofPath h
  have hserves := (hstart.served past).serves r
  refine ⟨fun htakes => ?_, hserves.outside, hserves.empty, hserves.fills, hserves.refused⟩
  obtain ⟨hslots, hleft⟩ := hstart.slotsAt_served htakes
  have hanswer := hserves.answer_eq hleft
  have hafter := hserves.after_eq hleft
  rw [hslots] at hanswer hafter
  exact ⟨hanswer, hafter⟩

/-- A file of three bytes counts as zeros; a word written to its last slot is read back after the
store was closed and made anew. -/
theorem store_is_persistent_array_renewed :
    let host : Host := ⟨⟨[(["p.sav"], .file 0)], #[⟨#[1, 2, 3]⟩], some 2⟩, .empty⟩
    let s := served [.write 255 7, .close, .renew] (.ofPath "p.sav", host)
    host.disk.Opens "p.sav" ∧ host.disk.Takes 2 ∧
      answerOf (serve (.readRange 254 2) s) = .ok [0, 7] := by
  intro host s
  have hopens : host.disk.Opens "p.sav" := ⟨0, host.disk, rfl, by decide⟩
  have htakes : host.disk.Takes 2 := by decide
  refine ⟨hopens, htakes, ?_⟩
  have hanswer := ((store_is_persistent_array "p.sav" host hopens [.write 255 7, .close, .renew]
    (.readRange 254 2)).1 htakes).1
  rw [hanswer]
  rfl

end SaveStore

end WordMachine

import WordMachine.Proofs.Save.Frame

/-!
# What a save store holds

The slots of a store are those of its open file or, while none is open, those that the file at its
path stands for (`contents`). Opening the file does not change them, whatever the file was: that is
`contents_openFile`, and it needs no condition on the disk. So looking at slots never changes any
(`keepsContents_read`, `keepsContents_readRange`).

An access to slots that exist can fail in the file system only, and a store for which it does not is
`Usable`. An access to no slot touches no file, so it needs nothing of the kind (`UsableFor`). The
ranges of such a store are read as those of an array (`readRange_of_usable`), and written as those
of an array where the disk has room (`writeRange_of_usable`).
-/

namespace WordMachine.SaveStore

/-- The words of the slots: those of the open file, or of the file that an access would open. -/
def contents (s : SaveStore × Host) : Slots :=
  match s.1.file with
  | some number => .ofFile (.ok (s.2.disk.bytes number))
  | none => .ofFile (s.2.disk.read s.1.path)

variable {path : String} {s t : SaveStore × Host} {number : Nat} {slots : Slots}

/-- The slots of a store with an open file are those of that file. -/
theorem contents_of_some (h : s.1.file = some number) :
    contents s = .ofFile (.ok (s.2.disk.bytes number)) := by
  rw [contents, h]

/-- The slots of a store without one are those of the file at its path. -/
theorem contents_of_none (h : s.1.file = none) :
    contents s = .ofFile (s.2.disk.read s.1.path) := by
  rw [contents, h]

/-- The slots of a store on a path are those of the file there. -/
theorem Attached.contents_eq (h : Attached path s) : contents s = slotsAt path s := by
  cases hfile : s.1.file with
  | some number => rw [contents_of_some hfile, slotsAt, (h.current number hfile).1.read_eq]
  | none => rw [contents_of_none hfile, h.path_eq, slotsAt]

/-- The log does not matter. -/
theorem contents_congr (hstore : s.1 = t.1) (hdisk : s.2.disk = t.2.disk) :
    contents s = contents t := by
  rw [contents, contents, hstore, hdisk]

/-! ## Opening the file -/

/-- A file that is found stands for what is read under its path; one that is created stands for
zeros, and so did the path. -/
theorem ofFile_of_openFile {d d' : Disk} (h : d.openFile path = .ok (number, d')) :
    Slots.ofFile (.ok (d'.bytes number)) = Slots.ofFile (d.read path) := by
  obtain ⟨place, hleads, ⟨hnode, rfl⟩ | ⟨hnode, rfl, rfl⟩⟩ := Disk.openFile_eq_ok h
  · -- the file was there, so the path was read as it
    have hread : d'.read path = .ok (d'.bytes number) := by
      simp only [Disk.read, bind, Except.bind, hleads.locate_eq, hnode]
      rfl
    rw [hread]
  · -- there was none, so nothing could be read, and the new file is empty
    have hread : d.read path = .error .notFound := by
      simp only [Disk.read, bind, Except.bind, hleads.locate_eq, hnode]
      rfl
    have hempty : (d.create place).2.bytes d.contents.size = .empty := by
      simp [Disk.bytes, Disk.create]
    rw [hread, hempty]
    rfl

/-- A file that is made anew had another length, so it stood for zeros before. A number without
contents stands for zeros before and after. -/
theorem ofFile_setBytes_zeros {d : Disk} (h : (d.bytes number).size ≠ byteSize) :
    Slots.ofFile (.ok ((d.setBytes number zeros).bytes number)) =
      Slots.ofFile (.ok (d.bytes number)) := by
  have hzero : Slots.ofFile (.ok (d.bytes number)) = Slots.zero := if_neg h
  rw [hzero]
  by_cases hlt : number < d.contents.size
  · rw [Disk.bytes_setBytes_self zeros hlt, Slots.zeros_eq, Slots.ofFile_encode]
  · have hsame : d.setBytes number zeros = d := by
      rw [Disk.setBytes, Array.setIfInBounds_eq_of_size_le (Nat.le_of_not_lt hlt)]
    rw [hsame, hzero]

/-- Opening the file leaves it with the slots that its path stood for. -/
theorem contents_openFile {host host' : Host} (h : openFile host path = .ok (number, host')) :
    Slots.ofFile (.ok (host'.disk.bytes number)) = Slots.ofFile (host.disk.read path) := by
  obtain ⟨disk, hopen, rfl | ⟨hsize, log, rfl⟩⟩ := openFile_eq_ok h
  · exact ofFile_of_openFile hopen
  · exact (ofFile_setBytes_zeros hsize).trans (ofFile_of_openFile hopen)

/-- Getting at the file changes no slot. -/
theorem keepsContents_fileNumber : Preserves (fun s => contents s = slots) fileNumber := by
  rintro ⟨⟨path, file⟩, host⟩ hs
  cases file with
  | some n => exact hs
  | none =>
    simp only [fileNumber]
    cases hopen : openFile host path with
    | error e => exact hs
    | ok found => exact (contents_openFile hopen).trans hs

/-- Reading a range of slots changes no slot, whether it succeeds or not. -/
theorem keepsContents_readRange (start : Word) (n : Nat) :
    Preserves (fun s => contents s = slots) (readRange start n) := by
  unfold readRange
  refine preserves_guard (preserves_ite (preserves_pure _) ?_)
  refine keepsContents_fileNumber.bind fun number => preserves_get.bind fun s => ?_
  dsimp only
  split
  · exact preserves_pure _
  · exact preserves_throw _

/-- Reading a slot changes none, whether it succeeds or not. -/
theorem keepsContents_read (slot : Word) :
    Preserves (fun s => contents s = slots) (read slot) := by
  unfold read
  exact preserves_guard ((keepsContents_readRange slot 1).bind fun _ => preserves_pure _)

/-! ## Ranges of slots -/

/-- A range of slots that exist has as many words as asked for. -/
theorem Slots.length_range (slots : Slots) {start length : Nat}
    (h : start + length ≤ saveSlots) : (slots.range start length).length = length := by
  rw [range, List.length_take, List.length_drop, Vector.length_toList]
  omega

/-- The words of a range are those of its slots. -/
theorem Slots.getElem?_range (slots : Slots) {start length i : Nat} (hi : i < length) :
    (slots.range start length)[i]? = slots[start + i]? := by
  rw [range, List.getElem?_take_of_lt hi, List.getElem?_drop, Vector.getElem?_toList]

/-- A word written is the word of its slot. -/
theorem Slots.getElem?_splice_inside (slots : Slots) {start i : Nat} {words : List Word}
    (h : start + words.length ≤ saveSlots) (hi : i < words.length) :
    (slots.splice start words)[start + i]? = words[i]? := by
  rw [← Vector.getElem?_toList, getElem?_splice slots start words (by omega), if_pos (by omega),
    Nat.add_sub_cancel_left, List.getElem?_eq_getElem hi]
  rfl

/-- A slot that no word falls on is as before. -/
theorem Slots.getElem?_splice_outside (slots : Slots) {start k : Nat} {words : List Word}
    (h : k < start ∨ start + words.length ≤ k) : (slots.splice start words)[k]? = slots[k]? := by
  by_cases hk : k < saveSlots
  · rw [← Vector.getElem?_toList, getElem?_splice slots start words hk, Vector.getElem?_toList]
    split
    · rw [List.getElem?_eq_none (by omega)]
      rfl
    · rfl
  · rw [Vector.getElem?_eq_none (by omega), Vector.getElem?_eq_none (by omega)]

/-! ## Ranges of a store whose file can be accessed -/

/-- Accesses to slots that exist succeed: the open file has the length of a save file, or none is
open and the path can be opened. -/
structure Usable (s : SaveStore × Host) : Prop where
  opens : s.1.file = none → s.2.disk.Opens s.1.path
  whole : ∀ number, s.1.file = some number → (s.2.disk.bytes number).size = byteSize

/-- Accesses to `length` slots that exist succeed. -/
def UsableFor (length : Nat) (s : SaveStore × Host) : Prop := length ≠ 0 → Usable s

/-- Whether a store is usable depends on the store and the disk only. -/
theorem Usable.congr (h : Usable s) (hstore : t.1 = s.1) (hdisk : t.2.disk = s.2.disk) :
    Usable t where
  opens hnone := by
    rw [hstore, hdisk]
    exact h.opens (hstore ▸ hnone)
  whole number hfile := by
    rw [hdisk]
    exact h.whole number (hstore ▸ hfile)

/-- A store that is attached to its path is usable. -/
theorem Attached.usable (h : Attached path s) : Usable s where
  opens _ := h.path_eq ▸ h.opens
  whole number hfile := (h.current number hfile).2

/-- The file of the store is open and holds the slots. -/
structure Open (number : Nat) (slots : Slots) (s : SaveStore × Host) : Prop where
  file_eq : s.1.file = some number
  bytes_eq : s.2.disk.bytes number = slots.encode

/-- The slots of a store are those of its open file. -/
theorem Open.contents_eq (h : Open number slots s) : contents s = slots := by
  rw [contents_of_some h.file_eq, h.bytes_eq, Slots.ofFile_encode]

/-- A store with an open save file is usable. -/
theorem Open.usable (h : Open number slots s) : Usable s where
  opens hnone := by
    rw [h.file_eq] at hnone
    cases hnone
  whole n hn := by
    obtain rfl : number = n := Option.some.inj (h.file_eq.symm.trans hn)
    rw [h.bytes_eq, Slots.size_encode]

/-- An open save file has contents, since a number without contents stands for no bytes. -/
theorem Open.lt_size (h : Open number slots s) : number < s.2.disk.contents.size := by
  refine Nat.lt_of_not_le fun hle => ?_
  have hsize : (s.2.disk.bytes number).size = byteSize := by rw [h.bytes_eq, Slots.size_encode]
  rw [Disk.bytes, Array.getD_eq_getD_getElem?, Array.getElem?_eq_none hle] at hsize
  exact absurd hsize (by decide)

/-- Getting at the file of a usable store leaves it open with the slots of before. -/
theorem Usable.exists_fileNumber (h : Usable s) :
    ∃ number t, fileNumber s = .ok number t ∧ Open number (contents s) t := by
  obtain ⟨⟨path, file⟩, host⟩ := s
  cases file with
  | some number =>
    exact ⟨number, _, rfl, rfl, Slots.eq_encode (h.whole number rfl)⟩
  | none =>
    obtain ⟨number, host', hopen, -, hbytes⟩ := openFile_holds (h.opens rfl)
    refine ⟨number, (⟨path, some number⟩, host'), ?_, rfl, hbytes⟩
    simp only [fileNumber, hopen]

section

variable {start : Word}

/-- A range of a usable store is read as that of an array. -/
theorem readRange_of_usable {length : Nat} (h : UsableFor length s)
    (hin : start.toNat + length ≤ saveSlots) :
    ∃ t, readRange start length s = .ok ((contents s).range start.toNat length) t ∧
      contents t = contents s := by
  by_cases hpos : length = 0
  · subst hpos
    rw [Slots.range_zero]
    exact ⟨s, readRange_empty hin s, rfl⟩
  · obtain ⟨number, t, hnumber, hopen⟩ := (h hpos).exists_fileNumber
    refine ⟨t, ?_, hopen.contents_eq⟩
    have hread := Slots.readAt_encode hopen.bytes_eq hin
    rw [readRange_of_ok hin hpos hnumber hread, Word.ofLittleEndian_littleEndian]

/-- A range of a usable store is written as that of an array where the disk has room. -/
theorem writeRange_of_usable {words : List Word} (h : UsableFor words.length s)
    (htakes : s.2.disk.Takes (2 * words.length)) (hin : start.toNat + words.length ≤ saveSlots) :
    ∃ t, writeRange start words s = .ok () t ∧
      contents t = (contents s).splice start.toNat words ∧ UsableFor words.length t := by
  by_cases hne : words = []
  · subst hne
    rw [Slots.splice_nil]
    exact ⟨s, writeRange_empty hin s, rfl, h⟩
  · have hpos : words.length ≠ 0 := fun hlen => hne (List.eq_nil_of_length_eq_zero hlen)
    obtain ⟨number, t, hnumber, hopen⟩ := (h hpos).exists_fileNumber
    have htakes' : t.2.disk.Takes (2 * words.length) := by
      rwa [Disk.Takes, room_of_fileNumber hnumber]
    have hwritten : Open number ((contents s).splice start.toNat words) (t.1, { t.2 with
        disk := (t.2.disk.writeAt number (2 * start.toNat) (Word.littleEndian words)).spend
          (2 * words.length) }) :=
      ⟨hopen.file_eq, bytes_writeAt_encode hopen.lt_size hopen.bytes_eq hin⟩
    exact ⟨_, writeRange_of_takes hin hne hnumber htakes', hwritten.contents_eq,
      fun _ => hwritten.usable⟩

end

/-! ## Requests that write nothing -/

/-- The request writes no slot: it reads some, or closes the store, or makes it anew. -/
def Request.Keeps : Request → Prop
  | .write _ _ | .writeRange _ _ => False
  | .read _ | .readRange _ _ | .close | .renew => True

/-- A request that writes no slot leaves the array as it is. -/
theorem Slots.after_of_keeps (slots : Slots) {r : Request} (h : r.Keeps) :
    slots.after r = slots := by
  cases r with
  | write slot w | writeRange start words => exact h.elim
  | read | readRange | close | renew => rfl

/-- Requests that write no slot write no bytes. -/
theorem written_of_keeps {requests : List Request} (h : ∀ r ∈ requests, r.Keeps) :
    written requests = 0 := by
  induction requests with
  | nil => rfl
  | cons r requests ih =>
    obtain ⟨hr, hrest⟩ := List.forall_mem_cons.1 h
    rw [written, ih hrest]
    cases r with
    | write slot w | writeRange start words => exact hr.elim
    | read | readRange | close | renew => rfl

/-- Any number of such requests leave the array as it is. -/
theorem Slots.foldl_after_of_keeps (slots : Slots) {requests : List Request}
    (h : ∀ r ∈ requests, r.Keeps) : requests.foldl Slots.after slots = slots := by
  induction requests with
  | nil => rfl
  | cons r requests ih =>
    obtain ⟨hr, hrest⟩ := List.forall_mem_cons.1 h
    rw [List.foldl_cons, slots.after_of_keeps hr, ih hrest]

/-- The slots are the same after requests that write none, even if the store is closed and opened
again meanwhile. -/
theorem Attached.contents_served (h : Attached path s) {requests : List Request}
    (hkeeps : ∀ r ∈ requests, r.Keeps) : contents (SaveStore.served requests s) = contents s := by
  have htakes : s.2.disk.Takes (written requests + 0) := by
    rw [written_of_keeps hkeeps]
    exact s.2.disk.takes_zero
  obtain ⟨hslots, -⟩ := h.slotsAt_served htakes
  rw [(h.served requests).contents_eq, h.contents_eq, hslots, Slots.foldl_after_of_keeps _ hkeeps]

end WordMachine.SaveStore

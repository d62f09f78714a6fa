import WordMachine.Proofs.Save.PersistentArray

/-!
# What a save store leaves alone

A request to a save store opens the file at the store's path, gives that file other contents, takes
up room on the disk and logs what it did. A property that survives these (`FileStable`) survives
every request (`FileStable.serve`).

So a request never changes where a path leads to a file (`hasFile_fileStable`), and it leaves a file
alone that is not the one at the store's path (`Spares`). A file that is the one at the store's path
is not spared: the first access to a slot gives it the length of a save file, and it keeps that
(`preserves_filled`).
-/

namespace WordMachine.SaveStore

variable {p : SaveStore × Host → Prop} {s t : SaveStore × Host} {number : Nat}

/-! ## Properties that requests keep -/

/-- What requests are made of keeps a property of the store and the host. -/
structure FileStable (p : SaveStore × Host → Prop) : Prop where
  logged : ∀ {store host}, p (store, host) → ∀ log, p (store, { host with log })
  opened : ∀ {path host number disk}, p (⟨path, none⟩, host) →
    host.disk.openFile path = .ok (number, disk) → p (⟨path, some number⟩, { host with disk })
  written : ∀ {store host number}, p (store, host) → store.file = some number →
    ∀ bytes, p (store, { host with disk := host.disk.setBytes number bytes })
  spent : ∀ {store host}, p (store, host) → ∀ n, p (store, { host with disk := host.disk.spend n })
  closed : ∀ {store host}, p (store, host) → p (store.close, host)

/-- A write leaves the disk with the bytes that fit, whether it fails or not. -/
theorem stateOf_writeOpen (number offset : Nat) (new : List UInt8) (d : Disk) :
    stateOf (Disk.writeOpen number offset new d) =
      (d.writeAt number offset (d.fitting new)).spend new.length := by
  unfold Disk.writeOpen
  split <;> rfl

/-- An action on the disk leaves the store and all but the disk. -/
theorem stateOf_onDisk {α : Type} (act : EStateM OsError Disk α) (s : SaveStore × Host) :
    stateOf (onDisk act s) = (s.1, { s.2 with disk := stateOf (act s.2.disk) }) := by
  obtain ⟨store, host⟩ := s
  simp only [onDisk]
  cases act host.disk <;> rfl

namespace FileStable

variable (h : FileStable p)

include h

/-- Getting at the file keeps the property: the file is opened, and made anew if it must be. -/
theorem fileNumber : Preserves p fileNumber := by
  rintro ⟨⟨path, file⟩, host⟩ hs
  cases file with
  | some n => exact hs
  | none =>
    simp only [SaveStore.fileNumber]
    cases hopen : openFile host path with
    | error e => exact hs
    | ok found =>
      obtain ⟨number, host'⟩ := found
      obtain ⟨disk, hdisk, rfl | ⟨-, log, rfl⟩⟩ := openFile_eq_ok hopen
      · exact h.opened hs hdisk
      · exact h.logged (h.written (h.opened hs hdisk) rfl zeros) log

/-- Reading a range keeps the property. -/
theorem readRange (start : Word) (n : Nat) : Preserves p (readRange start n) := by
  unfold SaveStore.readRange
  refine preserves_guard (preserves_ite (preserves_pure _) ?_)
  refine h.fileNumber.bind fun number => preserves_get.bind fun s => ?_
  dsimp only
  split
  · exact preserves_pure _
  · exact preserves_throw _

/-- Writing a range keeps the property, also where the disk refuses it. -/
theorem writeRange (start : Word) (words : List Word) : Preserves p (writeRange start words) := by
  unfold SaveStore.writeRange
  refine preserves_guard (preserves_ite (preserves_pure _) ?_)
  intro s hs
  -- what is written goes to the file that has just been opened
  have hnumber := h.fileNumber s hs
  cases hfile : SaveStore.fileNumber s with
  | error e t =>
    rw [hfile] at hnumber
    rw [bind_of_error hfile]
    exact hnumber
  | ok number t =>
    rw [hfile] at hnumber
    rw [bind_of_ok hfile, stateOf_onDisk, stateOf_writeOpen]
    exact h.spent (h.written hnumber (file_of_fileNumber hfile) _) _

/-- Reading a slot keeps the property. -/
theorem read (slot : Word) : Preserves p (read slot) := by
  unfold SaveStore.read
  exact preserves_guard ((h.readRange slot 1).bind fun _ => preserves_pure _)

/-- Writing a slot keeps the property. -/
theorem write (slot w : Word) : Preserves p (write slot w) := by
  unfold SaveStore.write
  exact preserves_guard (h.writeRange slot [w])

/-- A request keeps what it is made of keeps. -/
theorem serve (r : Request) : Preserves p (serve r) := by
  cases r with
  | read slot => exact (h.read slot).bind fun _ => preserves_pure _
  | write slot w => exact (h.write slot w).bind fun _ => preserves_pure _
  | readRange start n => exact h.readRange start n
  | writeRange start words => exact (h.writeRange start words).bind fun _ => preserves_pure _
  | close | renew => exact (preserves_modify fun _ hs => h.closed hs).bind fun _ => preserves_pure _

end FileStable

/-! ## Other files -/

/-- A path leads to the same file before and after. -/
theorem hasFile_fileStable (path : String) (number : Nat) :
    FileStable fun s => s.2.disk.HasFile path number where
  logged h _ := h
  opened h hopen := h.openFile hopen
  written h _ bytes := h.setBytes _ bytes
  spent h n := (Disk.hasFile_spend_iff n).2 h
  closed h := h

/-- A file holds some bytes, and it is neither the open file of the store nor the one that its path
leads to. -/
structure Spares (number : Nat) (bytes : ByteArray) (s : SaveStore × Host) : Prop where
  lt_size : number < s.2.disk.contents.size
  bytes_eq : s.2.disk.bytes number = bytes
  file_ne : s.1.file ≠ some number
  apart : ¬ s.2.disk.HasFile s.1.path number

/-- Opening the file at a path gives no number but that of the file there, or a new one. -/
theorem Spares.opened {bytes : ByteArray} {path : String} {file : Option Nat} {host : Host}
    {number' : Nat} {disk : Disk} (h : Spares number bytes (⟨path, file⟩, host))
    (hopen : host.disk.openFile path = .ok (number', disk)) :
    Spares number bytes (⟨path, some number'⟩, { host with disk }) := by
  have hlt : number < host.disk.contents.size := h.lt_size
  obtain ⟨place, hleads, ⟨hnode, rfl⟩ | ⟨hnode, rfl, rfl⟩⟩ := Disk.openFile_eq_ok hopen
  · -- the file was there, so it is the one at the path and not the spared one
    refine ⟨hlt, h.bytes_eq, fun heq => h.apart ?_, h.apart⟩
    obtain rfl := Option.some.inj heq
    exact ⟨⟨place, hleads, hnode⟩, hlt⟩
  · have hsize : (host.disk.create place).2.contents.size = host.disk.contents.size + 1 :=
      Array.size_push _
    have hne : host.disk.contents.size ≠ number := Nat.ne_of_gt hlt
    refine ⟨?_, (Disk.bytes_create hlt).trans h.bytes_eq, fun heq => hne (Option.some.inj heq), ?_⟩
    · show number < (host.disk.create place).2.contents.size
      omega
    · -- the path leads to the new file from now on
      intro hfile
      have hnew := (Disk.openFile_cases hopen (by omega)).1
      exact hne (hnew.unique hfile)

/-- A file that is not the one at the store's path keeps its contents. -/
theorem spares_fileStable (number : Nat) (bytes : ByteArray) :
    FileStable (Spares number bytes) where
  logged h _ := ⟨h.lt_size, h.bytes_eq, h.file_ne, h.apart⟩
  opened h hopen := h.opened hopen
  written {store host number'} h hfile new := by
    have hne : number' ≠ number := by
      rintro rfl
      exact h.file_ne hfile
    refine ⟨?_, ?_, h.file_ne, fun hhas => h.apart ((Disk.hasFile_setBytes_iff new).1 hhas)⟩
    · show number < (host.disk.setBytes number' new).contents.size
      rw [Disk.setBytes, Array.size_setIfInBounds]
      exact h.lt_size
    · exact (Disk.bytes_setBytes_of_ne new hne).trans h.bytes_eq
  spent h n := ⟨h.lt_size, h.bytes_eq, h.file_ne, fun hhas =>
    h.apart ((Disk.hasFile_spend_iff n).1 hhas)⟩
  closed h := ⟨h.lt_size, h.bytes_eq, nofun, h.apart⟩

/-! ## The file at the path of the store -/

/-- The request is about slots that all exist, and about one at least. -/
def Request.Accesses (r : Request) : Prop :=
  ∃ start length, r.span? = some (start, length) ∧ start + length ≤ saveSlots ∧ length ≠ 0

variable {path : String}

/-- A request that accesses no slot leaves the files as they are, and may close the store. -/
theorem Attached.serve_of_not_accesses (h : Attached path s) {r : Request} (hr : ¬ r.Accesses) :
    stateOf (serve r s) = s ∨ stateOf (serve r s) = (s.1.close, s.2) := by
  cases hspan : r.span? with
  | none =>
    cases r with
    | close | renew => exact .inr rfl
    | read | write | readRange | writeRange => cases hspan
  | some span =>
    obtain ⟨start, length⟩ := span
    -- an access to no slot, or outside of the slots, does nothing
    refine .inl ?_
    by_cases hin : start + length ≤ saveSlots
    · by_cases hzero : length = 0
      · subst hzero
        rw [(h.serves r).empty start hspan hin]
        rfl
      · exact absurd ⟨start, length, hspan, hin, hzero⟩ hr
    · obtain ⟨e, herror⟩ := (h.serves r).outside start length hspan (Nat.lt_of_not_le hin)
      rw [herror]
      rfl

/-- The store is attached to its path, and a save file is there. -/
def Filled (path : String) (s : SaveStore × Host) : Prop :=
  Attached path s ∧ ∃ bytes, s.2.disk.read path = .ok bytes ∧ bytes.size = byteSize

/-- The log does not matter to the file. -/
theorem Filled.logged {store : SaveStore} {host : Host} (h : Filled path (store, host))
    (log : Log) : Filled path (store, { host with log }) :=
  ⟨⟨h.1.path_eq, h.1.opens, h.1.current⟩, h.2⟩

/-- An access to slots leaves a save file behind. -/
theorem Attached.filled (h : Attached path s) {r : Request} (hr : r.Accesses) :
    Filled path (stateOf (serve r s)) := by
  obtain ⟨start, length, hspan, hin, hpos⟩ := hr
  exact ⟨(h.serves r).attached, (h.serves r).fills start length hspan hin hpos⟩

/-- A save file stays one, whatever is requested. -/
theorem preserves_filled (r : Request) : Preserves (Filled path) (serve r) := by
  rintro s ⟨hattached, hfile⟩
  by_cases hr : r.Accesses
  · exact hattached.filled hr
  · refine ⟨(hattached.serves r).attached, ?_⟩
    rcases hattached.serve_of_not_accesses hr with heq | heq
    · rw [heq]
      exact hfile
    · rw [heq]
      exact hfile

end WordMachine.SaveStore

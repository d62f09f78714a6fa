import WordMachine.Host.Disk

/-!
# Files by path

Opening a path and reading it agree on which file they mean: both follow the path to one place
(`Leads`). A path that could be opened once leads to the same file from then on, whatever is written
to files by number (`HasFile.setBytes`): that is all a program needs to know that keeps a file open,
closes it and opens it again.
-/

namespace WordMachine.Disk

variable {d d' : Disk} {path : String} {place other : Place} {number number' : Nat}

/-! ## Where a path leads -/

/-- The path leads through directories to a place, where a file may stand or not; it does not ask
for a directory there. -/
def Leads (d : Disk) (path : String) (place : Place) : Prop :=
  ∃ route directory, Route.ofPath path = .ok route ∧ route.endsInSlash = false ∧
    d.enter route.start route.inner = .ok directory ∧ step directory route.last = .ok place

/-- The place that a path leads to is the one that is found. -/
theorem Leads.locate_eq (h : Leads d path place) : d.locate path = .ok place := by
  obtain ⟨route, directory, hroute, hslash, henter, hstep⟩ := h
  simp [locate, bind, Except.bind, hroute, henter, hstep, hslash, pure, Except.pure]

/-- Opening a path that leads somewhere depends on what stands there: a directory is refused, a file
is found, and where nothing stands a file is created. -/
theorem Leads.openFile_eq (h : Leads d path place) :
    d.openFile path =
      match d.node? place with
      | some .directory => .error .isDirectory
      | some (.file number) => .ok (number, d)
      | none => .ok (d.create place) := by
  obtain ⟨route, directory, hroute, hslash, henter, hstep⟩ := h
  simp only [openFile, bind, Except.bind, hroute, henter, hslash, hstep]
  cases d.node? place with
  | none => rfl
  | some node => cases node <;> rfl

/-- A path that can be opened leads somewhere. -/
theorem exists_leads_of_openFile (h : d.openFile path = .ok (number, d')) :
    ∃ place, Leads d path place := by
  simp only [openFile, bind, Except.bind] at h
  -- each step on the way has succeeded, or the whole would have failed
  cases hroute : Route.ofPath path with
  | error e => simp [hroute] at h
  | ok route =>
    cases henter : d.enter route.start route.inner with
    | error e => simp [hroute, henter] at h
    | ok directory =>
      cases hslash : route.endsInSlash with
      | true => simp [hroute, henter, hslash, throw, throwThe, MonadExceptOf.throw] at h
      | false =>
        cases hstep : step directory route.last with
        | error e => simp [hroute, henter, hslash, hstep] at h
        | ok place => exact ⟨place, route, directory, hroute, hslash, henter, hstep⟩

/-- A place that is found, and is no directory, is one that the path leads to. -/
theorem leads_of_locate (h : d.locate path = .ok place) (hnode : d.node? place ≠ some .directory) :
    Leads d path place := by
  simp only [locate, bind, Except.bind] at h
  cases hroute : Route.ofPath path with
  | error e => simp [hroute] at h
  | ok route =>
    cases henter : d.enter route.start route.inner with
    | error e => simp [hroute, henter] at h
    | ok directory =>
      cases hstep : step directory route.last with
      | error e => simp [hroute, henter, hstep] at h
      | ok place' =>
        cases hslash : route.endsInSlash with
        | false =>
          simp only [hroute, henter, hstep, hslash] at h
          obtain rfl := Except.ok.inj h
          exact ⟨route, directory, hroute, hslash, henter, hstep⟩
        | true =>
          -- a slash at the end asks for a directory, and only that is found
          have hself : step place' "." = .ok place' := if_pos rfl
          simp only [hroute, henter, hstep, hslash, if_true, enter, hself, bind, Except.bind] at h
          cases hplace : d.node? place' with
          | none => simp [hplace, throw, throwThe, MonadExceptOf.throw] at h
          | some node =>
            cases node with
            | file n => simp [hplace, throw, throwThe, MonadExceptOf.throw] at h
            | directory =>
              simp only [hplace] at h
              obtain rfl := Except.ok.inj h
              exact absurd hplace hnode

/-- Directories that stay directories are entered as before. -/
theorem enter_of_directories (h : ∀ p, d.node? p = some .directory → d'.node? p = some .directory)
    {directory : Place} {parts : List String} (henter : d.enter directory parts = .ok place) :
    d'.enter directory parts = .ok place := by
  induction parts generalizing directory with
  | nil => exact henter
  | cons part parts ih =>
    simp only [enter, bind, Except.bind] at henter ⊢
    cases hstep : step directory part with
    | error e => simp [hstep] at henter
    | ok next =>
      simp only [hstep] at henter ⊢
      -- the next part has been entered, so it is a directory and stays one
      cases hnode : d.node? next with
      | none => simp [hnode, throw, throwThe, MonadExceptOf.throw] at henter
      | some node =>
        cases node with
        | file n => simp [hnode, throw, throwThe, MonadExceptOf.throw] at henter
        | directory =>
          simp only [hnode] at henter
          simp only [h next hnode]
          exact ih henter

/-- A path leads to the same place as long as directories stay directories. -/
theorem Leads.of_directories (h : Leads d path place)
    (hdir : ∀ p, d.node? p = some .directory → d'.node? p = some .directory) :
    Leads d' path place := by
  obtain ⟨route, directory, hroute, hslash, henter, hstep⟩ := h
  exact ⟨route, directory, hroute, hslash, enter_of_directories hdir henter, hstep⟩

/-- A path leads to one place at most. -/
theorem Leads.unique (h : Leads d path place) (h' : Leads d path other) : place = other :=
  Except.ok.inj (h.locate_eq.symm.trans h'.locate_eq)

/-- What can be read under a path is the file at the place that it leads to. -/
theorem read_eq_ok_iff {bytes : ByteArray} : d.read path = .ok bytes ↔
    ∃ place number, Leads d path place ∧ d.node? place = some (.file number) ∧
      d.bytes number = bytes := by
  constructor
  · intro h
    simp only [read, bind, Except.bind] at h
    cases hlocate : d.locate path with
    | error e => simp [hlocate] at h
    | ok place =>
      rw [hlocate] at h
      cases hnode : d.node? place with
      | none => simp [hnode, throw, throwThe, MonadExceptOf.throw] at h
      | some node =>
        cases node with
        | directory => simp [hnode, throw, throwThe, MonadExceptOf.throw] at h
        | file number =>
          simp only [hnode] at h
          exact ⟨place, number, leads_of_locate hlocate (by simp [hnode]), hnode, Except.ok.inj h⟩
  · rintro ⟨place, number, hleads, hnode, rfl⟩
    simp only [read, bind, Except.bind, hleads.locate_eq, hnode]
    rfl

/-! ## A file that is there -/

/-- The path leads to a file of the given number, which has contents. -/
def HasFile (d : Disk) (path : String) (number : Nat) : Prop :=
  (∃ place, Leads d path place ∧ d.node? place = some (.file number)) ∧ number < d.contents.size

/-- Opening a file that is there finds it and changes nothing. -/
theorem HasFile.openFile_eq (h : HasFile d path number) : d.openFile path = .ok (number, d) := by
  obtain ⟨⟨place, hleads, hnode⟩, -⟩ := h
  rw [hleads.openFile_eq, hnode]

/-- Reading a file that is there gives its contents. -/
theorem HasFile.read_eq (h : HasFile d path number) : d.read path = .ok (d.bytes number) := by
  obtain ⟨⟨place, hleads, hnode⟩, -⟩ := h
  exact read_eq_ok_iff.2 ⟨place, number, hleads, hnode, rfl⟩

/-- A path leads to one file at most. -/
theorem HasFile.unique (h : HasFile d path number) (h' : HasFile d path number') :
    number = number' := by
  have hopen := h.openFile_eq.symm.trans h'.openFile_eq
  exact (Prod.mk.inj (Except.ok.inj hopen)).1

/-- A path under which bytes can be read leads to the file that holds them. -/
theorem exists_hasFile_of_read {bytes : ByteArray} (h : d.read path = .ok bytes)
    (hsize : bytes.size ≠ 0) : ∃ number, HasFile d path number ∧ d.bytes number = bytes := by
  obtain ⟨place, number, hleads, hnode, rfl⟩ := read_eq_ok_iff.1 h
  -- a number without contents stands for no bytes
  have hlt : number < d.contents.size :=
    Nat.lt_of_not_le fun hle => hsize (by simp [Disk.bytes, hle])
  exact ⟨number, ⟨⟨place, hleads, hnode⟩, hlt⟩, rfl⟩

/-- Where paths lead depends on the tree and on which numbers have contents. -/
theorem hasFile_congr (hnodes : d'.nodes = d.nodes) (hsize : d'.contents.size = d.contents.size) :
    HasFile d' path number ↔ HasFile d path number := by
  -- the tree says what stands at a place, so it does so alike on both disks
  have hnode (p : Place) : d'.node? p = d.node? p := by rw [node?, node?, hnodes]
  unfold HasFile
  rw [hsize]
  refine and_congr_left fun _ => exists_congr fun place => ?_
  rw [hnode]
  refine and_congr_left fun _ => ⟨fun hleads => ?_, fun hleads => ?_⟩
  · exact hleads.of_directories fun p hp => (hnode p).symm.trans hp
  · exact hleads.of_directories fun p hp => (hnode p).trans hp

/-- Contents given to a file do not change where paths lead. -/
theorem hasFile_setBytes_iff (bytes : ByteArray) :
    HasFile (d.setBytes number' bytes) path number ↔ HasFile d path number :=
  hasFile_congr rfl (by simp [Disk.setBytes])

/-- A path that leads to a file does so whatever contents a file is given. -/
theorem HasFile.setBytes (h : HasFile d path number) (number' : Nat) (bytes : ByteArray) :
    HasFile (d.setBytes number' bytes) path number := (hasFile_setBytes_iff bytes).2 h

/-- The room on the disk does not matter to paths. -/
theorem hasFile_spend_iff (n : Nat) : HasFile (d.spend n) path number ↔ HasFile d path number :=
  hasFile_congr rfl rfl

/-- A file has the contents that it was given. -/
theorem bytes_setBytes_self (bytes : ByteArray) (h : number < d.contents.size) :
    (d.setBytes number bytes).bytes number = bytes := by
  simp [Disk.bytes, Disk.setBytes, h]

/-- The other files keep their contents. -/
theorem bytes_setBytes_of_ne (bytes : ByteArray) (h : number' ≠ number) :
    (d.setBytes number' bytes).bytes number = d.bytes number := by
  simp [Disk.bytes, Disk.setBytes, Array.getElem?_setIfInBounds_ne h]

/-! ## Bytes that are written over others -/

section

variable {old : ByteArray} {offset : Nat} {new : List UInt8} (h : offset + new.length ≤ old.size)

include h

/-- Bytes that fall inside of a file replace as many of it. -/
theorem toList_overwrite : (overwrite old offset new).data.toList =
    old.data.toList.take offset ++ new ++ old.data.toList.drop (offset + new.length) := by
  have hgap : offset - old.size = 0 := by omega
  simp [overwrite, hgap]

/-- Bytes that fall inside of a file leave its length. -/
theorem size_overwrite : (overwrite old offset new).size = old.size := by
  have hlength : (overwrite old offset new).data.toList.length = old.data.toList.length := by
    have hold : old.data.toList.length = old.size := by simp
    rw [toList_overwrite h, List.length_append, List.length_append, List.length_take,
      List.length_drop]
    omega
  simpa using hlength

/-- A byte before or behind those that are written is as before. -/
theorem getElem?_overwrite_outside {k : Nat} (hk : k < offset ∨ offset + new.length ≤ k) :
    (overwrite old offset new).data.toList[k]? = old.data.toList[k]? := by
  have hold : old.data.toList.length = old.size := by simp
  have htake : (old.data.toList.take offset).length = offset := by
    rw [List.length_take]
    omega
  rw [toList_overwrite h]
  rcases hk with hk | hk
  · -- in front of the new bytes
    rw [List.append_assoc, List.getElem?_append_left (by omega), List.getElem?_take_of_lt hk]
  · -- behind them, where as many old bytes are dropped as there are new ones
    have hfront : (old.data.toList.take offset ++ new).length = offset + new.length := by
      rw [List.length_append, htake]
    rw [List.getElem?_append_right (by omega), hfront, List.getElem?_drop,
      Nat.add_sub_cancel' hk]

end

/-! ## Room for what is written -/

section

variable {n m : Nat} {new : List UInt8}

/-- There is always room for nothing. -/
theorem takes_zero (d : Disk) : d.Takes 0 := fun _ _ => Nat.zero_le _

/-- Where there is room for some bytes, there is room for fewer. -/
theorem Takes.mono (h : d.Takes n) (hle : m ≤ n) : d.Takes m :=
  fun room hroom => Nat.le_trans hle (h room hroom)

/-- What is left once some bytes have been written has room for the rest. -/
theorem Takes.spend (h : d.Takes (n + m)) : (d.spend n).Takes m := by
  intro room hroom
  obtain ⟨before, hbefore, rfl⟩ := Option.map_eq_some_iff.1 hroom
  have hle := h before hbefore
  omega

/-- Nothing takes no room. -/
theorem room_spend_zero (d : Disk) : (d.spend 0).room = d.room := by
  simp [spend]

/-- All bytes fit where there is room for them. -/
theorem fitting_of_takes (h : d.Takes new.length) : d.fitting new = new := by
  unfold fitting
  split
  · rfl
  · rename_i room hroom
    exact List.take_of_length_le (h room hroom)

/-- No more bytes fit than there are. -/
theorem length_fitting_le (d : Disk) (new : List UInt8) : (d.fitting new).length ≤ new.length := by
  unfold fitting
  split
  · exact Nat.le_refl _
  · rw [List.length_take]
    exact Nat.min_le_right _ _

/-- A write that fits succeeds. -/
theorem writeOpen_of_takes (offset : Nat) (h : d.Takes new.length) :
    writeOpen number offset new d = .ok () ((d.writeAt number offset new).spend new.length) := by
  rw [writeOpen, if_pos h, fitting_of_takes h]

/-- A write that does not fit leaves what does, and fails. -/
theorem writeOpen_of_not_takes (offset : Nat) (h : ¬ d.Takes new.length) :
    writeOpen number offset new d =
      .error .noSpace ((d.writeAt number offset (d.fitting new)).spend new.length) := by
  rw [writeOpen, if_neg h]

end

/-! ## A file that is created -/

/-- A new file changes what stands at its place and nowhere else. -/
theorem node?_create (h : d.node? place = none) (p : Place) :
    (d.create place).2.node? p =
      if p = place then some (.file d.contents.size) else d.node? p := by
  by_cases hp : p = place
  · subst hp
    -- the root and the places above it are directories, so the new place is none of these
    have hplain : ¬ (p = ["/"] ∨ p.all (· == "..")) := by
      intro hroot
      rw [node?, if_pos hroot] at h
      nomatch h
    rw [node?, if_neg hplain, if_pos rfl]
    simp [create]
  · have hne : (p == place) = false := by simpa using hp
    simp only [node?, create, List.lookup_cons, hne, if_neg hp]

/-- A new file does not change where a path leads, since it takes the place of no directory. -/
theorem Leads.create (h : Leads d path place) (hnode : d.node? other = none) :
    Leads (d.create other).2 path place := by
  refine h.of_directories fun p hp => ?_
  have hne : p ≠ other := by
    rintro rfl
    simp [hnode] at hp
  rw [node?_create hnode, if_neg hne, hp]

/-- Opening finds the file that the path leads to, or creates one there. -/
theorem openFile_eq_ok (h : d.openFile path = .ok (number, d')) :
    ∃ place, Leads d path place ∧
      (d.node? place = some (.file number) ∧ d' = d ∨
        d.node? place = none ∧ number = d.contents.size ∧ d' = (d.create place).2) := by
  obtain ⟨place, hleads⟩ := exists_leads_of_openFile h
  refine ⟨place, hleads, ?_⟩
  rw [hleads.openFile_eq] at h
  cases hnode : d.node? place with
  | none =>
    rw [hnode] at h
    obtain ⟨hnumber, hdisk⟩ := Prod.mk.inj (Except.ok.inj h)
    exact .inr ⟨rfl, hnumber.symm, hdisk.symm⟩
  | some node =>
    cases node with
    | directory =>
      rw [hnode] at h
      nomatch h
    | file n =>
      rw [hnode] at h
      obtain ⟨rfl, rfl⟩ := Prod.mk.inj (Except.ok.inj h)
      exact .inl ⟨rfl, rfl⟩

/-- Opening a file takes no room. -/
theorem room_openFile (h : d.openFile path = .ok (number, d')) : d'.room = d.room := by
  obtain ⟨place, -, ⟨-, rfl⟩ | ⟨-, -, rfl⟩⟩ := openFile_eq_ok h
  · rfl
  · rfl

/-- A file that is there stays there when another one is created. -/
theorem HasFile.create (h : HasFile d path number) (hnode : d.node? other = none) :
    HasFile (d.create other).2 path number := by
  obtain ⟨⟨place, hleads, hplace⟩, hlt⟩ := h
  have hne : place ≠ other := by
    rintro rfl
    simp [hnode] at hplace
  refine ⟨⟨place, hleads.create hnode, ?_⟩, ?_⟩
  · rw [node?_create hnode, if_neg hne, hplace]
  · rw [Disk.create, Array.size_push]
    exact Nat.lt_succ_of_lt hlt

/-- A new file leaves the contents of the others alone. -/
theorem bytes_create (h : number < d.contents.size) :
    (d.create place).2.bytes number = d.bytes number := by
  simp [Disk.bytes, Disk.create, Array.getElem?_push, Nat.ne_of_lt h]

/-- Opening a path does not change where another one leads. -/
theorem HasFile.openFile {path' : String} (h : HasFile d path number)
    (hopen : d.openFile path' = .ok (number', d')) : HasFile d' path number := by
  obtain ⟨place, -, ⟨-, rfl⟩ | ⟨hnode, -, rfl⟩⟩ := openFile_eq_ok hopen
  · exact h
  · exact h.create hnode

/-- Opening gives a number under which the path leads to a file from then on. Either the file was
there, and nothing changes, or there was none to read, and it is new and empty. -/
theorem openFile_cases (h : d.openFile path = .ok (number, d')) (hlt : number < d'.contents.size) :
    HasFile d' path number ∧
      (d' = d ∨ (∃ e, d.read path = .error e) ∧ d'.bytes number = .empty) := by
  obtain ⟨place, hleads, ⟨hnode, rfl⟩ | ⟨hnode, rfl, rfl⟩⟩ := openFile_eq_ok h
  · exact ⟨⟨⟨place, hleads, hnode⟩, hlt⟩, .inl rfl⟩
  · have hnew := node?_create hnode place
    rw [if_pos rfl] at hnew
    refine ⟨⟨⟨place, hleads.create hnode, hnew⟩, hlt⟩, .inr ⟨⟨.notFound, ?_⟩, ?_⟩⟩
    · simp only [read, bind, Except.bind, hleads.locate_eq, hnode]
      rfl
    · simp [bytes, Disk.create]

end WordMachine.Disk

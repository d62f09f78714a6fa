import Mathlib.Tactic.ByContra
import WordMachine.Proofs.Host.Paths
import WordMachine.Proofs.Vm.Storage
import WordMachine.Vm.Config

/-!
# When a program damages its own image

The save file of a program that is run without further wishes has the path of its image, with the
extension replaced. Nothing keeps the two paths apart. If they lead to one file, the first access to
a save slot finds a file that is too long for a save file and makes it anew, and the image is gone.
If they lead to different files, no request touches the image, whatever the program does.

`image_survives_iff` says just that, for any files: the image file is as it was unless both paths
lead to it and a slot has been accessed. Where each file stands at one place only, both paths lead
to one file just when the extension of the image is the one that save files get
(`Disk.sameFile_withExtension_iff`).
-/

namespace WordMachine.Vm

open Config (savePathFor)

variable {path : String} {bytes : ByteArray} {img : Image} {ignored : Nat} {vm : Vm}

/-! ## Loading and reloading -/

/-- A reset loads the image that the file holds. -/
theorem exists_reset_ok (hsource : vm.source = .file path)
    (hread : vm.host.disk.read path = .ok bytes) (hparse : Image.parse bytes = .ok (img, ignored)) :
    ∃ t, reset vm = .ok () t ∧
      t.machine = { Machine.ofImage img with ip := Machine.before 0 } := by
  obtain ⟨log, himage⟩ := exists_readImage_eq path vm.host
  rw [hread] at himage
  simp only [hparse] at himage
  have hload : sourceImage vm = .ok img { vm with host := { vm.host with log } } := by
    rw [sourceImage_file hsource, onHost_eq, himage, mapState_ok]
  exact ⟨_, bind_of_ok hload, rfl⟩

/-- A reset fails on a file that holds no image. -/
theorem exists_reset_error {cause : ImageError} (hsource : vm.source = .file path)
    (hread : vm.host.disk.read path = .ok bytes) (hparse : Image.parse bytes = .error cause) :
    ∃ t, reset vm = .error (.image cause) t := by
  obtain ⟨log, himage⟩ := exists_readImage_eq path vm.host
  rw [hread] at himage
  simp only [hparse] at himage
  have hload : sourceImage vm = .error (.image cause) { vm with host := { vm.host with log } } := by
    rw [sourceImage_file hsource, onHost_eq, himage, mapState_error]
  exact ⟨_, bind_of_error hload⟩

/-- What is loaded of an image file without further wishes. -/
structure Loaded (path : String) (img : Image) (disk : Disk) (vm : Vm) : Prop where
  machine : vm.machine = .ofImage img
  source : vm.source = .file path
  save : vm.save = .ofPath (savePathFor path)
  disk : vm.host.disk = disk

/-- An image file that can be read is loaded, with the usual save path and no directories for
libraries. -/
theorem load_of_readImage {host host' : Host} (h : readImage path host = .ok img host')
    (libraries : Libraries) : Vm.load (.ofImage path) libraries host =
      .ok (start img (.file path) ⟨.ofSink (.terminal .empty), .ofPath (savePathFor path),
        .ofDirs [], libraries⟩ host') host' := by
  have hopen (services : Services) : openFile path services host =
      .ok (start img (.file path) services host') host' := bind_of_ok h
  exact bind_of_ok (hopen _)

/-- An image file that holds an image is loaded. -/
theorem exists_load {host : Host} (hread : host.disk.read path = .ok bytes)
    (hparse : Image.parse bytes = .ok (img, ignored)) (libraries : Libraries) :
    ∃ vm host', Vm.load (.ofImage path) libraries host = .ok vm host' ∧
      Loaded path img host.disk vm := by
  obtain ⟨log, himage⟩ := exists_readImage_eq path host
  rw [hread] at himage
  simp only [hparse] at himage
  exact ⟨_, _, load_of_readImage himage libraries, rfl, rfl, rfl, rfl⟩

/-! ## The image file in the course of events -/

section

variable {disk : Disk} {number : Nat} {events : List Event}

/-- Where a path leads to a file, it leads there after any events. -/
theorem hasFile_after {path : String} (h : vm.host.disk.HasFile path number)
    (hinside : ∀ e ∈ events, e.Inside) : (after events vm).host.disk.HasFile path number := by
  have hstable := SaveStore.hasFile_fileStable path number
  exact storage_after (p := fun s => s.2.disk.HasFile path number) (fun h _ => h) hstable.serve h
    hinside

/-- A file that the save path does not lead to keeps its bytes. -/
theorem Loaded.bytes_eq_of_apart (h : Loaded path img disk vm) (hlt : number < disk.contents.size)
    (hapart : ¬ disk.HasFile (savePathFor path) number) (hinside : ∀ e ∈ events, e.Inside) :
    (after events vm).host.disk.bytes number = disk.bytes number := by
  have hstable := SaveStore.spares_fileStable number (disk.bytes number)
  have hspares : SaveStore.Spares number (disk.bytes number) vm.storage := by
    show SaveStore.Spares number (disk.bytes number) (vm.save, vm.host)
    rw [h.save]
    refine ⟨?_, ?_, nofun, ?_⟩
    · rwa [h.disk]
    · rw [h.disk]
    · rwa [h.disk]
  exact (storage_after hstable.logged hstable.serve hspares hinside).bytes_eq

/-- A file that the save path leads to keeps its bytes until slots are accessed, and is a save file
from then on. -/
theorem Loaded.bytes_cases_of_shared (h : Loaded path img disk vm)
    (hsave : disk.HasFile (savePathFor path) number) (hinside : ∀ e ∈ events, e.Inside) :
    AccessesSlots events vm ∧
        ((after events vm).host.disk.bytes number).size = SaveStore.byteSize ∨
      ¬ AccessesSlots events vm ∧ (after events vm).host.disk = disk := by
  have huntouched : Untouched (savePathFor path) disk vm.storage := ⟨h.save, h.disk⟩
  rcases untouched_or_filled hsave.opens huntouched hinside with
    ⟨haccess, -, left, hleft, hsize⟩ | ⟨hnone, -, hdisk⟩
  · have hfile : (after events vm).host.disk.HasFile (savePathFor path) number :=
      hasFile_after (by rwa [h.disk]) hinside
    have hread : (after events vm).host.disk.read (savePathFor path) = .ok left := hleft
    rw [hfile.read_eq] at hread
    exact .inl ⟨haccess, by rwa [Except.ok.inj hread]⟩
  · exact .inr ⟨hnone, hdisk⟩

/-- After any events the image file is as it was, or both paths lead to it and it has become a save
file. -/
theorem Loaded.read_cases (h : Loaded path img disk vm) (hread : disk.read path = .ok bytes)
    (hsize : bytes.size ≠ 0) (hinside : ∀ e ∈ events, e.Inside) :
    ¬ (disk.SameFile path (savePathFor path) ∧ AccessesSlots events vm) ∧
        (after events vm).host.disk.read path = .ok bytes ∨
      (disk.SameFile path (savePathFor path) ∧ AccessesSlots events vm) ∧
        ∃ left, (after events vm).host.disk.read path = .ok left ∧
          left.size = SaveStore.byteSize := by
  obtain ⟨number, hfile, rfl⟩ := Disk.exists_hasFile_of_read hread hsize
  have hafter : (after events vm).host.disk.read path =
      .ok ((after events vm).host.disk.bytes number) :=
    (hasFile_after (by rwa [h.disk]) hinside).read_eq
  by_cases hsave : disk.HasFile (savePathFor path) number
  · rcases h.bytes_cases_of_shared hsave hinside with ⟨haccess, hleft⟩ | ⟨hnone, hdisk⟩
    · exact .inr ⟨⟨⟨number, hfile, hsave⟩, haccess⟩, _, hafter, hleft⟩
    · exact .inl ⟨fun hboth => hnone hboth.2, by rw [hafter, hdisk]⟩
  · refine .inl ⟨?_, by rw [hafter, h.bytes_eq_of_apart hfile.2 hsave hinside]⟩
    -- if the paths shared a file, it would be the image's
    rintro ⟨⟨other, hother, hothersave⟩, -⟩
    exact hsave (hother.unique hfile ▸ hothersave)

end

/-- The events of a run are steps and a flush, none of which changes files from outside. -/
theorem inside_of_run {n : Nat} {ending : List Event} (h : ending = [] ∨ ending = [.flush]) :
    ∀ e ∈ List.replicate n .step ++ ending, Event.Inside e := by
  intro e he
  rcases List.mem_append.1 he with hstep | hending
  · obtain rfl := List.eq_of_mem_replicate hstep
    trivial
  · rcases h with rfl | rfl
    · cases hending
    · obtain rfl := List.mem_singleton.1 hending
      trivial

/-- An image file is as it was after any events, unless the save path leads to it and a slot has
been accessed; then a save file has taken its place. A reset loads the same image in the first case
and fails in the second. If each file stands at one place, the save path leads to the image just
when the image has the extension of save files, unless its name is two dots and that extension. -/
theorem image_survives_iff {host : Host} (hread : host.disk.read path = .ok bytes)
    (hparse : Image.parse bytes = .ok (img, ignored)) (libraries : Libraries) :
    (host.disk.OnePlace → (host.disk.SameFile path (savePathFor path) ↔
      Path.extension? path = some "sav" ∧ Path.fileName? path ≠ some "..sav")) ∧
    ∃ vm host', Vm.load (.ofImage path) libraries host = .ok vm host' ∧
      vm.machine = .ofImage img ∧
      (∀ limit, ∃ n, Makes limit n vm ∧ ∃ ending, (ending = [] ∨ ending = [Event.flush]) ∧
        stateOf (run limit vm) = after (List.replicate n .step ++ ending) vm ∧
        ∀ e ∈ List.replicate n .step ++ ending, Event.Inside e) ∧
      ∀ events : List Event, (∀ e ∈ events, e.Inside) →
        ((after events vm).host.disk.read path = .ok bytes ↔
          ¬ (host.disk.SameFile path (savePathFor path) ∧ AccessesSlots events vm)) ∧
        ((after events vm).host.disk.read path = .ok bytes →
          ∃ t, reset (after events vm) = .ok () t ∧
            t.machine = { Machine.ofImage img with ip := Machine.before 0 }) ∧
        ((after events vm).host.disk.read path ≠ .ok bytes →
          (∃ left, (after events vm).host.disk.read path = .ok left ∧
            left.size = SaveStore.byteSize) ∧
          ∃ t, reset (after events vm) = .error (.image (.tooSmall SaveStore.byteSize)) t) := by
  have hle : Image.byteSize ≤ bytes.size := (Image.parse_eq_ok_iff.1 hparse).1
  have hpos : 0 < Image.byteSize := by decide
  have hshort : SaveStore.byteSize < Image.byteSize := by decide
  refine ⟨fun hdisk => ?_, ?_⟩
  · obtain ⟨number, hfile, -⟩ := Disk.exists_hasFile_of_read hread (by omega)
    rw [savePathFor, Disk.sameFile_withExtension_iff hdisk hfile (by decide),
      hfile.withExtension_eq_self_iff]
    rfl
  · obtain ⟨vm, host', hload, hloaded⟩ := exists_load hread hparse libraries
    refine ⟨vm, host', hload, hloaded.machine, fun limit => ?_, fun events hinside => ?_⟩
    · obtain ⟨n, hmakes, ending, hending, hrun⟩ := exists_run_eq_after limit vm
      exact ⟨n, hmakes, ending, hending, hrun, inside_of_run hending⟩
    · have hrooted : Rooted (.file path) (savePathFor path) vm :=
        ⟨hloaded.source, by rw [hloaded.save]; rfl⟩
      have hsource : (after events vm).source = .file path := (rooted_after hrooted events).1
      rcases hloaded.read_cases hread (by omega) hinside with
        ⟨hnot, hsame⟩ | ⟨hboth, left, hleft, hsize⟩
      · exact ⟨iff_of_true hsame hnot, fun _ => exists_reset_ok hsource hsame hparse,
          fun hne => absurd hsame hne⟩
      · -- a save file is too short to be the image
        have hne : (after events vm).host.disk.read path ≠ .ok bytes := by
          rw [hleft]
          intro heq
          rw [Except.ok.inj heq] at hsize
          omega
        have htoo : Image.parse left = .error (.tooSmall SaveStore.byteSize) := by
          rw [← hsize]
          exact Image.parse_of_lt (by omega)
        exact ⟨iff_of_false hne fun hnot => hnot hboth, fun heq => absurd heq hne,
          fun _ => ⟨⟨left, hleft, hsize⟩, exists_reset_error hsource hleft htoo⟩⟩

/-- An image under its usual name: nothing that the program does changes the file. -/
theorem image_survives_iff_usual :
    let host : Host := ⟨⟨[(["prog.hss"], .file 0)], #[Image.empty.toBytes], none⟩, .empty⟩
    host.disk.read "prog.hss" = .ok Image.empty.toBytes ∧
    Image.parse Image.empty.toBytes = .ok (.empty, 0) ∧ host.disk.OnePlace ∧
    ∃ vm host', Vm.load (.ofImage "prog.hss") [] host = .ok vm host' ∧
      ∀ events : List Event, (∀ e ∈ events, e.Inside) →
        (after events vm).host.disk.read "prog.hss" = .ok Image.empty.toBytes := by
  intro host
  have hfile : host.disk.HasFile "prog.hss" 0 :=
    ⟨⟨["prog.hss"], ⟨⟨[], [], "prog.hss", false⟩, [], rfl, rfl, rfl, rfl⟩, rfl⟩, Nat.one_pos⟩
  have hread : host.disk.read "prog.hss" = .ok Image.empty.toBytes := hfile.read_eq
  have hparse := Image.empty.parse_toBytes
  have hplace : host.disk.OnePlace := by
    have honly {place : Place} {number : Nat} (h : host.disk.node? place = some (.file number)) :
        place = ["prog.hss"] := by
      unfold Disk.node? at h
      split at h
      · cases h
      · by_contra hne
        have hother : (place == ["prog.hss"]) = false := by simpa using hne
        simp [host, List.lookup_cons, hother] at h
    intro place place' number h h'
    rw [honly h, honly h']
  obtain ⟨hsame, vm, host', hload, -, -, hafter⟩ := image_survives_iff hread hparse []
  have hapart : ¬ host.disk.SameFile "prog.hss" (savePathFor "prog.hss") := by
    rw [hsame hplace]
    decide +kernel
  refine ⟨hread, hparse, hplace, vm, host', hload, fun events hinside => ?_⟩
  exact (hafter events hinside).1.2 fun hboth => hapart hboth.1

/-! ## An image that is destroyed -/

/-- The program that writes 7 to slot 0 and halts: three pushes, an interrupt and a halt. -/
def slotWriter : Image :=
  ⟨(((((((Segment.fill 0).set 0 5).set 2 7).set 3 5).set 6 5).set 8 11).set 9 1).set 10 4, .fill 0⟩

/-- Slots are accessed by events of which one does it in the state that those before it lead to. -/
theorem accessesSlots_append {front : List Event} {e : Event} {r : SaveStore.Request}
    (hrequest : (after front vm).eventRequest? e = some r) (hr : r.Accesses) (more : List Event) :
    AccessesSlots (front ++ e :: more) vm := by
  -- by induction on the events before the access
  induction front generalizing vm with
  | nil => exact .inl ⟨r, hrequest, hr⟩
  | cons e' front ih => exact .inr (ih hrequest)

/-- An image under the name of a save file: a run of a program that writes to a slot destroys it. -/
theorem own_save_destroys_image :
    let host : Host := ⟨⟨[(["prog.sav"], .file 0)], #[slotWriter.toBytes], none⟩, .empty⟩
    host.disk.read "prog.sav" = .ok slotWriter.toBytes ∧
    Image.parse slotWriter.toBytes = .ok (slotWriter, 0) ∧
    ∃ vm host', Vm.load (.ofImage "prog.sav") [] host = .ok vm host' ∧
      (stateOf (run 5 vm)).host.disk.read "prog.sav" ≠ .ok slotWriter.toBytes := by
  intro host
  have hfile : host.disk.HasFile "prog.sav" 0 :=
    ⟨⟨["prog.sav"], ⟨⟨[], [], "prog.sav", false⟩, [], rfl, rfl, rfl, rfl⟩, rfl⟩, Nat.one_pos⟩
  have hread : host.disk.read "prog.sav" = .ok slotWriter.toBytes := hfile.read_eq
  have hparse := slotWriter.parse_toBytes
  let host' : Host := ⟨host.disk, Log.empty.info ("loading " ++ "prog.sav")⟩
  let vm : Vm := start slotWriter (.file "prog.sav")
    ⟨.ofSink (.terminal .empty), .ofPath (savePathFor "prog.sav"), .ofDirs [], []⟩ host'
  have hload : Vm.load (.ofImage "prog.sav") [] host = .ok vm host' :=
    load_of_readImage (readImage_of_whole hread hparse) []
  have hloaded : Loaded "prog.sav" slotWriter host.disk vm := ⟨rfl, rfl, rfl, rfl⟩
  refine ⟨hread, hparse, vm, host', hload, ?_⟩
  obtain ⟨n, hmakes, ending, hending, hrun⟩ := exists_run_eq_after 5 vm
  -- the first three steps go on, and the fourth asks for a slot
  have hpush : ∀ m < 3, (match step (after (List.replicate m .step) vm) with
      | .ok .next _ => true
      | _ => false) = true := by
    decide +kernel
  have hspan : (after (List.replicate 3 .step) vm).request?.bind SaveStore.Request.span? =
      some (0, 1) := by
    decide +kernel
  -- so a run with a limit of five makes at least four steps
  have hle : 4 ≤ n := by
    rcases hmakes with rfl | ⟨-, m, rfl, hlast⟩
    · decide
    · by_contra hlt
      have hnext := hpush m (by omega)
      split at hnext
      · rename_i t ht
        exact hlast t ht
      · cases hnext
  have haccess : AccessesSlots (List.replicate n .step ++ ending) vm := by
    obtain ⟨r, hrequest, hr⟩ := Option.bind_eq_some_iff.1 hspan
    obtain ⟨k, rfl⟩ := Nat.exists_eq_add_of_le hle
    have hsplit : List.replicate (4 + k) Event.step ++ ending =
        List.replicate 3 .step ++ .step :: (List.replicate k .step ++ ending) := by
      rw [← List.replicate_append_replicate]
      rfl
    rw [hsplit]
    have hevent : (after (List.replicate 3 .step) vm).eventRequest? .step = some r := hrequest
    exact accessesSlots_append hevent ⟨0, 1, hr, by decide, by decide⟩ _
  have hsave : savePathFor "prog.sav" = "prog.sav" := by decide +kernel
  have hsame : host.disk.SameFile "prog.sav" (savePathFor "prog.sav") := by
    rw [hsave]
    exact ⟨0, hfile, hfile⟩
  have hsize : slotWriter.toBytes.size ≠ 0 := by
    rw [slotWriter.size_toBytes]
    decide
  rw [hrun]
  rcases hloaded.read_cases hread hsize (inside_of_run hending) with
    ⟨hnot, -⟩ | ⟨-, left, hleft, hshort⟩
  · exact absurd ⟨hsame, haccess⟩ hnot
  · rw [hleft]
    intro heq
    rw [Except.ok.inj heq, slotWriter.size_toBytes] at hshort
    exact absurd hshort (by decide)

end WordMachine.Vm

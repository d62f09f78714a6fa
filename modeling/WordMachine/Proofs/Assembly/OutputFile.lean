import WordMachine.Assembly.Assemble
import WordMachine.Proofs.Assembly.Reference
import WordMachine.Proofs.Host.Paths
import WordMachine.Proofs.Memory.Images
import WordMachine.Proofs.Vm.Restart

/-!
# What assembling a file writes

A file is assembled into an image beside it, under a name that differs from its own in the extension
(`OutputName`). A source that cannot be read, is no text or does not assemble leaves the disk as it
was. Otherwise one file is written, and the disk differs at its place only (`Disk.PutAt`).

The two paths are in one directory and end in different names, so they lead to different places. On
a disk on which each file stands at one place that makes them different files, and the source reads
as before. `assembleFile_touches_output` is the main statement.
-/

namespace WordMachine

namespace Disk

variable {d d' : Disk} {path : String} {place place' : Place} {bytes bytes' : ByteArray}

/-! ## Writing -/

/-- Every file has contents and stands at one place only. -/
structure Regular (d : Disk) : Prop where
  lt_size : ∀ place number, d.node? place = some (.file number) → number < d.contents.size
  onePlace : d.OnePlace

/-- The disk `d'` differs from `d` at one place only, where a file with the given bytes stands. -/
structure PutAt (d d' : Disk) (place : Place) (bytes : ByteArray) : Prop where
  /-- The file is new, or it is the one that stood there. -/
  here : ∃ number, (d.node? place = none ∨ d.node? place = some (.file number)) ∧
    d'.node? place = some (.file number) ∧ d'.bytes number = bytes
  elsewhere : ∀ p, p ≠ place → d'.node? p = d.node? p
  bytes_eq : ∀ p number, p ≠ place → d.node? p = some (.file number) →
    d'.bytes number = d.bytes number

namespace PutAt

variable (h : PutAt d d' place bytes)

include h

/-- Putting a file somewhere makes no directory and removes none. -/
theorem directory_iff (p : Place) :
    d'.node? p = some .directory ↔ d.node? p = some .directory := by
  by_cases hp : p = place
  · subst hp
    obtain ⟨number, hbefore, hafter, -⟩ := h.here
    rw [hafter]
    rcases hbefore with hbefore | hbefore <;> simp [hbefore]
  · rw [h.elsewhere p hp]

/-- So every path leads where it led. -/
theorem leads_iff : Leads d' path place' ↔ Leads d path place' :=
  ⟨fun hleads => hleads.of_directories fun p => (h.directory_iff p).1,
    fun hleads => hleads.of_directories fun p => (h.directory_iff p).2⟩

/-- The paths that lead to the place read as what was put there, and all others as before. -/
theorem read_eq_ok_iff : d'.read path = .ok bytes' ↔
    Leads d path place ∧ bytes' = bytes ∨ ¬ Leads d path place ∧ d.read path = .ok bytes' := by
  obtain ⟨here, -, hnode, hhere⟩ := h.here
  by_cases hleads : Leads d path place
  · -- the path leads to the place, where the new file stands
    simp only [hleads, true_and, not_true_eq_false, false_and, or_false]
    rw [Disk.read_eq_ok_iff]
    constructor
    · rintro ⟨p, number, hp, hfile, rfl⟩
      obtain rfl := (h.leads_iff.1 hp).unique hleads
      rw [hnode] at hfile
      obtain rfl := Node.file.inj (Option.some.inj hfile)
      exact hhere
    · rintro rfl
      exact ⟨place, here, h.leads_iff.2 hleads, hnode, hhere⟩
  · -- the path leads elsewhere, where nothing has changed
    simp only [hleads, false_and, not_false_eq_true, true_and, false_or]
    have hne {p : Place} (hp : Leads d path p) : p ≠ place := fun heq => hleads (heq ▸ hp)
    rw [Disk.read_eq_ok_iff, Disk.read_eq_ok_iff]
    constructor
    · rintro ⟨p, number, hp, hfile, rfl⟩
      have hp := h.leads_iff.1 hp
      rw [h.elsewhere p (hne hp)] at hfile
      exact ⟨p, number, hp, hfile, (h.bytes_eq p number (hne hp) hfile).symm⟩
    · rintro ⟨p, number, hp, hfile, rfl⟩
      refine ⟨p, number, h.leads_iff.2 hp, ?_, h.bytes_eq p number (hne hp) hfile⟩
      rw [h.elsewhere p (hne hp), hfile]

end PutAt

/-- A file that is there takes new bytes. -/
theorem putAt_setBytes (hd : Regular d) {number : Nat}
    (hnode : d.node? place = some (.file number)) (bytes : ByteArray) :
    PutAt d (d.setBytes number bytes) place bytes ∧ Regular (d.setBytes number bytes) := by
  have hlt := hd.lt_size place number hnode
  refine ⟨⟨⟨number, .inr hnode, hnode, bytes_setBytes_self bytes hlt⟩, fun _ _ => rfl, ?_⟩, ?_, ?_⟩
  · intro p number' hp hfile
    refine bytes_setBytes_of_ne bytes fun heq => hp ?_
    exact hd.onePlace p place number' hfile (heq ▸ hnode)
  · intro p number' hfile
    rw [setBytes, Array.size_setIfInBounds]
    exact hd.lt_size p number' hfile
  · exact hd.onePlace

/-- A new file has a number that no other file has. -/
theorem Regular.create (hd : Regular d) (hnode : d.node? place = none) :
    Regular (d.create place).2 := by
  have hsize : (d.create place).2.contents.size = d.contents.size + 1 := by
    rw [Disk.create, Array.size_push]
  refine ⟨fun p number hfile => ?_, fun p p' number hfile hfile' => ?_⟩
  · rw [node?_create hnode] at hfile
    rw [hsize]
    -- the new file has the next number
    split at hfile
    · obtain rfl := Node.file.inj (Option.some.inj hfile)
      exact Nat.lt_succ_self _
    · exact Nat.lt_succ_of_lt (hd.lt_size p number hfile)
  · rw [node?_create hnode] at hfile hfile'
    split at hfile
    · obtain rfl := Node.file.inj (Option.some.inj hfile)
      split at hfile'
      · rename_i hp hp'
        rw [hp, hp']
      · exact absurd (hd.lt_size p' _ hfile') (Nat.lt_irrefl _)
    · split at hfile'
      · obtain rfl := Node.file.inj (Option.some.inj hfile')
        exact absurd (hd.lt_size p _ hfile) (Nat.lt_irrefl _)
      · exact hd.onePlace p p' number hfile hfile'

/-- A path can be written to if it leads to a place that is no directory. On a regular disk, what it
leads to is all that changes. -/
theorem exists_write (hleads : Leads d path place) (hnode : d.node? place ≠ some .directory)
    (bytes : ByteArray) :
    ∃ d', d.write path bytes = .ok d' ∧ (Regular d → PutAt d d' place bytes ∧ Regular d') := by
  have hopen := hleads.openFile_eq
  cases hplace : d.node? place with
  | none =>
    -- nothing stands there yet, so the file is made first
    rw [hplace] at hopen
    have hnew : (d.create place).2.node? place = some (.file d.contents.size) := by
      rw [node?_create hplace, if_pos rfl]
    refine ⟨_, by simp only [write, bind, Except.bind, hopen]; rfl, fun hd => ?_⟩
    obtain ⟨hput, hregular⟩ := putAt_setBytes (hd.create hplace) hnew bytes
    refine ⟨⟨?_, ?_, ?_⟩, hregular⟩
    · obtain ⟨number, -, hafter, hbytes⟩ := hput.here
      exact ⟨number, .inl hplace, hafter, hbytes⟩
    · intro p hp
      exact (hput.elsewhere p hp).trans (by rw [node?_create hplace, if_neg hp])
    · intro p number hp hfile
      have hfile' : (d.create place).2.node? p = some (.file number) := by
        rw [node?_create hplace, if_neg hp, hfile]
      exact (hput.bytes_eq p number hp hfile').trans (bytes_create (hd.lt_size p number hfile))
  | some node =>
    cases node with
    | directory => exact absurd hplace hnode
    | file number =>
      rw [hplace] at hopen
      exact ⟨_, by simp only [write, bind, Except.bind, hopen]; rfl,
        fun hd => putAt_setBytes hd hplace bytes⟩

/-- A path that was written to leads to a place that is no directory. -/
theorem leads_of_write (h : d.write path bytes = .ok d') :
    ∃ place, Leads d path place ∧ d.node? place ≠ some .directory := by
  simp only [write, bind, Except.bind] at h
  cases hopen : d.openFile path with
  | error e => simp [hopen] at h
  | ok opened =>
    obtain ⟨place, hleads, ⟨hnode, -⟩ | ⟨hnode, -, -⟩⟩ := openFile_eq_ok hopen
    · exact ⟨place, hleads, by simp [hnode]⟩
    · exact ⟨place, hleads, by simp [hnode]⟩

/-- A path that ends in `..` leads to a directory. -/
theorem Leads.node?_dots {directory : List Char} (h : Path.Names directory ['.', '.'])
    (hleads : Leads d (String.ofList (directory ++ ['.', '.'])) place) :
    d.node? place = some .directory := by
  obtain ⟨above, henter, hstep⟩ := hleads.exists_enter h
  have habove : Entered d above := entered_of_enter henter
  rcases step_cases hstep with ⟨heq, -⟩ | ⟨-, rfl⟩ | ⟨-, hne, -⟩
  · exact absurd heq (by decide)
  · exact habove.parent.node?_eq
  · exact absurd rfl hne

end Disk

namespace Path

variable {name stem extension : List Char}

/-! ## The last dot of a name -/

/-- A name is cut at a dot that is not its first character and has no other dot behind it. -/
theorem cutName?_of_append (hstem : stem ≠ []) (hextension : '.' ∉ extension) :
    cutName? (stem ++ '.' :: extension) = some (stem, extension) := by
  have htake : (stem ++ '.' :: extension).reverse.takeWhile (· ≠ '.') = extension.reverse := by
    rw [List.reverse_append, List.reverse_cons, List.append_assoc, List.singleton_append,
      List.takeWhile_append_of_pos]
    · simp
    · intro c hc
      rw [decide_eq_true_iff]
      rintro rfl
      exact hextension (List.mem_reverse.1 hc)
  have hdrop : (stem ++ '.' :: extension).reverse.drop extension.reverse.length =
      '.' :: stem.reverse := by
    rw [List.reverse_append, List.reverse_cons, List.append_assoc, List.singleton_append,
      List.drop_left]
  unfold cutName?
  simp only [htake, hdrop, List.reverse_eq_nil_iff, if_neg hstem, List.reverse_reverse]

/-- A name without a dot behind its first character is not cut. -/
theorem cutName?_of_notMem (h : '.' ∉ name.tail) : cutName? name = none := by
  cases hcut : cutName? name with
  | none => rfl
  | some cut =>
    obtain ⟨rfl, hstem⟩ := cutName?_eq_some hcut
    refine absurd ?_ h
    rw [List.tail_append_of_ne_nil hstem]
    simp

/-- A name has no dot behind its first character, or there is a last one. -/
theorem notMem_tail_or_exists (name : List Char) : '.' ∉ name.tail ∨
    ∃ stem extension, name = stem ++ '.' :: extension ∧ stem ≠ [] ∧ '.' ∉ extension := by
  by_cases h : '.' ∈ name.tail
  · obtain ⟨back, front, heq, hback⟩ := List.eq_append_cons_of_mem (List.mem_reverse.2 h)
    cases name with
    | nil => simp at h
    | cons c rest =>
      have hrest : rest = front.reverse ++ '.' :: back.reverse := by
        rw [List.tail_cons, List.reverse_eq_iff] at heq
        simpa using heq
      refine .inr ⟨c :: front.reverse, back.reverse, by rw [hrest, List.cons_append], nofun, ?_⟩
      rwa [List.mem_reverse]
  · exact .inl h

end Path

namespace Assembly

open Disk (Leads Regular PutAt)

/-! ## The name of the output -/

/-- The name of the image that is made from a file. What follows the last dot of a name is its
extension, unless that dot is its first character. -/
inductive OutputName : List Char → List Char → Prop
  | follow {stem} (hstem : stem ≠ []) :
    OutputName (stem ++ ".hss".toList) (stem ++ ".hss.out".toList)
  | replace {stem extension} (hstem : stem ≠ []) (hdot : stem ≠ ['.'])
    (hextension : '.' ∉ extension) (hne : extension ≠ "hss".toList) :
    OutputName (stem ++ '.' :: extension) (stem ++ ".hss".toList)
  | add {name} (h : '.' ∉ name.tail) : OutputName name (name ++ ".hss".toList)

variable {d d' : Disk} {source : String} {img : Image} {directory name name' : List Char}

/-- The output has another name than the source. -/
theorem OutputName.ne (h : OutputName name name') : name' ≠ name := by
  cases h with
  | follow hstem => exact fun heq => absurd (List.append_cancel_left heq) (by decide)
  | replace hstem hdot hextension hne =>
    intro heq
    exact hne (List.cons.inj (List.append_cancel_left heq)).2.symm
  | add h => simp

/-- The name of the output can stand in the same directory. -/
theorem OutputName.names (h : OutputName name name') (hnames : Path.Names directory name) :
    Path.Names directory name' := by
  have hslash := hnames.notMem
  refine ⟨hnames.slash, ?_, ?_⟩
  · cases h <;> simp
  · cases h <;> simp_all

/-- The output is in the directory of the source, unless the name of the source is two dots and an
extension, which leaves no name for it. -/
theorem outputPath_cases (h : Path.Names directory name) (hdot : name ≠ ['.'])
    (hdots : name ≠ ['.', '.']) :
    (∃ name', OutputName name name' ∧
      outputPath (String.ofList (directory ++ name)) = String.ofList (directory ++ name')) ∨
    outputPath (String.ofList (directory ++ name)) = String.ofList (directory ++ ['.', '.']) := by
  have hextension := h.extension?_eq hdot hdots
  have hwith := h.withExtension_eq hdot hdots "hss"
  unfold outputPath
  rcases Path.notMem_tail_or_exists name with htail | ⟨stem, extension, rfl, hstem, hlast⟩
  · rw [Path.cutName?_of_notMem htail] at hextension hwith
    rw [hextension, if_neg (by simp), hwith]
    exact .inl ⟨_, .add htail, rfl⟩
  · rw [Path.cutName?_of_append hstem hlast] at hextension hwith
    rw [hextension, hwith]
    -- a source with the extension of an image keeps it, and the output has one more
    by_cases hhss : extension = "hss".toList
    · rw [hhss, if_pos (by simp)]
      refine .inl ⟨_, .follow hstem, ?_⟩
      rw [← String.toList_inj]
      simp
    · have hne : some (String.ofList extension) ≠ some "hss" := by
        rw [Ne, Option.some.injEq, ← String.toList_inj, String.toList_ofList]
        exact hhss
      rw [Option.map_some, if_neg hne]
      dsimp only
      by_cases hone : stem = ['.']
      · rw [if_pos hone]
        exact .inr rfl
      · rw [if_neg hone]
        exact .inl ⟨_, .replace hstem hone hlast hhss, rfl⟩

/-- A source that can be read and an output that can be written are in one directory, under
different names, and at different places. -/
theorem exists_outputName {bytes : ByteArray} {place : Place} (hread : d.read source = .ok bytes)
    (hleads : Leads d (outputPath source) place) (hnode : d.node? place ≠ some .directory) :
    (∃ directory name name', Path.Names directory name ∧ OutputName name name' ∧
      source = String.ofList (directory ++ name) ∧
      outputPath source = String.ofList (directory ++ name')) ∧ ¬ Leads d source place := by
  obtain ⟨place', number, hsource, hfile, -⟩ := Disk.read_eq_ok_iff.1 hread
  obtain ⟨directory, name, rfl, hnames, hdot, hdots⟩ := hsource.exists_split hfile
  rcases outputPath_cases hnames hdot hdots with ⟨name', hname', hout⟩ | hout
  · refine ⟨⟨directory, name, name', hnames, hname', rfl, hout⟩, fun hsame => ?_⟩
    rw [hout] at hleads
    exact hname'.ne (hsame.name_eq hnames (hname'.names hnames) hdot hdots hleads)
  · rw [hout] at hleads
    exact absurd (hleads.node?_dots ⟨hnames.slash, nofun, by decide⟩) hnode

/-! ## Assembling a file -/

/-- Bytes are decoded to a text exactly if they are its encoding. -/
theorem fromUTF8?_eq_some_iff {bytes : ByteArray} {text : String} :
    String.fromUTF8? bytes = some text ↔ bytes = text.toUTF8 := by
  unfold String.fromUTF8?
  constructor
  · intro h
    split at h
    · obtain rfl := Option.some.inj h
      rfl
    · cases h
  · rintro rfl
    exact dif_pos text.isValidUTF8

/-- A source has a text exactly if its file holds the encoding of it. -/
theorem sourceText_eq_ok_iff {text : String} :
    sourceText d source = .ok text ↔ d.read source = .ok text.toUTF8 := by
  unfold sourceText
  cases hread : d.read source with
  | error cause => simp
  | ok bytes =>
    rw [Except.ok.injEq, ← fromUTF8?_eq_some_iff]
    dsimp only
    cases String.fromUTF8? bytes <;> simp

/-- A source whose text does not give an image leaves the disk as it was. -/
theorem assembleFile_of_error {e : Error} (h : sourceText d source >>= assemble = .error e) :
    assembleFile source d = .error e d := by
  simp only [assembleFile, h]

/-- An output that cannot be written is reported, and the disk is as it was. -/
theorem assembleFile_of_write_error {cause : OsError}
    (h : sourceText d source >>= assemble = .ok img)
    (hwrite : d.write (outputPath source) img.toBytes = .error cause) :
    assembleFile source d = .error (.file (outputPath source) cause) d := by
  simp only [assembleFile, h, hwrite]

/-- An image that can be written is. -/
theorem assembleFile_of_write (h : sourceText d source >>= assemble = .ok img)
    (hwrite : d.write (outputPath source) img.toBytes = .ok d') :
    assembleFile source d = .ok (outputPath source) d' := by
  simp only [assembleFile, h, hwrite]

/-- The image of a source: its text can be read and assembles. -/
theorem bind_assemble_eq_ok_iff : sourceText d source >>= assemble = .ok img ↔
    ∃ text, d.read source = .ok text.toUTF8 ∧ assemble text = .ok img := by
  simp only [← sourceText_eq_ok_iff]
  cases sourceText d source with
  | error e => exact iff_of_false nofun (by simp)
  | ok text => simp [bind, Except.bind]

/-- Assembling fails and leaves the disk as it was, or writes the image of the text. -/
theorem assembleFile_cases (source : String) (d : Disk) :
    (∃ e, assembleFile source d = .error e d) ∨
    ∃ text img d', d.read source = .ok text.toUTF8 ∧ assemble text = .ok img ∧
      d.write (outputPath source) img.toBytes = .ok d' ∧
      assembleFile source d = .ok (outputPath source) d' := by
  cases himage : sourceText d source >>= assemble with
  | error e => exact .inl ⟨e, assembleFile_of_error himage⟩
  | ok img =>
    cases hwrite : d.write (outputPath source) img.toBytes with
    | error cause => exact .inl ⟨_, assembleFile_of_write_error himage hwrite⟩
    | ok d' =>
      obtain ⟨text, hread, hassemble⟩ := bind_assemble_eq_ok_iff.1 himage
      exact .inr ⟨text, img, d', hread, hassemble, hwrite, assembleFile_of_write himage hwrite⟩

/-- What a source that has been assembled leaves behind. -/
structure Assembled (d d' : Disk) (source : String) (img : Image) : Prop where
  ne : outputPath source ≠ source
  outputName : ∃ directory name name', Path.Names directory name ∧ OutputName name name' ∧
    source = String.ofList (directory ++ name) ∧
    outputPath source = String.ofList (directory ++ name')
  source_eq : d'.read source = d.read source
  /-- The output is all that changes, and the paths that lead to it are all that read anew. -/
  putAt : ∃ place, Leads d (outputPath source) place ∧ PutAt d d' place img.toBytes ∧
    ∀ path bytes, d'.read path = .ok bytes ↔ Leads d path place ∧ bytes = img.toBytes ∨
      ¬ Leads d path place ∧ d.read path = .ok bytes
  written : ∃ bytes, d'.read (outputPath source) = .ok bytes ∧ bytes.size = 196608 ∧
    Image.parse bytes = .ok (img, 0)
  /-- A machine that is loaded from the output starts from the image, and no byte is ignored. -/
  loads : ∀ log, Vm.readImage (outputPath source) ⟨d', log⟩ =
    .ok img ⟨d', log.info ("loading " ++ outputPath source)⟩
  regular : Regular d'

/-- A source that was read, and an image that was put at the place of the output, leave what is
promised. -/
theorem assembled {bytes : ByteArray} {place : Place} (hread : d.read source = .ok bytes)
    (hleads : Leads d (outputPath source) place) (hnode : d.node? place ≠ some .directory)
    (hput : PutAt d d' place img.toBytes) (hregular : Regular d') : Assembled d d' source img := by
  obtain ⟨hname, hapart⟩ := exists_outputName hread hleads hnode
  have hwritten : d'.read (outputPath source) = .ok img.toBytes :=
    hput.read_eq_ok_iff.2 (.inl ⟨hleads, rfl⟩)
  refine ⟨?_, hname, ?_, ⟨place, hleads, hput, fun _ _ => hput.read_eq_ok_iff⟩,
    ⟨_, hwritten, img.size_toBytes, img.parse_toBytes⟩,
    fun _ => Vm.readImage_of_whole hwritten img.parse_toBytes, hregular⟩
  · intro heq
    rw [heq] at hleads
    exact hapart hleads
  · rw [hread]
    exact hput.read_eq_ok_iff.2 (.inr ⟨hapart, hread⟩)

/-- Assembling a file touches its output only. If the source cannot be read, is no text or does not
assemble, that is the error, and the disk is as it was; so it is after any error. Otherwise the file
is assembled just when the output path leads to a place that is no directory. On a regular disk the
output then is a file other than the source, which holds the image and nothing else, and all other
files are as they were. -/
theorem assembleFile_touches_output (d : Disk) (source : String) :
    (∀ cause, d.read source = .error cause →
      assembleFile source d = .error (.file source cause) d) ∧
    (∀ bytes, d.read source = .ok bytes → ¬ bytes.IsValidUTF8 →
      assembleFile source d = .error (.file source .invalidText) d) ∧
    (∀ text e, d.read source = .ok text.toUTF8 → assemble text = .error e →
      assembleFile source d = .error e d) ∧
    (∀ e d', assembleFile source d = .error e d' → d' = d) ∧
    (∀ text img, d.read source = .ok text.toUTF8 → assemble text = .ok img →
      ((∃ out d', assembleFile source d = .ok out d') ↔
        ∃ place, Leads d (outputPath source) place ∧ d.node? place ≠ some .directory)) ∧
    ∀ out d', assembleFile source d = .ok out d' → out = outputPath source ∧
      ∃ text img, d.read source = .ok text.toUTF8 ∧ assemble text = .ok img ∧
        (d.Regular → Assembled d d' source img) := by
  refine ⟨?_, ?_, ?_, ?_, ?_, ?_⟩
  · -- the source cannot be read
    intro cause hread
    refine assembleFile_of_error ?_
    simp only [sourceText, hread]
    rfl
  · -- it is no text
    intro bytes hread hinvalid
    have hnone : String.fromUTF8? bytes = none := dif_neg hinvalid
    refine assembleFile_of_error ?_
    simp only [sourceText, hread, hnone]
    rfl
  · -- its text does not assemble
    intro text e hread hassemble
    refine assembleFile_of_error ?_
    rw [sourceText_eq_ok_iff.2 hread]
    exact hassemble
  · -- any other error is one of writing
    intro e d' h
    rcases assembleFile_cases source d with ⟨e', he⟩ | ⟨_, _, _, -, -, -, hok⟩
    · exact (EStateM.Result.error.inj (h.symm.trans he)).2
    · cases h.symm.trans hok
  · -- with an image at hand, all depends on the output
    intro text img hread hassemble
    constructor
    · rintro ⟨out, d', h⟩
      rcases assembleFile_cases source d with ⟨e, he⟩ | ⟨_, _, _, -, -, hwrite, -⟩
      · cases h.symm.trans he
      · exact Disk.leads_of_write hwrite
    · rintro ⟨place, hleads, hnode⟩
      obtain ⟨d', hwrite, -⟩ := Disk.exists_write hleads hnode img.toBytes
      have himage := bind_assemble_eq_ok_iff.2 ⟨text, hread, hassemble⟩
      exact ⟨_, d', assembleFile_of_write himage hwrite⟩
  · -- an image was written
    intro out d' h
    rcases assembleFile_cases source d with ⟨e, he⟩ | ⟨text, img, d₁, hread, hassemble, hwrite, hok⟩
    · cases h.symm.trans he
    · obtain ⟨rfl, rfl⟩ := EStateM.Result.ok.inj (h.symm.trans hok)
      obtain ⟨place, hleads, hnode⟩ := Disk.leads_of_write hwrite
      obtain ⟨d₂, hwrite', hput⟩ := Disk.exists_write hleads hnode img.toBytes
      obtain rfl := Except.ok.inj (hwrite.symm.trans hwrite')
      refine ⟨rfl, text, img, hread, hassemble, fun hd => ?_⟩
      exact assembled hread hleads hnode (hput hd).1 (hput hd).2

/-- A source whose name has the extension of images, and a file beside it: the image does not take
the place of either, and it holds the instructions of the source. -/
theorem assembleFile_touches_output_beside :
    let text := ".code PI 7 HL"
    let other : ByteArray := ⟨#[1, 2, 3]⟩
    let d : Disk := ⟨[(["prog.hss"], .file 0), (["notes"], .file 1)], #[text.toUTF8, other], none⟩
    d.Regular ∧ ∃ d' img, assemble text = .ok img ∧
      img.code = .ofArray #[5, 0, 7, 4] 0 ∧
      assembleFile "prog.hss" d = .ok "prog.hss.out" d' ∧
      d'.read "prog.hss" = .ok text.toUTF8 ∧ d'.read "notes" = .ok other ∧
      ∃ bytes, d'.read "prog.hss.out" = .ok bytes ∧ bytes.size = 196608 ∧
        Image.parse bytes = .ok (img, 0) := by
  intro text other d
  -- two files stand on the disk, each at its place
  have hfile {place : Place} {number : Nat} (h : d.node? place = some (.file number)) :
      place = ["prog.hss"] ∧ number = 0 ∨ place = ["notes"] ∧ number = 1 := by
    unfold Disk.node? at h
    split at h
    · cases h
    · simp only [d, List.lookup_cons, List.lookup_nil] at h
      split at h
      · rename_i hplace
        exact .inl ⟨by simpa using hplace, (Node.file.inj (Option.some.inj h)).symm⟩
      · split at h
        · rename_i hplace
          exact .inr ⟨by simpa using hplace, (Node.file.inj (Option.some.inj h)).symm⟩
        · cases h
  have hd : d.Regular := by
    refine ⟨fun place number h => ?_, fun place place' number h h' => ?_⟩
    · rcases hfile h with ⟨-, rfl⟩ | ⟨-, rfl⟩ <;> exact of_decide_eq_true rfl
    · rcases hfile h with ⟨rfl, rfl⟩ | ⟨rfl, rfl⟩ <;> rcases hfile h' with ⟨rfl, h0⟩ | ⟨rfl, h0⟩
      · rfl
      · cases h0
      · cases h0
      · rfl
  have hleads (name : String) (h : Disk.Route.ofPath name = .ok ⟨[], [], name, false⟩)
      (hstep : Disk.step [] name = .ok [name]) : Leads d name [name] :=
    ⟨⟨[], [], name, false⟩, [], h, rfl, rfl, hstep⟩
  have hread : d.read "prog.hss" = .ok text.toUTF8 :=
    Disk.read_eq_ok_iff.2 ⟨["prog.hss"], 0, hleads "prog.hss" rfl rfl, rfl, rfl⟩
  have hnotes : d.read "notes" = .ok other :=
    Disk.read_eq_ok_iff.2 ⟨["notes"], 1, hleads "notes" rfl rfl, rfl, rfl⟩
  let p : Program := [.directive .code, .push (.number 7), .instruction (.extended .halt)]
  have htokens : (Scan.ofText text).tokens =
      [⟨".code", 1⟩, ⟨"PI", 1⟩, ⟨"7", 1⟩, ⟨"HL", 1⟩] := by decide +kernel
  have hparses : Parses .data (Scan.ofText text).tokens p := by
    rw [htokens]
    exact .directive rfl (.push rfl (.number (by decide +kernel) ⟨by decide, by decide⟩)
      (.instruction (.extended rfl (by decide)) .done))
  have hsound : p.Sound := ⟨List.nodup_nil, nofun, by decide, by decide⟩
  have hassemble := assemble_of_parses (by decide +kernel) hparses hsound
  have hcode : p.code = [5, 0, 7, 4] := by decide
  have hout : outputPath "prog.hss" = "prog.hss.out" := by decide +kernel
  obtain ⟨-, -, -, -, hiff, hdone⟩ := assembleFile_touches_output d "prog.hss"
  obtain ⟨out, d', h⟩ := (hiff _ p.image hread hassemble).2
    ⟨["prog.hss.out"], hout ▸ hleads "prog.hss.out" rfl rfl, by decide⟩
  obtain ⟨rfl, text', img', hread', hassemble', hleft⟩ := hdone out d' h
  obtain rfl : text' = text := by
    rw [hread] at hread'
    exact String.toByteArray_inj.1 (Except.ok.inj hread').symm
  obtain rfl := Except.ok.inj (hassemble.symm.trans hassemble')
  replace hleft := hleft hd
  refine ⟨hd, d', p.image, hassemble, ?_, ?_, hleft.source_eq.trans hread, ?_, ?_⟩
  · rw [Program.image, hcode]
  · rw [h, hout]
  · obtain ⟨place, hplace, -, hothers⟩ := hleft.putAt
    -- the path of the other file leads elsewhere
    have hapart : ¬ Leads d "notes" place := by
      intro hsame
      rw [hout] at hplace
      have heq := (hleads "prog.hss.out" rfl rfl).unique hplace
      exact absurd (heq.trans (hsame.unique (hleads "notes" rfl rfl))) (by decide)
    exact (hothers "notes" other).2 (.inr ⟨hapart, hnotes⟩)
  · rw [← hout]
    exact hleft.written

end Assembly

end WordMachine

import WordMachine.Proofs.Memory.Images
import WordMachine.Proofs.Save.Frame
import WordMachine.Proofs.Vm.Advance
import WordMachine.Proofs.Vm.Output

/-!
# A reset starts over

Whatever has happened to a virtual machine, a step that carries out a reset leaves it as it was when
it started, apart from what lies outside of it: `reset_starts_over`. The image comes from where the
virtual machine was made from, which nothing changes (`Rooted`): the image itself, or the file of a
path as it is when the reset is carried out. Machine, name table and save store are as at the start;
console, files and known extensions are those of the moment.

So from there on the virtual machine does what one does that starts now, with the same image,
console, files and extensions, and what it puts out is added to what had been put out before
(`OutputMap.behind`).

A reset stops just before address 0 and leaves it to the step that carries it out to move on. Called
without a step it stays there, and the next step fetches from address 255 (`reset_at_zero_iff`).
-/

namespace WordMachine

namespace Vm

/-! ## What can happen to a virtual machine -/

/-- What can happen to a virtual machine: it makes a step, it is reset, its output is handed over,
its machine is changed from outside, the logging of instructions is turned on or off, and files and
libraries come and go. -/
inductive Event where
  | step
  | reset
  | flush
  | edit (change : Machine → Machine)
  | trace (on : Bool)
  | outside (files : Disk → Disk) (libraries : Libraries)

/-- Lets something happen to a virtual machine. -/
def event : Event → Op Outcome
  | .step => step
  | .reset => do
    reset
    return .next
  | .flush => do
    onConsole Console.flush
    return .next
  | .edit change => do
    modifyMachine change
    return .next
  | .trace on => do
    modify fun vm => { vm with trace := on }
    return .next
  | .outside files libraries => do
    modify fun vm => { vm with
      host := { vm.host with disk := files vm.host.disk }
      libraries := libraries }
    return .next

/-- The state after some events, of which each takes place in the state that the one before left
behind, whether that was a fault or not. -/
def after (events : List Event) (vm : Vm) : Vm :=
  events.foldl (fun vm e => stateOf (event e vm)) vm

/-- The first event, and then the others in the state it leaves. -/
theorem after_cons (e : Event) (events : List Event) (vm : Vm) :
    after (e :: events) vm = after events (stateOf (event e vm)) := rfl

/-- Some events, and then some more. -/
theorem after_append (events more : List Event) (vm : Vm) :
    after (events ++ more) vm = after more (after events vm) := List.foldl_append

/-- A run with a limit makes `n` steps: as many as the limit says, or up to one that does not go on
to the next. -/
def Makes (limit n : Nat) (vm : Vm) : Prop :=
  n = limit ∨ n < limit ∧ ∃ m, n = m + 1 ∧
    ∀ t, step (after (List.replicate m .step) vm) ≠ .ok .next t

/-- One step in front. -/
theorem Makes.succ {limit n : Nat} {vm t : Vm} (hstep : step vm = .ok .next t)
    (h : Makes limit n t) : Makes (limit + 1) (n + 1) vm := by
  have hone : stateOf (event .step vm) = t := congrArg stateOf hstep
  rcases h with rfl | ⟨hlt, m, rfl, hlast⟩
  · exact .inl rfl
  · refine .inr ⟨Nat.succ_lt_succ hlt, m + 1, rfl, ?_⟩
    rwa [List.replicate_succ, after_cons, hone]

/-- A step that does not go on is the last one. -/
theorem makes_one {vm : Vm} (h : ∀ t, step vm ≠ .ok .next t) (limit : Nat) :
    Makes (limit + 1) 1 vm := by
  cases limit with
  | zero => exact .inl rfl
  | succ limit => exact .inr ⟨Nat.succ_lt_succ (Nat.succ_pos limit), 0, rfl, h⟩

/-- The state that steps in a row lead to, the last of which may have failed or halted. -/
theorem exists_stepsFrom_eq_after (left count : Nat) (vm : Vm) : ∃ n, Makes left n vm ∧
    (stepsFrom left count vm).2.2 = after (List.replicate n .step) vm := by
  -- by induction on the limit; the count of the steps made so far plays no part
  induction left generalizing count vm with
  | zero => exact ⟨0, .inl rfl, rfl⟩
  | succ left ih =>
    cases hstep : step vm with
    | ok outcome t =>
      have hone : stateOf (event .step vm) = t := congrArg stateOf hstep
      cases outcome with
      | next =>
        obtain ⟨n, hmakes, hn⟩ := ih (count + 1) t
        refine ⟨n + 1, hmakes.succ hstep, ?_⟩
        rw [List.replicate_succ, after_cons, hone, ← hn]
        simp only [stepsFrom, hstep]
      | halt =>
        -- a step that halts or fails is the last one
        have hlast (t' : Vm) : step vm ≠ .ok .next t' := by
          intro heq
          rw [hstep] at heq
          cases heq
        refine ⟨1, makes_one hlast left, ?_⟩
        rw [List.replicate_one, after_cons, hone]
        simp only [stepsFrom, hstep]
        rfl
    | error e t =>
      have hone : stateOf (event .step vm) = t := congrArg stateOf hstep
      have hlast (t' : Vm) : step vm ≠ .ok .next t' := by
        intro heq
        rw [hstep] at heq
        cases heq
      refine ⟨1, makes_one hlast left, ?_⟩
      rw [List.replicate_one, after_cons, hone]
      simp only [stepsFrom, hstep]
      rfl

/-- A run is steps in a row, with a flush behind them where it fails. -/
theorem exists_run_eq_after (limit : Nat) (vm : Vm) : ∃ n, Makes limit n vm ∧
    ∃ ending : List Event, (ending = [] ∨ ending = [.flush]) ∧
      stateOf (run limit vm) = after (List.replicate n .step ++ ending) vm := by
  obtain ⟨n, hmakes, hn⟩ := exists_stepsFrom_eq_after limit 0 vm
  have hsteps : (steps limit vm).2.2 = after (List.replicate n .step) vm := hn
  refine ⟨n, hmakes, ?_⟩
  cases hrun : steps limit vm with
  | mk count rest =>
    obtain ⟨ending, t⟩ := rest
    rw [hrun] at hsteps
    -- only a run that fails hands the output over at its end
    cases ending with
    | limit | halt =>
      refine ⟨[], .inl rfl, ?_⟩
      rw [List.append_nil, ← hsteps]
      simp only [run, hrun, stateOf_ok]
    | fault e =>
      refine ⟨[.flush], .inr rfl, ?_⟩
      have hflush : stateOf (event .flush t) = stateOf (onConsole Console.flush t) :=
        stateOf_bind_pure fun _ => Outcome.next
      rw [after_append, ← hsteps, after_cons, hflush]
      -- whether the output can be handed over or not, the state is the one the flush leaves
      cases hout : onConsole Console.flush t with
      | ok x u | error e' u =>
        simp only [run, hrun, hout]
        rfl

/-- What has been put out before makes no difference to what happens. -/
theorem commutes_event (f : OutputMap) (e : Event) (vm : Vm) :
    Commutes f.vm (event e) (event e) vm := by
  cases e with
  | step => exact f.commutes_step vm
  | reset => exact (f.commutes_reset vm).bind fun _ _ _ => commutes_pure _
  | flush => exact (f.commutes_onConsole (b := id) vm _).bind fun _ _ _ => commutes_pure _
  | edit change => exact (f.commutes_modifyMachine (b := id) vm _).bind fun _ _ _ => commutes_pure _
  | trace on => exact rfl
  | outside files libraries => exact rfl

end Vm

/-! ## What nothing changes -/

namespace SaveStore

/-- The store is on a path. -/
def OnPath (path : String) (s : SaveStore × Host) : Prop := s.1.path = path

variable {path : String}

/-- Whatever is done to the file of a save store, the store stays on its path. -/
theorem onPath_fileStable : FileStable (OnPath path) where
  logged h _ := h
  opened h _ := h
  written h _ _ := h
  spent h _ := h
  closed h := h

end SaveStore

namespace Vm

open Utility (Target)

/-- The virtual machine takes its image from a source and keeps its save file at a path. -/
def Rooted {M : Type} (source : ImageSource) (path : String) (vm : Vm M) : Prop :=
  vm.source = source ∧ vm.save.path = path

section

variable {M α : Type} {source : ImageSource} {path : String}

/-- What works on the machine changes neither source nor path. -/
theorem rooted_onMachine (act : EStateM Fault M α) :
    Preserves (Rooted source path) (onMachine act) := preserves_onMachine fun _ h => h

/-- What works on the console changes neither. -/
theorem rooted_onConsole (act : Console.Op α) :
    Preserves (Rooted source path) (onConsole act : OpOn M α) := preserves_onConsole fun _ h => h

/-- What works on the save store changes neither, if it leaves the store on its path. -/
theorem rooted_onSave {act : SaveStore.Op α} (h : Preserves (SaveStore.OnPath path) act) :
    Preserves (Rooted source path) (onSave act : OpOn M α) :=
  preserves_onSave fun vm hvm => ⟨hvm.1, h (vm.save, vm.host) hvm.2⟩

/-- A call of an extension changes neither. -/
theorem rooted_callExtension [Target M] (name : String) (index : Word) :
    Preserves (Rooted source path) (callExtension name index : OpOn M Unit) := by
  refine preserves_callExtension (fun _ _ _ h => h) (fun _ _ _ h => h) ?_ name index
  intro vm text fromLibrary h
  unfold showPrinted
  split
  · exact h
  · exact h

/-- A restart changes neither: it closes the save file and keeps its path. -/
theorem rooted_restart (load : M → Image → M) : Preserves (Rooted source path) (restart load) :=
  preserves_restart (fun _ _ h => h) fun _ _ h => h

/-- No service changes source or path. -/
theorem rooted_serve (service : Service) : Preserves (Rooted source path) (serve service) := by
  have hnames : ∀ (vm : Vm) names, Rooted source path vm → Rooted source path { vm with names } :=
    fun _ _ h => h
  refine ServiceStable.serve ?_ fun _ _ index =>
    preserves_withName hnames fun name => rooted_callExtension name index
  exact {
    pop := rooted_onMachine _
    push := fun _ => rooted_onMachine _
    copy := fun _ _ => preserves_modifyMachine fun _ h => h
    logWord := fun _ => rooted_onConsole _
    logText := fun _ => preserves_withName hnames fun _ => rooted_onConsole _
    read := fun slot => rooted_onSave (SaveStore.onPath_fileStable.read slot)
    write := fun slot w => rooted_onSave (SaveStore.onPath_fileStable.write slot w)
    readRange := fun start n => rooted_onSave (SaveStore.onPath_fileStable.readRange start n)
    writeRange := fun start words =>
      rooted_onSave (SaveStore.onPath_fileStable.writeRange start words) }

/-- Nothing that can happen changes them. -/
theorem rooted_event (e : Event) : Preserves (Rooted source path) (event e) := by
  cases e with
  | step =>
    exact preserves_step rooted_serve (rooted_restart _) (rooted_onConsole _) rooted_onMachine
      fun _ _ h => h
  | reset => exact (rooted_restart _).bind fun _ => preserves_pure _
  | flush => exact (rooted_onConsole _).bind fun _ => preserves_pure _
  | edit _ | trace _ | outside _ _ => exact fun _ h => h

/-- Whatever happens, the source of the image and the path of the save file stay. -/
theorem rooted_after {vm : Vm} (h : Rooted source path vm) (events : List Event) :
    Rooted source path (after events vm) := by
  -- one event after the other, each in the state that the last one left
  induction events generalizing vm with
  | nil => exact h
  | cons e events ih => exact ih (rooted_event e vm h)

end

end Vm

/-! ## Where the image comes from -/

/-- The image that a source gives while the files are as they are on a disk. -/
def ImageSource.Gives (disk : Disk) (img : Image) : ImageSource → Prop
  | .memory kept => img = kept
  | .file path => ∃ bytes ignored, disk.read path = .ok bytes ∧
      Image.parse bytes = .ok (img, ignored)

/-- A source gives one image at most. -/
theorem ImageSource.Gives.unique {disk : Disk} {img img' : Image} {source : ImageSource}
    (h : source.Gives disk img) (h' : source.Gives disk img') : img = img' := by
  cases source with
  | memory kept => exact Eq.trans h h'.symm
  | file path =>
    obtain ⟨bytes, ignored, hread, hparse⟩ := h
    obtain ⟨bytes', ignored', hread', hparse'⟩ := h'
    obtain rfl := Except.ok.inj (hread.symm.trans hread')
    exact (Prod.mk.inj (Except.ok.inj (hparse.symm.trans hparse'))).1

namespace Vm

/-- Reading an image file changes the log only. -/
theorem exists_readImage_eq (path : String) (host : Host) : ∃ log, readImage path host =
    match host.disk.read path with
    | .error cause => .error (.image (.access path cause)) { host with log }
    | .ok bytes =>
      match Image.parse bytes with
      | .error cause => .error (.image cause) { host with log }
      | .ok (img, _) => .ok img { host with log } := by
  let log : Log := host.log.info ("loading " ++ path)
  cases hread : host.disk.read path with
  | error cause =>
    refine ⟨log, ?_⟩
    simp only [readImage, modify_bind_eq, get_bind_eq, hread]
    rfl
  | ok bytes =>
    cases hparse : Image.parse bytes with
    | error cause =>
      refine ⟨log, ?_⟩
      simp only [readImage, modify_bind_eq, get_bind_eq, hread, hparse]
      rfl
    | ok found =>
      obtain ⟨img, ignored⟩ := found
      -- whether bytes behind the image are reported or not, the result is the image
      by_cases hignored : 0 < ignored
      · refine ⟨log.warn (path ++ ": ignoring " ++ ignored.repr ++
          " trailing bytes past the data segment"), ?_⟩
        simp only [readImage, modify_bind_eq, get_bind_eq, hread, hparse, hignored, if_true]
        rfl
      · refine ⟨log, ?_⟩
        simp only [readImage, modify_bind_eq, get_bind_eq, hread, hparse, hignored, if_false]
        rfl

/-- A file that holds an image and nothing else is read with one line in the log. -/
theorem readImage_of_whole {path : String} {bytes : ByteArray} {img : Image} {host : Host}
    (hread : host.disk.read path = .ok bytes) (hparse : Image.parse bytes = .ok (img, 0)) :
    readImage path host = .ok img { host with log := host.log.info ("loading " ++ path) } := by
  simp only [readImage, modify_bind_eq, get_bind_eq, hread, hparse]
  rfl

/-- Reading an image file changes the log only, whether it fails or not. -/
theorem exists_stateOf_readImage (path : String) (host : Host) :
    ∃ log, stateOf (readImage path host) = { host with log } := by
  obtain ⟨log, heq⟩ := exists_readImage_eq path host
  refine ⟨log, ?_⟩
  rw [heq]
  split
  · rfl
  · split <;> rfl

/-- Reading an image file gives the image that it holds and changes the log only. If it holds none,
reading it fails. -/
theorem readImage_cases (path : String) (host : Host) :
    (∃ img log, (ImageSource.file path).Gives host.disk img ∧
      readImage path host = .ok img { host with log }) ∨
    (∀ img, ¬ (ImageSource.file path).Gives host.disk img) ∧
      ∃ e t, readImage path host = .error e t := by
  obtain ⟨log, heq⟩ := exists_readImage_eq path host
  rw [heq]
  cases hread : host.disk.read path with
  | error cause =>
    -- no such file
    refine .inr ⟨?_, _, _, rfl⟩
    rintro img ⟨bytes, ignored, hbytes, -⟩
    cases hread.symm.trans hbytes
  | ok bytes =>
    cases hparse : Image.parse bytes with
    | error cause =>
      -- a file that is no image
      refine .inr ⟨?_, .image cause, { host with log }, by simp only [hparse]⟩
      rintro img ⟨bytes', ignored, hbytes, himg⟩
      obtain rfl := Except.ok.inj (hread.symm.trans hbytes)
      cases hparse.symm.trans himg
    | ok found =>
      obtain ⟨img, ignored⟩ := found
      exact .inl ⟨img, log, ⟨bytes, ignored, hread, hparse⟩, by simp only [hparse]⟩

/-- An image from memory is at hand. -/
theorem sourceImage_memory {vm : Vm} {img : Image} (h : vm.source = .memory img) :
    sourceImage vm = .ok img vm := by
  cases vm
  subst h
  rfl

/-- An image file is read through the host. -/
theorem sourceImage_file {vm : Vm} {path : String} (h : vm.source = .file path) :
    sourceImage vm = onHost (readImage path) vm := by
  cases vm
  subst h
  rfl

/-- The image that a reset loads is the one that the source gives. If there is none, the reset
fails. -/
theorem sourceImage_cases {vm : Vm} {source : ImageSource} (hsource : vm.source = source) :
    (∃ img log, source.Gives vm.host.disk img ∧
      sourceImage vm = .ok img { vm with host := { vm.host with log } }) ∨
    (∀ img, ¬ source.Gives vm.host.disk img) ∧ ∃ e t, sourceImage vm = .error e t := by
  cases source with
  | memory img => exact .inl ⟨img, vm.host.log, rfl, sourceImage_memory hsource⟩
  | file path =>
    rw [sourceImage_file hsource]
    rcases readImage_cases path vm.host with ⟨img, log, hgives, hread⟩ | ⟨hnone, e, t, hread⟩
    · exact .inl ⟨img, log, hgives, by rw [onHost_eq, hread, mapState_ok]⟩
    · exact .inr ⟨hnone, e, { vm with host := t }, by rw [onHost_eq, hread, mapState_error]⟩

/-! ## The reset instruction -/

/-- The virtual machine started over on an image: machine, names and save file are as at a start,
and the log is the given one. -/
def startedOver (vm : Vm) (img : Image) (log : Log) : Vm :=
  { vm with
    machine := .ofImage img
    names := .empty
    save := vm.save.close
    host := { vm.host with log } }

/-- From just before address 0, the instruction pointer moves on to where an image starts. -/
theorem startedOver_moved_on (vm : Vm) (img : Image) (log : Log) :
    { vm.startedOver img log with
      machine := { Machine.ofImage img with ip := Machine.before 0 + 1 } } =
        vm.startedOver img log := by
  have hip : Machine.before 0 + 1 = 0 := by decide
  rw [hip]
  rfl

/-- A reset loads the image that the source gives and stops just before address 0. It fails if there
is no image. -/
theorem reset_cases {vm : Vm} {source : ImageSource} (hsource : vm.source = source) :
    (∃ img log, source.Gives vm.host.disk img ∧ reset vm = .ok () { vm.startedOver img log with
      machine := { Machine.ofImage img with ip := Machine.before 0 } }) ∨
    (∀ img, ¬ source.Gives vm.host.disk img) ∧ ∃ e t, reset vm = .error e t := by
  rcases sourceImage_cases hsource with ⟨img, log, hgives, himg⟩ | ⟨hnone, e, t, himg⟩
  · have hreset : reset vm = .ok () _ := bind_of_ok himg
    exact .inl ⟨img, log, hgives, hreset⟩
  · exact .inr ⟨hnone, e, t, bind_of_error himg⟩

/-- A step that carries out a reset starts over on the image that the source gives, and fails if
there is none. -/
theorem step_reset_cases {vm : Vm} {source : ImageSource} (hsource : vm.source = source)
    (hfetch : fetch vm.machine = .extended .reset) :
    (∃ img log, source.Gives vm.host.disk img ∧ step vm = .ok .next (vm.startedOver img log)) ∨
    (∀ img, ¬ source.Gives vm.host.disk img) ∧ ∃ e t, step vm = .error e t := by
  obtain ⟨log, hstep⟩ := exists_step_eq vm
  let vm₁ : Vm := { vm with host := { vm.host with log } }
  have hexecute : execute (fetch vm.machine) vm₁ =
      (do reset; return Outcome.next : Op Outcome) vm₁ := by
    rw [hfetch]
    rfl
  have hsource₁ : vm₁.source = source := hsource
  rcases reset_cases hsource₁ with ⟨img, log', hgives, hreset⟩ | ⟨hnone, e, t, hreset⟩
  · refine .inl ⟨img, log', hgives, ?_⟩
    rw [hstep, hexecute, bind_of_ok hreset]
    -- the reset leaves the instruction pointer just before 0, and the step moves it on
    exact congrArg (EStateM.Result.ok Outcome.next) (startedOver_moved_on vm img log')
  · exact .inr ⟨hnone, e, t, by rw [hstep, hexecute, bind_of_error hreset]⟩

/-- The virtual machine that starts on an image now: with the console, the files, the extensions and
the log level of another one, and nothing put out yet. -/
def startLike (vm : Vm) (img : Image) : Vm :=
  { start img vm.source ⟨vm.console, .ofPath vm.save.path, vm.loader, vm.libraries⟩
      ⟨vm.host.disk, ⟨vm.host.log.least, #[]⟩⟩ with trace := vm.trace }

/-- Starting over is starting now, behind what has been put out. -/
theorem startedOver_eq (vm : Vm) (img : Image) (log : Log) :
    vm.startedOver img log = (OutputMap.behind log.entries vm.printed vm.notes).vm
      ((vm.startedOver img log).startLike img) := by
  simp [startedOver, startLike, start, OutputMap.vm, OutputMap.behind, OutputMap.host, Log.behind,
    SaveStore.close, SaveStore.ofPath]

end Vm

/-! ## The machine of an image -/

namespace Machine

/-- All registers of a machine that just started are zero. -/
theorem reg_ofImage (img : Image) (i : RegIndex) : (ofImage img).reg i = 0 := by
  unfold reg
  split
  · simp [ofImage]
  · split
    · rfl
    · rfl

/-- However far the stack pointer of a machine that just started is raised, the words are zero. -/
theorem eq_zero_of_raised (img : Image) (w : Word) :
    ∀ x ∈ ((ofImage img).setReg .stackPointer w).stack.toList, x = 0 := by
  have hslots : ((ofImage img).setReg .stackPointer w).stack.slots = .fill 0 := rfl
  intro x hx
  have hmem := List.mem_of_mem_take hx
  rw [hslots] at hmem
  simpa [Segment.fill] using hmem

end Machine

namespace Vm

/-- What a step leaves behind that has started over on an image: the machine of the image, no names,
and a save file that is not open; the console, the files, the extensions and what was put out are
those of before. From there on everything is as with a virtual machine that starts now, and what it
puts out comes behind what was put out before. -/
structure StartsOver (img : Image) (source : ImageSource) (path : String) (vm vm' : Vm) : Prop where
  machine : vm'.machine = .ofImage img
  registers : ∀ i, vm'.machine.reg i = 0
  depth : vm'.machine.stack.depth = 0
  slots : ∀ a, vm'.machine.stack.slots.get a = 0
  raised : ∀ w, ∀ x ∈ (vm'.machine.setReg .stackPointer w).stack.toList, x = 0
  names : vm'.names = .empty
  save : vm'.save = .ofPath path
  console : vm'.console = vm.console
  printed : vm'.printed = vm.printed ∧ vm'.notes = vm.notes
  disk : vm'.host.disk = vm.host.disk
  loader : vm'.loader = vm.loader ∧ vm'.libraries = vm.libraries
  source : vm'.source = source
  trace : vm'.trace = vm.trace
  onwards : ∀ events, results event events vm' = (results event events (vm'.startLike img)).map
    (mapState (OutputMap.behind vm'.host.log.entries vm'.printed vm'.notes).vm)

/-- Starting over on an image leaves what is promised. -/
theorem startsOver {vm : Vm} {source : ImageSource} {path : String} (h : Rooted source path vm)
    (img : Image) (log : Log) : StartsOver img source path vm (vm.startedOver img log) where
  machine := rfl
  registers := Machine.reg_ofImage img
  depth := rfl
  slots := Segment.get_fill 0
  raised := Machine.eq_zero_of_raised img
  names := rfl
  save := by rw [← h.2]; rfl
  console := rfl
  printed := ⟨rfl, rfl⟩
  disk := rfl
  loader := ⟨rfl, rfl⟩
  source := h.1
  trace := rfl
  onwards events := by
    have hmap := results_map
      (commutes_event (.behind log.entries vm.printed vm.notes)) events
      ((vm.startedOver img log).startLike img)
    rw [← startedOver_eq] at hmap
    exact hmap

/-- A virtual machine that is opened starts on some image and is reset from the file. -/
theorem openFile_eq_ok {path : String} {services : Services} {host host' : Host} {vm : Vm}
    (h : openFile path services host = .ok vm host') :
    ∃ img, vm = start img (.file path) services host' := by
  obtain ⟨img, host₁, _, h⟩ := bind_eq_ok h
  obtain ⟨rfl, rfl⟩ := EStateM.Result.ok.inj h
  exact ⟨img, rfl⟩

/-- After whatever events, a step that carries out a reset starts over. With an image from memory it
always does; with an image file it does exactly if the file holds an image then, and the image is
that one. -/
theorem reset_starts_over :
    (∀ (img : Image) (services : Services) (host : Host) (events : List Event),
      fetch (after events (ofImage img services host)).machine = .extended .reset →
        ∃ vm', step (after events (ofImage img services host)) = .ok .next vm' ∧
          StartsOver img (.memory img) services.save.path
            (after events (ofImage img services host)) vm') ∧
    ∀ (path : String) (services : Services) (host host' : Host) (opened : Vm) (events : List Event),
      openFile path services host = .ok opened host' →
      fetch (after events opened).machine = .extended .reset →
        (∀ vm', step (after events opened) = .ok .next vm' →
          ∃ img, (ImageSource.file path).Gives (after events opened).host.disk img ∧
            StartsOver img (.file path) services.save.path (after events opened) vm') ∧
        ∀ img, (ImageSource.file path).Gives (after events opened).host.disk img →
          ∃ vm', step (after events opened) = .ok .next vm' := by
  constructor
  · -- the image is kept in memory, so there always is one
    intro img services host events hfetch
    have hroot : Rooted (.memory img) services.save.path
        (after events (ofImage img services host)) := rooted_after ⟨rfl, rfl⟩ events
    rcases step_reset_cases hroot.1 hfetch with ⟨img', log, rfl, hstep⟩ | ⟨hnone, -⟩
    · exact ⟨_, hstep, startsOver hroot img' log⟩
    · exact absurd rfl (hnone img)
  · -- the image is read again from the path, as the file is now
    intro path services host host' opened events hopen hfetch
    obtain ⟨img₀, rfl⟩ := openFile_eq_ok hopen
    have hroot : Rooted (.file path) services.save.path
        (after events (start img₀ (.file path) services host')) := rooted_after ⟨rfl, rfl⟩ events
    rcases step_reset_cases hroot.1 hfetch with ⟨img, log, hgives, hstep⟩ | ⟨hnone, e, t, hstep⟩
    · refine ⟨fun vm' hvm' => ⟨img, hgives, ?_⟩, fun _ _ => ⟨_, hstep⟩⟩
      obtain ⟨-, rfl⟩ := EStateM.Result.ok.inj (hstep.symm.trans hvm')
      exact startsOver hroot img log
    · refine ⟨fun vm' hvm' => ?_, fun img hgives => absurd hgives (hnone img)⟩
      cases hstep.symm.trans hvm'

/-- Data, stack and instruction pointer are changed, and the image file is replaced by another one;
then come resets. Raising the stack pointer shows zeros, and the machine is that of the new
image. -/
theorem reset_starts_over_changed :
    let services : Services := ⟨.ofSink (.capture .unlimited), .ofPath "s", .ofDirs [], []⟩
    let old : Image := { Image.empty with code := .fill 2 }
    let new : Image := ⟨.fill 2, .fill 5⟩
    let change (m : Machine) : Machine :=
      { m with data := .fill 9, stack := ⟨.fill 9, 3, by decide⟩, ip := 7 }
    (∃ vm', step (after [.edit change] (ofImage old services ⟨.empty, .empty⟩)) = .ok .next vm' ∧
      ∀ x ∈ (vm'.machine.setReg .stackPointer 3).stack.toList, x = 0) ∧
    ∃ opened host' vm', openFile "p" services ⟨⟨[(["p"], .file 0)], #[old.toBytes], none⟩, .empty⟩ =
        .ok opened host' ∧
      step (after [.outside (fun disk => disk.setBytes 0 new.toBytes) []] opened) =
        .ok .next vm' ∧ vm'.machine = .ofImage new := by
  intro services old new change
  have hreset (m : Machine) (h : m.code = .fill 2) : fetch m = .extended .reset := by
    have hdecode : Instruction.decode 2 = .extended .reset := by decide
    rw [fetch, h, Segment.get_fill, hdecode]
  obtain ⟨hmemory, hfile⟩ := reset_starts_over
  constructor
  · obtain ⟨vm', hstep, hover⟩ := hmemory old services ⟨.empty, .empty⟩ [.edit change]
      (hreset _ rfl)
    exact ⟨vm', hstep, hover.raised 3⟩
  · -- a file that was written as an image gives that image
    have hgives (img : Image) : (ImageSource.file "p").Gives
        ⟨[(["p"], .file 0)], #[img.toBytes], none⟩ img := by
      have hfile : Disk.HasFile ⟨[(["p"], .file 0)], #[img.toBytes], none⟩ "p" 0 :=
        ⟨⟨["p"], ⟨⟨[], [], "p", false⟩, [], rfl, rfl, rfl, rfl⟩, rfl⟩, Nat.one_pos⟩
      have hparse : Image.parse img.toBytes = .ok (img, 0) := by
        simpa using img.parse_toBytes_append .empty
      exact ⟨img.toBytes, 0, hfile.read_eq, hparse⟩
    rcases readImage_cases "p" ⟨⟨[(["p"], .file 0)], #[old.toBytes], none⟩, .empty⟩ with
      ⟨img, log, himg, hread⟩ | ⟨hnone, -⟩
    · obtain rfl := himg.unique (hgives old)
      have hopen : openFile "p" services _ = .ok (start _ (.file "p") services _) _ :=
        bind_of_ok hread
      obtain ⟨hover, hgo⟩ := hfile "p" services _ _ _
        [.outside (fun disk => disk.setBytes 0 new.toBytes) []] hopen (hreset _ rfl)
      obtain ⟨vm', hstep⟩ := hgo new (hgives new)
      obtain ⟨img', himg', hstarts⟩ := hover vm' hstep
      obtain rfl := himg'.unique (hgives new)
      exact ⟨_, _, vm', hopen, hstep, hstarts.machine⟩
    · exact absurd (hgives old) (hnone old)

/-! ## A reset that no step carries out -/

/-- The instructions that do nothing. -/
inductive Idle : Instruction → Prop where
  | nop : Idle (.extended .nop)
  | unassigned (b : UInt8) : Idle (.unassigned b)

/-- A step that carries out such an instruction just moves on. -/
theorem exists_step_idle {vm : Vm} (h : Idle (fetch vm.machine)) : ∃ log, step vm = .ok .next
    { vm with
      machine := { vm.machine with ip := vm.machine.ip + 1 }
      host := { vm.host with log } } := by
  obtain ⟨log, hstep⟩ := exists_step_eq vm
  refine ⟨log, ?_⟩
  rw [hstep]
  cases hfetch : fetch vm.machine with
  | extended op =>
    rw [hfetch] at h
    cases h
    rfl
  | register op reg =>
    rw [hfetch] at h
    cases h
  | unassigned b => rfl

/-- The instruction that a pointer fetches lies at its low byte. -/
theorem fetch_ofImage_at (img : Image) {ip a : Word} (h : ip &&& 0xFF = a) :
    fetch { Machine.ofImage img with ip } = .decode (img.code.get a) := by
  rw [← h]
  rfl

/-- A reset that no step carries out leaves the instruction pointer at 65535, so the next step
carries out the byte at 255. This is the instruction at 0 exactly if the two bytes are the same. If
the byte at 255 does nothing, the next step leads to where a step leads that carries out a reset:
to the start of the image, where the instruction at 0 is the next. -/
theorem reset_at_zero_iff {vm vm' : Vm} (h : reset vm = .ok () vm') :
    ∃ img, vm.source.Gives vm.host.disk img ∧
      vm'.machine = { Machine.ofImage img with ip := 65535 } ∧
      fetch vm'.machine = .decode (img.code.get 255) ∧
      (fetch vm'.machine = .decode (img.code.get 0) ↔ img.code.get 255 = img.code.get 0) ∧
      (Idle (.decode (img.code.get 255)) →
        ∃ log, step vm' = .ok .next (vm.startedOver img log)) ∧
      (fetch vm.machine = .extended .reset →
        ∃ log, step vm = .ok .next (vm.startedOver img log) ∧
          fetch (vm.startedOver img log).machine = .decode (img.code.get 0)) := by
  rcases reset_cases rfl with ⟨img, log, hgives, hreset⟩ | ⟨-, e, t, hreset⟩
  · obtain ⟨-, rfl⟩ := EStateM.Result.ok.inj (hreset.symm.trans h)
    have hfetch := fetch_ofImage_at img (show Machine.before 0 &&& 0xFF = 255 by decide)
    refine ⟨img, hgives, rfl, hfetch, ?_, ?_, ?_⟩
    · -- different bytes are different instructions
      rw [hfetch]
      refine ⟨fun heq => ?_, congrArg _⟩
      rw [← Instruction.encode_decode (img.code.get 255), heq, Instruction.encode_decode]
    · -- the byte at 255 does nothing but move on to 0
      intro hidle
      let vm' : Vm := { vm.startedOver img log with
        machine := { Machine.ofImage img with ip := Machine.before 0 } }
      have hidle' : Idle (fetch vm'.machine) := hfetch ▸ hidle
      obtain ⟨log', hstep⟩ := exists_step_idle hidle'
      refine ⟨log', hstep.trans ?_⟩
      exact congrArg (EStateM.Result.ok Outcome.next) (startedOver_moved_on vm img log')
    · -- the same reset carried out by a step moves on by itself
      intro hinstruction
      rcases step_reset_cases rfl hinstruction with ⟨img', log', hgives', hstep⟩ | ⟨hnone, -⟩
      · obtain rfl := hgives.unique hgives'
        exact ⟨log', hstep, fetch_ofImage_at img (show 0 &&& 0xFF = 0 by decide)⟩
      · exact absurd hgives (hnone img)
  · cases hreset.symm.trans h

/-- A program that is shorter than 255 bytes starts over one step late. -/
theorem reset_at_zero_iff_short :
    let img : Image := ⟨.ofArray #[5, 0, 7, 4] 0, .fill 0⟩
    let vm : Vm := ofImage img ⟨.ofSink (.capture .unlimited), .ofPath "s", .ofDirs [], []⟩
      ⟨.empty, .empty⟩
    ∃ vm' log, reset vm = .ok () vm' ∧ step vm' = .ok .next (vm.startedOver img log) := by
  intro img vm
  have hidle : Idle (.decode (img.code.get 255)) := by
    rw [Segment.get_ofArray]
    exact .nop
  have hreset : reset vm = .ok () _ := bind_of_ok (sourceImage_memory rfl)
  obtain ⟨img', rfl, -, -, -, hstep, -⟩ := reset_at_zero_iff hreset
  obtain ⟨log, hlog⟩ := hstep hidle
  exact ⟨_, log, hreset, hlog⟩

/-- A program that starts with a push is reset, and the next step pushes nothing. -/
theorem reset_passes_over_first_byte :
    let img : Image := ⟨.ofArray #[5, 0, 7, 4] 0, .fill 0⟩
    ∃ vm' vm'', reset (ofImage img ⟨.ofSink (.capture .unlimited), .ofPath "s", .ofDirs [], []⟩
        ⟨.empty, .empty⟩) = .ok () vm' ∧ vm'.machine.code = img.code ∧
      .decode (img.code.get 0) = Instruction.extended .pushImm ∧
      fetch vm'.machine = .extended .nop ∧ step vm' = .ok .next vm'' ∧
      vm''.machine.stack.toList = [] := by
  intro img
  have hfirst : .decode (img.code.get 0) = Instruction.extended .pushImm := by
    rw [Segment.get_ofArray]
    decide
  have hlast : .decode (img.code.get 255) = Instruction.extended .nop := by
    rw [Segment.get_ofArray]
    decide
  have hfetch := fetch_ofImage_at img (show Machine.before 0 &&& 0xFF = 255 by decide)
  rw [hlast] at hfetch
  let vm' : Vm := { ofImage img ⟨.ofSink (.capture .unlimited), .ofPath "s", .ofDirs [], []⟩
    ⟨.empty, .empty⟩ with machine := { Machine.ofImage img with ip := Machine.before 0 } }
  have hidle : Idle (fetch vm'.machine) := hfetch ▸ .nop
  obtain ⟨log, hstep⟩ := exists_step_idle hidle
  exact ⟨vm', _, bind_of_ok (sourceImage_memory rfl), rfl, hfirst, hfetch, hstep, List.take_zero⟩

end Vm

end WordMachine

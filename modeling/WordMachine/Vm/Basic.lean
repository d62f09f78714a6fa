import WordMachine.Console.Basic
import WordMachine.Extension.Loader
import WordMachine.NameTable
import WordMachine.SaveStore

/-!
# The virtual machine

A virtual machine is a machine together with the services its interrupts reach: the console, the
save store, the name table and the extensions. It remembers where its image came from, because a
reset loads it again, and whether each instruction is logged.

All actions are `Vm.Op`: a result, or a fault that leaves the state reached behind.
-/

namespace WordMachine

/-- Where a reset takes the image from. -/
inductive ImageSource where
  | memory (img : Image)
  | file (path : String)

/-- A machine, of some kind, and its services. `printed` is what extensions wrote to standard output
while the console was elsewhere, `notes` what their scripts wrote down. -/
structure Vm (M : Type := Machine) where
  machine : M
  source : ImageSource
  trace : Bool
  names : NameTable
  console : Console
  save : SaveStore
  loader : Loader
  libraries : Libraries
  host : Host
  printed : ByteArray
  notes : Array Observation

/-- The services that a virtual machine is made with. -/
structure Services where
  console : Console
  save : SaveStore
  loader : Loader
  libraries : Libraries

namespace Vm

/-- An action on a virtual machine of some kind: a result, or a fault that leaves the state reached
behind. -/
abbrev OpOn (M α : Type) := EStateM Fault (Vm M) α

/-- An action on a virtual machine: a result, or a fault that leaves the state reached behind. -/
abbrev Op (α : Type) := EStateM Fault Vm α

/-- The virtual machine that starts on an image. -/
def start (img : Image) (source : ImageSource) (services : Services) (host : Host) : Vm where
  machine := .ofImage img
  source := source
  trace := false
  names := .empty
  console := services.console
  save := services.save
  loader := services.loader
  libraries := services.libraries
  host := host
  printed := .empty
  notes := #[]

/-- The virtual machine of an image in memory. -/
def ofImage (img : Image) (services : Services) (host : Host) : Vm :=
  start img (.memory img) services host

/-- Reads an image file, and logs that and how many bytes after the image were ignored. -/
def readImage (path : String) : EStateM Fault Host Image := do
  modify fun host => { host with log := host.log.info ("loading " ++ path) }
  let found :=
    match (← get).disk.read path with
    | .ok bytes => Image.parse bytes
    | .error cause => .error (.access path cause)
  match found with
  | .error cause => throw (.image cause)
  | .ok (img, ignored) =>
    if 0 < ignored then
      modify fun host => { host with
        log := host.log.warn (path ++ ": ignoring " ++ ignored.repr ++
          " trailing bytes past the data segment") }
    return img

/-- The virtual machine of an image file. -/
def openFile (path : String) (services : Services) : EStateM Fault Host Vm := do
  let img ← readImage path
  return start img (.file path) services (← get)

/-! ## Running the parts -/

variable {M α : Type}

/-- Runs an action on the machine. -/
def onMachine (act : EStateM Fault M α) : OpOn M α :=
  fun ⟨machine, source, trace, names, console, save, loader, libraries, host, printed, notes⟩ =>
    match act machine with
    | .ok x machine =>
      .ok x ⟨machine, source, trace, names, console, save, loader, libraries, host, printed, notes⟩
    | .error e machine =>
      .error e
        ⟨machine, source, trace, names, console, save, loader, libraries, host, printed, notes⟩

/-- Changes the machine. -/
def modifyMachine (f : M → M) : OpOn M Unit :=
  modify fun vm => { vm with machine := f vm.machine }

/-- Runs an action on the console. -/
def onConsole (act : Console.Op α) : OpOn M α :=
  fun ⟨machine, source, trace, names, console, save, loader, libraries, host, printed, notes⟩ =>
    match act console with
    | .ok x console =>
      .ok x ⟨machine, source, trace, names, console, save, loader, libraries, host, printed, notes⟩
    | .error cause console =>
      .error (.output cause)
        ⟨machine, source, trace, names, console, save, loader, libraries, host, printed, notes⟩

/-- Runs an action on the save store. -/
def onSave (act : SaveStore.Op α) : OpOn M α :=
  fun ⟨machine, source, trace, names, console, save, loader, libraries, host, printed, notes⟩ =>
    match act (save, host) with
    | .ok x (save, host) =>
      .ok x ⟨machine, source, trace, names, console, save, loader, libraries, host, printed, notes⟩
    | .error e (save, host) =>
      .error e
        ⟨machine, source, trace, names, console, save, loader, libraries, host, printed, notes⟩

/-- Runs an action on the host. -/
def onHost (act : EStateM Fault Host α) : OpOn M α :=
  fun ⟨machine, source, trace, names, console, save, loader, libraries, host, printed, notes⟩ =>
    match act host with
    | .ok x host =>
      .ok x ⟨machine, source, trace, names, console, save, loader, libraries, host, printed, notes⟩
    | .error e host =>
      .error e
        ⟨machine, source, trace, names, console, save, loader, libraries, host, printed, notes⟩

/-- Takes a result or a fault as it is. -/
def check : Except Fault α → OpOn M α
  | .ok x => pure x
  | .error e => throw e

end Vm

end WordMachine

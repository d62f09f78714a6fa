import WordMachine.Vm.Basic
import WordMachine.Service

/-!
# Interrupts

An interrupt pops a selector and the operands of the service it asks for. A string that a service
gets by address is entered into the name table while the service runs, and released when it ends,
however it ends.
-/

namespace WordMachine.Vm

variable {M : Type}

/-- Releases the handle of a name. -/
def releaseName (handle : Handle) : OpOn M Unit := fun vm =>
  match vm.names.dispose handle with
  | .ok names => .ok () { vm with names }
  | .error e => .error e vm

/-- Serves a request with a string in the name table: the string gets a handle, and `serve` what the
table holds under it. -/
def withName {α : Type} (text : String) (serve : String → OpOn M α) : OpOn M α := fun vm =>
  let (handle, names) := vm.names.assign text
  let name := (names.get? handle).getD ""
  match serve name { vm with names } with
  | .ok x vm => (do releaseName handle; return x) vm
  | .error e vm => (do releaseName handle; throw e) vm

/-- Shows what an extension printed. Standard output is the console's stream, when the console is a
terminal: a library writes ahead of what waits there, an extension of the host in its turn. -/
def showPrinted (vm : Vm M) (text : String) (fromLibrary : Bool) : Vm M :=
  match vm.console.sink with
  | .terminal t =>
    let t := if fromLibrary then t.showNow text.toUTF8 else t.write text.toUTF8
    { vm with console := { vm.console with sink := .terminal t } }
  | .capture _ => { vm with printed := vm.printed ++ text.toUTF8 }

/-- Runs a utility on the machine, and takes over what it noted and printed. -/
def runEntry [Utility.Target M] (entry : Entry) (fromLibrary : Bool) : OpOn M Unit :=
  fun ⟨machine, source, trace, names, console, save, loader, libraries, host, printed, notes⟩ =>
    let result := entry.run (.ofMachine machine)
    let finish (scope : Utility.Scope M) : Vm M :=
      showPrinted ⟨scope.machine, source, trace, names, console, save, loader, libraries, host,
        printed, notes ++ scope.notes⟩ scope.printed fromLibrary
    match result with
    | .ok () scope => .ok () (finish scope)
    | .error e scope => .error e (finish scope)

/-- Loads an extension unless it is known. -/
def loadExtension (name : String) : OpOn M Extension := fun vm =>
  match Loader.load (vm.libraries.open? vm.host.disk) name (vm.loader, vm.host.log) with
  | .ok ext (loader, log) => .ok ext { vm with loader, host := { vm.host with log } }
  | .error e (loader, log) => .error e { vm with loader, host := { vm.host with log } }

/-- Calls the utility of an extension at an index. -/
def callExtension [Utility.Target M] (name : String) (index : Word) : OpOn M Unit := do
  let ext ← loadExtension name
  let entry ← check (Loader.entry name ext index)
  runEntry entry ext.fromLibrary

/-- Pops a word from the operand stack. -/
def pop : Op Word := onMachine Machine.pop

/-- Copies save slots into data memory. -/
def saveToMemory : Op Unit := do
  let address ← pop
  let length ← pop
  let start ← pop
  let _ ← check ((← get).machine.dataRange address length)
  let words ← onSave (SaveStore.readRange start length.toNat)
  modifyMachine fun m => { m with data := m.data.setAll address words }

/-- Copies data memory into save slots. -/
def memoryToSave : Op Unit := do
  let address ← pop
  let length ← pop
  let start ← pop
  let words ← check ((← get).machine.dataRange address length)
  onSave (SaveStore.writeRange start words)

/-- Serves a service. -/
def serve : Service → Op Unit
  | .reserved => throw .reservedSelector
  | .logWord => do
    let w ← pop
    onConsole (Console.logWord w)
  | .logString => do
    let address ← pop
    let text := (← get).machine.stringAt address
    withName text fun s => onConsole (Console.logText s)
  | .saveRead => do
    let slot ← pop
    let w ← onSave (SaveStore.read slot)
    onMachine (Machine.push w)
  | .saveWrite => do
    let slot ← pop
    let w ← pop
    onSave (SaveStore.write slot w)
  | .saveToMemory => saveToMemory
  | .memoryToSave => memoryToSave
  | .extension => do
    let address ← pop
    let index ← pop
    let text := (← get).machine.stringAt address
    withName text fun name => callExtension name index

/-- The interrupt instruction. -/
def interrupt : Op Unit := do
  let selector ← pop
  match Service.ofSelector? selector with
  | none => throw (.undefinedUtility selector)
  | some service => serve service

end WordMachine.Vm

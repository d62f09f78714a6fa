import WordMachine.Command.Programs
import WordMachine.Extension.Sample

/-!
# The command line

Started under the name `hss-asm` the program is the assembler, under any other name the runner. The
files that a command may touch are read into a `Disk` first; what the command leaves there and on
its output streams is written out, by the runner also while the program runs. The sample extension
stands for its library wherever the file of that library is found.
-/

namespace WordMachine.Main

/-- The failure that an input or output error stands for. -/
def failureOf : IO.Error → OsError
  | .noFileOrDirectory .. => .notFound
  | .inappropriateType _ code _ => if code = 20 then .notDirectory else .isDirectory
  | e => .refused (toString e)

/-- Adds the directory that a path leads through to a disk, if it exists. -/
def addDirectory (disk : Disk) (path : String) : IO Disk := do
  match Path.split? path.toList with
  | some ⟨c :: cs, _, _⟩ =>
    let directory := String.ofList (c :: cs)
    try
      let place ← IO.FS.realPath directory
      if ← place.isDir then return disk.makeDirectory directory else return disk
    catch _ => return disk
  | _ => return disk

/-- Adds what stands at a path to a disk. -/
def addFile (disk : Disk) (path : String) : IO Disk := do
  let disk ← addDirectory disk path
  try
    let bytes ← IO.FS.readBinFile path
    return (disk.write path bytes).toOption.getD disk
  catch e =>
    if failureOf e = .isDirectory then return disk.makeDirectory path else return disk

/-- Writes a file out if its contents have changed between two disks. -/
def writeBack (old new : Disk) (path : String) : IO Unit := do
  if let .ok bytes := new.read path then
    unless (old.read path).toOption.map (·.data) = some bytes.data do
      IO.FS.writeBinFile path bytes

/-- The libraries that the search for the sample extension finds. -/
def sampleLibraries (disk : Disk) (config : Config) : IO Libraries := do
  let mut libraries : Libraries := []
  for path in (Loader.ofDirs config.libDirs).candidates "testutils" do
    if '/' ∈ path.toList then
      try
        let _ ← IO.FS.readBinFile path
        if let .ok place := disk.locate path then
          libraries := (place, .table Sample.utilities) :: libraries
      catch _ => pure ()
  return libraries

/-- The number of steps between two looks at the output. -/
def batch : Nat := 4096

/-- Shows what a program has written since `shown` bytes and `logged` log lines. -/
def showNew (vm : Vm) (shown logged : Nat) (colour : Bool) : IO Unit := do
  let all := match vm.console.sink with
    | .terminal t => t.shown
    | .capture c => c.accepted
  let output ← IO.getStdout
  output.write (all.extract shown all.size)
  output.flush
  IO.eprint (vm.host.log.textFrom logged colour)

/-- The number of bytes and log lines that a program has written. -/
def written (vm : Vm) : Nat × Nat :=
  let shown := match vm.console.sink with
    | .terminal t => t.shown.size
    | .capture c => c.accepted.size
  (shown, vm.host.log.entries.size)

/-- Runs a virtual machine to its end, a batch of steps at a time, and gives the exit status. -/
partial def advance (config : Config) (vm : Vm) (colour : Bool) : IO UInt32 := do
  let old := vm.host.disk
  let (shown, logged) := written vm
  match Vm.run batch vm with
  | .ok halted vm =>
    showNew vm shown logged colour
    writeBack old vm.host.disk config.save
    if halted then return 0 else advance config vm colour
  | .error e vm =>
    let log := vm.host.log.error e.message
    showNew { vm with host := { vm.host with log } } shown logged colour
    writeBack old vm.host.disk config.save
    return Command.fatalStatus.toUInt32

/-- The runner. -/
def runner (args : List String) : IO UInt32 := do
  match Command.runConfig? args (← IO.getEnv "HSS_LIB_PATH") with
  | none =>
    IO.print Command.runHelp
    return Command.usageStatus.toUInt32
  | some (config, quiet) =>
    let colour ← (← IO.getStderr).isTty
    let disk ← [config.image, config.save].foldlM addFile Disk.empty
    let disk ← config.libDirs.foldlM (fun disk dir => addDirectory disk (Path.join dir "x")) disk
    let libraries ← sampleLibraries disk config
    match Vm.load config libraries ⟨disk, Command.startLog quiet⟩ with
    | .error e host =>
      IO.eprint ((host.log.error e.message).textFrom 0 colour)
      return Command.fatalStatus.toUInt32
    | .ok vm _ =>
      IO.eprint (vm.host.log.textFrom 0 colour)
      advance config vm colour

/-- The assembler. -/
def assembler (args : List String) : IO UInt32 := do
  let paths := match Command.asmRequest args with
    | .source path => [path, Assembly.outputPath path]
    | _ => []
  let disk ← paths.foldlM addFile Disk.empty
  let report := Command.assembler args disk
  for path in paths do
    writeBack disk report.disk path
  (← IO.getStdout).write report.output
  IO.eprint report.errors
  return report.status.toUInt32

end WordMachine.Main

/-- Runs the command that the name of the program asks for. -/
def main (args : List String) : IO UInt32 := do
  let name := (← IO.appPath).fileName.getD ""
  if name = "hss-asm" then WordMachine.Main.assembler args else WordMachine.Main.runner args

import WordMachine.Assembly.Assemble
import WordMachine.Command.Arguments

/-!
# The two commands

The runner runs an image until it halts. Its exit status is 0 then, 42 after a fault, and 255 when
the arguments do not say what to run. The assembler exits with 0 when it has written an image, 1
after an assembly error, and 2 when its arguments make no sense.

Each command is a function of its arguments and the disk. A run of an image takes a limit on its
steps, and has no result when the limit ends it.
-/

namespace WordMachine.Command

/-- What a command leaves: its exit status, what it wrote to the two output streams, and the disk.
-/
structure Report where
  status : Nat
  output : ByteArray
  errors : String
  disk : Disk

/-- The help text of the runner. -/
def runHelp : String := String.join ([
  "Run an HSS executable image",
  "",
  "Usage: hss [OPTIONS] [IMAGE]",
  "",
  "Arguments:",
  "  [IMAGE]  Image to run",
  "",
  "Options:",
  "  -h, --help           Print usage",
  "  -q, --quiet          Only report warnings and errors",
  "      --trace          Log every executed instruction",
  "  -L, --lib-dir <DIR>  Extra directory to search for extension libraries (repeatable)",
  "      --save <FILE>    Save file [default: image path with a .sav extension]"].map (· ++ "\n"))

/-- The help text of the assembler. -/
def asmHelp : String := String.join ([
  "Assemble an HSS program into an executable image",
  "",
  "Usage: hss-asm <SOURCE>",
  "",
  "Arguments:",
  "  <SOURCE>  Assembly source file",
  "",
  "Options:",
  "  -h, --help  Print help"].map (· ++ "\n"))

/-- The exit status of the runner after a fault. -/
def fatalStatus : Nat := 42

/-- The exit status of the runner when it does not know what to run. -/
def usageStatus : Nat := 255

/-- The log that a run starts with. -/
def startLog (quiet : Bool) : Log := if quiet then { Log.empty with least := .warn } else .empty

/-- The bytes that standard output shows once everything has been handed over. -/
def shownBytes (vm : Vm) : ByteArray :=
  match vm.console.sink with
  | .terminal t => t.flush.shown
  | .capture c => c.accepted

/-- The report of a run that ended on a fault. -/
def faultReport (e : Fault) (output : ByteArray) (host : Host) : Report :=
  ⟨fatalStatus, output, (host.log.error e.message).textFrom 0 false, host.disk⟩

/-- Runs an image as its configuration says, for at most `limit` steps. -/
def runImage (config : Config) (libraries : Libraries) (host : Host) (limit : Nat) :
    Option Report :=
  match Vm.load config libraries host with
  | .error e host => some (faultReport e .empty host)
  | .ok vm _ =>
    match Vm.run limit vm with
    | .error e vm => some (faultReport e (shownBytes vm) vm.host)
    | .ok false _ => none
    | .ok true vm => some ⟨0, shownBytes vm, vm.host.log.textFrom 0 false, vm.host.disk⟩

/-- The runner. -/
def runner (args : List String) (searchPath : Option String) (libraries : Libraries) (disk : Disk)
    (limit : Nat) : Option Report :=
  match runConfig? args searchPath with
  | none => some ⟨usageStatus, runHelp.toUTF8, "", disk⟩
  | some (config, quiet) => runImage config libraries ⟨disk, startLog quiet⟩ limit

/-- The assembler. -/
def assembler (args : List String) (disk : Disk) : Report :=
  match asmRequest args with
  | .help => ⟨0, asmHelp.toUTF8, "", disk⟩
  | .usage => ⟨2, .empty, asmHelp, disk⟩
  | .source path =>
    match Assembly.assembleFile path disk with
    | .ok out disk => ⟨0, .empty, (Log.empty.info ("wrote " ++ out)).textFrom 0 false, disk⟩
    | .error e disk =>
      let log := Log.empty.error (path ++ ": " ++ e.message)
      ⟨1, .empty, log.textFrom 0 false, disk⟩

end WordMachine.Command

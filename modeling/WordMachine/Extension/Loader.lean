import WordMachine.Extension.Bridge
import WordMachine.Extension.Builtin
import WordMachine.Host.Disk
import WordMachine.Host.Log

/-!
# Finding extensions

An extension is known by name. One that is not known yet is looked for in a library file: under its
bare file name, then in the current directory, then in each search directory. The first library that
opens decides: if it has no initializer the extension is missing that, else its table of utilities
is kept under the name, and the library is not looked for again. A failed search leaves no trace.
-/

namespace WordMachine

/-- What opening a library file gives: a library without the entry point that names its utilities,
or one with its table. -/
inductive Library where
  | bare
  | table (utilities : List Utility)

/-- A utility of the host, which works on the machine itself, or one of a library, whose requests
pass the bridge. -/
inductive Entry where
  | builtin (b : Builtin)
  | bridged (u : Utility)

/-- The utility of the host that passes on every fault of its requests. -/
def Entry.direct (u : Utility) : Entry := .builtin u.toBuiltin

/-- Runs an entry. -/
def Entry.run {M : Type} [Utility.Target M] : Entry → Utility.OpOn M Unit
  | .builtin b => b.run
  | .bridged u => u.runBridged

/-- The utilities known under a name. A library prints through an output buffer of its own. -/
structure Extension where
  entries : List Entry
  fromLibrary : Bool

/-- Where to look for libraries, and the extensions known so far, the latest first. -/
structure Loader where
  searchDirs : List String
  known : List (String × Extension)

namespace Loader

/-- The loader that knows no extension yet. -/
def ofDirs (searchDirs : List String) : Loader := ⟨searchDirs, []⟩

/-- The file name of the library of an extension. -/
def fileName (name : String) : String := "lib" ++ name ++ ".so"

/-- Where the library of an extension may be, in the order of search. -/
def candidates (l : Loader) (name : String) : List String :=
  let file := fileName name
  file :: Path.join "." file :: l.searchDirs.map fun dir => Path.join dir file

/-- Whether an extension is known. -/
def isKnown (l : Loader) (name : String) : Bool := (l.known.lookup name).isSome

/-- The loader that knows one more extension. -/
def register (l : Loader) (name : String) (ext : Extension) : Loader :=
  { l with known := (name, ext) :: l.known }

/-- The first path that opens, with its library. -/
def firstOpen? (opens : String → Option Library) : List String → Option (String × Library)
  | [] => none
  | path :: paths =>
    match opens path with
    | some lib => some (path, lib)
    | none => firstOpen? opens paths

/-- Why nothing was found at a path. -/
def absence (path : String) : String :=
  path ++ ": cannot open shared object file: No such file or directory"

/-- Looks for the library of an extension: its path and its utilities. -/
def find (l : Loader) (opens : String → Option Library) (name : String) :
    Except Fault (String × List Utility) :=
  let paths := l.candidates name
  match firstOpen? opens paths with
  | none => .error (.extensionNotFound name paths (absence (paths.getLast?.getD "")))
  | some (_, .bare) => .error (.missingInitializer name)
  | some (path, .table utilities) => .ok (path, utilities)

/-- The extension of a name, which is loaded and logged when it is not known. -/
def load (opens : String → Option Library) (name : String) :
    EStateM Fault (Loader × Log) Extension := fun (l, log) =>
  match l.known.lookup name with
  | some ext => .ok ext (l, log)
  | none =>
    match l.find opens name with
    | .error e => .error e (l, log)
    | .ok (path, utilities) =>
      let ext : Extension := ⟨utilities.map .bridged, true⟩
      let message := "loaded extension " ++ name ++ " from " ++ path ++ " (" ++
        utilities.length.repr ++ " utilities)"
      .ok ext (l.register name ext, log.info message)

/-- The utility of an extension at an index. -/
def entry (name : String) (ext : Extension) (index : Word) : Except Fault Entry :=
  match ext.entries[index.toNat]? with
  | some e => .ok e
  | none => .error (.utilityIndexOutOfRange name index ext.entries.length)

end Loader

/-- Libraries by the place of their file. -/
abbrev Libraries := List (Place × Library)

/-- The library that a path leads to. A bare file name is looked for among the libraries of the
system, where none of these are. -/
def Libraries.open? (libs : Libraries) (disk : Disk) (path : String) : Option Library :=
  if '/' ∈ path.toList then
    match disk.locate path with
    | .ok place => libs.lookup place
    | .error _ => none
  else none

end WordMachine

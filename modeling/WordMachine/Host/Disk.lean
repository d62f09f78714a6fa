import WordMachine.Host.OsError
import WordMachine.Host.Path

/-!
# Files

A disk is a tree of directories and files below the current directory. A file has a number, under
which its contents are kept; the tree maps places to numbers. So a file that is open by number stays
readable and writable after its place has been removed, and a new file at the same place is another
file.

A path is followed part by part (`Disk.locate`): every part but the last must name a directory that
exists. Directories above the current one and the root exist, and nothing is known to be in them.

A disk may have a bound on what is still written to open files. A write that does not fit leaves the
bytes that do and fails (`Disk.writeOpen`).
-/

namespace WordMachine

/-- The parts that lead to a place from the current directory, without empty, `.` and inner `..`
parts. Places above the current directory start with `..`, absolute ones with `/`. -/
abbrev Place := List String

/-- What stands at a place. -/
inductive Node where
  | directory
  | file (number : Nat)
  deriving DecidableEq, Repr

/-- Places and what stands there, the contents of the files by number, and the number of bytes that
open files still take, if there is a bound. -/
structure Disk where
  nodes : List (Place × Node)
  contents : Array ByteArray
  room : Option Nat

namespace Disk

/-- The disk whose current directory is empty, with room for everything. -/
def empty : Disk := ⟨[], #[], none⟩

/-- What stands at a place. -/
def node? (d : Disk) (place : Place) : Option Node :=
  if place = ["/"] ∨ place.all (· == "..") then some .directory else d.nodes.lookup place

/-- The place one step up. -/
def parent (place : Place) : Place :=
  if place = ["/"] then place
  else if place.all (· == "..") then place ++ [".."]
  else place.dropLast

/-! ## Following a path -/

/-- The longest path, in bytes. -/
def maxPathBytes : Nat := 4095

/-- The longest name that a part of a path may have, in bytes. -/
def maxNameBytes : Nat := 255

/-- A path to be followed: the directory it starts from, the parts that lead to the directory of its
last part, and that part. Empty parts do not count; a path without parts leads to where it starts.
-/
structure Route where
  start : Place
  inner : List String
  last : String
  /-- Whether a slash ends the path, which then asks for a directory. -/
  endsInSlash : Bool

/-- Cuts a path into its parts. -/
def Route.ofPath (path : String) : Except OsError Route :=
  let cs := path.toList
  if '\x00' ∈ cs then .error .zeroInName
  else if cs = [] then .error .notFound
  else if maxPathBytes < path.utf8ByteSize then .error .nameTooLong
  else
    let parts := ((Path.partsAt '/' cs).filter (· ≠ [])).map String.ofList
    .ok {
      start := if cs.head? = some '/' then ["/"] else []
      inner := parts.dropLast
      last := parts.getLastD "."
      endsInSlash := cs.getLast? = some '/' }

/-- The place that a part of a path names in a directory. -/
def step (directory : Place) (part : String) : Except OsError Place :=
  if part = "." then .ok directory
  else if part = ".." then .ok (parent directory)
  else if maxNameBytes < part.utf8ByteSize then .error .nameTooLong
  else .ok (directory ++ [part])

/-- Follows parts of a path from a directory on, each of which must name a directory. -/
def enter (d : Disk) (directory : Place) : List String → Except OsError Place
  | [] => .ok directory
  | part :: parts => do
    let place ← step directory part
    match d.node? place with
    | none => throw .notFound
    | some (.file _) => throw .notDirectory
    | some .directory => d.enter place parts

/-- The place that a path leads to. Nothing needs to stand there, unless a slash ends the path: then
a directory does. -/
def locate (d : Disk) (path : String) : Except OsError Place := do
  let route ← Route.ofPath path
  let place ← step (← d.enter route.start route.inner) route.last
  if route.endsInSlash then d.enter place ["."] else return place

/-- Whether something stands where a path leads to. -/
def exists? (d : Disk) (path : String) : Bool :=
  match d.locate path with
  | .ok place => (d.node? place).isSome
  | .error _ => false

/-! ## Contents by number -/

/-- The contents of a file. -/
def bytes (d : Disk) (number : Nat) : ByteArray := d.contents.getD number .empty

/-- The disk with the contents of a file replaced. -/
def setBytes (d : Disk) (number : Nat) (bytes : ByteArray) : Disk :=
  { d with contents := d.contents.setIfInBounds number bytes }

/-- `length` bytes of a file from an offset on; the file must reach that far. -/
def readAt (d : Disk) (number offset length : Nat) : Except OsError (List UInt8) :=
  let bytes := d.bytes number
  if offset + length ≤ bytes.size then
    .ok ((bytes.data.toList.drop offset).take length)
  else .error .shortRead

/-- The bytes with some of them replaced from an offset on. A gap before the offset is filled with
zeros, and what lies past the end is added. -/
def overwrite (old : ByteArray) (offset : Nat) (new : List UInt8) : ByteArray :=
  let front := (old.data.toList ++ List.replicate (offset - old.size) 0).take offset
  ⟨(front ++ new ++ old.data.toList.drop (offset + new.length)).toArray⟩

/-- The disk with bytes written to a file from an offset on. -/
def writeAt (d : Disk) (number offset : Nat) (new : List UInt8) : Disk :=
  d.setBytes number (overwrite (d.bytes number) offset new)

/-- The disk has room for a number of bytes. -/
def Takes (d : Disk) (n : Nat) : Prop := ∀ room ∈ d.room, n ≤ room

instance (d : Disk) (n : Nat) : Decidable (d.Takes n) :=
  inferInstanceAs (Decidable (∀ room ∈ d.room, n ≤ room))

/-- The first of some bytes, as many as the disk has room for. -/
def fitting (d : Disk) (new : List UInt8) : List UInt8 :=
  match d.room with
  | none => new
  | some room => new.take room

/-- The disk with room for so many bytes less. -/
def spend (d : Disk) (n : Nat) : Disk := { d with room := d.room.map (· - n) }

/-- Writes bytes to an open file from an offset on. A disk without room for all of them takes those
that fit, and fails. -/
def writeOpen (number offset : Nat) (new : List UInt8) : EStateM OsError Disk Unit := fun d =>
  let written := (d.writeAt number offset (d.fitting new)).spend new.length
  if d.Takes new.length then .ok () written else .error .noSpace written

/-! ## Files by path -/

/-- The disk with one more file, empty and at a place where nothing stands, and its number. -/
def create (d : Disk) (place : Place) : Nat × Disk :=
  (d.contents.size, { d with
    nodes := (place, .file d.contents.size) :: d.nodes
    contents := d.contents.push .empty })

/-- The number of the file at a path, which is created when nothing stands there. A path that ends
in a slash asks for a directory, and none is opened here, whatever its last part. -/
def openFile (d : Disk) (path : String) : Except OsError (Nat × Disk) := do
  let route ← Route.ofPath path
  let directory ← d.enter route.start route.inner
  if route.endsInSlash then throw .isDirectory
  let place ← step directory route.last
  match d.node? place with
  | some .directory => throw .isDirectory
  | some (.file number) => return (number, d)
  | none => return d.create place

/-- The contents of the file at a path. -/
def read (d : Disk) (path : String) : Except OsError ByteArray := do
  match d.node? (← d.locate path) with
  | none => throw .notFound
  | some .directory => throw .isDirectory
  | some (.file number) => return d.bytes number

/-- The disk with the file at a path holding just `bytes`. -/
def write (d : Disk) (path : String) (bytes : ByteArray) : Except OsError Disk := do
  let (number, d) ← d.openFile path
  return d.setBytes number bytes

/-- The disk without the file at a path. -/
def remove (d : Disk) (path : String) : Except OsError Disk := do
  let place ← d.locate path
  match d.node? place with
  | none => throw .notFound
  | some .directory => throw .isDirectory
  | some (.file _) => return { d with nodes := d.nodes.filter fun entry => entry.1 ≠ place }

/-- The disk with the directories of a path, those that do not exist yet being added. -/
def makeDirectory (d : Disk) (path : String) : Disk :=
  let parts := (Path.partsAt '/' path.toList).map String.ofList
  let add := fun (s : Disk × Place) (part : String) =>
    let (d, place) := s
    if part = "" ∨ part = "." then s
    else if part = ".." then (d, parent place)
    else
      let inner := place ++ [part]
      match d.node? inner with
      | some _ => (d, inner)
      | none => ({ d with nodes := (inner, .directory) :: d.nodes }, inner)
  let top : Place := if path.toList.head? = some '/' then ["/"] else []
  (parts.foldl add (d, top)).1

/-- The files below the current directory: path and contents, sorted by path. -/
def files (d : Disk) : List (String × ByteArray) :=
  let found := d.nodes.filterMap fun
    | (place, .file number) =>
      if place.head? = some ".." ∨ place.head? = some "/" then none
      else some ("/".intercalate place, d.bytes number)
    | (_, .directory) => none
  found.mergeSort fun a b => a.1 ≤ b.1

end Disk

end WordMachine

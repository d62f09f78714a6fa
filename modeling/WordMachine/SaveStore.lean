import WordMachine.Fault
import WordMachine.Host.Basic

/-!
# The save store

A program keeps 256 words between runs in a save file of 512 bytes, low byte first. The file is
opened by the first access that needs it and stays open until the store is closed. A file of another
length, or none, is replaced by zeros when it is opened. Slots are checked before the file is
touched, and an access to no slot at all touches nothing. A disk may refuse a write, and may have
taken a part of it then.
-/

namespace WordMachine

/-- The save file of a program: its path, and its number while it is open. -/
structure SaveStore where
  path : String
  file : Option Nat

namespace SaveStore

/-- An action on a store and the host: a result, or a fault that leaves both behind. -/
abbrev Op (α : Type) := EStateM Fault (SaveStore × Host) α

/-- The store on a path, not yet opened. -/
def ofPath (path : String) : SaveStore := ⟨path, none⟩

/-- Whether the file is open. -/
def isOpen (s : SaveStore) : Bool := s.file.isSome

/-- The length of a save file in bytes. -/
abbrev byteSize : Nat := 2 * saveSlots

/-- A save file with every slot zero. -/
def zeros : ByteArray := ⟨Array.replicate byteSize 0⟩

/-- The number of the file at a path. It is created when there is none, and made anew when its
length is not that of a save file. -/
def openFile (host : Host) (path : String) : Except OsError (Nat × Host) := do
  let existed := host.disk.exists? path
  let (number, disk) ← host.disk.openFile path
  let size := (disk.bytes number).size
  if size = byteSize then return (number, { host with disk })
  let log :=
    if existed then
      host.log.warn ("save file " ++ path ++ " is " ++ size.repr ++ " bytes, expected " ++
        byteSize.repr ++ "; recreating it")
    else host.log.info ("creating save file " ++ path)
  return (number, ⟨disk.setBytes number zeros, log⟩)

/-- The number of the store's file, which is opened if it is not. -/
def fileNumber : Op Nat := fun (store, host) =>
  match store.file with
  | some number => .ok number (store, host)
  | none =>
    match openFile host store.path with
    | .ok (number, host) => .ok number ({ store with file := some number }, host)
    | .error cause => .error (.save store.path cause) (store, host)

/-- Runs an action on the disk. What the disk reports is a fault of the store. -/
def onDisk {α : Type} (act : EStateM OsError Disk α) : Op α := fun (store, host) =>
  match act host.disk with
  | .ok x disk => .ok x (store, { host with disk })
  | .error cause disk => .error (.save store.path cause) (store, { host with disk })

/-- Whether the slots from `start` on, `length` in number, all exist. -/
def inRange (start : Word) (length : Nat) : Bool := start.toNat + length ≤ saveSlots

/-- The words of the slots from `start` on. -/
def readRange (start : Word) (length : Nat) : Op (List Word) := do
  if !inRange start length then
    throw (.saveRangeOutOfBounds start (UInt16.ofNat length))
  if length = 0 then return []
  let number ← fileNumber
  let (store, host) ← get
  match host.disk.readAt number (2 * start.toNat) (2 * length) with
  | .ok bytes => return Word.ofLittleEndian bytes
  | .error cause => throw (.save store.path cause)

/-- Writes words to the slots from `start` on. -/
def writeRange (start : Word) (words : List Word) : Op Unit := do
  if !inRange start words.length then
    throw (.saveRangeOutOfBounds start (UInt16.ofNat words.length))
  if words = [] then return
  let number ← fileNumber
  onDisk (Disk.writeOpen number (2 * start.toNat) (Word.littleEndian words))

/-- The word of one slot. -/
def read (slot : Word) : Op Word := do
  if !inRange slot 1 then throw (.saveSlotOutOfRange slot)
  return (← readRange slot 1).headD 0

/-- Writes the word of one slot. -/
def write (slot w : Word) : Op Unit := do
  if !inRange slot 1 then throw (.saveSlotOutOfRange slot)
  writeRange slot [w]

/-- The store with its file closed. -/
def close (s : SaveStore) : SaveStore := { s with file := none }

end SaveStore

end WordMachine

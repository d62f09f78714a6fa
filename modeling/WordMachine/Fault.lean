import WordMachine.Word
import WordMachine.Image
import WordMachine.Text.Hex

/-!
# Faults

Every fault ends the running program. Division by zero is not among them: it has a value. The last
one is the machine's own: a handle table that would have to record a free range ending past the
largest handle.
-/

namespace WordMachine

/-- The number of words a save file holds. -/
abbrev saveSlots : Nat := 256

/-- What stops a program. -/
inductive Fault where
  | stackOverflow
  | stackUnderflow
  | stackIndexOutOfRange (offset : Word) (depth : Nat)
  | saveSlotOutOfRange (slot : Word)
  | saveRangeOutOfBounds (start length : Word)
  | memoryRangeOutOfBounds (address length : Word)
  | moduloByZero
  | reservedSelector
  | undefinedUtility (selector : Word)
  | image (cause : ImageError)
  | output (cause : OsError)
  | save (path : String) (cause : OsError)
  | extensionNotFound (name : String) (tried : List String) (reason : String)
  | missingInitializer (name : String)
  | utilityIndexOutOfRange (name : String) (index : Word) (count : Nat)
  | reentryUnsupported (address : Word)
  | handleOverflow
  deriving DecidableEq, Repr

/-- The report of a fault. -/
def Fault.message : Fault → String
  | stackOverflow => "stack overflow"
  | stackUnderflow => "stack underflow"
  | stackIndexOutOfRange offset depth =>
    "stack slot " ++ offset.toNat.repr ++ " below the top is out of range (depth " ++ depth.repr ++
      ")"
  | saveSlotOutOfRange slot => "save slot " ++ slot.toNat.repr ++ " out of range"
  | saveRangeOutOfBounds start length =>
    "save range " ++ start.toNat.repr ++ "+" ++ length.toNat.repr ++ " exceeds " ++
      saveSlots.repr ++ " slots"
  | memoryRangeOutOfBounds address length =>
    "memory range 0x" ++ Text.hex 4 address.toNat ++ "+" ++ length.toNat.repr ++
      " exceeds the data segment"
  | moduloByZero => "modulo by zero"
  | reservedSelector => "interrupt selector 0 is reserved"
  | undefinedUtility selector => "undefined utility " ++ (Word.signed selector).repr
  | image cause => cause.message
  | output cause => "cannot write program output: " ++ cause.message
  | save path cause => "save file " ++ path ++ ": " ++ cause.message
  | extensionNotFound name _ reason => "extension library '" ++ name ++ "' not found: " ++ reason
  | missingInitializer name =>
    "extension library '" ++ name ++ "' has no `initialize` entry point"
  | utilityIndexOutOfRange name index count =>
    "utility " ++ index.toNat.repr ++ " out of range for extension '" ++ name ++ "' (" ++
      count.repr ++ " utilities)"
  | reentryUnsupported address =>
    "exec_vm_code(0x" ++ Text.hex 4 address.toNat ++
      "): re-entering the VM from an extension is not supported"
  | handleOverflow => "attempt to add with overflow"

end WordMachine

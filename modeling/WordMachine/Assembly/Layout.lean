import Std.Data.ExtHashMap
import WordMachine.Assembly.Item
import WordMachine.Image

/-!
# Layout of a program

Items are laid out in their order: data words and code bytes one after the other in their segments,
and a label at the end of what its section holds by then. A reference leaves room for an address,
which is filled in when all labels are known.
-/

namespace WordMachine.Assembly

/-- Where a label stands, and the line that defined it. -/
structure Label where
  address : Word
  line : Nat
  deriving DecidableEq, Repr

/-- Room for the address of a label: the position of its first byte in the code. -/
structure Reference where
  position : Nat
  name : String
  line : Nat
  deriving DecidableEq, Repr

/-- The part of a program that has been laid out. -/
structure Layout where
  code : Array UInt8
  data : Array Word
  labels : Std.ExtHashMap String Label
  references : Array Reference

namespace Layout

/-- The layout of no items. -/
def empty : Layout := ⟨#[], #[], ∅, #[]⟩

/-- The layout with one more code byte. -/
def addByte (l : Layout) (line : Nat) (b : UInt8) : Except Error Layout :=
  if l.code.size < segmentSize then .ok { l with code := l.code.push b }
  else .error (.codeOverflow line)

/-- The layout with one more data word. -/
def addWord (l : Layout) (line : Nat) (w : Word) : Except Error Layout :=
  if l.data.size < segmentSize then .ok { l with data := l.data.push w }
  else .error (.dataOverflow line)

/-- The number of cells that a section holds. -/
def extent (l : Layout) : Area → Nat
  | .data => l.data.size
  | .code => l.code.size

/-- The layout with a label at the end of a section. -/
def addLabel (l : Layout) (line : Nat) (area : Area) (name : String) : Except Error Layout :=
  match l.labels[name]? with
  | some first => .error (.duplicateLabel line name first.line)
  | none => .ok { l with labels := l.labels.insert name ⟨UInt16.ofNat (l.extent area), line⟩ }

/-- The layout with one more item, which stands on a line. -/
def add (line : Nat) (l : Layout) : Item → Except Error Layout
  | .label area name => l.addLabel line area name
  | .word w => l.addWord line w
  | .byte b => l.addByte line b
  | .reference name => do
    let room := { l with references := l.references.push ⟨l.code.size, name, line⟩ }
    (← room.addByte line 0).addByte line 0

/-- The code with the address of a label filled in. -/
def resolveIn (labels : Std.ExtHashMap String Label) (code : Array UInt8) (r : Reference) :
    Except Error (Array UInt8) :=
  match labels[r.name]? with
  | none => .error (.undefinedLabel r.line r.name)
  | some label =>
    .ok ((code.setIfInBounds r.position (Word.high label.address)).setIfInBounds (r.position + 1)
      (Word.low label.address))

/-- The image of a layout, all addresses filled in. -/
def toImage (l : Layout) : Except Error Image := do
  let code ← l.references.toList.foldlM (resolveIn l.labels) l.code
  return ⟨.ofArray code 0, .ofArray l.data 0⟩

end Layout

end WordMachine.Assembly

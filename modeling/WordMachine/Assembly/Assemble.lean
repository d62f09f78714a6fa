import WordMachine.Assembly.Layout
import WordMachine.Host.Disk

/-!
# Assembling

`assemble` reads a text token by token, lays out what each token adds, and fills in the addresses of
labels at the end. The first error in the order of the text is the one reported; a label that is
nowhere defined is noticed last. `assembleFile` does it for a file and writes the image beside it.
-/

namespace WordMachine.Assembly

/-- How far the assembly of a text has come. -/
structure Progress where
  expect : Expect
  layout : Layout
  line : Nat

namespace Progress

/-- The start of a text, which is in the data section. -/
def start : Progress := ⟨.statement .data, .empty, 1⟩

/-- The progress after one more token. -/
def feed (p : Progress) (t : Token) : Except Error Progress :=
  let ⟨expect, layout, _⟩ := p
  do
    let (items, expect) ← expect.read t
    let layout ← items.foldlM (Layout.add t.line) layout
    return ⟨expect, layout, t.line⟩

/-- The image of a text that has been read to its end, with the line of a quote left open. -/
def finish (p : Progress) (unclosed : Option Nat) : Except Error Image :=
  match unclosed, p.expect.missing? with
  | some line, _ => .error (.unterminatedString line)
  | none, some what => .error (.missingOperand p.line what)
  | none, none => p.layout.toImage

end Progress

/-- The image of an assembly text. -/
def assemble (text : String) : Except Error Image := do
  let scan := Scan.ofText text
  let p ← scan.tokens.foldlM Progress.feed .start
  p.finish scan.unclosed

/-- The path of the image that is made from a source file: the extension becomes `hss`, or is
followed by `out` if it already is. -/
def outputPath (source : String) : String :=
  if Path.extension? source = some "hss" then source ++ ".out" else Path.withExtension source "hss"

/-- The text of a source file. -/
def sourceText (disk : Disk) (source : String) : Except Error String :=
  match disk.read source with
  | .error cause => .error (.file source cause)
  | .ok bytes =>
    match String.fromUTF8? bytes with
    | none => .error (.file source .invalidText)
    | some text => .ok text

/-- Assembles a source file and writes the image to its output path, which is the result. -/
def assembleFile (source : String) : EStateM Error Disk String := fun disk =>
  match sourceText disk source >>= assemble with
  | .error e => .error e disk
  | .ok img =>
    let out := outputPath source
    match disk.write out img.toBytes with
    | .error cause => .error (.file out cause) disk
    | .ok disk => .ok out disk

end WordMachine.Assembly

import WordMachine.Console.Sink
import WordMachine.Text.Hex
import WordMachine.Word

/-!
# The console

Programs print fields in two columns: a tab follows the field in the first column, a newline the one
in the second. The column changes once the text of a field has been accepted, before its separator
is written.
-/

namespace WordMachine

/-- A sink, and which column the next field stands in. -/
structure Console where
  sink : Sink
  secondColumn : Bool

namespace Console

/-- An action on a console: a result, or a failure that leaves the console behind. -/
abbrev Op (α : Type) := EStateM OsError Console α

/-- The console at the start of a line. -/
def ofSink (sink : Sink) : Console := ⟨sink, false⟩

/-- Runs an action on the sink. -/
def onSink {α : Type} (act : EStateM OsError Sink α) : Op α := fun ⟨sink, secondColumn⟩ =>
  match act sink with
  | .ok x sink => .ok x ⟨sink, secondColumn⟩
  | .error e sink => .error e ⟨sink, secondColumn⟩

/-- Writes text to the sink. -/
def write (text : String) : Op Unit := onSink (Sink.write text.toUTF8)

/-- Ends a field: changes the column and writes the separator. -/
def endField : Op Unit := do
  let separator := if (← get).secondColumn then "\n" else "\t"
  modify fun c => { c with secondColumn := !c.secondColumn }
  write separator

/-- Prints a text field. -/
def logText (text : String) : Op Unit := do
  write text
  endField

/-- The pieces in which the text of a word is written: the mark, the padding digit by digit, the
digits. -/
def wordPieces (w : Word) : List String :=
  let digits := Text.hexDigits w.toNat
  "0x" :: List.replicate (4 - digits.length) "0" ++ [String.ofList digits]

/-- Prints a word as four hexadecimal digits. -/
def logWord (w : Word) : Op Unit := do
  (wordPieces w).forM write
  endField

/-- Hands over what the sink still holds. -/
def flush : Op Unit := onSink Sink.flush

/-- The short text that stands for a console in diagnostics. -/
def summary (c : Console) : String :=
  "Console \x7b second_column: " ++ (if c.secondColumn then "true" else "false") ++ ", .. \x7d"

end Console

end WordMachine

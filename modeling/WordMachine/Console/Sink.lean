import WordMachine.Host.OsError

/-!
# Output streams

Program output goes to a sink. A capture keeps what it accepts, up to a limit in bytes; a write that
does not fit leaves the bytes that do and fails. A terminal is standard output: it accepts
everything, and shows it line by line. What follows the last newline waits until the line ends, the
stream is flushed, or the waiting bytes would exceed the size of the line buffer.
-/

namespace WordMachine

/-- A stream that keeps the bytes it accepts. -/
structure Capture where
  accepted : ByteArray
  limit : Option Nat
  refusal : Option String

/-- A line-buffered stream: bytes already shown, and bytes that wait for the end of their line. -/
structure Terminal where
  shown : ByteArray
  waiting : ByteArray

namespace Capture

/-- The capture without a limit that has accepted nothing. -/
def unlimited : Capture := ⟨.empty, none, none⟩

/-- Appends the bytes that still fit. The result says whether all did. -/
def write (c : Capture) (bytes : ByteArray) : Bool × Capture :=
  match c.limit with
  | none => (true, { c with accepted := c.accepted ++ bytes })
  | some limit =>
    let room := limit - c.accepted.size
    (bytes.size ≤ room, { c with accepted := c.accepted ++ bytes.extract 0 room })

end Capture

namespace Terminal

/-- The terminal that has shown nothing. -/
def empty : Terminal := ⟨.empty, .empty⟩

/-- The number of bytes that the line buffer holds. -/
def bufferSize : Nat := 1024

/-- Shows the bytes that wait. -/
def flush (t : Terminal) : Terminal := ⟨t.shown ++ t.waiting, .empty⟩

/-- Shows bytes at once, ahead of those that wait. -/
def showNow (t : Terminal) (bytes : ByteArray) : Terminal := { t with shown := t.shown ++ bytes }

/-- Lets bytes without a newline wait. They go out in the order of arrival: those that do not fit
into the buffer push out those before them, and a run as long as the buffer is shown at once. -/
def hold (t : Terminal) (bytes : ByteArray) : Terminal :=
  let t := if bufferSize < t.waiting.size + bytes.size then t.flush else t
  if bufferSize ≤ bytes.size then t.showNow bytes
  else { t with waiting := t.waiting ++ bytes }

/-- The number of bytes up to the last newline, including it. -/
def lastLineEnd (bytes : ByteArray) : Nat :=
  bytes.size - (bytes.data.toList.reverse.takeWhile (· ≠ 10)).length

/-- Writes bytes: whole lines are shown, with what waited before them, and the rest waits. -/
def write (t : Terminal) (bytes : ByteArray) : Terminal :=
  let n := lastLineEnd bytes
  if n = 0 then t.hold bytes
  else (t.flush.showNow (bytes.extract 0 n)).hold (bytes.extract n bytes.size)

end Terminal

/-- Where program output goes. -/
inductive Sink where
  | capture (c : Capture)
  | terminal (t : Terminal)

namespace Sink

/-- Writes bytes. A failed write leaves the sink with what it accepted. -/
def write (bytes : ByteArray) : EStateM OsError Sink Unit
  | .terminal t => .ok () (.terminal (t.write bytes))
  | .capture c =>
    match c.write bytes with
    | (true, c) => .ok () (.capture c)
    | (false, c) => .error .shortWrite (.capture c)

/-- Hands over what waits. A capture may refuse. -/
def flush : EStateM OsError Sink Unit
  | .terminal t => .ok () (.terminal t.flush)
  | .capture c =>
    match c.refusal with
    | none => .ok () (.capture c)
    | some reason => .error (.refused reason) (.capture c)

end Sink

end WordMachine

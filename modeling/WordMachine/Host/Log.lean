/-!
# The diagnostic log

Diagnostics have a level. The log keeps those that reach the least level it was told to keep, in the
order in which they were written. A line of the log is the level in brackets and the message; on a
colour terminal the level is wrapped in escapes.
-/

namespace WordMachine

/-- How serious a diagnostic is. -/
inductive Level where
  | info | warn | error
  deriving DecidableEq, Repr

namespace Level

/-- The place of a level in the order of seriousness. -/
def rank : Level → Nat
  | info => 1 | warn => 2 | error => 3

/-- The name of a level in a log line. -/
def label : Level → String
  | info => "INFO" | warn => "WARN" | error => "ERROR"

/-- The escape that sets the colour of a level: none, bold yellow, bold red. -/
def colour : Level → String
  | info => "\x1b[0m" | warn => "\x1b[0m\x1b[1m\x1b[33m" | error => "\x1b[0m\x1b[1m\x1b[31m"

end Level

/-- The diagnostics kept so far, and the least level that is kept. -/
structure Log where
  least : Level
  entries : Array (Level × String)

namespace Log

/-- The log without entries that keeps every level. -/
def empty : Log := ⟨.info, #[]⟩

/-- Whether a diagnostic of a level is kept. -/
def enabled (log : Log) (level : Level) : Bool := log.least.rank ≤ level.rank

/-- The log with one more diagnostic, if its level is kept. -/
def add (log : Log) (level : Level) (message : String) : Log :=
  if log.enabled level then { log with entries := log.entries.push (level, message) } else log

/-- The log with one more diagnostic of level `info`. -/
def info (log : Log) (message : String) : Log := log.add .info message

/-- The log with one more diagnostic of level `warn`. -/
def warn (log : Log) (message : String) : Log := log.add .warn message

/-- The log with one more diagnostic of level `error`. -/
def error (log : Log) (message : String) : Log := log.add .error message

/-- The line of a diagnostic. -/
def line (colour : Bool) : Level × String → String
  | (level, message) =>
    let mark := "[" ++ level.label ++ "] "
    (if colour then level.colour ++ mark ++ "\x1b[0m" else mark) ++ message ++ "\n"

/-- The lines of the entries from the `n`-th on. -/
def textFrom (log : Log) (n : Nat) (colour : Bool) : String :=
  String.join ((log.entries.extract n log.entries.size).toList.map (line colour))

end Log

end WordMachine

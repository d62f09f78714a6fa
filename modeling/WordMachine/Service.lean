import WordMachine.Word

/-!
# Interrupt services

The interrupt instruction takes a selector from the stack. Eight selectors are assigned; selector 0
is reserved and never served.
-/

namespace WordMachine

/-- What an interrupt asks for. -/
inductive Service where
  | reserved | logWord | logString | saveRead | saveWrite | saveToMemory | memoryToSave | extension
  deriving DecidableEq, Repr

namespace Service

/-- Every service, in the order of the selectors. -/
def all : List Service :=
  [reserved, logWord, logString, saveRead, saveWrite, saveToMemory, memoryToSave, extension]

/-- The selector of a service. -/
def selector : Service → Word
  | reserved => 0 | logWord => 3 | logString => 5 | saveRead => 10 | saveWrite => 11
  | saveToMemory => 12 | memoryToSave => 13 | extension => 20

/-- The service that a selector asks for. -/
def ofSelector? (w : Word) : Option Service := all.find? fun s => s.selector == w

/-- A service is found by its selector. -/
@[simp]
theorem ofSelector?_selector (s : Service) : ofSelector? s.selector = some s := by
  cases s <;> decide

/-- The service found for a word has that word as its selector. -/
theorem selector_of_ofSelector? {w : Word} {s : Service} (h : ofSelector? w = some s) :
    s.selector = w := by
  simpa using List.find?_some h

end Service

end WordMachine

import WordMachine.Extension.Utility

/-!
# Scripts

A script is a utility written as a list of actions. It carries the last value it has seen, which is
zero at the start, and uses it wherever an action leaves its value open. What it pops, reads and
decodes goes into its notes.
-/

namespace WordMachine

/-- One action of a script; a value left open is the last value seen. -/
inductive Action where
  | pop
  | push (w : Option Word)
  | read (address : Word)
  | write (address : Word) (w : Option Word)
  | string (address : Word)
  | reg (i : RegIndex)
  | setReg (i : RegIndex) (w : Option Word)
  | enter (address : Word)
  deriving DecidableEq, Repr

/-- A list of actions. -/
abbrev Script := List Action

namespace Script

/-- The utility that performs a script after the value `last` has been seen. -/
def toUtilityFrom (last : Word) : Script → Utility
  | [] => .done
  | .pop :: rest => .pop fun w => .note (.word w) (toUtilityFrom w rest)
  | .push w :: rest => .push (w.getD last) (toUtilityFrom last rest)
  | .read address :: rest => .read address fun w => .note (.word w) (toUtilityFrom w rest)
  | .write address w :: rest => .write address (w.getD last) (toUtilityFrom last rest)
  | .string address :: rest => .string address fun s => .note (.text s) (toUtilityFrom last rest)
  | .reg i :: rest => .reg i fun w => .note (.word w) (toUtilityFrom w rest)
  | .setReg i w :: rest => .setReg i (w.getD last) (toUtilityFrom last rest)
  | .enter address :: rest => .enter address (toUtilityFrom last rest)

/-- The utility that performs a script. -/
def toUtility (s : Script) : Utility := toUtilityFrom 0 s

end Script

end WordMachine

import WordMachine.Extension.Utility

/-!
# The sample extension

Two utilities: one prints the number on top of the stack, one raises a number to a power.
-/

namespace WordMachine.Sample

/-- The product of `n` factors `base` in 16 bits. -/
def natPower (base : Word) : (n : Nat) → Word
  | 0 => 1
  | n + 1 => natPower base n * base

/-- `base` to the power `exponent` in 16 bits. A negative exponent gives the fraction rounded toward
zero. -/
def power (base exponent : Word) : Word :=
  if 0 ≤ Word.signed exponent then natPower base exponent.toNat
  else if Word.signed base = 1 then 1
  else if Word.signed base = -1 then if exponent % 2 = 0 then 1 else base
  else 0

/-- Pops a number and prints it. -/
def printNumber : Utility :=
  .pop fun w => .print ("Your number was: " ++ (Word.signed w).repr ++ "\n") .done

/-- Pops an exponent and a base, and pushes the power. -/
def raise : Utility :=
  .pop fun exponent => .pop fun base => .push (power base exponent) .done

/-- The utilities of the sample extension, by index. -/
def utilities : List Utility := [printNumber, raise]

end WordMachine.Sample

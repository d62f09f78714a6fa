/-!
# Hexadecimal text

The program prints words and addresses as four upper-case hexadecimal digits, unassigned bytes as
two.
-/

namespace WordMachine.Text

/-- The upper-case hexadecimal digits of `n`, without leading zeros. -/
def hexDigits (n : Nat) : List Char := (Nat.toDigits 16 n).map Char.toUpper

/-- The upper-case hexadecimal text of `n` with at least `width` digits. -/
def hex (width n : Nat) : String := String.ofList ((hexDigits n).leftpad width '0')

end WordMachine.Text

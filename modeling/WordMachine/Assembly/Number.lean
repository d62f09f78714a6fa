import WordMachine.Word

/-!
# Numbers in assembly text

A number is an optional sign and digits: hexadecimal after `0x`, binary after `0b`, octal after a
`0` with more to follow, decimal otherwise. Its magnitude must be below `2^63`.
-/

namespace WordMachine.Assembly

/-- The value of a hexadecimal digit. -/
def digitValue? (c : Char) : Option Nat :=
  if '0' ≤ c ∧ c ≤ '9' then some (c.toNat - '0'.toNat)
  else if 'a' ≤ c ∧ c ≤ 'f' then some (c.toNat - 'a'.toNat + 10)
  else if 'A' ≤ c ∧ c ≤ 'F' then some (c.toNat - 'A'.toNat + 10)
  else none

/-- The value of a digit in a base. -/
def digitIn? (base : Nat) (c : Char) : Option Nat := (digitValue? c).filter (· < base)

/-- The number that some digits denote after those worth `value`. -/
def foldDigits? (base : Nat) : (value : Nat) → List Char → Option Nat
  | value, [] => some value
  | value, c :: rest => do foldDigits? base (base * value + (← digitIn? base c)) rest

/-- The magnitude that no number reaches: `2^63`. -/
def magnitudeBound : Nat := 0x8000000000000000

/-- The number that one digit or more denote in a base, if it is below the bound. -/
def digits? (base : Nat) (cs : List Char) : Option Nat :=
  if cs = [] then none else (foldDigits? base 0 cs).filter (· < magnitudeBound)

/-- The magnitude of a number without sign. -/
def magnitude? : List Char → Option Nat
  | '0' :: 'x' :: cs | '0' :: 'X' :: cs => digits? 16 cs
  | '0' :: 'b' :: cs | '0' :: 'B' :: cs => digits? 2 cs
  | '0' :: c :: cs => digits? 8 (c :: cs)
  | cs => digits? 10 cs

/-- The number that a text denotes. -/
def number? (text : String) : Option Int :=
  match text.toList with
  | '-' :: cs => (magnitude? cs).map fun n => -(n : Int)
  | '+' :: cs => (magnitude? cs).map Int.ofNat
  | cs => (magnitude? cs).map Int.ofNat

/-- The register that the text after the dot of a register operation names: one or two decimal
digits worth less than 32. -/
def register? (cs : List Char) : Option UInt8 :=
  if cs.length ≤ 2 then ((digits? 10 cs).filter (· < 32)).map UInt8.ofNat else none

end WordMachine.Assembly

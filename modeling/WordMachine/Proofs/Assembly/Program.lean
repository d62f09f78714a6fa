import Mathlib.Algebra.GroupWithZero.Nat
import Mathlib.Data.List.Forall2
import WordMachine.Assembly.Assemble

/-!
# Programs and their layout

What an assembly text says, apart from how it is assembled. A program is a list of statements, and
`Parses` tells which tokens spell it. `Program.image` lays it out in two passes: the symbol table
comes first, from the sizes of the statements alone (`Program.symbols`), then every statement is
encoded with the addresses of the table. Nothing is emitted and patched later.
-/

namespace WordMachine.Assembly

/-! ## Statements -/

/-- An item of a data entry: a number, or the characters between two quotes. -/
inductive Datum where
  | number (n : Int)
  | text (chars : List Char)

/-- The operand of a push. -/
inductive Operand where
  | number (n : Int)
  | label (name : String)

/-- A statement of an assembly text. `instruction` is any instruction without an operand. -/
inductive Statement where
  | directive (area : Area)
  | entry (name : String) (count : Nat) (items : List Datum)
  | label (name : String)
  | push (operand : Operand)
  | instruction (i : Instruction)

/-- The statements of a text, in its order. -/
abbrev Program := List Statement

/-- The words of some bytes: two to a word, high byte first, ended by a zero byte and filled up to a
whole word. -/
def packed : List UInt8 → List Word
  | [] => [0]
  | [b] => [Word.ofBytes b 0]
  | b :: b' :: rest => Word.ofBytes b b' :: packed rest

/-- The words of a data item. -/
def Datum.words : Datum → List Word
  | .number n => [Word.ofInt n]
  | .text chars => packed (chars.map fun c => UInt8.ofNat c.toNat)

/-- The words of a data entry. -/
def wordsOf (items : List Datum) : List Word := items.flatMap Datum.words

/-! ## Spelling -/

/-- A number that 16 bits hold, signed or unsigned. -/
def FitsWord (n : Int) : Prop := -32768 ≤ n ∧ n ≤ 65535

/-- The directive of a section. -/
def Area.directive : Area → String
  | .data => ".data"
  | .code => ".code"

/-- The name that starts a data entry. A leading colon is not part of the name; without one the
token must not be quoted, nor be a directive. -/
inductive IsEntryName : Token → String → Prop where
  | colon {t : Token} {name : String} : t.text = ":" ++ name → name ≠ "" → IsEntryName t name
  | bare {t : Token} {c : Char} {rest : List Char} : t.text = String.ofList (c :: rest) →
      c ≠ ':' → c ≠ '\'' → c ≠ '.' → IsEntryName t t.text

/-- A token that is an item of a data entry. -/
inductive IsDatum : Token → Datum → Prop where
  | number {t : Token} {n : Int} : number? t.text = some n → FitsWord n → IsDatum t (.number n)
  | text {t : Token} {chars : List Char} : t.text = String.ofList ('\'' :: (chars ++ ['\''])) →
      (∀ c ∈ chars, c.toNat ≤ 0xFF) → IsDatum t (.text chars)

/-- The items of an entry go on until they make up its count of words, and no further. -/
def Fills (count : Nat) (items : List Datum) : Prop :=
  count ≤ (wordsOf items).length ∧ ∀ k < items.length, (wordsOf (items.take k)).length < count

/-- A token that is the operand of a push. -/
inductive IsOperand : Token → Operand → Prop where
  | number {t : Token} {n : Int} : number? t.text = some n → FitsWord n → IsOperand t (.number n)
  | label {t : Token} {name : String} : t.text = ":" ++ name → IsOperand t (.label name)

/-- The number that decimal digits denote. -/
def decimal (digits : List Char) : Nat := digits.foldl (fun v c => 10 * v + (c.toNat - '0'.toNat)) 0

/-- One or two decimal digits that name a register below 32. -/
def IsRegister (digits : List Char) (reg : UInt8) : Prop :=
  (digits.length = 1 ∨ digits.length = 2) ∧ (∀ c ∈ digits, '0' ≤ c ∧ c ≤ '9') ∧
    decimal digits = reg.toNat ∧ reg.toNat < 32

/-- A token that is an instruction without an operand: a mnemonic, or the mnemonic of a register
operation, a dot and a register. -/
inductive IsInstruction : Token → Instruction → Prop where
  | extended {t : Token} {op : Opcode} : t.text = op.mnemonic → op ≠ .pushImm →
      IsInstruction t (.extended op)
  | register {t : Token} {op : RegisterOp} {digits : List Char} {reg : UInt8} :
      t.text = op.mnemonic ++ "." ++ String.ofList digits → IsRegister digits reg →
      IsInstruction t (.register op reg)

/-- The tokens that follow in a section spell a program. A directive may stand at the start of any
statement; entries stand in the data section only, the other statements in the code section. -/
inductive Parses : Area → List Token → Program → Prop where
  | done {area : Area} : Parses area [] []
  | directive {area area' : Area} {t : Token} {ts : List Token} {p : Program} :
      t.text = area'.directive → Parses area' ts p → Parses area (t :: ts) (.directive area' :: p)
  | entry {name : String} {count : Nat} {items : List Datum} {t c : Token} {its ts : List Token}
      {p : Program} : IsEntryName t name → number? c.text = some (count : Int) →
      List.Forall₂ IsDatum its items → Fills count items → Parses .data ts p →
      Parses .data (t :: c :: (its ++ ts)) (.entry name count items :: p)
  | label {name : String} {t : Token} {ts : List Token} {p : Program} :
      t.text = ":" ++ name → Parses .code ts p → Parses .code (t :: ts) (.label name :: p)
  | push {operand : Operand} {t o : Token} {ts : List Token} {p : Program} :
      t.text = Opcode.mnemonic .pushImm → IsOperand o operand → Parses .code ts p →
      Parses .code (t :: o :: ts) (.push operand :: p)
  | instruction {i : Instruction} {t : Token} {ts : List Token} {p : Program} :
      IsInstruction t i → Parses .code ts p → Parses .code (t :: ts) (.instruction i :: p)

/-! ## Layout -/

/-- The number of code bytes that a statement takes. -/
def Statement.codeSize : Statement → Nat
  | .push _ => 3
  | .instruction _ => 1
  | _ => 0

/-- The number of data words that a statement takes. -/
def Statement.dataSize : Statement → Nat
  | .entry _ _ items => (wordsOf items).length
  | _ => 0

/-- The name that a statement defines, with its address: the number of cells that its section holds
before the statement. -/
def Statement.symbols (code data : Nat) : Statement → List (String × Nat)
  | .entry name _ _ => [(name, data)]
  | .label name => [(name, code)]
  | _ => []

/-- The names that a program defines, after the `code` bytes and `data` words in front of it. -/
def Program.symbolsFrom (code data : Nat) : Program → List (String × Nat)
  | [] => []
  | s :: rest =>
    s.symbols code data ++ symbolsFrom (code + s.codeSize) (data + s.dataSize) rest

/-- The symbol table of a program. -/
def Program.symbols (p : Program) : List (String × Nat) := symbolsFrom 0 0 p

/-- The names that a program defines. -/
def Program.names (p : Program) : List String := p.symbols.map Prod.fst

/-- The name that a statement refers to. -/
def Statement.references : Statement → List String
  | .push (.label name) => [name]
  | _ => []

/-- The names that a program refers to. -/
def Program.references (p : Program) : List String := p.flatMap Statement.references

/-- The number of code bytes of a program. -/
def Program.codeSize (p : Program) : Nat := (p.map Statement.codeSize).sum

/-- The number of data words of a program. -/
def Program.dataSize (p : Program) : Nat := (p.map Statement.dataSize).sum

/-- The address of a name, in the 16 bits that a push has room for. -/
def Program.address (p : Program) (name : String) : Word :=
  UInt16.ofNat ((p.symbols.lookup name).getD 0)

/-- The word that a push leaves on the stack. -/
def Operand.word (address : String → Word) : Operand → Word
  | .number n => Word.ofInt n
  | .label name => address name

/-- The bytes of a statement in the code. -/
def Statement.code (address : String → Word) : Statement → List UInt8
  | .push operand =>
    [0x05, Word.high (operand.word address), Word.low (operand.word address)]
  | .instruction i => [i.encode]
  | _ => []

/-- The words of a statement in the data. -/
def Statement.data : Statement → List Word
  | .entry _ _ items => wordsOf items
  | _ => []

/-- The code of a program: that of its statements one after the other. -/
def Program.code (p : Program) : List UInt8 := p.flatMap (Statement.code p.address)

/-- The data of a program: that of its statements one after the other. -/
def Program.data (p : Program) : List Word := p.flatMap Statement.data

/-- The image of a program: its code and its data, and zeros behind them. -/
def Program.image (p : Program) : Image := ⟨.ofArray p.code.toArray 0, .ofArray p.data.toArray 0⟩

/-- A program that can be laid out: no name is defined twice, every name referred to is defined, and
both sections fit their segments. -/
structure Program.Sound (p : Program) : Prop where
  names_nodup : p.names.Nodup
  references_defined : ∀ name ∈ p.references, name ∈ p.names
  codeSize_le : p.codeSize ≤ segmentSize
  dataSize_le : p.dataSize ≤ segmentSize

end WordMachine.Assembly

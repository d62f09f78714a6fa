import WordMachine.Assembly.Error
import WordMachine.Assembly.Number
import WordMachine.Assembly.Token
import WordMachine.Instruction.Basic

/-!
# Assembly items

Tokens are read one after the other. What a token means depends on what the tokens before it have
left open (`Expect`): the start of a statement in one of the two sections, the word count of a data
entry, a data item, or the operand of a push. Each token adds a few items to the program: labels,
data words, code bytes, and places where the address of a label goes.
-/

namespace WordMachine.Assembly

/-- The two sections of a program. -/
inductive Area where
  | data
  | code
  deriving DecidableEq, Repr

/-- What a token adds to the program. -/
inductive Item where
  | label (area : Area) (name : String)
  | word (w : Word)
  | byte (b : UInt8)
  | reference (name : String)
  deriving DecidableEq, Repr

/-- What the next token has to be. -/
inductive Expect where
  | statement (area : Area)
  | wordCount
  | dataItem (remaining : Nat)
  | operand
  deriving DecidableEq, Repr

/-! ## Literals -/

/-- The bytes of characters. The first character that needs more than one byte is the error. -/
def charBytes (line : Nat) (cs : List Char) : Except Error (List UInt8) :=
  match cs.find? fun c => 256 ≤ c.toNat with
  | some c => .error (.badCharacter line c)
  | none => .ok (cs.map fun c => UInt8.ofNat c.toNat)

/-- The words of bytes behind those of `packed` in reverse: high byte first, ended by a zero byte
and filled up to a whole word. -/
def packInto (packed : List Word) : List UInt8 → List Word
  | [] => (0 :: packed).reverse
  | [b] => (Word.ofBytes b 0 :: packed).reverse
  | b :: b' :: rest => packInto (Word.ofBytes b b' :: packed) rest

/-- The words of a text given by its bytes. -/
def packBytes (bytes : List UInt8) : List Word := packInto [] bytes

/-- The characters between the quotes of a literal. -/
def literalChars (text : String) : List Char := (text.toList.drop 1).dropLast

/-- The words of a quoted literal. -/
def literalWords (t : Token) : Except Error (List Word) :=
  (charBytes t.line (literalChars t.text)).map packBytes

/-- The word that a token denotes as a number, signed or unsigned. -/
def wordOf (t : Token) : Except Error Word :=
  match number? t.text with
  | none => .error (.badNumber t.line t.text)
  | some n =>
    if -32768 ≤ n ∧ n ≤ 65535 then .ok (Word.ofInt n) else .error (.numberOutOfRange t.line n)

/-- The instruction of a token in the code section. -/
def instructionOf (t : Token) : Except Error Instruction :=
  let chars := t.text.toList
  let front := chars.takeWhile (· ≠ '.')
  match chars.drop front.length with
  | '.' :: reg =>
    match RegisterOp.ofMnemonic? (String.ofList front) with
    | none => .error (.unknownMnemonic t.line t.text)
    | some op =>
      match register? reg with
      | none => .error (.badRegister t.line t.text)
      | some reg => .ok (.register op reg)
  | _ =>
    match Opcode.ofMnemonic? t.text with
    | none => .error (.unknownMnemonic t.line t.text)
    | some op => .ok (.extended op)

/-! ## Reading tokens -/

/-- What is expected while `remaining` words of a data entry are missing. -/
def Expect.items (remaining : Nat) : Expect :=
  if remaining = 0 then .statement .data else .dataItem remaining

/-- A directive: it changes the section. -/
def directive (t : Token) : Except Error (List Item × Expect) :=
  if t.text = ".data" then .ok ([], .statement .data)
  else if t.text = ".code" then .ok ([], .statement .code)
  else .error (.unknownDirective t.line t.text)

/-- The start of a data entry: its name, with or without a colon. -/
def dataName (t : Token) : Except Error (List Item × Expect) :=
  let name := match t.text.toList with
    | ':' :: cs => cs
    | cs => cs
  if name = [] ∨ t.isQuoted then .error (.unknownMnemonic t.line t.text)
  else .ok ([.label .data (String.ofList name)], .wordCount)

/-- A statement of the code section: a label or an instruction. -/
def codeStatement (t : Token) : Except Error (List Item × Expect) :=
  match t.text.toList with
  | ':' :: name => .ok ([.label .code (String.ofList name)], .statement .code)
  | _ => do
    let i ← instructionOf t
    let next := if i = .extended .pushImm then .operand else .statement .code
    return ([.byte i.encode], next)

/-- The operand of a push: a label or a number. -/
def pushOperand (t : Token) : Except Error (List Item × Expect) :=
  match t.text.toList with
  | ':' :: name => .ok ([.reference (String.ofList name)], .statement .code)
  | _ => do
    let w ← wordOf t
    return ([.byte (Word.high w), .byte (Word.low w)], .statement .code)

/-- What a token adds to the program, and what is expected after it. -/
def Expect.read (e : Expect) (t : Token) : Except Error (List Item × Expect) :=
  match e with
  | .statement area =>
    if t.text.toList.head? = some '.' then directive t
    else
      match area with
      | .data => dataName t
      | .code => codeStatement t
  | .wordCount =>
    match number? t.text with
    | some (.ofNat n) => .ok ([], .items n)
    | _ => .error (.badNumber t.line t.text)
  | .dataItem remaining => do
    let words ← if t.isQuoted then literalWords t else (wordOf t).map ([·])
    return (words.map .word, .items (remaining - words.length))
  | .operand => pushOperand t

/-- What is missing when the text ends. -/
def Expect.missing? : Expect → Option Missing
  | .statement _ => none
  | .wordCount => some .wordCount
  | .dataItem _ => some .dataItem
  | .operand => some .operand

end WordMachine.Assembly

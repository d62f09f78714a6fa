import Mathlib.Algebra.Group.Int.Defs
import Mathlib.Tactic.SplitIfs
import WordMachine.Assembly.Assemble
import WordMachine.Proofs.Checked.RawLexer

/-!
# The assembler with every access checked

The reference for the totality of assembly. Its statements take their tokens from the lexer as they
need them, and each access is tested: the positions at which a token is cut, the range of a number
whose sign is changed and of the counter of missing words, the index of a byte that an address is
stored in, and the room for code and data in the image. A `Trap` is not an error of the text:
nothing raises it on purpose. What has no access to test is shared with assembly: the value of
digits, the instruction of a mnemonic, the bytes of characters and the table of labels.

The segments are tested for being full, not for being overfull. A data entry goes on for as long as
words are missing, whatever count the text asks for, and so does the loop over the statements; what
ends them both is that every turn takes a token (`left_lt_of_expect`, `left_le_of_statement`).
-/

namespace WordMachine.Assembly

/-! ## Numbers and literals -/

/-- The first byte of a text. -/
def firstByte? (text : String) : Option UInt8 := text.toByteArray.data[0]?

/-- The text behind its first byte. -/
def behindFirst (text : String) : Except Halt String := slice text ⟨1⟩ text.rawEndPos

/-- The magnitude of a number without sign. -/
def rawMagnitude (body : String) : Except Halt (Option Nat) :=
  match body.toList with
  | '0' :: 'x' :: cs | '0' :: 'X' :: cs => return digits? 16 cs
  | '0' :: 'b' :: cs | '0' :: 'B' :: cs => return digits? 2 cs
  | cs =>
    if 1 < body.utf8ByteSize ∧ cs.head? = some '0' then do
      return digits? 8 (← behindFirst body).toList
    else return digits? 10 cs

/-- The number with its sign changed, in 64 bits. -/
def negated (n : Int) : Except Halt Int := do
  ensure (-2 ^ 63 ≤ -n ∧ -n < 2 ^ 63) .overflow
  return -n

/-- The number that a text denotes. A sign is told by its byte. -/
def rawNumber (text : String) : Except Halt (Option Int) :=
  if firstByte? text = some '-'.toUInt8 then do
    match ← rawMagnitude (← behindFirst text) with
    | none => return none
    | some n => return some (← negated n)
  else if firstByte? text = some '+'.toUInt8 then do
    return (← rawMagnitude (← behindFirst text)).map Int.ofNat
  else do return (← rawMagnitude text).map Int.ofNat

/-- The word that a token denotes as a number. -/
def rawWord (t : Token) : Except Halt Word := do
  match ← rawNumber t.text with
  | none => throw (.error (.badNumber t.line t.text))
  | some n =>
    if -32768 ≤ n ∧ n ≤ 65535 then return Word.ofInt n
    else throw (.error (.numberOutOfRange t.line n))

/-- The count of words that a token denotes. -/
def rawCount (t : Token) : Except Halt Int := do
  match (← rawNumber t.text).filter (0 ≤ ·) with
  | none => throw (.error (.badNumber t.line t.text))
  | some n => return n

/-- The words of a quoted literal, whose quotes are cut off. -/
def rawLiteral (t : Token) : Except Halt (List Word) := do
  ensure (1 ≤ t.text.utf8ByteSize) .overflow
  let chars ← slice t.text ⟨1⟩ ⟨t.text.utf8ByteSize - 1⟩
  liftError ((charBytes t.line chars.toList).map packBytes)

/-- The words of an item of a data entry. -/
def rawWords (t : Token) : Except Halt (List Word) :=
  if t.isQuoted then rawLiteral t else do return [← rawWord t]

/-! ## Layout -/

namespace Layout

/-- The layout with one more code byte, unless the code is full. -/
def rawByte (l : Layout) (line : Nat) (b : UInt8) : Except Halt Layout :=
  if l.code.size = segmentSize then throw (.error (.codeOverflow line))
  else return { l with code := l.code.push b }

/-- The layout with one more data word, unless the data are full. -/
def rawWord (l : Layout) (line : Nat) (w : Word) : Except Halt Layout :=
  if l.data.size = segmentSize then throw (.error (.dataOverflow line))
  else return { l with data := l.data.push w }

/-- The layout with more data words, and the count of words that are missing then, in 64 bits. -/
def rawWords (line : Nat) : List Word → Layout → (missing : Int) → Except Halt (Layout × Int)
  | [], l, missing => return (l, missing)
  | w :: ws, l, missing => do
    let l ← l.rawWord line w
    ensure (-2 ^ 63 ≤ missing - 1) .overflow
    rawWords line ws l (missing - 1)

/-- The code with the address of a label filled in. Both bytes that it is stored in have to be
there. -/
def rawResolveIn (labels : Std.ExtHashMap String Label) (code : Array UInt8) (r : Reference) :
    Except Halt (Array UInt8) := do
  let stored ← liftError (resolveIn labels code r)
  ensure (r.position < code.size ∧ r.position + 1 < code.size) .index
  return stored

/-- The image of a layout, all addresses filled in. -/
def rawImage (l : Layout) : Except Halt Image := do
  let code ← l.references.toList.foldlM (rawResolveIn l.labels) l.code
  ensure (code.size ≤ segmentSize ∧ l.data.size ≤ segmentSize) .index
  return ⟨.ofArray code 0, .ofArray l.data 0⟩

end Layout

/-! ## Statements -/

/-- How far assembly has come. -/
structure RawAssembler where
  lexer : RawLexer
  area : Area
  layout : Layout
  line : Nat

namespace RawAssembler

variable {text : String} {a b : RawAssembler} {t : Token}

/-- The start of a text. -/
def start : RawAssembler := ⟨.start, .data, .empty, 1⟩

/-- The next token, which is the last one read then. -/
def nextToken (text : String) (a : RawAssembler) : Except Halt (Option (Token × RawAssembler)) := do
  match ← a.lexer.next text with
  | none => return none
  | some (t, lexer) => return some (t, { a with lexer, line := t.line })

/-- The next token, of which there has to be one. -/
def expect (text : String) (a : RawAssembler) (what : Missing) :
    Except Halt (Token × RawAssembler) := do
  match ← a.nextToken text with
  | none => throw (.error (.missingOperand a.line what))
  | some found => return found

/-- A token that is read takes a character of the text. -/
theorem left_lt_of_nextToken (h : a.nextToken text = .ok (some (t, b))) :
    b.lexer.left text < a.lexer.left text := by
  obtain ⟨found, hnext, h⟩ := bind_eq_ok_iff.1 h
  cases found with
  | none => cases h
  | some taken =>
    obtain ⟨rfl, rfl⟩ : taken.1 = t ∧ _ = b := by simpa using Except.ok.inj h
    exact RawLexer.left_lt_of_next hnext

/-- So does one that is expected. -/
theorem left_lt_of_expect {what : Missing} (h : a.expect text what = .ok (t, b)) :
    b.lexer.left text < a.lexer.left text := by
  obtain ⟨found, hnext, h⟩ := bind_eq_ok_iff.1 h
  cases found with
  | none => cases h
  | some taken =>
    obtain rfl : taken = (t, b) := Except.ok.inj h
    exact left_lt_of_nextToken hnext

/-- A directive: it changes the section. -/
def directive (a : RawAssembler) (t : Token) : Except Halt RawAssembler :=
  if t.text = ".data" then return { a with area := .data }
  else if t.text = ".code" then return { a with area := .code }
  else throw (.error (.unknownDirective t.line t.text))

/-- Defines a label at the end of a section. -/
def define (a : RawAssembler) (t : Token) (area : Area) (name : List Char) :
    Except Halt RawAssembler := do
  let layout ← liftError (a.layout.addLabel t.line area (String.ofList name))
  return { a with layout }

/-- Reads items until no words are missing. -/
def dataItems (text : String) (a : RawAssembler) (missing : Int) : Except Halt RawAssembler :=
  if missing ≤ 0 then .ok a
  else
    match _h : a.expect text .dataItem with
    | .error e => .error e
    | .ok (t, b) => do
      let words ← rawWords t
      let (layout, missing) ← Layout.rawWords t.line words b.layout missing
      dataItems text { b with layout } missing
  termination_by a.lexer.left text
  decreasing_by exact left_lt_of_expect _h

/-- The name that a token gives to a data entry. -/
def entryName (t : Token) : List Char :=
  match t.text.toList with
  | ':' :: cs => cs
  | cs => cs

/-- A data entry: its name, a count of words, and items. -/
def dataEntry (text : String) (a : RawAssembler) (t : Token) : Except Halt RawAssembler :=
  if entryName t = [] ∨ t.isQuoted then throw (.error (.unknownMnemonic t.line t.text))
  else do
    let a ← a.define t .data (entryName t)
    let (count, a) ← a.expect text .wordCount
    dataItems text a (← rawCount count)

/-- The operand of a push. For a label it leaves room in the layout. -/
def operand (l : Layout) (t : Token) : Except Halt (Word × Layout) :=
  match t.text.toList with
  | ':' :: name =>
    return (0, { l with references := l.references.push ⟨l.code.size, String.ofList name, t.line⟩ })
  | _ => do return (← rawWord t, l)

/-- A push: its opcode, and behind it the two bytes of its operand. -/
def push (text : String) (a : RawAssembler) (t : Token) : Except Halt RawAssembler := do
  let layout ← a.layout.rawByte t.line (Instruction.encode (.extended .pushImm))
  let (t, a) ← { a with layout }.expect text .operand
  let (w, layout) ← operand a.layout t
  let layout ← layout.rawByte t.line (Word.high w)
  let layout ← layout.rawByte t.line (Word.low w)
  return { a with layout }

/-- An instruction without operand. -/
def emit (a : RawAssembler) (t : Token) : Except Halt RawAssembler := do
  let i ← liftError (instructionOf t)
  let layout ← a.layout.rawByte t.line i.encode
  return { a with layout }

/-- A statement of the code section. -/
def codeStatement (text : String) (a : RawAssembler) (t : Token) : Except Halt RawAssembler :=
  match t.text.toList with
  | ':' :: name => a.define t .code name
  | _ => if t.text = Opcode.mnemonic .pushImm then push text a t else emit a t

/-- A statement, the first token of which has been read. -/
def statement (text : String) (a : RawAssembler) (t : Token) : Except Halt RawAssembler :=
  if t.text.toList.head? = some '.' then directive a t
  else
    match a.area with
    | .data => dataEntry text a t
    | .code => codeStatement text a t

/-- A directive reads no further token. -/
theorem lexer_of_directive (h : directive a t = .ok b) : b.lexer = a.lexer := by
  unfold directive at h
  split_ifs at h <;> exact (Except.ok.inj h) ▸ rfl

/-- Nor does a definition. -/
theorem lexer_of_define {area : Area} {name : List Char} (h : a.define t area name = .ok b) :
    b.lexer = a.lexer := by
  obtain ⟨layout, -, h⟩ := bind_eq_ok_iff.1 h
  exact (Except.ok.inj h) ▸ rfl

/-- The items of an entry take no text back. -/
theorem left_le_of_dataItems {missing : Int} (h : dataItems text a missing = .ok b) :
    b.lexer.left text ≤ a.lexer.left text := by
  -- no words are missing, no token is there, or there is one more item
  fun_induction dataItems text a missing with
  | case1 => exact (Except.ok.inj h) ▸ Nat.le_refl _
  | case2 => cases h
  | case3 a missing _ t c hexpect ih =>
    obtain ⟨words, -, h⟩ := bind_eq_ok_iff.1 h
    obtain ⟨⟨layout, missing'⟩, -, h⟩ := bind_eq_ok_iff.1 h
    have hlt := left_lt_of_expect hexpect
    exact Nat.le_trans (ih _ _ h) (Nat.le_of_lt hlt)

/-- Nor does a whole entry. -/
theorem left_le_of_dataEntry (h : dataEntry text a t = .ok b) :
    b.lexer.left text ≤ a.lexer.left text := by
  unfold dataEntry at h
  split_ifs at h
  obtain ⟨c, hdefine, h⟩ := bind_eq_ok_iff.1 h
  obtain ⟨⟨count, d⟩, hexpect, h⟩ := bind_eq_ok_iff.1 h
  obtain ⟨n, -, h⟩ := bind_eq_ok_iff.1 h
  have hle := left_le_of_dataItems h
  have hlt := left_lt_of_expect hexpect
  rw [lexer_of_define hdefine] at hlt
  exact Nat.le_trans hle (Nat.le_of_lt hlt)

/-- Nor does a push. -/
theorem left_le_of_push (h : push text a t = .ok b) : b.lexer.left text ≤ a.lexer.left text := by
  obtain ⟨layout, -, h⟩ := bind_eq_ok_iff.1 h
  obtain ⟨⟨t', c⟩, hexpect, h⟩ := bind_eq_ok_iff.1 h
  obtain ⟨⟨w, layout⟩, -, h⟩ := bind_eq_ok_iff.1 h
  obtain ⟨layout, -, h⟩ := bind_eq_ok_iff.1 h
  obtain ⟨layout, -, h⟩ := bind_eq_ok_iff.1 h
  obtain rfl := Except.ok.inj h
  have hlt := left_lt_of_expect hexpect
  exact Nat.le_of_lt hlt

/-- An instruction without operand reads no further token. -/
theorem lexer_of_emit (h : emit a t = .ok b) : b.lexer = a.lexer := by
  obtain ⟨i, -, h⟩ := bind_eq_ok_iff.1 h
  obtain ⟨layout, -, h⟩ := bind_eq_ok_iff.1 h
  exact (Except.ok.inj h) ▸ rfl

/-- A statement takes no text back. -/
theorem left_le_of_statement (h : statement text a t = .ok b) :
    b.lexer.left text ≤ a.lexer.left text := by
  unfold statement at h
  split at h
  · exact Nat.le_of_eq (by rw [lexer_of_directive h])
  · split at h
    · exact left_le_of_dataEntry h
    · unfold codeStatement at h
      split at h
      · exact Nat.le_of_eq (by rw [lexer_of_define h])
      · split at h
        · exact left_le_of_push h
        · exact Nat.le_of_eq (by rw [lexer_of_emit h])

/-! ## Texts -/

/-- Reads statements up to the end of the text. -/
def run (text : String) (a : RawAssembler) : Except Halt RawAssembler :=
  match _h : a.nextToken text with
  | .error e => .error e
  | .ok none => .ok a
  | .ok (some (t, b)) =>
    match _hstatement : statement text b t with
    | .error e => .error e
    | .ok c => run text c
  termination_by a.lexer.left text
  decreasing_by
    exact Nat.lt_of_le_of_lt (left_le_of_statement _hstatement) (left_lt_of_nextToken _h)

/-- The image of an assembly text. -/
def assemble (text : String) : Except Halt Image := do
  let a ← run text .start
  a.layout.rawImage

end RawAssembler

end WordMachine.Assembly

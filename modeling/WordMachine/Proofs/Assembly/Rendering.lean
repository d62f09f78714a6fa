import WordMachine.Instruction.Printer
import WordMachine.Proofs.Assembly.Numerals
import WordMachine.Proofs.Assembly.Reference
import WordMachine.Proofs.Assembly.Words
import WordMachine.Proofs.Memory.Segments

/-!
# Assembling printed instructions

Instructions can be printed and assembled again. `Coded` is an instruction with its operand, of
those that can be written in assembly text, and `Coded.Written` gives the words in which it is
written: the printed instruction, and for a push any numeral of its operand. `assemble_printed` says
that such words, with any gaps of white space and commas between them, are assembled to the bytes of
the instructions one after the other, as long as they fit the segment.

The words of the text are its tokens (`tokens_of_spread`), and each instruction is a statement that
adds its bytes and nothing else (`Statement.Plain`): it defines no name and refers to none, so the
program of the text can be laid out whenever its code fits.
-/

namespace WordMachine.Assembly

/-! ## Instructions with their operands -/

/-- An instruction that can be written in assembly text: an opcode without an operand, an operation
on one of the 32 registers, or a push of a word. -/
inductive Coded where
  | opcode (op : Opcode) (ne_push : op ≠ .pushImm)
  | register (op : RegisterOp) (reg : Fin 32)
  | push (w : Word)

namespace Coded

/-- The instruction without its operand. -/
def instruction : Coded → Instruction
  | opcode op _ => .extended op
  | register op reg => .register op (UInt8.ofNat reg)
  | push _ => .extended .pushImm

/-- The bytes of the operand, high byte first. -/
def operand : Coded → List UInt8
  | push w => [Word.high w, Word.low w]
  | _ => []

/-- The bytes of the instruction in the code. -/
def bytes (c : Coded) : List UInt8 := c.instruction.encode :: c.operand

/-- The words that write an instruction. -/
inductive Written : Coded → List (List Char) → Prop where
  | opcode {op : Opcode} {h : op ≠ .pushImm} :
      Written (opcode op h) [(Instruction.extended op).render.toList]
  | register {op : RegisterOp} {reg : Fin 32} :
      Written (register op reg) [(Instruction.register op (UInt8.ofNat reg)).render.toList]
  | push {w : Word} {numeral : List Char} : Numeral w numeral →
      Written (push w) [(Instruction.extended .pushImm).render.toList, numeral]

end Coded

/-! ## The words of a text -/

/-- Digits neither quote nor end a word. -/
theorem Digits.forall_mem_word {base : Nat} {cs : List Char} {n : Nat} (h : Digits base cs n)
    (hbase : base ≤ 16) : ∀ c ∈ cs, c ≠ '\'' ∧ endsWord c = false := by
  have hdigit : ∀ d < 16, (Nat.digitChar d ≠ '\'' ∧ endsWord (Nat.digitChar d) = false) ∧
      (Nat.digitChar d).toUpper ≠ '\'' ∧ endsWord (Nat.digitChar d).toUpper = false := by decide
  exact h.forall_mem fun d hd => hdigit d (by omega)

/-- A numeral is one word. -/
theorem Numeral.isWord {w : Word} {cs : List Char} (h : Numeral w cs) : IsWord cs := by
  -- a sign or the mark of a base ends no word, and neither does a digit
  have hcons {c : Char} {cs : List Char} (hc : c ≠ '\'' ∧ endsWord c = false)
      (hcs : ∀ x ∈ cs, x ≠ '\'' ∧ endsWord x = false) :
      ∀ x ∈ c :: cs, x ≠ '\'' ∧ endsWord x = false := List.forall_mem_cons.2 ⟨hc, hcs⟩
  cases h with
  | unsigned hdec => exact isWord_of_forall hdec.1.ne_nil (hdec.1.forall_mem_word (by decide))
  | negative hdec _ | positive hdec _ =>
    have hdigits := hdec.1.forall_mem_word (by decide)
    exact isWord_of_forall (by simp) (hcons (by decide) hdigits)
  | hexadecimal hdigits | binary hdigits =>
    have hdigits := hdigits.forall_mem_word (by decide)
    exact isWord_of_forall (by simp) (hcons (by decide) (hcons (by decide) hdigits))
  | octal hdigits =>
    have hdigits := hdigits.forall_mem_word (by decide)
    exact isWord_of_forall (by simp) (hcons (by decide) hdigits)

/-- A printed opcode is one word. -/
theorem isWord_render_extended (op : Opcode) :
    IsWord (Instruction.extended op).render.toList := by
  cases op <;> decide

/-- A printed register operation is one word, with the dot and the register in it. -/
theorem isWord_render_register (op : RegisterOp) (reg : Fin 32) :
    IsWord (Instruction.register op (UInt8.ofNat reg)).render.toList := by
  have hop : IsWord op.mnemonic.toList := by cases op <;> decide
  have hreg : ∀ reg : Fin 32, IsWord ("." ++ (UInt8.ofNat reg).toNat.repr).toList := by
    decide +kernel
  rw [Instruction.render, String.append_assoc, String.toList_append]
  exact hop.append (hreg reg).not_ends

/-- An instruction is written in words. -/
theorem Coded.Written.isWord {c : Coded} {words : List (List Char)} (h : c.Written words) :
    ∀ w ∈ words, IsWord w := by
  cases h with
  | opcode => simpa using isWord_render_extended _
  | register => simpa using isWord_render_register _ _
  | push hw => simpa using ⟨isWord_render_extended _, hw.isWord⟩

/-- So are several. -/
theorem isWord_of_written {cs : List Coded} {written : List (List (List Char))}
    (h : List.Forall₂ Coded.Written cs written) : ∀ w ∈ written.flatten, IsWord w := by
  induction h with
  | nil => simp
  | cons hc _ ih =>
    rw [List.flatten_cons, List.forall_mem_append]
    exact ⟨hc.isWord, ih⟩

/-! ## Statements of fixed bytes -/

/-- A statement that adds some bytes to the code and does nothing else. -/
structure Statement.Plain (s : Statement) (bytes : List UInt8) : Prop where
  code : ∀ address, s.code address = bytes
  data : s.data = []
  symbols : ∀ code data, s.symbols code data = []
  references : s.references = []

/-- An instruction adds its byte. -/
theorem Statement.plain_instruction (i : Instruction) : (instruction i).Plain [i.encode] :=
  ⟨fun _ => rfl, rfl, fun _ _ => rfl, rfl⟩

/-- A push of a number adds its byte and the two of the operand. -/
theorem Statement.plain_push (n : Int) : (push (.number n)).Plain
    [Opcode.toByte .pushImm, Word.high (Word.ofInt n), Word.low (Word.ofInt n)] :=
  ⟨fun _ => rfl, rfl, fun _ _ => rfl, rfl⟩

/-- A directive adds nothing. -/
theorem Statement.plain_directive (area : Area) : (directive area).Plain [] :=
  ⟨fun _ => rfl, rfl, fun _ _ => rfl, rfl⟩

section Plain

variable {p : Program} {bytes : List (List UInt8)}

/-- The code of plain statements is their bytes, whatever the addresses. -/
theorem code_of_plain (h : List.Forall₂ Statement.Plain p bytes) (address : String → Word) :
    p.flatMap (Statement.code address) = bytes.flatten := by
  induction h with
  | nil => rfl
  | cons hs _ ih => rw [List.flatMap_cons, hs.code, ih, List.flatten_cons]

/-- They have no data. -/
theorem data_of_plain (h : List.Forall₂ Statement.Plain p bytes) : p.data = [] := by
  unfold Program.data
  induction h with
  | nil => rfl
  | cons hs _ ih => rw [List.flatMap_cons, hs.data, ih, List.nil_append]

/-- They define no names. -/
theorem symbols_of_plain (h : List.Forall₂ Statement.Plain p bytes) : p.symbols = [] := by
  suffices ∀ code data, Program.symbolsFrom code data p = [] from this 0 0
  induction h with
  | nil => exact fun _ _ => rfl
  | cons hs _ ih =>
    intro code data
    rw [Program.symbolsFrom, hs.symbols, ih, List.nil_append]

/-- They refer to no names. -/
theorem references_of_plain (h : List.Forall₂ Statement.Plain p bytes) : p.references = [] := by
  unfold Program.references
  induction h with
  | nil => rfl
  | cons hs _ ih => rw [List.flatMap_cons, hs.references, ih, List.nil_append]

/-- The image of plain statements is their bytes. -/
theorem image_of_plain (h : List.Forall₂ Statement.Plain p bytes) :
    p.image = ⟨.ofArray bytes.flatten.toArray 0, .fill 0⟩ := by
  rw [Program.image, Program.code, code_of_plain h, data_of_plain h, Segment.ofArray_empty]

/-- Plain statements can be laid out if their bytes fit the code segment. -/
theorem sound_of_plain (h : List.Forall₂ Statement.Plain p bytes)
    (hsize : bytes.flatten.length ≤ segmentSize) : p.Sound where
  names_nodup := by simp [Program.names, symbols_of_plain h]
  references_defined := by simp [references_of_plain h]
  codeSize_le := by
    rwa [← length_blankCode_items, blankCode, codeOf_items, code_of_plain h]
  dataSize_le := by
    rw [← length_dataOf_items, dataOf_items, data_of_plain h]
    exact Nat.zero_le _

end Plain

/-! ## From words to statements -/

/-- A printed register is read as that register. -/
theorem isRegister_repr (reg : Fin 32) :
    IsRegister (UInt8.ofNat reg).toNat.repr.toList (UInt8.ofNat reg) := by
  rw [← register?_eq_some_iff]
  revert reg
  decide +kernel

/-- The tokens of a written instruction are a plain statement in front of what follows. -/
theorem Coded.Written.parses {c : Coded} {words : List (List Char)} (h : c.Written words)
    {ts rest : List Token} (hts : ts.map Token.text = words.map String.ofList) :
    ∃ s : Statement, s.Plain c.bytes ∧
      ∀ p, Parses .code rest p → Parses .code (ts ++ rest) (s :: p) := by
  -- one token for an opcode or a register operation, two for a push
  cases h with
  | @opcode op hop =>
    obtain ⟨t, rfl, ht⟩ : ∃ t, ts = [t] ∧ t.text = op.mnemonic := by
      simpa [Instruction.render, List.map_eq_singleton_iff] using hts
    exact ⟨_, Statement.plain_instruction _, fun p => .instruction (.extended ht hop)⟩
  | @register op reg =>
    obtain ⟨t, rfl, ht⟩ : ∃ t, ts = [t] ∧
        t.text = (Instruction.register op (UInt8.ofNat reg)).render := by
      simpa [List.map_eq_singleton_iff] using hts
    have ht' : t.text = op.mnemonic ++ "." ++
        String.ofList (UInt8.ofNat reg).toNat.repr.toList := by
      rw [ht, String.ofList_toList]
      rfl
    exact ⟨_, Statement.plain_instruction _,
      fun p => .instruction (.register ht' (isRegister_repr reg))⟩
  | @push w numeral hw =>
    obtain ⟨n, hn, hfits, rfl⟩ := number?_of_numeral hw
    obtain ⟨t, o, rfl, ht, ho⟩ : ∃ t o, ts = [t, o] ∧ t.text = Opcode.mnemonic .pushImm ∧
        o.text = String.ofList numeral := by
      simpa [Instruction.render, List.map_eq_cons_iff] using hts
    rw [← ho] at hn
    exact ⟨_, Statement.plain_push n, fun p => .push ht (.number hn hfits)⟩

/-- The tokens of written instructions spell plain statements of their bytes. -/
theorem parses_of_written {cs : List Coded} {written : List (List (List Char))}
    (h : List.Forall₂ Coded.Written cs written) {ts : List Token}
    (hts : ts.map Token.text = written.flatten.map String.ofList) :
    ∃ p, Parses .code ts p ∧ List.Forall₂ Statement.Plain p (cs.map Coded.bytes) := by
  -- the tokens of the first instruction come first
  induction h generalizing ts with
  | nil =>
    obtain rfl : ts = [] := by simpa using hts
    exact ⟨[], .done, .nil⟩
  | @cons c words cs written hc _ ih =>
    rw [List.flatten_cons, List.map_append, List.map_eq_append_iff] at hts
    obtain ⟨front, rest, rfl, hfront, hrest⟩ := hts
    obtain ⟨p, hp, hplain⟩ := ih hrest
    obtain ⟨s, hs, hparses⟩ := hc.parses hfront
    exact ⟨s :: p, hparses p hp, .cons hs hplain⟩

/-- Printed instructions in the code section, with white space and commas between their words, are
assembled to their bytes, with zeros behind them and no data. -/
theorem assemble_printed {cs : List Coded} {written : List (List (List Char))} {body : List Char}
    (hwritten : List.Forall₂ Coded.Written cs written) (hbody : Spread written.flatten body)
    (hsize : (cs.flatMap Coded.bytes).length ≤ segmentSize) :
    assemble (Area.directive .code ++ String.ofList body) =
      .ok ⟨.ofArray (cs.flatMap Coded.bytes).toArray 0, .fill 0⟩ := by
  have hwords : ∀ w ∈ (Area.directive .code).toList :: written.flatten, IsWord w :=
    List.forall_mem_cons.2 ⟨by decide, isWord_of_written hwritten⟩
  obtain ⟨hunclosed, htokens⟩ := tokens_of_spread hbody hwords
  rw [String.ofList_append, String.ofList_toList] at hunclosed htokens
  obtain ⟨t, ts, hscan, ht, hts⟩ := List.map_eq_cons_iff.1 htokens
  obtain ⟨p, hparses, hplain⟩ := parses_of_written hwritten hts
  -- the directive in front adds no bytes
  have hprogram : List.Forall₂ Statement.Plain (.directive .code :: p)
      ([] :: cs.map Coded.bytes) := .cons (Statement.plain_directive .code) hplain
  have hbytes : ([] :: cs.map Coded.bytes).flatten = cs.flatMap Coded.bytes := rfl
  rw [← hbytes] at hsize ⊢
  rw [← image_of_plain hprogram]
  refine assemble_of_parses hunclosed ?_ (sound_of_plain hprogram hsize)
  rw [hscan]
  exact .directive (by simpa using ht) hparses

/-- The words of the three kinds of instruction, with a comma, a newline and a tab between them. -/
theorem assemble_printed_three :
    assemble ".code PI,-1\n RI.31 ,\tHL" =
      .ok ⟨.ofArray [0x05, 0xFF, 0xFF, 0xDF, 0x04].toArray 0, .fill 0⟩ := by
  have hone : Decimal "1".toList 1 := ⟨.one ⟨by decide, .inl rfl⟩, by decide⟩
  have hwritten : List.Forall₂ Coded.Written
      [.push 0xFFFF, .register .inc 31, .opcode .halt (by decide)]
      [["PI".toList, "-1".toList], ["RI.31".toList], ["HL".toList]] :=
    .cons (.push (.negative hone rfl)) (.cons .register (.cons .opcode .nil))
  have hbytes : [Coded.push 0xFFFF, .register .inc 31, .opcode .halt (by decide)].flatMap
      Coded.bytes = [0x05, 0xFF, 0xFF, 0xDF, 0x04] := by decide
  have hgap {s : String} (h : (s.toList.all fun c => Text.isBlank c || c == ',') = true) :
      IsGap s.toList := by simpa [IsGap] using h
  have hsplit : " PI,-1\n RI.31 ,\tHL".toList =
      " ".toList ++ ("PI".toList ++ (",".toList ++ ("-1".toList ++ ("\n ".toList ++
        ("RI.31".toList ++ (" ,\t".toList ++ ("HL".toList ++ "".toList))))))) := by decide
  have hbody : Spread ["PI".toList, "-1".toList, "RI.31".toList, "HL".toList]
      " PI,-1\n RI.31 ,\tHL".toList := by
    rw [hsplit]
    exact .cons (by decide) (hgap (by decide)) (.cons (by decide) (hgap (by decide))
      (.cons (by decide) (hgap (by decide)) (.cons (by decide) (hgap (by decide))
        (.nil (hgap (by decide))))))
  have htext : ".code PI,-1\n RI.31 ,\tHL" =
      Area.directive .code ++ String.ofList " PI,-1\n RI.31 ,\tHL".toList := by decide
  rw [htext, ← hbytes]
  exact assemble_printed hwritten hbody (by decide)

end WordMachine.Assembly

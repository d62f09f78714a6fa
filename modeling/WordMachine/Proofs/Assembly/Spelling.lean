import Mathlib.Data.String.Basic
import WordMachine.Proofs.Assembly.Program

/-!
# What single tokens spell

The readers of single tokens accept what the grammar of programs says: numbers, registers,
instructions and quoted literals. `TokenStep` says of a token in every position what it adds to the
program and what is expected after it, without the readers; `TokenStep.read_eq_ok` and
`tokenStep_of_read` say that the reader does just this.
-/

namespace WordMachine.Assembly

/-! ## Numbers -/

/-- Digits do not start with a character that is no digit of any base. -/
theorem digits?_cons_eq_none {base : Nat} {c : Char} (cs : List Char) (h : digitValue? c = none) :
    digits? base (c :: cs) = none := by
  simp [digits?, foldDigits?, digitIn?, h]

/-- A text that starts with neither a sign nor a digit is no number. -/
theorem number?_eq_none {text : String} {c : Char} {cs : List Char} (h : text.toList = c :: cs)
    (hminus : c ≠ '-') (hplus : c ≠ '+') (hdigit : digitValue? c = none) :
    number? text = none := by
  have hzero : c ≠ '0' := by rintro rfl; simp [digitValue?] at hdigit
  have hmag : magnitude? (c :: cs) = none := by
    unfold magnitude?
    split
    case h_6 => exact digits?_cons_eq_none cs hdigit
    all_goals simp_all
  -- a sign would have been the first character, so only a magnitude is left
  unfold number?
  rw [h]
  split
  · simp_all
  · simp_all
  · rw [hmag]; rfl

/-- A token is a word exactly if it is a number between -32768 and 65535. -/
theorem wordOf_eq_ok_iff {t : Token} {w : Word} :
    wordOf t = .ok w ↔ ∃ n, number? t.text = some n ∧ FitsWord n ∧ w = Word.ofInt n := by
  unfold wordOf FitsWord
  cases hn : number? t.text with
  | none => simp
  | some n =>
    by_cases hfit : -32768 ≤ n ∧ n ≤ 65535
    · simp [hfit, eq_comm]
    · simp [hfit]

/-! ## Registers -/

/-- Characters are compared by their codes. -/
theorem char_le_iff (a b : Char) : a ≤ b ↔ a.toNat ≤ b.toNat := by
  rw [Char.le_def, UInt32.le_iff_toNat_le]
  rfl

/-- The digits of base ten are those from 0 to 9. -/
theorem digitIn?_ten (c : Char) :
    digitIn? 10 c = if '0' ≤ c ∧ c ≤ '9' then some (c.toNat - '0'.toNat) else none := by
  unfold digitIn? digitValue?
  by_cases h : '0' ≤ c ∧ c ≤ '9'
  · have h9 : c.toNat ≤ '9'.toNat := (char_le_iff _ _).1 h.2
    have h09 : '9'.toNat = '0'.toNat + 9 := by decide
    have hlt : c.toNat - '0'.toNat < 10 := by omega
    rw [if_pos h, if_pos h, Option.filter_some, if_pos (by simpa using hlt)]
  · -- The letters are digits of a larger base.
    rw [if_neg h, if_neg h]
    split_ifs <;> simp

/-- Decimal digits denote what `decimal` says, and nothing else denotes a number in base ten. -/
theorem foldDigits?_ten_eq_some_iff {value n : Nat} {cs : List Char} :
    foldDigits? 10 value cs = some n ↔ (∀ c ∈ cs, '0' ≤ c ∧ c ≤ '9') ∧
      cs.foldl (fun v c => 10 * v + (c.toNat - '0'.toNat)) value = n := by
  -- from the front, with the value of the digits passed
  induction cs generalizing value with
  | nil => simp [foldDigits?]
  | cons c cs ih =>
    rw [foldDigits?, digitIn?_ten, List.forall_mem_cons, List.foldl_cons]
    by_cases h : '0' ≤ c ∧ c ≤ '9'
    · rw [if_pos h, Option.bind_eq_bind, Option.bind_some, ih, and_iff_right h]
    · rw [if_neg h, Option.bind_eq_bind, Option.bind_none]
      exact iff_of_false nofun fun hall => h hall.1.1

/-- A number in base ten is one digit or more, below the bound on magnitudes. -/
theorem digits?_ten_eq_some_iff {cs : List Char} {n : Nat} :
    digits? 10 cs = some n ↔
      cs ≠ [] ∧ (∀ c ∈ cs, '0' ≤ c ∧ c ≤ '9') ∧ decimal cs = n ∧ n < magnitudeBound := by
  unfold digits? decimal
  by_cases hnil : cs = []
  · simp [hnil]
  · rw [if_neg hnil, Option.filter_eq_some_iff, foldDigits?_ten_eq_some_iff, decide_eq_true_eq,
      and_assoc, and_iff_right hnil]

/-- A register is one or two decimal digits below 32. -/
theorem register?_eq_some_iff {cs : List Char} {reg : UInt8} :
    register? cs = some reg ↔ IsRegister cs reg := by
  have hbound : 32 ≤ magnitudeBound := by decide
  unfold register? IsRegister
  constructor
  · intro h
    split at h
    · rename_i hlen
      obtain ⟨n, hn, rfl⟩ := Option.map_eq_some_iff.1 h
      obtain ⟨hdigits, hlt⟩ := Option.filter_eq_some_iff.1 hn
      obtain ⟨hnil, hall, hval, -⟩ := digits?_ten_eq_some_iff.1 hdigits
      have hpos : 0 < cs.length := List.length_pos_iff.2 hnil
      have hlt' : n < 32 := by simpa using hlt
      have hreg : (UInt8.ofNat n).toNat = n :=
        UInt8.toNat_ofNat_of_lt' (Nat.lt_of_lt_of_le hlt' (by decide))
      exact ⟨by omega, hall, by rw [hval, hreg], by rw [hreg]; exact hlt'⟩
    · simp at h
  · -- a value below 32 is far below the bound on magnitudes
    rintro ⟨hlen, hall, hval, hlt⟩
    have hnil : cs ≠ [] := by rintro rfl; simp at hlen
    have hdigits : digits? 10 cs = some reg.toNat :=
      digits?_ten_eq_some_iff.2 ⟨hnil, hall, hval, by omega⟩
    rw [if_pos (by omega), hdigits, Option.filter_some, if_pos (by simpa using hlt)]
    simp

/-! ## Instructions -/

/-- No mnemonic has a dot in it. -/
theorem dot_notMem_opcode (op : Opcode) : '.' ∉ op.mnemonic.toList := by cases op <;> decide

/-- Neither has one of a register operation. -/
theorem dot_notMem_registerOp (op : RegisterOp) : '.' ∉ op.mnemonic.toList := by
  cases op <;> decide

/-- What precedes a character is taken whole. -/
theorem takeWhile_ne_append {c : Char} {cs : List Char} (h : c ∉ cs) (rest : List Char) :
    (cs ++ rest).takeWhile (· ≠ c) = cs ++ rest.takeWhile (· ≠ c) := by
  apply List.takeWhile_append_of_pos
  intro a ha
  simpa using fun e : a = c => h (e ▸ ha)

/-- An instruction without operand is not the push. -/
theorem IsInstruction.ne_push {t : Token} {i : Instruction} (h : IsInstruction t i) :
    i ≠ .extended .pushImm := by
  cases h with
  | extended _ hop => simpa using hop
  | register _ _ => simp

/-- An instruction that is read is one without operand, or the push. -/
theorem isInstruction_of_instructionOf {t : Token} {i : Instruction} (h : instructionOf t = .ok i) :
    IsInstruction t i ∨ t.text = Opcode.mnemonic .pushImm ∧ i = .extended .pushImm := by
  have hsplit := List.prefix_iff_eq_append.1
    (List.takeWhile_prefix (l := t.text.toList) (fun c => decide (c ≠ '.')))
  simp only [instructionOf] at h
  -- behind the mnemonic there is a dot and a register, or nothing
  split at h
  · rename_i reg hdrop
    rw [hdrop] at hsplit
    split at h
    · simp at h
    · rename_i op hop
      split at h
      · simp at h
      · rename_i r hr
        obtain rfl : Instruction.register op r = i := by simpa using h
        have htext : t.text = op.mnemonic ++ "." ++ String.ofList reg := by
          rw [RegisterOp.mnemonic_of_ofMnemonic? hop, ← String.toList_inj]
          refine hsplit.symm.trans ?_
          simp
        exact .inl (.register htext (register?_eq_some_iff.1 hr))
  · split at h
    · simp at h
    · rename_i op hop
      obtain rfl : Instruction.extended op = i := by simpa using h
      have hop' := Opcode.mnemonic_of_ofMnemonic? hop
      by_cases hpush : op = .pushImm
      · exact .inr ⟨by rw [← hpush, hop'], by rw [hpush]⟩
      · exact .inl (.extended hop'.symm hpush)

/-- A mnemonic is read as its opcode. -/
theorem instructionOf_mnemonic {t : Token} {op : Opcode} (h : t.text = op.mnemonic) :
    instructionOf t = .ok (.extended op) := by
  have hfront : op.mnemonic.toList.takeWhile (· ≠ '.') = op.mnemonic.toList := by
    simpa using takeWhile_ne_append (dot_notMem_opcode op) []
  simp only [instructionOf, h, hfront, List.drop_length, Opcode.ofMnemonic?_mnemonic]

/-- An instruction without operand is read as itself. -/
theorem instructionOf_of_isInstruction {t : Token} {i : Instruction} (h : IsInstruction t i) :
    instructionOf t = .ok i := by
  cases h with
  | extended htext _ => exact instructionOf_mnemonic htext
  | @register op digits reg htext hreg =>
    -- the dot ends the mnemonic, which has none itself
    have hlist : t.text.toList = op.mnemonic.toList ++ '.' :: digits := by rw [htext]; simp
    have hfront : (op.mnemonic.toList ++ '.' :: digits).takeWhile (· ≠ '.') =
        op.mnemonic.toList := by
      rw [takeWhile_ne_append (dot_notMem_registerOp op), List.takeWhile_cons_of_neg (by simp),
        List.append_nil]
    simp only [instructionOf, hlist, hfront, List.drop_left, String.ofList_toList,
      RegisterOp.ofMnemonic?_mnemonic, register?_eq_some_iff.2 hreg]

/-! ## Literals -/

/-- Packing with words collected so far puts them in front. -/
theorem packInto_eq (acc : List Word) (bytes : List UInt8) :
    packInto acc bytes = acc.reverse ++ packed bytes := by
  fun_induction packInto acc bytes with
  | case1 => simp [packed]
  | case2 => simp [packed]
  | case3 acc b b' rest ih => simp [ih, packed]

/-- A token that starts with a quote ends with another one. -/
def Token.Closed (t : Token) : Prop :=
  t.isQuoted = true → ∃ chars, t.text = String.ofList ('\'' :: (chars ++ ['\'']))

/-- The characters of a literal have bytes exactly if none of them is beyond 255. -/
theorem charBytes_eq_ok_iff {line : Nat} {cs : List Char} {bytes : List UInt8} :
    charBytes line cs = .ok bytes ↔
      (∀ c ∈ cs, c.toNat ≤ 0xFF) ∧ bytes = cs.map fun c => UInt8.ofNat c.toNat := by
  unfold charBytes
  split
  · -- some character is too large
    rename_i c hc
    have hmem := List.mem_of_find?_eq_some hc
    have hbig := List.find?_some hc
    simp only [decide_eq_true_eq] at hbig
    simp only [reduceCtorEq, false_iff, not_and]
    intro hall
    have := hall c hmem
    omega
  · -- all characters are bytes
    rename_i hnone
    have hall : ∀ c ∈ cs, c.toNat ≤ 0xFF := by
      intro c hc
      have := List.find?_eq_none.1 hnone c hc
      simp only [decide_eq_true_eq] at this
      omega
    constructor
    · intro h
      exact ⟨hall, by simpa using h.symm⟩
    · rintro ⟨-, rfl⟩
      rfl

/-- The words of a closed literal are those of the characters between its quotes. -/
theorem literalWords_eq_ok_iff {t : Token} {chars : List Char} {words : List Word}
    (h : t.text = String.ofList ('\'' :: (chars ++ ['\'']))) :
    literalWords t = .ok words ↔
      (∀ c ∈ chars, c.toNat ≤ 0xFF) ∧ words = (Datum.text chars).words := by
  have hchars : literalChars t.text = chars := by simp [literalChars, h]
  unfold literalWords
  rw [hchars]
  -- the words are the packed bytes, if all characters have one
  cases hb : charBytes t.line chars with
  | error e =>
    simp only [Except.map, reduceCtorEq, false_iff, not_and]
    intro hall
    have hok : charBytes t.line chars = .ok _ := charBytes_eq_ok_iff.2 ⟨hall, rfl⟩
    simp [hb] at hok
  | ok bytes =>
    obtain ⟨hall, rfl⟩ := charBytes_eq_ok_iff.1 hb
    have hwords :
        (Datum.text chars).words = packBytes (chars.map fun c => UInt8.ofNat c.toNat) := by
      simp [Datum.words, packBytes, packInto_eq]
    constructor
    · intro h
      exact ⟨hall, by rw [hwords]; simpa [Except.map] using h.symm⟩
    · rintro ⟨-, rfl⟩
      rw [hwords]
      rfl

/-- A token that is taken from a text is closed: a quote without end gives no token. -/
theorem closed_of_next {cs after : List Char} {line : Nat} {t : Token}
    (h : next cs line = .token t after) : t.Closed := by
  simp only [next] at h
  split at h
  · simp at h
  rename_i c rest start _
  split at h
  · simp at h
  rename_i text rest' htake
  simp only [Next.token.injEq] at h
  obtain ⟨rfl, rfl⟩ := h
  intro hq
  simp only [takeToken?] at htake
  -- a literal has its closing quote, and a word does not start with a quote
  split at htake
  · rename_i hc
    subst hc
    split at htake
    · simp only [Option.some.injEq, Prod.mk.injEq] at htake
      exact ⟨_, congrArg String.ofList htake.1.symm⟩
    · simp at htake
  · rename_i hc
    simp only [Option.some.injEq, Prod.mk.injEq] at htake
    rw [← htake.1] at hq
    exact absurd (by simpa [Token.isQuoted] using hq) hc

/-- Scanning on adds closed tokens to closed ones. -/
theorem closed_of_mem_go {cs : List Char} {line : Nat} {found : List Token}
    (hfound : ∀ t ∈ found, t.Closed) : ∀ t ∈ (Scan.go cs line found).tokens, t.Closed := by
  -- along the scan, token by token
  fun_induction Scan.go cs line found with
  | case1 cs line found => simpa using hfound
  | case2 cs line found => simpa using hfound
  | case3 cs line found t after hnext ih =>
    exact ih (List.forall_mem_cons.2 ⟨closed_of_next hnext, hfound⟩)

/-- Every token of a text is closed. -/
theorem closed_of_mem_ofText (text : String) : ∀ t ∈ (Scan.ofText text).tokens, t.Closed :=
  closed_of_mem_go (by simp)

/-! ## Tokens in their positions -/

/-- What a token in a position adds to the program, and the position after it. -/
inductive TokenStep : Expect → Token → List Item → Expect → Prop where
  | directive {area area' : Area} {t : Token} : t.text = area'.directive →
      TokenStep (.statement area) t [] (.statement area')
  | entryName {t : Token} {name : String} : IsEntryName t name →
      TokenStep (.statement .data) t [.label .data name] .wordCount
  | label {t : Token} {name : String} : t.text = ":" ++ name →
      TokenStep (.statement .code) t [.label .code name] (.statement .code)
  | push {t : Token} : t.text = Opcode.mnemonic .pushImm →
      TokenStep (.statement .code) t [.byte 0x05] .operand
  | instruction {t : Token} {i : Instruction} : IsInstruction t i →
      TokenStep (.statement .code) t [.byte i.encode] (.statement .code)
  | count {t : Token} {n : Nat} : number? t.text = some (n : Int) →
      TokenStep .wordCount t [] (.items n)
  | datum {t : Token} {d : Datum} {remaining : Nat} : IsDatum t d →
      TokenStep (.dataItem remaining) t (d.words.map .word) (.items (remaining - d.words.length))
  | number {t : Token} {n : Int} : number? t.text = some n → FitsWord n →
      TokenStep .operand t [.byte (Word.high (Word.ofInt n)), .byte (Word.low (Word.ofInt n))]
        (.statement .code)
  | reference {t : Token} {name : String} : t.text = ":" ++ name →
      TokenStep .operand t [.reference name] (.statement .code)

/-- A text that starts with a colon is the colon and a name. -/
theorem text_eq_colon_append {t : Token} {name : List Char} (h : t.text.toList = ':' :: name) :
    t.text = ":" ++ String.ofList name := by
  rw [← String.toList_inj, h]
  simp

/-- A directive is read exactly if it is that of a section, which is then the current one. -/
theorem directive_eq_ok_iff {t : Token} {items : List Item} {e : Expect} :
    directive t = .ok (items, e) ↔
      ∃ area : Area, t.text = area.directive ∧ items = [] ∧ e = .statement area := by
  unfold directive
  constructor
  · intro h
    split at h
    · rename_i htext
      simp only [Except.ok.injEq, Prod.mk.injEq] at h
      exact ⟨.data, htext, h.1.symm, h.2.symm⟩
    · split at h
      · rename_i htext
        simp only [Except.ok.injEq, Prod.mk.injEq] at h
        exact ⟨.code, htext, h.1.symm, h.2.symm⟩
      · simp at h
  · rintro ⟨area, htext, rfl, rfl⟩
    cases area with
    | data => exact if_pos htext
    | code =>
      have hne : t.text ≠ ".data" := by rw [htext]; decide
      rw [if_neg hne]
      exact if_pos htext

/-- The name of an entry that is written with a colon must not be empty. -/
theorem dataName_of_colon {t : Token} {cs : List Char} (h : t.text.toList = ':' :: cs) :
    dataName t = if cs = [] then .error (.unknownMnemonic t.line t.text)
      else .ok ([.label .data (String.ofList cs)], .wordCount) := by
  simp [dataName, Token.isQuoted, h]

/-- The name of an entry that is written without a colon must not be a literal. -/
theorem dataName_of_ne_colon {t : Token} {c : Char} {cs : List Char} (h : t.text.toList = c :: cs)
    (hc : c ≠ ':') :
    dataName t = if c = '\'' then .error (.unknownMnemonic t.line t.text)
      else .ok ([.label .data t.text], .wordCount) := by
  have htext : t.text = String.ofList (c :: cs) := by rw [← h, String.ofList_toList]
  simp [dataName, Token.isQuoted, htext, hc]

/-- The start of an entry that is no directive. -/
theorem dataName_eq_ok_iff {t : Token} {items : List Item} {e : Expect}
    (hdot : t.text.toList.head? ≠ some '.') :
    dataName t = .ok (items, e) ↔
      ∃ name, IsEntryName t name ∧ items = [.label .data name] ∧ e = .wordCount := by
  constructor
  · intro h
    cases hcs : t.text.toList with
    | nil => simp [dataName, hcs] at h
    | cons c cs =>
      -- the first character says which of the two forms the name has
      by_cases hc : c = ':'
      · subst hc
        rw [dataName_of_colon hcs] at h
        split at h
        · simp at h
        · rename_i hne
          simp only [Except.ok.injEq, Prod.mk.injEq] at h
          exact ⟨_, .colon (text_eq_colon_append hcs) (by simpa using hne), h.1.symm, h.2.symm⟩
      · rw [dataName_of_ne_colon hcs hc] at h
        split at h
        · simp at h
        · rename_i hquote
          simp only [Except.ok.injEq, Prod.mk.injEq] at h
          have htext : t.text = String.ofList (c :: cs) := by rw [← hcs, String.ofList_toList]
          have hc' : c ≠ '.' := by simpa [hcs] using hdot
          exact ⟨_, .bare htext hc hquote hc', h.1.symm, h.2.symm⟩
  · rintro ⟨name, hname, rfl, rfl⟩
    cases hname with
    | colon htext hne =>
      have hlist : t.text.toList = ':' :: name.toList := by rw [htext]; simp
      have hne' : name.toList ≠ [] := by simpa using hne
      rw [dataName_of_colon hlist, if_neg hne', String.ofList_toList]
    | @bare c rest htext hcolon hquote _ =>
      have hlist : t.text.toList = c :: rest := by rw [htext, String.toList_ofList]
      rw [dataName_of_ne_colon hlist hcolon, if_neg hquote]

/-- A token of an instruction starts neither like a directive nor like a label. -/
theorem head_of_instructionOf {t : Token} {i : Instruction} (h : instructionOf t = .ok i) :
    ∃ c cs, t.text.toList = c :: cs ∧ c ≠ '.' ∧ c ≠ ':' := by
  -- the first characters of all mnemonics, by evaluation
  have hop : ∀ op : Opcode, ∃ c cs, op.mnemonic.toList = c :: cs ∧ c ≠ '.' ∧ c ≠ ':' := by
    intro op
    cases op <;> exact ⟨_, _, rfl, by decide, by decide⟩
  have hreg : ∀ op : RegisterOp, ∃ c cs, op.mnemonic.toList = c :: cs ∧ c ≠ '.' ∧ c ≠ ':' := by
    intro op
    cases op <;> exact ⟨_, _, rfl, by decide, by decide⟩
  rcases isInstruction_of_instructionOf h with hi | ⟨htext, -⟩
  · cases hi with
    | @extended op htext _ => rw [htext]; exact hop op
    | @register op digits reg htext _ =>
      obtain ⟨c, cs, hlist, hc⟩ := hreg op
      exact ⟨c, cs ++ '.' :: digits, by rw [htext]; simp [hlist], hc⟩
  · rw [htext]
    exact hop .pushImm

/-- In the code a colon makes a label. -/
theorem codeStatement_of_colon {t : Token} {name : List Char} (h : t.text.toList = ':' :: name) :
    codeStatement t = .ok ([.label .code (String.ofList name)], .statement .code) := by
  simp [codeStatement, h]

/-- Without a colon a token of the code is an instruction, after which the push waits for its
operand. -/
theorem codeStatement_of_ne_colon {t : Token} (h : ∀ name, t.text.toList ≠ ':' :: name) :
    codeStatement t = (instructionOf t).map fun i =>
      ([.byte i.encode], if i = .extended .pushImm then .operand else .statement .code) := by
  unfold codeStatement
  split
  · rename_i name heq
    exact absurd heq (h name)
  · cases instructionOf t <;> rfl

/-- An operand with a colon is a reference. -/
theorem pushOperand_of_colon {t : Token} {name : List Char} (h : t.text.toList = ':' :: name) :
    pushOperand t = .ok ([.reference (String.ofList name)], .statement .code) := by
  simp [pushOperand, h]

/-- An operand without a colon is a number. -/
theorem pushOperand_of_ne_colon {t : Token} (h : ∀ name, t.text.toList ≠ ':' :: name) :
    pushOperand t = (wordOf t).map fun w =>
      ([.byte (Word.high w), .byte (Word.low w)], .statement .code) := by
  unfold pushOperand
  split
  · rename_i name heq
    exact absurd heq (h name)
  · cases wordOf t <;> rfl

/-- No number starts with a colon. -/
theorem ne_colon_of_number? {t : Token} {n : Int} (h : number? t.text = some n) (name : List Char) :
    t.text.toList ≠ ':' :: name := by
  intro hlist
  rw [number?_eq_none hlist (by decide) (by decide) (by decide)] at h
  simp at h

/-- No number starts with a quote. -/
theorem isQuoted_of_number? {t : Token} {n : Int} (h : number? t.text = some n) :
    t.isQuoted = false := by
  unfold Token.isQuoted
  cases hlist : t.text.toList with
  | nil => rfl
  | cons c cs =>
    have hc : c ≠ '\'' := by
      rintro rfl
      rw [number?_eq_none hlist (by decide) (by decide) (by decide)] at h
      simp at h
    simpa using hc

/-- Where a statement is expected, a dot makes a directive; otherwise the section decides. -/
theorem read_statement (area : Area) (t : Token) :
    (Expect.statement area).read t = if t.text.toList.head? = some '.' then directive t
      else match area with
        | .data => dataName t
        | .code => codeStatement t := rfl

/-- Where an item is expected, a literal gives its words and a number its own. -/
theorem read_dataItem (remaining : Nat) (t : Token) :
    (Expect.dataItem remaining).read t =
      (if t.isQuoted then literalWords t else (wordOf t).map ([·])).map fun words =>
        (words.map .word, .items (remaining - words.length)) := by
  unfold Expect.read
  dsimp only
  split
  · cases literalWords t <;> rfl
  · cases wordOf t <;> rfl

/-- Reading a token does what its step says. -/
theorem TokenStep.read_eq_ok {e e' : Expect} {t : Token} {items : List Item}
    (h : TokenStep e t items e') : e.read t = .ok (items, e') := by
  cases h with
  | @directive area area' _ htext =>
    have hdot : t.text.toList.head? = some '.' := by rw [htext]; cases area' <;> decide
    rw [read_statement, if_pos hdot]
    exact directive_eq_ok_iff.2 ⟨area', htext, rfl, rfl⟩
  | @entryName _ name hname =>
    have hdot : t.text.toList.head? ≠ some '.' := by
      cases hname with
      | colon htext _ => rw [htext]; simp
      | bare htext _ _ hdot => rw [htext]; simpa using hdot
    rw [read_statement, if_neg hdot]
    exact (dataName_eq_ok_iff hdot).2 ⟨name, hname, rfl, rfl⟩
  | @label _ name htext =>
    have hlist : t.text.toList = ':' :: name.toList := by rw [htext]; simp
    have hdot : t.text.toList.head? ≠ some '.' := by rw [hlist]; simp
    rw [read_statement, if_neg hdot]
    simp only [codeStatement_of_colon hlist, String.ofList_toList]
  | push htext =>
    -- the push is read like any instruction; what differs is the position after it
    have hi := instructionOf_mnemonic htext
    obtain ⟨c, cs, hlist, hdot, hcolon⟩ := head_of_instructionOf hi
    rw [read_statement, if_neg (by simpa [hlist] using hdot)]
    have hstatement := codeStatement_of_ne_colon (t := t) (by simp [hlist, hcolon])
    rw [hi] at hstatement
    exact hstatement
  | @instruction _ i hinst =>
    have hi := instructionOf_of_isInstruction hinst
    obtain ⟨c, cs, hlist, hdot, hcolon⟩ := head_of_instructionOf hi
    rw [read_statement, if_neg (by simpa [hlist] using hdot)]
    have hstatement := codeStatement_of_ne_colon (t := t) (by simp [hlist, hcolon])
    rw [hi, Except.map, if_neg hinst.ne_push] at hstatement
    exact hstatement
  | count hnum => simp [Expect.read, hnum]
  | datum hdatum =>
    cases hdatum with
    | number hnum hfit =>
      have hw := wordOf_eq_ok_iff.2 ⟨_, hnum, hfit, rfl⟩
      simp only [read_dataItem, isQuoted_of_number? hnum, hw]
      rfl
    | text htext hchars =>
      have hq : t.isQuoted = true := by simp [Token.isQuoted, htext]
      have hlit := (literalWords_eq_ok_iff htext).2 ⟨hchars, rfl⟩
      simp only [read_dataItem, hq, if_true, hlit]
      rfl
  | number hnum hfit =>
    have hw := wordOf_eq_ok_iff.2 ⟨_, hnum, hfit, rfl⟩
    simp [Expect.read, pushOperand_of_ne_colon (ne_colon_of_number? hnum), hw, Except.map]
  | @reference _ name htext =>
    have hlist : t.text.toList = ':' :: name.toList := by rw [htext]; simp
    simp [Expect.read, pushOperand_of_colon hlist]

/-- A token that is read makes a step. -/
theorem tokenStep_of_read {e e' : Expect} {t : Token} {items : List Item} (hclosed : t.Closed)
    (h : e.read t = .ok (items, e')) : TokenStep e t items e' := by
  cases e with
  | statement area =>
    rw [read_statement] at h
    -- a dot makes a directive in both sections; without it they read different things
    split at h
    · obtain ⟨area', htext, rfl, rfl⟩ := directive_eq_ok_iff.1 h
      exact .directive htext
    rename_i hdot
    cases area with
    | data =>
      obtain ⟨name, hname, rfl, rfl⟩ := (dataName_eq_ok_iff hdot).1 h
      exact .entryName hname
    | code =>
      by_cases hcolon : ∃ name, t.text.toList = ':' :: name
      · obtain ⟨name, hlist⟩ := hcolon
        simp only [codeStatement_of_colon hlist, Except.ok.injEq, Prod.mk.injEq] at h
        obtain ⟨rfl, rfl⟩ := h
        exact .label (text_eq_colon_append hlist)
      · simp only [codeStatement_of_ne_colon (not_exists.1 hcolon)] at h
        cases hi : instructionOf t with
        | error => simp [hi, Except.map] at h
        | ok i =>
          simp only [hi, Except.map, Except.ok.injEq, Prod.mk.injEq] at h
          obtain ⟨rfl, rfl⟩ := h
          rcases isInstruction_of_instructionOf hi with hinst | ⟨htext, rfl⟩
          · rw [if_neg hinst.ne_push]
            exact .instruction hinst
          · exact .push htext
  | wordCount =>
    simp only [Expect.read] at h
    split at h
    · rename_i n hnum
      simp only [Except.ok.injEq, Prod.mk.injEq] at h
      obtain ⟨rfl, rfl⟩ := h
      exact .count hnum
    · simp at h
  | dataItem remaining =>
    rw [read_dataItem] at h
    cases hq : t.isQuoted with
    | false =>
      cases hw : wordOf t with
      | error => simp [hq, hw, Except.map] at h
      | ok w =>
        obtain ⟨n, hnum, hfit, rfl⟩ := wordOf_eq_ok_iff.1 hw
        simp only [hq, hw, Except.map, Bool.false_eq_true, if_false, Except.ok.injEq,
          Prod.mk.injEq] at h
        obtain ⟨rfl, rfl⟩ := h
        exact .datum (.number hnum hfit)
    | true =>
      -- the reader looks at the first quote only; that there is a last one comes from the scan
      obtain ⟨chars, htext⟩ := hclosed hq
      cases hw : literalWords t with
      | error => simp [hq, hw, Except.map] at h
      | ok words =>
        obtain ⟨hchars, rfl⟩ := (literalWords_eq_ok_iff htext).1 hw
        simp only [hq, hw, Except.map, if_true, Except.ok.injEq, Prod.mk.injEq] at h
        obtain ⟨rfl, rfl⟩ := h
        exact .datum (.text htext hchars)
  | operand =>
    by_cases hcolon : ∃ name, t.text.toList = ':' :: name
    · obtain ⟨name, hlist⟩ := hcolon
      simp only [Expect.read, pushOperand_of_colon hlist, Except.ok.injEq, Prod.mk.injEq] at h
      obtain ⟨rfl, rfl⟩ := h
      exact .reference (text_eq_colon_append hlist)
    · simp only [Expect.read, pushOperand_of_ne_colon (not_exists.1 hcolon)] at h
      cases hw : wordOf t with
      | error => simp [hw, Except.map] at h
      | ok w =>
        obtain ⟨n, hnum, hfit, rfl⟩ := wordOf_eq_ok_iff.1 hw
        simp only [hw, Except.map, Except.ok.injEq, Prod.mk.injEq] at h
        obtain ⟨rfl, rfl⟩ := h
        exact .number hnum hfit

end WordMachine.Assembly

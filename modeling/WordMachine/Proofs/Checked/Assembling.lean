import WordMachine.Proofs.Assembly.Provenance
import WordMachine.Proofs.Checked.Operands

/-!
# Checked assembly is assembly

The checked assembler takes tokens from the lexer as a statement needs them; assembly is fed with
the tokens of the text one by one. `Progress.resume` is assembly from some token on, so that what a
statement does with its tokens is a few steps of it. A statement and what follows it is then the
same on both sides (`dataItems_bind`, `push_bind`, `statement_bind`), and by induction on the
characters that are left so is the whole text (`RawAssembler.assemble_eq`).

The layout carries what keeps the accesses in range: it is one of items that fit their segments,
with every reference inside of the code (`Lays`).
-/

namespace WordMachine.Assembly

/-! ## Layout -/

namespace Layout

variable {l : Layout} {line : Nat}

/-- While the code fits its segment, that it is not full means that there is room. -/
theorem rawByte_eq (h : l.code.size ≤ segmentSize) (b : UInt8) :
    l.rawByte line b = liftError (l.addByte line b) := by
  unfold rawByte addByte
  rcases Nat.lt_or_eq_of_le h with hlt | hfull
  · rw [if_neg (Nat.ne_of_lt hlt), if_pos hlt]
    rfl
  · rw [if_pos hfull, if_neg (by omega)]
    rfl

/-- The same holds of the data. -/
theorem rawWord_eq (h : l.data.size ≤ segmentSize) (w : Word) :
    l.rawWord line w = liftError (l.addWord line w) := by
  unfold rawWord addWord
  rcases Nat.lt_or_eq_of_le h with hlt | hfull
  · rw [if_neg (Nat.ne_of_lt hlt), if_pos hlt]
    rfl
  · rw [if_pos hfull, if_neg (by omega)]
    rfl

/-- Two bytes, the second of which is added to what the first one leaves. -/
theorem rawBytes_eq (h : l.code.size ≤ segmentSize) (b b' : UInt8) :
    (l.rawByte line b >>= fun l => l.rawByte line b') =
      liftError (l.addByte line b >>= fun l => l.addByte line b') := by
  rw [rawByte_eq h, liftError_bind]
  cases hadd : l.addByte line b with
  | error e => rfl
  | ok l' =>
    obtain ⟨hlt, rfl⟩ := addByte_eq_ok_iff.1 hadd
    exact rawByte_eq (by simpa using Nat.succ_le_of_lt hlt) b'

/-- Words are counted down as they are added. A word that is added makes the data longer, so the
counter goes no further below zero than the segment is long. -/
theorem rawWords_eq {ws : List Word} {missing : Int} (hsize : l.data.size ≤ segmentSize)
    (hmissing : segmentSize - 2 ^ 63 ≤ missing + l.data.size) :
    rawWords line ws l missing = liftError ((ws.map Item.word).foldlM (add line) l) >>= fun l' =>
      .ok (l', missing - ws.length) := by
  -- word by word, with the layout so far and the count of missing words
  induction ws generalizing l missing with
  | nil =>
    rw [rawWords, List.map_nil, List.foldlM_nil, List.length_nil, Int.natCast_zero, Int.sub_zero]
    rfl
  | cons w ws ih =>
    rw [rawWords, rawWord_eq hsize, List.map_cons, List.foldlM_cons, liftError_bind, bind_assoc]
    have hadd : add line l (.word w) = l.addWord line w := rfl
    rw [hadd]
    cases hword : l.addWord line w with
    | error e => rfl
    | ok l' =>
      obtain ⟨hlt, rfl⟩ := addWord_eq_ok_iff.1 hword
      have hsize' : (l.data.push w).size = l.data.size + 1 := Array.size_push w
      have hcount : -2 ^ 63 ≤ missing - 1 := by omega
      have hlength : missing - 1 - (ws.length : Int) = missing - ((w :: ws).length : Nat) := by
        rw [List.length_cons]
        omega
      rw [ensure_of hcount, ← hlength]
      exact ih (hsize' ▸ hlt) (by simp only [hsize']; omega)

/-- A reference inside of the code is filled in without a trap. -/
theorem rawResolveIn_eq {labels : Std.ExtHashMap String Label} {code : Array UInt8} {r : Reference}
    (h : r.position + 1 < code.size) :
    rawResolveIn labels code r = liftError (resolveIn labels code r) := by
  rw [rawResolveIn, ensure_of ⟨Nat.lt_of_succ_lt h, h⟩]
  exact bind_pure _

/-- Filling a reference in keeps the length of the code. -/
theorem size_of_resolveIn {labels : Std.ExtHashMap String Label} {code code' : Array UInt8}
    {r : Reference} (h : resolveIn labels code r = .ok code') : code'.size = code.size := by
  unfold resolveIn at h
  split at h
  · cases h
  · rw [← Except.ok.inj h, Array.size_setIfInBounds, Array.size_setIfInBounds]

/-- Addresses are stored where references are, if these are in the code. The code stays as long as
it is. -/
theorem rawResolves_eq {labels : Std.ExtHashMap String Label} {refs : List Reference}
    {code : Array UInt8} (h : ∀ r ∈ refs, r.position + 1 < code.size) :
    refs.foldlM (rawResolveIn labels) code = liftError (refs.foldlM (resolveIn labels) code) := by
  -- reference by reference; the others are still inside of the code
  induction refs generalizing code with
  | nil => rfl
  | cons r refs ih =>
    obtain ⟨hr, hrefs⟩ := List.forall_mem_cons.1 h
    rw [List.foldlM_cons, List.foldlM_cons, rawResolveIn_eq hr]
    refine liftError_bind_eq fun code' hcode' => ih ?_
    rwa [size_of_resolveIn hcode']

/-- So does filling all of them in. -/
theorem size_of_resolves {labels : Std.ExtHashMap String Label} {refs : List Reference}
    {code code' : Array UInt8} (h : refs.foldlM (resolveIn labels) code = .ok code') :
    code'.size = code.size :=
  foldlM_invariant (I := fun c (_ : List Reference) => c.size = code.size)
    (fun hfront hstep => (size_of_resolveIn hstep).trans hfront) rfl h

/-- The image of a layout of items that fit their segments. -/
theorem rawImage_eq {items : List (Token × Item)} (h : Lays l items) :
    l.rawImage = liftError l.toImage := by
  rw [rawImage, toImage, rawResolves_eq (by simpa using h.position_lt), liftError_bind]
  cases hcode : l.references.toList.foldlM (resolveIn l.labels) l.code with
  | error e => rfl
  | ok code =>
    have hsize : code.size ≤ segmentSize := (size_of_resolves hcode).trans_le h.codeSize_le
    simp only [liftError_ok, bind, Except.bind, ensure_of (And.intro hsize h.dataSize_le)]
    rfl

end Layout

/-! ## Assembly from a token on -/

namespace Progress

variable {p : Progress} {t : Token} {rest after : List Char} {line : Nat}

/-- The image of a text of which `rest` has not been read. -/
def resume (p : Progress) (rest : List Char) (line : Nat) : Except Error Image := do
  let scan := Scan.go rest line []
  let p ← scan.tokens.foldlM Progress.feed p
  p.finish scan.unclosed

/-- At the end of the text, assembly finishes. -/
theorem resume_of_done (h : next rest line = .done) : p.resume rest line = p.finish none := by
  rw [resume, Scan.go_of_done h]
  rfl

/-- At a quote that is left open, assembly ends with the error. -/
theorem resume_of_unclosed {start : Nat} (h : next rest line = .unclosed start) :
    p.resume rest line = .error (.unterminatedString start) := by
  rw [resume, Scan.go_of_unclosed h]
  rfl

/-- In front of a token, assembly is fed with it and goes on behind it. -/
theorem resume_of_token (h : next rest line = .token t after) :
    p.resume rest line = p.feed t >>= fun p' => p'.resume after t.line := by
  rw [resume, Scan.go_of_token h, Scan.go_found]
  simp only [List.reverse_singleton, List.singleton_append, List.foldlM_cons, bind_assoc]
  rfl

/-- Assembly of a token and of what follows it. -/
def proceed (p : Progress) (t : Token) (after : List Char) : Except Error Image :=
  p.feed t >>= fun p => p.resume after t.line

/-- A token that is expected adds its items and says what is expected next. -/
theorem proceed_of_read {items : List Item} {e : Expect} (h : p.expect.read t = .ok (items, e)) :
    p.proceed t after = items.foldlM (Layout.add t.line) p.layout >>= fun l =>
      resume ⟨e, l, t.line⟩ after t.line := by
  simp only [proceed, feed, h, bind_assoc, pure_bind]
  rfl

/-- A token that is not expected ends assembly. -/
theorem proceed_of_read_error {err : Error} (h : p.expect.read t = .error err) :
    p.proceed t after = .error err := by
  simp only [proceed, feed, h]
  rfl

end Progress

/-! ## Statements -/

namespace RawAssembler

variable {text : String} {a b : RawAssembler} {t : Token} {rest after : List Char} {n : Nat}

/-- The image of a text of which a rest has not been read. -/
def resume (text : String) (a : RawAssembler) : Except Halt Image := do
  let a ← run text a
  a.layout.rawImage

/-- How far assembly has come, if it expects something of the next token. -/
def progress (a : RawAssembler) (e : Expect) : Progress := ⟨e, a.layout, a.line⟩

/-- The assembler stands in front of `rest`, and its layout is one of items. -/
structure Stands (text : String) (a : RawAssembler) (rest : List Char) : Prop where
  lexer_at : a.lexer.At text rest
  lays : ∃ items, Lays a.layout items

/-- The assembler has just read a token, and stands in front of what follows it. -/
structure Behind (text : String) (a : RawAssembler) (t : Token) (after : List Char) : Prop
    extends Stands text a after where
  line_eq : a.line = t.line
  lexer_line : a.lexer.line = t.line
  closed : t.Closed

/-- Checked assembly is assembly, while fewer than `n` characters are left between statements. -/
def Agrees (text : String) (n : Nat) : Prop :=
  ∀ (a : RawAssembler) (rest : List Char), a.Stands text rest → rest.length < n →
    a.resume text = liftError ((a.progress (.statement a.area)).resume rest a.lexer.line)

/-- Behind a token, the layout may become another one of items, and the section may change. -/
theorem Behind.with_layout {l : Layout} {items : List (Token × Item)} (h : b.Behind text t after)
    (hl : Lays l items) (area : Area) : Behind text { b with area, layout := l } t after where
  lexer_at := h.lexer_at
  lays := ⟨items, hl⟩
  line_eq := h.line_eq
  lexer_line := h.lexer_line
  closed := h.closed

/-- Behind a token that ends a statement, checked assembly goes on as assembly does. -/
theorem Behind.resume_eq (h : b.Behind text t after) (hagree : Agrees text n)
    (hn : after.length < n) : b.resume text =
      liftError (Progress.resume ⟨.statement b.area, b.layout, t.line⟩ after t.line) := by
  rw [hagree b after h.toStands hn, h.lexer_line, progress, h.line_eq]

/-- The next token of the checked assembler is that of the text. -/
theorem nextToken_of_stands (h : a.Stands text rest) :
    (next rest a.lexer.line = .done ∧ a.nextToken text = .ok none) ∨
    (∃ line, next rest a.lexer.line = .unclosed line ∧
      a.nextToken text = .error (.error (.unterminatedString line))) ∨
    ∃ t after b, next rest a.lexer.line = .token t after ∧ a.nextToken text = .ok (some (t, b)) ∧
      b.Behind text t after ∧ b.area = a.area ∧ b.layout = a.layout := by
  unfold nextToken
  -- the lexer is at the end, at an open quote, or in front of a token
  rcases RawLexer.next_of_at h.lexer_at with ⟨hnext, hraw⟩ | ⟨line, hnext, hraw⟩ |
    ⟨t, after, y, hnext, hraw, hat, hline⟩
  · exact .inl ⟨hnext, by rw [hraw]; rfl⟩
  · exact .inr (.inl ⟨line, hnext, by rw [hraw]; rfl⟩)
  · exact .inr (.inr ⟨t, after, { a with lexer := y, line := t.line }, hnext, by rw [hraw]; rfl,
      ⟨⟨hat, h.lays⟩, rfl, hline, closed_of_next hnext⟩, rfl, rfl⟩)

/-- What a statement does with a token that it expects, it does with the next one of the text. -/
theorem expect_bind {what : Missing} {e : Expect} {f : Token × RawAssembler → Except Halt Image}
    (he : e.missing? = some what) (h : b.Behind text t rest)
    (hf : ∀ t' after c, after.length < rest.length → c.Behind text t' after → c.area = b.area →
      c.layout = b.layout → f (t', c) = liftError ((c.progress e).proceed t' after)) :
    b.expect text what >>= f = liftError (Progress.resume ⟨e, b.layout, t.line⟩ rest t.line) := by
  unfold expect
  rw [← h.lexer_line]
  rcases nextToken_of_stands h.toStands with ⟨hnext, hraw⟩ | ⟨line, hnext, hraw⟩ |
    ⟨t', after, c, hnext, hraw, hc, harea, hlayout⟩
  · -- the text ends, and the token that is missing is reported
    rw [hraw, Progress.resume_of_done hnext, h.lexer_line, ← h.line_eq]
    simp only [Progress.finish, he]
    rfl
  · -- a quote is left open
    rw [hraw, Progress.resume_of_unclosed hnext]
    rfl
  · rw [hraw, Progress.resume_of_token hnext, ← hlayout]
    exact hf t' after c (length_lt_of_next hnext) hc harea hlayout

/-- A directive, and what follows it. -/
theorem directive_bind (h : b.Behind text t after) (hagree : Agrees text n)
    (hn : after.length < n) (hdot : t.text.toList.head? = some '.') :
    directive b t >>= resume text =
      liftError ((b.progress (.statement b.area)).proceed t after) := by
  obtain ⟨items, hlays⟩ := h.lays
  have hread (area : Area) : (Expect.statement area).read t = Assembly.directive t := if_pos hdot
  unfold directive
  unfold Assembly.directive at hread
  by_cases hdata : t.text = ".data"
  · simp only [if_pos hdata] at hread ⊢
    rw [Progress.proceed_of_read (hread _)]
    exact (h.with_layout hlays .data).resume_eq hagree hn
  · by_cases hcode : t.text = ".code"
    · simp only [if_neg hdata, if_pos hcode] at hread ⊢
      rw [Progress.proceed_of_read (hread _)]
      exact (h.with_layout hlays .code).resume_eq hagree hn
    · simp only [if_neg hdata, if_neg hcode] at hread ⊢
      rw [Progress.proceed_of_read_error (hread _)]
      rfl

/-- A label is defined, and what follows it goes on with the layout that has it. -/
theorem define_bind {area : Area} {name : List Char} {f : RawAssembler → Except Halt Image}
    {g : Layout → Except Error Image} (h : b.Behind text t after)
    (hf : ∀ l, Behind text { b with layout := l } t after → f { b with layout := l } =
      liftError (g l)) :
    b.define t area name >>= f = liftError
      ([Item.label area (String.ofList name)].foldlM (Layout.add t.line) b.layout >>= g) := by
  obtain ⟨items, hlays⟩ := h.lays
  have hadd : [Item.label area (String.ofList name)].foldlM (Layout.add t.line) b.layout =
      b.layout.addLabel t.line area (String.ofList name) := bind_pure _
  rw [hadd, define, bind_assoc]
  refine liftError_bind_eq fun l hl => ?_
  have hl' : b.layout.add t.line (.label area (String.ofList name)) = .ok l := hl
  exact hf l (h.with_layout (lays_of_add hlays hl') b.area)

/-! ## Data entries -/

/-- While words are missing, a turn of the loop takes a token and counts its words. -/
theorem dataItems_of_pos {missing : Int} (h : 0 < missing) : dataItems text a missing =
    a.expect text .dataItem >>= fun found => rawWords found.1 >>= fun words =>
      Layout.rawWords found.1.line words found.2.layout missing >>= fun added =>
        dataItems text { found.2 with layout := added.1 } added.2 := by
  rw [dataItems, if_neg (by omega)]
  split
  · rename_i e hexpect
    rw [hexpect]
    rfl
  · rename_i t b hexpect
    rw [hexpect]
    rfl

/-- The items of a data entry, and what follows them. The count goes down to zero or below, or the
text ends before. -/
theorem dataItems_bind {missing : Int} (hagree : Agrees text n) (h : b.Behind text t rest)
    (hn : rest.length < n) (harea : b.area = .data) :
    dataItems text b missing >>= resume text =
      liftError (Progress.resume ⟨.items missing.toNat, b.layout, t.line⟩ rest t.line) := by
  induction hlen : rest.length using Nat.strongRecOn generalizing b t rest missing with
  | ind len ih =>
    by_cases hpos : 0 < missing
    · -- words are missing: one more item, and the others by induction
      rw [items_of_pos (by omega), dataItems_of_pos hpos, bind_assoc]
      refine expect_bind rfl h fun t' after c hafter hc hcarea _ => ?_
      obtain ⟨items, hlays⟩ := hc.lays
      have hread := read_dataItem missing.toNat t'
      rw [rawWords_eq hc.closed]
      cases hwords : (if t'.isQuoted then literalWords t' else (wordOf t').map ([·])) with
      | error e =>
        rw [hwords] at hread
        rw [Progress.proceed_of_read_error hread]
        rfl
      | ok words =>
        rw [hwords] at hread
        have hcount : (missing - words.length).toNat = missing.toNat - words.length := by omega
        have hsize := hlays.dataSize_le
        -- the counter is positive here, so that it has the whole range below it
        have hroom : segmentSize - 2 ^ 63 ≤ missing + c.layout.data.size := by
          have hsegment : (segmentSize : Int) < 2 ^ 63 := by decide
          omega
        rw [Progress.proceed_of_read hread]
        show (Layout.rawWords t'.line words c.layout missing >>= fun added =>
          dataItems text { c with layout := added.1 } added.2) >>= resume text = _
        rw [Layout.rawWords_eq hsize hroom, bind_assoc, bind_assoc]
        refine liftError_bind_eq fun l hl => ?_
        have hl' : Behind text { c with layout := l } t' after :=
          hc.with_layout (lays_of_adds hlays hl) c.area
        rw [← hcount]
        exact ih after.length (by omega) hl' (by omega) (hcarea.trans harea) rfl
    · -- no words are missing: the entry is over
      have hzero : missing.toNat = 0 := by omega
      rw [dataItems, if_pos (by omega), hzero]
      have hresume := h.resume_eq hagree hn
      rw [harea] at hresume
      exact hresume

/-- A count that is no number without a minus sign is refused. -/
theorem read_wordCount_of_not_nat (h : ∀ n : Nat, number? t.text ≠ some (Int.ofNat n)) :
    Expect.wordCount.read t = .error (.badNumber t.line t.text) := by
  cases hnum : number? t.text with
  | none => simp only [Expect.read, hnum]
  | some v =>
    cases v with
    | ofNat m => exact absurd hnum (h m)
    | negSucc m => simp only [Expect.read, hnum]

/-- A data entry, and what follows it. -/
theorem dataEntry_bind (h : b.Behind text t after) (hagree : Agrees text n)
    (hn : after.length < n) (harea : b.area = .data) (hdot : t.text.toList.head? ≠ some '.') :
    dataEntry text b t >>= resume text =
      liftError ((b.progress (.statement b.area)).proceed t after) := by
  have hread : (Expect.statement b.area).read t =
      if entryName t = [] ∨ t.isQuoted then .error (.unknownMnemonic t.line t.text)
      else .ok ([.label .data (String.ofList (entryName t))], .wordCount) := by
    rw [harea, read_statement, if_neg hdot]
    rfl
  unfold dataEntry
  by_cases hname : entryName t = [] ∨ t.isQuoted
  · rw [if_pos hname] at hread ⊢
    rw [Progress.proceed_of_read_error hread]
    rfl
  · rw [if_neg hname] at hread ⊢
    rw [Progress.proceed_of_read hread, bind_assoc]
    -- the name, then the count, then the items
    refine define_bind h fun l hl => ?_
    rw [bind_assoc]
    refine expect_bind rfl hl fun count rest c hrest hc hcarea _ => ?_
    show (rawCount count >>= dataItems text c) >>= resume text = _
    by_cases hnat : ∃ m : Nat, number? count.text = some (Int.ofNat m)
    · obtain ⟨m, hm⟩ := hnat
      have hcount : Expect.wordCount.read count = .ok ([], .items m) := by
        simp only [Expect.read, hm]
      rw [Progress.proceed_of_read hcount, rawCount_of_nat hm]
      exact dataItems_bind hagree hc (hrest.trans hn) (hcarea.trans harea)
    · have hbad : ∀ m : Nat, number? count.text ≠ some (Int.ofNat m) := not_exists.1 hnat
      rw [Progress.proceed_of_read_error (read_wordCount_of_not_nat hbad),
        rawCount_of_not_nat hbad]
      rfl

/-! ## Instructions -/

/-- Adding a byte as the only item. -/
theorem foldlM_add_byte (line : Nat) (l : Layout) (b : UInt8) :
    [Item.byte b].foldlM (Layout.add line) l = l.addByte line b := bind_pure _

/-- Adding two bytes as the only items. -/
theorem foldlM_add_bytes (line : Nat) (l : Layout) (b b' : UInt8) :
    [Item.byte b, Item.byte b'].foldlM (Layout.add line) l =
      l.addByte line b >>= fun l => l.addByte line b' := by
  rw [List.foldlM_cons]
  simp only [foldlM_add_byte]
  rfl

/-- A reference as the only item: it is recorded, and two zero bytes are added. -/
theorem foldlM_add_reference (line : Nat) (l : Layout) (name : String) :
    [Item.reference name].foldlM (Layout.add line) l =
      { l with references := l.references.push ⟨l.code.size, name, line⟩ }.addByte line
        (Word.high 0) >>= fun l => l.addByte line (Word.low 0) := by
  rw [high_zero, low_zero]
  exact bind_pure _

/-- The two bytes behind a push, and what follows them. The items are those that the bytes are
laid out for. -/
theorem rawBytes_bind {l : Layout} {more : List Item} {hi lo : UInt8} (h : b.Behind text t after)
    (hagree : Agrees text n) (hn : after.length < n) (hsize : l.code.size ≤ segmentSize)
    (hmore : more.foldlM (Layout.add t.line) b.layout =
      l.addByte t.line hi >>= fun l => l.addByte t.line lo) :
    ((l.rawByte t.line hi >>= fun l => l.rawByte t.line lo) >>= fun l =>
        resume text { b with layout := l }) =
      liftError (more.foldlM (Layout.add t.line) b.layout >>= fun l =>
        Progress.resume ⟨.statement b.area, l, t.line⟩ after t.line) := by
  obtain ⟨items, hlays⟩ := h.lays
  rw [Layout.rawBytes_eq hsize, ← hmore]
  refine liftError_bind_eq fun l' hl' => ?_
  exact (h.with_layout (lays_of_adds hlays hl') b.area).resume_eq hagree hn

/-- The operand of a push, and what follows it. -/
theorem operand_bind (h : b.Behind text t after) (hagree : Agrees text n) (hn : after.length < n)
    (harea : b.area = .code) :
    (operand b.layout t >>= fun found => (found.2.rawByte t.line (Word.high found.1) >>= fun l =>
        l.rawByte t.line (Word.low found.1)) >>= fun l => resume text { b with layout := l }) =
      liftError ((b.progress .operand).proceed t after) := by
  obtain ⟨items, hlays⟩ := h.lays
  by_cases hcolon : ∃ name, t.text.toList = ':' :: name
  · -- a label: room for its address
    obtain ⟨name, hname⟩ := hcolon
    have hread : Expect.operand.read t =
        .ok ([.reference (String.ofList name)], .statement b.area) := by
      simp only [Expect.read, pushOperand, hname, harea]
    let room : Reference := ⟨b.layout.code.size, String.ofList name, t.line⟩
    have hfound : operand b.layout t =
        .ok (0, { b.layout with references := b.layout.references.push room }) := by
      simp only [operand, hname]
      rfl
    rw [Progress.proceed_of_read hread, hfound]
    exact rawBytes_bind h hagree hn hlays.codeSize_le (foldlM_add_reference _ _ _)
  · -- a number: its two bytes
    have hfound : operand b.layout t = rawWord t >>= fun w => .ok (w, b.layout) := by
      unfold operand
      split
      · exact absurd ⟨_, ‹_›⟩ hcolon
      · rfl
    have hread : Expect.operand.read t = wordOf t >>= fun w =>
        .ok ([.byte (Word.high w), .byte (Word.low w)], .statement b.area) := by
      simp only [Expect.read, pushOperand, harea]
      split
      · exact absurd ⟨_, ‹_›⟩ hcolon
      · rfl
    rw [hfound, rawWord_eq]
    cases hword : wordOf t with
    | error e =>
      rw [hword] at hread
      rw [Progress.proceed_of_read_error hread]
      rfl
    | ok w =>
      rw [hword] at hread
      rw [Progress.proceed_of_read hread]
      exact rawBytes_bind h hagree hn hlays.codeSize_le (foldlM_add_bytes _ _ _ _)

/-- A push, and what follows it. -/
theorem push_bind (h : b.Behind text t after) (hagree : Agrees text n) (hn : after.length < n)
    (harea : b.area = .code) (htext : t.text = Opcode.mnemonic .pushImm) :
    push text b t >>= resume text =
      liftError ((b.progress (.statement b.area)).proceed t after) := by
  obtain ⟨items, hlays⟩ := h.lays
  have hread : (Expect.statement b.area).read t =
      .ok ([.byte (Instruction.encode (.extended .pushImm))], .operand) := by
    rw [harea]
    exact (TokenStep.push htext).read_eq_ok
  rw [Progress.proceed_of_read hread, foldlM_add_byte, push, bind_assoc,
    Layout.rawByte_eq hlays.codeSize_le]
  refine liftError_bind_eq fun l hl => ?_
  have hadd : b.layout.add t.line (.byte (Instruction.encode (.extended .pushImm))) = .ok l := hl
  have hl' : Behind text { b with layout := l } t after :=
    h.with_layout (lays_of_add hlays hadd) b.area
  rw [bind_assoc]
  -- behind the opcode comes the operand
  refine expect_bind rfl hl' fun t' rest c hrest hc hcarea _ => ?_
  have hoperand := operand_bind hc hagree (hrest.trans hn) (hcarea.trans harea)
  rw [← hoperand]
  simp only [bind_assoc, pure_bind]

/-- An instruction without operand, and what follows it. -/
theorem emit_bind (h : b.Behind text t after) (hagree : Agrees text n) (hn : after.length < n)
    (harea : b.area = .code) (hdot : t.text.toList.head? ≠ some '.')
    (hcolon : ∀ name, t.text.toList ≠ ':' :: name) (htext : t.text ≠ Opcode.mnemonic .pushImm) :
    emit b t >>= resume text = liftError ((b.progress (.statement b.area)).proceed t after) := by
  obtain ⟨items, hlays⟩ := h.lays
  have hread : (Expect.statement b.area).read t = instructionOf t >>= fun i =>
      .ok ([.byte i.encode], if i = .extended .pushImm then .operand else .statement .code) := by
    rw [harea, read_statement, if_neg hdot]
    show Assembly.codeStatement t = _
    unfold Assembly.codeStatement
    split
    · exact absurd ‹_› (hcolon _)
    · rfl
  rw [emit, bind_assoc]
  cases hi : instructionOf t with
  | error e =>
    rw [hi] at hread
    rw [Progress.proceed_of_read_error hread]
    rfl
  | ok i =>
    -- an instruction that is no push expects nothing behind it
    have hpush : i ≠ .extended .pushImm := by
      rcases isInstruction_of_instructionOf hi with hinst | ⟨hpush, -⟩
      · exact hinst.ne_push
      · exact absurd hpush htext
    rw [hi, ← harea] at hread
    replace hread : (Expect.statement b.area).read t =
        .ok ([.byte i.encode], if i = .extended .pushImm then .operand else .statement b.area) :=
      hread
    rw [if_neg hpush] at hread
    rw [Progress.proceed_of_read hread, foldlM_add_byte]
    show (b.layout.rawByte t.line i.encode >>= fun layout => pure { b with layout }) >>=
      resume text = _
    rw [Layout.rawByte_eq hlays.codeSize_le, bind_assoc]
    refine liftError_bind_eq fun l hl => ?_
    have hadd : b.layout.add t.line (.byte i.encode) = .ok l := hl
    exact (h.with_layout (lays_of_add hlays hadd) b.area).resume_eq hagree hn

/-- A statement, and what follows it. -/
theorem statement_bind (h : b.Behind text t after) (hagree : Agrees text n)
    (hn : after.length < n) : statement text b t >>= resume text =
      liftError ((b.progress (.statement b.area)).proceed t after) := by
  unfold statement
  by_cases hdot : t.text.toList.head? = some '.'
  · rw [if_pos hdot]
    exact directive_bind h hagree hn hdot
  · rw [if_neg hdot]
    cases harea : b.area with
    | data =>
      have hentry := dataEntry_bind h hagree hn harea hdot
      rwa [harea] at hentry
    | code =>
      show codeStatement text b t >>= resume text = _
      rw [← harea]
      unfold codeStatement
      split
      · -- a label
        rename_i name hname
        have hread : (Expect.statement b.area).read t =
            .ok ([.label .code (String.ofList name)], .statement b.area) := by
          rw [harea]
          exact (TokenStep.label (text_eq_colon_append hname)).read_eq_ok
        rw [Progress.proceed_of_read hread]
        exact define_bind h fun l hl => hl.resume_eq hagree hn
      · -- an instruction, with an operand or without
        rename_i hcolon
        split
        · exact push_bind h hagree hn harea ‹_›
        · exact emit_bind h hagree hn harea hdot hcolon ‹_›

/-! ## Texts -/

/-- Between statements, a token is the first of a statement, and assembly goes on behind it. -/
theorem resume_of_token (h : a.nextToken text = .ok (some (t, b))) :
    a.resume text = statement text b t >>= resume text := by
  have hrun : run text a = statement text b t >>= run text := by
    rw [run]
    split
    · simp_all
    · simp_all
    · rename_i t' b' h'
      obtain ⟨rfl, rfl⟩ : t' = t ∧ b' = b := by simpa [h'] using h
      split <;> simp_all [bind, Except.bind]
  unfold resume
  rw [hrun, bind_assoc]

/-- Between statements, the end of the text leads to the image. -/
theorem resume_of_none (h : a.nextToken text = .ok none) :
    a.resume text = a.layout.rawImage := by
  have hrun : run text a = .ok a := by
    rw [run]
    split <;> simp_all
  rw [resume, hrun]
  rfl

/-- Where the lexer reports an error, assembly ends with it. -/
theorem resume_of_error {e : Halt} (h : a.nextToken text = .error e) :
    a.resume text = .error e := by
  have hrun : run text a = .error e := by
    rw [run]
    split <;> simp_all
  rw [resume, hrun]
  rfl

/-- Between statements, checked assembly is assembly. -/
theorem agrees (text : String) (n : Nat) : Agrees text n := by
  -- by induction on a bound of the characters that are left: a statement takes at least one
  induction n with
  | zero => exact fun a rest _ hn => absurd hn (Nat.not_lt_zero _)
  | succ n ih =>
    intro a rest h hn
    obtain ⟨items, hlays⟩ := h.lays
    rcases nextToken_of_stands h with ⟨hnext, hraw⟩ | ⟨line, hnext, hraw⟩ |
      ⟨t, after, b, hnext, hraw, hb, harea, hlayout⟩
    · rw [resume_of_none hraw, Progress.resume_of_done hnext, Layout.rawImage_eq hlays]
      rfl
    · rw [resume_of_error hraw, Progress.resume_of_unclosed hnext]
      rfl
    · have hlt := length_lt_of_next hnext
      rw [resume_of_token hraw, Progress.resume_of_token hnext, statement_bind hb ih (by omega),
        harea]
      simp only [progress, hlayout]
      rfl

/-- Checked assembly of a text is assembly of the text. -/
theorem assemble_eq (text : String) : assemble text = liftError (Assembly.assemble text) :=
  agrees text (text.toList.length + 1) start text.toList
    ⟨RawLexer.at_start text, [], lays_empty⟩ (Nat.lt_succ_self _)

end RawAssembler

end WordMachine.Assembly

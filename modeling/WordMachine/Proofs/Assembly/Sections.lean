import WordMachine.Proofs.Assembly.Lines
import WordMachine.Proofs.Assembly.Reference

/-!
# Sections in any order

Data and code do not wait for each other. A statement adds to its own section only, and the address
of a name counts what its own section holds before it. So a program is laid out by its two parts,
the statements of the data section and those of the code section, whatever the order in which the
two are written: programs with the same parts can be laid out alike (`SameParts.sound`) and have the
same image (`SameParts.image_eq`). Their symbol tables hold the same names with the same addresses
in another order, which makes no difference because no name is defined twice (`lookup_of_perm`).

A text made of chunks, each of which stands in one section from its directive to its end, can
therefore be written with its chunks in any order that keeps those of one section in theirs:
`chunks_interleave`.
-/

namespace WordMachine.Assembly

/-! ## The two parts of a program -/

/-- The section that a statement adds to. -/
def Statement.area? : Statement → Option Area
  | .directive _ => none
  | .entry _ _ _ => some .data
  | .label _ | .push _ | .instruction _ => some .code

namespace Statement

variable {s : Statement}

/-- Statements outside of the code section emit no code. -/
theorem code_of_area?_ne (h : s.area? ≠ some .code) (address : String → Word) :
    s.code address = [] := by
  cases s with
  | directive _ | entry _ _ _ => rfl
  | label _ | push _ | instruction _ => exact absurd rfl h

/-- Statements outside of the data section emit no data. -/
theorem data_of_area?_ne (h : s.area? ≠ some .data) : s.data = [] := by
  cases s with
  | directive _ | label _ | push _ | instruction _ => rfl
  | entry _ _ _ => exact absurd rfl h

/-- Statements outside of the code section refer to no name. -/
theorem references_of_area?_ne (h : s.area? ≠ some .code) : s.references = [] := by
  cases s with
  | directive _ | entry _ _ _ => rfl
  | label _ | push _ | instruction _ => exact absurd rfl h

end Statement

/-- In a table in which no name stands twice, a name is found with the number it stands with. -/
theorem lookup_eq_some_iff_mem {l : List (String × Nat)} (h : (l.map Prod.fst).Nodup)
    {name : String} {n : Nat} : l.lookup name = some n ↔ (name, n) ∈ l := by
  rw [List.lookup_eq_some_iff]
  constructor
  · rintro ⟨l₁, l₂, rfl, -⟩
    simp
  · intro hmem
    obtain ⟨l₁, l₂, rfl⟩ := List.append_of_mem hmem
    refine ⟨l₁, l₂, rfl, fun entry hentry => ?_⟩
    -- what stands in front has another name
    rw [List.map_append, List.map_cons, List.nodup_append] at h
    simpa using (h.2.2 _ (List.mem_map_of_mem hentry) name (by simp)).symm

/-- A table in which no name stands twice gives the same in every order. -/
theorem lookup_of_perm {l l' : List (String × Nat)} (h : l.Perm l')
    (hnodup : (l.map Prod.fst).Nodup) (name : String) : l.lookup name = l'.lookup name := by
  have hnodup' : (l'.map Prod.fst).Nodup := (h.map Prod.fst).nodup_iff.1 hnodup
  apply Option.ext
  intro n
  rw [lookup_eq_some_iff_mem hnodup, lookup_eq_some_iff_mem hnodup', h.mem_iff]

namespace Program

/-- The statements of one section, in their order. -/
def part (p : Program) (area : Area) : Program := p.filter fun s => s.area? = some area

/-- What only the statements of one section have is found in their part. -/
theorem flatMap_part {β : Type} {f : Statement → List β} {area : Area}
    (h : ∀ s, s.area? ≠ some area → f s = []) (p : Program) :
    (p.part area).flatMap f = p.flatMap f := by
  -- statement by statement: one of the section stays, another one has nothing
  induction p with
  | nil => rfl
  | cons s p ih =>
    by_cases hs : s.area? = some area
    · have hpart : part (s :: p) area = s :: part p area :=
        List.filter_cons_of_pos (by simpa using hs)
      rw [hpart, List.flatMap_cons, List.flatMap_cons, ih]
    · have hpart : part (s :: p) area = part p area := List.filter_cons_of_neg (by simpa using hs)
      rw [hpart, List.flatMap_cons, h s hs, ih, List.nil_append]

/-- The symbol table holds the names of the two parts. The address of a name counts its own section
only, so in front of the code part any amount of data may stand, and any amount of code in front of
the data part. -/
theorem symbolsFrom_perm_parts (code data code' data' : Nat) (p : Program) :
    (symbolsFrom code data p).Perm
      (symbolsFrom code data' (p.part .code) ++ symbolsFrom code' data (p.part .data)) := by
  -- the counters in front vary, since each statement moves those of its own section
  induction p generalizing code data code' data' with
  | nil => exact .nil
  | cons s p ih =>
    cases s with
    | directive area => exact ih code data code' data'
    | entry name count items =>
      -- the entry moves behind the names of the code part
      exact ((ih code (data + (wordsOf items).length) code' data').cons (name, data)).trans
        List.perm_middle.symm
    | label name => exact (ih code data code' data').cons (name, code)
    | push operand => exact ih (code + 3) data code' data'
    | instruction i => exact ih (code + 1) data code' data'

/-- Two programs have the same statements in each section, in the same order. -/
def SameParts (p q : Program) : Prop := ∀ area, p.part area = q.part area

namespace SameParts

variable {p q : Program}

/-- What only the statements of one section have is the same. -/
theorem flatMap_eq {β : Type} (h : SameParts p q) (area : Area) {f : Statement → List β}
    (hf : ∀ s : Statement, s.area? ≠ some area → f s = []) : p.flatMap f = q.flatMap f := by
  rw [← flatMap_part hf p, ← flatMap_part hf q, h area]

/-- The code is the same, for the same addresses. -/
theorem code_eq (h : SameParts p q) (address : String → Word) :
    p.flatMap (Statement.code address) = q.flatMap (Statement.code address) :=
  h.flatMap_eq .code fun _ hs => Statement.code_of_area?_ne hs address

/-- The data is the same. -/
theorem data_eq (h : SameParts p q) : p.data = q.data :=
  h.flatMap_eq .data fun _ => Statement.data_of_area?_ne

/-- The references are the same. -/
theorem references_eq (h : SameParts p q) : p.references = q.references :=
  h.flatMap_eq .code fun _ => Statement.references_of_area?_ne

/-- The code takes the same room. -/
theorem codeSize_eq (h : SameParts p q) : p.codeSize = q.codeSize := by
  -- the number of bytes does not depend on the addresses that they hold
  have hlength (p : Program) :
      (p.flatMap (Statement.code fun _ => 0)).length = p.codeSize := by
    rw [List.length_flatMap, codeSize]
    simp only [length_code_statement]
  rw [← hlength p, ← hlength q, h.code_eq]

/-- The data takes the same room. -/
theorem dataSize_eq (h : SameParts p q) : p.dataSize = q.dataSize := by
  have hlength (p : Program) : p.data.length = p.dataSize := by
    rw [data, List.length_flatMap, dataSize]
    simp only [length_data_statement]
  rw [← hlength p, ← hlength q, h.data_eq]

/-- The symbol tables are the same apart from their order. -/
theorem symbols_perm (h : SameParts p q) : p.symbols.Perm q.symbols := by
  have hp := symbolsFrom_perm_parts 0 0 0 0 p
  rw [h .code, h .data] at hp
  exact hp.trans (symbolsFrom_perm_parts 0 0 0 0 q).symm

/-- The names are the same apart from their order. -/
theorem names_perm (h : SameParts p q) : p.names.Perm q.names := h.symbols_perm.map Prod.fst

/-- Names have the same addresses, if none is defined twice. -/
theorem address_eq (h : SameParts p q) (hnodup : p.names.Nodup) : p.address = q.address := by
  funext name
  rw [address, address, lookup_of_perm h.symbols_perm hnodup]

/-- Programs with the same parts can be laid out alike. -/
theorem sound (h : SameParts p q) (hp : p.Sound) : q.Sound where
  names_nodup := h.names_perm.nodup_iff.1 hp.names_nodup
  references_defined name hname := by
    rw [← h.references_eq] at hname
    exact h.names_perm.mem_iff.1 (hp.references_defined name hname)
  codeSize_le := h.codeSize_eq ▸ hp.codeSize_le
  dataSize_le := h.dataSize_eq ▸ hp.dataSize_le

/-- Programs with the same parts have the same image, if no name is defined twice. -/
theorem image_eq (h : SameParts p q) (hnodup : p.names.Nodup) : p.image = q.image := by
  have hcode : p.code = q.code := by rw [code, code, h.address_eq hnodup, h.code_eq]
  rw [image, image, hcode, h.data_eq]

end SameParts

end Program

/-! ## Parsing piece by piece -/

section Texts

variable {t t' : Token} (h : t.text = t'.text)
include h

/-- Whether a token names an entry depends on its text only. -/
theorem IsEntryName.of_text {name : String} (hname : IsEntryName t name) : IsEntryName t' name := by
  cases hname with
  | colon htext hne => exact .colon (h ▸ htext) hne
  | bare htext hcolon hquote hdot =>
    rw [h] at htext ⊢
    exact .bare htext hcolon hquote hdot

/-- So does what item it is. -/
theorem IsDatum.of_text {d : Datum} (hd : IsDatum t d) : IsDatum t' d := by
  cases hd with
  | number hnum hfit => exact .number (h ▸ hnum) hfit
  | text htext hchars => exact .text (h ▸ htext) hchars

/-- So does what operand it is. -/
theorem IsOperand.of_text {operand : Operand} (ho : IsOperand t operand) :
    IsOperand t' operand := by
  cases ho with
  | number hnum hfit => exact .number (h ▸ hnum) hfit
  | label htext => exact .label (h ▸ htext)

/-- So does what instruction it is. -/
theorem IsInstruction.of_text {i : Instruction} (hi : IsInstruction t i) : IsInstruction t' i := by
  cases hi with
  | extended htext hop => exact .extended (h ▸ htext) hop
  | register htext hreg => exact .register (h ▸ htext) hreg

end Texts

/-- Tokens with the same texts are the same items. -/
theorem forall₂_isDatum_of_texts {its its' : List Token} {items : List Datum}
    (h : List.Forall₂ IsDatum its items) (htexts : its'.map Token.text = its.map Token.text) :
    List.Forall₂ IsDatum its' items := by
  induction h generalizing its' with
  | nil =>
    obtain rfl : its' = [] := by simpa using htexts
    exact .nil
  | cons hd _ ih =>
    obtain ⟨t', its'', rfl, ht, hits⟩ := List.map_eq_cons_iff.1 htexts
    exact .cons (hd.of_text ht.symm) (ih hits)

/-- What tokens spell depends on their texts only. -/
theorem Parses.of_texts {area : Area} {ts ts' : List Token} {p : Program} (h : Parses area ts p)
    (htexts : ts'.map Token.text = ts.map Token.text) : Parses area ts' p := by
  -- by induction on how the program is spelled; each rule looks at the texts of the tokens it takes
  induction h generalizing ts' with
  | done =>
    obtain rfl : ts' = [] := by simpa using htexts
    exact .done
  | directive htext _ ih =>
    obtain ⟨t', rest, rfl, ht, hrest⟩ := List.map_eq_cons_iff.1 htexts
    exact .directive (ht.trans htext) (ih hrest)
  | entry hname hcount hits hfill _ ih =>
    -- an entry is its name, its count and its items, and then comes the rest
    obtain ⟨t', rest, rfl, ht, hrest⟩ := List.map_eq_cons_iff.1 htexts
    obtain ⟨c', rest, rfl, hc, hrest⟩ := List.map_eq_cons_iff.1 hrest
    rw [List.map_append] at hrest
    obtain ⟨its', rest, rfl, hits', hrest⟩ := List.map_eq_append_iff.1 hrest
    exact .entry (hname.of_text ht.symm) (hc ▸ hcount) (forall₂_isDatum_of_texts hits hits') hfill
      (ih hrest)
  | label htext _ ih =>
    obtain ⟨t', rest, rfl, ht, hrest⟩ := List.map_eq_cons_iff.1 htexts
    exact .label (ht.trans htext) (ih hrest)
  | push htext hoperand _ ih =>
    obtain ⟨t', rest, rfl, ht, hrest⟩ := List.map_eq_cons_iff.1 htexts
    obtain ⟨o', rest, rfl, ho, hrest⟩ := List.map_eq_cons_iff.1 hrest
    exact .push (ht.trans htext) (hoperand.of_text ho.symm) (ih hrest)
  | instruction hinst _ ih =>
    obtain ⟨t', rest, rfl, ht, hrest⟩ := List.map_eq_cons_iff.1 htexts
    exact .instruction (hinst.of_text ht.symm) (ih hrest)

/-- Tokens that spell a program, with tokens behind them that spell another one wherever they
stand. -/
theorem Parses.append {area : Area} {ts ts' : List Token} {p p' : Program} (h : Parses area ts p)
    (h' : ∀ area', Parses area' ts' p') : Parses area (ts ++ ts') (p ++ p') := by
  -- along the first program; what follows is spelled in whatever section it ends
  induction h with
  | done => exact h' _
  | directive htext _ ih => exact .directive htext ih
  | @entry name count items t c its ts p hname hcount hits hfill _ ih =>
    rw [List.cons_append, List.cons_append, List.append_assoc]
    exact .entry hname hcount hits hfill ih
  | label htext _ ih => exact .label htext ih
  | push htext hoperand _ ih => exact .push htext hoperand ih
  | instruction hinst _ ih => exact .instruction hinst ih

/-! ## Chunks -/

/-- A text that stands in one section: it starts with the directive of the section, and the tokens
behind it spell whole statements of the section. -/
structure Chunk where
  area : Area
  text : String
  spelled : ∃ (t : Token) (ts : List Token) (p : Program), (Scan.ofText text).tokens = t :: ts ∧
    t.text = area.directive ∧ Parses area ts p ∧ ∀ s ∈ p, s.area? = some area

namespace Chunk

/-- A chunk spells its directive and statements of its section, wherever it stands. -/
theorem exists_body (c : Chunk) : ∃ p : Program,
    (∀ area, Parses area (Scan.ofText c.text).tokens (.directive c.area :: p)) ∧
      ∀ s ∈ p, s.area? = some c.area := by
  obtain ⟨t, ts, p, htokens, htext, hparses, harea⟩ := c.spelled
  refine ⟨p, fun area => ?_, harea⟩
  rw [htokens]
  exact .directive htext hparses

/-- The statements behind the directive of a chunk. -/
noncomputable def body (c : Chunk) : Program := c.exists_body.choose

/-- What the tokens of a chunk spell. -/
theorem parses (c : Chunk) (area : Area) :
    Parses area (Scan.ofText c.text).tokens (.directive c.area :: c.body) :=
  c.exists_body.choose_spec.1 area

/-- A chunk adds all its statements to the part of its own section and none to the other. -/
theorem part_body (c : Chunk) (area : Area) :
    Program.part (.directive c.area :: c.body) area = if c.area = area then c.body else [] := by
  have harea : ∀ s ∈ c.body, s.area? = some c.area := c.exists_body.choose_spec.2
  have hpart : Program.part (.directive c.area :: c.body) area = Program.part c.body area := rfl
  rw [hpart, Program.part]
  split
  · rename_i h
    exact List.filter_eq_self.2 fun s hs => by simp [harea s hs, h]
  · rename_i h
    exact List.filter_eq_nil_iff.2 fun s hs => by simp [harea s hs, h]

end Chunk

/-- The text of chunks, joined by newlines. -/
def sourceOf (chunks : List Chunk) : String := "\n".intercalate (chunks.map Chunk.text)

/-- The program of chunks. -/
noncomputable def programOf (chunks : List Chunk) : Program :=
  chunks.flatMap fun c => .directive c.area :: c.body

/-- The part of a section is that of its chunks. -/
theorem part_programOf (chunks : List Chunk) (area : Area) :
    (programOf chunks).part area = (chunks.filter (·.area = area)).flatMap Chunk.body := by
  -- chunk by chunk
  induction chunks with
  | nil => rfl
  | cons c chunks ih =>
    have hcons : (programOf (c :: chunks)).part area =
        Program.part (.directive c.area :: c.body) area ++ (programOf chunks).part area :=
      List.filter_append _ _
    rw [hcons, c.part_body, ih]
    by_cases h : c.area = area <;> simp [h]

/-- The tokens of chunks, one chunk after the other, spell their program. -/
theorem parses_chunks (chunks : List Chunk) (area : Area) :
    Parses area (chunks.flatMap fun c => (Scan.ofText c.text).tokens) (programOf chunks) := by
  induction chunks generalizing area with
  | nil => exact .done
  | cons c chunks ih => exact (c.parses area).append ih

/-- The text of chunks spells their program. -/
theorem parses_sourceOf {chunks : List Chunk}
    (h : (Scan.ofText (sourceOf chunks)).unclosed = none) :
    Parses .data (Scan.ofText (sourceOf chunks)).tokens (programOf chunks) := by
  refine (parses_chunks chunks .data).of_texts ?_
  have htexts : Scan.texts (sourceOf chunks) = (chunks.map Chunk.text).flatMap Scan.texts :=
    Scan.texts_intercalate ((Scan.unclosed_intercalate _).1 h)
  rw [← Scan.texts, htexts, List.flatMap_map, List.map_flatMap]
  rfl

/-- Chunks that make up a program together do so in any order that keeps those of one section in
theirs, and the image is the same. So two neighbours of different sections can be exchanged. -/
theorem chunks_interleave {chunks : List Chunk} {img : Image}
    (h : assemble (sourceOf chunks) = .ok img) :
    (∀ front a b back, chunks = front ++ a :: b :: back → a.area ≠ b.area →
      assemble (sourceOf (front ++ b :: a :: back)) = .ok img) ∧
    ∀ chunks' : List Chunk,
      (∀ area, chunks'.filter (·.area = area) = chunks.filter (·.area = area)) →
        assemble (sourceOf chunks') = .ok img := by
  have hinterleave (chunks' : List Chunk)
      (hsame : ∀ area, chunks'.filter (·.area = area) = chunks.filter (·.area = area)) :
      assemble (sourceOf chunks') = .ok img := by
    have hclosed := (program_of_assemble h).1
    obtain ⟨hsound, rfl⟩ := image_of_parses h (parses_sourceOf hclosed)
    have hparts : (programOf chunks).SameParts (programOf chunks') := by
      intro area
      rw [part_programOf, part_programOf, hsame]
    -- the chunks are the same ones, so none of them leaves a quote open
    have hclosed' : (Scan.ofText (sourceOf chunks')).unclosed = none := by
      have hall := (Scan.unclosed_intercalate _).1 hclosed
      refine (Scan.unclosed_intercalate _).2 (List.forall_mem_map.2 fun c hc => ?_)
      have hmem : c ∈ chunks'.filter (·.area = c.area) := List.mem_filter.2 ⟨hc, by simp⟩
      rw [hsame] at hmem
      exact hall _ (List.mem_map_of_mem (List.mem_of_mem_filter hmem))
    rw [hparts.image_eq hsound.names_nodup]
    exact assemble_of_parses hclosed' (parses_sourceOf hclosed') (hparts.sound hsound)
  refine ⟨fun front a b back hchunks hne => hinterleave _ fun area => ?_, hinterleave⟩
  rw [hchunks, List.filter_append, List.filter_append]
  -- of two neighbours of different sections, each part sees one at most
  by_cases ha : a.area = area
  · have hb : b.area ≠ area := fun hb => hne (ha.trans hb.symm)
    simp [ha, hb]
  · simp [ha, List.filter_cons]

/-- A push in front of the entry that it names, behind it, and with other code in between. -/
theorem chunks_interleave_push :
    ∃ img, assemble ".code PI :v\n.data v 1 9\n.code LD HL" = .ok img ∧
      assemble ".data v 1 9\n.code PI :v\n.code LD HL" = .ok img ∧
      assemble ".code PI :v\n.code LD HL\n.data v 1 9" = .ok img := by
  have hone : number? "1" = some 1 := by decide
  have hnine : number? "9" = some 9 := by decide
  have hentry {ts : List Token} {p : Program} (line : Nat) (h : Parses .data ts p) :
      Parses .data (⟨"v", line⟩ :: ⟨"1", line⟩ :: ([⟨"9", line⟩] ++ ts))
        (.entry "v" 1 [.number 9] :: p) :=
    .entry (.bare (c := 'v') rfl (by decide) (by decide) (by decide)) hone
      (.cons (.number hnine ⟨by decide, by decide⟩) .nil) ⟨by decide, by decide⟩ h
  have hrest {ts : List Token} {p : Program} (line : Nat) (h : Parses .code ts p) :
      Parses .code (⟨"LD", line⟩ :: ⟨"HL", line⟩ :: ts)
        (.instruction (.extended .load) :: .instruction (.extended .halt) :: p) :=
    .instruction (.extended rfl (by decide)) (.instruction (.extended rfl (by decide)) h)
  -- the three chunks, with what their tokens spell
  let push : Chunk := ⟨.code, ".code PI :v", ⟨".code", 1⟩, [⟨"PI", 1⟩, ⟨":v", 1⟩],
    [.push (.label "v")], by decide +kernel, rfl, .push rfl (.label rfl) .done,
    by simp [Statement.area?]⟩
  let entry : Chunk := ⟨.data, ".data v 1 9", ⟨".data", 1⟩, [⟨"v", 1⟩, ⟨"1", 1⟩, ⟨"9", 1⟩],
    [.entry "v" 1 [.number 9]], by decide +kernel, rfl, hentry 1 .done, by simp [Statement.area?]⟩
  let rest : Chunk := ⟨.code, ".code LD HL", ⟨".code", 1⟩, [⟨"LD", 1⟩, ⟨"HL", 1⟩],
    [.instruction (.extended .load), .instruction (.extended .halt)], by decide +kernel, rfl,
    hrest 1 .done, by simp [Statement.area?]⟩
  let p : Program := [.directive .code, .push (.label "v"), .directive .data,
    .entry "v" 1 [.number 9], .directive .code, .instruction (.extended .load),
    .instruction (.extended .halt)]
  have htokens : (Scan.ofText ".code PI :v\n.data v 1 9\n.code LD HL").tokens =
      [⟨".code", 1⟩, ⟨"PI", 1⟩, ⟨":v", 1⟩, ⟨".data", 2⟩, ⟨"v", 2⟩, ⟨"1", 2⟩, ⟨"9", 2⟩,
        ⟨".code", 3⟩, ⟨"LD", 3⟩, ⟨"HL", 3⟩] := by decide +kernel
  have hparses : Parses .data (Scan.ofText ".code PI :v\n.data v 1 9\n.code LD HL").tokens p := by
    rw [htokens]
    exact .directive rfl (.push rfl (.label rfl) (.directive rfl (hentry 2 (.directive rfl
      (hrest 3 .done)))))
  have hsound : p.Sound := by
    have hnames : p.names = ["v"] := rfl
    have hreferences : p.references = ["v"] := rfl
    exact ⟨by rw [hnames]; simp, by rw [hreferences, hnames]; simp, by decide, by decide⟩
  have hclosed : (Scan.ofText ".code PI :v\n.data v 1 9\n.code LD HL").unclosed = none := by
    decide +kernel
  have himg : assemble (sourceOf [push, entry, rest]) = .ok p.image :=
    assemble_of_parses hclosed hparses hsound
  obtain ⟨hswap, hinterleave⟩ := chunks_interleave himg
  refine ⟨p.image, himg, hswap [] push entry [rest] rfl nofun, ?_⟩
  exact hinterleave [push, rest, entry] fun area => by cases area <;> rfl

end WordMachine.Assembly

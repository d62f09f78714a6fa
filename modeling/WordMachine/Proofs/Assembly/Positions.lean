import Mathlib.Tactic.Tauto
import WordMachine.Proofs.Assembly.Execution
import WordMachine.Proofs.Assembly.Sections

/-!
# Labels at the end of a full segment

A name stands behind the cells that its section holds before its definition, and a push of the name
has room for 16 bits of that number. A section holds at most 65536 cells, so the number fits
whenever a cell follows the definition. It does not fit for a name that is defined behind the last
cell of a full segment: nothing is placed there, so nothing overflows, and the push gets 0 in place
of 65536. `operand_exact_iff` says that this is the only case.
-/

namespace WordMachine

/-- The word behind the instruction at an address. -/
def Image.operandAt (img : Image) (a : Word) : Word :=
  Word.ofBytes (img.code.get (a + 1)) (img.code.get (a + 2))

namespace Assembly

/-! ## Where names are defined -/

/-- A statement defines a name in a section. -/
inductive Statement.Defines (name : String) : Statement → Area → Prop where
  | entry {count : Nat} {items : List Datum} : Defines name (.entry name count items) .data
  | label : Defines name (.label name) .code

/-- The number of cells that a statement fills in a section. -/
def Statement.extent (s : Statement) : Area → Nat
  | .data => s.dataSize
  | .code => s.codeSize

namespace Program

/-- The number of cells that a program fills in a section. -/
def extent (p : Program) : Area → Nat
  | .data => p.dataSize
  | .code => p.codeSize

/-- A program defines a name behind `position` cells of the section of the name. -/
def DefinesAt (p : Program) (name : String) (position : Nat) : Prop :=
  ∃ (before : Program) (s : Statement) (after : Program) (area : Area),
    p = before ++ s :: after ∧ s.Defines name area ∧ before.extent area = position

variable {p : Program} {name : String} {n position : Nat}

/-- Programs one after the other fill the sum of their cells. -/
theorem extent_append (p q : Program) (area : Area) :
    extent (p ++ q) area = p.extent area + q.extent area := by
  cases area <;> simp [extent, dataSize, codeSize]

/-- The first statement fills its own cells. -/
theorem extent_cons (s : Statement) (p : Program) (area : Area) :
    extent (s :: p) area = s.extent area + p.extent area := by
  cases area <;> simp [extent, Statement.extent, dataSize, codeSize]

/-- A statement gives a name the number of cells in front, if it defines the name. -/
theorem mem_symbols_iff (front : Area → Nat) {s : Statement} :
    (name, n) ∈ s.symbols (front .code) (front .data) ↔
      ∃ area, s.Defines name area ∧ front area = n := by
  constructor
  · intro h
    cases s with
    | directive _ | push _ | instruction _ => cases h
    | entry name' count items =>
      obtain ⟨rfl, rfl⟩ := Prod.mk.inj (List.mem_singleton.1 h)
      exact ⟨.data, .entry, rfl⟩
    | label name' =>
      obtain ⟨rfl, rfl⟩ := Prod.mk.inj (List.mem_singleton.1 h)
      exact ⟨.code, .label, rfl⟩
  · rintro ⟨area, hdefines, rfl⟩
    cases hdefines with
    | entry | label => exact List.mem_singleton.2 rfl

/-- The symbol table gives a name the number of cells before its definition, counted from what
stands in front of the program. -/
theorem mem_symbolsFrom_iff (front : Area → Nat) :
    (name, n) ∈ symbolsFrom (front .code) (front .data) p ↔
      ∃ (before : Program) (s : Statement) (after : Program) (area : Area),
        p = before ++ s :: after ∧ s.Defines name area ∧ front area + before.extent area = n := by
  induction p generalizing front with
  | nil => simp [symbolsFrom]
  | cons s p ih =>
    -- the first statement stands in front of the others
    have hrest := ih fun area => front area + s.extent area
    rw [symbolsFrom, List.mem_append, mem_symbols_iff]
    refine (or_congr_right hrest).trans ?_
    constructor
    · rintro (⟨area, hdefines, rfl⟩ | ⟨before, s', after, area, rfl, hdefines, rfl⟩)
      · exact ⟨[], s, p, area, rfl, hdefines, by cases area <;> rfl⟩
      · exact ⟨s :: before, s', after, area, rfl, hdefines, by rw [extent_cons, Nat.add_assoc]⟩
    · rintro ⟨before, s', after, area, hsplit, hdefines, rfl⟩
      -- the first statement is the one, or it stands in front of it
      cases before with
      | nil =>
        obtain ⟨rfl, rfl⟩ := List.cons.inj hsplit
        exact .inl ⟨area, hdefines, by cases area <;> rfl⟩
      | cons s₀ before =>
        obtain ⟨rfl, rfl⟩ := List.cons.inj hsplit
        exact .inr ⟨before, s', after, area, rfl, hdefines, by rw [extent_cons s, Nat.add_assoc]⟩

/-- A name is defined behind the number of cells that the symbol table gives. -/
theorem definesAt_iff_mem : p.DefinesAt name position ↔ (name, position) ∈ p.symbols := by
  have h : (name, position) ∈ symbolsFrom 0 0 p ↔ _ := mem_symbolsFrom_iff fun _ => 0
  simp only [Nat.zero_add] at h
  exact h.symm

/-- In a program that can be laid out, a name stands behind no more cells than a segment has. -/
theorem Sound.position_le (h : p.Sound) (hat : p.DefinesAt name position) :
    position ≤ segmentSize := by
  obtain ⟨before, s, after, area, rfl, -, rfl⟩ := hat
  have hle : before.extent area ≤ extent (before ++ s :: after) area := by
    rw [extent_append]
    exact Nat.le_add_right _ _
  cases area with
  | data => exact Nat.le_trans hle h.dataSize_le
  | code => exact Nat.le_trans hle h.codeSize_le

/-- In a program that can be laid out, the table is looked up for the one definition. -/
theorem Sound.lookup_iff (h : p.Sound) :
    p.symbols.lookup name = some position ↔ p.DefinesAt name position := by
  rw [lookup_eq_some_iff_mem h.names_nodup, definesAt_iff_mem]

/-- A name that is referred to is defined at one place. -/
theorem Sound.exists_definesAt (h : p.Sound) (hname : name ∈ p.references) :
    ∃ position, p.DefinesAt name position ∧ ∀ n, p.DefinesAt name n → n = position := by
  obtain ⟨⟨_, position⟩, hmem, rfl⟩ := List.mem_map.1 (h.references_defined name hname)
  have hat : p.DefinesAt _ position := definesAt_iff_mem.2 hmem
  refine ⟨position, hat, fun n hn => ?_⟩
  exact Option.some.inj ((h.lookup_iff.2 hn).symm.trans (h.lookup_iff.2 hat))

/-- The address of a name is its position in 16 bits. -/
theorem Sound.address_eq (h : p.Sound) (hat : p.DefinesAt name position) :
    p.address name = UInt16.ofNat position := by
  rw [address, h.lookup_iff.2 hat]
  rfl

end Program

/-! ## The operand of a push -/

variable {p : Program} {name : String} {k position : Nat}

/-- The operand of a push of a name is the position of the name, as far as 16 bits hold it. -/
theorem Program.Sound.operandAt_offset (h : p.Sound)
    (hk : p.instructions[k]? = some (.push (.label name))) (hat : p.DefinesAt name position) :
    p.image.operandAt (UInt16.ofNat (p.offset k)) = UInt16.ofNat position := by
  let m : Machine := { Machine.ofImage p.image with ip := UInt16.ofNat (p.offset k) }
  have himmediate : m.immediate = p.address name := immediate_at_offset h.codeSize_le hk rfl rfl
  exact himmediate.trans (h.address_eq hat)

/-- In an assembled text, no name stands behind more than 65536 cells. The operand of a push of a
name is the number of cells before the one definition of the name, as far as 16 bits hold it: it is
that number unless the name stands at the end of a full segment, where it is 0. -/
theorem operand_exact_iff {text : String} {img : Image} {p : Program}
    (h : assemble text = .ok img) (hparses : Parses .data (Scan.ofText text).tokens p) :
    (∀ name position, p.DefinesAt name position → position ≤ segmentSize) ∧
    ∀ k name, p.instructions[k]? = some (.push (.label name)) →
      ∃ position, p.DefinesAt name position ∧ (∀ n, p.DefinesAt name n → n = position) ∧
        (img.operandAt (UInt16.ofNat (p.offset k))).toNat = position % segmentSize ∧
        ((img.operandAt (UInt16.ofNat (p.offset k))).toNat = position ↔
          position ≠ segmentSize) := by
  obtain ⟨hsound, rfl⟩ := image_of_parses h hparses
  refine ⟨fun name position => hsound.position_le, fun k name hk => ?_⟩
  have hname : name ∈ p.references := by
    have hmem : .push (.label name) ∈ p := List.mem_of_mem_filter (List.mem_of_getElem? hk)
    exact List.mem_flatMap.2 ⟨_, hmem, List.mem_singleton.2 rfl⟩
  obtain ⟨position, hat, hunique⟩ := hsound.exists_definesAt hname
  have hle : position ≤ 65536 := hsound.position_le hat
  have hmod : (UInt16.ofNat position).toNat = position % segmentSize := UInt16.toNat_ofNat'
  rw [hsound.operandAt_offset hk hat]
  refine ⟨position, hat, hunique, hmod, ?_⟩
  rw [hmod]
  -- 65536 is the one number up to it that 16 bits do not hold
  show position % 65536 = position ↔ position ≠ 65536
  omega

/-! ## A label behind the last byte -/

/-- A push of the label that follows it, behind `n` bytes of code. -/
def pushLast (n : Nat) : Program :=
  .directive .code :: (List.replicate n (.instruction (.extended .nop)) ++
    [.push (.label "e"), .label "e"])

/-- The lines that spell `pushLast`. -/
def pushLastLines (n : Nat) : List String :=
  ".code" :: (List.replicate n "NO" ++ ["PI :e", ":e"])

section PushLast

variable (n : Nat)

/-- The label stands behind the fill and the three bytes of the push. -/
theorem symbols_pushLast : (pushLast n).symbols = [("e", n + 3)] := by
  have hfill (code : Nat) (rest : Program) : Program.symbolsFrom code 0
      (List.replicate n (.instruction (.extended .nop)) ++ rest) =
        Program.symbolsFrom (code + n) 0 rest := by
    -- each `nop` is one byte and defines nothing
    induction n generalizing code with
    | zero => rfl
    | succ n ih =>
      have hstep := ih (code + 1)
      rw [Nat.add_assoc, Nat.add_comm 1] at hstep
      exact hstep
  have hsymbols := hfill 0 [.push (.label "e"), .label "e"]
  rw [Nat.zero_add] at hsymbols
  exact hsymbols

/-- The program defines its label there. -/
theorem definesAt_pushLast : (pushLast n).DefinesAt "e" (n + 3) := by
  rw [Program.definesAt_iff_mem, symbols_pushLast]
  exact List.mem_singleton.2 rfl

/-- The instructions are the fill and the push. -/
theorem instructions_pushLast : (pushLast n).instructions =
    List.replicate n (.instruction (.extended .nop)) ++ [.push (.label "e")] := by
  simp [pushLast, Program.instructions, Statement.instruction?]

/-- The push is the last of them. -/
theorem push_pushLast : (pushLast n).instructions[n]? = some (.push (.label "e")) := by
  simp [instructions_pushLast]

/-- It stands behind the fill. -/
theorem offset_pushLast : (pushLast n).offset n = n := by
  simp [Program.offset, instructions_pushLast, Statement.codeSize]

variable {n}

/-- The label may stand behind the last byte of the segment. -/
theorem sound_pushLast (h : n + 3 ≤ segmentSize) : (pushLast n).Sound where
  names_nodup := by simp [Program.names, symbols_pushLast]
  references_defined := by
    have hreferences : (pushLast n).references = ["e"] := by
      simp [Program.references, pushLast, Statement.references]
    simp [hreferences, Program.names, symbols_pushLast]
  codeSize_le := by simpa [Program.codeSize, pushLast, Statement.codeSize] using h
  dataSize_le := by simp [Program.dataSize, pushLast, Statement.dataSize]

variable (n)

/-- No line of the text leaves a quote open. -/
theorem closed_pushLastLines : ∀ line ∈ pushLastLines n, (Scan.ofText line).unclosed = none := by
  have hclosed : ∀ line ∈ [".code", "NO", "PI :e", ":e"], (Scan.ofText line).unclosed = none := by
    decide +kernel
  intro line hline
  apply hclosed line
  simp only [pushLastLines, List.mem_cons, List.mem_append, List.mem_replicate] at hline ⊢
  tauto

/-- The tokens of the text are those of its lines. -/
theorem texts_pushLastLines : Scan.texts ("\n".intercalate (pushLastLines n)) =
    ".code" :: (List.replicate n "NO" ++ ["PI", ":e", ":e"]) := by
  have hcode : Scan.texts ".code" = [".code"] := by decide +kernel
  have hnop : Scan.texts "NO" = ["NO"] := by decide +kernel
  have hpush : Scan.texts "PI :e" = ["PI", ":e"] := by decide +kernel
  have hlabel : Scan.texts ":e" = [":e"] := by decide +kernel
  rw [Scan.texts_intercalate (closed_pushLastLines n), pushLastLines]
  simp [hcode, hnop, hpush, hlabel, List.flatMap_replicate]

/-- The text spells the program. -/
theorem parses_pushLast :
    Parses .data (Scan.ofText ("\n".intercalate (pushLastLines n))).tokens (pushLast n) := by
  let ts : List Token := List.replicate n ⟨"NO", 0⟩ ++ [⟨"PI", 0⟩, ⟨":e", 0⟩, ⟨":e", 0⟩]
  have hcode : Parses .code ts (List.replicate n (.instruction (.extended .nop)) ++
      [.push (.label "e"), .label "e"]) := by
    -- one token for each `nop`
    induction n with
    | zero => exact .push rfl (.label rfl) (.label rfl .done)
    | succ n ih => exact .instruction (.extended rfl (by decide)) ih
  have hparses : Parses .data (⟨".code", 0⟩ :: ts) (pushLast n) := .directive rfl hcode
  refine hparses.of_texts ?_
  rw [← Scan.texts, texts_pushLastLines]
  simp [ts]

variable {n}

/-- The text is assembled, up to a label behind the last byte of the segment. -/
theorem assemble_pushLast (h : n + 3 ≤ segmentSize) :
    assemble ("\n".intercalate (pushLastLines n)) = .ok (pushLast n).image :=
  assemble_of_parses ((Scan.unclosed_intercalate _).2 (closed_pushLastLines n))
    (parses_pushLast n) (sound_pushLast h)

end PushLast

/-- The label behind the last but one byte of the segment is the last one that a push can name. -/
theorem operand_exact_iff_last :
    ∃ img, assemble ("\n".intercalate (pushLastLines 65532)) = .ok img ∧
      (pushLast 65532).DefinesAt "e" 65535 ∧ (img.operandAt 65532).toNat = 65535 := by
  have himg := assemble_pushLast (n := 65532) (by decide)
  refine ⟨_, himg, definesAt_pushLast 65532, ?_⟩
  obtain ⟨-, hoperand⟩ := operand_exact_iff himg (parses_pushLast 65532)
  obtain ⟨position, -, hunique, -, hiff⟩ := hoperand 65532 "e" (push_pushLast 65532)
  obtain rfl := hunique _ (definesAt_pushLast 65532)
  rw [offset_pushLast] at hiff
  exact hiff.2 (by decide)

/-- A label behind the last byte of the segment has the number 65536, and its push gets 0. -/
theorem operand_of_full_segment :
    ∃ img, assemble ("\n".intercalate (pushLastLines 65533)) = .ok img ∧
      Parses .data (Scan.ofText ("\n".intercalate (pushLastLines 65533))).tokens (pushLast 65533) ∧
      (pushLast 65533).instructions[65533]? = some (.push (.label "e")) ∧
      (pushLast 65533).DefinesAt "e" 65536 ∧ img.operandAt 65533 = 0 := by
  have hsize : 65533 + 3 ≤ segmentSize := by decide
  have hpush := push_pushLast 65533
  have hat := definesAt_pushLast 65533
  have hoperand := (sound_pushLast hsize).operandAt_offset hpush hat
  rw [offset_pushLast] at hoperand
  exact ⟨_, assemble_pushLast hsize, parses_pushLast 65533, hpush, hat, hoperand⟩

end Assembly

end WordMachine

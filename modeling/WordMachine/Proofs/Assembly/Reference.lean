import WordMachine.Proofs.Assembly.Provenance

/-!
# Assembling is laying out a program

`assemble` makes one pass over the tokens, emits as it goes and fills in addresses at the end.
`assemble_eq_ok_iff` says that it agrees with the layout that knows the symbol table first: a text
is assembled exactly if its tokens spell a program that can be laid out, and then the image is that
of the program.

The pass is followed token by token. Its position is that of a run of `Reads`, and its layout holds
the items read so far (`lays_of_feeds`), so at the end of the text both are those of the whole
program.
-/

namespace WordMachine.Assembly

/-! ## Programs and their items -/

section Items

variable (p : Program)

/-- Words emit no code. -/
theorem codeOf_words (address : String → Word) (ws : List Word) :
    codeOf address (ws.map .word) = [] := by
  simp [codeOf, Item.code]

/-- Words are their own data. -/
theorem dataOf_words (ws : List Word) : dataOf (ws.map .word) = ws := by
  induction ws with
  | nil => rfl
  | cons w ws ih => simpa [dataOf, Item.data] using ih

/-- Words define no names. -/
theorem symbolsFrom_words (code data : Nat) (ws : List Word) :
    symbolsFrom code data (ws.map .word) = [] := by
  induction ws generalizing data with
  | nil => rfl
  | cons w ws ih => exact ih (data + 1)

/-- The items of a statement emit the code of the statement. -/
theorem codeOf_statement (address : String → Word) (s : Statement) :
    codeOf address s.items = s.code address := by
  cases s with
  | entry name count items => exact codeOf_words address (wordsOf items)
  | push operand => cases operand <;> rfl
  | directive _ | label _ | instruction _ => rfl

/-- They emit its data. -/
theorem dataOf_statement (s : Statement) : dataOf s.items = s.data := by
  cases s with
  | entry name count items => exact dataOf_words (wordsOf items)
  | push operand => cases operand <;> rfl
  | directive _ | label _ | instruction _ => rfl

/-- They define its names. -/
theorem symbolsFrom_statement (code data : Nat) (s : Statement) :
    symbolsFrom code data s.items = s.symbols code data := by
  cases s with
  | entry name count items => exact congrArg _ (symbolsFrom_words code data (wordsOf items))
  | push operand => cases operand <;> rfl
  | directive _ | label _ | instruction _ => rfl

/-- They refer to what it refers to. -/
theorem referencesOf_statement (s : Statement) : referencesOf s.items = s.references := by
  cases s with
  | entry name count items =>
    simp [referencesOf, Statement.items, Item.references, Statement.references]
  | push operand => cases operand <;> rfl
  | directive _ | label _ | instruction _ => rfl

/-- The code of a statement takes the room that the statement says. -/
theorem length_code_statement (address : String → Word) (s : Statement) :
    (s.code address).length = s.codeSize := by
  cases s <;> rfl

/-- So does its data. -/
theorem length_data_statement (s : Statement) : s.data.length = s.dataSize := by
  cases s <;> rfl

/-- The code of the items of a program is that of its statements. -/
theorem codeOf_items (address : String → Word) :
    codeOf address p.items = p.flatMap (Statement.code address) := by
  induction p with
  | nil => rfl
  | cons s p ih => rw [Program.items_cons, codeOf_append, codeOf_statement, ih, List.flatMap_cons]

/-- The data of the items of a program is that of its statements. -/
theorem dataOf_items : dataOf p.items = p.data := by
  induction p with
  | nil => rfl
  | cons s p ih =>
    rw [Program.items_cons, dataOf_append, dataOf_statement, ih, Program.data, Program.data,
      List.flatMap_cons]

/-- The code of a program takes the room of its statements. -/
theorem length_blankCode_items : (blankCode p.items).length = p.codeSize := by
  rw [blankCode, codeOf_items, List.length_flatMap, Program.codeSize]
  simp only [length_code_statement]

/-- So does its data. -/
theorem length_dataOf_items : (dataOf p.items).length = p.dataSize := by
  rw [dataOf_items, Program.data, List.length_flatMap, Program.dataSize]
  simp only [length_data_statement]

/-- The symbol table of a program is that of its items. -/
theorem symbolsFrom_items (code data : Nat) :
    symbolsFrom code data p.items = Program.symbolsFrom code data p := by
  -- each statement moves the counters by its own sizes
  induction p generalizing code data with
  | nil => rfl
  | cons s p ih =>
    have hcode : (blankCode s.items).length = s.codeSize := by
      rw [blankCode, codeOf_statement, length_code_statement]
    have hdata : (dataOf s.items).length = s.dataSize := by
      rw [dataOf_statement, length_data_statement]
    rw [Program.items_cons, symbolsFrom_append, hcode, hdata, ih, symbolsFrom_statement,
      Program.symbolsFrom]

/-- The symbol table of the items, from the start of both sections. -/
theorem symbolsOf_items : symbolsOf p.items = p.symbols := symbolsFrom_items p 0 0

/-- The references of the items are those of the statements. -/
theorem referencesOf_items : referencesOf p.items = p.references := by
  induction p with
  | nil => rfl
  | cons s p ih =>
    rw [Program.items_cons, referencesOf_append, referencesOf_statement, ih, Program.references,
      Program.references, List.flatMap_cons]

/-- The address of a name is the same in both tables. -/
theorem addressOf_items : addressOf p.items = p.address := by
  funext name
  rw [addressOf, Program.address, symbolsOf_items]

/-- A program can be laid out exactly if its items can and its references are defined. -/
theorem sound_iff_fits : p.Sound ↔ Fits p.items ∧
    ∀ name ∈ referencesOf p.items, name ∈ (symbolsOf p.items).map Prod.fst := by
  rw [referencesOf_items, symbolsOf_items]
  constructor
  · rintro ⟨hnodup, hdef, hcode, hdata⟩
    refine ⟨⟨?_, ?_, ?_⟩, hdef⟩
    · rw [symbolsOf_items]; exact hnodup
    · rw [length_blankCode_items]; exact hcode
    · rw [length_dataOf_items]; exact hdata
  · rintro ⟨⟨hnodup, hcode, hdata⟩, hdef⟩
    rw [symbolsOf_items] at hnodup
    rw [length_blankCode_items] at hcode
    rw [length_dataOf_items] at hdata
    exact ⟨hnodup, hdef, hcode, hdata⟩

end Items

/-! ## The pass over the tokens -/

section Pass

variable {p : Progress} {items : List Item}

/-- Tokens that can be read are fed without an error if the items that they add still fit. -/
theorem feeds_of_reads {ts : List Token} {more : List Item} {e : Expect}
    (hreads : Reads p.expect ts more e) (h : Holds p.layout items) (hfits : Fits (items ++ more)) :
    ∃ p', ts.foldlM Progress.feed p = .ok p' ∧ p'.expect = e ∧
      Holds p'.layout (items ++ more) := by
  -- token by token, with the items placed so far in front
  induction ts generalizing p items more with
  | nil =>
    cases hreads
    exact ⟨p, rfl, rfl, by simpa using h⟩
  | cons t ts ih =>
    cases hreads with
    | @cons _ e₁ _ _ _ first rest htoken hreads =>
      rw [← List.append_assoc] at hfits ⊢
      -- all items fit together, so those of the first token fit
      have hfits₁ : Fits (items ++ first) := hfits.of_append
      obtain ⟨l₁, hadd⟩ := (foldlM_add_eq_ok_iff h hfits₁.of_append).2 hfits₁
      have hstep : p.feed t = .ok ⟨e₁, l₁, t.line⟩ :=
        feed_eq_ok_iff.2 ⟨first, htoken.read_eq_ok, hadd, rfl⟩
      have h₁ : Holds l₁ (items ++ first) := holds_of_foldlM_add h hadd
      obtain ⟨p', hfeeds, hexpect, h'⟩ := ih (p := ⟨e₁, l₁, t.line⟩) hreads h₁ hfits
      refine ⟨p', ?_, hexpect, h'⟩
      rw [List.foldlM_cons]
      exact bind_eq_ok_iff.2 ⟨_, hstep, hfeeds⟩

end Pass

/-! ## The image of a text -/

/-- Nothing is missing where a statement is expected. -/
theorem missing?_eq_none_iff {e : Expect} : e.missing? = none ↔ ∃ area, e = .statement area := by
  cases e <;> simp [Expect.missing?]

/-- A text ends well exactly if no quote is open, a statement is expected and the layout gives an
image. -/
theorem finish_eq_ok_iff {p : Progress} {unclosed : Option Nat} {img : Image} :
    p.finish unclosed = .ok img ↔
      unclosed = none ∧ (∃ area, p.expect = .statement area) ∧ p.layout.toImage = .ok img := by
  unfold Progress.finish
  rw [← missing?_eq_none_iff]
  cases unclosed <;> cases p.expect.missing? <;> simp

/-- The image of the items of a program is the image of the program. -/
theorem image_items (p : Program) : (⟨.ofArray (codeOf (addressOf p.items) p.items).toArray 0,
    .ofArray (dataOf p.items).toArray 0⟩ : Image) = p.image := by
  rw [codeOf_items, addressOf_items, dataOf_items]
  rfl

/-- A text that is assembled spells a program, and the image is that of the program. -/
theorem program_of_assemble {text : String} {img : Image} (h : assemble text = .ok img) :
    (Scan.ofText text).unclosed = none ∧
      ∃ p : Program, Parses .data (Scan.ofText text).tokens p ∧ p.Sound ∧ img = p.image := by
  obtain ⟨p', hfeeds, hfinish⟩ := bind_eq_ok_iff.1 h
  obtain ⟨hunclosed, ⟨area, hexpect⟩, himg⟩ := finish_eq_ok_iff.1 hfinish
  obtain ⟨items, hsources, hlays⟩ := lays_of_start (List.append_nil _).symm hfeeds
  -- The text ends between two statements, so what was read is a program.
  have hreads := hsources.reads
  rw [hexpect] at hreads
  obtain ⟨p, hparses, hitems⟩ := reads_iff_parses.1 ⟨area, hreads⟩
  have hholds := hlays.holds
  have hfits := hlays.fits
  rw [← hitems] at hholds hfits
  obtain ⟨hdef, rfl⟩ := (toImage_eq_ok_iff hholds).1 himg
  exact ⟨hunclosed, p, hparses, (sound_iff_fits p).2 ⟨hfits, hdef⟩, image_items p⟩

/-- A text that spells a program which can be laid out is assembled. -/
theorem assemble_of_parses {text : String} {p : Program}
    (hunclosed : (Scan.ofText text).unclosed = none)
    (hparses : Parses .data (Scan.ofText text).tokens p) (hsound : p.Sound) :
    assemble text = .ok p.image := by
  obtain ⟨hfits, hdef⟩ := (sound_iff_fits p).1 hsound
  obtain ⟨area, hreads⟩ := hparses.reads
  obtain ⟨p', hfeeds, hexpect, hholds⟩ := feeds_of_reads (p := .start) hreads holds_empty hfits
  have himg : p'.layout.toImage = .ok p.image :=
    (toImage_eq_ok_iff hholds).2 ⟨hdef, (image_items p).symm⟩
  exact bind_eq_ok_iff.2 ⟨p', hfeeds, finish_eq_ok_iff.2 ⟨hunclosed, ⟨area, hexpect⟩, himg⟩⟩

/-- Whatever program the tokens of an assembled text spell, the image is that of the program. -/
theorem image_of_parses {text : String} {img : Image} {p : Program} (h : assemble text = .ok img)
    (hparses : Parses .data (Scan.ofText text).tokens p) : p.Sound ∧ img = p.image := by
  obtain ⟨-, p₀, hparses₀, hsound, rfl⟩ := program_of_assemble h
  obtain ⟨_, hreads⟩ := hparses.reads
  obtain ⟨_, hreads₀⟩ := hparses₀.reads
  -- tokens can be read in one way only, so the two programs have the same items
  have hitems : p₀.items = p.items := (hreads₀.unique hreads).1
  constructor
  · rw [sound_iff_fits, ← hitems]
    exact (sound_iff_fits p₀).1 hsound
  · rw [← image_items p₀, ← image_items p, hitems]

/-- A text is assembled exactly if no quote is left open and its tokens spell a program that can be
laid out: every name is defined once, every name referred to is defined, and both sections fit their
segments. The image is then that of the program. -/
theorem assemble_eq_ok_iff (text : String) (img : Image) :
    assemble text = .ok img ↔
      (Scan.ofText text).unclosed = none ∧
        ∃ p : Program, Parses .data (Scan.ofText text).tokens p ∧ p.Sound ∧ img = p.image := by
  constructor
  · exact program_of_assemble
  · rintro ⟨hunclosed, p, hparses, hsound, rfl⟩
    exact assemble_of_parses hunclosed hparses hsound

end WordMachine.Assembly

import WordMachine.Proofs.Assembly.Spelling

/-!
# Reading is parsing

Tokens are read one at a time, each by what the tokens before it have left open. `Reads` is the run
of such steps over a list of tokens. Between two statements such a run is a parse: from the start of
a statement to the start of a statement it reads exactly the items of a program that the tokens
spell (`reads_iff_parses`). The only loop inside a statement is that of the items of a data entry,
and `Fills` is its invariant read backwards.
-/

namespace WordMachine.Assembly

/-! ## Items of a program -/

/-- What a statement adds to the program. -/
def Statement.items : Statement → List Item
  | .directive _ => []
  | .entry name _ items => .label .data name :: (wordsOf items).map .word
  | .label name => [.label .code name]
  | .push (.number n) =>
    [.byte 0x05, .byte (Word.high (Word.ofInt n)), .byte (Word.low (Word.ofInt n))]
  | .push (.label name) => [.byte 0x05, .reference name]
  | .instruction i => [.byte i.encode]

/-- The items of a program, in its order. -/
def Program.items (p : Program) : List Item := p.flatMap Statement.items

/-- The items of the first statement come first. -/
@[simp]
theorem Program.items_cons (s : Statement) (p : Program) :
    Program.items (s :: p) = s.items ++ p.items := rfl

/-! ## Runs over tokens -/

/-- The items read from tokens, and the position after the last one. -/
inductive Reads : Expect → List Token → List Item → Expect → Prop where
  | nil {e : Expect} : Reads e [] [] e
  | cons {e e' e'' : Expect} {t : Token} {ts : List Token} {items items' : List Item} :
      TokenStep e t items e' → Reads e' ts items' e'' → Reads e (t :: ts) (items ++ items') e''

/-- Tokens can be read in one way only. -/
theorem Reads.unique {e e₁ e₂ : Expect} {ts : List Token} {items items' : List Item}
    (h : Reads e ts items e₁) (h' : Reads e ts items' e₂) : items = items' ∧ e₁ = e₂ := by
  induction h generalizing items' with
  | nil =>
    cases h'
    exact ⟨rfl, rfl⟩
  | cons hstep _ ih =>
    cases h' with
    | cons hstep' hrest' =>
      -- what a token adds is what the reader makes of it
      have hread := hstep.read_eq_ok.symm.trans hstep'.read_eq_ok
      obtain ⟨rfl, rfl⟩ := Prod.mk.inj (Except.ok.inj hread)
      obtain ⟨rfl, rfl⟩ := ih hrest'
      exact ⟨rfl, rfl⟩

/-! ## The items of an entry -/

/-- A literal gives at least one word, even if it is empty. -/
theorem length_packed_pos (bytes : List UInt8) : 0 < (packed bytes).length := by
  fun_cases packed bytes <;> simp

/-- So does every item of an entry. -/
theorem length_words_pos (d : Datum) : 0 < d.words.length := by
  cases d with
  | number n => exact Nat.one_pos
  | text chars => exact length_packed_pos _

/-- No items fill an entry of no words. -/
theorem fills_nil {count : Nat} : Fills count [] ↔ count = 0 := by
  simp [Fills, wordsOf]

/-- An item is taken while words are missing, and the others fill what it leaves. -/
theorem fills_cons {count : Nat} {d : Datum} {items : List Datum} :
    Fills count (d :: items) ↔ 0 < count ∧ Fills (count - d.words.length) items := by
  have hd := length_words_pos d
  unfold Fills wordsOf
  simp only [List.flatMap_cons, List.length_append, List.length_cons]
  constructor
  · -- before the first item no words are there, and before any other the words of the first are
    rintro ⟨hcount, htake⟩
    have hpos : 0 < count := by simpa using htake 0 (by omega)
    refine ⟨hpos, by omega, fun k hk => ?_⟩
    have := htake (k + 1) (by omega)
    simp only [List.take_succ_cons, List.flatMap_cons, List.length_append] at this
    omega
  · rintro ⟨hpos, hcount, htake⟩
    refine ⟨by omega, fun k hk => ?_⟩
    cases k with
    | zero => simpa using hpos
    | succ k =>
      have := htake k (by omega)
      simp only [List.take_succ_cons, List.flatMap_cons, List.length_append]
      omega

/-- While words are missing, an item is expected. -/
theorem items_of_pos {n : Nat} (h : 0 < n) : Expect.items n = .dataItem n :=
  if_neg (Nat.pos_iff_ne_zero.1 h)

/-- The items that fill an entry are read, and the next statement after them. -/
theorem reads_items {its ts : List Token} {items : List Datum} {rest : List Item} {count : Nat}
    {e : Expect} (hits : List.Forall₂ IsDatum its items) (hfill : Fills count items)
    (hrest : Reads (.statement .data) ts rest e) :
    Reads (.items count) (its ++ ts) ((wordsOf items).map .word ++ rest) e := by
  -- item by item, with the words that are still missing
  induction hits generalizing count with
  | nil =>
    rw [fills_nil.1 hfill]
    exact hrest
  | @cons t d its items hdatum _ ih =>
    obtain ⟨hpos, hfill'⟩ := fills_cons.1 hfill
    have hstep := Reads.cons (TokenStep.datum hdatum) (ih hfill')
    rw [items_of_pos hpos]
    simpa [wordsOf] using hstep

/-- A run that starts inside an entry and ends between statements has read the items that fill the
entry first. -/
theorem items_of_reads {ts : List Token} {items : List Item} {count : Nat} {area : Area}
    (h : Reads (.items count) ts items (.statement area)) :
    ∃ its ts' data rest, ts = its ++ ts' ∧ items = (wordsOf data).map .word ++ rest ∧
      List.Forall₂ IsDatum its data ∧ Fills count data ∧
      Reads (.statement .data) ts' rest (.statement area) := by
  -- token by token, until no word is missing
  induction ts generalizing count items with
  | nil =>
    cases count with
    | zero => exact ⟨[], [], [], items, rfl, rfl, .nil, fills_nil.2 rfl, h⟩
    | succ n =>
      -- words are missing, so the run does not end between statements
      rw [items_of_pos (by omega)] at h
      cases h
  | cons t ts ih =>
    cases count with
    | zero => exact ⟨[], t :: ts, [], items, rfl, rfl, .nil, fills_nil.2 rfl, h⟩
    | succ n =>
      rw [items_of_pos (by omega)] at h
      cases h with
      | cons hstep hrest =>
        cases hstep with
        | @datum _ d _ hdatum =>
          obtain ⟨its, ts', data, rest, rfl, rfl, hits, hfill, hreads⟩ := ih hrest
          refine ⟨t :: its, ts', d :: data, rest, rfl, ?_, .cons hdatum hits, ?_, hreads⟩
          · simp [wordsOf]
          · exact fills_cons.2 ⟨by omega, hfill⟩

/-! ## Statements -/

/-- The tokens of a program are read as its items. -/
theorem Parses.reads {area : Area} {ts : List Token} {p : Program} (h : Parses area ts p) :
    ∃ area', Reads (.statement area) ts p.items (.statement area') := by
  -- statement by statement; only an entry has a loop inside
  induction h with
  | done => exact ⟨_, .nil⟩
  | directive htext _ ih =>
    obtain ⟨area', hreads⟩ := ih
    exact ⟨area', .cons (.directive htext) hreads⟩
  | entry hname hcount hits hfill _ ih =>
    obtain ⟨area', hreads⟩ := ih
    refine ⟨area', ?_⟩
    simpa [Statement.items] using
      Reads.cons (.entryName hname) (.cons (.count hcount) (reads_items hits hfill hreads))
  | label htext _ ih =>
    obtain ⟨area', hreads⟩ := ih
    exact ⟨area', .cons (.label htext) hreads⟩
  | push htext hoperand _ ih =>
    obtain ⟨area', hreads⟩ := ih
    refine ⟨area', ?_⟩
    cases hoperand with
    | number hnum hfit =>
      simpa [Statement.items] using Reads.cons (.push htext) (.cons (.number hnum hfit) hreads)
    | label hlabel =>
      simpa [Statement.items] using Reads.cons (.push htext) (.cons (.reference hlabel) hreads)
  | instruction hinst _ ih =>
    obtain ⟨area', hreads⟩ := ih
    exact ⟨area', .cons (.instruction hinst) hreads⟩

/-- What is read between two statements is a program. -/
theorem parses_of_reads {area area' : Area} {ts : List Token} {items : List Item}
    (h : Reads (.statement area) ts items (.statement area')) :
    ∃ p, Parses area ts p ∧ p.items = items := by
  -- A statement takes several tokens, so the induction is on their number.
  induction hn : ts.length using Nat.strongRecOn generalizing ts area items with
  | ind n ih =>
    cases h with
    | nil => exact ⟨[], .done, rfl⟩
    | @cons _ _ _ t ts items items' hstep hrest =>
      rw [List.length_cons] at hn
      cases hstep with
      | @directive _ mid _ htext =>
        obtain ⟨p, hp, rfl⟩ := ih _ (by omega) hrest rfl
        exact ⟨_, .directive htext hp, rfl⟩
      | label htext =>
        obtain ⟨p, hp, rfl⟩ := ih _ (by omega) hrest rfl
        exact ⟨_, .label htext hp, rfl⟩
      | instruction hinst =>
        obtain ⟨p, hp, rfl⟩ := ih _ (by omega) hrest rfl
        exact ⟨_, .instruction hinst hp, rfl⟩
      | push htext =>
        cases hrest with
        | @cons _ _ _ o ts _ _ hoperand hrest =>
          rw [List.length_cons] at hn
          cases hoperand with
          | number hnum hfit =>
            obtain ⟨p, hp, rfl⟩ := ih _ (by omega) hrest rfl
            exact ⟨_, .push htext (.number hnum hfit) hp, rfl⟩
          | reference hlabel =>
            obtain ⟨p, hp, rfl⟩ := ih _ (by omega) hrest rfl
            exact ⟨_, .push htext (.label hlabel) hp, rfl⟩
      | entryName hname =>
        cases hrest with
        | @cons _ _ _ c ts _ _ hcount hrest =>
          rw [List.length_cons] at hn
          cases hcount with
          | count hcount =>
            -- the entry ends where the next statement starts, with fewer tokens left
            obtain ⟨its, ts', data, rest, rfl, rfl, hits, hfill, hreads⟩ := items_of_reads hrest
            rw [List.length_append] at hn
            obtain ⟨p, hp, rfl⟩ := ih _ (by omega) hreads rfl
            exact ⟨_, .entry hname hcount hits hfill hp, by simp [Statement.items]⟩

/-- From statement to statement, tokens are read as some items exactly when they spell a program
with these items. -/
theorem reads_iff_parses {area : Area} {ts : List Token} {items : List Item} :
    (∃ area', Reads (.statement area) ts items (.statement area')) ↔
      ∃ p, Parses area ts p ∧ p.items = items := by
  constructor
  · rintro ⟨area', h⟩
    exact parses_of_reads h
  · rintro ⟨p, hp, rfl⟩
    exact hp.reads

end WordMachine.Assembly

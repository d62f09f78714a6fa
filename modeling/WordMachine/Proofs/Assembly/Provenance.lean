import WordMachine.Proofs.Assembly.Placement
import WordMachine.Proofs.Assembly.Reading

/-!
# Items and the tokens that add them

An item of a program comes from a token, and what a layout remembers of it besides its place is the
line of that token. `Sources` is a run over tokens that keeps each item with its token. `Lays` is
what the layout of such items knows: the line of a label is that of the first item that defines it
(`definedOn?`), and the references are those of the items in their order, each with the place of its
room in the code (`roomsFrom`). A token that is fed keeps this (`lays_of_feed`), so a text that is
read as far as some token has laid out the items up to it (`lays_of_feeds`).
-/

namespace WordMachine.Assembly

/-! ## Runs that keep the tokens -/

/-- The items that tokens add, each with its token, and the position after the last token. -/
inductive Sources : Expect → List Token → List (Token × Item) → Expect → Prop where
  | nil {e : Expect} : Sources e [] [] e
  | cons {e e' e'' : Expect} {t : Token} {ts : List Token} {items : List Item}
      {more : List (Token × Item)} : TokenStep e t items e' → Sources e' ts more e'' →
      Sources e (t :: ts) (items.map (t, ·) ++ more) e''

/-- Items paired with a token are these items. -/
theorem map_snd_map_mk (t : Token) (items : List Item) :
    (items.map (t, ·)).map Prod.snd = items := by
  rw [List.map_map]
  exact List.map_id items

namespace Sources

variable {e e' e'' : Expect} {ts ts' : List Token} {items items' : List (Token × Item)}

/-- The items are those of a run. -/
theorem reads (h : Sources e ts items e') : Reads e ts (items.map Prod.snd) e' := by
  induction h with
  | nil => exact .nil
  | cons hstep _ ih =>
    rw [List.map_append, map_snd_map_mk]
    exact .cons hstep ih

/-- Tokens can be read in one way only. -/
theorem unique (h : Sources e ts items e') (h' : Sources e ts items' e'') :
    items = items' ∧ e' = e'' := by
  induction h generalizing items' with
  | nil =>
    cases h'
    exact ⟨rfl, rfl⟩
  | cons hstep _ ih =>
    cases h' with
    | cons hstep' hrest' =>
      have hread := hstep.read_eq_ok.symm.trans hstep'.read_eq_ok
      obtain ⟨rfl, rfl⟩ := Prod.mk.inj (Except.ok.inj hread)
      obtain ⟨rfl, rfl⟩ := ih hrest'
      exact ⟨rfl, rfl⟩

/-- Runs one after the other. -/
theorem append (h : Sources e ts items e') (h' : Sources e' ts' items' e'') :
    Sources e (ts ++ ts') (items ++ items') e'' := by
  induction h with
  | nil => exact h'
  | cons hstep _ ih =>
    rw [List.append_assoc]
    exact .cons hstep (ih h')

/-- Every item comes from one of the tokens. -/
theorem token_mem (h : Sources e ts items e') : ∀ entry ∈ items, entry.1 ∈ ts := by
  -- along the run; the items of a token are paired with it
  induction h with
  | nil => simp
  | @cons _ _ _ t ts items more _ _ ih =>
    intro entry hentry
    rcases List.mem_append.1 hentry with hitem | hmore
    · obtain ⟨item, -, rfl⟩ := List.mem_map.1 hitem
      exact List.mem_cons_self
    · exact List.mem_cons_of_mem _ (ih entry hmore)

end Sources

/-! ## Labels and references by their tokens -/

/-- The name that an item defines. -/
def Item.label? : Item → Option String
  | .label _ name => some name
  | _ => none

/-- The line of the first item that defines a name. -/
def definedOn? (items : List (Token × Item)) (name : String) : Option Nat :=
  (items.find? fun entry => entry.2.label? = some name).map fun entry => entry.1.line

/-- The references of items, behind `code` bytes. -/
def roomsFrom (code : Nat) : List (Token × Item) → List Reference
  | [] => []
  | (t, item) :: rest =>
    item.references.map (fun name => ⟨code, name, t.line⟩) ++
      roomsFrom (code + (blankCode [item]).length) rest

/-- One more item defines a name only if no item before it does. -/
theorem definedOn?_concat (items : List (Token × Item)) (entry : Token × Item) (name : String) :
    definedOn? (items ++ [entry]) name =
      (definedOn? items name).or
        (if entry.2.label? = some name then some entry.1.line else none) := by
  unfold definedOn?
  rw [List.find?_append]
  by_cases h : entry.2.label? = some name <;> simp [h]

/-- The first definition of a name is where the items split. -/
theorem definedOn?_eq_some_iff {items : List (Token × Item)} {name : String} {line : Nat} :
    definedOn? items name = some line ↔
      ∃ front entry back, items = front ++ entry :: back ∧ entry.2.label? = some name ∧
        entry.1.line = line ∧ ∀ other ∈ front, other.2.label? ≠ some name := by
  unfold definedOn?
  simp only [Option.map_eq_some_iff, List.find?_eq_some_iff_append, decide_eq_true_eq,
    Bool.not_eq_true', decide_eq_false_iff_not]
  constructor
  · rintro ⟨entry, ⟨hname, front, back, rfl, hfront⟩, rfl⟩
    exact ⟨front, entry, back, rfl, hname, rfl, hfront⟩
  · rintro ⟨front, entry, back, rfl, hname, rfl, hfront⟩
    exact ⟨entry, ⟨hname, front, back, rfl, hfront⟩, rfl⟩

/-- A name has no line exactly if no item defines it. -/
theorem definedOn?_eq_none_iff {items : List (Token × Item)} {name : String} :
    definedOn? items name = none ↔ ∀ entry ∈ items, entry.2.label? ≠ some name := by
  simp [definedOn?]

/-- The rooms of the second items lie behind the code of the first. -/
theorem roomsFrom_append (code : Nat) (a b : List (Token × Item)) :
    roomsFrom code (a ++ b) =
      roomsFrom code a ++ roomsFrom (code + (blankCode (a.map Prod.snd)).length) b := by
  -- each item moves the place of the next by its code
  induction a generalizing code with
  | nil => rfl
  | cons entry a ih =>
    obtain ⟨t, item⟩ := entry
    have hcode : blankCode (((t, item) :: a).map Prod.snd) =
        blankCode [item] ++ blankCode (a.map Prod.snd) := blankCode_append [item] _
    rw [List.cons_append, roomsFrom, ih, roomsFrom, hcode, List.length_append, List.append_assoc,
      Nat.add_assoc]

/-- The references of items are rooms for their names. -/
theorem exists_room {items : List (Token × Item)} {t : Token} {name : String}
    (h : (t, .reference name) ∈ items) (code : Nat) :
    ∃ r ∈ roomsFrom code items, r.name = name := by
  obtain ⟨front, back, rfl⟩ := List.append_of_mem h
  refine ⟨⟨code + (blankCode (front.map Prod.snd)).length, name, t.line⟩, ?_, rfl⟩
  rw [roomsFrom_append]
  exact List.mem_append_right _ List.mem_cons_self

/-- Where the references split, the items split at the item of the reference. -/
theorem exists_of_roomsFrom {code : Nat} {items : List (Token × Item)}
    {before after : List Reference} {r : Reference}
    (h : roomsFrom code items = before ++ r :: after) :
    ∃ front t back, items = front ++ (t, .reference r.name) :: back ∧
      roomsFrom code front = before ∧ t.line = r.line ∧
      r.position = code + (blankCode (front.map Prod.snd)).length := by
  -- item by item, with the references that have been passed
  induction items generalizing code before with
  | nil => simp [roomsFrom] at h
  | cons entry items ih =>
    obtain ⟨t, item⟩ := entry
    -- an item that is no reference, or one in front of the one that is looked for
    have hrest (before' : List Reference)
        (hhead : item.references.map (fun name => ⟨code, name, t.line⟩) ++ before' = before)
        (h' : roomsFrom (code + (blankCode [item]).length) items = before' ++ r :: after) :
        ∃ front t' back, (t, item) :: items = front ++ (t', .reference r.name) :: back ∧
          roomsFrom code front = before ∧ t'.line = r.line ∧
          r.position = code + (blankCode (front.map Prod.snd)).length := by
      obtain ⟨front, t', back, rfl, rfl, hline, hposition⟩ := ih h'
      have hcode : blankCode (((t, item) :: front).map Prod.snd) =
          blankCode [item] ++ blankCode (front.map Prod.snd) := blankCode_append [item] _
      refine ⟨(t, item) :: front, t', back, rfl, hhead, hline, ?_⟩
      rw [hposition, hcode, List.length_append, Nat.add_assoc]
    rw [roomsFrom] at h
    cases item with
    | label area name | word w | byte b => exact hrest before rfl h
    | reference name =>
      cases before with
      | nil =>
        obtain ⟨rfl, -⟩ := List.cons.inj h
        exact ⟨[], t, items, rfl, rfl, rfl, rfl⟩
      | cons r' before =>
        obtain ⟨rfl, h'⟩ := List.cons.inj h
        exact hrest before rfl h'

/-- A room lies inside of the code of the items. -/
theorem position_of_mem_roomsFrom {code : Nat} {items : List (Token × Item)} {r : Reference}
    (h : r ∈ roomsFrom code items) :
    code ≤ r.position ∧ r.position + 2 ≤ code + (blankCode (items.map Prod.snd)).length := by
  obtain ⟨before, after, hsplit⟩ := List.append_of_mem h
  obtain ⟨front, t, back, rfl, -, -, hposition⟩ := exists_of_roomsFrom hsplit
  have hroom : (blankCode [Item.reference r.name]).length = 2 := rfl
  have hcode : blankCode ((front ++ (t, .reference r.name) :: back).map Prod.snd) =
      blankCode (front.map Prod.snd) ++
        (blankCode [.reference r.name] ++ blankCode (back.map Prod.snd)) := by
    rw [← blankCode_append, ← blankCode_append, List.map_append]
    rfl
  rw [hcode, hposition, List.length_append, List.length_append, hroom]
  omega

/-- A room ends before the next one starts. -/
theorem pairwise_roomsFrom (code : Nat) (items : List (Token × Item)) :
    (roomsFrom code items).Pairwise fun r r' => r.position + 2 ≤ r'.position := by
  induction items generalizing code with
  | nil => exact .nil
  | cons entry items ih =>
    obtain ⟨t, item⟩ := entry
    rw [roomsFrom, List.pairwise_append]
    refine ⟨?_, ih _, ?_⟩
    · -- an item has one room at most
      cases item <;> simp [Item.references]
    · -- the rooms of the other items start behind this one
      intro r hr r' hr'
      obtain ⟨name, hname, rfl⟩ := List.mem_map.1 hr
      cases item with
      | label area name' | word w | byte b => cases hname
      | reference name' => exact (position_of_mem_roomsFrom hr').1

/-! ## The layout of items with their tokens -/

/-- A layout holds items, and knows the lines of their tokens. -/
structure Lays (l : Layout) (items : List (Token × Item)) : Prop where
  holds : Holds l (items.map Prod.snd)
  fits : Fits (items.map Prod.snd)
  labels_line : ∀ name, l.labels[name]?.map Label.line = definedOn? items name
  references_eq : l.references.toList = roomsFrom 0 items

/-- The empty layout has laid out nothing. -/
theorem lays_empty : Lays .empty [] where
  holds := holds_empty
  fits := ⟨.nil, Nat.zero_le _, Nat.zero_le _⟩
  labels_line name := by simp [Layout.empty, definedOn?]
  references_eq := rfl

section Lays

variable {l l' : Layout} {items : List (Token × Item)} {t : Token}

/-- The code of the layout is as long as that of the items. -/
theorem Lays.codeSize_eq (h : Lays l items) :
    l.code.size = (blankCode (items.map Prod.snd)).length := by
  rw [← h.holds.code_eq, Array.length_toList]

/-- The code of the layout fits its segment. -/
theorem Lays.codeSize_le (h : Lays l items) : l.code.size ≤ segmentSize :=
  h.codeSize_eq ▸ h.fits.code_le

/-- So does its data. -/
theorem Lays.dataSize_le (h : Lays l items) : l.data.size ≤ segmentSize := by
  rw [← Array.length_toList, h.holds.data_eq]
  exact h.fits.data_le

/-- Both bytes of a reference are in the code. -/
theorem Lays.position_lt (h : Lays l items) : ∀ r ∈ l.references, r.position + 1 < l.code.size := by
  intro r hr
  rw [← Array.mem_toList_iff, h.references_eq] at hr
  have hroom := (position_of_mem_roomsFrom hr).2
  rw [h.codeSize_eq]
  omega

/-- A label is known from its first definition on, and stays on the line of it. -/
theorem labels_line_of_add {item : Item} (h : Lays l items) (hadd : l.add t.line item = .ok l')
    (name : String) :
    l'.labels[name]?.map Label.line = definedOn? (items ++ [(t, item)]) name := by
  rw [definedOn?_concat, ← h.labels_line]
  -- only a label changes the table
  cases item with
  | label area name' =>
    obtain ⟨hfree, rfl⟩ := (addLabel_eq_ok_iff h.holds).1 hadd
    rw [Std.ExtHashMap.getElem?_insert]
    by_cases hname : name' = name
    · subst hname
      -- the name was free, so this is its first definition
      have hnone : l.labels[name']? = none := by
        rw [← Option.map_eq_none_iff (f := Label.address), h.holds.labels_eq,
          Option.map_eq_none_iff]
        exact lookup_eq_none_iff_notMem.2 hfree
      simp [Item.label?, hnone]
    · simp [Item.label?, hname]
  | word w =>
    obtain ⟨-, rfl⟩ := addWord_eq_ok_iff.1 hadd
    simp [Item.label?]
  | byte b =>
    obtain ⟨-, rfl⟩ := addByte_eq_ok_iff.1 hadd
    simp [Item.label?]
  | reference name' =>
    obtain ⟨-, rfl⟩ := add_reference_eq_ok_iff.1 hadd
    simp [Item.label?]

/-- A reference takes the room at the end of the code. -/
theorem references_of_add {item : Item} (h : Lays l items) (hadd : l.add t.line item = .ok l') :
    l'.references.toList = roomsFrom 0 (items ++ [(t, item)]) := by
  rw [roomsFrom_append, ← h.references_eq, ← h.codeSize_eq, Nat.zero_add, roomsFrom, roomsFrom,
    List.append_nil]
  cases item with
  | label area name' =>
    obtain ⟨-, rfl⟩ := (addLabel_eq_ok_iff h.holds).1 hadd
    simp [Item.references]
  | word w =>
    obtain ⟨-, rfl⟩ := addWord_eq_ok_iff.1 hadd
    simp [Item.references]
  | byte b =>
    obtain ⟨-, rfl⟩ := addByte_eq_ok_iff.1 hadd
    simp [Item.references]
  | reference name' =>
    obtain ⟨-, rfl⟩ := add_reference_eq_ok_iff.1 hadd
    simp [Item.references]

/-- Adding an item on the line of its token keeps what the layout knows. -/
theorem lays_of_add {item : Item} (h : Lays l items) (hadd : l.add t.line item = .ok l') :
    Lays l' (items ++ [(t, item)]) := by
  have hitems : (items ++ [(t, item)]).map Prod.snd = items.map Prod.snd ++ [item] := by simp
  have hholds : Holds l' (items.map Prod.snd ++ [item]) := holds_of_add h.holds hadd
  have hfits : Fits (items.map Prod.snd ++ [item]) := (add_eq_ok_iff h.holds h.fits).1 ⟨l', hadd⟩
  rw [← hitems] at hholds hfits
  exact ⟨hholds, hfits, labels_line_of_add h hadd, references_of_add h hadd⟩

/-- Items of one token that are added one after the other are laid out. -/
theorem lays_of_adds {more : List Item} (h : Lays l items)
    (hadd : more.foldlM (Layout.add t.line) l = .ok l') : Lays l' (items ++ more.map (t, ·)) := by
  have hstart : Lays l (items ++ [].map (t, ·)) := by simpa using h
  refine foldlM_invariant (I := fun l more => Lays l (items ++ more.map (t, ·)))
    (fun hfront hstep => ?_) hstart hadd
  rw [List.map_append, ← List.append_assoc]
  exact lays_of_add hfront hstep

variable {p p' : Progress}

/-- A token is fed exactly if it can be read and its items can be added on its line. -/
theorem feed_eq_ok_iff : p.feed t = .ok p' ↔
    ∃ more, p.expect.read t = .ok (more, p'.expect) ∧
      more.foldlM (Layout.add t.line) p.layout = .ok p'.layout ∧ p'.line = t.line := by
  unfold Progress.feed
  simp only [bind_eq_ok_iff, Prod.exists]
  constructor
  · rintro ⟨more, e, hread, l, hadd, hp⟩
    obtain rfl := Except.ok.inj hp
    exact ⟨more, hread, hadd, rfl⟩
  · rintro ⟨more, hread, hadd, hline⟩
    exact ⟨more, p'.expect, hread, p'.layout, hadd, by rw [← hline]; rfl⟩

/-- One token: the position makes a step, and the layout has the items of the step. -/
theorem lays_of_feed (hclosed : t.Closed) (h : Lays p.layout items) (hfeed : p.feed t = .ok p') :
    ∃ more, TokenStep p.expect t more p'.expect ∧ Lays p'.layout (items ++ more.map (t, ·)) := by
  obtain ⟨more, hread, hadd, -⟩ := feed_eq_ok_iff.1 hfeed
  exact ⟨more, tokenStep_of_read hclosed hread, lays_of_adds h hadd⟩

/-- All tokens: the layout has the items that they add. -/
theorem lays_of_feeds {ts : List Token} (hclosed : ∀ t ∈ ts, t.Closed) (h : Lays p.layout items)
    (hfeed : ts.foldlM Progress.feed p = .ok p') :
    ∃ more, Sources p.expect ts more p'.expect ∧ Lays p'.layout (items ++ more) := by
  -- token by token; the items so far stay in front
  induction ts generalizing p items with
  | nil =>
    obtain rfl := Except.ok.inj hfeed
    exact ⟨[], .nil, by simpa using h⟩
  | cons t ts ih =>
    obtain ⟨hclosed_t, hclosed_ts⟩ := List.forall_mem_cons.1 hclosed
    rw [List.foldlM_cons] at hfeed
    obtain ⟨p₁, hstep, hfeeds⟩ := bind_eq_ok_iff.1 hfeed
    obtain ⟨first, htoken, h₁⟩ := lays_of_feed hclosed_t h hstep
    obtain ⟨rest, hsources, h'⟩ := ih hclosed_ts h₁ hfeeds
    exact ⟨_, .cons htoken hsources, by rwa [← List.append_assoc]⟩

end Lays

/-- The tokens at the start of a text that are fed without an error have laid out their items. -/
theorem lays_of_start {text : String} {before after : List Token} {p : Progress}
    (htokens : (Scan.ofText text).tokens = before ++ after)
    (hfeed : before.foldlM Progress.feed .start = .ok p) :
    ∃ items, Sources (.statement .data) before items p.expect ∧ Lays p.layout items := by
  have hclosed := closed_of_mem_ofText text
  rw [htokens] at hclosed
  obtain ⟨items, hsources, hlays⟩ :=
    lays_of_feeds (List.forall_mem_append.1 hclosed).1 (p := .start) lays_empty hfeed
  exact ⟨items, hsources, hlays⟩

end WordMachine.Assembly

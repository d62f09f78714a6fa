import Mathlib.Algebra.Group.Nat.Defs
import Mathlib.Data.String.Basic
import WordMachine.Assembly.Layout
import WordMachine.Proofs.Action

/-!
# Placement of items

What a layout holds after some items have been added to it. `Holds` relates a layout to the list of
its items: code and data are those of the items with zeros where addresses go, the labels are the
symbol table of the items, and filling in addresses turns the zeros into them. Adding an item keeps
the relation (`holds_of_add`) and succeeds exactly if the items still fit (`add_eq_ok_iff`), so the
same holds of any list of items. `toImage_eq_ok_iff` says which image comes out.
-/

namespace WordMachine.Assembly

/-- What each step of a fold keeps holds where the fold leads, if no step fails. -/
theorem foldlM_invariant {α β : Type} {f : β → α → Except Error β} {I : β → List α → Prop}
    (hstep : ∀ {b b' front x}, I b front → f b x = .ok b' → I b' (front ++ [x]))
    {xs : List α} {b b' : β} (h : I b []) (hfold : xs.foldlM f b = .ok b') : I b' xs := by
  -- in the middle of the fold, the invariant is about what has been passed
  suffices hrest : ∀ front, I b front → I b' (front ++ xs) from hrest [] h
  clear h
  -- by induction on what is left
  induction xs generalizing b with
  | nil =>
    intro front h
    obtain rfl := Except.ok.inj hfold
    rwa [List.append_nil]
  | cons x xs ih =>
    intro front h
    rw [List.foldlM_cons] at hfold
    obtain ⟨b₁, hx, hxs⟩ := bind_eq_ok_iff.1 hfold
    rw [List.append_cons]
    exact ih hxs _ (hstep h hx)

/-! ## Code, data and symbols of items -/

/-- The code bytes of an item. -/
def Item.code (address : String → Word) : Item → List UInt8
  | .byte b => [b]
  | .reference name => [Word.high (address name), Word.low (address name)]
  | _ => []

/-- The data words of an item. -/
def Item.data : Item → List Word
  | .word w => [w]
  | _ => []

/-- The code of items whose references go where `address` says. -/
def codeOf (address : String → Word) (items : List Item) : List UInt8 :=
  items.flatMap (Item.code address)

/-- The data of items. -/
def dataOf (items : List Item) : List Word := items.flatMap Item.data

/-- The code of items whose addresses are not known yet. -/
def blankCode (items : List Item) : List UInt8 := codeOf (fun _ => 0) items

/-- The names that items define, each with its position in its section, after the `code` bytes and
`data` words in front of them. -/
def symbolsFrom (code data : Nat) : List Item → List (String × Nat)
  | [] => []
  | .label .code name :: rest => (name, code) :: symbolsFrom code data rest
  | .label .data name :: rest => (name, data) :: symbolsFrom code data rest
  | .word _ :: rest => symbolsFrom code (data + 1) rest
  | .byte _ :: rest => symbolsFrom (code + 1) data rest
  | .reference _ :: rest => symbolsFrom (code + 2) data rest

/-- The symbol table of items. -/
def symbolsOf (items : List Item) : List (String × Nat) := symbolsFrom 0 0 items

/-- The name that an item refers to. -/
def Item.references : Item → List String
  | .reference name => [name]
  | _ => []

/-- The names that items refer to. -/
def referencesOf (items : List Item) : List String := items.flatMap Item.references

/-- The address of a name, in the 16 bits that a reference has room for. -/
def addressOf (items : List Item) (name : String) : Word :=
  UInt16.ofNat (((symbolsOf items).lookup name).getD 0)

/-- The code of two lists of items is that of the first and then that of the second. -/
@[simp]
theorem codeOf_append (address : String → Word) (a b : List Item) :
    codeOf address (a ++ b) = codeOf address a ++ codeOf address b := List.flatMap_append

/-- So is the data. -/
@[simp]
theorem dataOf_append (a b : List Item) : dataOf (a ++ b) = dataOf a ++ dataOf b :=
  List.flatMap_append

/-- The code of one item. -/
@[simp]
theorem codeOf_singleton (address : String → Word) (item : Item) :
    codeOf address [item] = item.code address := List.flatMap_singleton _ _

/-- The data of one item. -/
@[simp]
theorem dataOf_singleton (item : Item) : dataOf [item] = item.data := List.flatMap_singleton _ _

/-- Code without addresses is appended like code with them. -/
@[simp]
theorem blankCode_append (a b : List Item) : blankCode (a ++ b) = blankCode a ++ blankCode b :=
  codeOf_append _ a b

/-- The code of one item, without its address. -/
@[simp]
theorem blankCode_singleton (item : Item) : blankCode [item] = item.code fun _ => 0 :=
  codeOf_singleton _ item

/-- The references of two lists of items. -/
@[simp]
theorem referencesOf_append (a b : List Item) :
    referencesOf (a ++ b) = referencesOf a ++ referencesOf b := List.flatMap_append

/-- The reference of one item. -/
@[simp]
theorem referencesOf_singleton (item : Item) : referencesOf [item] = item.references :=
  List.flatMap_singleton _ _

/-- The room that code takes does not depend on the addresses in it. -/
theorem length_codeOf (address : String → Word) (items : List Item) :
    (codeOf address items).length = (blankCode items).length := by
  -- item by item; a reference takes two bytes, whatever they are
  induction items with
  | nil => rfl
  | cons item items ih =>
    have hitem : (item.code address).length = (item.code fun _ => 0).length := by
      cases item <;> rfl
    simp only [codeOf, blankCode, List.flatMap_cons, List.length_append] at ih ⊢
    rw [ih, hitem]

/-- The symbols of the second list stand behind what the first one emits. -/
theorem symbolsFrom_append (code data : Nat) (a b : List Item) :
    symbolsFrom code data (a ++ b) = symbolsFrom code data a ++
      symbolsFrom (code + (blankCode a).length) (data + (dataOf a).length) b := by
  -- the two counters run along with the lengths of what the items emit; a label emits nothing
  fun_induction symbolsFrom code data a with
  | case1 => simp [blankCode, codeOf, dataOf]
  | case2 code data name rest ih =>
    simp [symbolsFrom, ih, blankCode, codeOf, dataOf, Item.code, Item.data]
  | case3 code data name rest ih =>
    simp [symbolsFrom, ih, blankCode, codeOf, dataOf, Item.code, Item.data]
  | case4 code data w rest ih =>
    simp [symbolsFrom, ih, blankCode, codeOf, dataOf, Item.code, Item.data, Nat.add_comm 1,
      Nat.add_assoc]
  | case5 code data b rest ih =>
    simp [symbolsFrom, ih, blankCode, codeOf, dataOf, Item.code, Item.data, Nat.add_comm 1,
      Nat.add_assoc]
  | case6 code data name rest ih =>
    simp [symbolsFrom, ih, blankCode, codeOf, dataOf, Item.code, Item.data, Nat.add_comm 2,
      Nat.add_assoc]

/-- A name is not found exactly if it is not among the names of the table. -/
theorem lookup_eq_none_iff_notMem {symbols : List (String × Nat)} {name : String} :
    symbols.lookup name = none ↔ name ∉ symbols.map Prod.fst := by
  simp only [List.lookup_eq_none_iff, bne_iff_ne, List.mem_map, not_exists, not_and]
  exact ⟨fun h p hp e => h p hp e.symm, fun h p hp e => h p hp e.symm⟩

/-! ## What a layout holds -/

/-- Items that can be laid out: no name twice, and both sections within their segments. -/
structure Fits (items : List Item) : Prop where
  names_nodup : ((symbolsOf items).map Prod.fst).Nodup
  code_le : (blankCode items).length ≤ segmentSize
  data_le : (dataOf items).length ≤ segmentSize

/-- The layout of items. The last field says that the references stand where their zeros are, also
when more code follows: filling them in gives the code with its addresses. -/
structure Holds (l : Layout) (items : List Item) : Prop where
  code_eq : l.code.toList = blankCode items
  data_eq : l.data.toList = dataOf items
  labels_eq : ∀ name, l.labels[name]?.map Label.address =
    ((symbolsOf items).lookup name).map UInt16.ofNat
  references_eq : l.references.toList.map Reference.name = referencesOf items
  resolve_eq : ∀ (labels : Std.ExtHashMap String Label) (address : String → Word)
    (later : List UInt8),
    (∀ name ∈ referencesOf items, labels[name]?.map Label.address = some (address name)) →
    l.references.toList.foldlM (Layout.resolveIn labels) (blankCode items ++ later).toArray =
      .ok (codeOf address items ++ later).toArray

/-- The empty layout holds no items. -/
theorem holds_empty : Holds .empty [] where
  code_eq := rfl
  data_eq := rfl
  labels_eq name := by simp [Layout.empty, symbolsOf, symbolsFrom]
  references_eq := rfl
  resolve_eq labels address later _ := rfl

/-! ## Adding one item -/

section Add

variable {l l' : Layout} {items : List Item} {line : Nat}

/-- The extent of a section is the number of cells that its items fill. -/
theorem Holds.extent_eq (h : Holds l items) (area : Area) : l.extent area =
    match area with
    | .code => (blankCode items).length
    | .data => (dataOf items).length := by
  cases area with
  | data => rw [← h.data_eq]; rfl
  | code => rw [← h.code_eq]; rfl

/-- One more item after those that a layout holds. -/
theorem symbolsOf_concat (items : List Item) (item : Item) :
    symbolsOf (items ++ [item]) =
      symbolsOf items ++ symbolsFrom (blankCode items).length (dataOf items).length [item] := by
  simp [symbolsOf, symbolsFrom_append]

/-- A label can be added exactly if its name is not defined yet, and it gets the extent of its
section. -/
theorem addLabel_eq_ok_iff (h : Holds l items) {area : Area} {name : String} :
    l.addLabel line area name = .ok l' ↔ name ∉ (symbolsOf items).map Prod.fst ∧
      l' = { l with labels := l.labels.insert name ⟨UInt16.ofNat (l.extent area), line⟩ } := by
  have hnone : l.labels[name]? = none ↔ name ∉ (symbolsOf items).map Prod.fst := by
    rw [← lookup_eq_none_iff_notMem, ← Option.map_eq_none_iff (f := Label.address), h.labels_eq,
      Option.map_eq_none_iff]
  unfold Layout.addLabel
  split
  · rename_i first hfirst
    have hmem : ¬ name ∉ (symbolsOf items).map Prod.fst := by
      rw [← hnone, hfirst]
      simp
    exact ⟨fun h => by simp at h, fun h => absurd h.1 hmem⟩
  · rename_i hfree
    simp [hnone.1 hfree, eq_comm]

/-- A new name added to a layout is one more label among its items. -/
theorem holds_label (h : Holds l items) {area : Area} {name : String}
    (hname : name ∉ (symbolsOf items).map Prod.fst) :
    Holds { l with labels := l.labels.insert name ⟨UInt16.ofNat (l.extent area), line⟩ }
      (items ++ [.label area name]) where
  code_eq := by simpa [Item.code] using h.code_eq
  data_eq := by simpa [Item.data] using h.data_eq
  labels_eq name' := by
    have hsym : symbolsFrom (blankCode items).length (dataOf items).length [.label area name] =
        [(name, l.extent area)] := by
      rw [h.extent_eq]
      cases area <;> rfl
    rw [symbolsOf_concat, hsym, List.lookup_append, Std.ExtHashMap.getElem?_insert]
    -- the new name is found at the end of the table, any other one as before
    by_cases hn : name = name'
    · subst hn
      simp [lookup_eq_none_iff_notMem.2 hname]
    · have hlast : [(name, l.extent area)].lookup name' = none := by simpa using Ne.symm hn
      simp [hn, hlast, h.labels_eq]
  references_eq := by simpa [Item.references] using h.references_eq
  resolve_eq labels address later hdef := by
    have := h.resolve_eq labels address later (by simpa [Item.references] using hdef)
    simpa [Item.code] using this

/-- A word added to the data is one more item. -/
theorem holds_word (h : Holds l items) (w : Word) :
    Holds { l with data := l.data.push w } (items ++ [.word w]) where
  code_eq := by simpa [Item.code] using h.code_eq
  data_eq := by simp [Item.data, h.data_eq]
  labels_eq name := by simpa [symbolsOf_concat, symbolsFrom] using h.labels_eq name
  references_eq := by simpa [Item.references] using h.references_eq
  resolve_eq labels address later hdef := by
    have := h.resolve_eq labels address later (by simpa [Item.references] using hdef)
    simpa [Item.code] using this

/-- A byte added to the code is one more item. -/
theorem holds_byte (h : Holds l items) (b : UInt8) :
    Holds { l with code := l.code.push b } (items ++ [.byte b]) where
  code_eq := by simp [Item.code, h.code_eq]
  data_eq := by simpa [Item.data] using h.data_eq
  labels_eq name := by simpa [symbolsOf_concat, symbolsFrom] using h.labels_eq name
  references_eq := by simpa [Item.references] using h.references_eq
  resolve_eq labels address later hdef := by
    -- to the references in front, the new byte is code that follows
    have := h.resolve_eq labels address (b :: later) (by simpa [Item.references] using hdef)
    simpa [Item.code] using this

/-- Two bytes behind some code are filled in. -/
theorem setIfInBounds_pair (code later : List UInt8) (hi lo : UInt8) :
    ((code ++ 0 :: 0 :: later).toArray.setIfInBounds code.length hi).setIfInBounds
      (code.length + 1) lo = (code ++ hi :: lo :: later).toArray := by
  simp

/-- The high byte of a zero address. -/
theorem high_zero : Word.high 0 = 0 := by decide

/-- Its low byte. -/
theorem low_zero : Word.low 0 = 0 := by decide

/-- Two zeros added to the code, with a reference that points at them, are one more item. -/
theorem holds_reference (h : Holds l items) (name : String) :
    Holds { l with
        references := l.references.push ⟨l.code.size, name, line⟩
        code := (l.code.push 0).push 0 } (items ++ [.reference name]) where
  code_eq := by simp [Item.code, h.code_eq, high_zero, low_zero]
  data_eq := by simpa [Item.data] using h.data_eq
  labels_eq name := by simpa [symbolsOf_concat, symbolsFrom] using h.labels_eq name
  references_eq := by simp [Item.references, h.references_eq]
  resolve_eq labels address later hdef := by
    rw [referencesOf_append, referencesOf_singleton] at hdef
    -- The earlier references leave the two new bytes alone, as they do with any later code.
    have hitems := h.resolve_eq labels address (0 :: 0 :: later)
      fun n hn => hdef n (List.mem_append_left _ hn)
    obtain ⟨label, hlabel, haddr⟩ :=
      Option.map_eq_some_iff.1 (hdef name (by simp [Item.references]))
    have hcode : blankCode (items ++ [.reference name]) ++ later =
        blankCode items ++ 0 :: 0 :: later := by
      simp [Item.code, high_zero, low_zero]
    have hpos : l.code.size = (codeOf address items).length := by
      rw [length_codeOf, ← h.code_eq, Array.length_toList]
    have hlast : Layout.resolveIn labels (codeOf address items ++ 0 :: 0 :: later).toArray
        ⟨l.code.size, name, line⟩ =
        .ok (codeOf address (items ++ [.reference name]) ++ later).toArray := by
      simp only [Layout.resolveIn, hlabel, hpos, setIfInBounds_pair, haddr]
      simp [Item.code]
    rw [hcode, Array.toList_push, List.foldlM_append, hitems]
    change [_].foldlM (Layout.resolveIn labels) (codeOf address items ++ 0 :: 0 :: later).toArray
      = _
    rw [List.foldlM_cons, hlast]
    rfl

/-- A word can be added exactly if there is room in the data. -/
theorem addWord_eq_ok_iff {w : Word} : l.addWord line w = .ok l' ↔
    l.data.size < segmentSize ∧ l' = { l with data := l.data.push w } := by
  unfold Layout.addWord
  split <;> simp [*, eq_comm]

/-- A byte can be added exactly if there is room in the code. -/
theorem addByte_eq_ok_iff {b : UInt8} : l.addByte line b = .ok l' ↔
    l.code.size < segmentSize ∧ l' = { l with code := l.code.push b } := by
  unfold Layout.addByte
  split <;> simp [*, eq_comm]

/-- A reference can be added exactly if there is room for two bytes. -/
theorem add_reference_eq_ok_iff {name : String} : l.add line (.reference name) = .ok l' ↔
    l.code.size + 1 < segmentSize ∧ l' = { l with
      references := l.references.push ⟨l.code.size, name, line⟩
      code := (l.code.push 0).push 0 } := by
  -- the two bytes are added one by one; the first has room wherever the second does
  by_cases hsecond : l.code.size + 1 < segmentSize
  · have hfirst : l.code.size < segmentSize := by omega
    simp [Layout.add, Layout.addByte, hfirst, hsecond, bind, Except.bind, eq_comm]
  · by_cases hfirst : l.code.size < segmentSize
    · simp [Layout.add, Layout.addByte, hfirst, hsecond, bind, Except.bind]
    · simp [Layout.add, Layout.addByte, hfirst, hsecond, bind, Except.bind]

/-- Adding an item to a layout keeps what the layout holds. -/
theorem holds_of_add {item : Item} (h : Holds l items) (hadd : l.add line item = .ok l') :
    Holds l' (items ++ [item]) := by
  -- each kind of item is added in its own way
  cases item with
  | label area name =>
    obtain ⟨hname, rfl⟩ := (addLabel_eq_ok_iff h).1 hadd
    exact holds_label h hname
  | word w =>
    obtain ⟨-, rfl⟩ := addWord_eq_ok_iff.1 hadd
    exact holds_word h w
  | byte b =>
    obtain ⟨-, rfl⟩ := addByte_eq_ok_iff.1 hadd
    exact holds_byte h b
  | reference name =>
    obtain ⟨-, rfl⟩ := add_reference_eq_ok_iff.1 hadd
    exact holds_reference h name

/-- The names of items with one more label. -/
theorem names_concat_label (items : List Item) (area : Area) (name : String) :
    (symbolsOf (items ++ [.label area name])).map Prod.fst =
      (symbolsOf items).map Prod.fst ++ [name] := by
  rw [symbolsOf_concat]
  cases area <;> simp [symbolsFrom]

/-! What one more item needs to fit behind items that do. -/

/-- One more label fits exactly if its name is new. -/
theorem fits_concat_label (h : Fits items) {area : Area} {name : String} :
    Fits (items ++ [.label area name]) ↔ name ∉ (symbolsOf items).map Prod.fst := by
  constructor
  · -- a name that is there already would stand twice
    intro hall hmem
    have hnodup := hall.names_nodup
    rw [names_concat_label] at hnodup
    exact (List.nodup_append.1 hnodup).2.2 name hmem name (by simp) rfl
  · intro hname
    refine ⟨?_, by simpa [Item.code] using h.code_le, by simpa [Item.data] using h.data_le⟩
    rw [names_concat_label]
    refine List.nodup_append.2 ⟨h.names_nodup, by simp, fun a ha b hb e => ?_⟩
    exact hname (List.mem_singleton.1 hb ▸ e ▸ ha)

/-- An item that defines no name needs room only. -/
theorem fits_concat_iff (h : Fits items) {item : Item}
    (hsymbols : ∀ code data, symbolsFrom code data [item] = []) :
    Fits (items ++ [item]) ↔
      (blankCode items).length + (blankCode [item]).length ≤ segmentSize ∧
        (dataOf items).length + (dataOf [item]).length ≤ segmentSize := by
  rw [← List.length_append, ← List.length_append, ← blankCode_append, ← dataOf_append]
  refine ⟨fun hall => ⟨hall.code_le, hall.data_le⟩, fun ⟨hcode, hdata⟩ => ⟨?_, hcode, hdata⟩⟩
  rw [symbolsOf_concat, hsymbols, List.append_nil]
  exact h.names_nodup

/-- One more word fits exactly if the data is not full. -/
theorem fits_concat_word (h : Fits items) {w : Word} :
    Fits (items ++ [.word w]) ↔ (dataOf items).length < segmentSize := by
  rw [fits_concat_iff h fun _ _ => rfl]
  exact and_iff_right h.code_le

/-- One more byte fits exactly if the code is not full. -/
theorem fits_concat_byte (h : Fits items) {b : UInt8} :
    Fits (items ++ [.byte b]) ↔ (blankCode items).length < segmentSize := by
  rw [fits_concat_iff h fun _ _ => rfl]
  exact and_iff_left h.data_le

/-- One more reference fits exactly if two bytes of code are left. -/
theorem fits_concat_reference (h : Fits items) {name : String} :
    Fits (items ++ [.reference name]) ↔ (blankCode items).length + 1 < segmentSize := by
  rw [fits_concat_iff h fun _ _ => rfl]
  exact and_iff_left h.data_le

/-- An item can be added to a layout exactly if it fits behind the items that are there. -/
theorem add_eq_ok_iff {item : Item} (h : Holds l items) (hfits : Fits items) :
    (∃ l', l.add line item = .ok l') ↔ Fits (items ++ [item]) := by
  have hcode : l.code.size = (blankCode items).length := by rw [← h.code_eq, Array.length_toList]
  have hdata : l.data.size = (dataOf items).length := by rw [← h.data_eq, Array.length_toList]
  cases item with
  | label area name =>
    have hadd (l' : Layout) : l.add line (.label area name) = .ok l' ↔ _ := addLabel_eq_ok_iff h
    rw [fits_concat_label hfits]
    simp only [hadd, exists_and_left, exists_eq, and_true]
  | word w =>
    have hadd (l' : Layout) : l.add line (.word w) = .ok l' ↔ _ := addWord_eq_ok_iff
    rw [fits_concat_word hfits, ← hdata]
    simp only [hadd, exists_and_left, exists_eq, and_true]
  | byte b =>
    have hadd (l' : Layout) : l.add line (.byte b) = .ok l' ↔ _ := addByte_eq_ok_iff
    rw [fits_concat_byte hfits, ← hcode]
    simp only [hadd, exists_and_left, exists_eq, and_true]
  | reference name =>
    rw [fits_concat_reference hfits, ← hcode]
    simp only [add_reference_eq_ok_iff, exists_and_left, exists_eq, and_true]

/-! ## Adding many items -/

/-- The first of some items that fit together fit by themselves. -/
theorem Fits.of_append {a b : List Item} (h : Fits (a ++ b)) : Fits a where
  names_nodup := by
    have := h.names_nodup
    rw [symbolsOf, symbolsFrom_append, List.map_append] at this
    exact (List.nodup_append.1 this).1
  code_le := by
    have := h.code_le
    rw [blankCode_append, List.length_append] at this
    omega
  data_le := by
    have := h.data_le
    rw [dataOf_append, List.length_append] at this
    omega

/-- Adding items one after the other keeps what a layout holds. -/
theorem holds_of_foldlM_add {more : List Item} (h : Holds l items)
    (hadd : more.foldlM (Layout.add line) l = .ok l') : Holds l' (items ++ more) := by
  have hstart : Holds l (items ++ []) := by rwa [List.append_nil]
  refine foldlM_invariant (I := fun l more => Holds l (items ++ more)) (fun hfront hstep => ?_)
    hstart hadd
  rw [← List.append_assoc]
  exact holds_of_add hfront hstep

/-- They can all be added exactly if all of them fit together. -/
theorem foldlM_add_eq_ok_iff {more : List Item} (h : Holds l items) (hfits : Fits items) :
    (∃ l', more.foldlM (Layout.add line) l = .ok l') ↔ Fits (items ++ more) := by
  -- one item at a time, with the layout and its items moving along
  induction more generalizing l items with
  | nil => simpa [pure, Except.pure] using hfits
  | cons item more ih =>
    have hone : (∃ l', l.add line item = .ok l') ↔ Fits (items ++ [item]) := add_eq_ok_iff h hfits
    have happend : items ++ item :: more = items ++ [item] ++ more := by simp
    rw [List.foldlM_cons, happend]
    simp only [bind_eq_ok_iff]
    constructor
    · rintro ⟨l', l₁, hstep, hrest⟩
      exact (ih (holds_of_add h hstep) (hone.1 ⟨l₁, hstep⟩)).1 ⟨l', hrest⟩
    · intro hall
      -- what fits in front of more items fits by itself, so the first addition succeeds
      obtain ⟨l₁, hstep⟩ := hone.2 hall.of_append
      obtain ⟨l', hrest⟩ := (ih (holds_of_add h hstep) hall.of_append).2 hall
      exact ⟨l', l₁, hstep, hrest⟩

end Add

/-! ## The image -/

/-- References that could all be filled in are all defined. -/
theorem isSome_of_foldlM_resolveIn {labels : Std.ExtHashMap String Label} {refs : List Reference}
    {code code' : Array UInt8} (h : refs.foldlM (Layout.resolveIn labels) code = .ok code') :
    ∀ r ∈ refs, labels[r.name]?.isSome := by
  refine foldlM_invariant (I := fun _ refs => ∀ r ∈ refs, labels[r.name]?.isSome)
    (fun hfront hstep => ?_) (by simp) h
  refine List.forall_mem_append.2 ⟨hfront, List.forall_mem_singleton.2 ?_⟩
  unfold Layout.resolveIn at hstep
  split at hstep
  · simp at hstep
  · simp [*]

/-- A layout gives an image exactly if every reference is defined. The image is that of the items,
with the addresses of their symbol table. -/
theorem toImage_eq_ok_iff {l : Layout} {items : List Item} {img : Image} (h : Holds l items) :
    l.toImage = .ok img ↔
      (∀ name ∈ referencesOf items, name ∈ (symbolsOf items).map Prod.fst) ∧
        img = ⟨.ofArray (codeOf (addressOf items) items).toArray 0,
          .ofArray (dataOf items).toArray 0⟩ := by
  have hcode : l.code = (blankCode items).toArray := by rw [← h.code_eq]
  have hdata : l.data = (dataOf items).toArray := by rw [← h.data_eq]
  -- With every name defined, the labels of the layout are the addresses of the symbol table.
  have hresolve (hdef : ∀ name ∈ referencesOf items, name ∈ (symbolsOf items).map Prod.fst) :
      l.references.toList.foldlM (Layout.resolveIn l.labels) l.code =
        .ok (codeOf (addressOf items) items).toArray := by
    have haddr : ∀ name ∈ referencesOf items,
        l.labels[name]?.map Label.address = some (addressOf items name) := by
      intro name hname
      rw [h.labels_eq, addressOf]
      cases hlookup : (symbolsOf items).lookup name with
      | none => exact absurd (hdef name hname) (lookup_eq_none_iff_notMem.1 hlookup)
      | some n => rfl
    simpa [hcode] using h.resolve_eq l.labels (addressOf items) [] haddr
  unfold Layout.toImage
  rw [bind_eq_ok_iff]
  constructor
  · -- an image came out, so every reference was found among the labels
    rintro ⟨code, hfold, himg⟩
    have hdef : ∀ name ∈ referencesOf items, name ∈ (symbolsOf items).map Prod.fst := by
      intro name hname
      rw [← h.references_eq] at hname
      obtain ⟨r, hr, rfl⟩ := List.mem_map.1 hname
      have hsome := isSome_of_foldlM_resolveIn hfold r hr
      refine Decidable.byContradiction fun hno => ?_
      have hnone := congrArg Option.isSome (h.labels_eq r.name)
      rw [lookup_eq_none_iff_notMem.2 hno] at hnone
      simp [hsome] at hnone
    rw [hresolve hdef] at hfold
    obtain rfl := Except.ok.inj hfold
    refine ⟨hdef, ?_⟩
    rw [← hdata]
    exact (Except.ok.inj himg).symm
  · rintro ⟨hdef, rfl⟩
    exact ⟨_, hresolve hdef, by rw [hdata]; rfl⟩

end WordMachine.Assembly

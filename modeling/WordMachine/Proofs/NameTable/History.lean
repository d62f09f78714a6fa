import Mathlib.Data.Finset.Card
import WordMachine.Proofs.NameTable.Holes

/-!
# The name table as a map with a history

A name table is told what to do by three requests: assign a name, dispose of a handle, reset. A
history is the list of what they did, the latest first, and it says by itself which name a handle
has (`nameAfter`) and which handles are live (`live`), with no look at holes and marks.
`NameTable.After` relates a history to the table it leads to from the empty one, where a name is
assigned only while some handle is free.

`names_follow_history` is the main statement: such a table answers as its history says, gives out
the lowest handle that is not live, and refuses no request.
-/

namespace WordMachine.NameTable

/-- What a request to a name table did. -/
inductive Event where
  | assigned (h : Handle) (name : String)
  | disposed (h : Handle)
  | reset
  deriving DecidableEq, Repr

/-- The name of a handle after a history: the one that it was assigned last, if it was not disposed
of since and the table was not reset since. -/
def nameAfter (x : Handle) : List Event → Option String
  | [] => none
  | .assigned h name :: past => if h = x then some name else nameAfter x past
  | .disposed h :: past => if h = x then none else nameAfter x past
  | .reset :: _ => none

/-- The handles that have a name after a history. -/
def live : List Event → Finset Handle
  | [] => ∅
  | .assigned h _ :: past => insert h (live past)
  | .disposed h :: past => (live past).erase h
  | .reset :: _ => ∅

/-- The live handles are those with a name. -/
theorem mem_live (x : Handle) (past : List Event) :
    x ∈ live past ↔ (nameAfter x past).isSome := by
  -- by induction on the history; only the latest request about a handle counts
  induction past with
  | nil => simp [live, nameAfter]
  | cons event past ih =>
    cases event with
    | assigned h name =>
      by_cases hx : h = x
      · simp [live, nameAfter, hx]
      · simp [live, nameAfter, hx, Ne.symm hx, ih]
    | disposed h =>
      by_cases hx : h = x
      · simp [live, nameAfter, hx]
      · simp [live, nameAfter, hx, Ne.symm hx, ih]
    | reset => simp [live, nameAfter]

/-- The table that a history leads to from the empty one. A name is assigned only while fewer than
65536 handles are live; handles are disposed of whether they are live or not. -/
inductive After : List Event → NameTable → Prop where
  | start : After [] .empty
  | assign {past t} (name : String) : After past t → (live past).card < 65536 →
      After (.assigned (t.assign name).1 name :: past) (t.assign name).2
  | dispose {past t t'} (h : Handle) : After past t → t.dispose h = .ok t' →
      After (.disposed h :: past) t'
  | reset {past t} : After past t → After (.reset :: past) .empty

/-! ## One request -/

variable {t t' : NameTable}

/-- Assigning a name changes the name of the handle that is given out, and no other. -/
theorem get?_assign_eq (t : NameTable) (name : String) (x : Handle) :
    (t.assign name).2.get? x = if (t.assign name).1 = x then some name else t.get? x := by
  have hnames : t.allocate.2.names = t.names := by
    unfold allocate
    split <;> rfl
  simp only [assign, get?, Std.ExtHashMap.getElem?_insert, beq_iff_eq, hnames]

/-- Assigning a name to a handle that is not live makes the table one name larger. -/
theorem size_assign {name : String} (h : (t.assign name).1 ∉ t.names) :
    (t.assign name).2.size = t.size + 1 := by
  have hnames : t.allocate.2.names = t.names := by
    unfold allocate
    split <;> rfl
  have hfree : t.allocate.1 ∉ t.names := h
  simp only [assign, size, Std.ExtHashMap.size_insert, hnames, if_neg hfree]

/-- Erasing a name takes it from that handle alone. -/
theorem get?_of_erase {x : Handle} (h : t'.names = t.names.erase x) (y : Handle) :
    t'.get? y = if x = y then none else t.get? y := by
  simp only [get?, h, Std.ExtHashMap.getElem?_erase, beq_iff_eq]

/-- Erasing a name makes the table one name smaller if there was one. -/
theorem size_of_erase {x : Handle} (h : t'.names = t.names.erase x) :
    t'.size = if x ∈ t.names then t.size - 1 else t.size := by
  simp only [size, h, Std.ExtHashMap.size_erase]

/-- The handles with a name are those that one is found for. -/
theorem mem_names_iff (t : NameTable) (x : Handle) : x ∈ t.names ↔ (t.get? x).isSome :=
  Std.ExtHashMap.mem_iff_isSome_getElem?

/-! ## Whole histories -/

/-- Of 65536 handles, fewer than 65536 leave one out. -/
theorem exists_notMem_of_card_lt {s : Finset Handle} (h : s.card < 65536) : ∃ x, x ∉ s := by
  by_contra hall
  have hmem : ∀ x, x ∈ s := fun x => not_not.1 fun hx => hall ⟨x, hx⟩
  -- the numbers below 65536 are that many different handles
  have hinj : Set.InjOn UInt16.ofNat (Finset.range 65536 : Set Nat) := by
    intro i hi j hj hij
    have hi' : i < 65536 := by simpa using hi
    have hj' : j < 65536 := by simpa using hj
    rw [← UInt16.toNat_ofNat_of_lt' hi', ← UInt16.toNat_ofNat_of_lt' hj', hij]
  have hcard := Finset.card_le_card_of_injOn UInt16.ofNat (fun i _ => hmem (UInt16.ofNat i)) hinj
  rw [Finset.card_range] at hcard
  omega

/-- What a history makes of a table: it is tidy, and its names and their number are those of the
history. -/
structure Follows (past : List Event) (t : NameTable) : Prop where
  tidy : ∃ top, Tidy t top
  get?_eq : ∀ x, t.get? x = nameAfter x past
  size_eq : t.size = (live past).card

variable {past : List Event}

/-- The handles in a table are the live handles of its history. -/
theorem Follows.mem_names (h : Follows past t) (x : Handle) : x ∈ t.names ↔ x ∈ live past := by
  rw [mem_names_iff, h.get?_eq, mem_live]

/-- Where a handle is left, the lowest that is not live is given out. -/
theorem Follows.assign_lowest (h : Follows past t) (hroom : (live past).card < 65536)
    (name : String) : (t.assign name).1 ∉ live past ∧ ∀ x < (t.assign name).1, x ∈ live past := by
  obtain ⟨top, htidy⟩ := h.tidy
  obtain ⟨x, hx⟩ := exists_notMem_of_card_lt hroom
  obtain ⟨hfree, hlow⟩ := htidy.allocate_lowest (mt (h.mem_names x).1 hx)
  exact ⟨mt (h.mem_names _).2 hfree, fun y hy => (h.mem_names y).1 (hlow y hy)⟩

/-- The empty table follows every history after which no handle is live. -/
theorem follows_empty (past : List Event) (hnone : ∀ x, nameAfter x past = none)
    (hlive : live past = ∅) : Follows past .empty where
  tidy := ⟨0, tidy_empty⟩
  get?_eq x := by simp [hnone x, get?, empty]
  size_eq := by simp [hlive, size, empty]

/-- Assigning a name keeps a table with its history. -/
theorem Follows.assign (h : Follows past t) (hroom : (live past).card < 65536) (name : String) :
    Follows (.assigned (t.assign name).1 name :: past) (t.assign name).2 := by
  obtain ⟨hfree, -⟩ := h.assign_lowest hroom name
  obtain ⟨top, htidy⟩ := h.tidy
  refine ⟨htidy.exists_assign name (mt (h.mem_names _).1 hfree), fun x => ?_, ?_⟩
  · rw [get?_assign_eq, nameAfter, h.get?_eq]
  · rw [size_assign (mt (h.mem_names _).1 hfree), h.size_eq, live,
      Finset.card_insert_of_notMem hfree]

/-- Disposing of any handle succeeds, and takes the name of that handle and no other. -/
theorem Follows.dispose (h : Follows past t) (x : Handle) :
    ∃ t', t.dispose x = .ok t' ∧ Follows (.disposed x :: past) t' ∧ (x ∉ live past → t' = t) := by
  obtain ⟨top, htidy⟩ := h.tidy
  obtain ⟨t', top', hdispose, htidy', hnames, hsame⟩ := htidy.exists_dispose x
  refine ⟨t', hdispose, ⟨⟨top', htidy'⟩, fun y => ?_, ?_⟩, fun hx => ?_⟩
  · rw [get?_of_erase hnames, nameAfter, h.get?_eq]
  · rw [size_of_erase hnames, h.size_eq, live, Finset.card_erase_eq_ite]
    exact if_congr (h.mem_names x) rfl rfl
  · exact hsame (mt (h.mem_names x).1 hx)

/-- Every table that a history leads to follows that history. -/
theorem After.follows (h : After past t) : Follows past t := by
  induction h with
  | start => exact follows_empty [] (fun _ => rfl) rfl
  | assign name _ hroom ih => exact ih.assign hroom name
  | dispose x _ hdispose ih =>
    obtain ⟨t'', hdispose', hfollows, -⟩ := ih.dispose x
    rw [hdispose] at hdispose'
    obtain rfl := Except.ok.inj hdispose'
    exact hfollows
  | reset => exact follows_empty _ (fun _ => rfl) rfl

/-- A name table is a partial map from handles to names. After every history it gives for a handle
the name assigned last, if the handle was not disposed of and the table not reset since; its size is
the number of live handles. A new name gets the lowest handle that is not live, and no other handle
changes its name. Disposing of a handle always succeeds, takes away the name of that handle alone,
and leaves the table as it is when the handle is not live. -/
theorem names_follow_history (past : List Event) (t : NameTable) (h : After past t) :
    (∀ x, t.get? x = nameAfter x past) ∧
    (∀ x, x ∈ live past ↔ (t.get? x).isSome) ∧ t.size = (live past).card ∧
    ((live past).card < 65536 → ∀ name,
      (t.assign name).1 ∉ live past ∧ (∀ x < (t.assign name).1, x ∈ live past) ∧
      ∀ x, (t.assign name).2.get? x = if (t.assign name).1 = x then some name else t.get? x) ∧
    ∀ x, ∃ t', t.dispose x = .ok t' ∧ (∀ y, t'.get? y = if x = y then none else t.get? y) ∧
      (x ∉ live past → t' = t) := by
  have hfollows := h.follows
  refine ⟨hfollows.get?_eq, fun x => ?_, hfollows.size_eq, fun hroom name => ?_, fun x => ?_⟩
  · rw [hfollows.get?_eq, mem_live]
  · obtain ⟨hfree, hlow⟩ := hfollows.assign_lowest hroom name
    exact ⟨hfree, hlow, get?_assign_eq t name⟩
  · obtain ⟨t', hdispose, hfollows', hsame⟩ := hfollows.dispose x
    refine ⟨t', hdispose, fun y => ?_, hsame⟩
    rw [hfollows'.get?_eq, hfollows.get?_eq, nameAfter]

/-- Of three names the middle one goes, then the last, which lowers the mark to the hole; the next
name takes the handle of that hole. -/
theorem names_follow_history_hole :
    ∃ t, After [.disposed 2, .disposed 1, .assigned 2 "c", .assigned 1 "b", .assigned 0 "a"] t ∧
      t.get? 0 = some "a" ∧ t.get? 1 = none ∧ t.size = 1 ∧ (t.assign "d").1 = 1 := by
  have habc : After [.assigned 2 "c", .assigned 1 "b", .assigned 0 "a"] _ :=
    .assign "c" (.assign "b" (.assign "a" .start (by decide)) (by decide)) (by decide)
  obtain ⟨t₁, h₁, -⟩ := habc.follows.dispose 1
  have hb := After.dispose 1 habc h₁
  obtain ⟨t₂, h₂, -⟩ := hb.follows.dispose 2
  have hc := After.dispose 2 hb h₂
  obtain ⟨hget, -, hsize, hassign, -⟩ := names_follow_history _ t₂ hc
  obtain ⟨hfree, hlow, -⟩ := hassign (by decide) "d"
  refine ⟨t₂, hc, hget 0, hget 1, hsize, ?_⟩
  -- handle 0 is live and 1 is not, so the lowest free handle can only be 1
  have hzero : (t₂.assign "d").1 ≠ 0 := by
    intro e
    rw [e] at hfree
    exact hfree (by decide)
  have hone : ¬ (1 : Handle) < (t₂.assign "d").1 := fun hlt => absurd (hlow 1 hlt) (by decide)
  rw [UInt16.lt_iff_toNat_lt] at hone
  have hne : (t₂.assign "d").1.toNat ≠ 0 := fun e => hzero (UInt16.toNat_inj.1 e)
  have hval : (1 : Handle).toNat = 1 := rfl
  apply UInt16.toNat_inj.1
  omega

end WordMachine.NameTable

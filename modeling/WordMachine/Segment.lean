import WordMachine.Word

/-!
# Memory segments

A segment has one cell for each of the 65536 addresses, so every word is a valid address and a
look-up cannot fail. Two segments that agree at every address are equal (`Segment.ext_get`).
-/

namespace WordMachine

/-- The number of cells of a segment, and of addresses a word can name. -/
abbrev segmentSize : Nat := 65536

/-- A memory with one cell for each word address. -/
structure Segment (α : Type) where
  cells : Vector α segmentSize

namespace Segment

variable {α : Type}

/-- The segment that holds `a` everywhere. -/
def fill (a : α) : Segment α := ⟨Vector.replicate segmentSize a⟩

/-- The segment whose cell at address `i` is `f i`. -/
def ofFn (f : Nat → α) : Segment α := ⟨Vector.ofFn fun i => f i⟩

/-- The segment that starts with `xs` and holds `a` from there on. -/
def ofArray (xs : Array α) (a : α) : Segment α := ofFn fun i => xs.getD i a

/-- The cell at an address. -/
def get (s : Segment α) (a : Word) : α :=
  have h : a.toNat < segmentSize := a.toNat_lt
  s.cells[a.toNat]

/-- The segment with the cell at one address replaced. -/
def set (s : Segment α) (a : Word) (x : α) : Segment α :=
  have h : a.toNat < segmentSize := a.toNat_lt
  ⟨s.cells.set a.toNat x⟩

/-- The cells in address order. -/
def toArray (s : Segment α) : Array α := s.cells.toArray

/-- The `n` cells from an address on, as far as the segment reaches. -/
def slice (s : Segment α) (a : Word) (n : Nat) : List α :=
  (s.toArray.extract a.toNat (a.toNat + n)).toList

/-- The segment with cells replaced from an address on, the addresses wrapping at the end. -/
def setAll (s : Segment α) (a : Word) : List α → Segment α
  | [] => s
  | x :: xs => (s.set a x).setAll (a + 1) xs

/-- One past the last cell that is not zero, or zero when there is none. -/
def used [BEq α] [OfNat α 0] (s : Segment α) : Nat :=
  (s.toArray.toList.zipIdx 1).foldl (fun n (x, i) => if x == 0 then n else i) 0

/-- Every cell of a filled segment holds the filler. -/
theorem get_fill (a : α) (i : Word) : (fill a).get i = a := by
  simp [fill, get]

/-- A cell holds what was written to it. -/
theorem get_set_self (s : Segment α) (a : Word) (x : α) : (s.set a x).get a = x := by
  simp [get, set]

/-- Writing one cell leaves the others alone. -/
theorem get_set_of_ne (s : Segment α) {a b : Word} (x : α) (h : a ≠ b) :
    (s.set a x).get b = s.get b := by
  have h' : a.toNat ≠ b.toNat := fun e => h (UInt16.toNat_inj.1 e)
  simp only [get, set]
  exact Vector.getElem_set_ne _ _ h'

/-- Segments are equal when they agree at every address. -/
theorem ext_get {s t : Segment α} (h : ∀ a, s.get a = t.get a) : s = t := by
  obtain ⟨s⟩ := s
  obtain ⟨t⟩ := t
  congr 1
  ext i hi
  have ha : (UInt16.ofNat i).toNat = i := UInt16.toNat_ofNat_of_lt' hi
  have := h (UInt16.ofNat i)
  simpa only [get, ha] using this

end Segment

end WordMachine

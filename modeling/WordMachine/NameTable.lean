import Std.Data.ExtHashMap
import WordMachine.Fault

/-!
# The name table

Names handed to services get small handles. A new name takes the lowest free handle: the start of
the first hole, or the mark when there is no hole. A hole is a range of free handles below the
mark. Releasing the handle just below the mark lowers the mark; releasing any other handle widens a
neighbouring hole, joining two holes that come to touch, or opens a new one (`Hole.insert`).

The end of a hole is a handle too, so a hole cannot hold handle 65535. Releasing that handle when it
is not just below the mark is a fault (`Fault.handleOverflow`).
-/

namespace WordMachine

/-- A number that stands for a name. -/
abbrev Handle := UInt16

/-- A nonempty range of free handles: from `lo` on, below `hi`. -/
structure Hole where
  lo : Handle
  hi : Handle
  lo_lt_hi : lo < hi
  deriving DecidableEq

namespace Hole

/-- The hole without its first handle, if any is left. -/
def tail? (hole : Hole) : Option Hole :=
  if h : hole.lo + 1 < hole.hi then some ⟨hole.lo + 1, hole.hi, h⟩ else none

/-- Whether a handle lies in one of the holes. -/
def Covers (holes : List Hole) (x : Handle) : Prop := ∃ hole ∈ holes, hole.lo ≤ x ∧ x < hole.hi

/-- A handle is covered by the first hole or by one of the others. -/
theorem covers_cons {hole : Hole} {holes : List Hole} {x : Handle} :
    Covers (hole :: holes) x ↔ (hole.lo ≤ x ∧ x < hole.hi) ∨ Covers holes x := by
  simp [Covers]

/-- The hole that holds one handle, which must not be the last of all. -/
def single (h : Handle) (lt : h < h + 1) : Hole := ⟨h, h + 1, lt⟩

/-- A hole in front of others, joined with the first of them if the two touch. -/
def joinTo (hole : Hole) : List Hole → List Hole
  | [] => [hole]
  | next :: rest =>
    if touch : hole.hi = next.lo then
      ⟨hole.lo, next.hi, UInt16.lt_trans (touch ▸ hole.lo_lt_hi) next.lo_lt_hi⟩ :: rest
    else hole :: next :: rest

/-- Joining a hole to those behind it covers the same handles. -/
theorem covers_joinTo {hole : Hole} {holes : List Hole} {x : Handle} :
    Covers (hole.joinTo holes) x ↔ Covers (hole :: holes) x := by
  cases holes with
  | nil => rfl
  | cons next rest =>
    rw [joinTo]
    split
    · rename_i touch
      have h₁ := hole.lo_lt_hi
      have h₂ := next.lo_lt_hi
      simp only [covers_cons, UInt16.le_iff_toNat_le, UInt16.lt_iff_toNat_lt, touch] at *
      rw [← or_assoc]
      refine or_congr ?_ Iff.rfl
      omega
    · rfl

/-- Holes in order, none touching another, with one more handle free. The handle, which is in none
of them, widens the holes that it touches, or makes one of its own. -/
def insert (h : Handle) (lt : h < h + 1) : List Hole → List Hole
  | [] => [single h lt]
  | hole :: rest =>
    if hole.hi < h then hole :: insert h lt rest
    else if touch : hole.hi = h then
      joinTo ⟨hole.lo, h + 1, UInt16.lt_trans (touch ▸ hole.lo_lt_hi) lt⟩ rest
    else joinTo (single h lt) (hole :: rest)

/-- Just the handle inserted is covered in addition. -/
theorem covers_insert {h : Handle} {lt : h < h + 1} {holes : List Hole} {x : Handle} :
    Covers (insert h lt holes) x ↔ x = h ∨ Covers holes x := by
  have hone : h.toNat + 1 = (h + 1).toNat := by
    have hlt := UInt16.lt_iff_toNat_lt.1 lt
    have hmod : (h + 1).toNat = (h.toNat + 1) % 65536 := by simp [UInt16.toNat_add]
    have hh := h.toNat_lt
    omega
  have hsingle : ((single h lt).lo ≤ x ∧ x < (single h lt).hi) ↔ x = h := by
    simp only [single, UInt16.le_iff_toNat_le, UInt16.lt_iff_toNat_lt, ← UInt16.toNat_inj]
    omega
  induction holes with
  | nil => simp only [insert, covers_cons, hsingle]
  | cons hole rest ih =>
    rw [insert]
    split
    · exact covers_cons.trans ((or_congr Iff.rfl ih).trans
        (or_left_comm.trans (or_congr Iff.rfl covers_cons.symm)))
    · split
      · rename_i touch
        have hlt := UInt16.lt_iff_toNat_lt.1 hole.lo_lt_hi
        have htouch := congrArg UInt16.toNat touch
        rw [covers_joinTo, covers_cons, covers_cons, ← or_assoc]
        refine or_congr ?_ Iff.rfl
        simp only [UInt16.le_iff_toNat_le, UInt16.lt_iff_toNat_lt, ← UInt16.toNat_inj]
        omega
      · rw [covers_joinTo, covers_cons, hsingle]

end Hole

/-- Names by handle, and which handles are free. -/
structure NameTable where
  names : Std.ExtHashMap Handle String
  holes : List Hole
  mark : Handle

namespace NameTable

/-- The table without names. -/
def empty : NameTable := ⟨∅, [], 0⟩

/-- The name of a handle. -/
def get? (t : NameTable) (h : Handle) : Option String := t.names[h]?

/-- The number of names. -/
def size (t : NameTable) : Nat := t.names.size

/-- The lowest free handle, and the table in which it is taken. -/
def allocate (t : NameTable) : Handle × NameTable :=
  match t.holes with
  | [] => (t.mark, { t with mark := t.mark + 1 })
  | hole :: rest => (hole.lo, { t with holes := hole.tail?.toList ++ rest })

/-- Gives a name the lowest free handle. -/
def assign (t : NameTable) (name : String) : Handle × NameTable :=
  let (h, t) := t.allocate
  (h, { t with names := t.names.insert h name })

/-! ## Releasing handles -/

/-- Makes a handle free again. -/
def release : NameTable → Handle → Except Fault NameTable
  | ⟨names, holes, mark⟩, h =>
    if h + 1 = mark then .ok ⟨names, holes, h⟩
    else if lt : h < h + 1 then .ok ⟨names, Hole.insert h lt holes, mark⟩
    else .error .handleOverflow

/-- Forgets the name of a handle. A handle without a name is left as it is. -/
def dispose : NameTable → Handle → Except Fault NameTable
  | ⟨names, holes, mark⟩, h =>
    if h ∈ names then release ⟨names.erase h, holes, mark⟩ h else .ok ⟨names, holes, mark⟩

end NameTable

end WordMachine

import Mathlib.Algebra.Group.Nat.Defs
import WordMachine.Segment

/-!
# Values in a row

A segment made from a list starts with the list and holds a filler behind it. `Segment.HoldsAt` says
that some values stand in a row from an address on, and `holdsAt_ofArray` that every stretch of the
list does so at its place, as far as the segment reaches. Values written in a row stand where they
were written, and every other cell is as before (`get_setAll`); values read in a row are those of
the cells (`getElem?_slice`).
-/

namespace WordMachine.Segment

variable {α : Type}

/-- The cells of a segment given by a function. -/
@[simp]
theorem get_ofFn (f : Nat → α) (a : Word) : (ofFn f).get a = f a.toNat := by
  simp [ofFn, get]

/-- The cells of a segment made from an array, with the filler behind its end. -/
@[simp]
theorem get_ofArray (xs : Array α) (filler : α) (a : Word) :
    (ofArray xs filler).get a = xs.getD a.toNat filler := get_ofFn _ a

/-- A segment of nothing but filler. -/
theorem ofArray_empty (filler : α) : ofArray #[] filler = fill filler := by
  apply ext_get
  intro a
  rw [get_ofArray, get_fill]
  rfl

/-- The cells from an address on start with the given values. The address wraps at the end. -/
def HoldsAt (s : Segment α) (a : Word) : List α → Prop
  | [] => True
  | x :: xs => s.get a = x ∧ s.HoldsAt (a + 1) xs

/-- A stretch of the list that a segment is made from stands at its place. -/
theorem holdsAt_ofArray (front xs back : List α) (filler : α)
    (h : front.length + xs.length ≤ segmentSize) :
    (ofArray (front ++ (xs ++ back)).toArray filler).HoldsAt (UInt16.ofNat front.length) xs := by
  -- by induction on the stretch; what has been passed moves to the front part
  induction xs generalizing front with
  | nil => trivial
  | cons x xs ih =>
    rw [List.length_cons] at h
    have hlt : front.length < segmentSize := by omega
    have hfront : (UInt16.ofNat front.length).toNat = front.length :=
      UInt16.toNat_ofNat_of_lt' hlt
    refine ⟨?_, ?_⟩
    · rw [get_ofArray, hfront]
      simp
    · -- the rest stands behind one value more
      have hnext : UInt16.ofNat front.length + 1 = UInt16.ofNat (front ++ [x]).length := by
        rw [List.length_append, List.length_singleton, UInt16.ofNat_add]
        rfl
      have hlist : front ++ (x :: xs ++ back) = front ++ [x] ++ (xs ++ back) := by simp
      rw [hnext, hlist]
      exact ih (front ++ [x]) (by rw [List.length_append, List.length_singleton]; omega)

/-- Values written from an address on, as far as the segment reaches: a cell that a value falls on
holds that value, and every other cell holds what it held. -/
theorem get_setAll (s : Segment α) {a : Word} {xs : List α}
    (h : a.toNat + xs.length ≤ segmentSize) (b : Word) :
    (s.setAll a xs).get b =
      if a.toNat ≤ b.toNat then xs[b.toNat - a.toNat]?.getD (s.get b) else s.get b := by
  induction xs generalizing s a with
  | nil => simp [setAll]
  | cons x xs ih =>
    rw [List.length_cons] at h
    -- the address can wrap only behind the last value, where it is not used
    have hnext : xs ≠ [] → (a + 1).toNat = a.toNat + 1 := by
      intro hne
      have hpos := List.length_pos_iff.2 hne
      rw [UInt16.toNat_add]
      exact Nat.mod_eq_of_lt (show a.toNat + 1 < segmentSize by omega)
    have hrest : (s.setAll a (x :: xs)).get b =
        if a.toNat + 1 ≤ b.toNat then xs[b.toNat - (a.toNat + 1)]?.getD ((s.set a x).get b)
        else (s.set a x).get b := by
      by_cases hne : xs = []
      · subst hne
        simp [setAll]
      · rw [setAll, ih (s.set a x) (by rw [hnext hne]; omega), hnext hne]
    rw [hrest]
    -- the first value counts where it falls; further on, the places are one less in the rest
    by_cases hab : a = b
    · subst hab
      rw [if_neg (by omega), if_pos (Nat.le_refl _), Nat.sub_self, get_set_self]
      rfl
    · have hval : a.toNat ≠ b.toNat := fun e => hab (UInt16.toNat_inj.1 e)
      rw [get_set_of_ne s x hab]
      by_cases hle : a.toNat ≤ b.toNat
      · have hsub : b.toNat - a.toNat = b.toNat - (a.toNat + 1) + 1 := by omega
        rw [if_pos (by omega), if_pos hle, hsub, List.getElem?_cons_succ]
      · rw [if_neg (by omega), if_neg hle]

/-! ## Ranges that do not wrap -/

/-- An address that stays inside the segment does not wrap. -/
theorem toNat_add_ofNat {a : Word} {i : Nat} (h : a.toNat + i < segmentSize) :
    (a + UInt16.ofNat i).toNat = a.toNat + i := by
  have hi : (UInt16.ofNat i).toNat = i :=
    UInt16.toNat_ofNat_of_lt' (show i < segmentSize by omega)
  rw [UInt16.toNat_add, hi]
  exact Nat.mod_eq_of_lt h

/-- A range inside the segment has as many cells as asked for. -/
theorem length_slice (s : Segment α) {a : Word} {n : Nat} (h : a.toNat + n ≤ segmentSize) :
    (s.slice a n).length = n := by
  simp only [slice, toArray, Array.length_toList, Array.size_extract, Vector.size_toArray]
  omega

/-- The cells of a range, one by one. -/
theorem getElem?_slice (s : Segment α) {a : Word} {n i : Nat} (h : a.toNat + n ≤ segmentSize)
    (hi : i < n) : (s.slice a n)[i]? = some (s.get (a + UInt16.ofNat i)) := by
  have hlt : a.toNat + i < segmentSize := by omega
  have hi' : i < (s.slice a n).length := by rw [length_slice s h]; exact hi
  rw [List.getElem?_eq_getElem hi']
  simp [slice, toArray, get, toNat_add_ofNat hlt]

end WordMachine.Segment

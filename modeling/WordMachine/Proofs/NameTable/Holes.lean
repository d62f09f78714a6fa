import WordMachine.NameTable

/-!
# The free handles

A name table is tidy up to `top` when its holes are in order with a handle between any two of them,
all holes are below `top`, and the live handles are those below `top` that are in no hole. The mark
is `top` as a handle, so both an empty and a full table may have mark 0; `top` tells them apart.

Every operation keeps a table tidy (`Tidy.exists_assign`, `Tidy.exists_dispose`). What a tidy table
takes for a new name is the lowest handle that is not live (`allocate_lowest`), as long as there is
one, and releasing a live handle never needs a hole that ends past the last handle.
-/

namespace WordMachine

namespace Hole

/-- A handle that is not the last of all is one below the next. -/
theorem toNat_next {h : Handle} (lt : h < h + 1) : (h + 1).toNat = h.toNat + 1 := by
  have hlt := UInt16.lt_iff_toNat_lt.1 lt
  have hmod : (h + 1).toNat = (h.toNat + 1) % 65536 := by simp [UInt16.toNat_add]
  have hh := h.toNat_lt
  omega

/-- Holes in order, with at least one handle between any two. -/
def Apart (holes : List Hole) : Prop := holes.Pairwise fun a b => a.hi < b.lo

/-- No holes are apart. -/
theorem apart_nil : Apart [] := List.Pairwise.nil

/-- Holes are apart if the first ends before all others start and those are apart. -/
theorem apart_cons {hole : Hole} {rest : List Hole} :
    Apart (hole :: rest) ↔ (∀ next ∈ rest, hole.hi < next.lo) ∧ Apart rest := List.pairwise_cons

/-- No holes cover no handle. -/
theorem not_covers_nil (x : Handle) : ¬ Covers [] x := by simp [Covers]

/-- A hole covers its first handle. -/
theorem covers_lo {hole : Hole} {holes : List Hole} (h : hole ∈ holes) : Covers holes hole.lo :=
  ⟨hole, h, UInt16.le_refl _, hole.lo_lt_hi⟩

/-- What holes in order cover lies behind the first of them, or in it. -/
theorem lt_of_covers {hole : Hole} {rest : List Hole} {x : Handle} (h : Apart (hole :: rest))
    (hx : Covers rest x) : hole.hi < x := by
  obtain ⟨next, hnext, hlo, -⟩ := hx
  exact UInt16.lt_of_lt_of_le ((apart_cons.1 h).1 next hnext) hlo

/-- What holes in order cover lies at the start of the first of them or behind it. -/
theorem lo_le_of_covers {hole : Hole} {rest : List Hole} {x : Handle} (h : Apart (hole :: rest))
    (hx : Covers (hole :: rest) x) : hole.lo ≤ x := by
  rcases covers_cons.1 hx with hin | hrest
  · exact hin.1
  · have hlt := UInt16.lt_trans hole.lo_lt_hi (lt_of_covers h hrest)
    exact UInt16.le_of_lt hlt

/-! ## One handle less -/

/-- Without its first handle, a hole covers the others. -/
theorem covers_tail (hole : Hole) (x : Handle) :
    Covers hole.tail?.toList x ↔ (hole.lo ≤ x ∧ x < hole.hi) ∧ x ≠ hole.lo := by
  have hlt := UInt16.lt_iff_toNat_lt.1 hole.lo_lt_hi
  have hhi := hole.hi.toNat_lt
  have hnext : (hole.lo + 1).toNat = hole.lo.toNat + 1 := by
    have hmod : (hole.lo + 1).toNat = (hole.lo.toNat + 1) % 65536 := by simp [UInt16.toNat_add]
    omega
  unfold tail?
  split
  · -- at least one handle is left
    rename_i hmore
    simp only [Option.toList_some, covers_cons, or_iff_left (not_covers_nil x), ne_eq,
      UInt16.le_iff_toNat_le, UInt16.lt_iff_toNat_lt, ← UInt16.toNat_inj, hnext]
    omega
  · -- the first handle was the only one
    rename_i hlast
    rw [UInt16.lt_iff_toNat_lt, hnext] at hlast
    refine iff_of_false (not_covers_nil x) ?_
    simp only [ne_eq, UInt16.le_iff_toNat_le, UInt16.lt_iff_toNat_lt, ← UInt16.toNat_inj]
    omega

/-- Two lists of holes cover what one of them covers. -/
theorem covers_append {holes holes' : List Hole} {x : Handle} :
    Covers (holes ++ holes') x ↔ Covers holes x ∨ Covers holes' x := by
  simp [Covers, or_and_right, exists_or]

/-- Taking the first handle of the first hole uncovers just that handle. -/
theorem covers_take {hole : Hole} {rest : List Hole} (h : Apart (hole :: rest)) (x : Handle) :
    Covers (hole.tail?.toList ++ rest) x ↔ Covers (hole :: rest) x ∧ x ≠ hole.lo := by
  rw [covers_append, covers_tail, covers_cons, or_and_right]
  refine or_congr_right (iff_self_and.2 fun hx heq => ?_)
  have hlt := UInt16.lt_trans hole.lo_lt_hi (lt_of_covers h hx)
  exact UInt16.lt_irrefl _ (heq ▸ hlt)

/-- Holes stay apart when the first handle of the first hole is taken. -/
theorem apart_take {hole : Hole} {rest : List Hole} (h : Apart (hole :: rest)) :
    Apart (hole.tail?.toList ++ rest) := by
  unfold tail?
  split
  · exact apart_cons.2 ⟨(apart_cons.1 h).1, (apart_cons.1 h).2⟩
  · exact (apart_cons.1 h).2

/-! ## One handle more -/

/-- A hole in front of holes that are apart, joined to the first of them if the two meet, is apart
from all that follow. -/
theorem apart_joinTo {hole : Hole} {holes : List Hole} (h : ∀ next ∈ holes, hole.hi ≤ next.lo)
    (hapart : Apart holes) : Apart (hole.joinTo holes) := by
  cases holes with
  | nil => exact apart_cons.2 ⟨nofun, apart_nil⟩
  | cons next rest =>
    obtain ⟨hnext, hrest⟩ := apart_cons.1 hapart
    rw [joinTo]
    split
    · -- the two meet, and the joined hole ends where the next one did
      exact apart_cons.2 ⟨hnext, hrest⟩
    · rename_i hne
      have hlt : hole.hi < next.lo := UInt16.lt_of_le_of_ne (h next List.mem_cons_self) hne
      refine apart_cons.2 ⟨fun other hother => ?_, hapart⟩
      rcases List.mem_cons.1 hother with rfl | hmem
      · exact hlt
      · exact UInt16.lt_trans hlt (UInt16.lt_trans next.lo_lt_hi (hnext other hmem))

/-- A handle that no hole covers can be inserted without disturbing the order. -/
theorem apart_insert {h : Handle} {lt : h < h + 1} {holes : List Hole} (hfree : ¬ Covers holes h)
    (hapart : Apart holes) : Apart (insert h lt holes) := by
  have hnext := toNat_next lt
  induction holes with
  | nil => exact apart_cons.2 ⟨nofun, apart_nil⟩
  | cons hole rest ih =>
    obtain ⟨hbehind, hrest⟩ := apart_cons.1 hapart
    have hnot : ¬ Covers rest h := fun hc => hfree (covers_cons.2 (.inr hc))
    have hout : ¬ (hole.lo ≤ h ∧ h < hole.hi) := fun hin => hfree (covers_cons.2 (.inl hin))
    rw [insert]
    split
    · -- the handle goes behind this hole, and so does every hole that comes of the rest
      rename_i hlt
      refine apart_cons.2 ⟨fun next hmem => ?_, ih hnot hrest⟩
      rcases covers_insert.1 (covers_lo hmem) with heq | hcov
      · exact heq ▸ hlt
      · exact lt_of_covers hapart hcov
    · rename_i hle
      split
      · -- the handle widens this hole, which may now reach the next
        rename_i touch
        refine apart_joinTo (fun next hmem => ?_) hrest
        have hlt := UInt16.lt_iff_toNat_lt.1 (hbehind next hmem)
        rw [touch] at hlt
        rw [UInt16.le_iff_toNat_le, hnext]
        exact hlt
      · -- the handle stands before this hole
        rename_i htouch
        have hlow : h < hole.lo := by
          rw [UInt16.lt_iff_toNat_lt] at hle ⊢
          have hne : hole.hi.toNat ≠ h.toNat := fun e => htouch (UInt16.toNat_inj.1 e)
          simp only [UInt16.le_iff_toNat_le, UInt16.lt_iff_toNat_lt] at hout
          omega
        refine apart_joinTo (fun next hmem => ?_) hapart
        have hle : hole.lo ≤ next.lo := lo_le_of_covers hapart (covers_lo hmem)
        rw [UInt16.le_iff_toNat_le] at hle ⊢
        have hlow' := UInt16.lt_iff_toNat_lt.1 hlow
        change (h + 1).toNat ≤ next.lo.toNat
        omega

end Hole

namespace NameTable

open Hole (Covers)

/-- The holes are in order and below `top`, and the handles below `top` that are in no hole are
live. -/
structure Tidy (t : NameTable) (top : Nat) : Prop where
  top_le : top ≤ 65536
  mark_eq : t.mark = UInt16.ofNat top
  apart : Hole.Apart t.holes
  below : ∀ x, Covers t.holes x → x.toNat < top
  mem_iff : ∀ x, x ∈ t.names ↔ x.toNat < top ∧ ¬ Covers t.holes x

/-- The empty table is tidy, with nothing below its top. -/
theorem tidy_empty : Tidy .empty 0 where
  top_le := Nat.zero_le _
  mark_eq := rfl
  apart := Hole.apart_nil
  below x h := absurd h (Hole.not_covers_nil x)
  mem_iff x := by simp [empty]

variable {t : NameTable} {top : Nat}

/-! ## Taking a handle -/

/-- Without holes, the handle at the mark is taken and the mark moves on. -/
theorem allocate_of_nil (h : t.holes = []) :
    t.allocate = (t.mark, { t with mark := t.mark + 1 }) := by
  unfold allocate
  rw [h]

/-- With holes, the first handle of the first hole is taken. -/
theorem allocate_of_cons {hole : Hole} {rest : List Hole} (h : t.holes = hole :: rest) :
    t.allocate = (hole.lo, { t with holes := hole.tail?.toList ++ rest }) := by
  unfold allocate
  rw [h]

/-- A tidy table without holes that is not full has its mark at `top`. -/
theorem Tidy.toNat_mark (h : Tidy t top) (hholes : t.holes = []) {x : Handle} (hx : x ∉ t.names) :
    t.mark.toNat = top := by
  have hlt : top < 65536 := by
    have hmem := h.mem_iff x
    rw [hholes, and_iff_left (Hole.not_covers_nil x)] at hmem
    have hge : top ≤ x.toNat := Nat.not_lt.1 fun hlt => hx (hmem.2 hlt)
    exact Nat.lt_of_le_of_lt hge x.toNat_lt
  rw [h.mark_eq, UInt16.toNat_ofNat_of_lt' hlt]

/-- The handle that a tidy table takes is not live, and every lower one is. -/
theorem Tidy.allocate_lowest (h : Tidy t top) {x : Handle} (hx : x ∉ t.names) :
    t.allocate.1 ∉ t.names ∧ ∀ y < t.allocate.1, y ∈ t.names := by
  cases hholes : t.holes with
  | nil =>
    -- without holes, the handles below the mark are the live ones
    have hmark := h.toNat_mark hholes hx
    rw [allocate_of_nil hholes]
    refine ⟨fun hmem => ?_, fun y hy => (h.mem_iff y).2 ⟨?_, ?_⟩⟩
    · have hlt := ((h.mem_iff t.mark).1 hmem).1
      omega
    · rw [← hmark]
      exact UInt16.lt_iff_toNat_lt.1 hy
    · rw [hholes]
      exact Hole.not_covers_nil y
  | cons hole rest =>
    have hlo : Covers t.holes hole.lo := hholes ▸ Hole.covers_lo List.mem_cons_self
    have hapart := hholes ▸ h.apart
    rw [allocate_of_cons hholes]
    refine ⟨fun hmem => ((h.mem_iff _).1 hmem).2 hlo, fun y hy => (h.mem_iff y).2 ⟨?_, ?_⟩⟩
    · exact Nat.lt_trans (UInt16.lt_iff_toNat_lt.1 hy) (h.below _ hlo)
    · -- the first hole is the lowest
      rw [hholes]
      intro hcov
      exact UInt16.not_lt.2 (Hole.lo_le_of_covers hapart hcov) hy

/-- A table that is not full stays tidy when a name is assigned. -/
theorem Tidy.exists_assign (h : Tidy t top) (name : String) {x : Handle} (hx : x ∉ t.names) :
    ∃ top, Tidy (t.assign name).2 top := by
  unfold assign
  cases hholes : t.holes with
  | nil =>
    -- without holes, the top moves up by one
    have hmark := h.toNat_mark hholes hx
    have hlt := t.mark.toNat_lt
    have hmem : ∀ y, y ∈ t.names ↔ y.toNat < top := by
      intro y
      rw [h.mem_iff, hholes, and_iff_left (Hole.not_covers_nil y)]
    rw [allocate_of_nil hholes]
    refine ⟨top + 1, by omega, ?_, h.apart, fun y hy => ?_, fun y => ?_⟩
    · rw [UInt16.ofNat_add, ← h.mark_eq]
      rfl
    · exact Nat.lt_succ_of_lt (h.below y hy)
    · dsimp only
      rw [hholes, and_iff_left (Hole.not_covers_nil y), Std.ExtHashMap.mem_insert, beq_iff_eq,
        hmem, ← UInt16.toNat_inj]
      omega
  | cons hole rest =>
    -- otherwise the top stays, and one handle leaves the first hole
    have hapart := hholes ▸ h.apart
    have hbelow := h.below _ (hholes ▸ Hole.covers_lo List.mem_cons_self)
    have hcov : ∀ y, Covers (hole.tail?.toList ++ rest) y ↔ Covers t.holes y ∧ y ≠ hole.lo :=
      hholes ▸ Hole.covers_take hapart
    rw [allocate_of_cons hholes]
    refine ⟨top, h.top_le, h.mark_eq, Hole.apart_take hapart, fun y hy => ?_, fun y => ?_⟩
    · exact h.below y ((hcov y).1 hy).1
    · dsimp only
      rw [Std.ExtHashMap.mem_insert, beq_iff_eq, h.mem_iff, hcov]
      by_cases hy : hole.lo = y
      · subst hy
        simp [hbelow]
      · simp [hy, Ne.symm hy]

/-! ## Giving a handle back -/

/-- Releasing the handle right below the mark lowers the mark. -/
theorem release_of_mark (t : NameTable) {x : Handle} (h : x + 1 = t.mark) :
    t.release x = .ok { t with mark := x } := by
  unfold release
  exact if_pos h

/-- Releasing any other handle that is not the last of all puts it into a hole. -/
theorem release_of_lt (t : NameTable) {x : Handle} (h : x + 1 ≠ t.mark) (lt : x < x + 1) :
    t.release x = .ok { t with holes := Hole.insert x lt t.holes } := by
  unfold release
  exact (if_neg h).trans (dif_pos lt)

/-- Disposing of a live handle takes its name and releases it. -/
theorem dispose_of_mem {x : Handle} (h : x ∈ t.names) :
    t.dispose x = release { t with names := t.names.erase x } x := by
  unfold dispose
  exact if_pos h

/-- Disposing of a handle that is not live does nothing. -/
theorem dispose_of_notMem {x : Handle} (h : x ∉ t.names) : t.dispose x = .ok t := by
  unfold dispose
  exact if_neg h

/-- The names without the one of a live handle, in a table whose live handles are known. -/
theorem Tidy.mem_erase (h : Tidy t top) (x y : Handle) :
    y ∈ t.names.erase x ↔ (y.toNat < top ∧ ¬ Covers t.holes y) ∧ y ≠ x := by
  rw [Std.ExtHashMap.mem_erase, h.mem_iff, beq_eq_false_iff_ne, and_comm, ne_comm]

/-- Releasing the highest live handle lowers the mark to it: no hole reaches above it. -/
theorem Tidy.lower (h : Tidy t top) {x : Handle} (hx : x ∈ t.names) (hmark : x + 1 = t.mark) :
    Tidy { t with names := t.names.erase x, mark := x } x.toNat := by
  obtain ⟨hlt, hfree⟩ := (h.mem_iff x).1 hx
  have htop := h.top_le
  -- the mark is the top as a handle, so the handle released is just below the top
  have hnext : x.toNat + 1 = top := by
    have hmod : (x + 1).toNat = (x.toNat + 1) % 65536 := by simp [UInt16.toNat_add]
    have hval := congrArg UInt16.toNat (hmark.trans h.mark_eq)
    rw [hmod, UInt16.toNat_ofNat'] at hval
    have hx' := x.toNat_lt
    omega
  refine ⟨by omega, by simp, h.apart, fun y hy => ?_, fun y => ?_⟩
  · have hy' := h.below y hy
    have hne : y.toNat ≠ x.toNat := fun e => hfree (UInt16.toNat_inj.1 e ▸ hy)
    omega
  · rw [h.mem_erase, and_right_comm, ne_eq, ← UInt16.toNat_inj]
    refine and_congr_left fun _ => ?_
    change y.toNat < top ∧ y.toNat ≠ x.toNat ↔ y.toNat < x.toNat
    omega

/-- The last handle of all is live only while the mark is just behind it. -/
theorem Tidy.lt_next (h : Tidy t top) {x : Handle} (hx : x ∈ t.names) (hmark : x + 1 ≠ t.mark) :
    x < x + 1 := by
  have htop := h.top_le
  have hlt := ((h.mem_iff x).1 hx).1
  have hmod : (x + 1).toNat = (x.toNat + 1) % 65536 := by simp [UInt16.toNat_add]
  -- if the last handle is live, the top is 65536 and the mark wraps to 0 behind that handle
  have hnot : x.toNat + 1 ≠ 65536 := by
    intro hlast
    have hfull : top = 65536 := by omega
    apply hmark
    apply UInt16.toNat_inj.1
    rw [hmod, h.mark_eq, hfull, hlast]
    rfl
  rw [UInt16.lt_iff_toNat_lt, hmod]
  omega

/-- Any other live handle goes into a hole. -/
theorem Tidy.widen (h : Tidy t top) {x : Handle} (hx : x ∈ t.names) (lt : x < x + 1) :
    Tidy { t with names := t.names.erase x, holes := Hole.insert x lt t.holes } top := by
  obtain ⟨hlt, hfree⟩ := (h.mem_iff x).1 hx
  refine ⟨h.top_le, h.mark_eq, Hole.apart_insert hfree h.apart, fun y hy => ?_, fun y => ?_⟩
  · rcases Hole.covers_insert.1 hy with rfl | hcov
    · exact hlt
    · exact h.below y hcov
  · rw [h.mem_erase, Hole.covers_insert, not_or, and_assoc, and_comm (a := ¬ Covers t.holes y)]

/-- Disposing of a handle in a tidy table succeeds. The handle loses its name, and no other handle
does; one that is not live leaves the table as it is. -/
theorem Tidy.exists_dispose (h : Tidy t top) (x : Handle) :
    ∃ t' top', t.dispose x = .ok t' ∧ Tidy t' top' ∧ t'.names = t.names.erase x ∧
      (x ∉ t.names → t' = t) := by
  by_cases hx : x ∈ t.names
  · have hdispose := dispose_of_mem hx
    by_cases hmark : x + 1 = t.mark
    · have hrelease := release_of_mark { t with names := t.names.erase x } hmark
      exact ⟨_, _, hdispose.trans hrelease, h.lower hx hmark, rfl, fun hnot => absurd hx hnot⟩
    · have lt := h.lt_next hx hmark
      have hrelease := release_of_lt { t with names := t.names.erase x } hmark lt
      exact ⟨_, _, hdispose.trans hrelease, h.widen hx lt, rfl, fun hnot => absurd hx hnot⟩
  · -- a handle without a name has none to be erased
    refine ⟨t, top, dispose_of_notMem hx, h, ?_, fun _ => rfl⟩
    apply Std.ExtHashMap.ext_getElem?
    intro y
    rw [Std.ExtHashMap.getElem?_erase]
    split
    · rename_i hy
      rw [← eq_of_beq hy]
      exact Std.ExtHashMap.getElem?_eq_none hx
    · rfl

end NameTable

end WordMachine

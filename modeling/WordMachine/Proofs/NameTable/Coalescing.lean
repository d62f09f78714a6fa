import Mathlib.Data.Option.Basic
import WordMachine.Proofs.NameTable.History

/-!
# Holes as plain ranges

The holes of a name table can be kept as pairs of handles of which nothing is known, with sums that
fail past the last handle. Taking a handle then moves the start of the first range. Giving one back
looks for the first range that the handle touches, widens that range and merges all ranges that meet
(`Span.coalesce`), or inserts a range of its own.

On the holes of a table that a history leads to, this is what the table does, and no sum fails
(`NameTable.take?_free`, `NameTable.Tidy.give?_free`). What carries it is that such holes are apart:
a handle in none of them touches at most two, of which the first is the one that is found, and
merging joins these two and no others (`Span.coalesce_joinTo`). `holes_are_the_gaps` puts this
together with the invariant of the representation: the live handles are those below the mark that
are in no hole.
-/

namespace WordMachine

/-- A range of handles as two numbers: from the first on, below the second. -/
abbrev Span := Handle × Handle

namespace Span

/-- The handle behind a handle, if there is one. -/
def next? (h : Handle) : Option Handle := if h < h + 1 then some (h + 1) else none

/-- Whether a handle stands right behind a range or right before it. -/
def touches (h : Handle) (s : Span) : Bool := s.2 = h ∨ s.1 ≠ 0 ∧ s.1 - 1 = h

/-- The range with a handle added that it touches. -/
def widen? (h : Handle) (s : Span) : Option Span :=
  if s.2 = h then (next? s.2).map fun e => (s.1, e) else some (h, s.2)

/-- Merges ranges that meet, from `last` on, which is the range merged so far. -/
def coalesceFrom (last : Span) : List Span → List Span
  | [] => [last]
  | s :: rest =>
    if s.1 ≤ last.2 then coalesceFrom (last.1, max last.2 s.2) rest
    else last :: coalesceFrom s rest

/-- Merges ranges that meet. -/
def coalesce : List Span → List Span
  | [] => []
  | s :: rest => coalesceFrom s rest

/-- The ranges with one more handle: the first range that the handle touches is widened and the
ranges that meet are merged, or the handle makes a range of its own. -/
def insert? (h : Handle) (spans : List Span) : Option (List Span) :=
  match spans.findIdx? (touches h) with
  | some i => do
    let wide ← widen? h (← spans[i]?)
    return coalesce (spans.set i wide)
  | none => do
    let e ← next? h
    return spans.insertIdx (spans.takeWhile (·.1 < h)).length (h, e)

end Span

/-- The free handles of a name table, with the holes as plain ranges. -/
structure Free where
  spans : List Span
  mark : Handle
  deriving DecidableEq

namespace Free

/-- The lowest free handle, and what is free then. -/
def take? : Free → Option (Handle × Free)
  | ⟨[], mark⟩ => some (mark, ⟨[], mark + 1⟩)
  | ⟨(lo, hi) :: rest, mark⟩ =>
    (Span.next? lo).map fun lo' => (lo, ⟨if lo' = hi then rest else (lo', hi) :: rest, mark⟩)

/-- What is free when a handle is given back. -/
def give? (f : Free) (h : Handle) : Option Free :=
  if h + 1 = f.mark then some ⟨f.spans, h⟩ else (Span.insert? h f.spans).map fun s => ⟨s, f.mark⟩

end Free

namespace Hole

/-- The two ends of a hole. -/
def span (hole : Hole) : Span := (hole.lo, hole.hi)

/-- Holes as plain ranges. -/
def spans (holes : List Hole) : List Span := holes.map span

/-- The ranges of holes, the first one first. -/
@[simp]
theorem spans_cons (hole : Hole) (rest : List Hole) :
    spans (hole :: rest) = hole.span :: spans rest := rfl

end Hole

namespace Span

open Hole (spans Apart Covers)

variable {h : Handle} {s : Span} {hole : Hole} {holes rest : List Hole}

/-- A handle that is not the last of all has one behind it. -/
theorem next?_of_lt (lt : h < h + 1) : next? h = some (h + 1) := if_pos lt

/-- A handle touches a range right behind it or right before it. -/
theorem touches_iff : touches h s ↔ s.2 = h ∨ s.1 ≠ 0 ∧ s.1 - 1 = h := by
  simp [touches]

/-- A range that the handle stands right before starts at the next handle. -/
theorem touches_iff_of_lt (lt : h < h + 1) : touches h s ↔ s.2 = h ∨ s.1 = h + 1 := by
  rw [touches_iff]
  refine or_congr_right ⟨fun hboth => ?_, fun heq => ?_⟩
  · rw [← hboth.2, UInt16.sub_add_cancel]
  · refine ⟨fun hzero => ?_, by rw [heq, UInt16.add_sub_cancel]⟩
    rw [← heq, hzero] at lt
    exact UInt16.not_lt_zero lt

/-! ## Merging -/

/-- Ranges that are apart stay as they are. -/
theorem coalesce_spans (hapart : Apart holes) : coalesce (spans holes) = spans holes := by
  induction holes with
  | nil => rfl
  | cons hole rest ih =>
    obtain ⟨hbehind, hrest⟩ := Hole.apart_cons.1 hapart
    cases rest with
    | nil => rfl
    | cons next rest =>
      have hgap : ¬ next.span.1 ≤ hole.span.2 := UInt16.not_le.2 (hbehind next List.mem_cons_self)
      have hnext : coalesceFrom next.span (spans rest) = next.span :: spans rest := ih hrest
      simp only [Hole.spans_cons, coalesce, coalesceFrom]
      rw [if_neg hgap, hnext]

/-- A range in front of ranges that are apart is merged with the first of them if the two meet, and
with no other. -/
theorem coalesce_joinTo (hle : ∀ next ∈ rest, hole.hi ≤ next.lo) (hapart : Apart rest) :
    coalesce (hole.span :: spans rest) = spans (hole.joinTo rest) := by
  rw [← coalesce_spans (Hole.apart_joinTo hle hapart)]
  cases rest with
  | nil => rfl
  | cons next rest =>
    rw [Hole.joinTo]
    split
    · -- the two meet, so the first merging step makes the joined range of them
      rename_i touch
      have hmeet : next.span.1 ≤ hole.span.2 := UInt16.le_of_eq touch.symm
      have hmax : max hole.hi next.hi = next.hi := if_pos (touch ▸ UInt16.le_of_lt next.lo_lt_hi)
      simp only [Hole.spans_cons, coalesce, coalesceFrom]
      rw [if_pos hmeet]
      simp only [Hole.span, hmax]
    · rfl

/-- A range that ends before all others start stays in front of what the others are merged to. -/
theorem coalesce_cons {rest : List Span} (h : ∀ r ∈ rest, s.2 < r.1) :
    coalesce (s :: rest) = s :: coalesce rest := by
  cases rest with
  | nil => rfl
  | cons r rest =>
    have hgap : ¬ r.1 ≤ s.2 := UInt16.not_le.2 (h r List.mem_cons_self)
    simp only [coalesce, coalesceFrom]
    rw [if_neg hgap]

/-! ## One handle more -/

/-- A range that ends before the handle and before all other ranges is passed over. -/
theorem insert?_cons {rest : List Span} (lt : h < h + 1) (hfront : s.1 < s.2) (hbefore : s.2 < h)
    (hrest : ∀ r ∈ rest, s.2 < r.1) :
    insert? h (s :: rest) = (insert? h rest).map fun spans => s :: spans := by
  have hlow : s.1 < h := UInt16.lt_trans hfront hbefore
  -- the range ends before the handle, so it does not touch it
  have hskip : touches h s = false := by
    rw [Bool.eq_false_iff, Ne, touches_iff_of_lt lt, not_or]
    refine ⟨UInt16.ne_of_lt hbefore, fun heq => ?_⟩
    rw [heq] at hlow
    exact UInt16.lt_asymm hlow lt
  unfold insert?
  rw [List.findIdx?_cons, hskip]
  cases hfind : rest.findIdx? (touches h) with
  | none =>
    -- the handle makes a range of its own, further behind
    have htake : (s :: rest).takeWhile (·.1 < h) = s :: rest.takeWhile (·.1 < h) :=
      List.takeWhile_cons_of_pos (by simpa using hlow)
    simp [htake, next?_of_lt lt]
  | some i =>
    -- a later range is widened, which moves by one place
    have hget : (s :: rest)[i + 1]? = rest[i]? := List.getElem?_cons_succ
    simp only [Bool.false_eq_true, if_false, Option.map_some, hget]
    cases hr : rest[i]? with
    | none => rfl
    | some r =>
      cases hwide : widen? h r with
      | none => simp [hwide]
      | some wide =>
        -- the widened range starts where the old one did, or at the handle
        have hstart : s.2 < wide.1 := by
          have hmem : r ∈ rest := List.mem_of_getElem? hr
          unfold widen? at hwide
          split at hwide
          · obtain ⟨e, -, rfl⟩ := Option.map_eq_some_iff.1 hwide
            exact hrest r hmem
          · obtain rfl := Option.some.inj hwide
            exact hbefore
        have hall : ∀ r' ∈ rest.set i wide, s.2 < r'.1 := by
          intro r' hr'
          rcases List.mem_or_eq_of_mem_set hr' with hmem | rfl
          · exact hrest r' hmem
          · exact hstart
        simp [hwide, coalesce_cons hall]

/-- Among ranges that the handle stands well before, it makes a range of its own. -/
theorem insert?_of_before {spans : List Span} (lt : h < h + 1)
    (hall : ∀ r ∈ spans, h + 1 < r.1 ∧ r.1 < r.2) :
    insert? h spans = some ((h, h + 1) :: spans) := by
  -- none of the ranges touches the handle
  have hfind : spans.findIdx? (touches h) = none := by
    rw [List.findIdx?_eq_none_iff]
    intro r hr
    obtain ⟨hlo, hhi⟩ := hall r hr
    rw [Bool.eq_false_iff, Ne, touches_iff_of_lt lt, not_or]
    refine ⟨fun heq => ?_, Ne.symm (UInt16.ne_of_lt hlo)⟩
    exact UInt16.lt_asymm (heq ▸ hhi) (UInt16.lt_trans lt hlo)
  -- and none of them starts before it
  have htake : spans.takeWhile (·.1 < h) = [] := by
    cases spans with
    | nil => rfl
    | cons r rest =>
      have hlo := UInt16.lt_trans lt (hall r List.mem_cons_self).1
      exact List.takeWhile_cons_of_neg (by simpa using UInt16.le_of_lt hlo)
  simp [insert?, hfind, htake, next?_of_lt lt]

/-- A handle that stands right before or right behind the first range widens it. -/
theorem insert?_of_touches {rest : List Span} {wide : Span} (htouch : touches h s)
    (hwide : widen? h s = some wide) :
    insert? h (s :: rest) = some (coalesce (wide :: rest)) := by
  simp [insert?, List.findIdx?_cons, htouch, hwide]

/-- Adding a handle to plain ranges does what adding it to holes does. -/
theorem insert?_spans (lt : h < h + 1) (hfree : ¬ Covers holes h) (hapart : Apart holes) :
    insert? h (spans holes) = some (spans (Hole.insert h lt holes)) := by
  have hnext := Hole.toNat_next lt
  induction holes with
  | nil => exact insert?_of_before lt nofun
  | cons hole rest ih =>
    obtain ⟨hbehind, hrest⟩ := Hole.apart_cons.1 hapart
    have hnot : ¬ Covers rest h := fun hc => hfree (Hole.covers_cons.2 (.inr hc))
    have hout : ¬ (hole.lo ≤ h ∧ h < hole.hi) := fun hin => hfree (Hole.covers_cons.2 (.inl hin))
    have hspans : ∀ r ∈ spans rest, hole.hi < r.1 := by
      intro r hr
      obtain ⟨next, hmem, rfl⟩ := List.mem_map.1 hr
      exact hbehind next hmem
    rw [Hole.insert]
    split
    · -- the handle goes behind this hole, which both sides pass over
      rename_i hlt
      rw [Hole.spans_cons, insert?_cons lt hole.lo_lt_hi hlt hspans, ih hnot hrest]
      rfl
    · rename_i hle
      split
      · -- the handle stands behind this hole
        rename_i touch
        have htouch : touches h hole.span := (touches_iff_of_lt lt).2 (.inl touch)
        have hwide : widen? h hole.span = some (hole.lo, h + 1) := by
          simp [widen?, Hole.span, touch, next?_of_lt lt]
        let wide : Hole := ⟨hole.lo, h + 1, UInt16.lt_trans (touch ▸ hole.lo_lt_hi) lt⟩
        have hreach : ∀ next ∈ rest, wide.hi ≤ next.lo := by
          intro next hmem
          have hgap := UInt16.lt_iff_toNat_lt.1 (hbehind next hmem)
          rw [touch] at hgap
          rw [UInt16.le_iff_toNat_le, hnext]
          exact hgap
        rw [Hole.spans_cons, insert?_of_touches htouch hwide]
        exact congrArg some (coalesce_joinTo hreach hrest)
      · -- the handle stands before this hole, right before it or not
        rename_i hne
        have hlow : h < hole.lo := by
          rw [UInt16.lt_iff_toNat_lt] at hle ⊢
          have hne' : hole.hi.toNat ≠ h.toNat := fun e => hne (UInt16.toNat_inj.1 e)
          simp only [UInt16.le_iff_toNat_le, UInt16.lt_iff_toNat_lt] at hout
          omega
        by_cases htouch : h + 1 = hole.lo
        · have hwide : widen? h hole.span = some (h, hole.hi) := if_neg hne
          let wide : Hole := ⟨h, hole.hi, UInt16.lt_trans hlow hole.lo_lt_hi⟩
          have happart : Apart (wide :: rest) := Hole.apart_cons.2 ⟨hbehind, hrest⟩
          have hjoin : (Hole.single h lt).joinTo (hole :: rest) = wide :: rest := dif_pos htouch
          rw [Hole.spans_cons,
            insert?_of_touches ((touches_iff_of_lt lt).2 (.inr htouch.symm)) hwide, hjoin]
          exact congrArg some (coalesce_spans happart)
        · have hjoin : (Hole.single h lt).joinTo (hole :: rest) =
              Hole.single h lt :: hole :: rest := dif_neg htouch
          rw [hjoin]
          refine insert?_of_before lt fun r hr => ?_
          obtain ⟨next, hmem, rfl⟩ := List.mem_map.1 hr
          refine ⟨?_, next.lo_lt_hi⟩
          have hle' := UInt16.le_iff_toNat_le.1
            (Hole.lo_le_of_covers hapart (Hole.covers_lo hmem))
          have hlow' := UInt16.lt_iff_toNat_lt.1 hlow
          have hne' : (h + 1).toNat ≠ hole.lo.toNat := fun e => htouch (UInt16.toNat_inj.1 e)
          change h + 1 < next.lo
          rw [UInt16.lt_iff_toNat_lt]
          omega

end Span

namespace Hole

/-- A handle between two holes that both touch it joins them. -/
theorem spans_insert_between {h : Handle} {lt : h < h + 1} {front back : List Hole} {a b : Hole}
    (hapart : Apart (front ++ a :: b :: back)) (ha : a.hi = h) (hb : b.lo = h + 1) :
    spans (insert h lt (front ++ a :: b :: back)) = spans front ++ (a.lo, b.hi) :: spans back := by
  induction front with
  | nil =>
    -- the handle widens `a`, which then meets `b`
    have hne : ¬ a.hi < h := ha ▸ UInt16.lt_irrefl _
    rw [List.nil_append, insert, if_neg hne, dif_pos ha, joinTo, dif_pos hb.symm]
    rfl
  | cons hole front ih =>
    obtain ⟨hbehind, hrest⟩ := apart_cons.1 hapart
    have hlt : hole.hi < h := by
      have hmem : a ∈ front ++ a :: b :: back := by simp
      exact ha ▸ UInt16.lt_trans (hbehind a hmem) a.lo_lt_hi
    rw [List.cons_append, insert, if_pos hlt, spans_cons, ih hrest]
    rfl

/-- What lies between two neighbours among holes that are apart is in no hole. -/
theorem not_covers_between {front back : List Hole} {a b : Hole}
    (hapart : Apart (front ++ a :: b :: back)) {x : Handle} (hlow : a.hi ≤ x) (hhigh : x < b.lo) :
    ¬ Covers (front ++ a :: b :: back) x := by
  obtain ⟨-, hback, hcross⟩ := List.pairwise_append.1 hapart
  rintro ⟨hole, hmem, hlo, hhi⟩
  rcases List.mem_append.1 hmem with hfront | hmem
  · have hbefore := UInt16.lt_trans (hcross hole hfront a List.mem_cons_self) a.lo_lt_hi
    exact UInt16.lt_asymm (UInt16.lt_of_lt_of_le hbefore hlow) hhi
  · rcases List.mem_cons.1 hmem with rfl | hmem
    · exact UInt16.not_lt.2 hlow hhi
    · have hle := lo_le_of_covers (apart_cons.1 hback).2 (covers_lo hmem)
      exact UInt16.not_lt.2 hlo (UInt16.lt_of_lt_of_le hhigh hle)

end Hole

namespace NameTable

open Hole (Covers spans)

variable {t : NameTable} {top : Nat} {x : Handle}

/-- Where the handles below the mark end. A mark of 0 stands behind the last handle of all if that
one is live. -/
def extent (t : NameTable) : Nat :=
  if t.mark = 0 ∧ (t.get? 65535).isSome then 65536 else t.mark.toNat

/-- What a table has free, with the holes as plain ranges. -/
def free (t : NameTable) : Free := ⟨spans t.holes, t.mark⟩

/-- The last handle of all is in no hole. -/
theorem not_covers_last (holes : List Hole) : ¬ Covers holes 65535 := by
  rintro ⟨hole, -, -, hlt⟩
  have hhi := hole.hi.toNat_lt
  have hlast := UInt16.lt_iff_toNat_lt.1 hlt
  have hval : (65535 : Handle).toNat = 65535 := rfl
  omega

/-- The top of a tidy table can be told from its mark and its last handle. -/
theorem Tidy.extent_eq (h : Tidy t top) : t.extent = top := by
  -- no hole reaches the last handle, so it is live exactly if the top is behind it
  have hlast : (t.get? 65535).isSome ↔ 65535 < top := by
    rw [← mem_names_iff, h.mem_iff, and_iff_left (not_covers_last t.holes)]
    rfl
  have hle := h.top_le
  rcases Nat.lt_or_eq_of_le hle with hlt | rfl
  · have hnot : ¬ (t.mark = 0 ∧ (t.get? 65535).isSome) := fun hboth => by
      have hfull := hlast.1 hboth.2
      omega
    rw [extent, if_neg hnot, h.mark_eq, UInt16.toNat_ofNat_of_lt' hlt]
  · exact if_pos ⟨h.mark_eq, hlast.2 (by decide)⟩

/-- A hole of a tidy table ends at `top` or below. -/
theorem Tidy.hi_le (h : Tidy t top) {hole : Hole} (hmem : hole ∈ t.holes) :
    hole.hi.toNat ≤ top := by
  have hlt := UInt16.lt_iff_toNat_lt.1 hole.lo_lt_hi
  have hhi := hole.hi.toNat_lt
  have hval : (hole.hi - 1).toNat = hole.hi.toNat - 1 := by
    have hone : (1 : Handle) ≤ hole.hi := UInt16.le_iff_toNat_le.2 (Nat.one_le_of_lt hlt)
    rw [UInt16.toNat_sub_of_le _ _ hone]
    rfl
  -- the last handle of the hole is below `top`
  have hcov : Covers t.holes (hole.hi - 1) := by
    refine ⟨hole, hmem, ?_, ?_⟩
    · rw [UInt16.le_iff_toNat_le, hval]
      omega
    · rw [UInt16.lt_iff_toNat_lt, hval]
      omega
  have hbelow := h.below _ hcov
  omega

/-! ## Requests on plain ranges -/

/-- Taking a handle never needs one behind the last. -/
theorem take?_free (t : NameTable) (name : String) :
    t.free.take? = some ((t.assign name).1, (t.assign name).2.free) := by
  obtain ⟨names, holes, mark⟩ := t
  cases holes with
  | nil => rfl
  | cons hole rest =>
    have hlt := UInt16.lt_iff_toNat_lt.1 hole.lo_lt_hi
    have hhi := hole.hi.toNat_lt
    -- the hole has an end behind its first handle, so that handle is not the last of all
    have lt : hole.lo < hole.lo + 1 := by
      have hmod : (hole.lo + 1).toNat = (hole.lo.toNat + 1) % 65536 := by simp [UInt16.toNat_add]
      rw [UInt16.lt_iff_toNat_lt]
      omega
    have hnext := Hole.toNat_next lt
    simp only [free, Hole.spans_cons, Hole.span, Free.take?, Span.next?_of_lt lt, Option.map_some,
      assign, allocate, Hole.tail?]
    by_cases hmore : hole.lo + 1 < hole.hi
    · rw [if_neg (UInt16.ne_of_lt hmore), dif_pos hmore]
      rfl
    · have hend : hole.lo + 1 = hole.hi := by
        apply UInt16.toNat_inj.1
        rw [UInt16.lt_iff_toNat_lt] at hmore
        omega
      rw [if_pos hend, dif_neg hmore]
      rfl

/-- Disposing of a live handle lowers the mark or adds the handle to the holes. -/
theorem Tidy.dispose_cases (h : Tidy t top) (hx : x ∈ t.names) :
    x + 1 = t.mark ∧ t.dispose x = .ok { t with names := t.names.erase x, mark := x } ∨
      x + 1 ≠ t.mark ∧ ∃ lt, t.dispose x =
        .ok { t with names := t.names.erase x, holes := Hole.insert x lt t.holes } := by
  rw [dispose_of_mem hx]
  by_cases hmark : x + 1 = t.mark
  · exact .inl ⟨hmark, release_of_mark { t with names := t.names.erase x } hmark⟩
  · have lt := h.lt_next hx hmark
    exact .inr ⟨hmark, lt, release_of_lt { t with names := t.names.erase x } hmark lt⟩

/-- Giving back a live handle never needs one behind the last either. -/
theorem Tidy.give?_free (h : Tidy t top) (hx : x ∈ t.names) {t' : NameTable}
    (hdispose : t.dispose x = .ok t') : t.free.give? x = some t'.free := by
  have hfree := ((h.mem_iff x).1 hx).2
  unfold Free.give?
  rcases h.dispose_cases hx with ⟨hmark, heq⟩ | ⟨hmark, lt, heq⟩
  · obtain rfl := Except.ok.inj (heq.symm.trans hdispose)
    exact if_pos hmark
  · obtain rfl := Except.ok.inj (heq.symm.trans hdispose)
    have hinsert := Span.insert?_spans lt hfree h.apart
    exact (if_neg hmark).trans (by rw [free, hinsert]; rfl)

/-- Disposing of a handle between two holes that touch it joins them. -/
theorem Tidy.spans_dispose_between (h : Tidy t top) (hx : x ∈ t.names) {t' : NameTable}
    (hdispose : t.dispose x = .ok t') {front back : List Hole} {a b : Hole}
    (hholes : t.holes = front ++ a :: b :: back) (ha : a.hi = x) (hb : b.lo = x + 1) :
    spans t'.holes = spans front ++ (a.lo, b.hi) :: spans back := by
  rcases h.dispose_cases hx with ⟨hmark, -⟩ | ⟨-, lt, heq⟩
  · -- a hole above the handle keeps it from being just below the mark
    have hcov : Covers t.holes b.lo := hholes ▸ Hole.covers_lo (by simp)
    have hlow := (h.lower hx hmark).below b.lo hcov
    have hgap : a.hi < b.lo :=
      (List.pairwise_cons.1 (List.pairwise_append.1 (hholes ▸ h.apart)).2.1).1 b List.mem_cons_self
    rw [ha, UInt16.lt_iff_toNat_lt] at hgap
    omega
  · obtain rfl := Except.ok.inj (heq.symm.trans hdispose)
    have hapart := h.apart
    simp only [hholes] at hapart ⊢
    exact Hole.spans_insert_between hapart ha hb

/-- The holes of a name table are the gaps between its live handles. After every history the holes
are ranges that are not empty, in order and below the mark, with live handles all the way from each
to the next, and the live handles are those below the mark that are in no hole. Kept as plain
ranges, holes are taken from and added to by the same steps: no sum passes the last handle, and
merging joins two holes that a released handle stands between. -/
theorem holes_are_the_gaps (past : List Event) (t : NameTable) (h : After past t) :
    (∀ y, y ∈ live past ↔ y.toNat < t.extent ∧ ¬ Covers t.holes y) ∧
    (∀ hole ∈ t.holes, hole.lo < hole.hi ∧ hole.hi.toNat ≤ t.extent) ∧
    t.holes.Pairwise (fun a b => a.hi < b.lo) ∧
    (∀ front a b back, t.holes = front ++ a :: b :: back →
      a.hi < b.lo ∧ ∀ y, a.hi ≤ y → y < b.lo → y ∈ live past) ∧
    (∀ name, t.free.take? = some ((t.assign name).1, (t.assign name).2.free)) ∧
    ∀ x ∈ live past, ∃ t', t.dispose x = .ok t' ∧ t.free.give? x = some t'.free ∧
      ∀ front a b back, t.holes = front ++ a :: b :: back → a.hi = x → b.lo = x + 1 →
        spans t'.holes = spans front ++ (a.lo, b.hi) :: spans back := by
  have hfollows := h.follows
  obtain ⟨top, htidy⟩ := hfollows.tidy
  have hlive : ∀ y, y ∈ live past ↔ y.toNat < top ∧ ¬ Covers t.holes y := by
    intro y
    rw [← hfollows.mem_names, htidy.mem_iff]
  rw [htidy.extent_eq]
  refine ⟨hlive, fun hole hmem => ⟨hole.lo_lt_hi, htidy.hi_le hmem⟩, htidy.apart,
    fun front a b back hholes => ?_, take?_free t, fun x hx => ?_⟩
  · -- between two neighbours, everything is below `top` and in no hole
    have hapart : Hole.Apart (front ++ a :: b :: back) := hholes ▸ htidy.apart
    have hgap : a.hi < b.lo :=
      (List.pairwise_cons.1 (List.pairwise_append.1 hapart).2.1).1 b List.mem_cons_self
    refine ⟨hgap, fun y hlow hhigh => (hlive y).2 ⟨?_, ?_⟩⟩
    · have hbelow := htidy.below b.lo (hholes ▸ Hole.covers_lo (by simp))
      exact Nat.lt_trans (UInt16.lt_iff_toNat_lt.1 hhigh) hbelow
    · rw [hholes]
      exact Hole.not_covers_between hapart hlow hhigh
  · have hmem := (hfollows.mem_names x).2 hx
    obtain ⟨t', -, hdispose, -⟩ := htidy.exists_dispose x
    exact ⟨t', hdispose, htidy.give?_free hmem hdispose, fun front a b back hholes ha hb =>
      htidy.spans_dispose_between hmem hdispose hholes ha hb⟩

/-- Of five names the second and the fourth go, which leaves two holes; when the third goes too,
they become one. -/
theorem holes_are_the_gaps_joined :
    ∃ t, After [.disposed 3, .disposed 1, .assigned 4 "e", .assigned 3 "d", .assigned 2 "c",
        .assigned 1 "b", .assigned 0 "a"] t ∧
      spans t.holes = [(1, 2), (3, 4)] ∧ t.extent = 5 ∧
      ∃ t', t.dispose 2 = .ok t' ∧ spans t'.holes = [(1, 4)] ∧
        t.free.give? 2 = some ⟨[(1, 4)], 5⟩ := by
  have hfive : After [.assigned 4 "e", .assigned 3 "d", .assigned 2 "c", .assigned 1 "b",
      .assigned 0 "a"] _ :=
    .assign "e" (.assign "d" (.assign "c" (.assign "b" (.assign "a" .start (by decide)) (by decide))
      (by decide)) (by decide)) (by decide)
  have hone := (dispose_of_mem ((hfive.follows.mem_names 1).2 (by decide))).trans
    (release_of_lt _ (by decide) (by decide))
  have hfour := After.dispose 1 hfive hone
  have hthree := (dispose_of_mem ((hfour.follows.mem_names 3).2 (by decide))).trans
    (release_of_lt _ (by decide) (by decide))
  have hlast := After.dispose 3 hfour hthree
  obtain ⟨-, -, -, -, -, hgive⟩ := holes_are_the_gaps _ _ hlast
  obtain ⟨t', hdispose, -, hjoin⟩ := hgive 2 (by decide)
  have hspans : spans t'.holes = [(1, 4)] :=
    hjoin [] ⟨1, 2, by decide⟩ ⟨3, 4, by decide⟩ [] (by decide) rfl rfl
  have hextent : ∀ t : NameTable, t.mark = 5 → t.extent = 5 := by
    intro t hmark
    rw [extent, hmark, if_neg fun hboth => absurd hboth.1 (by decide)]
    rfl
  exact ⟨_, hlast, by decide, hextent _ rfl, t', hdispose, hspans, by decide⟩

end NameTable

end WordMachine

import WordMachine.Segment
import WordMachine.Fault

/-!
# The operand stack

The stack is a segment of slots and a depth. The slots below the depth are live, the bottom one at
address 0. Moving the depth neither clears nor copies slots, so words above the depth come back
when it is raised again; only `Stack.clear` wipes them. A depth of 65536, the full stack, reads as
zero in a word (`Stack.pointer`).
-/

namespace WordMachine

/-- Slots, and how many of them are live. -/
structure Stack where
  slots : Segment Word
  depth : Nat
  depth_le : depth ≤ segmentSize

namespace Stack

/-- An action on a stack: a result, or a fault that leaves the stack behind. -/
abbrev Op (α : Type) := EStateM Fault Stack α

/-- The stack without live words, all slots zero. -/
def empty : Stack := ⟨.fill 0, 0, Nat.zero_le _⟩

instance : Inhabited Stack := ⟨empty⟩

/-- The live words, bottom first. -/
def toList (s : Stack) : List Word := s.slots.cells.toList.take s.depth

/-- There are as many live words as the stack is deep. -/
@[simp]
theorem length_toList (s : Stack) : s.toList.length = s.depth := by
  have hs := s.depth_le
  simp only [toList, List.length_take, Vector.length_toList]
  omega

/-- The depth as a word. -/
def pointer (s : Stack) : Word := UInt16.ofNat s.depth

/-- The stack with its depth moved, the slots staying as they are. -/
def setDepth (s : Stack) (depth : Nat) (h : depth ≤ segmentSize) : Stack := ⟨s.slots, depth, h⟩

/-- The stack with its depth moved to a word. -/
def setPointer (s : Stack) (w : Word) : Stack := s.setDepth w.toNat (Nat.le_of_lt w.toNat_lt)

/-- The top word of a stack that has one. -/
def top? (s : Stack) : Option Word :=
  if s.depth = 0 then none else some (s.slots.get (UInt16.ofNat (s.depth - 1)))

/-- Adds a word on top. -/
def push (w : Word) : Op Unit := fun s =>
  if h : s.depth < segmentSize then
    .ok () ⟨s.slots.set (UInt16.ofNat s.depth) w, s.depth + 1, h⟩
  else
    .error .stackOverflow s

/-- Takes the top word away. -/
def pop : Op Word := fun s =>
  if s.depth = 0 then
    .error .stackUnderflow s
  else
    let w := s.slots.get (UInt16.ofNat (s.depth - 1))
    .ok w ⟨s.slots, s.depth - 1, Nat.le_trans (Nat.sub_le _ _) s.depth_le⟩

/-- A push adds its word at the end of the live words. -/
theorem toList_of_push {s t : Stack} {w : Word} (h : push w s = .ok () t) :
    t.toList = s.toList ++ [w] := by
  unfold push at h
  split at h
  · rename_i hlt
    have hn : (UInt16.ofNat s.depth).toNat = s.depth := UInt16.toNat_ofNat_of_lt' hlt
    simp only [EStateM.Result.ok.injEq, true_and] at h
    subst h
    simp only [toList, Segment.set, hn, Vector.toList_set]
    rw [List.take_add_one, List.take_set_of_le (Nat.le_refl _),
      List.getElem?_set_self (by simpa using hlt)]
    rfl
  · simp at h

/-- A pop takes its word from the end of the live words. -/
theorem toList_of_pop {s t : Stack} {w : Word} (h : pop s = .ok w t) :
    s.toList = t.toList ++ [w] := by
  unfold pop at h
  split at h
  · simp at h
  · rename_i hne
    have hle := s.depth_le
    have hlt : s.depth - 1 < segmentSize := by omega
    have hn : (UInt16.ofNat (s.depth - 1)).toNat = s.depth - 1 := UInt16.toNat_ofNat_of_lt' hlt
    have hd : s.depth = s.depth - 1 + 1 := by omega
    simp only [EStateM.Result.ok.injEq] at h
    obtain ⟨rfl, rfl⟩ := h
    simp only [toList, Segment.get, hn]
    conv => lhs; rw [hd, List.take_add_one]
    simp [hlt]

/-- The top word, which stays. -/
def top : Op Word := fun s =>
  match s.top? with
  | some w => .ok w s
  | none => .error .stackUnderflow s

/-- Exchanges the top word with the one `n` places below it. -/
def swap (n : Word) : Op Unit := fun s =>
  if n.toNat < s.depth then
    let upper := UInt16.ofNat (s.depth - 1)
    let lower := UInt16.ofNat (s.depth - 1 - n.toNat)
    let a := s.slots.get upper
    let b := s.slots.get lower
    .ok () { s with slots := (s.slots.set upper b).set lower a }
  else
    .error (.stackIndexOutOfRange n s.depth) s

/-- Wipes every slot and the depth. -/
def clear (_ : Stack) : Stack := empty

end Stack

end WordMachine

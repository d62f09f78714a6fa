import Mathlib.Algebra.GroupWithZero.Nat
import Mathlib.Algebra.Order.BigOperators.Group.List
import Mathlib.Algebra.Order.Group.Nat
import Mathlib.Data.List.Basic
import WordMachine.Proofs.Extension.Agreement
import WordMachine.Proofs.Memory.CyclicScan

/-!
# Strings lent to native code

A utility of a library gets a string as the address of a block of bytes: the host copies the text,
one byte for each character and a zero behind them, the utility reads the bytes up to the zero and
gives the block back. A text that holds a zero byte is not copied, and address 0 says so. The
actions of `Heap` are written out with what can go wrong in them: there is no block at an address,
a block has no zero to stop at, or its zero is not where the block ends when it is given back.

None of this happens, wherever the allocator puts its blocks: for every text the answer is that of
`Bridge.byteText?`, and the heap is left as it was (`fetch_eq`), so a whole utility that is served
with lent strings does what the bridge does (`driveLent_eq`). A string of the machine is one turn
through memory at most and has no zero, so it always reaches the utility as it is
(`native_code_sees_string`).
-/

namespace WordMachine

/-- Only the zero byte stands for the character zero. -/
theorem byteChar_eq_zero_iff (b : UInt8) : byteChar b = Char.ofNat 0 ↔ b = 0 := by
  constructor
  · intro h
    apply UInt8.toNat_inj.1
    rw [← Bridge.toNat_ofNat_byte b]
    exact congrArg Char.toNat h
  · rintro rfl
    rfl

/-! ## Blocks of bytes -/

/-- The blocks of bytes in use, each with its address. Address 0 stands for no block. -/
abbrev Heap := List (Nat × List UInt8)

/-- How new blocks get their addresses. -/
structure Allocator where
  place : Heap → List UInt8 → Nat
  place_ne_zero (heap : Heap) (block : List UInt8) : place heap block ≠ 0
  /-- An address in use is not given away again. -/
  lookup_place (heap : Heap) (block : List UInt8) : heap.lookup (place heap block) = none

/-- Addresses behind all those in use. -/
instance : Inhabited Allocator where
  default :=
    { place := fun heap _ => (heap.map Prod.fst).sum + 1
      place_ne_zero := fun _ _ => Nat.succ_ne_zero _
      lookup_place := by
        intro heap _
        rw [List.lookup_eq_none_iff]
        intro entry hentry
        have hle := List.single_le_sum (fun _ _ => Nat.zero_le _) entry.1
          (List.mem_map_of_mem (f := Prod.fst) hentry)
        simp only [bne_iff_ne, ne_eq]
        omega }

namespace Heap

/-- An action on the heap. It comes to nothing where it would touch bytes outside of the blocks. -/
abbrev Op (α : Type) := StateT Heap Option α

/-- A text as bytes, one for each character. -/
def textBytes (text : String) : List UInt8 := text.toList.map fun c => UInt8.ofNat c.toNat

/-- The bytes in front of the first zero of a block, which must have one. -/
def terminated : List UInt8 → Option (List UInt8)
  | [] => none
  | b :: rest => if b = 0 then some [] else (terminated rest).map (b :: ·)

/-- Copies a text to a new block, with a zero behind it. A text with a zero byte gets no block. -/
def lend (alloc : Allocator) (text : String) : Op Nat := fun heap =>
  if 0 ∈ textBytes text then some (0, heap)
  else
    let block := textBytes text ++ [0]
    let address := alloc.place heap block
    some (address, (address, block) :: heap)

/-- The bytes of the string at an address. -/
def bytesAt (address : Nat) : Op (List UInt8) := fun heap =>
  ((heap.lookup address).bind terminated).map fun bytes => (bytes, heap)

/-- Gives a block back. Its length is found from its zero and must be the one it was made with. -/
def release (address : Nat) : Op Unit := fun heap =>
  if address = 0 then some ((), heap)
  else
    (heap.lookup address).bind fun block =>
      (terminated block).bind fun bytes =>
        if bytes.length + 1 = block.length then
          some ((), heap.filter fun entry => entry.1 ≠ address)
        else none

/-- Asks for a text and reads it: the host lends it, and the block is given back once it is read. -/
def fetch (alloc : Allocator) (text : String) : Op (Option String) := do
  let address ← lend alloc text
  if address = 0 then return none
  let bytes ← bytesAt address
  release address
  return some (String.ofList (bytes.map byteChar))

section

variable {α β : Type} {act : Op α} {k : α → Op β} {heap heap' : Heap} {x : α}

/-- A sequence goes on with what its first action came to. -/
theorem bind_of_some (h : act heap = some (x, heap')) : (act >>= k) heap = k x heap' := by
  change (act heap).bind (fun p => k p.1 p.2) = _
  rw [h]
  rfl

end

/-! ## One string -/

/-- Bytes without a zero end where a zero is put behind them. -/
theorem terminated_append_zero {bytes : List UInt8} (h : 0 ∉ bytes) :
    terminated (bytes ++ [0]) = some bytes := by
  induction bytes with
  | nil => rfl
  | cons b bytes ih =>
    rw [List.mem_cons, not_or] at h
    rw [List.cons_append, terminated, if_neg (Ne.symm h.1), ih h.2]
    rfl

section

variable {heap : Heap} {address : Nat} {bytes : List UInt8}

/-- The bytes of a new block are those that were lent. -/
theorem bytesAt_lent (h : 0 ∉ bytes) :
    bytesAt address ((address, bytes ++ [0]) :: heap) =
      some (bytes, (address, bytes ++ [0]) :: heap) := by
  simp [bytesAt, terminated_append_zero h]

/-- Giving a new block back leaves the heap as it was before. -/
theorem release_lent (haddress : address ≠ 0) (hnew : heap.lookup address = none) (h : 0 ∉ bytes) :
    release address ((address, bytes ++ [0]) :: heap) = some ((), heap) := by
  -- no older block has the address, so the new one goes and the others stay
  have hkept : ∀ entry ∈ heap, entry.1 ≠ address := fun entry hentry =>
    (bne_iff_ne.1 (List.lookup_eq_none_iff.1 hnew entry hentry)).symm
  have hheap :
      ((address, bytes ++ [0]) :: heap).filter (fun entry => entry.1 ≠ address) = heap := by
    rw [List.filter_cons_of_neg (by simp), List.filter_eq_self]
    exact fun entry hentry => decide_eq_true (hkept entry hentry)
  have hlength : bytes.length + 1 = (bytes ++ [0]).length := by
    rw [List.length_append, List.length_singleton]
  rw [release, if_neg haddress, List.lookup_cons_self, Option.bind_some, terminated_append_zero h,
    Option.bind_some, if_pos hlength, hheap]

end

/-- A text without a zero byte gets a block that nobody uses. -/
theorem exists_lend (alloc : Allocator) (heap : Heap) {text : String} (h : 0 ∉ textBytes text) :
    ∃ address, address ≠ 0 ∧ heap.lookup address = none ∧
      lend alloc text heap = some (address, (address, textBytes text ++ [0]) :: heap) :=
  ⟨_, alloc.place_ne_zero heap _, alloc.lookup_place heap _, by rw [lend, if_neg h]⟩

/-- What passes the bridge, by the bytes of the text. -/
theorem byteText?_eq (text : String) :
    Bridge.byteText? text =
      if 0 ∈ textBytes text then none
      else some (String.ofList ((textBytes text).map byteChar)) := by
  have hchars : text.toList.map (fun c => Char.ofNat (c.toNat % 256)) =
      (textBytes text).map byteChar := by
    simp [textBytes, byteChar]
  have hzero : Char.ofNat 0 ∈ (textBytes text).map byteChar ↔ 0 ∈ textBytes text := by
    simp [byteChar_eq_zero_iff]
  simp only [Bridge.byteText?, hchars, List.contains_iff_mem, hzero]

/-- Every text comes out as it passes the bridge, and no block is left over. -/
theorem fetch_eq (alloc : Allocator) (text : String) (heap : Heap) :
    fetch alloc text heap = some (Bridge.byteText? text, heap) := by
  rw [byteText?_eq]
  by_cases hzero : 0 ∈ textBytes text
  · have hlend : lend alloc text heap = some (0, heap) := by rw [lend, if_pos hzero]
    rw [fetch, bind_of_some hlend, if_pos hzero]
    rfl
  · obtain ⟨address, haddress, hnew, hlend⟩ := exists_lend alloc heap hzero
    rw [fetch, bind_of_some hlend, if_neg haddress, if_neg hzero]
    -- the address is not 0, so the block is read and given back
    refine (bind_of_some (bytesAt_lent hzero)).trans ?_
    exact bind_of_some (release_lent haddress hnew hzero)

end Heap

/-! ## The strings of the machine -/

namespace Machine

/-- The codes of the characters of a string are its bytes. -/
theorem codes_stringAt (m : Machine) (a : Word) :
    (m.stringAt a).toList.map Char.toNat =
      ((m.data.turn a).takeWhile (· ≠ 0)).map UInt8.toNat := by
  rw [toList_stringAt, List.map_map]
  exact List.map_congr_left fun b _ => Bridge.toNat_ofNat_byte b

/-- No string holds the character zero. -/
theorem zero_notMem_stringAt (m : Machine) (a : Word) : Char.ofNat 0 ∉ (m.stringAt a).toList := by
  rw [toList_stringAt]
  intro h
  obtain ⟨b, hb, hzero⟩ := List.mem_map.1 h
  rw [(byteChar_eq_zero_iff b).1 hzero] at hb
  exact (longestNonzero_takeWhile (m.data.turn a)).nonzero hb

end Machine

namespace Utility

/-! ## Whole utilities -/

/-- Serves all requests of a utility through the bridge, strings as lent blocks. -/
def driveLent (alloc : Allocator) : Utility → Bridge → Heap.Op Bridge
  | done, b => pure b
  | pop next, b =>
    driveLent alloc (next (b.onStack Target.pop 0).1) (b.onStack Target.pop 0).2
  | push w next, b => driveLent alloc next (b.onStack (Target.push w) ()).2
  | read a next, b => driveLent alloc (next (Target.read b.scope.machine a)) b
  | write a w next, b => driveLent alloc next { b with scope := b.scope.withData a w }
  | string a next, b => do
    let answer ← Heap.fetch alloc (Target.stringAt b.scope.machine a)
    driveLent alloc (next answer) b
  | registers next, b => driveLent alloc (next b.regs) b
  | setRegisters r next, b => driveLent alloc next { b with regs := r }
  | enter a next, b => driveLent alloc next (b.record (.reentryUnsupported a))
  | print text next, b =>
    driveLent alloc next { b with scope := { b.scope with printed := b.scope.printed ++ text } }
  | note o next, b =>
    driveLent alloc next { b with scope := { b.scope with notes := b.scope.notes.push o } }

/-- A utility whose strings are lent is served as by the bridge, and gives every block back. -/
theorem driveLent_eq (alloc : Allocator) (u : Utility) (b : Bridge) (heap : Heap) :
    u.driveLent alloc b heap = some (u.drive Target.stringAt b, heap) := by
  induction u generalizing b with
  | done => rfl
  | pop next ih => exact ih _ _
  | push w next ih => exact ih _
  | read a next ih => exact ih _ b
  | write a w next ih => exact ih _
  | string a next ih =>
    -- the block is back before the utility goes on, which starts from the same heap
    rw [driveLent, Heap.bind_of_some (Heap.fetch_eq alloc _ heap)]
    exact ih _ b
  | registers next ih => exact ih _ b
  | setRegisters r next ih => exact ih _
  | enter a next ih => exact ih _
  | print text next ih => exact ih _
  | note o next ih => exact ih _

/-- The string at an address is the Latin-1 text of the longest piece without a zero byte of the
131072 bytes of one turn through memory from there on, so it holds no character zero. The words in
front of the end and the one with the end are read, at most 65536, and no other word counts; without
a zero byte it is all of them. A utility that asks for the string is always given this text, through
a block that is given back, whatever the allocator, the heap and the state of the bridge. -/
theorem native_code_sees_string (m : Machine) (a : Word) :
    let text := m.stringAt a
    let words := Segment.addressesFrom a (min 65536 (text.length / 2 + 1))
    (m.data.turn a).length = 131072 ∧
      (∃ bytes, LongestNonzero bytes (m.data.turn a) ∧
        text.toList.map Char.toNat = bytes.map UInt8.toNat) ∧
      Machine.scan m.data a segmentSize = (words, text.toList) ∧
      words.length ≤ 65536 ∧
      (0 ∉ m.data.turn a → words.length = 65536) ∧
      (∀ m' : Machine, (∀ b ∈ words, m'.data.get b = m.data.get b) → m'.stringAt a = text) ∧
      Char.ofNat 0 ∉ text.toList ∧
      ∀ (alloc : Allocator) (heap : Heap),
        Heap.fetch alloc text heap = some (some text, heap) ∧
        (∀ next notes printed regs fault,
          let b : Bridge := ⟨⟨m, notes, printed⟩, regs, fault⟩
          (string a next).drive Target.stringAt b = (next (some text)).drive Target.stringAt b) ∧
        ∀ (u : Utility) (b : Bridge),
          u.driveLent alloc b heap = some (u.drive Target.stringAt b, heap) := by
  intro text words
  have hcount : words.length = min 65536 (text.length / 2 + 1) := Segment.length_addressesFrom a _
  have hpass : Bridge.byteText? text = some text := Bridge.byteText?_stringAt m a
  refine ⟨m.data.length_turn a, ⟨_, longestNonzero_takeWhile _, m.codes_stringAt a⟩,
    m.scan_stringAt a, hcount ▸ Nat.min_le_left _ _, ?_, fun m' h => Machine.stringAt_congr h,
    m.zero_notMem_stringAt a, fun alloc heap => ⟨?_, ?_, fun u b => driveLent_eq alloc u b heap⟩⟩
  · -- the text has two characters for every word, and no word is left to hold the end
    intro hnonzero
    have hlength : text.length = 131072 := Machine.length_stringAt_of_nonzero hnonzero
    rw [hcount, hlength]
    rfl
  · rw [Heap.fetch_eq, hpass]
  · intro next notes printed regs fault b
    rw [drive]
    exact congrArg (fun answer => (next answer).drive Target.stringAt b) hpass

/-- A string around the end of memory is the same in two memories that share nothing but its two
words, and in a memory without a zero byte all words are read. -/
theorem native_code_sees_string_around :
    let around (filler : Word) : Machine :=
      { (default : Machine) with data := ((Segment.fill filler).set 0xFFFF 0x6162).set 0 0x6300 }
    let endless : Machine := { (default : Machine) with data := .fill 0x4142 }
    (around 0).stringAt 0xFFFF = "abc" ∧ (around 0x7878).stringAt 0xFFFF = "abc" ∧
      Heap.fetch default "abc" [(1, [7])] = some (some "abc", [(1, [7])]) ∧
      0 ∉ endless.data.turn 7 ∧
      (Segment.addressesFrom 7 (min 65536 ((endless.stringAt 7).length / 2 + 1))).length =
        65536 := by
  intro around endless
  have hend (filler : Word) : (around filler).data.get 0xFFFF = 0x6162 := by
    rw [Segment.get_set_of_ne _ _ (by decide), Segment.get_set_self]
  have hstart (filler : Word) : (around filler).data.get 0 = 0x6300 := Segment.get_set_self _ _ _
  have hholds : (around 0).data.HoldsAt 0xFFFF [0x6162, 0x6300] := ⟨hend 0, hstart 0, trivial⟩
  have hbytes : Word.bigEndian [0x6162, 0x6300] = [0x61, 0x62, 0x63] ++ 0 :: [] := by decide
  have habc : (around 0).stringAt 0xFFFF = "abc" :=
    Machine.stringAt_of_holdsAt hholds (by decide) hbytes
  have hwords : Segment.addressesFrom 0xFFFF (min 65536 ("abc".length / 2 + 1)) = [0xFFFF, 0] := by
    decide
  have hendless : 0 ∉ endless.data.turn 7 := by
    intro hzero
    obtain ⟨w, hw, hbyte⟩ := List.mem_flatMap.1 hzero
    obtain ⟨b, -, rfl⟩ := List.mem_map.1 hw
    rw [Segment.get_fill] at hbyte
    exact absurd hbyte (by decide)
  obtain ⟨-, -, -, -, -, hsame, -, hnative⟩ := native_code_sees_string (around 0) 0xFFFF
  obtain ⟨-, -, -, -, hall, -⟩ := native_code_sees_string endless 7
  rw [habc, hwords] at hsame
  rw [habc] at hnative
  refine ⟨habc, hsame (around 0x7878) ?_, (hnative default _).1, hendless, hall hendless⟩
  intro b hb
  rcases List.mem_pair.1 hb with rfl | rfl
  · rw [hend, hend]
  · rw [hstart, hstart]

end Utility

end WordMachine

import Mathlib.Algebra.Order.BigOperators.Group.List
import Mathlib.Algebra.Order.Group.Nat
import WordMachine.Proofs.Assembly.Execution
import WordMachine.Proofs.Checked.Assembling

/-!
# Assembly is total

`assemble_total` says of every text that its assembly ends in an image or an error and that no
access of it is out of range: the checked assembler, which traps on such an access, gives the same
result. It also spells out what the accesses rest on. A call of the lexer cuts a token out between
two characters and behind the place it was called at (`RawLexer.Cuts`), a quoted token has both its
quotes, and when addresses are filled in, the references are the operands of pushes, inside of the
code and apart from each other and from every opcode (`Rooms`).

A reference is recorded before the two bytes that it stands for, so where it is follows from the
items in front of it (`exists_of_roomsFrom`); that it stands behind the opcode of a push follows
from the statements that the items belong to (`Program.exists_push`).
-/

namespace WordMachine.Assembly

/-! ## Calls of the lexer -/

namespace RawLexer

variable {text : String} {x y : RawLexer} {t : Token}

/-- A call of the lexer cuts a token out of the text. -/
structure Cuts (text : String) (x : RawLexer) (t : Token) (y : RawLexer) : Prop where
  /-- The token starts at a character, at the place of the call or behind it, and takes at least
  one character. -/
  exists_start : ∃ start : String.Pos.Raw, start.IsValid text ∧ x.pos ≤ start ∧ start < y.pos ∧
    start.extract text y.pos = t.text
  /-- It stops where a character starts or the text ends, and there the lexer stands then. -/
  stop_valid : y.pos.IsValid text
  /-- There are no more lines than bytes. -/
  line_le : y.line ≤ y.pos.byteIdx + 1

/-- Where a token is cut out: it starts behind the gap, and the lexer stands behind it then. -/
theorem exists_start_of_next (hx : x.pos.IsValid text) (h : x.next text = .ok (some (t, y))) :
    ∃ start : String.Pos.Raw, start.IsValid text ∧ x.pos ≤ start ∧ start < y.pos ∧
      start.extract text y.pos = t.text := by
  obtain ⟨x', hgap, h⟩ := bind_eq_ok_iff.1 h
  obtain ⟨first, hread, h⟩ := bind_eq_ok_iff.1 h
  cases first with
  | none => cases h
  | some taken =>
    obtain ⟨z, htoken, h⟩ := bind_eq_ok_iff.1 h
    obtain ⟨word, hslice, h⟩ := bind_eq_ok_iff.1 h
    obtain ⟨rfl, rfl⟩ : ⟨word, x'.line⟩ = t ∧ z = y := by simpa using Except.ok.inj h
    obtain ⟨⟨hstart, -, -⟩, hword⟩ := slice_eq_ok_iff.1 hslice
    -- bytes that are no longer left are those in front of the position
    have hgap_le := left_le_of_skipGap hgap
    have htoken_lt := left_lt_of_skipToken hread (endsWord_of_skipGap hgap hread) htoken
    have hx_le := String.Pos.Raw.le_iff.1 hx.le_rawEndPos
    have hstart_le := String.Pos.Raw.le_iff.1 hstart.le_rawEndPos
    rw [String.byteIdx_rawEndPos] at hx_le hstart_le
    unfold left at hgap_le htoken_lt
    exact ⟨x'.pos, hstart, String.Pos.Raw.le_iff.2 (by omega), String.Pos.Raw.lt_iff.2 (by omega),
      hword⟩

/-- Between two characters, the lexer stands in front of the characters that are left. -/
theorem exists_at (hx : x.pos.IsValid text) (hline : x.line ≤ x.pos.byteIdx + 1) :
    ∃ rest, x.At text rest := by
  obtain ⟨front, back, rfl, hpos⟩ := String.Pos.Raw.isValid_iff_exists_append.1 hx
  refine ⟨back.toList, ⟨front.toList, by simp, ?_⟩, hline⟩
  rw [hpos, String.Pos.Raw.ext_iff, String.byteIdx_rawEndPos, String.utf8Len_toList]

/-- A call of the lexer reports the end of the text or an open quote, or cuts a token out. -/
theorem next_cases (hx : x.pos.IsValid text) (hline : x.line ≤ x.pos.byteIdx + 1) :
    x.next text = .ok none ∨
    (∃ line, x.next text = .error (.error (.unterminatedString line))) ∨
    ∃ t y, x.next text = .ok (some (t, y)) ∧ Cuts text x t y := by
  obtain ⟨rest, hat⟩ := exists_at hx hline
  rcases next_of_at hat with ⟨-, hnext⟩ | ⟨line, -, hnext⟩ | ⟨t, after, y, -, hnext, hy, -⟩
  · exact .inl hnext
  · exact .inr (.inl ⟨line, hnext⟩)
  · obtain ⟨seen, htext, hpos⟩ := hy.exists_seen
    refine .inr (.inr ⟨t, y, hnext, exists_start_of_next hx hnext, ?_, hy.line_le⟩)
    rw [hpos, htext]
    exact isValid_utf8Len seen after

end RawLexer

/-! ## Rooms for addresses -/

namespace Program

variable {p : Program} {k : Nat}

/-- Later instructions stand further behind. -/
theorem offset_mono {k' : Nat} (h : k ≤ k') : p.offset k ≤ p.offset k' := by
  have hsub := (List.take_sublist_take_left (l := p.instructions) h).map Statement.codeSize
  exact hsub.sum_le_sum fun _ _ => Nat.zero_le _

/-- The instructions behind a statement start where it ends. -/
theorem exists_offset_cons (s : Statement) {s' : Statement} (h : p.instructions[k]? = some s') :
    ∃ k', (instructions (s :: p))[k']? = some s' ∧
      offset (s :: p) k' = s.codeSize + p.offset k := by
  by_cases hs : s.instruction?.isSome
  · have hcons : instructions (s :: p) = s :: p.instructions := List.filter_cons_of_pos hs
    refine ⟨k + 1, by rwa [hcons, List.getElem?_cons_succ], ?_⟩
    rw [offset, hcons, List.take_succ_cons, List.map_cons, List.sum_cons, offset]
  · have hsame : instructions (s :: p) = p.instructions := List.filter_cons_of_neg hs
    have hsize : s.codeSize = 0 := by
      cases s with
      | push _ | instruction _ => exact absurd rfl hs
      | directive _ | entry _ _ _ | label _ => rfl
    exact ⟨k, by rwa [hsame], by rw [offset, hsame, hsize, Nat.zero_add, offset]⟩

/-- A statement that refers to a name is a push, and its reference stands behind the opcode. -/
theorem eq_push_of_items {s : Statement} {front back : List Item} {name : String}
    (h : s.items = front ++ .reference name :: back) :
    s = .push (.label name) ∧ (blankCode front).length = 1 := by
  have hmem : Item.reference name ∈ s.items := by rw [h]; simp
  cases s with
  | directive _ | label _ | instruction _ => simp [Statement.items] at hmem
  | entry _ _ items => simp [Statement.items] at hmem
  | push operand =>
    cases operand with
    | number n => simp [Statement.items] at hmem
    | label name' =>
      rcases front with _ | ⟨item, front⟩
      · cases h
      · -- the opcode is the first item, and the reference the only other one
        obtain ⟨rfl, htail⟩ := List.cons.inj h
        rcases front with _ | ⟨item, front⟩
        · obtain ⟨hname, -⟩ := List.cons.inj htail
          obtain rfl := Item.reference.inj hname
          exact ⟨rfl, rfl⟩
        · obtain ⟨-, hnil⟩ := List.cons.inj htail
          simp at hnil

/-- A reference among the items of a program stands behind the opcode of a push. -/
theorem exists_push {front back : List Item} {name : String}
    (h : p.items = front ++ .reference name :: back) :
    ∃ k, p.instructions[k]? = some (.push (.label name)) ∧
      (blankCode front).length = p.offset k + 1 := by
  -- statement by statement, with the items in front of the reference
  induction p generalizing front with
  | nil => simp [Program.items] at h
  | cons s p ih =>
    rw [Program.items_cons] at h
    rcases List.append_eq_append_iff.1 h with ⟨mid, rfl, hp⟩ | ⟨mid, hs, hmid⟩
    · -- it belongs to a later statement
      obtain ⟨k, hk, hlength⟩ := ih hp
      obtain ⟨k', hk', hoffset⟩ := exists_offset_cons s hk
      have hsize : (blankCode s.items).length = s.codeSize := by
        rw [blankCode, codeOf_statement, length_code_statement]
      refine ⟨k', hk', ?_⟩
      rw [blankCode_append, List.length_append, hsize, hlength, hoffset, Nat.add_assoc]
    · rcases mid with _ | ⟨item, mid⟩
      · -- no program starts with a reference
        have hfirst : Program.items p = [] ++ .reference name :: back := hmid.symm
        obtain ⟨k, -, hlength⟩ := ih hfirst
        cases hlength
      · obtain ⟨rfl, -⟩ := List.cons.inj hmid
        obtain ⟨rfl, hlength⟩ := eq_push_of_items hs
        exact ⟨0, rfl, hlength⟩

end Program

/-- The room that a layout of a program has for addresses. -/
structure Rooms (l : Layout) (p : Program) : Prop where
  code_size : l.code.size = p.codeSize
  data_size : l.data.size = p.dataSize
  /-- Code and data fit their segments. -/
  code_le : l.code.size ≤ segmentSize
  data_le : l.data.size ≤ segmentSize
  /-- Both bytes of a reference are in the code. -/
  inside : ∀ r ∈ l.references, r.position + 1 < l.code.size
  /-- A reference is the operand of a push of its name. -/
  behind_push : ∀ r ∈ l.references, ∃ k, p.instructions[k]? = some (.push (.label r.name)) ∧
    r.position = p.offset k + 1
  /-- No byte of a reference is an opcode. -/
  apart_from_opcodes : ∀ r ∈ l.references, ∀ k < p.instructions.length,
    p.offset k ≠ r.position ∧ p.offset k ≠ r.position + 1
  /-- No two references share a byte. -/
  apart : l.references.toList.Pairwise fun r r' => r.position + 1 < r'.position

/-- The bytes behind a push are no opcodes. -/
theorem offset_ne_of_push {p : Program} {k : Nat} {operand : Operand}
    (hk : p.instructions[k]? = some (.push operand)) (k' : Nat) :
    p.offset k' ≠ p.offset k + 1 ∧ p.offset k' ≠ p.offset k + 2 := by
  have hnext : p.offset (k + 1) = p.offset k + 3 := Program.offset_succ hk
  rcases Nat.lt_or_ge k k' with hlt | hge
  · have hmono : p.offset (k + 1) ≤ p.offset k' := Program.offset_mono hlt
    omega
  · have hmono : p.offset k' ≤ p.offset k := Program.offset_mono hge
    omega

/-- A layout of the items of a program has its rooms where the pushes of the program are. -/
theorem Lays.rooms {l : Layout} {items : List (Token × Item)} {p : Program} (h : Lays l items)
    (hp : p.items = items.map Prod.snd) : Rooms l p := by
  have hpush : ∀ r ∈ l.references, ∃ k, p.instructions[k]? = some (.push (.label r.name)) ∧
      r.position = p.offset k + 1 := by
    intro r hr
    -- the reference is that of an item, which is one of a push
    rw [← Array.mem_toList_iff, h.references_eq] at hr
    obtain ⟨before, after, hsplit⟩ := List.append_of_mem hr
    obtain ⟨front, t, back, rfl, -, -, hposition⟩ := exists_of_roomsFrom hsplit
    rw [List.map_append] at hp
    obtain ⟨k, hk, hlength⟩ := Program.exists_push hp
    exact ⟨k, hk, by rw [hposition, hlength, Nat.zero_add]⟩
  refine ⟨?_, ?_, h.codeSize_le, h.dataSize_le, h.position_lt, hpush, ?_, ?_⟩
  · rw [h.codeSize_eq, ← hp, length_blankCode_items]
  · rw [← Array.length_toList, h.holds.data_eq, ← hp, length_dataOf_items]
  · intro r hr k _
    obtain ⟨k', hk', hposition⟩ := hpush r hr
    rw [hposition]
    exact offset_ne_of_push hk' k
  · rw [h.references_eq]
    exact pairwise_roomsFrom 0 items

/-- When a text has been read to its end between two statements, its layout is one of the program
that it spells. -/
theorem exists_rooms {text : String} {p : Progress}
    (hfeed : (Scan.ofText text).tokens.foldlM Progress.feed .start = .ok p)
    (hmissing : p.expect.missing? = none) :
    ∃ program, Parses .data (Scan.ofText text).tokens program ∧ Rooms p.layout program := by
  obtain ⟨items, hsources, hlays⟩ := lays_of_start (List.append_nil _).symm hfeed
  obtain ⟨area, hexpect⟩ := missing?_eq_none_iff.1 hmissing
  rw [hexpect] at hsources
  obtain ⟨program, hparses, hitems⟩ := parses_of_reads hsources.reads
  exact ⟨program, hparses, hlays.rooms hitems⟩

/-! ## Totality -/

/-- Assembly is total. Checked assembly of any text, with a trap for every access and every counter
that is out of range, gives the image or the error that assembly gives. Wherever it stands between
two characters, the lexer reports the end of the text or an open quote, or cuts out a token of at
least one character between two characters. Every token that starts with a quote ends with another
one. And when all tokens of a text have been read and nothing is missing, the layout has its code
and data inside of their segments, and its references inside of the code, apart from each other and
from every opcode. -/
theorem assemble_total (text : String) :
    RawAssembler.assemble text = liftError (assemble text) ∧
    (∀ x : RawLexer, x.pos.IsValid text → x.line ≤ x.pos.byteIdx + 1 →
      x.next text = .ok none ∨
      (∃ line, x.next text = .error (.error (.unterminatedString line))) ∨
      ∃ t y, x.next text = .ok (some (t, y)) ∧ x.Cuts text t y) ∧
    (∀ t ∈ (Scan.ofText text).tokens, t.isQuoted →
      ∃ chars, t.text = String.ofList ('\'' :: (chars ++ ['\'']))) ∧
    ∀ p : Progress, (Scan.ofText text).tokens.foldlM Progress.feed .start = .ok p →
      p.expect.missing? = none →
      ∃ program, Parses .data (Scan.ofText text).tokens program ∧ Rooms p.layout program :=
  ⟨RawAssembler.assemble_eq text, fun _ => RawLexer.next_cases, closed_of_mem_ofText text,
    fun _ => exists_rooms⟩

/-- A literal of a character that is longer than a byte, and a push of its address. The call in
front of the literal cuts it out with both quotes, and the address goes behind the opcode. -/
theorem assemble_total_literal :
    (∃ y, RawLexer.next "s 1 'é'\n.code PI :s" ⟨⟨3⟩, 1⟩ = .ok (some (⟨"'é'", 1⟩, y)) ∧
      RawLexer.Cuts "s 1 'é'\n.code PI :s" ⟨⟨3⟩, 1⟩ ⟨"'é'", 1⟩ y) ∧
    (∃ chars, "'é'" = String.ofList ('\'' :: (chars ++ ['\'']))) ∧
    ∃ p program, (Scan.ofText "s 1 'é'\n.code PI :s").tokens.foldlM Progress.feed .start = .ok p ∧
      p.layout.references.toList.map Reference.name = ["s"] ∧ Rooms p.layout program := by
  obtain ⟨-, hcall, hquoted, hrooms⟩ := assemble_total "s 1 'é'\n.code PI :s"
  have htokens : (Scan.ofText "s 1 'é'\n.code PI :s").tokens = [⟨"s", 1⟩, ⟨"1", 1⟩, ⟨"'é'", 1⟩,
      ⟨".code", 2⟩, ⟨"PI", 2⟩, ⟨":s", 2⟩] := by decide +kernel
  refine ⟨?_, hquoted ⟨"'é'", 1⟩ (by simp [htokens]) (by decide), ?_⟩
  · have hat : RawLexer.At "s 1 'é'\n.code PI :s" ⟨⟨3⟩, 1⟩ " 'é'\n.code PI :s".toList :=
      ⟨⟨"s 1".toList, by decide +kernel, by decide +kernel⟩, by decide⟩
    have hgap : skipGap false " 'é'\n.code PI :s".toList 1 =
        ('\'' :: "é'\n.code PI :s".toList, 1) := by decide +kernel
    have htake : takeToken? '\'' "é'\n.code PI :s".toList =
        some (['\'', 'é', '\''], "\n.code PI :s".toList) := by decide +kernel
    have htoken := next_of_cons hgap
    rw [htake] at htoken
    rcases RawLexer.next_of_at hat with ⟨hnext, -⟩ | ⟨_, hnext, -⟩ | ⟨t, after, y, hnext, hy, -⟩
    · cases htoken.symm.trans hnext
    · cases htoken.symm.trans hnext
    · obtain ⟨rfl, -⟩ := Next.token.inj (htoken.symm.trans hnext)
      refine ⟨y, hy, ?_⟩
      have hvalid : (⟨3⟩ : String.Pos.Raw).IsValid "s 1 'é'\n.code PI :s" := by decide +kernel
      rcases hcall ⟨⟨3⟩, 1⟩ hvalid (by decide) with hnone | ⟨_, hopen⟩ | ⟨t, y', hcut, hcuts⟩
      · cases hy.symm.trans hnone
      · cases hy.symm.trans hopen
      · obtain ⟨rfl, rfl⟩ : _ = t ∧ y = y' := by simpa using hy.symm.trans hcut
        exact hcuts
  · have hreads : Reads (.statement .data) (Scan.ofText "s 1 'é'\n.code PI :s").tokens
        [.label .data "s", .word 0xE900, .byte 5, .reference "s"] (.statement .code) := by
      rw [htokens]
      have hdatum : IsDatum ⟨"'é'", 1⟩ (.text ['é']) := .text rfl (by simp)
      exact .cons (.entryName (.bare (c := 's') rfl (by decide) (by decide) (by decide)))
        (.cons (@TokenStep.count _ 1 (by decide +kernel)) (.cons (.datum hdatum)
          (.cons (@TokenStep.directive _ .code _ rfl) (.cons (.push rfl)
            (.cons (.reference rfl) .nil)))))
    obtain ⟨p, hfeed, hexpect, hholds⟩ := feeds_of_reads (p := .start) hreads holds_empty
      ⟨by simp [symbolsOf, symbolsFrom], by decide, by decide⟩
    obtain ⟨program, -, hrooms⟩ := hrooms p hfeed (by rw [hexpect]; rfl)
    exact ⟨p, program, hfeed, hholds.references_eq, hrooms⟩

end WordMachine.Assembly

import Mathlib.Data.String.Basic
import WordMachine.Proofs.Assembly.Partition
import WordMachine.Proofs.Checked.RawLexer

/-!
# The checked lexer reads the tokens of a text

`RawLexer.At` ties the position of the checked lexer to the characters that are left. Where it
stands in front of some characters, no loop of the lexer traps, and each ends in front of the
characters that are left behind what it passes over: a class of characters (`skipWhile_of_at`), a
gap (`skipGap_of_at`), a quote (`closeQuote_of_body`). So the lexer gives the tokens of the text one
after the other (`next_of_at`).
-/

namespace WordMachine.Assembly

open String (utf8Len)

/-- The number of bytes of some characters is the position of what follows them. -/
theorem isValid_utf8Len (front back : List Char) :
    (⟨utf8Len front⟩ : String.Pos.Raw).IsValid (String.ofList (front ++ back)) :=
  String.Pos.Raw.isValid_iff_exists_append.2
    ⟨String.ofList front, String.ofList back, String.ofList_append, by simp⟩

/-- Characters inside of a text are cut out of it without a trap. -/
theorem slice_append (front middle back : List Char) :
    slice (String.ofList (front ++ middle ++ back)) ⟨utf8Len front⟩
      ⟨utf8Len front + utf8Len middle⟩ = .ok (String.ofList middle) := by
  have hstart : (⟨utf8Len front⟩ : String.Pos.Raw).IsValid
      (String.ofList (front ++ middle ++ back)) := by
    rw [List.append_assoc]
    exact isValid_utf8Len _ _
  have hstop : (⟨utf8Len front + utf8Len middle⟩ : String.Pos.Raw).IsValid
      (String.ofList (front ++ middle ++ back)) := by
    rw [← String.utf8Len_append]
    exact isValid_utf8Len _ _
  have hle : (⟨utf8Len front⟩ : String.Pos.Raw) ≤ ⟨utf8Len front + utf8Len middle⟩ :=
    String.Pos.Raw.le_iff.2 (Nat.le_add_right _ _)
  rw [slice, ensure_of ⟨hstart, hstop, hle⟩]
  exact congrArg Except.ok (String.extract_of_valid front middle back)

namespace RawLexer

/-- The lexer stands in front of the characters `rest` at the end of a text, and has counted no more
lines than there are bytes in front of it. -/
structure At (text : String) (x : RawLexer) (rest : List Char) : Prop where
  exists_seen : ∃ seen, text = String.ofList (seen ++ rest) ∧ x.pos = ⟨utf8Len seen⟩
  line_le : x.line ≤ x.pos.byteIdx + 1

variable {text : String} {x y : RawLexer} {rest : List Char}

/-- At the start, all characters of the text are left. -/
theorem at_start (text : String) : At text start text.toList where
  exists_seen := ⟨[], by simp, rfl⟩
  line_le := Nat.le_refl _

/-- What stands between two positions of the lexer is cut out of the text without a trap. -/
theorem slice_of_at {middle : List Char} (hx : At text x (middle ++ rest)) (hy : At text y rest) :
    slice text x.pos y.pos = .ok (String.ofList middle) := by
  obtain ⟨seen, rfl, hxpos⟩ := hx.exists_seen
  obtain ⟨seen', htext, hypos⟩ := hy.exists_seen
  have hseen : seen ++ middle = seen' := by
    rw [String.ofList_inj, ← List.append_assoc] at htext
    exact List.append_cancel_right htext
  rw [hxpos, hypos, ← hseen, String.utf8Len_append, ← List.append_assoc]
  exact slice_append seen middle rest

/-- The next character is the first of those that are left. -/
theorem peek_of_at (h : At text x rest) : x.peek text = .ok rest.head? := by
  obtain ⟨seen, rfl, hpos⟩ := h.exists_seen
  have hslice := slice_append seen rest []
  rw [List.append_nil, ← String.utf8Len_append] at hslice
  rw [peek, hpos, String.rawEndPos_ofList, hslice]
  exact congrArg (fun cs => Except.ok (List.head? cs)) String.toList_ofList

/-! ## Characters -/

/-- At the end of the text, nothing is read. -/
theorem read_of_nil (h : At text x []) : x.read text = .ok none := by
  rw [read, peek_of_at h]
  rfl

/-- The next character is read, and the lexer stands behind it. -/
theorem read_of_cons {c : Char} (h : At text x (c :: rest)) :
    ∃ y, x.read text = .ok (some (c, y)) ∧ At text y rest ∧
      y.line = if c = '\n' then x.line + 1 else x.line := by
  obtain ⟨seen, htext, hpos⟩ := h.exists_seen
  have hline := h.line_le
  have hsize := c.utf8Size_pos
  have hbyte : (x.pos + c).byteIdx = utf8Len seen + c.utf8Size := by
    rw [String.Pos.Raw.byteIdx_add_char, hpos]
  have htotal : text.utf8ByteSize = utf8Len seen + (utf8Len rest + c.utf8Size) := by
    rw [htext, String.utf8ByteSize_ofList, String.utf8Len_append, String.utf8Len_cons]
  have hnext : (if c = '\n' then x.line + 1 else x.line) ≤ (x.pos + c).byteIdx + 1 := by
    rw [String.Pos.Raw.byteIdx_add_char]
    split <;> omega
  -- neither the position nor the line leaves its range
  have hfits : x.pos + c ≤ text.rawEndPos ∧
      (if c = '\n' then x.line + 1 else x.line) ≤ text.utf8ByteSize + 1 := by
    rw [String.Pos.Raw.le_iff, hbyte, String.byteIdx_rawEndPos]
    omega
  refine ⟨⟨x.pos + c, if c = '\n' then x.line + 1 else x.line⟩, ?_, ⟨⟨seen ++ [c], ?_, ?_⟩, hnext⟩,
    rfl⟩
  · rw [read, peek_of_at h]
    simp only [advance, ensure_of hfits, List.head?_cons, bind, Except.bind, pure, Except.pure]
  · rw [htext, List.append_assoc, List.singleton_append]
  · rw [String.Pos.Raw.ext_iff, hbyte, String.utf8Len_append, String.utf8Len_cons,
      String.utf8Len_nil, Nat.zero_add]

/-! One turn of each loop, by the character that is read. -/

/-- At the end, the loop over a class of characters is over. -/
theorem skipWhile_of_none {p : Char → Bool} (h : x.read text = .ok none) :
    skipWhile text p x = .ok x := by
  rw [skipWhile]
  split <;> simp_all

/-- It goes on behind a character of the class, and stays in front of any other. -/
theorem skipWhile_of_some {p : Char → Bool} {c : Char} (h : x.read text = .ok (some (c, y))) :
    skipWhile text p x = if p c then skipWhile text p y else .ok x := by
  rw [skipWhile]
  split <;> simp_all

/-- At the end, the loop over a gap is over. -/
theorem skipGap_of_none (h : x.read text = .ok none) : skipGap text x = .ok x := by
  rw [skipGap]
  split <;> simp_all

/-- It goes on behind a separator and behind a comment, and stays in front of anything else. -/
theorem skipGap_of_some {c : Char} (h : x.read text = .ok (some (c, y))) :
    skipGap text x = if isSeparator c then skipGap text y
      else if c = ';' then skipWhile text (· ≠ '\n') y >>= skipGap text else .ok x := by
  rw [skipGap]
  split
  · simp_all
  · simp_all
  · rename_i c' y' h'
    obtain ⟨rfl, rfl⟩ : c' = c ∧ y' = y := by simpa [h'] using h
    congr 2
    split <;> simp_all [bind, Except.bind]

/-- At the end, a quote is still open. -/
theorem closeQuote_of_none {line : Nat} (h : x.read text = .ok none) :
    closeQuote text line x = .error (.error (.unterminatedString line)) := by
  rw [closeQuote]
  split <;> simp_all

/-- A quote is closed by another one, and a newline leaves it open. -/
theorem closeQuote_of_some {line : Nat} {c : Char} (h : x.read text = .ok (some (c, y))) :
    closeQuote text line x = if c = '\'' then .ok y
      else if c = '\n' then .error (.error (.unterminatedString line))
      else closeQuote text line y := by
  rw [closeQuote]
  split <;> simp_all

/-- A class of characters is passed over to the first character that is not in it. -/
theorem skipWhile_of_at {p : Char → Bool} (hp : p '\n' = false) (h : At text x rest) :
    ∃ y, skipWhile text p x = .ok y ∧ At text y (rest.dropWhile p) ∧ y.line = x.line := by
  -- character by character; none of them is a newline
  induction rest generalizing x with
  | nil => exact ⟨x, skipWhile_of_none (read_of_nil h), h, rfl⟩
  | cons c rest ih =>
    obtain ⟨y, hread, hy, hline⟩ := read_of_cons h
    rw [skipWhile_of_some hread]
    by_cases hc : p c
    · have hnewline : c ≠ '\n' := by
        rintro rfl
        rw [hp] at hc
        cases hc
      rw [if_neg hnewline] at hline
      rw [if_pos hc, List.dropWhile_cons_of_pos hc, ← hline]
      exact ih hy
    · rw [if_neg hc, List.dropWhile_cons_of_neg hc]
      exact ⟨x, rfl, h, rfl⟩

/-! ## Gaps -/

/-- A comment ends where its line does. -/
theorem skipGap_dropWhile (cs : List Char) (line : Nat) :
    Assembly.skipGap true cs line = Assembly.skipGap false (cs.dropWhile (· ≠ '\n')) line := by
  have hbody : '\n' ∉ cs.takeWhile (· ≠ '\n') := by
    intro hmem
    have hall := List.all_eq_true.1 (List.all_takeWhile (p := (· ≠ '\n')) (l := cs)) _ hmem
    simp at hall
  have hrest : ∀ c ∈ (cs.dropWhile (· ≠ '\n')).head?, c = '\n' := by
    intro c hc
    have hhead := List.head?_dropWhile_not (· ≠ '\n') cs
    rw [Option.mem_def.1 hc] at hhead
    simpa using hhead
  have hcomment := skipGap_comment hbody hrest line
  rwa [List.takeWhile_append_dropWhile] at hcomment

/-- A gap is passed over to the next token, or to the end of the text. -/
theorem skipGap_of_at (h : At text x rest) :
    ∃ y, skipGap text x = .ok y ∧ At text y (Assembly.skipGap false rest x.line).1 ∧
      y.line = (Assembly.skipGap false rest x.line).2 := by
  -- A comment takes more than one character, so the induction is on their number.
  induction hn : rest.length using Nat.strongRecOn generalizing x rest with
  | ind n ih =>
    cases rest with
    | nil => exact ⟨x, skipGap_of_none (read_of_nil h), h, rfl⟩
    | cons c rest =>
      obtain ⟨y, hread, hy, hline⟩ := read_of_cons h
      rw [List.length_cons] at hn
      rw [skipGap_of_some hread]
      by_cases hsep : isSeparator c
      · -- rest) :: a separator is passed over
        have hskip : Assembly.skipGap false (c :: rest) x.line =
            Assembly.skipGap false rest y.line := by
          rw [hline, Assembly.skipGap]
          split <;> simp [hsep]
        rw [if_pos hsep, hskip]
        exact ih rest.length (by omega) hy rfl
      · have hnewline : c ≠ '\n' := by
          rintro rfl
          exact hsep (by decide)
        rw [if_neg hnewline] at hline
        rw [if_neg hsep, Assembly.skipGap, if_neg hnewline, Bool.false_or, if_neg hsep]
        by_cases hsemi : c = ';'
        · -- a comment is passed over up to its newline
          obtain ⟨z, hcomment, hz, hzline⟩ :=
            skipWhile_of_at (p := fun c => decide (c ≠ '\n')) (by decide) hy
          have hlen := (List.dropWhile_sublist (l := rest) fun c => decide (c ≠ '\n')).length_le
          rw [if_pos hsemi, if_pos hsemi, hcomment, skipGap_dropWhile, ← hline, ← hzline]
          exact ih _ (by omega) hz rfl
        · -- a token starts here
          rw [if_neg hsemi, if_neg hsemi]
          exact ⟨x, rfl, h, rfl⟩

/-! ## Tokens -/

/-- A quote is passed over to the closing one. -/
theorem closeQuote_of_body {line : Nat} {body after : List Char}
    (hbody : ∀ c ∈ body, c ≠ '\'' ∧ c ≠ '\n') (h : At text x (body ++ '\'' :: after)) :
    ∃ y, closeQuote text line x = .ok y ∧ At text y after ∧ y.line = x.line := by
  induction body generalizing x with
  | nil =>
    obtain ⟨y, hread, hy, hline⟩ := read_of_cons h
    exact ⟨y, by rw [closeQuote_of_some hread, if_pos rfl], hy, hline⟩
  | cons c body ih =>
    obtain ⟨⟨hquote, hnewline⟩, hrest⟩ := List.forall_mem_cons.1 hbody
    obtain ⟨y, hread, hy, hline⟩ := read_of_cons h
    rw [if_neg hnewline] at hline
    rw [closeQuote_of_some hread, if_neg hquote, if_neg hnewline, ← hline]
    exact ih hrest hy

/-- A quote that is not closed ends the scan. -/
theorem closeQuote_of_unclosed {line : Nat} (hopen : Unclosed rest) (h : At text x rest) :
    closeQuote text line x = .error (.error (.unterminatedString line)) := by
  -- up to the newline or to the end, where the quote is reported
  induction rest generalizing x with
  | nil => exact closeQuote_of_none (read_of_nil h)
  | cons c rest ih =>
    obtain ⟨y, hread, hy, -⟩ := read_of_cons h
    rw [closeQuote_of_some hread]
    by_cases hnewline : c = '\n'
    · rw [if_pos hnewline, if_neg (by rintro rfl; cases hnewline)]
    · rw [Unclosed, List.takeWhile_cons_of_pos (by simpa using hnewline), List.mem_cons,
        not_or] at hopen
      rw [if_neg (Ne.symm hopen.1), if_neg hnewline]
      exact ih hopen.2 hy

/-- The token in front of the lexer is passed over. -/
theorem skipToken_of_lexeme {c : Char} {cs after : List Char} (hlexeme : Lexeme (c :: cs) after)
    (h : At text x (c :: (cs ++ after))) (hy : At text y (cs ++ after)) (hline : y.line = x.line) :
    ∃ z, skipToken text x y c = .ok z ∧ At text z after ∧ z.line = x.line := by
  unfold skipToken
  cases hlexeme with
  | @quoted body _ hbody =>
    rw [if_pos rfl, ← hline]
    rw [List.append_assoc] at hy
    exact closeQuote_of_body hbody hy
  | word hword hafter =>
    -- the word ends in front of the first character that ends words
    have hquote : c ≠ '\'' := by simpa using hword.head_ne
    obtain ⟨z, hskip, hz, hzline⟩ := skipWhile_of_at (p := fun c => !endsWord c) (by decide) h
    have hdrop : (c :: (cs ++ after)).dropWhile (fun c => !endsWord c) = after := by
      rw [← List.cons_append, List.dropWhile_append_of_pos (by simpa using hword.not_ends)]
      cases after with
      | nil => rfl
      | cons d after => exact List.dropWhile_cons_of_neg (by simpa using hafter d rfl)
    rw [if_neg hquote, hskip]
    exact ⟨z, rfl, hdrop ▸ hz, hzline⟩

/-- The lexer gives what comes next in the text: nothing, a quote without end, or a token that it
stands behind then. -/
theorem next_of_at (h : At text x rest) :
    (Assembly.next rest x.line = .done ∧ x.next text = .ok none) ∨
    (∃ line, Assembly.next rest x.line = .unclosed line ∧
      x.next text = .error (.error (.unterminatedString line))) ∨
    ∃ t after y, Assembly.next rest x.line = .token t after ∧ x.next text = .ok (some (t, y)) ∧
      At text y after ∧ y.line = t.line := by
  obtain ⟨x', hgap, hx', hline⟩ := skipGap_of_at h
  obtain ⟨-, -, hhead, -⟩ := exists_gap false rest x.line
  rcases hskip : Assembly.skipGap false rest x.line with ⟨_ | ⟨c, cs⟩, start⟩
  · rw [hskip] at hx'
    -- the gap goes to the end of the text
    refine .inl ⟨next_of_nil hskip, ?_⟩
    rw [next, hgap]
    simp only [bind, Except.bind, read_of_nil hx', pure, Except.pure]
  · rw [hskip] at hx' hline hhead
    obtain ⟨y, hread, hy, hyline⟩ := read_of_cons hx'
    have hc : endsWord c = false := hhead c rfl
    have hnewline : c ≠ '\n' := by
      rintro rfl
      exact absurd hc (by decide)
    rw [if_neg hnewline] at hyline
    rw [next_of_cons hskip, next, hgap]
    rcases lexeme_or_unclosed hc cs with ⟨rfl, hopen⟩ | ⟨text', after, rfl, hlexeme⟩
    · -- a quote is left open
      refine .inr (.inl ⟨start, by rw [takeToken?_of_unclosed hopen]; rfl, ?_⟩)
      have hquote : closeQuote text start y = .error (.error (.unterminatedString start)) :=
        closeQuote_of_unclosed hopen hy
      simp only [bind, Except.bind, hread, skipToken, if_true, hquote, hline]
    · obtain ⟨z, htoken, hz, hzline⟩ := skipToken_of_lexeme hlexeme hx' hy hyline
      have hslice : slice text x'.pos z.pos = .ok (String.ofList (c :: text')) :=
        slice_of_at hx' hz
      refine .inr (.inr ⟨⟨String.ofList (c :: text'), start⟩, after, z, ?_, ?_, hz, ?_⟩)
      · rw [takeToken?_of_lexeme hlexeme]
        rfl
      · simp only [bind, Except.bind, hread, htoken, hslice, pure, Except.pure, hline]
      · rw [hzline, hline]

end RawLexer

end WordMachine.Assembly

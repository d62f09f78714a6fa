import Mathlib.Data.List.TakeWhile
import WordMachine.Proofs.Assembly.Lines

/-!
# Every character belongs to a gap or a token

The scan divides a text without losing or repeating a character: gaps and tokens stand in it in
turn, each token has the line that the newlines before it make, and behind the last token there is
another gap, or a gap and a quote that is not closed on its line. `Gap` and `Lexeme` say what a gap
and a token are, by their characters and the text that follows them, and `Divided` puts them
together. A text can be divided in one way only, so the scan gives some tokens exactly when the text
can be divided into them: `scan_partitions`.

The proof goes through the scan from below. A gap is what `skipGap` passes over
(`Gap.skipGap`, `exists_gap`), a lexeme is what `takeToken?` takes, and a quote without end is what
it refuses. A text starts with one of the three, which decides what comes next (`exists_next`), and
the scan is an induction over the pieces.
-/

namespace WordMachine.Assembly

/-! ## Gaps and tokens by their characters -/

/-- A gap in front of `rest`: white space, commas and comments. A comment goes from a semicolon up
to a newline, which does not belong to it, or to the end of the text. -/
inductive Gap : List Char → List Char → Prop where
  | nil {rest : List Char} : Gap [] rest
  | separator {c : Char} {gap rest : List Char} : isSeparator c = true → Gap gap rest →
      Gap (c :: gap) rest
  | comment {body gap rest : List Char} : '\n' ∉ body → (∀ c ∈ (gap ++ rest).head?, c = '\n') →
      Gap gap rest → Gap (';' :: (body ++ gap)) rest

/-- A token in front of `rest`: two quotes with neither quote nor newline between them, or a word
that nothing but the end of the text or the end of a word follows. -/
inductive Lexeme : List Char → List Char → Prop where
  | quoted {body rest : List Char} : (∀ c ∈ body, c ≠ '\'' ∧ c ≠ '\n') →
      Lexeme ('\'' :: (body ++ ['\''])) rest
  | word {word rest : List Char} : IsWord word → (∀ c ∈ rest.head?, endsWord c = true) →
      Lexeme word rest

/-- The text behind an opening quote has no closing quote on the same line. -/
def Unclosed (rest : List Char) : Prop := '\'' ∉ rest.takeWhile (· ≠ '\n')

/-- A token and the gap in front of it. -/
structure Piece where
  gap : List Char
  token : Token

/-- The characters of a piece. -/
def Piece.chars (p : Piece) : List Char := p.gap ++ p.token.text.toList

/-- The characters of pieces that stand one after the other. -/
def charsOf (pieces : List Piece) : List Char := pieces.flatMap Piece.chars

/-- The line of what stands behind some text. -/
def lineAfter (seen : List Char) : Nat := 1 + seen.count '\n'

/-- Between the text `seen` and the text `rest` stand pieces: gaps, and tokens with the lines that
they are on. -/
def Divided (rest : List Char) : (seen : List Char) → List Piece → Prop
  | _, [] => True
  | seen, p :: pieces =>
    Gap p.gap (p.token.text.toList ++ (charsOf pieces ++ rest)) ∧
      Lexeme p.token.text.toList (charsOf pieces ++ rest) ∧
      p.token.line = lineAfter (seen ++ p.gap) ∧ Divided rest (seen ++ p.chars) pieces

/-- The characters of a piece stand in front of those of the others. -/
theorem charsOf_cons (p : Piece) (pieces : List Piece) :
    charsOf (p :: pieces) = p.chars ++ charsOf pieces := rfl

/-- More text moves the line by its newlines. -/
theorem lineAfter_append (seen more : List Char) :
    lineAfter (seen ++ more) = lineAfter seen + more.count '\n' := by
  rw [lineAfter, lineAfter, List.count_append, Nat.add_assoc]

/-! ## Gaps -/

/-- A word goes on with everything but separators and semicolons. -/
theorem endsWord_eq_false_iff {c : Char} :
    endsWord c = false ↔ isSeparator c = false ∧ c ≠ ';' := by
  simp [endsWord]

/-- A newline separates. -/
theorem isSeparator_newline : isSeparator '\n' = true := by decide

/-- A semicolon does not, it starts a comment. -/
theorem isSeparator_semicolon : isSeparator ';' = false := by decide

/-- A comment is passed over up to its newline or the end of the text. -/
theorem skipGap_comment {body rest : List Char} (hbody : '\n' ∉ body)
    (hrest : ∀ c ∈ rest.head?, c = '\n') (line : Nat) :
    skipGap true (body ++ rest) line = skipGap false rest line := by
  -- the comment ends where its characters do, since none of them is a newline
  induction body with
  | nil =>
    cases rest with
    | nil => rfl
    | cons c rest =>
      obtain rfl := hrest c rfl
      rfl
  | cons c body ih =>
    rw [List.mem_cons, not_or] at hbody
    rw [List.cons_append, skipGap, if_neg (Ne.symm hbody.1), Bool.true_or, if_pos rfl]
    exact ih hbody.2

/-- A gap is passed over to its end, counting its newlines, if a token or the end of the text
follows. -/
theorem Gap.skipGap {gap rest : List Char} (h : Gap gap rest)
    (hrest : ∀ c ∈ rest.head?, endsWord c = false) (line : Nat) :
    Assembly.skipGap false (gap ++ rest) line = (rest, line + gap.count '\n') := by
  -- along the gap; only newlines move the line
  induction h generalizing line with
  | @nil rest =>
    cases rest with
    | nil => rfl
    | cons c rest => exact skipGap_word (hrest c rfl) rest line
  | @separator c gap rest hc _ ih =>
    rw [List.cons_append, Assembly.skipGap]
    split
    · rename_i hnewline
      rw [ih hrest, hnewline, List.count_cons_self]
      simp only [Prod.mk.injEq, true_and]
      omega
    · rename_i hnewline
      rw [hc, Bool.or_true, if_pos rfl, ih hrest, List.count_cons_of_ne hnewline]
  | @comment body gap rest hbody hend _ ih =>
    have hcount : (';' :: (body ++ gap)).count '\n' = gap.count '\n' := by
      rw [List.count_cons_of_ne (by decide), List.count_append, List.count_eq_zero_of_not_mem hbody,
        Nat.zero_add]
    rw [List.cons_append, List.append_assoc, Assembly.skipGap, if_neg (by decide),
      isSeparator_semicolon, if_neg (by decide), if_pos rfl, skipGap_comment hbody hend, ih hrest,
      hcount]

/-- A semicolon in front of a newline or the end of the text is a comment. -/
theorem Gap.semicolon {gap rest : List Char} (hend : ∀ c ∈ (gap ++ rest).head?, c = '\n')
    (h : Gap gap rest) : Gap (';' :: gap) rest :=
  @Gap.comment [] gap rest (by simp) hend h

/-- A comment may be longer by any character but a newline. -/
theorem Gap.lengthen {gap rest : List Char} {c : Char} (h : Gap (';' :: gap) rest)
    (hc : c ≠ '\n') : Gap (';' :: c :: gap) rest := by
  cases h with
  | separator hsep _ => simp [isSeparator_semicolon] at hsep
  | @comment body gap _ hbody hend hgap =>
    have hbody' : '\n' ∉ c :: body := by simp [hbody, hc.symm]
    exact .comment hbody' hend hgap

/-- What is passed over is a gap, and a token or the end of the text follows. Inside a comment the
semicolon that opened it is missing from the gap. -/
theorem exists_gap (comment : Bool) (cs : List Char) (line : Nat) :
    ∃ gap, cs = gap ++ (skipGap comment cs line).1 ∧
      (∀ c ∈ (skipGap comment cs line).1.head?, endsWord c = false) ∧
      Gap (if comment then ';' :: gap else gap) (skipGap comment cs line).1 := by
  -- at the end, at a newline, inside the gap, at a semicolon, and at a token
  fun_induction skipGap comment cs line with
  | case1 comment line =>
    refine ⟨[], rfl, by simp, ?_⟩
    cases comment with
    | false => exact .nil
    | true => exact .semicolon (by simp) .nil
  | case2 comment rest line ih =>
    obtain ⟨gap, hcs, hhead, hgap⟩ := ih
    refine ⟨'\n' :: gap, by rw [List.cons_append, ← hcs], hhead, ?_⟩
    have hnewline := Gap.separator isSeparator_newline hgap
    cases comment with
    | false => exact hnewline
    | true => exact .semicolon (by simp) hnewline
  | case3 comment c rest line hc hskip ih =>
    obtain ⟨gap, hcs, hhead, hgap⟩ := ih
    refine ⟨c :: gap, by rw [List.cons_append, ← hcs], hhead, ?_⟩
    cases comment with
    | false => exact .separator hskip hgap
    | true => exact hgap.lengthen hc
  | case4 comment rest line hc hskip ih =>
    obtain ⟨gap, hcs, hhead, hgap⟩ := ih
    obtain rfl : comment = false := by simpa using fun h : comment = true => hskip (by simp [h])
    exact ⟨';' :: gap, by rw [List.cons_append, ← hcs], hhead, hgap⟩
  | case5 comment c rest line hc hskip hsemicolon =>
    simp only [Bool.or_eq_true, not_or, Bool.not_eq_true] at hskip
    obtain ⟨rfl, hsep⟩ := hskip
    exact ⟨[], rfl, by simpa using endsWord_eq_false_iff.2 ⟨hsep, hsemicolon⟩, .nil⟩

/-! ## Tokens -/

/-- A token starts with a character that is in no gap. -/
theorem Lexeme.head {text rest : List Char} (h : Lexeme text rest) :
    ∃ c cs, text = c :: cs ∧ endsWord c = false := by
  cases h with
  | quoted _ => exact ⟨'\'', _, rfl, by decide⟩
  | word hword _ =>
    obtain ⟨c, cs, rfl⟩ := List.exists_cons_of_ne_nil hword.ne_nil
    exact ⟨c, cs, rfl, hword.not_ends c List.mem_cons_self⟩

/-- A token stands on one line. -/
theorem Lexeme.count_newline {text rest : List Char} (h : Lexeme text rest) :
    text.count '\n' = 0 := by
  refine List.count_eq_zero_of_not_mem fun hmem => ?_
  cases h with
  | @quoted body _ hbody =>
    have hmem' : '\n' ∈ body := by simpa using hmem
    exact (hbody _ hmem').2 rfl
  | word hword _ =>
    have hends := hword.not_ends _ hmem
    simp [endsWord, isSeparator_newline] at hends

/-- What stands behind an opening quote either has its closing quote or is unclosed. -/
theorem unclosed_or_exists (rest : List Char) :
    Unclosed rest ∨
      ∃ body after, rest = body ++ '\'' :: after ∧ ∀ c ∈ body, c ≠ '\'' ∧ c ≠ '\n' := by
  induction rest with
  | nil => exact .inl (by simp [Unclosed])
  | cons c rest ih =>
    -- the line is searched for a quote up to its newline
    by_cases hquote : c = '\''
    · exact .inr ⟨[], rest, by rw [hquote]; rfl, by simp⟩
    by_cases hnewline : c = '\n'
    · exact .inl (by simp [Unclosed, hnewline])
    rcases ih with hopen | ⟨body, after, rfl, hbody⟩
    · exact .inl (by simpa [Unclosed, hnewline, Ne.symm hquote] using hopen)
    · exact .inr ⟨c :: body, after, rfl, List.forall_mem_cons.2 ⟨⟨hquote, hnewline⟩, hbody⟩⟩

/-- A quote with a closing quote behind it on the line is not unclosed. -/
theorem not_unclosed {body after : List Char} (h : ∀ c ∈ body, c ≠ '\'' ∧ c ≠ '\n') :
    ¬ Unclosed (body ++ '\'' :: after) := by
  have htake : (body ++ '\'' :: after).takeWhile (· ≠ '\n') =
      body ++ '\'' :: after.takeWhile (· ≠ '\n') := by
    rw [List.takeWhile_append_of_pos (by simpa using fun c hc => (h c hc).2),
      List.takeWhile_cons_of_pos (by decide)]
  rw [Unclosed, htake]
  simp

/-- A quoted token is taken up to its closing quote. -/
theorem takeToken?_quoted {body : List Char} (h : ∀ c ∈ body, c ≠ '\'' ∧ c ≠ '\n')
    (after : List Char) :
    takeToken? '\'' (body ++ '\'' :: after) = some ('\'' :: (body ++ ['\'']), after) := by
  have hbody : (body ++ '\'' :: after).takeWhile (fun c => decide (c ≠ '\'') && decide (c ≠ '\n')) =
      body := by
    rw [takeWhile_append_stop (by decide), List.takeWhile_eq_self_iff]
    simpa using h
  simp only [takeToken?, if_true, hbody, List.drop_left]

/-- The token at the front of a text is the one that its characters and what follows make. -/
theorem takeToken?_of_lexeme {c : Char} {cs after : List Char} (h : Lexeme (c :: cs) after) :
    takeToken? c (cs ++ after) = some (c :: cs, after) := by
  cases h with
  | quoted hbody => simpa using takeToken?_quoted hbody after
  | word hword hafter =>
    refine takeToken?_word (by simpa using hword.head_ne) ?_ hafter
    exact (List.forall_mem_cons.1 hword.not_ends).2

/-- No token is taken from a quote that is not closed. -/
theorem takeToken?_of_unclosed {rest : List Char} (h : Unclosed rest) :
    takeToken? '\'' rest = none := by
  cases htake : takeToken? '\'' rest with
  | none => rfl
  | some taken =>
    -- a token that is taken has its closing quote behind characters that are no newlines
    simp only [takeToken?, if_true] at htake
    split at htake
    · rename_i after hdrop
      refine absurd h ?_
      have hsplit := List.prefix_iff_eq_append.1 (List.takeWhile_prefix (l := rest)
        (fun c => decide (c ≠ '\'') && decide (c ≠ '\n')))
      rw [hdrop] at hsplit
      rw [← hsplit]
      refine not_unclosed fun c hc => ?_
      simpa using List.mem_takeWhile_imp hc
    · cases htake

/-- A text that does not start with a gap starts with a token or with a quote that is not closed. -/
theorem lexeme_or_unclosed {c : Char} (hc : endsWord c = false) (rest : List Char) :
    (c = '\'' ∧ Unclosed rest) ∨
      ∃ cs after, rest = cs ++ after ∧ Lexeme (c :: cs) after := by
  by_cases hquote : c = '\''
  · rcases unclosed_or_exists rest with hopen | ⟨body, after, rfl, hbody⟩
    · exact .inl ⟨hquote, hopen⟩
    · exact .inr ⟨body ++ ['\''], after, by simp, hquote ▸ .quoted hbody⟩
  · -- a word goes up to the first character that ends it
    refine .inr ⟨rest.takeWhile fun c => !endsWord c, rest.dropWhile fun c => !endsWord c,
      List.takeWhile_append_dropWhile.symm, .word ⟨by simp, by simpa using hquote, ?_⟩ ?_⟩
    · refine List.forall_mem_cons.2 ⟨hc, fun x hx => ?_⟩
      simpa using List.mem_takeWhile_imp hx
    · intro x hx
      have hhead := List.head?_dropWhile_not (fun c => !endsWord c) rest
      rw [Option.mem_def.1 hx] at hhead
      simpa using hhead

/-! ## What comes next -/

section Next

variable {gap cs rest : List Char} {line : Nat}

/-- A gap to the end of the text is all of it. -/
theorem Gap.next (h : Gap gap []) : Assembly.next gap line = .done := by
  have hskip := h.skipGap (by simp) line
  rw [List.append_nil] at hskip
  exact next_of_nil hskip

/-- A quote without end behind a gap. -/
theorem Gap.next_unclosed (h : Gap gap ('\'' :: rest)) (hopen : Unclosed rest) :
    Assembly.next (gap ++ '\'' :: rest) line = .unclosed (line + gap.count '\n') := by
  rw [next_of_cons (h.skipGap (by simp; decide) line), takeToken?_of_unclosed hopen]
  rfl

/-- A token behind a gap. -/
theorem Gap.next_token {text after : List Char} (h : Gap gap (text ++ after))
    (htext : Lexeme text after) : Assembly.next (gap ++ (text ++ after)) line =
      .token ⟨String.ofList text, line + gap.count '\n'⟩ after := by
  obtain ⟨c, cs, rfl, hc⟩ := htext.head
  rw [List.cons_append] at h ⊢
  rw [next_of_cons (h.skipGap (by simpa using hc) line), takeToken?_of_lexeme htext]
  rfl

/-- Every text starts in one of the three ways. -/
theorem exists_next (cs : List Char) :
    Gap cs [] ∨
    (∃ gap rest, cs = gap ++ '\'' :: rest ∧ Gap gap ('\'' :: rest) ∧ Unclosed rest) ∨
    ∃ gap text after, cs = gap ++ (text ++ after) ∧ Gap gap (text ++ after) ∧
      Lexeme text after := by
  obtain ⟨gap, hcs, hhead, hgap⟩ := exists_gap false cs 1
  rw [if_neg Bool.false_ne_true] at hgap
  cases hrest : (skipGap false cs 1).1 with
  | nil =>
    rw [hrest, List.append_nil] at hcs
    rw [hrest, ← hcs] at hgap
    exact .inl hgap
  | cons c rest =>
    rw [hrest] at hcs hhead hgap
    rcases lexeme_or_unclosed (hhead c rfl) rest with ⟨rfl, hopen⟩ | ⟨text, after, rfl, htext⟩
    · exact .inr (.inl ⟨gap, rest, hcs, hgap, hopen⟩)
    · exact .inr (.inr ⟨gap, c :: text, after, hcs, hgap, htext⟩)

end Next

/-! ## The scan -/

/-- What stands behind the last token: a gap to the end of the text, or a gap and a quote that is
not closed, on the line that is given. -/
inductive Ending (seen : List Char) : List Char → Option Nat → Prop where
  | gap {gap : List Char} : Gap gap [] → Ending seen gap none
  | quote {gap rest : List Char} : Gap gap ('\'' :: rest) → Unclosed rest →
      Ending seen (gap ++ '\'' :: rest) (some (lineAfter (seen ++ gap)))

namespace Scan

/-- The scan of a text that is divided into pieces gives their tokens. -/
theorem go_of_divided {pieces : List Piece} {seen rest : List Char} {unclosed : Option Nat}
    (h : Divided rest seen pieces) (hend : Ending (seen ++ charsOf pieces) rest unclosed)
    (found : List Token) :
    go (charsOf pieces ++ rest) (lineAfter seen) found =
      ⟨found.reverse ++ pieces.map Piece.token, unclosed⟩ := by
  -- piece by piece, with the text that has been seen
  induction pieces generalizing seen found with
  | nil =>
    have hseen : seen ++ charsOf [] = seen := List.append_nil seen
    rw [hseen] at hend
    rw [List.map_nil, List.append_nil]
    cases hend with
    | gap hgap => exact go_of_done hgap.next
    | quote hgap hopen =>
      rw [lineAfter_append]
      exact go_of_unclosed (hgap.next_unclosed hopen)
  | cons p pieces ih =>
    obtain ⟨hgap, htext, hline, hpieces⟩ := h
    have hnext : next (charsOf (p :: pieces) ++ rest) (lineAfter seen) =
        .token p.token (charsOf pieces ++ rest) := by
      rw [charsOf_cons, Piece.chars, List.append_assoc, List.append_assoc, hgap.next_token htext,
        String.ofList_toList, ← lineAfter_append, ← hline]
    -- the token holds no newline, so the rest starts on its line
    have hseen : lineAfter (seen ++ p.chars) = p.token.line := by
      rw [hline, Piece.chars, ← List.append_assoc, lineAfter_append, htext.count_newline,
        Nat.add_zero]
    have hend' : Ending (seen ++ p.chars ++ charsOf pieces) rest unclosed := by
      rw [List.append_assoc, ← charsOf_cons]
      exact hend
    rw [go_of_token hnext, ← hseen, ih hpieces hend' (p.token :: found)]
    simp

/-- Every text is divided into pieces and an ending. -/
theorem exists_divided (seen cs : List Char) :
    ∃ pieces rest unclosed, cs = charsOf pieces ++ rest ∧ Divided rest seen pieces ∧
      Ending (seen ++ charsOf pieces) rest unclosed := by
  -- A token takes at least one character, so the induction is on the length of the text.
  induction hn : cs.length using Nat.strongRecOn generalizing seen cs with
  | ind n ih =>
    rcases exists_next cs with hgap | ⟨gap, rest, rfl, hgap, hopen⟩ |
      ⟨gap, text, after, rfl, hgap, htext⟩
    · exact ⟨[], cs, none, rfl, trivial, .gap hgap⟩
    · exact ⟨[], _, _, rfl, trivial, .quote hgap hopen⟩
    · let p : Piece := ⟨gap, String.ofList text, lineAfter (seen ++ gap)⟩
      have hchars : p.chars = gap ++ text := by simp [p, Piece.chars]
      have hlt : after.length < n := by
        obtain ⟨c, cs, rfl, -⟩ := htext.head
        simp only [List.length_append, List.length_cons] at hn
        omega
      obtain ⟨pieces, rest, unclosed, rfl, hpieces, hend⟩ := ih _ hlt (seen ++ p.chars) after rfl
      refine ⟨p :: pieces, rest, unclosed, ?_, ⟨?_, ?_, rfl, hpieces⟩, ?_⟩
      · rw [charsOf_cons, hchars, List.append_assoc, List.append_assoc]
      · simpa [p] using hgap
      · simpa [p] using htext
      · rwa [charsOf_cons, ← List.append_assoc]

/-- The scan of a text gives some tokens and an open quote exactly when the text can be divided into
these tokens and an ending with this quote. -/
theorem ofText_eq_iff {text : String} {tokens : List Token} {unclosed : Option Nat} :
    ofText text = ⟨tokens, unclosed⟩ ↔
      ∃ pieces rest, text.toList = charsOf pieces ++ rest ∧ pieces.map Piece.token = tokens ∧
        Divided rest [] pieces ∧ Ending (charsOf pieces) rest unclosed := by
  constructor
  · intro h
    obtain ⟨pieces, rest, unclosed', hchars, hpieces, hend⟩ := exists_divided [] text.toList
    have hgo := go_of_divided hpieces hend []
    rw [← hchars] at hgo
    obtain ⟨rfl, rfl⟩ := Scan.mk.inj (h.symm.trans hgo)
    exact ⟨pieces, rest, hchars, rfl, hpieces, hend⟩
  · rintro ⟨pieces, rest, hchars, rfl, hpieces, hend⟩
    rw [ofText, hchars]
    exact go_of_divided hpieces hend []

end Scan

/-- A text has some tokens and no error exactly when it consists of these tokens, each behind a gap
and on the line that the newlines before it make, and of a gap at the end. It has a quote left open
on a line exactly when, behind such tokens and a gap, there is a quote on this line that no other
quote of the line closes. -/
theorem scan_partitions (text : String) (tokens : List Token) :
    (Scan.ofText text = ⟨tokens, none⟩ ↔
      ∃ pieces gap, text.toList = charsOf pieces ++ gap ∧ pieces.map Piece.token = tokens ∧
        Divided gap [] pieces ∧ Gap gap []) ∧
    ∀ line, Scan.ofText text = ⟨tokens, some line⟩ ↔
      ∃ pieces gap rest, text.toList = charsOf pieces ++ (gap ++ '\'' :: rest) ∧
        pieces.map Piece.token = tokens ∧ Divided (gap ++ '\'' :: rest) [] pieces ∧
        Gap gap ('\'' :: rest) ∧ Unclosed rest ∧ line = lineAfter (charsOf pieces ++ gap) := by
  refine ⟨Scan.ofText_eq_iff.trans ⟨?_, ?_⟩, fun line => Scan.ofText_eq_iff.trans ⟨?_, ?_⟩⟩
  · rintro ⟨pieces, gap, hchars, htokens, hpieces, ⟨hgap⟩⟩
    exact ⟨pieces, gap, hchars, htokens, hpieces, hgap⟩
  · rintro ⟨pieces, gap, hchars, htokens, hpieces, hgap⟩
    exact ⟨pieces, gap, hchars, htokens, hpieces, .gap hgap⟩
  · rintro ⟨pieces, _, hchars, htokens, hpieces, hend⟩
    cases hend with
    | @quote gap rest hgap hopen =>
      exact ⟨pieces, gap, rest, hchars, htokens, hpieces, hgap, hopen, rfl⟩
  · rintro ⟨pieces, gap, rest, hchars, htokens, hpieces, hgap, hopen, rfl⟩
    exact ⟨pieces, _, hchars, htokens, hpieces, .quote hgap hopen⟩

end WordMachine.Assembly

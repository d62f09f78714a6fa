import WordMachine.Proofs.Assembly.Words

/-!
# Texts joined by newlines

A newline ends a word and a comment, and no quote goes past it. So the scan of a text goes on behind
a newline as if another text started there (`go_append_newline`), and texts joined by newlines have
the tokens of the texts, one text after the other (`texts_intercalate`). Only the lines of the
tokens tell where a text started, and the texts of the tokens do not depend on it (`go_texts`).
-/

namespace WordMachine.Assembly

/-! ## One token in front of a newline -/

/-- What is taken ends before an element that is not wanted, whatever stands behind it. -/
theorem takeWhile_append_stop {α : Type} {p : α → Bool} {x : α} (h : p x = false)
    (xs more : List α) : (xs ++ x :: more).takeWhile p = xs.takeWhile p := by
  have hstop : (x :: more).takeWhile p = [] := by simp [h]
  rw [List.takeWhile_append, hstop]
  split
  · rename_i hall
    rw [List.append_nil, (List.takeWhile_sublist p).eq_of_length hall]
  · rfl

/-- A gap in front of a newline is passed over to its end, and the newline with it. Where the gap
ends before a token, the newline stays behind the token. -/
theorem skipGap_append_newline (comment : Bool) (cs more : List Char) (line : Nat) :
    skipGap comment (cs ++ '\n' :: more) line =
      match skipGap comment cs line with
      | ([], last) => skipGap false more (last + 1)
      | (c :: rest, start) => (c :: (rest ++ '\n' :: more), start) := by
  -- character by character, in a comment or not
  induction cs generalizing comment line with
  | nil => simp [skipGap]
  | cons c cs ih =>
    rw [List.cons_append, skipGap, skipGap]
    split
    · exact ih false (line + 1)
    · split
      · exact ih comment line
      · split
        · exact ih true line
        · rfl

/-- The token in front of a newline ends before it, and a quote that is open there has no end. -/
theorem takeToken?_append_newline (c : Char) (cs more : List Char) :
    takeToken? c (cs ++ '\n' :: more) =
      (takeToken? c cs).map fun (text, after) => (text, after ++ '\n' :: more) := by
  have hdrop (p : Char → Bool) : (cs ++ '\n' :: more).drop (cs.takeWhile p).length =
      cs.drop (cs.takeWhile p).length ++ '\n' :: more :=
    List.drop_append_of_le_length (List.takeWhile_sublist p).length_le
  unfold takeToken?
  split
  · -- a literal: the closing quote, if there is one, comes before the newline
    dsimp only
    rw [takeWhile_append_stop (by decide), hdrop]
    cases cs.drop (cs.takeWhile fun c => decide (c ≠ '\'') && decide (c ≠ '\n')).length with
    | nil => rfl
    | cons x rest =>
      by_cases hx : x = '\''
      · subst hx
        rfl
      · simp [hx]
  · dsimp only
    rw [takeWhile_append_stop (by decide), hdrop]
    rfl

/-- A gap to the end of the text leaves no token. -/
theorem next_of_nil {cs : List Char} {line last : Nat} (h : skipGap false cs line = ([], last)) :
    next cs line = .done := by
  simp only [next, h]

/-- Behind a gap a token is taken, or a quote is left open. -/
theorem next_of_cons {cs rest : List Char} {c : Char} {line start : Nat}
    (h : skipGap false cs line = (c :: rest, start)) : next cs line =
      (takeToken? c rest).elim (.unclosed start)
        fun (text, after) => .token ⟨String.ofList text, start⟩ after := by
  simp only [next, h]
  cases takeToken? c rest with
  | none => rfl
  | some taken => rfl

/-- What comes next in front of a newline: where the text ends, the newline is passed over; an open
quote stays open; and a token leaves the newline behind it. -/
theorem next_append_newline (cs more : List Char) (line : Nat) :
    match next cs line with
    | .done => ∃ line', next (cs ++ '\n' :: more) line = next more line'
    | .unclosed start => next (cs ++ '\n' :: more) line = .unclosed start
    | .token t after => next (cs ++ '\n' :: more) line = .token t (after ++ '\n' :: more) := by
  have happend := skipGap_append_newline false cs more line
  cases hskip : skipGap false cs line with
  | mk front start =>
    rw [hskip] at happend
    cases front with
    | nil =>
      rw [next_of_nil hskip]
      exact ⟨start + 1, by simp only [next, happend]⟩
    | cons c rest =>
      rw [next_of_cons hskip, next_of_cons happend, takeToken?_append_newline]
      cases takeToken? c rest with
      | none => rfl
      | some found => rfl

/-! ## The scan behind a newline -/

namespace Scan

/-- A scan that finds no further token ends. -/
theorem go_of_done {cs : List Char} {line : Nat} {found : List Token} (h : next cs line = .done) :
    go cs line found = ⟨found.reverse, none⟩ := by
  rw [go]
  split <;> simp_all

/-- A scan that finds an open quote ends there. -/
theorem go_of_unclosed {cs : List Char} {line start : Nat} {found : List Token}
    (h : next cs line = .unclosed start) : go cs line found = ⟨found.reverse, some start⟩ := by
  rw [go]
  split <;> simp_all

/-- Scans with the same next token go on alike. -/
theorem go_congr {cs cs' : List Char} {line line' : Nat} (h : next cs line = next cs' line')
    (found : List Token) : go cs line found = go cs' line' found := by
  cases hnext : next cs' line' with
  | done => rw [go_of_done (h.trans hnext), go_of_done hnext]
  | unclosed start => rw [go_of_unclosed (h.trans hnext), go_of_unclosed hnext]
  | token t after => rw [go_of_token (h.trans hnext), go_of_token hnext]

/-- What has been found stands in front of what the scan finds. -/
theorem go_found (cs : List Char) (line : Nat) (found : List Token) :
    go cs line found = ⟨found.reverse ++ (go cs line []).tokens, (go cs line []).unclosed⟩ := by
  -- A scan with nothing found goes on with one token, so the induction is on the length.
  induction hn : cs.length using Nat.strongRecOn generalizing cs line found with
  | ind n ih =>
    cases hnext : next cs line with
    | done => simp [go_of_done hnext]
    | unclosed start => simp [go_of_unclosed hnext]
    | token t after =>
      have hlt : after.length < n := hn ▸ length_lt_of_next hnext
      rw [go_of_token hnext, go_of_token hnext, ih _ hlt after t.line (t :: found) rfl,
        ih _ hlt after t.line [t] rfl]
      simp

/-- The scan goes on behind a newline, unless a quote was left open before it. -/
theorem go_append_newline (cs more : List Char) (line : Nat) (found : List Token) :
    ((go cs line found).unclosed = none ∧ ∃ line', go (cs ++ '\n' :: more) line found =
      go more line' (go cs line found).tokens.reverse) ∨
    ((go cs line found).unclosed ≠ none ∧
      go (cs ++ '\n' :: more) line found = go cs line found) := by
  -- the text ends, a quote is open, or there is a token
  fun_induction go cs line found with
  | case1 cs line found hnext =>
    have happend := next_append_newline cs more line
    rw [hnext] at happend
    obtain ⟨line', hmore⟩ := happend
    exact .inl ⟨rfl, line', by rw [go_congr hmore, List.reverse_reverse]⟩
  | case2 cs line found start hnext =>
    have happend := next_append_newline cs more line
    rw [hnext] at happend
    exact .inr ⟨by simp, go_of_unclosed happend⟩
  | case3 cs line found t after hnext ih =>
    have happend := next_append_newline cs more line
    rw [hnext] at happend
    rw [go_of_token happend]
    exact ih

/-! ## Texts of tokens -/

/-- Which text a gap leaves does not depend on the line. -/
theorem skipGap_fst (comment : Bool) (cs : List Char) (line line' : Nat) :
    (skipGap comment cs line).1 = (skipGap comment cs line').1 := by
  induction cs generalizing comment line line' with
  | nil => rfl
  | cons c cs ih =>
    rw [skipGap, skipGap]
    split
    · exact ih false (line + 1) (line' + 1)
    · split
      · exact ih comment line line'
      · split
        · exact ih true line line'
        · rfl

/-- The line that a text starts on shows in the lines of its tokens only. -/
theorem next_line (cs : List Char) (line line' : Nat) :
    match next cs line with
    | .done => next cs line' = .done
    | .unclosed _ => ∃ start, next cs line' = .unclosed start
    | .token t after => ∃ start, next cs line' = .token ⟨t.text, start⟩ after := by
  have hskip := skipGap_fst false cs line line'
  rcases hfirst : skipGap false cs line with ⟨front, start⟩
  rcases hsecond : skipGap false cs line' with ⟨front', start'⟩
  rw [hfirst, hsecond] at hskip
  obtain rfl : front = front' := hskip
  cases front with
  | nil =>
    rw [next_of_nil hfirst]
    exact next_of_nil hsecond
  | cons c rest =>
    rw [next_of_cons hfirst, next_of_cons hsecond]
    cases takeToken? c rest with
    | none => exact ⟨start', rfl⟩
    | some taken => exact ⟨start', rfl⟩

/-- The texts of the tokens, and whether a quote is left open, are those of the text by itself. -/
theorem go_texts (cs : List Char) (line : Nat) (found : List Token) :
    (go cs line found).tokens.map Token.text =
        found.reverse.map Token.text ++ (go cs 1 []).tokens.map Token.text ∧
      ((go cs line found).unclosed = none ↔ (go cs 1 []).unclosed = none) := by
  -- A scan from line 1 goes on from other lines, so the induction is on the length of the text.
  induction hn : cs.length using Nat.strongRecOn generalizing cs line found with
  | ind n ih =>
    have hone := next_line cs line 1
    cases hnext : next cs line with
    | done =>
      rw [hnext] at hone
      rw [go_of_done hnext, go_of_done hone]
      simp
    | unclosed start =>
      rw [hnext] at hone
      obtain ⟨start', hone⟩ := hone
      rw [go_of_unclosed hnext, go_of_unclosed hone]
      simp
    | token t after =>
      rw [hnext] at hone
      obtain ⟨start', hone⟩ := hone
      have hlt : after.length < n := hn ▸ length_lt_of_next hnext
      obtain ⟨htexts, hunclosed⟩ := ih _ hlt after t.line (t :: found) rfl
      obtain ⟨htexts', hunclosed'⟩ := ih _ hlt after start' [⟨t.text, start'⟩] rfl
      rw [go_of_token hnext, go_of_token hone, htexts, htexts', hunclosed, hunclosed']
      simp

/-- The texts of the tokens of a text. -/
def texts (text : String) : List String := (ofText text).tokens.map Token.text

/-- Two texts with a newline between them have the tokens of both, and leave a quote open exactly if
one of them does. -/
theorem scan_newline (front back : String) :
    ((ofText (front ++ "\n" ++ back)).unclosed = none ↔
      (ofText front).unclosed = none ∧ (ofText back).unclosed = none) ∧
    ((ofText front).unclosed = none →
      texts (front ++ "\n" ++ back) = texts front ++ texts back) := by
  have hchars : (front ++ "\n" ++ back).toList = front.toList ++ '\n' :: back.toList := by simp
  rw [texts, ofText, hchars]
  rcases go_append_newline front.toList back.toList 1 [] with
    ⟨hclosed, line, hgo⟩ | ⟨hopen, hgo⟩
  · -- the tokens of the first text have been found when the second one starts
    obtain ⟨htexts, hunclosed⟩ := go_texts back.toList line (ofText front).tokens.reverse
    rw [List.reverse_reverse] at htexts
    have hfront : (ofText front).unclosed = none := hclosed
    rw [hgo]
    exact ⟨by rw [hfront, eq_self, true_and]; exact hunclosed, fun _ => htexts⟩
  · have hfront : (ofText front).unclosed ≠ none := hopen
    rw [hgo]
    exact ⟨iff_of_false hopen fun h => hfront h.1, fun h => absurd h hfront⟩

/-- Texts joined by newlines leave no quote open exactly if none of them does. -/
theorem unclosed_intercalate (parts : List String) :
    (ofText ("\n".intercalate parts)).unclosed = none ↔
      ∀ part ∈ parts, (ofText part).unclosed = none := by
  -- the first text and a newline in front of the others
  induction parts with
  | nil => exact iff_of_true (by decide +kernel) (by simp)
  | cons part parts ih =>
    cases parts with
    | nil => simp
    | cons part' parts =>
      rw [String.intercalate_cons_cons, (scan_newline _ _).1, ih, List.forall_mem_cons (a := part)]

/-- Texts joined by newlines have the tokens of the texts, one text after the other. -/
theorem texts_intercalate {parts : List String}
    (h : ∀ part ∈ parts, (ofText part).unclosed = none) :
    texts ("\n".intercalate parts) = parts.flatMap texts := by
  -- the first text and a newline in front of the others
  induction parts with
  | nil => decide +kernel
  | cons part parts ih =>
    cases parts with
    | nil => simp
    | cons part' parts =>
      obtain ⟨hpart, hparts⟩ := List.forall_mem_cons.1 h
      rw [String.intercalate_cons_cons, (scan_newline _ _).2 hpart, ih hparts]
      rfl

end Scan

end WordMachine.Assembly

import Mathlib.Data.List.Basic
import WordMachine.Assembly.Token

/-!
# Words between gaps

A text of words with gaps of white space and commas between them has these words as its tokens,
whatever the gaps are: `tokens_of_spread`. A gap is passed over to its end, counting its newlines
(`skipGap_append`), and a word is taken up to the character that ends it (`takeToken?_word`), so a
word behind a gap is the next token and leaves the rest of the text (`next_word`).
-/

namespace WordMachine.Assembly

/-- Nothing but white space and commas. -/
def IsGap (cs : List Char) : Prop := ∀ c ∈ cs, Text.isBlank c = true ∨ c = ','

/-- A token that is not quoted. -/
structure IsWord (cs : List Char) : Prop where
  ne_nil : cs ≠ []
  head_ne : cs.head? ≠ some '\''
  not_ends : ∀ c ∈ cs, endsWord c = false

/-- The texts that have some words one after the other, each behind a gap that is not empty, and a
gap at the end. -/
inductive Spread : List (List Char) → List Char → Prop where
  | nil {gap : List Char} : IsGap gap → Spread [] gap
  | cons {gap word rest : List Char} {words : List (List Char)} : gap ≠ [] → IsGap gap →
      Spread words rest → Spread (word :: words) (gap ++ (word ++ rest))

/-- Characters that neither quote nor end a word are one. -/
theorem isWord_of_forall {cs : List Char} (hne : cs ≠ [])
    (h : ∀ c ∈ cs, c ≠ '\'' ∧ endsWord c = false) : IsWord cs where
  ne_nil := hne
  head_ne hhead := (h _ (List.mem_of_mem_head? hhead)).1 rfl
  not_ends c hc := (h c hc).2

/-- A word may be longer by characters that do not end it. -/
theorem IsWord.append {cs more : List Char} (h : IsWord cs)
    (hmore : ∀ c ∈ more, endsWord c = false) : IsWord (cs ++ more) where
  ne_nil := by simp [h.ne_nil]
  head_ne := by rw [List.head?_append_of_ne_nil _ h.ne_nil]; exact h.head_ne
  not_ends := List.forall_mem_append.2 ⟨h.not_ends, hmore⟩

instance (cs : List Char) : Decidable (IsWord cs) :=
  decidable_of_iff (cs ≠ [] ∧ cs.head? ≠ some '\'' ∧ (cs.all fun c => !endsWord c) = true)
    ⟨fun ⟨hne, hhead, hall⟩ => ⟨hne, hhead, by simpa using hall⟩,
      fun ⟨hne, hhead, hall⟩ => ⟨hne, hhead, by simpa using hall⟩⟩

/-- A gap is passed over to its end. -/
theorem skipGap_append {gap : List Char} (h : IsGap gap) (cs : List Char) (line : Nat) :
    ∃ line', skipGap false (gap ++ cs) line = skipGap false cs line' := by
  -- each newline of the gap moves the line
  induction gap generalizing line with
  | nil => exact ⟨line, rfl⟩
  | cons c gap ih =>
    obtain ⟨hc, hgap⟩ := List.forall_mem_cons.1 h
    have hsep : isSeparator c = true := by simpa [isSeparator] using hc
    rw [List.cons_append, skipGap]
    split
    · exact ih hgap (line + 1)
    · simpa [hsep] using ih hgap line

/-- At a word there is no gap. -/
theorem skipGap_word {c : Char} (h : endsWord c = false) (cs : List Char) (line : Nat) :
    skipGap false (c :: cs) line = (c :: cs, line) := by
  have hnewline : c ≠ '\n' := by
    rintro rfl
    simp [endsWord, isSeparator, Text.isBlank_newline] at h
  simp only [endsWord, Bool.or_eq_false_iff, beq_eq_false_iff_ne] at h
  simp [skipGap, hnewline, h.1, h.2]

/-- A word is taken up to the character that ends it. -/
theorem takeToken?_word {c : Char} {cs rest : List Char} (hquote : c ≠ '\'')
    (hcs : ∀ x ∈ cs, endsWord x = false) (hrest : ∀ x ∈ rest.head?, endsWord x = true) :
    takeToken? c (cs ++ rest) = some (c :: cs, rest) := by
  have hword : (cs ++ rest).takeWhile (fun c => !endsWord c) = cs := by
    rw [List.takeWhile_append_of_pos (by simpa using hcs)]
    cases rest with
    | nil => simp
    | cons x rest => simp [hrest x rfl]
  rw [takeToken?, if_neg hquote, hword]
  simp

/-- A word behind a gap is the next token. -/
theorem next_word {gap word rest : List Char} (hgap : IsGap gap) (hword : IsWord word)
    (hrest : ∀ x ∈ rest.head?, endsWord x = true) (line : Nat) :
    ∃ line', next (gap ++ (word ++ rest)) line = .token ⟨String.ofList word, line'⟩ rest := by
  obtain ⟨c, cs, rfl⟩ := List.exists_cons_of_ne_nil hword.ne_nil
  obtain ⟨hc, hcs⟩ := List.forall_mem_cons.1 hword.not_ends
  have hquote : c ≠ '\'' := by simpa using hword.head_ne
  obtain ⟨line', hskip⟩ := skipGap_append hgap (c :: cs ++ rest) line
  refine ⟨line', ?_⟩
  rw [next, hskip, List.cons_append, skipGap_word hc]
  simp only [takeToken?_word hquote hcs hrest]

/-- A gap to the end of the text has no token. -/
theorem next_gap {gap : List Char} (h : IsGap gap) (line : Nat) : next gap line = .done := by
  obtain ⟨line', hskip⟩ := skipGap_append h [] line
  rw [List.append_nil] at hskip
  rw [next, hskip]
  rfl

/-- What follows a word in a text of words starts with the end of the word. -/
theorem Spread.head_ends {words : List (List Char)} {cs : List Char} (h : Spread words cs) :
    ∀ x ∈ cs.head?, endsWord x = true := by
  have hgap : ∀ {gap : List Char}, IsGap gap → ∀ x ∈ gap.head?, endsWord x = true := by
    intro gap hgap x hx
    have := hgap x (List.mem_of_mem_head? hx)
    simp [endsWord, isSeparator, this]
  cases h with
  | nil h => exact hgap h
  | cons hne h _ =>
    rw [List.head?_append_of_ne_nil _ hne]
    exact hgap h

/-- A scan that finds a token goes on behind it, on its line. -/
theorem Scan.go_of_token {cs after : List Char} {line : Nat} {t : Token} {found : List Token}
    (h : next cs line = .token t after) : go cs line found = go after t.line (t :: found) := by
  rw [go]
  split <;> simp_all

/-- The scan of words with gaps between them gives the words. -/
theorem scan_of_spread {words : List (List Char)} {cs : List Char} (h : Spread words cs)
    (hwords : ∀ w ∈ words, IsWord w) (line : Nat) (found : List Token) :
    (Scan.go cs line found).unclosed = none ∧
      (Scan.go cs line found).tokens.map Token.text =
        found.reverse.map Token.text ++ words.map String.ofList := by
  -- word by word, with the tokens found so far
  induction h generalizing line found with
  | nil hgap =>
    rw [Scan.go, next_gap hgap]
    simp
  | @cons gap word rest words hne hgap hrest ih =>
    obtain ⟨hword, hwords⟩ := List.forall_mem_cons.1 hwords
    obtain ⟨line', hnext⟩ := next_word hgap hword hrest.head_ends line
    rw [Scan.go_of_token hnext]
    simpa using ih hwords line' (⟨String.ofList word, line'⟩ :: found)

/-- The tokens of a text that starts with a word and goes on with words behind gaps. -/
theorem tokens_of_spread {word rest : List Char} {words : List (List Char)} (h : Spread words rest)
    (hwords : ∀ w ∈ word :: words, IsWord w) :
    (Scan.ofText (String.ofList (word ++ rest))).unclosed = none ∧
      (Scan.ofText (String.ofList (word ++ rest))).tokens.map Token.text =
        (word :: words).map String.ofList := by
  obtain ⟨hword, hwords⟩ := List.forall_mem_cons.1 hwords
  have hgap : IsGap [] := by simp [IsGap]
  obtain ⟨line, hnext⟩ := next_word hgap hword h.head_ends 1
  rw [List.nil_append] at hnext
  rw [Scan.ofText, String.toList_ofList, Scan.go_of_token hnext]
  simpa using scan_of_spread h hwords line [⟨String.ofList word, line⟩]

end WordMachine.Assembly

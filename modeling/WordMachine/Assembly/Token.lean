import WordMachine.Text.Blank

/-!
# Tokens of assembly text

White space, commas and comments divide the text into tokens. A comment starts at a semicolon and
ends before the next newline. A token that starts with a quote runs to the next quote of the same
line and may hold anything between; any other token ends before white space, a comma or a semicolon.

`Scan.ofText` gives the tokens up to the first quote that is not closed, with the line of that
quote.
-/

namespace WordMachine.Assembly

/-- A token and the line it starts on. -/
structure Token where
  text : String
  line : Nat
  deriving DecidableEq, Repr

/-- Whether a token is a quoted literal. -/
def Token.isQuoted (t : Token) : Bool := t.text.toList.head? == some '\''

/-- Whether a character divides tokens. -/
def isSeparator (c : Char) : Bool := Text.isBlank c || c == ','

/-- Whether a character ends a token that is not quoted. -/
def endsWord (c : Char) : Bool := isSeparator c || c == ';'

/-- Passes over separators and comments: the text from the next token on, and its line. `comment`
tells whether the text starts inside a comment, which a newline ends. -/
def skipGap (comment : Bool) : (cs : List Char) → (line : Nat) → List Char × Nat
  | [], line => ([], line)
  | c :: rest, line =>
    if c = '\n' then skipGap false rest (line + 1)
    else if comment || isSeparator c then skipGap comment rest line
    else if c = ';' then skipGap true rest line
    else (c :: rest, line)

/-- The text of the token at the front of `c :: rest`, and what follows it; none if it is a quote
without end. -/
def takeToken? (c : Char) (rest : List Char) : Option (List Char × List Char) :=
  if c = '\'' then
    let body := rest.takeWhile fun c => c ≠ '\'' && c ≠ '\n'
    match rest.drop body.length with
    | '\'' :: rest => some (c :: (body ++ ['\'']), rest)
    | _ => none
  else
    let word := rest.takeWhile fun c => !endsWord c
    some (c :: word, rest.drop word.length)

/-- What a text starts with: nothing but a gap, a quote without end on some line, or a token and
what follows it. -/
inductive Next where
  | done
  | unclosed (line : Nat)
  | token (t : Token) (after : List Char)

/-- The next token of a text that starts on a line. -/
def next (cs : List Char) (line : Nat) : Next :=
  match skipGap false cs line with
  | ([], _) => .done
  | (c :: rest, line) =>
    match takeToken? c rest with
    | none => .unclosed line
    | some (text, after) => .token ⟨String.ofList text, line⟩ after

/-- Skipping a gap adds no characters. -/
theorem length_skipGap_le (comment : Bool) (cs : List Char) (line : Nat) :
    (skipGap comment cs line).1.length ≤ cs.length := by
  fun_induction skipGap comment cs line <;> simp only [List.length_cons] <;> omega

/-- What is left behind a token is part of what followed its first character. -/
theorem length_takeToken?_le {c : Char} {rest text after : List Char}
    (h : takeToken? c rest = some (text, after)) : after.length ≤ rest.length := by
  simp only [takeToken?] at h
  split at h
  · split at h
    · rename_i tail heq
      simp only [Option.some.injEq, Prod.mk.injEq] at h
      have := congrArg List.length heq
      simp only [List.length_drop, List.length_cons] at this
      rw [← h.2]
      omega
    · simp at h
  · simp only [Option.some.injEq, Prod.mk.injEq] at h
    rw [← h.2, List.length_drop]
    omega

/-- A token takes at least one character. -/
theorem length_lt_of_next {cs after : List Char} {line : Nat} {t : Token}
    (h : next cs line = .token t after) : after.length < cs.length := by
  have hgap := length_skipGap_le false cs line
  simp only [next] at h
  split at h
  · simp at h
  · rename_i c rest start heq
    rw [heq, List.length_cons] at hgap
    split at h
    · simp at h
    · rename_i text rest' htok
      have := length_takeToken?_le htok
      simp only [Next.token.injEq] at h
      rw [← h.2]
      omega

/-- The tokens of a text, and the line of the quote that ended the scan if one did. -/
structure Scan where
  tokens : List Token
  unclosed : Option Nat

namespace Scan

/-- Scans the text from a line on; `found` holds the tokens before it, the last one first. -/
def go (cs : List Char) (line : Nat) (found : List Token) : Scan :=
  match _h : next cs line with
  | .done => ⟨found.reverse, none⟩
  | .unclosed start => ⟨found.reverse, some start⟩
  | .token t after => go after t.line (t :: found)
  termination_by cs.length
  decreasing_by exact length_lt_of_next _h

/-- The tokens of a text. -/
def ofText (text : String) : Scan := go text.toList 1 []

end Scan

end WordMachine.Assembly

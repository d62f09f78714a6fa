import WordMachine.Assembly.Error
import WordMachine.Assembly.Token
import WordMachine.Proofs.Action
import WordMachine.Proofs.Checked.RawMachine

/-!
# The lexer with every access checked

The lexer reads the bytes of a text through a position that is any number. A text is cut at two
positions, and the cut traps unless both are where a character starts or the text ends (`slice`); a
counter traps where it leaves the range that the text gives it. Nothing raises a `Trap` on purpose.

The loops have no bound other than the bytes that are left (`RawLexer.left`), so every turn has to
take a character. That a token takes one (`left_lt_of_next`) is no test of the lexer: no gap is left
in front of it (`endsWord_of_skipGap`), so the loop over a word makes at least one turn.
-/

namespace WordMachine.Assembly

/-! ## Checked results -/

/-- What stops checked assembly. -/
inductive Halt where
  | error (e : Error)
  | trap (t : Trap)
  deriving DecidableEq, Repr

/-- The result with its error as a halt. -/
def liftError {α : Type} (x : Except Error α) : Except Halt α := x.mapError .error

/-- A result is lifted as it is. -/
@[simp]
theorem liftError_ok {α : Type} (a : α) : liftError (.ok a) = .ok a := rfl

/-- An error is lifted to a halt. -/
@[simp]
theorem liftError_error {α : Type} (e : Error) :
    liftError (.error e : Except Error α) = .error (.error e) := rfl

/-- Two results one after the other are lifted one after the other. -/
theorem liftError_bind {α β : Type} (x : Except Error α) (f : α → Except Error β) :
    liftError (x >>= f) = liftError x >>= fun a => liftError (f a) := by
  cases x <;> rfl

/-- What is done with a result is done with its error as a halt. -/
theorem liftError_bind_eq {α β : Type} {x : Except Error α} {f : α → Except Halt β}
    {g : α → Except Error β} (h : ∀ a, x = .ok a → f a = liftError (g a)) :
    liftError x >>= f = liftError (x >>= g) := by
  cases x with
  | error e => rfl
  | ok a => exact h a rfl

/-- Traps unless a condition holds. -/
def ensure (ok : Prop) [Decidable ok] (t : Trap) : Except Halt Unit :=
  if ok then pure () else throw (.trap t)

/-- A condition is passed exactly if it holds. -/
theorem ensure_eq_ok_iff {ok : Prop} [Decidable ok] {t : Trap} {u : Unit} :
    ensure ok t = .ok u ↔ ok := by
  unfold ensure
  split <;> simp_all [pure, Except.pure, throw, throwThe, MonadExceptOf.throw]

/-- A condition that holds is passed. -/
theorem ensure_of {ok : Prop} [Decidable ok] (h : ok) (t : Trap) : ensure ok t = .ok () :=
  ensure_eq_ok_iff.2 h

/-- The part of a text between two positions, which must not be inside of a character. -/
def slice (text : String) (start stop : String.Pos.Raw) : Except Halt String := do
  ensure (start.IsValid text ∧ stop.IsValid text ∧ start ≤ stop) .index
  return start.extract text stop

/-- A part is cut out exactly if both positions are between characters and in order. -/
theorem slice_eq_ok_iff {text word : String} {start stop : String.Pos.Raw} :
    slice text start stop = .ok word ↔
      (start.IsValid text ∧ stop.IsValid text ∧ start ≤ stop) ∧ start.extract text stop = word := by
  unfold slice
  constructor
  · intro h
    obtain ⟨_, hok, hword⟩ := bind_eq_ok_iff.1 h
    exact ⟨ensure_eq_ok_iff.1 hok, Except.ok.inj hword⟩
  · rintro ⟨hok, rfl⟩
    rw [ensure_of hok]
    rfl

/-! ## The lexer -/

/-- Where a lexer stands in a text: the position of a byte, and the number of a line. -/
structure RawLexer where
  pos : String.Pos.Raw
  line : Nat

namespace RawLexer

variable {text : String} {x y z : RawLexer} {c : Char}

/-- The start of a text. -/
def start : RawLexer := ⟨0, 1⟩

/-- The number of bytes that are left. -/
def left (text : String) (x : RawLexer) : Nat := text.utf8ByteSize - x.pos.byteIdx

/-- The next character. -/
def peek (text : String) (x : RawLexer) : Except Halt (Option Char) := do
  let rest ← slice text x.pos text.rawEndPos
  return rest.toList.head?

/-- The lexer behind a character. No text has room for a position behind its end, or for more lines
than bytes in front of the last one. -/
def advance (text : String) (x : RawLexer) (c : Char) : Except Halt RawLexer := do
  let pos := x.pos + c
  let line := if c = '\n' then x.line + 1 else x.line
  ensure (pos ≤ text.rawEndPos ∧ line ≤ text.utf8ByteSize + 1) .overflow
  return ⟨pos, line⟩

/-- The next character, and the lexer behind it. -/
def read (text : String) (x : RawLexer) : Except Halt (Option (Char × RawLexer)) := do
  match ← x.peek text with
  | none => return none
  | some c => return some (c, ← x.advance text c)

/-- Behind a character fewer bytes are left, since it has at least one. -/
theorem left_lt_of_advance (h : x.advance text c = .ok y) : y.left text < x.left text := by
  obtain ⟨_, hfits, h⟩ := bind_eq_ok_iff.1 h
  obtain rfl := Except.ok.inj h
  have hpos : x.pos.byteIdx + c.utf8Size ≤ text.utf8ByteSize := by
    simpa [String.Pos.Raw.le_iff] using (ensure_eq_ok_iff.1 hfits).1
  have hsize := c.utf8Size_pos
  simp only [left, String.Pos.Raw.byteIdx_add_char]
  omega

/-- A character that is read is taken. -/
theorem left_lt_of_read (h : x.read text = .ok (some (c, y))) : y.left text < x.left text := by
  obtain ⟨first, -, h⟩ := bind_eq_ok_iff.1 h
  cases first with
  | none => cases h
  | some c' =>
    obtain ⟨y', hadvance, h⟩ := bind_eq_ok_iff.1 h
    obtain ⟨rfl, rfl⟩ : c' = c ∧ y' = y := by simpa using Except.ok.inj h
    exact left_lt_of_advance hadvance

/-- Passes over the characters in front that are in a class. -/
def skipWhile (text : String) (p : Char → Bool) (x : RawLexer) : Except Halt RawLexer :=
  match _h : x.read text with
  | .error e => .error e
  | .ok none => .ok x
  | .ok (some (c, y)) => if p c then skipWhile text p y else .ok x
  termination_by x.left text
  decreasing_by exact left_lt_of_read _h

/-- Passing over characters leaves no more bytes. -/
theorem left_le_of_skipWhile {p : Char → Bool} (h : skipWhile text p x = .ok y) :
    y.left text ≤ x.left text := by
  fun_induction skipWhile text p x with
  | case1 => cases h
  | case2 | case4 => exact (Except.ok.inj h) ▸ Nat.le_refl _
  | case3 x c x' hread _ ih => exact Nat.le_trans (ih h) (Nat.le_of_lt (left_lt_of_read hread))

/-- Passes over separators and comments. -/
def skipGap (text : String) (x : RawLexer) : Except Halt RawLexer :=
  match _h : x.read text with
  | .error e => .error e
  | .ok none => .ok x
  | .ok (some (c, y)) =>
    if isSeparator c then skipGap text y
    else if c = ';' then
      match _hcomment : skipWhile text (· ≠ '\n') y with
      | .error e => .error e
      | .ok z => skipGap text z
    else .ok x
  termination_by x.left text
  decreasing_by
  · exact left_lt_of_read _h
  · exact Nat.lt_of_le_of_lt (left_le_of_skipWhile _hcomment) (left_lt_of_read _h)

/-- Nor does passing over a gap. -/
theorem left_le_of_skipGap (h : skipGap text x = .ok y) : y.left text ≤ x.left text := by
  fun_induction skipGap text x with
  | case1 | case4 => cases h
  | case2 | case6 => exact (Except.ok.inj h) ▸ Nat.le_refl _
  | case3 x c x' hread _ ih => exact Nat.le_trans (ih h) (Nat.le_of_lt (left_lt_of_read hread))
  | case5 x x' z hcomment hread _ ih =>
    have hlt := left_lt_of_read hread
    have hle := left_le_of_skipWhile hcomment
    exact Nat.le_trans (ih h) (by omega)

/-- Behind a gap there is the first character of a token, or none. -/
theorem endsWord_of_skipGap (h : skipGap text x = .ok y) (hread : y.read text = .ok (some (c, z))) :
    endsWord c = false := by
  -- the skip stops at the end of the text or at a character that is neither a separator nor a
  -- semicolon
  fun_induction skipGap text x with
  | case1 | case4 => cases h
  | case2 x hnone =>
    obtain rfl := Except.ok.inj h
    rw [hnone] at hread
    cases hread
  | case3 x c x' _ _ ih => exact ih h
  | case5 x x' z _ _ _ ih => exact ih h
  | case6 x c' x' hread' hsep hsemi =>
    obtain rfl := Except.ok.inj h
    rw [hread'] at hread
    obtain ⟨rfl, rfl⟩ : c' = c ∧ x' = z := by simpa using hread
    simp [endsWord, hsep, hsemi]

/-- Passes over a quoted literal to its closing quote. The opening one stands on a line. -/
def closeQuote (text : String) (line : Nat) (x : RawLexer) : Except Halt RawLexer :=
  match _h : x.read text with
  | .error e => .error e
  | .ok none => .error (.error (.unterminatedString line))
  | .ok (some (c, y)) =>
    if c = '\'' then .ok y
    else if c = '\n' then .error (.error (.unterminatedString line))
    else closeQuote text line y
  termination_by x.left text
  decreasing_by exact left_lt_of_read _h

/-- Nor does passing over a literal. -/
theorem left_le_of_closeQuote {line : Nat} (h : closeQuote text line x = .ok y) :
    y.left text ≤ x.left text := by
  fun_induction closeQuote text line x with
  | case1 | case2 | case4 => cases h
  | case3 x x' hread => exact (Except.ok.inj h) ▸ Nat.le_of_lt (left_lt_of_read hread)
  | case5 x c x' hread _ _ ih => exact Nat.le_trans (ih h) (Nat.le_of_lt (left_lt_of_read hread))

/-- The lexer behind the token that it stands in front of, whose first character is `c`. -/
def skipToken (text : String) (x y : RawLexer) (c : Char) : Except Halt RawLexer :=
  if c = '\'' then closeQuote text x.line y else skipWhile text (fun c => !endsWord c) x

/-- The next token, and the lexer behind it. -/
def next (text : String) (x : RawLexer) : Except Halt (Option (Token × RawLexer)) := do
  let x ← skipGap text x
  match ← x.read text with
  | none => return none
  | some (c, y) =>
    let z ← skipToken text x y c
    let word ← slice text x.pos z.pos
    return some (⟨word, x.line⟩, z)

/-- Passing over a token leaves fewer bytes. -/
theorem left_lt_of_skipToken (hread : x.read text = .ok (some (c, y))) (hc : endsWord c = false)
    (h : skipToken text x y c = .ok z) : z.left text < x.left text := by
  have hlt := left_lt_of_read hread
  unfold skipToken at h
  split at h
  · -- the opening quote has been taken
    exact Nat.lt_of_le_of_lt (left_le_of_closeQuote h) hlt
  · -- the loop over the word takes its first character, since no gap is left in front of it
    rw [skipWhile] at h
    split at h
    · cases h
    · rename_i hnone
      rw [hnone] at hread
      cases hread
    · rename_i c' y' hread'
      rw [hread'] at hread
      obtain ⟨rfl, rfl⟩ : c' = c ∧ y' = y := by simpa using hread
      rw [hc, Bool.not_false, if_pos rfl] at h
      exact Nat.lt_of_le_of_lt (left_le_of_skipWhile h) hlt

/-- A token takes a character. -/
theorem left_lt_of_next {t : Token} (h : x.next text = .ok (some (t, y))) :
    y.left text < x.left text := by
  obtain ⟨x', hgap, h⟩ := bind_eq_ok_iff.1 h
  obtain ⟨first, hread, h⟩ := bind_eq_ok_iff.1 h
  cases first with
  | none => cases h
  | some taken =>
    obtain ⟨z, htoken, h⟩ := bind_eq_ok_iff.1 h
    obtain ⟨word, -, h⟩ := bind_eq_ok_iff.1 h
    obtain ⟨-, rfl⟩ : _ ∧ z = y := by simpa using Except.ok.inj h
    have hlt := left_lt_of_skipToken hread (endsWord_of_skipGap hgap hread) htoken
    exact Nat.lt_of_lt_of_le hlt (left_le_of_skipGap hgap)

end RawLexer

end WordMachine.Assembly

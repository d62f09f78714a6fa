import WordMachine.Word

/-!
# Words as bytes

A sequence of words is a sequence of pairs of bytes, the high byte of each first (`bigEndian`) or
the low one (`littleEndian`). So there are twice as many bytes as words, and the bytes of a word
stand at twice its place. The two orders differ in nothing else, so both facts are proved for pairs
of any kind (`length_flatMap_pair`, `getElem?_flatMap_pair`).

A cut between two words is a cut between two pairs (`cut_littleEndian`), and every even number of
bytes is that of some words (`exists_littleEndian`).
-/

namespace WordMachine.Word

section

variable {α β : Type} (f g : α → β)

/-- Two entries for each element are twice as many. -/
theorem length_flatMap_pair (xs : List α) :
    (xs.flatMap fun x => [f x, g x]).length = 2 * xs.length := by
  induction xs with
  | nil => rfl
  | cons x xs ih =>
    simp only [List.flatMap_cons, List.length_append, List.length_cons, List.length_nil, ih]
    omega

/-- The two entries for an element stand at twice its place. -/
theorem getElem?_flatMap_pair {xs : List α} {i : Nat} (h : i < xs.length) :
    (xs.flatMap fun x => [f x, g x])[2 * i]? = some (f xs[i]) ∧
      (xs.flatMap fun x => [f x, g x])[2 * i + 1]? = some (g xs[i]) := by
  -- by induction on the place; the pair in front moves it by two
  induction i generalizing xs with
  | zero =>
    cases xs with
    | nil => nomatch h
    | cons x xs => exact ⟨rfl, rfl⟩
  | succ i ih =>
    cases xs with
    | nil => nomatch h
    | cons x xs =>
      have hi : 2 * (i + 1) = 2 * i + 1 + 1 := by omega
      rw [List.flatMap_cons, hi]
      exact ih (Nat.lt_of_succ_lt_succ h)

end

/-! ## The high byte first -/

/-- The bytes of the first word come first, its upper byte in front. -/
theorem bigEndian_cons (w : Word) (ws : List Word) :
    bigEndian (w :: ws) = high w :: low w :: bigEndian ws := rfl

/-- Two bytes for each word, upper byte first. -/
theorem length_bigEndian (ws : List Word) : (bigEndian ws).length = 2 * ws.length :=
  length_flatMap_pair high low ws

/-- The bytes of the word at a place. -/
theorem getElem?_bigEndian {ws : List Word} {i : Nat} (h : i < ws.length) :
    (bigEndian ws)[2 * i]? = some (high ws[i]) ∧
      (bigEndian ws)[2 * i + 1]? = some (low ws[i]) :=
  getElem?_flatMap_pair high low h

/-! ## The low byte first -/

/-- The bytes of the first word come first, its lower byte in front. -/
theorem littleEndian_cons (w : Word) (ws : List Word) :
    littleEndian (w :: ws) = low w :: high w :: littleEndian ws := rfl

/-- Words one after the other have their bytes one after the other. -/
theorem littleEndian_append (ws vs : List Word) :
    littleEndian (ws ++ vs) = littleEndian ws ++ littleEndian vs := by
  simp [littleEndian]

/-- Two bytes for each word, lower byte first. -/
theorem length_littleEndian (ws : List Word) : (littleEndian ws).length = 2 * ws.length :=
  length_flatMap_pair low high ws

/-- The bytes of the word at a place. -/
theorem getElem?_littleEndian {ws : List Word} {i : Nat} (h : i < ws.length) :
    (littleEndian ws)[2 * i]? = some (low ws[i]) ∧
      (littleEndian ws)[2 * i + 1]? = some (high ws[i]) :=
  getElem?_flatMap_pair low high h

/-- A cut between two words is a cut between two pairs of bytes. -/
theorem cut_littleEndian (n : Nat) (ws : List Word) :
    (littleEndian ws).take (2 * n) = littleEndian (ws.take n) ∧
      (littleEndian ws).drop (2 * n) = littleEndian (ws.drop n) := by
  -- both ways the parts make up the whole, and the first parts are equally long
  refine List.append_inj ?_ ?_
  · rw [List.take_append_drop, ← littleEndian_append, List.take_append_drop]
  · rw [List.length_take, length_littleEndian, length_littleEndian, List.length_take]
    omega

/-- The bytes in front of a cut between two words. -/
theorem take_littleEndian (n : Nat) (ws : List Word) :
    (littleEndian ws).take (2 * n) = littleEndian (ws.take n) := (cut_littleEndian n ws).1

/-- The bytes behind a cut between two words. -/
theorem drop_littleEndian (n : Nat) (ws : List Word) :
    (littleEndian ws).drop (2 * n) = littleEndian (ws.drop n) := (cut_littleEndian n ws).2

/-- Every even number of bytes is that of some words. -/
theorem exists_littleEndian {n : Nat} {bytes : List UInt8} (h : bytes.length = 2 * n) :
    ∃ ws, ws.length = n ∧ bytes = littleEndian ws := by
  induction n generalizing bytes with
  | zero => exact ⟨[], rfl, List.eq_nil_of_length_eq_zero h⟩
  | succ n ih =>
    -- an even number above zero has two bytes to make the first word of
    match bytes with
    | lo :: hi :: rest =>
      have hrest : rest.length = 2 * n := by
        rw [List.length_cons, List.length_cons] at h
        omega
      obtain ⟨ws, hws, rfl⟩ := ih hrest
      refine ⟨ofBytes hi lo :: ws, by rw [List.length_cons, hws], ?_⟩
      rw [littleEndian_cons, low_ofBytes, high_ofBytes]

end WordMachine.Word

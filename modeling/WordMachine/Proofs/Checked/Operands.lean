import WordMachine.Proofs.Assembly.NumberGrammar
import WordMachine.Proofs.Checked.Lexing
import WordMachine.Proofs.Checked.RawAssembler

/-!
# Numbers and literals are cut where characters end

A number is cut behind its sign and behind an octal zero, which are characters of one byte; that the
sign is told by its byte makes no difference, since the first byte of a longer character is larger
(`firstByte?_cons_iff`). A literal is cut behind its first and before its last byte, which are its
quotes if it has both. So checked numbers and literals are those of the text (`rawNumber_eq`,
`rawWords_eq`).
-/

namespace WordMachine.Assembly

open String (utf8Len)

/-! ## Bytes -/

/-- The first byte of a character is one of the first 128 only if the character is. -/
theorem getElem?_utf8EncodeChar_iff {c d : Char} (hc : c.toNat < 128) :
    (String.utf8EncodeChar d)[0]? = some c.toUInt8 ↔ d = c := by
  have hbyte {n : Nat} (hn : n < 256) : UInt8.ofNat n = c.toUInt8 ↔ n = c.toNat := by
    have hc' : c.toUInt8.toNat = c.toNat := UInt8.toNat_ofNat_of_lt' (Nat.lt_trans hc (by decide))
    rw [← UInt8.toNat_inj, UInt8.toNat_ofNat_of_lt' hn, hc']
  have hval : d.val.toNat = d.toNat := rfl
  unfold String.utf8EncodeChar
  rw [← Char.toNat_inj]
  simp only [hval]
  split_ifs
  · rw [List.getElem?_cons_zero, Option.some.injEq, hbyte (by omega)]
  -- the first byte of a longer character has its upper bit set
  all_goals
    rw [List.getElem?_cons_zero, Option.some.injEq, hbyte (by omega)]
    omega

/-- So the first byte of a text tells whether its first character is such a one. -/
theorem firstByte?_cons_iff {c d : Char} (hc : c.toNat < 128) (cs : List Char) :
    firstByte? (String.ofList (d :: cs)) = some c.toUInt8 ↔ d = c := by
  have hpos : 0 < (String.utf8EncodeChar d).length := by
    rw [String.length_utf8EncodeChar]
    exact d.utf8Size_pos
  have hfirst : firstByte? (String.ofList (d :: cs)) = (String.utf8EncodeChar d)[0]? := by
    rw [firstByte?, String.toByteArray_ofList, List.utf8Encode, List.data_toByteArray,
      List.flatMap_cons, List.getElem?_toArray, List.getElem?_append_left hpos]
  rw [hfirst, getElem?_utf8EncodeChar_iff hc]

/-- Behind a character of one byte, a text can be cut. -/
theorem behindFirst_cons {c : Char} (hc : c.utf8Size = 1) (cs : List Char) :
    behindFirst (String.ofList (c :: cs)) = .ok (String.ofList cs) := by
  have hfirst : utf8Len [c] = 1 := by rw [String.utf8Len_cons, hc, String.utf8Len_nil]
  have hslice := slice_append [c] cs []
  rw [List.append_nil, ← String.utf8Len_append, hfirst] at hslice
  rw [behindFirst, String.rawEndPos_ofList]
  exact hslice

/-! ## Numbers -/

/-- Checked magnitudes are those of the text. -/
theorem rawMagnitude_eq (cs : List Char) :
    rawMagnitude (String.ofList cs) = .ok (magnitude? cs) := by
  unfold rawMagnitude
  rw [String.toList_ofList]
  split
  case h_1 | h_2 | h_3 | h_4 => rfl
  -- no mark of base 16 or 2
  case h_5 hx hX hb hB =>
    rw [String.utf8ByteSize_ofList]
    cases cs with
    | nil => rfl
    | cons c cs =>
      by_cases hc : c = '0'
      · subst hc
        cases cs with
        | nil => rfl
        | cons d cs =>
          -- behind a zero with more to follow, which is no mark of another base
          have hmag : magnitude? ('0' :: d :: cs) = digits? 8 (d :: cs) := by
            unfold magnitude?
            split <;> simp_all
          have hsize : 1 < utf8Len ('0' :: d :: cs) := by
            have hd := d.utf8Size_pos
            have hzero : '0'.utf8Size = 1 := by decide
            simp only [String.utf8Len_cons, hzero]
            omega
          rw [if_pos ⟨hsize, rfl⟩, behindFirst_cons (by decide), hmag]
          exact congrArg (fun cs => Except.ok (digits? 8 cs)) String.toList_ofList
      · have hmag : magnitude? (c :: cs) = digits? 10 (c :: cs) := by
          unfold magnitude?
          split <;> simp_all
        rw [if_neg (by simp [hc]), hmag]
        rfl

/-- Checked numbers are those of the text: neither a cut nor the change of a sign traps. -/
theorem rawNumber_eq (text : String) : rawNumber text = .ok (number? text) := by
  obtain ⟨cs, rfl⟩ : ∃ cs, text = String.ofList cs := ⟨text.toList, String.ofList_toList.symm⟩
  unfold rawNumber
  cases cs with
  | nil =>
    have hnone : firstByte? (String.ofList []) = none := rfl
    rw [if_neg (by simp [hnone]), if_neg (by simp [hnone]), rawMagnitude_eq]
    rfl
  | cons c cs =>
    have hminus := firstByte?_cons_iff (c := '-') (d := c) (by decide) cs
    have hplus := firstByte?_cons_iff (c := '+') (d := c) (by decide) cs
    by_cases hc : c = '-'
    · rw [if_pos (hminus.2 hc), hc, behindFirst_cons (by decide), number?_minus]
      cases hn : magnitude? cs with
      | none =>
        simp only [rawMagnitude_eq, hn, bind, Except.bind, pure, Except.pure, Option.map_none]
      | some n =>
        -- a magnitude is below `2^63`, so its negative is in range
        have hbound : n < 2 ^ 63 := (isMagnitude_of_magnitude? hn).2
        have hneg : negated n = .ok (-(n : Int)) := by
          rw [negated, ensure_of (by omega)]
          rfl
        simp only [rawMagnitude_eq, hn, hneg, bind, Except.bind, pure, Except.pure,
          Option.map_some]
    · rw [if_neg (mt hminus.1 hc)]
      by_cases hc' : c = '+'
      · rw [if_pos (hplus.2 hc'), hc', behindFirst_cons (by decide), number?_plus]
        simp only [rawMagnitude_eq, bind, Except.bind, pure, Except.pure]
      · rw [if_neg (mt hplus.1 hc'), number?_of_ne cs hc hc']
        simp only [rawMagnitude_eq, bind, Except.bind, pure, Except.pure]

/-- Checked words are those of the text, and so are the errors. -/
theorem rawWord_eq (t : Token) : rawWord t = liftError (wordOf t) := by
  rw [rawWord, rawNumber_eq, wordOf]
  cases number? t.text with
  | none => rfl
  | some n =>
    by_cases hn : -32768 ≤ n ∧ n ≤ 65535
    · simp only [bind, Except.bind, if_pos hn, liftError_ok, pure, Except.pure]
    · simp only [bind, Except.bind, if_neg hn, liftError_error, throw, throwThe,
        MonadExceptOf.throw]

/-- A count is a number without a minus sign. -/
theorem rawCount_of_nat {t : Token} {n : Nat} (h : number? t.text = some (Int.ofNat n)) :
    rawCount t = .ok (Int.ofNat n) := by
  have hfilter : (some (Int.ofNat n)).filter (fun n : Int => decide (0 ≤ n)) =
      some (Int.ofNat n) := by
    rw [Option.filter_some, if_pos (by simp)]
  rw [rawCount, rawNumber_eq, h]
  simp only [bind, Except.bind, hfilter, pure, Except.pure]

/-- Anything else is refused as a count. -/
theorem rawCount_of_not_nat {t : Token} (h : ∀ n : Nat, number? t.text ≠ some (Int.ofNat n)) :
    rawCount t = .error (.error (.badNumber t.line t.text)) := by
  have hfilter : (number? t.text).filter (fun n : Int => decide (0 ≤ n)) = none := by
    rw [Option.filter_eq_none_iff]
    intro n hn hnonneg
    obtain ⟨m, rfl⟩ := Int.eq_ofNat_of_zero_le (of_decide_eq_true hnonneg)
    exact h m hn
  rw [rawCount, rawNumber_eq]
  simp only [bind, Except.bind, hfilter, throw, throwThe, MonadExceptOf.throw]

/-! ## Literals -/

/-- What is cut out of a literal with both quotes is what stands between them. -/
theorem rawLiteral_eq {t : Token} {chars : List Char}
    (h : t.text = String.ofList ('\'' :: (chars ++ ['\'']))) :
    rawLiteral t = liftError (literalWords t) := by
  have hquote : utf8Len ['\''] = 1 := by decide
  have hsize : t.text.utf8ByteSize = utf8Len ['\''] + utf8Len chars + utf8Len ['\''] := by
    rw [h, String.utf8ByteSize_ofList, ← String.utf8Len_append, ← String.utf8Len_append]
    rfl
  have hslice : slice t.text ⟨1⟩ ⟨t.text.utf8ByteSize - 1⟩ = .ok (String.ofList chars) := by
    have hcut := slice_append ['\''] chars ['\'']
    rw [hsize, hquote, Nat.add_sub_cancel, h]
    rwa [hquote] at hcut
  have hchars : literalChars t.text = chars := by simp [literalChars, h]
  rw [rawLiteral, ensure_of (by omega), literalWords, hchars]
  simp only [bind, Except.bind, hslice, String.toList_ofList]

/-- Checked items of a data entry are those of the text. -/
theorem rawWords_eq {t : Token} (hclosed : t.Closed) :
    rawWords t = liftError (if t.isQuoted then literalWords t else (wordOf t).map ([·])) := by
  unfold rawWords
  by_cases hquoted : t.isQuoted
  · obtain ⟨chars, htext⟩ := hclosed hquoted
    rw [if_pos hquoted, if_pos hquoted, rawLiteral_eq htext]
  · rw [if_neg hquoted, if_neg hquoted, rawWord_eq]
    cases wordOf t <;> rfl

end WordMachine.Assembly

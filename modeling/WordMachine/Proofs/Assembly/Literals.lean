import Mathlib.Data.List.Nodup
import WordMachine.Proofs.Assembly.Reference
import WordMachine.Proofs.Memory.Images
import WordMachine.Proofs.Memory.Strings

/-!
# Quoted literals in memory

A quoted literal of an assembly text is a data item wherever the text can be assembled, since no
other position takes one (`TokenStep.literal`). Its words go to the end of the data laid out so far
and stay there. They hold a zero byte behind those of its characters, whether the number of
characters is odd or even (`bigEndian_packed`), so a machine that is loaded with the image finds the
literal at the address where its first word went, up to the first zero character that it holds
itself: `stringAt_literal`.
-/

namespace WordMachine.Assembly

/-- The bytes of packed words are those that were packed, and one zero or two behind them. -/
theorem bigEndian_packed (bytes : List UInt8) :
    ∃ pad, Word.bigEndian (packed bytes) = bytes ++ 0 :: pad := by
  fun_induction packed bytes with
  | case1 => exact ⟨[0], rfl⟩
  | case2 b => exact ⟨[], by simp [Word.bigEndian]⟩
  | case3 b b' rest ih =>
    obtain ⟨pad, hpad⟩ := ih
    exact ⟨pad, by simp [Word.bigEndian_cons, hpad]⟩

/-- The characters of bytes in front of the first zero, when the bytes are those of characters. -/
theorem map_byteChar_takeWhile {chars : List Char} (h : ∀ c ∈ chars, c.toNat ≤ 0xFF) :
    ((chars.map fun c => UInt8.ofNat c.toNat).takeWhile (· ≠ 0)).map byteChar =
      chars.takeWhile (· ≠ '\x00') := by
  induction chars with
  | nil => rfl
  | cons c chars ih =>
    obtain ⟨hc, hchars⟩ := List.forall_mem_cons.1 h
    have hzero : UInt8.ofNat c.toNat = 0 ↔ c = '\x00' := by
      constructor
      · intro h0
        rw [← byteChar_ofNat hc, h0]
        rfl
      · rintro rfl
        rfl
    by_cases h0 : c = '\x00'
    · simp [h0]
    · have hb : UInt8.ofNat c.toNat ≠ 0 := mt hzero.1 h0
      simp only [List.map_cons, List.takeWhile_cons, hb, h0, ne_eq, not_false_eq_true, decide_true,
        if_true, byteChar_ofNat hc, ih hchars]

/-- The string where the words of a literal stand in memory. -/
theorem stringAt_words {m : Machine} {a : Word} {chars : List Char}
    (hchars : ∀ c ∈ chars, c.toNat ≤ 0xFF) (hlen : (Datum.text chars).words.length ≤ segmentSize)
    (h : m.data.HoldsAt a (Datum.text chars).words) :
    m.stringAt a = String.ofList (chars.takeWhile (· ≠ '\x00')) := by
  obtain ⟨pad, hpad⟩ := bigEndian_packed (chars.map fun c => UInt8.ofNat c.toNat)
  rw [Machine.stringAt_of_holdsAt h hlen hpad, map_byteChar_takeWhile hchars]

/-- A quoted token can be read as a data item only. -/
theorem TokenStep.literal {e e' : Expect} {t : Token} {items : List Item}
    (h : TokenStep e t items e') (hquoted : t.isQuoted = true) :
    (∃ n, e = .dataItem n) ∧ ∃ chars, t.text = String.ofList ('\'' :: (chars ++ ['\''])) ∧
      (∀ c ∈ chars, c.toNat ≤ 0xFF) ∧ items = (Datum.text chars).words.map .word := by
  have hhead : t.text.toList.head? = some '\'' := by simpa [Token.isQuoted] using hquoted
  cases h with
  | @directive _ area' _ htext =>
    rw [htext] at hhead
    cases area' <;> simp [Area.directive] at hhead
  | entryName hname =>
    cases hname with
    | colon htext _ =>
      rw [htext] at hhead
      simp at hhead
    | bare htext _ hquote _ =>
      rw [htext] at hhead
      simp [hquote] at hhead
  | label htext | reference htext =>
    rw [htext] at hhead
    simp at hhead
  | push htext =>
    rw [htext] at hhead
    simp [Opcode.mnemonic] at hhead
  | instruction hinst =>
    -- the first characters of all mnemonics, by evaluation
    have hop : ∀ op : Opcode, op.mnemonic.toList.head? ≠ some '\'' := by
      intro op
      cases op <;> decide
    have hregister : ∀ op : RegisterOp, ∀ rest : List Char,
        (op.mnemonic.toList ++ rest).head? ≠ some '\'' := by
      intro op rest
      cases op <;> simp [RegisterOp.mnemonic]
    cases hinst with
    | extended htext _ =>
      rw [htext] at hhead
      exact absurd hhead (hop _)
    | register htext _ =>
      rw [htext, String.toList_append, String.toList_append, List.append_assoc] at hhead
      exact absurd hhead (hregister _ _)
  | count hnum | number hnum _ =>
    rw [isQuoted_of_number? hnum] at hquoted
    simp at hquoted
  | datum hdatum =>
    cases hdatum with
    | number hnum _ =>
      rw [isQuoted_of_number? hnum] at hquoted
      simp at hquoted
    | text htext hchars => exact ⟨⟨_, rfl⟩, _, htext, hchars, rfl⟩

/-- What stands in the data at the place where a token has put its words. -/
theorem holdsAt_words {before after : List Item} {words : List Word}
    (hfits : Fits (before ++ words.map .word ++ after)) :
    (Segment.ofArray (dataOf (before ++ words.map .word ++ after)).toArray 0).HoldsAt
      (UInt16.ofNat (dataOf before).length) words := by
  have hle := hfits.data_le
  rw [dataOf_append, dataOf_append, dataOf_words, List.length_append, List.length_append] at hle
  rw [dataOf_append, dataOf_append, dataOf_words, List.append_assoc]
  exact Segment.holdsAt_ofArray _ _ _ _ (by omega)

/-- The pass over a text that is assembled, at one of its tokens: the layout holds the items in
front of it, the token makes a step, and what it adds stands between these items and later ones. -/
theorem step_of_assemble {text : String} {img : Image} {before after : List Token} {t : Token}
    (h : assemble text = .ok img) (htokens : (Scan.ofText text).tokens = before ++ t :: after) :
    ∃ (p : Progress) (e : Expect) (items more later : List Item),
      before.foldlM Progress.feed .start = .ok p ∧ TokenStep p.expect t more e ∧
      Holds p.layout items ∧ Fits (items ++ more ++ later) ∧
      img.data = .ofArray (dataOf (items ++ more ++ later)).toArray 0 := by
  have hclosed : ∀ t' ∈ before ++ t :: after, t'.Closed := htokens ▸ closed_of_mem_ofText text
  obtain ⟨hclosed_t, hclosed_after⟩ := List.forall_mem_cons.1 (List.forall_mem_append.1 hclosed).2
  -- the pass is cut before and after the token
  obtain ⟨p₂, hfeeds, hfinish⟩ := bind_eq_ok_iff.1 h
  rw [htokens, List.foldlM_append] at hfeeds
  obtain ⟨p, hbefore, hrest⟩ := bind_eq_ok_iff.1 hfeeds
  rw [List.foldlM_cons] at hrest
  obtain ⟨p₁, hstep, hafter⟩ := bind_eq_ok_iff.1 hrest
  obtain ⟨items, -, hlays⟩ := lays_of_start htokens hbefore
  obtain ⟨more, htoken, hlays₁⟩ := lays_of_feed hclosed_t hlays hstep
  obtain ⟨later, -, hlays₂⟩ := lays_of_feeds hclosed_after hlays₁ hafter
  have hitems : (items ++ more.map (t, ·) ++ later).map Prod.snd =
      items.map Prod.snd ++ more ++ later.map Prod.snd := by
    rw [List.map_append, List.map_append, map_snd_map_mk]
  have hholds := hlays₂.holds
  have hfits := hlays₂.fits
  rw [hitems] at hholds hfits
  obtain ⟨-, -, himg⟩ := finish_eq_ok_iff.1 hfinish
  obtain ⟨-, rfl⟩ := (toImage_eq_ok_iff hholds).1 himg
  exact ⟨p, p₁.expect, _, more, _, hbefore, htoken, hlays.holds, hfits, rfl⟩

/-- Every quoted literal of a text that is assembled is a data item. On a machine that is loaded
with the image, and with the image read back from its written form, the string at the address of
its first word, which is the number of data words laid out before it, is the text between its quotes
up to the first zero character. -/
theorem stringAt_literal {text : String} {img : Image} {before after : List Token} {t : Token}
    (h : assemble text = .ok img) (htokens : (Scan.ofText text).tokens = before ++ t :: after)
    (hquoted : t.isQuoted = true) :
    ∃ (p : Progress) (chars : List Char), before.foldlM Progress.feed .start = .ok p ∧
      (∃ n, p.expect = .dataItem n) ∧ p.layout.data.size < segmentSize ∧
      t.text = String.ofList ('\'' :: (chars ++ ['\''])) ∧
      (Machine.ofImage img).stringAt (UInt16.ofNat p.layout.data.size) =
        String.ofList (chars.takeWhile (· ≠ '\x00')) ∧
      ∃ img', Image.parse img.toBytes = .ok (img', 0) ∧
        (Machine.ofImage img').stringAt (UInt16.ofNat p.layout.data.size) =
          String.ofList (chars.takeWhile (· ≠ '\x00')) := by
  obtain ⟨p, e, items, more, later, hbefore, htoken, hholds, hfits, hdata⟩ :=
    step_of_assemble h htokens
  obtain ⟨hexpect, chars, htext, hchars, rfl⟩ := htoken.literal hquoted
  have hsize : p.layout.data.size = (dataOf items).length := by
    rw [← hholds.data_eq, Array.length_toList]
  -- the literal has a word at least, so its address is in the segment
  have hpos := length_words_pos (.text chars)
  have hle : (dataOf items).length + (Datum.text chars).words.length ≤ segmentSize := by
    simpa [dataOf_words] using hfits.of_append.data_le
  have hstands : img.data.HoldsAt (UInt16.ofNat p.layout.data.size) (Datum.text chars).words := by
    rw [hdata, hsize]
    exact holdsAt_words hfits
  have hstring : (Machine.ofImage img).stringAt (UInt16.ofNat p.layout.data.size) =
      String.ofList (chars.takeWhile (· ≠ '\x00')) := stringAt_words hchars (by omega) hstands
  have hparse : Image.parse img.toBytes = .ok (img, 0) := by
    simpa using img.parse_toBytes_append .empty
  exact ⟨p, chars, hbefore, hexpect, by omega, htext, hstring, img, hparse, hstring⟩

/-- The second of two literals in an entry, behind a number and a literal of an even number of
characters. It holds a zero character itself, and its string ends there. -/
theorem stringAt_literal_zero :
    ∃ img, assemble "s 5 7 'hé' 'a\x00b'" = .ok img ∧ (Machine.ofImage img).stringAt 3 = "a" := by
  let items : List Datum := [.number 7, .text ['h', 'é'], .text ['a', '\x00', 'b']]
  have htokens : (Scan.ofText "s 5 7 'hé' 'a\x00b'").tokens =
      [⟨"s", 1⟩, ⟨"5", 1⟩, ⟨"7", 1⟩, ⟨"'hé'", 1⟩] ++ ⟨"'a\x00b'", 1⟩ :: [] := by decide +kernel
  have hits : List.Forall₂ IsDatum [⟨"7", 1⟩, ⟨"'hé'", 1⟩, ⟨"'a\x00b'", 1⟩] items :=
    .cons (.number (by decide +kernel) (by simp [FitsWord]))
      (.cons (.text rfl (by simp)) (.cons (.text rfl (by simp)) .nil))
  have hfills : Fills 5 items := by
    simp only [items, fills_cons, fills_nil, Datum.words, packed, List.map]
    decide
  have hparses : Parses .data (Scan.ofText "s 5 7 'hé' 'a\x00b'").tokens [.entry "s" 5 items] := by
    have hname : IsEntryName ⟨"s", 1⟩ "s" :=
      @IsEntryName.bare ⟨"s", 1⟩ 's' [] rfl (by decide) (by decide) (by decide)
    have hcount : number? (Token.mk "5" 1).text = some (5 : Nat) := by decide +kernel
    have hentry := Parses.entry hname hcount hits hfills .done
    rw [htokens]
    exact hentry
  have hsound : Program.Sound [.entry "s" 5 items] :=
    ⟨List.nodup_singleton _, by simp [Program.references, Statement.references], by decide,
      by decide⟩
  have himg := assemble_of_parses (by decide +kernel) hparses hsound
  obtain ⟨p, chars, hbefore, -, -, htext, hstring, -⟩ := stringAt_literal himg htokens (by decide)
  -- the four tokens in front lay out three words
  have hsize : p.layout.data.size = 3 := by
    have h₁ : (Expect.statement .data).read ⟨"s", 1⟩ = .ok ([.label .data "s"], .wordCount) := by
      decide +kernel
    have h₂ : Expect.wordCount.read ⟨"5", 1⟩ = .ok ([], .dataItem 5) := by decide +kernel
    have h₃ : (Expect.dataItem 5).read ⟨"7", 1⟩ = .ok ([.word 7], .dataItem 4) := by
      decide +kernel
    have h₄ : (Expect.dataItem 4).read ⟨"'hé'", 1⟩ =
        .ok ([.word 0x68E9, .word 0], .dataItem 2) := by decide +kernel
    simp [Progress.feed, Progress.start, h₁, h₂, h₃, h₄, bind, Except.bind, pure, Except.pure,
      Layout.add, Layout.addLabel, Layout.addWord, Layout.empty, segmentSize] at hbefore
    rw [← hbefore]
    rfl
  have hchars : ['a', '\x00', 'b'] ++ ['\''] = chars ++ ['\''] := by
    simpa using congrArg String.toList htext
  rw [hsize, ← List.append_cancel_right hchars] at hstring
  exact ⟨_, himg, hstring⟩

end WordMachine.Assembly

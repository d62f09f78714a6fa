import Mathlib.Algebra.Order.Group.Nat
import Mathlib.Data.List.Induction
import WordMachine.Console.Basic
import WordMachine.Proofs.Action

/-!
# Two columns on a stream that fills up

What a console puts out, said without the console: the fields one after the other, each its text and
a separator, a tab behind every field with an even number and a newline behind every other
(`render`). A sink with a limit takes the first bytes of this stream and no others (`cut`), and the
column that the next field stands in is the parity of the number of fields whose texts were taken
whole (`completeTexts`).

The console itself does not count. It turns its column over between the text of a field and its
separator, and it goes on printing after a write has failed. That comes to the same. As long as
everything fits, every text has been taken whole and the column is the parity of the number of
fields. Once something did not fit, the sink is full, and whatever separator is chosen from then on
is not taken (`Sink.Holds.of_full`).

`Writes` says what one write does to a sink that holds the beginning of a stream, `Shows.log` what
one field does, and `Shows.printAll` what any number of fields do.
-/

namespace WordMachine

/-! ## Limits -/

/-- The bytes of a stream that a limit lets through. -/
def cut (limit : Option Nat) (bytes : List UInt8) : List UInt8 :=
  match limit with
  | none => bytes
  | some n => bytes.take n

/-- `n` bytes that follow `start` others are all within the limit. If there are none, they are. -/
def Fits (limit : Option Nat) (start n : Nat) : Prop := ∀ l ∈ limit, n ≤ l - start

instance (limit : Option Nat) (start n : Nat) : Decidable (Fits limit start n) :=
  inferInstanceAs (Decidable (∀ l ∈ limit, n ≤ l - start))

/-- Everything fits where there is no limit. -/
theorem fits_none (start n : Nat) : Fits none start n := nofun

/-- What fits below a limit is at most what the limit leaves. -/
theorem fits_some {l start n : Nat} : Fits (some l) start n ↔ n ≤ l - start := by
  simp [Fits]

/-- Two pieces fit if the first does and the second does behind it. -/
theorem fits_add {limit : Option Nat} {start m n : Nat} :
    Fits limit start (m + n) ↔ Fits limit start m ∧ Fits limit (start + m) n := by
  cases limit with
  | none => simp [fits_none]
  | some l =>
    rw [fits_some, fits_some, fits_some]
    omega

/-- Behind bytes that do not fit, nothing is let through. -/
theorem cut_append_of_not_fits {limit : Option Nat} {bytes : List UInt8}
    (h : ¬ Fits limit 0 bytes.length) (more : List UInt8) :
    cut limit (bytes ++ more) = cut limit bytes := by
  cases limit with
  | none => exact absurd (fits_none _ _) h
  | some l =>
    rw [fits_some] at h
    exact List.take_append_of_le_length (by omega)

/-! ## Sinks -/

/-- The bytes that a sink has accepted, in their order. -/
def Sink.stream : Sink → List UInt8
  | .capture c => c.accepted.data.toList
  | .terminal t => t.shown.data.toList ++ t.waiting.data.toList

/-- What a console prints to: a capture with its limit, or a terminal, which has none but may be
shared with others. -/
inductive Sink.Kind where
  | capture (limit : Option Nat)
  | terminal (shared : Prop)

/-- The limit of a kind of sink. -/
def Sink.Kind.limit : Kind → Option Nat
  | .capture limit => limit
  | .terminal _ => none

/-- A sink of this kind holds as much of a stream as its limit lets through. If it is shared, bytes
of others may stand between those of the stream. -/
def Sink.Holds (bytes : List UInt8) : Kind → Sink → Prop
  | .capture limit, .capture c =>
    c.limit = limit ∧ (Sink.capture c).stream = cut limit bytes
  | .terminal shared, .terminal t =>
    bytes.Sublist (Sink.terminal t).stream ∧ (¬ shared → (Sink.terminal t).stream = bytes)
  | _, _ => False

section

variable {kind : Sink.Kind} {bytes more other : List UInt8} {s : Sink}

/-- A sink that a stream did not fit into holds the stream with anything behind it. -/
theorem Sink.Holds.of_full (h : Holds (bytes ++ more) kind s)
    (hfull : ¬ Fits kind.limit 0 bytes.length) : Holds (bytes ++ other) kind s := by
  cases kind with
  | terminal shared => exact absurd (fits_none _ _) hfull
  | capture limit =>
    cases s with
    | terminal t => exact h.elim
    | capture c =>
      -- the limit ends inside `bytes`, so what is behind them makes no difference
      have hfull : ¬ Fits limit 0 bytes.length := hfull
      refine ⟨h.1, h.2.trans ?_⟩
      rw [cut_append_of_not_fits hfull, cut_append_of_not_fits hfull]

/-- Nothing is taken behind what does not fit. -/
theorem Sink.Holds.of_overflow (h : Holds (bytes ++ more) kind s)
    (hfits : ¬ Fits kind.limit bytes.length more.length) :
    Holds (bytes ++ more ++ other) kind s := by
  have hfull : ¬ Fits kind.limit 0 (bytes ++ more).length := by
    intro hall
    rw [List.length_append, fits_add, Nat.zero_add] at hall
    exact hfits hall.2
  rw [← List.append_nil (bytes ++ more)] at h
  exact h.of_full hfull

/-- Holding bytes back puts them behind those that the terminal has. -/
theorem Terminal.stream_hold (t : Terminal) (new : ByteArray) :
    (Sink.terminal (t.hold new)).stream = (Sink.terminal t).stream ++ new.data.toList := by
  unfold hold
  -- the bytes that waited go out first, so the order stays
  by_cases hflush : bufferSize < t.waiting.size + new.size <;>
    by_cases hlong : bufferSize ≤ new.size
  · simp [hflush, hlong, Sink.stream, flush, showNow]
  · simp [hflush, hlong, Sink.stream, flush]
  · -- a run as long as the buffer overtakes nothing, since nothing waits
    have hempty : t.waiting.size = 0 := by omega
    have hnil : t.waiting.data.toList = [] := by
      rw [← List.length_eq_zero_iff, Array.length_toList]
      exact hempty
    simp [hflush, hlong, Sink.stream, showNow, hnil]
  · simp [hflush, hlong, Sink.stream]

/-- A terminal puts bytes behind those that it has. -/
theorem Terminal.stream_write (t : Terminal) (new : ByteArray) :
    (Sink.terminal (t.write new)).stream = (Sink.terminal t).stream ++ new.data.toList := by
  have hle : lastLineEnd new ≤ new.size := Nat.sub_le _ _
  -- the bytes up to the last end of a line, and those behind it
  have hsplit : new.data.toList = (new.extract 0 (lastLineEnd new)).data.toList ++
      (new.extract (lastLineEnd new) new.size).data.toList := by
    rw [← Array.toList_append, ← ByteArray.data_append,
      ← ByteArray.extract_eq_extract_append_extract _ (Nat.zero_le _) hle,
      ByteArray.extract_zero_size]
  unfold write
  dsimp only
  split
  · exact stream_hold t new
  · rw [stream_hold, hsplit]
    simp only [Sink.stream, flush, showNow, ByteArray.data_append, Array.toList_append,
      List.append_assoc]
    rfl

/-- A limit lets through as much of a second piece as the first piece leaves room for. -/
theorem cut_append (limit : Option Nat) (bytes more : List UInt8) :
    cut limit (bytes ++ more) =
      cut limit bytes ++ cut (limit.map (· - bytes.length)) more := by
  cases limit with
  | none => rfl
  | some l => exact List.take_append

/-- A capture that holds a stream holds it with what is written to it, and takes all of that if it
fits. -/
theorem Capture.write_holds {c : Capture} {limit : Option Nat}
    (h : Sink.Holds bytes (.capture limit) (.capture c)) (new : ByteArray) :
    (c.write new).1 = decide (Fits limit bytes.length new.size) ∧
      Sink.Holds (bytes ++ new.data.toList) (.capture limit) (.capture (c.write new).2) := by
  obtain ⟨rfl, haccepted⟩ := h
  have haccepted : c.accepted.data.toList = cut c.limit bytes := haccepted
  cases hlimit : c.limit with
  | none =>
    rw [hlimit] at haccepted
    simp [write, hlimit, fits_none, Sink.Holds, Sink.stream, haccepted, cut]
  | some l =>
    rw [hlimit] at haccepted
    -- what is taken already is the beginning of the stream, so the room is what the stream leaves
    have hroom : l - c.accepted.size = l - bytes.length := by
      have hsize : c.accepted.size = min l bytes.length := by
        rw [ByteArray.size, ← Array.length_toList, haccepted, cut, List.length_take]
      omega
    refine ⟨?_, ?_⟩
    · simp only [write, hlimit, hroom, fits_some]
    · simp only [write, hlimit, hroom, Sink.Holds, Sink.stream, ByteArray.data_append,
        Array.toList_append, haccepted, cut_append, Option.map_some, true_and]
      simp [cut]

/-- What a write does to a sink that holds a stream. -/
theorem Sink.write_cases (h : Holds bytes kind s) (new : ByteArray) :
    ∃ t : Sink, Holds (bytes ++ new.data.toList) kind t ∧
      (Fits kind.limit bytes.length new.size ∧ write new s = .ok () t ∨
        ¬ Fits kind.limit bytes.length new.size ∧ write new s = .error .shortWrite t) := by
  cases s with
  | terminal t =>
    cases kind with
    | capture limit => exact h.elim
    | terminal shared =>
      obtain ⟨hsub, hown⟩ := h
      refine ⟨.terminal (t.write new), ⟨?_, ?_⟩, .inl ⟨fits_none _ _, rfl⟩⟩
      · rw [t.stream_write]
        exact hsub.append (List.Sublist.refl _)
      · intro hshared
        rw [t.stream_write, hown hshared]
  | capture c =>
    cases kind with
    | terminal shared => exact h.elim
    | capture limit =>
      obtain ⟨hall, hholds⟩ := Capture.write_holds h new
      cases hwrite : c.write new with
      | mk all c' =>
        rw [hwrite] at hall hholds
        refine ⟨.capture c', hholds, ?_⟩
        by_cases hfits : Fits limit bytes.length new.size
        · obtain rfl : all = true := hall.trans (decide_eq_true hfits)
          exact .inl ⟨hfits, by simp only [write, hwrite]⟩
        · obtain rfl : all = false := hall.trans (decide_eq_false hfits)
          exact .inr ⟨hfits, by simp only [write, hwrite]⟩

end

/-! ## Writing to the console -/

namespace Console

/-- The bytes of a text. -/
def bytesOf (text : String) : List UInt8 := text.toUTF8.data.toList

/-- The action writes bytes behind what the sink holds, and fails if they do not fit. The column is
not touched. -/
def Writes (new : List UInt8) (act : Op Unit) : Prop :=
  ∀ (kind : Sink.Kind) (bytes : List UInt8) (c : Console), Sink.Holds bytes kind c.sink →
    ∃ c' : Console, Sink.Holds (bytes ++ new) kind c'.sink ∧ c'.secondColumn = c.secondColumn ∧
      (Fits kind.limit bytes.length new.length ∧ act c = .ok () c' ∨
        ¬ Fits kind.limit bytes.length new.length ∧ act c = .error .shortWrite c')

/-- Writing a text writes its bytes. -/
theorem writes_write (text : String) : Writes (bytesOf text) (write text) := by
  intro kind bytes c h
  have hlength : (bytesOf text).length = text.toUTF8.size := Array.length_toList
  obtain ⟨t, hholds, hcases⟩ := Sink.write_cases h text.toUTF8
  refine ⟨⟨t, c.secondColumn⟩, hholds, rfl, ?_⟩
  rw [hlength]
  rcases hcases with ⟨hfits, hwrite⟩ | ⟨hfits, hwrite⟩
  · exact .inl ⟨hfits, by simp only [write, onSink, hwrite]⟩
  · exact .inr ⟨hfits, by simp only [write, onSink, hwrite]⟩

/-- Doing nothing writes no bytes. -/
theorem writes_pure : Writes [] (pure ()) := by
  intro kind bytes c h
  refine ⟨c, ?_, rfl, .inl ⟨?_, rfl⟩⟩
  · rwa [List.append_nil]
  · exact fun l _ => Nat.zero_le _

/-- Two writes in a row are one. The second is left out where the first one fails, and then nothing
of it would have been taken. -/
theorem Writes.bind {new new' : List UInt8} {act act' : Op Unit} (h : Writes new act)
    (h' : Writes new' act') : Writes (new ++ new') (act >>= fun _ => act') := by
  intro kind bytes c hc
  rw [List.length_append, fits_add, ← List.append_assoc]
  obtain ⟨c₁, hholds₁, hcolumn₁, ⟨hfits₁, hact⟩ | ⟨hfits₁, hact⟩⟩ := h kind bytes c hc
  · obtain ⟨c₂, hholds₂, hcolumn₂, hcases⟩ := h' kind (bytes ++ new) c₁ hholds₁
    rw [List.length_append] at hcases
    refine ⟨c₂, hholds₂, hcolumn₂.trans hcolumn₁, ?_⟩
    rw [bind_of_ok hact]
    rcases hcases with ⟨hfits₂, hact'⟩ | ⟨hfits₂, hact'⟩
    · exact .inl ⟨⟨hfits₁, hfits₂⟩, hact'⟩
    · exact .inr ⟨fun hboth => hfits₂ hboth.2, hact'⟩
  · exact ⟨c₁, hholds₁.of_overflow hfits₁, hcolumn₁,
      .inr ⟨fun hboth => hfits₁ hboth.1, bind_of_error hact⟩⟩

/-- Writing pieces writes all their bytes, one piece after the other. -/
theorem writes_forM (pieces : List String) :
    Writes (pieces.flatMap bytesOf) (pieces.forM write) := by
  induction pieces with
  | nil => exact writes_pure
  | cons piece pieces ih =>
    rw [List.flatMap_cons]
    exact (writes_write piece).bind ih

/-! ## Fields -/

/-- What is printed: a word, or a text. -/
inductive Field where
  | word (w : Word)
  | text (s : String)

/-- The upper-case hexadecimal digit of a number below 16. -/
def hexDigit (n : Nat) : Char := "0123456789ABCDEF".toList.getD n '0'

/-- The last `k` hexadecimal digits of a number. -/
def lastDigits : (k n : Nat) → List Char
  | 0, _ => []
  | k + 1, n => lastDigits k (n / 16) ++ [hexDigit (n % 16)]

/-- The text of a field. A word is shown by the mark `0x` and four hexadecimal digits. -/
def Field.shown : Field → String
  | .word w => "0x" ++ String.ofList (lastDigits 4 w.toNat)
  | .text s => s

/-- The bytes of the text of a field. -/
def Field.bytes (f : Field) : List UInt8 := bytesOf f.shown

/-- Prints a field. -/
def Field.log : Field → Op Unit
  | .word w => logWord w
  | .text s => logText s

/-- Prints fields, one after the other, whether the printing of one failed or not. -/
def printAll (fields : List Field) (c : Console) : Console :=
  fields.foldl (fun c f => stateOf (f.log c)) c

/-- The bytes of two texts in a row are those of the first and those of the second. -/
theorem bytesOf_append (s t : String) : bytesOf (s ++ t) = bytesOf s ++ bytesOf t := by
  have h : (s ++ t).toUTF8 = s.toUTF8 ++ t.toUTF8 := String.toByteArray_append
  rw [bytesOf, h, ByteArray.data_append, Array.toList_append]
  rfl

/-- The bytes of pieces are those of the text that they make. -/
theorem flatMap_bytesOf (pieces : List String) :
    pieces.flatMap bytesOf = bytesOf (String.join pieces) := by
  induction pieces with
  | nil => rfl
  | cons piece pieces ih => rw [List.flatMap_cons, ih, String.join_cons, bytesOf_append]

/-! ## The text of a word -/

/-- The digits of the library, in upper case. -/
theorem toUpper_digitChar {n : Nat} (h : n < 16) : (Nat.digitChar n).toUpper = hexDigit n := by
  have hall : ∀ k < 16, (Nat.digitChar k).toUpper = hexDigit k := by decide
  exact hall n h

/-- A number below 16 has one digit. -/
theorem hexDigits_of_lt {n : Nat} (h : n < 16) : Text.hexDigits n = [hexDigit n] := by
  rw [Text.hexDigits, Nat.toDigits_of_lt_base h, List.map_singleton, toUpper_digitChar h]

/-- Any other number has the digits of its quotient by 16 and one digit more. -/
theorem hexDigits_of_le {n : Nat} (h : 16 ≤ n) :
    Text.hexDigits n = Text.hexDigits (n / 16) ++ [hexDigit (n % 16)] := by
  rw [Text.hexDigits, Nat.toDigits_of_base_le (by decide) h, List.map_append, List.map_singleton,
    toUpper_digitChar (Nat.mod_lt n (by decide))]
  rfl

/-- The last digits of zero are zeros. -/
theorem lastDigits_zero (k : Nat) : lastDigits k 0 = List.replicate k '0' := by
  induction k with
  | zero => rfl
  | succ k ih => rw [lastDigits, Nat.zero_div, ih, List.replicate_succ']; rfl

/-- The digits of a number, with zeros in front where there are too few. -/
theorem padded_hexDigits {k n : Nat} (h : n < 16 ^ (k + 1)) :
    List.replicate (k + 1 - (Text.hexDigits n).length) '0' ++ Text.hexDigits n =
      lastDigits (k + 1) n := by
  induction k generalizing n with
  | zero =>
    have hlt : n < 16 := by omega
    rw [hexDigits_of_lt hlt, lastDigits, Nat.mod_eq_of_lt hlt]
    rfl
  | succ k ih =>
    by_cases hlt : n < 16
    · -- one digit, and zeros in all other places
      rw [hexDigits_of_lt hlt, lastDigits, Nat.div_eq_of_lt hlt, lastDigits_zero,
        Nat.mod_eq_of_lt hlt]
      rfl
    · -- the last digit comes off, and the rest has one place less
      have hdiv : n / 16 < 16 ^ (k + 1) := by
        rw [pow_succ] at h
        omega
      rw [hexDigits_of_le (Nat.not_lt.1 hlt), lastDigits, ← ih hdiv, List.length_append,
        List.length_singleton, Nat.add_sub_add_right, List.append_assoc]

/-- Texts of one zero each make a text of zeros. -/
theorem join_zeros (k : Nat) :
    String.join (List.replicate k "0") = String.ofList (List.replicate k '0') := by
  induction k with
  | zero => rfl
  | succ k ih =>
    have hone : "0" = String.ofList ['0'] := rfl
    rw [List.replicate_succ, String.join_cons, ih, List.replicate_succ, hone,
      ← String.ofList_append]
    rfl

/-- The pieces of a word make its text. -/
theorem join_wordPieces (w : Word) : String.join (wordPieces w) = (Field.word w).shown := by
  have hdigits := padded_hexDigits (k := 3) (n := w.toNat) w.toNat_lt
  have hlast : String.join [String.ofList (Text.hexDigits w.toNat)] =
      String.ofList (Text.hexDigits w.toNat) := by simp [String.join_cons]
  rw [wordPieces, List.cons_append, String.join_cons, String.join_append, join_zeros, hlast,
    ← String.ofList_append, hdigits]
  rfl

/-- A field is printed by writing its text and ending it. -/
theorem exists_log_eq (f : Field) :
    ∃ act, f.log = (act >>= fun _ => endField) ∧ Writes f.bytes act := by
  cases f with
  | text s => exact ⟨write s, rfl, writes_write s⟩
  | word w =>
    refine ⟨(wordPieces w).forM write, rfl, ?_⟩
    rw [Field.bytes, ← join_wordPieces, ← flatMap_bytesOf]
    exact writes_forM (wordPieces w)

/-! ## The ideal stream -/

/-- The separator behind the field with a number, from 0. -/
def separator (i : Nat) : UInt8 := if i % 2 = 0 then 9 else 10

/-- All fields, each followed by its separator. -/
def render (fields : List Field) : List UInt8 :=
  fields.zipIdx.flatMap fun (f, i) => f.bytes ++ [separator i]

/-- The number of fields whose texts are within the limit, all of their bytes. -/
def completeTexts (limit : Option Nat) (fields : List Field) : Nat :=
  fields.zipIdx.countP fun (f, i) => Fits limit (render (fields.take i)).length f.bytes.length

/-- One field more adds its text and its separator to the stream. -/
theorem render_concat (fields : List Field) (f : Field) :
    render (fields ++ [f]) = render fields ++ (f.bytes ++ [separator fields.length]) := by
  simp [render, List.zipIdx_append]

/-- One field more is one text more if that text fits. -/
theorem completeTexts_concat (limit : Option Nat) (fields : List Field) (f : Field) :
    completeTexts limit (fields ++ [f]) = completeTexts limit fields +
      if Fits limit (render fields).length f.bytes.length then 1 else 0 := by
  -- what stands in front of a field is not changed by a field behind it
  have hfront : fields.zipIdx.countP (fun (g, i) =>
        decide (Fits limit (render ((fields ++ [f]).take i)).length g.bytes.length)) =
      completeTexts limit fields := by
    refine List.countP_congr ?_
    rintro ⟨g, i⟩ hmem
    have hlt : i < fields.length := by simpa using List.snd_lt_of_mem_zipIdx hmem
    dsimp only
    rw [List.take_append_of_le_length (Nat.le_of_lt hlt)]
  rw [completeTexts, List.zipIdx_append, List.countP_append, hfront]
  simp [List.countP_singleton]

/-- Where everything fits, every text is within the limit. -/
theorem completeTexts_of_fits {limit : Option Nat} {fields : List Field}
    (h : Fits limit 0 (render fields).length) : completeTexts limit fields = fields.length := by
  induction fields using List.reverseRecOn with
  | nil => rfl
  | append_singleton fields f ih =>
    rw [render_concat, List.length_append, List.length_append, fits_add, Nat.zero_add,
      fits_add] at h
    obtain ⟨hfront, htext, -⟩ := h
    rw [completeTexts_concat, ih hfront, if_pos htext, List.length_append]
    rfl

/-! ## What the console shows -/

/-- The console has printed the fields: its sink holds as much of them as its limit lets through,
and its column is the parity of the number of texts that the sink has taken whole. -/
structure Shows (kind : Sink.Kind) (fields : List Field) (c : Console) : Prop where
  sink : Sink.Holds (render fields) kind c.sink
  column : c.secondColumn = decide (completeTexts kind.limit fields % 2 = 1)

variable {kind : Sink.Kind} {fields : List Field} {c : Console}

/-- Ending a field turns the column over and writes the separator of the old one. -/
theorem endField_eq (c : Console) : endField c =
    write (if c.secondColumn then "\n" else "\t") ⟨c.sink, !c.secondColumn⟩ := rfl

/-- The separator that the console chooses by its column is that of the number of fields. -/
theorem bytesOf_separator (i : Nat) :
    bytesOf (if decide (i % 2 = 1) then "\n" else "\t") = [separator i] := by
  rcases Nat.mod_two_eq_zero_or_one i with h | h
  · rw [separator, h]
    decide
  · rw [separator, h]
    decide

/-- The sink holds what the console shows also if another separator was chosen: where a separator is
taken at all, it is the right one. -/
theorem Shows.holds_separator {c' : Console} (h : Shows kind fields c) {text : List UInt8}
    (hholds : Sink.Holds
      (render fields ++ text ++ bytesOf (if c.secondColumn then "\n" else "\t")) kind c'.sink) :
    Sink.Holds (render fields ++ (text ++ [separator fields.length])) kind c'.sink := by
  rw [List.append_assoc] at hholds
  by_cases hfits : Fits kind.limit 0 (render fields).length
  · -- while everything fits, the column is the parity of the number of fields
    have hcolumn := h.column
    rw [completeTexts_of_fits hfits] at hcolumn
    rwa [hcolumn, bytesOf_separator] at hholds
  · exact hholds.of_full hfits

/-- One more turns the parity over. -/
theorem decide_succ_odd (n : Nat) : (!decide (n % 2 = 1)) = decide ((n + 1) % 2 = 1) := by
  rw [← decide_not, decide_eq_decide]
  omega

/-- Printing one field more. It succeeds if the text and the separator fit. -/
theorem Shows.log (h : Shows kind fields c) (f : Field) :
    Shows kind (fields ++ [f]) (stateOf (f.log c)) ∧
      ((∃ c', f.log c = .ok () c') ↔
        Fits kind.limit (render fields).length (f.bytes.length + 1)) := by
  obtain ⟨act, hlog, hwrites⟩ := exists_log_eq f
  rw [hlog, fits_add]
  obtain ⟨c₁, hholds, hcolumn, ⟨hfits, hact⟩ | ⟨hfits, hact⟩⟩ :=
    hwrites kind (render fields) c h.sink
  · -- the text was taken, so the column has turned over, whatever becomes of the separator
    obtain ⟨c₂, hholds₂, hcolumn₂, hcases⟩ :=
      writes_write (if c₁.secondColumn then "\n" else "\t") kind _
        ⟨c₁.sink, !c₁.secondColumn⟩ hholds
    rw [bind_of_ok hact, endField_eq]
    rw [hcolumn] at hholds₂ hcolumn₂ hcases ⊢
    have hone : (bytesOf (if c.secondColumn then "\n" else "\t")).length = 1 := by
      cases c.secondColumn <;> decide
    rw [hone, List.length_append] at hcases
    have hshows : Shows kind (fields ++ [f]) c₂ := by
      refine ⟨?_, ?_⟩
      · rw [render_concat]
        exact h.holds_separator hholds₂
      · rw [hcolumn₂, h.column, completeTexts_concat, if_pos hfits, decide_succ_odd]
    -- the column is right either way; only the success depends on the separator
    rcases hcases with ⟨hsep, hwrite⟩ | ⟨hsep, hwrite⟩
    · rw [hwrite]
      exact ⟨hshows, iff_of_true ⟨c₂, rfl⟩ ⟨hfits, hsep⟩⟩
    · rw [hwrite]
      exact ⟨hshows, iff_of_false nofun fun hboth => hsep hboth.2⟩
  · -- the text was not taken whole, so the sink is full and the column stays
    rw [bind_of_error hact]
    refine ⟨⟨?_, ?_⟩, iff_of_false nofun fun hboth => hfits hboth.1⟩
    · rw [render_concat, ← List.append_assoc]
      exact hholds.of_overflow hfits
    · rw [completeTexts_concat, if_neg hfits, Nat.add_zero, ← h.column]
      exact hcolumn

/-- Printing any number of fields more. -/
theorem Shows.printAll (h : Shows kind fields c) (more : List Field) :
    Shows kind (fields ++ more) (printAll more c) := by
  induction more generalizing fields c with
  | nil => rwa [List.append_nil]
  | cons f more ih =>
    have hnext := ih (h.log f).1
    rwa [List.append_assoc] at hnext

end Console

end WordMachine

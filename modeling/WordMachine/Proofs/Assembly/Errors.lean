import WordMachine.Proofs.Assembly.Lines
import WordMachine.Proofs.Assembly.Reference

/-!
# Which error is reported, and on which line

An error is noticed while a token is read, while its items are placed, or when the text ends
(`Error.stage?`). The first two kinds are decided by the tokens up to the one at fault, and so is a
quote that is left open: more lines behind the text change none of them (`assemble_append_newline`).
The error of an undefined label is the last of all. It is reported if nothing else is wrong with the
text, for the first reference without a definition (`assemble_eq_undefinedLabel_iff`).

That each error stands on the line of a token comes from the reader and the layout, which report the
line of the token they are given; the two errors of an ended text that look back to a token take its
line from the pass (`line_of_feeds`) and from the layout (`Lays`).
-/

namespace WordMachine.Assembly

/-! ## Lines and stages -/

/-- The line that an error is reported on. -/
def Error.line? : Error → Option Nat
  | .unterminatedString line | .badCharacter line _ | .unknownDirective line _
  | .unknownMnemonic line _ | .badRegister line _ | .badNumber line _ | .numberOutOfRange line _
  | .missingOperand line _ | .duplicateLabel line _ _ | .undefinedLabel line _
  | .codeOverflow line | .dataOverflow line => some line
  | .file _ _ => none

/-- When an error of a text is noticed: at a token, at one of its items, or when the text ends. -/
inductive Stage where
  | reading
  | placing
  | ending

/-- The stage of an error of a text. -/
def Error.stage? : Error → Option Stage
  | .badCharacter _ _ | .unknownDirective _ _ | .unknownMnemonic _ _ | .badRegister _ _
  | .badNumber _ _ | .numberOutOfRange _ _ => some .reading
  | .duplicateLabel _ _ _ | .codeOverflow _ | .dataOverflow _ => some .placing
  | .unterminatedString _ | .missingOperand _ _ | .undefinedLabel _ _ => some .ending
  | .file _ _ => none

/-- An error is noticed at a stage and reported on a line. -/
structure Error.Noticed (e : Error) (stage : Stage) (line : Nat) : Prop where
  line_eq : e.line? = some line
  stage_eq : e.stage? = some stage

/-! ## Errors of a token -/

section Read

variable {t : Token} {err : Error}

/-- A mapped result fails exactly if the result does. -/
theorem map_eq_error_iff {α β : Type} {f : α → β} {x : Except Error α} :
    x.map f = .error err ↔ x = .error err := by
  cases x <;> simp [Except.map]

/-- A literal fails while it is read, for a character without a byte. -/
theorem literalWords_error (h : literalWords t = .error err) : err.Noticed .reading t.line := by
  rw [literalWords, map_eq_error_iff, charBytes] at h
  split at h
  · obtain rfl := Except.error.inj h
    exact ⟨rfl, rfl⟩
  · cases h

/-- A number fails while it is read. -/
theorem wordOf_error (h : wordOf t = .error err) : err.Noticed .reading t.line := by
  unfold wordOf at h
  split at h
  · obtain rfl := Except.error.inj h
    exact ⟨rfl, rfl⟩
  · split at h
    · cases h
    · obtain rfl := Except.error.inj h
      exact ⟨rfl, rfl⟩

/-- An instruction fails while it is read, for its mnemonic or its register. -/
theorem instructionOf_error (h : instructionOf t = .error err) : err.Noticed .reading t.line := by
  simp only [instructionOf] at h
  split at h
  · split at h
    · obtain rfl := Except.error.inj h
      exact ⟨rfl, rfl⟩
    · split at h
      · obtain rfl := Except.error.inj h
        exact ⟨rfl, rfl⟩
      · cases h
  · split at h
    · obtain rfl := Except.error.inj h
      exact ⟨rfl, rfl⟩
    · cases h

/-- A directive fails while it is read. -/
theorem directive_error (h : directive t = .error err) : err.Noticed .reading t.line := by
  unfold directive at h
  split_ifs at h
  obtain rfl := Except.error.inj h
  exact ⟨rfl, rfl⟩

/-- The name of an entry fails while it is read. -/
theorem dataName_error (h : dataName t = .error err) : err.Noticed .reading t.line := by
  simp only [dataName] at h
  split_ifs at h
  obtain rfl := Except.error.inj h
  exact ⟨rfl, rfl⟩

/-- A statement of the code fails while it is read, as an instruction; labels do not fail there. -/
theorem codeStatement_error (h : codeStatement t = .error err) : err.Noticed .reading t.line := by
  by_cases hcolon : ∃ name, t.text.toList = ':' :: name
  · obtain ⟨name, hname⟩ := hcolon
    rw [codeStatement_of_colon hname] at h
    cases h
  · rw [codeStatement_of_ne_colon (not_exists.1 hcolon), map_eq_error_iff] at h
    exact instructionOf_error h

/-- An operand fails while it is read, as a number. -/
theorem pushOperand_error (h : pushOperand t = .error err) : err.Noticed .reading t.line := by
  by_cases hcolon : ∃ name, t.text.toList = ':' :: name
  · obtain ⟨name, hname⟩ := hcolon
    rw [pushOperand_of_colon hname] at h
    cases h
  · rw [pushOperand_of_ne_colon (not_exists.1 hcolon), map_eq_error_iff] at h
    exact wordOf_error h

/-- What is wrong with a token is reported on its line. -/
theorem read_error {e : Expect} (h : e.read t = .error err) : err.Noticed .reading t.line := by
  cases e with
  | statement area =>
    rw [read_statement] at h
    split at h
    · exact directive_error h
    · cases area with
      | data => exact dataName_error h
      | code => exact codeStatement_error h
  | wordCount =>
    simp only [Expect.read] at h
    split at h
    · cases h
    · obtain rfl := Except.error.inj h
      exact ⟨rfl, rfl⟩
  | dataItem remaining =>
    rw [read_dataItem, map_eq_error_iff] at h
    split at h
    · exact literalWords_error h
    · exact wordOf_error (map_eq_error_iff.1 h)
  | operand => exact pushOperand_error h

end Read

section Feed

variable {l : Layout} {p p' : Progress} {t : Token} {ts : List Token} {err : Error}

/-- A byte fails for want of room. -/
theorem addByte_error {line : Nat} {b : UInt8} (h : l.addByte line b = .error err) :
    err = .codeOverflow line := by
  unfold Layout.addByte at h
  split_ifs at h
  exact (Except.error.inj h).symm

/-- A sequence fails in its first step, or in the second behind a first that succeeds. -/
theorem bind_eq_error_iff {α β : Type} {x : Except Error α} {f : α → Except Error β} :
    x >>= f = .error err ↔ x = .error err ∨ ∃ a, x = .ok a ∧ f a = .error err := by
  cases x <;> simp [bind, Except.bind]

/-- An item that cannot be placed has no room in its section, or defines a name again; the layout
has the line of the definition that is there. -/
theorem add_error {line : Nat} {item : Item} (h : l.add line item = .error err) :
    err = .codeOverflow line ∨ err = .dataOverflow line ∨
      ∃ name first, item.label? = some name ∧ l.labels[name]?.map Label.line = some first ∧
        err = .duplicateLabel line name first := by
  cases item with
  | label area name =>
    simp only [Layout.add, Layout.addLabel] at h
    split at h
    · rename_i label hlabel
      exact .inr (.inr ⟨name, label.line, rfl, by rw [hlabel]; rfl, (Except.error.inj h).symm⟩)
    · cases h
  | word w =>
    simp only [Layout.add, Layout.addWord] at h
    split_ifs at h
    exact .inr (.inl (Except.error.inj h).symm)
  | byte b => exact .inl (addByte_error h)
  | reference name =>
    -- a reference is two bytes, and either may find no room
    rcases bind_eq_error_iff.1 h with hfirst | ⟨l₁, -, hsecond⟩
    · exact .inl (addByte_error hfirst)
    · exact .inl (addByte_error hsecond)

/-- The first step of a fold that fails decides its error. -/
theorem foldlM_eq_error_iff {α β : Type} {f : β → α → Except Error β} {xs : List α} {b : β} :
    xs.foldlM f b = .error err ↔ ∃ before x after b', xs = before ++ x :: after ∧
      before.foldlM f b = .ok b' ∧ f b' x = .error err := by
  -- by induction on the list: the first element fails, or some later one
  induction xs generalizing b with
  | nil => simp [pure, Except.pure]
  | cons x xs ih =>
    rw [List.foldlM_cons, bind_eq_error_iff]
    constructor
    · rintro (hx | ⟨b₁, hx, hxs⟩)
      · exact ⟨[], x, xs, b, rfl, rfl, hx⟩
      · obtain ⟨before, y, after, b', rfl, hbefore, hy⟩ := ih.1 hxs
        refine ⟨x :: before, y, after, b', rfl, ?_, hy⟩
        rw [List.foldlM_cons]
        exact bind_eq_ok_iff.2 ⟨b₁, hx, hbefore⟩
    · rintro ⟨before, y, after, b', hxs, hbefore, hy⟩
      cases before with
      | nil =>
        obtain ⟨rfl, rfl⟩ := List.cons.inj hxs
        obtain rfl := Except.ok.inj hbefore
        exact .inl hy
      | cons x' before =>
        obtain ⟨rfl, rfl⟩ := List.cons.inj hxs
        rw [List.foldlM_cons] at hbefore
        obtain ⟨b₁, hx, hbefore⟩ := bind_eq_ok_iff.1 hbefore
        exact .inr ⟨b₁, hx, ih.2 ⟨before, y, after, b', rfl, hbefore, hy⟩⟩

/-- A token fails while it is read, or while its items are placed. -/
theorem feed_eq_error_iff : p.feed t = .error err ↔ p.expect.read t = .error err ∨
    ∃ items e, p.expect.read t = .ok (items, e) ∧
      items.foldlM (Layout.add t.line) p.layout = .error err := by
  unfold Progress.feed
  rw [bind_eq_error_iff]
  refine or_congr_right ?_
  simp only [Prod.exists, bind_eq_error_iff]
  refine exists_congr fun items => exists_congr fun e => and_congr_right fun _ => ?_
  simp [pure, Except.pure]

/-- An error at a token is reported on its line, and not left to the end of the text. -/
theorem feed_error (h : p.feed t = .error err) :
    ∃ stage, err.Noticed stage t.line ∧ stage ≠ .ending := by
  rcases feed_eq_error_iff.1 h with hread | ⟨items, e, -, hadd⟩
  · exact ⟨.reading, read_error hread, nofun⟩
  · obtain ⟨_, item, _, l, -, -, hitem⟩ := foldlM_eq_error_iff.1 hadd
    refine ⟨.placing, ?_, nofun⟩
    rcases add_error hitem with rfl | rfl | ⟨_, _, -, -, rfl⟩ <;> exact ⟨rfl, rfl⟩

/-- The line of the pass is that of the last token. -/
theorem line_of_feeds (h : ts.foldlM Progress.feed p = .ok p') :
    (ts = [] ∧ p' = p) ∨ ∃ t ∈ ts, t.line = p'.line := by
  refine foldlM_invariant (I := fun q ts => (ts = [] ∧ q = p) ∨ ∃ t ∈ ts, t.line = q.line)
    (fun _ hstep => ?_) (.inl ⟨rfl, rfl⟩) h
  obtain ⟨_, -, -, hline⟩ := feed_eq_ok_iff.1 hstep
  exact .inr ⟨_, List.mem_append_right _ (List.mem_singleton_self _), hline.symm⟩

end Feed

/-! ## Errors of a text -/

section Text

variable {text : String} {err : Error}

/-- A text fails at one of its tokens, or when it ends. -/
theorem assemble_eq_error_iff : assemble text = .error err ↔
    (∃ before t after p, (Scan.ofText text).tokens = before ++ t :: after ∧
      before.foldlM Progress.feed .start = .ok p ∧ p.feed t = .error err) ∨
    ∃ p, (Scan.ofText text).tokens.foldlM Progress.feed .start = .ok p ∧
      p.finish (Scan.ofText text).unclosed = .error err := by
  rw [assemble, bind_eq_error_iff, foldlM_eq_error_iff]

/-- An ended text fails because of an open quote, something missing, or its references. -/
theorem finish_eq_error_iff {p : Progress} {unclosed : Option Nat} :
    p.finish unclosed = .error err ↔
      (∃ line, unclosed = some line ∧ err = .unterminatedString line) ∨
      (unclosed = none ∧ ∃ what, p.expect.missing? = some what ∧
        err = .missingOperand p.line what) ∨
      unclosed = none ∧ p.expect.missing? = none ∧ p.layout.toImage = .error err := by
  unfold Progress.finish
  cases unclosed <;> cases p.expect.missing? <;> simp [eq_comm]

/-- References are filled in up to the first one that is not defined. -/
theorem foldlM_resolveIn_eq_ok_iff {labels : Std.ExtHashMap String Label} {refs : List Reference}
    {code : Array UInt8} : (∃ code', refs.foldlM (Layout.resolveIn labels) code = .ok code') ↔
      ∀ r ∈ refs, labels[r.name]?.isSome := by
  refine ⟨fun ⟨_, h⟩ => isSome_of_foldlM_resolveIn h, fun h => ?_⟩
  -- one reference after the other
  induction refs generalizing code with
  | nil => exact ⟨code, rfl⟩
  | cons r refs ih =>
    obtain ⟨hr, hrefs⟩ := List.forall_mem_cons.1 h
    obtain ⟨label, hlabel⟩ := Option.isSome_iff_exists.1 hr
    have hstep : ∃ code₁, Layout.resolveIn labels code r = .ok code₁ :=
      ⟨_, by simp only [Layout.resolveIn, hlabel]; rfl⟩
    obtain ⟨code₁, hstep⟩ := hstep
    obtain ⟨code', hcode'⟩ : ∃ code', refs.foldlM (Layout.resolveIn labels) code₁ = .ok code' :=
      ih hrefs
    exact ⟨code', by rw [List.foldlM_cons]; exact bind_eq_ok_iff.2 ⟨code₁, hstep, hcode'⟩⟩

/-- Filling in a reference fails exactly if its name is not defined. -/
theorem resolveIn_eq_error_iff {labels : Std.ExtHashMap String Label} {code : Array UInt8}
    {r : Reference} : Layout.resolveIn labels code r = .error err ↔
      labels[r.name]? = none ∧ err = .undefinedLabel r.line r.name := by
  unfold Layout.resolveIn
  cases labels[r.name]? <;> simp [eq_comm]

/-- A layout gives no image exactly if a reference is not defined, and the first one is reported. -/
theorem toImage_eq_error_iff {l : Layout} : l.toImage = .error err ↔
    ∃ before r after, l.references.toList = before ++ r :: after ∧
      (∀ r' ∈ before, l.labels[r'.name]?.isSome) ∧ l.labels[r.name]? = none ∧
      err = .undefinedLabel r.line r.name := by
  have hpure {x : Except Error (Array UInt8)} {f : Array UInt8 → Image} :
      (x >>= fun code => pure (f code)) = .error err ↔ x = .error err := by
    cases x <;> simp [bind, Except.bind, pure, Except.pure]
  rw [Layout.toImage, hpure, foldlM_eq_error_iff]
  constructor
  · rintro ⟨before, r, after, code, hrefs, hbefore, hr⟩
    obtain ⟨hnone, herr⟩ := resolveIn_eq_error_iff.1 hr
    exact ⟨before, r, after, hrefs, foldlM_resolveIn_eq_ok_iff.1 ⟨code, hbefore⟩, hnone, herr⟩
  · rintro ⟨before, r, after, hrefs, hbefore, hnone, herr⟩
    obtain ⟨code, hcode⟩ := foldlM_resolveIn_eq_ok_iff.2 hbefore
    exact ⟨before, r, after, code, hrefs, hcode, resolveIn_eq_error_iff.2 ⟨hnone, herr⟩⟩

end Text

/-! ## More lines behind a text -/

namespace Scan

/-- A text with more lines behind it has the same tokens first, and nothing more if it leaves a
quote open. -/
theorem ofText_append_newline (front back : String) :
    ((ofText front).unclosed = none ∧
      ∃ more, (ofText (front ++ "\n" ++ back)).tokens = (ofText front).tokens ++ more) ∨
    ((ofText front).unclosed ≠ none ∧ ofText (front ++ "\n" ++ back) = ofText front) := by
  have hchars : (front ++ "\n" ++ back).toList = front.toList ++ '\n' :: back.toList := by simp
  rw [ofText, ofText, hchars]
  rcases go_append_newline front.toList back.toList 1 [] with ⟨hclosed, line, hgo⟩ | ⟨hopen, hgo⟩
  · refine .inl ⟨hclosed, (go back.toList line []).tokens, ?_⟩
    rw [hgo, go_found, List.reverse_reverse]
  · exact .inr ⟨hopen, hgo⟩

end Scan

/-- More lines behind a text leave its error as it is, unless the error is that something is still
missing or undefined. -/
theorem assemble_append_newline {s : String} {err : Error} (h : assemble s = .error err)
    (hmissing : ∀ line what, err ≠ .missingOperand line what)
    (hundefined : ∀ line name, err ≠ .undefinedLabel line name) (t : String) :
    assemble (s ++ "\n" ++ t) = .error err := by
  rcases Scan.ofText_append_newline s t with ⟨hclosed, more, htokens⟩ | ⟨-, hscan⟩
  · rcases assemble_eq_error_iff.1 h with ⟨before, token, after, p, hs, hbefore, hfeed⟩ |
      ⟨p, -, hfinish⟩
    · -- the token at fault is still there, with the same tokens before it
      refine assemble_eq_error_iff.2 (.inl ⟨before, token, after ++ more, p, ?_, hbefore, hfeed⟩)
      rw [htokens, hs, List.append_assoc, List.cons_append]
    · -- without an open quote, an ended text fails for one of the two reasons that are left out
      rcases finish_eq_error_iff.1 hfinish with ⟨line, hopen, -⟩ | ⟨-, what, -, rfl⟩ |
        ⟨-, -, himage⟩
      · rw [hclosed] at hopen
        cases hopen
      · exact absurd rfl (hmissing _ _)
      · obtain ⟨_, r, _, -, -, -, rfl⟩ := toImage_eq_error_iff.1 himage
        exact absurd rfl (hundefined _ _)
  · have hsame : assemble (s ++ "\n" ++ t) = assemble s := by rw [assemble, assemble, hscan]
    rw [hsame, h]

/-! ## Undefined and duplicate labels -/

/-- Some item defines a name. -/
def Defined (items : List (Token × Item)) (name : String) : Prop :=
  ∃ entry ∈ items, entry.2.label? = some name

/-- The tokens of a text add items, and nothing is wrong with it except perhaps its references: no
quote is left open, the tokens can be read up to the end of a statement, no name is defined twice
and both sections fit their segments. -/
structure Complete (text : String) (items : List (Token × Item)) : Prop where
  closed : (Scan.ofText text).unclosed = none
  sources : ∃ area,
    Sources (.statement .data) (Scan.ofText text).tokens items (.statement area)
  fits : Fits (items.map Prod.snd)

/-- The first reference that is not defined is one to a name, on a line. -/
def FirstUndefined (items : List (Token × Item)) (line : Nat) (name : String) : Prop :=
  ∃ front t back, items = front ++ (t, .reference name) :: back ∧ t.line = line ∧
    ¬ Defined items name ∧ ∀ t' name', (t', .reference name') ∈ front → Defined items name'

/-- A token defines a name again, and the earliest definition of it is on the line `first`. -/
def DefinedAgain (items : List (Token × Item)) (t : Token) (name : String) (first : Nat) : Prop :=
  ∃ front entry middle again rest, items = front ++ entry :: (middle ++ again :: rest) ∧
    again.1 = t ∧ again.2.label? = some name ∧ entry.1.line = first ∧
    entry.2.label? = some name ∧ ¬ Defined front name

section Labels

variable {text : String} {line : Nat} {name : String}

/-- The layout of some items knows a name exactly if one of the items defines it. -/
theorem isSome_labels_iff {l : Layout} {items : List (Token × Item)} (h : Lays l items) :
    l.labels[name]?.isSome ↔ Defined items name := by
  rw [← Option.isSome_map (f := Label.line), h.labels_line, Option.isSome_iff_ne_none, ne_eq,
    definedOn?_eq_none_iff]
  push Not
  rfl

/-- The layout of items fails to give an image for the first of them that is undefined. -/
theorem toImage_eq_undefinedLabel_iff {l : Layout} {items : List (Token × Item)}
    (h : Lays l items) :
    l.toImage = .error (.undefinedLabel line name) ↔ FirstUndefined items line name := by
  rw [toImage_eq_error_iff, h.references_eq]
  constructor
  · rintro ⟨before, r, after, hrefs, hbefore, hnone, herr⟩
    obtain ⟨rfl, rfl⟩ : line = r.line ∧ name = r.name := by simpa using herr
    obtain ⟨front, t, back, hitems, hfront, hline, -⟩ := exists_of_roomsFrom hrefs
    refine ⟨front, t, back, hitems, hline, ?_, fun t' name' hmem => ?_⟩
    · rw [← isSome_labels_iff h, hnone]
      simp
    · obtain ⟨r', hr', rfl⟩ := exists_room hmem 0
      exact (isSome_labels_iff h).1 (hbefore r' (hfront ▸ hr'))
  · -- the references of the items in front are defined, so filling in gets as far as this one
    rintro ⟨front, t, back, rfl, rfl, hnone, hfront⟩
    refine ⟨roomsFrom 0 front, ⟨_, name, t.line⟩, _, roomsFrom_append 0 front _, fun r hr => ?_,
      by simpa using mt (isSome_labels_iff h).1 hnone, rfl⟩
    obtain ⟨before, after, hsplit⟩ := List.append_of_mem hr
    obtain ⟨front₁, t', front₂, rfl, -⟩ := exists_of_roomsFrom hsplit
    exact (isSome_labels_iff h).2 (hfront t' r.name (by simp))

/-- An undefined label is reported exactly if nothing else is wrong with a text, and for the first
reference that is not defined. -/
theorem assemble_eq_undefinedLabel_iff :
    assemble text = .error (.undefinedLabel line name) ↔
      ∃ items, Complete text items ∧ FirstUndefined items line name := by
  rw [assemble_eq_error_iff]
  constructor
  · rintro (⟨_, _, _, _, -, -, hfeed⟩ | ⟨p, hfeeds, hfinish⟩)
    · -- at a token no reference is resolved yet
      obtain ⟨stage, ⟨-, hstage⟩, hne⟩ := feed_error hfeed
      exact absurd (Option.some.inj hstage).symm hne
    · rcases finish_eq_error_iff.1 hfinish with ⟨_, -, h⟩ | ⟨-, _, -, h⟩ |
        ⟨hclosed, hmissing, himage⟩
      · cases h
      · cases h
      · obtain ⟨area, hexpect⟩ := missing?_eq_none_iff.1 hmissing
        obtain ⟨items, hsources, hlays⟩ := lays_of_start (List.append_nil _).symm hfeeds
        exact ⟨items, ⟨hclosed, ⟨area, hexpect ▸ hsources⟩, hlays.fits⟩,
          (toImage_eq_undefinedLabel_iff hlays).1 himage⟩
  · rintro ⟨items, ⟨hclosed, ⟨area, hsources⟩, hfits⟩, hundefined⟩
    obtain ⟨p, hfeeds, hexpect, -⟩ :=
      feeds_of_reads (p := .start) hsources.reads holds_empty hfits
    -- the pass has laid out the items of the text, since its tokens can be read in one way only
    obtain ⟨items', hsources', hlays⟩ := lays_of_start (List.append_nil _).symm hfeeds
    obtain ⟨rfl, -⟩ := hsources.unique hsources'
    exact .inr ⟨p, hfeeds, finish_eq_error_iff.2 (.inr (.inr ⟨hclosed,
      missing?_eq_none_iff.2 ⟨area, hexpect⟩, (toImage_eq_undefinedLabel_iff hlays).2 hundefined⟩))⟩

/-- A name that is defined twice is reported at its second definition, with the line of the earliest
one. -/
theorem definedAgain_of_assemble {first : Nat}
    (h : assemble text = .error (.duplicateLabel line name first)) :
    ∃ before t after items e, (Scan.ofText text).tokens = before ++ t :: after ∧ t.line = line ∧
      Sources (.statement .data) (before ++ [t]) items e ∧ DefinedAgain items t name first := by
  rcases assemble_eq_error_iff.1 h with ⟨before, t, after, p, htokens, hfeeds, hfeed⟩ |
    ⟨p, -, hfinish⟩
  · obtain ⟨items, hsources, hlays⟩ := lays_of_start htokens hfeeds
    rcases feed_eq_error_iff.1 hfeed with hread | ⟨more, e, hread, hadd⟩
    · -- the error is not one of reading
      cases (read_error hread).stage_eq
    · obtain ⟨placed, item, rest, l, rfl, hplaced, hitem⟩ := foldlM_eq_error_iff.1 hadd
      obtain ⟨hname, hline, hfirst⟩ : item.label? = some name ∧ t.line = line ∧
          l.labels[name]?.map Label.line = some first := by
        rcases add_error hitem with herr | herr | ⟨name', first', hname, hfirst, herr⟩
        · cases herr
        · cases herr
        · obtain ⟨rfl, rfl, rfl⟩ := Error.duplicateLabel.inj herr
          exact ⟨hname, rfl, hfirst⟩
      -- the layout knows the first definition among the items before this one
      rw [(lays_of_adds hlays hplaced).labels_line] at hfirst
      obtain ⟨front, entry, back, hsplit, hentry, hfirst, hfront⟩ :=
        definedOn?_eq_some_iff.1 hfirst
      have hclosed : t.Closed := closed_of_mem_ofText text t (by rw [htokens]; simp)
      have hstep := tokenStep_of_read hclosed hread
      refine ⟨before, t, after, _, e, htokens, hline, hsources.append (.cons hstep .nil),
        front, entry, back, (t, item), rest.map (t, ·), ?_, rfl, hname, hfirst, hentry, ?_⟩
      · rw [List.append_nil, List.map_append, List.map_cons, ← List.append_assoc, hsplit,
          List.append_assoc, List.cons_append]
      · rintro ⟨other, hother, hdefines⟩
        exact hfront other hother hdefines
  · rcases finish_eq_error_iff.1 hfinish with ⟨_, -, h⟩ | ⟨-, _, -, h⟩ | ⟨-, -, himage⟩
    · cases h
    · cases h
    · obtain ⟨_, _, _, -, -, -, h⟩ := toImage_eq_error_iff.1 himage
      cases h

end Labels

/-! ## The line of an error -/

/-- An error is reported on the line of a token, or of the quote that is left open. -/
theorem line_of_assemble {text : String} {err : Error} (h : assemble text = .error err) :
    ∃ line, err.line? = some line ∧ ((∃ t ∈ (Scan.ofText text).tokens, t.line = line) ∨
      ((Scan.ofText text).unclosed = some line ∧ err = .unterminatedString line)) := by
  rcases assemble_eq_error_iff.1 h with ⟨before, t, after, p, htokens, -, hfeed⟩ |
    ⟨p, hfeeds, hfinish⟩
  · obtain ⟨_, hnoticed, -⟩ := feed_error hfeed
    exact ⟨t.line, hnoticed.line_eq, .inl ⟨t, by rw [htokens]; simp, rfl⟩⟩
  · rcases finish_eq_error_iff.1 hfinish with ⟨line, hopen, rfl⟩ | ⟨-, what, hmissing, rfl⟩ |
      ⟨-, -, himage⟩
    · -- an open quote has its own line
      exact ⟨line, rfl, .inr ⟨hopen, rfl⟩⟩
    · refine ⟨p.line, rfl, .inl ?_⟩
      -- nothing is missing before the first token
      rcases line_of_feeds hfeeds with ⟨-, rfl⟩ | ht
      · cases hmissing
      · exact ht
    · obtain ⟨items, hsources, hlays⟩ := lays_of_start (List.append_nil _).symm hfeeds
      obtain ⟨_, r, _, hrefs, -, -, rfl⟩ := toImage_eq_error_iff.1 himage
      rw [hlays.references_eq] at hrefs
      obtain ⟨front, t, back, rfl, -, hline, -⟩ := exists_of_roomsFrom hrefs
      exact ⟨r.line, rfl, .inl ⟨t, hsources.token_mem (t, .reference r.name) (by simp), hline⟩⟩

/-- The error of a text is that of its first lines that have one: more lines change it only if
something is still missing or undefined. An undefined label is reported exactly if nothing else is
wrong, and for the first reference that is not defined. Every error is reported on the line of a
token or of the quote that is left open, and a name that is defined twice with the line of its
earliest definition. -/
theorem first_error_decides (s : String) :
    (∀ err, assemble s = .error err → (∀ line what, err ≠ .missingOperand line what) →
      (∀ line name, err ≠ .undefinedLabel line name) →
        ∀ t, assemble (s ++ "\n" ++ t) = .error err) ∧
    (∀ line name, assemble s = .error (.undefinedLabel line name) ↔
      ∃ items, Complete s items ∧ FirstUndefined items line name) ∧
    (∀ err, assemble s = .error err → ∃ line, err.line? = some line ∧
      ((∃ t ∈ (Scan.ofText s).tokens, t.line = line) ∨
        ((Scan.ofText s).unclosed = some line ∧ err = .unterminatedString line))) ∧
    ∀ line name first, assemble s = .error (.duplicateLabel line name first) →
      ∃ before t after items e, (Scan.ofText s).tokens = before ++ t :: after ∧ t.line = line ∧
        Sources (.statement .data) (before ++ [t]) items e ∧ DefinedAgain items t name first :=
  ⟨fun _ h hmissing hundefined => assemble_append_newline h hmissing hundefined,
    fun _ _ => assemble_eq_undefinedLabel_iff, fun _ => line_of_assemble,
    fun _ _ _ => definedAgain_of_assemble⟩

/-- A label that is defined twice stays the error when the next line leaves a quote open. In the
second text the first reference has no definition, the other one has. -/
theorem first_error_decides_labels :
    (assemble ".code\n:a\n:a\nPI :b 'x" = .error (.duplicateLabel 3 "a" 2) ∧
      ∃ before t after items e, (Scan.ofText ".code\n:a\n:a").tokens = before ++ t :: after ∧
        t.line = 3 ∧ Sources (.statement .data) (before ++ [t]) items e ∧
        DefinedAgain items t "a" 2) ∧
    assemble ".code PI :b\nPI :a :a" = .error (.undefinedLabel 1 "b") := by
  -- the first text is run by evaluation
  have htwice : assemble ".code\n:a\n:a" = .error (.duplicateLabel 3 "a" 2) := by
    have htokens : (Scan.ofText ".code\n:a\n:a").tokens =
        [⟨".code", 1⟩, ⟨":a", 2⟩, ⟨":a", 3⟩] := by decide +kernel
    have hcode : (Expect.statement .data).read ⟨".code", 1⟩ = .ok ([], .statement .code) := by
      decide +kernel
    have hlabel (line : Nat) : (Expect.statement .code).read ⟨":a", line⟩ =
        .ok ([.label .code "a"], .statement .code) :=
      (TokenStep.label rfl).read_eq_ok
    simp [assemble, htokens, Progress.feed, Progress.start, hcode, hlabel, bind, Except.bind, pure,
      Except.pure, Layout.add, Layout.addLabel, Layout.empty]
  obtain ⟨hmore, -, -, hagain⟩ := first_error_decides ".code\n:a\n:a"
  obtain ⟨-, hundefined, -, -⟩ := first_error_decides ".code PI :b\nPI :a :a"
  have happended := hmore _ htwice (by simp) (by simp) "PI :b 'x"
  refine ⟨⟨happended, hagain 3 "a" 2 htwice⟩, (hundefined 1 "b").2 ?_⟩
  have htokens : (Scan.ofText ".code PI :b\nPI :a :a").tokens =
      [⟨".code", 1⟩, ⟨"PI", 1⟩, ⟨":b", 1⟩, ⟨"PI", 2⟩, ⟨":a", 2⟩, ⟨":a", 2⟩] := by decide +kernel
  let items : List (Token × Item) := [(⟨"PI", 1⟩, .byte 5), (⟨":b", 1⟩, .reference "b"),
    (⟨"PI", 2⟩, .byte 5), (⟨":a", 2⟩, .reference "a"), (⟨":a", 2⟩, .label .code "a")]
  have hsources : Sources (.statement .data) (Scan.ofText ".code PI :b\nPI :a :a").tokens items
      (.statement .code) := by
    rw [htokens]
    exact .cons (@TokenStep.directive _ .code _ rfl) (.cons (.push rfl) (.cons (.reference rfl)
      (.cons (.push rfl) (.cons (.reference rfl) (.cons (.label rfl) .nil)))))
  refine ⟨items, ⟨by decide +kernel, ⟨.code, hsources⟩, ?_⟩, [(⟨"PI", 1⟩, .byte 5)], ⟨":b", 1⟩, _,
    rfl, rfl, ?_, ?_⟩
  · exact ⟨by simp [items, symbolsOf, symbolsFrom], by decide, by decide⟩
  · simp [Defined, items, Item.label?]
  · simp

end WordMachine.Assembly

import WordMachine.Proofs.Assembly.Lines
import WordMachine.Proofs.Assembly.Spelling

/-!
# Spacing and lines decide nothing

Separators, comments and line breaks show in a scan only as the lines of its tokens. The lines are
handed on, to labels, to references and to errors, but nothing is ever decided by them. So the same
token texts are assembled alike, however they are spaced: `texts_decide`.

`Alike` compares two results that may have met different lines: both give related values, or both
fail with the same error apart from its lines (`Error.unlined`). Sequences and folds keep it
(`Alike.bind`, `alike_foldlM`). Along two such passes the layouts hold the same code and data, give
names the same addresses and have left the same room (`Layout.Alike`). Every item keeps this
(`alike_add`), hence every token (`alike_feed`), and at the end the same room is filled in with the
same addresses (`alike_toImage`).
-/

namespace WordMachine.Assembly

/-! ## Results up to lines -/

/-- The error with its lines forgotten: of which kind it is, and what it is about. -/
def Error.unlined : Error → Error
  | .unterminatedString _ => .unterminatedString 0
  | .badCharacter _ char => .badCharacter 0 char
  | .unknownDirective _ text => .unknownDirective 0 text
  | .unknownMnemonic _ text => .unknownMnemonic 0 text
  | .badRegister _ text => .badRegister 0 text
  | .badNumber _ text => .badNumber 0 text
  | .numberOutOfRange _ value => .numberOutOfRange 0 value
  | .missingOperand _ what => .missingOperand 0 what
  | .duplicateLabel _ name _ => .duplicateLabel 0 name 0
  | .undefinedLabel _ name => .undefinedLabel 0 name
  | .codeOverflow _ => .codeOverflow 0
  | .dataOverflow _ => .dataOverflow 0
  | .file path cause => .file path cause

/-- Both give values, which are related, or both fail with errors that differ in their lines at
most. -/
inductive Alike {α : Type} (R : α → α → Prop) : Except Error α → Except Error α → Prop where
  | ok {a b : α} : R a b → Alike R (.ok a) (.ok b)
  | error {e e' : Error} : e.unlined = e'.unlined → Alike R (.error e) (.error e')

section Results

variable {α β : Type} {R : α → α → Prop} {S : β → β → Prop} {x y : Except Error α}

/-- Results that are alike stay so behind steps that keep related values alike. -/
theorem Alike.bind {f g : α → Except Error β} (h : Alike R x y)
    (hk : ∀ a b, R a b → Alike S (f a) (g b)) : Alike S (x >>= f) (y >>= g) := by
  cases h with
  | ok hab => exact hk _ _ hab
  | error he => exact .error he

/-- Equal values are mapped to equal values. -/
theorem Alike.map (h : Alike (· = ·) x y) (f : α → β) : Alike (· = ·) (x.map f) (y.map f) := by
  cases h with
  | ok hab => exact .ok (congrArg f hab)
  | error he => exact .error he

/-- A choice that both sides make alike. -/
theorem alike_ite {c : Prop} [Decidable c] {x' y' : Except Error α} (h : Alike R x y)
    (h' : Alike R x' y') : Alike R (if c then x else x') (if c then y else y') := by
  split
  · exact h
  · exact h'

/-- Folds over related lists stay alike if their steps do. -/
theorem alike_foldlM {f g : β → α → Except Error β} {xs ys : List α} {b b' : β}
    (hstep : ∀ b b' x y, S b b' → R x y → Alike S (f b x) (g b' y)) (hxs : List.Forall₂ R xs ys)
    (hb : S b b') : Alike S (xs.foldlM f b) (ys.foldlM g b') := by
  -- along the two lists, with the results so far
  induction hxs generalizing b b' with
  | nil => exact .ok hb
  | cons hxy _ ih =>
    rw [List.foldlM_cons, List.foldlM_cons]
    exact (hstep _ _ _ _ hb hxy).bind fun _ _ => ih

end Results

/-! ## Reading a token -/

/-- Two tokens have the same text. -/
def Token.SameText (t t' : Token) : Prop := t.text = t'.text

section Read

variable {t t' : Token} (h : t.SameText t')
include h

/-- Whether a token is a word depends on its text only. -/
theorem alike_wordOf : Alike (· = ·) (wordOf t) (wordOf t') := by
  have htext : t.text = t'.text := h
  unfold wordOf
  rw [htext]
  cases number? t'.text with
  | none => exact .error rfl
  | some n => exact alike_ite (.ok rfl) (.error rfl)

/-- So do the words of a literal. -/
theorem alike_literalWords : Alike (· = ·) (literalWords t) (literalWords t') := by
  have htext : t.text = t'.text := h
  unfold literalWords
  rw [htext]
  refine Alike.map ?_ packBytes
  unfold charBytes
  cases (literalChars t'.text).find? fun c => 256 ≤ c.toNat with
  | none => exact .ok rfl
  | some c => exact .error rfl

/-- So does the instruction. -/
theorem alike_instructionOf : Alike (· = ·) (instructionOf t) (instructionOf t') := by
  have htext : t.text = t'.text := h
  unfold instructionOf
  rw [htext]
  dsimp only
  -- with a register behind a dot, or a mnemonic alone
  split
  · cases RegisterOp.ofMnemonic? _ with
    | none => exact .error rfl
    | some op =>
      cases register? _ with
      | none => exact .error rfl
      | some reg => exact .ok rfl
  · cases Opcode.ofMnemonic? t'.text with
    | none => exact .error rfl
    | some op => exact .ok rfl

/-- So does the section that a directive starts. -/
theorem alike_directive : Alike (· = ·) (directive t) (directive t') := by
  have htext : t.text = t'.text := h
  unfold directive
  rw [htext]
  exact alike_ite (.ok rfl) (alike_ite (.ok rfl) (.error rfl))

/-- So does the name of an entry. -/
theorem alike_dataName : Alike (· = ·) (dataName t) (dataName t') := by
  have htext : t.text = t'.text := h
  have hquoted : t.isQuoted = t'.isQuoted := by rw [Token.isQuoted, Token.isQuoted, htext]
  unfold dataName
  rw [htext, hquoted]
  exact alike_ite (.error rfl) (.ok rfl)

/-- So does a statement of the code. -/
theorem alike_codeStatement : Alike (· = ·) (codeStatement t) (codeStatement t') := by
  have htext : t.text = t'.text := h
  by_cases hcolon : ∃ name, t'.text.toList = ':' :: name
  · obtain ⟨name, hname⟩ := hcolon
    rw [codeStatement_of_colon hname, codeStatement_of_colon (htext ▸ hname)]
    exact .ok rfl
  · have hne := not_exists.1 hcolon
    rw [codeStatement_of_ne_colon hne, codeStatement_of_ne_colon (htext ▸ hne)]
    exact (alike_instructionOf h).map _

/-- So does the operand of a push. -/
theorem alike_pushOperand : Alike (· = ·) (pushOperand t) (pushOperand t') := by
  have htext : t.text = t'.text := h
  by_cases hcolon : ∃ name, t'.text.toList = ':' :: name
  · obtain ⟨name, hname⟩ := hcolon
    rw [pushOperand_of_colon hname, pushOperand_of_colon (htext ▸ hname)]
    exact .ok rfl
  · have hne := not_exists.1 hcolon
    rw [pushOperand_of_ne_colon hne, pushOperand_of_ne_colon (htext ▸ hne)]
    exact (alike_wordOf h).map _

/-- What a token adds, and what is expected after it, depends on its text only. -/
theorem alike_read (e : Expect) : Alike (· = ·) (e.read t) (e.read t') := by
  have htext : t.text = t'.text := h
  cases e with
  | statement area =>
    rw [read_statement, read_statement, htext]
    -- a dot makes a directive
    split
    · exact alike_directive h
    · cases area with
      | data => exact alike_dataName h
      | code => exact alike_codeStatement h
  | wordCount =>
    simp only [Expect.read, htext]
    split
    · exact .ok rfl
    · exact .error rfl
  | dataItem remaining =>
    have hquoted : t.isQuoted = t'.isQuoted := by rw [Token.isQuoted, Token.isQuoted, htext]
    rw [read_dataItem, read_dataItem, hquoted]
    refine Alike.map ?_ _
    split
    · exact alike_literalWords h
    · exact (alike_wordOf h).map _
  | operand => exact alike_pushOperand h

end Read

/-! ## Laying out -/

/-- The references leave the same room for the address of the same name. -/
def Reference.SameRoom (r r' : Reference) : Prop := r.position = r'.position ∧ r.name = r'.name

/-- The layouts differ at most in the lines that they remember. -/
structure Layout.Alike (l l' : Layout) : Prop where
  code_eq : l.code = l'.code
  data_eq : l.data = l'.data
  address_eq : ∀ name : String,
    l.labels[name]?.map Label.address = l'.labels[name]?.map Label.address
  rooms : List.Forall₂ Reference.SameRoom l.references.toList l'.references.toList

section Layouts

variable {l l' : Layout} (h : l.Alike l')
include h

/-- A byte finds room in both layouts or in neither. -/
theorem alike_addByte (line line' : Nat) (b : UInt8) :
    Alike Layout.Alike (l.addByte line b) (l'.addByte line' b) := by
  unfold Layout.addByte
  rw [h.code_eq]
  exact alike_ite (.ok { h with code_eq := rfl }) (.error rfl)

/-- A word does. -/
theorem alike_addWord (line line' : Nat) (w : Word) :
    Alike Layout.Alike (l.addWord line w) (l'.addWord line' w) := by
  unfold Layout.addWord
  rw [h.data_eq]
  exact alike_ite (.ok { h with data_eq := rfl }) (.error rfl)

/-- The sections reach equally far. -/
theorem extent_of_alike (area : Area) : l.extent area = l'.extent area := by
  cases area with
  | data => exact congrArg Array.size h.data_eq
  | code => exact congrArg Array.size h.code_eq

/-- A name is free in both layouts or in neither, and gets the same address. -/
theorem alike_addLabel (line line' : Nat) (area : Area) (name : String) :
    Alike Layout.Alike (l.addLabel line area name) (l'.addLabel line' area name) := by
  have hname := h.address_eq name
  unfold Layout.addLabel
  cases hl : l.labels[name]? with
  | none =>
    -- the name is free in both layouts, and the new label stands at the same place
    have hl' : l'.labels[name]? = none := by simpa [hl] using hname.symm
    rw [hl']
    refine .ok { h with address_eq := fun other => ?_ }
    rw [Std.ExtHashMap.getElem?_insert, Std.ExtHashMap.getElem?_insert, extent_of_alike h area]
    split
    · rfl
    · exact h.address_eq other
  | some first =>
    obtain ⟨first', hl', -⟩ : ∃ first', l'.labels[name]? = some first' ∧ _ := by
      simpa [hl] using hname.symm
    rw [hl']
    exact .error rfl

/-- An item is added to both layouts, or can be added to neither. -/
theorem alike_add (line line' : Nat) (item : Item) :
    Alike Layout.Alike (l.add line item) (l'.add line' item) := by
  cases item with
  | label area name => exact alike_addLabel h line line' area name
  | word w => exact alike_addWord h line line' w
  | byte b => exact alike_addByte h line line' b
  | reference name =>
    -- the reference remembers its own line; the room is the same
    have hroom : Layout.Alike
        { l with references := l.references.push ⟨l.code.size, name, line⟩ }
        { l' with references := l'.references.push ⟨l'.code.size, name, line'⟩ } := by
      refine { h with rooms := ?_ }
      rw [Array.toList_push, Array.toList_push]
      exact List.rel_append h.rooms (.cons ⟨by rw [h.code_eq], rfl⟩ .nil)
    exact (alike_addByte hroom line line' 0).bind fun _ _ h₁ => alike_addByte h₁ line line' 0

/-- Room is filled in with the same address, or its name has none in both layouts. -/
theorem alike_resolveIn (code : Array UInt8) {r r' : Reference} (hr : r.SameRoom r') :
    Alike (· = ·) (Layout.resolveIn l.labels code r) (Layout.resolveIn l'.labels code r') := by
  obtain ⟨hposition, hname⟩ := hr
  have haddress := h.address_eq r.name
  unfold Layout.resolveIn
  rw [← hname, ← hposition]
  cases hl : l.labels[r.name]? with
  | none =>
    have hl' : l'.labels[r.name]? = none := by simpa [hl] using haddress.symm
    rw [hl']
    exact .error rfl
  | some label =>
    obtain ⟨label', hl', hlabel⟩ : ∃ label', l'.labels[r.name]? = some label' ∧
        label'.address = label.address := by simpa [hl] using haddress.symm
    rw [hl']
    refine .ok ?_
    rw [hlabel]

/-- The layouts give the same image, or both lack the address of a name. -/
theorem alike_toImage : Alike (· = ·) l.toImage l'.toImage := by
  have hcode : Alike (· = ·) (l.references.toList.foldlM (Layout.resolveIn l.labels) l.code)
      (l'.references.toList.foldlM (Layout.resolveIn l'.labels) l'.code) := by
    refine alike_foldlM ?_ h.rooms h.code_eq
    rintro code _ r r' rfl hr
    exact alike_resolveIn h code hr
  refine hcode.bind ?_
  rintro code _ rfl
  rw [h.data_eq]
  exact .ok rfl

end Layouts

/-! ## The pass -/

/-- The passes expect the same and have laid out the same, up to lines. -/
structure Progress.Alike (p p' : Progress) : Prop where
  expect_eq : p.expect = p'.expect
  layout : p.layout.Alike p'.layout

/-- The two passes start alike. -/
theorem alike_start : Progress.Alike .start .start :=
  ⟨rfl, rfl, rfl, fun _ => rfl, .nil⟩

/-- Tokens with the same text take both passes further, or end both. -/
theorem alike_feed {p p' : Progress} {t t' : Token} (h : p.Alike p') (ht : t.SameText t') :
    Alike Progress.Alike (p.feed t) (p'.feed t') := by
  have hread : Alike (· = ·) (p.expect.read t) (p'.expect.read t') :=
    h.expect_eq ▸ alike_read ht p.expect
  refine hread.bind ?_
  rintro ⟨items, e⟩ _ rfl
  -- the same items are laid out, each on the line of its own token
  have hitems : List.Forall₂ (· = ·) items items := List.forall₂_same.2 fun _ _ => rfl
  refine (alike_foldlM ?_ hitems h.layout).bind fun l l' hl => .ok ⟨rfl, hl⟩
  rintro l l' item _ hl rfl
  exact alike_add hl t.line t'.line item

/-- Passes that are alike end alike, if no quote is open. -/
theorem alike_finish {p p' : Progress} (h : p.Alike p') :
    Alike (· = ·) (p.finish none) (p'.finish none) := by
  unfold Progress.finish
  rw [h.expect_eq]
  cases p'.expect.missing? with
  | none => exact alike_toImage h.layout
  | some what => exact .error rfl

/-- Texts without open quotes whose tokens have the same texts are assembled alike: both give the
same image, or both fail with the same error apart from its lines. -/
theorem texts_decide {s s' : String} (hs : (Scan.ofText s).unclosed = none)
    (hs' : (Scan.ofText s').unclosed = none) (htexts : Scan.texts s = Scan.texts s') :
    (∃ img, assemble s = .ok img ∧ assemble s' = .ok img) ∨
      ∃ e e', assemble s = .error e ∧ assemble s' = .error e' ∧ e.unlined = e'.unlined := by
  have htokens : List.Forall₂ Token.SameText (Scan.ofText s).tokens (Scan.ofText s').tokens := by
    rw [Scan.texts, Scan.texts, ← List.forall₂_eq_eq_eq, List.forall₂_map_left_iff,
      List.forall₂_map_right_iff] at htexts
    exact htexts
  have hpass := alike_foldlM (R := Token.SameText) (fun _ _ _ _ => alike_feed) htokens alike_start
  have himage : Alike (· = ·) (assemble s) (assemble s') := by
    refine hpass.bind fun p p' hp => ?_
    rw [hs, hs']
    exact alike_finish hp
  generalize assemble s = x, assemble s' = y at himage
  cases himage with
  | @ok img _ himg =>
    subst himg
    exact .inl ⟨img, rfl, rfl⟩
  | error he => exact .inr ⟨_, _, rfl, rfl, he⟩

/-- A name that is defined twice on one line is found as well with a comment, a comma and line
breaks in between. -/
theorem texts_decide_commented :
    Scan.texts ".code :a :a" = Scan.texts ".code ; twice\n:a,\n\n\t:a" ∧
      ∃ e, assemble ".code ; twice\n:a,\n\n\t:a" = .error e ∧
        e.unlined = .duplicateLabel 0 "a" 0 := by
  have htokens : (Scan.ofText ".code :a :a").tokens = [⟨".code", 1⟩, ⟨":a", 1⟩, ⟨":a", 1⟩] := by
    decide +kernel
  have hcode : (Expect.statement .data).read ⟨".code", 1⟩ = .ok ([], .statement .code) := by
    decide +kernel
  have hlabel : (Expect.statement .code).read ⟨":a", 1⟩ =
      .ok ([.label .code "a"], .statement .code) := (TokenStep.label rfl).read_eq_ok
  have htwice : assemble ".code :a :a" = .error (.duplicateLabel 1 "a" 1) := by
    simp [assemble, htokens, Progress.feed, Progress.start, hcode, hlabel, bind, Except.bind, pure,
      Except.pure, Layout.add, Layout.addLabel, Layout.empty]
  have htexts : Scan.texts ".code :a :a" = Scan.texts ".code ; twice\n:a,\n\n\t:a" := by
    decide +kernel
  refine ⟨htexts, ?_⟩
  rcases texts_decide (by decide +kernel) (by decide +kernel) htexts with ⟨_, hok, -⟩ |
    ⟨e, e', he, he', hsame⟩
  · rw [htwice] at hok
    cases hok
  · obtain rfl := Except.error.inj (htwice.symm.trans he)
    exact ⟨e', he', hsame.symm⟩

end WordMachine.Assembly

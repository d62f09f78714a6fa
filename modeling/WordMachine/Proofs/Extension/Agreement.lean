import WordMachine.Proofs.Extension.Serving
import WordMachine.Proofs.Machine.Registers
import WordMachine.Extension.Script

/-!
# The bridge agrees with the machine

The bridge serves register requests from a private copy and goes on after a fault, so at every
moment its machine differs from the one that is served at once. `Tracks` is what ties the two
together while no fault has been remembered: the machine served at once is the bridge's machine with
the copy written back, and the copy's stack pointer reads as the live one. Every request of a
utility that leaves register 31 alone keeps this or faults on both sides (`outcome_of_tracks`), and
from the first fault on the bridge cannot forget it (`fault_drive`). So both ways of serving come to
the same outcome (`runBridged_agrees_runDirect`). The full stack is no exception: its pointer reads
as zero in both, and a copy whose stack pointer reads as the live one leaves the stack alone.
-/

namespace WordMachine

/-! ## Strings pass the bridge -/

namespace Bridge

/-- A character that is a byte other than zero. -/
def IsTextByte (c : Char) : Prop := ∃ b : UInt8, b ≠ 0 ∧ c = Char.ofNat b.toNat

/-- The code of the character of a byte is the byte. -/
theorem toNat_ofNat_byte (b : UInt8) : (Char.ofNat b.toNat).toNat = b.toNat := by
  have hb := b.toNat_lt
  have hvalid : b.toNat.isValidChar := Or.inl (by omega)
  unfold Char.ofNat
  rw [dif_pos hvalid]
  rfl

/-- Reading a packed string adds nonzero bytes only. -/
theorem isTextByte_of_mem_packedChars (data : Segment Word) (a : Word) (words : Nat)
    (read : List Char) (hread : ∀ c ∈ read, IsTextByte c) :
    ∀ c ∈ Machine.packedChars data a words read, IsTextByte c := by
  -- by induction on the words left to read; what was read so far consists of nonzero bytes
  induction words generalizing a read with
  | zero => simpa [Machine.packedChars] using hread
  | succ words ih =>
    unfold Machine.packedChars
    dsimp only
    split
    · simpa using hread
    · rename_i hhigh
      have hfirst : IsTextByte (Char.ofNat (Word.high (data.get a)).toNat) := ⟨_, hhigh, rfl⟩
      split
      · intro c hc
        rcases List.mem_cons.1 (List.mem_reverse.1 hc) with rfl | hc
        · exact hfirst
        · exact hread c hc
      · rename_i hlow
        have hsecond : IsTextByte (Char.ofNat (Word.low (data.get a)).toNat) := ⟨_, hlow, rfl⟩
        exact ih (a + 1) _ (by simpa using ⟨hsecond, hfirst, hread⟩)

/-- A text of nonzero bytes passes the bridge unchanged. -/
theorem byteText?_of_isTextByte {cs : List Char} (h : ∀ c ∈ cs, IsTextByte c) :
    byteText? (String.ofList cs) = some (String.ofList cs) := by
  have hmap : cs.map (fun c => Char.ofNat (c.toNat % 256)) = cs := by
    conv => rhs; rw [← List.map_id cs]
    refine List.map_congr_left fun c hc => ?_
    obtain ⟨b, -, rfl⟩ := h c hc
    rw [toNat_ofNat_byte, Nat.mod_eq_of_lt b.toNat_lt]
    rfl
  -- the character zero would be that of a zero byte
  have hzero : Char.ofNat 0 ∉ cs := by
    intro hc
    obtain ⟨b, hb, he⟩ := h _ hc
    have : b.toNat = 0 := by rw [← toNat_ofNat_byte b, ← he]; rfl
    exact hb (UInt8.toNat_inj.1 this)
  unfold byteText?
  simp only [String.toList_ofList, hmap]
  rw [if_neg (by simpa using hzero)]

/-- Every string of the machine passes the bridge unchanged. -/
theorem byteText?_stringAt (m : Machine) (a : Word) :
    byteText? (Utility.Target.stringAt m a) = some (Utility.Target.stringAt m a) :=
  byteText?_of_isTextByte (isTextByte_of_mem_packedChars m.data a segmentSize [] (by simp))

end Bridge

namespace Utility

/-! ## Utilities that leave the stack pointer alone -/

/-- The utility reaches registers one at a time and never writes register 31. -/
inductive SparesStackPointer : Utility → Prop
  | done : SparesStackPointer .done
  | pop {next : Word → Utility} (h : ∀ w, SparesStackPointer (next w)) :
    SparesStackPointer (.pop next)
  | push {next : Utility} (w : Word) (h : SparesStackPointer next) :
    SparesStackPointer (.push w next)
  | read {next : Word → Utility} (a : Word) (h : ∀ w, SparesStackPointer (next w)) :
    SparesStackPointer (.read a next)
  | write {next : Utility} (a w : Word) (h : SparesStackPointer next) :
    SparesStackPointer (.write a w next)
  | string {next : Option String → Utility} (a : Word) (h : ∀ t, SparesStackPointer (next t)) :
    SparesStackPointer (.string a next)
  | reg {next : Word → Utility} (i : RegIndex) (h : ∀ w, SparesStackPointer (next w)) :
    SparesStackPointer (.reg i next)
  | setReg {next : Utility} {i : RegIndex} (hi : i ≠ .stackPointer) (w : Word)
    (h : SparesStackPointer next) : SparesStackPointer (.setReg i w next)
  | enter {next : Utility} (a : Word) (h : SparesStackPointer next) :
    SparesStackPointer (.enter a next)
  | print {next : Utility} (text : String) (h : SparesStackPointer next) :
    SparesStackPointer (.print text next)
  | note {next : Utility} (o : Observation) (h : SparesStackPointer next) :
    SparesStackPointer (.note o next)

/-- A script without a write to register 31 leaves the stack pointer alone, whatever it sees. -/
theorem sparesStackPointer_toUtilityFrom {p : Script} (last : Word)
    (h : ∀ w, Action.setReg .stackPointer w ∉ p) : SparesStackPointer (p.toUtilityFrom last) := by
  induction p generalizing last with
  | nil => exact .done
  | cons act rest ih =>
    have hrest : ∀ last, SparesStackPointer (Script.toUtilityFrom last rest) := fun last =>
      ih last fun w hw => h w (List.mem_cons_of_mem _ hw)
    cases act with
    | pop => exact .pop fun w => .note _ (hrest w)
    | push w => exact .push _ (hrest last)
    | read a => exact .read a fun w => .note _ (hrest w)
    | write a w => exact .write a _ (hrest last)
    | string a => exact .string a fun t => .note _ (hrest last)
    | reg i => exact .reg i fun w => .note _ (hrest w)
    | setReg i w =>
      have hi : i ≠ .stackPointer := by
        rintro rfl
        exact h w (List.mem_cons_self ..)
      exact .setReg hi _ (hrest last)
    | enter a => exact .enter a (hrest last)

/-! ## The two ways of serving in step -/

/-- A scope served at once is the bridge's scope with the copy of the registers written back; no
fault has been remembered, and the copy's stack pointer reads as the live one. -/
structure Tracks (s : Scope) (b : Bridge) : Prop where
  fault : b.fault = none
  pointer : b.regs.read .stackPointer = b.scope.machine.stack.pointer
  scope : s = b.scope.withRegisters b.regs

/-- A bridge tracks the scope it starts on. -/
theorem tracks_ofScope (s : Scope) : Tracks s (.ofScope s) where
  fault := rfl
  pointer := s.machine.read_registers .stackPointer
  scope := by
    change s = s.withRegisters s.machine.registers
    rw [Scope.withRegisters, Machine.setRegisters_registers]

variable {s : Scope} {b : Bridge}

/-- Sides in step have the same stack. -/
theorem Tracks.stack_eq (h : Tracks s b) : s.machine.stack = b.scope.machine.stack := by
  rw [h.scope, Scope.withRegisters, Machine.setRegisters_of_pointer h.pointer]

/-- Sides in step have the same data. -/
theorem Tracks.read_eq (h : Tracks s b) (a : Word) :
    Target.read s.machine a = Target.read b.scope.machine a := by
  rw [h.scope]
  rfl

/-- Sides in step have the same strings. -/
theorem Tracks.stringAt_eq (h : Tracks s b) (a : Word) :
    Target.stringAt s.machine a = Target.stringAt b.scope.machine a := by
  rw [h.scope]
  rfl

/-- The registers served at once are those of the bridge's copy. -/
theorem Tracks.registers_eq (h : Tracks s b) : Target.registers s.machine = b.regs := by
  rw [h.scope]
  exact Machine.registers_setRegisters _ _

/-- A new stack on both sides keeps them in step once the copy's stack pointer is up to date. -/
theorem Tracks.withStack (h : Tracks s b) (st : Stack) :
    Tracks (s.withStack st) (Bridge.syncStackPointer ⟨b.scope.withStack st, b.regs, b.fault⟩) where
  fault := h.fault
  pointer := RegisterFile.read_write_self b.regs .stackPointer st.pointer
  scope := by
    -- the entries other than the stack pointer are those of the old copy
    have hip : (b.regs.write .stackPointer st.pointer).read .instructionPointer =
        b.regs.read .instructionPointer := RegisterFile.read_write_of_ne _ _ (by decide)
    have hgeneral : ∀ i : Fin 31, (b.regs.write .stackPointer st.pointer).read (i.castAdd 2) =
        b.regs.read (i.castAdd 2) := by
      intro i
      refine RegisterFile.read_write_of_ne _ _ fun e => ?_
      have hval : 31 = i.val := congrArg Fin.val e
      omega
    have hpointer : (b.regs.write .stackPointer st.pointer).read .stackPointer =
        (b.scope.withStack st).machine.stack.pointer := RegisterFile.read_write_self ..
    simp only [Bridge.syncStackPointer, Scope.withRegisters]
    rw [h.scope, Scope.withRegisters, Machine.setRegisters_of_pointer h.pointer]
    change _ = Scope.mk (Machine.setRegisters _ (b.regs.write .stackPointer st.pointer)) _ _
    rw [Machine.setRegisters_of_pointer hpointer, hip, funext hgeneral]
    rfl

/-- A data word written on both sides keeps them in step. -/
theorem Tracks.withData (h : Tracks s b) (a w : Word) :
    Tracks (s.withData a w) { b with scope := b.scope.withData a w } where
  fault := h.fault
  pointer := h.pointer
  scope := by
    rw [h.scope]
    rfl

/-- A register file written at once and into the copy keeps the sides in step, if it does not move
the stack pointer. -/
theorem Tracks.withRegisters (h : Tracks s b) {r : RegisterFile}
    (hr : r.read .stackPointer = b.regs.read .stackPointer) :
    Tracks (s.withRegisters r) { b with regs := r } where
  fault := h.fault
  pointer := hr.trans h.pointer
  scope := by
    -- written back, the old copy left the stack alone, so only the new one counts
    rw [h.scope]
    simp only [Scope.withRegisters]
    rw [Machine.setRegisters_setRegisters r h.pointer]

/-- A stack request succeeds on both sides with the same answer, or faults on both. -/
theorem Tracks.onStack_cases {α : Type} (h : Tracks s b) (act : Stack.Op α) (otherwise : α) :
    (∃ x t b', onMachine (Machine.onStack act) s = .ok x t ∧
      b.onStack (Machine.onStack act) otherwise = (x, b') ∧ Tracks t b') ∨
    (∃ e t b', onMachine (Machine.onStack act) s = .error e t ∧
      b.onStack (Machine.onStack act) otherwise = (otherwise, b') ∧ b'.fault = some e) := by
  cases hact : act b.scope.machine.stack with
  | ok x st =>
    have hs := onMachine_onStack_of_ok (h.stack_eq ▸ hact)
    exact .inl ⟨x, _, _, hs, Bridge.onStack_of_ok (onMachine_onStack_of_ok hact), h.withStack st⟩
  | error e st =>
    have hs := onMachine_onStack_of_error (h.stack_eq ▸ hact)
    refine .inr ⟨e, _, _, hs, Bridge.onStack_of_error (onMachine_onStack_of_error hact), ?_⟩
    simp [Bridge.record, h.fault]

/-! ## A remembered fault stays -/

/-- A stack request does not displace a fault that is remembered. -/
theorem fault_onStack {α : Type} {e : Fault} (act : Machine.Op α) (otherwise : α)
    (h : b.fault = some e) : (b.onStack act otherwise).2.fault = some e := by
  cases hact : onMachine act b.scope with
  | ok x t => rw [Bridge.onStack_of_ok hact]; exact h
  | error e' t => rw [Bridge.onStack_of_error hact]; simp [Bridge.record, h]

/-- Whatever is served afterwards, the first fault is the one remembered. -/
theorem fault_drive (strings : Machine → Word → String) (u : Utility) {e : Fault}
    (h : b.fault = some e) : (u.drive strings b).fault = some e := by
  induction u generalizing b with
  | done => exact h
  | pop next ih => exact ih _ (fault_onStack _ _ h)
  | push w next ih => exact ih (fault_onStack _ _ h)
  | read a next ih => exact ih _ h
  | write a w next ih => exact ih (b := { b with scope := b.scope.withData a w }) h
  | string a next ih => exact ih _ h
  | registers next ih => exact ih _ h
  | setRegisters r next ih => exact ih (b := { b with regs := r }) h
  | enter a next ih => exact ih (b := b.record _) (by simp [Bridge.record, h])
  | print text next ih =>
    exact ih (b := { b with scope := { b.scope with printed := b.scope.printed ++ text } }) h
  | note o next ih =>
    exact ih (b := { b with scope := { b.scope with notes := b.scope.notes.push o } }) h

/-! ## Whole utilities -/

/-- How a utility served at once and the bridge that serves it end alike: in step, or with the same
fault. -/
def EndsAlike (r : EStateM.Result Fault Scope Unit) (b : Bridge) : Prop :=
  (∃ t, r = .ok () t ∧ Tracks t b) ∨ ∃ e t, r = .error e t ∧ b.fault = some e

/-- From sides in step, a utility that leaves the stack pointer alone ends alike on both. -/
theorem outcome_of_tracks {u : Utility} (hu : SparesStackPointer u) (h : Tracks s b) :
    EndsAlike (u.runDirect s) (u.drive Target.stringAt b) := by
  -- by induction on the utility; each request keeps the sides in step or faults on both
  induction hu generalizing s b with
  | done => exact .inl ⟨s, rfl, h⟩
  | @pop next hnext ih =>
    rw [runDirect_pop, drive_pop]
    rcases h.onStack_cases Stack.pop 0 with ⟨w, t, b', hs, hb, ht⟩ | ⟨e, t, b', hs, hb, he⟩
    · rw [target_pop, hs, hb]
      exact ih w ht
    · rw [target_pop, hs, hb]
      exact .inr ⟨e, t, rfl, fault_drive _ _ he⟩
  | @push next w hnext ih =>
    rw [runDirect_push, drive_push]
    rcases h.onStack_cases (Stack.push w) () with ⟨_, t, b', hs, hb, ht⟩ | ⟨e, t, b', hs, hb, he⟩
    · rw [target_push, hs, hb]
      exact ih ht
    · rw [target_push, hs, hb]
      exact .inr ⟨e, t, rfl, fault_drive _ _ he⟩
  | read a hnext ih =>
    rw [runDirect_read, drive, h.read_eq]
    exact ih _ h
  | write a w hnext ih => exact ih (h.withData a w)
  | string a hnext ih =>
    rw [runDirect_string, drive, h.stringAt_eq, Bridge.byteText?_stringAt]
    exact ih _ h
  | @reg next i hnext ih =>
    rw [Utility.reg, runDirect_registers, drive, h.registers_eq]
    exact ih _ h
  | @setReg next i hi w hnext ih =>
    rw [Utility.setReg, runDirect_registers, drive, h.registers_eq]
    exact ih (h.withRegisters (RegisterFile.read_write_of_ne b.regs w hi))
  | @enter next a hnext ih =>
    -- refused at once on one side, remembered on the other, which goes on with the rest
    have he : (b.record (.reentryUnsupported a)).fault = some (.reentryUnsupported a) := by
      simp [Bridge.record, h.fault]
    exact .inr ⟨_, s, rfl, fault_drive Target.stringAt next he⟩
  | print text hnext ih =>
    obtain ⟨hf, hp, rfl⟩ := h
    exact ih ⟨hf, hp, rfl⟩
  | note o hnext ih =>
    obtain ⟨hf, hp, rfl⟩ := h
    exact ih ⟨hf, hp, rfl⟩

/-- A bridge in step with an outcome gives that outcome when it returns. -/
theorem runBridged_of_endsAlike {u : Utility} {s : Scope}
    (h : EndsAlike (u.runDirect s) (u.drive Target.stringAt (.ofScope s))) :
    (∃ t, u.runDirect s = .ok () t ∧ u.runBridged s = .ok () t) ∨
      ∃ e t t', u.runDirect s = .error e t ∧ u.runBridged s = .error e t' := by
  rcases h with ⟨t, hs, ht⟩ | ⟨e, t, hs, he⟩
  · exact .inl ⟨t, hs, ht.scope ▸ runBridgedWith_of_none ht.fault⟩
  · exact .inr ⟨e, t, _, hs, runBridgedWith_of_fault he⟩

/-- A script that never writes register 31 has the same outcome served on the machine itself and
through the bridge: the same machine, notes and printed text, or the same fault. -/
theorem runBridged_agrees_runDirect (s : Scope) (p : Script)
    (h : ∀ w, Action.setReg .stackPointer w ∉ p) :
    (∃ t, p.toUtility.runDirect s = .ok () t ∧ p.toUtility.runBridged s = .ok () t) ∨
      ∃ e t t', p.toUtility.runDirect s = .error e t ∧ p.toUtility.runBridged s = .error e t' :=
  runBridged_of_endsAlike
    (outcome_of_tracks (sparesStackPointer_toUtilityFrom 0 h) (tracks_ofScope s))

/-- The two agree on a script that reads the stack pointer while the stack leaves its full depth and
comes back to it. -/
theorem runBridged_agrees_runDirect_full :
    let s := Scope.ofMachine { (default : Machine) with stack := ⟨.fill 1, 65536, Nat.le_refl _⟩ }
    let p : Script := [.reg .stackPointer, .pop, .reg .stackPointer, .push none, .setReg 3 (some 9)]
    (∀ w, Action.setReg .stackPointer w ∉ p) ∧
      ((∃ t, p.toUtility.runDirect s = .ok () t ∧ p.toUtility.runBridged s = .ok () t) ∨
        ∃ e t t', p.toUtility.runDirect s = .error e t ∧
          p.toUtility.runBridged s = .error e t') := by
  have h : ∀ w, Action.setReg .stackPointer w ∉
      [.reg .stackPointer, .pop, .reg .stackPointer, .push none, .setReg 3 (some 9)] := by
    simp [RegIndex.stackPointer]
  exact ⟨h, runBridged_agrees_runDirect _ _ h⟩

end Utility

end WordMachine

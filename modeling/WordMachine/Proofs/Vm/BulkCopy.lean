import WordMachine.Proofs.Memory.Segments
import WordMachine.Proofs.Save.Contents
import WordMachine.Proofs.Vm.Storage

/-!
# Copies between save slots and data

Two services copy a range of words: one from the slots to the data, one the other way. Both pop an
address, a length and a first slot, and check the range of data before they turn to the store, which
checks the range of slots. So of two ranges that do not fit, that of the data is reported
(`interrupt_outside_memory`, `interrupt_outside_slots`), and nothing has been written then.

Ranges that fit are copied word by word, and nothing else changes (`exists_copiedToMemory`,
`exists_copiedToSlots`). Both are read off the cells of `Segment.setAll` and the slots of
`Slots.splice`. The condition that the save file can be accessed is `SaveStore.UsableFor`.

Words that are copied to the slots and back to other data arrive there. In between the store may be
closed and opened again, since its slots outlive that (`SaveStore.Attached.contents_served`).
-/

namespace WordMachine.Vm

open SaveStore (contents UsableFor Attached Request served)

variable {α : Type} {vm : Vm} {service : Service} {address length start : Word}

/-- The stack holds what an interrupt needs that copies words: the selector of the service, the
address of the data, the number of words and the first slot. -/
def AsksFor (service : Service) (address length start : Word) (vm : Vm) : Prop :=
  ∃ rest, vm.machine.stack.live = service.selector :: address :: length :: start :: rest

/-! ## Operands -/

/-- An action that pops a word goes on with the one on top. -/
theorem pop_bind_of_live {w : Word} {rest : List Word} {k : Word → Op α}
    (h : vm.machine.stack.live = w :: rest) :
    (pop >>= k) vm = k w { vm with machine := vm.machine.spend 1 } := by
  have hpop : pop vm = .ok w _ := onMachine_of_ok vm (Machine.pop_of_live h)
  exact bind_of_ok hpop

/-- An interrupt with a selector that is assigned serves what it asks for. -/
theorem interrupt_of_live {rest : List Word}
    (h : vm.machine.stack.live = service.selector :: rest) :
    interrupt vm = serve service { vm with machine := vm.machine.spend 1 } := by
  refine (pop_bind_of_live h).trans ?_
  rw [Service.ofSelector?_selector]

/-- A service that pops three operands finds them below its selector. -/
theorem interrupt_of_asksFor {k : Word → Word → Word → Op Unit}
    (h : AsksFor service address length start vm)
    (hserve : serve service = (do
      let a ← pop
      let n ← pop
      let s ← pop
      k a n s)) :
    interrupt vm = k address length start { vm with machine := vm.machine.spend 4 } := by
  obtain ⟨rest, hlive⟩ := h
  have h₁ := Machine.live_spend_of_live hlive
  have h₂ := Machine.live_spend_of_live h₁
  have h₃ := Machine.live_spend_of_live h₂
  rw [interrupt_of_live hlive, hserve]
  refine (pop_bind_of_live h₁).trans ((pop_bind_of_live h₂).trans ((pop_bind_of_live h₃).trans ?_))
  simp only [Machine.spend_spend]

/-- What an interrupt does that copies slots to the data, with the operands taken off the stack. -/
theorem interrupt_saveToMemory (h : AsksFor .saveToMemory address length start vm) :
    interrupt vm = (do
      let _ ← check (vm.machine.dataRange address length)
      let words ← onSave (SaveStore.readRange start length.toNat)
      modifyMachine fun m => { m with data := m.data.setAll address words } : Op Unit)
        { vm with machine := vm.machine.spend 4 } :=
  interrupt_of_asksFor h rfl

/-- What an interrupt does that copies data to the slots. -/
theorem interrupt_memoryToSave (h : AsksFor .memoryToSave address length start vm) :
    interrupt vm = (do
      let words ← check (vm.machine.dataRange address length)
      onSave (SaveStore.writeRange start words) : Op Unit)
        { vm with machine := vm.machine.spend 4 } :=
  interrupt_of_asksFor h rfl

/-- Where the save store succeeds, the virtual machine goes on with the store and the host it
leaves. -/
theorem onSave_of_ok (vm : Vm) {act : SaveStore.Op α} {x : α} {s : SaveStore × Host}
    (h : act vm.storage = .ok x s) :
    onSave act vm = .ok x { vm with save := s.1, host := s.2 } := by
  have hact : act (vm.save, vm.host) = .ok x s := h
  rw [onSave_eq, hact, mapState_ok]

/-- Where the save store fails, so does the virtual machine, with the store and the host left. -/
theorem onSave_of_error (vm : Vm) {act : SaveStore.Op α} {e : Fault} {s : SaveStore × Host}
    (h : act vm.storage = .error e s) :
    onSave act vm = .error e { vm with save := s.1, host := s.2 } := by
  have hact : act (vm.save, vm.host) = .error e s := h
  rw [onSave_eq, hact, mapState_error]

/-! ## Ranges that do not fit -/

/-- A range of data that does not fit is reported before the slots are looked at. -/
theorem interrupt_outside_memory (hservice : service = .saveToMemory ∨ service = .memoryToSave)
    (h : AsksFor service address length start vm)
    (hout : segmentSize < address.toNat + length.toNat) :
    interrupt vm = .error (.memoryRangeOutOfBounds address length)
      { vm with machine := vm.machine.spend 4 } := by
  have hrange : vm.machine.dataRange address length =
      .error (.memoryRangeOutOfBounds address length) := if_neg (Nat.not_le.2 hout)
  rcases hservice with rfl | rfl
  · rw [interrupt_saveToMemory h, hrange]
    rfl
  · rw [interrupt_memoryToSave h, hrange]
    rfl

section

variable (hmemory : address.toNat + length.toNat ≤ segmentSize)

include hmemory

/-- A check of a range of data that fits gives its words to what follows. -/
theorem check_dataRange_bind (m : Machine) (k : List Word → Op α) (vm : Vm) :
    (check (m.dataRange address length) >>= k) vm = k (m.data.slice address length.toNat) vm := by
  have hrange : m.dataRange address length = .ok (m.data.slice address length.toNat) :=
    if_pos hmemory
  rw [hrange]
  rfl

/-- The slots are checked before the file is touched. -/
theorem interrupt_outside_slots (hservice : service = .saveToMemory ∨ service = .memoryToSave)
    (h : AsksFor service address length start vm)
    (hout : saveSlots < start.toNat + length.toNat) :
    interrupt vm = .error (.saveRangeOutOfBounds start length)
      { vm with machine := vm.machine.spend 4 } := by
  have hnot : ¬ start.toNat + length.toNat ≤ saveSlots := Nat.not_le.2 hout
  have hword : UInt16.ofNat length.toNat = length := UInt16.ofNat_toNat
  rcases hservice with rfl | rfl
  · rw [interrupt_saveToMemory h, check_dataRange_bind hmemory]
    have hread := SaveStore.readRange_outside hnot vm.storage
    rw [hword] at hread
    exact bind_of_error (onSave_of_error { vm with machine := vm.machine.spend 4 } hread)
  · rw [interrupt_memoryToSave h, check_dataRange_bind hmemory]
    have hlength := Segment.length_slice vm.machine.data hmemory
    have hwrite := SaveStore.writeRange_outside (hlength.symm ▸ hnot) vm.storage
    rw [hlength, hword] at hwrite
    exact onSave_of_error { vm with machine := vm.machine.spend 4 } hwrite

end

/-! ## Ranges that fit -/

/-- Slots have been copied to the data: the cells of the range hold the words of the slots, and no
other cell and no slot has changed. -/
structure CopiedToMemory (address length start : Word) (vm vm' : Vm) : Prop where
  words : ∀ i < length.toNat, (contents vm.storage)[start.toNat + i]? =
    some (vm'.machine.data.get (address + UInt16.ofNat i))
  data : ∀ a : Word, a.toNat < address.toNat ∨ address.toNat + length.toNat ≤ a.toNat →
    vm'.machine.data.get a = vm.machine.data.get a
  slots : contents vm'.storage = contents vm.storage

/-- Data has been copied to the slots: the slots of the range hold the words of the cells, and no
other slot and no cell has changed. -/
structure CopiedToSlots (address length start : Word) (vm vm' : Vm) : Prop where
  words : ∀ i < length.toNat, (contents vm'.storage)[start.toNat + i]? =
    some (vm.machine.data.get (address + UInt16.ofNat i))
  slots : ∀ k : Nat, k < start.toNat ∨ start.toNat + length.toNat ≤ k →
    (contents vm'.storage)[k]? = (contents vm.storage)[k]?
  data : vm'.machine.data = vm.machine.data

/-- What a service that copies words does. -/
def Copied (service : Service) (address length start : Word) (vm vm' : Vm) : Prop :=
  (service = .saveToMemory → CopiedToMemory address length start vm vm') ∧
    (service = .memoryToSave → CopiedToSlots address length start vm vm')

section

variable (hmemory : address.toNat + length.toNat ≤ segmentSize)
  (hslots : start.toNat + length.toNat ≤ saveSlots)

include hmemory hslots

/-- Slots are copied to the data, if both ranges fit and the save file can be accessed. -/
theorem exists_copiedToMemory (h : AsksFor .saveToMemory address length start vm)
    (husable : UsableFor length.toNat vm.storage) :
    ∃ vm', interrupt vm = .ok () vm' ∧ CopiedToMemory address length start vm vm' := by
  obtain ⟨s, hread, hcontents⟩ := SaveStore.readRange_of_usable husable hslots
  have hlength := (contents vm.storage).length_range hslots
  rw [interrupt_saveToMemory h, check_dataRange_bind hmemory]
  refine ⟨_, bind_of_ok (onSave_of_ok { vm with machine := vm.machine.spend 4 } hread), ?_⟩
  have hget (a : Word) := vm.machine.data.get_setAll (hlength.symm ▸ hmemory) a
  refine ⟨fun i hi => ?_, fun a ha => ?_, hcontents⟩
  · -- the cell that the word of the slot falls on
    have hcell : (address + UInt16.ofNat i).toNat = address.toNat + i :=
      Segment.toNat_add_ofNat (by omega)
    have hslot : (contents vm.storage)[start.toNat + i]? =
        some (contents vm.storage)[start.toNat + i] := Vector.getElem?_eq_getElem (by omega)
    refine Eq.trans ?_ (congrArg some (hget _).symm)
    rw [hcell, if_pos (Nat.le_add_right _ _), Nat.add_sub_cancel_left,
      SaveStore.Slots.getElem?_range _ hi, hslot]
    rfl
  · -- outside of the range no word falls on the cell
    refine (hget a).trans ?_
    split
    · rw [List.getElem?_eq_none (by omega)]
      rfl
    · rfl

/-- The store has served a request to write, and can still be accessed. -/
theorem exists_copiedToSlots (h : AsksFor .memoryToSave address length start vm)
    (husable : UsableFor length.toNat vm.storage)
    (htakes : vm.host.disk.Takes (2 * length.toNat)) :
    ∃ vm', interrupt vm = .ok () vm' ∧ CopiedToSlots address length start vm vm' ∧
      UsableFor length.toNat vm'.storage ∧ vm'.storage = stateOf (SaveStore.serve
        (.writeRange start (vm.machine.data.slice address length.toNat)) vm.storage) := by
  have hlength := vm.machine.data.length_slice hmemory
  have hfits : start.toNat + (vm.machine.data.slice address length.toNat).length ≤ saveSlots := by
    rw [hlength]
    exact hslots
  rw [← hlength] at husable htakes
  obtain ⟨s, hwrite, hcontents, husable'⟩ := SaveStore.writeRange_of_usable husable htakes hfits
  rw [hlength] at husable'
  rw [interrupt_memoryToSave h, check_dataRange_bind hmemory]
  refine ⟨_, onSave_of_ok { vm with machine := vm.machine.spend 4 } hwrite, ?_, husable', ?_⟩
  · -- the slots of the range hold the words, and the others are as before
    refine ⟨fun i hi => ?_, fun k hk => ?_, rfl⟩
    · refine (congrArg (·[start.toNat + i]?) hcontents).trans ?_
      rw [SaveStore.Slots.getElem?_splice_inside _ hfits (by rw [hlength]; exact hi),
        vm.machine.data.getElem?_slice hmemory hi]
    · refine (congrArg (·[k]?) hcontents).trans ?_
      exact SaveStore.Slots.getElem?_splice_outside _ (by rw [hlength]; exact hk)
  · rw [SaveStore.serve, stateOf_bind_pure, hwrite]
    rfl

end

/-- How an interrupt that copies words can end. -/
theorem copy_cases (hservice : service = .saveToMemory ∨ service = .memoryToSave)
    (h : AsksFor service address length start vm) (husable : UsableFor length.toNat vm.storage)
    (htakes : service = .memoryToSave → vm.host.disk.Takes (2 * length.toNat)) :
    (segmentSize < address.toNat + length.toNat ∧
      interrupt vm = .error (.memoryRangeOutOfBounds address length)
        { vm with machine := vm.machine.spend 4 }) ∨
    (address.toNat + length.toNat ≤ segmentSize ∧ saveSlots < start.toNat + length.toNat ∧
      interrupt vm = .error (.saveRangeOutOfBounds start length)
        { vm with machine := vm.machine.spend 4 }) ∨
    (address.toNat + length.toNat ≤ segmentSize ∧ start.toNat + length.toNat ≤ saveSlots ∧
      ∃ vm', interrupt vm = .ok () vm' ∧ Copied service address length start vm vm') := by
  -- the range of data is checked first
  by_cases hmemory : address.toNat + length.toNat ≤ segmentSize
  · by_cases hslots : start.toNat + length.toNat ≤ saveSlots
    · refine .inr (.inr ⟨hmemory, hslots, ?_⟩)
      rcases hservice with rfl | rfl
      · obtain ⟨vm', hok, hcopied⟩ := exists_copiedToMemory hmemory hslots h husable
        exact ⟨vm', hok, fun _ => hcopied, by rintro ⟨⟩⟩
      · obtain ⟨vm', hok, hcopied, -⟩ := exists_copiedToSlots hmemory hslots h husable (htakes rfl)
        exact ⟨vm', hok, (by rintro ⟨⟩), fun _ => hcopied⟩
    · have hout := Nat.lt_of_not_le hslots
      exact .inr (.inl ⟨hmemory, hout, interrupt_outside_slots hmemory hservice h hout⟩)
  · have hout := Nat.lt_of_not_le hmemory
    exact .inl ⟨hout, interrupt_outside_memory hservice h hout⟩

/-! ## There and back -/

/-- The slots of a store that serves requests which write nothing stay, and can be accessed. -/
theorem kept_of_served {n : Nat} {s t : SaveStore × Host} {requests : List Request}
    (hkeeps : ∀ r ∈ requests, r.Keeps) (h : requests = [] ∧ UsableFor n s ∨ ∃ path, Attached path s)
    (hstore : t.1 = (served requests s).1) (hdisk : t.2.disk = (served requests s).2.disk) :
    contents t = contents s ∧ UsableFor n t := by
  rw [SaveStore.contents_congr hstore hdisk]
  -- nothing was asked of the store, or it is attached to its file and finds it again
  rcases h with ⟨rfl, husable⟩ | ⟨path, hattached⟩
  · exact ⟨rfl, fun hpos => (husable hpos).congr hstore hdisk⟩
  · refine ⟨hattached.contents_served hkeeps, fun _ => ?_⟩
    exact (hattached.served requests).usable.congr hstore hdisk

/-- Words copied to the slots and from there to another address arrive there. -/
theorem exists_copied_back {address' : Word} {vm₁ vm₂ : Vm}
    (hcopied : CopiedToSlots address length start vm vm₁)
    (hkept : contents vm₂.storage = contents vm₁.storage ∧ UsableFor length.toNat vm₂.storage)
    (hmemory : address'.toNat + length.toNat ≤ segmentSize)
    (hslots : start.toNat + length.toNat ≤ saveSlots)
    (h : AsksFor .saveToMemory address' length start vm₂) :
    ∃ vm₃, interrupt vm₂ = .ok () vm₃ ∧
      (∀ i < length.toNat, vm₃.machine.data.get (address' + UInt16.ofNat i) =
        vm.machine.data.get (address + UInt16.ofNat i)) ∧
      ∀ a : Word, a.toNat < address'.toNat ∨ address'.toNat + length.toNat ≤ a.toNat →
        vm₃.machine.data.get a = vm₂.machine.data.get a := by
  obtain ⟨vm₃, hok, hback⟩ := exists_copiedToMemory hmemory hslots h hkept.2
  refine ⟨vm₃, hok, fun i hi => ?_, hback.data⟩
  have hword := hback.words i hi
  rw [hkept.1, hcopied.words i hi] at hword
  exact (Option.some.inj hword).symm

/-- An interrupt that copies words between the slots and the data, while the save file can be
accessed and, for words that go there, the disk has room. It reports the range of data exactly if
that does not fit, and the range of slots exactly if only that does not; a fault changes neither
data nor slots. Otherwise it copies the words and changes no other cell or slot. So words that are
copied to the slots, and from the same slots back to any other address, arrive there, whatever the
machine does in between, and also if the store has been closed and opened again or made anew, as
long as it writes no slot. -/
theorem bulk_copies :
    (∀ (service : Service) (address length start : Word) (vm : Vm),
      service = .saveToMemory ∨ service = .memoryToSave →
      AsksFor service address length start vm → UsableFor length.toNat vm.storage →
      (service = .memoryToSave → vm.host.disk.Takes (2 * length.toNat)) →
      ((∃ vm', interrupt vm = .error (.memoryRangeOutOfBounds address length) vm') ↔
        segmentSize < address.toNat + length.toNat) ∧
      ((∃ vm', interrupt vm = .error (.saveRangeOutOfBounds start length) vm') ↔
        address.toNat + length.toNat ≤ segmentSize ∧ saveSlots < start.toNat + length.toNat) ∧
      (∀ e vm', interrupt vm = .error e vm' →
        vm'.machine.data = vm.machine.data ∧ contents vm'.storage = contents vm.storage) ∧
      (address.toNat + length.toNat ≤ segmentSize → start.toNat + length.toNat ≤ saveSlots →
        ∃ vm', interrupt vm = .ok () vm' ∧ Copied service address length start vm vm')) ∧
    ∀ (address address' length start : Word) (vm : Vm),
      AsksFor .memoryToSave address length start vm → UsableFor length.toNat vm.storage →
      vm.host.disk.Takes (2 * length.toNat) →
      address.toNat + length.toNat ≤ segmentSize → address'.toNat + length.toNat ≤ segmentSize →
      start.toNat + length.toNat ≤ saveSlots →
      ∃ vm₁, interrupt vm = .ok () vm₁ ∧ ∀ (requests : List Request) (vm₂ : Vm),
        (∀ r ∈ requests, r.Keeps) → (requests = [] ∨ ∃ path, Attached path vm.storage) →
        vm₂.save = (served requests vm₁.storage).1 →
        vm₂.host.disk = (served requests vm₁.storage).2.disk →
        AsksFor .saveToMemory address' length start vm₂ →
        ∃ vm₃, interrupt vm₂ = .ok () vm₃ ∧
          (∀ i < length.toNat, vm₃.machine.data.get (address' + UInt16.ofNat i) =
            vm.machine.data.get (address + UInt16.ofNat i)) ∧
          ∀ a : Word, a.toNat < address'.toNat ∨ address'.toNat + length.toNat ≤ a.toNat →
            vm₃.machine.data.get a = vm₂.machine.data.get a := by
  constructor
  · intro service address length start vm hservice hasks husable htakes
    rcases copy_cases hservice hasks husable htakes with
      ⟨hout, hend⟩ | ⟨hmemory, hout, hend⟩ | ⟨hmemory, hslots, vm', hend, hcopied⟩
    · -- the range of data does not fit
      simp only [hend, EStateM.Result.error.injEq]
      refine ⟨by simpa using hout, ?_, ?_, by omega⟩
      · constructor
        · rintro ⟨_, hne, -⟩
          cases hne
        · omega
      · rintro e vm' ⟨-, rfl⟩
        exact ⟨rfl, rfl⟩
    · -- only the range of slots does not fit
      simp only [hend, EStateM.Result.error.injEq]
      refine ⟨?_, by simpa using ⟨hmemory, hout⟩, ?_, by omega⟩
      · constructor
        · rintro ⟨_, hne, -⟩
          cases hne
        · omega
      · rintro e vm' ⟨-, rfl⟩
        exact ⟨rfl, rfl⟩
    · -- both ranges fit
      simp only [hend, reduceCtorEq, exists_false, false_iff, false_imp_iff, implies_true]
      exact ⟨by omega, by omega, trivial, fun _ _ => ⟨vm', rfl, hcopied⟩⟩
  · -- there and back: what the store does in between keeps the slots
    intro address address' length start vm hasks husable htakes hmemory hmemory' hslots
    obtain ⟨vm₁, hsaved, hcopied, husable₁, hserved⟩ :=
      exists_copiedToSlots hmemory hslots hasks husable htakes
    refine ⟨vm₁, hsaved, fun requests vm₂ hkeeps hbetween hstore hdisk hasks₂ => ?_⟩
    refine exists_copied_back hcopied (kept_of_served hkeeps ?_ hstore hdisk) hmemory' hslots hasks₂
    rcases hbetween with rfl | ⟨path, hattached⟩
    · exact .inl ⟨rfl, husable₁⟩
    · exact .inr ⟨path, hserved ▸ (hattached.serves _).attached⟩

/-- Two words copied to the last two slots and, after the store has been closed, from there to
another address. The save file had another length before. From the last address of the data, two
words would pass its end. -/
theorem bulk_copies_reopened :
    let host : Host := ⟨⟨[(["p.sav"], .file 0)], #[⟨#[1, 2, 3]⟩], none⟩, .empty⟩
    let asks (service : Service) (address : Word) : Machine :=
      { (default : Machine) with
        data := ((Segment.fill 0).set 10 7).set 11 8
        stack := ⟨((((Segment.fill 0).set 0 254).set 1 2).set 2 address).set 3 service.selector, 4,
          by decide⟩ }
    let vm : Vm :=
      ofImage .empty ⟨.ofSink (.capture .unlimited), .ofPath "p.sav", .ofDirs [], []⟩ host
    (∃ vm', interrupt { vm with machine := asks .saveToMemory 0xFFFF } =
      .error (.memoryRangeOutOfBounds 0xFFFF 2) vm') ∧
    ∃ vm₁ vm₃, interrupt { vm with machine := asks .memoryToSave 10 } = .ok () vm₁ ∧
      interrupt { vm₁ with machine := asks .saveToMemory 100, save := vm₁.save.close } =
        .ok () vm₃ ∧
      vm₃.machine.data.get 100 = 7 ∧ vm₃.machine.data.get 101 = 8 := by
  intro host asks vm
  have hattached : Attached "p.sav" vm.storage :=
    SaveStore.attached_ofPath ⟨0, host.disk, rfl, by decide⟩
  have husable : UsableFor (2 : Word).toNat vm.storage := fun _ => hattached.usable
  have htakes : host.disk.Takes (2 * (2 : Word).toNat) := by decide
  constructor
  · -- from the last address, two words do not fit
    have hasks : AsksFor .saveToMemory 0xFFFF 2 254
        { vm with machine := asks .saveToMemory 0xFFFF } := ⟨[], by decide +kernel⟩
    exact (bulk_copies.1 .saveToMemory 0xFFFF 2 254 _ (.inl rfl) hasks husable nofun).1.2
      (by decide)
  · have hasks : AsksFor .memoryToSave 10 2 254 { vm with machine := asks .memoryToSave 10 } :=
      ⟨[], by decide +kernel⟩
    obtain ⟨vm₁, hsaved, hback⟩ :=
      bulk_copies.2 10 100 2 254 _ hasks husable htakes (by decide) (by decide) (by decide)
    have hkeeps : ∀ r ∈ [Request.close], r.Keeps := by simp [Request.Keeps]
    have hlive : (asks .saveToMemory 100).stack.live =
        [Service.selector .saveToMemory, 100, 2, 254] := by decide +kernel
    obtain ⟨vm₃, hloaded, hwords, -⟩ := hback [.close]
      { vm₁ with machine := asks .saveToMemory 100, save := vm₁.save.close } hkeeps
      (.inr ⟨"p.sav", hattached⟩) rfl rfl ⟨[], hlive⟩
    have hfirst : (asks .memoryToSave 10).data.get 10 = 7 := by decide +kernel
    have hsecond : (asks .memoryToSave 10).data.get 11 = 8 := by decide +kernel
    exact ⟨vm₁, vm₃, hsaved, hloaded, (hwords 0 (by decide)).trans hfirst,
      (hwords 1 (by decide)).trans hsecond⟩

end WordMachine.Vm

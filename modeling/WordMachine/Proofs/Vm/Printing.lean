import WordMachine.Proofs.Console.Columns
import WordMachine.Proofs.Vm.Requests
import WordMachine.Proofs.Vm.Restart

/-!
# What a run prints

The fields that a run prints can be read off its states, without the console: a step prints a word
or the string at an address, if it asks for the service that does (`field?`). A run prints the
fields of its steps, one after the other (`loggedFields`), whether the steps fail or not. Nothing
else that can happen touches the console's column or puts bytes between the fields, with one
exception: on a terminal, which extensions print to as well.

So the console of a virtual machine shows, after any events, the fields of the steps among them
(`shows_after`). A reset between two fields changes neither the stream nor the column.
-/

namespace WordMachine

open Utility (Target)
open Console (Field Shows completeTexts printAll render)

/-! ## The console and others -/

section

variable {p p' : Prop} {bytes : List UInt8} {kind : Sink.Kind} {s : Sink} {fields : List Field}
  {c : Console}

/-- The kind of a sink that others may print to, if they do and if it is a terminal. -/
def Sink.Kind.sharedIf (p : Prop) : Kind → Kind
  | .capture limit => .capture limit
  | .terminal shared => .terminal (shared ∨ p)

/-- Who else prints to a sink does not change its limit. -/
theorem Sink.Kind.limit_sharedIf (p : Prop) (kind : Kind) :
    (kind.sharedIf p).limit = kind.limit := by
  cases kind <;> rfl

/-- A sink may be taken to be shared in more cases than it is. -/
theorem Sink.Holds.mono (h : Holds bytes (kind.sharedIf p) s) (himp : p → p') :
    Holds bytes (kind.sharedIf p') s := by
  cases kind with
  | capture limit => exact h
  | terminal shared =>
    cases s with
    | capture c => exact h
    | terminal t => exact ⟨h.1, fun hown => h.2 fun hshared => hown (hshared.imp_right himp)⟩

/-- The same for what a console shows. -/
theorem Console.Shows.mono (h : Shows (kind.sharedIf p) fields c) (himp : p → p') :
    Shows (kind.sharedIf p') fields c := by
  obtain ⟨hholds, hcolumn⟩ := h
  rw [Sink.Kind.limit_sharedIf] at hcolumn
  exact ⟨hholds.mono himp, by rw [Sink.Kind.limit_sharedIf]; exact hcolumn⟩

/-- Handing over what waits does not change the stream. -/
theorem Console.Shows.flush (h : Shows kind fields c) :
    Shows kind fields (stateOf (Console.flush c)) := by
  obtain ⟨sink, column⟩ := c
  obtain ⟨hholds, hcolumn⟩ := h
  cases sink with
  | capture c =>
    simp only [Console.flush, Console.onSink, Sink.flush]
    cases c.refusal with
    | none => exact ⟨hholds, hcolumn⟩
    | some reason => exact ⟨hholds, hcolumn⟩
  | terminal t =>
    -- what waits in the line buffer is in the stream already
    have hstream : (Sink.terminal t.flush).stream = (Sink.terminal t).stream := by
      simp [Sink.stream, Terminal.flush]
    cases kind with
    | capture limit => exact hholds.elim
    | terminal shared =>
      refine ⟨⟨?_, fun hown => ?_⟩, hcolumn⟩
      · rw [hstream]
        exact hholds.1
      · rw [hstream]
        exact hholds.2 hown

end

namespace Vm

variable {M α : Type}

/-- What works on the console leaves behind the console of its own result. -/
theorem console_onConsole (act : Console.Op α) (vm : Vm M) :
    (stateOf (onConsole act vm)).console = stateOf (act vm.console) := by
  rw [stateOf_onConsole]

section

variable {p : Prop} {kind : Sink.Kind} {fields : List Field}

/-- What an extension prints comes between the bytes of the console, if it comes there at all. -/
theorem shows_showPrinted {vm : Vm M} (h : Shows (kind.sharedIf p) fields vm.console) (hp : p)
    (text : String) (fromLibrary : Bool) :
    Shows (kind.sharedIf p) fields (showPrinted vm text fromLibrary).console := by
  unfold showPrinted
  split
  · rename_i t ht
    obtain ⟨hholds, hcolumn⟩ := h
    rw [ht] at hholds
    cases kind with
    | capture limit => exact hholds.elim
    | terminal shared =>
      refine ⟨⟨hholds.1.trans ?_, fun hown => absurd (.inr hp) hown⟩, hcolumn⟩
      cases fromLibrary with
      | false =>
        show (Sink.terminal t).stream.Sublist (Sink.terminal (t.write text.toUTF8)).stream
        rw [t.stream_write]
        exact List.sublist_append_left _ _
      | true =>
        -- ahead of what waits, and behind what is shown
        show (t.shown.data.toList ++ t.waiting.data.toList).Sublist
          ((t.shown ++ text.toUTF8).data.toList ++ t.waiting.data.toList)
        rw [ByteArray.data_append, Array.toList_append]
        exact (List.sublist_append_left _ _).append (List.Sublist.refl _)
  · exact h

/-- A call of an extension shows what was shown before, if the sink counts as shared. -/
theorem shows_callExtension [Target M] (hp : p) (name : String) (index : Word) :
    Preserves (fun vm : Vm M => Shows (kind.sharedIf p) fields vm.console)
      (callExtension name index) := by
  refine preserves_callExtension (fun _ _ _ h => h) (fun _ _ _ h => h) ?_ name index
  intro vm text fromLibrary h
  exact shows_showPrinted h hp text fromLibrary

end

end Vm

/-! ## The fields of a run -/

/-- The field that a service prints, given the words that it finds on the stack, the top first. -/
def Service.field? (m : Machine) (words : List Word) : Service → Option Field
  | .logWord => words.head?.map .word
  | .logString => words.head?.map fun a => .text (m.stringAt a)
  | _ => none

namespace Vm

/-- The field that the next step prints, if it prints one. -/
def field? (vm : Vm) : Option Field :=
  vm.service?.bind fun service => service.field? vm.machine vm.operands

/-- The fields that an event prints. -/
def eventFields (vm : Vm) : Event → List Field
  | .step => vm.field?.toList
  | _ => []

/-- The fields that some events print, one event after the other. -/
def loggedFields : List Event → Vm → List Field
  | [], _ => []
  | e :: events, vm => vm.eventFields e ++ loggedFields events (stateOf (event e vm))

/-- One of some events is a step that asks for the call of an extension. -/
def CallsExtension : List Event → Vm → Prop
  | [], _ => False
  | e :: events, vm => e = .step ∧ vm.service? = some .extension ∨
      CallsExtension events (stateOf (event e vm))

variable {p : Prop} {kind : Sink.Kind} {fields : List Field} {vm : Vm}

/-- Printing a string under a name prints the string. -/
theorem console_logString (text : String) (vm : Vm) :
    (stateOf (withName text (fun s => onConsole (Console.logText s)) vm)).console =
      stateOf (Console.logText text vm.console) := by
  obtain ⟨names, hnames⟩ := dispose_assign vm.names text
  rw [withName_eq hnames (names_onConsole _ _), stateOf_mapState]
  exact console_onConsole (M := Machine) (Console.logText text) _

/-- A service that pops a word and prints a field, if there is a word to pop. -/
theorem shows_pop_bind (h : Shows kind fields vm.console) {k : Word → Op Unit} {f : Word → Field}
    (hk : ∀ w, (stateOf (k w { vm with machine := vm.machine.spend 1 })).console =
      stateOf ((f w).log vm.console)) :
    Shows kind (fields ++ (vm.machine.stack.live.head?.map f).toList)
      (stateOf ((pop >>= k) vm)).console := by
  rcases pop_bind_cases vm k with ⟨hempty, hpop⟩ | ⟨w, hlive, hpop⟩
  · rw [hempty, hpop]
    show Shows kind (fields ++ []) vm.console
    rwa [List.append_nil]
  · rw [hlive, hpop, hk w]
    exact (h.log (f w)).1

/-- A service shows the field that it prints. Only the call of an extension shares the sink. -/
theorem shows_serve (h : Shows (kind.sharedIf p) fields vm.console) (service : Service) :
    Shows (kind.sharedIf (p ∨ service = .extension))
      (fields ++ (service.field? vm.machine vm.machine.stack.live).toList)
      (stateOf (serve service vm)).console := by
  have hstorage : StorageStable fun vm => Shows (kind.sharedIf p) fields vm.console := {
    pop := preserves_onMachine fun _ h => h
    push := fun _ => preserves_onMachine fun _ h => h
    copy := fun _ _ => preserves_modifyMachine fun _ h => h
    read := fun _ => preserves_onSave fun _ h => h
    write := fun _ _ => preserves_onSave fun _ h => h
    readRange := fun _ _ => preserves_onSave fun _ h => h
    writeRange := fun _ _ => preserves_onSave fun _ h => h }
  have hother {service : Service} (hword : service ≠ .logWord) (hstring : service ≠ .logString)
      (hcall : service ≠ .extension) :
      Shows (kind.sharedIf p) fields (stateOf (serve service vm)).console :=
    hstorage.serve hword hstring hcall vm h
  cases service with
  | logWord =>
    refine (shows_pop_bind h fun w => ?_).mono .inl
    exact console_onConsole _ _
  | logString =>
    refine (shows_pop_bind h fun a => ?_).mono .inl
    exact console_logString _ _
  | extension =>
    -- from here on the sink is shared
    have hp : p ∨ Service.extension = .extension := .inr rfl
    have hpop : Preserves (fun vm : Vm =>
        Shows (kind.sharedIf (p ∨ Service.extension = .extension)) fields vm.console) pop :=
      preserves_onMachine fun _ h => h
    have hserve : Preserves _ (serve .extension) :=
      hpop.bind fun address => hpop.bind fun index => preserves_get.bind fun vm =>
        preserves_withName (fun _ _ h => h) fun name => shows_callExtension hp name index
    show Shows _ (fields ++ []) _
    rw [List.append_nil]
    exact hserve vm (h.mono .inl)
  | reserved | saveRead | saveWrite | saveToMemory | memoryToSave =>
    show Shows _ (fields ++ []) _
    rw [List.append_nil]
    refine Shows.mono (hother ?_ ?_ ?_) .inl
    all_goals nofun

/-- A step shows the field that it prints, whether it fails or not. -/
theorem shows_step (h : Shows (kind.sharedIf p) fields vm.console) :
    Shows (kind.sharedIf (p ∨ vm.service? = some .extension)) (fields ++ vm.field?.toList)
      (stateOf (step vm)).console := by
  cases hservice : vm.service? with
  | none =>
    -- without a service a step prints nothing, and a halt hands over what waits
    have hflush : Preserves (fun vm : Vm => Shows (kind.sharedIf p) fields vm.console)
        (onConsole Console.flush) := preserves_onConsole fun _ h => h.flush
    have hstep := preserves_of_no_service (preserves_restart (fun _ _ h => h) fun _ _ h => h)
      hflush (fun _ => preserves_onMachine fun _ h => h) (fun _ _ h => h) hservice h
    rw [field?, hservice, Option.bind_none, Option.toList_none, List.append_nil]
    exact Shows.mono hstep .inl
  | some service =>
    -- the service is served with the selector popped, so it finds the operands
    obtain ⟨log, m, hstep⟩ := exists_step_serve hservice
    let vm₁ : Vm := { vm with
      machine := vm.machine.spend 1
      host := { vm.host with log } }
    have h₁ : Shows (kind.sharedIf p) fields vm₁.console := h
    have hserve := shows_serve h₁ service
    rw [vm.machine.live_spend_one] at hserve
    rw [hstep, field?, hservice, Option.bind_some]
    exact hserve.mono fun hp => hp.imp_right (congrArg some)

/-- Nothing that can happen puts anything but the fields of steps into the stream, or turns the
column over. -/
theorem shows_event (h : Shows (kind.sharedIf p) fields vm.console) (e : Event) :
    Shows (kind.sharedIf (p ∨ e = .step ∧ vm.service? = some .extension))
      (fields ++ vm.eventFields e) (stateOf (event e vm)).console := by
  cases e with
  | step => exact (shows_step h).mono fun hp => hp.imp_right fun hcall => ⟨rfl, hcall⟩
  | reset =>
    have hreset : Preserves (fun vm : Vm => Shows (kind.sharedIf p) fields vm.console)
        (event .reset) :=
      (preserves_restart (fun _ _ h => h) fun _ _ h => h).bind fun _ => preserves_pure _
    show Shows _ (fields ++ []) _
    rw [List.append_nil]
    exact Shows.mono (hreset vm h) .inl
  | flush =>
    have hflush : Preserves (fun vm : Vm => Shows (kind.sharedIf p) fields vm.console)
        (event .flush) :=
      (preserves_onConsole fun _ h => h.flush).bind fun _ => preserves_pure _
    show Shows _ (fields ++ []) _
    rw [List.append_nil]
    exact Shows.mono (hflush vm h) .inl
  | edit change | trace on | outside files libraries =>
    show Shows _ (fields ++ []) vm.console
    rw [List.append_nil]
    exact h.mono .inl

/-- After any events the console shows the fields that they printed. -/
theorem shows_after (h : Shows (kind.sharedIf p) fields vm.console) (events : List Event) :
    Shows (kind.sharedIf (p ∨ CallsExtension events vm)) (fields ++ loggedFields events vm)
      (after events vm).console := by
  -- one event after the other; the fields so far and whether the sink is shared go along
  induction events generalizing vm p fields with
  | nil =>
    rw [loggedFields, List.append_nil]
    exact h.mono .inl
  | cons e events ih =>
    have hrest := ih (shows_event h e)
    rw [List.append_assoc] at hrest
    exact hrest.mono or_assoc.1

end Vm

/-! ## Two columns -/

/-- The kind of a sink that belongs to the console alone. -/
def Sink.kind : Sink → Kind
  | .capture c => .capture c.limit
  | .terminal _ => .terminal False

/-- A console on a sink that has accepted nothing shows no fields. -/
theorem Console.shows_ofSink {sink : Sink} (h : sink.stream = []) :
    Shows (sink.kind.sharedIf False) [] (.ofSink sink) := by
  cases sink with
  | terminal t => exact ⟨⟨List.nil_sublist _, fun _ => h⟩, rfl⟩
  | capture c =>
    have hcut : cut c.limit (Console.render []) = [] := by cases c.limit <;> simp [cut, render]
    exact ⟨⟨rfl, h.trans hcut.symm⟩, rfl⟩

section

variable {p : Prop} {bytes : List UInt8} {sink s : Sink}

/-- The bytes that a sink holds are in its stream, in order, up to its limit. -/
theorem Sink.Holds.cut_sublist (h : Holds bytes (sink.kind.sharedIf p) s) :
    (cut sink.kind.limit bytes).Sublist s.stream := by
  cases sink <;> cases s
  · rw [h.2]
    exact List.Sublist.refl _
  · exact h.elim
  · exact h.elim
  · exact h.1

/-- A sink that belongs to the console alone has taken nothing else. -/
theorem Sink.Holds.stream_eq (h : Holds bytes (sink.kind.sharedIf p) s)
    (hown : (∃ c, sink = .capture c) ∨ ¬ p) : s.stream = cut sink.kind.limit bytes := by
  -- a sink does not change its kind, so the mixed cases are empty
  cases sink <;> cases s
  · exact h.2
  · exact h.elim
  · exact h.elim
  · refine h.2 fun hshared => ?_
    rcases hown with ⟨c, hc⟩ | hp
    · cases hc
    · exact hshared.elim id hp

end

namespace Vm

/-- Console output is the fields in two columns, on any sink that has accepted nothing yet, up to
its limit. Whatever fields are printed, the sink has taken the first bytes of the stream that the
fields make, the next field stands in the column that the number of texts taken whole gives, and
printing one more field succeeds if it fits. The same holds of the fields that the steps of a
virtual machine print, after any events, resets among them, and of a run in particular. Only on a
terminal may the output of extensions stand between the bytes of the fields. -/
theorem output_is_two_columns {sink : Sink} (h : sink.stream = []) :
    (∀ fields : List Field,
      (printAll fields (.ofSink sink)).sink.stream = cut sink.kind.limit (render fields) ∧
      (printAll fields (.ofSink sink)).secondColumn =
        decide (completeTexts sink.kind.limit fields % 2 = 1) ∧
      ∀ f : Field, (∃ c, f.log (printAll fields (.ofSink sink)) = .ok () c) ↔
        Fits sink.kind.limit (render fields).length (f.bytes.length + 1)) ∧
    ∀ vm : Vm, vm.console = .ofSink sink →
      (∀ events : List Event,
        (after events vm).console.secondColumn =
          decide (completeTexts sink.kind.limit (loggedFields events vm) % 2 = 1) ∧
        (cut sink.kind.limit (render (loggedFields events vm))).Sublist
          (after events vm).console.sink.stream ∧
        ((∃ c, sink = .capture c) ∨ ¬ CallsExtension events vm →
          (after events vm).console.sink.stream =
            cut sink.kind.limit (render (loggedFields events vm)))) ∧
      ∀ limit, ∃ n, Makes limit n vm ∧ ∃ ending, (ending = [] ∨ ending = [Event.flush]) ∧
        stateOf (run limit vm) = after (List.replicate n .step ++ ending) vm := by
  have hstart := Console.shows_ofSink h
  refine ⟨fun fields => ?_,
    fun vm hvm => ⟨fun events => ?_, fun limit => exists_run_eq_after limit vm⟩⟩
  · -- fields printed by hand
    have hshows := hstart.printAll fields
    have hcolumn := hshows.column
    have hlog := fun f => (hshows.log f).2
    rw [Sink.Kind.limit_sharedIf] at hcolumn hlog
    exact ⟨hshows.sink.stream_eq (.inr id), hcolumn, hlog⟩
  · -- fields printed by the steps among any events
    have hvm : Shows (sink.kind.sharedIf False) [] vm.console := hvm ▸ hstart
    have hshows := shows_after hvm events
    have hcolumn := hshows.column
    rw [Sink.Kind.limit_sharedIf] at hcolumn
    refine ⟨hcolumn, hshows.sink.cut_sublist, fun hown => hshows.sink.stream_eq ?_⟩
    exact hown.imp_right fun hcalls hshared => hshared.elim id hcalls

/-- A word and a string printed to a sink that takes eight bytes: the string is cut off, and its
text does not count. -/
theorem output_is_two_columns_cut :
    let sink : Sink := .capture ⟨.empty, some 8, none⟩
    let services : Services := ⟨.ofSink sink, .ofPath "s", .ofDirs [], []⟩
    let machine : Machine := { (default : Machine) with
      code := .fill 1
      data := (Segment.fill 0).set 0 0x4142
      stack := ⟨(((Segment.fill 0).set 1 5).set 2 0xBEEF).set 3 3, 4, by decide⟩ }
    let vm : Vm := { ofImage .empty services ⟨.empty, .empty⟩ with machine }
    let c := (after [.step, .step] vm).console
    sink.stream = [] ∧ vm.console = .ofSink sink ∧
      c.sink.stream = Console.bytesOf "0xBEEF\tA" ∧ c.secondColumn = true := by
  intro sink services machine vm c
  have hfresh : sink.stream = [] := rfl
  obtain ⟨hcolumn, -, hstream⟩ := ((output_is_two_columns hfresh).2 vm rfl).1 [.step, .step]
  refine ⟨hfresh, rfl, (hstream (.inl ⟨_, rfl⟩)).trans ?_, hcolumn.trans ?_⟩
  · decide +kernel
  · decide +kernel

end Vm

end WordMachine

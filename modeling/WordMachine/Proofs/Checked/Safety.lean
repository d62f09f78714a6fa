import WordMachine.Proofs.Checked.Steps

/-!
# Safety of runs

A run is any sequence of steps and resets, each in the state that the one before left behind,
whether that was a fault or not. On the checked machine, whatever the image, the services, the
extensions and the files are, a run is the run of the virtual machine, result by result; so it never
traps, the depth stays within the slots, and register 31 reads as the depth modulo 65536
(`checked_run_never_traps`).

The checked run starts from the image and goes on by itself: that its depth is within the slots is
not part of its type. One move comes from `mirrors_move`, a whole run from `results_mirrored`.
-/

namespace WordMachine

section

variable {κ σ τ α : Type}

/-- Actions that are mirrored in every state are so all along. -/
theorem results_mirrored {f : σ → τ} {act : κ → EStateM Fault σ α} {act' : κ → EStateM Stop τ α}
    (h : ∀ k s, Mirrors f (act k) (act' k) s) (ks : List κ) (s : σ) :
    results act' ks (f s) = (results (fun k => lifted (act k)) ks s).map (mapState f) :=
  results_map h ks s

/-- All along, the mirrored action runs in a state that is an image. -/
theorem exists_of_mem_results {f : σ → τ} {act : κ → EStateM Fault σ α}
    {act' : κ → EStateM Stop τ α} (h : ∀ k s, Mirrors f (act k) (act' k) s) {ks : List κ} {s : σ}
    {r : EStateM.Result Stop τ α} (hr : r ∈ results act' ks (f s)) : ∃ k t, r = act' k (f t) := by
  -- the state left behind is an image again, so the next action runs in one
  induction ks generalizing s with
  | nil => nomatch hr
  | cons k ks ih =>
    rcases List.mem_cons.1 hr with hr | hr
    · exact ⟨k, s, hr⟩
    · rw [(h k s).stateOf_eq] at hr
      exact ih hr

end

namespace Machine

/-- The stack pointer is the depth modulo 65536. -/
theorem toNat_stackPointer (m : Machine) : (m.reg .stackPointer).toNat = m.stack.depth % 65536 :=
  UInt16.toNat_ofNat'

/-- The raw form of a machine has its depth within the slots, and register 31 shows it. -/
theorem depth_raw (m : Machine) :
    m.raw.depth ≤ 65536 ∧
      ∃ w, RawMachine.reg 31 m.raw = .ok w m.raw ∧ w.toNat = m.raw.depth % 65536 :=
  ⟨m.stack.depth_le, m.reg .stackPointer, m.reg_raw .stackPointer, m.toNat_stackPointer⟩

end Machine

namespace Vm

/-- What is done with a virtual machine in a run. -/
inductive Move where
  | step
  | reset
  deriving DecidableEq, Repr

/-- Carries a move out. -/
def move : Move → Op Outcome
  | .step => step
  | .reset => do
    reset
    return .next

end Vm

namespace RawMachine

/-- Carries a move out on the checked machine. -/
def move : Vm.Move → VmOp Vm.Outcome
  | .step => step
  | .reset => do
    reset
    return .next

/-- The virtual machine that starts on an image, on the checked machine, with its instructions
logged or not. -/
def start (img : Image) (source : ImageSource) (services : Services) (host : Host) (trace : Bool) :
    Vm RawMachine where
  machine := ofImage img
  source := source
  trace := trace
  names := .empty
  console := services.console
  save := services.save
  loader := services.loader
  libraries := services.libraries
  host := host
  printed := .empty
  notes := #[]

end RawMachine

namespace Vm

/-- The checked machine starts as the raw form of the machine. -/
theorem mapMachine_start (img : Image) (source : ImageSource) (services : Services) (host : Host)
    (trace : Bool) :
    mapMachine Machine.raw { start img source services host with trace := trace } =
      RawMachine.start img source services host trace := by
  unfold mapMachine start RawMachine.start
  rw [Machine.raw_ofImage]

/-- A move is mirrored by the checked move. -/
theorem mirrors_move (k : Move) (vm : Vm) :
    Mirrors (mapMachine Machine.raw) (move k) (RawMachine.move k) vm := by
  cases k with
  | step => exact mirrors_step
  | reset => exact mirrors_reset.bind fun _ _ _ => mirrors_pure _

/-- Every run of steps and resets on the checked machine is the run of the virtual machine. It never
traps: no index is out of range, no sum or difference of indices leaves its range, nothing is
divided by zero or shifted by the width, and the depth is never moved past the slots. All along, the
depth is at most 65536 and register 31 reads as the depth modulo 65536. -/
theorem checked_run_never_traps (img : Image) (source : ImageSource) (services : Services)
    (host : Host) (trace : Bool) (moves : List Move) :
    let vm : Vm := { start img source services host with trace := trace }
    let run := results RawMachine.move moves (RawMachine.start img source services host trace)
    run = (results (fun k => lifted (move k)) moves vm).map (mapState (mapMachine Machine.raw)) ∧
    (∀ r ∈ run, ∀ trap v, r ≠ .error (.trap trap) v) ∧
    (∀ m ∈ RawMachine.ofImage img :: run.map fun r => (stateOf r).machine,
      m.depth ≤ 65536 ∧ ∃ w, RawMachine.reg 31 m = .ok w m ∧ w.toNat = m.depth % 65536) ∧
    ∀ r ∈ results move moves vm,
      (stateOf r).machine.stack.depth ≤ 65536 ∧
      ((stateOf r).machine.reg .stackPointer).toNat = (stateOf r).machine.stack.depth % 65536 := by
  intro vm run
  have hstart : RawMachine.start img source services host trace = mapMachine Machine.raw vm :=
    (mapMachine_start img source services host trace).symm
  have hrun : run = (results (fun k => lifted (move k)) moves vm).map
      (mapState (mapMachine Machine.raw)) := by
    rw [← results_mirrored mirrors_move, ← hstart]
  -- every move of the checked run is made in the raw form of some virtual machine
  have hmove : ∀ r ∈ run, ∃ k vm, r = RawMachine.move k (mapMachine Machine.raw vm) := by
    intro r hr
    change r ∈ results RawMachine.move moves (RawMachine.start img source services host trace) at hr
    rw [hstart] at hr
    exact exists_of_mem_results mirrors_move hr
  refine ⟨hrun, ?_, ?_, ?_⟩
  · -- no move traps
    intro r hr trap v
    obtain ⟨k, vm, rfl⟩ := hmove r hr
    exact (mirrors_move k vm).ne_trap
  · -- the depth, at the start and behind every move
    intro m hm
    rcases List.mem_cons.1 hm with rfl | hm
    · rw [← Machine.raw_ofImage]
      exact Machine.depth_raw _
    · obtain ⟨r, hr, rfl⟩ := List.mem_map.1 hm
      obtain ⟨k, vm, rfl⟩ := hmove r hr
      rw [(mirrors_move k vm).stateOf_eq]
      exact Machine.depth_raw _
  · -- the machine itself has it in its type
    intro r _
    exact ⟨(stateOf r).machine.stack.depth_le, (stateOf r).machine.toNat_stackPointer⟩

/-- The first step takes one from the stack pointer of an empty stack, the second copies the top
word of the stack that this makes, and fills it; the third overflows, and a reset follows. -/
theorem checked_run_never_traps_full :
    let img : Image := { Image.empty with code := (Segment.fill 3).set 0 0xFF }
    let run := results RawMachine.move [.step, .step, .step, .reset] (RawMachine.start img
      (.memory img) ⟨.ofSink (.capture .unlimited), .ofPath "", .ofDirs [], []⟩
      ⟨.empty, .empty⟩ true)
    (run.map fun r => (stateOf r).machine.depth) = [65535, 65536, 65536, 0] ∧
    ∀ r ∈ run, (∀ trap v, r ≠ .error (.trap trap) v) ∧
      ∃ w, RawMachine.reg 31 (stateOf r).machine = .ok w (stateOf r).machine ∧
        w.toNat = (stateOf r).machine.depth % 65536 := by
  intro img run
  obtain ⟨-, htrap, hdepth, -⟩ := checked_run_never_traps img (.memory img)
    ⟨.ofSink (.capture .unlimited), .ofPath "", .ofDirs [], []⟩ ⟨.empty, .empty⟩ true
    [.step, .step, .step, .reset]
  refine ⟨by decide +kernel, fun r hr => ⟨htrap r hr, ?_⟩⟩
  exact (hdepth _ (List.mem_cons_of_mem _ (List.mem_map_of_mem hr))).2

end Vm

end WordMachine

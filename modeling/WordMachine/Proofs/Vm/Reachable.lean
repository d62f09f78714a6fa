import WordMachine.Proofs.Vm.Parts

/-!
# Reachable states

The states that a virtual machine can get into: from its start by steps and resets, however they
end, by handing over output, and by what goes on around it, where the machine is edited, logging is
turned on or off, and files come and go (`Vm.Reachable`).

A service enters a string into the name table only while it runs. In a table without names the
string gets handle 0, and releasing it leaves the table as it was, mark and holes included. So the
name table is empty in every reachable state (`Reachable.names_eq_empty`).
-/

namespace WordMachine

/-- A name entered into the empty table and released again leaves the empty table. -/
theorem NameTable.dispose_assign_empty (text : String) :
    (empty.assign text).2.dispose (empty.assign text).1 = .ok empty := by
  -- the map is that of before, and handle 0 was the last one, so the mark goes back
  have herase : ((∅ : Std.ExtHashMap Handle String).insert 0 text).erase 0 = ∅ := by
    apply Std.ExtHashMap.ext_getElem?
    intro h
    by_cases hh : 0 = h
    · simp [hh]
    · simp [hh]
  simp [empty, assign, allocate, dispose, release, herase]

namespace Vm

open Utility (Target)

variable {M α : Type}

/-- The states that a virtual machine can get into. -/
inductive Reachable : Vm → Prop
  | start (img : Image) (source : ImageSource) (services : Services) (host : Host) :
    Reachable (start img source services host)
  | step {vm : Vm} : Reachable vm → Reachable (stateOf (vm.step))
  | reset {vm : Vm} : Reachable vm → Reachable (stateOf (vm.reset))
  | flush {vm : Vm} : Reachable vm → Reachable (stateOf (onConsole Console.flush vm))
  | edit {vm : Vm} (machine : Machine) : Reachable vm → Reachable { vm with machine }
  | trace {vm : Vm} (trace : Bool) : Reachable vm → Reachable { vm with trace }
  | outside {vm : Vm} (host : Host) (libraries : Libraries) :
    Reachable vm → Reachable { vm with host, libraries }

/-! ## The name table stays empty -/

/-- The virtual machine keeps no names. -/
def Nameless (vm : Vm M) : Prop := vm.names = .empty

/-- What works on the machine keeps the table empty. -/
theorem nameless_onMachine (act : EStateM Fault M α) : Preserves Nameless (onMachine act) :=
  preserves_onMachine fun _ h => h

/-- What works on the console does. -/
theorem nameless_onConsole (act : Console.Op α) :
    Preserves Nameless (onConsole act : OpOn M α) := preserves_onConsole fun _ h => h

/-- What works on the save store does. -/
theorem nameless_onSave (act : SaveStore.Op α) : Preserves Nameless (onSave act : OpOn M α) :=
  preserves_onSave fun _ h => h

/-- A request served under a name, by a virtual machine that keeps none: the name is gone in the
state that the request leaves behind. -/
theorem withName_of_nameless {text : String} {serve : String → OpOn M α} {vm : Vm M}
    (hvm : Nameless vm)
    (h : ∀ t : Vm M, (stateOf (serve text t)).names = t.names) :
    withName text serve vm = mapState (fun t => { t with names := .empty })
      (serve text { vm with names := (NameTable.empty.assign text).2 }) := by
  have hnames : vm.names = .empty := hvm
  rw [← hnames]
  refine withName_eq ?_ (h _)
  rw [hnames]
  exact NameTable.dispose_assign_empty text

/-- A request served under a name leaves an empty table empty if it does not change the table
itself. -/
theorem nameless_withName {text : String} {serve : String → OpOn M α}
    (h : ∀ t : Vm M, (stateOf (serve text t)).names = t.names) :
    Preserves Nameless (withName text serve) := by
  intro vm hvm
  rw [withName_of_nameless hvm h, stateOf_mapState]
  rfl

/-- A restart empties the table. -/
theorem nameless_restart (load : M → Image → M) : Preserves Nameless (restart load) :=
  preserves_restart (fun _ _ h => h) fun _ _ _ => rfl

/-- Every service leaves an empty table empty. -/
theorem nameless_serve (service : Service) : Preserves Nameless (serve service) := by
  refine ServiceStable.serve ?_ fun _ _ index =>
    nameless_withName fun t => names_callExtension _ index t
  exact {
    pop := nameless_onMachine _
    push := fun _ => nameless_onMachine _
    copy := fun _ _ => preserves_modifyMachine fun _ h => h
    logWord := fun _ => nameless_onConsole _
    logText := fun _ => nameless_withName fun t => names_onConsole _ t
    read := fun _ => nameless_onSave _
    write := fun _ _ => nameless_onSave _
    readRange := fun _ _ => nameless_onSave _
    writeRange := fun _ _ => nameless_onSave _ }

/-- So does every step, whether it fails or not. -/
theorem nameless_step : Preserves Nameless step :=
  preserves_step nameless_serve (nameless_restart _) (nameless_onConsole _) nameless_onMachine
    fun _ _ h => h

/-- Between steps no name is kept, whatever has happened before. -/
theorem Reachable.names_eq_empty {vm : Vm} (h : Reachable vm) : vm.names = .empty := by
  -- by induction on how the state was reached
  induction h with
  | start img source services host => rfl
  | step _ ih => exact nameless_step _ ih
  | reset _ ih => exact nameless_restart _ _ ih
  | flush _ ih => exact nameless_onConsole _ _ ih
  | edit _ _ ih => exact ih
  | trace _ _ ih => exact ih
  | outside _ _ _ ih => exact ih

end Vm

end WordMachine

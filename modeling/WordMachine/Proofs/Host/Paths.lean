import Mathlib.Data.List.Basic
import Mathlib.Data.List.TakeWhile
import WordMachine.Proofs.Host.Files

/-!
# Paths into one directory

Replacing the extension of a path changes the last part of the path and nothing before it. So the
new path leads into the same directory as the old one, and where each file stands at one place only,
both lead to the same file just when they are the same path (`sameFile_withExtension_iff`).

What carries this is that a path which leads to a file ends in a name (`Leads.exists_split`): every
part of a path that is passed on the way is a directory, and so is what a last part `.` or `..`
leads to.
-/

namespace WordMachine

namespace Path

/-! ## The parts of a path -/

/-- Characters without a separator are one part. -/
theorem partsAt_of_notMem {separator : Char} {cs : List Char} (h : separator ∉ cs) :
    partsAt separator cs = [cs] := by
  induction cs with
  | nil => rfl
  | cons c cs ih =>
    rw [List.mem_cons, not_or] at h
    rw [partsAt, if_neg (Ne.symm h.1), ih h.2]

/-- There is always a part, if only an empty one. -/
theorem partsAt_ne_nil (separator : Char) (cs : List Char) : partsAt separator cs ≠ [] := by
  cases cs with
  | nil => nofun
  | cons c cs =>
    rw [partsAt]
    split
    · nofun
    · split <;> nofun

/-- A separator ends one part and starts another, so the parts on its two sides are those of the two
sides. -/
theorem partsAt_append (separator : Char) (front back : List Char) :
    partsAt separator (front ++ separator :: back) =
      partsAt separator front ++ partsAt separator back := by
  induction front with
  | nil => simp [partsAt]
  | cons c front ih =>
    by_cases hc : c = separator
    · simp [partsAt, hc, ih]
    · rw [List.cons_append, partsAt, if_neg hc, ih, partsAt, if_neg hc]
      cases hfront : partsAt separator front with
      | nil => exact absurd hfront (partsAt_ne_nil separator front)
      | cons part parts => rfl

/-- The parts of a path that are not empty. -/
def parts (cs : List Char) : List (List Char) := (partsAt '/' cs).filter (· ≠ [])

/-- A path that consists of a directory, up to and including its last slash, and a name. -/
structure Names (directory name : List Char) : Prop where
  slash : directory = [] ∨ ∃ front, directory = front ++ ['/']
  ne_nil : name ≠ []
  notMem : '/' ∉ name

variable {directory name name' : List Char}

/-- The name is the last part. -/
theorem Names.parts_eq (h : Names directory name) :
    parts (directory ++ name) = parts directory ++ [name] := by
  have hname : (partsAt '/' name).filter (· ≠ []) = [name] := by
    simp [partsAt_of_notMem h.notMem, h.ne_nil]
  rcases h.slash with rfl | ⟨front, rfl⟩
  · exact hname
  · have hempty : (partsAt '/' ([] : List Char)).filter (· ≠ []) = [] := by decide
    rw [List.append_assoc, List.singleton_append, parts, parts, partsAt_append, partsAt_append,
      List.filter_append, List.filter_append, hname, hempty, List.append_nil]

/-- Whether a path starts at the root depends on its directory only. -/
theorem Names.head?_eq (h : Names directory name) :
    (directory ++ name).head? = some '/' ↔ directory.head? = some '/' := by
  cases directory with
  | cons c directory => rfl
  | nil =>
    refine iff_of_false (fun hhead => h.notMem ?_) nofun
    exact List.mem_of_head? hhead

/-- A path that consists of a directory and a name does not end in a slash. -/
theorem Names.getLast?_ne (h : Names directory name) :
    (directory ++ name).getLast? ≠ some '/' := by
  rw [List.getLast?_append_of_ne_nil _ h.ne_nil]
  exact fun hlast => h.notMem (List.mem_of_getLast? hlast)

/-- A path that does not end in a slash consists of a directory and a name. -/
theorem exists_names {cs : List Char} (hne : cs ≠ []) (hlast : cs.getLast? ≠ some '/') :
    ∃ directory name, cs = directory ++ name ∧ Names directory name := by
  -- the name is what stands behind the last slash, found from the end
  have hcut := List.takeWhile_append_dropWhile (p := (· ≠ '/')) (l := cs.reverse)
  refine ⟨(cs.reverse.dropWhile (· ≠ '/')).reverse, (cs.reverse.takeWhile (· ≠ '/')).reverse,
    ?_, ?_, ?_, ?_⟩
  · rw [← List.reverse_append, hcut, List.reverse_reverse]
  · -- in front of the name stands nothing, or something that ends in a slash
    cases hdrop : cs.reverse.dropWhile (· ≠ '/') with
    | nil => exact .inl rfl
    | cons c rest =>
      have hc := List.head?_dropWhile_not (· ≠ '/') cs.reverse
      rw [hdrop] at hc
      obtain rfl : c = '/' := by simpa using hc
      exact .inr ⟨rest.reverse, List.reverse_cons⟩
  · -- the last character is not a slash, so the name has at least that one
    rw [Ne, List.reverse_eq_nil_iff]
    cases hreverse : cs.reverse with
    | nil => exact absurd (List.reverse_eq_nil_iff.1 hreverse) hne
    | cons c rest =>
      rw [← List.head?_reverse, hreverse, List.head?_cons] at hlast
      have hc : c ≠ '/' := fun heq => hlast (congrArg some heq)
      rw [List.takeWhile_cons_of_pos (by simpa using hc)]
      nofun
  · intro hmem
    have hslash := List.mem_takeWhile_imp (List.mem_reverse.1 hmem)
    simp at hslash

/-- Behind a name that is not `.`, there is nothing to drop. -/
theorem Names.dropTrailer_eq (h : Names directory name) (hdot : name ≠ ['.']) :
    dropTrailer (name.reverse ++ directory.reverse) = name.reverse ++ directory.reverse := by
  have hmem {c : Char} (hc : c ∈ name.reverse) : c ≠ '/' := by
    rintro rfl
    exact h.notMem (List.mem_reverse.1 hc)
  cases hreverse : name.reverse with
  | nil => exact absurd (List.reverse_eq_nil_iff.1 hreverse) h.ne_nil
  | cons c rest =>
    rw [hreverse] at hmem
    have hc : c ≠ '/' := hmem (List.mem_cons_self ..)
    unfold dropTrailer
    split
    · -- a slash at the end would be part of the name
      rename_i heq
      exact absurd (List.cons.inj heq).1 hc
    · rename_i heq
      obtain ⟨rfl, hrest⟩ := List.cons.inj heq
      cases rest with
      | nil => exact absurd (List.reverse_eq_iff.1 hreverse) hdot
      | cons c' rest =>
        have hc' : c' ≠ '/' := hmem (List.mem_cons_of_mem _ (List.mem_cons_self ..))
        exact absurd (List.cons.inj hrest).1 hc'
    · rfl

/-- A path is cut into its directory and its name, unless the name is one or two dots. -/
theorem Names.split?_eq (h : Names directory name) (hdot : name ≠ ['.'])
    (hdots : name ≠ ['.', '.']) :
    split? (directory ++ name) = some ⟨directory, name, []⟩ := by
  have hname : ∀ c ∈ name.reverse, decide (c ≠ '/') = true := by
    intro c hc
    rw [decide_eq_true_iff]
    rintro rfl
    exact h.notMem (List.mem_reverse.1 hc)
  -- the name is the part behind the last slash
  have htake : (name.reverse ++ directory.reverse).takeWhile (· ≠ '/') = name.reverse := by
    rw [List.takeWhile_append_of_pos hname]
    rcases h.slash with rfl | ⟨front, rfl⟩ <;> simp
  have hdrop : (name.reverse ++ directory.reverse).dropWhile (· ≠ '/') = directory.reverse := by
    rw [List.dropWhile_append_of_pos hname]
    rcases h.slash with rfl | ⟨front, rfl⟩ <;> simp
  simp only [split?, List.reverse_append, h.dropTrailer_eq hdot, htake, hdrop,
    List.reverse_reverse, h.ne_nil, hdot, hdots, or_self, if_false, Nat.sub_self, List.take_zero,
    List.reverse_nil]

/-! ## Extensions -/

/-- A name is its stem, a dot and its extension, and the stem is not empty. -/
theorem cutName?_eq_some {stem extension : List Char} (h : cutName? name = some (stem, extension)) :
    name = stem ++ '.' :: extension ∧ stem ≠ [] := by
  -- read from the end, the name is the extension, the dot, and the stem
  have hcut := List.takeWhile_append_dropWhile (p := (· ≠ '.')) (l := name.reverse)
  have hdrop {front back : List Char} (heq : front ++ back = name.reverse) :
      name.reverse.drop front.length = back := by rw [← heq, List.drop_left]
  unfold cutName? at h
  dsimp only at h
  split at h
  · rename_i rest hrest
    split at h
    · cases h
    · rename_i hstem
      obtain ⟨rfl, rfl⟩ := Prod.mk.inj (Option.some.inj h)
      refine ⟨?_, fun hnil => hstem (List.reverse_eq_nil_iff.1 hnil)⟩
      rw [← hdrop hcut, hrest] at hcut
      have hname := congrArg List.reverse hcut
      rw [List.reverse_reverse] at hname
      exact hname.symm.trans (by simp)
  · cases h

/-- A text with an extension, as characters. -/
theorem ofList_append_extension (front : List Char) (extension : String) :
    String.ofList front ++ "." ++ extension =
      String.ofList (front ++ '.' :: extension.toList) := by
  rw [← String.toList_inj]
  simp

/-- The file name of a path. -/
def fileName? (path : String) : Option String :=
  (split? path.toList).map fun cut => String.ofList cut.name

section

variable (h : Names directory name) (hdot : name ≠ ['.']) (hdots : name ≠ ['.', '.'])

include h hdot hdots

/-- The extension of a path is that of its name. -/
theorem Names.extension?_eq : extension? (String.ofList (directory ++ name)) =
    (cutName? name).map fun cut => String.ofList cut.2 := by
  unfold extension?
  rw [String.toList_ofList, h.split?_eq hdot hdots]
  simp only [Option.bind_eq_bind, Option.bind_some]
  cases cutName? name <;> rfl

/-- The file name of a path is its name. -/
theorem Names.fileName?_eq :
    fileName? (String.ofList (directory ++ name)) = some (String.ofList name) := by
  rw [fileName?, String.toList_ofList, h.split?_eq hdot hdots, Option.map_some]

/-- The name that takes the place of another one with the extension. -/
theorem Names.withExtension_eq (extension : String) :
    withExtension (String.ofList (directory ++ name)) extension =
      match cutName? name with
      | none => String.ofList (directory ++ (name ++ '.' :: extension.toList))
      | some (stem, _) =>
        if stem = ['.'] then String.ofList (directory ++ ['.', '.'])
        else String.ofList (directory ++ (stem ++ '.' :: extension.toList)) := by
  unfold withExtension
  rw [String.toList_ofList, h.split?_eq hdot hdots]
  dsimp only
  cases cutName? name with
  | none => rw [ofList_append_extension, List.append_assoc]
  | some cut =>
    dsimp only
    rw [ofList_append_extension, List.append_assoc]
    simp only [and_true]

/-- Another extension makes another name in the same directory. -/
theorem Names.exists_withExtension {extension : String} (hext : '/' ∉ extension.toList) :
    ∃ name', withExtension (String.ofList (directory ++ name)) extension =
      String.ofList (directory ++ name') ∧ Names directory name' := by
  have hnames {front : List Char} (hfront : '/' ∉ front) :
      Names directory (front ++ '.' :: extension.toList) := by
    refine ⟨h.slash, by simp, ?_⟩
    simp [hfront, hext]
  rw [h.withExtension_eq hdot hdots]
  cases hcut : cutName? name with
  | none => exact ⟨_, rfl, hnames h.notMem⟩
  | some cut =>
    obtain ⟨stem, old⟩ := cut
    obtain ⟨hname, -⟩ := cutName?_eq_some hcut
    dsimp only
    split
    · -- a stem of one dot makes the name of the directory above, which is still a name here
      exact ⟨['.', '.'], rfl, h.slash, nofun, by decide⟩
    · refine ⟨_, rfl, hnames fun hmem => h.notMem ?_⟩
      rw [hname]
      exact List.mem_append_left _ hmem

/-- A path keeps its extension if it is replaced by itself, unless nothing but two dots stands
before it. -/
theorem Names.withExtension_eq_self_iff (extension : String) :
    withExtension (String.ofList (directory ++ name)) extension =
        String.ofList (directory ++ name) ↔
      extension? (String.ofList (directory ++ name)) = some extension ∧
        fileName? (String.ofList (directory ++ name)) ≠ some (".." ++ extension) := by
  have hdotted : (".." ++ extension : String) =
      String.ofList (['.'] ++ '.' :: extension.toList) := by
    rw [← String.toList_inj]
    simp
  rw [h.withExtension_eq hdot hdots, h.extension?_eq hdot hdots, h.fileName?_eq hdot hdots, hdotted,
    Ne, Option.some.injEq, String.ofList_inj]
  cases hcut : cutName? name with
  | none =>
    -- a name without an extension becomes longer
    refine iff_of_false (fun heq => ?_) fun hboth => nomatch hboth.1
    rw [String.ofList_inj, List.append_cancel_left_eq] at heq
    simp at heq
  | some cut =>
    obtain ⟨stem, old⟩ := cut
    obtain ⟨hname, -⟩ := cutName?_eq_some hcut
    rw [Option.map_some, Option.some.injEq]
    dsimp only
    by_cases hstem : stem = ['.']
    · -- the name of two dots and an extension would become two dots alone
      subst hstem
      rw [if_pos rfl]
      refine iff_of_false (fun heq => ?_) fun hboth => ?_
      · rw [String.ofList_inj, List.append_cancel_left_eq] at heq
        exact hdots heq.symm
      · obtain ⟨rfl, hne⟩ := hboth
        rw [String.toList_ofList] at hne
        exact hne hname
    · rw [if_neg hstem, String.ofList_inj, List.append_cancel_left_eq]
      constructor
      · intro heq
        rw [hname, List.append_cancel_left_eq, List.cons.injEq] at heq
        refine ⟨by rw [← heq.2, String.ofList_toList], fun hname' => hstem ?_⟩
        rw [hname, ← heq.2] at hname'
        exact List.append_cancel_right hname'
      · rintro ⟨rfl, -⟩
        rw [String.toList_ofList, hname]

end

end Path

namespace Disk

variable {d : Disk} {path : String} {place place' : Place} {number : Nat}
  {directory name name' : List Char}

/-! ## Names on the way -/

/-- The place and every place above it is a directory. -/
def Entered (d : Disk) (place : Place) : Prop := ∀ k, d.node? (place.take k) = some .directory

/-- What has been entered is a directory. -/
theorem Entered.node?_eq (h : Entered d place) : d.node? place = some .directory := by
  have hall := h place.length
  rwa [List.take_length] at hall

/-- The working directory and all above it are directories. -/
theorem node?_of_all (h : place.all (· == "..")) : d.node? place = some .directory :=
  if_pos (.inr h)

/-- The working directory and all above it have been entered. -/
theorem entered_of_all (h : place.all (· == "..")) : Entered d place := by
  intro k
  refine node?_of_all ?_
  rw [List.all_eq_true] at h ⊢
  exact fun part hpart => h part (List.mem_of_mem_take hpart)

/-- The root has been entered. -/
theorem entered_root : Entered d ["/"] := by
  intro k
  cases k with
  | zero => rfl
  | succ k =>
    rw [List.take_of_length_le (Nat.le_add_left 1 k)]
    exact if_pos (.inl rfl)

/-- One step up from a directory is a directory. -/
theorem Entered.parent (h : Entered d place) : Entered d (parent place) := by
  unfold Disk.parent
  split
  · exact h
  · split
    · rename_i hall
      exact entered_of_all (by rw [List.all_append, hall]; rfl)
    · intro k
      rw [List.dropLast_eq_take, List.take_take]
      exact h _

/-- One step up leads to no name below. -/
theorem parent_ne (place : Place) {part : String} (h : part ≠ "..") :
    parent place ≠ place ++ [part] := by
  intro heq
  unfold parent at heq
  split at heq
  · simp at heq
  · split at heq
    · -- above the working directory, one more `..` is added
      have hlast := (List.append_inj' heq rfl).2
      exact h (List.cons.inj hlast).1.symm
    · -- elsewhere the place becomes shorter
      have hlength := congrArg List.length heq
      rw [List.length_dropLast, List.length_append, List.length_singleton] at hlength
      omega

/-- What one part of a path does: `.` stays, `..` goes up, and any other part is a name below. -/
theorem step_cases {part : String} (h : step place part = .ok place') :
    part = "." ∧ place' = place ∨ part = ".." ∧ place' = parent place ∨
      part ≠ "." ∧ part ≠ ".." ∧ place' = place ++ [part] := by
  unfold step at h
  split at h
  · rename_i hdot
    exact .inl ⟨hdot, (Except.ok.inj h).symm⟩
  · rename_i hdot
    split at h
    · rename_i hdots
      exact .inr (.inl ⟨hdots, (Except.ok.inj h).symm⟩)
    · rename_i hdots
      split at h
      · cases h
      · exact .inr (.inr ⟨hdot, hdots, (Except.ok.inj h).symm⟩)

/-- Directories are entered from above. -/
theorem Entered.enter {parts : List String} (h : Entered d place)
    (henter : d.enter place parts = .ok place') : Entered d place' := by
  induction parts generalizing place with
  | nil => exact Except.ok.inj henter ▸ h
  | cons part parts ih =>
    simp only [Disk.enter, bind, Except.bind] at henter
    cases hstep : step place part with
    | error e => simp [hstep] at henter
    | ok next =>
      simp only [hstep] at henter
      cases hnode : d.node? next with
      | none => simp [hnode, throw, throwThe, MonadExceptOf.throw] at henter
      | some node =>
        cases node with
        | file n => simp [hnode, throw, throwThe, MonadExceptOf.throw] at henter
        | directory =>
          simp only [hnode] at henter
          refine ih ?_ henter
          rcases step_cases hstep with ⟨-, rfl⟩ | ⟨-, rfl⟩ | ⟨-, -, rfl⟩
          · exact h
          · exact h.parent
          · -- of the places above the new one, all but itself lie above the old one
            intro k
            rcases Nat.lt_or_ge place.length k with hk | hk
            · have hlength : (place ++ [part]).length ≤ k := by simpa using Nat.succ_le_of_lt hk
              rwa [List.take_of_length_le hlength]
            · rw [List.take_append_of_le_length hk]
              exact h k

/-! ## Paths by directory and name -/

/-- Where the following of a path begins. -/
theorem Route.ofPath_eq (h : Path.Names directory name) {route : Route}
    (hroute : Route.ofPath (String.ofList (directory ++ name)) = .ok route) :
    route = {
      start := if directory.head? = some '/' then ["/"] else []
      inner := (Path.parts directory).map String.ofList
      last := String.ofList name
      endsInSlash := false } := by
  have hparts : ((Path.partsAt '/' (directory ++ name)).filter (· ≠ [])) =
      Path.parts directory ++ [name] := h.parts_eq
  unfold Route.ofPath at hroute
  rw [String.toList_ofList] at hroute
  dsimp only at hroute
  split at hroute
  · cases hroute
  · split at hroute
    · cases hroute
    · split at hroute
      · cases hroute
      · rw [← Except.ok.inj hroute, hparts, List.map_append, List.map_singleton,
          List.dropLast_concat, List.getLastD_concat, decide_eq_false h.getLast?_ne]
        simp only [h.head?_eq]

/-- A path that can be followed, and does not ask for a directory, does not end in a slash. -/
theorem Route.ne_nil_of_ofPath {route : Route} (hroute : Route.ofPath path = .ok route)
    (hslash : route.endsInSlash = false) :
    path.toList ≠ [] ∧ path.toList.getLast? ≠ some '/' := by
  unfold Route.ofPath at hroute
  dsimp only at hroute
  split at hroute
  · cases hroute
  · split at hroute
    · cases hroute
    · rename_i hne
      split at hroute
      · cases hroute
      · rw [← Except.ok.inj hroute] at hslash
        exact ⟨hne, of_decide_eq_false hslash⟩

/-- The directory that a path leads through, and the place of its name there. -/
theorem Leads.exists_enter (h : Path.Names directory name)
    (hleads : Leads d (String.ofList (directory ++ name)) place) :
    ∃ above, d.enter (if directory.head? = some '/' then ["/"] else [])
        ((Path.parts directory).map String.ofList) = .ok above ∧
      step above (String.ofList name) = .ok place := by
  obtain ⟨route, above, hroute, -, henter, hstep⟩ := hleads
  obtain rfl := Route.ofPath_eq h hroute
  exact ⟨above, henter, hstep⟩

/-- What a path passes on its way from where it begins, and all above it, is a directory. -/
theorem entered_of_enter {parts : List String} (henter :
    d.enter (if directory.head? = some '/' then ["/"] else []) parts = .ok place) :
    Entered d place := by
  refine Entered.enter ?_ henter
  split
  · exact entered_root
  · exact entered_of_all rfl

/-- A path that leads to a file ends in a name. -/
theorem Leads.exists_split (hleads : Leads d path place)
    (hnode : d.node? place = some (.file number)) :
    ∃ directory name, path = String.ofList (directory ++ name) ∧ Path.Names directory name ∧
      name ≠ ['.'] ∧ name ≠ ['.', '.'] := by
  have hpath := hleads
  obtain ⟨route, -, hroute, hslash, -, -⟩ := hpath
  obtain ⟨hne, hlast⟩ := Route.ne_nil_of_ofPath hroute hslash
  obtain ⟨directory, name, hcs, hnames⟩ := Path.exists_names hne hlast
  obtain rfl : path = String.ofList (directory ++ name) := by rw [← hcs, String.ofList_toList]
  refine ⟨directory, name, rfl, hnames, ?_⟩
  obtain ⟨above, henter, hstep⟩ := hleads.exists_enter hnames
  have habove : Entered d above := entered_of_enter henter
  -- what is passed on the way, and what lies above it, is no file
  have hfile : ¬ Entered d place := by
    intro hentered
    rw [hentered.node?_eq] at hnode
    cases hnode
  rcases step_cases hstep with ⟨-, rfl⟩ | ⟨-, rfl⟩ | ⟨hdot, hdots, -⟩
  · exact absurd habove hfile
  · exact absurd habove.parent hfile
  · constructor
    · rintro rfl
      exact hdot rfl
    · rintro rfl
      exact hdots rfl

/-- In one directory, a name leads to the place of another one only if it is that one. -/
theorem Leads.name_eq (h : Path.Names directory name) (h' : Path.Names directory name')
    (hdot : name ≠ ['.']) (hdots : name ≠ ['.', '.'])
    (hleads : Leads d (String.ofList (directory ++ name)) place)
    (hleads' : Leads d (String.ofList (directory ++ name')) place) : name' = name := by
  obtain ⟨above, henter, hstep⟩ := hleads.exists_enter h
  obtain ⟨above', henter', hstep'⟩ := hleads'.exists_enter h'
  obtain rfl := Except.ok.inj (henter.symm.trans henter')
  -- the first name is no dots, so it stands right below the directory
  have hplace : place = above ++ [String.ofList name] := by
    rcases step_cases hstep with ⟨heq, -⟩ | ⟨heq, -⟩ | ⟨-, -, hplace⟩
    · exact absurd (String.ofList_injective heq) hdot
    · exact absurd (String.ofList_injective heq) hdots
    · exact hplace
  rcases step_cases hstep' with ⟨-, heq⟩ | ⟨-, heq⟩ | ⟨-, -, heq⟩
  · rw [hplace] at heq
    simp at heq
  · rw [hplace] at heq
    exact absurd heq.symm (parent_ne above fun hname => hdots (String.ofList_injective hname))
  · rw [hplace] at heq
    have hlast := (List.append_inj' heq rfl).2
    exact (String.ofList_injective (List.cons.inj hlast).1).symm

/-! ## One file under two paths -/

/-- Both paths lead to one file. -/
def SameFile (d : Disk) (path path' : String) : Prop :=
  ∃ number, d.HasFile path number ∧ d.HasFile path' number

/-- Each file stands at one place only. -/
def OnePlace (d : Disk) : Prop :=
  ∀ place place' number, d.node? place = some (.file number) →
    d.node? place' = some (.file number) → place = place'

/-- The path of a file and the path with another extension lead to one file just when they are the
same path. -/
theorem sameFile_withExtension_iff (hdisk : OnePlace d) (hfile : d.HasFile path number)
    {extension : String} (hext : '/' ∉ extension.toList) :
    SameFile d path (Path.withExtension path extension) ↔
      Path.withExtension path extension = path := by
  constructor
  · rintro ⟨number', ⟨⟨place, hleads, hnode⟩, -⟩, ⟨⟨place', hleads', hnode'⟩, -⟩⟩
    obtain rfl := hdisk place place' number' hnode hnode'
    obtain ⟨directory, name, rfl, hnames, hdot, hdots⟩ := hleads.exists_split hnode
    obtain ⟨name', heq, hnames'⟩ := hnames.exists_withExtension hdot hdots hext
    rw [heq] at hleads' ⊢
    rw [hleads.name_eq hnames hnames' hdot hdots hleads']
  · intro heq
    rw [heq]
    exact ⟨number, hfile, hfile⟩

/-- A path that leads to a file keeps its extension if it is replaced by itself, unless nothing but
two dots stands before it. -/
theorem HasFile.withExtension_eq_self_iff (h : d.HasFile path number) (extension : String) :
    Path.withExtension path extension = path ↔
      Path.extension? path = some extension ∧
        Path.fileName? path ≠ some (".." ++ extension) := by
  obtain ⟨⟨place, hleads, hnode⟩, -⟩ := h
  obtain ⟨directory, name, rfl, hnames, hdot, hdots⟩ := hleads.exists_split hnode
  exact hnames.withExtension_eq_self_iff hdot hdots extension

end Disk

end WordMachine

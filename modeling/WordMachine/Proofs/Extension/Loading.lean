import Mathlib.Data.List.Induction
import Mathlib.Data.List.Nodup
import WordMachine.Proofs.Lockstep.Commuting

/-!
# What a loader remembers

A loader is asked to know an extension of the host under a name, or to call a utility of an
extension by name and index (`Loader.Request`). `Loader.Session` is a loader at work on a machine:
what it knows, the log and what utilities work on. A call of a name that is not known searches the
candidate paths in order, and the first library that opens decides (`Taken`). A search that fails
leaves the session as it was. One that succeeds leaves the name known and one line in the log,
whether the index of the call is in range or not.

What a name is known as after any requests can then be told from the requests alone (`hold`,
`lookup_after`). A name that is known stays known, so it is searched for successfully once at most,
and the lines in the log are those of different names (`exists_account`). `loading_is_cached` is the
main statement; it says of a virtual machine that its calls are those of a session.
-/

namespace WordMachine.Loader

/-! ## Searching -/

/-- Where the library of an extension may be: under its bare file name, in the current directory, or
in one of the search directories. -/
def paths (dirs : List String) (name : String) : List String :=
  fileName name :: ("./" ++ fileName name) :: dirs.map fun dir => Path.join dir (fileName name)

/-- A library at a path is what a search takes: it opens, and no path before it does. -/
def Taken (opens : String → Option Library) (paths : List String) (path : String) (lib : Library) :
    Prop :=
  ∃ failed rest, paths = failed ++ path :: rest ∧ (∀ p ∈ failed, opens p = none) ∧
    opens path = some lib

section

variable {opens : String → Option Library} {path : String} {lib : Library}

/-- The paths that a loader tries are those where a library may be. The current directory is joined
to the file name as to any other, since the file name does not start with a slash. -/
theorem candidates_eq (l : Loader) (name : String) :
    l.candidates name = paths l.searchDirs name := by
  have hhead : (fileName name).toList.head? ≠ some '/' := by simp [fileName]
  have hdot : Path.join "." (fileName name) = "./" ++ fileName name := by
    unfold Path.join
    rw [if_neg (by simpa using hhead), if_neg (by decide)]
    rfl
  simp only [candidates, paths, hdot]

/-- Nothing opens exactly if no path does. -/
theorem firstOpen?_eq_none_iff (ps : List String) :
    firstOpen? opens ps = none ↔ ∀ p ∈ ps, opens p = none := by
  induction ps with
  | nil => simp [firstOpen?]
  | cons p ps ih =>
    cases hp : opens p with
    | none => simp [firstOpen?, hp, ih]
    | some lib => simp [firstOpen?, hp]

/-- The first path that opens is the one that a search takes. -/
theorem firstOpen?_of_taken {ps : List String} (h : Taken opens ps path lib) :
    firstOpen? opens ps = some (path, lib) := by
  obtain ⟨failed, rest, rfl, hfailed, hpath⟩ := h
  induction failed with
  | nil => simp [firstOpen?, hpath]
  | cons p failed ih =>
    have hp := hfailed p List.mem_cons_self
    rw [List.cons_append, firstOpen?, hp]
    exact ih fun q hq => hfailed q (List.mem_cons_of_mem p hq)

/-- What the search finds is the library that it takes. -/
theorem findSome?_of_taken {ps : List String} (h : Taken opens ps path lib) :
    ps.findSome? opens = some lib := by
  obtain ⟨failed, rest, hps, hfailed, hpath⟩ := h
  exact List.findSome?_eq_some_iff.2 ⟨failed, path, rest, hps, hpath, hfailed⟩

/-- A search finds nothing that opens, or takes a library. -/
theorem fails_or_taken (opens : String → Option Library) (ps : List String) :
    (∀ p ∈ ps, opens p = none) ∨ ∃ path lib, Taken opens ps path lib := by
  cases h : ps.findSome? opens with
  | none => exact .inl (List.findSome?_eq_none_iff.1 h)
  | some lib =>
    obtain ⟨failed, path, rest, hps, hpath, hfailed⟩ := List.findSome?_eq_some_iff.1 h
    exact .inr ⟨path, lib, failed, rest, hps, hfailed, hpath⟩

end

/-! ## Sessions -/

/-- What a loader is asked for: to know an extension of the host under a name, or to call a
utility. -/
inductive Request where
  | register (name : String) (entries : List Entry)
  | call (name : String) (index : Word)

/-- A loader at work: what it knows, what has been logged, and what utilities work on. -/
structure Session (M : Type := Machine) where
  loader : Loader
  log : Log
  scope : Utility.Scope M

/-- A search that succeeded. -/
structure Load where
  name : String
  path : String
  utilities : List Utility

namespace Load

/-- What a search that succeeded makes known. -/
def extension (l : Load) : Extension := ⟨l.utilities.map .bridged, true⟩

/-- What it logs. -/
def message (l : Load) : String :=
  "loaded extension " ++ l.name ++ " from " ++ l.path ++ " (" ++ l.utilities.length.repr ++
    " utilities)"

end Load

/-- What the first library that opens makes known, if it has a table. -/
def inLibrary? : Option Library → Option Extension
  | some (.table utilities) => some ⟨utilities.map .bridged, true⟩
  | some .bare | none => none

/-- What a name is known as after a request, when it was known as `held` before and a search for it
would make `found` known. -/
def hold (name : String) (found held : Option Extension) : Request → Option Extension
  | .register n entries => if n = name then some ⟨entries, false⟩ else held
  | .call n _ => if n = name then held.or found else held

/-- What a name is known as after another one, or the same, was registered. -/
theorem lookup_register (l : Loader) (n : String) (ext : Extension) (name : String) :
    (l.register n ext).known.lookup name = if n = name then some ext else l.known.lookup name := by
  by_cases h : n = name
  · simp [register, h]
  · have hne : (name == n) = false := by simpa using Ne.symm h
    simp [register, List.lookup_cons, hne, h]

namespace Session

variable {M : Type}

/-- The extension of a name, which is looked for when it is not known. -/
def load (opens : String → Option Library) (name : String) : EStateM Fault (Session M) Extension :=
  fun s =>
    mapState (fun found => ⟨found.1, found.2, s.scope⟩) (Loader.load opens name (s.loader, s.log))

/-- The session after a search that succeeded. -/
def loaded (s : Session M) (l : Load) : Session M :=
  { s with loader := s.loader.register l.name l.extension, log := s.log.info l.message }

section Loading

variable {opens : String → Option Library} {name path : String} {s : Session M}

/-- A name that is known is not searched for. -/
theorem load_of_known {ext : Extension} (h : s.loader.known.lookup name = some ext) :
    load opens name s = .ok ext s := by
  simp only [load, Loader.load, h, mapState_ok]

/-- A search in which nothing opens is a fault and leaves the session as it was. -/
theorem load_of_fails (h : s.loader.known.lookup name = none)
    (hfails : ∀ p ∈ paths s.loader.searchDirs name, opens p = none) :
    ∃ reason, load opens name s =
      .error (.extensionNotFound name (paths s.loader.searchDirs name) reason) s := by
  have hnone := (firstOpen?_eq_none_iff _).2 hfails
  refine ⟨absence ((paths s.loader.searchDirs name).getLast?.getD ""), ?_⟩
  simp only [load, Loader.load, h, find, candidates_eq, hnone, mapState_error]

/-- A library without an initializer is a fault and leaves the session as it was. -/
theorem load_of_bare (h : s.loader.known.lookup name = none)
    (htaken : Taken opens (paths s.loader.searchDirs name) path .bare) :
    load opens name s = .error (.missingInitializer name) s := by
  simp only [load, Loader.load, h, find, candidates_eq, firstOpen?_of_taken htaken, mapState_error]

/-- A library with a table is made known and logged. -/
theorem load_of_table {l : Load} (h : s.loader.known.lookup l.name = none)
    (htaken : Taken opens (paths s.loader.searchDirs l.name) l.path (.table l.utilities)) :
    load opens l.name s = .ok l.extension (s.loaded l) := by
  simp only [load, Loader.load, h, find, candidates_eq, firstOpen?_of_taken htaken, mapState_ok]
  rfl

end Loading

section

variable [Utility.Target M]

/-- Runs a utility of an extension. -/
def invoke (name : String) (ext : Extension) (index : Word) : EStateM Fault (Session M) Unit :=
  fun s =>
    match entry name ext index with
    | .error e => .error e s
    | .ok entry => mapState (fun scope => { s with scope }) (entry.run s.scope)

/-- Calls a utility by name and index. -/
def call (opens : String → Option Library) (name : String) (index : Word) :
    EStateM Fault (Session M) Unit := do
  let ext ← load opens name
  invoke name ext index

/-- Serves a request. -/
def serve (opens : String → Option Library) : Request → EStateM Fault (Session M) Unit
  | .register name entries =>
    modify fun s => { s with loader := s.loader.register name ⟨entries, false⟩ }
  | .call name index => call opens name index

/-- The session after some requests, of which any may have failed. -/
def after (opens : String → Option Library) (requests : List Request) (s : Session M) : Session M :=
  requests.foldl (fun s r => stateOf (serve opens r s)) s

variable {opens : String → Option Library} {name path : String} {index : Word} {s : Session M}
  {dirs : List String}

/-- The last request is served after all others. -/
theorem after_concat (requests : List Request) (r : Request) :
    after opens (requests ++ [r]) s = stateOf (serve opens r (after opens requests s)) := by
  simp [after]

/-! ## One call -/

/-- A utility that the extension has is run on what the session has for it. -/
theorem invoke_of_some {ext : Extension} {e : Entry} (h : ext.entries[index.toNat]? = some e) :
    invoke name ext index s = mapState (fun scope => { s with scope }) (e.run s.scope) := by
  simp only [invoke, entry, h]

/-- An index behind the last utility is a fault and leaves the session as it was. -/
theorem invoke_of_le {ext : Extension} (h : ext.entries.length ≤ index.toNat) :
    invoke name ext index s =
      .error (.utilityIndexOutOfRange name index ext.entries.length) s := by
  simp only [invoke, entry, List.getElem?_eq_none h]

/-- A utility changes what it works on, and nothing of the loader. -/
theorem exists_stateOf_invoke (name : String) (ext : Extension) (index : Word) (s : Session M) :
    ∃ scope, stateOf (invoke name ext index s) = { s with scope } := by
  cases h : ext.entries[index.toNat]? with
  | none =>
    rw [invoke_of_le (List.getElem?_eq_none_iff.1 h)]
    exact ⟨s.scope, rfl⟩
  | some e =>
    rw [invoke_of_some h, stateOf_mapState]
    exact ⟨_, rfl⟩

/-- What a call of a utility does in a session of a loader with the given search directories. -/
structure CallSpec (dirs : List String) (opens : String → Option Library) (name : String)
    (index : Word) (s : Session M) : Prop where
  /-- If nothing opens, the fault lists all paths in order, and the session is as it was. -/
  notFound : s.loader.known.lookup name = none → (∀ p ∈ paths dirs name, opens p = none) →
    ∃ reason, call opens name index s =
      .error (.extensionNotFound name (paths dirs name) reason) s
  /-- A library without an initializer ends the search, and the session is as it was. -/
  missing : s.loader.known.lookup name = none → ∀ path, Taken opens (paths dirs name) path .bare →
    call opens name index s = .error (.missingInitializer name) s
  /-- A library with a table is made known and logged before the index is looked at. -/
  loads : s.loader.known.lookup name = none → ∀ l : Load, l.name = name →
    Taken opens (paths dirs name) l.path (.table l.utilities) →
    call opens name index s = invoke name l.extension index (s.loaded l)
  /-- Nothing is searched for a name that is known: what would open does not matter. -/
  known : ∀ ext, s.loader.known.lookup name = some ext →
    ∀ opens', call opens' name index s = invoke name ext index s

/-- Every call in a session does what is specified. -/
theorem callSpec (hdirs : s.loader.searchDirs = dirs) : CallSpec dirs opens name index s where
  notFound hnone hfails := by
    subst hdirs
    obtain ⟨reason, hload⟩ := load_of_fails hnone hfails
    exact ⟨reason, bind_of_error hload⟩
  missing hnone path htaken := by
    subst hdirs
    exact bind_of_error (load_of_bare hnone htaken)
  loads hnone l hname htaken := by
    subst hdirs hname
    exact bind_of_ok (load_of_table hnone htaken)
  known ext hknown opens' := bind_of_ok (load_of_known hknown)

/-- What a call leaves: a session in which only what the utility works on has changed, or the one
before if the search failed, or one in which the library found is known and logged as well. -/
theorem stateOf_call_cases (opens : String → Option Library) (hdirs : s.loader.searchDirs = dirs)
    (name : String) (index : Word) :
    (∃ ext, s.loader.known.lookup name = some ext ∧
      ∃ scope, stateOf (call opens name index s) = { s with scope }) ∨
    (s.loader.known.lookup name = none ∧
      (∀ path utilities, ¬ Taken opens (paths dirs name) path (.table utilities)) ∧
      inLibrary? ((paths dirs name).findSome? opens) = none ∧
      stateOf (call opens name index s) = s) ∨
    (s.loader.known.lookup name = none ∧ ∃ l : Load, l.name = name ∧
      Taken opens (paths dirs name) l.path (.table l.utilities) ∧
      inLibrary? ((paths dirs name).findSome? opens) = some l.extension ∧
      ∃ scope, stateOf (call opens name index s) = { s.loaded l with scope }) := by
  have hspec : CallSpec dirs opens name index s := callSpec hdirs
  cases hknown : s.loader.known.lookup name with
  | some ext =>
    obtain ⟨scope, hscope⟩ := exists_stateOf_invoke name ext index s
    exact .inl ⟨ext, rfl, scope, by rw [hspec.known ext hknown, hscope]⟩
  | none =>
    refine .inr ?_
    rcases fails_or_taken opens (paths dirs name) with hfails | ⟨path, lib, htaken⟩
    · -- nothing opens
      obtain ⟨reason, hcall⟩ := hspec.notFound hknown hfails
      refine .inl ⟨rfl, fun path utilities htaken => ?_, ?_, by rw [hcall, stateOf_error]⟩
      · obtain ⟨failed, rest, hpaths, -, hopen⟩ := htaken
        rw [hfails path (by simp [hpaths])] at hopen
        cases hopen
      · rw [List.findSome?_eq_none_iff.2 hfails]
        rfl
    · have hfound := findSome?_of_taken htaken
      -- the first that opens is a library without or with an initializer
      cases lib with
      | bare =>
        refine .inl ⟨rfl, fun path' utilities htaken' => ?_, by rw [hfound]; rfl, ?_⟩
        · rw [findSome?_of_taken htaken'] at hfound
          cases hfound
        · rw [hspec.missing hknown path htaken, stateOf_error]
      | table utilities =>
        let l : Load := ⟨name, path, utilities⟩
        obtain ⟨scope, hscope⟩ := exists_stateOf_invoke name l.extension index (s.loaded l)
        refine .inr ⟨rfl, l, rfl, htaken, by rw [hfound]; rfl, scope, ?_⟩
        rw [hspec.loads hknown l rfl htaken, hscope]

/-! ## Whole runs -/

/-- No request changes the search directories. -/
theorem searchDirs_serve (hdirs : s.loader.searchDirs = dirs) (r : Request) :
    (stateOf (serve opens r s)).loader.searchDirs = dirs := by
  cases r with
  | register name entries => exact hdirs
  | call name index =>
    rw [serve]
    rcases stateOf_call_cases opens hdirs name index with
      ⟨_, -, scope, h⟩ | ⟨-, -, -, h⟩ | ⟨-, l, -, -, -, scope, h⟩
    · rw [h]
      exact hdirs
    · rw [h]
      exact hdirs
    · rw [h]
      exact hdirs

/-- What a name is known as after a request depends on what it was known as before, and on what a
search would find. -/
theorem lookup_serve (hdirs : s.loader.searchDirs = dirs) (r : Request) (name : String) :
    (stateOf (serve opens r s)).loader.known.lookup name =
      hold name (inLibrary? ((paths dirs name).findSome? opens)) (s.loader.known.lookup name)
        r := by
  cases r with
  | register n entries => exact lookup_register s.loader n ⟨entries, false⟩ name
  | call n index =>
    rw [serve, hold]
    -- the name was known, the search failed, or it succeeded
    rcases stateOf_call_cases opens hdirs n index with
      ⟨ext, hknown, scope, h⟩ | ⟨hnone, -, hfound, h⟩ | ⟨hnone, l, hname, -, hfound, scope, h⟩
    · rw [h]
      split
      · rename_i heq
        rw [← heq, hknown, Option.some_or]
      · rfl
    · rw [h]
      split
      · rename_i heq
        rw [← heq, hnone, hfound, Option.none_or]
      · rfl
    · rw [h]
      refine (lookup_register s.loader l.name l.extension name).trans ?_
      rw [hname]
      split
      · rename_i heq
        rw [← heq, hnone, hfound, Option.none_or]
      · rfl

/-- A name that is known stays known. -/
theorem isSome_hold {name : String} {found held : Option Extension} (r : Request)
    (h : held.isSome) : (hold name found held r).isSome := by
  cases r with
  | register n entries =>
    rw [hold]
    split
    · rfl
    · exact h
  | call n index =>
    rw [hold]
    split
    · rw [Option.isSome_or, h, Bool.true_or]
    · exact h

/-- The session of a loader that knows no extension yet. -/
def start (dirs : List String) (log : Log) (scope : Utility.Scope M) : Session M :=
  ⟨.ofDirs dirs, log, scope⟩

/-- The search directories are the same after any requests. -/
theorem searchDirs_after (opens : String → Option Library) (dirs : List String) (log : Log)
    (scope : Utility.Scope M) (requests : List Request) :
    (after opens requests (start dirs log scope)).loader.searchDirs = dirs := by
  induction requests using List.reverseRecOn with
  | nil => rfl
  | append_singleton requests r ih =>
    rw [after_concat]
    exact searchDirs_serve ih r

/-- What a name is known as after any requests can be told from the requests. -/
theorem lookup_after (opens : String → Option Library) (dirs : List String) (log : Log)
    (scope : Utility.Scope M) (requests : List Request) (name : String) :
    (after opens requests (start dirs log scope)).loader.known.lookup name =
      requests.foldl (hold name (inLibrary? ((paths dirs name).findSome? opens))) none := by
  induction requests using List.reverseRecOn with
  | nil => rfl
  | append_singleton requests r ih =>
    rw [after_concat, lookup_serve (searchDirs_after opens dirs log scope requests), ih,
      List.foldl_append]
    rfl

/-- In the course of some requests, a call makes the library of a name known: the name is not known
before it, and a library with a table is what the search takes. -/
def Loads (dirs : List String) (opens : String → Option Library) (s : Session M)
    (requests : List Request) (name : String) : Prop :=
  (∃ path utilities, Taken opens (paths dirs name) path (.table utilities)) ∧
    ∃ front index, front ++ [.call name index] <+: requests ∧
      (after opens front s).loader.known.lookup name = none

/-- One more request makes the library of a name known if it is a call that does. -/
theorem loads_concat (requests : List Request) (r : Request) (name : String) :
    Loads dirs opens s (requests ++ [r]) name ↔ Loads dirs opens s requests name ∨
      (∃ path utilities, Taken opens (paths dirs name) path (.table utilities)) ∧
        (after opens requests s).loader.known.lookup name = none ∧
        ∃ index, r = .call name index := by
  unfold Loads
  rw [← and_or_left]
  refine and_congr_right fun _ => ⟨?_, ?_⟩
  · rintro ⟨front, index, hprefix, hnone⟩
    rcases List.prefix_concat_iff.1 hprefix with heq | hprefix
    · obtain ⟨rfl, hlast⟩ := List.append_inj' heq rfl
      exact .inr ⟨hnone, index, (List.cons.inj hlast).1.symm⟩
    · exact .inl ⟨front, index, hprefix, hnone⟩
  · rintro (⟨front, index, hprefix, hnone⟩ | ⟨hnone, index, rfl⟩)
    · exact ⟨front, index, hprefix.trans (List.prefix_append _ _), hnone⟩
    · exact ⟨requests, index, List.prefix_rfl, hnone⟩

/-- An account of the searches that succeeded in the course of some requests. -/
structure Account (dirs : List String) (opens : String → Option Library) (log : Log)
    (scope : Utility.Scope M) (requests : List Request) (loads : List Load) : Prop where
  /-- No name is searched for again once its library has been found. -/
  nodup : (loads.map Load.name).Nodup
  taken : ∀ l ∈ loads, Taken opens (paths dirs l.name) l.path (.table l.utilities)
  /-- Each of them leaves one line in the log, and nothing else does. -/
  log_eq : (after opens requests (start dirs log scope)).log =
    loads.foldl (fun log l => log.info l.message) log
  known : ∀ l ∈ loads,
    ((after opens requests (start dirs log scope)).loader.known.lookup l.name).isSome
  mem_iff : ∀ name, name ∈ loads.map Load.name ↔
    Loads dirs opens (start dirs log scope) requests name

section Account

variable {log : Log} {scope : Utility.Scope M} {requests : List Request} {loads : List Load}
  {r : Request}

/-- The names of libraries that were found are still known after another request. -/
theorem Account.isSome_serve (h : Account dirs opens log scope requests loads) (r : Request)
    {l : Load} (hl : l ∈ loads) :
    ((after opens (requests ++ [r]) (start dirs log scope)).loader.known.lookup l.name).isSome := by
  rw [after_concat, lookup_serve (searchDirs_after opens dirs log scope requests)]
  exact isSome_hold r (h.known l hl)

/-- A request that makes no library known and leaves the log as it is. -/
theorem Account.quiet (h : Account dirs opens log scope requests loads)
    (hlog : (stateOf (serve opens r (after opens requests (start dirs log scope)))).log =
      (after opens requests (start dirs log scope)).log)
    (hnone : ∀ name index, r = .call name index →
      (after opens requests (start dirs log scope)).loader.known.lookup name = none →
      ∀ path utilities, ¬ Taken opens (paths dirs name) path (.table utilities)) :
    Account dirs opens log scope (requests ++ [r]) loads where
  nodup := h.nodup
  taken := h.taken
  log_eq := by rw [after_concat, hlog, h.log_eq]
  known l hl := h.isSome_serve r hl
  mem_iff name := by
    rw [h.mem_iff, loads_concat]
    refine (or_iff_left ?_).symm
    rintro ⟨⟨path, utilities, htaken⟩, hlookup, index, hcall⟩
    exact hnone name index hcall hlookup path utilities htaken

/-- A call that makes the library of a name known and logs that. -/
theorem Account.grows (h : Account dirs opens log scope requests loads) {l : Load} {index : Word}
    (hnone : (after opens requests (start dirs log scope)).loader.known.lookup l.name = none)
    (htaken : Taken opens (paths dirs l.name) l.path (.table l.utilities))
    (hlog : (stateOf (call opens l.name index (after opens requests (start dirs log scope)))).log =
      ((after opens requests (start dirs log scope)).loaded l).log) :
    Account dirs opens log scope (requests ++ [.call l.name index]) (loads ++ [l]) where
  nodup := by
    rw [List.map_append, List.map_singleton, ← List.concat_eq_append, List.nodup_concat]
    -- a name that was loaded before would be known
    refine ⟨fun hmem => ?_, h.nodup⟩
    obtain ⟨l', hl', hname⟩ := List.mem_map.1 hmem
    have hsome := h.known l' hl'
    rw [hname, hnone] at hsome
    cases hsome
  taken l' hl' := by
    rcases List.mem_append.1 hl' with hold | hnew
    · exact h.taken l' hold
    · obtain rfl := List.mem_singleton.1 hnew
      exact htaken
  log_eq := by
    rw [after_concat, serve, hlog, List.foldl_append, ← h.log_eq]
    rfl
  known l' hl' := by
    rcases List.mem_append.1 hl' with hold | hnew
    · exact h.isSome_serve _ hold
    · obtain rfl := List.mem_singleton.1 hnew
      have hfound := findSome?_of_taken htaken
      rw [after_concat, lookup_serve (searchDirs_after opens dirs log scope requests), hold,
        if_pos rfl, hnone, hfound]
      rfl
  mem_iff name := by
    rw [List.map_append, List.mem_append, h.mem_iff, loads_concat, List.map_singleton,
      List.mem_singleton]
    refine or_congr_right ⟨?_, ?_⟩
    · rintro rfl
      exact ⟨⟨_, _, htaken⟩, hnone, index, rfl⟩
    · rintro ⟨-, -, index', heq⟩
      exact (Request.call.inj heq).1.symm

end Account

/-- The log grows by one line for each name whose library has been made known. -/
theorem exists_account (dirs : List String) (opens : String → Option Library) (log : Log)
    (scope : Utility.Scope M) (requests : List Request) :
    ∃ loads, Account dirs opens log scope requests loads := by
  -- by induction on the requests from the end: the last one is quiet or makes one library known
  induction requests using List.reverseRecOn with
  | nil =>
    refine ⟨[], List.nodup_nil, nofun, rfl, nofun, fun name => ?_⟩
    refine iff_of_false (by simp) ?_
    rintro ⟨-, front, index, hprefix, -⟩
    simpa using List.prefix_nil.1 hprefix
  | append_singleton requests r ih =>
    obtain ⟨loads, h⟩ := ih
    have hdirs := searchDirs_after opens dirs log scope requests
    cases r with
    | register n entries => exact ⟨loads, h.quiet rfl nofun⟩
    | call n index =>
      rcases stateOf_call_cases opens hdirs n index with
        ⟨ext, hext, scope', hstate⟩ | ⟨-, hfails, -, hstate⟩ |
        ⟨hnone, l, rfl, htaken, -, scope', hstate⟩
      · refine ⟨loads, h.quiet (by rw [serve, hstate]) ?_⟩
        intro name index' heq hnone
        obtain ⟨rfl, -⟩ := Request.call.inj heq
        rw [hext] at hnone
        cases hnone
      · refine ⟨loads, h.quiet (by rw [serve, hstate]) ?_⟩
        intro name index' heq _
        obtain ⟨rfl, -⟩ := Request.call.inj heq
        exact hfails
      · exact ⟨loads ++ [l], h.grows hnone htaken (by rw [hstate])⟩

end

/-! ## Virtual machines -/

/-- The session of a virtual machine that is about to call a utility. -/
def ofVm (vm : Vm M) : Session M := ⟨vm.loader, vm.host.log, .ofMachine vm.machine⟩

/-- What of a session lasts when the utility has returned: what it noted and printed goes
elsewhere. -/
def core (s : Session M) : Loader × Log × M := (s.loader, s.log, s.scope.machine)

/-- Showing what an extension printed changes neither the loader nor the log nor the machine. -/
theorem core_showPrinted (vm : Vm M) (text : String) (fromLibrary : Bool) :
    (ofVm (Vm.showPrinted vm text fromLibrary)).core = (ofVm vm).core := by
  unfold Vm.showPrinted
  split <;> rfl

/-- A virtual machine looks for an extension as its session does. -/
theorem loadExtension_eq (name : String) (vm : Vm M) :
    Vm.loadExtension name vm =
      mapState (fun s => { vm with loader := s.loader, host := { vm.host with log := s.log } })
        (load (vm.libraries.open? vm.host.disk) name (ofVm vm)) := by
  unfold Vm.loadExtension load ofVm
  cases Loader.load (vm.libraries.open? vm.host.disk) name (vm.loader, vm.host.log) <;> rfl

variable [Utility.Target M]

/-- A virtual machine runs a utility as its session does. Showing what it printed comes afterwards
and touches none of this. -/
theorem core_runEntry (e : Entry) (fromLibrary : Bool) (vm : Vm M) :
    mapState (fun v => (ofVm v).core) (Vm.runEntry e fromLibrary vm) =
      mapState (fun scope => core { ofVm vm with scope }) (e.run (.ofMachine vm.machine)) := by
  obtain ⟨machine, source, trace, names, console, save, loader, libraries, host, printed, notes⟩ :=
    vm
  unfold Vm.runEntry
  cases hrun : e.run (.ofMachine machine) with
  | ok x scope => simp only [hrun, mapState_ok, core_showPrinted]; rfl
  | error f scope => simp only [hrun, mapState_error, core_showPrinted]; rfl

/-- A virtual machine calls extensions as a session does. -/
theorem core_callExtension (name : String) (index : Word) (vm : Vm M) :
    mapState (fun v => (ofVm v).core) (Vm.callExtension name index vm) =
      mapState core (call (vm.libraries.open? vm.host.disk) name index (ofVm vm)) := by
  have hvm := loadExtension_eq name vm
  unfold Vm.callExtension call
  -- the search comes first; the two differ only in where the result is kept
  cases hload : Loader.load (vm.libraries.open? vm.host.disk) name (vm.loader, vm.host.log) with
  | error e found =>
    have hs : load (vm.libraries.open? vm.host.disk) name (ofVm vm) =
        .error e ⟨found.1, found.2, .ofMachine vm.machine⟩ := by
      simp only [load, ofVm, hload, mapState_error]
    rw [hs, mapState_error] at hvm
    rw [bind_of_error hvm, bind_of_error hs, mapState_error, mapState_error]
    rfl
  | ok ext found =>
    have hs : load (vm.libraries.open? vm.host.disk) name (ofVm vm) =
        .ok ext ⟨found.1, found.2, .ofMachine vm.machine⟩ := by
      simp only [load, ofVm, hload, mapState_ok]
    let vm' : Vm M := { vm with loader := found.1, host := { vm.host with log := found.2 } }
    replace hvm : Vm.loadExtension name vm = .ok ext vm' := by rw [hvm, hs, mapState_ok]
    rw [bind_of_ok hvm, bind_of_ok hs]
    cases hentry : entry name ext index with
    | error e =>
      have hcheck : Vm.check (α := Entry) (.error e) vm' = .error e vm' := rfl
      rw [bind_of_error hcheck]
      simp only [invoke, hentry, mapState_error]
      rfl
    | ok e =>
      have hcheck : Vm.check (.ok e) vm' = .ok e vm' := rfl
      rw [bind_of_ok hcheck, core_runEntry]
      simp only [invoke, hentry]
      cases e.run (.ofMachine vm.machine) <;> rfl

/-- The calls of a virtual machine that fault before a utility runs. They leave all of it as it
was, its console and save file included. -/
structure Refuses (name : String) (index : Word) (vm : Vm M) : Prop where
  notFound : vm.loader.known.lookup name = none →
    (∀ p ∈ paths vm.loader.searchDirs name, vm.libraries.open? vm.host.disk p = none) →
    ∃ reason, Vm.callExtension name index vm =
      .error (.extensionNotFound name (paths vm.loader.searchDirs name) reason) vm
  missing : vm.loader.known.lookup name = none → ∀ path,
    Taken (vm.libraries.open? vm.host.disk) (paths vm.loader.searchDirs name) path .bare →
    Vm.callExtension name index vm = .error (.missingInitializer name) vm
  outOfRange : ∀ ext, vm.loader.known.lookup name = some ext → ext.entries.length ≤ index.toNat →
    Vm.callExtension name index vm =
      .error (.utilityIndexOutOfRange name index ext.entries.length) vm

/-- A call whose search fails is over, and leaves the virtual machine as it was. -/
theorem callExtension_of_load_error {vm : Vm M} {name : String} {e : Fault} (index : Word)
    (h : load (vm.libraries.open? vm.host.disk) name (ofVm vm) = .error e (ofVm vm)) :
    Vm.callExtension name index vm = .error e vm := by
  refine bind_of_error ?_
  rw [loadExtension_eq, h, mapState_error]
  rfl

/-- The calls that fault before a utility runs leave the whole virtual machine alone. -/
theorem refuses (name : String) (index : Word) (vm : Vm M) : Refuses name index vm where
  notFound hnone hfails := by
    obtain ⟨reason, hload⟩ : ∃ reason, load (vm.libraries.open? vm.host.disk) name (ofVm vm) =
        .error (.extensionNotFound name (paths vm.loader.searchDirs name) reason) (ofVm vm) :=
      load_of_fails hnone hfails
    exact ⟨reason, callExtension_of_load_error index hload⟩
  missing hnone path htaken :=
    callExtension_of_load_error index (load_of_bare (s := ofVm vm) hnone htaken)
  outOfRange ext hknown hle := by
    have hload : Vm.loadExtension name vm = .ok ext vm := by
      rw [loadExtension_eq, load_of_known (s := ofVm vm) hknown, mapState_ok]
      rfl
    have hentry : entry name ext index =
        .error (.utilityIndexOutOfRange name index ext.entries.length) := by
      rw [entry, List.getElem?_eq_none hle]
    refine (bind_of_ok hload).trans (bind_of_error ?_)
    rw [hentry]
    rfl

/-- A loader remembers what it finds and forgets its failures. After any requests, what a name is
known as is what it was last registered as, or what its library held when a call first found it; the
log has one line for each library found. The next call of a name that is not known searches the
paths in order, and the first that opens decides. If none opens or the library lacks an initializer,
the call faults and leaves everything as it was; otherwise the extension is known and logged from
then on. A call of a name that is known does not search, runs the utility at its index, and faults
without changing anything if there is none. A virtual machine calls extensions in this way. -/
theorem loading_is_cached (dirs : List String) (opens : String → Option Library) (log : Log)
    (scope : Utility.Scope M) (requests : List Request) :
    (∀ name, (after opens requests (start dirs log scope)).loader.known.lookup name =
      requests.foldl (hold name (inLibrary? ((paths dirs name).findSome? opens))) none) ∧
    (∃ loads, Account dirs opens log scope requests loads) ∧
    (∀ name index, CallSpec dirs opens name index (after opens requests (start dirs log scope))) ∧
    (∀ name ext index (s : Session M),
      (∀ e, ext.entries[index.toNat]? = some e →
        invoke name ext index s = mapState (fun scope => { s with scope }) (e.run s.scope)) ∧
      (ext.entries.length ≤ index.toNat → invoke name ext index s =
        .error (.utilityIndexOutOfRange name index ext.entries.length) s)) ∧
    ∀ name index (vm : Vm M), Refuses name index vm ∧
      mapState (fun v => (ofVm v).core) (Vm.callExtension name index vm) =
        mapState core (call (vm.libraries.open? vm.host.disk) name index (ofVm vm)) :=
  ⟨lookup_after opens dirs log scope requests, exists_account dirs opens log scope requests,
    fun _ _ => callSpec (searchDirs_after opens dirs log scope requests),
    fun _ _ _ _ => ⟨fun _ => invoke_of_some, invoke_of_le⟩,
    fun name index vm => ⟨refuses name index vm, core_callExtension name index vm⟩⟩

/-- A first call with an index that is out of range leaves its library known; a library without an
initializer and one that is not there are searched for again. -/
theorem loading_is_cached_twice :
    let opens (path : String) : Option Library :=
      if path = "d/liba.so" then some (.table [.done]) else
      if path = "./libb.so" then some .bare else none
    let s : Session := after opens [.call "a" 5, .call "b" 0, .call "c" 0]
      (start ["d"] .empty (.ofMachine default))
    (∀ opens', call opens' "a" 5 s = .error (.utilityIndexOutOfRange "a" 5 1) s) ∧
      call opens "b" 0 s = .error (.missingInitializer "b") s ∧
      ∃ reason, call opens "c" 0 s =
        .error (.extensionNotFound "c" ["libc.so", "./libc.so", "d/libc.so"] reason) s := by
  intro opens s
  obtain ⟨hknown, -, hcall, hinvoke, -⟩ := loading_is_cached ["d"] opens .empty
    (.ofMachine (default : Machine)) [.call "a" 5, .call "b" 0, .call "c" 0]
  refine ⟨fun opens' => ?_, ?_, ?_⟩
  · have ha : s.loader.known.lookup "a" = some ⟨[.bridged .done], true⟩ := hknown "a"
    exact ((hcall "a" 5).known _ ha opens').trans ((hinvoke "a" _ 5 _).2 (by decide))
  · have hb : s.loader.known.lookup "b" = none := hknown "b"
    exact (hcall "b" 0).missing hb "./libb.so"
      ⟨["libb.so"], ["d/libb.so"], by decide, by simp [opens], by simp [opens]⟩
  · have hc : s.loader.known.lookup "c" = none := hknown "c"
    have hpaths : paths ["d"] "c" = ["libc.so", "./libc.so", "d/libc.so"] := by decide
    exact (hcall "c" 0).notFound hc (by simp [hpaths, opens])

end Session

end WordMachine.Loader

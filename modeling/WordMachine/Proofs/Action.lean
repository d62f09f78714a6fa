/-!
# Actions that may fault

An action gives a result or a fault, and leaves a state behind in both cases (`stateOf`). A sequence
of two actions ends where the first one faults, or goes on in the state that the first one left
(`bind_of_ok`, `bind_of_error`). So a property that each of them keeps, however it ends, is kept by
the sequence (`Preserves.bind`).
-/

namespace WordMachine

variable {ε σ α β : Type}

/-- The state that a result leaves behind, whether it is a fault or not. -/
def stateOf : EStateM.Result ε σ α → σ
  | .ok _ s => s
  | .error _ s => s

/-- A result leaves the state that it comes with. -/
@[simp]
theorem stateOf_ok (x : α) (s : σ) : stateOf (.ok x s : EStateM.Result ε σ α) = s := rfl

/-- A fault leaves the state that it comes with. -/
@[simp]
theorem stateOf_error (e : ε) (s : σ) : stateOf (.error e s : EStateM.Result ε σ α) = s := rfl

/-- Without a state, a sequence gives a result where both parts do. -/
theorem bind_eq_ok_iff {x : Except ε α} {f : α → Except ε β} {b : β} :
    x >>= f = .ok b ↔ ∃ a, x = .ok a ∧ f a = .ok b := by
  cases x <;> simp [bind, Except.bind]

variable {act : EStateM ε σ α} {k : α → EStateM ε σ β} {s t : σ}

/-- A sequence whose first action gives a result goes on from where that action led. -/
theorem bind_of_ok {x : α} (h : act s = .ok x t) : (act >>= k) s = k x t := by
  change EStateM.bind act k s = _
  rw [EStateM.bind, h]

/-- A sequence whose first action faults ends there. -/
theorem bind_of_error {e : ε} (h : act s = .error e t) : (act >>= k) s = .error e t := by
  change EStateM.bind act k s = _
  rw [EStateM.bind, h]

/-- A sequence that starts with a change of the state goes on in the changed state. -/
theorem modify_bind_eq {f : σ → σ} {k : PUnit → EStateM ε σ β} :
    ((modify f : EStateM ε σ PUnit) >>= k) s = k ⟨⟩ (f s) := rfl

/-- A sequence that starts by looking at the state goes on with that state. -/
theorem get_bind_eq {k : σ → EStateM ε σ β} : ((get : EStateM ε σ σ) >>= k) s = k s s := rfl

/-- A sequence that faults does so in its first action, or in the second where the first led. -/
theorem bind_eq_error {e : ε} (h : (act >>= k) s = .error e t) :
    act s = .error e t ∨ ∃ x s', act s = .ok x s' ∧ k x s' = .error e t := by
  cases hact : act s with
  | ok x s' =>
    rw [bind_of_ok hact] at h
    exact .inr ⟨x, s', rfl, h⟩
  | error e' s' =>
    rw [bind_of_error hact] at h
    obtain ⟨rfl, rfl⟩ := EStateM.Result.error.inj h
    exact .inl rfl

/-- A sequence that gives a result has one of its first action, and goes on from there. -/
theorem bind_eq_ok {y : β} (h : (act >>= k) s = .ok y t) :
    ∃ x s', act s = .ok x s' ∧ k x s' = .ok y t := by
  cases hact : act s with
  | ok x s' =>
    rw [bind_of_ok hact] at h
    exact ⟨x, s', rfl, h⟩
  | error e s' =>
    rw [bind_of_error hact] at h
    cases h

/-- Actions that do the same in a state start sequences that do the same there. -/
theorem bind_congr_left {act' : EStateM ε σ α} (h : act s = act' s) :
    (act >>= k) s = (act' >>= k) s := by
  change EStateM.bind act k s = EStateM.bind act' k s
  rw [EStateM.bind, EStateM.bind, h]

/-- What follows an action matters only in the state that the action leads to. -/
theorem bind_congr_of_ok {k' : α → EStateM ε σ β} (h : ∀ x t, act s = .ok x t → k x t = k' x t) :
    (act >>= k) s = (act >>= k') s := by
  cases hact : act s with
  | ok x t => rw [bind_of_ok hact, bind_of_ok hact, h x t hact]
  | error e t => rw [bind_of_error hact, bind_of_error hact]

/-- Giving another result does not change the state that is left behind. -/
theorem stateOf_bind_pure (f : α → β) :
    stateOf ((act >>= fun x => (pure (f x) : EStateM ε σ β)) s) = stateOf (act s) := by
  cases hact : act s with
  | ok x t =>
    rw [bind_of_ok hact]
    rfl
  | error e t =>
    rw [bind_of_error hact]
    rfl

/-! ## Properties that actions keep -/

variable {p : σ → Prop}

/-- The action keeps a property of the state, whether it faults or not. -/
def Preserves (p : σ → Prop) (act : EStateM ε σ α) : Prop := ∀ s, p s → p (stateOf (act s))

/-- Giving a result keeps every property. -/
theorem preserves_pure (x : α) : Preserves p (pure x : EStateM ε σ α) := fun _ h => h

/-- Faulting keeps every property. -/
theorem preserves_throw (e : ε) : Preserves p (throw e : EStateM ε σ α) := fun _ h => h

/-- Looking at the state keeps every property. -/
theorem preserves_get : Preserves p (get : EStateM ε σ σ) := fun _ h => h

/-- A change of the state keeps what the function behind it keeps. -/
theorem preserves_modify {g : σ → σ} (hg : ∀ s, p s → p (g s)) :
    Preserves p (modify g : EStateM ε σ PUnit) := hg

/-- What holds where an action leads is kept by what follows it. -/
theorem stateOf_bind (h : p (stateOf (act s))) (hk : ∀ x, Preserves p (k x)) :
    p (stateOf ((act >>= k) s)) := by
  cases hs : act s with
  | ok x t =>
    rw [hs, stateOf_ok] at h
    rw [bind_of_ok hs]
    exact hk x t h
  | error e t =>
    rw [hs, stateOf_error] at h
    rw [bind_of_error hs]
    exact h

/-- A sequence keeps what both of its parts keep. -/
theorem Preserves.bind (h : Preserves p act) (hk : ∀ x, Preserves p (k x)) :
    Preserves p (act >>= k) := fun s hs => stateOf_bind (h s hs) hk

/-- A choice between two actions keeps what both of them keep. -/
theorem preserves_ite {c : Prop} [Decidable c] {act' : EStateM ε σ α} (h : Preserves p act)
    (h' : Preserves p act') : Preserves p (if c then act else act') := by
  split
  · exact h
  · exact h'

/-- A check in front of an action. -/
theorem preserves_guard {c : Prop} [Decidable c] {e : ε} {k : PUnit → EStateM ε σ α}
    (h : Preserves p (k ())) : Preserves p (if c then throw e >>= k else k ()) :=
  preserves_ite ((preserves_throw e).bind fun _ => h) h

/-- What an action keeps holds of the state that its result comes with. -/
theorem Preserves.of_ok {x : α} (h : Preserves p act) (hs : p s) (hact : act s = .ok x t) :
    p t := by
  have hstate := h s hs
  rwa [hact, stateOf_ok] at hstate

end WordMachine

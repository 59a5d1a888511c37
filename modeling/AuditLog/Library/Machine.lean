import Mathlib.Tactic.TypeStar

/-!
# Runs of a partial step function

`step a s` is `none` where the action `a` is not enabled in `s`. A run may be
restricted to actions that meet a condition in the state they are taken in.
-/

namespace Machine

variable {σ α : Type*} (step : α → σ → Option σ)

/-- The states reached from `s` by actions that meet `ok` where they are taken. -/
inductive Reaches (ok : σ → α → Prop) (s : σ) : σ → Prop where
  | refl : Reaches ok s s
  | tail {t u : σ} {a : α} (run : Reaches ok s t) (hok : ok t a) (hstep : step a t = some u) :
      Reaches ok s u

variable {step} {ok ok' : σ → α → Prop} {s t u : σ}

/-- **The invariant rule**: what holds initially and is kept by every step of the
run holds in every state it reaches. -/
theorem Reaches.invariant {P : σ → Prop} (h : Reaches step ok s t) (hinit : P s)
    (hkeep : ∀ t u a, Reaches step ok s t → ok t a → step a t = some u → P t → P u) : P t := by
  induction h with
  | refl => exact hinit
  | tail run hok hstep ih => exact hkeep _ _ _ run hok hstep ih

theorem Reaches.mono (h : Reaches step ok s t) (hsub : ∀ t a, ok t a → ok' t a) :
    Reaches step ok' s t := by
  induction h with
  | refl => exact .refl
  | tail run hok hstep ih => exact ih.tail (hsub _ _ hok) hstep

theorem Reaches.head {a : α} (hok : ok s a) (hstep : step a s = some t) (h : Reaches step ok t u) :
    Reaches step ok s u := by
  induction h with
  | refl => exact Reaches.refl.tail hok hstep
  | tail run hok' hstep' ih => exact ih.tail hok' hstep'

theorem Reaches.trans (h : Reaches step ok s t) (h' : Reaches step ok t u) : Reaches step ok s u := by
  induction h' with
  | refl => exact h
  | tail run hok hstep ih => exact ih.tail hok hstep

/-- **The simulation rule**: a machine whose steps are steps of another one or change
nothing there has only its runs. -/
theorem Reaches.simulate {σ' α' : Type*} {step' : α' → σ' → Option σ'} {ok' : σ' → α' → Prop}
    (f : σ → σ') (hsim : ∀ s t a, ok s a → step a s = some t →
      f t = f s ∨ ∃ a', ok' (f s) a' ∧ step' a' (f s) = some (f t))
    (h : Reaches step ok s t) : Reaches step' ok' (f s) (f t) := by
  induction h with
  | refl => exact .refl
  | tail run hok hstep ih =>
    rcases hsim _ _ _ hok hstep with hsame | ⟨a', hok', hstep'⟩
    · rw [hsame]
      exact ih
    · exact ih.tail hok' hstep'

/-- **The simulation rule for a relation**: where every step between states of the run is
followed by a run of another machine, from related to related states, the run is followed. -/
theorem Reaches.follow {σ' α' : Type*} {step' : α' → σ' → Option σ'} {ok' : σ' → α' → Prop}
    {R : σ → σ' → Prop} {s' : σ'} (h : Reaches step ok s t) (hinit : R s s')
    (hsim : ∀ t u a t', Reaches step ok s t → ok t a → step a t = some u → R t t' →
      ∃ u', Reaches step' ok' t' u' ∧ R u u') :
    ∃ t', Reaches step' ok' s' t' ∧ R t t' := by
  induction h with
  | refl => exact ⟨s', .refl, hinit⟩
  | tail run hok hstep ih =>
    obtain ⟨t', hrun', hrel⟩ := ih
    obtain ⟨u', hnext, hrel'⟩ := hsim _ _ _ _ run hok hstep hrel
    exact ⟨u', hrun'.trans hnext, hrel'⟩

/-! ## Observed runs -/

section Observed

variable {ω : Type*}

/-- The machine that also writes down what `observe` sees of every step. -/
def observed (step : α → σ → Option σ) (observe : σ → α → List ω) (a : α) (s : σ × List ω) :
    Option (σ × List ω) :=
  (step a s.1).map fun t => (t, s.2 ++ observe s.1 a)

variable {observe : σ → α → List ω}

theorem observed_eq_some_iff {a : α} {s t : σ × List ω} :
    observed step observe a s = some t ↔ step a s.1 = some t.1 ∧ t.2 = s.2 ++ observe s.1 a := by
  unfold observed
  rw [Option.map_eq_some_iff]
  constructor
  · rintro ⟨u, hstep, rfl⟩
    exact ⟨hstep, rfl⟩
  · rintro ⟨hstep, hlog⟩
    exact ⟨t.1, hstep, by rw [← hlog]⟩

/-- Forgetting what was written down gives a run of the machine. -/
theorem Reaches.of_observed {ok' : σ × List ω → α → Prop} {s t : σ × List ω}
    (h : Reaches (observed step observe) ok' s t) (hsub : ∀ s a, ok' s a → ok s.1 a) :
    Reaches step ok s.1 t.1 :=
  h.simulate Prod.fst fun s _ a hok hstep =>
    Or.inr ⟨a, hsub s a hok, (observed_eq_some_iff.mp hstep).1⟩

/-- Every run can be observed. -/
theorem Reaches.exists_observed (h : Reaches step ok s t) (log : List ω) :
    ∃ log', Reaches (observed step observe) (fun s a => ok s.1 a) (s, log) (t, log') := by
  induction h with
  | refl => exact ⟨log, .refl⟩
  | tail run hok hstep ih =>
    obtain ⟨log', hrun⟩ := ih
    exact ⟨_, hrun.tail hok (observed_eq_some_iff.mpr ⟨hstep, rfl⟩)⟩

end Observed

/-! ## Schedules -/

variable (step) in
/-- Take the actions in turn, each only where it is enabled and meets `ok`. -/
def schedule (ok : σ → α → Prop) [∀ s a, Decidable (ok s a)] : List α → σ → Option σ
  | [], s => some s
  | a :: as, s => if ok s a then (step a s).bind (schedule ok as) else none

theorem reaches_of_schedule [∀ s a, Decidable (ok s a)] {as : List α}
    (h : schedule step ok as s = some t) : Reaches step ok s t := by
  induction as generalizing s with
  | nil =>
    cases h
    exact .refl
  | cons a as ih =>
    unfold schedule at h
    split at h
    · rename_i hok
      rcases Option.bind_eq_some_iff.mp h with ⟨u, hstep, hrest⟩
      exact Reaches.head hok hstep (ih hrest)
    · cases h

end Machine

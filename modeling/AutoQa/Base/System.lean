/-!
# Systems that take steps

A system is a partial step function: a step that is not enabled has no result.
A schedule is a list of steps, and what a system does in any order of its steps
is what it does under all schedules.
-/

namespace AutoQa.Base

universe u v

variable {σ : Type u} {ℓ : Type v} (step : σ → ℓ → Option σ)

/-- The state after a schedule, if every step of it is enabled. -/
def exec : σ → List ℓ → Option σ
  | s, [] => some s
  | s, l :: ls => (step s l).bind fun t => exec t ls

/-- Every step of the schedule meets `C` in the state it is taken in. -/
def Along (C : σ → ℓ → Prop) : σ → List ℓ → Prop
  | _, [] => True
  | s, l :: ls => C s l ∧ ∀ t ∈ step s l, Along C t ls

instance decidableAlong (C : σ → ℓ → Prop) [∀ s l, Decidable (C s l)] :
    ∀ s ls, Decidable (Along step C s ls)
  | _, [] => .isTrue trivial
  | s, l :: ls =>
    have : DecidablePred fun t => Along step C t ls := fun t => decidableAlong C t ls
    inferInstanceAs (Decidable (C s l ∧ ∀ t ∈ step s l, Along step C t ls))

/-- The state is reached on the way through the schedule. -/
def Visits (s : σ) (ls : List ℓ) (u : σ) : Prop :=
  ∃ before after, ls = before ++ after ∧ exec step s before = some u

variable {step}

theorem exec_append (s : σ) (ls ls' : List ℓ) :
    exec step s (ls ++ ls') = (exec step s ls).bind fun t => exec step t ls' := by
  induction ls generalizing s with
  | nil => rfl
  | cons l ls ih =>
    rw [List.cons_append, exec, exec, Option.bind_assoc]
    exact congrArg (Option.bind (step s l)) (funext ih)

/-- An invariant that the steps under `C` keep holds after every schedule whose
steps meet `C`. -/
theorem exec_invariant {C : σ → ℓ → Prop} {I : σ → Prop}
    (hstep : ∀ s l t, I s → C s l → step s l = some t → I t) {ls : List ℓ} :
    ∀ {s t : σ}, I s → Along step C s ls → exec step s ls = some t → I t := by
  induction ls with
  | nil =>
    intro s t hs _ hrun
    cases hrun
    exact hs
  | cons l ls ih =>
    intro s t hs halong hrun
    obtain ⟨u, hu, hrest⟩ := Option.bind_eq_some_iff.mp hrun
    exact ih (hstep s l u hs halong.1 hu) (halong.2 u hu) hrest

/-- An invariant that every step keeps holds after every schedule. -/
theorem exec_keeps {I : σ → Prop} (hstep : ∀ s l t, I s → step s l = some t → I t)
    {ls : List ℓ} : ∀ {s t : σ}, I s → exec step s ls = some t → I t := by
  induction ls with
  | nil =>
    intro s t hs hrun
    cases hrun
    exact hs
  | cons l ls ih =>
    intro s t hs hrun
    obtain ⟨u, hu, hrest⟩ := Option.bind_eq_some_iff.mp hrun
    exact ih (hstep s l u hs hu) hrest

/-- The same of the steps between states that are reached on the way. -/
theorem exec_visits {I : σ → Prop} {s t : σ} {ls : List ℓ}
    (hstep : ∀ u l v, I u → Visits step s ls u → Visits step s ls v → step u l = some v → I v)
    (hs : I s) (hrun : exec step s ls = some t) : I t := by
  have hrest : ∀ (after before : List ℓ) (u : σ), ls = before ++ after →
      exec step s before = some u → I u → exec step u after = some t → I t := by
    intro after
    induction after with
    | nil =>
      intro before u _ _ hu hend
      cases hend
      exact hu
    | cons l after ih =>
      intro before u hls hbefore hu hafter
      obtain ⟨v, hv, hend⟩ := Option.bind_eq_some_iff.mp hafter
      have hnext : exec step s (before ++ [l]) = some v := by
        rw [exec_append, hbefore]
        show (step u l).bind some = some v
        rw [hv]
        rfl
      have hsplit : ls = (before ++ [l]) ++ after := by
        rw [hls, List.append_assoc, List.singleton_append]
      exact ih (before ++ [l]) v hsplit hnext
        (hstep u l v hu ⟨before, l :: after, hls, hbefore⟩ ⟨_, after, hsplit, hnext⟩ hv) hend
  exact hrest ls [] s rfl rfl hs hrun

end AutoQa.Base

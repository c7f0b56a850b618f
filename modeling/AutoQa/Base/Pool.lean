import AutoQa.Base.Proc
import AutoQa.Base.System

/-!
# Processes that share a state

Several processes over one state, each waiting at one of its operations. A step
names the process that gets its reply, so a schedule is a list of positions and
the schedules are the interleavings.
-/

namespace AutoQa.Base

structure Pool (O : Type → Type) (σ α : Type) where
  shared : σ
  procs : List (Proc O α)

namespace Pool

variable {O : Type → Type} {σ α : Type} (handle : {ρ : Type} → O ρ → Prog σ ρ)

/-- The `i`-th process gets the reply it waits for. -/
def step (s : Pool O σ α) (i : Nat) : Option (Pool O σ α) :=
  match s.procs[i]? with
  | some (.step o k) => some ⟨(handle o s.shared).2, s.procs.set i (k (handle o s.shared).1)⟩
  | _ => none

/-- Every process has returned or thrown. -/
def Finished (s : Pool O σ α) : Prop := ∀ p ∈ s.procs, ∃ r, p = .done r

instance decidableFinished (s : Pool O σ α) : Decidable s.Finished :=
  decidable_of_iff (∀ p ∈ s.procs, p.isDone = true)
    (forall₂_congr fun p _ => p.isDone_iff)

variable {handle} {s t : Pool O σ α} {i : Nat}

theorem step_cases (h : step handle s i = some t) :
    ∃ (ρ : Type) (o : O ρ) (k : Except String ρ → Proc O α), s.procs[i]? = some (.step o k) ∧
      t = ⟨(handle o s.shared).2, s.procs.set i (k (handle o s.shared).1)⟩ := by
  unfold step at h
  split at h
  · rename_i o k hproc
    cases h
    exact ⟨_, o, k, hproc, rfl⟩
  · cases h

theorem step_some {ρ : Type} {o : O ρ} {k : Except String ρ → Proc O α}
    (h : s.procs[i]? = some (.step o k)) :
    step handle s i = some ⟨(handle o s.shared).2, s.procs.set i (k (handle o s.shared).1)⟩ := by
  simp [step, h]

/-- What every process has, every process has after a step, if the one that
steps keeps it. -/
theorem forall_set {P : Proc O α → Prop} {procs : List (Proc O α)} (hall : ∀ p ∈ procs, P p)
    (i : Nat) {q : Proc O α} (hq : P q) : ∀ p ∈ procs.set i q, P p := by
  intro p hp
  rcases List.mem_or_eq_of_mem_set hp with hp | rfl
  · exact hall p hp
  · exact hq

end Pool

end AutoQa.Base

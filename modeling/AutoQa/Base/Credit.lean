import AutoQa.Base.Pool
import Mathlib.Algebra.BigOperators.Group.List.Basic
import Mathlib.Algebra.Order.Group.Nat
import Mathlib.Algebra.Order.Monoid.Prod
import Mathlib.Tactic.Abel

/-!
# Credit

Two books over a state that processes share: what was earned and what was spent.
A process spends out of its own credit, which grows by what its own steps earn.
`Affords` judges one process on its own, in whatever states its steps find; then
processes that can afford what they do never spend together what was not earned.
-/

set_option linter.unusedSectionVars false

namespace AutoQa.Base

structure Books (σ M : Type) where
  earned : σ → M
  spent : σ → M

/-- What a reply is worth; an exception is worth nothing. -/
def owed {α M : Type} [Zero M] (f : α → M) : Except String α → M
  | .ok a => f a
  | .error _ => 0

section

variable {O : Type → Type} {σ M α β ρ : Type} [AddCommMonoid M] [PartialOrder M]
  [IsOrderedAddMonoid M] [CanonicallyOrderedAdd M]

/-- Between two states `gain` is earned and `cost` is spent. -/
def Books.Enters (B : Books σ M) (gain cost : M) (s t : σ) : Prop :=
  B.earned t = B.earned s + gain ∧ B.spent t = B.spent s + cost

namespace Books.Enters

variable {B : Books σ M} {gain cost gain' cost' : M} {s t u : σ}

theorem trans (h : B.Enters gain cost s t) (h' : B.Enters gain' cost' t u) :
    B.Enters (gain + gain') (cost + cost') s u := by
  refine ⟨?_, ?_⟩
  · rw [h'.1, h.1, add_assoc]
  · rw [h'.2, h.2, add_assoc]

end Books.Enters

variable (B : Books σ M) (handle : {ρ : Type} → O ρ → Prog σ ρ)

/-- Out of the credit `c` and what it earns, `p` pays for what it spends and has at
least `Q` left on its way out. -/
def Affords (Q : Except String α → M) : Proc O α → M → Prop
  | .done r, c => Q r ≤ c
  | .step o k, c => ∀ s, ∃ gain cost c', B.Enters gain cost s (handle o s).2 ∧
      cost + c' ≤ c + gain ∧ Affords Q (k (handle o s).1) c'

variable {B handle} {Q Q' : Except String α → M} {R : Except String β → M} {c d : M}

namespace Affords

theorem credit {p : Proc O α} (h : Affords B handle Q p c) (hle : c ≤ d) :
    Affords B handle Q p d := by
  cases p with
  | done r => exact le_trans h hle
  | step o k =>
    intro s
    obtain ⟨gain, cost, c', henters, hpays, hrest⟩ := h s
    exact ⟨gain, cost, c', henters, hpays.trans (add_le_add_left hle gain), hrest⟩

theorem mono {p : Proc O α} (h : Affords B handle Q p c) (hle : ∀ r, Q' r ≤ Q r) :
    Affords B handle Q' p c := by
  induction p generalizing c with
  | done r => exact (hle r).trans h
  | step o k ih =>
    intro s
    obtain ⟨gain, cost, c', henters, hpays, hrest⟩ := h s
    exact ⟨gain, cost, c', henters, hpays, ih _ hrest⟩

theorem done {r : Except String α} (h : Q r ≤ c) : Affords B handle Q (.done r) c := h

/-- One operation, which leaves what its reply needs. -/
theorem call {o : O ρ} {Q : Except String ρ → M}
    (h : ∀ s, ∃ gain cost, B.Enters gain cost s (handle o s).2 ∧
      cost + Q (handle o s).1 ≤ c + gain) :
    Affords B handle Q (Proc.call o) c := by
  intro s
  obtain ⟨gain, cost, henters, hpays⟩ := h s
  exact ⟨gain, cost, Q (handle o s).1, henters, hpays, le_refl _⟩

theorem bind {p : Proc O α} {f : α → Proc O β} (hp : Affords B handle Q p c)
    (hok : ∀ a, Affords B handle R (f a) (Q (.ok a)))
    (herr : ∀ e, R (.error e) ≤ Q (.error e)) : Affords B handle R (p >>= f) c := by
  show Affords B handle R (p.bind f) c
  induction p generalizing c with
  | done r =>
    cases r with
    | ok a => exact (hok a).credit hp
    | error e => exact (herr e).trans hp
  | step o k ih =>
    intro s
    obtain ⟨gain, cost, c', henters, hpays, hrest⟩ := hp s
    exact ⟨gain, cost, c', henters, hpays, ih _ hrest⟩

theorem attempt {p : Proc O α} {Q : Except String (Except String α) → M}
    (hp : Affords B handle (fun r => Q (.ok r)) p c) : Affords B handle Q p.attempt c := by
  induction p generalizing c with
  | done r => exact hp
  | step o k ih =>
    intro s
    obtain ⟨gain, cost, c', henters, hpays, hrest⟩ := hp s
    exact ⟨gain, cost, c', henters, hpays, ih _ hrest⟩

theorem tryCatch {p : Proc O α} {h : String → Proc O α} (hp : Affords B handle Q p c)
    (hok : ∀ a, Q' (.ok a) ≤ Q (.ok a))
    (herr : ∀ e, Affords B handle Q' (h e) (Q (.error e))) :
    Affords B handle Q' (p.tryCatch h) c := by
  show Affords B handle Q' (p.attempt.bind _) c
  induction p generalizing c with
  | done r =>
    cases r with
    | ok a => exact (hok a).trans hp
    | error e => exact (herr e).credit hp
  | step o k ih =>
    intro s
    obtain ⟨gain, cost, c', henters, hpays, hrest⟩ := hp s
    exact ⟨gain, cost, c', henters, hpays, ih _ hrest⟩

theorem lift {P : Type → Type} {f : {ρ : Type} → P ρ → O ρ} {p : Proc P α}
    (hp : Affords B (fun o => handle (f o)) Q p c) : Affords B handle Q (p.lift f) c := by
  induction p generalizing c with
  | done r => exact hp
  | step o k ih =>
    intro s
    obtain ⟨gain, cost, c', henters, hpays, hrest⟩ := hp s
    exact ⟨gain, cost, c', henters, hpays, ih _ hrest⟩

/-- Credit that is set aside stays. -/
theorem frame {p : Proc O α} (h : Affords B handle Q p c) (d : M) :
    Affords B handle (fun r => Q r + d) p (c + d) := by
  induction p generalizing c with
  | done r => exact add_le_add_left h d
  | step o k ih =>
    intro s
    obtain ⟨gain, cost, c', henters, hpays, hrest⟩ := h s
    refine ⟨gain, cost, c' + d, henters, ?_, ih _ hrest⟩
    calc cost + (c' + d) = cost + c' + d := (add_assoc _ _ _).symm
      _ ≤ c + gain + d := add_le_add_left hpays d
      _ = c + d + gain := add_right_comm _ _ _

/-- What spends nothing keeps its credit. -/
theorem of_only {p : Proc O α}
    (hp : p.Only fun o => ∀ s, ∃ gain, B.Enters gain 0 s (handle o s).2) :
    Affords B handle (fun _ => c) p c := by
  induction p with
  | done r => exact le_refl c
  | step o k ih =>
    intro s
    obtain ⟨gain, henters⟩ := hp.1 s
    refine ⟨gain, 0, c, henters, ?_, ih _ (hp.2 _)⟩
    rw [zero_add]
    exact le_self_add

end Affords

/-! ## Processes together -/

/-- Setting one entry of a list changes its sum by that entry alone. -/
theorem exists_sum_set {l : List M} {i : Nat} (h : l[i]? = some c) :
    ∃ rest, l.sum = c + rest ∧ ∀ d, (l.set i d).sum = d + rest := by
  induction l generalizing i with
  | nil => cases h
  | cons x xs ih =>
    cases i with
    | zero =>
      cases h
      exact ⟨xs.sum, List.sum_cons, fun d => List.sum_cons⟩
    | succ i =>
      obtain ⟨rest, hsum, hset⟩ := ih h
      refine ⟨x + rest, ?_, fun d => ?_⟩
      · rw [List.sum_cons, hsum, add_left_comm]
      · rw [List.set_cons_succ, List.sum_cons, hset, add_left_comm]

namespace Pool

/-- Since the state `start`, the processes spent no more than was earned and `granted`,
less the credits they still have. -/
structure Solvent (B : Books σ M) (handle : {ρ : Type} → O ρ → Prog σ ρ) (start : σ) (granted : M)
    (s : Pool O σ α) (credits : List M) : Prop where
  affords : List.Forall₂ (fun p c => Affords B handle (fun _ => 0) p c) s.procs credits
  balance : B.spent s.shared + credits.sum + B.earned start
    ≤ B.earned s.shared + B.spent start + granted

namespace Solvent

variable {start : σ} {granted : M} {s t : Pool O σ α} {credits : List M}

theorem step (h : Solvent B handle start granted s credits) {i : Nat}
    (ht : Pool.step handle s i = some t) :
    ∃ credits', Solvent B handle start granted t credits' := by
  obtain ⟨ρ, o, k, hproc, rfl⟩ := step_cases ht
  obtain ⟨hi, hget⟩ := List.getElem?_eq_some_iff.mp hproc
  have hi' : i < credits.length := h.affords.length_eq ▸ hi
  have haffords := h.affords.get hi hi'
  simp only [List.get_eq_getElem, hget] at haffords
  obtain ⟨gain, cost, c', ⟨hearned, hspent⟩, hpays, hrest⟩ := haffords s.shared
  obtain ⟨rest, hsum, hset⟩ := exists_sum_set (List.getElem?_eq_getElem hi')
  have hbalance := h.balance
  rw [hsum] at hbalance
  refine ⟨credits.set i c', ?_, ?_⟩
  · refine List.forall₂_iff_get.mpr ⟨by simp [h.affords.length_eq], fun j hj hj' => ?_⟩
    rw [List.length_set] at hj hj'
    simp only [List.get_eq_getElem, List.getElem_set]
    split
    · exact hrest
    · exact h.affords.get hj hj'
  · calc B.spent (handle o s.shared).2 + (credits.set i c').sum + B.earned start
        = B.spent s.shared + (cost + c') + rest + B.earned start := by
          rw [hspent, hset]
          abel
      _ ≤ B.spent s.shared + (credits[i] + gain) + rest + B.earned start := by gcongr
      _ = B.spent s.shared + (credits[i] + rest) + B.earned start + gain := by abel
      _ ≤ B.earned s.shared + B.spent start + granted + gain := add_le_add_left hbalance gain
      _ = B.earned (handle o s.shared).2 + B.spent start + granted := by
          rw [hearned]
          abel

/-- A process starts with the credit that it is granted. -/
theorem start_proc (h : Solvent B handle start granted s credits) {p : Proc O α}
    (hp : Affords B handle (fun _ => 0) p c) :
    Solvent B handle start (granted + c) { s with procs := s.procs ++ [p] } (credits ++ [c]) := by
  refine ⟨List.rel_append h.affords (.cons hp .nil), ?_⟩
  calc B.spent s.shared + (credits ++ [c]).sum + B.earned start
      = B.spent s.shared + credits.sum + B.earned start + c := by
        rw [List.sum_append, List.sum_singleton]
        abel
    _ ≤ B.earned s.shared + B.spent start + granted + c := add_le_add_left h.balance c
    _ = B.earned s.shared + B.spent start + (granted + c) := add_assoc _ _ _

/-- A step of no process that takes `c` back from what was spent: it is the credit of the
process that starts. -/
theorem hand_over (h : Solvent B handle start granted s credits) {shared : σ} {p : Proc O α}
    (hearned : B.earned shared = B.earned s.shared)
    (hspent : B.spent s.shared = B.spent shared + c) (hp : Affords B handle (fun _ => 0) p c) :
    Solvent B handle start granted ⟨shared, s.procs ++ [p]⟩ (credits ++ [c]) := by
  refine ⟨List.rel_append h.affords (.cons hp .nil), ?_⟩
  calc B.spent shared + (credits ++ [c]).sum + B.earned start
      = B.spent s.shared + credits.sum + B.earned start := by
        rw [hspent, List.sum_append, List.sum_singleton]
        abel
    _ ≤ B.earned shared + B.spent start + granted := by
        rw [hearned]
        exact h.balance

/-- A step of no process that earns what it spends. -/
theorem outside (h : Solvent B handle start granted s credits) {shared : σ} {gain cost : M}
    (henters : B.Enters gain cost s.shared shared) (hle : cost ≤ gain) :
    Solvent B handle start granted ⟨shared, s.procs⟩ credits := by
  obtain ⟨hearned, hspent⟩ := henters
  refine ⟨h.affords, ?_⟩
  calc B.spent shared + credits.sum + B.earned start
      = B.spent s.shared + credits.sum + B.earned start + cost := by
        rw [hspent]
        abel
    _ ≤ B.earned s.shared + B.spent start + granted + gain := add_le_add h.balance hle
    _ = B.earned shared + B.spent start + granted := by
        rw [hearned]
        abel

end Solvent

end Pool

end

end AutoQa.Base

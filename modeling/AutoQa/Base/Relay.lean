import AutoQa.Base.Pool

/-!
# Processes that hand on what they were told

A process hands out items, and gets items in the replies to its operations. It
relays if each item that it hands out was in a reply before. The judgment is
about the process alone; in a pool of such processes everything handed out was
once the answer to a question.
-/

namespace AutoQa.Base

section

variable {O : Type → Type} {σ α β ρ W : Type}

/-- What the operations hand out, and what their replies tell. -/
structure Wire (O : Type → Type) (W : Type) where
  out : {ρ : Type} → O ρ → List W
  told : {ρ : Type} → O ρ → Except String ρ → List W

/-- Every item that `p` hands out satisfies `R` or was in an earlier reply. -/
def Relays (wire : Wire O W) : Proc O α → (W → Prop) → Prop
  | .done _, _ => True
  | .step o k, R => (∀ w ∈ wire.out o, R w) ∧
      ∀ r, Relays wire (k r) fun w => R w ∨ w ∈ wire.told o r

variable {wire : Wire O W} {R R' : W → Prop}

namespace Relays

theorem mono {p : Proc O α} (h : Relays wire p R) (himp : ∀ w, R w → R' w) :
    Relays wire p R' := by
  induction p generalizing R R' with
  | done r => trivial
  | step o k ih =>
    exact ⟨fun w hw => himp w (h.1 w hw), fun r => ih r (h.2 r) fun w => Or.imp_left (himp w)⟩

/-- What hands nothing out relays. -/
theorem of_only {p : Proc O α} (hp : p.Only fun o => wire.out o = []) : Relays wire p R := by
  induction p generalizing R with
  | done r => trivial
  | step o k ih =>
    refine ⟨?_, fun r => ih r (hp.2 r)⟩
    rw [hp.1]
    exact List.forall_mem_nil _

theorem call {o : O ρ} (h : ∀ w ∈ wire.out o, R w) : Relays wire (Proc.call o) R :=
  ⟨h, fun _ => trivial⟩

theorem bind {p : Proc O α} {f : α → Proc O β} (hp : Relays wire p R)
    (hf : ∀ a (R : W → Prop), Relays wire (f a) R) : Relays wire (p >>= f) R := by
  show Relays wire (p.bind f) R
  induction p generalizing R with
  | done r =>
    cases r with
    | ok a => exact hf a R
    | error e => trivial
  | step o k ih => exact ⟨hp.1, fun r => ih r (hp.2 r)⟩

/-- What follows a question may hand on its answer. -/
theorem ask {o : O ρ} {f : ρ → Proc O β} (ho : wire.out o = [])
    (hf : ∀ a, Relays wire (f a) fun w => R w ∨ w ∈ wire.told o (.ok a)) :
    Relays wire (Proc.call o >>= f) R := by
  refine ⟨?_, fun r => ?_⟩
  · rw [ho]
    exact List.forall_mem_nil _
  · cases r with
    | ok a => exact hf a
    | error e => trivial

theorem attempt {p : Proc O α} (hp : Relays wire p R) : Relays wire p.attempt R := by
  induction p generalizing R with
  | done r => trivial
  | step o k ih => exact ⟨hp.1, fun r => ih r (hp.2 r)⟩

theorem tryCatch {p : Proc O α} {h : String → Proc O α} (hp : Relays wire p R)
    (hh : ∀ e (R : W → Prop), Relays wire (h e) R) : Relays wire (p.tryCatch h) R := by
  apply bind (attempt hp)
  intro r R'
  cases r with
  | ok a => trivial
  | error e => exact hh e R'

theorem lift {Q : Type → Type} {f : {ρ : Type} → Q ρ → O ρ} {p : Proc Q α}
    (hp : Relays ⟨fun o => wire.out (f o), fun o => wire.told (f o)⟩ p R) :
    Relays wire (p.lift f) R := by
  induction p generalizing R with
  | done r => trivial
  | step o k ih => exact ⟨hp.1, fun r => ih r (hp.2 r)⟩

end Relays

/-- A step among relaying processes: what it hands out was told before, and if the
reply tells only what satisfies `R'`, all relay from there. -/
theorem Pool.relays_step {handle : {ρ : Type} → O ρ → Prog σ ρ} {s t : Pool O σ α} {i : Nat}
    (h : ∀ p ∈ s.procs, Relays wire p R) (ht : Pool.step handle s i = some t)
    (himp : ∀ w, R w → R' w)
    (htold : ∀ (ρ : Type) (o : O ρ), t.shared = (handle o s.shared).2 →
      ∀ w ∈ wire.told o (handle o s.shared).1, R' w) :
    (∀ p ∈ t.procs, Relays wire p R') ∧ ∃ (ρ : Type) (o : O ρ), t.shared = (handle o s.shared).2 ∧
      ∀ w ∈ wire.out o, R w := by
  obtain ⟨ρ, o, k, hproc, rfl⟩ := Pool.step_cases ht
  obtain ⟨hout, hrest⟩ := h _ (List.mem_of_getElem? hproc)
  refine ⟨?_, ρ, o, rfl, hout⟩
  refine Pool.forall_set (fun p hp => (h p hp).mono himp) i ?_
  refine (hrest _).mono fun w hw => ?_
  rcases hw with hold | hnew
  · exact himp w hold
  · exact htold ρ o rfl w hnew

end

end AutoQa.Base

import AutoQa.Base.Pool

/-!
# Rely and guarantee

Processes that share a state, each with a holding: a part of the state that the
others leave alone. A discipline says what a process may do with its holding and
what it may see the others do. `Safe` judges one process on its own, with one
rule for each construct; processes that are safe on their own are safe together,
in every order of their steps.
-/

namespace AutoQa.Base

/-- A discipline for processes over the state `σ` with the holdings `γ`. -/
structure Discipline (σ γ : Type) where
  /-- What is true of the state between any two steps. -/
  inv : σ → Prop
  /-- The holding is one of this state. -/
  holds : γ → σ → Prop
  /-- Two processes may have these holdings at the same time. -/
  apart : γ → γ → Prop
  /-- What a process with this holding may see the others do. -/
  rely : γ → σ → σ → Prop
  /-- What a process may do: it ends up with another holding and another state. -/
  move : γ → σ → γ → σ → Prop
  apart_symm : ∀ {g h}, apart g h → apart h g
  rely_refl : ∀ g s, rely g s s
  rely_trans : ∀ {g s t u}, rely g s t → rely g t u → rely g s u
  holds_rely : ∀ {g s t}, holds g s → rely g s t → holds g t
  move_keeps : ∀ {g s g' t}, inv s → holds g s → move g s g' t → inv t ∧ holds g' t
  move_apart : ∀ {g h s g' t}, inv s → holds h s → apart g h → move g s g' t →
    rely h s t ∧ apart g' h

section Safe

variable {O : Type → Type} {σ γ α β ρ : Type} (D : Discipline σ γ)
  (handle : {ρ : Type} → O ρ → Prog σ ρ) (allowed : {ρ : Type} → O ρ → σ → Prop)

/-- Whatever the others do meanwhile, each step of `p` that is allowed is a move of
the discipline, and `Q` holds of its way out. -/
def Safe (Q : Except String α → γ → σ → Prop) : Proc O α → γ → σ → Prop
  | .done r, g, s => ∀ t, D.rely g s t → D.inv t → D.holds g t → Q r g t
  | .step o k, g, s => ∀ t, D.rely g s t → D.inv t → D.holds g t → allowed o t →
      ∃ g', D.move g t g' (handle o t).2 ∧ Safe Q (k (handle o t).1) g' (handle o t).2

/-- `P` of a value that is returned, `E` if a message is thrown. -/
def Ways (P : α → γ → σ → Prop) (E : γ → σ → Prop) : Except String α → γ → σ → Prop
  | .ok a => P a
  | .error _ => E

variable {D handle allowed} {Q Q' : Except String α → γ → σ → Prop}
  {T : Except String β → γ → σ → Prop} {g : γ} {s t : σ}

namespace Safe

/-- What the others do first makes no difference. -/
theorem intro {p : Proc O α}
    (h : ∀ t, D.rely g s t → D.inv t → D.holds g t → Safe D handle allowed Q p g t) :
    Safe D handle allowed Q p g s := by
  cases p with
  | done r =>
    intro t hrely hinv hholds
    exact h t hrely hinv hholds t (D.rely_refl g t) hinv hholds
  | step o k =>
    intro t hrely hinv hholds
    exact h t hrely hinv hholds t (D.rely_refl g t) hinv hholds

theorem rely {p : Proc O α} (h : Safe D handle allowed Q p g s) (hst : D.rely g s t) :
    Safe D handle allowed Q p g t := by
  cases p with
  | done r =>
    intro u htu
    exact h u (D.rely_trans hst htu)
  | step o k =>
    intro u htu
    exact h u (D.rely_trans hst htu)

theorem mono {p : Proc O α} (h : Safe D handle allowed Q p g s)
    (himp : ∀ r g t, D.inv t → D.holds g t → Q r g t → Q' r g t) :
    Safe D handle allowed Q' p g s := by
  induction p generalizing g s with
  | done r =>
    intro t hrely hinv hholds
    exact himp r g t hinv hholds (h t hrely hinv hholds)
  | step o k ih =>
    intro t hrely hinv hholds hallowed
    obtain ⟨g', hmove, hrest⟩ := h t hrely hinv hholds hallowed
    exact ⟨g', hmove, ih _ hrest⟩

theorem done {r : Except String α}
    (h : ∀ t, D.rely g s t → D.inv t → D.holds g t → Q r g t) :
    Safe D handle allowed Q (.done r) g s := h

/-- One operation: it is a move, and what it replies meets `Q` whatever comes next. -/
theorem call {o : O ρ} {Q : Except String ρ → γ → σ → Prop}
    (h : ∀ t, D.rely g s t → D.inv t → D.holds g t → allowed o t →
      ∃ g', D.move g t g' (handle o t).2 ∧ ∀ u, D.rely g' (handle o t).2 u →
        D.inv u → D.holds g' u → Q (handle o t).1 g' u) :
    Safe D handle allowed Q (Proc.call o) g s := h

/-- Sequencing: what follows is judged after each way the first part can return. -/
theorem bind {p : Proc O α} {f : α → Proc O β} (hp : Safe D handle allowed Q p g s)
    (hok : ∀ a g t, D.inv t → D.holds g t → Q (.ok a) g t → Safe D handle allowed T (f a) g t)
    (herr : ∀ e g t, D.inv t → D.holds g t → Q (.error e) g t → T (.error e) g t) :
    Safe D handle allowed T (p >>= f) g s := by
  show Safe D handle allowed T (p.bind f) g s
  induction p generalizing g s with
  | done r =>
    cases r with
    | ok a =>
      apply intro
      intro t hrely hinv hholds
      exact hok a g t hinv hholds (hp t hrely hinv hholds)
    | error e =>
      intro t hrely hinv hholds
      exact herr e g t hinv hholds (hp t hrely hinv hholds)
  | step o k ih =>
    intro t hrely hinv hholds hallowed
    obtain ⟨g', hmove, hrest⟩ := hp t hrely hinv hholds hallowed
    exact ⟨g', hmove, ih _ hrest⟩

theorem attempt {p : Proc O α} {T : Except String (Except String α) → γ → σ → Prop}
    (hp : Safe D handle allowed (fun r => T (.ok r)) p g s) :
    Safe D handle allowed T p.attempt g s := by
  induction p generalizing g s with
  | done r => exact hp
  | step o k ih =>
    intro t hrely hinv hholds hallowed
    obtain ⟨g', hmove, hrest⟩ := hp t hrely hinv hholds hallowed
    exact ⟨g', hmove, ih _ hrest⟩

theorem tryCatch {p : Proc O α} {h : String → Proc O α} (hp : Safe D handle allowed Q p g s)
    (hok : ∀ a g t, D.inv t → D.holds g t → Q (.ok a) g t → Q' (.ok a) g t)
    (herr : ∀ e g t, D.inv t → D.holds g t → Q (.error e) g t →
      Safe D handle allowed Q' (h e) g t) :
    Safe D handle allowed Q' (p.tryCatch h) g s := by
  show Safe D handle allowed Q' (p.attempt.bind _) g s
  induction p generalizing g s with
  | done r =>
    cases r with
    | ok a =>
      intro t hrely hinv hholds
      exact hok a g t hinv hholds (hp t hrely hinv hholds)
    | error e =>
      apply intro
      intro t hrely hinv hholds
      exact herr e g t hinv hholds (hp t hrely hinv hholds)
  | step o k ih =>
    intro t hrely hinv hholds hallowed
    obtain ⟨g', hmove, hrest⟩ := hp t hrely hinv hholds hallowed
    exact ⟨g', hmove, ih _ hrest⟩

theorem lift {N : Type → Type} {f : {ρ : Type} → N ρ → O ρ} {p : Proc N α}
    (h : Safe D (fun o => handle (f o)) (fun o => allowed (f o)) Q p g s) :
    Safe D handle allowed Q (p.lift f) g s := by
  induction p generalizing g s with
  | done r => exact h
  | step o k ih =>
    intro t hrely hinv hholds hallowed
    obtain ⟨g', hmove, hrest⟩ := h t hrely hinv hholds hallowed
    exact ⟨g', hmove, ih _ hrest⟩

/-- What every move and every interference keeps is kept. -/
theorem frame {p : Proc O α} {K : σ → Prop} (h : Safe D handle allowed Q p g s)
    (hrely : ∀ g s t, D.rely g s t → K s → K t) (hmove : ∀ g s g' t, D.move g s g' t → K s → K t)
    (hK : K s) : Safe D handle allowed (fun r g t => Q r g t ∧ K t) p g s := by
  induction p generalizing g s with
  | done r =>
    intro t hst hinv hholds
    exact ⟨h t hst hinv hholds, hrely g s t hst hK⟩
  | step o k ih =>
    intro t hst hinv hholds hallowed
    obtain ⟨g', hgo, hrest⟩ := h t hst hinv hholds hallowed
    exact ⟨g', hgo, ih _ hrest (hmove g t g' _ hgo (hrely g s t hst hK))⟩

/-- What holds before each operation of a kind and after it, whatever the reply, holds
at the end of a process that has no other operations. -/
theorem of_only {P : {ρ : Type} → O ρ → Prop} {K : γ → σ → Prop} {p : Proc O α}
    (honly : p.Only P) (hstable : ∀ g s t, D.rely g s t → K g s → K g t)
    (hop : ∀ {ρ : Type} (o : O ρ), P o → ∀ g t, K g t →
      Safe D handle allowed (fun _ g t => K g t) (Proc.call o) g t)
    (hK : K g s) : Safe D handle allowed (fun _ g t => K g t) p g s := by
  induction p generalizing g s with
  | done r =>
    intro t hrely _ _
    exact hstable g s t hrely hK
  | step o k ih =>
    intro t hrely hinv hholds hallowed
    obtain ⟨g', hmove, hrest⟩ := hop o honly.1 g s hK t hrely hinv hholds hallowed
    refine ⟨g', hmove, intro fun u hu hinv' hholds' => ?_⟩
    exact ih _ (honly.2 _) (hrest u hu hinv' hholds')

end Safe

end Safe

/-! ## Processes together -/

namespace Pool

variable {O : Type → Type} {σ γ α : Type} (D : Discipline σ γ)
  (handle : {ρ : Type} → O ρ → Prog σ ρ) (allowed : {ρ : Type} → O ρ → σ → Prop)
  (Q : Except String α → γ → σ → Prop)

/-- Every process is safe with its holding, and no two holdings meet. -/
structure Held (s : Pool O σ α) (gs : List γ) : Prop where
  inv : D.inv s.shared
  length : gs.length = s.procs.length
  holds : ∀ g ∈ gs, D.holds g s.shared
  apart : ∀ (i j : Nat) g h, i ≠ j → gs[i]? = some g → gs[j]? = some h → D.apart g h
  safe : ∀ (i : Nat) p g, s.procs[i]? = some p → gs[i]? = some g →
    Safe D handle allowed Q p g s.shared

variable {D handle allowed Q} {s t : Pool O σ α} {gs : List γ} {i : Nat}

/-- The process that takes a step moves, and all of them stay safe. -/
theorem Held.step (h : Held D handle allowed Q s gs) (hstep : step handle s i = some t)
    (hallowed : ∀ (ρ : Type) (o : O ρ) k, s.procs[i]? = some (.step o k) → allowed o s.shared) :
    ∃ g g', gs[i]? = some g ∧ D.move g s.shared g' t.shared ∧
      Held D handle allowed Q t (gs.set i g') := by
  obtain ⟨ρ, o, k, hproc, rfl⟩ := step_cases hstep
  have hi : i < gs.length := by
    rw [h.length]
    exact (List.getElem?_eq_some_iff.mp hproc).1
  have hg : gs[i]? = some gs[i] := List.getElem?_eq_getElem hi
  have hmem : gs[i] ∈ gs := List.getElem_mem hi
  obtain ⟨g', hmove, hrest⟩ := h.safe i _ _ hproc hg s.shared (D.rely_refl _ _) h.inv
    (h.holds _ hmem) (hallowed ρ o k hproc)
  obtain ⟨hinv, hholds⟩ := D.move_keeps h.inv (h.holds _ hmem) hmove
  -- what the move is to the process at another position
  have hother : ∀ (j : Nat) g, j ≠ i → gs[j]? = some g →
      D.rely g s.shared (handle o s.shared).2 ∧ D.apart g' g := fun j g hj hgj =>
    D.move_apart h.inv (h.holds g (List.mem_of_getElem? hgj))
      (h.apart i j _ g (Ne.symm hj) hg hgj) hmove
  have hset : ∀ (j : Nat) g, (gs.set i g')[j]? = some g → (j = i ∧ g = g') ∨ (j ≠ i ∧ gs[j]? = some g) := by
    intro j g hgj
    by_cases hj : j = i
    · subst hj
      rw [List.getElem?_set_self hi] at hgj
      exact .inl ⟨rfl, (Option.some.inj hgj).symm⟩
    · rw [List.getElem?_set_ne (Ne.symm hj)] at hgj
      exact .inr ⟨hj, hgj⟩
  refine ⟨gs[i], g', hg, hmove, hinv, by simp [h.length], ?_, ?_, ?_⟩
  · intro g hmem'
    obtain ⟨j, hj⟩ := List.mem_iff_getElem?.mp hmem'
    rcases hset j g hj with ⟨-, rfl⟩ | ⟨hne, hgj⟩
    · exact hholds
    · exact D.holds_rely (h.holds g (List.mem_of_getElem? hgj)) (hother j g hne hgj).1
  · intro a b x y hab hx hy
    rcases hset a x hx with ⟨rfl, rfl⟩ | ⟨ha, hxa⟩
    · rcases hset b y hy with ⟨rfl, -⟩ | ⟨hb, hyb⟩
      · exact absurd rfl hab
      · exact (hother b y hb hyb).2
    · rcases hset b y hy with ⟨rfl, rfl⟩ | ⟨hb, hyb⟩
      · exact D.apart_symm (hother a x ha hxa).2
      · exact h.apart a b x y hab hxa hyb
  · intro j p g hp hgj
    rcases hset j g hgj with ⟨rfl, rfl⟩ | ⟨hne, hgj⟩
    · rw [List.getElem?_set_self (h.length ▸ hi)] at hp
      rw [← Option.some.inj hp]
      exact hrest
    · rw [List.getElem?_set_ne (Ne.symm hne)] at hp
      exact (h.safe j p g hp hgj).rely (hother j g hne hgj).1

/-- A process that starts with a holding that meets no other. -/
theorem Held.start (h : Held D handle allowed Q s gs) {p : Proc O α} {g : γ}
    (hholds : D.holds g s.shared) (hapart : ∀ h ∈ gs, D.apart g h)
    (hsafe : Safe D handle allowed Q p g s.shared) :
    Held D handle allowed Q { s with procs := s.procs ++ [p] } (gs ++ [g]) := by
  have hlast : ∀ (j : Nat) g', (gs ++ [g])[j]? = some g' →
      (j = gs.length ∧ g' = g) ∨ gs[j]? = some g' := by
    intro j g' hj
    rw [List.getElem?_append] at hj
    split at hj
    · exact .inr hj
    · obtain ⟨hlt, hget⟩ := List.getElem?_eq_some_iff.mp hj
      simp only [List.length_singleton] at hlt
      exact .inl ⟨by omega, by simpa using hget.symm⟩
  refine ⟨h.inv, by simp [h.length], List.forall_mem_append.mpr ⟨h.holds, by simpa using hholds⟩,
    ?_, ?_⟩
  · intro a b x y hab hx hy
    rcases hlast a x hx with ⟨rfl, rfl⟩ | hxa
    · rcases hlast b y hy with ⟨rfl, -⟩ | hyb
      · exact absurd rfl hab
      · exact hapart y (List.mem_of_getElem? hyb)
    · rcases hlast b y hy with ⟨rfl, rfl⟩ | hyb
      · exact D.apart_symm (hapart x (List.mem_of_getElem? hxa))
      · exact h.apart a b x y hab hxa hyb
  · intro j q g' hq hgj
    rcases hlast j g' hgj with ⟨rfl, rfl⟩ | hgj
    · rw [h.length, List.getElem?_concat_length] at hq
      cases hq
      exact hsafe
    · rw [List.getElem?_append_left (h.length ▸ (List.getElem?_eq_some_iff.mp hgj).1)] at hq
      exact h.safe j q g' hq hgj

/-- A change of the state from outside, which every process may see. -/
theorem Held.outside (h : Held D handle allowed Q s gs) {shared : σ} (hinv : D.inv shared)
    (hrely : ∀ g, D.rely g s.shared shared) :
    Held D handle allowed Q { s with shared } gs where
  inv := hinv
  length := h.length
  holds g hg := D.holds_rely (h.holds g hg) (hrely g)
  apart := h.apart
  safe i p g hp hg := (h.safe i p g hp hg).rely (hrely g)

/-- What a process has ended with. -/
theorem Held.ended (h : Held D handle allowed Q s gs) (hfinished : s.Finished) {g : γ}
    (hg : g ∈ gs) : ∃ r, Q r g s.shared := by
  obtain ⟨i, hi⟩ := List.mem_iff_getElem?.mp hg
  have hlt : i < s.procs.length := h.length ▸ (List.getElem?_eq_some_iff.mp hi).1
  obtain ⟨r, hr⟩ := hfinished _ (List.getElem_mem hlt)
  have hproc : s.procs[i]? = some (.done r) := by rw [List.getElem?_eq_getElem hlt, hr]
  exact ⟨r, h.safe i _ g hproc hi s.shared (D.rely_refl _ _) h.inv (h.holds g hg)⟩

end Pool

end AutoQa.Base

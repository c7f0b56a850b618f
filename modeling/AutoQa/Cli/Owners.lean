import AutoQa.Base.Rely
import AutoQa.Cli.Ledger

/-!
# Who owns a run

The processes of a deployment as processes that each own the run they have
created last. Each function is judged on its own: what it does to the ledger are
moves of an owner, and it leaves its run over. Where the surroundings may refuse
everything, that is so for a function that returns; a function that throws leaves
its run over if they refuse nothing vital.
-/

namespace AutoQa.Cli

open AutoQa.Base AutoQa.LlmAgents AutoQa.Db AutoQa.Orchestrator Ledger

/-! ## The discipline -/

/-- Nobody but its owner changes a run or its test cases. -/
def owners : Discipline DeployState (Option Id) where
  inv d := d.ledger.Sound
  holds g d := ∀ run ∈ g, run < d.ledger.store.testRuns.length
  apart g h := ∀ run ∈ g, h ≠ some run
  rely g d d' := Grows d.ledger d'.ledger ∧ ∀ run ∈ g, Untouched run d.ledger d'.ledger
  move g d g' d' := Moves g d.ledger g' d'.ledger
  apart_symm := by
    intro g h hapart run hrun hg
    exact hapart run hg hrun
  rely_refl g d := ⟨.refl _, fun run _ => .refl run _⟩
  rely_trans h h' := ⟨h.1.trans h'.1, fun run hrun => (h.2 run hrun).trans (h'.2 run hrun)⟩
  holds_rely h hrely run hrun := Nat.lt_of_lt_of_le (h run hrun) hrely.1.runs
  move_keeps := by
    intro g d g' d' _ hholds hmove
    refine ⟨hmove.sound, ?_⟩
    intro run hrun
    rcases hmove.owned with ⟨rfl, hlength⟩ | ⟨rfl, hlength, -⟩
    · rw [hlength]
      exact hholds run hrun
    · cases hrun
      rw [hlength]
      exact Nat.lt_succ_self _
  move_apart := by
    intro g h d g' d' _ hholds hapart hmove
    refine ⟨⟨hmove.grows, ?_⟩, ?_⟩
    · intro run hrun
      exact hmove.others run (hholds run hrun) fun hg => hapart run hg hrun
    · intro run hrun hh
      rcases hmove.owned with ⟨rfl, -⟩ | ⟨rfl, -, -⟩
      · exact hapart run hrun hh
      · cases hrun
        exact Nat.lt_irrefl _ (hholds _ hh)

/-- The steps without which a run is left running: the two between its creation and
the `try` block, and the update in the `catch` block. -/
def DeployOp.vital {ρ : Type} : DeployOp ρ → Bool
  | .sys (.runner op) => match op with
    | .createCase .. => true
    | .findRun site _ => site == .setup
    | .updateRun site .. => site == .recovery
    | _ => false
  | .audit _ _ op => match op with
    | .updateRun _ step .. => step == .updateFailed
    | _ => false
  | _ => false

/-- Where `strict`, nothing vital is refused. -/
def Spares (env : Nat → DeployEnv) (strict : Bool) {ρ : Type} (op : DeployOp ρ) (d : DeployState) :
    Prop :=
  strict = true → op.vital = true → (env d.steps).refusal op = none

section Judgment

variable (env : Nat → DeployEnv) (strict : Bool) {O : Type → Type} {α ρ : Type}
  (f : {ρ : Type} → O ρ → DeployOp ρ)

/-- The judgment about a process of a part of the operations. -/
def Kept (Q : Except String α → Option Id → DeployState → Prop) (p : Proc O α) (g : Option Id)
    (d : DeployState) : Prop :=
  Safe owners (fun o => answerDeploy env (f o)) (fun o => Spares env strict (f o)) Q p g d

variable {env strict f} {g : Option Id} {d : DeployState}

/-- One operation: it is refused, or performed. -/
theorem Kept.call {o : O ρ} {Q : Except String ρ → Option Id → DeployState → Prop}
    (hrefused : ∀ e t, owners.rely g d t → t.ledger.Sound → (f o).awaited = true →
      (strict = true → (f o).vital = false) → Q (.error e) g t)
    (hperformed : ∀ e t, owners.rely g d t → t.ledger.Sound → owners.holds g t →
      ∃ g', Moves g t.ledger g' (performDeploy e (f o) t).2.ledger ∧
        ∀ u, owners.rely g' (performDeploy e (f o) t).2 u → u.ledger.Sound →
          Q (performDeploy e (f o) t).1 g' u) :
    Kept env strict f Q (Proc.call o) g d := by
  apply Safe.call
  intro t hrely hsound hholds hspares
  rcases answerDeploy_cases env (f o) t with ⟨e, hrefusal, hrun⟩ | ⟨-, hrun⟩
  · simp only [hrun]
    refine ⟨g, Moves.same hsound, ?_⟩
    intro u hu hinv _
    refine hrefused e u (owners.rely_trans hrely hu) hinv ?_ ?_
    · unfold DeployEnv.refusal at hrefusal
      split at hrefusal
      · assumption
      · cases hrefusal
    · intro hstrict
      apply eq_false_of_ne_true
      intro hvital
      rw [hspares hstrict hvital] at hrefusal
      cases hrefusal
  · simp only [hrun]
    obtain ⟨g', hmove, hQ⟩ := hperformed (env t.steps) { t with steps := t.steps + 1 } hrely hsound
      hholds
    exact ⟨g', hmove, fun u hu hinv _ => hQ u hu hinv⟩

/-- An operation that leaves the ledger as it is. -/
theorem Kept.quiet {o : O ρ} {Q : Except String ρ → Option Id → DeployState → Prop}
    (hquiet : ∀ e t, (performDeploy e (f o) t).2.ledger = t.ledger)
    (hrefused : ∀ e t, owners.rely g d t → t.ledger.Sound → (f o).awaited = true →
      (strict = true → (f o).vital = false) → Q (.error e) g t)
    (hperformed : ∀ e t u, t.ledger.Sound → owners.rely g t u → owners.rely g d u →
      u.ledger.Sound → Q (performDeploy e (f o) t).1 g u) :
    Kept env strict f Q (Proc.call o) g d := by
  apply Kept.call hrefused
  intro e t hrely hsound _
  refine ⟨g, ?_, ?_⟩
  · rw [hquiet e t]
    exact .same hsound
  · intro u hu hinv
    have htu : owners.rely g t u := by
      show Grows t.ledger u.ledger ∧ ∀ run ∈ g, Untouched run t.ledger u.ledger
      rw [← hquiet e t]
      exact hu
    exact hperformed e t u hsound htu (owners.rely_trans hrely htu) hinv

/-- The ledger only grows. -/
theorem Kept.grows {Q : Except String α → Option Id → DeployState → Prop} {p : Proc O α}
    (h : Kept env strict f Q p g d) :
    Kept env strict f (fun r g t => Q r g t ∧ Grows d.ledger t.ledger) p g d :=
  Safe.frame h (fun _ _ _ hrely hK => hK.trans hrely.1) (fun _ _ _ _ hmove hK => hK.trans hmove.grows)
    (.refl _)

end Judgment

/-! ## The run that is owned -/

/-- The process owns the run, its row satisfies `P`, and the test case is one of it. -/
structure Owning (run : Id) (case : Option Id) (P : TestRun → Prop) (g : Option Id)
    (d : DeployState) : Prop where
  own : g = some run
  row : ∃ r, d.ledger.store.testRuns[run]? = some r ∧ P r
  case : ∀ c ∈ case, (d.ledger.store.testCases.map TestCase.testRunId)[c]? = some run

namespace Owning

variable {run : Id} {case : Option Id} {P P' : TestRun → Prop} {g : Option Id}
  {d d' : DeployState}

theorem rely (h : Owning run case P g d) (hrely : owners.rely g d d') :
    Owning run case P g d' := by
  obtain ⟨r, hr, hP⟩ := h.row
  refine ⟨h.own, ⟨r, ?_, hP⟩, fun c hc => hrely.1.caseRun (h.case c hc)⟩
  rw [(hrely.2 run h.own).1]
  exact hr

theorem mono (h : Owning run case P g d) (himp : ∀ r, P r → P' r) : Owning run case P' g d := by
  obtain ⟨r, hr, hP⟩ := h.row
  exact ⟨h.own, ⟨r, hr, himp r hP⟩, h.case⟩

/-- A run that is over. -/
theorem settled (h : Owning run case P g d) (hover : ∀ r, P r → r.status ≠ .running) :
    Settled g d.ledger := by
  intro run' hrun r hr
  obtain ⟨r', hr', hP⟩ := h.row
  rw [h.own] at hrun
  cases hrun
  cases hr'.symm.trans hr
  exact hover r hP

end Owning

section Calls

variable {env : Nat → DeployEnv} {strict : Bool} {O : Type → Type} {ρ : Type}
  {f : {ρ : Type} → O ρ → DeployOp ρ} {g : Option Id} {d : DeployState} {run : Id}
  {case : Option Id} {P P' : TestRun → Prop} {o : O ρ}

/-- A change of other tables than those of the runs and their cases. -/
theorem Owning.kept (h : Owning run case P g d)
    (hmove : ∀ e t, Owning run case P g t → t.ledger.Sound → owners.holds g t →
      Moves g t.ledger g (performDeploy e (f o) t).2.ledger)
    (hruns : ∀ e t, (performDeploy e (f o) t).2.ledger.store.testRuns = t.ledger.store.testRuns)
    (hcases : ∀ e t,
      (performDeploy e (f o) t).2.ledger.store.testCases = t.ledger.store.testCases) :
    Kept env strict f (fun _ g t => Owning run case P g t) (Proc.call o) g d := by
  apply Kept.call
  · intro e t hrely _ _ _
    exact h.rely hrely
  · intro e t hrely hsound hholds
    have ht := h.rely hrely
    refine ⟨g, hmove e t ht hsound hholds, ?_⟩
    intro u hu _
    refine Owning.rely (d := (performDeploy e (f o) t).2) ⟨ht.own, ?_, ?_⟩ hu
    · rw [hruns e t]
      exact ht.row
    · rw [hcases e t]
      exact ht.case

theorem Owning.quiet (h : Owning run case P g d)
    (hquiet : ∀ e t, (performDeploy e (f o) t).2.ledger = t.ledger) :
    Kept env strict f (fun _ g t => Owning run case P g t) (Proc.call o) g d := by
  apply Kept.quiet hquiet
  · intro e t hrely _ _ _
    exact h.rely hrely
  · intro e t u _ _ hrely _
    exact h.rely hrely

/-- An update of the run that is owned. -/
theorem Owning.update (h : Owning run case P g d) (change : TestRun → TestRun)
    (hperform : ∀ e t, (performDeploy e (f o) t).2.ledger = { t.ledger with
      store := { t.ledger.store with testRuns := t.ledger.store.testRuns.modify run change } })
    (hreply : ∀ e t, ∃ a, (performDeploy e (f o) t).1 = .ok a)
    (hfeature : ∀ r, (change r).featureId = r.featureId)
    (hleads : ∀ r, P r → Leads r.status (change r).status)
    (hfinished : ∀ r, P r → r.finishedAt.isSome → (change r).finishedAt.isSome)
    (hstamp : ∀ r, P r → Stamped (change r))
    (hafter : ∀ r, P r → P' (change r)) :
    Kept env strict f (Ways (fun _ g t => Owning run case P' g t) fun g t =>
        Owning run case P g t ∧ (strict = true → (f o).vital = false)) (Proc.call o) g d := by
  apply Kept.call
  · intro e t hrely _ _ hvital
    exact ⟨h.rely hrely, hvital⟩
  · intro e t hrely hsound _
    have ht := h.rely hrely
    obtain ⟨r, hr, hP⟩ := ht.row
    refine ⟨g, ?_, ?_⟩
    · rw [hperform e t, ht.own]
      exact .updateRun hsound hr hfeature (hleads r hP) (hfinished r hP) (hstamp r hP)
    · intro u hu _
      have hown : Owning run case P' g (performDeploy e (f o) t).2 := by
        refine ⟨ht.own, ⟨change r, ?_, hafter r hP⟩, ?_⟩
        · rw [hperform e t]
          simp [hr]
        · rw [hperform e t]
          exact ht.case
      obtain ⟨a, ha⟩ := hreply e t
      rw [ha]
      exact hown.rely hu

end Calls

/-- How a function ends: its run is over if it returns, and where `strict` it is over
in any case. -/
def Ended (strict : Bool) {α : Type} (r : Except String α) (g : Option Id) (d : DeployState) :
    Prop :=
  (strict = true ∨ ∃ a, r = .ok a) → Settled g d.ledger

theorem Ended.of_settled {strict : Bool} {α : Type} {r : Except String α} {g : Option Id}
    {d : DeployState} (h : Settled g d.ledger) : Ended strict r g d := fun _ => h

/-- A run that is over stays over. -/
theorem settled_rely {g : Option Id} {d d' : DeployState} (h : Settled g d.ledger)
    (hrely : owners.rely g d d') : Settled g d'.ledger := by
  intro run hrun r hr
  rw [(hrely.2 run hrun).1] at hr
  exact h run hrun r hr

/-- An operation between two runs: it leaves the runs as they are. -/
theorem Kept.between {env : Nat → DeployEnv} {strict : Bool} {O : Type → Type} {ρ : Type}
    {f : {ρ : Type} → O ρ → DeployOp ρ} {g : Option Id} {d : DeployState} {o : O ρ}
    {Q : Except String ρ → Option Id → DeployState → Prop} (hg : Settled g d.ledger)
    (hmove : ∀ e t, Grows d.ledger t.ledger → t.ledger.Sound →
      Moves g t.ledger g (performDeploy e (f o) t).2.ledger)
    (hruns : ∀ e t, (performDeploy e (f o) t).2.ledger.store.testRuns = t.ledger.store.testRuns)
    (hrefused : ∀ e u, (f o).awaited = true → Settled g u.ledger → Q (.error e) g u)
    (hreply : ∀ e t u, Grows d.ledger t.ledger → t.ledger.Sound →
      Grows (performDeploy e (f o) t).2.ledger u.ledger → Settled g u.ledger →
      Q (performDeploy e (f o) t).1 g u) :
    Kept env strict f Q (Proc.call o) g d := by
  apply Kept.call
  · intro e t hrely _ hawaited _
    exact hrefused e t hawaited (settled_rely hg hrely)
  · intro e t hrely hsound _
    refine ⟨g, hmove e t hrely.1 hsound, ?_⟩
    intro u hu _
    have hsettled : Settled g (performDeploy e (f o) t).2.ledger := by
      intro run hrun r hr
      rw [hruns e t] at hr
      exact settled_rely hg hrely run hrun r hr
    exact hreply e t u hrely.1 hsound hu.1 (settled_rely hsettled hu)

/-- A query between two runs. -/
theorem Kept.query {env : Nat → DeployEnv} {strict : Bool} {O : Type → Type} {ρ : Type}
    {f : {ρ : Type} → O ρ → DeployOp ρ} {g : Option Id} {d : DeployState} {o : O ρ}
    {Q : Except String ρ → Option Id → DeployState → Prop} (hg : Settled g d.ledger)
    (hquiet : ∀ e t, (performDeploy e (f o) t).2.ledger = t.ledger)
    (hrefused : ∀ e u, (f o).awaited = true → Settled g u.ledger → Q (.error e) g u)
    (hreply : ∀ e t u, Grows d.ledger t.ledger → t.ledger.Sound → Grows t.ledger u.ledger →
      Settled g u.ledger → Q (performDeploy e (f o) t).1 g u) :
    Kept env strict f Q (Proc.call o) g d := by
  refine .between hg ?_ (fun e t => by rw [hquiet e t]) hrefused ?_
  · intro e t _ hsound
    rw [hquiet e t]
    exact .same hsound
  · intro e t u hgrows hsound hafter
    rw [hquiet e t] at hafter
    exact hreply e t u hgrows hsound hafter

end AutoQa.Cli

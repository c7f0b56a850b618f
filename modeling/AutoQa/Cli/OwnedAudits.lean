import AutoQa.Cli.OwnedRuns

/-!
# The audit owns its runs

The `audit` command judged by the discipline of owners: the discovery phase, and
the loop with a run for each feature that it tests.
-/

namespace AutoQa.Cli

open AutoQa.Base AutoQa.LlmAgents AutoQa.Db AutoQa.Orchestrator Ledger

section

variable {env : Nat → DeployEnv} {strict : Bool} {g : Option Id} {d : DeployState}

/-! ## Discovery -/

theorem discoverFeature_kept (v : Visit) (hproject : v.projectId < d.ledger.store.projects.length)
    (hg : Settled g d.ledger) :
    Kept env strict DeployOp.discovery (fun _ g t => Settled g t.ledger) (discoverFeatureProc v)
      g d := by
  have hfind : Kept env strict DeployOp.discovery (fun _ g t => Settled g t.ledger)
      (Proc.call (.findFeature v)) g d :=
    .query hg (fun _ _ => rfl) (fun _ _ _ h => h) fun _ _ _ _ _ _ h => h
  apply Safe.bind hfind.grows
  · intro found g t _ _ ht
    cases found with
    | some row => exact fun u hu _ _ => settled_rely ht.1 hu
    | none =>
      refine Kept.between ht.1 ?_ (fun _ _ => rfl) (fun _ _ _ h => h) fun _ _ _ _ _ _ h => h
      intro e u hgrows hsound
      exact Moves.createFeature hsound
        (Nat.lt_of_lt_of_le hproject (ht.2.trans hgrows).projects)
  · intro e g t _ _ ht
    exact ht.1

theorem discoverFeatures_kept (projectId : Id) (page : String) (features : List ClassifiedFeature)
    (hproject : projectId < d.ledger.store.projects.length) (hg : Settled g d.ledger) :
    Kept env strict DeployOp.discovery (fun _ g t => Settled g t.ledger)
      (discoverFeaturesProc projectId page features) g d := by
  induction features generalizing g d with
  | nil => exact fun u hu _ _ => settled_rely hg hu
  | cons feature features ih =>
    apply Safe.bind (discoverFeature_kept ⟨projectId, page, feature⟩ hproject hg).grows
    · intro _ g t _ _ ht
      exact ih (Nat.lt_of_lt_of_le hproject ht.2.projects) ht.1
    · intro e g t _ _ ht
      exact ht.1

theorem discoverPages_kept (disc : Discovery) (pages : List ClassifiedPage)
    (hg : Settled g d.ledger) :
    Kept env strict DeployOp.discovery (fun _ g t => Settled g t.ledger)
      (discoverPagesProc disc pages) g d := by
  induction pages generalizing g d with
  | nil => exact fun u hu _ _ => settled_rely hg hu
  | cons page pages ih =>
    have hclassify : Kept env strict DeployOp.discovery (fun _ g t => Settled g t.ledger)
        (Proc.call (.classifyFeatures page)) g d :=
      .query hg (fun _ _ => rfl) (fun _ _ _ h => h) fun _ _ _ _ _ _ h => h
    apply Safe.bind hclassify
    · intro features g t _ _ ht
      have hproject : Kept env strict DeployOp.discovery
          (Ways (fun id g t => id < t.ledger.store.projects.length ∧ Settled g t.ledger)
            fun g t => Settled g t.ledger)
          ((getOrCreateProject disc.repoPath disc.url).lift DiscoveryOp.ofProject) g t := by
        apply Safe.lift
        apply findOrCreate_kept _ _ ht
        intro ρ op e t
        cases op <;> rfl
      apply Safe.bind hproject
      · intro projectId g t _ _ ht
        apply Safe.bind (discoverFeatures_kept projectId page.url _ ht.1 ht.2)
        · intro _ g t _ _ ht
          exact ih ht
        · intro e g t _ _ ht
          exact ht
      · intro e g t _ _ ht
        exact ht
    · intro e g t _ _ ht
      exact ht

/-! ## The loop -/

section Loop

variable {i : Nat} {budget : AuditBudget}

/-- A run of the audit with one of these statuses. -/
def AuditRow (statuses : List RunStatus) (r : TestRun) : Prop :=
  r.triggeredBy = none ∧ r.status ∈ statuses

abbrev AuditOwns (run : Id) (statuses : List RunStatus) (g : Option Id) (d : DeployState) : Prop :=
  Owning run none (AuditRow statuses) g d

theorem auditOwns_mono {run : Id} {statuses statuses' : List RunStatus}
    (h : AuditOwns run statuses g d) (hsub : ∀ status ∈ statuses, status ∈ statuses') :
    AuditOwns run statuses' g d :=
  Owning.mono h fun r hr => ⟨hr.1, hsub r.status hr.2⟩

/-- A counter does not throw. -/
theorem count_kept {run : Id} {P : TestRun → Prop} {f : AuditState → AuditState}
    (hf : ∀ a, (f a).db = a.db) (h : Owning run none P g d) :
    Kept env strict (DeployOp.audit i budget)
      (Ways (fun _ g t => Owning run none P g t) fun _ _ => False) (Proc.call (.count f)) g d := by
  refine Kept.quiet ?_ (fun e t _ _ hawaited _ => by cases hawaited)
    (fun e t u _ _ hrely _ => h.rely hrely)
  intro e t
  show Ledger.mk { t.store with toDb := (f (t.auditState i)).db } _ _ _ _ = _
  rw [hf]
  rfl

theorem auditUpdate_kept {run : Id} {statuses : List RunStatus} {iter : Nat} {step : AuditStep}
    {status : RunStatus} (h : AuditOwns run statuses g d) (hover : status ≠ .queued)
    (hleads : ∀ old ∈ statuses, Leads old status) :
    Kept env strict (DeployOp.audit i budget) (Ways (fun _ g t => AuditOwns run [status] g t)
        fun g t => AuditOwns run statuses g t ∧ (strict = true → (step == .updateFailed) = false))
      (Proc.call (.updateRun iter step run status)) g d := by
  refine h.update (f := DeployOp.audit i budget) (fun r => { r with status }) (fun _ _ => rfl)
    (fun _ _ => ⟨(), rfl⟩) (fun _ => rfl) ?_ (fun _ _ hf => hf) ?_ ?_
  · intro r hr
    exact hleads r.status hr.2
  · intro r hr
    refine ⟨hover, fun hauto => ?_⟩
    rw [show ({ r with status } : TestRun).triggeredBy = none from hr.1] at hauto
    cases hauto
  · intro r hr
    exact ⟨hr.1, List.mem_singleton.mpr rfl⟩

theorem trackCost_kept {run : Id} {P : TestRun → Prop} (iter : Nat) (us : List UsageEntry) :
    ∀ (k : Nat) {g : Option Id} {d : DeployState}, Owning run none P g d →
      Kept env strict (DeployOp.audit i budget) (fun _ g t => Owning run none P g t)
        (trackCostProc iter run k us) g d := by
  induction us with
  | nil =>
    intro k g d h
    exact fun u hu _ _ => h.rely hu
  | cons u us ih =>
    intro k g d h
    refine Safe.bind (count_kept ?_ h) ?_ ?_
    · exact fun _ => rfl
    · intro _ g t _ _ ht
      have husage : Kept env strict (DeployOp.audit i budget) (fun _ g t => Owning run none P g t)
          (Proc.call (.createUsage iter k run u)) g t := by
        refine ht.kept ?_ (fun _ _ => rfl) (fun _ _ => rfl)
        intro e v hv hsound hholds
        refine .createUsage hsound ⟨?_, by simp⟩
        intro r hr
        cases hr
        exact hholds _ hv.own
      apply Safe.bind husage
      · intro _ g t _ _ ht
        exact ih (k + 1) ht
      · intro e g t _ _ ht
        exact ht
    · intro e g t _ _ hnone
      exact hnone.elim

/-- The status of the run that ends with a result. -/
def endsAs : FeatureResult → RunStatus
  | .skipped _ => .skipped
  | .verified _ => .passed

/-- The writes that follow a returned result. -/
theorem recordResult_kept {run : Id} (iter : Nat) (feat : Selected) (result : FeatureResult)
    (h : AuditOwns run [.running] g d) :
    Kept env strict (DeployOp.audit i budget)
      (Ways (fun _ g t => AuditOwns run [endsAs result] g t)
        fun g t => AuditOwns run [.running] g t)
      (recordResultProc iter feat run result) g d := by
  have hleads : ∀ {status : RunStatus}, status ≠ .queued →
      ∀ old ∈ [RunStatus.running], Leads old status := by
    intro status hstatus old hold
    rw [List.mem_singleton.mp hold]
    exact hstatus
  cases result with
  | skipped reason =>
    refine Safe.bind (count_kept ?_ h) ?_ ?_
    · exact fun _ => rfl
    · intro _ g t _ _ ht
      apply (auditUpdate_kept ht (by simp) (hleads (by simp))).mono
      intro r g t _ _ hr
      cases r with
      | ok a => exact hr
      | error e => exact hr.1
    · intro e g t _ _ hnone
      exact hnone.elim
  | verified artifacts =>
    refine Safe.bind (count_kept ?_ h) ?_ ?_
    · exact fun _ => rfl
    · intro _ g t _ _ ht
      have hnow : Kept env strict (DeployOp.audit i budget)
          (fun _ g t => AuditOwns run [.running] g t) (Proc.call .now) g t :=
        ht.quiet fun _ _ => rfl
      apply Safe.bind hnow
      · intro now g t _ _ ht
        have hfeature : Kept env strict (DeployOp.audit i budget)
            (fun _ g t => AuditOwns run [.running] g t)
            (Proc.call (.updateFeature iter feat now)) g t := by
          refine ht.kept ?_ (fun _ _ => rfl) (fun _ _ => rfl)
          intro e v _ hsound _
          exact Moves.updateFeature hsound feat.1 (fun _ => rfl) (fun _ => rfl)
        apply Safe.bind hfeature
        · intro _ g t _ _ ht
          apply Safe.bind (auditUpdate_kept ht (by simp) (hleads (by simp)))
          · intro _ g t _ _ ht
            refine (count_kept ?_ ht).mono ?_
            · exact fun _ => rfl
            · intro r g t _ _ hr
              cases r with
              | ok a => exact hr
              | error e => exact hr.elim
          · intro e g t _ _ ht
            exact ht.1
        · intro e g t _ _ ht
          exact ht
      · intro e g t _ _ ht
        exact ht
    · intro e g t _ _ hnone
      exact hnone.elim

/-- The `try` block ends a run as passed or skipped; if it throws, the run is not a
skipped one, because a skipped feature has no usages. -/
theorem auditFeature_kept {run : Id} (iter : Nat) (feat : Selected)
    (h : AuditOwns run [.running] g d) :
    Kept env strict (DeployOp.audit i budget)
      (Ways (fun _ g t => AuditOwns run [.passed, .skipped] g t)
        fun g t => AuditOwns run [.running, .passed] g t)
      (auditFeatureProc iter feat run) g d := by
  have hexecute : Kept env strict (DeployOp.audit i budget)
      (fun _ g t => AuditOwns run [.running] g t) (Proc.call (.executeFeatureAudit feat run)) g d :=
    Owning.quiet h fun _ _ => rfl
  apply Safe.bind hexecute
  · intro result g t _ _ ht
    apply Safe.bind (recordResult_kept iter feat result ht)
    · intro _ g t _ _ ht
      cases result with
      | skipped reason => exact fun u hu _ _ => auditOwns_mono (ht.rely hu) (by simp [endsAs])
      | verified artifacts =>
        apply (trackCost_kept iter artifacts.usages 0 ht).mono
        intro r g t _ _ hr
        cases r with
        | ok a => exact auditOwns_mono hr (by simp [endsAs])
        | error e => exact auditOwns_mono hr (by simp [endsAs])
    · intro e g t _ _ ht
      exact auditOwns_mono ht (by simp)
  · intro e g t _ _ ht
    exact auditOwns_mono ht (by simp)

/-- The `catch` block makes the run a failed one, unless its update is refused. -/
theorem recordFailure_kept {run : Id} (iter : Nat) (feat : Selected)
    (h : AuditOwns run [.running, .passed] g d) :
    Kept env strict (DeployOp.audit i budget)
      (Ways (fun _ g t => AuditOwns run [.failed] g t) fun _ _ => strict = true → False)
      (recordFailureProc iter feat run) g d := by
  apply Safe.bind (auditUpdate_kept h (by simp) ?_)
  · intro _ g t _ _ ht
    refine (count_kept ?_ ht).mono ?_
    · exact fun _ => rfl
    · intro r g t _ _ hr
      cases r with
      | ok a => exact hr
      | error e => exact hr.elim
  · intro e g t _ _ ht hstrict
    cases ht.2 hstrict
  · intro old hold
    simp only [List.mem_cons, List.not_mem_nil, or_false] at hold
    rcases hold with rfl | rfl
    · exact RunStatus.noConfusion
    · exact .inr rfl

/-- A run for a feature that exists. -/
theorem testFeature_kept (iter : Nat) (feat : Selected)
    (hfeature : feat.1 < d.ledger.store.features.length) (hg : Settled g d.ledger) :
    Kept env strict (DeployOp.audit i budget) (Ended strict) (testFeatureProc iter feat) g d := by
  have hcreate : Kept env strict (DeployOp.audit i budget)
      (Ways (fun run g t => AuditOwns run [.running] g t) fun g t => Settled g t.ledger)
      (Proc.call (.createRun iter feat)) g d := by
    apply Kept.call
    · intro e t hrely _ _ _
      exact settled_rely hg hrely
    · intro e t hrely hsound _
      refine ⟨some t.ledger.store.testRuns.length, Moves.createRun hsound
        ⟨Nat.lt_of_lt_of_le hfeature hrely.1.features, by simp, by simp⟩ (settled_rely hg hrely), ?_⟩
      intro u hu _
      refine ⟨rfl, ⟨_, (hu.2 _ rfl).1.trans List.getElem?_concat_length, rfl, by simp⟩, ?_⟩
      intro c hc
      cases hc
  have hover : ∀ {run : Id} {statuses : List RunStatus} {g : Option Id} {t : DeployState},
      AuditOwns run statuses g t → .running ∉ statuses → Settled g t.ledger := by
    intro run statuses g t ht hnone
    exact Owning.settled ht fun r hr hrunning => hnone (hrunning ▸ hr.2)
  apply Safe.bind hcreate
  · intro run g t _ _ ht
    apply Safe.tryCatch (auditFeature_kept iter feat ht)
    · intro a g t _ _ ht
      exact .of_settled (hover ht (by simp))
    · intro e g t _ _ ht
      apply (recordFailure_kept iter feat ht).mono
      intro r g t _ _ hr
      cases r with
      | ok a => exact .of_settled (hover hr (by simp))
      | error e =>
        rintro (hs | ⟨a, ha⟩)
        · exact (hr hs).elim
        · cases ha
  · intro e g t _ _ ht
    exact .of_settled ht

theorem auditLoop_kept (feats : List Selected) :
    ∀ (iter : Nat) {g : Option Id} {d : DeployState},
      (∀ feat ∈ feats, feat.1 < d.ledger.store.features.length) → Settled g d.ledger →
      Kept env strict (DeployOp.audit i budget) (Ended strict) (auditLoopProc iter feats) g d := by
  induction feats with
  | nil =>
    intro iter g d _ hg
    exact fun u hu _ _ => .of_settled (settled_rely hg hu)
  | cons feat rest ih =>
    intro iter g d hfeats hg
    obtain ⟨hfeat, hrest⟩ := List.forall_mem_cons.mp hfeats
    have hlater : ∀ {t : DeployState}, Grows d.ledger t.ledger →
        ∀ feat ∈ rest, feat.1 < t.ledger.store.features.length := fun hgrows feat hmem =>
      Nat.lt_of_lt_of_le (hrest feat hmem) hgrows.features
    have hbudget : Kept env strict (DeployOp.audit i budget) (fun _ g t => Settled g t.ledger)
        (Proc.call (.withinBudget feat)) g d :=
      .query hg (fun _ _ => rfl) (fun _ _ _ h => h) fun _ _ _ _ _ _ h => h
    apply Safe.bind hbudget.grows
    · intro go g t _ _ ht
      cases go with
      | false => exact fun u hu _ _ => .of_settled (settled_rely ht.1 hu)
      | true =>
        have htest : Kept env strict (DeployOp.audit i budget) (Ended strict)
            (testFeatureProc iter feat) g t :=
          testFeature_kept iter feat (Nat.lt_of_lt_of_le hfeat ht.2.features) ht.1
        apply Safe.bind htest.grows
        · intro a g u _ _ hu
          exact ih (iter + 1) (hlater (ht.2.trans hu.2)) (hu.1 (.inr ⟨a, rfl⟩))
        · intro e g u _ _ hu
          exact hu.1
    · intro e g t _ _ ht
      exact .of_settled ht.1

end Loop

/-- The `audit` command. -/
theorem audit_kept (c : AuditCommand) (hg : Settled g d.ledger) :
    Kept env strict (fun o => o) (Ended strict) (auditProc c) g d := by
  apply Safe.bind (Safe.lift (discoverPages_kept c.discovery c.discovery.pages hg))
  · intro _ g t _ _ ht
    apply Safe.bind (Safe.lift (findOrCreate_kept (fun _ _ _ => rfl) _ ht))
    · intro projectId g t _ _ ht
      have hselect : Kept env strict (fun o => o) (Ways (fun feats g t => Settled g t.ledger ∧
          ∀ feat ∈ feats, feat.1 < t.ledger.store.features.length) fun g t => Settled g t.ledger)
          (Proc.call (.cli (.selectFeatures projectId c.force))) g t := by
        refine .query ht.2 (fun _ _ => rfl) (fun e u _ h => h) ?_
        intro e t u _ _ hafter hsettled
        refine ⟨hsettled, fun feat hfeat => ?_⟩
        obtain ⟨id, feature⟩ := feat
        have hid := (mem_findMany.mp hfeat).1
        exact Nat.lt_of_lt_of_le (List.getElem?_eq_some_iff.mp hid).1 hafter.features
      apply Safe.bind hselect
      · intro feats g t _ _ ht
        have hbegin : Kept env strict (fun o => o) (fun _ g t => Settled g t.ledger)
            (Proc.call (.cli .beginLoop)) g t :=
          .query ht.1 (fun _ _ => rfl) (fun _ _ _ h => h) fun _ _ _ _ _ _ h => h
        apply Safe.bind hbegin.grows
        · intro i g u _ _ hu
          exact Safe.lift (auditLoop_kept feats 0
            (fun feat hfeat => Nat.lt_of_lt_of_le (ht.2 feat hfeat) hu.2.features) hu.1)
        · intro e g u _ _ hu
          exact .of_settled hu.1
      · intro e g t _ _ ht
        exact .of_settled ht
    · intro e g t _ _ ht
      exact .of_settled ht
  · intro e g t _ _ ht
    exact .of_settled ht

end

end AutoQa.Cli

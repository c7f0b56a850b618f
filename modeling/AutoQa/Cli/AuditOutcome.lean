import AutoQa.Cli.AuditIteration

/-!
# One outcome for each audited feature

Every iteration should end with its feature passed, failed or skipped, and the
counters of the report should add up to the number of selected features. Both
hold exactly when no bookkeeping step throws where the counters already moved,
and the budget leaves no feature out that such a step does not make up for.
-/

namespace AutoQa.Cli

open AutoQa.Base AutoQa.LlmAgents AutoQa.Db

/-! ## What is expected of an audit -/

inductive Outcome where
  | passed
  | failed
  | skipped
  deriving DecidableEq, Repr

/-- The records of an iteration from `s` to `s'` agree with an outcome. -/
def HasOutcome (feat : Selected) (s s' : AuditState) : Outcome → Prop
  | .passed => s'.db.runStatus s.db.testRuns.length = some .passed ∧
      coveredOf s' feat = some true ∧
      (statsOf feat.2.featureType s'.typeStats).pass
        = (statsOf feat.2.featureType s.typeStats).pass + 1
  | .failed => s'.db.runStatus s.db.testRuns.length = some .failed ∧
      coveredOf s' feat = coveredOf s feat ∧
      (statsOf feat.2.featureType s'.typeStats).fail
        = (statsOf feat.2.featureType s.typeStats).fail + 1
  | .skipped => s'.db.runStatus s.db.testRuns.length = some .skipped ∧
      s'.skippedCount = s.skippedCount + 1

instance (feat : Selected) (s s' : AuditState) : DecidablePred (HasOutcome feat s s')
  | .passed => inferInstanceAs (Decidable (_ ∧ _ ∧ _))
  | .failed => inferInstanceAs (Decidable (_ ∧ _ ∧ _))
  | .skipped => inferInstanceAs (Decidable (_ ∧ _))

def OneOutcome (feat : Selected) (s s' : AuditState) : Prop := ∃! o, HasOutcome feat s s' o

/-- The features that the report accounts for. -/
def AuditState.accounted (s : AuditState) : Nat :=
  s.testedCount + s.skippedCount + failures s.typeStats

/-- Every iteration has one outcome, and the report accounts for every
selected feature. -/
def Consistent (a : Audit) (feats : List Selected) (s : AuditState) : Prop :=
  (∀ x ∈ tested a 0 feats s, OneOutcome x.2.1 x.2.2 (testFeature a x.1 x.2.1 x.2.2).2) ∧
    (auditLoop a 0 feats s).2.accounted = feats.length

/-! ## When an iteration goes wrong -/

/-- A write after the feature was marked covered throws. -/
def lateFault (faults : AuditStep → Option String) : Except String FeatureResult → Bool
  | .ok (.verified artifacts) => (faults .updateFeature).isNone &&
      ((faults .updatePassed).isSome || usageFault faults artifacts.usages.length)
  | _ => false

/-- A write after a counter moved throws. -/
def countedFault (faults : AuditStep → Option String) : Except String FeatureResult → Bool
  | .error _ => false
  | .ok (.skipped _) => (faults .updateSkipped).isSome
  | .ok (.verified artifacts) => (faults .updateFeature).isSome ||
      ((faults .updatePassed).isSome || usageFault faults artifacts.usages.length)

/-- The result of the call an iteration makes. -/
def resultOf (a : Audit) (x : Nat × Selected × AuditState) : Except String FeatureResult :=
  (featureCall a x.2.1 x.2.2).1

/-- The iteration marks an uncovered feature covered and then fails its run. -/
def Contradicts (a : Audit) (x : Nat × Selected × AuditState) : Prop :=
  lateFault (a.faults x.1) (resultOf a x) = true ∧ coveredOf x.2.2 x.2.1 = some false

instance (a : Audit) : DecidablePred (Contradicts a) := fun _ => inferInstanceAs (Decidable (_ ∧ _))

/-- The iteration is counted twice. -/
def twice (a : Audit) (x : Nat × Selected × AuditState) : Bool :=
  countedFault (a.faults x.1) (resultOf a x)

theorem Applied.outcome_status {e : Effect} {feat : Selected} {s s' : AuditState}
    (h : Applied e feat s s') {o : Outcome} (ho : HasOutcome feat s s' o) :
    e.status = match o with
      | .passed => .passed
      | .failed => .failed
      | .skipped => .skipped := by
  cases o <;> simpa [h.status] using ho.1

/-- With an effect whose status is `failed`, the run counts as failed unless an
uncovered feature was marked covered. -/
theorem Applied.oneOutcome_failed {e : Effect} {feat : Selected} {s s' : AuditState}
    (h : Applied e feat s s') (hstatus : e.status = .failed) (hfail : e.fail = 1)
    {c : Bool} (hc : coveredOf s feat = some c) :
    OneOutcome feat s s' ↔ ¬ (e.covers = true ∧ c = false) := by
  have hcovered : coveredOf s' feat = coveredOf s feat ↔ ¬ (e.covers = true ∧ c = false) := by
    rw [h.covered, hc]
    cases e.covers <;> cases c <;> simp
  constructor
  · rintro ⟨o, ho, -⟩
    have hfailed := h.outcome_status ho
    rw [hstatus] at hfailed
    -- the run's status rules out the other two outcomes
    cases o with
    | failed => exact hcovered.mp ho.2.1
    | passed => cases hfailed
    | skipped => cases hfailed
  · intro hok
    refine ⟨.failed, ⟨by rw [h.status, hstatus], hcovered.mpr hok, by rw [h.stats, hfail]⟩, ?_⟩
    intro o ho
    have hfailed := h.outcome_status ho
    rw [hstatus] at hfailed
    cases o <;> first | rfl | cases hfailed

theorem Applied.oneOutcome_skipped {e : Effect} {feat : Selected} {s s' : AuditState}
    (h : Applied e feat s s') (hstatus : e.status = .skipped) (hskipped : e.skipped = 1) :
    OneOutcome feat s s' := by
  refine ⟨.skipped, ⟨by rw [h.status, hstatus], by rw [h.skipped, hskipped]⟩, ?_⟩
  intro o ho
  have hone := h.outcome_status ho
  rw [hstatus] at hone
  cases o <;> first | rfl | cases hone

theorem Applied.oneOutcome_passed {e : Effect} {feat : Selected} {s s' : AuditState}
    (h : Applied e feat s s') (hstatus : e.status = .passed) (hcovers : e.covers = true)
    (hpass : e.pass = 1) {c : Bool} (hc : coveredOf s feat = some c) : OneOutcome feat s s' := by
  refine ⟨.passed, ⟨by rw [h.status, hstatus], by simp [h.covered, hcovers, hc],
    by rw [h.stats, hpass]⟩, ?_⟩
  intro o ho
  have hone := h.outcome_status ho
  rw [hstatus] at hone
  cases o <;> first | rfl | cases hone

/-- The one case in which an iteration has no outcome. -/
theorem oneOutcome_iff {faults : AuditStep → Option String} {r : Except String FeatureResult}
    {feat : Selected} {s s' : AuditState} (h : Applied (iterationEffect faults r) feat s s')
    (hrow : ∃ c, coveredOf s feat = some c) :
    OneOutcome feat s s' ↔ ¬ (lateFault faults r = true ∧ coveredOf s feat = some false) := by
  obtain ⟨c, hc⟩ := hrow
  rw [hc, Option.some.injEq]
  cases r with
  | error e => rw [h.oneOutcome_failed rfl rfl hc]; simp [iterationEffect, lateFault]
  | ok result =>
    cases result with
    | skipped reason =>
      simp only [lateFault, Bool.false_eq_true, false_and, not_false_eq_true, iff_true]
      simp only [iterationEffect] at h
      split at h
      · rw [h.oneOutcome_failed rfl rfl hc]
        simp
      · exact h.oneOutcome_skipped rfl rfl
    | verified artifacts =>
      -- the splits follow the conditions of `iterationEffect`
      simp only [iterationEffect] at h
      split at h
      · rename_i hf
        rw [h.oneOutcome_failed rfl rfl hc]
        simp [lateFault, Option.isNone_eq_false_iff.mpr hf]
      · rename_i hf
        have hnone : (faults .updateFeature).isNone = true := by simpa using hf
        split at h
        · rename_i hp
          rw [h.oneOutcome_failed rfl rfl hc]
          simp [lateFault, hnone, hp]
        · rename_i hp
          split at h
          · rename_i hu
            rw [h.oneOutcome_failed rfl rfl hc]
            simp [lateFault, hnone, hu]
          · rename_i hu
            simp only [lateFault, hnone, hp, hu, Bool.or_self, Bool.and_false, Bool.false_eq_true,
              false_and, not_false_eq_true, iff_true]
            exact h.oneOutcome_passed rfl rfl rfl hc

/-- An iteration counts its feature once, or twice. -/
theorem iterationEffect_counts (faults : AuditStep → Option String)
    (r : Except String FeatureResult) :
    (iterationEffect faults r).tested + (iterationEffect faults r).skipped
      + (iterationEffect faults r).fail = if countedFault faults r then 2 else 1 := by
  cases r with
  | error e => rfl
  | ok result =>
    cases result with
    | skipped reason =>
      cases hf : (faults .updateSkipped).isSome <;> simp [iterationEffect, countedFault, hf]
    | verified artifacts =>
      simp only [iterationEffect, countedFault]
      split
      · rename_i hf
        simp [hf]
      · rename_i hf
        split
        · rename_i hp
          simp [hp]
        · rename_i hp
          split
          · rename_i hu
            simp [hu]
          · rename_i hu
            simp [hf, hp, hu]

/-! ## The whole audit -/

theorem failures_ensureStats (type : Option FeatureType)
    (stats : List (Option FeatureType × TypeStats)) :
    failures (ensureStats type stats) = failures stats := by
  unfold ensureStats
  split <;> simp [failures]

theorem mem_ensureStats (type : Option FeatureType)
    (stats : List (Option FeatureType × TypeStats)) :
    type ∈ (ensureStats type stats).map Prod.fst := by
  unfold ensureStats
  split
  · assumption
  · simp

/-- The state after the budget checks: they open the type's counters and read
the clock. -/
def checked (feat : Selected) (s : AuditState) : AuditState :=
  { s with
    typeStats := ensureStats feat.2.featureType s.typeStats
    trace := s.trace ++ [.clockRead] }

theorem checked_known (feat : Selected) (s : AuditState) :
    feat.2.featureType ∈ (checked feat s).typeStats.map Prod.fst :=
  mem_ensureStats _ _

theorem checked_accounted (feat : Selected) (s : AuditState) :
    (checked feat s).accounted = s.accounted := by
  simp [AuditState.accounted, checked, failures_ensureStats]

/-- The loop breaks at the budget checks, or tests the feature and goes on. -/
theorem auditLoop_cases {a : Audit} {iter : Nat} {feat : Selected} (rest : List Selected)
    {s s' : AuditState} (hrun : testFeature a iter feat (checked feat s) = (.ok (), s')) :
    (auditLoop a iter (feat :: rest) s = (.ok (), checked feat s) ∧
        tested a iter (feat :: rest) s = []) ∨
      (withinBudget a feat s = (.ok true, checked feat s) ∧
        auditLoop a iter (feat :: rest) s = auditLoop a (iter + 1) rest s' ∧
        tested a iter (feat :: rest) s
          = (iter, feat, checked feat s) :: tested a (iter + 1) rest s') := by
  obtain ⟨go, hgo⟩ : ∃ go, withinBudget a feat s = (.ok go, checked feat s) := ⟨_, rfl⟩
  cases go with
  | false =>
    refine .inl ⟨?_, by simp [tested, hgo]⟩
    rw [auditLoop, Prog.bind_ok hgo]
    rfl
  | true =>
    refine .inr ⟨hgo, ?_, by simp [tested, hgo, hrun]⟩
    rw [auditLoop, Prog.bind_ok hgo]
    exact Prog.bind_ok hrun

/-- The loop never throws, keeps the feature table's rows, and accounts for
each tested feature once or twice. -/
theorem auditLoop_accounts {a : Audit} (hcreate : ∀ i, a.faults i .createRun = none)
    (hfailed : ∀ i, a.faults i .updateFailed = none) (feats : List Selected) :
    ∀ (iter : Nat) (s : AuditState), ∃ s', auditLoop a iter feats s = (.ok (), s') ∧
      s'.accounted = s.accounted + (tested a iter feats s).length
        + (tested a iter feats s).countP (twice a) := by
  induction feats with
  | nil => intro iter s; exact ⟨s, rfl, by simp [tested]⟩
  | cons feat rest ih =>
    intro iter s
    obtain ⟨s₂, hrun, happ⟩ := testFeature_effect feat (checked feat s) (hcreate iter)
      (hfailed iter) (checked_known feat s)
    rcases auditLoop_cases rest hrun with ⟨hloop, htested⟩ | ⟨-, hloop, htested⟩
    · exact ⟨_, hloop, by simp [htested, checked_accounted]⟩
    · obtain ⟨s', hrest, hacc⟩ := ih (iter + 1) s₂
      have hacc₂ : s₂.accounted
          = s.accounted + if twice a (iter, feat, checked feat s) then 2 else 1 := by
        have hcount : _ = if twice a (iter, feat, checked feat s) then 2 else 1 :=
          iterationEffect_counts (a.faults iter) (featureCall a feat (checked feat s)).1
        rw [← checked_accounted feat s]
        simp only [AuditState.accounted, happ.tested, happ.skipped, happ.failures]
        omega
      refine ⟨s', hloop.trans hrest, ?_⟩
      rw [htested, List.length_cons, List.countP_cons, hacc, hacc₂]
      split <;> omega

/-- A tested feature is a selected one, its row is in the database and its
type's counters are open. -/
theorem tested_ready {a : Audit} (hcreate : ∀ i, a.faults i .createRun = none)
    (hfailed : ∀ i, a.faults i .updateFailed = none) (feats : List Selected) :
    ∀ (iter : Nat) (s : AuditState), (∀ f ∈ feats, f.1 < s.db.features.length) →
      ∀ x ∈ tested a iter feats s, (∃ c, coveredOf x.2.2 x.2.1 = some c) ∧
        x.2.1.2.featureType ∈ x.2.2.typeStats.map Prod.fst := by
  induction feats with
  | nil => intro iter s _ x hx; simp [tested] at hx
  | cons feat rest ih =>
    intro iter s hrows x hx
    obtain ⟨s₂, hrun, happ⟩ := testFeature_effect feat (checked feat s) (hcreate iter)
      (hfailed iter) (checked_known feat s)
    rcases auditLoop_cases rest hrun with ⟨-, htested⟩ | ⟨-, -, htested⟩
    · rw [htested] at hx
      cases hx
    · rw [htested] at hx
      rcases List.mem_cons.mp hx with rfl | hx
      · have hlt : feat.1 < (checked feat s).db.features.length := hrows feat List.mem_cons_self
        refine ⟨⟨((checked feat s).db.features.get ⟨feat.1, hlt⟩).covered, ?_⟩,
          checked_known feat s⟩
        simp [coveredOf, hlt]
      · refine ih (iter + 1) s₂ ?_ x hx
        intro f hf
        -- no iteration changes the number of feature rows
        rw [happ.features]
        exact hrows f (List.mem_cons_of_mem _ hf)

theorem tested_length_le (a : Audit) (feats : List Selected) :
    ∀ (iter : Nat) (s : AuditState), (tested a iter feats s).length ≤ feats.length := by
  induction feats with
  | nil => intro iter s; simp [tested]
  | cons feat rest ih =>
    intro iter s
    simp only [tested]
    split
    · split
      · rename_i s'' _
        have hrest := ih (iter + 1) s''
        simp only [List.length_cons]
        omega
      · simp
    · simp

/-- **Each audited feature has one outcome** exactly when no iteration marks an
uncovered feature covered and then fails its run, and as many iterations are
counted twice as features are left out by the budget. -/
theorem consistent_iff {a : Audit} (hcreate : ∀ i, a.faults i .createRun = none)
    (hfailed : ∀ i, a.faults i .updateFailed = none) (feats : List Selected) (db : Db)
    (trace : Trace) (hrows : ∀ f ∈ feats, f.1 < db.features.length) :
    Consistent a feats (.start db trace) ↔
      (∀ x ∈ tested a 0 feats (.start db trace), ¬ Contradicts a x) ∧
        (tested a 0 feats (.start db trace)).countP (twice a)
          = feats.length - (tested a 0 feats (.start db trace)).length := by
  have houtcome : ∀ x ∈ tested a 0 feats (.start db trace),
      (OneOutcome x.2.1 x.2.2 (testFeature a x.1 x.2.1 x.2.2).2 ↔ ¬ Contradicts a x) := by
    intro x hx
    obtain ⟨hrow, hknown⟩ := tested_ready hcreate hfailed feats 0 _ hrows x hx
    obtain ⟨s', hrun, happ⟩ := testFeature_effect x.2.1 x.2.2 (hcreate x.1) (hfailed x.1) hknown
    rw [hrun]
    exact oneOutcome_iff happ hrow
  obtain ⟨s', hloop, hacc⟩ := auditLoop_accounts hcreate hfailed feats 0 (.start db trace)
  have hlen := tested_length_le a feats 0 (.start db trace)
  have hstart : (AuditState.start db trace).accounted = 0 := rfl
  rw [Consistent, hloop]
  apply and_congr (forall₂_congr houtcome)
  -- tested + twice = selected, where tested ≤ selected
  simp only [hacc, hstart]
  omega

/-! Audits with a usage row that cannot be written. -/

def loginButton : Feature where
  name := "Login"
  selector := some "#login"
  featureType := some .button
  pageUrl := none
  projectId := 0
  description := "Signs the user in"
  status := .discovered
  covered := false
  lastTestedAt := none

def loginDb : Db := { Db.empty with features := [loginButton] }

def calmAudit (faults : Nat → AuditStep → Option String) : Audit :=
  ⟨World.calm, "http://localhost:3000", 1800000, 2, 0, faults⟩

/-- Every answer of the model costs 75 cents. -/
def dearWorld : World :=
  { World.calm with
    gemini := fun _ _ =>
      .ok ⟨none, some [("playwright_screenshot", .obj [])], some 6000000, some 1000000⟩ }

/-- Of three features the first is covered already, and the row of its usage cannot be
written; the budget is used up before the third. -/
def shortAudit : Audit :=
  ⟨dearWorld, "http://localhost:3000", 1800000, 1, 0, fun iter step =>
    if iter = 0 ∧ step = .createUsage 0 then some "Timed out" else none⟩

def shopFeatures : List Feature := [{ loginButton with covered := true }, loginButton, loginButton]

/-- The first feature is counted twice and the third one not at all. -/
theorem shortAudit_consistent :
    (tested shortAudit 0 ([0, 1, 2].zip shopFeatures)
        (.start { Db.empty with features := shopFeatures } [])).map Prod.fst = [0, 1] ∧
      Consistent shortAudit ([0, 1, 2].zip shopFeatures)
        (.start { Db.empty with features := shopFeatures } []) := by
  have hcreate : ∀ i, shortAudit.faults i .createRun = none := fun i => if_neg (by simp)
  have hfailed : ∀ i, shortAudit.faults i .updateFailed = none := fun i => if_neg (by simp)
  exact ⟨by decide +kernel, (consistent_iff hcreate hfailed ([0, 1, 2].zip shopFeatures)
    { Db.empty with features := shopFeatures } [] (by decide)).mpr
      ⟨by decide +kernel, by decide +kernel⟩⟩

/-- The usage row's write throws after the run was set to `passed`. -/
def usageWriteFails : Nat → AuditStep → Option String := fun _ step =>
  if step = .createUsage 0 then some "Timed out" else none

/-- The feature is covered, its run failed, and it is counted as tested and as
failed. -/
theorem usage_write_fault_inconsistent :
    ¬ Consistent (calmAudit usageWriteFails) [(0, loginButton)] (.start loginDb []) := by
  have hnone : ∀ x ∈ tested (calmAudit usageWriteFails) 0 [(0, loginButton)] (.start loginDb []),
      ∀ o, ¬ HasOutcome x.2.1 x.2.2 (testFeature (calmAudit usageWriteFails) x.1 x.2.1 x.2.2).2 o := by
    have hall : ∀ x ∈ tested (calmAudit usageWriteFails) 0 [(0, loginButton)] (.start loginDb []),
        ∀ o ∈ [Outcome.passed, .failed, .skipped], ¬ HasOutcome x.2.1 x.2.2
          (testFeature (calmAudit usageWriteFails) x.1 x.2.1 x.2.2).2 o := by
      decide +kernel
    intro x hx o
    exact hall x hx o (by cases o <;> decide)
  have htested : (tested (calmAudit usageWriteFails) 0 [(0, loginButton)] (.start loginDb [])) ≠ [] := by
    have hlen : (tested (calmAudit usageWriteFails) 0 [(0, loginButton)]
        (.start loginDb [])).length = 1 := by decide +kernel
    intro hnil
    simp [hnil] at hlen
  rintro ⟨hone, -⟩
  obtain ⟨x, hx⟩ := List.exists_mem_of_ne_nil _ htested
  obtain ⟨o, ho, -⟩ := hone x hx
  exact hnone x hx o ho

end AutoQa.Cli

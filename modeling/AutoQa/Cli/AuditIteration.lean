import AutoQa.Cli.Audit
import AutoQa.LlmAgents.Accounting

/-!
# What an iteration of the audit does

The effect of one iteration on the run's status, the feature, the counters and
the budget, as a function of what the feature's audit returned and of the
database steps that throw. The `catch` block undoes nothing: a step that throws
late leaves the counters and writes before it in place.
-/

namespace AutoQa.Cli

open AutoQa.Base AutoQa.LlmAgents AutoQa.Db

/-- The call of `executeFeatureAudit` that an iteration makes from `s`: its
result and its events. -/
def featureCall (a : Audit) (feat : Selected) (s : AuditState) :
    Except String FeatureResult × Trace :=
  let r := executeFeatureAudit a.w (toString s.db.testRuns.length) feat.2.toAuditFeature a.url none
    s.trace
  (r.1, r.2.drop s.trace.length)

/-- Some write of the first `n` usage rows throws. -/
def usageFault (faults : AuditStep → Option String) (n : Nat) : Bool :=
  (List.range n).any fun k => (faults (.createUsage k)).isSome

/-! ## The steps of an iteration -/

@[simp] theorem agents_apply {α : Type} (p : Prog Trace α) (s : AuditState) :
    agents p s = ((p s.trace).1, { s with trace := (p s.trace).2 }) := rfl

@[simp] theorem dbStep_none (f : AuditState → AuditState) (s : AuditState) :
    dbStep none f s = (.ok (), f s) := rfl

@[simp] theorem dbStep_some (e : String) (f : AuditState → AuditState) (s : AuditState) :
    dbStep (some e) f s = (.error e, s) := rfl

/-- Recording usages changes the spent total and the usage rows, nothing else;
it returns when no row's write throws, and then every entry is counted. -/
theorem trackCost_spec (a : Audit) (iter : Nat) (run : Id) (us : List UsageEntry) :
    ∀ (k : Nat) (s : AuditState), ∃ cost rows,
      (trackCost a iter run k us s).2
        = { s with totalCost := cost, db := { s.db with llmUsages := rows } } ∧
      (if (List.range' k us.length).any fun k => (a.faults iter (.createUsage k)).isSome then
        ∃ e, (trackCost a iter run k us s).1 = .error e
      else (trackCost a iter run k us s).1 = .ok () ∧
        cost = s.totalCost + (us.map UsageEntry.cost).sum) := by
  induction us with
  | nil =>
    intro k s
    exact ⟨s.totalCost, s.db.llmUsages, rfl, by simp [trackCost]⟩
  | cons u us ih =>
    intro k s
    cases hfault : a.faults iter (.createUsage k) with
    | some e =>
      -- the cost was added before the row was written
      refine ⟨s.totalCost + u.cost, s.db.llmUsages, ?_, ?_⟩
      · simp [trackCost, Prog.bind_apply, hfault]
      · simp [trackCost, Prog.bind_apply, hfault, List.range'_succ]
    | none =>
      obtain ⟨cost, rows, hstate, hres⟩ := ih (k + 1) _
      refine ⟨cost, rows, ?_, ?_⟩
      · simp only [trackCost, Prog.bind_apply, Prog.modify_apply, hfault, dbStep_none]
        rw [hstate]
        rfl
      · simp only [trackCost, Prog.bind_apply, Prog.modify_apply, hfault, dbStep_none,
          List.length_cons, List.range'_succ, List.any_cons, Option.isSome_none, Bool.false_or,
          List.map_cons, List.sum_cons]
        split at hres
        · rename_i hany
          rw [if_pos hany]
          exact hres
        · rename_i hany
          rw [if_neg hany]
          refine ⟨hres.1, ?_⟩
          rw [hres.2, ← add_assoc]
          rfl

/-! ## The statistics by feature type -/

def statsOf (type : Option FeatureType) (stats : List (Option FeatureType × TypeStats)) :
    TypeStats := (stats.lookup type).getD ⟨0, 0⟩

/-- The number of failures that the report will show. -/
def failures (stats : List (Option FeatureType × TypeStats)) : Nat :=
  (stats.map fun st => st.2.fail).sum

theorem bump_keys (type : Option FeatureType) (f : TypeStats → TypeStats)
    (stats : List (Option FeatureType × TypeStats)) :
    (bump type f stats).map Prod.fst = stats.map Prod.fst := by
  induction stats with
  | nil => rfl
  | cons st rest ih =>
    simp only [bump]
    split <;> simp [ih]

theorem statsOf_bump {type : Option FeatureType} (f : TypeStats → TypeStats)
    {stats : List (Option FeatureType × TypeStats)} (h : type ∈ stats.map Prod.fst) :
    statsOf type (bump type f stats) = f (statsOf type stats) := by
  induction stats with
  | nil => simp at h
  | cons st rest ih =>
    obtain ⟨t, st⟩ := st
    by_cases ht : t = type
    · simp [bump, ht, statsOf]
    · have hrest : type ∈ rest.map Prod.fst := by
        simpa [Ne.symm ht] using h
      have hne : (type == t) = false := by simp [Ne.symm ht]
      simpa [bump, ht, statsOf, List.lookup_cons, hne] using ih hrest

theorem failures_addPass (type : Option FeatureType)
    (stats : List (Option FeatureType × TypeStats)) :
    failures (bump type addPass stats) = failures stats := by
  induction stats with
  | nil => rfl
  | cons st rest ih =>
    simp only [failures] at ih ⊢
    simp only [bump]
    split <;> simp [addPass, ih]

theorem failures_addFail {type : Option FeatureType}
    {stats : List (Option FeatureType × TypeStats)} (h : type ∈ stats.map Prod.fst) :
    failures (bump type addFail stats) = failures stats + 1 := by
  induction stats with
  | nil => simp at h
  | cons st rest ih =>
    obtain ⟨t, st⟩ := st
    simp only [failures] at ih ⊢
    by_cases ht : t = type
    · simp [bump, ht, addFail]
      omega
    · have hrest : type ∈ rest.map Prod.fst := by
        simpa [Ne.symm ht] using h
      simp [bump, ht, ih hrest]
      omega

/-! ## The effect of an iteration -/

/-- What an iteration leaves behind: the run's status, whether the feature was
marked covered, and by how much each counter grew. -/
structure Effect where
  status : RunStatus
  covers : Bool
  pass : Nat
  fail : Nat
  tested : Nat
  skipped : Nat
  deriving DecidableEq, Repr

def iterationEffect (faults : AuditStep → Option String) :
    Except String FeatureResult → Effect
  | .error _ => ⟨.failed, false, 0, 1, 0, 0⟩
  | .ok (.skipped _) =>
      -- `skippedCount++` comes before the write
      if (faults .updateSkipped).isSome then ⟨.failed, false, 0, 1, 0, 1⟩
      else ⟨.skipped, false, 0, 0, 0, 1⟩
  | .ok (.verified artifacts) =>
      -- so does `testedCount++`; the type's `pass` is counted after both writes
      if (faults .updateFeature).isSome then ⟨.failed, false, 0, 1, 1, 0⟩
      else if (faults .updatePassed).isSome then ⟨.failed, true, 0, 1, 1, 0⟩
      else if usageFault faults artifacts.usages.length then ⟨.failed, true, 1, 1, 1, 0⟩
      else ⟨.passed, true, 1, 0, 1, 0⟩

def coveredOf (s : AuditState) (feat : Selected) : Option Bool :=
  (s.db.features[feat.1]?).map fun f => f.covered

/-- `s'` is `s` after an iteration with this effect. -/
structure Applied (e : Effect) (feat : Selected) (s s' : AuditState) : Prop where
  status : s'.db.runStatus s.db.testRuns.length = some e.status
  features : s'.db.features.length = s.db.features.length
  covered : coveredOf s' feat
    = if e.covers then (coveredOf s feat).map fun _ => true else coveredOf s feat
  stats : statsOf feat.2.featureType s'.typeStats
    = ⟨(statsOf feat.2.featureType s.typeStats).pass + e.pass,
        (statsOf feat.2.featureType s.typeStats).fail + e.fail⟩
  failures : failures s'.typeStats = failures s.typeStats + e.fail
  tested : s'.testedCount = s.testedCount + e.tested
  skipped : s'.skippedCount = s.skippedCount + e.skipped
  /-- The type's counters exist, so incrementing them does not throw. -/
  known : feat.2.featureType ∈ s'.typeStats.map Prod.fst

/-- The state in which the `try` block starts. -/
def created (a : Audit) (feat : Selected) (s : AuditState) : AuditState :=
  s.onDb (Db.createRun
    { featureId := feat.1, triggeredBy := none, status := .running
      startedAt := a.w.now (elapsed s.trace), finishedAt := none })

namespace Applied

variable {e : Effect} {feat : Selected} {s t : AuditState}

theorem created (a : Audit) (hknown : feat.2.featureType ∈ s.typeStats.map Prod.fst) :
    Applied ⟨.running, false, 0, 0, 0, 0⟩ feat s (created a feat s) where
  status := by simp [Cli.created, AuditState.onDb, Db.createRun, Db.runStatus]
  features := rfl
  covered := rfl
  stats := rfl
  failures := rfl
  tested := rfl
  skipped := rfl
  known := hknown

/-- Neither the trace nor the money and the usage rows are part of the effect. -/
theorem frame (h : Applied e feat s t) (trace : Trace) (cost : Cost) (rows : List LLMUsage) :
    Applied e feat s
      { t with trace := trace, totalCost := cost, db := { t.db with llmUsages := rows } } :=
  ⟨h.status, h.features, h.covered, h.stats, h.failures, h.tested, h.skipped, h.known⟩

theorem setStatus (h : Applied e feat s t) (status : RunStatus) :
    Applied { e with status } feat s (setStatus s.db.testRuns.length status t) := by
  refine ⟨?_, h.features, h.covered, h.stats, h.failures, h.tested, h.skipped, h.known⟩
  obtain ⟨run, hrun, -⟩ := Option.map_eq_some_iff.mp h.status
  simp [Cli.setStatus, AuditState.onDb, Db.updateRun, Db.runStatus, hrun]

theorem cover (h : Applied e feat s t) (f : Feature → Feature) (hf : ∀ x, (f x).covered = true) :
    Applied { e with covers := true } feat s (t.onDb (Db.updateFeature feat.1 f)) := by
  refine ⟨h.status, ?_, ?_, h.stats, h.failures, h.tested, h.skipped, h.known⟩
  · simpa [AuditState.onDb, Db.updateFeature] using h.features
  · have hset : coveredOf (t.onDb (Db.updateFeature feat.1 f)) feat
        = (coveredOf t feat).map fun _ => true := by
      simp only [coveredOf, AuditState.onDb, Db.updateFeature, List.getElem?_modify]
      cases t.db.features[feat.1]? <;> simp [hf]
    rw [hset, h.covered]
    cases coveredOf s feat <;> cases e.covers <;> rfl

theorem addPass (h : Applied e feat s t) :
    Applied { e with pass := e.pass + 1 } feat s
      { t with typeStats := bump feat.2.featureType addPass t.typeStats } := by
  refine ⟨h.status, h.features, h.covered, ?_, ?_, h.tested, h.skipped, ?_⟩
  · simp [statsOf_bump _ h.known, h.stats, Cli.addPass]
    omega
  · simp [failures_addPass, h.failures]
  · simpa [bump_keys] using h.known

theorem addFail (h : Applied e feat s t) :
    Applied { e with fail := e.fail + 1 } feat s
      { t with typeStats := bump feat.2.featureType addFail t.typeStats } := by
  refine ⟨h.status, h.features, h.covered, ?_, ?_, h.tested, h.skipped, ?_⟩
  · simp [statsOf_bump _ h.known, h.stats, Cli.addFail]
    omega
  · simp [failures_addFail h.known, h.failures]
    omega
  · simpa [bump_keys] using h.known

theorem countTested (h : Applied e feat s t) :
    Applied { e with tested := e.tested + 1 } feat s
      { t with testedCount := t.testedCount + 1 } :=
  ⟨h.status, h.features, h.covered, h.stats, h.failures, by simp [h.tested]; omega, h.skipped,
    h.known⟩

theorem countSkipped (h : Applied e feat s t) :
    Applied { e with skipped := e.skipped + 1 } feat s
      { t with skippedCount := t.skippedCount + 1 } :=
  ⟨h.status, h.features, h.covered, h.stats, h.failures, h.tested, by simp [h.skipped]; omega,
    h.known⟩

end Applied

/-- An iteration whose `try` block returns. -/
theorem testFeature_ok {a : Audit} {iter : Nat} {feat : Selected} {s t : AuditState}
    (hcreate : a.faults iter .createRun = none)
    (h : auditFeature a iter feat s.db.testRuns.length (created a feat s) = (.ok (), t)) :
    testFeature a iter feat s = (.ok (), t) := by
  simp only [testFeature, Prog.bind_apply, Prog.get_apply, hcreate, dbStep_none]
  exact Prog.tryCatch_ok h

/-- An iteration whose `try` block throws. -/
theorem testFeature_error {a : Audit} {iter : Nat} {feat : Selected} {s t : AuditState}
    {e : String} (hcreate : a.faults iter .createRun = none)
    (hfailed : a.faults iter .updateFailed = none)
    (h : auditFeature a iter feat s.db.testRuns.length (created a feat s) = (.error e, t)) :
    testFeature a iter feat s = (.ok (), { setStatus s.db.testRuns.length .failed t with
      typeStats := bump feat.2.featureType addFail t.typeStats }) := by
  simp only [testFeature, Prog.bind_apply, Prog.get_apply, hcreate, dbStep_none]
  have hcatch := Prog.tryCatch_error (h := fun _ => recordFailure a iter feat s.db.testRuns.length) h
  apply hcatch.trans
  simp only [recordFailure, Prog.bind_apply, hfailed, dbStep_none, Prog.modify_apply]
  rfl

/-- The `try` block ends in the iteration's effect, or one `catch` short of it. -/
def EndsIn (effect : Effect) (feat : Selected) (s : AuditState) (r : Except String Unit)
    (t : AuditState) : Prop :=
  (r = .ok () ∧ Applied effect feat s t) ∨
    ∃ err e, r = .error err ∧ Applied e feat s t ∧
      effect = { e with status := .failed, fail := e.fail + 1 }

theorem trackCost_effect (a : Audit) (iter : Nat) (us : List UsageEntry) {e : Effect}
    {feat : Selected} {s t : AuditState} (h : Applied e feat s t) :
    EndsIn (if usageFault (a.faults iter) us.length then
        { e with status := .failed, fail := e.fail + 1 } else e) feat s
      (trackCost a iter s.db.testRuns.length 0 us t).1
      (trackCost a iter s.db.testRuns.length 0 us t).2 := by
  obtain ⟨cost, rows, hstate, hres⟩ := trackCost_spec a iter s.db.testRuns.length us 0 t
  rw [hstate, usageFault, List.range_eq_range']
  split at hres
  · rename_i hany
    obtain ⟨err, herr⟩ := hres
    rw [herr, if_pos hany]
    exact .inr ⟨err, e, rfl, h.frame _ _ _, rfl⟩
  · rename_i hany
    rw [hres.1, if_neg hany]
    exact .inl ⟨rfl, h.frame _ _ _⟩

theorem auditFeature_effect (a : Audit) (iter : Nat) (feat : Selected) (s : AuditState)
    (hknown : feat.2.featureType ∈ s.typeStats.map Prod.fst) :
    EndsIn (iterationEffect (a.faults iter) (featureCall a feat s).1) feat s
      (auditFeature a iter feat s.db.testRuns.length (created a feat s)).1
      (auditFeature a iter feat s.db.testRuns.length (created a feat s)).2 := by
  have htrace : (created a feat s).trace = s.trace := rfl
  cases hcall : executeFeatureAudit a.w (toString s.db.testRuns.length) feat.2.toAuditFeature
    a.url none s.trace with
  | mk r tr =>
  -- the call itself only moves the trace
  have hcalled : Applied ⟨.running, false, 0, 0, 0, 0⟩ feat s { created a feat s with trace := tr } :=
    (Applied.created a hknown).frame tr _ _
  have hr : (featureCall a feat s).1 = r := by simp only [featureCall, hcall]
  rw [hr]
  simp only [auditFeature, Prog.bind_apply, agents_apply, htrace, hcall]
  cases r with
  | error err => exact .inr ⟨err, _, rfl, hcalled, rfl⟩
  | ok result =>
  cases result with
  | skipped reason =>
    simp only [recordResult, Prog.bind_apply, Prog.modify_apply]
    cases hfault : a.faults iter .updateSkipped with
    | some err =>
      simp only [dbStep_some, iterationEffect, hfault]
      exact .inr ⟨err, _, rfl, hcalled.countSkipped, rfl⟩
    | none =>
      simp only [dbStep_none, iterationEffect, hfault, FeatureResult.usages, trackCost,
        Prog.pure_apply]
      exact .inl ⟨rfl, hcalled.countSkipped.setStatus .skipped⟩
  | verified artifacts =>
    simp only [recordResult, Prog.bind_apply, Prog.modify_apply, agents_apply, dateNow, interact]
    -- from here on the feature is counted as tested, whatever throws
    have hcounted := hcalled.countTested.frame (tr ++ [.clockRead]) s.totalCost s.db.llmUsages
    cases hfeature : a.faults iter .updateFeature with
    | some err =>
      simp only [dbStep_some, iterationEffect, hfeature]
      exact .inr ⟨err, _, rfl, hcounted, rfl⟩
    | none =>
    have hcovered := hcounted.cover (fun f : Feature =>
      { f with covered := true, lastTestedAt := some (a.w.now (elapsed tr)), status := .verified })
      (fun _ => rfl)
    cases hpassed : a.faults iter .updatePassed with
    | some err =>
      simp only [dbStep_none, dbStep_some, iterationEffect, hfeature, hpassed]
      exact .inr ⟨err, _, rfl, hcovered, rfl⟩
    | none =>
    simp only [dbStep_none]
    have hend := trackCost_effect a iter artifacts.usages (hcovered.setStatus .passed).addPass
    have heffect : iterationEffect (a.faults iter) (.ok (.verified artifacts))
        = if usageFault (a.faults iter) artifacts.usages.length then ⟨.failed, true, 1, 1, 1, 0⟩
          else ⟨.passed, true, 1, 0, 1, 0⟩ := by
      simp [iterationEffect, hfeature, hpassed]
    rw [heffect]
    exact hend

/-- An iteration has exactly its effect, whichever steps of it throw. -/
theorem testFeature_effect {a : Audit} {iter : Nat} (feat : Selected) (s : AuditState)
    (hcreate : a.faults iter .createRun = none) (hfailed : a.faults iter .updateFailed = none)
    (hknown : feat.2.featureType ∈ s.typeStats.map Prod.fst) :
    ∃ s', testFeature a iter feat s = (.ok (), s') ∧
      Applied (iterationEffect (a.faults iter) (featureCall a feat s).1) feat s s' := by
  have hend := auditFeature_effect a iter feat s hknown
  cases hrun : auditFeature a iter feat s.db.testRuns.length (created a feat s) with
  | mk r t =>
  rw [hrun] at hend
  rcases hend with ⟨hok, happ⟩ | ⟨err, e, herr, happ, heffect⟩
  · refine ⟨t, testFeature_ok hcreate ?_, happ⟩
    rw [hrun]
    exact congrArg (·, t) hok
  · refine ⟨_, testFeature_error hcreate hfailed (hrun.trans (congrArg (·, t) herr)), ?_⟩
    rw [heffect]
    -- what the `catch` block adds is what `EndsIn` leaves open
    exact (happ.setStatus .failed).addFail

end AutoQa.Cli

import AutoQa.Base.Proc
import AutoQa.Cli.Audit
import AutoQa.Cli.Discovery

/-!
# The audit as a process

Both phases of the `audit` command once more, with their database operations as
the operations of a process, so that the writes of a run can be told. Running the
processes is running the programs.
-/

namespace AutoQa.Cli

open AutoQa.Base AutoQa.LlmAgents AutoQa.Db

/-! ## Discovery -/

inductive DiscoveryOp : Type → Type where
  | classifyFeatures (page : ClassifiedPage) : DiscoveryOp (List ClassifiedFeature)
  | findProject (repoPath : String) : DiscoveryOp (Option (Id × Project))
  | createProject (project : Project) : DiscoveryOp Id
  | findFeature (v : Visit) : DiscoveryOp (Option (Id × Feature))
  | createFeature (v : Visit) : DiscoveryOp Unit

def DiscoveryOp.ofProject {ρ : Type} : ProjectOp ρ → DiscoveryOp ρ
  | .findFirst repoPath => .findProject repoPath
  | .create project => .createProject project

def answerDiscovery {ρ : Type} : DiscoveryOp ρ → Prog Store ρ
  | .classifyFeatures page => Prog.ofExcept page.result
  | .findProject repoPath => onProjects (answerProject (.findFirst repoPath))
  | .createProject project => onProjects (answerProject (.create project))
  | .findFeature v => fun s => (.ok (findFirst v.looks s.features), s)
  | .createFeature v => Prog.modify fun s => { s with features := s.features ++ [v.row] }

/-- `discoverFeature`. -/
def discoverFeatureProc (v : Visit) : Proc DiscoveryOp Unit := do
  match ← Proc.call (.findFeature v) with
  | some _ => pure ()
  | none => Proc.call (.createFeature v)

/-- `discoverFeatures`. -/
def discoverFeaturesProc (projectId : Id) (page : String) :
    List ClassifiedFeature → Proc DiscoveryOp Unit
  | [] => pure ()
  | feature :: features => do
      discoverFeatureProc ⟨projectId, page, feature⟩
      discoverFeaturesProc projectId page features

/-- `discoverPages`. -/
def discoverPagesProc (d : Discovery) : List ClassifiedPage → Proc DiscoveryOp Unit
  | [] => pure ()
  | page :: pages => do
      let features ← Proc.call (.classifyFeatures page)
      let projectId ← (getOrCreateProject d.repoPath d.url).lift DiscoveryOp.ofProject
      discoverFeaturesProc projectId page.url (sliceTo d.maxElements features)
      discoverPagesProc d pages

theorem getOrCreateProject_lift (repoPath localUrl : String) :
    ((getOrCreateProject repoPath localUrl).lift DiscoveryOp.ofProject).run answerDiscovery
      = onProjects ((getOrCreateProject repoPath localUrl).run answerProject) := by
  have hops : ∀ {ρ : Type} (op : ProjectOp ρ),
      answerDiscovery (.ofProject op) = onProjects (answerProject op) := by
    intro ρ op
    cases op <;> rfl
  simp only [Proc.run_lift, hops]
  exact Proc.run_zoom Store.projects (fun projects s => { s with projects })
    (fun _ _ => rfl) (fun _ => rfl) (fun _ _ _ => rfl) answerProject _

theorem discoverFeatureProc_run (v : Visit) :
    (discoverFeatureProc v).run answerDiscovery = discoverFeature v := by
  funext s
  have hlookup : (Proc.call (.findFeature v)).run answerDiscovery s
      = (.ok (findFirst v.looks s.features), s) := rfl
  rw [discoverFeatureProc, Proc.run_bind, Prog.bind_ok hlookup, discoverFeature,
    Prog.bind_ok (Prog.get_apply s)]
  cases findFirst v.looks s.features with
  | some row => rfl
  | none => rfl

theorem discoverFeaturesProc_run (projectId : Id) (page : String)
    (features : List ClassifiedFeature) :
    (discoverFeaturesProc projectId page features).run answerDiscovery
      = discoverFeatures projectId page features := by
  induction features with
  | nil => rfl
  | cons feature features ih =>
    rw [discoverFeaturesProc, Proc.run_bind, discoverFeatureProc_run, ih, discoverFeatures]

theorem discoverPagesProc_run (d : Discovery) (pages : List ClassifiedPage) :
    (discoverPagesProc d pages).run answerDiscovery = discoverPages d pages := by
  induction pages with
  | nil => rfl
  | cons page pages ih =>
    simp only [discoverPagesProc, Proc.run_bind, Proc.run_call, getOrCreateProject_lift,
      discoverFeaturesProc_run, ih, discoverPages]
    rfl

/-! ## The loop -/

inductive AuditOp : Type → Type where
  /-- The start of an iteration, up to its budget checks. -/
  | withinBudget (feat : Selected) : AuditOp Bool
  | createRun (iter : Nat) (feat : Selected) : AuditOp Id
  | executeFeatureAudit (feat : Selected) (run : Id) : AuditOp FeatureResult
  | now : AuditOp Nat
  /-- An update of a TestRun. -/
  | updateRun (iter : Nat) (step : AuditStep) (run : Id) (status : RunStatus) : AuditOp Unit
  | updateFeature (iter : Nat) (feat : Selected) (now : Nat) : AuditOp Unit
  | createUsage (iter k : Nat) (run : Id) (usage : UsageEntry) : AuditOp Unit
  /-- A counter. -/
  | count (f : AuditState → AuditState) : AuditOp Unit

def answerAudit (a : Audit) {ρ : Type} : AuditOp ρ → Prog AuditState ρ
  | .withinBudget feat => withinBudget a feat
  | .createRun iter feat => do
      let s ← Prog.get
      dbStep (a.faults iter .createRun) (.onDb (Db.createRun
        { featureId := feat.1, triggeredBy := none, status := .running
          startedAt := a.w.now (elapsed s.trace), finishedAt := none }))
      pure s.db.testRuns.length
  | .executeFeatureAudit feat run =>
      agents (executeFeatureAudit a.w (toString run) feat.2.toAuditFeature a.url none)
  | .now => agents (dateNow a.w)
  | .updateRun iter step run status => dbStep (a.faults iter step) (setStatus run status)
  | .updateFeature iter feat now => dbStep (a.faults iter .updateFeature)
      (.onDb (Db.updateFeature feat.1 fun f =>
        { f with covered := true, lastTestedAt := some now, status := .verified }))
  | .createUsage iter k run u => dbStep (a.faults iter (.createUsage k)) (.onDb (Db.createUsage
      { testRunId := some run, featureId := none, role := none, provider := u.provider
        model := u.model, promptTokens := u.promptTokens
        completionTokens := u.completionTokens, costUsd := none }))
  | .count f => Prog.modify f

/-- `trackCost`. -/
def trackCostProc (iter : Nat) (run : Id) : Nat → List UsageEntry → Proc AuditOp Unit
  | _, [] => pure ()
  | k, u :: us => do
      Proc.call (.count fun s => { s with totalCost := s.totalCost + u.cost })
      Proc.call (.createUsage iter k run u)
      trackCostProc iter run (k + 1) us

/-- `recordResult`. -/
def recordResultProc (iter : Nat) (feat : Selected) (run : Id) :
    FeatureResult → Proc AuditOp Unit
  | .skipped _ => do
      Proc.call (.count fun s => { s with skippedCount := s.skippedCount + 1 })
      Proc.call (.updateRun iter .updateSkipped run .skipped)
  | .verified _ => do
      Proc.call (.count fun s => { s with testedCount := s.testedCount + 1 })
      let now ← Proc.call .now
      Proc.call (.updateFeature iter feat now)
      Proc.call (.updateRun iter .updatePassed run .passed)
      Proc.call (.count fun s =>
        { s with typeStats := bump feat.2.featureType addPass s.typeStats })

/-- `recordFailure`. -/
def recordFailureProc (iter : Nat) (feat : Selected) (run : Id) : Proc AuditOp Unit := do
  Proc.call (.updateRun iter .updateFailed run .failed)
  Proc.call (.count fun s => { s with typeStats := bump feat.2.featureType addFail s.typeStats })

/-- `auditFeature`. -/
def auditFeatureProc (iter : Nat) (feat : Selected) (run : Id) : Proc AuditOp Unit := do
  let result ← Proc.call (.executeFeatureAudit feat run)
  recordResultProc iter feat run result
  trackCostProc iter run 0 result.usages

/-- `testFeature`. -/
def testFeatureProc (iter : Nat) (feat : Selected) : Proc AuditOp Unit := do
  let run ← Proc.call (.createRun iter feat)
  Proc.tryCatch (auditFeatureProc iter feat run) fun _ => recordFailureProc iter feat run

/-- `auditLoop`. -/
def auditLoopProc : Nat → List Selected → Proc AuditOp Unit
  | _, [] => pure ()
  | iter, feat :: rest => do
      let go ← Proc.call (.withinBudget feat)
      if go then do
        testFeatureProc iter feat
        auditLoopProc (iter + 1) rest
      else pure ()

theorem trackCostProc_run (a : Audit) (iter : Nat) (run : Id) (us : List UsageEntry) (k : Nat) :
    (trackCostProc iter run k us).run (answerAudit a) = trackCost a iter run k us := by
  induction us generalizing k with
  | nil => rfl
  | cons u us ih => simp only [trackCostProc, Proc.run_bind, Proc.run_call, ih, trackCost,
      answerAudit]

theorem recordResultProc_run (a : Audit) (iter : Nat) (feat : Selected) (run : Id)
    (result : FeatureResult) :
    (recordResultProc iter feat run result).run (answerAudit a)
      = recordResult a iter feat run result := by
  cases result with
  | skipped us => simp only [recordResultProc, Proc.run_bind, Proc.run_call, recordResult,
      answerAudit]
  | verified us => simp only [recordResultProc, Proc.run_bind, Proc.run_call, recordResult,
      answerAudit]

theorem auditFeatureProc_run (a : Audit) (iter : Nat) (feat : Selected) (run : Id) :
    (auditFeatureProc iter feat run).run (answerAudit a) = auditFeature a iter feat run := by
  simp only [auditFeatureProc, Proc.run_bind, Proc.run_call, recordResultProc_run,
    trackCostProc_run, auditFeature, answerAudit]

theorem testFeatureProc_run (a : Audit) (iter : Nat) (feat : Selected) :
    (testFeatureProc iter feat).run (answerAudit a) = testFeature a iter feat := by
  funext s
  simp only [testFeatureProc, Proc.run_bind, Proc.run_call, Proc.run_tryCatch,
    auditFeatureProc_run, recordFailureProc, testFeature, answerAudit, recordFailure]
  rw [Prog.bind_ok (Prog.get_apply s)]
  cases a.faults iter .createRun with
  | some e => rfl
  | none => rfl

theorem auditLoopProc_run (a : Audit) (feats : List Selected) (iter : Nat) :
    (auditLoopProc iter feats).run (answerAudit a) = auditLoop a iter feats := by
  induction feats generalizing iter with
  | nil => rfl
  | cons feat rest ih =>
    rw [auditLoopProc, Proc.run_bind, auditLoop, Proc.run_call]
    congr 1
    funext go
    cases go with
    | false => rfl
    | true =>
      show (testFeatureProc iter feat >>= fun _ => auditLoopProc (iter + 1) rest).run _ = _
      rw [Proc.run_bind, testFeatureProc_run, ih]
      rfl

end AutoQa.Cli

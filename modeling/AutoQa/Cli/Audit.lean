import AutoQa.Db.Schema

/-!
# The audit loop

Phase C & D of the `audit` command (`autoqa.ts`): each selected feature gets a
TestRun, is audited and has its outcome written to the database, until the time
or the cost budget is used up. Which database steps throw is a parameter; a
step that throws changes nothing.
-/

namespace AutoQa.Cli

open AutoQa.Base AutoQa.LlmAgents AutoQa.Db

structure TypeStats where
  pass : Nat
  fail : Nat
  deriving DecidableEq, Repr

structure AuditState where
  db : Db
  trace : Trace
  totalCost : Cost
  testedCount : Nat
  skippedCount : Nat
  /-- `typeStats`, by feature type in order of first use. -/
  typeStats : List (Option FeatureType × TypeStats)

/-- The database steps of one iteration. -/
inductive AuditStep where
  | createRun
  | updateSkipped
  | updateFeature
  | updatePassed
  | createUsage (i : Nat)
  | updateFailed
  deriving DecidableEq, Repr

/-- A selected feature with its id. -/
abbrev Selected := Id × Feature

/-- What an audit is run with. `faults i step` is the message with which a step
of the `i`-th iteration throws, if it does. -/
structure Audit where
  w : World
  url : String
  maxDuration : Nat
  maxCost : ℚ
  startTime : Nat
  faults : Nat → AuditStep → Option String

/-- An agent's program, over the audit's trace. -/
def agents {α : Type} (p : Prog Trace α) : Prog AuditState α :=
  Prog.zoom AuditState.trace (fun tr s => { s with trace := tr }) p

/-- A database step that throws or changes the state. -/
def dbStep (fault : Option String) (f : AuditState → AuditState) : Prog AuditState Unit :=
  match fault with
  | some e => Prog.throw e
  | none => Prog.modify f

def AuditState.onDb (f : Db → Db) (s : AuditState) : AuditState := { s with db := f s.db }

/-- `if (!typeStats[type]) typeStats[type] = { pass: 0, fail: 0 }`. -/
def ensureStats (type : Option FeatureType) (stats : List (Option FeatureType × TypeStats)) :
    List (Option FeatureType × TypeStats) :=
  if type ∈ stats.map Prod.fst then stats else stats ++ [(type, ⟨0, 0⟩)]

/-- Change the counters of one type. -/
def bump (type : Option FeatureType) (f : TypeStats → TypeStats) :
    List (Option FeatureType × TypeStats) → List (Option FeatureType × TypeStats)
  | [] => []
  | (t, st) :: rest => if t = type then (t, f st) :: rest else (t, st) :: bump type f rest

def addPass (st : TypeStats) : TypeStats := { st with pass := st.pass + 1 }

def addFail (st : TypeStats) : TypeStats := { st with fail := st.fail + 1 }

/-! ## One iteration -/

/-- `for (const u of result.usages)`: the cost counts before the row is written. -/
def trackCost (a : Audit) (iter : Nat) (run : Id) : Nat → List UsageEntry → Prog AuditState Unit
  | _, [] => pure ()
  | k, u :: us => do
      Prog.modify fun s => { s with totalCost := s.totalCost + u.cost }
      dbStep (a.faults iter (.createUsage k)) (.onDb (Db.createUsage
        { testRunId := some run, featureId := none, role := none, provider := u.provider
          model := u.model, promptTokens := u.promptTokens
          completionTokens := u.completionTokens, costUsd := none }))
      trackCost a iter run (k + 1) us

def setStatus (run : Id) (status : RunStatus) : AuditState → AuditState :=
  .onDb (Db.updateRun run fun r => { r with status })

/-- The counters and writes that follow a returned result. -/
def recordResult (a : Audit) (iter : Nat) (feat : Selected) (run : Id) :
    FeatureResult → Prog AuditState Unit
  | .skipped _ => do
      Prog.modify fun s => { s with skippedCount := s.skippedCount + 1 }
      dbStep (a.faults iter .updateSkipped) (setStatus run .skipped)
  | .verified _ => do
      Prog.modify fun s => { s with testedCount := s.testedCount + 1 }
      let now ← agents (dateNow a.w)
      dbStep (a.faults iter .updateFeature) (.onDb (Db.updateFeature feat.1 fun f =>
        { f with covered := true, lastTestedAt := some now, status := .verified }))
      dbStep (a.faults iter .updatePassed) (setStatus run .passed)
      Prog.modify fun s => { s with typeStats := bump feat.2.featureType addPass s.typeStats }

/-- The `catch` block. -/
def recordFailure (a : Audit) (iter : Nat) (feat : Selected) (run : Id) :
    Prog AuditState Unit := do
  dbStep (a.faults iter .updateFailed) (setStatus run .failed)
  Prog.modify fun s => { s with typeStats := bump feat.2.featureType addFail s.typeStats }

/-- The body of the `try` block. -/
def auditFeature (a : Audit) (iter : Nat) (feat : Selected) (run : Id) : Prog AuditState Unit := do
  let result ← agents (executeFeatureAudit a.w (toString run) feat.2.toAuditFeature a.url none)
  recordResult a iter feat run result
  trackCost a iter run 0 result.usages

/-- An iteration after its budget checks: create the TestRun, then `try … catch`. -/
def testFeature (a : Audit) (iter : Nat) (feat : Selected) : Prog AuditState Unit := do
  let s ← Prog.get
  let run := s.db.testRuns.length
  dbStep (a.faults iter .createRun) (.onDb (Db.createRun
    { featureId := feat.1, triggeredBy := none, status := .running
      startedAt := a.w.now (elapsed s.trace), finishedAt := none }))
  Prog.tryCatch (auditFeature a iter feat run) fun _ => recordFailure a iter feat run

/-! ## The loop -/

/-- The start of an iteration: `true` if neither budget is used up. -/
def withinBudget (a : Audit) (feat : Selected) : Prog AuditState Bool := do
  Prog.modify fun s => { s with typeStats := ensureStats feat.2.featureType s.typeStats }
  let now ← agents (dateNow a.w)
  let s ← Prog.get
  pure (!(now - a.startTime > a.maxDuration) && !s.totalCost.atLeast a.maxCost)

/-- `for (const feat of featuresToTest)`, from iteration `iter` on. -/
def auditLoop (a : Audit) : Nat → List Selected → Prog AuditState Unit
  | _, [] => pure ()
  | iter, feat :: rest => do
      let go ← withinBudget a feat
      if go then do
        testFeature a iter feat
        auditLoop a (iter + 1) rest
      else pure ()

/-- The iterations that test a feature, each with the state after its budget
checks. -/
def tested (a : Audit) : Nat → List Selected → AuditState → List (Nat × Selected × AuditState)
  | _, [], _ => []
  | iter, feat :: rest, s =>
      match withinBudget a feat s with
      | (.ok true, s') =>
          (iter, feat, s') :: match testFeature a iter feat s' with
            | (.ok _, s'') => tested a (iter + 1) rest s''
            | (.error _, _) => []
      | _ => []

/-- The state in which an audit starts. -/
def AuditState.start (db : Db) (trace : Trace) : AuditState :=
  ⟨db, trace, 0, 0, 0, []⟩

end AutoQa.Cli

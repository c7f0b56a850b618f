import AutoQa.Base.Proc
import AutoQa.Db.Schema
import AutoQa.TestExecutor.Execute

/-!
# The runner

`runTestExecution` (`runner.ts`) as a process: each `await` is an operation that
knows the part of the function it stands in. `perform` answers the operations
from the world and the database; `faults` chooses which of the awaited ones
throw, and an operation that throws changes nothing.
-/

namespace AutoQa.Orchestrator

open AutoQa.Base AutoQa.LlmAgents AutoQa.Db AutoQa.TestExecutor

/-- The part of the function: before the `try` block, in it, in the outer
`catch` block, after both. -/
inductive Site where
  | setup
  | body
  | recovery
  | tail
  deriving DecidableEq, Repr

/-- The awaited operations, by the type of their reply. -/
inductive RunOp : Type → Type where
  | createRun (site : Site) (featureId : Id) : RunOp Id
  | createCase (site : Site) (run : Id) (description : String) : RunOp Id
  | findRun (site : Site) (run : Id) : RunOp (Option RunRow)
  | emitUpdate (site : Site) (row : RunRow) : RunOp Unit
  | now (site : Site) : RunOp Nat
  | executeTest (site : Site) (run : Id) (url : String) : RunOp Artifacts
  | executeTestAutonomous (site : Site) (run : Id) (instruction url : String) : RunOp Artifacts
  | analyzeResults (site : Site) (evidence : Evidence) : RunOp (ResultAnalysis × UsageEntry)
  /-- The `k`-th usage row of a role. -/
  | createUsage (site : Site) (run : Id) (role : UsageRole) (k : Nat) (usage : UsageEntry) :
      RunOp Unit
  | updateRun (site : Site) (run : Id) (status : RunStatus) (finishedAt : Nat) : RunOp Unit
  | updateCase (site : Site) (case : Id) (status : CaseStatus) (durationMs : Option Nat) :
      RunOp Unit
  | createBug (site : Site) (bug : BugReport) : RunOp Unit
  | findUsages (site : Site) (run : Id) : RunOp (List LLMUsage)

def RunOp.site {ρ : Type} : RunOp ρ → Site
  | .createRun site .. | .createCase site .. | .findRun site .. | .emitUpdate site ..
  | .now site | .executeTest site .. | .executeTestAutonomous site .. | .analyzeResults site ..
  | .createUsage site .. | .updateRun site .. | .updateCase site .. | .createBug site ..
  | .findUsages site .. => site

/-- The awaited steps; inside one part of the function each occurs once. -/
inductive RunLabel where
  | createRun
  | createCase
  | findRun
  | executeTest
  | executeTestAutonomous
  | analyzeResults
  | createUsage (role : UsageRole) (k : Nat)
  | updateRun
  | updateCase
  | createBug
  | findUsages
  deriving DecidableEq, Repr

/-- `Date.now()` and `emit` are not awaited and do not throw. -/
def RunOp.label {ρ : Type} : RunOp ρ → Option RunLabel
  | .createRun .. => some .createRun
  | .createCase .. => some .createCase
  | .findRun .. => some .findRun
  | .emitUpdate .. => none
  | .now _ => none
  | .executeTest .. => some .executeTest
  | .executeTestAutonomous .. => some .executeTestAutonomous
  | .analyzeResults .. => some .analyzeResults
  | .createUsage _ _ role k _ => some (.createUsage role k)
  | .updateRun .. => some .updateRun
  | .updateCase .. => some .updateCase
  | .createBug .. => some .createBug
  | .findUsages .. => some .findUsages

abbrev RunProc := Proc RunOp

/-! ## The function -/

def smokeInstruction : String := "__SMOKE_TEST__"

def smokePlan : List Step := [{ action := .navigate, description := "Navigate to target URL" }]

/-- `analysis`, less the texts that are only printed. A smoke test that ran has
no expected and actual behaviour to report. -/
structure Analysis where
  status : CaseStatus
  title : String
  expected : String
  actual : String
  severity : Option Severity
  deriving DecidableEq, Repr

def smokeAnalysis : Analysis := ⟨.pass, "Smoke Test Passed", "", "", none⟩

def inconclusiveAnalysis (message : String) : Analysis :=
  ⟨.inconclusive, "Execution Inconclusive", "Test should complete execution.", message, some .low⟩

def Analysis.ofResult (a : ResultAnalysis) : Analysis :=
  ⟨match a.status with
    | .pass => .pass
    | .fail => .fail, a.title, a.expected, a.actual, a.severity⟩

/-- What the `try` block knows when it starts to write its records. -/
structure Judgment where
  analysis : Analysis
  screenshotPath : Option String
  durationMs : Nat
  deriving DecidableEq, Repr

/-- `for (const u of artifacts.usages)`. -/
def recordUsages (run : Id) : Nat → List UsageEntry → RunProc Unit
  | _, [] => pure ()
  | k, u :: us => do
      Proc.call (.createUsage .body run .testPlanner k u)
      recordUsages run (k + 1) us

/-- The rest of the inner `try` block after the agent loop returned. -/
def analyze (run : Id) (artifacts : Artifacts) : RunProc Analysis := do
  recordUsages run 0 artifacts.usages
  let (analysis, usage) ← Proc.call (.analyzeResults .body artifacts.toEvidence)
  Proc.call (.createUsage .body run .resultAnalyzer 0 usage)
  pure (.ofResult analysis)

/-- The first half of the `try` block: execute the test and judge the run. The
inner `catch` turns every exception of the autonomous branch into a verdict;
`artifacts` keeps its value if it was assigned before. -/
def judge (run : Id) (instruction url : String) : RunProc Judgment := do
  if instruction = smokeInstruction then do
    let start ← Proc.call (.now .body)
    let artifacts ← Proc.call (.executeTest .body run url)
    let stop ← Proc.call (.now .body)
    pure ⟨smokeAnalysis, some artifacts.screenshotPath, stop - start⟩
  else do
    let start ← Proc.call (.now .body)
    match ← (Proc.call (.executeTestAutonomous .body run instruction url)).attempt with
    -- the loop threw: `artifacts` was not assigned
    | .error e => do
        let stop ← Proc.call (.now .body)
        pure ⟨inconclusiveAnalysis e, none, stop - start⟩
    | .ok artifacts => do
        let stop ← Proc.call (.now .body)
        match ← (analyze run artifacts).attempt with
        | .ok analysis => pure ⟨analysis, some artifacts.screenshotPath, stop - start⟩
        -- the analysis threw: its verdict is lost, `artifacts` stays
        | .error e => do
            let stop ← Proc.call (.now .body)
            pure ⟨inconclusiveAnalysis e, some artifacts.screenshotPath, stop - start⟩

def runStatusOf (status : CaseStatus) : RunStatus :=
  if status = .pass then .passed else .failed

def bugOf (case : Id) (j : Judgment) : BugReport :=
  { testCaseId := case
    severity := j.analysis.severity.getD .medium
    title := j.analysis.title
    expected := j.analysis.expected
    actual := j.analysis.actual
    screenshotPath := j.screenshotPath }

/-- The second half of the `try` block: write the records. -/
def record (run case : Id) (j : Judgment) : RunProc Unit := do
  let finishedAt ← Proc.call (.now .body)
  Proc.call (.updateRun .body run (runStatusOf j.analysis.status) finishedAt)
  Proc.call (.updateCase .body case j.analysis.status (some j.durationMs))
  if j.analysis.status = .pass then pure () else Proc.call (.createBug .body (bugOf case j))
  let _ ← Proc.call (.findUsages .body run)
  pure ()

/-- The outer `catch` block, up to its broadcast. -/
def recover (run case : Id) (screenshotPath : Option String) (message : String) : RunProc Unit := do
  let finishedAt ← Proc.call (.now .recovery)
  Proc.call (.updateRun .recovery run .failed finishedAt)
  Proc.call (.updateCase .recovery case .fail none)
  Proc.call (.createBug .recovery
    { testCaseId := case, severity := .high, title := "Execution Error"
      expected := "Test to complete successfully", actual := message, screenshotPath })

/-- `broadcastUpdate`, in a process whose `globalIo` is set or null. -/
def broadcastUpdate (globalIo : Bool) (site : Site) (run : Id) : RunProc Unit := do
  if globalIo then
    match ← Proc.call (.findRun site run) with
    | some row => Proc.call (.emitUpdate site row)
    | none => pure ()
  else pure ()

/-- The outer `catch` block: record the failure, broadcast, rethrow. -/
def fail (globalIo : Bool) (run case : Id) (screenshotPath : Option String) (message : String) :
    RunProc Unit := do
  recover run case screenshotPath message
  broadcastUpdate globalIo .recovery run
  Proc.throw message

/-- The `try` statement. -/
def runBody (globalIo : Bool) (run case : Id) (instruction url : String) : RunProc Unit := do
  match ← (judge run instruction url).attempt with
  | .error e => fail globalIo run case none e
  | .ok j => Proc.tryCatch (record run case j) (fail globalIo run case j.screenshotPath)

/-- What comes before the `try` statement. -/
def setup (globalIo : Bool) (featureId : Id) (instruction : String) : RunProc (Id × Id) := do
  let run ← Proc.call (.createRun .setup featureId)
  let case ← Proc.call (.createCase .setup run instruction)
  broadcastUpdate globalIo .setup run
  pure (run, case)

def runTestExecution (globalIo : Bool) (featureId : Id) (instruction url : String) :
    RunProc Unit := do
  let (run, case) ← setup globalIo featureId instruction
  runBody globalIo run case instruction url
  broadcastUpdate globalIo .tail run

/-! ## Which part does what -/

def Judging {ρ : Type} : RunOp ρ → Prop
  | .now .. | .executeTest .. | .executeTestAutonomous .. | .analyzeResults .. | .createUsage .. =>
      True
  | _ => False

def Recording {ρ : Type} : RunOp ρ → Prop
  | .now .. | .updateRun .. | .updateCase .. | .createBug .. | .findUsages .. => True
  | _ => False

def Broadcasting {ρ : Type} : RunOp ρ → Prop
  | .findRun .. | .emitUpdate .. => True
  | _ => False

theorem recordUsages_only (run : Id) (us : List UsageEntry) :
    ∀ k, (recordUsages run k us).Only Judging := by
  induction us with
  | nil => intro k; exact .pure _
  | cons u us ih => intro k; exact .bind (.call trivial) (fun _ => ih (k + 1))

theorem judge_only (run : Id) (instruction url : String) :
    (judge run instruction url).Only Judging := by
  have hanalyze : ∀ artifacts, (analyze run artifacts).Only Judging := fun artifacts =>
    .bind (recordUsages_only run artifacts.usages 0) (fun _ =>
      .bind (.call trivial) (fun _ => .bind (.call trivial) (fun _ => .pure _)))
  unfold judge
  split
  · exact .bind (.call trivial) (fun _ => .bind (.call trivial) (fun _ =>
      .bind (.call trivial) (fun _ => .pure _)))
  · refine .bind (.call trivial) (fun start => .bind (.attempt (.call trivial)) (fun r => ?_))
    split
    · exact .bind (.call trivial) (fun _ => .pure _)
    · refine .bind (.call trivial) (fun stop => .bind (.attempt (hanalyze _)) (fun r => ?_))
      split
      · exact .pure _
      · exact .bind (.call trivial) (fun _ => .pure _)

theorem record_only (run case : Id) (j : Judgment) : (record run case j).Only Recording := by
  have hquery : (do let _ ← Proc.call (.findUsages .body run); pure () : RunProc Unit).Only
      Recording := .bind (.call trivial) (fun _ => .pure _)
  refine .bind (.call trivial) (fun _ => .bind (.call trivial) (fun _ =>
    .bind (.call trivial) (fun _ => ?_)))
  dsimp only
  split
  · exact hquery
  · exact .bind (.call trivial) (fun _ => hquery)

theorem recover_only (run case : Id) (screenshotPath : Option String) (message : String) :
    (recover run case screenshotPath message).Only Recording :=
  .bind (.call trivial) (fun _ => .bind (.call trivial) (fun _ =>
    .bind (.call trivial) (fun _ => .call trivial)))

theorem broadcastUpdate_only (globalIo : Bool) (site : Site) (run : Id) :
    (broadcastUpdate globalIo site run).Only Broadcasting := by
  unfold broadcastUpdate
  split
  · refine .bind (.call trivial) (fun row => ?_)
    split
    · exact .call trivial
    · exact .pure _
  · exact .pure _

/-! ## Its operations -/

structure RunState where
  db : Db
  trace : Trace
  /-- The rows sent to the dashboard's clients. -/
  emitted : List RunRow

def RunState.start (db : Db) (trace : Trace) : RunState := ⟨db, trace, []⟩

def RunState.onDb (f : Db → Db) (s : RunState) : RunState := { s with db := f s.db }

/-- An agent's program, over the runner's trace. -/
def onTrace {α : Type} (p : Prog Trace α) : Prog RunState α :=
  Prog.zoom RunState.trace (fun tr s => { s with trace := tr }) p

/-- A new row's id is the number of rows before it. -/
def creates (count : Db → Nat) (f : Db → Db) : Prog RunState Id := do
  let s ← Prog.get
  Prog.modify (.onDb f)
  pure (count s.db)

def perform (w : World) {ρ : Type} : RunOp ρ → Prog RunState ρ
  | .createRun _ featureId => do
      let s ← Prog.get
      creates (fun db => db.testRuns.length) (Db.createRun
        { featureId, triggeredBy := some "auto", status := .running
          startedAt := w.now (elapsed s.trace), finishedAt := none })
  | .createCase _ run description =>
      creates (fun db => db.testCases.length) (Db.createCase
        { testRunId := run, type := "ui", description, status := .pending, durationMs := none })
  | .findRun _ run => do
      let s ← Prog.get
      pure (s.db.findRun run)
  | .emitUpdate _ row => Prog.modify fun s => { s with emitted := s.emitted ++ [row] }
  | .now _ => onTrace (dateNow w)
  | .executeTest _ run url => onTrace (executeTest w (toString run) url smokePlan)
  | .executeTestAutonomous _ run instruction url =>
      onTrace (executeTestAutonomous w (toString run) instruction url none)
  | .analyzeResults _ evidence => onTrace (analyzeResults w evidence)
  | .createUsage _ run role _ u => Prog.modify (.onDb (Db.createUsage
      { testRunId := some run, featureId := none, role := some role, provider := u.provider
        model := u.model, promptTokens := u.promptTokens
        completionTokens := u.completionTokens, costUsd := some u.cost }))
  | .updateRun _ run status finishedAt => Prog.modify (.onDb (Db.updateRun run fun r =>
      { r with status, finishedAt := some finishedAt }))
  | .updateCase _ case status durationMs => Prog.modify (.onDb (Db.updateCase case fun c =>
      { c with status, durationMs := durationMs.or c.durationMs }))
  | .createBug _ bug => Prog.modify (.onDb (Db.createBug bug))
  | .findUsages _ run => do
      let s ← Prog.get
      pure (s.db.usagesOf run)

/-- Which awaited steps throw, and with which message. -/
abbrev Faults := Site → RunLabel → Option String

/-- Answer an operation: throw, or perform it. -/
def handle (w : World) (faults : Faults) {ρ : Type} (op : RunOp ρ) : Prog RunState ρ :=
  match op.label.bind (faults op.site) with
  | some e => Prog.throw e
  | none => perform w op

theorem handle_fault (w : World) (faults : Faults) {ρ : Type} (op : RunOp ρ) {e : String}
    (h : op.label.bind (faults op.site) = some e) (s : RunState) :
    handle w faults op s = (.error e, s) := by
  simp [handle, h]

theorem handle_perform (w : World) (faults : Faults) {ρ : Type} (op : RunOp ρ)
    (h : op.label.bind (faults op.site) = none) (s : RunState) :
    handle w faults op s = perform w op s := by
  simp [handle, h]

/-- What holds of the state, and of the state in which the operation is performed, holds
whether it throws or not. -/
theorem handle_state (w : World) (faults : Faults) {ρ : Type} (op : RunOp ρ) (s : RunState)
    {P : RunState → Prop} (hrest : P s) (hperform : P (perform w op s).2) :
    P (handle w faults op s).2 := by
  cases hfault : op.label.bind (faults op.site) with
  | some e =>
    rw [handle_fault w faults op hfault]
    exact hrest
  | none =>
    rw [handle_perform w faults op hfault]
    exact hperform

theorem handle_analyzeResults (w : World) {faults : Faults}
    (hanalyze : faults .body .analyzeResults = none) (evidence : Evidence) {s t : RunState}
    (htrace : t.trace = s.trace) :
    handle w faults (.analyzeResults .body evidence) t
      = ((analyzeResults w evidence s.trace).1,
          { t with trace := (analyzeResults w evidence s.trace).2 }) := by
  rw [handle_perform w faults (.analyzeResults .body evidence) hanalyze, ← htrace]
  rfl

/-- A whole call of `runTestExecution`. -/
def execute (w : World) (faults : Faults) (globalIo : Bool) (featureId : Id)
    (instruction url : String) : Prog RunState Unit :=
  (runTestExecution globalIo featureId instruction url).run (handle w faults)

/-! ## Autonomous runs -/

/-- The agent loop of a run whose `try` block starts after `tr`. -/
def agentCall (w : World) (run : Id) (instruction url : String) (tr : Trace) :
    Except String Artifacts × Trace :=
  executeTestAutonomous w (toString run) instruction url none (tr ++ [.clockRead])

/-- The analysis that the inner `try` statement ends with. -/
def concluded : Except String Analysis → Analysis
  | .ok analysis => analysis
  | .error e => inconclusiveAnalysis e

theorem handle_now (w : World) (faults : Faults) (site : Site) (s : RunState) :
    handle w faults (.now site) s
      = (.ok (w.now (elapsed s.trace)), { s with trace := s.trace ++ [.clockRead] }) := rfl

/-- An autonomous run is over after the agent loop if that throws; else the
analysis follows, one clock reading later, and another clock reading if the
analysis throws. -/
theorem judge_autonomous (w : World) (faults : Faults) (run : Id) {instruction : String}
    (url : String) (hauto : instruction ≠ smokeInstruction)
    (hloop : faults .body .executeTestAutonomous = none) (s : RunState) :
    match agentCall w run instruction url s.trace with
    | (.error e, tr) => ∃ durationMs, (judge run instruction url).run (handle w faults) s
        = (.ok ⟨inconclusiveAnalysis e, none, durationMs⟩, { s with trace := tr ++ [.clockRead] })
    | (.ok a, tr) => ∃ r t tail durationMs,
        (analyze run a).run (handle w faults) { s with trace := tr ++ [.clockRead] } = (r, t) ∧
        (tail = [] ∨ tail = [.clockRead]) ∧
        (judge run instruction url).run (handle w faults) s
          = (.ok ⟨concluded r, some a.screenshotPath, durationMs⟩,
              { t with trace := t.trace ++ tail }) := by
  cases hagent : agentCall w run instruction url s.trace with
  | mk r tr =>
  have hcall : (handle w faults (.executeTestAutonomous .body run instruction url)).attempt
        { s with trace := s.trace ++ [.clockRead] } = (.ok r, { s with trace := tr }) := by
    rw [agentCall] at hagent
    rw [Prog.attempt,
      handle_perform w faults (.executeTestAutonomous .body run instruction url) hloop]
    simp only [perform, onTrace, Prog.zoom, hagent]
  rw [judge, if_neg hauto]
  simp only [Proc.run_bind, Proc.run_call, Proc.run_attempt]
  rw [Prog.bind_ok (handle_now w faults .body s), Prog.bind_ok hcall]
  cases r with
  | error e => exact ⟨_, rfl⟩
  | ok a =>
    simp only [Proc.run_bind, Proc.run_call, Proc.run_attempt]
    rw [Prog.bind_ok (handle_now w faults .body _)]
    cases hrun : (analyze run a).run (handle w faults) { s with trace := tr ++ [.clockRead] } with
    | mk result t =>
    have hattempt : ((analyze run a).run (handle w faults)).attempt
        { s with trace := tr ++ [.clockRead] } = (.ok result, t) := by
      rw [Prog.attempt, hrun]
    rw [Prog.bind_ok hattempt]
    cases result with
    | ok analysis =>
      have hsame : t = { t with trace := t.trace ++ [] } := by rw [List.append_nil]
      exact ⟨_, t, [], _, rfl, .inl rfl, congrArg (Prod.mk _) hsame⟩
    | error e => exact ⟨_, t, [.clockRead], _, rfl, .inr rfl, rfl⟩

end AutoQa.Orchestrator

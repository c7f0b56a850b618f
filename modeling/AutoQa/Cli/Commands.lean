import AutoQa.Db.Projects
import AutoQa.Orchestrator.Runner
import AutoQa.Orchestrator.Watcher

/-!
# The commands that start tests

`test`, `smoke` and `review` (`autoqa.ts`) as processes over the database, with
the steps of `runTestExecution` among their own. The callback of the watcher and
a job of the worker are processes over the same operations, so that all of them
can be run together. Each step has its own surroundings, which may refuse it.
-/

namespace AutoQa.Cli

open AutoQa.Base AutoQa.LlmAgents AutoQa.Db AutoQa.Orchestrator

/-- The arguments of a call of `runTestExecution`. -/
structure Call where
  featureId : Id
  instruction : String
  url : String
  deriving DecidableEq, Repr

/-- The steps of the commands themselves. -/
inductive CommandOp : Type → Type where
  /-- `prisma.project.findFirst()`. -/
  | findProject : CommandOp (Option (Id × Project))
  | createProject (project : Project) : CommandOp Id
  | createFeature (feature : Feature) : CommandOp Id
  /-- `prisma.feature.findMany({ where: { status: 'discovered' }, … })`. -/
  | findDiscovered : CommandOp (List (Id × Feature))
  /-- The question of `prompts`; a cancelled one counts as no. -/
  | confirm (feature : Id) : CommandOp Bool
  | markTesting (feature : Id) : CommandOp Unit
  | addJob (job : Job) : CommandOp Unit
  /-- `runTestExecution` is called. -/
  | called (call : Call) : CommandOp Unit

/-- The steps of everything that runs over the database. -/
inductive SysOp (ρ : Type) : Type where
  | command (op : CommandOp ρ)
  | runner (op : RunOp ρ)
  /-- A step of the watcher's callback for a project. -/
  | watcher (projectId : Id) (op : WatchOp ρ)

abbrev SysProc := Proc SysOp

def await {ρ : Type} (op : CommandOp ρ) : SysProc ρ := Proc.call (.command op)

/-! ## The commands -/

/-- `runTestExecution` in a process whose `globalIo` is set or null. -/
def runTest (globalIo : Bool) (call : Call) : SysProc Unit := do
  await (.called call)
  (runTestExecution globalIo call.featureId call.instruction call.url).lift SysOp.runner

/-- The feature record of a test that is started by hand. -/
def manualFeature (projectId : Id) (name description : String) : Feature :=
  { projectId, name, description, status := .testing, selector := none, featureType := none
    pageUrl := none, covered := false, lastTestedAt := none }

/-- `findFirst()`, and `create` if there is no project at all. -/
def firstProject (project : Project) : SysProc Id := do
  match ← await .findProject with
  | some (id, _) => pure id
  | none => await (.createProject project)

def test (cwd instruction url : String) : SysProc Unit := do
  let projectId ← firstProject { name := "autoqa-test", repoPath := cwd, localUrl := url }
  let featureId ← await (.createFeature (manualFeature projectId "Manual Test" instruction))
  runTest false { featureId, instruction, url }

def smoke (cwd url : String) : SysProc Unit := do
  let projectId ← firstProject { name := "autoqa-smoke", repoPath := cwd, localUrl := url }
  let featureId ← await
    (.createFeature (manualFeature projectId "Smoke Test Feature" smokeInstruction))
  await (.addJob { featureId, instruction := smokeInstruction, url })

/-- `for (const feature of discovered)`. -/
def reviewFeatures (localUrl : String) : List (Id × Feature) → SysProc Unit
  | [] => pure ()
  | (id, feature) :: rest => do
      let yes ← await (.confirm id)
      if yes then do
        await (.markTesting id)
        runTest false { featureId := id, instruction := feature.description, url := localUrl }
        reviewFeatures localUrl rest
      else reviewFeatures localUrl rest

def review : SysProc Unit := do
  match ← await .findProject with
  | none => pure ()
  | some (_, project) => do
      let discovered ← await .findDiscovered
      reviewFeatures project.localUrl discovered

/-- The commands that start tests. -/
inductive Command where
  | test (instruction url : String)
  | smoke (url : String)
  | review
  deriving DecidableEq, Repr

def Command.proc (cwd : String) : Command → SysProc Unit
  | .test instruction url => Cli.test cwd instruction url
  | .smoke url => Cli.smoke cwd url
  | .review => Cli.review

/-- `test` and `smoke` up to what they do with their feature. -/
def started (project : Project) (name description : String) (rest : Id → SysProc Unit) :
    SysProc Unit := do
  let projectId ← firstProject project
  let featureId ← await (.createFeature (manualFeature projectId name description))
  rest featureId

/-! ## Their operations -/

section Only

variable {P : {ρ : Type} → SysOp ρ → Prop}

theorem runTest_only (globalIo : Bool) (call : Call) (hcalled : P (.command (.called call)))
    (hrunner : ∀ {ρ : Type} (op : RunOp ρ), P (.runner op)) : (runTest globalIo call).Only P := by
  apply Proc.Only.bind (.call hcalled)
  intro _
  exact .lift (.all _ hrunner)

theorem firstProject_only (project : Project) (hfind : P (.command .findProject))
    (hcreate : P (.command (.createProject project))) : (firstProject project).Only P := by
  apply Proc.Only.bind (.call hfind)
  intro found
  cases found with
  | none => exact .call hcreate
  | some first => exact .pure first.1

theorem started_only (project : Project) (name description : String) (rest : Id → SysProc Unit)
    (hfind : P (.command .findProject)) (hproject : P (.command (.createProject project)))
    (hfeature : ∀ id, P (.command (.createFeature (manualFeature id name description))))
    (hrest : ∀ id, (rest id).Only P) : (started project name description rest).Only P := by
  apply Proc.Only.bind (firstProject_only project hfind hproject)
  intro projectId
  exact .bind (.call (hfeature projectId)) hrest

theorem reviewFeatures_only (localUrl : String) (discovered : List (Id × Feature))
    (hconfirm : ∀ id, P (.command (.confirm id)))
    (hmark : ∀ id, P (.command (.markTesting id)))
    (hcalled : ∀ d ∈ discovered, P (.command (.called ⟨d.1, d.2.description, localUrl⟩)))
    (hrunner : ∀ {ρ : Type} (op : RunOp ρ), P (.runner op)) :
    (reviewFeatures localUrl discovered).Only P := by
  induction discovered with
  | nil => exact .pure ()
  | cons d rest ih =>
    obtain ⟨id, feature⟩ := d
    have hrest := ih fun d hd => hcalled d (List.mem_cons_of_mem _ hd)
    apply Proc.Only.bind (.call (hconfirm id))
    intro yes
    cases yes with
    | false => exact hrest
    | true =>
      apply Proc.Only.bind (.call (hmark id))
      intro _
      apply Proc.Only.bind (runTest_only false _ (hcalled _ List.mem_cons_self) hrunner)
      intro _
      exact hrest

theorem review_only (hproject : P (.command .findProject))
    (hdiscovered : P (.command .findDiscovered)) (hconfirm : ∀ id, P (.command (.confirm id)))
    (hmark : ∀ id, P (.command (.markTesting id))) (hcalled : ∀ call, P (.command (.called call)))
    (hrunner : ∀ {ρ : Type} (op : RunOp ρ), P (.runner op)) : review.Only P := by
  apply Proc.Only.bind (.call hproject)
  intro found
  cases found with
  | none => exact .pure ()
  | some first =>
    apply Proc.Only.bind (.call hdiscovered)
    intro discovered
    exact reviewFeatures_only _ discovered hconfirm hmark (fun _ _ => hcalled _) hrunner

end Only

/-! ## Their surroundings -/

/-- What surrounds one step: its operation is refused with a message, or answered. -/
structure Env where
  refused : Option String
  agents : World
  confirm : Bool
  gitStatus : List String
  gitDiff : String

/-- Surroundings that refuse nothing, in which `review` is answered as told. -/
def calmEnv (confirm : Bool) : Env where
  refused := none
  agents := .calm
  confirm := confirm
  gitStatus := []
  gitDiff := ""

structure SysState where
  store : Store
  testQueue : List Job
  trace : Trace
  emitted : List RunRow
  /-- The calls of `runTestExecution` so far. -/
  calls : List Call
  /-- The number of steps so far. -/
  steps : Nat

/-- An operation of the runner, on the database and the trace of the system. -/
def onRunner {α : Type} (p : Prog RunState α) : Prog SysState α :=
  Prog.zoom (fun s => ⟨s.store.toDb, s.trace, s.emitted⟩)
    (fun r s => { s with store := { s.store with toDb := r.db }, trace := r.trace
                         emitted := r.emitted }) p

def SysState.onDb (f : Db → Db) (s : SysState) : SysState :=
  { s with store := { s.store with toDb := f s.store.toDb } }

/-- A step of the watcher's callback, which does not throw here. -/
def performWatch (e : Env) (projectId : Id) {ρ : Type} : WatchOp ρ → Prog SysState ρ
  | .gitStatus => pure e.gitStatus
  | .gitDiff => pure e.gitDiff
  | .analyzeDiff diff => Prog.zoom SysState.trace (fun trace s => { s with trace })
      (LlmAgents.analyzeDiff e.agents diff)
  | .createFeature analysis => fun s => (.ok s.store.features.length,
      s.onDb (Db.createFeature (discoveredFeature projectId analysis)))
  | .createUsage featureId u => Prog.modify (.onDb (Db.createUsage (diffUsageRow featureId u)))
  | .addJob job => Prog.modify fun s => { s with testQueue := s.testQueue ++ [job] }
  | .clearProcessing => pure ()

def performCommand (e : Env) {ρ : Type} : CommandOp ρ → Prog SysState ρ
  | .findProject => fun s => (.ok (findFirst (fun _ => true) s.store.projects), s)
  | .createProject project => fun s => (.ok s.store.projects.length,
      { s with store := { s.store with projects := s.store.projects ++ [project] } })
  | .createFeature feature => fun s => (.ok s.store.features.length,
      s.onDb (Db.createFeature feature))
  | .findDiscovered => fun s =>
      (.ok (findMany (fun f => f.status == .discovered) s.store.features), s)
  | .confirm _ => pure e.confirm
  | .markTesting feature => Prog.modify (.onDb (Db.updateFeature feature fun f =>
      { f with status := .testing }))
  | .addJob job => Prog.modify fun s => { s with testQueue := s.testQueue ++ [job] }
  | .called call => Prog.modify fun s => { s with calls := s.calls ++ [call] }

def performSys (e : Env) {ρ : Type} : SysOp ρ → Prog SysState ρ
  | .command op => performCommand e op
  | .runner op => onRunner (perform e.agents op)
  | .watcher projectId op => performWatch e projectId op

def CommandOp.awaited {ρ : Type} : CommandOp ρ → Bool
  | .called _ => false
  | _ => true

/-- All but the `finally` block. -/
def watchAwaited {ρ : Type} : WatchOp ρ → Bool
  | .clearProcessing => false
  | _ => true

/-- Only what is awaited can throw. -/
def SysOp.awaited {ρ : Type} : SysOp ρ → Bool
  | .command op => op.awaited
  | .runner op => op.label.isSome
  | .watcher _ op => watchAwaited op

/-- The message with which an operation is refused, if it is. -/
def Env.refuses (e : Env) {ρ : Type} (op : SysOp ρ) : Option String :=
  if op.awaited then e.refused else none

/-- One step, with the surroundings of its time. -/
def answerSys (env : Nat → Env) {ρ : Type} (op : SysOp ρ) : Prog SysState ρ := fun s =>
  match (env s.steps).refuses op with
  | some e => (.error e, { s with steps := s.steps + 1 })
  | none => performSys (env s.steps) op { s with steps := s.steps + 1 }

theorem answerSys_refused {env : Nat → Env} {ρ : Type} {op : SysOp ρ} {s : SysState} {e : String}
    (h : (env s.steps).refuses op = some e) :
    answerSys env op s = (.error e, { s with steps := s.steps + 1 }) := by
  simp [answerSys, h]

theorem answerSys_performed {env : Nat → Env} {ρ : Type} {op : SysOp ρ} {s : SysState}
    (h : (env s.steps).refuses op = none) :
    answerSys env op s = performSys (env s.steps) op { s with steps := s.steps + 1 } := by
  simp [answerSys, h]

end AutoQa.Cli

import AutoQa.Cli.AuditProc
import AutoQa.Cli.Lifecycle

/-!
# Everything over one database

The commands that start tests, the worker's jobs, the watchers from their set-up
on and the whole `audit` command from its classified pages on, as processes over
one database. They are separate processes of the operating system: their steps
come in any order, and each has its own surroundings, which may refuse it. The
queue is BullMQ's: it outlives the processes, and a job that stalls is tested again.
-/

namespace AutoQa.Cli

open AutoQa.Base AutoQa.LlmAgents AutoQa.Db AutoQa.Orchestrator

/-! ## Operations -/

/-- What the audit's loop is given: the URL and the two budgets. -/
structure AuditBudget where
  url : String
  maxDuration : Nat
  maxCost : ℚ

/-- The variables of the audit's loop. -/
structure AuditLocals where
  startTime : Nat
  totalCost : Cost
  testedCount : Nat
  skippedCount : Nat
  typeStats : List (Option FeatureType × TypeStats)

/-- The steps of the `watch` and `audit` commands themselves. -/
inductive CliOp : Type → Type where
  /-- `git.checkIsRepo()`. -/
  | checkIsRepo (repoPath : String) : CliOp Bool
  /-- `chokidar.watch(…)`: from now on the watcher's timer can fire. -/
  | watch (projectId : Id) (localUrl : String) : CliOp Unit
  /-- `prisma.feature.findMany({ where: force ? { projectId } : { projectId, covered: false } })`. -/
  | selectFeatures (projectId : Id) (force : Bool) : CliOp (List Selected)
  /-- `startTime = Date.now()` and the counters; the reply names them. -/
  | beginLoop : CliOp Nat

inductive DeployOp (ρ : Type) : Type where
  | sys (op : SysOp ρ)
  | project (op : ProjectOp ρ)
  | discovery (op : DiscoveryOp ρ)
  | cli (op : CliOp ρ)
  /-- A step of the loop with the variables `i`. -/
  | audit (i : Nat) (budget : AuditBudget) (op : AuditOp ρ)

/-- An operation of the runner, among all. -/
abbrev runnerOp {ρ : Type} (op : RunOp ρ) : DeployOp ρ := .sys (.runner op)

/-- An operation of the callback of a project's watcher, among all. -/
abbrev watcherOp (projectId : Id) {ρ : Type} (op : WatchOp ρ) : DeployOp ρ :=
  .sys (.watcher projectId op)

abbrev DeployProc := Proc DeployOp

/-! ## Processes -/

/-- `startWatcher`, up to the first file change. -/
def startWatcher (repoPath localUrl : String) : DeployProc Unit := do
  let isRepo ← Proc.call (.cli (.checkIsRepo repoPath))
  if isRepo then do
    let projectId ← (ensureProject repoPath localUrl).lift DeployOp.project
    Proc.call (.cli (.watch projectId localUrl))
  else Proc.throw "Provided path is not a git repository"

/-- What an `audit` command is run with. -/
structure AuditCommand where
  discovery : Discovery
  force : Bool
  maxDuration : Nat
  maxCost : ℚ

def AuditCommand.budget (c : AuditCommand) : AuditBudget :=
  ⟨c.discovery.url, c.maxDuration, c.maxCost⟩

/-- The `audit` command after its crawl. -/
def auditProc (c : AuditCommand) : DeployProc Unit := do
  (discoverPagesProc c.discovery c.discovery.pages).lift DeployOp.discovery
  let projectId ← (getOrCreateProject c.discovery.repoPath c.discovery.url).lift DeployOp.project
  let featuresToTest ← Proc.call (.cli (.selectFeatures projectId c.force))
  let i ← Proc.call (.cli .beginLoop)
  (auditLoopProc 0 featuresToTest).lift (DeployOp.audit i c.budget)

/-- What a user starts. -/
inductive Launching where
  | command (cwd : String) (command : Command)
  | watch (repoPath localUrl : String)
  | audit (command : AuditCommand)

def Launching.proc : Launching → DeployProc Unit
  | .command cwd c => (c.proc cwd).lift DeployOp.sys
  | .watch repoPath localUrl => startWatcher repoPath localUrl
  | .audit c => auditProc c

/-- The callback of a watcher's timer. -/
def callbackProc (projectId : Id) (localUrl : String) : DeployProc Unit :=
  ((timerCallback localUrl).lift (SysOp.watcher projectId)).lift DeployOp.sys

/-- The worker's processor of a job. -/
def jobProc (globalIo : Bool) (job : Job) : DeployProc Unit :=
  (runTest globalIo ⟨job.featureId, job.instruction, job.url⟩).lift DeployOp.sys

/-! ## Their surroundings -/

structure DeployEnv extends Env where
  isRepo : Bool

/-- What Redis keeps of the queue. -/
structure Redis where
  waiting : List Job
  /-- How many of them, at the front, have stalled before. -/
  restored : ℕ
  /-- The jobs that were taken for the first time. -/
  active : List Job

structure DeployState extends SysState where
  /-- The watchers that are set up, with their projects and URLs. -/
  watchers : List (Id × String)
  /-- The variables of the loops of all audits. -/
  audits : List AuditLocals
  /-- How many jobs at the front of the queue have stalled before. -/
  restored : ℕ
  /-- The jobs that were taken for the first time. -/
  active : List Job
  /-- The jobs that have stalled so far. -/
  stalled : List Job

def DeployState.redis (d : DeployState) : Redis := ⟨d.testQueue, d.restored, d.active⟩

def onSys {α : Type} (p : Prog SysState α) : Prog DeployState α :=
  Prog.zoom DeployState.toSysState (fun sys d => { d with toSysState := sys }) p

def onStore {α : Type} (p : Prog Store α) : Prog SysState α :=
  Prog.zoom SysState.store (fun store s => { s with store }) p

/-- The loop's state, as its steps see it. -/
def DeployState.auditState (i : Nat) (d : DeployState) : AuditState :=
  let locals := d.audits[i]?.getD ⟨0, 0, 0, 0, []⟩
  ⟨d.store.toDb, d.trace, locals.totalCost, locals.testedCount, locals.skippedCount,
    locals.typeStats⟩

def DeployState.setAudit (i : Nat) (a : AuditState) (d : DeployState) : DeployState :=
  { d with
    store := { d.store with toDb := a.db }
    trace := a.trace
    audits := d.audits.modify i fun locals =>
      ⟨locals.startTime, a.totalCost, a.testedCount, a.skippedCount, a.typeStats⟩ }

/-- What the loop is run with at a step; what throws there is refused by the
surroundings. -/
def AuditBudget.audit (budget : AuditBudget) (w : World) (startTime : Nat) : Audit where
  w := w
  url := budget.url
  maxDuration := budget.maxDuration
  maxCost := budget.maxCost
  startTime := startTime
  faults _ _ := none

def performCli (e : DeployEnv) {ρ : Type} : CliOp ρ → Prog DeployState ρ
  | .checkIsRepo _ => pure e.isRepo
  | .watch projectId localUrl =>
      Prog.modify fun d => { d with watchers := d.watchers ++ [(projectId, localUrl)] }
  | .selectFeatures projectId force => fun d =>
      (.ok (findMany (fun f => f.projectId == projectId && (force || !f.covered))
        d.store.features), d)
  | .beginLoop => fun d => (.ok d.audits.length,
      { d with audits := d.audits ++ [⟨e.agents.now (elapsed d.trace), 0, 0, 0, []⟩] })

def performDeploy (e : DeployEnv) {ρ : Type} : DeployOp ρ → Prog DeployState ρ
  | .sys op => onSys (performSys e.toEnv op)
  | .project op => onSys (onStore (onProjects (answerProject op)))
  | .discovery op => onSys (onStore (answerDiscovery op))
  | .cli op => performCli e op
  | .audit i budget op => fun d =>
      let startTime := (d.audits[i]?.map AuditLocals.startTime).getD 0
      Prog.zoom (DeployState.auditState i) (DeployState.setAudit i)
        (answerAudit (budget.audit e.agents startTime) op) d

def AuditOp.awaited {ρ : Type} : AuditOp ρ → Bool
  | .withinBudget _ | .now | .count _ => false
  | _ => true

/-- Only what is awaited can throw. -/
def DeployOp.awaited {ρ : Type} : DeployOp ρ → Bool
  | .sys op => op.awaited
  | .audit _ _ op => op.awaited
  | .cli op => match op with
    | .beginLoop => false
    | _ => true
  | _ => true

/-- The message with which an operation is refused, if it is. -/
def DeployEnv.refusal (e : DeployEnv) {ρ : Type} (op : DeployOp ρ) : Option String :=
  if op.awaited then e.refused else none

/-- One step, with the surroundings of its time. -/
def answerDeploy (env : Nat → DeployEnv) {ρ : Type} (op : DeployOp ρ) : Prog DeployState ρ := fun d =>
  match (env d.steps).refusal op with
  | some e => (.error e, { d with steps := d.steps + 1 })
  | none => performDeploy (env d.steps) op { d with steps := d.steps + 1 }

theorem answerDeploy_cases (env : Nat → DeployEnv) {ρ : Type} (op : DeployOp ρ) (d : DeployState) :
    (∃ e, (env d.steps).refusal op = some e ∧
      answerDeploy env op d = (.error e, { d with steps := d.steps + 1 })) ∨
    ((env d.steps).refusal op = none ∧
      answerDeploy env op d = performDeploy (env d.steps) op { d with steps := d.steps + 1 }) := by
  cases hrefused : (env d.steps).refusal op with
  | some e => exact .inl ⟨e, rfl, by simp [answerDeploy, hrefused]⟩
  | none => exact .inr ⟨rfl, by simp [answerDeploy, hrefused]⟩

/-! ## The system -/

inductive DeployEvent where
  | start (launching : Launching)
  /-- The timer of the `i`-th watcher fires. -/
  | fire (i : Nat)
  /-- A worker takes the next job, in a process whose `globalIo` is set or null. -/
  | work (globalIo : Bool)
  /-- The lock of the `i`-th active job is lost before the job is recorded as finished. -/
  | stall (i : Nat)
  /-- A process gets the reply it waits for. -/
  | resume (i : Nat)

/-- `moveToActive`: the first job of the queue is taken. -/
def DeployState.take (job : Job) (rest : List Job) (d : DeployState) : DeployState :=
  { d with
    testQueue := rest
    restored := d.restored - 1
    active := if d.restored = 0 then d.active ++ [job] else d.active }

/-- `moveStalledJobsToWait`: the job is put back in front of the others. As
`maxStalledCount` is 1, one that stalls again is taken only to fail. -/
def DeployState.putBack (i : Nat) (job : Job) (d : DeployState) : DeployState :=
  { d with
    testQueue := job :: d.testQueue
    restored := d.restored + 1
    active := d.active.eraseIdx i
    stalled := d.stalled ++ [job] }

abbrev Deployment := Pool DeployOp DeployState Unit

def Deployment.step (env : Nat → DeployEnv) (s : Deployment) : DeployEvent → Option Deployment
  | .start launching => some { s with procs := s.procs ++ [launching.proc] }
  | .fire i => match s.shared.watchers[i]? with
    | some (projectId, localUrl) =>
        some { s with procs := s.procs ++ [callbackProc projectId localUrl] }
    | none => none
  | .work globalIo => match s.shared.testQueue with
    | [] => none
    | job :: rest => some
        ⟨s.shared.take job rest, s.procs ++ [jobProc globalIo job]⟩
  | .stall i => match s.shared.active[i]? with
    | none => none
    | some job => some { s with shared := s.shared.putBack i job }
  | .resume i => Pool.step (answerDeploy env) s i

/-- Nothing runs, over the tables `store` and the queue. -/
def Deployment.over (store : Store) (redis : Redis) (trace : Trace) : Deployment where
  shared :=
    { store, testQueue := redis.waiting, trace, emitted := [], calls := [], steps := 0
      watchers := [], audits := [], restored := redis.restored, active := redis.active
      stalled := [] }
  procs := []

/-- A step starts a process, with or without a job, puts a job back, or answers one
operation. -/
theorem Deployment.step_cases {env : Nat → DeployEnv} {s t : Deployment} {event : DeployEvent}
    (h : s.step env event = some t) :
    (∃ launching : Launching, t = { s with procs := s.procs ++ [launching.proc] }) ∨
    (∃ projectId localUrl, (projectId, localUrl) ∈ s.shared.watchers ∧
      t = { s with procs := s.procs ++ [callbackProc projectId localUrl] }) ∨
    (∃ globalIo job rest, s.shared.testQueue = job :: rest ∧
      t = ⟨s.shared.take job rest, s.procs ++ [jobProc globalIo job]⟩) ∨
    (∃ i job, s.shared.active[i]? = some job ∧ t = { s with shared := s.shared.putBack i job }) ∨
    ∃ i, event = .resume i ∧ Pool.step (answerDeploy env) s i = some t := by
  cases event with
  | start launching =>
    cases h
    exact .inl ⟨launching, rfl⟩
  | fire i =>
    cases hwatcher : s.shared.watchers[i]? with
    | none => simp [Deployment.step, hwatcher] at h
    | some w =>
      simp only [Deployment.step, hwatcher, Option.some.injEq] at h
      exact .inr (.inl ⟨w.1, w.2, List.mem_of_getElem? hwatcher, h.symm⟩)
  | work globalIo =>
    cases hqueue : s.shared.testQueue with
    | nil => simp [Deployment.step, hqueue] at h
    | cons job rest =>
      simp only [Deployment.step, hqueue, Option.some.injEq] at h
      exact .inr (.inr (.inl ⟨globalIo, job, rest, rfl, h.symm⟩))
  | stall i =>
    cases hactive : s.shared.active[i]? with
    | none => simp [Deployment.step, hactive] at h
    | some job =>
      simp only [Deployment.step, hactive, Option.some.injEq] at h
      exact .inr (.inr (.inr (.inl ⟨i, job, hactive, h.symm⟩)))
  | resume i => exact .inr (.inr (.inr (.inr ⟨i, rfl, h⟩)))

end AutoQa.Cli

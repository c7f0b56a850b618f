import AutoQa.Base.Pool
import AutoQa.Cli.Commands
import AutoQa.Orchestrator.WatcherChanges

/-!
# The lifecycle of a feature

Commands, callbacks of the watcher and jobs of the worker over one database, in
any order of their steps. Of the database only the status columns matter here:
`Statuses` is the part of a state that the lifecycle is about, and every step is
a step of it.
-/

namespace AutoQa.Cli

open AutoQa.Base AutoQa.LlmAgents AutoQa.Db AutoQa.Orchestrator

/-! ## The system -/

/-- What a user or a file change starts. -/
inductive Task where
  | command (cwd : String) (command : Command)
  /-- The timer of a watcher fires while it is not processing. -/
  | watch (projectId : Id) (localUrl : String)

def Task.proc : Task → SysProc Unit
  | .command cwd c => c.proc cwd
  | .watch projectId localUrl => (timerCallback localUrl).lift (SysOp.watcher projectId)

inductive SysEvent where
  | start (task : Task)
  /-- A worker takes the next job, in a process whose `globalIo` is set or null. -/
  | work (globalIo : Bool)
  /-- A process gets the reply it waits for. -/
  | resume (i : Nat)

abbrev System := Pool SysOp SysState Unit

def System.step (env : Nat → Env) (s : System) : SysEvent → Option System
  | .start task => some { s with procs := s.procs ++ [task.proc] }
  | .work globalIo => match s.shared.testQueue with
    | [] => none
    | job :: rest => some
        ⟨{ s.shared with testQueue := rest },
          s.procs ++ [runTest globalIo ⟨job.featureId, job.instruction, job.url⟩]⟩
  | .resume i => Pool.step (answerSys env) s i

/-- A process that a task or a job starts. -/
def Started (p : SysProc Unit) : Prop :=
  (∃ task : Task, p = task.proc) ∨ ∃ globalIo call, p = runTest globalIo call

/-- A step starts a process and leaves the database, or answers one operation. -/
theorem System.step_cases {env : Nat → Env} {s t : System} {event : SysEvent}
    (h : s.step env event = some t) :
    (∃ p, Started p ∧ t.procs = s.procs ++ [p] ∧ t.shared.store = s.shared.store) ∨
      ∃ (i : Nat) (ρ : Type) (op : SysOp ρ) (k : Except String ρ → SysProc Unit),
        event = .resume i ∧ s.procs[i]? = some (.step op k) ∧
        t = ⟨(answerSys env op s.shared).2, s.procs.set i (k (answerSys env op s.shared).1)⟩ := by
  cases event with
  | start task =>
    cases h
    exact .inl ⟨task.proc, .inl ⟨task, rfl⟩, rfl, rfl⟩
  | work globalIo =>
    cases hqueue : s.shared.testQueue with
    | nil => simp [System.step, hqueue] at h
    | cons job rest =>
      simp only [System.step, hqueue, Option.some.injEq] at h
      rw [← h]
      exact .inl ⟨_, .inr ⟨globalIo, _, rfl⟩, rfl, rfl⟩
  | resume i =>
    obtain ⟨ρ, op, k, hproc, rfl⟩ := Pool.step_cases h
    exact .inr ⟨i, ρ, op, k, rfl, hproc, rfl⟩

/-- Nothing runs and nothing is queued. -/
def System.Idle (s : System) : Prop := s.Finished ∧ s.shared.testQueue = []

/-- A system whose database holds nothing but projects. -/
def System.fresh (projects : List Project) (trace : Trace) : System where
  shared :=
    { store := .fresh projects, testQueue := [], trace, emitted := [], calls := [], steps := 0 }
  procs := []

/-! ## Statuses -/

/-- The status column of the features, and that of the runs with their features. -/
structure Statuses where
  features : List FeatureStatus
  runs : List (Id × RunStatus)
  deriving DecidableEq

def SysState.statuses (s : SysState) : Statuses where
  features := s.store.features.map Feature.status
  runs := s.store.testRuns.map fun r => (r.featureId, r.status)

namespace Statuses

/-- The status of the latest run of a feature. -/
def latest (l : Statuses) (feature : Id) : Option RunStatus :=
  ((l.runs.filter fun r => r.1 == feature).getLast?).map Prod.snd

/-- No feature is being tested, and the verdict on a feature is that of its latest run. -/
structure Concluded (l : Statuses) : Prop where
  tested : .testing ∉ l.features
  verified : ∀ id status, l.features[id]? = some status → l.latest id = some .passed →
    status = .verified
  broken : ∀ id status, l.features[id]? = some status → l.latest id = some .failed →
    status = .broken

end Statuses

/-- What an operation does to the statuses when it is performed. -/
def SysOp.onStatuses {ρ : Type} (l : Statuses) : SysOp ρ → Statuses
  | .command op => match op with
    | .createFeature f => { l with features := l.features ++ [f.status] }
    | .markTesting id => { l with features := l.features.modify id fun _ => .testing }
    | _ => l
  | .watcher _ op => match op with
    | .createFeature _ => { l with features := l.features ++ [.discovered] }
    | _ => l
  | .runner op => match op with
    | .createRun _ featureId => { l with runs := l.runs ++ [(featureId, .running)] }
    | .updateRun _ run status _ => { l with runs := l.runs.modify run fun r => (r.1, status) }
    | _ => l

theorem statuses_performSys (e : Env) {ρ : Type} (op : SysOp ρ) (s : SysState) :
    (performSys e op s).2.statuses = op.onStatuses s.statuses := by
  cases op with
  | command op =>
    cases op with
    | createFeature f => exact congrArg (Statuses.mk · s.statuses.runs) List.map_append
    | markTesting id =>
      have hfeatures := map_modify Feature.status (fun f => { f with status := .testing })
        (fun _ => .testing) (fun _ => rfl) s.store.features id
      exact congrArg (Statuses.mk · s.statuses.runs) hfeatures
    | _ => rfl
  | watcher projectId op =>
    cases op with
    | createFeature analysis => exact congrArg (Statuses.mk · s.statuses.runs) List.map_append
    | _ => rfl
  | runner op =>
    cases op with
    | createRun site featureId => exact congrArg (Statuses.mk s.statuses.features) List.map_append
    | updateRun site run status finishedAt =>
      have hruns := map_modify (fun r : TestRun => (r.featureId, r.status))
        (fun r => { r with status, finishedAt := some finishedAt }) (fun r => (r.1, status))
        (fun _ => rfl) s.store.testRuns run
      exact congrArg (Statuses.mk s.statuses.features) hruns
    | _ => rfl

/-- A step changes the statuses as its operation says, or not at all. -/
theorem statuses_answerSys (env : Nat → Env) {ρ : Type} (op : SysOp ρ) (s : SysState) :
    (answerSys env op s).2.statuses
      = if (env s.steps).refuses op = none then op.onStatuses s.statuses else s.statuses := by
  cases hrefused : (env s.steps).refuses op with
  | some e =>
    rw [answerSys_refused hrefused, if_neg nofun]
    rfl
  | none =>
    rw [answerSys_performed hrefused, if_pos rfl]
    exact statuses_performSys (env s.steps) op { s with steps := s.steps + 1 }

/-- A step of the system performs one operation, or leaves the statuses as they are. -/
theorem statuses_step {env : Nat → Env} {s t : System} {event : SysEvent}
    (h : s.step env event = some t) :
    t.shared.statuses = s.shared.statuses ∨
      ∃ (i : Nat) (ρ : Type) (op : SysOp ρ) (k : Except String ρ → SysProc Unit),
        event = .resume i ∧ s.procs[i]? = some (.step op k) ∧
        (env s.shared.steps).refuses op = none ∧
        t.shared.statuses = op.onStatuses s.shared.statuses := by
  obtain ⟨p, -, -, hstore⟩ | ⟨i, ρ, op, k, hevent, hproc, rfl⟩ := System.step_cases h
  · exact .inl (by rw [SysState.statuses, SysState.statuses, hstore])
  · rw [statuses_answerSys]
    cases hrefused : (env s.shared.steps).refuses op with
    | some e => exact .inl (if_neg nofun)
    | none => exact .inr ⟨i, ρ, op, k, hevent, hproc, hrefused, if_pos rfl⟩

/-! ## What every run does -/

/-- A command creates its feature as one that is being tested. -/
def CreatesTesting {ρ : Type} : SysOp ρ → Prop
  | .command op => match op with
    | .createFeature f => f.status = .testing
    | _ => True
  | _ => True

theorem Command.proc_only (cwd : String) (command : Command) :
    (command.proc cwd).Only CreatesTesting := by
  cases command with
  | test instruction url =>
    exact started_only _ _ _ _ trivial trivial (fun _ => rfl) fun _ =>
      runTest_only false _ trivial fun _ => trivial
  | smoke url => exact started_only _ _ _ _ trivial trivial (fun _ => rfl) fun _ => .call trivial
  | review =>
    exact review_only trivial trivial (fun _ => trivial) (fun _ => trivial) (fun _ => trivial)
      fun _ => trivial

theorem Task.proc_only (task : Task) : task.proc.Only CreatesTesting := by
  cases task with
  | command cwd c => exact c.proc_only cwd
  | watch projectId localUrl => exact .lift (.all _ fun _ => trivial)

theorem Started.only {p : SysProc Unit} (h : Started p) : p.Only CreatesTesting := by
  obtain ⟨task, rfl⟩ | ⟨globalIo, call, rfl⟩ := h
  · exact task.proc_only
  · exact runTest_only globalIo call trivial fun _ => trivial

theorem procs_step {env : Nat → Env} {s t : System} {event : SysEvent}
    (h : s.step env event = some t) (hs : ∀ p ∈ s.procs, p.Only CreatesTesting) :
    ∀ p ∈ t.procs, p.Only CreatesTesting := by
  obtain ⟨p, hp, hprocs, -⟩ | ⟨i, ρ, op, k, -, hproc, rfl⟩ := System.step_cases h
  · rw [hprocs]
    exact List.forall_mem_append.mpr ⟨hs, List.forall_mem_singleton.mpr hp.only⟩
  · exact Pool.forall_set hs i ((hs _ (List.mem_of_getElem? hproc)).2 _)

namespace Statuses

/-- No operation of these processes gives a feature a verdict. -/
theorem unjudged_onStatuses {l : Statuses}
    (h : ∀ status ∈ l.features, status = .discovered ∨ status = .testing) {ρ : Type}
    {op : SysOp ρ} (hop : CreatesTesting op) :
    ∀ status ∈ (op.onStatuses l).features, status = .discovered ∨ status = .testing := by
  cases op with
  | command op =>
    cases op with
    | createFeature f =>
      exact List.forall_mem_append.mpr ⟨h, List.forall_mem_singleton.mpr (.inr hop)⟩
    | markTesting id => exact forall_mem_modify h (fun _ _ => .inr rfl) id
    | _ => exact h
  | watcher projectId op =>
    cases op with
    | createFeature analysis =>
      exact List.forall_mem_append.mpr ⟨h, List.forall_mem_singleton.mpr (.inl rfl)⟩
    | _ => exact h
  | runner op => cases op <;> exact h

/-- No operation ends the testing of a feature. -/
theorem testing_onStatuses {l : Statuses} {id : Id} (h : l.features[id]? = some .testing)
    {ρ : Type} (op : SysOp ρ) : (op.onStatuses l).features[id]? = some .testing := by
  have happend : ∀ status, (l.features ++ [status])[id]? = some .testing := by
    intro status
    rw [List.getElem?_append_left (List.getElem?_eq_some_iff.mp h).1, h]
  cases op with
  | command op =>
    cases op with
    | createFeature f => exact happend f.status
    | markTesting other => simp [SysOp.onStatuses, List.getElem?_modify, h]
    | _ => exact h
  | watcher projectId op =>
    cases op with
    | createFeature analysis => exact happend .discovered
    | _ => exact h
  | runner op => cases op <;> exact h

end Statuses

/-- No feature has a verdict, and no process is about to give one. -/
structure Unjudged (s : System) : Prop where
  procs : ∀ p ∈ s.procs, p.Only CreatesTesting
  features : ∀ status ∈ s.shared.statuses.features, status = .discovered ∨ status = .testing

theorem step_unjudged (env : Nat → Env) (s : System) (event : SysEvent) (t : System)
    (hs : Unjudged s) (hstep : s.step env event = some t) : Unjudged t := by
  refine ⟨procs_step hstep hs.procs, ?_⟩
  obtain hsame | ⟨i, ρ, op, k, rfl, hproc, -, hstatuses⟩ := statuses_step hstep
  · rw [hsame]
    exact hs.features
  · rw [hstatuses]
    exact Statuses.unjudged_onStatuses hs.features (hs.procs _ (List.mem_of_getElem? hproc)).1

/-- In no run does a feature become verified or broken. -/
theorem unjudged_of_run {env : Nat → Env} {projects : List Project} {trace : Trace}
    {events : List SysEvent} {t : System}
    (hrun : exec (System.step env) (.fresh projects trace) events = some t) :
    ∀ status ∈ t.shared.statuses.features, status = .discovered ∨ status = .testing := by
  have hfresh : Unjudged (.fresh projects trace) :=
    ⟨List.forall_mem_nil _, List.forall_mem_nil _⟩
  exact (exec_keeps (step_unjudged env) hfresh hrun).features

namespace Statuses

/-- Where no feature has a verdict, no run calls for one. -/
theorem concluded_of_unjudged {l : Statuses}
    (h : ∀ status ∈ l.features, status = .discovered ∨ status = .testing) :
    l.Concluded ↔ .testing ∉ l.features ∧
      ∀ id < l.features.length, l.latest id ≠ some .passed ∧ l.latest id ≠ some .failed := by
  constructor
  · intro hl
    refine ⟨hl.tested, fun id hid => ⟨fun hpassed => ?_, fun hfailed => ?_⟩⟩
    · have hstatus := hl.verified id _ (List.getElem?_eq_getElem hid) hpassed
      have hold := h _ (List.getElem_mem hid)
      simp [hstatus] at hold
    · have hstatus := hl.broken id _ (List.getElem?_eq_getElem hid) hfailed
      have hold := h _ (List.getElem_mem hid)
      simp [hstatus] at hold
  · intro ⟨htested, hlatest⟩
    have hlt : ∀ {id status}, l.features[id]? = some status → id < l.features.length :=
      fun hid => (List.getElem?_eq_some_iff.mp hid).1
    exact ⟨htested, fun id _ hid hpassed => absurd hpassed (hlatest id (hlt hid)).1,
      fun id _ hid hfailed => absurd hfailed (hlatest id (hlt hid)).2⟩

end Statuses

/-- A feature that is being tested is being tested ever after. -/
theorem testing_of_run {env : Nat → Env} {s t : System} {events : List SysEvent} {id : Id}
    (h : s.shared.statuses.features[id]? = some .testing)
    (hrun : exec (System.step env) s events = some t) :
    t.shared.statuses.features[id]? = some .testing := by
  have hstep : ∀ (s : System) event (t : System),
      s.shared.statuses.features[id]? = some .testing → s.step env event = some t →
      t.shared.statuses.features[id]? = some .testing := by
    intro s event t hs hstep
    obtain hsame | ⟨i, ρ, op, k, -, -, -, hstatuses⟩ := statuses_step hstep
    · rw [hsame]
      exact hs
    · rw [hstatuses]
      exact Statuses.testing_onStatuses hs op
  exact exec_keeps hstep h hrun

/-! ## Runs that owe no update -/

/-- The operations after which a feature's status has to be updated once more: the
feature is now being tested, or a run of it has passed or failed. -/
def SysOp.owesUpdate {ρ : Type} : SysOp ρ → Bool
  | .command op => match op with
    | .createFeature f => f.status == .testing
    | .markTesting _ => true
    | _ => false
  | .runner op => match op with
    | .updateRun _ _ status _ => status == .passed || status == .failed
    | _ => false
  | .watcher _ _ => false

/-- The step performs no operation that owes an update. -/
def owesNothing (env : Nat → Env) (s : System) : SysEvent → Bool
  | .resume i => match s.procs[i]? with
    | some (.step op _) => ((env s.shared.steps).refuses op).isSome || !op.owesUpdate
    | _ => true
  | _ => true

namespace Statuses

/-- No feature is being tested and no run has a verdict. -/
structure Untested (l : Statuses) : Prop where
  features : ∀ status ∈ l.features, status ≠ .testing
  runs : ∀ r ∈ l.runs, r.2 ≠ .passed ∧ r.2 ≠ .failed

theorem Untested.concluded {l : Statuses} (h : Untested l) : l.Concluded := by
  have hlatest : ∀ id status, l.latest id = some status → status ≠ .passed ∧ status ≠ .failed := by
    intro id status hlast
    obtain ⟨r, hr, rfl⟩ := Option.map_eq_some_iff.mp hlast
    exact h.runs r (List.mem_filter.mp (List.mem_of_getLast? hr)).1
  refine ⟨fun htesting => h.features _ htesting rfl, fun id _ _ hpassed => ?_,
    fun id _ _ hfailed => ?_⟩
  · exact absurd rfl (hlatest id _ hpassed).1
  · exact absurd rfl (hlatest id _ hfailed).2

theorem Untested.onStatuses {l : Statuses} (h : Untested l) {ρ : Type} {op : SysOp ρ}
    (howes : op.owesUpdate = false) : Untested (op.onStatuses l) := by
  cases op with
  | command op =>
    cases op with
    | createFeature f =>
      have hf : f.status ≠ .testing := by simpa [SysOp.owesUpdate] using howes
      exact ⟨List.forall_mem_append.mpr ⟨h.features, List.forall_mem_singleton.mpr hf⟩, h.runs⟩
    | markTesting id => cases howes
    | _ => exact h
  | watcher projectId op =>
    cases op with
    | createFeature analysis =>
      have hnew : FeatureStatus.discovered ≠ .testing := nofun
      exact ⟨List.forall_mem_append.mpr ⟨h.features, List.forall_mem_singleton.mpr hnew⟩, h.runs⟩
    | _ => exact h
  | runner op =>
    cases op with
    | createRun site featureId =>
      have hnew : RunStatus.running ≠ .passed ∧ RunStatus.running ≠ .failed := ⟨nofun, nofun⟩
      exact ⟨h.features, List.forall_mem_append.mpr ⟨h.runs, List.forall_mem_singleton.mpr hnew⟩⟩
    | updateRun site run status finishedAt =>
      have hstatus : status ≠ .passed ∧ status ≠ .failed := by
        simpa [SysOp.owesUpdate] using howes
      exact ⟨h.features, forall_mem_modify h.runs (fun _ _ => hstatus) run⟩
    | _ => exact h

end Statuses

theorem step_untested (env : Nat → Env) (s : System) (event : SysEvent) (t : System)
    (hs : s.shared.statuses.Untested) (howes : owesNothing env s event)
    (hstep : s.step env event = some t) : t.shared.statuses.Untested := by
  obtain hsame | ⟨i, ρ, op, k, rfl, hproc, hperformed, hstatuses⟩ := statuses_step hstep
  · rw [hsame]
    exact hs
  · rw [hstatuses]
    exact hs.onStatuses (by simpa [owesNothing, hproc, hperformed] using howes)

theorem fresh_untested (projects : List Project) (trace : Trace) :
    (System.fresh projects trace).shared.statuses.Untested :=
  ⟨nofun, nofun⟩

/-- In every state of a run no feature has a verdict: the features have the statuses
that their latest runs call for exactly if none is being tested and none of these runs
has passed or failed. Steps that owe no update lead to such states only. -/
theorem concluded_iff {env : Nat → Env} {projects : List Project} {trace : Trace}
    {events : List SysEvent} {t : System}
    (hrun : exec (System.step env) (.fresh projects trace) events = some t) :
    (∀ status ∈ t.shared.statuses.features, status = .discovered ∨ status = .testing) ∧
    (t.shared.statuses.Concluded ↔ .testing ∉ t.shared.statuses.features ∧
      ∀ id < t.shared.statuses.features.length, t.shared.statuses.latest id ≠ some .passed ∧
        t.shared.statuses.latest id ≠ some .failed) ∧
    (Along (System.step env) (fun s event => owesNothing env s event) (.fresh projects trace)
      events → t.shared.statuses.Concluded) := by
  have hunjudged := unjudged_of_run hrun
  refine ⟨hunjudged, Statuses.concluded_of_unjudged hunjudged, fun hsteps => ?_⟩
  exact (exec_invariant (step_untested env) (fresh_untested projects trace) hsteps hrun).concluded

/-- A login page has been saved; from the `n`-th step on the database is locked. -/
def lockedFrom (n step : Nat) : Env :=
  { calmEnv false with
    refused := if step < n then none else some "database is locked"
    agents := savingWorld.agents
    gitStatus := ["src/login.ts"] }

/-- The watcher of the shop discovers a feature, and a worker tests it for `n` steps. -/
def discoveredRun (n : Nat) : List SysEvent :=
  .start (.watch 0 "http://localhost:3000") :: List.replicate 7 (.resume 0)
    ++ .work false :: List.replicate n (.resume 1)

/-- The feature's run is left running when the database is locked in the middle of it,
and nothing is due. When the run fails, its feature would have to be broken. -/
theorem discovered_concluded_iff :
    (∃ t, exec (System.step (lockedFrom 11))
        (.fresh [⟨"shop", "/work/shop", "http://localhost:3000"⟩] []) (discoveredRun 10) = some t ∧
      t.Idle ∧ t.shared.statuses = ⟨[.discovered], [(0, .running)]⟩ ∧
      t.shared.statuses.Concluded) ∧
    ∃ t, exec (System.step (lockedFrom 20))
        (.fresh [⟨"shop", "/work/shop", "http://localhost:3000"⟩] []) (discoveredRun 11) = some t ∧
      t.Idle ∧ t.shared.statuses = ⟨[.discovered], [(0, .failed)]⟩ ∧
      ¬ t.shared.statuses.Concluded := by
  have hlocked : (exec (System.step (lockedFrom 11))
      (.fresh [⟨"shop", "/work/shop", "http://localhost:3000"⟩] []) (discoveredRun 10)).map
        (fun t => (decide t.Finished, t.shared.testQueue, t.shared.statuses))
      = some (true, [], ⟨[.discovered], [(0, .running)]⟩) := by decide +kernel
  have hfailed : (exec (System.step (lockedFrom 20))
      (.fresh [⟨"shop", "/work/shop", "http://localhost:3000"⟩] []) (discoveredRun 11)).map
        (fun t => (decide t.Finished, t.shared.testQueue, t.shared.statuses))
      = some (true, [], ⟨[.discovered], [(0, .failed)]⟩) := by decide +kernel
  obtain ⟨s, hs, hview⟩ := Option.map_eq_some_iff.mp hlocked
  obtain ⟨t, ht, hview'⟩ := Option.map_eq_some_iff.mp hfailed
  simp only [Prod.mk.injEq] at hview hview'
  obtain ⟨hfinished, hqueue, hstatuses⟩ := hview
  obtain ⟨hfinished', hqueue', hstatuses'⟩ := hview'
  refine ⟨⟨s, hs, ⟨of_decide_eq_true hfinished, hqueue⟩, hstatuses, ?_⟩,
    ⟨t, ht, ⟨of_decide_eq_true hfinished', hqueue'⟩, hstatuses', ?_⟩⟩
  · refine (concluded_iff hs).2.1.mpr ?_
    rw [hstatuses]
    decide
  · intro hconcluded
    have hdue := ((concluded_iff ht).2.1.mp hconcluded).2 0
    rw [hstatuses'] at hdue
    exact (hdue (by decide)).2 rfl

/-- A smoke test in an empty database, up to the end of the worker's job. -/
def smokeRun : List SysEvent :=
  .start (.command "/work/shop" (.smoke "http://localhost:3000")) :: List.replicate 4 (.resume 0)
    ++ .work false :: List.replicate 10 (.resume 1)

/-- The run has passed and nothing is left to do, but the feature is still being tested. -/
theorem smoke_stays_testing :
    ∃ t, exec (System.step fun _ => calmEnv false) (.fresh [] []) smokeRun = some t ∧
      t.Idle ∧ t.shared.statuses.latest 0 = some .passed ∧ ¬ t.shared.statuses.Concluded := by
  have hview : (exec (System.step fun _ => calmEnv false) (.fresh [] []) smokeRun).map
      (fun t => (decide t.Finished, t.shared.testQueue, t.shared.statuses))
        = some (true, [], ⟨[.testing], [(0, .passed)]⟩) := by decide +kernel
  obtain ⟨t, hrun, hidle⟩ := Option.map_eq_some_iff.mp hview
  simp only [Prod.mk.injEq] at hidle
  obtain ⟨hfinished, hqueue, hstatuses⟩ := hidle
  refine ⟨t, hrun, ⟨of_decide_eq_true hfinished, hqueue⟩, ?_, ?_⟩
  · rw [hstatuses]
    rfl
  · rw [hstatuses]
    exact fun h => h.tested List.mem_cons_self

end AutoQa.Cli

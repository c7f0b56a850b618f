import AutoQa.Cli.Charges
import AutoQa.Orchestrator.WatcherChanges

/-!
# How often a feature is tested

Who creates a feature may have it tested once: `test` does it itself, `smoke` and the
watcher leave it to a worker. A `review` may test each feature that it finds, an
`audit` each feature that it selects. A test that is due is a credit: it comes with
the feature or with the command, waits in the queue with its job, and is spent on a
run. A job that stalls comes with another one.
-/

namespace AutoQa.Cli

open AutoQa.Base AutoQa.LlmAgents AutoQa.Db AutoQa.Orchestrator

/-! ## The books -/

/-- The runs of a feature that the runner has created, or those of the audits, which have
no `triggeredBy`. -/
def runsFor (f : Id) (byRunner : Bool) (db : Db) : ℕ :=
  (db.testRuns.map fun r => (r.featureId, r.triggeredBy.isSome)).count (f, byRunner)

/-- The jobs for a feature that wait for a worker. -/
def jobsFor (f : Id) (queue : List Job) : ℕ := (queue.map Job.featureId).count f

/-- Those among them, and among the active ones, that have not stalled. -/
def firstJobsFor (f : Id) (redis : Redis) : ℕ :=
  jobsFor f (redis.waiting.drop redis.restored) + jobsFor f redis.active

/-- One test, if it is one of `f`. -/
def due (f id : Id) : ℕ := if id = f then 1 else 0

/-- One test, if there is a feature `f`. -/
def dueOnce (f : Id) (db : Db) : ℕ := if f < db.features.length then 1 else 0

/-- The tests of a feature by the runner, those by audits, and its jobs. -/
def testBooks (f : Id) : Books DeployState (ℕ × ℕ × ℕ) where
  earned d := (dueOnce f d.store.toDb + jobsFor f d.stalled, 0, dueOnce f d.store.toDb)
  spent d := (jobsFor f d.testQueue + runsFor f true d.store.toDb, runsFor f false d.store.toDb,
    firstJobsFor f d.redis + jobsFor f d.stalled)

theorem timeless_testBooks (f : Id) : Timeless (testBooks f) := fun _ _ => ⟨rfl, rfl⟩

theorem jobsFor_append (f : Id) (queue queue' : List Job) :
    jobsFor f (queue ++ queue') = jobsFor f queue + jobsFor f queue' := by
  rw [jobsFor, List.map_append, List.count_append, jobsFor, jobsFor]

theorem jobsFor_cons (f : Id) (job : Job) (queue : List Job) :
    jobsFor f (job :: queue) = due f job.featureId + jobsFor f queue := by
  rw [jobsFor, List.map_cons, List.count_cons, add_comm]
  simp [due, jobsFor]

theorem jobsFor_singleton (f : Id) (job : Job) : jobsFor f [job] = due f job.featureId :=
  jobsFor_cons f job []

theorem jobsFor_eraseIdx (f : Id) {queue : List Job} {i : Nat} {job : Job}
    (h : queue[i]? = some job) :
    jobsFor f queue = due f job.featureId + jobsFor f (queue.eraseIdx i) := by
  induction queue generalizing i with
  | nil => cases h
  | cons first queue ih =>
    cases i with
    | zero =>
      cases h
      exact jobsFor_cons f job queue
    | succ i =>
      rw [jobsFor_cons, List.eraseIdx_cons_succ, jobsFor_cons, ih h, add_left_comm]

theorem runsFor_createRun (f : Id) (byRunner : Bool) (run : TestRun) (db : Db) :
    runsFor f byRunner (db.createRun run) = runsFor f byRunner db
      + if (run.featureId, run.triggeredBy.isSome) = (f, byRunner) then 1 else 0 := by
  simp [runsFor, Db.createRun, List.count_append, List.count_singleton]

theorem runsFor_updateRun (f : Id) (byRunner : Bool) (run : Id) {g : TestRun → TestRun} (db : Db)
    (h : ∀ r, ((g r).featureId, (g r).triggeredBy) = (r.featureId, r.triggeredBy)) :
    runsFor f byRunner (db.updateRun run g) = runsFor f byRunner db := by
  have hsame : ∀ r, ((g r).featureId, (g r).triggeredBy.isSome)
      = (r.featureId, r.triggeredBy.isSome) := by
    intro r
    obtain ⟨hfeature, htriggered⟩ := Prod.mk.inj (h r)
    rw [hfeature, htriggered]
  exact congrArg (List.count (f, byRunner)) (map_modify_of_same _ g hsame db.testRuns run)

/-! ## What tests nothing -/

/-- No test is queued or begun; features may have been added. -/
def TestsNothing (f : Id) (d d' : DeployState) : Prop :=
  (d'.redis = d.redis ∧ d'.stalled = d.stalled) ∧
  (∀ byRunner, runsFor f byRunner d'.store.toDb = runsFor f byRunner d.store.toDb) ∧
  d.store.features.length ≤ d'.store.features.length

/-- A feature that comes to be has a test due. -/
theorem exists_dueOnce {f : Id} {db db' : Db} (h : db.features.length ≤ db'.features.length) :
    ∃ n, dueOnce f db' = dueOnce f db + n := by
  refine ⟨dueOnce f db' - dueOnce f db, (Nat.add_sub_of_le ?_).symm⟩
  unfold dueOnce
  split
  · rename_i hold
    rw [if_pos (hold.trans_le h)]
  · exact Nat.zero_le _

theorem TestsNothing.enters {f : Id} {d d' : DeployState} (h : TestsNothing f d d') :
    ∃ gain, (testBooks f).Enters gain 0 d d' := by
  obtain ⟨⟨hredis, hstalled⟩, hruns, hgrows⟩ := h
  obtain ⟨n, hn⟩ := exists_dueOnce (f := f) hgrows
  have hqueue : d'.testQueue = d.testQueue := congrArg Redis.waiting hredis
  refine ⟨(n, 0, n), ?_, ?_⟩
  · simp only [testBooks, hn, hstalled, Prod.mk_add_mk, add_zero]
    rw [add_right_comm]
  · simp [testBooks, hqueue, hredis, hstalled, hruns]

def runTestsNothing {ρ : Type} : RunOp ρ → Prop
  | .createRun .. => False
  | _ => True

def CommandOp.testsNothing {ρ : Type} : CommandOp ρ → Prop
  | .addJob _ => False
  | _ => True

def watchTestsNothing {ρ : Type} : WatchOp ρ → Prop
  | .addJob _ => False
  | _ => True

/-- The counters leave the database alone. -/
def AuditOp.testsNothing {ρ : Type} : AuditOp ρ → Prop
  | .createRun .. => False
  | .count g => ∀ a, (g a).db = a.db
  | _ => True

def SysOp.testsNothing {ρ : Type} : SysOp ρ → Prop
  | .command op => op.testsNothing
  | .runner op => runTestsNothing op
  | .watcher _ op => watchTestsNothing op

def DeployOp.testsNothing {ρ : Type} : DeployOp ρ → Prop
  | .sys op => op.testsNothing
  | .audit _ _ op => op.testsNothing
  | _ => True

section Ops

variable {ρ : Type}

theorem perform_testsNothing (w : World) {op : RunOp ρ} (h : runTestsNothing op) (s : RunState) :
    (∀ f byRunner, runsFor f byRunner (perform w op s).2.db = runsFor f byRunner s.db) ∧
      (perform w op s).2.db.features = s.db.features := by
  cases op with
  | createRun site featureId => cases h
  | updateRun site run status finishedAt =>
    exact ⟨fun f byRunner => runsFor_updateRun f byRunner run s.db fun _ => rfl, rfl⟩
  | _ => exact ⟨fun _ _ => rfl, rfl⟩

theorem performDeploy_testsNothing (f : Id) {op : DeployOp ρ} (h : op.testsNothing) (e : DeployEnv)
    (d : DeployState) : TestsNothing f d (performDeploy e op d).2 := by
  cases op with
  | sys op =>
    cases op with
    | runner op =>
      obtain ⟨hruns, hfeatures⟩ :=
        perform_testsNothing e.agents h ⟨d.store.toDb, d.trace, d.emitted⟩
      exact ⟨⟨rfl, rfl⟩, hruns f, (congrArg List.length hfeatures).ge⟩
    | command op =>
      cases op with
      | addJob job => cases h
      | createFeature feature =>
        exact ⟨⟨rfl, rfl⟩, fun _ => rfl, (List.sublist_append_left d.store.features [feature]).length_le⟩
      | markTesting feature => exact ⟨⟨rfl, rfl⟩, fun _ => rfl, (List.length_modify ..).ge⟩
      | _ => exact ⟨⟨rfl, rfl⟩, fun _ => rfl, le_refl _⟩
    | watcher projectId op =>
      cases op with
      | addJob job => cases h
      | createFeature analysis =>
        exact ⟨⟨rfl, rfl⟩, fun _ => rfl, (List.sublist_append_left d.store.features _).length_le⟩
      | _ => exact ⟨⟨rfl, rfl⟩, fun _ => rfl, le_refl _⟩
  | project op => cases op <;> exact ⟨⟨rfl, rfl⟩, fun _ => rfl, le_refl _⟩
  | discovery op =>
    cases op with
    | createFeature v =>
      exact ⟨⟨rfl, rfl⟩, fun _ => rfl, (List.sublist_append_left d.store.features [v.row]).length_le⟩
    | _ => exact ⟨⟨rfl, rfl⟩, fun _ => rfl, le_refl _⟩
  | cli op => cases op <;> exact ⟨⟨rfl, rfl⟩, fun _ => rfl, le_refl _⟩
  | audit i budget op =>
    cases op with
    | createRun iter feat => cases h
    | count g =>
      have hdb : (performDeploy e (.audit i budget (.count g)) d).2.store.toDb = d.store.toDb :=
        h (d.auditState i)
      exact ⟨⟨rfl, rfl⟩, fun b => congrArg (runsFor f b) hdb,
        (congrArg (fun db => db.features.length) hdb).ge⟩
    | updateRun iter step run status =>
      exact ⟨⟨rfl, rfl⟩, fun b => runsFor_updateRun f b run d.store.toDb fun _ => rfl, le_refl _⟩
    | updateFeature iter feat now => exact ⟨⟨rfl, rfl⟩, fun _ => rfl, (List.length_modify ..).ge⟩
    | _ => exact ⟨⟨rfl, rfl⟩, fun _ => rfl, le_refl _⟩

end Ops

/-! ## The rules -/

/-- `p` begins and queues no more tests of `f` than it has credit for. -/
abbrev Tests (f : Id) (env : Nat → DeployEnv) {O : Type → Type}
    (g : {ρ : Type} → O ρ → DeployOp ρ) {α : Type} (Q : Except String α → ℕ × ℕ × ℕ)
    (p : Proc O α) (c : ℕ × ℕ × ℕ) : Prop :=
  Pays (testBooks f) env g Q p c

section Rules

variable {f : Id} {env : Nat → DeployEnv} {O : Type → Type} {g : {ρ : Type} → O ρ → DeployOp ρ}
  {α ρ : Type} {c : ℕ × ℕ × ℕ}

theorem Tests.of_only {p : Proc O α} (hp : p.Only fun o => (g o).testsNothing) :
    Tests f env g (fun _ => c) p c :=
  Pays.of_only (timeless_testBooks f)
    (hp.mono fun _ h e d => (performDeploy_testsNothing f h e d).enters)

/-- A run or a job that is paid for. -/
theorem Tests.spend {o : O ρ} {c : ℕ × ℕ × ℕ}
    (hperformed : ∀ e d, ∃ cost ≤ c, (testBooks f).Enters 0 cost d (performDeploy e (g o) d).2) :
    Tests f env g (fun _ => 0) (Proc.call o) c := by
  refine Pays.call (timeless_testBooks f) (fun _ => zero_le) fun e d => ?_
  obtain ⟨cost, hle, henters⟩ := hperformed e d
  exact ⟨0, cost, henters, by simpa using hle⟩

/-- A feature comes with a test and a job. -/
theorem Tests.create {o : O Id}
    (hperformed : ∀ e d, ∃ feature : Feature,
      (performDeploy e (g o) d).1 = .ok d.store.features.length ∧
      (performDeploy e (g o) d).2.store.features = d.store.features ++ [feature] ∧
      (performDeploy e (g o) d).2.stalled = d.stalled ∧
      (testBooks f).spent (performDeploy e (g o) d).2 = (testBooks f).spent d) :
    Tests f env g (owed fun id => (due f id, 0, due f id)) (Proc.call o) 0 := by
  refine Pays.call (timeless_testBooks f) (fun _ => zero_le) fun e d => ?_
  obtain ⟨feature, hreply, hfeatures, hstalled, hspent⟩ := hperformed e d
  have hdue : dueOnce f (performDeploy e (g o) d).2.store.toDb
      = dueOnce f d.store.toDb + due f d.store.features.length := by
    rw [dueOnce, hfeatures, List.length_append, List.length_singleton, dueOnce, due]
    rcases Nat.lt_trichotomy f d.store.features.length with hold | hnew | hlater
    · simp [hold, Nat.lt_succ_of_lt hold, hold.ne']
    · simp [hnew]
    · have hnot : ¬ f < d.store.features.length + 1 := Nat.not_lt.mpr hlater
      simp [hnot, hlater.ne, Nat.not_lt.mpr hlater.le]
  refine ⟨(due f d.store.features.length, 0, due f d.store.features.length), 0, ⟨?_, hspent⟩, ?_⟩
  · simp only [testBooks, hdue, hstalled, Prod.mk_add_mk, add_zero]
    rw [add_right_comm]
  · rw [hreply]
    simp [owed]

/-- A query whose rows are different features, each with a test out of `c`. -/
theorem Tests.select {o : O (List Selected)} {w : ℕ → ℕ × ℕ × ℕ} (hw : ∀ n ≤ 1, w n ≤ c)
    (hperformed : ∀ e d, (performDeploy e (g o) d).2 = d ∧ ∃ cond,
      (performDeploy e (g o) d).1 = .ok (findMany cond d.store.features)) :
    Tests f env g (owed fun rows => w ((rows.map Prod.fst).count f)) (Proc.call o) c := by
  refine Pays.call (timeless_testBooks f) (fun _ => zero_le) fun e d => ?_
  obtain ⟨hsame, cond, hreply⟩ := hperformed e d
  refine ⟨0, 0, ⟨?_, ?_⟩, ?_⟩
  · rw [hsame, add_zero]
  · rw [hsame, add_zero]
  · have hids : ((findMany cond d.store.features).map Prod.fst).Nodup := by
      have hsub : ((findMany cond d.store.features).map Prod.fst).Sublist
          (d.store.features.zipIdx.map Prod.snd) := by
        rw [findMany, List.map_map]
        exact List.filter_sublist.map Prod.snd
      refine hsub.nodup ?_
      rw [List.zipIdx_map_snd]
      exact List.nodup_range'
    rw [hreply, zero_add, add_zero]
    exact hw _ (List.nodup_iff_count_le_one.mp hids f)

end Rules

/-! ## The runner -/

section Processes

variable {f : Id} {env : Nat → DeployEnv}

theorem judging_testsNothing {ρ : Type} (op : RunOp ρ) (h : Judging op) : runTestsNothing op := by
  cases op with
  | createRun site featureId => cases h
  | _ => trivial

theorem recording_testsNothing {ρ : Type} (op : RunOp ρ) (h : Recording op) :
    runTestsNothing op := by
  cases op with
  | createRun site featureId => cases h
  | _ => trivial

theorem broadcasting_testsNothing {ρ : Type} (op : RunOp ρ) (h : Broadcasting op) :
    runTestsNothing op := by
  cases op with
  | createRun site featureId => cases h
  | _ => trivial

/-- Behind its creation, a run creates no other. -/
theorem runBody_testsNothing (globalIo : Bool) (run case : Id) (instruction url : String) :
    (runBody globalIo run case instruction url).Only fun op => runTestsNothing op := by
  have hfail : ∀ screenshotPath message,
      (fail globalIo run case screenshotPath message).Only fun op => runTestsNothing op := by
    intro screenshotPath message
    apply Proc.Only.bind ((recover_only run case _ _).mono recording_testsNothing)
    intro _
    apply Proc.Only.bind ((broadcastUpdate_only globalIo _ run).mono broadcasting_testsNothing)
    intro _
    exact .throw message
  apply Proc.Only.bind (.attempt ((judge_only run instruction url).mono judging_testsNothing))
  intro r
  cases r with
  | error e => exact hfail none e
  | ok j => exact .tryCatch ((record_only run case j).mono recording_testsNothing) (hfail _)

theorem runTestExecution_tests (globalIo : Bool) (featureId : Id) (instruction url : String) :
    Tests f env runnerOp (fun _ => 0) (runTestExecution globalIo featureId instruction url)
      (due f featureId, 0, 0) := by
  have hcreate : Tests f env runnerOp (fun _ => 0) (Proc.call (.createRun .setup featureId))
      (due f featureId, 0, 0) := by
    refine Tests.spend fun e d => ⟨_, le_refl _, (add_zero _).symm, Prod.ext ?_ (Prod.ext ?_ rfl)⟩
    · show jobsFor f d.testQueue + runsFor f true (Db.createRun _ d.store.toDb) = _
      rw [runsFor_createRun]
      simp [testBooks, due, add_assoc]
    · show runsFor f false (Db.createRun _ d.store.toDb) = _
      rw [runsFor_createRun]
      simp [testBooks]
  have hrest : ∀ run, Tests f env runnerOp (fun _ => 0) (do
      let case ← Proc.call (.createCase .setup run instruction)
      broadcastUpdate globalIo .setup run
      pure (run, case)) 0 := by
    intro run
    refine Tests.of_only (.bind (.call trivial) fun case => ?_)
    exact .bind ((broadcastUpdate_only globalIo .setup run).mono broadcasting_testsNothing)
      fun _ => .pure _
  have hsetup : Tests f env runnerOp (fun _ => 0) (setup globalIo featureId instruction)
      (due f featureId, 0, 0) := Affords.bind hcreate hrest fun _ => le_refl 0
  apply Affords.bind hsetup
  · rintro ⟨run, case⟩
    refine Tests.of_only
      (.bind (runBody_testsNothing globalIo run case instruction url) fun _ => ?_)
    exact (broadcastUpdate_only globalIo .tail run).mono broadcasting_testsNothing
  · exact fun _ => le_refl 0

/-! ## The commands -/

/-- An operation that is awaited beside the tests. -/
theorem await_tests {ρ : Type} (op : CommandOp ρ) (h : op.testsNothing) (c : ℕ × ℕ × ℕ) :
    Tests f env DeployOp.sys (fun _ => c) (await op) c :=
  Tests.of_only (.call h)

theorem runTest_tests (globalIo : Bool) (call : Call) :
    Tests f env DeployOp.sys (fun _ => 0) (runTest globalIo call) (due f call.featureId, 0, 0) :=
  Affords.bind (await_tests (.called call) trivial _)
    (fun _ => Affords.lift
      (runTestExecution_tests globalIo call.featureId call.instruction call.url))
    fun _ => zero_le

theorem started_tests (project : Project) (name description : String) (rest : Id → SysProc Unit)
    (hrest : ∀ id, Tests f env DeployOp.sys (fun _ => 0) (rest id) (due f id, 0, due f id)) :
    Tests f env DeployOp.sys (fun _ => 0) (started project name description rest) 0 := by
  have hproject : Tests f env DeployOp.sys (fun _ => 0) (firstProject project) 0 :=
    Tests.of_only (firstProject_only project trivial trivial)
  apply Affords.bind hproject
  · intro projectId
    have hcreate : Tests f env DeployOp.sys (owed fun id => (due f id, 0, due f id))
        (await (.createFeature (manualFeature projectId name description))) 0 :=
      Tests.create fun e d => ⟨_, rfl, rfl, rfl, rfl⟩
    exact Affords.bind hcreate hrest fun _ => le_refl 0
  · exact fun _ => le_refl 0

/-- A job takes the test of its feature into the queue. -/
theorem addJob_enters (job : Job) (d : DeployState) :
    ∃ cost ≤ (due f job.featureId, 0, due f job.featureId), (testBooks f).Enters 0 cost d
      { d with testQueue := d.testQueue ++ [job] } := by
  have hdrop : jobsFor f ([job].drop (d.restored - d.testQueue.length)) ≤ due f job.featureId := by
    rw [← jobsFor_singleton, jobsFor, jobsFor]
    exact ((List.drop_sublist _ _).map Job.featureId).count_le f
  refine ⟨(due f job.featureId, 0, jobsFor f ([job].drop (d.restored - d.testQueue.length))),
    Prod.mk_le_mk.mpr ⟨le_refl _, Prod.mk_le_mk.mpr ⟨le_refl _, hdrop⟩⟩, (add_zero _).symm,
    Prod.ext ?_ (Prod.ext rfl ?_)⟩
  · show jobsFor f (d.testQueue ++ [job]) + _ = jobsFor f d.testQueue + _ + due f job.featureId
    rw [jobsFor_append, jobsFor_singleton, add_right_comm]
  · show jobsFor f ((d.testQueue ++ [job]).drop d.restored) + jobsFor f d.active
        + jobsFor f d.stalled
      = jobsFor f (d.testQueue.drop d.restored) + jobsFor f d.active + jobsFor f d.stalled
        + jobsFor f ([job].drop (d.restored - d.testQueue.length))
    rw [List.drop_append, jobsFor_append]
    omega

theorem addJob_tests (job : Job) :
    Tests f env DeployOp.sys (fun _ => 0) (await (.addJob job))
      (due f job.featureId, 0, due f job.featureId) :=
  Tests.spend fun _ d => addJob_enters job d

theorem reviewFeatures_tests (localUrl : String) (discovered : List Selected) :
    Tests f env DeployOp.sys (fun _ => 0) (reviewFeatures localUrl discovered)
      ((discovered.map Prod.fst).count f, 0, 0) := by
  induction discovered with
  | nil => exact le_refl 0
  | cons row rest ih =>
    obtain ⟨id, feature⟩ := row
    have hcount : (((id, feature) :: rest : List Selected).map Prod.fst).count f
        = due f id + (rest.map Prod.fst).count f := by
      rw [List.map_cons, List.count_cons, add_comm]
      simp [due]
    apply Affords.bind (await_tests (.confirm id) trivial _)
    · intro yes
      cases yes with
      | false =>
        refine ih.credit (Prod.mk_le_mk.mpr ⟨?_, le_refl 0⟩)
        rw [hcount]
        exact le_add_self
      | true =>
        apply Affords.bind (await_tests (.markTesting id) trivial _)
        · intro _
          have htest : Tests f env DeployOp.sys (fun _ => ((rest.map Prod.fst).count f, 0, 0))
              (runTest false ⟨id, feature.description, localUrl⟩)
              ((((id, feature) :: rest : List Selected).map Prod.fst).count f, 0, 0) := by
            have hcall : Tests f env DeployOp.sys (fun _ => 0)
                (runTest false ⟨id, feature.description, localUrl⟩) (due f id, 0, 0) :=
              runTest_tests false _
            rw [hcount]
            simpa using hcall.frame ((rest.map Prod.fst).count f, 0, 0)
          exact Affords.bind htest (fun _ => ih) fun _ => zero_le
        · exact fun _ => zero_le
    · exact fun _ => zero_le

/-- A review tests each feature once. -/
theorem review_tests : Tests f env DeployOp.sys (fun _ => 0) review (1, 0, 0) := by
  apply Affords.bind (await_tests .findProject trivial _)
  · intro found
    cases found with
    | none => exact zero_le
    | some row =>
      have hfound : Tests f env DeployOp.sys
          (owed fun rows => ((rows.map Prod.fst).count f, 0, 0)) (await .findDiscovered)
          (1, 0, 0) :=
        Tests.select (fun n hn => Prod.mk_le_mk.mpr ⟨hn, le_refl 0⟩) fun _ _ => ⟨rfl, _, rfl⟩
      exact Affords.bind hfound (fun rows => reviewFeatures_tests _ rows) fun _ => le_refl 0
  · exact fun _ => zero_le

/-! ## The watcher -/

theorem timerCallback_tests (projectId : Id) (localUrl : String) :
    Tests f env (watcherOp projectId) (fun _ => 0) (timerCallback localUrl) 0 := by
  have hbeside : ∀ {ρ : Type} (op : WatchOp ρ) (c : ℕ × ℕ × ℕ), watchTestsNothing op →
      Tests f env (watcherOp projectId) (fun _ => c) (Proc.call op) c :=
    fun op c h => Tests.of_only (.call h)
  have henqueue : Tests f env (watcherOp projectId) (fun _ => 0) (enqueueChanges localUrl) 0 := by
    apply Affords.bind (hbeside .gitDiff 0 trivial)
    · intro diff
      apply Affords.bind (hbeside (.analyzeDiff diff) 0 trivial)
      · rintro ⟨analysis, usage⟩
        have hcreate : Tests f env (watcherOp projectId) (owed fun id => (due f id, 0, due f id))
            (Proc.call (.createFeature analysis)) 0 :=
          Tests.create fun e d => ⟨_, rfl, rfl, rfl, rfl⟩
        apply Affords.bind hcreate
        · intro featureId
          have hjob : Tests f env (watcherOp projectId) (fun _ => 0)
              (Proc.call (.addJob ⟨featureId, analysis.description, localUrl⟩))
              (due f featureId, 0, due f featureId) :=
            Tests.spend fun _ d => addJob_enters ⟨featureId, analysis.description, localUrl⟩ d
          exact Affords.bind (hbeside (.createUsage featureId usage) _ trivial) (fun _ => hjob)
            fun _ => zero_le
        · exact fun _ => le_refl 0
      · exact fun _ => le_refl 0
    · exact fun _ => le_refl 0
  have hchanges : Tests f env (watcherOp projectId) (fun _ => 0) (processChanges localUrl) 0 := by
    apply Affords.bind (hbeside .gitStatus 0 trivial)
    · intro files
      dsimp only
      split
      · exact le_refl 0
      · exact henqueue
    · exact fun _ => le_refl 0
  exact Affords.bind (Affords.attempt (Q := fun _ => 0) hchanges)
    (fun _ => hbeside .clearProcessing 0 trivial) fun _ => le_refl 0

theorem Command.tests (cwd : String) (command : Command) :
    Tests f env DeployOp.sys (fun _ => 0) (command.proc cwd)
      (if command = .review then (1, 0, 0) else 0) := by
  cases command with
  | test instruction url =>
    refine started_tests _ _ _ (fun id => runTest false ⟨id, instruction, url⟩) fun id => ?_
    exact (runTest_tests false _).credit (Prod.mk_le_mk.mpr ⟨le_refl _, zero_le⟩)
  | smoke url =>
    exact started_tests _ _ _ (fun id => await (.addJob ⟨id, smokeInstruction, url⟩))
      fun id => addJob_tests _
  | review => exact review_tests

theorem startWatcher_tests (repoPath localUrl : String) :
    Tests f env (fun o => o) (fun _ => 0) (startWatcher repoPath localUrl) 0 := by
  refine Tests.of_only (.bind (.call trivial) fun isRepo => ?_)
  cases isRepo with
  | false => exact .throw _
  | true =>
    exact .bind (.lift (.all _ fun _ => trivial)) fun projectId => .call trivial

/-! ## The audit -/

section Loop

variable {i : Nat} {budget : AuditBudget}

theorem trackCost_testsNothing (iter : Nat) (run : Id) (us : List UsageEntry) : ∀ k : Nat,
    (trackCostProc iter run k us).Only fun op => op.testsNothing := by
  induction us with
  | nil => exact fun k => .pure ()
  | cons u us ih =>
    intro k
    exact .bind (.call fun _ => rfl) fun _ => .bind (.call trivial) fun _ => ih (k + 1)

theorem recordResult_testsNothing (iter : Nat) (feat : Selected) (run : Id)
    (result : FeatureResult) :
    (recordResultProc iter feat run result).Only fun op => op.testsNothing := by
  cases result with
  | skipped reason => exact .bind (.call fun _ => rfl) fun _ => .call trivial
  | verified artifacts =>
    exact .bind (.call fun _ => rfl) fun _ => .bind (.call trivial) fun _ =>
      .bind (.call trivial) fun _ => .bind (.call trivial) fun _ => .call fun _ => rfl

/-- Behind its creation, an audit's run creates no other. -/
theorem auditFeature_testsNothing (iter : Nat) (feat : Selected) (run : Id) :
    (Proc.tryCatch (auditFeatureProc iter feat run)
      fun _ => recordFailureProc iter feat run).Only fun op => op.testsNothing := by
  apply Proc.Only.tryCatch
  · apply Proc.Only.bind (.call trivial)
    intro result
    apply Proc.Only.bind (recordResult_testsNothing iter feat run result)
    intro _
    exact trackCost_testsNothing iter run result.usages 0
  · intro e
    exact .bind (.call trivial) fun _ => .call fun _ => rfl

theorem testFeature_tests (iter : Nat) (feat : Selected) :
    Tests f env (DeployOp.audit i budget) (fun _ => 0) (testFeatureProc iter feat)
      (0, due f feat.1, 0) := by
  have hcreate : Tests f env (DeployOp.audit i budget) (fun _ => 0)
      (Proc.call (.createRun iter feat)) (0, due f feat.1, 0) := by
    refine Tests.spend fun e d => ⟨_, le_refl _, (add_zero _).symm, Prod.ext ?_ (Prod.ext ?_ rfl)⟩
    · show jobsFor f d.testQueue + runsFor f true (Db.createRun _ d.store.toDb) = _
      rw [runsFor_createRun]
      simp [testBooks]
    · show runsFor f false (Db.createRun _ d.store.toDb) = _
      rw [runsFor_createRun]
      simp [testBooks, due]
  exact Affords.bind hcreate
    (fun run => Tests.of_only (auditFeature_testsNothing iter feat run)) fun _ => le_refl 0

theorem auditLoop_tests (feats : List Selected) : ∀ iter : Nat,
    Tests f env (DeployOp.audit i budget) (fun _ => 0) (auditLoopProc iter feats)
      (0, (feats.map Prod.fst).count f, 0) := by
  induction feats with
  | nil => exact fun iter => le_refl 0
  | cons feat rest ih =>
    intro iter
    have hcount : ((feat :: rest).map Prod.fst).count f
        = due f feat.1 + (rest.map Prod.fst).count f := by
      rw [List.map_cons, List.count_cons, add_comm]
      simp [due]
    have hbudget : Tests f env (DeployOp.audit i budget)
        (fun _ => (0, ((feat :: rest).map Prod.fst).count f, 0)) (Proc.call (.withinBudget feat))
        (0, ((feat :: rest).map Prod.fst).count f, 0) := Tests.of_only (.call trivial)
    apply Affords.bind hbudget
    · intro go
      cases go with
      | false => exact zero_le
      | true =>
        have htest : Tests f env (DeployOp.audit i budget)
            (fun _ => (0, (rest.map Prod.fst).count f, 0)) (testFeatureProc iter feat)
            (0, ((feat :: rest).map Prod.fst).count f, 0) := by
          have hone : Tests f env (DeployOp.audit i budget) (fun _ => 0)
              (testFeatureProc iter feat) (0, due f feat.1, 0) := testFeature_tests iter feat
          rw [hcount]
          simpa using hone.frame (0, (rest.map Prod.fst).count f, 0)
        exact Affords.bind htest (fun _ => ih (iter + 1)) fun _ => zero_le
    · exact fun _ => zero_le

end Loop

theorem audit_tests (c : AuditCommand) :
    Tests f env (fun o => o) (fun _ => 0) (auditProc c) (0, 1, 0) := by
  have hdiscovery : Tests f env DeployOp.discovery (fun _ => (0, 1, 0))
      (discoverPagesProc c.discovery c.discovery.pages) (0, 1, 0) :=
    Tests.of_only (.all _ fun _ => trivial)
  have hproject : Tests f env DeployOp.project (fun _ => (0, 1, 0))
      (getOrCreateProject c.discovery.repoPath c.discovery.url) (0, 1, 0) :=
    Tests.of_only (.all _ fun _ => trivial)
  apply Affords.bind (Affords.lift hdiscovery)
  · intro _
    apply Affords.bind (Affords.lift hproject)
    · intro projectId
      have hselect : Tests f env (fun o => o)
          (owed fun rows : List Selected => (0, (rows.map Prod.fst).count f, 0))
          (Proc.call (.cli (.selectFeatures projectId c.force))) (0, 1, 0) :=
        Tests.select (fun n hn => Prod.mk_le_mk.mpr ⟨le_refl 0, Prod.mk_le_mk.mpr ⟨hn, le_refl 0⟩⟩) fun _ _ => ⟨rfl, _, rfl⟩
      apply Affords.bind hselect
      · intro feats
        have hbegin : Tests f env (fun o => o) (fun _ => (0, (feats.map Prod.fst).count f, 0))
            (Proc.call (.cli .beginLoop)) (0, (feats.map Prod.fst).count f, 0) :=
          Tests.of_only (.call trivial)
        exact Affords.bind hbegin (fun i => Affords.lift (auditLoop_tests feats 0)) fun _ => zero_le
      · exact fun _ => le_refl 0
    · exact fun _ => zero_le
  · exact fun _ => zero_le

/-! ## All runs -/

def Launching.isReview : Launching → Bool
  | .command _ .review => true
  | _ => false

def Launching.isAudit : Launching → Bool
  | .audit _ => true
  | _ => false

def DeployEvent.starts (p : Launching → Bool) : DeployEvent → Bool
  | .start launching => p launching
  | _ => false

/-- How many such commands are started. -/
def starts (p : Launching → Bool) (events : List DeployEvent) : ℕ :=
  events.countP (DeployEvent.starts p)

theorem Launching.tests (launching : Launching) :
    Tests f env (fun o => o) (fun _ => 0) launching.proc
      (launching.isReview.toNat, launching.isAudit.toNat, 0) := by
  cases launching with
  | command cwd c =>
    have hcommand : Tests f env DeployOp.sys (fun _ => 0) (c.proc cwd)
        (if c = .review then (1, 0, 0) else 0) := c.tests cwd
    cases c <;> exact Affords.lift hcommand
  | watch repoPath localUrl => exact startWatcher_tests repoPath localUrl
  | audit c => exact audit_tests c

end Processes

section Runs

variable {f : Id} {env : Nat → DeployEnv} {start : DeployState} {granted : ℕ × ℕ × ℕ}
  {s t : Deployment} {credits : List (ℕ × ℕ × ℕ)}

/-- What the commands of these events may test. -/
def grants (events : List DeployEvent) : ℕ × ℕ × ℕ :=
  (starts Launching.isReview events, starts Launching.isAudit events, 0)

theorem grants_cons (event : DeployEvent) (events : List DeployEvent) :
    grants (event :: events) = grants [event] + grants events := by
  have hstarts : ∀ p, starts p (event :: events) = starts p [event] + starts p events := by
    intro p
    rw [starts, starts, starts, ← List.countP_append]
    rfl
  exact Prod.ext (hstarts _) (Prod.ext (hstarts _) rfl)

/-- A job that is taken hands its test over; it is still one of the first jobs, if it was. -/
theorem spent_take (f : Id) (d : DeployState) {job : Job} {rest : List Job}
    (h : d.testQueue = job :: rest) :
    (testBooks f).spent d = (testBooks f).spent (d.take job rest) + (due f job.featureId, 0, 0) := by
  refine Prod.ext ?_ (Prod.ext rfl ?_)
  · show jobsFor f d.testQueue + _ = jobsFor f rest + _ + due f job.featureId
    rw [h, jobsFor_cons]
    exact add_rotate _ _ _
  · show jobsFor f (d.testQueue.drop d.restored) + jobsFor f d.active + jobsFor f d.stalled
      = jobsFor f (rest.drop (d.restored - 1))
        + jobsFor f (if d.restored = 0 then d.active ++ [job] else d.active) + jobsFor f d.stalled
    rw [h]
    cases hrestored : d.restored with
    | zero =>
      rw [List.drop_zero, Nat.zero_sub, List.drop_zero, if_pos rfl, jobsFor_cons, jobsFor_append,
        jobsFor_singleton]
      omega
    | succ n => simp

/-- A job that is put back comes with a test. -/
theorem putBack_enters (f : Id) (d : DeployState) {i : Nat} {job : Job}
    (h : d.active[i]? = some job) :
    (testBooks f).Enters (due f job.featureId, 0, 0) (due f job.featureId, 0, 0) d
      (d.putBack i job) := by
  have hstalled : jobsFor f (d.stalled ++ [job]) = jobsFor f d.stalled + due f job.featureId := by
    rw [jobsFor_append, jobsFor_singleton]
  refine ⟨Prod.ext ?_ rfl, Prod.ext ?_ (Prod.ext rfl ?_)⟩
  · show dueOnce f d.store.toDb + jobsFor f (d.stalled ++ [job]) = _
    rw [hstalled, ← add_assoc]
    rfl
  · show jobsFor f (job :: d.testQueue) + _ = jobsFor f d.testQueue + _ + due f job.featureId
    rw [jobsFor_cons]
    exact add_rotate _ _ _
  · show jobsFor f (d.testQueue.drop d.restored) + jobsFor f (d.active.eraseIdx i)
        + jobsFor f (d.stalled ++ [job])
      = jobsFor f (d.testQueue.drop d.restored) + jobsFor f d.active + jobsFor f d.stalled
    rw [hstalled, jobsFor_eraseIdx f h]
    omega

theorem tested_step {event : DeployEvent}
    (h : Pool.Solvent (testBooks f) (answerDeploy env) start granted s credits)
    (hstep : s.step env event = some t) :
    ∃ credits', Pool.Solvent (testBooks f) (answerDeploy env) start (granted + grants [event]) t
      credits' := by
  cases event with
  | start launching =>
    cases hstep
    have hone : ∀ p : Launching → Bool, starts p [.start launching] = (p launching).toNat := by
      intro p
      cases hp : p launching <;> simp [starts, DeployEvent.starts, hp]
    rw [grants, hone, hone]
    exact ⟨_, h.start_proc launching.tests⟩
  | fire i =>
    cases hwatcher : s.shared.watchers[i]? with
    | none => simp [Deployment.step, hwatcher] at hstep
    | some w =>
      simp only [Deployment.step, hwatcher, Option.some.injEq] at hstep
      subst hstep
      have hcallback : Tests f env (fun o => o) (fun _ => 0) (callbackProc w.1 w.2) 0 :=
        Affords.lift (Affords.lift (timerCallback_tests w.1 w.2))
      exact ⟨_, h.start_proc hcallback⟩
  | work globalIo =>
    cases hqueue : s.shared.testQueue with
    | nil => simp [Deployment.step, hqueue] at hstep
    | cons job rest =>
      simp only [Deployment.step, hqueue, Option.some.injEq] at hstep
      subst hstep
      have hjob : Tests f env (fun o => o) (fun _ => 0) (jobProc globalIo job)
          (due f job.featureId, 0, 0) := Affords.lift (runTest_tests globalIo _)
      have hnext : Pool.Solvent (testBooks f) (answerDeploy env) start granted
          ⟨s.shared.take job rest, s.procs ++ [jobProc globalIo job]⟩
          (credits ++ [(due f job.featureId, 0, 0)]) :=
        h.hand_over rfl (spent_take f s.shared hqueue) hjob
      have hnone : grants [.work globalIo] = 0 := rfl
      rw [hnone, add_zero]
      exact ⟨_, hnext⟩
  | stall i =>
    cases hactive : s.shared.active[i]? with
    | none => simp [Deployment.step, hactive] at hstep
    | some job =>
      simp only [Deployment.step, hactive, Option.some.injEq] at hstep
      subst hstep
      have hnone : grants [.stall i] = 0 := rfl
      rw [hnone, add_zero]
      exact ⟨credits, h.outside (putBack_enters f s.shared hactive) (le_refl _)⟩
  | resume i =>
    have hnone : grants [.resume i] = 0 := rfl
    rw [hnone, add_zero]
    exact h.step hstep

theorem tested_run (events : List DeployEvent) : ∀ {s : Deployment} {granted : ℕ × ℕ × ℕ}
    {credits : List (ℕ × ℕ × ℕ)},
    Pool.Solvent (testBooks f) (answerDeploy env) start granted s credits →
    exec (Deployment.step env) s events = some t →
    ∃ credits', Pool.Solvent (testBooks f) (answerDeploy env) start (granted + grants events) t
      credits' := by
  induction events with
  | nil =>
    intro s granted credits h hrun
    cases hrun
    exact ⟨credits, h⟩
  | cons event events ih =>
    intro s granted credits h hrun
    obtain ⟨s', hstep, hrest⟩ := Option.bind_eq_some_iff.mp hrun
    obtain ⟨credits', h'⟩ := tested_step h hstep
    rw [grants_cons, ← add_assoc]
    exact ih h' hrest

end Runs

/-- The test that is due for a feature that has come to be. -/
theorem dueOnce_le {f : Id} {db db' : Db} :
    dueOnce f db' ≤ dueOnce f db
      + if db.features.length ≤ f ∧ f < db'.features.length then 1 else 0 := by
  unfold dueOnce
  split
  · split
    · exact Nat.le_add_right _ _
    · rename_i hnew hold
      rw [if_pos ⟨Nat.not_lt.mp hold, hnew⟩]
  · exact Nat.zero_le _

/-- **No feature is tested more often than it is due.** In every run of a deployment over
any database and queue, the jobs for a feature and the runner's runs of it are, beyond the
runs and jobs it had before, at most one if the feature is new, one for each `review`
command and one for each job for it that stalled; a job stalls at most once. An `audit`
command adds at most one run of its own. -/
theorem tested_as_due {env : Nat → DeployEnv} {store : Store} {redis : Redis} {trace : Trace}
    {events : List DeployEvent} {s : Deployment}
    (hrun : exec (Deployment.step env) (.over store redis trace) events = some s) (f : Id) :
    jobsFor f s.shared.testQueue + runsFor f true s.shared.store.toDb
      ≤ jobsFor f redis.waiting + runsFor f true store.toDb
        + (if store.features.length ≤ f ∧ f < s.shared.store.features.length then 1 else 0)
        + starts Launching.isReview events + jobsFor f s.shared.stalled ∧
    jobsFor f s.shared.stalled + firstJobsFor f s.shared.redis
      ≤ firstJobsFor f redis
        + (if store.features.length ≤ f ∧ f < s.shared.store.features.length then 1 else 0) ∧
    runsFor f false s.shared.store.toDb
      ≤ runsFor f false store.toDb + starts Launching.isAudit events := by
  have hstart : Pool.Solvent (testBooks f) (answerDeploy env)
      (Deployment.over store redis trace).shared 0 (Deployment.over store redis trace) [] := by
    refine ⟨.nil, ?_⟩
    rw [List.sum_nil, add_zero, add_zero, add_comm]
  obtain ⟨credits, hsolvent⟩ := tested_run events hstart hrun
  obtain ⟨hrunner, hothers⟩ := Prod.le_def.mp hsolvent.balance
  obtain ⟨haudit, hjobs⟩ := Prod.le_def.mp hothers
  have hnone : jobsFor f [] = 0 := rfl
  have hredis : (Deployment.over store redis trace).shared.redis = redis := rfl
  simp only [testBooks, hredis, grants, Prod.fst_add, Prod.snd_add, zero_add, add_zero]
    at hrunner haudit hjobs
  simp only [Deployment.over, hnone, add_zero] at hrunner haudit hjobs
  have hdue : dueOnce f s.shared.store.toDb ≤ dueOnce f store.toDb
      + if store.features.length ≤ f ∧ f < s.shared.store.features.length then 1 else 0 :=
    dueOnce_le
  refine ⟨?_, ?_, ?_⟩ <;> omega

/-- Surroundings in which a login page has been saved and a review is answered with yes. -/
def loginDeploy : DeployEnv :=
  { calmEnv true with isRepo := true, gitStatus := ["src/login.ts"], agents := savingWorld.agents }

/-- A watcher finds the feature, and a review tests it while its job waits for a worker.
The worker's run has begun when the job stalls, and another worker takes it. -/
def reviewedRun : List DeployEvent :=
  [[.start (.watch "/work/shop" "http://localhost:3000")], List.replicate 4 (.resume 0),
    [.fire 0], List.replicate 7 (.resume 1),
    [.start (.command "/work/shop" .review)], List.replicate 6 (.resume 2),
    [.work false], List.replicate 2 (.resume 3),
    [.stall 0, .work false], List.replicate 2 (.resume 4)].flatten

/-- All three tests are due. -/
theorem reviewed_tested_as_due :
    ∃ s, exec (Deployment.step fun _ => loginDeploy) (.over (.fresh []) ⟨[], 0, []⟩ []) reviewedRun
        = some s ∧
      runsFor 0 true s.shared.store.toDb = 3 ∧
      ∀ f, jobsFor f s.shared.testQueue + runsFor f true s.shared.store.toDb
          ≤ jobsFor f [] + 0 + (if 0 ≤ f ∧ f < s.shared.store.features.length then 1 else 0) + 1
            + jobsFor f s.shared.stalled ∧
        jobsFor f s.shared.stalled + firstJobsFor f s.shared.redis
          ≤ firstJobsFor f ⟨[], 0, []⟩
            + (if 0 ≤ f ∧ f < s.shared.store.features.length then 1 else 0) ∧
        runsFor f false s.shared.store.toDb ≤ 0 + 0 := by
  have hview : (exec (Deployment.step fun _ => loginDeploy) (.over (.fresh []) ⟨[], 0, []⟩ [])
      reviewedRun).map (fun s => runsFor 0 true s.shared.store.toDb) = some 3 := by decide +kernel
  obtain ⟨s, hrun, hthree⟩ := Option.map_eq_some_iff.mp hview
  exact ⟨s, hrun, hthree, tested_as_due hrun⟩

end AutoQa.Cli

import AutoQa.Cli.OwnedAudits

/-!
# Consistent records

What is true of the database in every state of a deployment, in whatever order
the steps of its commands, watchers, jobs and audits come and whichever of them
are refused.
-/

namespace AutoQa.Cli

open AutoQa.Base AutoQa.LlmAgents AutoQa.Db AutoQa.Orchestrator Ledger

/-! ## The invariant -/

/-- Every process keeps to the discipline of owners; `gs` are the runs they own. -/
abbrev Disciplined (env : Nat → DeployEnv) (strict : Bool) (s : Deployment)
    (gs : List (Option Id)) : Prop :=
  Pool.Held owners (answerDeploy env) (Spares env strict) (Ended strict) s gs

/-- The step answers no vital operation with a refusal. -/
def sparesVital (env : Nat → DeployEnv) (s : Deployment) : DeployEvent → Bool
  | .resume i => match s.procs[i]? with
    | some (.step op _) => !op.vital || ((env s.shared.steps).refusal op).isNone
    | _ => true
  | _ => true

theorem sparesVital_resume {env : Nat → DeployEnv} {s : Deployment} {i : Nat} {ρ : Type}
    {op : DeployOp ρ} {k : Except String ρ → DeployProc Unit}
    (h : sparesVital env s (.resume i) = true) (hproc : s.procs[i]? = some (.step op k))
    (hvital : op.vital = true) : (env s.shared.steps).refusal op = none := by
  simpa [sparesVital, hproc, hvital] using h

/-- Every run is owned or over. -/
def Covered (gs : List (Option Id)) (l : Ledger) : Prop :=
  ∀ (run : Id) r, l.store.testRuns[run]? = some r → some run ∈ gs ∨ r.status ≠ .running

section Step

variable {env : Nat → DeployEnv} {strict : Bool} {s t : Deployment} {gs : List (Option Id)}

theorem Launching.kept (launching : Launching) (d : DeployState) :
    Kept env strict (fun o => o) (Ended strict) launching.proc none d := by
  have hnone : Settled none d.ledger := by
    intro run hrun
    cases hrun
  cases launching with
  | command cwd c => exact Safe.lift (c.kept cwd hnone)
  | watch repoPath localUrl => exact startWatcher_kept repoPath localUrl hnone
  | audit c => exact audit_kept c hnone

/-- A process that starts owns no run. -/
theorem Disciplined.start (h : Disciplined env strict s gs) {p : DeployProc Unit}
    (hp : Kept env strict (fun o => o) (Ended strict) p none s.shared) :
    Disciplined env strict { s with procs := s.procs ++ [p] } (gs ++ [none]) := by
  refine Pool.Held.start h ?_ ?_ hp
  · intro run hrun
    cases hrun
  · intro g _ run hrun
    cases hrun

/-- The queue changes, and its jobs are the old ones. -/
theorem Disciplined.requeue (h : Disciplined env strict s gs) {d : DeployState}
    (hledger : d.ledger = { s.shared.ledger with testQueue := d.testQueue, active := d.active })
    (hjobs : ∀ j, j ∈ d.testQueue ∨ j ∈ d.active → j ∈ s.shared.testQueue ∨ j ∈ s.shared.active) :
    Disciplined env strict ⟨d, s.procs⟩ gs := by
  have hsound : s.shared.ledger.Sound := h.inv
  have hgrows : Grows s.shared.ledger d.ledger := by
    rw [hledger]
    exact .of_tables rfl rfl rfl rfl
  have hdescribes : ∀ j, j ∈ d.testQueue ∨ j ∈ d.active →
      s.shared.ledger.Describes j.featureId j.instruction :=
    fun j hj => (hjobs j hj).elim (hsound.jobs j) (hsound.active j)
  refine Pool.Held.outside h ?_ fun g => ⟨hgrows, fun run _ => ?_⟩
  · show d.ledger.Sound
    rw [hledger] at hgrows ⊢
    exact Extends.sound
      { grows := hgrows
        jobs := fun j hj => .inr (hdescribes j (.inl hj))
        active := fun j hj => .inr (hdescribes j (.inr hj)) } hsound
  · show Untouched run s.shared.ledger d.ledger
    rw [hledger]
    exact ⟨rfl, rfl⟩

/-- The first job of the queue is taken. -/
theorem Disciplined.take (h : Disciplined env strict s gs) {job : Job} {rest : List Job}
    (hqueue : s.shared.testQueue = job :: rest) :
    Disciplined env strict ⟨s.shared.take job rest, s.procs⟩ gs := by
  refine h.requeue rfl ?_
  intro j hj
  rw [hqueue]
  rcases hj with hrest | hactive
  · exact .inl (List.mem_cons_of_mem _ hrest)
  · have hmem : j ∈ s.shared.active ∨ j = job := by
      by_cases hfirst : s.shared.restored = 0
      · simpa [DeployState.take, hfirst] using hactive
      · exact .inl (by simpa [DeployState.take, hfirst] using hactive)
    rcases hmem with hold | rfl
    · exact .inr hold
    · exact .inl List.mem_cons_self

/-- A job is put back. -/
theorem Disciplined.putBack (h : Disciplined env strict s gs) {i : Nat} {job : Job}
    (hactive : s.shared.active[i]? = some job) :
    Disciplined env strict ⟨s.shared.putBack i job, s.procs⟩ gs := by
  refine h.requeue rfl ?_
  rintro j (hj | hj)
  · rcases List.mem_cons.mp hj with rfl | hold
    · exact .inr (List.mem_of_getElem? hactive)
    · exact .inl hold
  · exact .inr (List.mem_of_mem_eraseIdx hj)

/-- After an update of the holdings at one place. -/
theorem Covered.move {l m : Ledger} {i : Nat} {g g' : Option Id} (h : Covered gs l)
    (hg : gs[i]? = some g) (hmove : Moves g l g' m) : Covered (gs.set i g') m := by
  have hi := (List.getElem?_eq_some_iff.mp hg).1
  intro run r' hr'
  by_cases hold : run < l.store.testRuns.length
  · have hr := List.getElem?_eq_getElem hold
    obtain ⟨r, hrow, -, hleads, -⟩ := hmove.advances run _ hr
    cases hrow.symm.trans hr'
    by_cases hover : (l.store.testRuns[run]).status = .running
    · -- a run that is not over is owned, and its owner keeps it
      left
      have hmem := (h run _ hr).resolve_right fun hne => hne hover
      obtain ⟨j, hj⟩ := List.mem_iff_getElem?.mp hmem
      by_cases hji : j = i
      · subst hji
        cases hg.symm.trans hj
        rcases hmove.owned with ⟨rfl, -⟩ | ⟨-, -, hsettled⟩
        · exact List.mem_iff_getElem?.mpr ⟨j, List.getElem?_set_self hi⟩
        · exact absurd hover (hsettled run rfl _ hr)
      · exact List.mem_iff_getElem?.mpr ⟨j, by rw [List.getElem?_set_ne (Ne.symm hji), hj]⟩
    · exact .inr (hleads.over hover)
  · -- a new run is owned by the process that created it
    left
    have hlt := (List.getElem?_eq_some_iff.mp hr').1
    rcases hmove.owned with ⟨-, hlength⟩ | ⟨rfl, hlength, -⟩
    · rw [hlength] at hlt
      exact absurd hlt hold
    · rw [hlength] at hlt
      have hrun : run = l.store.testRuns.length :=
        Nat.le_antisymm (Nat.le_of_lt_succ hlt) (Nat.le_of_not_lt hold)
      rw [hrun]
      exact List.mem_iff_getElem?.mpr ⟨i, List.getElem?_set_self hi⟩

/-- A step of the deployment keeps the discipline, and each run goes on. -/
theorem disciplined_step {event : DeployEvent} (h : Disciplined env strict s gs)
    (hcovered : Covered gs s.shared.ledger)
    (hspares : strict = true → sparesVital env s event = true) (hstep : s.step env event = some t) :
    ∃ gs', Disciplined env strict t gs' ∧ Covered gs' t.shared.ledger ∧
      Grows s.shared.ledger t.shared.ledger ∧ Advances s.shared.ledger t.shared.ledger := by
  have hmore : ∀ {l : Ledger}, l.store = s.shared.ledger.store → Covered (gs ++ [none]) l := by
    intro l hl run r hr
    rw [hl] at hr
    exact (hcovered run r hr).imp_left (List.mem_append_left _)
  rcases Deployment.step_cases hstep with ⟨launching, rfl⟩ | ⟨projectId, localUrl, hwatcher, rfl⟩ |
      ⟨globalIo, job, rest, hqueue, rfl⟩ | ⟨i, job, hactive, rfl⟩ | ⟨i, rfl, hresume⟩
  · exact ⟨_, h.start (launching.kept s.shared), hmore rfl, .refl _, .refl _⟩
  · have hproject : projectId < s.shared.ledger.store.projects.length :=
      h.inv.watchers (projectId, localUrl) hwatcher
    have hcallback : Kept env strict (fun o => o) (Ended strict) (callbackProc projectId localUrl)
        none s.shared :=
      Safe.lift (Safe.lift (timerCallback_kept localUrl hproject fun run hrun => by cases hrun))
    exact ⟨_, h.start hcallback, hmore rfl, .refl _, .refl _⟩
  · have hmem : job ∈ s.shared.testQueue := hqueue ▸ List.mem_cons_self
    have htext : s.shared.ledger.Describes job.featureId job.instruction := h.inv.jobs job hmem
    have hjob : Kept env strict (fun o => o) (Ended strict) (jobProc globalIo job) none
        (s.shared.take job rest) :=
      Safe.lift (runTest_kept globalIo htext fun run hrun => by cases hrun)
    exact ⟨_, (h.take hqueue).start hjob, hmore rfl, .of_tables rfl rfl rfl rfl, .refl _⟩
  · exact ⟨gs, h.putBack hactive, hcovered, .of_tables rfl rfl rfl rfl, .refl _⟩
  · have hallowed : ∀ (ρ : Type) (o : DeployOp ρ) k, s.procs[i]? = some (.step o k) →
        Spares env strict o s.shared := fun ρ o k hproc hstrict hvital =>
      sparesVital_resume (hspares hstrict) hproc hvital
    obtain ⟨g, g', hg, hmove, hheld⟩ := h.step hresume hallowed
    exact ⟨_, hheld, hcovered.move hg hmove, hmove.grows, hmove.advances⟩

end Step

/-! ## Runs from a database that holds nothing but projects -/

/-- Nothing runs, over a database that holds nothing but projects and an empty queue. -/
def Deployment.fresh (projects : List Project) (trace : Trace) : Deployment :=
  .over (.fresh projects) ⟨[], 0, []⟩ trace

theorem fresh_disciplined (env : Nat → DeployEnv) (strict : Bool) (projects : List Project)
    (trace : Trace) :
    Disciplined env strict (.fresh projects trace) [] ∧
      Covered [] (Deployment.fresh projects trace).shared.ledger := by
  refine ⟨⟨?_, rfl, by simp, by simp, by simp⟩, ?_⟩
  · exact ⟨List.forall_mem_nil _, List.forall_mem_nil _, List.forall_mem_nil _,
      List.forall_mem_nil _, List.forall_mem_nil _, fun _ => Nat.zero_le _, List.forall_mem_nil _,
      List.forall_mem_nil _, List.forall_mem_nil _, List.forall_mem_nil _⟩
  · intro run r hr
    cases hr

/-- Surroundings that refuse nothing, with a changed file in the repository. -/
def calmDeploy : DeployEnv := { calmEnv false with isRepo := true, gitStatus := ["src/cart.ts"] }

/-- A smoke test and a watcher of one repository, up to the middle of the worker's job. -/
def shopRun : List DeployEvent :=
  .start (.command "/work/shop" (.smoke "http://localhost:3000")) ::
    .start (.watch "/work/shop" "http://localhost:3000") :: List.replicate 4 (.resume 0)
    ++ List.replicate 3 (.resume 1) ++ [.work false, .fire 0] ++ List.replicate 6 (.resume 2)

/-- The rest of the job and of the watcher's callback. -/
def shopRest : List DeployEvent := List.replicate 4 (.resume 3) ++ List.replicate 4 (.resume 2)

section Runs

variable {env : Nat → DeployEnv} {projects : List Project} {trace : Trace} {s t : Deployment}
  {events later : List DeployEvent}

/-- The discipline holds in every state that is reached, and each run goes on. -/
theorem disciplined_run {gs : List (Option Id)} (h : Disciplined env false s gs)
    (hcovered : Covered gs s.shared.ledger) (hrun : exec (Deployment.step env) s later = some t) :
    ∃ gs', Disciplined env false t gs' ∧ Covered gs' t.shared.ledger ∧
      Grows s.shared.ledger t.shared.ledger ∧ Advances s.shared.ledger t.shared.ledger := by
  have hstep : ∀ (u : Deployment) event (v : Deployment),
      (∃ gs, Disciplined env false u gs ∧ Covered gs u.shared.ledger ∧
        Grows s.shared.ledger u.shared.ledger ∧ Advances s.shared.ledger u.shared.ledger) →
      u.step env event = some v →
      ∃ gs, Disciplined env false v gs ∧ Covered gs v.shared.ledger ∧
        Grows s.shared.ledger v.shared.ledger ∧ Advances s.shared.ledger v.shared.ledger := by
    rintro u event v ⟨gs, hu, hcu, hgu, hau⟩ huv
    obtain ⟨gs', hv, hcv, hgv, hav⟩ := disciplined_step hu hcu (by simp) huv
    exact ⟨gs', hv, hcv, hgu.trans hgv, hau.trans hav⟩
  exact exec_keeps hstep ⟨gs, h, hcovered, .refl _, .refl _⟩ hrun

theorem fresh_run (hrun : exec (Deployment.step env) (.fresh projects trace) events = some s) :
    ∃ gs, Disciplined env false s gs ∧ Covered gs s.shared.ledger := by
  obtain ⟨hheld, hcovered⟩ := fresh_disciplined env false projects trace
  obtain ⟨gs, hs, hcs, -, -⟩ := disciplined_run hheld hcovered hrun
  exact ⟨gs, hs, hcs⟩

/-- Every relation of the schema leads to a row. -/
structure Resolves (s : Store) : Prop where
  project : ∀ f ∈ s.features, ∃ p, s.projects[f.projectId]? = some p
  feature : ∀ r ∈ s.testRuns, ∃ f, s.features[r.featureId]? = some f
  testRun : ∀ c ∈ s.testCases, ∃ r, s.testRuns[c.testRunId]? = some r
  testCase : ∀ b ∈ s.bugReports, ∃ c, s.testCases[b.testCaseId]? = some c
  usageRun : ∀ u ∈ s.llmUsages, ∀ run ∈ u.testRunId, ∃ r, s.testRuns[run]? = some r
  usageFeature : ∀ u ∈ s.llmUsages, ∀ feature ∈ u.featureId, ∃ f, s.features[feature]? = some f

/-- **No dangling reference**: in every state of a deployment, every relation of the
schema leads to a row of the table it refers to. -/
theorem references_resolve
    (hrun : exec (Deployment.step env) (.fresh projects trace) events = some s) :
    Resolves s.shared.store := by
  obtain ⟨gs, hheld, -⟩ := fresh_run hrun
  have hsound : s.shared.ledger.Sound := hheld.inv
  have hrow : ∀ {ρ : Type} {table : List ρ} {id : Id}, id < table.length →
      ∃ row, table[id]? = some row := fun hlt => ⟨_, List.getElem?_eq_getElem hlt⟩
  refine ⟨fun f hf => hrow (hsound.features f hf), fun r hr => hrow (hsound.runs r hr).1, ?_, ?_,
    fun u hu run hrun => hrow ((hsound.usages u hu).1 run hrun),
    fun u hu feature hfeature => hrow ((hsound.usages u hu).2 feature hfeature)⟩
  · intro c hc
    obtain ⟨r, hr, -⟩ := hsound.cases c hc
    exact ⟨r, hr⟩
  · intro b hb
    obtain ⟨c, -, hc, -⟩ := hsound.bugs b hb
    exact ⟨c, hc⟩

/-- The job's run and its test case refer to rows. -/
theorem shop_references_resolve :
    ∃ s, exec (Deployment.step fun _ => calmDeploy) (.fresh [] []) shopRun = some s ∧
      s.shared.store.testCases.length = 1 ∧ Resolves s.shared.store := by
  have hview : (exec (Deployment.step fun _ => calmDeploy) (.fresh [] []) shopRun).map
      (fun s => s.shared.store.testCases.length) = some 1 := by decide +kernel
  obtain ⟨s, hrun, hcases⟩ := Option.map_eq_some_iff.mp hview
  exact ⟨s, hrun, hcases, references_resolve hrun⟩

/-- **What is tested is what was asked for**: every queued job, every call of the
runner and every test case carries the description of the feature it is for, and a
run has at most one test case. -/
theorem instructions_arrive
    (hrun : exec (Deployment.step env) (.fresh projects trace) events = some s) :
    (∀ j ∈ s.shared.testQueue, ∃ f, s.shared.store.features[j.featureId]? = some f ∧
        f.description = j.instruction) ∧
      (∀ c ∈ s.shared.calls, ∃ f, s.shared.store.features[c.featureId]? = some f ∧
        f.description = c.instruction) ∧
      (∀ c ∈ s.shared.store.testCases, ∃ r f,
        s.shared.store.testRuns[c.testRunId]? = some r ∧
        s.shared.store.features[r.featureId]? = some f ∧ f.description = c.description) ∧
      ∀ run, (s.shared.store.casesOf run).length ≤ 1 := by
  obtain ⟨gs, hheld, -⟩ := fresh_run hrun
  have hsound : s.shared.ledger.Sound := hheld.inv
  have hfeature : ∀ {feature : Id} {text : String}, s.shared.ledger.Describes feature text →
      ∃ f, s.shared.store.features[feature]? = some f ∧ f.description = text := by
    intro feature text htext
    rw [Describes, List.getElem?_map] at htext
    exact Option.map_eq_some_iff.mp htext
  refine ⟨fun j hj => hfeature (hsound.jobs j hj), fun c hc => hfeature (hsound.calls c hc), ?_,
    hsound.single⟩
  intro c hc
  obtain ⟨r, hr, htext⟩ := hsound.cases c hc
  obtain ⟨f, hf, hsame⟩ := hfeature htext
  exact ⟨r, f, hr, hf, hsame⟩

/-- The test case of the job is about its feature. -/
theorem shop_instructions_arrive :
    ∃ s, exec (Deployment.step fun _ => calmDeploy) (.fresh [] []) shopRun = some s ∧
      s.shared.calls.length = 1 ∧
      (∀ c ∈ s.shared.calls, ∃ f, s.shared.store.features[c.featureId]? = some f ∧
        f.description = c.instruction) ∧
      ∀ run, (s.shared.store.casesOf run).length ≤ 1 := by
  have hview : (exec (Deployment.step fun _ => calmDeploy) (.fresh [] []) shopRun).map
      (fun s => s.shared.calls.length) = some 1 := by decide +kernel
  obtain ⟨s, hrun, hcalls⟩ := Option.map_eq_some_iff.mp hview
  obtain ⟨-, hdescribed, -, hsingle⟩ := instructions_arrive hrun
  exact ⟨s, hrun, hcalls, hdescribed, hsingle⟩

/-- **The life of a run**: whatever happens later, a run stays with its feature, its
status changes from running to a verdict and after that at most from passed to failed,
and it keeps a finishing time once it has one; a run of the runner has one exactly when
it is over; and a bug is reported only for a run that failed, for good. -/
theorem runs_go_on
    (hrun : exec (Deployment.step env) (.fresh projects trace) events = some s)
    (hlater : exec (Deployment.step env) s later = some t) :
    (∀ (run : Id) r, s.shared.store.testRuns[run]? = some r →
      ∃ r', t.shared.store.testRuns[run]? = some r' ∧ r'.featureId = r.featureId ∧
        Leads r.status r'.status ∧ (r.finishedAt.isSome → r'.finishedAt.isSome)) ∧
      (∀ r ∈ s.shared.store.testRuns, r.triggeredBy = some "auto" →
        (r.status = .running ↔ r.finishedAt = none)) ∧
      ∀ b ∈ s.shared.store.bugReports, ∃ c r, t.shared.store.testCases[b.testCaseId]? = some c ∧
        t.shared.store.testRuns[c.testRunId]? = some r ∧ r.status = .failed := by
  obtain ⟨gs, hheld, hcovered⟩ := fresh_run hrun
  have hsound : s.shared.ledger.Sound := hheld.inv
  obtain ⟨gs', -, -, hgrows, hadvances⟩ := disciplined_run hheld hcovered hlater
  exact ⟨hadvances, fun r hr => (hsound.runs r hr).2.2,
    fun b hb => (hsound.bugs b hb).mono hgrows hadvances⟩

/-- The run of the job is running in the middle and passed at the end. -/
theorem shop_run_goes_on :
    ∃ s t, exec (Deployment.step fun _ => calmDeploy) (.fresh [] []) shopRun = some s ∧
      exec (Deployment.step fun _ => calmDeploy) s shopRest = some t ∧
      s.shared.store.testRuns.map TestRun.status = [.running] ∧
      t.shared.store.testRuns.map TestRun.status = [.passed] ∧
      ∀ (run : Id) r, s.shared.store.testRuns[run]? = some r →
        ∃ r', t.shared.store.testRuns[run]? = some r' ∧ r'.featureId = r.featureId ∧
          Leads r.status r'.status ∧ (r.finishedAt.isSome → r'.finishedAt.isSome) := by
  have hview : (exec (Deployment.step fun _ => calmDeploy) (.fresh [] []) shopRun).map (fun s =>
      (s.shared.store.testRuns.map TestRun.status,
        (exec (Deployment.step fun _ => calmDeploy) s shopRest).map fun t =>
          t.shared.store.testRuns.map TestRun.status)) = some ([.running], some [.passed]) := by
    decide +kernel
  obtain ⟨s, hrun, hs⟩ := Option.map_eq_some_iff.mp hview
  simp only [Prod.mk.injEq] at hs
  obtain ⟨t, hlater, ht⟩ := Option.map_eq_some_iff.mp hs.2
  exact ⟨s, t, hrun, hlater, hs.1, ht, (runs_go_on hrun hlater).1⟩

/-- **No run is left running**: when every process has ended and nothing vital was
refused, every run has a verdict, and one of the runner has a finishing time. -/
theorem no_run_left_running
    (hrun : exec (Deployment.step env) (.fresh projects trace) events = some s)
    (hspares : Along (Deployment.step env) (fun s event => sparesVital env s event = true)
      (.fresh projects trace) events) (hfinished : s.Finished) :
    ∀ r ∈ s.shared.store.testRuns,
      (r.status = .passed ∨ r.status = .failed ∨ r.status = .skipped) ∧
        (r.triggeredBy = some "auto" → r.finishedAt.isSome) := by
  have hstep : ∀ (u : Deployment) event (v : Deployment),
      (∃ gs, Disciplined env true u gs ∧ Covered gs u.shared.ledger) →
      sparesVital env u event = true → u.step env event = some v →
      ∃ gs, Disciplined env true v gs ∧ Covered gs v.shared.ledger := by
    rintro u event v ⟨gs, hu, hcu⟩ hvital huv
    obtain ⟨gs', hv, hcv, -, -⟩ := disciplined_step hu hcu (fun _ => hvital) huv
    exact ⟨gs', hv, hcv⟩
  obtain ⟨gs, hheld, hcovered⟩ :=
    exec_invariant hstep ⟨[], fresh_disciplined env true projects trace⟩ hspares hrun
  intro r hr
  obtain ⟨run, hrow⟩ := List.mem_iff_getElem?.mp hr
  have hsound : s.shared.ledger.Sound := hheld.inv
  have hover : r.status ≠ .running := by
    rcases hcovered run r hrow with hmem | hover
    · obtain ⟨result, hended⟩ := hheld.ended hfinished hmem
      exact hended (.inl rfl) run rfl r hrow
    · exact hover
  obtain ⟨hqueued, hstamped⟩ := (hsound.runs r hr).2
  refine ⟨?_, ?_⟩
  · cases hstatus : r.status with
    | queued => exact absurd hstatus hqueued
    | running => exact absurd hstatus hover
    | passed => exact .inl rfl
    | failed => exact .inr (.inl rfl)
    | skipped => exact .inr (.inr rfl)
  · intro hauto
    exact Option.isSome_iff_ne_none.mpr (mt (hstamped hauto).mpr hover)

/-- The whole day of the shop. -/
theorem shop_not_left_running :
    ∃ s, exec (Deployment.step fun _ => calmDeploy) (.fresh [] []) (shopRun ++ shopRest) = some s ∧
      s.shared.store.testRuns.length = 1 ∧
      ∀ r ∈ s.shared.store.testRuns,
        (r.status = .passed ∨ r.status = .failed ∨ r.status = .skipped) ∧
          (r.triggeredBy = some "auto" → r.finishedAt.isSome) := by
  have hview : (exec (Deployment.step fun _ => calmDeploy) (.fresh [] [])
      (shopRun ++ shopRest)).map (fun s => (decide s.Finished, s.shared.store.testRuns.length))
        = some (true, 1) := by decide +kernel
  have hspares : Along (Deployment.step fun _ => calmDeploy)
      (fun s event => sparesVital (fun _ => calmDeploy) s event = true) (.fresh [] [])
      (shopRun ++ shopRest) := by decide +kernel
  obtain ⟨s, hrun, hs⟩ := Option.map_eq_some_iff.mp hview
  simp only [Prod.mk.injEq] at hs
  exact ⟨s, hrun, hs.2, no_run_left_running hrun hspares (of_decide_eq_true hs.1)⟩

/-- A job whose test case is refused: its run is left running. -/
example : (exec (Deployment.step fun n =>
      if n = 6 then { calmDeploy with refused := some "database is locked" } else calmDeploy)
    (.fresh [] []) ([.start (.command "/work/shop" (.smoke "http://localhost:3000"))]
      ++ List.replicate 4 (.resume 0) ++ [.work false] ++ List.replicate 3 (.resume 1))).map
    (fun s => (decide s.Finished, s.shared.store.testRuns.map TestRun.status))
      = some (true, [.running]) := by decide +kernel

end Runs

end AutoQa.Cli

import AutoQa.Cli.AuditProc
import AutoQa.Cli.Isolation
import AutoQa.Db.Writes

/-!
# Which writes fit the schema

The `data` of every `create` and `update` of the commands, the watcher and the
worker, as the source assembles it, against the tables of `schema.prisma`. A URL
that neither the option nor the configuration gives is `undefined`.
-/

namespace AutoQa.Cli

open AutoQa.Base AutoQa.LlmAgents AutoQa.Db AutoQa.Orchestrator

/-! ## The data of the writes -/

/-- The fields that all usage records share. -/
def usageData (u : UsageEntry) : List (String × Option Value) :=
  [("provider", some (.text u.provider)), ("model", some (.text u.model)),
    ("promptTokens", some (.int u.promptTokens)),
    ("completionTokens", some (.int u.completionTokens))]

def runWrites {ρ : Type} : RunOp ρ → List Write
  | .createRun _ featureId => [⟨.create, .testRun, [("featureId", some (.id featureId)),
      ("triggeredBy", some (.text "auto")), ("status", some (.text RunStatus.running.text))]⟩]
  | .createCase _ run description => [⟨.create, .testCase, [("testRunId", some (.id run)),
      ("type", some (.text "ui")), ("description", some (.text description)),
      ("status", some (.text CaseStatus.pending.text))]⟩]
  | .createUsage _ run role _ u => [⟨.create, .llmUsage,
      [("testRunId", some (.id run)), ("role", some (.text role.text))] ++ usageData u
        ++ [("costUsd", some (.float u.cost))]⟩]
  | .updateRun _ _ status finishedAt => [⟨.update, .testRun,
      [("status", some (.text status.text)), ("finishedAt", some (.date finishedAt))]⟩]
  | .updateCase _ _ status durationMs => [⟨.update, .testCase,
      ("status", some (.text status.text))
        :: durationMs.toList.map fun n => ("durationMs", some (.int n))⟩]
  | .createBug _ bug => [⟨.create, .bugReport, [("testCaseId", some (.id bug.testCaseId)),
      ("severity", some (.text (severityText bug.severity))), ("title", some (.text bug.title)),
      ("expected", some (.text bug.expected)), ("actual", some (.text bug.actual)),
      ("screenshotPath", some (bug.screenshotPath.elim .null .text))]⟩]
  | _ => []

def watchWrites (projectId : Id) {ρ : Type} : WatchOp ρ → List Write
  | .createFeature analysis => [⟨.create, .feature, [("projectId", some (.id projectId)),
      ("name", some (.text analysis.featureName)),
      ("description", some (.text analysis.description)),
      ("status", some (.text FeatureStatus.discovered.text))]⟩]
  | .createUsage featureId u => [⟨.create, .llmUsage,
      [("featureId", some (.id featureId)), ("role", some (.text UsageRole.diffAnalyzer.text))]
        ++ usageData u ++ [("costUsd", some (.float u.cost))]⟩]
  | _ => []

def commandWrites (url : Option String) {ρ : Type} : CommandOp ρ → List Write
  | .createProject project => [projectWrite project.name project.repoPath url]
  | .createFeature f => [⟨.create, .feature, [("projectId", some (.id f.projectId)),
      ("name", some (.text f.name)), ("description", some (.text f.description)),
      ("status", some (.text f.status.text))]⟩]
  | .markTesting _ => [⟨.update, .feature, [("status", some (.text FeatureStatus.testing.text))]⟩]
  | _ => []

def sysWrites (url : Option String) {ρ : Type} : SysOp ρ → List Write
  | .command op => commandWrites url op
  | .runner op => runWrites op
  | .watcher projectId op => watchWrites projectId op

def projectWrites (url : Option String) {ρ : Type} : ProjectOp ρ → List Write
  | .findFirst _ => []
  | .create project => [projectWrite project.name project.repoPath url]

def discoveryWrites (url : Option String) {ρ : Type} : DiscoveryOp ρ → List Write
  | .createProject project => [projectWrite project.name project.repoPath url]
  | .createFeature v => [⟨.create, .feature, [("projectId", some (.id v.projectId)),
      ("name", some (.text v.feature.name)), ("description", some (.text v.feature.description)),
      ("status", some (.text FeatureStatus.discovered.text)),
      ("discoveredVia", some (.text "crawl")), ("pageUrl", v.row.pageUrl.map .text),
      ("selector", v.feature.selector.map .text),
      ("featureType", some (.text (featureTypeText v.feature.featureType)))]⟩]
  | _ => []

def auditWrites {ρ : Type} : AuditOp ρ → List Write
  | .createRun _ feat => [⟨.create, .testRun, [("featureId", some (.id feat.1)),
      ("status", some (.text RunStatus.running.text)), ("mode", some (.text "audit"))]⟩]
  | .updateRun _ _ _ status => [⟨.update, .testRun, [("status", some (.text status.text))]⟩]
  | .updateFeature _ _ now => [⟨.update, .feature, [("covered", some (.bool true)),
      ("lastTestedAt", some (.date now)), ("status", some (.text FeatureStatus.verified.text))]⟩]
  | .createUsage _ _ run u => [⟨.create, .llmUsage,
      ("testRunId", some (.id run)) :: usageData u⟩]
  | _ => []

/-! ## Which of them fit -/

theorem runWrites_fit {ρ : Type} (op : RunOp ρ) : ∀ w ∈ runWrites op, w.Fits := by
  cases op with
  | createRun site featureId => exact List.forall_mem_singleton.mpr ⟨rfl, rfl⟩
  | createCase site run description => exact List.forall_mem_singleton.mpr ⟨rfl, rfl⟩
  | createUsage site run role k u => exact List.forall_mem_singleton.mpr ⟨rfl, rfl⟩
  | updateRun site run status finishedAt => exact List.forall_mem_singleton.mpr ⟨rfl, rfl⟩
  | updateCase site case status durationMs =>
    cases durationMs with
    | none => exact List.forall_mem_singleton.mpr ⟨rfl, rfl⟩
    | some n => exact List.forall_mem_singleton.mpr ⟨rfl, rfl⟩
  | createBug site bug => exact List.forall_mem_singleton.mpr ⟨rfl, rfl⟩
  | _ => exact List.forall_mem_nil _

theorem watchWrites_fit (projectId : Id) {ρ : Type} (op : WatchOp ρ) :
    ∀ w ∈ watchWrites projectId op, w.Fits := by
  cases op with
  | createFeature analysis => exact List.forall_mem_singleton.mpr ⟨rfl, rfl⟩
  | createUsage featureId u => exact List.forall_mem_singleton.mpr ⟨rfl, rfl⟩
  | _ => exact List.forall_mem_nil _

/-- All operations but the creation of a project. -/
def Projectless {ρ : Type} : SysOp ρ → Prop
  | .command op => match op with
    | .createProject _ => False
    | _ => True
  | _ => True

theorem sysWrites_fit {url : Option String} {ρ : Type} (op : SysOp ρ)
    (h : url.isSome ∨ Projectless op) : ∀ w ∈ sysWrites url op, w.Fits := by
  cases op with
  | runner op => exact runWrites_fit op
  | watcher projectId op => exact watchWrites_fit projectId op
  | command op =>
    cases op with
    | createProject project =>
      have hurl : url.isSome := h.resolve_right fun hnone => hnone
      exact List.forall_mem_singleton.mpr ((projectWrite_fits _ _ url).mpr hurl)
    | createFeature f => exact List.forall_mem_singleton.mpr ⟨rfl, rfl⟩
    | markTesting id => exact List.forall_mem_singleton.mpr ⟨rfl, rfl⟩
    | _ => exact List.forall_mem_nil _

/-- A run without the creation of a project issues only writes that fit, and so does
every run with a URL. -/
theorem fits_of_projectless {url : Option String} {p : SysProc Unit}
    (h : url.isSome ∨ p.Only Projectless) (env : Nat → Env) (s : SysState) :
    ∀ w ∈ p.issued (answerSys env) (sysWrites url) s, w.Fits := by
  rcases h with hurl | honly
  · exact (Proc.Only.all (P := fun _ => True) p fun _ => trivial).issued
      (fun op _ => sysWrites_fit op (.inl hurl)) s
  · exact honly.issued (fun op hop => sysWrites_fit op (.inr hop)) s

/-! ## Commands, callbacks and jobs -/

/-- What runs over the database of the system, less its URL. -/
inductive Launch where
  | test (cwd instruction : String)
  | smoke (cwd : String)
  | review
  /-- The callback of a watcher. -/
  | callback (projectId : Id)
  /-- A job of the worker. -/
  | job (globalIo : Bool) (featureId : Id) (instruction : String)

/-- The URL as it appears in texts. -/
def urlText (url : Option String) : String := url.getD "undefined"

def Launch.proc (url : Option String) : Launch → SysProc Unit
  | .test cwd instruction => Cli.test cwd instruction (urlText url)
  | .smoke cwd => Cli.smoke cwd (urlText url)
  | .review => Cli.review
  | .callback projectId => (timerCallback (urlText url)).lift (SysOp.watcher projectId)
  | .job globalIo featureId instruction => runTest globalIo ⟨featureId, instruction, urlText url⟩

/-- A command that may create a project is given a URL, or finds a project. -/
def Launch.Provided (url : Option String) (projects : List Project) : Launch → Prop
  | .test _ _ | .smoke _ => url.isSome ∨ projects ≠ []
  | _ => True

/-- The lookup finds a project or throws, and nothing is created. -/
theorem firstProject_issued (project : Project) (url : Option String) (env : Nat → Env)
    {s : SysState} (hne : s.store.projects ≠ []) :
    (firstProject project).issued (answerSys env) (sysWrites url) s = [] := by
  obtain ⟨first, hfirst⟩ := Option.ne_none_iff_exists'.mp (mt List.head?_eq_none_iff.mp hne)
  rw [firstProject, Proc.issued_bind]
  cases hrefused : (env s.steps).refuses (.command .findProject) with
  | some e =>
    rw [await, Proc.run_call, answerSys_refused hrefused]
    rfl
  | none =>
    rw [findProject_run hrefused, findFirst_true hfirst]
    rfl

/-- In an empty table nothing is found, and the project is created. -/
theorem firstProject_creates (project : Project) (url : Option String) {s : SysState}
    (hnil : s.store.projects = []) :
    (firstProject project).issued (answerSys fun _ => calmEnv false) (sysWrites url) s
      = [projectWrite project.name project.repoPath url] := by
  rw [firstProject, Proc.issued_bind, findProject_run rfl, hnil]
  rfl

theorem started_fits_iff (url : Option String) (project : Project) (name description : String)
    (rest : Id → SysProc Unit) (hrest : ∀ id, (rest id).Only Projectless) (s : SysState) :
    (∀ env, ∀ w ∈ (started project name description rest).issued (answerSys env)
        (sysWrites url) s, w.Fits) ↔ url.isSome ∨ s.store.projects ≠ [] := by
  constructor
  · intro h
    apply or_iff_not_imp_right.mpr
    intro hempty
    have hfirst := ((Proc.forall_issued_bind _ _ _ _ _).mp (h fun _ => calmEnv false)).1
    rw [firstProject_creates project url (not_not.mp hempty)] at hfirst
    exact (projectWrite_fits _ _ url).mp (hfirst _ List.mem_cons_self)
  · intro h env
    rcases h with hurl | hne
    · exact fits_of_projectless (.inl hurl) env s
    · have hcreate : ∀ projectId, (await (.createFeature (manualFeature projectId name description))
          >>= rest).Only Projectless := fun _ => .bind (.call trivial) hrest
      rw [started, Proc.forall_issued_bind, firstProject_issued project url env hne]
      exact ⟨List.forall_mem_nil _, fun projectId t _ =>
        fits_of_projectless (.inr (hcreate projectId)) env t⟩

theorem launch_fits_iff (url : Option String) (launch : Launch) (s : SysState) :
    (∀ env, ∀ w ∈ (launch.proc url).issued (answerSys env) (sysWrites url) s, w.Fits) ↔
      launch.Provided url s.store.projects := by
  cases launch with
  | test cwd instruction =>
    have hrest : ∀ featureId, (runTest false ⟨featureId, instruction, urlText url⟩).Only
        Projectless := fun _ => runTest_only false _ trivial fun _ => trivial
    exact started_fits_iff url _ _ _ _ hrest s
  | smoke cwd =>
    have hrest : ∀ featureId, (await (.addJob ⟨featureId, smokeInstruction, urlText url⟩)).Only
        Projectless := fun _ => .call trivial
    exact started_fits_iff url _ _ _ _ hrest s
  | review =>
    have honly : review.Only Projectless := review_only trivial trivial (fun _ => trivial)
      (fun _ => trivial) (fun _ => trivial) fun _ => trivial
    exact iff_of_true (fun env => fits_of_projectless (.inr honly) env s) trivial
  | callback projectId =>
    have honly : ((timerCallback (urlText url)).lift (SysOp.watcher projectId)).Only Projectless :=
      .lift (.all _ fun _ => trivial)
    exact iff_of_true (fun env => fits_of_projectless (.inr honly) env s) trivial
  | job globalIo featureId instruction =>
    have honly := runTest_only (P := Projectless) globalIo
      ⟨featureId, instruction, urlText url⟩ trivial fun _ => trivial
    exact iff_of_true (fun env => fits_of_projectless (.inr honly) env s) trivial

/-! ## Projects and discovery -/

/-- What looking a project up and creating it comes to. -/
def projectIssued (url : Option String) (project : Project) (projects : List Project) :
    List Write :=
  if projects.any (atPath project.repoPath) then []
  else [projectWrite project.name project.repoPath url]

theorem projectIssued_fits (url : Option String) (project : Project) (projects : List Project) :
    (∀ w ∈ projectIssued url project projects, w.Fits) ↔
      url.isSome ∨ projects.any (atPath project.repoPath) := by
  cases hany : projects.any (atPath project.repoPath) with
  | true => simp [projectIssued, hany]
  | false => simp [projectIssued, hany, projectWrite_fits]

/-- The lookup writes nothing, and what follows it depends on what it finds. -/
theorem findOrCreate_issued {σ : Type} {url : Option String} {project : Project}
    {handle : {ρ : Type} → ProjectOp ρ → Prog σ ρ} {projects : List Project} {s t : σ}
    (h : handle (.findFirst project.repoPath) s
      = (.ok (findFirst (atPath project.repoPath) projects), t)) :
    (findOrCreate project).issued handle (projectWrites url) s
      = projectIssued url project projects := by
  have hfound := findFirst_isSome (atPath project.repoPath) projects
  rw [findOrCreate, Proc.issued_bind, Proc.run_call, h, projectIssued, ← hfound]
  cases findFirst (atPath project.repoPath) projects with
  | some row => rfl
  | none => rfl

theorem getOrCreateProject_issued (url : Option String) (repoPath localUrl : String) (s : Store) :
    ((getOrCreateProject repoPath localUrl).lift DiscoveryOp.ofProject).issued answerDiscovery
        (discoveryWrites url) s
      = projectIssued url ⟨basename repoPath, repoPath, localUrl⟩ s.projects := by
  have hlog : ∀ {ρ : Type} (op : ProjectOp ρ),
      discoveryWrites url (.ofProject op) = projectWrites url op := by
    intro ρ op
    cases op <;> rfl
  simp only [Proc.issued_lift, hlog]
  exact findOrCreate_issued rfl

theorem projectAfter_any (repoPath localUrl : String) (projects : List Project) :
    (projectAfter repoPath localUrl projects).2.any (atPath repoPath) = true := by
  obtain ⟨project, hfirst⟩ := projectAfter_first repoPath localUrl projects
  rw [← findFirst_isSome, hfirst]
  rfl

/-- The first page is classified, so that the project is looked up. -/
def Discovery.classifies (d : Discovery) : Bool := d.pages.head?.any fun page => page.result.isOk

theorem discoverFeatures_fit (url : Option String) (projectId : Id) (page : String)
    (features : List ClassifiedFeature) (s : Store) :
    ∀ w ∈ (discoverFeaturesProc projectId page features).issued answerDiscovery
      (discoveryWrites url) s, w.Fits := by
  induction features generalizing s with
  | nil => exact List.forall_mem_nil _
  | cons feature features ih =>
    have hcreate : ∀ w ∈ discoveryWrites url (.createFeature ⟨projectId, page, feature⟩), w.Fits :=
      List.forall_mem_singleton.mpr ⟨rfl, rfl⟩
    simp only [discoverFeaturesProc, discoverFeatureProc, Proc.forall_issued_bind]
    refine ⟨⟨List.forall_mem_nil _, fun found t _ => ?_⟩, fun _ t _ => ih t⟩
    cases found with
    | some row => exact List.forall_mem_nil _
    | none =>
      rw [Proc.issued_call]
      exact hcreate

/-- A project that is there, or a URL for it, is enough for all pages. -/
theorem discoverPages_fit {url : Option String} (d : Discovery) (pages : List ClassifiedPage)
    {s : Store} (h : url.isSome ∨ s.projects.any (atPath d.repoPath)) :
    ∀ w ∈ (discoverPagesProc d pages).issued answerDiscovery (discoveryWrites url) s, w.Fits := by
  induction pages generalizing s with
  | nil => exact List.forall_mem_nil _
  | cons page pages ih =>
    simp only [discoverPagesProc, Proc.forall_issued_bind, getOrCreateProject_issued,
      projectIssued_fits]
    refine ⟨List.forall_mem_nil _, fun features t hclassified => ?_⟩
    obtain ⟨-, rfl⟩ := Prod.mk.inj hclassified
    refine ⟨h, fun projectId t hproject => ?_⟩
    rw [getOrCreateProject_lift, onProjects_getOrCreateProject] at hproject
    obtain ⟨-, rfl⟩ := Prod.mk.inj hproject
    refine ⟨discoverFeatures_fit url projectId page.url _ _, fun _ t hfeatures => ?_⟩
    rw [discoverFeaturesProc_run, discoverFeatures_run] at hfeatures
    obtain ⟨-, rfl⟩ := Prod.mk.inj hfeatures
    exact ih (.inr (projectAfter_any d.repoPath d.url _))

theorem discovery_fits_iff (url : Option String) (d : Discovery) (s : Store) :
    (∀ w ∈ (discoverPagesProc d d.pages).issued answerDiscovery (discoveryWrites url) s, w.Fits) ↔
      url.isSome ∨ s.projects.any (atPath d.repoPath) ∨ d.classifies = false := by
  rw [Discovery.classifies]
  cases hpages : d.pages with
  | nil => exact iff_of_true (List.forall_mem_nil _) (.inr (.inr rfl))
  | cons page pages =>
    cases hresult : page.result with
    | error e =>
      -- the phase throws before it looks for a project
      have hstops : (Proc.call (.classifyFeatures page)).run answerDiscovery s = (.error e, s) :=
        congrArg (·, s) hresult
      rw [discoverPagesProc, Proc.issued_bind, hstops]
      exact iff_of_true (List.forall_mem_nil _) (.inr (.inr (by simp [hresult, Except.isOk,
        Except.toBool])))
    | ok features =>
      constructor
      · intro h
        rw [discoverPagesProc, Proc.forall_issued_bind] at h
        have hproject := h.2 features s (congrArg (·, s) hresult)
        rw [Proc.forall_issued_bind, getOrCreateProject_issued, projectIssued_fits] at hproject
        exact hproject.1.imp_right .inl
      · intro h
        apply discoverPages_fit
        simpa [hresult, Except.isOk, Except.toBool] using h

/-! ## The audit loop -/

/-- The budget is used up before the first feature. -/
def Audit.Exhausted (a : Audit) (trace : Trace) : Prop :=
  a.maxDuration < a.w.now (elapsed trace) - a.startTime ∨ a.maxCost ≤ 0

theorem withinBudget_start (a : Audit) (feat : Selected) (db : Db) (trace : Trace) :
    ∃ go t, withinBudget a feat (.start db trace) = (.ok go, t) ∧
      (go = false ↔ a.Exhausted trace) := by
  have hcost : (0 : Cost).atLeast a.maxCost = decide (a.maxCost ≤ 0) := rfl
  refine ⟨_, _, rfl, ?_⟩
  show (!_ && !(0 : Cost).atLeast a.maxCost) = false ↔ _
  rw [hcost, Audit.Exhausted, ← Bool.not_or, Bool.not_eq_false', Bool.or_eq_true,
    decide_eq_true_iff, decide_eq_true_iff]
  rfl

def AuditOp.creates {ρ : Type} : AuditOp ρ → Bool
  | .createRun .. | .createUsage .. => true
  | _ => false

/-- What the audit creates does not fit, what it updates does: its TestRun has no
`triggeredBy` and a `mode` that the table lacks, its usage no `role` and `costUsd`. -/
theorem auditWrites_fit_iff {ρ : Type} (op : AuditOp ρ) :
    (∀ w ∈ auditWrites op, w.Fits) ↔ op.creates = false := by
  cases op with
  | createRun iter feat =>
    apply iff_of_false
    · intro h
      have hmode : ["mode"] = [] := (h _ List.mem_cons_self).2
      cases hmode
    · nofun
  | createUsage iter k run u =>
    apply iff_of_false
    · intro h
      have hmissing : [required "role", required "costUsd"] = [] := (h _ List.mem_cons_self).1
      cases hmissing
    · nofun
  | updateRun iter step run status =>
    exact iff_of_true (List.forall_mem_singleton.mpr ⟨rfl, rfl⟩) rfl
  | updateFeature iter feat now =>
    exact iff_of_true (List.forall_mem_singleton.mpr ⟨rfl, rfl⟩) rfl
  | _ => exact iff_of_true (List.forall_mem_nil _) rfl

/-- The writes of an audit fit exactly if it comes to test no feature at all. -/
theorem audit_fits_iff (a : Audit) (feats : List Selected) (db : Db) (trace : Trace) :
    (∀ w ∈ (auditLoopProc 0 feats).issued (answerAudit a) auditWrites (.start db trace), w.Fits) ↔
      feats = [] ∨ a.Exhausted trace := by
  cases feats with
  | nil => exact iff_of_true (List.forall_mem_nil _) (.inl rfl)
  | cons feat rest =>
    obtain ⟨go, t, hbudget, hgo⟩ := withinBudget_start a feat db trace
    have hcall : (Proc.call (.withinBudget feat)).run (answerAudit a) (.start db trace)
        = (.ok go, t) := hbudget
    rw [auditLoopProc, Proc.issued_bind, hcall]
    cases go with
    | false => exact iff_of_true (List.forall_mem_nil _) (.inr (hgo.mp rfl))
    | true =>
      -- the create that comes right after the budget checks does not fit
      apply iff_of_false
      · intro h
        have htest := (Proc.forall_issued_bind _ _ _ _ _).mp h
        have hcreate := ((Proc.forall_issued_bind _ _ _ _ _).mp htest.1).1
        rw [Proc.issued_call] at hcreate
        cases (auditWrites_fit_iff _).mp hcreate
      · rintro (hnil | hexhausted)
        · cases hnil
        · cases hgo.mpr hexhausted

/-! ## All writers -/

/-- A part of the program that writes, with the state it starts in. -/
inductive Writer where
  | launch (launch : Launch) (s : SysState)
  | getOrCreateProject (repoPath : String) (projects : List Project)
  /-- What `startWatcher` does before it watches. -/
  | ensureProject (repoPath : String) (projects : List Project)
  /-- Phase B of the audit. -/
  | discovery (d : Discovery) (s : Store)
  /-- Phase C & D of the audit. -/
  | auditLoop (a : Audit) (feats : List Selected) (db : Db) (trace : Trace)

/-- The writes that a run issues, accepted or refused. -/
def Writer.writes (url : Option String) (env : Nat → Env) : Writer → List Write
  | .launch l s => (l.proc url).issued (answerSys env) (sysWrites url) s
  | .getOrCreateProject repoPath projects =>
      (Db.getOrCreateProject repoPath (urlText url)).issued answerProject (projectWrites url)
        projects
  | .ensureProject repoPath projects =>
      (Db.ensureProject repoPath (urlText url)).issued answerProject (projectWrites url) projects
  | .discovery d s => (discoverPagesProc { d with url := urlText url } d.pages).issued
      answerDiscovery (discoveryWrites url) s
  | .auditLoop a feats db trace =>
      (auditLoopProc 0 feats).issued (answerAudit a) auditWrites (.start db trace)

/-- A project that may have to be created has a URL, and the audit has nothing to test. -/
def Writer.Provided (url : Option String) : Writer → Prop
  | .launch l s => l.Provided url s.store.projects
  | .getOrCreateProject repoPath projects | .ensureProject repoPath projects =>
      url.isSome ∨ projects.any (atPath repoPath)
  | .discovery d s => url.isSome ∨ s.projects.any (atPath d.repoPath) ∨ d.classifies = false
  | .auditLoop a feats _ trace => feats = [] ∨ a.Exhausted trace

/-- Every write of every run fits the schema, exactly if the writer is provided. -/
theorem writes_fit_iff (url : Option String) (writer : Writer) :
    (∀ env, ∀ w ∈ writer.writes url env, w.Fits) ↔ writer.Provided url := by
  have hconst (P : Prop) : (∀ _ : Nat → Env, P) ↔ P :=
    ⟨fun h => h fun _ => calmEnv false, fun h _ => h⟩
  cases writer with
  | launch l s => exact launch_fits_iff url l s
  | getOrCreateProject repoPath projects =>
    have hissued : (Db.getOrCreateProject repoPath (urlText url)).issued answerProject
        (projectWrites url) projects = projectIssued url _ projects := findOrCreate_issued rfl
    simp only [Writer.writes, hissued, hconst]
    exact projectIssued_fits url _ projects
  | ensureProject repoPath projects =>
    have hissued : (Db.ensureProject repoPath (urlText url)).issued answerProject
        (projectWrites url) projects = projectIssued url _ projects := findOrCreate_issued rfl
    simp only [Writer.writes, hissued, hconst]
    exact projectIssued_fits url _ projects
  | discovery d s =>
    simp only [Writer.writes, hconst]
    exact discovery_fits_iff url { d with url := urlText url } s
  | auditLoop a feats db trace =>
    simp only [Writer.writes, hconst]
    exact audit_fits_iff a feats db trace

/-- An audit with one feature to test and its whole budget left. -/
def oneFeatureAudit : Writer :=
  .auditLoop
    { w := .calm, url := "http://localhost:3000", maxDuration := 1800000, maxCost := 2
      startTime := 0, faults := fun _ _ => none }
    [(0, { manualFeature 0 "Login form" "Fill in the form" with status := .discovered })]
    .empty []

theorem oneFeatureAudit_not_fits :
    ¬ ∀ w ∈ oneFeatureAudit.writes (some "http://localhost:3000") (fun _ => calmEnv false),
      w.Fits := by
  intro h
  rcases (audit_fits_iff _ _ _ _).mp h with hnil | hlate | hcost
  · cases hnil
  · exact absurd hlate (by decide)
  · exact absurd hcost (by decide)

end AutoQa.Cli

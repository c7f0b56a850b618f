import AutoQa.Orchestrator.RunnerUsage

/-!
# The verdict of a smoke test

`executeTest` turns an error of a step into a field of its result. The runner
judges a smoke test without reading that field, so a page that cannot be
reached still passes.
-/

namespace AutoQa.Orchestrator

open AutoQa.Base AutoQa.LlmAgents AutoQa.Db AutoQa.TestExecutor

/-- Some browser operation threw. -/
def Threw (es : Trace) : Prop := ∃ op e, Event.browser op (.error e) ∈ es

theorem Threw.append {es fs : Trace} : Threw (es ++ fs) ↔ Threw es ∨ Threw fs := by
  simp only [Threw, List.mem_append, exists_or]

/-! ## The executor -/

theorem browser_returns {w : World} {op : BrowserOp} {tr tr' : Trace} {u : Unit}
    (h : browser w op tr = (.ok u, tr')) : tr' = tr ++ [.browser op (.ok ())] := by
  simp only [browser, interact, Prod.mk.injEq] at h
  rw [← h.2, h.1]

/-- The trace grew, and nothing threw meanwhile. -/
def Grew (tr tr' : Trace) : Prop := ∃ es, ¬ Threw es ∧ tr' = tr ++ es

theorem Grew.refl (tr : Trace) : Grew tr tr := ⟨[], by simp [Threw], by simp⟩

theorem Grew.trans {t u v : Trace} (h : Grew t u) (h' : Grew u v) : Grew t v := by
  obtain ⟨es, hes, rfl⟩ := h
  obtain ⟨fs, hfs, rfl⟩ := h'
  refine ⟨es ++ fs, ?_, by simp⟩
  rw [Threw.append]
  simp [hes, hfs]

theorem browser_grew {w : World} {op : BrowserOp} {tr tr' : Trace} {u : Unit}
    (h : browser w op tr = (.ok u, tr')) : Grew tr tr' :=
  ⟨[.browser op (.ok ())], by simp [Threw], browser_returns h⟩

/-- The steps throw exactly when an operation of one of them does. -/
theorem runSteps_threw (w : World) (url : String) (steps : List Step) :
    Logs (fun r es => (∃ e, r = .error e) ↔ Threw es) (runSteps w url steps) := by
  induction steps with
  | nil => exact .pure (by simp [Threw])
  | cons step steps ih =>
    rw [runSteps]
    dsimp only
    split
    · refine Logs.bind (interact_logs _ _) ?_ ?_
      · rintro e es rfl
        simp [Threw]
      · rintro u es rfl
        apply ih.mono
        intro r fs hfs
        rw [hfs, Threw.append]
        simp [Threw]
    · exact ih

/-- What `executeTest` does before its steps. -/
def openingEvents : Trace :=
  [.browser .mkdir (.ok ()), .browser .launch (.ok ()), .browser .newContext (.ok ()),
    .browser .newPage (.ok ())]

/-- The message that the steps leave in the artifacts. -/
def stepError : Except String Unit → Option String
  | .ok _ => none
  | .error e => some e

theorem caught_steps {w : World} {url : String} {steps : List Step} {tr t : Trace}
    {message : Option String}
    (h : Prog.tryCatch (do runSteps w url steps; pure none) (fun e => pure (some e)) tr
      = (.ok message, t)) :
    message = stepError (runSteps w url steps tr).1 ∧ t = (runSteps w url steps tr).2 := by
  cases hrun : runSteps w url steps tr with
  | mk r u =>
  cases r with
  | error e =>
    rw [Prog.tryCatch_error (Prog.bind_error hrun)] at h
    cases h
    exact ⟨rfl, rfl⟩
  | ok v =>
    rw [Prog.tryCatch_ok ((Prog.bind_ok hrun).trans rfl)] at h
    cases h
    exact ⟨rfl, rfl⟩

/-- `executeTest` returns the error of its steps; anything else that throws ends
it. -/
theorem executeTest_returns {w : World} {testRunId url : String} {steps : List Step}
    {tr tr' : Trace} {a : Artifacts} (h : executeTest w testRunId url steps tr = (.ok a, tr')) :
    a.errorMessage = stepError (runSteps w url steps (tr ++ openingEvents)).1 ∧
      Grew (runSteps w url steps (tr ++ openingEvents)).2 tr' := by
  unfold executeTest at h
  obtain ⟨_, _, h₁, h⟩ := Prog.bind_eq_ok h
  obtain ⟨_, _, h₂, h⟩ := Prog.bind_eq_ok h
  obtain ⟨_, _, h₃, h⟩ := Prog.bind_eq_ok h
  obtain ⟨_, _, h₄, h⟩ := Prog.bind_eq_ok h
  obtain rfl := browser_returns h₁
  obtain rfl := browser_returns h₂
  obtain rfl := browser_returns h₃
  obtain rfl := browser_returns h₄
  obtain ⟨message, t, hsteps, h⟩ := Prog.bind_eq_ok h
  have hopening : tr ++ [Event.browser .mkdir (.ok ())] ++ [.browser .launch (.ok ())]
      ++ [.browser .newContext (.ok ())] ++ [.browser .newPage (.ok ())] = tr ++ openingEvents := by
    simp [openingEvents]
  rw [hopening] at hsteps
  obtain ⟨rfl, rfl⟩ := caught_steps hsteps
  obtain ⟨_, _, h₅, h⟩ := Prog.bind_eq_ok h
  obtain ⟨_, _, h₆, h⟩ := Prog.bind_eq_ok h
  obtain ⟨_, _, h₇, h⟩ := Prog.bind_eq_ok h
  cases h₇
  obtain ⟨_, _, h₈, h⟩ := Prog.bind_eq_ok h
  obtain ⟨_, _, h₉, h⟩ := Prog.bind_eq_ok h
  have hgrew := (((browser_grew h₅).trans (browser_grew h₆)).trans (browser_grew h₈)).trans
    (browser_grew h₉)
  -- the error is written to a file if there is one
  cases hwrite : (stepError (runSteps w url steps (tr ++ openingEvents)).1).bind orUndefined with
  | some e =>
    simp only [hwrite] at h
    obtain ⟨_, _, hlast, h⟩ := Prog.bind_eq_ok h
    cases h
    exact ⟨rfl, hgrew.trans (browser_grew hlast)⟩
  | none =>
    simp only [hwrite] at h
    cases h
    exact ⟨rfl, hgrew⟩

/-- A returned `executeTest` reports no error exactly when every operation of
its steps went through. -/
theorem executeTest_reports {w : World} {testRunId url : String} {steps : List Step}
    {tr tr' : Trace} {a : Artifacts} (h : executeTest w testRunId url steps tr = (.ok a, tr')) :
    ∃ es, tr' = tr ++ es ∧ (a.errorMessage = none ↔ ¬ Threw es) := by
  obtain ⟨herror, closing, hclosing, rfl⟩ := executeTest_returns h
  obtain ⟨es, hes, hthrew⟩ := runSteps_threw w url steps (tr ++ openingEvents)
  refine ⟨openingEvents ++ es ++ closing, by rw [hes]; simp, ?_⟩
  have hopening : ¬ Threw openingEvents := by simp [Threw, openingEvents]
  rw [herror, Threw.append, Threw.append, ← hthrew]
  cases (runSteps w url steps (tr ++ openingEvents)).1 with
  | ok u => simp [stepError, hopening, hclosing]
  | error e => simp [stepError]

/-! ## The status of the run -/

/-- The operations that leave the TestRun table as it is. -/
def RunKept {ρ : Type} : RunOp ρ → Prop
  | .createRun .. | .updateRun .. => False
  | _ => True

def testRunsOf (s : RunState) : List TestRun := s.db.testRuns

theorem handle_runKept (w : World) (faults : Faults) {ρ : Type} (op : RunOp ρ) (h : RunKept op) :
    Keeps testRunsOf (handle w faults op) := by
  intro s
  refine handle_state w faults op s (P := fun t => testRunsOf t = testRunsOf s) rfl ?_
  cases op <;> first | rfl | exact h.elim

theorem broadcastUpdate_runKept (globalIo : Bool) (site : Site) (run : Id) :
    (broadcastUpdate globalIo site run).Only RunKept :=
  (broadcastUpdate_only globalIo site run).mono fun o ho => by
    cases o <;> trivial

theorem judge_runKept (run : Id) (instruction url : String) :
    (judge run instruction url).Only RunKept :=
  (judge_only run instruction url).mono fun o ho => by
    cases o <;> trivial

section

variable (w : World) (faults : Faults)

theorem updateRun_status (site : Site) {run : Id} (status : RunStatus) (finishedAt : Nat)
    {s : RunState} {before : RunStatus} (h : s.db.runStatus run = some before) :
    (handle w faults (.updateRun site run status finishedAt) s).2.db.runStatus run
      = some (if (faults site .updateRun).isSome then before else status) := by
  cases hfault : faults site .updateRun with
  | some e =>
    rw [handle_fault w faults (.updateRun site run status finishedAt) hfault]
    simpa using h
  | none =>
    rw [handle_perform w faults (.updateRun site run status finishedAt) hfault]
    obtain ⟨row, hrow, -⟩ := Option.map_eq_some_iff.mp h
    simp [perform, RunState.onDb, Db.updateRun, Db.runStatus, hrow]

theorem runStatus_of_testRuns {s t : RunState} (h : testRunsOf t = testRunsOf s) (run : Id) :
    t.db.runStatus run = s.db.runStatus run := by
  simp only [testRunsOf] at h
  simp only [Db.runStatus, h]

/-- The rest of the outer `catch` block leaves the status its first write gave,
if that went through. -/
theorem fail_status (globalIo : Bool) {run : Id} (case : Id) (screenshotPath : Option String)
    (message : String) {s : RunState} {status : RunStatus}
    (h : s.db.runStatus run = some status) :
    ((fail globalIo run case screenshotPath message).run (handle w faults) s).2.db.runStatus run
      = some (if (faults .recovery .updateRun).isSome then status else .failed) := by
  have hrest : (do
      broadcastUpdate globalIo .recovery run
      Proc.throw message : RunProc Unit).Only RunKept :=
    .bind (broadcastUpdate_runKept globalIo .recovery run) (fun _ => .throw message)
  have hwrites : ∀ bug, (do
      Proc.call (.updateCase .recovery case .fail none)
      Proc.call (.createBug .recovery bug) : RunProc Unit).Only RunKept :=
    fun bug => .bind (.call trivial) (fun _ => .call trivial)
  rw [fail, Proc.run_bind,
    runStatus_of_testRuns (Keeps.bind_tail (fun _ => hrest.keeps (handle_runKept w faults)) s),
    recover, Proc.run_bind, Proc.run_call, Prog.bind_ok (handle_now w faults .recovery s),
    Proc.run_bind, Proc.run_call,
    runStatus_of_testRuns (Keeps.bind_tail (fun _ => (hwrites _).keeps (handle_runKept w faults)) _)]
  exact updateRun_status w faults .recovery .failed _ h

/-- The operations of the database, of the clock and of the dashboard return
unless they throw. -/
theorem handle_returns {ρ : Type} (op : RunOp ρ) (h : Recording op ∨ Broadcasting op)
    (s : RunState) :
    (∃ a, (handle w faults op s).1 = .ok a) ↔ op.label.bind (faults op.site) = none := by
  cases hfault : op.label.bind (faults op.site) with
  | some e => simp [handle_fault w faults op hfault]
  | none =>
    rw [handle_perform w faults op hfault]
    cases op with
    | createRun | createCase | executeTest | executeTestAutonomous | analyzeResults | createUsage =>
      exact (h.elim id id).elim
    | _ => simp [perform, Prog.bind_apply, onTrace, Prog.zoom, dateNow, interact]

/-- The second half of the `try` block for a verdict `pass`: the status it
leaves, and whether it returns. -/
theorem record_status {run : Id} (case : Id) {j : Judgment} (hpass : j.analysis.status = .pass)
    {s : RunState} {status : RunStatus} (h : s.db.runStatus run = some status) :
    ((record run case j).run (handle w faults) s).2.db.runStatus run
        = some (if (faults .body .updateRun).isSome then status else .passed) ∧
      (((record run case j).run (handle w faults) s).1 = .ok () ↔ faults .body .updateRun = none ∧
        faults .body .updateCase = none ∧ faults .body .findUsages = none) := by
  have hrest : (do
      Proc.call (.updateCase .body case .pass (some j.durationMs))
      let _ ← Proc.call (.findUsages .body run)
      pure () : RunProc Unit).Only RunKept :=
    .bind (.call trivial) (fun _ => .bind (.call trivial) (fun _ => .pure _))
  have hrecord : record run case j = (do
      let finishedAt ← Proc.call (.now .body)
      Proc.call (.updateRun .body run .passed finishedAt)
      Proc.call (.updateCase .body case .pass (some j.durationMs))
      let _ ← Proc.call (.findUsages .body run)
      pure () : RunProc Unit) := by
    simp only [record, hpass, if_true]
    rfl
  rw [hrecord, Proc.run_bind, Proc.run_call, Prog.bind_ok (handle_now w faults .body s),
    Proc.run_bind, Proc.run_call]
  refine ⟨?_, ?_⟩
  · rw [runStatus_of_testRuns (Keeps.bind_tail (fun _ => hrest.keeps (handle_runKept w faults)) _)]
    exact updateRun_status w faults .body .passed _ h
  · have hupdateRun := fun time => handle_returns w faults (.updateRun .body run .passed time)
      (.inl trivial)
    have hupdateCase := handle_returns w faults
      (.updateCase .body case .pass (some j.durationMs)) (.inl trivial)
    have hfindUsages := handle_returns w faults (.findUsages .body run) (.inl trivial)
    simp only [Proc.run_bind, Proc.run_call, Prog.bind_returns, exists_and_right, Proc.run_pure,
      Prog.pure_apply, and_true, hupdateRun, hupdateCase, hfindUsages]
    rfl

/-- No step before the `try` block throws. -/
def SetUp (globalIo : Bool) : Prop :=
  faults .setup .createRun = none ∧ faults .setup .createCase = none ∧
    (globalIo = true → faults .setup .findRun = none)

/-- No step throws that keeps the status `passed` of a returned smoke test from
being written, or has it written over. -/
def RecordsPass (globalIo : Bool) : Prop :=
  SetUp faults globalIo ∧ faults .body .executeTest = none ∧ faults .body .updateRun = none ∧
    ((faults .body .updateCase = none ∧ faults .body .findUsages = none) ∨
      (faults .recovery .updateRun).isSome = true)

theorem broadcastUpdate_cases (globalIo : Bool) (site : Site) (run : Id) (s : RunState) :
    ∃ r t, (broadcastUpdate globalIo site run).run (handle w faults) s = (r, t) ∧ t.db = s.db ∧
      t.trace = s.trace ∧ (r = .ok () ↔ (globalIo = true → faults site .findRun = none)) := by
  cases globalIo with
  | false => exact ⟨_, s, rfl, rfl, rfl, by simp⟩
  | true =>
    simp only [broadcastUpdate, if_true, Proc.run_bind, Proc.run_call, forall_const]
    cases hfind : faults site .findRun with
    | some e =>
      rw [Prog.bind_error (handle_fault w faults (.findRun site run) hfind s)]
      exact ⟨_, s, rfl, rfl, rfl, by simp⟩
    | none =>
      rw [Prog.bind_ok (handle_perform w faults (.findRun site run) hfind s)]
      cases s.db.findRun run with
      | none => exact ⟨_, s, rfl, rfl, rfl, by simp⟩
      | some row =>
        exact ⟨_, _, handle_perform w faults (.emitUpdate site row) rfl s, rfl, rfl, by simp⟩

variable {faults}

theorem createRun_created (hfault : faults .setup .createRun = none) (featureId : Id) (db : Db)
    (trace : Trace) :
    ∃ s, handle w faults (.createRun .setup featureId) (.start db trace)
        = (.ok db.testRuns.length, s) ∧ s.trace = trace ∧ s.db.testCases = db.testCases ∧
      s.db.runStatus db.testRuns.length = some .running :=
  ⟨_, handle_perform w faults (.createRun .setup featureId) hfault (.start db trace), rfl, rfl, by
    simp [RunState.onDb, Db.createRun, Db.runStatus, RunState.start]⟩

theorem createCase_created (hfault : faults .setup .createCase = none) (run : Id)
    (instruction : String) (s : RunState) :
    ∃ t, handle w faults (.createCase .setup run instruction) s = (.ok s.db.testCases.length, t) ∧
      t.trace = s.trace ∧ testRunsOf t = testRunsOf s :=
  ⟨_, handle_perform w faults (.createCase .setup run instruction) hfault s, rfl, rfl⟩

variable (faults)

/-- What comes before the `try` block returns the two new ids, or throws and
leaves a run that is not over. -/
theorem setup_cases (globalIo : Bool) (featureId : Id) (instruction : String) (db : Db)
    (trace : Trace) :
    ∃ r s, (setup globalIo featureId instruction).run (handle w faults) (.start db trace) = (r, s) ∧
      s.trace = trace ∧
      ((SetUp faults globalIo ∧ r = .ok (db.testRuns.length, db.testCases.length) ∧
          s.db.runStatus db.testRuns.length = some .running) ∨
        (¬ SetUp faults globalIo ∧ (∃ e, r = .error e) ∧
          s.db.runStatus db.testRuns.length ≠ some .passed)) := by
  simp only [setup, Proc.run_bind, Proc.run_call]
  cases hrun : faults .setup .createRun with
  | some e =>
    rw [Prog.bind_error (handle_fault w faults (.createRun .setup featureId) hrun _)]
    exact ⟨_, _, rfl, rfl, .inr ⟨by simp [SetUp, hrun], ⟨e, rfl⟩, by
      simp [RunState.start, Db.runStatus]⟩⟩
  | none =>
  obtain ⟨s₁, hs₁, htrace₁, hcases₁, hstatus₁⟩ := createRun_created w hrun featureId db trace
  rw [Prog.bind_ok hs₁]
  cases hcase : faults .setup .createCase with
  | some e =>
    rw [Prog.bind_error (handle_fault w faults
      (.createCase .setup db.testRuns.length instruction) hcase s₁)]
    exact ⟨_, _, rfl, htrace₁, .inr ⟨by simp [SetUp, hcase], ⟨e, rfl⟩, by simp [hstatus₁]⟩⟩
  | none =>
  obtain ⟨s₂, hs₂, htrace₂, hruns₂⟩ :=
    createCase_created w hcase db.testRuns.length instruction s₁
  have hstatus₂ := (runStatus_of_testRuns hruns₂ db.testRuns.length).trans hstatus₁
  rw [Prog.bind_ok hs₂, hcases₁]
  obtain ⟨r, t, hbroadcast, hdb, htrace, hr⟩ :=
    broadcastUpdate_cases w faults globalIo .setup db.testRuns.length s₂
  have hsetup : SetUp faults globalIo ↔ r = .ok () := by simp [SetUp, hrun, hcase, hr]
  cases r with
  | error e =>
    rw [Prog.bind_error hbroadcast]
    exact ⟨_, _, rfl, htrace.trans (htrace₂.trans htrace₁), .inr ⟨by simp [hsetup], ⟨e, rfl⟩, by
      simp [hdb, hstatus₂]⟩⟩
  | ok u =>
    rw [Prog.bind_ok hbroadcast]
    exact ⟨_, _, rfl, htrace.trans (htrace₂.trans htrace₁), .inl ⟨hsetup.mpr rfl, rfl, by
      rw [hdb, hstatus₂]⟩⟩

end

/-! ## The browser operations of a run -/

/-- The operations other than `executeTest`. -/
def Browserless {ρ : Type} : RunOp ρ → Prop
  | .executeTest .. => False
  | _ => True

theorem not_threw_of_agentEvents {es : Trace} (h : ∀ e ∈ es, AgentEvent e) : ¬ Threw es := by
  rintro ⟨op, e, he⟩
  cases h _ he with
  | outside hout => rcases hout with h | h | h | h | h <;> cases h
  | tool htool => cases htool

theorem analyzeResults_clean (w : World) (evidence : Evidence) :
    Logs (fun _ es => ¬ Threw es) (analyzeResults w evidence) := by
  apply (analyzeResults_logs w evidence).mono
  rintro r es ⟨body, provider, rfl, hbody, -⟩ ⟨op, e, he⟩
  simp only [List.mem_cons, reduceCtorEq, false_or] at he
  obtain ⟨p, -, h | ⟨u, h, -⟩⟩ := hbody _ he
  · cases h
  · cases h

theorem handle_grew (w : World) (faults : Faults) {ρ : Type} (op : RunOp ρ) (h : Browserless op)
    (s : RunState) : Grew s.trace (handle w faults op s).2.trace := by
  refine handle_state w faults op s (P := fun t => Grew s.trace t.trace) (.refl _) ?_
  cases op with
  | executeTest => exact h.elim
  | now site => exact ⟨[.clockRead], by simp [Threw], rfl⟩
  | executeTestAutonomous site run instruction url =>
    obtain ⟨es, htrace, hes⟩ := executeTestAutonomous_emits w (toString run) instruction url none
      s.trace
    exact ⟨es, not_threw_of_agentEvents hes, htrace⟩
  | analyzeResults site evidence =>
    obtain ⟨es, htrace, hes⟩ := analyzeResults_clean w evidence s.trace
    exact ⟨es, hes, htrace⟩
  | _ => exact .refl _

theorem grew_of_browserless (w : World) (faults : Faults) {α : Type} {p : RunProc α}
    (hp : p.Only Browserless) (s : RunState) :
    Grew s.trace (p.run (handle w faults) s).2.trace :=
  hp.rel (T := fun s t => Grew s.trace t.trace) (fun _ => .refl _) .trans
    (handle_grew w faults) s

/-- The call of `executeTest` in a smoke test that starts after `trace`. -/
def smokeCall (w : World) (run : Id) (url : String) (trace : Trace) :
    Except String Artifacts × Trace :=
  executeTest w (toString run) url smokePlan (trace ++ [.clockRead])

/-- The run of a call of `runTestExecution` is `passed` in the end. -/
def EndsPassed (w : World) (faults : Faults) (globalIo : Bool) (featureId : Id)
    (instruction url : String) (db : Db) (trace : Trace) : Prop :=
  (execute w faults globalIo featureId instruction url (.start db trace)).2.db.runStatus
    db.testRuns.length = some .passed

theorem runSteps_smoke (w : World) (url : String) (tr : Trace) :
    runSteps w url smokePlan tr = browser w (.goto url) tr := by
  simp only [runSteps, smokePlan, stepOp]
  rw [Prog.bind_apply]
  cases browser w (.goto url) tr with
  | mk r t => cases r <;> rfl

/-- The operations of a smoke test's `executeTest` around its only step, with
their times: the run starts at the time `n`, and the step throws `message`. -/
def aroundStep (w : World) (run : Id) (n : Nat) (message : String) : List (Nat × BrowserOp) :=
  let artifactsDir := w.cwd ++ "/artifacts/" ++ toString run
  [(n + 1, .mkdir), (n + 2, .launch), (n + 3, .newContext), (n + 4, .newPage),
    (n + 6, .screenshot (artifactsDir ++ "/final.png")), (n + 7, .close),
    (n + 8, .writeFile (artifactsDir ++ "/logs.txt") (w.pageLogs (n + 8))),
    (n + 9, .writeFile (artifactsDir ++ "/network.txt") (w.pageNetwork (n + 8)))] ++
  (orUndefined message).toList.map fun e => (n + 10, .writeFile (artifactsDir ++ "/error.txt") e)

theorem browser_fst (w : World) (op : BrowserOp) (tr : Trace) :
    (browser w op tr).1 = w.browser (elapsed tr) op := rfl

theorem browser_elapsed (w : World) (op : BrowserOp) (tr : Trace) :
    elapsed (browser w op tr).2 = elapsed tr + 1 := by
  simp [browser, interact]

theorem smokeCall_returns {w : World} {url : String} {trace : Trace} {message : String}
    (hgoto : w.browser (elapsed trace + 5) (.goto url) = .error message) (run : Id) :
    (∃ a, (smokeCall w run url trace).1 = .ok a) ↔
      ∀ o ∈ aroundStep w run (elapsed trace) message, w.browser o.1 o.2 = .ok () := by
  have hsteps : ∀ tr : Trace, elapsed tr = elapsed trace + 5 →
      Prog.tryCatch (do runSteps w url smokePlan; pure none) (fun e => pure (some e)) tr
        = (.ok (some message), (browser w (.goto url) tr).2) := by
    intro tr htr
    apply Prog.tryCatch_error
    apply Prog.bind_error
    rw [runSteps_smoke]
    apply Prod.ext
    · rw [browser_fst, htr, hgoto]
    · rfl
  cases hfile : orUndefined message with
  | none =>
    simp (disch := simp [browser_elapsed]) only [smokeCall, executeTest, Prog.bind_returns, hsteps,
      browser_fst, aroundStep]
    simp [browser_elapsed, hfile, Unique.exists_iff]
  | some e =>
    simp (disch := simp [browser_elapsed]) only [smokeCall, executeTest, Prog.bind_returns, hsteps,
      browser_fst, aroundStep]
    simp [browser_elapsed, browser_fst, hfile, Prog.bind_returns, Unique.exists_iff]

/-- The `try` block of a smoke test judges it as soon as `executeTest` returns. -/
theorem judge_smokeCall (w : World) (faults : Faults) (run : Id) (url : String) (s : RunState) :
    (∃ j, (judge run smokeInstruction url).run (handle w faults) s
        = (.ok j, { s with trace := (smokeCall w run url s.trace).2 ++ [.clockRead] }) ∧
      faults .body .executeTest = none ∧ ∃ a, (smokeCall w run url s.trace).1 = .ok a) ∨
    ((∃ e, ((judge run smokeInstruction url).run (handle w faults) s).1 = .error e) ∧
      ¬ (faults .body .executeTest = none ∧ ∃ a, (smokeCall w run url s.trace).1 = .ok a)) := by
  rw [judge, if_pos rfl]
  simp only [Proc.run_bind, Proc.run_call]
  rw [Prog.bind_ok (handle_now w faults .body s)]
  cases hfault : faults .body .executeTest with
  | some e =>
    rw [Prog.bind_error (handle_fault w faults (.executeTest .body run url) hfault _)]
    exact .inr ⟨⟨e, rfl⟩, by simp⟩
  | none =>
  cases hsmoke : smokeCall w run url s.trace with
  | mk r tr =>
  have hcall : handle w faults (.executeTest .body run url)
      { s with trace := s.trace ++ [.clockRead] } = (r, { s with trace := tr }) := by
    rw [smokeCall] at hsmoke
    rw [handle_perform w faults (.executeTest .body run url) hfault]
    simp only [perform, onTrace, Prog.zoom, hsmoke]
  cases r with
  | error e =>
    rw [Prog.bind_error hcall]
    exact .inr ⟨⟨e, rfl⟩, by simp⟩
  | ok a =>
    rw [Prog.bind_ok hcall]
    exact .inl ⟨_, rfl, rfl, a, rfl⟩

/-- A smoke test whose run has begun ends `passed` exactly when `executeTest`
returned and the status was written and kept. -/
theorem runBody_passed (w : World) (faults : Faults) (globalIo : Bool) {run : Id} (case : Id)
    (url : String) {s : RunState} (hstatus : s.db.runStatus run = some .running) :
    ((runBody globalIo run case smokeInstruction url).run (handle w faults) s).2.db.runStatus run
        = some .passed ↔
      (faults .body .executeTest = none ∧ ∃ a, (smokeCall w run url s.trace).1 = .ok a) ∧
        faults .body .updateRun = none ∧
        ((faults .body .updateCase = none ∧ faults .body .findUsages = none) ∨
          (faults .recovery .updateRun).isSome = true) := by
  rw [runBody, Proc.run_bind, Proc.run_attempt, Prog.bind_ok (show Prog.attempt _ s = _ from rfl)]
  have hkept : ((judge run smokeInstruction url).run (handle w faults) s).2.db.runStatus run
      = some .running := by
    rw [← hstatus]
    exact runStatus_of_testRuns
      ((judge_runKept run smokeInstruction url).keeps (handle_runKept w faults) s) run
  rcases judge_smokeCall w faults run url s with ⟨j, hj, hcall⟩ | ⟨⟨e, he⟩, hcall⟩
  · rw [hj] at hkept ⊢
    have hpass := judge_smoke w faults run url s (congrArg Prod.fst hj)
    obtain ⟨hwritten, hreturns⟩ := record_status w faults case hpass hkept
    simp only [hcall, and_self, true_and, Proc.run_tryCatch]
    cases hrecord : (record run case j).run (handle w faults)
      { s with trace := (smokeCall w run url s.trace).2 ++ [.clockRead] } with
    | mk r t =>
    rw [hrecord] at hwritten hreturns
    cases r with
    | ok u =>
      rw [Prog.tryCatch_ok hrecord]
      obtain ⟨hupdate, hcase, husages⟩ := hreturns.mp rfl
      simp [hwritten, hupdate, hcase, husages]
    | error e =>
      rw [Prog.tryCatch_error hrecord, fail_status w faults globalIo case _ e hwritten]
      cases hupdate : faults .body .updateRun with
      | some e' =>
        simp only [Option.isSome_some, if_true, reduceCtorEq, false_and, iff_false]
        split <;> simp
      | none =>
        have hthrown : ¬ (faults .body .updateCase = none ∧ faults .body .findUsages = none) := by
          intro h
          cases hreturns.mpr ⟨hupdate, h⟩
        cases faults .recovery .updateRun <;> simp [hthrown]
  · rw [he]
    simp only [hcall, false_and, iff_false]
    rw [fail_status w faults globalIo case none e hkept]
    split <;> simp

/-- A smoke test is recorded as passed exactly when `executeTest` returns and no
step keeps the status from being written or has it written over. -/
theorem endsPassed_smoke (w : World) (faults : Faults) (globalIo : Bool) (featureId : Id)
    (url : String) (db : Db) (trace : Trace) :
    EndsPassed w faults globalIo featureId smokeInstruction url db trace ↔
      RecordsPass faults globalIo ∧ ∃ a, (smokeCall w db.testRuns.length url trace).1 = .ok a := by
  obtain ⟨r, s, hstart, htrace, ⟨hup, rfl, hstatus⟩ | ⟨hdown, ⟨e, rfl⟩, hstatus⟩⟩ :=
    setup_cases w faults globalIo featureId smokeInstruction db trace
  · rw [EndsPassed, execute, runTestExecution, Proc.run_bind, Prog.bind_ok hstart]
    simp only [Proc.run_bind]
    rw [runStatus_of_testRuns (Keeps.bind_tail (fun _ =>
        (broadcastUpdate_runKept globalIo .tail _).keeps (handle_runKept w faults)) s),
      runBody_passed w faults globalIo db.testCases.length url hstatus, htrace, RecordsPass]
    tauto
  · rw [EndsPassed, execute, runTestExecution, Proc.run_bind, Prog.bind_error hstart]
    simp [hstatus, RecordsPass, hdown]

/-! ## The trace of a call -/

theorem Broadcasting.browserless {ρ : Type} (o : RunOp ρ) (h : Broadcasting o) :
    Browserless o := by
  cases o <;> trivial

theorem Recording.browserless {ρ : Type} (o : RunOp ρ) (h : Recording o) : Browserless o := by
  cases o <;> trivial

theorem broadcastUpdate_browserless (globalIo : Bool) (site : Site) (run : Id) :
    (broadcastUpdate globalIo site run).Only Browserless :=
  (broadcastUpdate_only globalIo site run).mono Broadcasting.browserless

theorem fail_browserless (globalIo : Bool) (run case : Id) (screenshotPath : Option String)
    (message : String) : (fail globalIo run case screenshotPath message).Only Browserless :=
  .bind ((recover_only run case screenshotPath message).mono Recording.browserless) (fun _ =>
    .bind (broadcastUpdate_browserless globalIo .recovery run) (fun _ => .throw message))

/-- Once the run is judged, the browser is not used again. -/
theorem runBody_grew (w : World) (faults : Faults) (globalIo : Bool) (run case : Id)
    (instruction url : String) (s : RunState) :
    Grew ((judge run instruction url).run (handle w faults) s).2.trace
      ((runBody globalIo run case instruction url).run (handle w faults) s).2.trace := by
  rw [runBody, Proc.run_bind, Proc.run_attempt, Prog.bind_ok (show Prog.attempt _ s = _ from rfl)]
  cases ((judge run instruction url).run (handle w faults) s).1 with
  | error e => exact grew_of_browserless w faults (fail_browserless globalIo run case none e) _
  | ok j =>
    exact grew_of_browserless w faults
      (.tryCatch ((record_only run case j).mono Recording.browserless)
        (fail_browserless globalIo run case _)) _

theorem bind_grew (w : World) (faults : Faults) {α β : Type} (p : Prog RunState α)
    {q : α → RunProc β} (hq : ∀ a, (q a).Only Browserless) (s : RunState) :
    Grew (p s).2.trace ((p >>= fun a => (q a).run (handle w faults)) s).2.trace := by
  rw [Prog.bind_apply]
  cases p s with
  | mk r t =>
  cases r with
  | error e => exact .refl _
  | ok a => exact grew_of_browserless w faults (hq a) t

theorem execute_grew (w : World) {faults : Faults} {globalIo : Bool} (hup : SetUp faults globalIo)
    (featureId : Id) (instruction url : String) (db : Db) (trace : Trace) :
    ∃ s : RunState, s.trace = trace ∧
      Grew ((judge db.testRuns.length instruction url).run (handle w faults) s).2.trace
        (execute w faults globalIo featureId instruction url (.start db trace)).2.trace := by
  obtain ⟨r, s, hstart, htrace, ⟨-, rfl, -⟩ | ⟨hdown, -⟩⟩ :=
    setup_cases w faults globalIo featureId instruction db trace
  · refine ⟨s, htrace, ?_⟩
    rw [execute, runTestExecution, Proc.run_bind, Prog.bind_ok hstart]
    simp only [Proc.run_bind]
    exact (runBody_grew w faults globalIo _ db.testCases.length instruction url s).trans
      (bind_grew w faults _ (fun _ => broadcastUpdate_browserless globalIo .tail _) s)
  · exact absurd hup hdown

/-- What a returned smoke test shows of the browser is whether its step threw. -/
theorem threw_smoke (w : World) {faults : Faults} {globalIo : Bool} (hup : SetUp faults globalIo)
    (hfault : faults .body .executeTest = none) (featureId : Id) {url : String} {db : Db}
    {trace : Trace} {a : Artifacts} (ha : (smokeCall w db.testRuns.length url trace).1 = .ok a) :
    Threw (callTrace w faults globalIo featureId smokeInstruction url db trace) ↔
      ∃ e, w.browser (elapsed trace + 5) (.goto url) = .error e := by
  obtain ⟨s, rfl, rest, hrest, htrace⟩ := execute_grew w hup featureId smokeInstruction url db trace
  have hcall : executeTest w (toString db.testRuns.length) url smokePlan (s.trace ++ [.clockRead])
      = (.ok a, (smokeCall w db.testRuns.length url s.trace).2) := Prod.ext ha rfl
  obtain ⟨es, hes, hreports⟩ := executeTest_reports hcall
  have herror := (executeTest_returns hcall).1
  rcases judge_smokeCall w faults db.testRuns.length url s with ⟨j, hj, -⟩ | ⟨-, hnot⟩
  · rw [callTrace, htrace, hj, hes]
    have hdrop : (s.trace ++ [Event.clockRead] ++ es ++ [Event.clockRead] ++ rest).drop
        s.trace.length = [.clockRead] ++ es ++ [.clockRead] ++ rest := by
      simp [List.append_assoc]
    have hclock : ¬ Threw [Event.clockRead] := by simp [Threw]
    rw [hdrop, Threw.append, Threw.append, Threw.append, ← not_iff_not]
    simp only [hclock, hrest, false_or, or_false, ← hreports, herror, runSteps_smoke, browser_fst]
    have helapsed : elapsed (s.trace ++ [Event.clockRead] ++ openingEvents)
        = elapsed s.trace + 5 := by
      simp [openingEvents]
    rw [helapsed]
    cases w.browser (elapsed s.trace + 5) (.goto url) <;> simp [stepError]
  · exact absurd ⟨hfault, a, ha⟩ hnot

theorem recordUsages_browserless (run : Id) (us : List UsageEntry) :
    ∀ k, (recordUsages run k us).Only Browserless := by
  induction us with
  | nil => intro k; exact .pure _
  | cons u us ih => intro k; exact .bind (.call trivial) (fun _ => ih (k + 1))

theorem judge_browserless (run : Id) {instruction : String} (url : String)
    (hauto : instruction ≠ smokeInstruction) : (judge run instruction url).Only Browserless := by
  have hanalyze : ∀ artifacts, (analyze run artifacts).Only Browserless := fun artifacts =>
    .bind (recordUsages_browserless run artifacts.usages 0) (fun _ =>
      .bind (.call trivial) (fun _ => .bind (.call trivial) (fun _ => .pure _)))
  rw [judge, if_neg hauto]
  refine .bind (.call trivial) (fun start => .bind (.attempt (.call trivial)) (fun r => ?_))
  cases r with
  | error e => exact .bind (.call trivial) (fun _ => .pure _)
  | ok artifacts =>
    refine .bind (.call trivial) (fun stop => .bind (.attempt (hanalyze _)) (fun r => ?_))
    cases r with
    | ok analysis => exact .pure _
    | error e => exact .bind (.call trivial) (fun _ => .pure _)

/-- An autonomous run leaves the browser to its tool server. -/
theorem threw_autonomous (w : World) (faults : Faults) (globalIo : Bool) (featureId : Id)
    {instruction : String} (url : String) (hauto : instruction ≠ smokeInstruction) (db : Db)
    (trace : Trace) :
    ¬ Threw (callTrace w faults globalIo featureId instruction url db trace) := by
  have hsetup : (setup globalIo featureId instruction).Only Browserless :=
    .bind (.call trivial) (fun run => .bind (.call trivial) (fun _ =>
      .bind (broadcastUpdate_browserless globalIo .setup run) (fun _ => .pure _)))
  have hbody : ∀ run case, (runBody globalIo run case instruction url).Only Browserless := by
    intro run case
    refine .bind (.attempt (judge_browserless run url hauto)) (fun r => ?_)
    cases r with
    | error e => exact fail_browserless globalIo run case none e
    | ok j =>
      exact .tryCatch ((record_only run case j).mono Recording.browserless)
        (fail_browserless globalIo run case _)
  have hcall : (runTestExecution globalIo featureId instruction url).Only Browserless :=
    .bind hsetup (fun ids => .bind (hbody _ _) (fun _ =>
      broadcastUpdate_browserless globalIo .tail _))
  obtain ⟨es, hes, htrace⟩ := grew_of_browserless w faults hcall (.start db trace)
  have hdrop : callTrace w faults globalIo featureId instruction url db trace = es := by
    rw [callTrace, execute, htrace]
    exact List.drop_left
  rwa [hdrop]

/-- **No pass without a clean execution** holds of a call exactly when it is not
a smoke test, or a step of the runner keeps it from being recorded as passed, or
its page can be navigated to, or another operation of `executeTest` throws too. -/
theorem clean_pass_iff (w : World) (faults : Faults) (globalIo : Bool) (featureId : Id)
    (instruction url : String) (db : Db) (trace : Trace) :
    (EndsPassed w faults globalIo featureId instruction url db trace →
        ¬ Threw (callTrace w faults globalIo featureId instruction url db trace)) ↔
      instruction ≠ smokeInstruction ∨ ¬ RecordsPass faults globalIo ∨
        ∀ message, w.browser (elapsed trace + 5) (.goto url) = .error message →
          ∃ o ∈ aroundStep w db.testRuns.length (elapsed trace) message, w.browser o.1 o.2 ≠ .ok () := by
  by_cases hauto : instruction = smokeInstruction
  · subst hauto
    by_cases hrecords : RecordsPass faults globalIo
    · simp only [endsPassed_smoke, hrecords, true_and, ne_eq, not_true_eq_false, false_or]
      constructor
      · intro hclean message hgoto
        by_contra hnone
        push Not at hnone
        obtain ⟨a, ha⟩ := (smokeCall_returns hgoto db.testRuns.length).mpr hnone
        exact hclean ⟨a, ha⟩
          ((threw_smoke w hrecords.1 hrecords.2.1 featureId ha).mpr ⟨message, hgoto⟩)
      · rintro hthrows ⟨a, ha⟩ hthrew
        obtain ⟨message, hgoto⟩ := (threw_smoke w hrecords.1 hrecords.2.1 featureId ha).mp hthrew
        obtain ⟨o, ho, hnot⟩ := hthrows message hgoto
        exact hnot ((smokeCall_returns hgoto db.testRuns.length).mp ⟨a, ha⟩ o ho)
    · simp [endsPassed_smoke, hrecords]
  · simp [hauto, threw_autonomous w faults globalIo featureId url hauto db trace]

/-- The calm world with a page that refuses connections. -/
def refusedWorld : World :=
  { World.calm with
    browser := fun _ op =>
      match op with
      | .goto _ => .error "net::ERR_CONNECTION_REFUSED"
      | _ => .ok () }

theorem refused_smoke_passes :
    EndsPassed refusedWorld never false 0 smokeInstruction "http://localhost:3000" .empty [] ∧
      Threw (callTrace refusedWorld never false 0 smokeInstruction "http://localhost:3000" .empty
        []) := by
  refine ⟨by unfold EndsPassed; decide +kernel, .goto "http://localhost:3000",
    "net::ERR_CONNECTION_REFUSED", ?_⟩
  have : (callTrace refusedWorld never false 0 smokeInstruction "http://localhost:3000" .empty
      [])[5]? = some (.browser (.goto "http://localhost:3000")
        (.error "net::ERR_CONNECTION_REFUSED")) := rfl
  exact List.mem_of_getElem? this

end AutoQa.Orchestrator

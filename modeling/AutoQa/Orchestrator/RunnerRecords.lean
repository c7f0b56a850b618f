import AutoQa.Orchestrator.Runner

/-!
# The records of a run

When `runTestExecution` is over, its TestRun, TestCase and BugReports should
tell one story. The writes of the `try` block and those of the outer `catch`
block overlap, so a step that throws late can leave both; the one place where
this goes wrong is the last read of the `try` block.
-/

namespace AutoQa.Orchestrator

open AutoQa.Base AutoQa.LlmAgents AutoQa.Db

/-- The status of the run, whether it has a finishing time, the status of the
case and the number of its bug reports. -/
structure Records (run case : Id) (status : RunStatus) (finished : Bool) (verdict : CaseStatus)
    (bugs : Nat) (db : Db) : Prop where
  runRow : ∃ r, db.testRuns[run]? = some r ∧ r.status = status ∧ r.finishedAt.isSome = finished
  caseRow : ∃ c, db.testCases[case]? = some c ∧ c.status = verdict
  bugCount : (db.bugsOf case).length = bugs

/-- The records of a run that is over agree. -/
def Terminal (run case : Id) (db : Db) : Prop :=
  ∃ status verdict bugs, Records run case status true verdict bugs db ∧
    (status = .passed ∨ status = .failed) ∧ (verdict = .pass ↔ status = .passed) ∧
    bugs = if status = .passed then 0 else 1

namespace Records

variable {run case : Id} {status : RunStatus} {finished : Bool} {verdict : CaseStatus}
  {bugs : Nat} {db : Db}

theorem updateRun (h : Records run case status finished verdict bugs db) (status' : RunStatus)
    (time : Nat) :
    Records run case status' true verdict bugs
      (db.updateRun run fun r => { r with status := status', finishedAt := some time }) := by
  obtain ⟨r, hr, -, -⟩ := h.runRow
  exact ⟨⟨{ r with status := status', finishedAt := some time }, by simp [Db.updateRun, hr], rfl,
    rfl⟩, h.caseRow, h.bugCount⟩

theorem updateCase (h : Records run case status finished verdict bugs db) (verdict' : CaseStatus)
    (durationMs : Option Nat) :
    Records run case status finished verdict' bugs (db.updateCase case fun c =>
      { c with status := verdict', durationMs := durationMs.or c.durationMs }) := by
  obtain ⟨c, hc, -⟩ := h.caseRow
  exact ⟨h.runRow, ⟨{ c with status := verdict', durationMs := durationMs.or c.durationMs },
    by simp [Db.updateCase, hc], rfl⟩, h.bugCount⟩

theorem createBug (h : Records run case status finished verdict bugs db) {bug : BugReport}
    (hbug : bug.testCaseId = case) :
    Records run case status finished verdict (bugs + 1) (db.createBug bug) := by
  refine ⟨h.runRow, h.caseRow, ?_⟩
  simp [Db.createBug, Db.bugsOf, hbug, ← h.bugCount]

/-- The numbers are determined by the database. -/
theorem unique {status' : RunStatus} {finished' : Bool} {verdict' : CaseStatus} {bugs' : Nat}
    (h : Records run case status finished verdict bugs db)
    (h' : Records run case status' finished' verdict' bugs' db) :
    status = status' ∧ finished = finished' ∧ verdict = verdict' ∧ bugs = bugs' := by
  obtain ⟨r, hr, hs, hf⟩ := h.runRow
  obtain ⟨r', hr', hs', hf'⟩ := h'.runRow
  obtain ⟨c, hc, hv⟩ := h.caseRow
  obtain ⟨c', hc', hv'⟩ := h'.caseRow
  rw [hr] at hr'
  rw [hc] at hc'
  cases hr'
  cases hc'
  exact ⟨hs.symm.trans hs', hf.symm.trans hf', hv.symm.trans hv', h.bugCount.symm.trans h'.bugCount⟩

end Records

/-! ## Operations that touch no record -/

/-- The tables that the records are in. -/
def recordTables (s : RunState) : List TestRun × List TestCase × List BugReport :=
  (s.db.testRuns, s.db.testCases, s.db.bugReports)

theorem Records.of_tables {run case : Id} {status : RunStatus} {finished : Bool}
    {verdict : CaseStatus} {bugs : Nat} {s s' : RunState}
    (h : Records run case status finished verdict bugs s.db)
    (heq : recordTables s' = recordTables s) :
    Records run case status finished verdict bugs s'.db := by
  simp only [recordTables, Prod.mk.injEq] at heq
  obtain ⟨hr, hc, hb⟩ := heq
  refine ⟨by rw [hr]; exact h.runRow, by rw [hc]; exact h.caseRow, ?_⟩
  rw [Db.bugsOf, hb]
  exact h.bugCount

/-- The operations other than the writes of records. -/
def Neutral {ρ : Type} : RunOp ρ → Prop
  | .now .. | .executeTest .. | .executeTestAutonomous .. | .analyzeResults .. | .createUsage ..
  | .findRun .. | .emitUpdate .. | .findUsages .. => True
  | _ => False

theorem handle_neutral (w : World) (faults : Faults) {ρ : Type} (op : RunOp ρ) (h : Neutral op) :
    Keeps recordTables (handle w faults op) := by
  intro s
  refine handle_state w faults op s (P := fun t => recordTables t = recordTables s) rfl ?_
  cases op <;> first | rfl | exact h.elim

theorem broadcastUpdate_neutral (globalIo : Bool) (site : Site) (run : Id) :
    (broadcastUpdate globalIo site run).Only Neutral :=
  (broadcastUpdate_only globalIo site run).mono fun o ho => by
    cases o <;> trivial

theorem judge_neutral (run : Id) (instruction url : String) :
    (judge run instruction url).Only Neutral :=
  (judge_only run instruction url).mono fun o ho => by
    cases o <;> trivial

/-! ## The two ends of the function -/

section

variable (w : World) (faults : Faults) {run case : Id} {status : RunStatus} {finished : Bool}
  {verdict : CaseStatus} {bugs : Nat}

theorem recover_records (hrecovery : ∀ label, faults .recovery label = none)
    (screenshotPath : Option String) (message : String) {s : RunState}
    (h : Records run case status finished verdict bugs s.db) :
    ∃ s', (recover run case screenshotPath message).run (handle w faults) s = (.ok (), s') ∧
      Records run case .failed true .fail (bugs + 1) s'.db := by
  have hnone : ∀ {ρ : Type} {op : RunOp ρ}, op.site = .recovery →
      op.label.bind (faults op.site) = none := by
    intro ρ op hsite
    cases hl : op.label <;> simp [hsite, hrecovery]
  simp only [recover, Proc.run_bind, Proc.run_call]
  rw [Prog.bind_ok (handle_perform w faults _ (hnone rfl) s),
    Prog.bind_ok (handle_perform w faults _ (hnone rfl) _),
    Prog.bind_ok (handle_perform w faults _ (hnone rfl) _),
    handle_perform w faults _ (hnone rfl)]
  exact ⟨_, rfl, ((h.updateRun .failed _).updateCase .fail none).createBug rfl⟩

/-- The three writes of the `try` block go through and the read after them
throws. -/
def LastReadFails : Prop :=
  faults .body .updateRun = none ∧ faults .body .updateCase = none ∧
    faults .body .createBug = none ∧ (faults .body .findUsages).isSome = true

/-- A verdict other than `pass` is reported by the `try` block and again by the
outer `catch` block. -/
def ReportsTwice (verdict : CaseStatus) : Prop := verdict ≠ .pass ∧ LastReadFails faults

/-- The end of the `try` block, after its updates: it throws with a bug report
written only if the report went through and the read after it throws. -/
theorem report_records (j : Judgment) {s : RunState}
    (h : Records run case status finished verdict 0 s.db) :
    ∃ r s' bugs', (do
        if j.analysis.status = .pass then pure () else Proc.call (.createBug .body (bugOf case j))
        let _ ← Proc.call (.findUsages .body run)
        pure () : RunProc Unit).run (handle w faults) s = (r, s') ∧
      Records run case status finished verdict bugs' s'.db ∧
      ((r = .ok () ∧ faults .body .findUsages = none ∧
          bugs' = if j.analysis.status = .pass then 0 else 1) ∨
        (∃ e, r = .error e) ∧ bugs' = if j.analysis.status ≠ .pass ∧
          faults .body .createBug = none ∧ (faults .body .findUsages).isSome = true then 1 else 0) := by
  by_cases hpass : j.analysis.status = .pass
  · simp only [hpass, if_true, Proc.run_bind, Proc.run_call, Proc.run_pure]
    cases hfind : faults .body .findUsages with
    | some e =>
      rw [Prog.bind_error (handle_fault w faults (.findUsages .body run) hfind _)]
      exact ⟨_, _, _, rfl, h, .inr ⟨⟨e, rfl⟩, by simp⟩⟩
    | none =>
      rw [Prog.bind_ok (handle_perform w faults (.findUsages .body run) hfind _)]
      exact ⟨_, _, _, rfl, h, .inl ⟨rfl, rfl, rfl⟩⟩
  · simp only [hpass, if_false, Proc.run_bind, Proc.run_call, Proc.run_pure]
    cases hbug : faults .body .createBug with
    | some e =>
      rw [Prog.bind_error (handle_fault w faults (.createBug .body (bugOf case j)) hbug _)]
      exact ⟨_, _, _, rfl, h, .inr ⟨⟨e, rfl⟩, by simp⟩⟩
    | none =>
    rw [Prog.bind_ok (handle_perform w faults (.createBug .body (bugOf case j)) hbug _)]
    have hwritten := h.createBug (show (bugOf case j).testCaseId = case from rfl)
    cases hfind : faults .body .findUsages with
    | some e =>
      rw [Prog.bind_error (handle_fault w faults (.findUsages .body run) hfind _)]
      exact ⟨_, _, _, rfl, hwritten, .inr ⟨⟨e, rfl⟩, by simp [hpass]⟩⟩
    | none =>
      rw [Prog.bind_ok (handle_perform w faults (.findUsages .body run) hfind _)]
      exact ⟨_, _, _, rfl, hwritten, .inl ⟨rfl, rfl, rfl⟩⟩

/-- The second half of the `try` block, from a run without bug reports: it
leaves the records of the verdict, or throws; only when it reports twice does
it throw with a bug report written. -/
theorem record_records (j : Judgment) {s : RunState}
    (h : Records run case status finished verdict 0 s.db) :
    ∃ r s' status' finished' verdict' bugs',
      (record run case j).run (handle w faults) s = (r, s') ∧
      Records run case status' finished' verdict' bugs' s'.db ∧
      ((r = .ok () ∧ status' = runStatusOf j.analysis.status ∧ finished' = true ∧
          verdict' = j.analysis.status ∧ bugs' = (if j.analysis.status = .pass then 0 else 1) ∧
          ¬ ReportsTwice faults j.analysis.status) ∨
        ((∃ e, r = .error e) ∧
          ((bugs' = 0 ∧ ¬ ReportsTwice faults j.analysis.status) ∨
            (bugs' = 1 ∧ ReportsTwice faults j.analysis.status)))) := by
  simp only [record, Proc.run_bind, Proc.run_call]
  rw [Prog.bind_ok (handle_now w faults .body s)]
  cases hrun : faults .body .updateRun with
  | some e =>
    have hop : ∀ st t s, handle w faults (.updateRun .body run st t) s = (.error e, s) :=
      fun st t s => handle_fault w faults (.updateRun .body run st t) hrun s
    rw [Prog.bind_error (hop _ _ _)]
    exact ⟨_, _, _, _, _, _, rfl, h, .inr ⟨⟨e, rfl⟩, .inl ⟨rfl, by
      simp [ReportsTwice, LastReadFails, hrun]⟩⟩⟩
  | none =>
  have hop : ∀ st t s, handle w faults (.updateRun .body run st t) s
      = perform w (.updateRun .body run st t) s :=
    fun st t s => handle_perform w faults (.updateRun .body run st t) hrun s
  rw [Prog.bind_ok (hop _ _ _)]
  have h₁ := h.updateRun (runStatusOf j.analysis.status) (w.now (elapsed s.trace))
  cases hcase : faults .body .updateCase with
  | some e =>
    have hop : ∀ st t s, handle w faults (.updateCase .body case st t) s = (.error e, s) :=
      fun st t s => handle_fault w faults (.updateCase .body case st t) hcase s
    rw [Prog.bind_error (hop _ _ _)]
    exact ⟨_, _, _, _, _, _, rfl, h₁, .inr ⟨⟨e, rfl⟩, .inl ⟨rfl, by
      simp [ReportsTwice, LastReadFails, hcase]⟩⟩⟩
  | none =>
  have hop : ∀ st t s, handle w faults (.updateCase .body case st t) s
      = perform w (.updateCase .body case st t) s :=
    fun st t s => handle_perform w faults (.updateCase .body case st t) hcase s
  rw [Prog.bind_ok (hop _ _ _)]
  have h₂ : Records run case (runStatusOf j.analysis.status) true j.analysis.status 0
      (perform w (.updateCase .body case j.analysis.status (some j.durationMs))
        (perform w (.updateRun .body run (runStatusOf j.analysis.status) (w.now (elapsed s.trace)))
          { s with trace := s.trace ++ [.clockRead] }).2).2.db :=
    h₁.updateCase j.analysis.status (some j.durationMs)
  obtain ⟨r, s', bugs, hreport, hrecords, hcases⟩ := report_records w faults j h₂
  refine ⟨r, s', _, _, _, bugs, hreport, hrecords, ?_⟩
  rcases hcases with ⟨hr, hfind, hbugs⟩ | ⟨herror, hbugs⟩
  · exact .inl ⟨hr, rfl, rfl, rfl, hbugs, by simp [ReportsTwice, LastReadFails, hfind]⟩
  · refine .inr ⟨herror, ?_⟩
    split at hbugs
    · rename_i htwice
      exact .inr ⟨hbugs, htwice.1, hrun, hcase, htwice.2⟩
    · rename_i hnot
      exact .inl ⟨hbugs, fun h => hnot ⟨h.1, h.2.2.2⟩⟩

theorem broadcastUpdate_keeps (globalIo : Bool) (site : Site) (run : Id) :
    Keeps recordTables ((broadcastUpdate globalIo site run).run (handle w faults)) :=
  (broadcastUpdate_neutral globalIo site run).keeps (handle_neutral w faults)

/-- The outer `catch` block adds its own bug report to those already there. -/
theorem fail_records (hrecovery : ∀ label, faults .recovery label = none) (globalIo : Bool)
    (screenshotPath : Option String) (message : String) {s : RunState}
    (h : Records run case status finished verdict bugs s.db) :
    Records run case .failed true .fail (bugs + 1)
      ((fail globalIo run case screenshotPath message).run (handle w faults) s).2.db := by
  obtain ⟨s', hrun, hrecords⟩ := recover_records w faults hrecovery screenshotPath message h
  have hkeep := broadcastUpdate_keeps w faults globalIo .recovery run s'
  simp only [fail, Proc.run_bind]
  rw [Prog.bind_ok hrun, Prog.bind_apply]
  cases hb : (broadcastUpdate globalIo .recovery run).run (handle w faults) s' with
  | mk r t =>
  rw [hb] at hkeep
  cases r <;> exact hrecords.of_tables hkeep

end

/-! ## The verdict -/

/-- The loop's usages are written, the analyzer answers `pass` and its usage is
written. -/
def Approved (w : World) (faults : Faults) (a : Artifacts) (tr : Trace) : Prop :=
  (∀ k < a.usages.length, faults .body (.createUsage .testPlanner k) = none) ∧
    faults .body .analyzeResults = none ∧ faults .body (.createUsage .resultAnalyzer 0) = none ∧
    ∃ result, (analyzeResults w a.toEvidence tr).1 = .ok result ∧ result.1.status = .pass

/-- The agent loop returns, and what follows it is approved. -/
def Accepted (w : World) (faults : Faults) (run : Id) (instruction url : String) (tr : Trace) :
    Prop :=
  faults .body .executeTestAutonomous = none ∧
    ∃ a tr', agentCall w run instruction url tr = (.ok a, tr') ∧
      Approved w faults a (tr' ++ [.clockRead])

section

variable (w : World) (faults : Faults) (run : Id)

theorem recordUsages_returns (us : List UsageEntry) : ∀ (k : Nat) (s : RunState),
    ∃ r s', (recordUsages run k us).run (handle w faults) s = (r, s') ∧ s'.trace = s.trace ∧
      (r = .ok () ↔
        ∀ i ∈ List.range' k us.length, faults .body (.createUsage .testPlanner i) = none) := by
  induction us with
  | nil => intro k s; exact ⟨_, s, rfl, rfl, by simp⟩
  | cons u us ih =>
    intro k s
    simp only [recordUsages, Proc.run_bind, Proc.run_call, List.length_cons, List.range'_succ,
      List.forall_mem_cons]
    cases hfault : faults .body (.createUsage .testPlanner k) with
    | some e =>
      have hop := handle_fault w faults (.createUsage .body run .testPlanner k u) hfault s
      rw [Prog.bind_error hop]
      exact ⟨_, s, rfl, rfl, by simp⟩
    | none =>
      have hop := handle_perform w faults (.createUsage .body run .testPlanner k u) hfault s
      obtain ⟨r, s', hrun, htrace, hr⟩ := ih (k + 1)
        (perform w (.createUsage .body run .testPlanner k u) s).2
      rw [Prog.bind_ok hop]
      exact ⟨r, s', hrun, htrace, by simpa using hr⟩

theorem analyze_approved (a : Artifacts) (s : RunState) :
    (concluded ((analyze run a).run (handle w faults) s).1).status = .pass
      ↔ Approved w faults a s.trace := by
  obtain ⟨r, t, hrows, htrace, hr⟩ := recordUsages_returns w faults run a.usages 0 s
  have hrange : r = .ok () ↔
      ∀ k < a.usages.length, faults .body (.createUsage .testPlanner k) = none := by
    simpa [← List.range_eq_range'] using hr
  rw [Approved, ← hrange]
  simp only [analyze, Proc.run_bind, Proc.run_call]
  cases r with
  | error e =>
    rw [Prog.bind_error hrows]
    simp [concluded, inconclusiveAnalysis]
  | ok _ =>
  rw [Prog.bind_ok hrows]
  cases hanalyze : faults .body .analyzeResults with
  | some e =>
    rw [Prog.bind_error (handle_fault w faults (.analyzeResults .body a.toEvidence) hanalyze t)]
    simp [concluded, inconclusiveAnalysis]
  | none =>
  have hop := handle_analyzeResults w hanalyze a.toEvidence htrace
  cases hresult : (analyzeResults w a.toEvidence s.trace).1 with
  | error e =>
    rw [hresult] at hop
    rw [Prog.bind_error hop]
    simp [concluded, inconclusiveAnalysis]
  | ok result =>
  rw [hresult] at hop
  rw [Prog.bind_ok hop]
  cases husage : faults .body (.createUsage .resultAnalyzer 0) with
  | some e =>
    have hlast := handle_fault w faults (.createUsage .body run .resultAnalyzer 0 result.2) husage
      { t with trace := (analyzeResults w a.toEvidence s.trace).2 }
    rw [Prog.bind_error hlast]
    simp [concluded, inconclusiveAnalysis]
  | none =>
    have hlast := handle_perform w faults (.createUsage .body run .resultAnalyzer 0 result.2)
      husage { t with trace := (analyzeResults w a.toEvidence s.trace).2 }
    rw [Prog.bind_ok hlast]
    cases hstatus : result.1.status <;>
      simp [concluded, Analysis.ofResult, hstatus]

/-- An autonomous run always gets a verdict. -/
theorem judge_accepted {instruction : String} (url : String)
    (hauto : instruction ≠ smokeInstruction) (s : RunState) :
    ∃ j t, (judge run instruction url).run (handle w faults) s = (.ok j, t) ∧
      (j.analysis.status = .pass ↔ Accepted w faults run instruction url s.trace) := by
  cases hloop : faults .body .executeTestAutonomous with
  | some e =>
    have hcall : (handle w faults (.executeTestAutonomous .body run instruction url)).attempt
        { s with trace := s.trace ++ [.clockRead] }
        = (.ok (.error e), { s with trace := s.trace ++ [.clockRead] }) := by
      rw [Prog.attempt,
        handle_fault w faults (.executeTestAutonomous .body run instruction url) hloop]
    rw [judge, if_neg hauto]
    simp only [Proc.run_bind, Proc.run_call, Proc.run_attempt]
    rw [Prog.bind_ok (handle_now w faults .body s), Prog.bind_ok hcall]
    exact ⟨_, _, rfl, by simp [Accepted, hloop, inconclusiveAnalysis]⟩
  | none =>
    have hjudge := judge_autonomous w faults run url hauto hloop s
    cases hcall : agentCall w run instruction url s.trace with
    | mk r tr =>
    rw [hcall] at hjudge
    cases r with
    | error e =>
      obtain ⟨durationMs, hjudge⟩ := hjudge
      exact ⟨_, _, hjudge, by simp [Accepted, hcall, inconclusiveAnalysis]⟩
    | ok a =>
      obtain ⟨result, t, tail, durationMs, ht, -, hjudge⟩ := hjudge
      have happroved := analyze_approved w faults run a { s with trace := tr ++ [.clockRead] }
      rw [ht] at happroved
      exact ⟨_, _, hjudge, by simpa [Accepted, hloop, hcall] using happroved⟩

/-- A smoke test that does not throw passes. -/
theorem judge_smoke (url : String) (s : RunState) {j : Judgment}
    (h : ((judge run smokeInstruction url).run (handle w faults) s).1 = .ok j) :
    j.analysis.status = .pass := by
  rw [judge, if_pos rfl] at h
  simp only [Proc.run_bind, Proc.run_call] at h
  rw [Prog.bind_ok (handle_now w faults .body s)] at h
  cases hexec : handle w faults (.executeTest .body run url)
    { s with trace := s.trace ++ [.clockRead] } with
  | mk r t =>
  cases r with
  | error e =>
    rw [Prog.bind_error hexec] at h
    cases h
  | ok artifacts =>
    rw [Prog.bind_ok hexec] at h
    cases h
    rfl

/-- When the judgment of a run is reported twice. -/
theorem judge_reportsTwice (instruction url : String) (s : RunState) :
    (∃ j, ((judge run instruction url).run (handle w faults) s).1 = .ok j ∧
        ReportsTwice faults j.analysis.status) ↔
      instruction ≠ smokeInstruction ∧ ¬ Accepted w faults run instruction url s.trace ∧
        LastReadFails faults := by
  by_cases hsmoke : instruction = smokeInstruction
  · subst hsmoke
    simp only [ne_eq, not_true_eq_false, false_and, iff_false]
    rintro ⟨j, hj, hnot, -⟩
    exact hnot (judge_smoke w faults run url s hj)
  · obtain ⟨j, t, hj, hpass⟩ := judge_accepted w faults run url hsmoke s
    simp [hj, hsmoke, ReportsTwice, hpass]

end

/-! ## The whole call -/

theorem Records.terminal_iff {run case : Id} {status : RunStatus} {verdict : CaseStatus}
    {bugs : Nat} {db : Db} (h : Records run case status true verdict bugs db)
    (hstatus : status = .passed ∨ status = .failed) (hverdict : verdict = .pass ↔ status = .passed) :
    Terminal run case db ↔ bugs = if status = .passed then 0 else 1 := by
  constructor
  · rintro ⟨status', verdict', bugs', h', -, -, hbugs⟩
    obtain ⟨rfl, -, -, rfl⟩ := h.unique h'
    exact hbugs
  · intro hbugs
    exact ⟨status, verdict, bugs, h, hstatus, hverdict, hbugs⟩

section

variable (w : World) (faults : Faults) (globalIo : Bool)

/-- The `try` statement, from a fresh run and case. -/
theorem runBody_terminal_iff (hrecovery : ∀ label, faults .recovery label = none) {run case : Id}
    (instruction url : String) {s : RunState}
    (h : Records run case .running false .pending 0 s.db) :
    Terminal run case ((runBody globalIo run case instruction url).run (handle w faults) s).2.db ↔
      ¬ ∃ j, ((judge run instruction url).run (handle w faults) s).1 = .ok j ∧
        ReportsTwice faults j.analysis.status := by
  -- judging writes no record, so both halves start from the fresh ones
  have hjudge := (judge_neutral run instruction url).keeps (handle_neutral w faults) s
  cases hj : (judge run instruction url).run (handle w faults) s with
  | mk r t =>
  rw [hj] at hjudge
  have hrecords : Records run case .running false .pending 0 t.db := h.of_tables hjudge
  have hattempt : (judge run instruction url).attempt.run (handle w faults) s = (.ok r, t) := by
    rw [Proc.run_attempt, Prog.attempt, hj]
  rw [runBody, Proc.run_bind, Prog.bind_ok hattempt]
  cases r with
  | error e =>
    have hfail := fail_records w faults hrecovery globalIo none e hrecords
    simp only [reduceCtorEq, false_and, exists_false, not_false_eq_true, iff_true]
    exact (hfail.terminal_iff (.inr rfl) (by simp)).mpr rfl
  | ok j =>
    simp only [Except.ok.injEq, exists_eq_left', Proc.run_tryCatch]
    obtain ⟨r, t', status, finished, verdict, bugs, hrun, hafter, hcases⟩ :=
      record_records w faults j hrecords
    rcases hcases with ⟨rfl, rfl, rfl, rfl, rfl, hnot⟩ | ⟨⟨e, rfl⟩, hbugs⟩
    · rw [Prog.tryCatch_ok hrun]
      simp only [hnot, not_false_eq_true, iff_true]
      refine (hafter.terminal_iff ?_ ?_).mpr ?_ <;>
        cases j.analysis.status <;> simp [runStatusOf]
    · -- the `catch` block adds one report to what `record` had written
      rw [Prog.tryCatch_error hrun]
      have hfail := fail_records w faults hrecovery globalIo j.screenshotPath e hafter
      rw [hfail.terminal_iff (.inr rfl) (by simp)]
      rcases hbugs with ⟨rfl, hnot⟩ | ⟨rfl, htwice⟩
      · simp [hnot]
      · simp [htwice]

theorem broadcastUpdate_returns {site : Site} (hsite : ∀ label, faults site label = none) (run : Id)
    (s : RunState) :
    ∃ s', (broadcastUpdate globalIo site run).run (handle w faults) s = (.ok (), s') ∧
      s'.db = s.db ∧ s'.trace = s.trace := by
  cases globalIo with
  | false => exact ⟨s, rfl, rfl, rfl⟩
  | true =>
    have hfind := handle_perform w faults (.findRun site run) (hsite _) s
    simp only [broadcastUpdate, if_true, Proc.run_bind, Proc.run_call]
    rw [Prog.bind_ok hfind]
    cases s.db.findRun run with
    | none => exact ⟨s, rfl, rfl, rfl⟩
    | some row =>
      exact ⟨_, handle_perform w faults (.emitUpdate site row) rfl s, rfl, rfl⟩

/-- What comes before the `try` statement creates a run and a case. -/
theorem setup_returns (hsetup : ∀ label, faults .setup label = none) (featureId : Id)
    (instruction : String) (db : Db) (trace : Trace) :
    ∃ s run case, (setup globalIo featureId instruction).run (handle w faults) (.start db trace)
        = (.ok (db.testRuns.length, db.testCases.length), s) ∧
      s.trace = trace ∧ s.db = (db.createRun run).createCase case ∧
      run.status = .running ∧ run.finishedAt = none ∧ case.status = .pending := by
  have hrun := handle_perform w faults (.createRun .setup featureId) (hsetup _) (.start db trace)
  have hcase := handle_perform w faults (.createCase .setup db.testRuns.length instruction)
    (hsetup _) (perform w (.createRun .setup featureId) (.start db trace)).2
  obtain ⟨s, hbroadcast, hdb, htrace⟩ := broadcastUpdate_returns w faults globalIo hsetup
    db.testRuns.length (perform w (.createCase .setup db.testRuns.length instruction)
      (perform w (.createRun .setup featureId) (.start db trace)).2).2
  refine ⟨s, _, _, ?_, htrace, hdb, rfl, rfl, rfl⟩
  simp only [setup, Proc.run_bind, Proc.run_call]
  apply (Prog.bind_ok hrun).trans
  apply (Prog.bind_ok hcase).trans
  exact Prog.bind_ok hbroadcast

/-- The records that exist when the `try` statement starts. -/
theorem created_records {run : TestRun} {case : TestCase} (hrun : run.status = .running)
    (hfinished : run.finishedAt = none) (hcase : case.status = .pending) {db : Db}
    (hbugs : ∀ b ∈ db.bugReports, b.testCaseId < db.testCases.length) :
    Records db.testRuns.length db.testCases.length .running false .pending 0
      ((db.createRun run).createCase case) := by
  refine ⟨⟨run, List.getElem?_concat_length, hrun, by rw [hfinished]; rfl⟩,
    ⟨case, List.getElem?_concat_length, hcase⟩, ?_⟩
  -- no earlier bug report can belong to the new case
  refine List.length_eq_zero_iff.mpr (List.filter_eq_nil_iff.mpr ?_)
  intro b hb
  simpa using Nat.ne_of_lt (hbugs b hb)

/-- **Consistent terminal records.** Whatever throws inside the `try` block, the
records agree in the end, unless an autonomous run is not accepted, the three
writes of its records go through and the usage query after them throws: then
there are two bug reports. -/
theorem terminal_records_iff (hout : ∀ site label, site ≠ .body → faults site label = none)
    (featureId : Id) (instruction url : String) {db : Db}
    (hbugs : ∀ b ∈ db.bugReports, b.testCaseId < db.testCases.length) (trace : Trace) :
    Terminal db.testRuns.length db.testCases.length
        (execute w faults globalIo featureId instruction url (.start db trace)).2.db ↔
      ¬ (instruction ≠ smokeInstruction ∧
        ¬ Accepted w faults db.testRuns.length instruction url trace ∧ LastReadFails faults) := by
  obtain ⟨s, run, case, hsetup, htrace, hdb, hrun, hfinished, hcase⟩ := setup_returns w faults
    globalIo (fun label => hout .setup label (by decide)) featureId instruction db trace
  have hrecords : Records db.testRuns.length db.testCases.length .running false .pending 0 s.db := by
    rw [hdb]
    exact created_records hrun hfinished hcase hbugs
  have hbody := runBody_terminal_iff w faults globalIo
    (fun label => hout .recovery label (by decide)) instruction url hrecords
  rw [judge_reportsTwice, htrace] at hbody
  -- the broadcast after the `try` statement changes no record
  rw [← hbody, execute, runTestExecution, Proc.run_bind, Prog.bind_ok hsetup]
  simp only [Proc.run_bind, Prog.bind_apply]
  cases hb : (runBody globalIo db.testRuns.length db.testCases.length instruction url).run
    (handle w faults) s with
  | mk r t =>
  cases r with
  | error e => rfl
  | ok _ =>
    obtain ⟨t', htail, hdb, -⟩ := broadcastUpdate_returns w faults globalIo
      (fun label => hout .tail label (by decide)) db.testRuns.length t
    simp only [htail, hdb]

end

/-! The calm world has no result analyzer that answers in JSON, so its verdict
is inconclusive and the run gets a bug report. -/

/-- The update of the test case in the `try` block throws. -/
def caseUpdateFails : Faults := fun site label =>
  if site = .body ∧ label = .updateCase then some "Timed out" else none

/-- The run was updated before, and the `catch` block writes what is missing. -/
theorem case_update_terminal_records :
    (execute .calm caseUpdateFails false 0 "Log in" "http://localhost:3000"
        (.start .empty [])).1 = .error "Timed out" ∧
      Terminal 0 0 (execute .calm caseUpdateFails false 0 "Log in" "http://localhost:3000"
        (.start .empty [])).2.db := by
  have hbugs : ∀ b ∈ Db.empty.bugReports, b.testCaseId < Db.empty.testCases.length :=
    fun _ h => nomatch h
  have hout : ∀ site label, site ≠ .body → caseUpdateFails site label = none :=
    fun site label hsite => if_neg fun h => hsite h.1
  refine ⟨by decide +kernel, (terminal_records_iff .calm caseUpdateFails false hout 0 "Log in"
    "http://localhost:3000" hbugs []).mpr ?_⟩
  rintro ⟨-, -, hlate⟩
  exact absurd hlate.2.1 (by decide)

/-- The query of the usage summary throws. -/
def usageQueryFails : Faults := fun site label =>
  if site = .body ∧ label = .findUsages then some "Timed out" else none

theorem usage_query_fault_reports_twice :
    ¬ Terminal 0 0 (execute .calm usageQueryFails false 0 "Log in" "http://localhost:3000"
      (.start .empty [])).2.db := by
  have hbugs : ((execute .calm usageQueryFails false 0 "Log in" "http://localhost:3000"
      (.start .empty [])).2.db.bugsOf 0).length = 2 := by
    decide +kernel
  rintro ⟨status, verdict, bugs, hrecords, -, -, hcount⟩
  have htwo : bugs = 2 := hrecords.bugCount.symm.trans hbugs
  rw [htwo] at hcount
  split at hcount <;> cases hcount

end AutoQa.Orchestrator

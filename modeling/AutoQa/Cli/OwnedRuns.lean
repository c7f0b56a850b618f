import AutoQa.Cli.Owners

/-!
# The runner owns its run

`runTestExecution` and the commands, callbacks and jobs around it, judged by the
discipline of owners.
-/

namespace AutoQa.Cli

open AutoQa.Base AutoQa.LlmAgents AutoQa.Db AutoQa.Orchestrator Ledger

section

variable {env : Nat → DeployEnv} {strict : Bool} {g : Option Id} {d : DeployState}

/-! ## The runner -/

/-- A run of the runner with one of these statuses. -/
def RunnerRow (statuses : List RunStatus) (r : TestRun) : Prop :=
  r.triggeredBy = some "auto" ∧ r.status ∈ statuses

/-- What the runner does with its run while it judges it. -/
def JudgingOf (run : Id) {ρ : Type} : RunOp ρ → Prop
  | .createUsage _ run' .. => run' = run
  | .now .. | .executeTest .. | .executeTestAutonomous .. | .analyzeResults .. => True
  | _ => False

theorem judge_only_of (run : Id) (instruction url : String) :
    (judge run instruction url).Only (JudgingOf run) := by
  have husages : ∀ us k, (recordUsages run k us).Only (JudgingOf run) := by
    intro us
    induction us with
    | nil => intro k; exact .pure _
    | cons u us ih => intro k; exact .bind (.call rfl) (fun _ => ih (k + 1))
  have hanalyze : ∀ artifacts, (analyze run artifacts).Only (JudgingOf run) := fun artifacts =>
    .bind (husages artifacts.usages 0) (fun _ =>
      .bind (.call trivial) (fun _ => .bind (.call rfl) (fun _ => .pure _)))
  unfold judge
  split
  · exact .bind (.call trivial) (fun _ => .bind (.call trivial) (fun _ =>
      .bind (.call trivial) (fun _ => .pure _)))
  · refine .bind (.call trivial) (fun start => .bind (.attempt (.call trivial)) (fun r => ?_))
    split
    · exact .bind (.call trivial) (fun _ => .pure _)
    · refine .bind (.call trivial) (fun stop => .bind (.attempt (hanalyze _)) (fun r => ?_))
      split
      · exact .pure _
      · exact .bind (.call trivial) (fun _ => .pure _)

/-- Judging a run leaves its row as it is. -/
theorem judging_kept {run : Id} {case : Option Id} {P : TestRun → Prop} {α : Type} {p : RunProc α}
    (honly : p.Only (JudgingOf run)) (h : Owning run case P g d) :
    Kept env strict runnerOp (fun _ g t => Owning run case P g t) p g d := by
  refine Safe.of_only honly (fun g s t hrely hK => hK.rely hrely) ?_ h
  intro ρ op hop g t hK
  cases op with
  | createUsage site run' role k u =>
    obtain rfl : run' = run := hop
    refine hK.kept ?_ (fun _ _ => rfl) (fun _ _ => rfl)
    intro e t ht hsound hholds
    refine .createUsage hsound ⟨?_, by simp⟩
    intro r hr
    cases hr
    exact hholds _ ht.own
  | now site => exact hK.quiet fun _ _ => rfl
  | executeTest site run url => exact hK.quiet fun _ _ => rfl
  | executeTestAutonomous site run instruction url => exact hK.quiet fun _ _ => rfl
  | analyzeResults site evidence => exact hK.quiet fun _ _ => rfl
  | _ => exact hop.elim

/-- Broadcasting reads. -/
theorem broadcast_kept {run : Id} {case : Option Id} {P : TestRun → Prop} (globalIo : Bool)
    (site : Site) (run' : Id) (h : Owning run case P g d) :
    Kept env strict runnerOp (fun _ g t => Owning run case P g t)
      (broadcastUpdate globalIo site run') g d := by
  refine Safe.of_only (broadcastUpdate_only globalIo site run')
    (fun g s t hrely hK => hK.rely hrely) ?_ h
  intro ρ op hop g t hK
  cases op with
  | findRun site run => exact hK.quiet fun _ _ => rfl
  | emitUpdate site row => exact hK.quiet fun _ _ => rfl
  | _ => exact hop.elim

/-- The update of a run that has not been given up. -/
theorem updateRun_kept {run : Id} {case : Option Id} {statuses : List RunStatus}
    {site : Site} {status : RunStatus} {finishedAt : Nat}
    (h : Owning run case (RunnerRow statuses) g d)
    (hover : status = .passed ∨ status = .failed)
    (hleads : ∀ old ∈ statuses, Leads old status) :
    Kept env strict runnerOp (Ways (fun _ g t => Owning run case (RunnerRow [status]) g t)
        fun g t => Owning run case (RunnerRow statuses) g t ∧
          (strict = true → (site == .recovery) = false))
      (Proc.call (.updateRun site run status finishedAt)) g d := by
  refine h.update (fun r => { r with status, finishedAt := some finishedAt }) (fun _ _ => rfl)
    (fun _ _ => ⟨(), rfl⟩) (fun _ => rfl) ?_ (fun _ _ _ => rfl) ?_ ?_
  · intro r hr
    exact hleads r.status hr.2
  · intro r _
    rcases hover with rfl | rfl <;> exact ⟨by simp, by simp⟩
  · intro r hr
    exact ⟨hr.1, List.mem_singleton.mpr rfl⟩

theorem updateCase_kept {run case : Id} {P : TestRun → Prop} {site : Site} {status : CaseStatus}
    {durationMs : Option Nat} (h : Owning run (some case) P g d) :
    Kept env strict runnerOp (fun _ g t => Owning run (some case) P g t)
      (Proc.call (.updateCase site case status durationMs)) g d := by
  apply Kept.call
  · intro e t hrely _ _ _
    exact h.rely hrely
  · intro e t hrely hsound _
    have ht := h.rely hrely
    have hmove := Moves.updateCase hsound
      (fun c => { c with status, durationMs := durationMs.or c.durationMs }) (ht.case case rfl)
      (fun _ => rfl) (fun _ => rfl)
    refine ⟨g, ?_, ?_⟩
    · rw [ht.own]
      exact hmove
    · intro u hu _
      refine Owning.rely (d := (performDeploy e (runnerOp (.updateCase site case status
        durationMs)) t).2) ⟨ht.own, ht.row, ?_⟩ hu
      intro c hc
      exact hmove.grows.caseRun (ht.case c hc)

/-- A bug is reported for a run that failed. -/
theorem createBug_kept {run case : Id} {site : Site} {bug : BugReport}
    (h : Owning run (some case) (RunnerRow [.failed]) g d) (hcase : bug.testCaseId = case) :
    Kept env strict runnerOp (fun _ g t => Owning run (some case) (RunnerRow [.failed]) g t)
      (Proc.call (.createBug site bug)) g d := by
  refine h.kept ?_ (fun _ _ => rfl) (fun _ _ => rfl)
  intro e t ht hsound _
  have hrun := ht.case case rfl
  rw [List.getElem?_map, Option.map_eq_some_iff] at hrun
  obtain ⟨c, hc, hsame⟩ := hrun
  obtain ⟨r, hr, -, hfailed⟩ := ht.row
  exact .createBug hsound ⟨c, r, hcase ▸ hc, hsame ▸ hr, List.mem_singleton.mp hfailed⟩

/-- The run is in one of these states, and the process owns it. -/
abbrev RunnerOwns (run case : Id) (statuses : List RunStatus) (g : Option Id) (d : DeployState) :
    Prop :=
  Owning run (some case) (RunnerRow statuses) g d

theorem Owning.widen {run case : Id} {statuses statuses' : List RunStatus}
    (h : RunnerOwns run case statuses g d) (hsub : ∀ status ∈ statuses, status ∈ statuses') :
    RunnerOwns run case statuses' g d :=
  Owning.mono h fun r hr => ⟨hr.1, hsub r.status hr.2⟩

/-- Reading the clock does not throw. -/
theorem now_kept {run : Id} {case : Option Id} {P : TestRun → Prop} {site : Site}
    (h : Owning run case P g d) :
    Kept env strict runnerOp (Ways (fun _ g t => Owning run case P g t) fun _ _ => False)
      (Proc.call (.now site)) g d := by
  refine Kept.quiet (fun _ _ => rfl) (fun e t _ _ hawaited _ => by cases hawaited) ?_
  intro e t u _ _ hrely _
  exact h.rely hrely

/-- All that can become of a run of the runner. -/
abbrev anyStatus : List RunStatus := [.running, .passed, .failed]

/-- Recording the verdict ends the run; if it throws, the run may still be anything. -/
theorem record_kept {run case : Id} (j : Judgment) (h : RunnerOwns run case [.running] g d) :
    Kept env strict runnerOp (Ways (fun _ g t => RunnerOwns run case [.passed, .failed] g t)
      fun g t => RunnerOwns run case anyStatus g t) (record run case j) g d := by
  have hstatus : runStatusOf j.analysis.status = .passed ∨
      runStatusOf j.analysis.status = .failed := by
    unfold runStatusOf
    split
    · exact .inl rfl
    · exact .inr rfl
  have hquery : ∀ g t, RunnerOwns run case [runStatusOf j.analysis.status] g t →
      Kept env strict runnerOp (Ways (fun _ g t => RunnerOwns run case [.passed, .failed] g t)
        fun g t => RunnerOwns run case anyStatus g t)
        (do let _ ← Proc.call (.findUsages .body run); pure ()) g t := by
    intro g t ht
    have hended : ∀ {g t}, RunnerOwns run case [runStatusOf j.analysis.status] g t →
        RunnerOwns run case [.passed, .failed] g t := by
      intro g t ht
      refine ht.widen fun status hs => ?_
      rw [List.mem_singleton.mp hs]
      rcases hstatus with hs | hs <;> simp [hs]
    apply Safe.bind (Owning.quiet ht fun _ _ => rfl)
    · intro _ g t _ _ ht
      exact fun u hu _ _ => (hended ht).rely hu
    · intro e g t _ _ ht
      exact (hended ht).widen (by simp)
  apply Safe.bind (now_kept h)
  · intro finishedAt g t _ _ ht
    apply Safe.bind (updateRun_kept ht ?_ ?_)
    · intro _ g t _ _ ht
      apply Safe.bind (updateCase_kept ht)
      · intro _ g t _ _ ht
        dsimp only
        split
        · exact hquery g t ht
        · rename_i hfail
          have hfailed : runStatusOf j.analysis.status = .failed := if_neg hfail
          rw [hfailed] at ht
          apply Safe.bind (createBug_kept ht rfl)
          · intro _ g t _ _ ht
            exact hquery g t (hfailed ▸ ht)
          · intro e g t _ _ ht
            exact ht.widen (by simp)
      · intro e g t _ _ ht
        refine ht.widen fun status hs => ?_
        rw [List.mem_singleton.mp hs]
        rcases hstatus with hs | hs <;> simp [hs]
    · intro e g t _ _ ht
      exact ht.1.widen (by simp)
    · exact hstatus
    · intro old hold
      rw [List.mem_singleton.mp hold, Leads]
      rcases hstatus with hs | hs <;> simp [hs]
  · intro e g t _ _ hnone
    exact hnone.elim

/-- The `catch` block makes the run a failed one, unless its first update is refused. -/
theorem recover_kept {run case : Id} (screenshotPath : Option String) (message : String)
    (h : RunnerOwns run case anyStatus g d) :
    Kept env strict runnerOp (Ways (fun _ g t => RunnerOwns run case [.failed] g t)
        fun g t => RunnerOwns run case anyStatus g t ∧ (strict = true → Settled g t.ledger))
      (recover run case screenshotPath message) g d := by
  have hfailed : ∀ {g t}, RunnerOwns run case [.failed] g t →
      RunnerOwns run case anyStatus g t ∧ (strict = true → Settled g t.ledger) := by
    intro g t ht
    refine ⟨ht.widen (by simp), fun _ => Owning.settled ht ?_⟩
    intro r hr
    rw [List.mem_singleton.mp hr.2]
    simp
  apply Safe.bind (now_kept h)
  · intro finishedAt g t _ _ ht
    apply Safe.bind (updateRun_kept ht (.inr rfl) ?_)
    · intro _ g t _ _ ht
      apply Safe.bind (updateCase_kept ht)
      · intro _ g t _ _ ht
        apply (createBug_kept ht rfl).mono
        intro r g t _ _ ht
        cases r with
        | ok a => exact ht
        | error e => exact hfailed ht
      · intro e g t _ _ ht
        exact hfailed ht
    · intro e g t _ _ ht
      refine ⟨ht.1, fun hstrict => ?_⟩
      cases ht.2 hstrict
    · intro old hold
      simp only [List.mem_cons, List.not_mem_nil, or_false] at hold
      rcases hold with rfl | rfl | rfl
      · exact RunStatus.noConfusion
      · exact .inr rfl
      · rfl
  · intro e g t _ _ hnone
    exact hnone.elim

theorem fail_kept {run case : Id} (globalIo : Bool) (screenshotPath : Option String)
    (message : String) (h : RunnerOwns run case anyStatus g d) :
    Kept env strict runnerOp (Ways (fun _ _ _ => False) fun g t =>
        strict = true → Settled g t.ledger)
      (fail globalIo run case screenshotPath message) g d := by
  have hover : ∀ {g t}, RunnerOwns run case [.failed] g t → Settled g t.ledger := by
    intro g t ht
    refine Owning.settled ht fun r hr => ?_
    rw [List.mem_singleton.mp hr.2]
    simp
  apply Safe.bind (recover_kept screenshotPath message h)
  · intro _ g t _ _ ht
    apply Safe.bind (broadcast_kept globalIo .recovery run ht)
    · intro _ g t _ _ ht
      exact fun u hu _ _ _ => hover (ht.rely hu)
    · intro e g t _ _ ht _
      exact hover ht
  · intro e g t _ _ ht
    exact ht.2

theorem runBody_kept {run case : Id} (globalIo : Bool) (instruction url : String)
    (h : RunnerOwns run case [.running] g d) :
    Kept env strict runnerOp (Ways (fun _ g t => RunnerOwns run case [.passed, .failed] g t)
        fun g t => strict = true → Settled g t.ledger)
      (runBody globalIo run case instruction url) g d := by
  have hjudge : Kept env strict runnerOp
      (Ways (fun _ g t => RunnerOwns run case [.running] g t) fun _ _ => False)
      (judge run instruction url).attempt g d :=
    Safe.attempt (judging_kept (judge_only_of run instruction url) h)
  apply Safe.bind hjudge
  · intro r g t _ _ ht
    cases r with
    | error e =>
      apply (fail_kept globalIo none e (ht.widen (by simp))).mono
      intro r g t _ _ hr
      cases r with
      | ok a => exact hr.elim
      | error e => exact hr
    | ok j =>
      apply Safe.tryCatch (record_kept j ht)
      · intro a g t _ _ ht
        exact ht
      · intro e g t _ _ ht
        apply (fail_kept globalIo j.screenshotPath e ht).mono
        intro r g t _ _ hr
        cases r with
        | ok a => exact hr.elim
        | error e => exact hr
  · intro e g t _ _ hnone
    exact hnone.elim

/-- A run that has just been created. -/
structure Opened (run featureId : Id) (instruction : String) (g : Option Id) (d : DeployState) :
    Prop where
  own : g = some run
  row : ∃ r, d.ledger.store.testRuns[run]? = some r ∧ RunnerRow [.running] r ∧
    r.featureId = featureId
  cases : d.ledger.store.casesOf run = []
  text : d.ledger.Describes featureId instruction

/-- The number of a new run occurs in no test case. -/
theorem casesOf_length {l : Ledger} (h : l.Sound) :
    l.store.casesOf l.store.testRuns.length = [] := by
  show findMany (fun c : TestCase => c.testRunId == l.store.testRuns.length) l.store.testCases = []
  refine findMany_eq_nil.mpr fun c hc => ?_
  obtain ⟨r, hr, -⟩ := h.cases c hc
  exact beq_false_of_ne (Nat.ne_of_lt (List.getElem?_eq_some_iff.mp hr).1)

theorem createRun_kept {featureId : Id} {instruction : String}
    (htext : d.ledger.Describes featureId instruction) (hg : Settled g d.ledger) :
    Kept env strict runnerOp (Ways (fun run g t => Opened run featureId instruction g t)
        fun g t => Settled g t.ledger)
      (Proc.call (.createRun .setup featureId)) g d := by
  apply Kept.call
  · intro e t hrely _ _ _
    exact settled_rely hg hrely
  · intro e t hrely hsound _
    have htext' := hrely.1.describes htext
    have hfeature : featureId < t.ledger.store.features.length := by
      simpa using (List.getElem?_eq_some_iff.mp htext').1
    refine ⟨some t.ledger.store.testRuns.length,
      Moves.createRun hsound ⟨hfeature, by simp, fun _ => by simp⟩ (settled_rely hg hrely), ?_⟩
    intro u hu _
    obtain ⟨hgrows, huntouched⟩ := hu
    obtain ⟨hrow, hcases⟩ := huntouched _ rfl
    refine ⟨rfl, ⟨_, hrow.trans List.getElem?_concat_length, ⟨rfl, by simp⟩, rfl⟩, ?_,
      hgrows.describes htext'⟩
    exact hcases.trans (casesOf_length hsound)

theorem Opened.rely {run featureId : Id} {instruction : String} {d' : DeployState}
    (h : Opened run featureId instruction g d) (hrely : owners.rely g d d') :
    Opened run featureId instruction g d' := by
  obtain ⟨hgrows, huntouched⟩ := hrely
  obtain ⟨hrow, hcases⟩ := huntouched run h.own
  refine ⟨h.own, ?_, hcases.trans h.cases, hgrows.describes h.text⟩
  rw [hrow]
  exact h.row

theorem createCase_kept {run featureId : Id} {instruction : String}
    (h : Opened run featureId instruction g d) :
    Kept env strict runnerOp (Ways (fun case g t => RunnerOwns run case [.running] g t)
        fun _ _ => strict = true → False)
      (Proc.call (.createCase .setup run instruction)) g d := by
  apply Kept.call
  · intro e t _ _ _ hvital hstrict
    cases hvital hstrict
  · intro e t hrely hsound _
    have ht := h.rely hrely
    obtain ⟨r, hr, hstatus, hfeature⟩ := ht.row
    have hmove := Moves.createCase hsound (c := ⟨run, "ui", instruction, .pending, none⟩)
      ⟨r, hr, hfeature ▸ ht.text⟩ ht.cases
    refine ⟨g, ?_, ?_⟩
    · rw [ht.own]
      exact hmove
    · intro u hu _
      refine Owning.rely (d := (performDeploy e (runnerOp (.createCase .setup run instruction))
        t).2) ⟨ht.own, ⟨r, hr, hstatus⟩, ?_⟩ hu
      intro c hc
      cases hc
      show (List.map TestCase.testRunId (t.ledger.store.testCases ++ [_]))[_]? = _
      simp [DeployState.ledger]

/-- The broadcast before the `try` block is vital. -/
theorem broadcast_setup_kept {run case : Id} {statuses : List RunStatus} (globalIo : Bool)
    (h : RunnerOwns run case statuses g d) :
    Kept env strict runnerOp (Ways (fun _ g t => RunnerOwns run case statuses g t)
        fun _ _ => strict = true → False)
      (broadcastUpdate globalIo .setup run) g d := by
  have hread : Kept env strict runnerOp (Ways (fun _ g t => RunnerOwns run case statuses g t)
      fun _ _ => strict = true → False) (Proc.call (.findRun .setup run)) g d := by
    refine Kept.quiet (fun _ _ => rfl) ?_ (fun e t u _ _ hrely _ => h.rely hrely)
    intro e t _ _ _ hvital hstrict
    cases hvital hstrict
  unfold broadcastUpdate
  split
  · apply Safe.bind hread
    · intro row g t _ _ ht
      cases row with
      | none => exact fun u hu _ _ => ht.rely hu
      | some row =>
        refine Kept.quiet (fun _ _ => rfl) (fun e t _ _ hawaited _ => ?_)
          (fun e t u _ _ hrely _ => ht.rely hrely)
        cases hawaited
    · intro e g t _ _ ht
      exact ht
  · exact fun u hu _ _ => h.rely hu

theorem setup_kept {featureId : Id} {instruction : String} (globalIo : Bool)
    (htext : d.ledger.Describes featureId instruction) (hg : Settled g d.ledger) :
    Kept env strict runnerOp (Ways (fun rc g t => RunnerOwns rc.1 rc.2 [.running] g t)
        fun g t => strict = true → Settled g t.ledger)
      (setup globalIo featureId instruction) g d := by
  apply Safe.bind (createRun_kept htext hg)
  · intro run g t _ _ ht
    apply Safe.bind (createCase_kept ht)
    · intro case g t _ _ ht
      apply Safe.bind (broadcast_setup_kept globalIo ht)
      · intro _ g t _ _ ht
        exact fun u hu _ _ => ht.rely hu
      · intro e g t _ _ hstrict h
        exact (hstrict h).elim
    · intro e g t _ _ hstrict h
      exact (hstrict h).elim
  · intro e g t _ _ ht _
    exact ht

/-- A call of the runner for a feature, with its description. -/
theorem runTestExecution_kept {featureId : Id} {instruction : String} (globalIo : Bool)
    (url : String) (htext : d.ledger.Describes featureId instruction) (hg : Settled g d.ledger) :
    Kept env strict runnerOp (Ended strict)
      (runTestExecution globalIo featureId instruction url) g d := by
  have hstrict : ∀ {α : Type} {e : String} {g : Option Id} {t : DeployState},
      (strict = true → Settled g t.ledger) → Ended strict (.error e : Except String α) g t := by
    rintro α e g t h (hs | ⟨a, ha⟩)
    · exact h hs
    · cases ha
  have hover : ∀ {run case : Id} {g : Option Id} {t : DeployState},
      RunnerOwns run case [.passed, .failed] g t → Settled g t.ledger := by
    intro run case g t ht
    refine Owning.settled ht fun r hr hrunning => ?_
    have hmem := hr.2
    rw [hrunning] at hmem
    simp at hmem
  apply Safe.bind (setup_kept globalIo htext hg)
  · intro rc g t _ _ ht
    apply Safe.bind (runBody_kept globalIo instruction url ht)
    · intro _ g t _ _ ht
      apply (broadcast_kept globalIo .tail rc.1 ht).mono
      intro r g t _ _ ht
      exact .of_settled (hover ht)
    · intro e g t _ _ ht
      exact hstrict ht
  · intro e g t _ _ ht
    exact hstrict ht

/-! ## Commands -/

/-- The call is for a feature, with its description. -/
theorem runTest_kept {call : Call} (globalIo : Bool)
    (htext : d.ledger.Describes call.featureId call.instruction) (hg : Settled g d.ledger) :
    Kept env strict DeployOp.sys (Ended strict) (runTest globalIo call) g d := by
  have hcalled : Kept env strict DeployOp.sys (Ways (fun _ g t => Settled g t.ledger ∧
      t.ledger.Describes call.featureId call.instruction) fun _ _ => False)
      (await (.called call)) g d := by
    refine .between hg (fun e t hgrows hsound => Moves.called hsound (hgrows.describes htext))
      (fun _ _ => rfl) (fun e u hawaited _ => by cases hawaited) ?_
    intro e t u hgrows _ hafter hsettled
    exact ⟨hsettled, hafter.describes (hgrows.describes htext)⟩
  apply Safe.bind hcalled
  · intro _ g t _ _ ht
    exact Safe.lift (runTestExecution_kept globalIo call.url ht.2 ht.1)
  · intro e g t _ _ hnone
    exact hnone.elim

/-- Find a project, create one if there is none. -/
def lookUp {O : Type → Type} (find : O (Option (Id × Project))) (create : O Id) : Proc O Id := do
  match ← Proc.call find with
  | some (id, _) => pure id
  | none => Proc.call create

/-- The project that is found or created exists. -/
theorem lookUp_kept {O : Type → Type} {f : {ρ : Type} → O ρ → DeployOp ρ}
    (find : O (Option (Id × Project))) (create : O Id) (cond : Project → Bool) {project : Project}
    (hfind : ∀ e t, performDeploy e (f find) t = (.ok (findFirst cond t.store.projects), t))
    (hcreate : ∀ e t, performDeploy e (f create) t = (.ok t.store.projects.length, { t with
      store := { t.store with projects := t.store.projects ++ [project] } }))
    (hg : Settled g d.ledger) :
    Kept env strict f (Ways (fun id g t => id < t.ledger.store.projects.length ∧
        Settled g t.ledger) fun g t => Settled g t.ledger) (lookUp find create) g d := by
  have hfound : Kept env strict f (Ways (fun found g t => Settled g t.ledger ∧
      ∀ row ∈ found, row.1 < t.ledger.store.projects.length) fun g t => Settled g t.ledger)
      (Proc.call find) g d := by
    refine .query hg (fun e t => by rw [hfind]) (fun e u _ h => h) ?_
    intro e t u _ _ hafter hsettled
    rw [hfind]
    refine ⟨hsettled, fun row hrow => ?_⟩
    have hmem : row ∈ findMany cond t.ledger.store.projects := List.mem_of_head? hrow
    have hid := (mem_findMany.mp hmem).1
    exact Nat.lt_of_lt_of_le (List.getElem?_eq_some_iff.mp hid).1 hafter.projects
  apply Safe.bind hfound
  · intro found g t _ _ ht
    cases found with
    | some row =>
      exact fun u hu _ _ => ⟨Nat.lt_of_lt_of_le (ht.2 row rfl) hu.1.projects, settled_rely ht.1 hu⟩
    | none =>
      refine Kept.between ht.1 ?_ (fun e t => by rw [hcreate]; rfl) (fun e u _ h => h) ?_
      · intro e t _ hsound
        rw [hcreate]
        exact Moves.createProject hsound project
      · intro e t u _ _ hafter hsettled
        rw [hcreate] at hafter ⊢
        refine ⟨Nat.lt_of_lt_of_le ?_ hafter.projects, hsettled⟩
        show t.ledger.store.projects.length < (t.ledger.store.projects ++ [project]).length
        simp
  · intro e g t _ _ ht
    exact ht

theorem firstProject_kept {project : Project} (hg : Settled g d.ledger) :
    Kept env strict DeployOp.sys (Ways (fun id g t => id < t.ledger.store.projects.length ∧
        Settled g t.ledger) fun g t => Settled g t.ledger) (firstProject project) g d :=
  lookUp_kept (SysOp.command .findProject) (SysOp.command (.createProject project)) (fun _ => true)
    (fun _ _ => rfl) (fun _ _ => rfl) hg

/-- A feature that a command creates has the description it is given. -/
theorem createFeature_kept {projectId : Id} (name description : String)
    (hproject : projectId < d.ledger.store.projects.length) (hg : Settled g d.ledger) :
    Kept env strict DeployOp.sys (Ways (fun id g t => t.ledger.Describes id description ∧
        Settled g t.ledger) fun g t => Settled g t.ledger)
      (await (.createFeature (manualFeature projectId name description))) g d := by
  refine .between hg ?_ (fun _ _ => rfl) (fun e u _ h => h) ?_
  · intro e t hgrows hsound
    exact Moves.createFeature hsound (Nat.lt_of_lt_of_le hproject hgrows.projects)
  · intro e t u _ _ hafter hsettled
    refine ⟨hafter.describes ?_, hsettled⟩
    show (List.map Feature.description (t.ledger.store.features ++ [_]))[_]? = _
    simp [DeployState.ledger, manualFeature]

/-- `test` and `smoke` up to what they do with their feature. -/
theorem started_kept (project : Project) (name description : String) (rest : Id → SysProc Unit)
    (hg : Settled g d.ledger)
    (hrest : ∀ id g t, t.ledger.Describes id description → Settled g t.ledger →
      Kept env strict DeployOp.sys (Ended strict) (rest id) g t) :
    Kept env strict DeployOp.sys (Ended strict) (started project name description rest) g d := by
  apply Safe.bind (firstProject_kept hg)
  · intro projectId g t _ _ ht
    apply Safe.bind (createFeature_kept name description ht.1 ht.2)
    · intro id g t _ _ ht
      exact hrest id g t ht.1 ht.2
    · intro e g t _ _ ht
      exact .of_settled ht
  · intro e g t _ _ ht
    exact .of_settled ht

theorem addJob_kept {job : Job} (htext : d.ledger.Describes job.featureId job.instruction)
    (hg : Settled g d.ledger) :
    Kept env strict DeployOp.sys (fun _ g t => Settled g t.ledger) (await (.addJob job)) g d :=
  .between hg (fun _ _ hgrows hsound => Moves.addJob hsound (hgrows.describes htext))
    (fun _ _ => rfl) (fun _ _ _ h => h) fun _ _ _ _ _ _ h => h

/-- The feature is marked as one that is being tested, which is neither its project nor
its description. -/
theorem markTesting_kept {id : Id} (hg : Settled g d.ledger) :
    Kept env strict DeployOp.sys (fun _ g t => Settled g t.ledger) (await (.markTesting id)) g d :=
  .between hg (fun _ _ _ hsound => Moves.updateFeature hsound id (fun _ => rfl) (fun _ => rfl))
    (fun _ _ => rfl) (fun _ _ _ h => h) fun _ _ _ _ _ _ h => h

theorem confirm_kept {id : Id} (hg : Settled g d.ledger) :
    Kept env strict DeployOp.sys (fun _ g t => Settled g t.ledger) (await (.confirm id)) g d :=
  .query hg (fun _ _ => rfl) (fun _ _ _ h => h) fun _ _ _ _ _ _ h => h

theorem reviewFeatures_kept (localUrl : String) (discovered : List (Id × Feature))
    (htexts : ∀ row ∈ discovered, d.ledger.Describes row.1 row.2.description)
    (hg : Settled g d.ledger) :
    Kept env strict DeployOp.sys (Ended strict) (reviewFeatures localUrl discovered) g d := by
  induction discovered generalizing g d with
  | nil => exact fun u hu _ _ => .of_settled (settled_rely hg hu)
  | cons row rest ih =>
    obtain ⟨id, feature⟩ := row
    obtain ⟨htext, hrest⟩ := List.forall_mem_cons.mp htexts
    -- the descriptions are as they were at the query
    have hlater : ∀ {t : DeployState}, Grows d.ledger t.ledger →
        ∀ row ∈ rest, t.ledger.Describes row.1 row.2.description := fun hgrows row hrow =>
      hgrows.describes (hrest row hrow)
    apply Safe.bind (confirm_kept hg).grows
    · intro yes g t _ _ ht
      cases yes with
      | false => exact ih (hlater ht.2) ht.1
      | true =>
        apply Safe.bind (markTesting_kept ht.1).grows
        · intro _ g u _ _ hu
          have hgrows := ht.2.trans hu.2
          apply Safe.bind (runTest_kept false (hgrows.describes htext) hu.1).grows
          · intro a g v _ _ hv
            exact ih (hlater (hgrows.trans hv.2)) (hv.1 (.inr ⟨a, rfl⟩))
          · intro e g v _ _ hv
            exact hv.1
        · intro e g u _ _ hu
          exact .of_settled hu.1
    · intro e g t _ _ ht
      exact .of_settled ht.1

theorem review_kept (hg : Settled g d.ledger) :
    Kept env strict DeployOp.sys (Ended strict) review g d := by
  have hfind : Kept env strict DeployOp.sys (fun _ g t => Settled g t.ledger) (await .findProject)
      g d := .query hg (fun _ _ => rfl) (fun _ _ _ h => h) fun _ _ _ _ _ _ h => h
  apply Safe.bind hfind
  · intro found g t _ _ ht
    cases found with
    | none => exact fun u hu _ _ => .of_settled (settled_rely ht hu)
    | some row =>
      have hdiscovered : Kept env strict DeployOp.sys (Ways (fun rows g t => Settled g t.ledger ∧
          ∀ row ∈ rows, t.ledger.Describes row.1 row.2.description) fun g t => Settled g t.ledger)
          (await .findDiscovered) g t := by
        refine .query ht (fun _ _ => rfl) (fun e u _ h => h) ?_
        intro e t u _ _ hafter hsettled
        refine ⟨hsettled, fun row hrow => hafter.describes ?_⟩
        obtain ⟨id, feature⟩ := row
        have hid := (mem_findMany.mp hrow).1
        show (t.ledger.store.features.map Feature.description)[id]? = _
        rw [List.getElem?_map]
        exact congrArg (Option.map Feature.description) hid
      apply Safe.bind hdiscovered
      · intro rows g t _ _ ht
        exact reviewFeatures_kept _ rows ht.2 ht.1
      · intro e g t _ _ ht
        exact .of_settled ht
  · intro e g t _ _ ht
    exact .of_settled ht

theorem Command.kept (cwd : String) (command : Command) (hg : Settled g d.ledger) :
    Kept env strict DeployOp.sys (Ended strict) (command.proc cwd) g d := by
  cases command with
  | test instruction url =>
    exact started_kept _ _ _ (fun id => runTest false ⟨id, instruction, url⟩) hg
      fun id g t htext ht => runTest_kept false htext ht
  | smoke url =>
    refine started_kept _ _ _ (fun id => await (.addJob ⟨id, smokeInstruction, url⟩)) hg ?_
    intro id g t htext ht
    exact (addJob_kept htext ht).mono fun _ _ _ _ _ h => .of_settled h
  | review => exact review_kept hg

/-! ## The watcher -/

theorem enqueueChanges_kept {projectId : Id} (localUrl : String)
    (hproject : projectId < d.ledger.store.projects.length) (hg : Settled g d.ledger) :
    Kept env strict (watcherOp projectId) (fun _ g t => Settled g t.ledger)
      (enqueueChanges localUrl) g d := by
  have hdiff : Kept env strict (watcherOp projectId) (fun _ g t => Settled g t.ledger)
      (Proc.call .gitDiff) g d :=
    .query hg (fun _ _ => rfl) (fun _ _ _ h => h) fun _ _ _ _ _ _ h => h
  apply Safe.bind hdiff.grows
  · intro diff g t _ _ ht
    have hanalyze : Kept env strict (watcherOp projectId) (fun _ g t => Settled g t.ledger)
        (Proc.call (.analyzeDiff diff)) g t :=
      .query ht.1 (fun _ _ => rfl) (fun _ _ _ h => h) fun _ _ _ _ _ _ h => h
    apply Safe.bind hanalyze.grows
    · rintro ⟨analysis, usage⟩ g u _ _ hu
      have hproject' := Nat.lt_of_lt_of_le hproject (ht.2.trans hu.2).projects
      have hcreate : Kept env strict (watcherOp projectId) (Ways (fun id g t =>
          t.ledger.Describes id analysis.description ∧ Settled g t.ledger)
          fun g t => Settled g t.ledger) (Proc.call (.createFeature analysis)) g u := by
        refine .between hu.1 ?_ (fun _ _ => rfl) (fun e u _ h => h) ?_
        · intro e t hgrows hsound
          exact Moves.createFeature hsound (Nat.lt_of_lt_of_le hproject' hgrows.projects)
        · intro e t u _ _ hafter hsettled
          refine ⟨hafter.describes ?_, hsettled⟩
          show (List.map Feature.description (t.ledger.store.features ++ [_]))[_]? = _
          simp [DeployState.ledger, discoveredFeature]
      apply Safe.bind hcreate
      · intro featureId g v _ _ hv
        have husage : Kept env strict (watcherOp projectId) (fun _ g t => Settled g t.ledger)
            (Proc.call (.createUsage featureId usage)) g v := by
          refine .between hv.2 ?_ (fun _ _ => rfl) (fun _ _ _ h => h) fun _ _ _ _ _ _ h => h
          intro e t hgrows hsound
          refine Moves.createUsage hsound ⟨by simp [diffUsageRow], ?_⟩
          intro feature hfeature
          cases hfeature
          simpa using (List.getElem?_eq_some_iff.mp (hgrows.describes hv.1)).1
        apply Safe.bind husage.grows
        · intro _ g w _ _ hw
          exact Kept.between hw.1
            (fun _ _ hgrows hsound => Moves.addJob hsound (hgrows.describes (hw.2.describes hv.1)))
            (fun _ _ => rfl) (fun _ _ _ h => h) fun _ _ _ _ _ _ h => h
        · intro e g w _ _ hw
          exact hw.1
      · intro e g v _ _ hv
        exact hv
    · intro e g u _ _ hu
      exact hu.1
  · intro e g t _ _ ht
    exact ht.1

/-- The callback of a watcher whose project exists. -/
theorem timerCallback_kept {projectId : Id} (localUrl : String)
    (hproject : projectId < d.ledger.store.projects.length) (hg : Settled g d.ledger) :
    Kept env strict (watcherOp projectId) (Ended strict) (timerCallback localUrl) g d := by
  have hchanges : Kept env strict (watcherOp projectId) (fun _ g t => Settled g t.ledger)
      (processChanges localUrl) g d := by
    have hstatus : Kept env strict (watcherOp projectId) (fun _ g t => Settled g t.ledger)
        (Proc.call .gitStatus) g d :=
      .query hg (fun _ _ => rfl) (fun _ _ _ h => h) fun _ _ _ _ _ _ h => h
    apply Safe.bind hstatus.grows
    · intro files g t _ _ ht
      dsimp only
      split
      · exact fun u hu _ _ => settled_rely ht.1 hu
      · exact enqueueChanges_kept localUrl (Nat.lt_of_lt_of_le hproject ht.2.projects) ht.1
    · intro e g t _ _ ht
      exact ht.1
  have hattempt : Kept env strict (watcherOp projectId) (fun _ g t => Settled g t.ledger)
      (processChanges localUrl).attempt g d := Safe.attempt hchanges
  apply Safe.bind hattempt
  · intro _ g t _ _ ht
    exact Kept.query ht (fun _ _ => rfl) (fun _ _ _ h => .of_settled h)
      fun _ _ _ _ _ _ h => .of_settled h
  · intro e g t _ _ ht
    exact .of_settled ht

theorem findOrCreate_kept {f : {ρ : Type} → ProjectOp ρ → DeployOp ρ}
    (hf : ∀ {ρ : Type} (op : ProjectOp ρ) e t,
      performDeploy e (f op) t = onSys (onStore (onProjects (answerProject op))) t)
    (project : Project) (hg : Settled g d.ledger) :
    Kept env strict f (Ways (fun id g t => id < t.ledger.store.projects.length ∧
        Settled g t.ledger) fun g t => Settled g t.ledger) (findOrCreate project) g d :=
  lookUp_kept (ProjectOp.findFirst project.repoPath) (ProjectOp.create project)
    (atPath project.repoPath) (fun e t => hf _ e t) (fun e t => hf _ e t) hg

/-- `startWatcher` sets up watchers of projects that exist. -/
theorem startWatcher_kept (repoPath localUrl : String) (hg : Settled g d.ledger) :
    Kept env strict (fun o => o) (Ended strict) (startWatcher repoPath localUrl) g d := by
  have hrepo : Kept env strict (fun o => o) (fun _ g t => Settled g t.ledger)
      (Proc.call (.cli (.checkIsRepo repoPath))) g d :=
    .query hg (fun _ _ => rfl) (fun _ _ _ h => h) fun _ _ _ _ _ _ h => h
  apply Safe.bind hrepo
  · intro isRepo g t _ _ ht
    cases isRepo with
    | true =>
      apply Safe.bind (Safe.lift (findOrCreate_kept (fun _ _ _ => rfl) _ ht))
      · intro projectId g t _ _ ht
        refine Kept.between ht.2 ?_ (fun _ _ => rfl) (fun _ _ _ h => .of_settled h)
          fun _ _ _ _ _ _ h => .of_settled h
        intro e t hgrows hsound
        exact Moves.watch hsound (Nat.lt_of_lt_of_le ht.1 hgrows.projects)
      · intro e g t _ _ ht
        exact .of_settled ht
    | false => exact fun u hu _ _ => .of_settled (settled_rely ht hu)
  · intro e g t _ _ ht
    exact .of_settled ht

end

end AutoQa.Cli

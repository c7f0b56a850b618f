import AutoQa.LlmAgents.Accounting
import AutoQa.Orchestrator.RunnerRecords

/-!
# The tokens of a run

A run keeps two books: the responses that arrive on its trace and the LLMUsage
rows that name it. The rows are written from what the agent loop and the result
analyzer return, so a response is missing from them if its agent threw or if a
chain went on past it. The database's own operations are taken to succeed here.
-/

namespace AutoQa.Orchestrator

open AutoQa.Base AutoQa.LlmAgents AutoQa.Db AutoQa.TestExecutor

def never : Faults := fun _ _ => none

theorem handle_never (w : World) {ρ : Type} (op : RunOp ρ) : handle w never op = perform w op := by
  funext s
  exact handle_perform w never op (by cases op <;> rfl) s

/-- Prompt and completion tokens of a row. -/
def rowTokens (u : LLMUsage) : ℕ × ℕ := (u.promptTokens, u.completionTokens)

/-- What the usage rows of a run add up to. -/
def recordedTokens (run : Id) (db : Db) : ℕ × ℕ := ((db.usagesOf run).map rowTokens).sum

/-- What the responses of a trace add up to. -/
def receivedTokens (es : Trace) : ℕ × ℕ := ((receivedUsages es).map Usage.tokens).sum

theorem receivedTokens_append (es fs : Trace) :
    receivedTokens (es ++ fs) = receivedTokens es + receivedTokens fs := by
  simp [receivedTokens, receivedUsages_append]

/-- Between two states the run's rows grow by `recorded` tokens, and responses of
`received` tokens arrive. -/
def Moves (run : Id) (recorded received : ℕ × ℕ) (s s' : RunState) : Prop :=
  recordedTokens run s'.db = recordedTokens run s.db + recorded ∧
    ∃ es, s'.trace = s.trace ++ es ∧ receivedTokens es = received

namespace Moves

variable {run : Id} {a b c d : ℕ × ℕ} {s t u : RunState}

theorem refl (s : RunState) : Moves run 0 0 s s := ⟨by simp, [], by simp, rfl⟩

theorem trans (h : Moves run a b s t) (h' : Moves run c d t u) :
    Moves run (a + c) (b + d) s u := by
  obtain ⟨hrows, es, htrace, hes⟩ := h
  obtain ⟨hrows', fs, htrace', hfs⟩ := h'
  refine ⟨by rw [hrows', hrows, add_assoc], es ++ fs, ?_, ?_⟩
  · rw [htrace', htrace, List.append_assoc]
  · rw [receivedTokens_append, hes, hfs]

theorem trans_still (h : Moves run a b s t) (h' : Moves run 0 0 t u) : Moves run a b s u := by
  simpa using h.trans h'

end Moves

/-! ## Operations without tokens -/

/-- The operations that neither reach an agent nor write a usage row. -/
def Quiet {ρ : Type} : RunOp ρ → Prop
  | .executeTestAutonomous .. | .analyzeResults .. | .createUsage .. => False
  | _ => True

/-- The events that the runner causes outside the agents. -/
inductive Idle : Event → Prop where
  | clockRead : Idle .clockRead
  | browser (op : BrowserOp) (reply : Except String Unit) : Idle (.browser op reply)

theorem browser_emits (w : World) (op : BrowserOp) : Emits Idle (browser w op) :=
  interact_emits _ _ (.browser op)

theorem runSteps_emits (w : World) (url : String) (steps : List Step) :
    Emits Idle (runSteps w url steps) := by
  induction steps with
  | nil => exact .pure _
  | cons step steps ih =>
    rw [runSteps]
    dsimp only
    split
    · exact .bind (browser_emits w _) (fun _ => ih)
    · exact ih

/-- The deterministic executor talks to its browser only. -/
theorem executeTest_emits (w : World) (testRunId url : String) (steps : List Step) :
    Emits Idle (executeTest w testRunId url steps) := by
  have hsteps : Emits Idle
      (Prog.tryCatch (do runSteps w url steps; pure none) fun e => pure (some e)) :=
    .tryCatch (.bind (runSteps_emits w url steps) (fun _ => .pure _)) (fun _ => .pure _)
  refine .bind (browser_emits w _) (fun _ => .bind (browser_emits w _) (fun _ =>
    .bind (browser_emits w _) (fun _ => .bind (browser_emits w _) (fun _ =>
    .bind hsteps (fun error => .bind (browser_emits w _) (fun _ =>
    .bind (browser_emits w _) (fun _ => ?_)))))))
  refine .bind (Logs.get fun _ => by simp) (fun time => .bind (browser_emits w _) (fun _ =>
    .bind (browser_emits w _) (fun _ => ?_)))
  split
  · exact .bind (browser_emits w _) (fun _ => .pure _)
  · exact .pure _

/-- No usage row is written and only idle events happen. -/
def Rests (s s' : RunState) : Prop :=
  s'.db.llmUsages = s.db.llmUsages ∧ ∃ es, s'.trace = s.trace ++ es ∧ ∀ e ∈ es, Idle e

theorem Rests.refl (s : RunState) : Rests s s := ⟨rfl, [], by simp, by simp⟩

theorem Rests.trans {s t u : RunState} (h : Rests s t) (h' : Rests t u) : Rests s u := by
  obtain ⟨hrows, es, htrace, hes⟩ := h
  obtain ⟨hrows', fs, htrace', hfs⟩ := h'
  refine ⟨hrows'.trans hrows, es ++ fs, by rw [htrace', htrace, List.append_assoc], ?_⟩
  intro e he
  rcases List.mem_append.mp he with he | he
  · exact hes e he
  · exact hfs e he

theorem perform_quiet (w : World) {ρ : Type} (op : RunOp ρ) (h : Quiet op) (s : RunState) :
    Rests s (perform w op s).2 := by
  cases op with
  | now => exact ⟨rfl, [.clockRead], rfl, by simpa using Idle.clockRead⟩
  | executeTest _ runId url => exact ⟨rfl, executeTest_emits w _ _ _ s.trace⟩
  | executeTestAutonomous | analyzeResults | createUsage => exact h.elim
  | _ => exact ⟨rfl, [], by simp [perform, creates, RunState.onDb, Prog.bind_apply], by simp⟩

theorem Quiet.rests {w : World} {faults : Faults} {α : Type} {p : RunProc α} (hp : p.Only Quiet)
    (s : RunState) : Rests s (p.run (handle w faults) s).2 := by
  refine hp.rel (T := Rests) .refl .trans ?_ s
  intro ρ op hop s
  exact handle_state w faults op s (P := Rests s) (.refl s) (perform_quiet w op hop s)

theorem receivedUsages_idle {es : Trace} (h : ∀ e ∈ es, Idle e) : receivedUsages es = [] := by
  apply List.filterMap_eq_nil_iff.mpr
  intro e he
  cases h e he <;> rfl

theorem Rests.moves {s s' : RunState} (h : Rests s s') (run : Id) : Moves run 0 0 s s' := by
  obtain ⟨hrows, es, htrace, hes⟩ := h
  refine ⟨by simp [recordedTokens, Db.usagesOf, hrows], es, htrace, ?_⟩
  simp [receivedTokens, receivedUsages_idle hes]

theorem broadcastUpdate_quiet (globalIo : Bool) (site : Site) (run : Id) :
    (broadcastUpdate globalIo site run).Only Quiet :=
  (broadcastUpdate_only globalIo site run).mono fun o ho => by
    cases o <;> trivial

theorem Recording.quiet {ρ : Type} (o : RunOp ρ) (ho : Recording o) : Quiet o := by
  cases o <;> trivial

theorem fail_quiet (globalIo : Bool) (run case : Id) (screenshotPath : Option String)
    (message : String) : (fail globalIo run case screenshotPath message).Only Quiet :=
  .bind ((recover_only run case screenshotPath message).mono Recording.quiet) (fun _ =>
    .bind (broadcastUpdate_quiet _ _ _) (fun _ => .throw _))

/-! ## The agents -/

/-- The tokens of some responses. -/
def usageTokens (us : List Usage) : ℕ × ℕ := (us.map Usage.tokens).sum

theorem usageTokens_eq_zero {us : List Usage} : usageTokens us = 0 ↔ ∀ u ∈ us, u.tokens = 0 := by
  induction us with
  | nil => simp [usageTokens]
  | cons u us ih =>
    have hadd : ∀ a b : ℕ × ℕ, a + b = 0 ↔ a = 0 ∧ b = 0 := by
      intro a b
      simp only [Prod.ext_iff, Prod.fst_add, Prod.snd_add, Prod.fst_zero, Prod.snd_zero]
      omega
    rw [List.forall_mem_cons, ← ih, ← hadd]
    simp [usageTokens]

/-- The responses of an agent's call that its result says nothing of. -/
def lostBy {α : Type} : Except String α → Trace → List Usage
  | .ok _, es => overtaken es
  | .error _, es => receivedUsages es

/-- A returning agent loop hands over the tokens of all responses but the lost ones. -/
theorem agent_tokens {a : Artifacts} {es : Trace} (h : RunCounts (.ok a) es) :
    receivedTokens es
      = (a.usages.map UsageEntry.tokens).sum + usageTokens (lostBy (.ok a : Except String _) es) := by
  rw [h.tokens]
  exact sum_received es Usage.tokens

/-- So does a result analysis that is accepted. -/
theorem analyzer_tokens (w : World) (e : Evidence) :
    Logs (fun r es => ∀ a, r = .ok a →
      receivedTokens es = a.2.tokens + usageTokens (lostBy r es)) (analyzeResults w e) := by
  apply (analyzeResults_logs w e).mono
  rintro r es ⟨body, provider, rfl, hbody, hlast⟩ a rfl
  obtain ⟨lost, u, hbodyUsages, htokens⟩ := hlast a rfl
  have hnone : Event.configRead ∉ body := by
    intro hmem
    obtain ⟨p, -, hsent | ⟨v, hrec, -⟩⟩ := hbody _ hmem
    · cases hsent
    · cases hrec
  have hfates : fates (.analyze e :: .configRead :: body) = lost.map (true, ·) ++ [(false, u)] :=
    fates_turn hnone hbodyUsages
  have hkept : kept (.analyze e :: .configRead :: body) = [u] := by simp [kept, hfates]
  have hsum : receivedTokens (.analyze e :: .configRead :: body) = _ := sum_received _ Usage.tokens
  rw [hsum, hkept, htokens]
  simp [usageTokens, lostBy]

/-- The lost responses of such a run: those of the agent loop, and those of the
analyzer when the loop returned. -/
def lostInRun (w : World) (run : Id) (instruction url : String) (tr : Trace) : List Usage :=
  if instruction = smokeInstruction then [] else
    let agent := agentCall w run instruction url tr
    lostBy agent.1 (agent.2.drop (tr.length + 1)) ++
      match agent.1 with
      | .error _ => []
      | .ok artifacts =>
        let stop := agent.2 ++ [.clockRead]
        let analyzer := analyzeResults w artifacts.toEvidence stop
        lostBy analyzer.1 (analyzer.2.drop stop.length)

/-- The events of the agent loop. -/
theorem agentCall_counts (w : World) (run : Id) (instruction url : String) (tr : Trace) :
    ∃ es, (agentCall w run instruction url tr).2 = tr ++ [.clockRead] ++ es ∧
      (agentCall w run instruction url tr).2.drop (tr.length + 1) = es ∧
      RunCounts (agentCall w run instruction url tr).1 es := by
  obtain ⟨es, hes, hcounts⟩ := executeTestAutonomous_counts w (toString run) instruction url none
    (tr ++ [.clockRead])
  refine ⟨es, hes, ?_, hcounts⟩
  rw [agentCall, hes]
  exact List.drop_left' (by simp)

theorem createUsage_moves (w : World) (run : Id) (role : UsageRole) (k : Nat) (u : UsageEntry)
    (s : RunState) :
    Moves run u.tokens 0 s (perform w (.createUsage .body run role k u) s).2 := by
  refine ⟨?_, [], by simp [perform, RunState.onDb], rfl⟩
  simp [perform, RunState.onDb, recordedTokens, Db.usagesOf, Db.createUsage, rowTokens,
    UsageEntry.tokens]

theorem recordUsages_moves (w : World) (run : Id) (us : List UsageEntry) : ∀ (k : Nat) (s : RunState),
    ∃ s', (recordUsages run k us).run (handle w never) s = (.ok (), s') ∧ s'.trace = s.trace ∧
      Moves run (us.map UsageEntry.tokens).sum 0 s s' := by
  induction us with
  | nil => intro k s; exact ⟨s, rfl, rfl, .refl s⟩
  | cons u us ih =>
    intro k s
    obtain ⟨s', hrest, htrace, hmoves⟩ := ih (k + 1)
      (perform w (.createUsage .body run .testPlanner k u) s).2
    refine ⟨s', ?_, htrace, ?_⟩
    · simp only [recordUsages, Proc.run_bind, Proc.run_call, handle_never]
      exact hrest
    · simpa using (createUsage_moves w run .testPlanner k u s).trans hmoves

/-- The part of the `try` block after the agent loop returned records the loop's
usages and those of an accepted analysis. -/
theorem analyze_moves (w : World) (run : Id) (a : Artifacts) (s : RunState) :
    ∃ recorded received,
      Moves run ((a.usages.map UsageEntry.tokens).sum + recorded) received s
        ((analyze run a).run (handle w never) s).2 ∧
      received = recorded + usageTokens (lostBy (analyzeResults w a.toEvidence s.trace).1
        ((analyzeResults w a.toEvidence s.trace).2.drop s.trace.length)) := by
  obtain ⟨t, hrows, htrace, hmoves⟩ := recordUsages_moves w run a.usages 0 s
  obtain ⟨es, hes, htokens⟩ := analyzer_tokens w a.toEvidence s.trace
  have hdrop : (analyzeResults w a.toEvidence s.trace).2.drop s.trace.length = es := by
    rw [hes, List.drop_left]
  have hcall : perform w (.analyzeResults .body a.toEvidence) t
      = ((analyzeResults w a.toEvidence s.trace).1, { t with trace := s.trace ++ es }) := by
    rw [← hes, ← htrace]
    rfl
  have harrived : Moves run 0 (receivedTokens es) t { t with trace := s.trace ++ es } :=
    ⟨(add_zero _).symm, es, by rw [htrace], rfl⟩
  simp only [analyze, Proc.run_bind, Proc.run_call, handle_never]
  rw [Prog.bind_ok hrows, hdrop]
  cases hr : (analyzeResults w a.toEvidence s.trace).1 with
  | error e =>
    rw [hr] at hcall
    rw [Prog.bind_error hcall]
    -- the analysis was rejected: its tokens arrived, and no row names them
    exact ⟨0, receivedTokens es, by simpa using hmoves.trans harrived, by simp [lostBy]; rfl⟩
  | ok result =>
    rw [hr] at hcall
    rw [Prog.bind_ok hcall]
    have hrow := createUsage_moves w run .resultAnalyzer 0 result.2
      { t with trace := s.trace ++ es }
    have htotal := (hmoves.trans harrived).trans hrow
    simp only [add_zero, zero_add] at htotal
    exact ⟨result.2.tokens, receivedTokens es, htotal, by simpa only [hr] using htokens result hr⟩

/-- **Step of the books.** What the first half of the `try` block receives is
what it records and what it loses. -/
theorem judge_moves (w : World) (run : Id) (instruction url : String) (s : RunState) :
    ∃ recorded received,
      Moves run recorded received s ((judge run instruction url).run (handle w never) s).2 ∧
      received = recorded + usageTokens (lostInRun w run instruction url s.trace) := by
  by_cases hsmoke : instruction = smokeInstruction
  · have hquiet : (judge run instruction url).Only Quiet := by
      rw [judge, if_pos hsmoke]
      exact .bind (.call trivial) (fun _ => .bind (.call trivial) (fun _ =>
        .bind (.call trivial) (fun _ => .pure _)))
    exact ⟨0, 0, (Quiet.rests hquiet s).moves run, by simp [lostInRun, hsmoke, usageTokens]⟩
  have hclock : ∀ (t : RunState) tail, (tail = [] ∨ tail = [Event.clockRead]) →
      Moves run 0 0 t { t with trace := t.trace ++ tail } := by
    rintro t tail (rfl | rfl)
    · exact ⟨(add_zero _).symm, [], rfl, rfl⟩
    · exact ⟨(add_zero _).symm, _, rfl, rfl⟩
  have hjudge := judge_autonomous w never run url hsmoke rfl s
  obtain ⟨es, hes, hdrop, hcounts⟩ := agentCall_counts w run instruction url s.trace
  cases hcall : agentCall w run instruction url s.trace with
  | mk r tr =>
  rw [hcall] at hjudge hes hdrop hcounts
  have harrived : Moves run 0 (receivedTokens es) s { s with trace := tr ++ [.clockRead] } :=
    ⟨(add_zero _).symm, [.clockRead] ++ es ++ [.clockRead], by simp [show tr = _ from hes], by
      simp [receivedTokens, receivedUsages]⟩
  simp only [lostInRun, if_neg hsmoke, hcall, hdrop]
  cases r with
  | error e =>
    obtain ⟨durationMs, hjudge⟩ := hjudge
    refine ⟨0, receivedTokens es, by rw [hjudge]; exact harrived, ?_⟩
    simp [lostBy, usageTokens, receivedTokens]
  | ok a =>
    obtain ⟨result, t, tail, durationMs, ht, htail, hjudge⟩ := hjudge
    obtain ⟨recorded, received, hmoves, hreceived⟩ := analyze_moves w run a
      { s with trace := tr ++ [.clockRead] }
    rw [ht] at hmoves
    -- agent loop, analysis, and the clock readings around them
    have htotal := (harrived.trans hmoves).trans_still (hclock t tail htail)
    rw [zero_add] at htotal
    refine ⟨_, _, by rw [hjudge]; exact htotal, ?_⟩
    rw [agent_tokens hcounts, hreceived, add_add_add_comm, usageTokens, usageTokens, usageTokens,
      List.map_append, List.sum_append]

/-- What follows the first half of the `try` block writes records only. -/
theorem runBody_rests (w : World) (faults : Faults) (globalIo : Bool) (run case : Id)
    (instruction url : String) (s : RunState) :
    Rests ((judge run instruction url).run (handle w faults) s).2
      ((runBody globalIo run case instruction url).run (handle w faults) s).2 := by
  cases hj : (judge run instruction url).run (handle w faults) s with
  | mk r t =>
  have hattempt : (judge run instruction url).attempt.run (handle w faults) s = (.ok r, t) := by
    rw [Proc.run_attempt, Prog.attempt, hj]
  rw [runBody, Proc.run_bind, Prog.bind_ok hattempt]
  cases r with
  | error e => exact Quiet.rests (fail_quiet globalIo run case none e) t
  | ok j =>
    exact Quiet.rests (.tryCatch ((record_only run case j).mono Recording.quiet)
      (fail_quiet globalIo run case _)) t

/-- A call up to the end of its first half, and from there on. -/
theorem execute_rests (w : World) {faults : Faults} (hsetup : ∀ label, faults .setup label = none)
    (globalIo : Bool) (featureId : Id) (instruction url : String) (db : Db) (trace : Trace) :
    ∃ s, s.trace = trace ∧ s.db.llmUsages = db.llmUsages ∧
      Rests ((judge db.testRuns.length instruction url).run (handle w faults) s).2
        (execute w faults globalIo featureId instruction url (.start db trace)).2 := by
  obtain ⟨s, run, case, hstart, htrace, hdb, -, -, -⟩ := setup_returns w faults globalIo
    hsetup featureId instruction db trace
  have hbody := runBody_rests w faults globalIo db.testRuns.length db.testCases.length instruction
    url s
  refine ⟨s, htrace, by rw [hdb]; rfl, ?_⟩
  rw [execute, runTestExecution, Proc.run_bind, Prog.bind_ok hstart]
  simp only [Proc.run_bind, Prog.bind_apply]
  cases hb : (runBody globalIo db.testRuns.length db.testCases.length instruction url).run
    (handle w faults) s with
  | mk r t =>
  rw [hb] at hbody
  cases r with
  -- the outer `catch` block rethrows: nothing is broadcast after it
  | error e => exact hbody
  | ok _ => exact hbody.trans (Quiet.rests (broadcastUpdate_quiet globalIo .tail _) t)

/-- The trace of a call, without what was there before it. -/
def callTrace (w : World) (faults : Faults) (globalIo : Bool) (featureId : Id)
    (instruction url : String) (db : Db) (trace : Trace) : Trace :=
  (execute w faults globalIo featureId instruction url (.start db trace)).2.trace.drop trace.length

/-- A new run has no usage rows. -/
theorem recordedTokens_new {db : Db}
    (husages : ∀ u ∈ db.llmUsages, ∀ run, u.testRunId = some run → run < db.testRuns.length) :
    recordedTokens db.testRuns.length db = 0 := by
  have hnone : db.usagesOf db.testRuns.length = [] := by
    apply List.filter_eq_nil_iff.mpr
    intro u hu hrun
    exact absurd (husages u hu _ (by simpa using hrun)) (Nat.lt_irrefl _)
  simp [recordedTokens, hnone]

/-- **Every token burned is recorded** exactly when the run loses no response
that cost tokens. -/
theorem tokens_recorded_iff (w : World) (globalIo : Bool) (featureId : Id) (instruction url : String)
    {db : Db} (husages : ∀ u ∈ db.llmUsages, ∀ run, u.testRunId = some run → run < db.testRuns.length)
    (trace : Trace) :
    recordedTokens db.testRuns.length
        (execute w never globalIo featureId instruction url (.start db trace)).2.db
        = receivedTokens (callTrace w never globalIo featureId instruction url db trace) ↔
      ∀ u ∈ lostInRun w db.testRuns.length instruction url trace, u.tokens = 0 := by
  obtain ⟨s, htrace, hdb, hrests⟩ := execute_rests w (show ∀ label, never .setup label = none from
    fun _ => rfl) globalIo featureId instruction url db trace
  obtain ⟨recorded, received, hmoves, hreceived⟩ := judge_moves w db.testRuns.length instruction url s
  have hnew : recordedTokens db.testRuns.length s.db = 0 := by
    rw [← recordedTokens_new husages]
    simp [recordedTokens, Db.usagesOf, hdb]
  obtain ⟨hrows, es, hes, hsum⟩ := hmoves.trans_still (hrests.moves _)
  rw [callTrace, hes, htrace, List.drop_left, hrows, hnew, zero_add, hsum, hreceived, htrace,
    left_eq_add, usageTokens_eq_zero]

/-- The calm world, with a vendor that refuses the result analyzer's requests. -/
def unjudgedWorld : World :=
  { World.calm with
    gemini := fun t payload =>
      if payload.responseSchema.isSome then .error "429 Too Many Requests"
      else World.calm.gemini t payload }

theorem unjudgedWorld_tokens_recorded :
    recordedTokens 0 (execute unjudgedWorld never false 0 "Log in" "http://localhost:3000"
        (.start .empty [])).2.db
      = receivedTokens (callTrace unjudgedWorld never false 0 "Log in" "http://localhost:3000" .empty []) ∧
    receivedTokens (callTrace unjudgedWorld never false 0 "Log in" "http://localhost:3000" .empty [])
      = (1000, 100) := by
  have husages : ∀ u ∈ Db.empty.llmUsages, ∀ run, u.testRunId = some run →
      run < Db.empty.testRuns.length := fun _ h => nomatch h
  have hlost : ∀ u ∈ lostInRun unjudgedWorld 0 "Log in" "http://localhost:3000" [], u.tokens = 0 := by
    decide +kernel
  exact ⟨(tokens_recorded_iff unjudgedWorld false 0 "Log in" "http://localhost:3000" husages []).mpr
    hlost, by decide +kernel⟩

/-- The calm world's answer to the result analyzer is no JSON: it is rejected, the
run fails, and the tokens of the answer are not recorded. -/
theorem calm_tokens_lost :
    (execute .calm never false 0 "Log in" "http://localhost:3000"
        (.start .empty [])).2.db.runStatus 0 = some .failed ∧
    recordedTokens 0 (execute .calm never false 0 "Log in" "http://localhost:3000"
        (.start .empty [])).2.db
      ≠ receivedTokens (callTrace .calm never false 0 "Log in" "http://localhost:3000" .empty []) := by
  decide +kernel

end AutoQa.Orchestrator

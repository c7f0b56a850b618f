import AutoQa.Base.Credit
import AutoQa.Cli.Deployment
import AutoQa.Orchestrator.RunnerUsage

/-!
# What is charged was received

The usage rows of the database against the responses of the vendors, over a whole
deployment. A response is earned when it arrives, a row spends its tokens; what a
process has received and not yet recorded is its credit.
-/

namespace AutoQa.Cli

open AutoQa.Base AutoQa.LlmAgents AutoQa.Db AutoQa.Orchestrator

/-! ## Books over a deployment -/

section Pays

variable {M : Type} [AddCommMonoid M] {B : Books DeployState M} {env : Nat → DeployEnv}
  {O : Type → Type} {f : {ρ : Type} → O ρ → DeployOp ρ} {ρ : Type}

/-- The books do not look at the time. -/
def Timeless (B : Books DeployState M) : Prop := ∀ d n, B.Enters 0 0 d { d with steps := n }

/-- An operation is refused or performed, and the time between does not matter. -/
theorem Timeless.answered (h : Timeless B) (op : DeployOp ρ) (d : DeployState) :
    (∃ e, (answerDeploy env op d).1 = .error e ∧ B.Enters 0 0 d (answerDeploy env op d).2) ∨
    ∃ d', B.Enters 0 0 d d' ∧ answerDeploy env op d = performDeploy (env d.steps) op d' := by
  rcases answerDeploy_cases env op d with ⟨e, -, hanswer⟩ | ⟨-, hanswer⟩
  · rw [hanswer]
    exact .inl ⟨e, rfl, h d _⟩
  · exact .inr ⟨_, h d _, hanswer⟩

variable [PartialOrder M] [IsOrderedAddMonoid M] [CanonicallyOrderedAdd M]

/-- `p`, whose operations are operations of the deployment, spends no more than `c` and
what it earns. -/
abbrev Pays (B : Books DeployState M) (env : Nat → DeployEnv) {O : Type → Type}
    (f : {ρ : Type} → O ρ → DeployOp ρ) {α : Type} (Q : Except String α → M) (p : Proc O α)
    (c : M) : Prop :=
  Affords B (fun o => answerDeploy env (f o)) Q p c

variable {c : M}

/-- One operation, which may be refused. -/
theorem Pays.call (h : Timeless B) {o : O ρ} {Q : Except String ρ → M}
    (hrefused : ∀ e, Q (.error e) ≤ c)
    (hperformed : ∀ e d, ∃ gain cost, B.Enters gain cost d (performDeploy e (f o) d).2 ∧
      cost + Q (performDeploy e (f o) d).1 ≤ c + gain) : Pays B env f Q (Proc.call o) c := by
  apply Affords.call
  intro d
  rcases h.answered (f o) d with ⟨e, hreply, henters⟩ | ⟨d', henters, hanswer⟩
  · refine ⟨0, 0, henters, ?_⟩
    rw [hreply, zero_add, add_zero]
    exact hrefused e
  · obtain ⟨gain, cost, henters', hpays⟩ := hperformed (env d.steps) d'
    rw [hanswer]
    exact ⟨gain, cost, by simpa using henters.trans henters', hpays⟩

/-- What spends nothing keeps its credit. -/
theorem Pays.of_only (h : Timeless B) {α : Type} {p : Proc O α}
    (hp : p.Only fun o => ∀ e d, ∃ gain, B.Enters gain 0 d (performDeploy e (f o) d).2) :
    Pays B env f (fun _ => c) p c := by
  refine Affords.of_only (hp.mono fun o ho d => ?_)
  rcases h.answered (f o) d with ⟨e, -, henters⟩ | ⟨d', henters, hanswer⟩
  · exact ⟨0, henters⟩
  · obtain ⟨gain, henters'⟩ := ho (env d.steps) d'
    rw [hanswer]
    exact ⟨gain, by simpa using henters.trans henters'⟩

end Pays

/-! ## The books -/

/-- What all usage rows add up to. -/
def storedTokens (db : Db) : ℕ × ℕ := (db.llmUsages.map rowTokens).sum

def tokenBooks : Books DeployState (ℕ × ℕ) where
  earned d := receivedTokens d.trace
  spent d := storedTokens d.store.toDb

/-- What the usages of an agent's result add up to. -/
def usagesTokens (us : List UsageEntry) : ℕ × ℕ := (us.map UsageEntry.tokens).sum

/-- `p`, whose operations are operations of the deployment, records no more than `c`
and what it receives. -/
abbrev Funded (env : Nat → DeployEnv) {O : Type → Type} (f : {ρ : Type} → O ρ → DeployOp ρ)
    {α : Type} (Q : Except String α → ℕ × ℕ) (p : Proc O α) (c : ℕ × ℕ) : Prop :=
  Pays tokenBooks env f Q p c

/-- No row is written, and responses may arrive. -/
def Arrives (d d' : DeployState) : Prop :=
  d'.store.llmUsages = d.store.llmUsages ∧ ∃ es, d'.trace = d.trace ++ es

theorem Arrives.enters {d d' : DeployState} (h : Arrives d d') :
    ∃ gain, tokenBooks.Enters gain 0 d d' := by
  obtain ⟨hrows, es, htrace⟩ := h
  refine ⟨receivedTokens es, ?_, ?_⟩
  · show receivedTokens d'.trace = _
    rw [htrace, receivedTokens_append]
    rfl
  · show storedTokens d'.store.toDb = _
    rw [storedTokens, hrows, add_zero]
    rfl

/-- The operation writes no usage row. -/
def Unbilled {ρ : Type} (op : DeployOp ρ) : Prop := ∀ e d, Arrives d (performDeploy e op d).2

section

variable {env : Nat → DeployEnv} {O : Type → Type} {f : {ρ : Type} → O ρ → DeployOp ρ}
  {ρ : Type} {c : ℕ × ℕ}

theorem timeless_tokenBooks : Timeless tokenBooks := fun _ _ => ⟨rfl, rfl⟩

/-- What writes no usage row keeps its credit. -/
theorem Funded.of_only {α : Type} {p : Proc O α} (hp : p.Only fun o => Unbilled (f o)) :
    Funded env f (fun _ => c) p c :=
  Pays.of_only timeless_tokenBooks (hp.mono fun _ h e d => (h e d).enters)

/-- An agent: what it returns, it has received. -/
theorem Funded.agent {o : O ρ} {w : ρ → ℕ × ℕ}
    (hperformed : ∀ e d, ∃ es, (performDeploy e (f o) d).2.trace = d.trace ++ es ∧
      (performDeploy e (f o) d).2.store.llmUsages = d.store.llmUsages ∧
      ∀ a, (performDeploy e (f o) d).1 = .ok a → w a ≤ receivedTokens es) :
    Funded env f (owed w) (Proc.call o) c := by
  refine Pays.call timeless_tokenBooks (fun _ => zero_le) fun e d => ?_
  obtain ⟨es, htrace, hrows, hreply⟩ := hperformed e d
  refine ⟨receivedTokens es, 0, ⟨?_, ?_⟩, ?_⟩
  · show receivedTokens (performDeploy e (f o) d).2.trace = _
    rw [htrace, receivedTokens_append]
    rfl
  · show storedTokens (performDeploy e (f o) d).2.store.toDb = _
    rw [storedTokens, hrows, add_zero]
    rfl
  · rw [zero_add]
    cases hr : (performDeploy e (f o) d).1 with
    | error err => exact zero_le
    | ok a => exact (hreply a hr).trans le_add_self

/-- A usage row: its tokens leave the credit. -/
theorem Funded.row {o : O Unit} {tokens : ℕ × ℕ}
    (hperformed : ∀ e d, (performDeploy e (f o) d).2.trace = d.trace ∧
      storedTokens (performDeploy e (f o) d).2.store.toDb
        = storedTokens d.store.toDb + tokens) :
    Funded env f (owed fun _ => c) (Proc.call o) (tokens + c) := by
  refine Pays.call timeless_tokenBooks (fun _ => zero_le) fun e d => ⟨0, tokens, ⟨?_, (hperformed e d).2⟩, ?_⟩
  · show receivedTokens (performDeploy e (f o) d).2.trace = _
    rw [(hperformed e d).1, add_zero]
    rfl
  · rw [add_zero]
    cases (performDeploy e (f o) d).1 with
    | error err => exact add_le_add_right zero_le tokens
    | ok a => exact le_refl _

end

theorem storedTokens_createUsage (u : LLMUsage) (db : Db) :
    storedTokens (Db.createUsage u db) = storedTokens db + rowTokens u := by
  simp [storedTokens, Db.createUsage]

/-! ## What the agents return -/

/-- The tokens of the one response that an analysis is read from have arrived. -/
theorem generateStructured_received {α : Type} (w : World) (provider : LLMProvider)
    (messages : List Message) (responseSchema : Json) (schema : Schema α)
    (validate : Response → Except String Unit) :
    Logs (fun r es => ∀ a, r = .ok a → a.2.tokens ≤ receivedTokens es)
      (generateStructured w provider messages responseSchema schema validate) := by
  apply (generateStructured_logs w provider messages responseSchema schema validate).mono
  rintro r es ⟨-, hlast⟩ a hr
  obtain ⟨lost, hreceived⟩ := hlast a hr
  simp [receivedTokens, hreceived]

theorem analyzeDiff_received (w : World) (diff : String) :
    Logs (fun r es => ∀ a, r = .ok a → a.2.tokens ≤ receivedTokens es) (analyzeDiff w diff) := by
  refine Logs.bind (getRoleProvider_emits w .diffAnalyzer) (fun e es _ a ha => by cases ha) ?_
  intro provider es _
  refine Logs.bind (generateStructured_received w provider _ _ _ _) (fun e fs _ a ha => by cases ha) ?_
  rintro ⟨result, usage⟩ fs hfs
  refine Logs.pure fun a ha => ?_
  cases ha
  rw [List.append_nil, receivedTokens_append]
  exact (hfs _ rfl).trans le_add_self

theorem executeFeatureAudit_received (w : World) (testRunId : String) (feature : AuditFeature)
    (url : String) :
    Logs (fun r es => ∀ a, r = .ok a → usagesTokens a.usages ≤ receivedTokens es)
      (executeFeatureAudit w testRunId feature url none) := by
  refine Logs.bind (getRoleProvider_emits w .testPlanner) (fun e es _ a ha => by cases ha) ?_
  intro provider es _
  refine Logs.bind (isElementSafe_emits w _) (fun e fs _ a ha => by cases ha) ?_
  intro safeCheck fs _
  split
  · refine Logs.bind (executeTestAutonomous_counts w _ _ _ _) (fun e gs _ a ha => by cases ha) ?_
    intro artifacts gs hcounts
    refine Logs.pure fun a ha => ?_
    cases ha
    rw [List.append_nil, receivedTokens_append, receivedTokens_append, agent_tokens hcounts]
    exact le_self_add.trans (le_add_self.trans le_add_self)
  · refine Logs.pure fun a ha => ?_
    cases ha
    exact zero_le

/-! ## The runner -/

section

variable {env : Nat → DeployEnv}

theorem unbilled_of_quiet {ρ : Type} {op : RunOp ρ} (h : Quiet op) :
    Unbilled (runnerOp op) := by
  intro e d
  obtain ⟨hrows, es, htrace, -⟩ :=
    perform_quiet e.agents op h ⟨d.store.toDb, d.trace, d.emitted⟩
  exact ⟨hrows, es, htrace⟩

/-- What the runner does without agents and usage rows. -/
theorem quiet_funded {α : Type} {p : RunProc α} (hp : p.Only Quiet) (c : ℕ × ℕ) :
    Funded env runnerOp (fun _ => c) p c :=
  Funded.of_only (hp.mono fun _ h => unbilled_of_quiet h)

theorem createUsage_funded (run : Id) (role : UsageRole) (k : Nat) (u : UsageEntry) (c : ℕ × ℕ) :
    Funded env runnerOp (owed fun _ => c)
      (Proc.call (.createUsage .body run role k u)) (u.tokens + c) :=
  Funded.row fun _ d => ⟨rfl, storedTokens_createUsage _ d.store.toDb⟩

theorem recordUsages_funded (run : Id) (us : List UsageEntry) : ∀ k : Nat,
    Funded env runnerOp (fun _ => 0) (recordUsages run k us) (usagesTokens us) := by
  induction us with
  | nil => exact fun k => zero_le
  | cons u us ih =>
    intro k
    have hsum : usagesTokens (u :: us) = u.tokens + usagesTokens us := by simp [usagesTokens]
    rw [hsum]
    exact Affords.bind (createUsage_funded run .testPlanner k u _) (fun _ => ih (k + 1))
      fun _ => zero_le

/-- The usages of the loop and of an accepted analysis. -/
theorem analyze_funded (run : Id) (artifacts : Artifacts) :
    Funded env runnerOp (fun _ => 0) (analyze run artifacts)
      (usagesTokens artifacts.usages) := by
  apply Affords.bind (recordUsages_funded run artifacts.usages 0)
  · intro _
    have hanalyze : Funded env runnerOp (owed fun a => a.2.tokens)
        (Proc.call (.analyzeResults .body artifacts.toEvidence)) 0 := by
      refine Funded.agent fun e d => ?_
      obtain ⟨es, hes, htokens⟩ := analyzer_tokens e.agents artifacts.toEvidence d.trace
      refine ⟨es, hes, rfl, fun a ha => ?_⟩
      rw [htokens a ha]
      exact le_self_add
    apply Affords.bind hanalyze
    · intro a
      have hrow : Funded env runnerOp (owed fun _ => 0)
          (Proc.call (.createUsage .body run .resultAnalyzer 0 a.2)) (a.2.tokens + 0) :=
        createUsage_funded run .resultAnalyzer 0 a.2 0
      rw [add_zero] at hrow
      exact Affords.bind hrow (fun _ => zero_le) fun _ => zero_le
    · exact fun _ => zero_le
  · exact fun _ => le_refl 0

theorem now_funded (c : ℕ × ℕ) :
    Funded env runnerOp (fun _ => c) (Proc.call (.now .body)) c := by
  have hquiet : (Proc.call (.now .body) : RunProc Nat).Only Quiet := .call trivial
  exact quiet_funded hquiet c

theorem executeTest_funded (run : Id) (url : String) :
    Funded env runnerOp (fun _ => 0) (Proc.call (.executeTest .body run url)) 0 := by
  have hquiet : (Proc.call (.executeTest .body run url) : RunProc Artifacts).Only Quiet :=
    .call trivial
  exact quiet_funded hquiet 0

theorem judge_funded (run : Id) (instruction url : String) :
    Funded env runnerOp (fun _ => 0) (judge run instruction url) 0 := by
  unfold judge
  split
  · exact Affords.bind (now_funded 0) (fun start => Affords.bind (executeTest_funded run url)
      (fun artifacts => Affords.bind (now_funded 0) (fun _ => le_refl 0) fun _ => le_refl 0)
      fun _ => le_refl 0) fun _ => le_refl 0
  · apply Affords.bind (now_funded 0)
    · intro start
      have hexecute : Funded env runnerOp (owed (owed fun a => usagesTokens a.usages))
          (Proc.call (.executeTestAutonomous .body run instruction url)).attempt 0 := by
        apply Affords.attempt
        refine Funded.agent fun e d => ?_
        obtain ⟨es, hes, hcounts⟩ := executeTestAutonomous_counts e.agents (toString run) instruction
          url none d.trace
        refine ⟨es, hes, rfl, fun a ha => ?_⟩
        have hreply : (executeTestAutonomous e.agents (toString run) instruction url none d.trace).1
            = .ok a := ha
        rw [hreply] at hcounts
        rw [agent_tokens hcounts]
        exact le_self_add
      apply Affords.bind hexecute
      · intro r
        cases r with
        | error e => exact Affords.bind (now_funded 0) (fun _ => le_refl 0) fun _ => le_refl 0
        | ok artifacts =>
          apply Affords.bind (now_funded (usagesTokens artifacts.usages))
          · intro stop
            have hanalyze : Funded env runnerOp (fun _ => 0)
                (analyze run artifacts).attempt (usagesTokens artifacts.usages) :=
              Affords.attempt (analyze_funded run artifacts)
            apply Affords.bind hanalyze
            · intro r
              cases r with
              | ok analysis => exact le_refl 0
              | error e => exact Affords.bind (now_funded 0) (fun _ => le_refl 0) fun _ => le_refl 0
            · exact fun _ => le_refl 0
          · exact fun _ => zero_le
      · exact fun _ => le_refl 0
    · exact fun _ => le_refl 0

theorem runTestExecution_funded (globalIo : Bool) (featureId : Id) (instruction url : String) :
    Funded env runnerOp (fun _ => 0)
      (runTestExecution globalIo featureId instruction url) 0 := by
  have hsetup : (setup globalIo featureId instruction).Only Quiet :=
    .bind (.call trivial) fun run => .bind (.call trivial) fun case =>
      .bind (broadcastUpdate_quiet globalIo .setup run) fun _ => .pure _
  have hbody : ∀ run case, Funded env runnerOp (fun _ => 0)
      (runBody globalIo run case instruction url) 0 := by
    intro run case
    have hjudge : Funded env runnerOp (fun _ => 0) (judge run instruction url).attempt 0 :=
      Affords.attempt (judge_funded run instruction url)
    apply Affords.bind hjudge
    · intro r
      cases r with
      | error e => exact quiet_funded (fail_quiet globalIo run case none e) 0
      | ok j =>
        exact quiet_funded (.tryCatch ((record_only run case j).mono Recording.quiet)
          (fail_quiet globalIo run case _)) 0
    · exact fun _ => le_refl 0
  apply Affords.bind (quiet_funded hsetup 0)
  · rintro ⟨run, case⟩
    exact Affords.bind (hbody run case)
      (fun _ => quiet_funded (broadcastUpdate_quiet globalIo .tail run) 0) fun _ => le_refl 0
  · exact fun _ => le_refl 0

/-! ## Commands -/

/-- The operations of the commands themselves. -/
theorem unbilled_command {ρ : Type} (op : CommandOp ρ) : Unbilled (DeployOp.sys (.command op)) := by
  intro e d
  cases op <;> exact ⟨rfl, [], (List.append_nil _).symm⟩

theorem await_funded {ρ : Type} (op : CommandOp ρ) :
    Funded env DeployOp.sys (fun _ => 0) (await op) 0 :=
  Funded.of_only (.call (unbilled_command op))

theorem runTest_funded (globalIo : Bool) (call : Call) :
    Funded env DeployOp.sys (fun _ => 0) (runTest globalIo call) 0 :=
  Affords.bind (await_funded (.called call))
    (fun _ => Affords.lift (runTestExecution_funded globalIo call.featureId call.instruction call.url))
    fun _ => le_refl 0

theorem started_funded (project : Project) (name description : String) (rest : Id → SysProc Unit)
    (hrest : ∀ id, Funded env DeployOp.sys (fun _ => 0) (rest id) 0) :
    Funded env DeployOp.sys (fun _ => 0) (started project name description rest) 0 := by
  have hproject : Funded env DeployOp.sys (fun _ => 0) (firstProject project) 0 :=
    Funded.of_only (firstProject_only project (unbilled_command _) (unbilled_command _))
  exact Affords.bind hproject (fun id => Affords.bind (await_funded _) hrest fun _ => le_refl 0)
    fun _ => le_refl 0

theorem reviewFeatures_funded (localUrl : String) (discovered : List (Id × Feature)) :
    Funded env DeployOp.sys (fun _ => 0) (reviewFeatures localUrl discovered) 0 := by
  induction discovered with
  | nil => exact le_refl 0
  | cons row rest ih =>
    obtain ⟨id, feature⟩ := row
    apply Affords.bind (await_funded (.confirm id))
    · intro yes
      cases yes with
      | false => exact ih
      | true =>
        exact Affords.bind (await_funded _) (fun _ =>
          Affords.bind (runTest_funded false _) (fun _ => ih) fun _ => le_refl 0) fun _ => le_refl 0
    · exact fun _ => le_refl 0

theorem Command.funded (cwd : String) (command : Command) :
    Funded env DeployOp.sys (fun _ => 0) (command.proc cwd) 0 := by
  cases command with
  | test instruction url =>
    exact started_funded _ _ _ (fun id => runTest false ⟨id, instruction, url⟩)
      fun id => runTest_funded false _
  | smoke url =>
    exact started_funded _ _ _ (fun id => await (.addJob ⟨id, smokeInstruction, url⟩))
      fun id => await_funded _
  | review =>
    apply Affords.bind (await_funded .findProject)
    · intro found
      cases found with
      | none => exact le_refl 0
      | some row =>
        exact Affords.bind (await_funded _) (fun rows => reviewFeatures_funded _ rows)
          fun _ => le_refl 0
    · exact fun _ => le_refl 0

/-! ## The watcher -/

theorem timerCallback_funded (projectId : Id) (localUrl : String) :
    Funded env (watcherOp projectId) (fun _ => 0) (timerCallback localUrl) 0 := by
  have hquiet : ∀ {ρ : Type} {op : WatchOp ρ} (c : ℕ × ℕ),
      Unbilled (watcherOp projectId op) →
      Funded env (watcherOp projectId) (fun _ => c) (Proc.call op) c :=
    fun c h => Funded.of_only (.call h)
  have hstill : ∀ {d d' : DeployState}, d'.store.llmUsages = d.store.llmUsages →
      d'.trace = d.trace → Arrives d d' := fun hrows htrace =>
    ⟨hrows, [], by rw [htrace, List.append_nil]⟩
  have henqueue : Funded env (watcherOp projectId) (fun _ => 0)
      (enqueueChanges localUrl) 0 := by
    apply Affords.bind (hquiet 0 fun _ _ => hstill rfl rfl)
    · intro diff
      have hanalyze : Funded env (watcherOp projectId) (owed fun a => a.2.tokens)
          (Proc.call (.analyzeDiff diff)) 0 := by
        refine Funded.agent fun e d => ?_
        obtain ⟨es, hes, htokens⟩ := analyzeDiff_received e.agents diff d.trace
        exact ⟨es, hes, rfl, htokens⟩
      apply Affords.bind hanalyze
      · rintro ⟨analysis, usage⟩
        apply Affords.bind (hquiet usage.tokens fun _ _ => hstill rfl rfl)
        · intro featureId
          have hrow : Funded env (watcherOp projectId) (owed fun _ => 0)
              (Proc.call (.createUsage featureId usage)) (usage.tokens + 0) :=
            Funded.row fun _ d => ⟨rfl, storedTokens_createUsage _ d.store.toDb⟩
          rw [add_zero] at hrow
          exact Affords.bind hrow (fun _ => hquiet 0 fun _ _ => hstill rfl rfl) fun _ => le_refl 0
        · exact fun _ => zero_le
      · exact fun _ => le_refl 0
    · exact fun _ => le_refl 0
  have hchanges : Funded env (watcherOp projectId) (fun _ => 0)
      (processChanges localUrl) 0 := by
    apply Affords.bind (hquiet 0 fun _ _ => hstill rfl rfl)
    · intro files
      dsimp only
      split
      · exact le_refl 0
      · exact henqueue
    · exact fun _ => le_refl 0
  exact Affords.bind (Affords.attempt (Q := fun _ => 0) hchanges)
    (fun _ => hquiet 0 fun _ _ => hstill rfl rfl) fun _ => le_refl 0

/-! ## The audit -/

/-- What leaves the trace and the usage rows as they are. -/
theorem arrives_of_same {d d' : DeployState} (hrows : d'.store.llmUsages = d.store.llmUsages)
    (htrace : d'.trace = d.trace) : Arrives d d' :=
  ⟨hrows, [], by rw [htrace, List.append_nil]⟩

theorem unbilled_project {ρ : Type} (op : ProjectOp ρ) : Unbilled (DeployOp.project op) := by
  intro e d
  cases op <;> exact arrives_of_same rfl rfl

theorem unbilled_discovery {ρ : Type} (op : DiscoveryOp ρ) : Unbilled (DeployOp.discovery op) := by
  intro e d
  cases op <;> exact arrives_of_same rfl rfl

theorem unbilled_cli {ρ : Type} (op : CliOp ρ) : Unbilled (DeployOp.cli op) := by
  intro e d
  cases op <;> exact arrives_of_same rfl rfl

section Loop

variable {i : Nat} {budget : AuditBudget}

/-- A counter that touches neither the database nor the trace. -/
theorem count_funded {f : AuditState → AuditState} (hdb : ∀ a, (f a).db = a.db)
    (htrace : ∀ a, (f a).trace = a.trace) (c : ℕ × ℕ) :
    Funded env (DeployOp.audit i budget) (fun _ => c) (Proc.call (.count f)) c := by
  have hunbilled : Unbilled (DeployOp.audit i budget (.count f)) := by
    intro e d
    exact arrives_of_same (congrArg Db.llmUsages (hdb (d.auditState i))) (htrace (d.auditState i))
  exact Funded.of_only (.call hunbilled)

theorem auditStill_funded {ρ : Type} {op : AuditOp ρ}
    (hop : ∀ e d, Arrives d (performDeploy e (DeployOp.audit i budget op) d).2) (c : ℕ × ℕ) :
    Funded env (DeployOp.audit i budget) (fun _ => c) (Proc.call op) c :=
  Funded.of_only (.call hop)

theorem trackCost_funded (iter : Nat) (run : Id) (us : List UsageEntry) : ∀ k : Nat,
    Funded env (DeployOp.audit i budget) (fun _ => 0) (trackCostProc iter run k us)
      (usagesTokens us) := by
  induction us with
  | nil => exact fun k => zero_le
  | cons u us ih =>
    intro k
    have hsum : usagesTokens (u :: us) = u.tokens + usagesTokens us := by simp [usagesTokens]
    have hrow : Funded env (DeployOp.audit i budget) (owed fun _ => usagesTokens us)
        (Proc.call (.createUsage iter k run u)) (u.tokens + usagesTokens us) :=
      Funded.row fun _ d => ⟨rfl, storedTokens_createUsage _ d.store.toDb⟩
    rw [hsum]
    refine Affords.bind (count_funded ?_ ?_ _) (fun _ =>
      Affords.bind hrow (fun _ => ih (k + 1)) fun _ => zero_le) fun _ => zero_le
    · exact fun _ => rfl
    · exact fun _ => rfl

theorem recordResult_funded (iter : Nat) (feat : Selected) (run : Id) (result : FeatureResult)
    (c : ℕ × ℕ) :
    Funded env (DeployOp.audit i budget) (fun _ => c) (recordResultProc iter feat run result) c := by
  cases result with
  | skipped reason =>
    refine Affords.bind (count_funded ?_ ?_ c) (fun _ =>
      auditStill_funded (fun _ _ => arrives_of_same rfl rfl) c) fun _ => le_refl c
    · exact fun _ => rfl
    · exact fun _ => rfl
  | verified artifacts =>
    refine Affords.bind (count_funded ?_ ?_ c) (fun _ => ?_) fun _ => le_refl c
    · exact fun _ => rfl
    · exact fun _ => rfl
    have hnow : Funded env (DeployOp.audit i budget) (fun _ => c) (Proc.call .now) c :=
      auditStill_funded (fun _ _ => ⟨rfl, [.clockRead], rfl⟩) c
    apply Affords.bind hnow
    · intro now
      refine Affords.bind (auditStill_funded (fun _ _ => arrives_of_same rfl rfl) c) (fun _ =>
        Affords.bind (auditStill_funded (fun _ _ => arrives_of_same rfl rfl) c)
          (fun _ => count_funded ?_ ?_ c) fun _ => le_refl c) fun _ => le_refl c
      · exact fun _ => rfl
      · exact fun _ => rfl
    · exact fun _ => le_refl c

/-- An iteration records the usages of its result. -/
theorem testFeature_funded (iter : Nat) (feat : Selected) :
    Funded env (DeployOp.audit i budget) (fun _ => 0) (testFeatureProc iter feat) 0 := by
  have hcreate : Funded env (DeployOp.audit i budget) (fun _ => 0)
      (Proc.call (.createRun iter feat)) 0 :=
    auditStill_funded (fun _ _ => arrives_of_same rfl rfl) 0
  apply Affords.bind hcreate
  · intro run
    have hexecute : Funded env (DeployOp.audit i budget) (owed fun result => usagesTokens result.usages)
        (Proc.call (.executeFeatureAudit feat run)) 0 := by
      refine Funded.agent fun e d => ?_
      obtain ⟨es, hes, htokens⟩ := executeFeatureAudit_received e.agents (toString run)
        feat.2.toAuditFeature budget.url d.trace
      exact ⟨es, hes, rfl, htokens⟩
    have haudit : Funded env (DeployOp.audit i budget) (fun _ => 0)
        (auditFeatureProc iter feat run) 0 := by
      apply Affords.bind hexecute
      · intro result
        exact Affords.bind (recordResult_funded iter feat run result _)
          (fun _ => trackCost_funded iter run result.usages 0) fun _ => zero_le
      · exact fun _ => le_refl 0
    apply Affords.tryCatch haudit
    · exact fun _ => le_refl 0
    · intro e
      refine Affords.bind (auditStill_funded (fun _ _ => arrives_of_same rfl rfl) 0)
        (fun _ => count_funded ?_ ?_ 0) fun _ => le_refl 0
      · exact fun _ => rfl
      · exact fun _ => rfl
  · exact fun _ => le_refl 0

theorem auditLoop_funded (feats : List Selected) : ∀ iter : Nat,
    Funded env (DeployOp.audit i budget) (fun _ => 0) (auditLoopProc iter feats) 0 := by
  induction feats with
  | nil => exact fun iter => le_refl 0
  | cons feat rest ih =>
    intro iter
    apply Affords.bind (auditStill_funded (fun _ _ => ⟨rfl, [.clockRead], rfl⟩) 0)
    · intro go
      cases go with
      | false => exact le_refl 0
      | true =>
        exact Affords.bind (testFeature_funded iter feat) (fun _ => ih (iter + 1)) fun _ => le_refl 0
    · exact fun _ => le_refl 0

end Loop

theorem cli_funded {ρ : Type} (op : CliOp ρ) :
    Funded env (fun o => o) (fun _ => 0) (Proc.call (.cli op)) 0 :=
  Funded.of_only (.call (unbilled_cli op))

theorem auditProc_funded (c : AuditCommand) :
    Funded env (fun o => o) (fun _ => 0) (auditProc c) 0 := by
  have hdiscovery : Funded env DeployOp.discovery (fun _ => 0)
      (discoverPagesProc c.discovery c.discovery.pages) 0 :=
    Funded.of_only (.all _ unbilled_discovery)
  have hproject : Funded env DeployOp.project (fun _ => 0)
      (getOrCreateProject c.discovery.repoPath c.discovery.url) 0 :=
    Funded.of_only (.all _ unbilled_project)
  apply Affords.bind (Affords.lift hdiscovery)
  · intro _
    apply Affords.bind (Affords.lift hproject)
    · intro projectId
      apply Affords.bind (cli_funded (.selectFeatures projectId c.force))
      · intro feats
        exact Affords.bind (cli_funded .beginLoop)
          (fun i => Affords.lift (auditLoop_funded feats 0)) fun _ => le_refl 0
      · exact fun _ => le_refl 0
    · exact fun _ => le_refl 0
  · exact fun _ => le_refl 0

/-! ## The deployment -/

theorem startWatcher_funded (repoPath localUrl : String) :
    Funded env (fun o => o) (fun _ => 0) (startWatcher repoPath localUrl) 0 := by
  have hproject : Funded env DeployOp.project (fun _ => 0) (ensureProject repoPath localUrl) 0 :=
    Funded.of_only (.all _ unbilled_project)
  apply Affords.bind (cli_funded (.checkIsRepo repoPath))
  · intro isRepo
    cases isRepo with
    | false => exact le_refl 0
    | true =>
      exact Affords.bind (Affords.lift hproject)
        (fun projectId => cli_funded (.watch projectId localUrl)) fun _ => le_refl 0
  · exact fun _ => le_refl 0

theorem Launching.funded (launching : Launching) :
    Funded env (fun o => o) (fun _ => 0) launching.proc 0 := by
  cases launching with
  | command cwd c => exact Affords.lift (c.funded cwd)
  | watch repoPath localUrl => exact startWatcher_funded repoPath localUrl
  | audit c => exact auditProc_funded c

variable {start : DeployState} {s t : Deployment} {credits : List (ℕ × ℕ)}

/-- A step of the deployment spends no more than was earned. -/
theorem solvent_step {event : DeployEvent}
    (h : Pool.Solvent tokenBooks (answerDeploy env) start 0 s credits)
    (hstep : s.step env event = some t) :
    ∃ credits', Pool.Solvent tokenBooks (answerDeploy env) start 0 t credits' := by
  rcases Deployment.step_cases hstep with ⟨launching, rfl⟩ | ⟨projectId, localUrl, -, rfl⟩ |
      ⟨globalIo, job, rest, -, rfl⟩ | ⟨i, job, -, rfl⟩ | ⟨i, -, hresume⟩
  · exact ⟨_, by simpa using h.start_proc launching.funded⟩
  · have hcallback : Funded env (fun o => o) (fun _ => 0) (callbackProc projectId localUrl) 0 :=
      Affords.lift (Affords.lift (timerCallback_funded projectId localUrl))
    exact ⟨_, by simpa using h.start_proc hcallback⟩
  · exact ⟨_, h.hand_over rfl (add_zero _).symm (Affords.lift (runTest_funded globalIo _))⟩
  · exact ⟨_, h.outside ⟨(add_zero _).symm, (add_zero _).symm⟩ (le_refl 0)⟩
  · exact h.step hresume

/-- **What is charged was received**: in every state of a deployment, the usage rows
written since its start name no more tokens than the vendors' responses since then. -/
theorem charges_received {store : Store} {redis : Redis} {trace : Trace}
    {events : List DeployEvent}
    (hrun : exec (Deployment.step env) (.over store redis trace) events = some s) :
    storedTokens s.shared.store.toDb + receivedTokens trace
      ≤ storedTokens store.toDb + receivedTokens s.shared.trace := by
  have hstart : Pool.Solvent tokenBooks (answerDeploy env)
      (Deployment.over store redis trace).shared 0 (Deployment.over store redis trace) [] := by
    refine ⟨.nil, ?_⟩
    rw [List.sum_nil, add_zero, add_zero, add_comm]
  have hstep : ∀ (u : Deployment) event (v : Deployment),
      (∃ credits, Pool.Solvent tokenBooks (answerDeploy env)
        (Deployment.over store redis trace).shared 0 u credits) → u.step env event = some v →
      ∃ credits, Pool.Solvent tokenBooks (answerDeploy env)
        (Deployment.over store redis trace).shared 0 v credits := by
    rintro u event v ⟨credits, hu⟩ huv
    exact solvent_step hu huv
  obtain ⟨credits, hsolvent⟩ := exec_keeps hstep ⟨[], hstart⟩ hrun
  have hbalance := hsolvent.balance
  calc storedTokens s.shared.store.toDb + receivedTokens trace
      ≤ storedTokens s.shared.store.toDb + credits.sum + receivedTokens trace := by
        gcongr
        exact le_self_add
    _ ≤ receivedTokens s.shared.trace + storedTokens store.toDb + 0 := hbalance
    _ = storedTokens store.toDb + receivedTokens s.shared.trace := by rw [add_zero, add_comm]

/-- A test by hand: the verdict's tokens arrive, and the refused verdict is not charged. -/
def handRun : List DeployEvent :=
  .start (.command "/work/shop" (.test "Log in" "http://localhost:3000")) ::
    List.replicate 14 (.resume 0)

theorem hand_charges_received :
    ∃ s, exec (Deployment.step fun _ => { calmEnv false with isRepo := true })
        (.over (.fresh []) ⟨[], 0, []⟩ []) handRun = some s ∧
      storedTokens s.shared.store.toDb = (1000, 100) ∧ receivedTokens s.shared.trace = (2000, 200) ∧
      storedTokens s.shared.store.toDb + receivedTokens []
        ≤ storedTokens (Store.fresh []).toDb + receivedTokens s.shared.trace := by
  have hview : (exec (Deployment.step fun _ => { calmEnv false with isRepo := true })
      (.over (.fresh []) ⟨[], 0, []⟩ []) handRun).map (fun s =>
        (storedTokens s.shared.store.toDb, receivedTokens s.shared.trace))
      = some ((1000, 100), (2000, 200)) := by decide +kernel
  obtain ⟨s, hrun, hs⟩ := Option.map_eq_some_iff.mp hview
  exact ⟨s, hrun, (Prod.mk.inj hs).1, (Prod.mk.inj hs).2, charges_received hrun⟩

end

end AutoQa.Cli

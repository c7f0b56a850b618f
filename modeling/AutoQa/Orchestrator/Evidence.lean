import AutoQa.Orchestrator.RunnerUsage

/-!
# From the browser to the verdict

The result analyzer judges a run by the logs, the network record and the error
message of its artifacts. The deterministic executor fills all three; the agent
loop leaves them empty, so whatever its tool calls report, the analyzer is asked
the same question.
-/

namespace AutoQa.Orchestrator

open AutoQa.Base AutoQa.LlmAgents AutoQa.Db

/-- The text of a tool call's error, as the loop records it: a call that throws,
a result without content, a result that the server flags. The loop's own last
screenshot is not recorded; there the flag is all there is. -/
def toolError : Event → Option String
  | .mcpCall _ _ (.error e) => some ("Error executing tool: " ++ e)
  | .mcpCall _ _ (.ok result) =>
      match firstText result with
      | .error e => some ("Error executing tool: " ++ e)
      | .ok text => if result.isError then some text else none
  | .mcpScreenshot (.error e) => some e
  | .mcpScreenshot (.ok result) =>
      if result.isError then some (result.content.headD "") else none
  | _ => none

def analysis? : Event → Option Evidence
  | .analyze evidence => some evidence
  | _ => none

/-- The evidence that the result analyzer was called with. -/
def analyses (es : Trace) : List Evidence := es.filterMap analysis?

def sentMessages? : Event → Option (List Message)
  | .sent _ messages => some messages
  | _ => none

/-- The requests to vendors from the first call of the result analyzer on. -/
def analyzerRequests (es : Trace) : List (List Message) :=
  (es.dropWhile fun e => (analysis? e).isNone).filterMap sentMessages?

@[simp] theorem analyses_append (es fs : Trace) :
    analyses (es ++ fs) = analyses es ++ analyses fs := List.filterMap_append ..

/-- The text occurs in one of the three parts of the evidence. -/
def Appears (evidence : Evidence) (text : String) : Prop :=
  Text.includes evidence.logs text = true ∨ Text.includes evidence.network text = true ∨
    Text.includes (evidence.errorMessage.getD "") text = true

/-- What the agent loop returns as evidence. -/
def noEvidence : Evidence := { logs := "", network := "", errorMessage := none }

theorem appears_noEvidence (text : String) : Appears noEvidence text ↔ text = "" := by
  simp [Appears, noEvidence, Text.includes]

/-! ## The events of a call -/

/-- The agent loop does not call the analyzer, and returns no evidence. -/
theorem executeTestAutonomous_blind (w : World) (testRunId instruction url : String)
    (provider? : Option LLMProvider) :
    Logs (fun r es => analyses es = [] ∧ ∀ a, r = .ok a → a.toEvidence = noEvidence)
      (executeTestAutonomous w testRunId instruction url provider?) := by
  have hturn : ∀ {provider s r es}, TurnSpec provider s r es →
      analyses (.clockRead :: es) = [] := by
    intro provider s r es h
    obtain ⟨body, rfl, hbody⟩ := h.events
    show analyses body = []
    apply List.filterMap_eq_nil_iff.mpr
    intro e he
    rcases hbody e he with (⟨f, rfl⟩ | ⟨p, -, rfl | ⟨v, rfl, -⟩⟩) | htool
    · rfl
    · rfl
    · rfl
    · cases htool <;> rfl
  have houtside : ∀ es : Trace, (∀ e ∈ es, Outside e) → analyses es = [] := by
    intro es hes
    apply List.filterMap_eq_nil_iff.mpr
    intro e he
    rcases hes e he with rfl | rfl | rfl | rfl | rfl <;> rfl
  have hloop : ∀ provider tools startTime, Logs (fun _ es => analyses es = [])
      (mainLoop w provider tools startTime maxTurns (initialState instruction url)) := by
    intro provider tools startTime
    refine mainLoop_rule (R := fun _ _ es => analyses es = []) w provider tools startTime
      (fun _ => rfl) ?_ ?_ ?_ maxTurns _
    · rintro s e es (rfl | rfl) <;> rfl
    · intro s e es h
      exact hturn h
    · intro s s' es r fs h _ hrest
      rw [analyses_append, hrest, List.append_nil]
      exact hturn h
  have haround : ∀ pre es post : Trace, analyses es = [] → (∀ e ∈ pre ++ post, Outside e) →
      analyses (pre ++ es ++ post) = [] := by
    intro pre es post hes hout
    have hpre := houtside pre (fun e he => hout e (List.mem_append_left post he))
    have hpost := houtside post (fun e he => hout e (List.mem_append_right pre he))
    simp [hpre, hes, hpost]
  refine executeTestAutonomous_rule w testRunId instruction url provider? hloop ?_ ?_ ?_
  · intro e es hes
    exact ⟨houtside es hes, fun _ h => nomatch h⟩
  · intro s pre es post hes hout
    refine ⟨haround pre es post hes hout, ?_⟩
    intro a heq
    -- the loop returns its artifacts with the three texts empty
    cases heq
    rfl
  · intro r e pre es post hes hout
    exact ⟨haround pre es post hes hout, fun _ h => nomatch h⟩

/-- Writing a usage row, or failing to, is no event. -/
theorem createUsage_trace (w : World) (faults : Faults) (run : Id) (role : UsageRole) (k : Nat)
    (u : UsageEntry) (s : RunState) :
    (handle w faults (.createUsage .body run role k u) s).2.trace = s.trace :=
  handle_state w faults _ s (P := fun t => t.trace = s.trace) rfl rfl

/-- The events after the loop returned are those of the analyzer, if it is
called. -/
theorem analyze_trace (w : World) {faults : Faults} (run : Id) {a : Artifacts}
    (hrows : ∀ k < a.usages.length, faults .body (.createUsage .testPlanner k) = none)
    (hanalyze : faults .body .analyzeResults = none) (s : RunState) :
    ((analyze run a).run (handle w faults) s).2.trace
      = (analyzeResults w a.toEvidence s.trace).2 := by
  obtain ⟨r, t, hrun, htrace, hr⟩ := recordUsages_returns w faults run a.usages 0 s
  obtain rfl : r = .ok () := hr.mpr (by simpa [← List.range_eq_range'] using hrows)
  have hop := handle_analyzeResults w hanalyze a.toEvidence htrace
  simp only [analyze, Proc.run_bind, Proc.run_call]
  rw [Prog.bind_ok hrun]
  cases hresult : (analyzeResults w a.toEvidence s.trace).1 with
  | error e =>
    rw [hresult] at hop
    rw [Prog.bind_error hop]
  | ok result =>
    rw [hresult] at hop
    rw [Prog.bind_ok hop]
    have hlast := createUsage_trace w faults run .resultAnalyzer 0 result.2
      { t with trace := (analyzeResults w a.toEvidence s.trace).2 }
    rw [Prog.bind_apply]
    cases hrow : handle w faults (.createUsage .body run .resultAnalyzer 0 result.2)
      { t with trace := (analyzeResults w a.toEvidence s.trace).2 } with
    | mk r' t' =>
    rw [hrow] at hlast
    cases r' <;> exact hlast

theorem idle_events {es : Trace} (h : ∀ e ∈ es, Idle e) :
    analyses es = [] ∧ es.filterMap sentMessages? = [] := by
  refine ⟨List.filterMap_eq_nil_iff.mpr ?_, List.filterMap_eq_nil_iff.mpr ?_⟩
  all_goals
    intro e he
    cases h e he <;> rfl

/-! ## Runs whose agent loop returns -/

/-- A call of `runTestExecution` in which the agent loop runs and returns and
the result analyzer is called; afterwards any step may throw. -/
structure ReturningRun where
  w : World
  faults : Faults
  globalIo : Bool
  featureId : Id
  instruction : String
  url : String
  db : Db
  trace : Trace
  autonomous : instruction ≠ smokeInstruction
  started : ∀ label, faults .setup label = none
  looped : faults .body .executeTestAutonomous = none
  returns : ∃ a, (agentCall w db.testRuns.length instruction url trace).1 = .ok a ∧
    ∀ k < a.usages.length, faults .body (.createUsage .testPlanner k) = none
  analyzed : faults .body .analyzeResults = none

namespace ReturningRun

variable (r : ReturningRun)

/-- The events of the call. -/
def events : Trace :=
  callTrace r.w r.faults r.globalIo r.featureId r.instruction r.url r.db r.trace

/-- The tool-call errors of the run. -/
def errors : List String := r.events.filterMap toolError

/-- What the result analyzer asks its provider. -/
def prompts : List (List Message) := (analyses r.events).map analyzeMessages

/-- Every tool-call error appears in the evidence of every analysis. -/
def EvidenceReaches : Prop :=
  ∀ evidence ∈ analyses r.events, ∀ text ∈ r.errors, Appears evidence text

/-- The events up to the analysis, those of the analyzer and those after it. -/
theorem events_parts : ∃ before body idle provider,
    r.events = before ++ (.analyze noEvidence :: .configRead :: body) ++ idle ∧
      analyses before = [] ∧ (∀ e ∈ idle, Idle e) ∧
      ∀ e ∈ body, LlmEvent (LLMProvider.members provider) (analyzeMessages noEvidence) e := by
  obtain ⟨a, hreturns, hrows⟩ := r.returns
  obtain ⟨s, htrace, -, -, fs, hfs, hidle⟩ := execute_rests r.w r.started r.globalIo r.featureId
    r.instruction r.url r.db r.trace
  have hjudge := judge_autonomous r.w r.faults r.db.testRuns.length r.url r.autonomous r.looped s
  obtain ⟨es, hes, hblind, hempty⟩ := executeTestAutonomous_blind r.w
    (toString r.db.testRuns.length) r.instruction r.url none (r.trace ++ [.clockRead])
  obtain ⟨tr, hcall⟩ : ∃ tr, agentCall r.w r.db.testRuns.length r.instruction r.url r.trace
      = (.ok a, tr) := ⟨_, Prod.ext hreturns rfl⟩
  change (agentCall r.w r.db.testRuns.length r.instruction r.url r.trace).2 = _ at hes
  change ∀ a, (agentCall r.w r.db.testRuns.length r.instruction r.url r.trace).1 = .ok a → _
    at hempty
  rw [htrace, hcall] at hjudge
  rw [hcall] at hes hempty
  obtain ⟨result, t, tail, durationMs, ht, htail, hfinal⟩ := hjudge
  obtain ⟨cs, hcs, body, provider, rfl, hbody, -⟩ := analyzeResults_logs r.w noEvidence
    (tr ++ [.clockRead])
  -- the analyzer is handed what the loop returned, which is no evidence
  have htt : t.trace = tr ++ [.clockRead] ++ (.analyze noEvidence :: .configRead :: body) := by
    have hanalyze := analyze_trace r.w r.db.testRuns.length hrows r.analyzed
      { s with trace := tr ++ [.clockRead] }
    rw [ht] at hanalyze
    rw [← hcs, ← hempty a rfl, hanalyze]
  refine ⟨[.clockRead] ++ es ++ [.clockRead], body, tail ++ fs, provider, ?_, ?_, ?_, hbody⟩
  · rw [events, callTrace, hfs, hfinal, htt, show tr = _ from hes]
    simp
  · rw [analyses_append, analyses_append, hblind]
    rfl
  · intro e he
    rcases List.mem_append.mp he with he | he
    · rcases htail with rfl | rfl
      · cases he
      · rw [List.mem_singleton.mp he]
        exact .clockRead
    · exact hidle e he

/-- The analyzer is called once, with no evidence. -/
theorem analyses_events : analyses r.events = [noEvidence] := by
  obtain ⟨before, body, idle, provider, hevents, hbefore, hidle, hbody⟩ := r.events_parts
  have hllm : analyses body = [] := by
    apply List.filterMap_eq_nil_iff.mpr
    intro e he
    obtain ⟨p, -, rfl | ⟨u, rfl, -⟩⟩ := hbody e he
    · rfl
    · rfl
  have hmiddle : analyses (.analyze noEvidence :: .configRead :: body) = [noEvidence] :=
    congrArg (noEvidence :: ·) hllm
  rw [hevents, analyses_append, analyses_append, hbefore, hmiddle, (idle_events hidle).1]
  rfl

/-- The vendors get what the analyzer asks. -/
theorem analyzerRequests_events :
    ∀ messages ∈ analyzerRequests r.events, messages = analyzeMessages noEvidence := by
  obtain ⟨before, body, idle, provider, hevents, hbefore, hidle, hbody⟩ := r.events_parts
  have hskip : ∀ e ∈ before, (analysis? e).isNone = true := by
    intro e he
    rw [List.filterMap_eq_nil_iff.mp hbefore e he]
    rfl
  intro messages hm
  rw [analyzerRequests, hevents, List.append_assoc, List.dropWhile_append_of_pos hskip,
    List.cons_append, List.dropWhile_cons_of_neg (by simp [analysis?]), ← List.cons_append,
    List.filterMap_append, (idle_events hidle).2, List.append_nil] at hm
  obtain ⟨e, he, hsent⟩ := List.mem_filterMap.mp hm
  rcases List.mem_cons.mp he with rfl | he
  · cases hsent
  rcases List.mem_cons.mp he with rfl | he
  · cases hsent
  obtain ⟨p, -, rfl | ⟨u, rfl, -⟩⟩ := hbody e he
  · cases hsent
    rfl
  · cases hsent

/-- **Evidence reaches the verdict** exactly when the run's tool calls report no
error: the analyzer's prompt is the same for every run, so it tells two runs
apart only if there is nothing to tell. -/
theorem evidence_reaches_iff :
    (r.EvidenceReaches ↔ ∀ text ∈ r.errors, text = "") ∧
      (∀ messages ∈ analyzerRequests r.events, messages ∈ r.prompts) ∧
      ∀ r' : ReturningRun,
        (r.errors ≠ r'.errors → r.prompts ≠ r'.prompts) ↔ r.errors = r'.errors := by
  have hprompts : ∀ r' : ReturningRun, r'.prompts = [analyzeMessages noEvidence] := by
    intro r'
    rw [prompts, analyses_events]
    rfl
  refine ⟨?_, ?_, ?_⟩
  · simp only [EvidenceReaches, analyses_events, List.mem_singleton, forall_eq, appears_noEvidence]
  · intro messages hm
    rw [hprompts, r.analyzerRequests_events messages hm]
    exact List.mem_singleton_self _
  · intro r'
    -- both prompts are the same, so only equal error lists satisfy the implication
    rw [hprompts, hprompts]
    exact ⟨fun h => by_contra fun hne => h hne rfl, fun heq hne => absurd heq hne⟩

end ReturningRun

theorem returns_of_isOk {α : Type} {r : Except String α} {p : α → Prop} (h : r.isOk = true)
    (hp : ∀ a, p a) : ∃ a, r = .ok a ∧ p a := by
  cases r with
  | error e => cases h
  | ok a => exact ⟨a, rfl, hp a⟩

def calmRun : ReturningRun where
  w := .calm
  faults := never
  globalIo := false
  featureId := 0
  instruction := "Log in"
  url := "http://localhost:3000"
  db := .empty
  trace := []
  autonomous := by decide
  started := fun _ => rfl
  looped := rfl
  returns := returns_of_isOk (by decide +kernel) fun _ _ _ => rfl
  analyzed := rfl

/-- The same run in front of a server that is down. -/
def refusedRun : ReturningRun :=
  { calmRun with
    w := { World.calm with mcpCallTool := fun _ _ _ => .ok ⟨true, ["net::ERR_CONNECTION_REFUSED"]⟩ }
    returns := returns_of_isOk (by decide +kernel) fun _ _ _ => rfl }

theorem refused_connection_unseen :
    ¬ refusedRun.EvidenceReaches ∧ calmRun.errors ≠ refusedRun.errors ∧
      calmRun.prompts = refusedRun.prompts := by
  have hrefused : refusedRun.errors = ["net::ERR_CONNECTION_REFUSED"] := by decide +kernel
  have hcalm : calmRun.errors = [] := by decide +kernel
  refine ⟨?_, by simp [hrefused, hcalm], ?_⟩
  · intro h
    have happears := h noEvidence (by rw [refusedRun.analyses_events]; simp)
      "net::ERR_CONNECTION_REFUSED" (by simp [hrefused])
    exact absurd ((appears_noEvidence _).mp happears) (by decide)
  · rw [ReturningRun.prompts, ReturningRun.prompts, calmRun.analyses_events,
      refusedRun.analyses_events]

end AutoQa.Orchestrator

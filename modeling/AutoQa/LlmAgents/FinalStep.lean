import Mathlib.Algebra.Order.BigOperators.Group.List
import AutoQa.LlmAgents.GuardedAudit

/-!
# The final step

The agent loop takes the request for `playwright_screenshot` for its execution.
It ends the run whether or not the server took the screenshot, and the calls
behind it in the same response are made as well.
-/

namespace AutoQa.LlmAgents

open AutoQa.Base

/-! ## Screenshots -/

def Event.asksScreenshot : Event → Bool
  | .mcpCall name _ _ => name == screenshotTool
  | .mcpScreenshot _ => true
  | _ => false

/-- The call returned, and its result is not an error. -/
def succeeded : Except String ToolResult → Bool
  | .ok result => !result.isError
  | .error _ => false

/-- The server took a screenshot. -/
def Event.saves : Event → Bool
  | .mcpCall name _ reply => name == screenshotTool && succeeded reply
  | .mcpScreenshot reply => succeeded reply
  | _ => false

/-- Where the server saves it: its run is `process.env.TEST_RUN_ID || 'default'`. -/
def savedPath (w : World) (testRunId : String) : String :=
  w.cwd ++ "/artifacts/" ++ (orElse (some testRunId) (some "default")).getD "" ++ "/final.png"

/-- The replies to the screenshots of a turn that ends the loop. -/
def Move.shots (m : Move) : List (Except String ToolResult) :=
  if m.idle then [m.final]
  else ((m.calls.zip m.replies).filter (·.1.name == screenshotTool)).map Prod.snd

theorem Event.asksScreenshot_isTool {e : Event} (h : e.asksScreenshot = true) : e.isTool = true := by
  cases e <;> first | rfl | cases h

theorem Event.saves_asksScreenshot {e : Event} (h : e.saves = true) : e.asksScreenshot = true := by
  cases e <;> simp_all [Event.saves, Event.asksScreenshot]

theorem Move.events_of_idle {m : Move} (h : m.idle = true) :
    m.events = if m.escalate then [.mcpScreenshot m.final] else [] := by
  simp [Move.events, m.calls_of_idle h]

theorem Move.events_of_calls {m : Move} (h : m.idle = false) :
    m.events = (m.calls.zip m.replies).map fun (call, reply) => .mcpCall call.name call.args reply := by
  cases hcalls : m.calls with
  | nil => simp [Move.idle, hcalls] at h
  | cons call calls =>
    simp only [Move.events, hcalls]
    rw [← List.map_uncurry_zip_eq_zipWith]
    rfl

/-- Only a turn that ends the loop takes a screenshot. -/
theorem Move.ends_of_asks {m : Move} {e : Event} (he : e ∈ m.events)
    (h : e.asksScreenshot = true) : m.ends = true := by
  cases hidle : m.idle with
  | true =>
    rw [m.events_of_idle hidle] at he
    split at he
    · rename_i hescalate
      exact m.ends_of_stuck hidle hescalate
    · cases he
  | false =>
    rw [m.events_of_calls hidle] at he
    obtain ⟨⟨call, reply⟩, hmem, rfl⟩ := List.mem_map.mp he
    have hshoots : m.shoots = true := List.any_eq_true.mpr ⟨call, (List.of_mem_zip hmem).1, h⟩
    simp [Move.ends, hshoots]

theorem Move.saves_iff {m : Move} (h : m.ends = true) :
    (∃ e ∈ m.events, e.saves = true) ↔ ∃ reply ∈ m.shots, succeeded reply = true := by
  cases hidle : m.idle with
  | true =>
    simp [m.events_of_idle hidle, m.escalate_of_ends h hidle, Move.shots, hidle, Event.saves]
  | false =>
    rw [m.events_of_calls hidle, Move.shots, hidle]
    constructor
    · rintro ⟨e, he, hsaves⟩
      obtain ⟨p, hp, rfl⟩ := List.mem_map.mp he
      simp only [Event.saves, Bool.and_eq_true] at hsaves
      exact ⟨p.2, by simpa using ⟨p.1, hp, by simpa using hsaves.1⟩, hsaves.2⟩
    · rintro ⟨reply, hreply, hok⟩
      obtain ⟨call, hmem, hname⟩ : ∃ call : ToolCall,
          (call, reply) ∈ m.calls.zip m.replies ∧ call.name = screenshotTool := by
        simpa using hreply
      exact ⟨_, List.mem_map_of_mem hmem, by simp [Event.saves, hname, hok]⟩

/-! ## A normal end and its screenshot -/

/-- A screenshot was taken and is where the artifacts say. -/
def ScreenshotSaved (w : World) (testRunId : String) (es : Trace) (a : Artifacts) : Prop :=
  (∃ e ∈ es, e.saves = true) ∧ savedPath w testRunId = a.screenshotPath

/-- One of the screenshots of the last turn succeeded. -/
def Delivered (ms : List Move) : Prop :=
  ∃ pre m, ms = pre ++ [m] ∧ ∃ reply ∈ m.shots, succeeded reply = true

/-- Where the server lets the run come to its end, a screenshot of the last turn
succeeds, under the run's own name. -/
def Delivers (w : World) (testRunId instruction url : String) (provider? : Option LLMProvider)
    (tr : Trace) : Prop :=
  Served w instruction url provider? tr →
    Finishes (agentMoves w provider? instruction url tr) →
    testRunId ≠ "" ∧ Delivered (agentMoves w provider? instruction url tr)

/-- No screenshot fails: none of the replies throws or is an error. -/
def ShotsSucceed (ms : List Move) : Prop :=
  ∀ m ∈ ms, m.ends = true → ∀ reply ∈ m.shots, succeeded reply = true

/-- A turn that ends the loop asks for a screenshot, and the server replies to it. -/
theorem Move.shots_ne_nil {m : Move} (hreplies : m.replies.length = m.calls.length)
    (h : m.ends = true) : m.shots ≠ [] := by
  cases hidle : m.idle with
  | true => simp [Move.shots, hidle]
  | false =>
    have hshoots : m.shoots = true := by simpa [Move.ends, hidle] using h
    obtain ⟨call, hcall, hname⟩ := List.any_eq_true.mp hshoots
    rw [← List.map_fst_zip hreplies.ge] at hcall
    obtain ⟨pair, hpair, rfl⟩ := List.mem_map.mp hcall
    rw [Move.shots, hidle]
    exact List.ne_nil_of_mem (List.mem_map_of_mem (List.mem_filter.mpr ⟨hpair, hname⟩))

theorem delivers_of_succeed {w : World} {testRunId instruction url : String}
    {provider? : Option LLMProvider} {tr : Trace} (hid : testRunId ≠ "")
    (h : ShotsSucceed (agentMoves w provider? instruction url tr)) :
    Delivers w testRunId instruction url provider? tr := by
  rintro - ⟨pre, m, hmoves, hends, -⟩
  have hm : m ∈ agentMoves w provider? instruction url tr := by simp [hmoves]
  obtain ⟨reply, hreply⟩ := List.exists_mem_of_ne_nil _
    (m.shots_ne_nil (agentMoves_replies_length w instruction url provider? tr m hm) hends)
  exact ⟨hid, pre, m, hmoves, reply, hreply, h m hm hends reply hreply⟩

theorem savedPath_eq_iff (w : World) (testRunId : String) :
    savedPath w testRunId = artifactPath w testRunId ↔ testRunId ≠ "" := by
  by_cases hid : testRunId = ""
  · subst hid
    simp [savedPath, artifactPath, orElse, orUndefined]
  · simp [savedPath, artifactPath, orElse, orUndefined, hid]

/-- The screenshots of a run that ends are those of its last turn. -/
theorem run_saves_iff (w : World) (testRunId instruction url : String)
    (provider? : Option LLMProvider) (tr : Trace)
    (h : Finishes (agentMoves w provider? instruction url tr)) :
    (∃ e ∈ runEvents (executeTestAutonomous w testRunId instruction url provider?) tr,
        e.saves = true) ↔ Delivered (agentMoves w provider? instruction url tr) := by
  obtain ⟨pre, last, hmoves, hends, -⟩ := h
  have htools := run_toolEvents w testRunId instruction url provider? tr
  generalize runEvents (executeTestAutonomous w testRunId instruction url provider?) tr = es at htools ⊢
  have hlast : ∀ m ∈ agentMoves w provider? instruction url tr, m.ends = true → m = last := by
    intro m hm hmends
    have hfirst := agentMoves_ends_last w instruction url provider? tr
    rw [hmoves] at hm hfirst
    rcases List.mem_append.mp hm with hm | hm
    · have hnot := (List.pairwise_append.mp hfirst).2.2 m hm last (List.mem_singleton.mpr rfl)
      cases hnot.symm.trans hmends
    · exact List.mem_singleton.mp hm
  constructor
  · rintro ⟨e, he, hsaves⟩
    have hasks := Event.saves_asksScreenshot hsaves
    have hmem : e ∈ es.filter Event.isTool :=
      List.mem_filter.mpr ⟨he, Event.asksScreenshot_isTool hasks⟩
    rw [htools] at hmem
    obtain ⟨m, hm, hem⟩ := List.mem_flatMap.mp hmem
    have hmends := Move.ends_of_asks hem hasks
    obtain rfl := hlast m hm hmends
    exact ⟨pre, m, hmoves, (Move.saves_iff hmends).mp ⟨e, hem, hsaves⟩⟩
  · rintro ⟨pre', m, heq, hdelivered⟩
    have hm : m ∈ agentMoves w provider? instruction url tr := by simp [heq]
    obtain rfl : m = last := by
      have := List.append_inj' (heq.symm.trans hmoves) rfl
      simpa using this.2
    obtain ⟨e, he, hsaves⟩ := (Move.saves_iff hends).mpr hdelivered
    have hmem : e ∈ (agentMoves w provider? instruction url tr).flatMap Move.events :=
      List.mem_flatMap.mpr ⟨m, hm, he⟩
    rw [← htools] at hmem
    exact ⟨e, (List.mem_filter.mp hmem).1, hsaves⟩

theorem run_saved_iff (w : World) (testRunId instruction url : String)
    (provider? : Option LLMProvider) (tr : Trace) :
    (∀ a, (executeTestAutonomous w testRunId instruction url provider? tr).1 = .ok a →
      ScreenshotSaved w testRunId
        (runEvents (executeTestAutonomous w testRunId instruction url provider?) tr) a) ↔
      Delivers w testRunId instruction url provider? tr := by
  constructor
  · intro h hserved hfinishes
    obtain ⟨a, ha⟩ := (run_returns_iff w testRunId instruction url provider? tr).mpr
      ⟨hserved, hfinishes⟩
    obtain ⟨s, rfl⟩ := run_artifacts w testRunId instruction url provider? tr ha
    obtain ⟨hsaves, hpath⟩ := h _ ha
    exact ⟨(savedPath_eq_iff w testRunId).mp hpath,
      (run_saves_iff w testRunId instruction url provider? tr hfinishes).mp hsaves⟩
  · intro h a ha
    obtain ⟨hserved, hfinishes⟩ := (run_returns_iff w testRunId instruction url provider? tr).mp
      ⟨a, ha⟩
    obtain ⟨s, rfl⟩ := run_artifacts w testRunId instruction url provider? tr ha
    obtain ⟨hid, hdelivered⟩ := h hserved hfinishes
    exact ⟨(run_saves_iff w testRunId instruction url provider? tr hfinishes).mpr hdelivered,
      (savedPath_eq_iff w testRunId).mpr hid⟩

/-- Behind the guardrail, the audit is a run of the agent. -/
theorem audit_saved_iff (w : World) (testRunId : String) (feature : AuditFeature) (url : String)
    (provider? : Option LLMProvider) (tr : Trace) :
    (∀ a, (executeFeatureAudit w testRunId feature url provider? tr).1 = .ok (.verified a) →
      ScreenshotSaved w testRunId
        (runEvents (executeFeatureAudit w testRunId feature url provider?) tr) a) ↔
      (Passes w feature (chosenTrace provider? tr) →
        Delivers w testRunId (auditInstruction feature) (auditUrl feature url)
          (some (chosenProvider w provider? tr)) (guardTrace w feature (chosenTrace provider? tr))) := by
  have hverdict := isElementSafe_cases w feature (chosenTrace provider? tr)
  rcases executeFeatureAudit_cases w testRunId feature url provider? tr with
    ⟨e, t, hguard, hrun⟩ | ⟨check, t, hguard, hunsafe, hrun⟩ | ⟨check, t, hguard, hsafe, hrun⟩
  · rcases hverdict with ⟨-, hpassed⟩ | ⟨hnot, -⟩ | ⟨hunread, -⟩
    · cases hguard.symm.trans hpassed
    · simp [hrun, hnot]
    · have hnot : ¬ Passes w feature (chosenTrace provider? tr) := fun h => hunread none h.1
      simp [hrun, hnot]
  · rcases hverdict with ⟨-, hpassed⟩ | ⟨hnot, -⟩ | ⟨-, e, u, hthrows⟩
    · cases hguard.symm.trans hpassed
      cases hunsafe
    · simp [hrun, hnot]
    · cases hguard.symm.trans hthrows
  · obtain ⟨hpasses, ht⟩ : Passes w feature (chosenTrace provider? tr) ∧
        t = guardTrace w feature (chosenTrace provider? tr) := by
      rcases hverdict with ⟨hpasses, hpassed⟩ | ⟨-, reason, u, hrefused⟩ | ⟨-, e, u, hthrows⟩
      · exact ⟨hpasses, congrArg Prod.snd (hguard.symm.trans hpassed)⟩
      · cases hguard.symm.trans hrefused
        cases hsafe
      · cases hguard.symm.trans hthrows
    rw [← ht]
    have hsaved := run_saved_iff w testRunId (auditInstruction feature) (auditUrl feature url)
      (some (chosenProvider w provider? tr)) t
    obtain ⟨es, ht, hes⟩ := audit_until_verdict hguard
    have hagent := run_trace w testRunId (auditInstruction feature) (auditUrl feature url)
      (some (chosenProvider w provider? tr)) t
    generalize runEvents (executeTestAutonomous w testRunId (auditInstruction feature)
      (auditUrl feature url) (some (chosenProvider w provider? tr))) t = fs at hagent hsaved
    have hevents : runEvents (executeFeatureAudit w testRunId feature url provider?) tr = es ++ fs := by
      apply runEvents_eq
      rw [hrun, hagent, ht, List.append_assoc]
    rw [hrun, hevents]
    have hsaves : ∀ a, ScreenshotSaved w testRunId (es ++ fs) a ↔
        ScreenshotSaved w testRunId fs a := by
      intro a
      refine and_congr_left fun _ => ⟨?_, ?_⟩
      · rintro ⟨e, he, hsave⟩
        rcases List.mem_append.mp he with he | he
        · have htool := Event.asksScreenshot_isTool (Event.saves_asksScreenshot hsave)
          cases (hes e he).2.symm.trans htool
        · exact ⟨e, he, hsave⟩
      · rintro ⟨e, he, hsave⟩
        exact ⟨e, List.mem_append_right _ he, hsave⟩
    have hreturns : ∀ (r : Except String Artifacts) (a : Artifacts),
        r.map FeatureResult.verified = .ok (.verified a) ↔ r = .ok a := by
      intro r a
      cases r <;> simp [Except.map]
    simp only [hreturns, hsaves, hsaved, hpasses, forall_const]

/-- **A normal end and its screenshot.** A run that returns has saved its screenshot,
and an audit that verifies has, exactly where one of the calls with which the agent
asks for it is carried out. It is enough that the run has a name and that no reply to
these calls throws or is an error. -/
theorem screenshot_saved_iff (w : World) (testRunId : String) (provider? : Option LLMProvider)
    (tr : Trace) :
    (∀ instruction url,
      ((∀ a, (executeTestAutonomous w testRunId instruction url provider? tr).1 = .ok a →
        ScreenshotSaved w testRunId
          (runEvents (executeTestAutonomous w testRunId instruction url provider?) tr) a) ↔
        Delivers w testRunId instruction url provider? tr) ∧
      (testRunId ≠ "" → ShotsSucceed (agentMoves w provider? instruction url tr) →
        ∀ a, (executeTestAutonomous w testRunId instruction url provider? tr).1 = .ok a →
          ScreenshotSaved w testRunId
            (runEvents (executeTestAutonomous w testRunId instruction url provider?) tr) a)) ∧
    ∀ feature url,
      ((∀ a, (executeFeatureAudit w testRunId feature url provider? tr).1 = .ok (.verified a) →
        ScreenshotSaved w testRunId
          (runEvents (executeFeatureAudit w testRunId feature url provider?) tr) a) ↔
        (Passes w feature (chosenTrace provider? tr) →
          Delivers w testRunId (auditInstruction feature) (auditUrl feature url)
            (some (chosenProvider w provider? tr))
            (guardTrace w feature (chosenTrace provider? tr)))) ∧
      (testRunId ≠ "" → ShotsSucceed (agentMoves w (some (chosenProvider w provider? tr))
          (auditInstruction feature) (auditUrl feature url)
          (guardTrace w feature (chosenTrace provider? tr))) →
        ∀ a, (executeFeatureAudit w testRunId feature url provider? tr).1 = .ok (.verified a) →
          ScreenshotSaved w testRunId
            (runEvents (executeFeatureAudit w testRunId feature url provider?) tr) a) := by
  refine ⟨fun instruction url => ?_, fun feature url => ?_⟩
  · have hrun := run_saved_iff w testRunId instruction url provider? tr
    exact ⟨hrun, fun hid hshots => hrun.mpr (delivers_of_succeed hid hshots)⟩
  · have haudit := audit_saved_iff w testRunId feature url provider? tr
    exact ⟨haudit, fun hid hshots => haudit.mpr fun _ => delivers_of_succeed hid hshots⟩

/-- The search box of the shop passes its guardrail, the agent clicks, and asks for
the screenshot on its second turn. -/
def patientWorld : World :=
  { World.calm with
    gemini := fun t _ =>
      .ok ⟨none, some [(if t < 10 then "playwright_click" else "playwright_screenshot", .obj [])],
        some 1000, some 100⟩ }

theorem patient_audit_saved :
    ∃ a, (executeFeatureAudit patientWorld "7" searchBox "http://localhost:3000"
        (some shopPlanner) []).1 = .ok (.verified a) ∧
      ScreenshotSaved patientWorld "7" (runEvents (executeFeatureAudit patientWorld "7"
        searchBox "http://localhost:3000" (some shopPlanner)) []) a := by
  have hshots : ShotsSucceed (agentMoves patientWorld
      (some (chosenProvider patientWorld (some shopPlanner) [])) (auditInstruction searchBox)
      (auditUrl searchBox "http://localhost:3000")
      (guardTrace patientWorld searchBox (chosenTrace (some shopPlanner) []))) := by
    unfold ShotsSucceed
    decide +kernel
  obtain ⟨a, ha⟩ : ∃ a, (executeFeatureAudit patientWorld "7" searchBox "http://localhost:3000"
      (some shopPlanner) []).1 = .ok (.verified a) :=
    FeatureResult.eq_verified (by decide +kernel)
  exact ⟨a, ha, ((screenshot_saved_iff patientWorld "7" (some shopPlanner) []).2 searchBox
    "http://localhost:3000").2 (by decide) hshots a ha⟩

/-- The browser has gone, and every call of the tool server reports that. -/
def crashedWorld : World :=
  { World.calm with mcpCallTool := fun _ _ _ => .ok ⟨true, ["Target closed"]⟩ }

/-- The run returns and the audit verifies, but nothing was saved. -/
theorem crashed_run_returns :
    (∃ a, (executeTestAutonomous crashedWorld "7" "Check the page" "http://localhost:3000"
        (some shopPlanner) []).1 = .ok a ∧
      ¬ ScreenshotSaved crashedWorld "7" (runEvents (executeTestAutonomous crashedWorld "7"
        "Check the page" "http://localhost:3000" (some shopPlanner)) []) a) ∧
    ∃ a, (executeFeatureAudit crashedWorld "7" searchBox "http://localhost:3000"
        (some shopPlanner) []).1 = .ok (.verified a) ∧
      ¬ ScreenshotSaved crashedWorld "7" (runEvents (executeFeatureAudit crashedWorld "7"
        searchBox "http://localhost:3000" (some shopPlanner)) []) a := by
  have hunsaved : ∀ {es : Trace} {a : Artifacts}, es.any Event.saves = false →
      ¬ ScreenshotSaved crashedWorld "7" es a := by
    rintro es a hes ⟨⟨e, he, hsaves⟩, -⟩
    cases (List.any_eq_true.mpr ⟨e, he, hsaves⟩).symm.trans hes
  have hreturns : (executeTestAutonomous crashedWorld "7" "Check the page" "http://localhost:3000"
      (some shopPlanner) []).1.isOk = true := by
    decide +kernel
  obtain ⟨a, ha⟩ := eq_ok_of_isOk hreturns
  obtain ⟨b, hb⟩ : ∃ b, (executeFeatureAudit crashedWorld "7" searchBox "http://localhost:3000"
      (some shopPlanner) []).1 = .ok (.verified b) :=
    FeatureResult.eq_verified (by decide +kernel)
  exact ⟨⟨a, ha, hunsaved (by decide +kernel)⟩, b, hb, hunsaved (by decide +kernel)⟩

/-! ## The actions of a run -/

/-- At most ten tool calls, and none behind a screenshot. -/
def ActionLimit (es : Trace) : Prop :=
  (es.filter Event.isTool).length ≤ 10 ∧
    es.Pairwise fun e later => e.asksScreenshot = true → later.isTool = false

/-- The tool calls that a turn makes. -/
def Move.actions (m : Move) : Nat :=
  if m.idle then (if m.escalate then 1 else 0) else m.calls.length

/-- No call of the response stands behind a screenshot. -/
def Move.shootsLast (m : Move) : Prop := m.calls.Pairwise fun call _ => call.name ≠ screenshotTool

theorem Move.events_length {m : Move} (h : m.replies.length = m.calls.length) :
    m.events.length = m.actions := by
  cases hidle : m.idle with
  | true =>
    rw [m.events_of_idle hidle, Move.actions, hidle]
    cases m.escalate <;> rfl
  | false => simp [m.events_of_calls hidle, Move.actions, hidle, h]

theorem Move.events_pairwise_iff {m : Move} (h : m.replies.length = m.calls.length) :
    (m.events.Pairwise fun e _ => e.asksScreenshot = false) ↔ m.shootsLast := by
  cases hidle : m.idle with
  | true =>
    rw [m.events_of_idle hidle, Move.shootsLast, m.calls_of_idle hidle]
    cases m.escalate <;> simp
  | false =>
    have hlast : m.shootsLast ↔ ((m.calls.zip m.replies).map Prod.fst).Pairwise
        fun call _ => call.name ≠ screenshotTool := by
      rw [List.map_fst_zip (by omega)]
      rfl
    rw [hlast, m.events_of_calls hidle, List.pairwise_map, List.pairwise_map]
    simp [Event.asksScreenshot]

theorem Move.actions_le_one {m : Move} (h : m.calls.length ≤ 1) : m.actions ≤ 1 := by
  unfold Move.actions
  split
  · split <;> omega
  · exact h

theorem Move.shootsLast_of_one {m : Move} (h : m.calls.length ≤ 1) : m.shootsLast := by
  unfold Move.shootsLast
  match m.calls, h with
  | [], _ => exact .nil
  | [call], _ => exact List.pairwise_singleton _ _

/-- The calls behind a screenshot, among the tool calls alone. -/
theorem pairwise_screenshot_iff (es : Trace) :
    (es.Pairwise fun e later => e.asksScreenshot = true → later.isTool = false) ↔
      (es.filter Event.isTool).Pairwise fun e _ => e.asksScreenshot = false := by
  rw [List.pairwise_filter]
  refine iff_of_eq (congrArg (List.Pairwise · es) ?_)
  funext e later
  have htool := @Event.asksScreenshot_isTool e
  cases hasks : e.asksScreenshot <;> cases hlater : later.isTool <;> simp_all

theorem run_pairwise_iff (w : World) (instruction url : String) (provider? : Option LLMProvider)
    (tr : Trace) :
    (((agentMoves w provider? instruction url tr).flatMap Move.events).Pairwise
        fun e _ => e.asksScreenshot = false) ↔
      ∀ m ∈ agentMoves w provider? instruction url tr, m.shootsLast := by
  rw [List.pairwise_flatMap, and_iff_left]
  · refine forall₂_congr fun m hm => ?_
    exact Move.events_pairwise_iff (agentMoves_replies_length w instruction url provider? tr m hm)
  · refine (agentMoves_ends_last w instruction url provider? tr).imp ?_
    intro m _ hends e he _ _
    cases hasks : e.asksScreenshot with
    | false => rfl
    | true => cases (Move.ends_of_asks he hasks).symm.trans hends

/-- **The action limit.** The ten actions are ten turns: a run keeps to them exactly
when its responses ask for no more, and none asks for a call behind its screenshot. -/
theorem action_limit_iff (w : World) (testRunId instruction url : String)
    (provider? : Option LLMProvider) (tr : Trace) :
    (ActionLimit (runEvents (executeTestAutonomous w testRunId instruction url provider?) tr) ↔
      ((agentMoves w provider? instruction url tr).map Move.actions).sum ≤ 10 ∧
        ∀ m ∈ agentMoves w provider? instruction url tr, m.shootsLast) ∧
    ((∀ m ∈ agentMoves w provider? instruction url tr, m.calls.length ≤ 1) →
      ActionLimit (runEvents (executeTestAutonomous w testRunId instruction url provider?) tr)) := by
  have htools := run_toolEvents w testRunId instruction url provider? tr
  generalize runEvents (executeTestAutonomous w testRunId instruction url provider?) tr = es at htools ⊢
  have hlength : (es.filter Event.isTool).length
      = ((agentMoves w provider? instruction url tr).map Move.actions).sum := by
    rw [htools, List.length_flatMap]
    refine congrArg List.sum (List.map_congr_left fun m hm => ?_)
    exact Move.events_length (agentMoves_replies_length w instruction url provider? tr m hm)
  have hlimit : ActionLimit es ↔
      ((agentMoves w provider? instruction url tr).map Move.actions).sum ≤ 10 ∧
        ∀ m ∈ agentMoves w provider? instruction url tr, m.shootsLast := by
    rw [ActionLimit, hlength, pairwise_screenshot_iff, htools, run_pairwise_iff]
  refine ⟨hlimit, fun hone => hlimit.mpr ⟨?_, ?_⟩⟩
  · calc ((agentMoves w provider? instruction url tr).map Move.actions).sum
        ≤ ((agentMoves w provider? instruction url tr).map Move.actions).length • 1 :=
          List.sum_le_card_nsmul _ 1 (by simpa using fun m hm => m.actions_le_one (hone m hm))
      _ = (agentMoves w provider? instruction url tr).length := by simp
      _ ≤ 10 := agentMoves_length_le w instruction url provider? tr
  · exact fun m hm => m.shootsLast_of_one (hone m hm)

/-- Gemini asks for a screenshot and eleven clicks at once. -/
def clickingWorld : World :=
  { World.calm with
    gemini := fun _ _ => .ok ⟨none, some (("playwright_screenshot", .obj []) ::
      List.replicate 11 ("playwright_click", .obj [])), some 1000, some 100⟩ }

theorem clicking_exceeds_limit :
    ¬ ((runEvents (executeTestAutonomous clickingWorld "7" "Check the page"
        "http://localhost:3000" (some shopPlanner)) []).filter Event.isTool).length ≤ 10 ∧
      ¬ (runEvents (executeTestAutonomous clickingWorld "7" "Check the page"
        "http://localhost:3000" (some shopPlanner)) []).Pairwise
          fun e later => e.asksScreenshot = true → later.isTool = false := by
  refine ⟨?_, ?_⟩ <;> decide +kernel

end AutoQa.LlmAgents

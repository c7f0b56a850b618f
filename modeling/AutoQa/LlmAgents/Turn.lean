import AutoQa.LlmAgents.TestPlanner

/-!
# Rules for the agent loop

What one turn of the loop does to the message list, to the usage table and to
the trace (`TurnSpec`), and the rules by which a relation between a state, a way
out and a trace passes from turns to the loop (`mainLoop_rule`) and from the
loop to the whole of `executeTestAutonomous` (`executeTestAutonomous_rule`).
-/

namespace AutoQa.LlmAgents

open AutoQa.Base

/-! ## Well-formed message lists -/

/-- `replies` answer `calls` one by one, in call order. -/
def Answers (calls : List ToolCall) (replies : List Message) : Prop :=
  replies.map (fun m => (m.role, m.toolCallId, m.name))
    = calls.map (fun c => (Role.tool, some c.id, some c.name))

/-- What one turn adds to the conversation. -/
inductive Block : List Message → Prop
  | calls (a : Message) (calls : List ToolCall) (replies : List Message) :
      a.role = .assistant → a.toolCalls = some calls → calls ≠ [] → Answers calls replies →
      Block (a :: replies)
  | plain (a u : Message) :
      a.role = .assistant → callsOf a.toolCalls = [] → u.role = .user → Block [a, u]

/-! ## The events of a turn -/

/-- An event of the provider call of a turn. -/
def SendEvent (provider : LLMProvider) (turn : Nat) (messages : List Message) (e : Event) : Prop :=
  (∃ forceFallback, e = .generate turn messages forceFallback) ∨
    LlmEvent provider.members messages e

/-- An event of a tool call. -/
inductive ToolEvent : Event → Prop where
  | call (name : String) (args : Json) (reply : Except String ToolResult) :
      ToolEvent (.mcpCall name args reply)
  | screenshot (reply : Except String ToolResult) : ToolEvent (.mcpScreenshot reply)

theorem interact_logs {α : Type} (answer : Nat → Except String α)
    (event : Except String α → Event) :
    Logs (fun r es => es = [event r]) (interact answer event) :=
  fun _ => ⟨_, rfl, rfl⟩

theorem interact_emits {α : Type} {P : Event → Prop} (answer : Nat → Except String α)
    (event : Except String α → Event) (h : ∀ r, P (event r)) : Emits P (interact answer event) :=
  (interact_logs answer event).mono (fun r es hes => by simpa [hes] using h r)

theorem generate_emits (w : World) (provider : LLMProvider) (turn : Nat) (input : GenerateInput) :
    Emits (SendEvent provider turn input.messages) (provider.generate w input) :=
  (provider.generate_logs w input).mono (fun _ _ h e he => .inr (h.1 e he))

theorem sendTurn_emits (w : World) (provider : LLMProvider) (tools : List ToolDefinition)
    (turn : Nat) (messages : List Message) (escalate : Bool) :
    Emits (SendEvent provider turn messages)
      (sendTurn w provider tools turn messages escalate) := by
  refine Emits.tryCatch ?_ ?_
  · exact .bind (.append (.inl ⟨_, rfl⟩)) (fun _ =>
      .bind (generate_emits w provider turn _) (fun _ => .pure _))
  · intro err
    split
    · exact .bind (.append (.inl ⟨_, rfl⟩)) (fun _ =>
        .bind (generate_emits w provider turn _) (fun _ => .pure _))
    · exact .throw _

/-- One call of the provider inside a turn, whose response is handed on. -/
theorem generate_returns (w : World) (provider : LLMProvider) (event : Event)
    (escalate : Bool) (input : GenerateInput) :
    Logs (ReturnsLast fun a : Response × Bool => a.1.usage) (do
      emit event
      let response ← provider.generate w input
      pure (response, escalate)) := by
  apply Logs.bind (Logs.append (R := fun _ _ => True) trivial) (fun _ _ _ _ h => nomatch h)
  intro _ es _
  apply Logs.bind (provider.generate_logs w input) (fun _ _ _ _ h => nomatch h)
  intro response fs hspec
  obtain ⟨-, hr⟩ := hspec
  apply Logs.pure
  intro a heq
  cases heq
  obtain ⟨lost, hlost⟩ := hr response rfl
  exact ⟨receivedUsages es ++ lost, by simp [hlost]⟩

theorem sendTurn_returns (w : World) (provider : LLMProvider) (tools : List ToolDefinition)
    (turn : Nat) (messages : List Message) (escalate : Bool) :
    Logs (ReturnsLast fun a : Response × Bool => a.1.usage)
      (sendTurn w provider tools turn messages escalate) := by
  apply Logs.tryCatch (generate_returns w provider _ escalate _) (fun _ _ h => h)
  intro err es _
  split
  · apply (generate_returns w provider _ false _).mono
    intro r fs hr a ha
    obtain ⟨lost, hlost⟩ := hr a ha
    exact ⟨receivedUsages es ++ lost, by simp [hlost]⟩
  · exact Logs.throw (fun _ h => nomatch h)

/-- A tool call never throws into the loop. -/
theorem toolResultText_logs (w : World) (call : ToolCall) :
    Logs (fun r es => (∃ text, r = .ok text) ∧ ∀ e ∈ es, ToolEvent e)
      (toolResultText w call) := by
  refine Logs.tryCatch (R := fun _ es => ∀ e ∈ es, ToolEvent e) ?_
    (fun text es hes => ⟨⟨text, rfl⟩, hes⟩)
    (fun err es hes => Logs.pure ⟨⟨_, rfl⟩, by simpa using hes⟩)
  exact Emits.bind (interact_emits _ _ (.call call.name call.args)) (fun _ => .ofExcept _)

theorem runToolCalls_logs (w : World) (calls : List ToolCall) : ∀ s : LoopState,
    Logs (fun r es => (∀ e ∈ es, ToolEvent e) ∧ ∃ replies, Answers calls replies ∧
      r = .ok { s with
        isDone := s.isDone || calls.any (·.name == screenshotTool)
        messages := s.messages ++ replies }) (runToolCalls w calls s) := by
  induction calls with
  | nil =>
    intro s
    exact Logs.pure ⟨by simp, [], rfl, by simp⟩
  | cons call calls ih =>
    intro s
    refine Logs.bind (toolResultText_logs w call) ?_ ?_
    · -- a throwing tool call has become a text by now
      rintro e es ⟨⟨text, h⟩, -⟩
      cases h
    · intro text es hspec
      obtain ⟨-, hes⟩ := hspec
      apply (ih _).mono
      intro r fs hspec
      obtain ⟨hfs, replies, hans, rfl⟩ := hspec
      refine ⟨?_, toolMessage call text :: replies, ?_, ?_⟩
      · intro e he
        rcases List.mem_append.mp he with he | he
        · exact hes e he
        · exact hfs e he
      · simp only [Answers, List.map_cons] at hans ⊢
        rw [hans]
        rfl
      · simp [Bool.or_assoc]

theorem noProgress_logs (w : World) (escalate : Bool) (s : LoopState) :
    Logs (fun r es => (∀ e ∈ es, ToolEvent e) ∧ ∀ s', r = .ok s' →
      s'.usageByProvider = s.usageByProvider ∧ s'.currentTurn = s.currentTurn ∧
        (s'.isDone = true ∨ s'.messages = s.messages ++ [nudgeMessage]))
      (noProgress w escalate s) := by
  dsimp only [noProgress]
  split
  · refine Logs.bind (interact_emits (P := ToolEvent) _ _ .screenshot)
      (fun e es hes => ⟨hes, fun _ h => nomatch h⟩) ?_
    intro a es hes
    refine Logs.pure ⟨by simpa using hes, ?_⟩
    intro s' heq
    cases heq
    exact ⟨rfl, rfl, .inl rfl⟩
  · refine Logs.pure ⟨by simp, ?_⟩
    intro s' heq
    cases heq
    exact ⟨rfl, rfl, .inr rfl⟩

/-! ## One turn -/

/-- The turn reads the configuration, asks the provider and runs the tools; the
response it goes on with is the last one it received. -/
structure TurnSpec (provider : LLMProvider) (s : LoopState) (r : Except String LoopState)
    (es : Trace) : Prop where
  events : ∃ body, es = .configRead :: body ∧
    ∀ e ∈ body, SendEvent provider (s.currentTurn + 1) s.messages e ∨ ToolEvent e
  counts : ∀ s', r = .ok s' → ∃ lost u, receivedUsages es = lost ++ [u] ∧
    s'.usageByProvider = addUsage u s.usageByProvider
  grows : ∀ s', r = .ok s' → s'.isDone = true ∨ ∃ b, Block b ∧
    s'.messages = s.messages ++ b ∧ s'.currentTurn = s.currentTurn + 1

theorem answerTurn_logs (w : World) (response : Response) (escalate : Bool) (s : LoopState) :
    Logs (fun r es => (∀ e ∈ es, ToolEvent e) ∧ ∀ s', r = .ok s' →
      s'.usageByProvider = addUsage response.usage s.usageByProvider ∧ (s'.isDone = true ∨
        ∃ b, Block b ∧ s'.messages = s.messages ++ b ∧ s'.currentTurn = s.currentTurn))
      (answerTurn w response escalate (s.absorb response)) := by
  unfold answerTurn
  split
  · -- no tool calls: the turn ends in a screenshot or adds a nudge
    rename_i hcalls
    apply (noProgress_logs w escalate (s.absorb response)).mono
    intro r es hspec
    obtain ⟨hes, hr⟩ := hspec
    refine ⟨hes, ?_⟩
    intro s' hok
    obtain ⟨husage, hturn, hmsg⟩ := hr s' hok
    refine ⟨husage, hmsg.imp id ?_⟩
    intro hmsg
    refine ⟨[assistantMessage response, nudgeMessage], .plain _ _ rfl hcalls rfl, ?_, hturn⟩
    rw [hmsg]
    simp [LoopState.absorb]
  · -- tool calls: their replies follow the assistant message
    rename_i hcalls
    apply (runToolCalls_logs w (callsOf response.toolCalls) _).mono
    intro r es hspec
    obtain ⟨hes, replies, hans, rfl⟩ := hspec
    refine ⟨hes, ?_⟩
    intro s' heq
    cases heq
    refine ⟨rfl, .inr ⟨assistantMessage response :: replies, ?_, ?_, rfl⟩⟩
    · cases htc : response.toolCalls with
      | none => simp [callsOf, htc] at hcalls
      | some calls =>
        rw [htc] at hans hcalls
        exact .calls _ calls replies rfl htc hcalls hans
    · simp [LoopState.absorb]

theorem receivedUsages_tools {es : Trace} (h : ∀ e ∈ es, ToolEvent e) : receivedUsages es = [] := by
  apply List.filterMap_eq_nil_iff.mpr
  intro e he
  cases h e he <;> rfl

theorem turn_logs (w : World) (provider : LLMProvider) (tools : List ToolDefinition)
    (s : LoopState) : Logs (TurnSpec provider s) (turn w provider tools s) := by
  refine Logs.bind (interact_logs _ _) ?_ ?_
  · intro e es heq
    subst heq
    exact ⟨⟨[], rfl, by simp⟩, (fun _ h => nomatch h), (fun _ h => nomatch h)⟩
  intro file cs heq
  subst heq
  refine Logs.bind ((sendTurn_emits w provider tools _ _ _).and
    (sendTurn_returns w provider tools _ _ _)) ?_ ?_
  · intro e es hspec
    obtain ⟨hes, -⟩ := hspec
    exact ⟨⟨es, rfl, fun e he => .inl (hes e he)⟩, (fun _ h => nomatch h), (fun _ h => nomatch h)⟩
  rintro ⟨response, escalate⟩ es ⟨hes, hret⟩
  refine (answerTurn_logs w response escalate
    { s with currentTurn := s.currentTurn + 1 }).mono ?_
  intro r fs hspec
  obtain ⟨hfs, hr⟩ := hspec
  refine ⟨⟨es ++ fs, rfl, ?_⟩, ?_, fun s' hok => (hr s' hok).2⟩
  · intro e he
    rcases List.mem_append.mp he with he | he
    · exact .inl (hes e he)
    · exact .inr (hfs e he)
  · intro s' hok
    obtain ⟨lost, hlost⟩ := hret _ rfl
    refine ⟨lost, response.usage, ?_, (hr s' hok).1⟩
    simp only [receivedUsages_append, receivedUsages_tools hfs, hlost]
    simp [receivedUsages]

/-! ## The loop -/

theorem mainLoop_done (w : World) (provider : LLMProvider) (tools : List ToolDefinition)
    (startTime left : Nat) {s : LoopState} (h : s.isDone = true) :
    mainLoop w provider tools startTime left s = pure s := by
  cases left <;> simp [mainLoop, h]

/-- A relation that holds of every way to stop, and that a turn carries from
the rest of the loop to the whole of it, holds of the loop. -/
theorem mainLoop_rule {R : LoopState → Except String LoopState → Trace → Prop} (w : World)
    (provider : LLMProvider) (tools : List ToolDefinition) (startTime : Nat)
    (hdone : ∀ s, R s (.ok s) [])
    (hlimit : ∀ s e es, es = [] ∨ es = [.clockRead] → R s (.error e) es)
    (hfail : ∀ s e es, TurnSpec provider s (.error e) es → R s (.error e) (.clockRead :: es))
    (hturn : ∀ s s' es r fs, TurnSpec provider s (.ok s') es →
      (s'.isDone = true → r = .ok s' ∧ fs = []) → R s' r fs → R s r (.clockRead :: es ++ fs))
    (left : Nat) : ∀ s, Logs (R s) (mainLoop w provider tools startTime left s) := by
  induction left with
  | zero =>
    intro s
    unfold mainLoop
    split
    · exact Logs.pure (hdone s)
    · exact Logs.throw (hlimit s _ _ (.inl rfl))
  | succ left ih =>
    intro s
    unfold mainLoop
    split
    · exact Logs.pure (hdone s)
    refine Logs.bind (interact_logs _ _) ?_ ?_
    · intro e es heq
      subst heq
      exact hlimit s e _ (.inr rfl)
    intro now cs heq
    subst heq
    split
    · exact Logs.throw (hlimit s _ _ (.inr rfl))
    apply Logs.bind (turn_logs w provider tools s) (fun e es h => hfail s e es h)
    intro s' es h
    -- the rest of the loop is nothing when the turn was the last one
    by_cases hd : s'.isDone = true
    · rw [mainLoop_done w provider tools startTime left hd]
      exact Logs.pure (hturn s s' es _ [] h (fun _ => ⟨rfl, rfl⟩) (hdone s'))
    · apply (ih s').mono
      intro r fs hr
      have hall := hturn s s' es r fs h (fun hd' => absurd hd' hd) hr
      simpa using hall

/-! ## The whole run -/

/-- The loop passed `messages` to `provider.generate` on turn `t`. -/
def Passed (tr : Trace) (t : Nat) (messages : List Message) : Prop :=
  ∃ forceFallback, Event.generate t messages forceFallback ∈ tr

theorem Passed.append {es fs : Trace} {t : Nat} {messages : List Message} :
    Passed (es ++ fs) t messages ↔ Passed es t messages ∨ Passed fs t messages := by
  simp only [Passed, List.mem_append, exists_or]

/-- An event outside the loop: neither a provider call nor a tool call. -/
def Outside (e : Event) : Prop :=
  e = .clockRead ∨ e = .configRead ∨ e = .mcpConnect ∨ e = .mcpListTools ∨ e = .mcpClose

theorem receivedUsages_outside {es : Trace} (h : ∀ e ∈ es, Outside e) : receivedUsages es = [] := by
  apply List.filterMap_eq_nil_iff.mpr
  intro e he
  rcases h e he with rfl | rfl | rfl | rfl | rfl <;> rfl

theorem not_passed_outside {es : Trace} (h : ∀ e ∈ es, Outside e) {t : Nat}
    {messages : List Message} : ¬ Passed es t messages := by
  rintro ⟨f, hf⟩
  rcases h _ hf with h | h | h | h | h <;> cases h

/-- One step outside the loop, in a run whose events so far are `pre`. -/
theorem interact_outside {α β : Type} {T : Except String β → Trace → Prop}
    (hstop : ∀ e es, (∀ e ∈ es, Outside e) → T (.error e) es) {pre : Trace}
    (hpre : ∀ e ∈ pre, Outside e) {event : Event} (hevent : Outside event)
    (answer : Nat → Except String α) {k : α → Prog Trace β}
    (hk : ∀ a, (∀ e ∈ pre ++ [event], Outside e) →
      Logs (fun r es => T r (pre ++ [event] ++ es)) (k a)) :
    Logs (fun r es => T r (pre ++ es)) (interact answer (fun _ => event) >>= k) := by
  have hout : ∀ e ∈ pre ++ [event], Outside e := by
    simpa [or_imp, forall_and] using ⟨hpre, hevent⟩
  refine Logs.bind (interact_logs _ _) ?_ ?_
  · intro e es heq
    subst heq
    exact hstop e _ hout
  · intro a es heq
    subst heq
    simpa using hk a hout

/-- From the loop to the run around it: the set-up may throw, and closing the
client may replace the loop's way out. -/
theorem executeTestAutonomous_rule {L : Except String LoopState → Trace → Prop}
    {T : Except String Artifacts → Trace → Prop} (w : World) (testRunId instruction url : String)
    (provider? : Option LLMProvider)
    (hloop : ∀ provider tools startTime, Logs L
      (mainLoop w provider tools startTime maxTurns (initialState instruction url)))
    (hstop : ∀ e es, (∀ e ∈ es, Outside e) → T (.error e) es)
    (hdone : ∀ s pre es post, L (.ok s) es → (∀ e ∈ pre ++ post, Outside e) →
      T (.ok (loopArtifacts w testRunId s)) (pre ++ es ++ post))
    (hfail : ∀ r e pre es post, L r es → (∀ e ∈ pre ++ post, Outside e) →
      T (.error e) (pre ++ es ++ post)) :
    Logs T (executeTestAutonomous w testRunId instruction url provider?) := by
  -- `pre` collects the set-up events, one step after the other
  have hbody : ∀ (provider : LLMProvider) (pre : Trace), (∀ e ∈ pre, Outside e) →
      Logs (fun r es => T r (pre ++ es)) (do
        interact w.mcpConnect fun _ => .mcpConnect
        let tools ← interact w.mcpListTools fun _ => .mcpListTools
        let startTime ← dateNow w
        let s ← Prog.tryFinally
          (mainLoop w provider tools startTime maxTurns (initialState instruction url))
          (interact w.mcpClose fun _ => .mcpClose)
        pure (loopArtifacts w testRunId s)) := by
    intro provider pre hpre
    refine interact_outside hstop hpre (by simp [Outside]) _ (fun _ hpre => ?_)
    refine interact_outside hstop hpre (by simp [Outside]) _ (fun tools hpre => ?_)
    refine interact_outside hstop hpre (by simp [Outside]) _ (fun startTime hpre => ?_)
    have hout : ∀ e ∈ (pre ++ [.mcpConnect] ++ [.mcpListTools] ++ [.clockRead]) ++ [Event.mcpClose],
        Outside e := by
      simpa [Outside, or_imp, forall_and] using hpre
    -- closing the client can turn a return into a throw, never the other way round
    refine Logs.bind (R := fun r es => match r with
      | .ok s => ∃ fs, L (.ok s) fs ∧ es = fs ++ [.mcpClose]
      | .error _ => ∃ r' fs, L r' fs ∧ es = fs ++ [.mcpClose])
      (Logs.tryFinally (hloop provider tools startTime) (interact_logs _ _) ?_ ?_) ?_ ?_
    · intro r es fs hes heq
      subst heq
      cases r with
      | ok s => exact ⟨es, hes, rfl⟩
      | error e => exact ⟨_, es, hes, rfl⟩
    · intro r es e fs hes heq
      subst heq
      exact ⟨r, es, hes, rfl⟩
    · intro e _ hspec
      obtain ⟨r, es, hes, rfl⟩ := hspec
      simpa using hfail r e _ es _ hes hout
    · intro s _ hspec
      obtain ⟨es, hes, rfl⟩ := hspec
      exact Logs.pure (by simpa using hdone s _ es _ hes hout)
  cases provider? with
  | some provider => exact hbody provider [] (by simp)
  | none =>
    have hassoc : executeTestAutonomous w testRunId instruction url none
        = (readConfig w >>= fun file =>
          executeTestAutonomous w testRunId instruction url
            (some (roleProvider w.env .testPlanner file))) := rfl
    rw [hassoc]
    show Logs (fun r es => T r ([] ++ es)) _
    exact interact_outside hstop (by simp) (.inr (.inl rfl)) _ (fun file hpre => hbody _ _ hpre)

/-- The events of an agent run: those around the loop, of its provider calls
and of its tool calls. -/
inductive AgentEvent : Event → Prop where
  | outside {e : Event} (h : Outside e) : AgentEvent e
  | generate (turn : Nat) (messages : List Message) (forceFallback : Bool) :
      AgentEvent (.generate turn messages forceFallback)
  | sent (p : SingleProvider) (messages : List Message) : AgentEvent (.sent p messages)
  | received (u : Usage) : AgentEvent (.received u)
  | tool {e : Event} (h : ToolEvent e) : AgentEvent e

theorem TurnSpec.agentEvents {provider : LLMProvider} {s : LoopState} {r : Except String LoopState}
    {es : Trace} (h : TurnSpec provider s r es) : ∀ e ∈ Event.clockRead :: es, AgentEvent e := by
  obtain ⟨body, rfl, hbody⟩ := h.events
  intro e he
  rcases List.mem_cons.mp he with rfl | he
  · exact .outside (.inl rfl)
  rcases List.mem_cons.mp he with rfl | he
  · exact .outside (.inr (.inl rfl))
  rcases hbody e he with (⟨f, rfl⟩ | ⟨p, -, rfl | ⟨v, rfl, -⟩⟩) | htool
  · exact .generate _ _ f
  · exact .sent p _
  · exact .received v
  · exact .tool htool

theorem executeTestAutonomous_emits (w : World) (testRunId instruction url : String)
    (provider? : Option LLMProvider) :
    Emits AgentEvent (executeTestAutonomous w testRunId instruction url provider?) := by
  have happend : ∀ es fs : Trace, (∀ e ∈ es, AgentEvent e) → (∀ e ∈ fs, AgentEvent e) →
      ∀ e ∈ es ++ fs, AgentEvent e := by
    intro es fs hes hfs e he
    exact (List.mem_append.mp he).elim (hes e) (hfs e)
  have hloop : ∀ provider tools startTime, Logs (fun _ es => ∀ e ∈ es, AgentEvent e)
      (mainLoop w provider tools startTime maxTurns (initialState instruction url)) := by
    intro provider tools startTime
    refine mainLoop_rule (R := fun _ _ es => ∀ e ∈ es, AgentEvent e) w provider tools startTime
      (fun _ => by simp) ?_ ?_ ?_ maxTurns _
    · rintro s e es (rfl | rfl)
      · simp
      · simpa using AgentEvent.outside (.inl rfl)
    · intro s e es h
      exact h.agentEvents
    · intro s s' es r fs h _ hrest
      exact happend _ _ h.agentEvents hrest
  have haround : ∀ pre es post : Trace, (∀ e ∈ es, AgentEvent e) →
      (∀ e ∈ pre ++ post, Outside e) → ∀ e ∈ pre ++ es ++ post, AgentEvent e := by
    intro pre es post hes hout
    refine happend _ _ (happend _ _ (fun e he => .outside (hout e ?_)) hes)
      (fun e he => .outside (hout e ?_))
    · exact List.mem_append_left post he
    · exact List.mem_append_right pre he
  exact executeTestAutonomous_rule w testRunId instruction url provider? hloop
    (fun e es hes e' he' => .outside (hes e' he'))
    (fun s pre es post hes hout => haround pre es post hes hout)
    (fun r e pre es post hes hout => haround pre es post hes hout)

/-! ## The run, set-up by set-up -/

/-- The agent run, once its tools are known. -/
def toolRun (w : World) (testRunId instruction url : String) (tools : List ToolDefinition)
    (startTime : Nat) (provider : LLMProvider) : Prog Trace Artifacts := do
  let s ← Prog.tryFinally
    (mainLoop w provider tools startTime maxTurns (initialState instruction url))
    (interact w.mcpClose fun _ => .mcpClose)
  pure (loopArtifacts w testRunId s)

/-- The run ends before its loop, in the same way for every provider, or the tools
are known and the loop follows. -/
theorem executeTestAutonomous_cases (w : World) (testRunId instruction url : String) (tr : Trace) :
    (∃ e es, (∀ provider, executeTestAutonomous w testRunId instruction url (some provider) tr
        = (.error e, tr ++ es)) ∧ (∀ x ∈ es, Outside x) ∧ ¬ (w.mcpConnect (elapsed tr) = .ok () ∧
          ∃ tools, w.mcpListTools (elapsed tr + 1) = .ok tools)) ∨
      ∃ tools, w.mcpConnect (elapsed tr) = .ok () ∧ w.mcpListTools (elapsed tr + 1) = .ok tools ∧
        ∀ provider, executeTestAutonomous w testRunId instruction url (some provider) tr
          = toolRun w testRunId instruction url tools (w.now (elapsed tr + 2)) provider
              (tr ++ [.mcpConnect] ++ [.mcpListTools] ++ [.clockRead]) := by
  have hrun : ∀ provider, executeTestAutonomous w testRunId instruction url (some provider) = (do
      interact w.mcpConnect fun _ => .mcpConnect
      let tools ← interact w.mcpListTools fun _ => .mcpListTools
      let startTime ← dateNow w
      toolRun w testRunId instruction url tools startTime provider) := fun _ => rfl
  simp only [hrun]
  have hconnect : interact w.mcpConnect (fun _ => Event.mcpConnect) tr
      = (w.mcpConnect (elapsed tr), tr ++ [.mcpConnect]) := rfl
  have hlist : interact w.mcpListTools (fun _ => Event.mcpListTools) (tr ++ [.mcpConnect])
      = (w.mcpListTools (elapsed tr + 1), tr ++ [.mcpConnect] ++ [.mcpListTools]) := by
    simp [interact]
  have hclock : dateNow w (tr ++ [.mcpConnect] ++ [.mcpListTools])
      = (.ok (w.now (elapsed tr + 2)), tr ++ [.mcpConnect] ++ [.mcpListTools] ++ [.clockRead]) := by
    simp [dateNow, interact]
  cases hc : w.mcpConnect (elapsed tr) with
  | error e =>
    rw [hc] at hconnect
    exact .inl ⟨e, _, fun _ => Prog.bind_error hconnect, by simp [Outside], by simp⟩
  | ok u =>
    rw [hc] at hconnect
    cases hl : w.mcpListTools (elapsed tr + 1) with
    | error e =>
      rw [hl] at hlist
      rw [List.append_assoc] at hlist
      exact .inl ⟨e, _, fun _ => (Prog.bind_ok hconnect).trans (Prog.bind_error hlist),
        by simp [Outside], by simp⟩
    | ok tools =>
      rw [hl] at hlist
      exact .inr ⟨tools, rfl, rfl, fun _ =>
        (Prog.bind_ok hconnect).trans ((Prog.bind_ok hlist).trans (Prog.bind_ok hclock))⟩

/-- Closing the client adds one event. -/
theorem toolRun_trace (w : World) (testRunId instruction url : String)
    (tools : List ToolDefinition) (startTime : Nat) (provider : LLMProvider) (tr : Trace) :
    (toolRun w testRunId instruction url tools startTime provider tr).2
      = (mainLoop w provider tools startTime maxTurns (initialState instruction url) tr).2
          ++ [.mcpClose] := by
  rw [toolRun, Prog.bind_apply]
  simp only [Prog.tryFinally, interact]
  cases mainLoop w provider tools startTime maxTurns (initialState instruction url) tr with
  | mk r t =>
  cases w.mcpClose (elapsed t) with
  | error e => rfl
  | ok u => cases r <;> rfl

end AutoQa.LlmAgents

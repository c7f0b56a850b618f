import AutoQa.LlmAgents.Turn

/-!
# The agent as a machine driven by moves

On each turn the surroundings make one move: the provider responds and the tool
server replies to the calls. The moves of a run determine the rest of it, and
`LoopState.after` says how. `LoopRun` is the loop as a derivation: the moves it
takes, its way out and its trace.
-/

namespace AutoQa.LlmAgents

open AutoQa.Base

/-! ## Moves -/

/-- What the surroundings do on one turn. -/
structure Move where
  /-- The value of `escalate` with which the turn ends. -/
  escalate : Bool
  response : Response
  /-- The replies to the calls of the response, in order. -/
  replies : List (Except String ToolResult)
  /-- The reply to the screenshot of the agent's own, if it comes to that. -/
  final : Except String ToolResult

def Move.calls (m : Move) : List ToolCall := callsOf m.response.toolCalls

/-- The replies of the tool server to `calls`, the first of them at `time`. -/
def repliesAt (w : World) : List ToolCall → Nat → List (Except String ToolResult)
  | [], _ => []
  | call :: calls, time => w.mcpCallTool time call.name call.args :: repliesAt w calls (time + 1)

/-- The move that follows a response which arrived at `time`. -/
def moveAt (w : World) (response : Response) (escalate : Bool) (time : Nat) : Move :=
  ⟨escalate, response, repliesAt w (callsOf response.toolCalls) time,
    w.mcpCallTool time screenshotTool (.obj [])⟩

/-- What `toolResultText` is once the call has returned or thrown. -/
def resultText : Except String String → String
  | .ok text => text
  | .error e => "Error executing tool: " ++ e

/-- The content of the tool message for a reply. -/
def replyText (reply : Except String ToolResult) : String := resultText (reply.bind firstText)

/-- The tool messages that answer `calls`. -/
def toolMessages (calls : List ToolCall) (replies : List (Except String ToolResult)) :
    List Message :=
  List.zipWith (fun call reply => toolMessage call (replyText reply)) calls replies

/-- The tool calls of a turn as events. -/
def Move.events (m : Move) : Trace :=
  match m.calls with
  | [] => if m.escalate then [.mcpScreenshot m.final] else []
  | calls => List.zipWith (fun call reply => .mcpCall call.name call.args reply) calls m.replies

/-- The state once the response is counted and pushed. -/
def LoopState.heard (s : LoopState) (m : Move) : LoopState :=
  LoopState.absorb { s with currentTurn := s.currentTurn + 1 } m.response

/-- The model called no tool and is asked to go on. -/
def LoopState.nudged (s : LoopState) (m : Move) : LoopState :=
  { s.heard m with
    noProgressTurns := s.noProgressTurns + 1
    messages := (s.heard m).messages ++ [nudgeMessage] }

/-- The model called no tool and the agent took the screenshot itself. -/
def LoopState.stuck (s : LoopState) (m : Move) : LoopState :=
  { s.heard m with noProgressTurns := s.noProgressTurns + 1, isDone := true }

/-- The model's calls were made. -/
def LoopState.called (s : LoopState) (m : Move) : LoopState :=
  { s.heard m with
    noProgressTurns := 0
    isDone := s.isDone || m.calls.any (·.name == screenshotTool)
    messages := (s.heard m).messages ++ toolMessages m.calls m.replies }

/-- The state after a turn, or the exception of the agent's own screenshot. -/
def LoopState.after (s : LoopState) (m : Move) : Except String LoopState :=
  match m.calls with
  | [] => if m.escalate then m.final.map fun _ => s.stuck m else .ok (s.nudged m)
  | _ :: _ => .ok (s.called m)

/-! ## One turn -/

theorem toolResultText_eq (w : World) (call : ToolCall) (tr : Trace) :
    toolResultText w call tr = (.ok (replyText (w.mcpCallTool (elapsed tr) call.name call.args)),
      tr ++ [.mcpCall call.name call.args (w.mcpCallTool (elapsed tr) call.name call.args)]) := by
  generalize hreply : w.mcpCallTool (elapsed tr) call.name call.args = reply
  have hcall : callTool w call.name call.args (.mcpCall call.name call.args) tr
      = (reply, tr ++ [.mcpCall call.name call.args reply]) := by
    rw [← hreply]
    rfl
  have hrun : (callTool w call.name call.args (.mcpCall call.name call.args) >>= fun result =>
      Prog.ofExcept (firstText result)) tr
        = (reply.bind firstText, tr ++ [.mcpCall call.name call.args reply]) := by
    cases reply with
    | error e => exact Prog.bind_error hcall
    | ok result => exact Prog.bind_ok hcall
  rw [toolResultText, replyText]
  cases htext : reply.bind firstText with
  | ok text =>
    rw [htext] at hrun
    exact Prog.tryCatch_ok hrun
  | error e =>
    rw [htext] at hrun
    exact Prog.tryCatch_error hrun

theorem runToolCalls_eq (w : World) (calls : List ToolCall) : ∀ (s : LoopState) (tr : Trace),
    runToolCalls w calls s tr
      = (.ok { s with
          isDone := s.isDone || calls.any (·.name == screenshotTool)
          messages := s.messages ++ toolMessages calls (repliesAt w calls (elapsed tr)) },
        tr ++ List.zipWith (fun call reply => .mcpCall call.name call.args reply) calls
          (repliesAt w calls (elapsed tr))) := by
  induction calls with
  | nil =>
    intro s tr
    simp [runToolCalls, toolMessages, repliesAt]
  | cons call calls ih =>
    intro s tr
    rw [runToolCalls, Prog.bind_ok (toolResultText_eq w call tr), ih]
    simp [toolMessages, repliesAt, Bool.or_assoc]

/-- `escalate` can only be true on a turn that starts with the counter at its limit. -/
theorem answerTurn_eq (w : World) (response : Response) {escalate : Bool} {s : LoopState}
    (h : escalate = true → maxNoProgress ≤ s.noProgressTurns) (tr : Trace) :
    answerTurn w response escalate
        (LoopState.absorb { s with currentTurn := s.currentTurn + 1 } response) tr
      = (s.after (moveAt w response escalate (elapsed tr)),
          tr ++ (moveAt w response escalate (elapsed tr)).events) := by
  cases hcalls : callsOf response.toolCalls with
  | nil =>
    have hmove : (moveAt w response escalate (elapsed tr)).calls = [] := hcalls
    simp only [answerTurn, hcalls, LoopState.after, Move.events, hmove]
    cases escalate with
    | false => simp [noProgress, LoopState.nudged, LoopState.heard, LoopState.absorb, moveAt]
    | true =>
      have hcount : maxNoProgress ≤ s.noProgressTurns + 1 := Nat.le_succ_of_le (h rfl)
      have hshot : callTool w screenshotTool (.obj []) .mcpScreenshot tr
          = (w.mcpCallTool (elapsed tr) screenshotTool (.obj []),
              tr ++ [.mcpScreenshot (w.mcpCallTool (elapsed tr) screenshotTool (.obj []))]) := rfl
      simp only [noProgress, LoopState.absorb, moveAt, hcount, decide_true, Bool.and_true, if_true]
      cases hreply : w.mcpCallTool (elapsed tr) screenshotTool (.obj []) with
      | error e =>
        rw [hreply] at hshot
        exact Prog.bind_error hshot
      | ok result =>
        rw [hreply] at hshot
        exact Prog.bind_ok hshot
  | cons call calls =>
    have hmove : (moveAt w response escalate (elapsed tr)).calls = call :: calls := hcalls
    simp only [answerTurn, hcalls, LoopState.after, Move.events, hmove]
    rw [runToolCalls_eq]
    simp [LoopState.called, LoopState.heard, LoopState.absorb, moveAt, hcalls, Move.calls]

/-- The flag with which a turn asks its provider. -/
def escalates (w : World) (s : LoopState) (tr : Trace) : Bool :=
  escalateToCloud (w.configFile (elapsed tr)) && s.noProgressTurns ≥ maxNoProgress

/-- The provider call of a turn that starts after `tr`. -/
def asks (w : World) (provider : LLMProvider) (tools : List ToolDefinition) (s : LoopState)
    (tr : Trace) : Except String (Response × Bool) × Trace :=
  sendTurn w provider tools (s.currentTurn + 1) s.messages (escalates w s tr) (tr ++ [.configRead])

/-- A call returns the flag it was made with. -/
theorem call_flag (w : World) (provider : LLMProvider) (tools : List ToolDefinition) (turn : Nat)
    (messages : List Message) (flag : Bool) :
    Logs (fun r (_ : Trace) => ∀ a : Response × Bool, r = .ok a → a.2 = flag) (do
      emit (.generate turn messages flag)
      let response ← provider.generate w { messages, tools := some tools, forceFallback := flag }
      pure (response, flag)) := by
  refine Logs.bind (Logs.append (R := fun _ _ => True) trivial) (fun _ _ _ _ h => by cases h) ?_
  intro _ _ _
  refine Logs.bind ((provider.generate_logs w _).mono (fun _ _ _ => trivial))
    (R := fun _ _ => True) (fun _ _ _ _ h => by cases h) ?_
  intro response _ _
  apply Logs.pure
  intro a heq
  cases heq
  rfl

/-- A retry takes the flag back; nothing sets it. -/
theorem sendTurn_flag {w : World} {provider : LLMProvider} {tools : List ToolDefinition}
    {turn : Nat} {messages : List Message} {escalate : Bool} {tr t : Trace} {response : Response}
    (h : sendTurn w provider tools turn messages escalate tr = (.ok (response, true), t)) :
    escalate = true := by
  have hsends : Logs (fun r (_ : Trace) => ∀ a : Response × Bool, r = .ok a → a.2 = true →
      escalate = true) (sendTurn w provider tools turn messages escalate) := by
    refine Logs.tryCatch (call_flag w provider tools turn messages escalate) ?_ ?_
    · intro a es ha b heq hb
      rw [← ha b heq, hb]
    · intro err es _
      split
      · refine (call_flag w provider tools turn messages false).mono ?_
        intro r _ hflag a heq ha
        cases (hflag a heq).symm.trans ha
      · exact Logs.throw (fun _ h => nomatch h)
  obtain ⟨es, -, hr⟩ := hsends tr
  exact hr _ (congrArg Prod.fst h) rfl

theorem turn_eq_error {w : World} {provider : LLMProvider} {tools : List ToolDefinition}
    {s : LoopState} {tr t : Trace} {e : String} (h : asks w provider tools s tr = (.error e, t)) :
    turn w provider tools s tr = (.error e, t) := by
  have hread : readConfig w tr = (.ok (w.configFile (elapsed tr)), tr ++ [.configRead]) := rfl
  rw [turn, Prog.bind_ok hread]
  exact Prog.bind_error h

theorem turn_eq {w : World} {provider : LLMProvider} {tools : List ToolDefinition} {s : LoopState}
    {tr t : Trace} {response : Response} {escalate : Bool}
    (h : asks w provider tools s tr = (.ok (response, escalate), t)) :
    turn w provider tools s tr = (s.after (moveAt w response escalate (elapsed t)),
      t ++ (moveAt w response escalate (elapsed t)).events) := by
  have hread : readConfig w tr = (.ok (w.configFile (elapsed tr)), tr ++ [.configRead]) := rfl
  have hcount : escalate = true → maxNoProgress ≤ s.noProgressTurns := by
    rintro rfl
    have hflag := sendTurn_flag h
    simp only [escalates, Bool.and_eq_true, decide_eq_true_eq] at hflag
    exact hflag.2
  rw [turn, Prog.bind_ok hread]
  exact (Prog.bind_ok h).trans (answerTurn_eq w response hcount t)

/-! ## The loop -/

section Loop

variable (w : World) (provider : LLMProvider) (tools : List ToolDefinition) (startTime : Nat)

/-- The moves that the loop takes. -/
def loopMoves : Nat → LoopState → Trace → List Move
  | 0, _, _ => []
  | left + 1, s, tr =>
      if s.isDone || w.now (elapsed tr) - startTime > timeoutMs then []
      else
        match asks w provider tools s (tr ++ [.clockRead]) with
        | (.error _, _) => []
        | (.ok (response, escalate), t) =>
            let m := moveAt w response escalate (elapsed t)
            m :: match s.after m with
              | .ok s' => loopMoves left s' (t ++ m.events)
              | .error _ => []

/-- The trace when the loop is over. -/
def loopEnd : Nat → LoopState → Trace → Trace
  | 0, _, tr => tr
  | left + 1, s, tr =>
      if s.isDone then tr
      else if w.now (elapsed tr) - startTime > timeoutMs then tr ++ [.clockRead]
      else
        match asks w provider tools s (tr ++ [.clockRead]) with
        | (.error _, t) => t
        | (.ok (response, escalate), t) =>
            let m := moveAt w response escalate (elapsed t)
            match s.after m with
            | .ok s' => loopEnd left s' (t ++ m.events)
            | .error _ => t ++ m.events

/-- The loop from the state `s` and the trace `tr` on: its moves, its way out and
its trace at the end. -/
inductive LoopRun : Nat → LoopState → Trace → List Move → Except String LoopState → Trace → Prop
  | done {left : Nat} {s : LoopState} {tr : Trace} : s.isDone = true →
      LoopRun left s tr [] (.ok s) tr
  | turnLimit {s : LoopState} {tr : Trace} : s.isDone = false →
      LoopRun 0 s tr [] (.error "Max turns (10) reached without taking a screenshot.") tr
  | timeLimit {left : Nat} {s : LoopState} {tr : Trace} : s.isDone = false →
      w.now (elapsed tr) - startTime > timeoutMs →
      LoopRun (left + 1) s tr [] (.error "Wall-clock timeout of 60000ms exceeded.")
        (tr ++ [.clockRead])
  | threw {left : Nat} {s : LoopState} {tr t : Trace} {e : String} : s.isDone = false →
      asks w provider tools s (tr ++ [.clockRead]) = (.error e, t) →
      LoopRun (left + 1) s tr [] (.error e) t
  | unsaved {left : Nat} {s : LoopState} {tr t : Trace} {response : Response} {escalate : Bool}
      {e : String} : s.isDone = false →
      asks w provider tools s (tr ++ [.clockRead]) = (.ok (response, escalate), t) →
      s.after (moveAt w response escalate (elapsed t)) = .error e →
      LoopRun (left + 1) s tr [moveAt w response escalate (elapsed t)] (.error e)
        (t ++ (moveAt w response escalate (elapsed t)).events)
  | turn {left : Nat} {s s' : LoopState} {tr t u : Trace} {response : Response} {escalate : Bool}
      {ms : List Move} {r : Except String LoopState} : s.isDone = false →
      asks w provider tools s (tr ++ [.clockRead]) = (.ok (response, escalate), t) →
      s.after (moveAt w response escalate (elapsed t)) = .ok s' →
      LoopRun left s' (t ++ (moveAt w response escalate (elapsed t)).events) ms r u →
      LoopRun (left + 1) s tr (moveAt w response escalate (elapsed t) :: ms) r u

/-- The loop is such a run, with `loopMoves` as its moves. -/
theorem mainLoop_run (left : Nat) : ∀ (s : LoopState) (tr : Trace),
    LoopRun w provider tools startTime left s tr
      (loopMoves w provider tools startTime left s tr)
      (mainLoop w provider tools startTime left s tr).1
      (mainLoop w provider tools startTime left s tr).2 := by
  induction left with
  | zero =>
    intro s tr
    cases hdone : s.isDone with
    | true =>
      rw [mainLoop_done w provider tools startTime 0 hdone]
      exact .done hdone
    | false =>
      simp only [mainLoop, hdone]
      exact .turnLimit hdone
  | succ left ih =>
    intro s tr
    cases hdone : s.isDone with
    | true =>
      rw [mainLoop_done w provider tools startTime _ hdone]
      simp only [loopMoves, hdone, Bool.true_or, if_true]
      exact .done hdone
    | false =>
      have hnow : dateNow w tr = (.ok (w.now (elapsed tr)), tr ++ [.clockRead]) := rfl
      simp only [mainLoop, loopMoves, hdone, Bool.false_or, Bool.false_eq_true, if_false]
      rw [Prog.bind_ok hnow]
      by_cases htime : w.now (elapsed tr) - startTime > timeoutMs
      · simp only [htime, if_true]
        exact .timeLimit hdone htime
      · simp only [htime, decide_false, Bool.false_eq_true, if_false]
        cases hasks : asks w provider tools s (tr ++ [.clockRead]) with
        | mk r t =>
        cases r with
        | error e =>
          rw [Prog.bind_error (turn_eq_error hasks)]
          exact .threw hdone hasks
        | ok a =>
          obtain ⟨response, escalate⟩ := a
          have hturn := turn_eq hasks
          cases hafter : s.after (moveAt w response escalate (elapsed t)) with
          | error e =>
            rw [hafter] at hturn
            rw [Prog.bind_error hturn]
            simp only [hafter]
            exact .unsaved hdone hasks hafter
          | ok s' =>
            rw [hafter] at hturn
            rw [Prog.bind_ok hturn]
            simp only [hafter]
            exact .turn hdone hasks hafter (ih s' _)

theorem mainLoop_end (left : Nat) : ∀ (s : LoopState) (tr : Trace),
    (mainLoop w provider tools startTime left s tr).2
      = loopEnd w provider tools startTime left s tr := by
  induction left with
  | zero =>
    intro s tr
    cases hdone : s.isDone <;> simp [mainLoop, loopEnd, hdone, Prog.throw]
  | succ left ih =>
    intro s tr
    cases hdone : s.isDone with
    | true =>
      rw [mainLoop_done w provider tools startTime _ hdone]
      simp [loopEnd, hdone]
    | false =>
      have hnow : dateNow w tr = (.ok (w.now (elapsed tr)), tr ++ [.clockRead]) := rfl
      simp only [mainLoop, loopEnd, hdone, Bool.false_eq_true, if_false]
      rw [Prog.bind_ok hnow]
      by_cases htime : w.now (elapsed tr) - startTime > timeoutMs
      · rw [if_pos htime, if_pos htime]
        rfl
      · rw [if_neg htime, if_neg htime]
        cases hasks : asks w provider tools s (tr ++ [.clockRead]) with
        | mk r t =>
        cases r with
        | error e => rw [Prog.bind_error (turn_eq_error hasks)]
        | ok a =>
          obtain ⟨response, escalate⟩ := a
          have hturn := turn_eq hasks
          cases hafter : s.after (moveAt w response escalate (elapsed t)) with
          | error e =>
            rw [hafter] at hturn
            rw [Prog.bind_error hturn]
            simp only [hafter]
          | ok s' =>
            rw [hafter] at hturn
            rw [Prog.bind_ok hturn]
            simp only [hafter]
            exact ih s' _

end Loop

/-! ## What the moves say about the loop -/

def Event.isTool : Event → Bool
  | .mcpCall _ _ _ => true
  | .mcpScreenshot _ => true
  | _ => false

/-- The response calls no tool. -/
def Move.idle (m : Move) : Bool := m.calls.isEmpty

/-- The response asks for the screenshot. -/
def Move.shoots (m : Move) : Bool := m.calls.any (·.name == screenshotTool)

/-- The turn is the last one: the model asks for the screenshot, or the agent does. -/
def Move.ends (m : Move) : Bool := m.shoots || (m.idle && m.escalate)

theorem Move.calls_of_idle {m : Move} (h : m.idle = true) : m.calls = [] := List.isEmpty_iff.mp h

theorem Move.ends_of_stuck {m : Move} (hidle : m.idle = true) (hesc : m.escalate = true) :
    m.ends = true := by
  simp [Move.ends, hidle, hesc]

/-- A turn without a tool call is the last one only if it was escalated. -/
theorem Move.escalate_of_ends {m : Move} (hends : m.ends = true) (hidle : m.idle = true) :
    m.escalate = true := by
  simpa [Move.ends, Move.shoots, m.calls_of_idle hidle, hidle] using hends

theorem repliesAt_length (w : World) (calls : List ToolCall) :
    ∀ time, (repliesAt w calls time).length = calls.length := by
  induction calls with
  | nil => exact fun _ => rfl
  | cons call calls ih => exact fun time => congrArg (· + 1) (ih (time + 1))

theorem Move.events_isTool (m : Move) : ∀ e ∈ m.events, e.isTool = true := by
  intro e he
  unfold Move.events at he
  split at he
  · split at he
    · rw [List.mem_singleton.mp he]
      rfl
    · cases he
  · rw [← List.map_uncurry_zip_eq_zipWith] at he
    obtain ⟨p, -, rfl⟩ := List.mem_map.mp he
    rfl

theorem asks_events {w : World} {provider : LLMProvider} {tools : List ToolDefinition}
    {s : LoopState} {tr t : Trace} {r : Except String (Response × Bool)}
    (h : asks w provider tools s tr = (r, t)) :
    ∃ sends, t = tr ++ .configRead :: sends ∧
      ∀ e ∈ sends, SendEvent provider (s.currentTurn + 1) s.messages e := by
  obtain ⟨sends, heq, hsends⟩ := sendTurn_emits w provider tools (s.currentTurn + 1) s.messages
    (escalates w s tr) (tr ++ [.configRead])
  have ht : (asks w provider tools s tr).2 = t := congrArg Prod.snd h
  refine ⟨sends, ?_, hsends⟩
  rw [← ht, asks, heq]
  simp

theorem SendEvent.not_tool {provider : LLMProvider} {turn : Nat} {messages : List Message}
    {e : Event} (h : SendEvent provider turn messages e) : e.isTool = false := by
  rcases h with ⟨f, rfl⟩ | ⟨p, -, rfl | ⟨u, rfl, -⟩⟩ <;> rfl

/-- What a turn can do. -/
theorem after_cases (s : LoopState) (m : Move) :
    (m.idle = true ∧ m.escalate = false ∧ s.after m = .ok (s.nudged m)) ∨
      (m.idle = true ∧ m.escalate = true ∧ s.after m = m.final.map fun _ => s.stuck m) ∨
      (m.idle = false ∧ s.after m = .ok (s.called m)) := by
  cases hcalls : m.calls with
  | nil => cases hescalate : m.escalate <;> simp [LoopState.after, Move.idle, hcalls, hescalate]
  | cons call calls => simp [LoopState.after, Move.idle, hcalls]

/-- How a turn that does not throw ends. -/
theorem after_ok_cases {s s' : LoopState} {m : Move} (h : s.after m = .ok s') :
    (m.idle = true ∧ m.escalate = false ∧ s' = s.nudged m) ∨
      (m.idle = true ∧ m.escalate = true ∧ (∃ result, m.final = .ok result) ∧ s' = s.stuck m) ∨
      (m.idle = false ∧ s' = s.called m) := by
  rcases after_cases s m with ⟨hidle, hesc, heq⟩ | ⟨hidle, hesc, heq⟩ | ⟨hidle, heq⟩
  · exact .inl ⟨hidle, hesc, Except.ok.inj (h.symm.trans heq)⟩
  · rw [heq] at h
    cases hfinal : m.final with
    | error e =>
      rw [hfinal] at h
      cases h
    | ok result =>
      rw [hfinal] at h
      exact .inr (.inl ⟨hidle, hesc, ⟨result, rfl⟩, (Except.ok.inj h).symm⟩)
  · exact .inr (.inr ⟨hidle, Except.ok.inj (h.symm.trans heq)⟩)

theorem after_isDone {s s' : LoopState} {m : Move} (hs : s.isDone = false)
    (h : s.after m = .ok s') : s'.isDone = m.ends := by
  rcases after_ok_cases h with ⟨hidle, hesc, rfl⟩ | ⟨hidle, hesc, -, rfl⟩ | ⟨hidle, rfl⟩
  · simp [LoopState.nudged, LoopState.heard, LoopState.absorb, hs, Move.ends, Move.shoots, hesc,
      m.calls_of_idle hidle]
  · simp [LoopState.stuck, Move.ends, hidle, hesc]
  · simp [LoopState.called, hs, Move.ends, Move.shoots, hidle]

theorem after_noProgressTurns {s s' : LoopState} {m : Move} (h : s.after m = .ok s') :
    s'.noProgressTurns = if m.idle then s.noProgressTurns + 1 else 0 := by
  rcases after_ok_cases h with ⟨hidle, -, rfl⟩ | ⟨hidle, -, -, rfl⟩ | ⟨hidle, rfl⟩
  · simp [LoopState.nudged, hidle]
  · simp [LoopState.stuck, hidle]
  · simp [LoopState.called, hidle]

theorem after_currentTurn {s s' : LoopState} {m : Move} (h : s.after m = .ok s') :
    s'.currentTurn = s.currentTurn + 1 := by
  rcases after_ok_cases h with ⟨-, -, rfl⟩ | ⟨-, -, -, rfl⟩ | ⟨-, rfl⟩ <;> rfl

/-- A turn throws only in the screenshot of the agent's own. -/
theorem after_error {s : LoopState} {m : Move} {e : String} (h : s.after m = .error e) :
    m.idle = true ∧ m.escalate = true ∧ m.final = .error e := by
  rcases after_cases s m with ⟨hidle, hesc, heq⟩ | ⟨hidle, hesc, heq⟩ | ⟨hidle, heq⟩
  · cases heq.symm.trans h
  · rw [heq] at h
    cases hfinal : m.final with
    | error e' =>
      rw [hfinal] at h
      cases h
      exact ⟨hidle, hesc, rfl⟩
    | ok result =>
      rw [hfinal] at h
      cases h
  · cases heq.symm.trans h

section Run

variable {w : World} {provider : LLMProvider} {tools : List ToolDefinition} {startTime left : Nat}
  {s : LoopState} {tr u : Trace} {ms : List Move} {r : Except String LoopState}

theorem LoopRun.of_done (h : LoopRun w provider tools startTime left s tr ms r u)
    (hdone : s.isDone = true) : ms = [] ∧ r = .ok s ∧ u = tr := by
  cases h with
  | done _ => exact ⟨rfl, rfl, rfl⟩
  | turnLimit hs => cases hs.symm.trans hdone
  | timeLimit hs _ => cases hs.symm.trans hdone
  | threw hs _ => cases hs.symm.trans hdone
  | unsaved hs _ _ => cases hs.symm.trans hdone
  | turn hs _ _ _ => cases hs.symm.trans hdone

theorem LoopRun.length_le (h : LoopRun w provider tools startTime left s tr ms r u) :
    ms.length ≤ left := by
  induction h with
  | done _ => exact Nat.zero_le _
  | turnLimit _ => exact Nat.zero_le _
  | timeLimit _ _ => exact Nat.zero_le _
  | threw _ _ => exact Nat.zero_le _
  | unsaved _ _ _ => exact Nat.succ_le_succ (Nat.zero_le _)
  | turn _ _ _ _ ih => exact Nat.succ_le_succ ih

/-- The tool calls of the loop are those of its moves. -/
theorem LoopRun.toolEvents (h : LoopRun w provider tools startTime left s tr ms r u) :
    ∃ es, u = tr ++ es ∧ es.filter Event.isTool = ms.flatMap Move.events := by
  have hasked : ∀ {s : LoopState} {tr t : Trace} {r : Except String (Response × Bool)},
      asks w provider tools s (tr ++ [.clockRead]) = (r, t) →
      ∃ es, t = tr ++ es ∧ es.filter Event.isTool = [] := by
    intro s tr t r h
    obtain ⟨sends, rfl, hsends⟩ := asks_events h
    refine ⟨.clockRead :: .configRead :: sends, by simp, ?_⟩
    rw [List.filter_eq_nil_iff]
    intro e he
    rcases List.mem_cons.mp he with rfl | he
    · exact nofun
    rcases List.mem_cons.mp he with rfl | he
    · exact nofun
    · simp [(hsends e he).not_tool]
  have hevents : ∀ m : Move, m.events.filter Event.isTool = m.events := by
    intro m
    rw [List.filter_eq_self]
    exact m.events_isTool
  induction h with
  | done _ => exact ⟨[], by simp, rfl⟩
  | turnLimit _ => exact ⟨[], by simp, rfl⟩
  | timeLimit _ _ => exact ⟨[.clockRead], rfl, rfl⟩
  | threw _ hasks =>
    obtain ⟨es, rfl, hes⟩ := hasked hasks
    exact ⟨es, rfl, hes⟩
  | unsaved _ hasks _ =>
    obtain ⟨es, rfl, hes⟩ := hasked hasks
    exact ⟨_, List.append_assoc _ _ _, by simp [hes, hevents]⟩
  | turn _ hasks _ _ ih =>
    obtain ⟨es, rfl, hes⟩ := hasked hasks
    obtain ⟨fs, rfl, hfs⟩ := ih
    exact ⟨_, by rw [List.append_assoc, List.append_assoc], by simp [hes, hevents, hfs]⟩

/-- The tool server replies to every call. -/
theorem LoopRun.replies_length (h : LoopRun w provider tools startTime left s tr ms r u) :
    ∀ m ∈ ms, m.replies.length = m.calls.length := by
  induction h with
  | done _ => exact List.forall_mem_nil _
  | turnLimit _ => exact List.forall_mem_nil _
  | timeLimit _ _ => exact List.forall_mem_nil _
  | threw _ _ => exact List.forall_mem_nil _
  | unsaved _ _ _ =>
    intro m hm
    rw [List.mem_singleton.mp hm]
    exact repliesAt_length _ _ _
  | turn _ _ _ _ ih =>
    intro m hm
    rcases List.mem_cons.mp hm with rfl | hm
    · exact repliesAt_length _ _ _
    · exact ih m hm

/-- Only the last turn ends the loop. -/
theorem LoopRun.ends_last (h : LoopRun w provider tools startTime left s tr ms r u) :
    ms.Pairwise fun m _ => m.ends = false := by
  induction h with
  | done _ => exact .nil
  | turnLimit _ => exact .nil
  | timeLimit _ _ => exact .nil
  | threw _ _ => exact .nil
  | unsaved _ _ _ => exact List.pairwise_singleton _ _
  | @turn left s s' tr t u response escalate ms r hs _ hafter hrest ih =>
    refine List.pairwise_cons.mpr ⟨?_, ih⟩
    intro m hm
    cases hends : (moveAt w response escalate (elapsed t)).ends with
    | false => rfl
    | true =>
      rw [(hrest.of_done ((after_isDone hs hafter).trans hends)).1] at hm
      cases hm

/-- The moves end with the screenshot, taken by the model or by the agent. -/
def Finishes (ms : List Move) : Prop :=
  ∃ pre m, ms = pre ++ [m] ∧ m.ends = true ∧ (m.idle = true → ∃ result, m.final = .ok result)

theorem not_finishes_nil : ¬ Finishes [] := by
  rintro ⟨pre, m, h, -⟩
  simp at h

theorem finishes_singleton (m : Move) :
    Finishes [m] ↔ m.ends = true ∧ (m.idle = true → ∃ result, m.final = .ok result) := by
  constructor
  · rintro ⟨pre, last, heq, hlast⟩
    obtain ⟨-, hm⟩ := List.append_inj' (show [] ++ [m] = pre ++ [last] from heq) rfl
    rwa [List.singleton_inj.mp hm]
  · exact fun h => ⟨[], m, rfl, h⟩

/-- Only the last turn decides. -/
theorem finishes_cons (m : Move) {ms : List Move} (h : ms ≠ []) : Finishes (m :: ms) ↔ Finishes ms := by
  constructor
  · rintro ⟨pre, last, heq, hlast⟩
    cases pre with
    | nil =>
      obtain ⟨-, hnil⟩ := List.cons.inj heq
      exact absurd hnil h
    | cons _ pre => exact ⟨pre, last, (List.cons.inj heq).2, hlast⟩
  · rintro ⟨pre, last, rfl, hlast⟩
    exact ⟨m :: pre, last, rfl, hlast⟩

/-- The loop returns exactly when its moves end with the screenshot. -/
theorem LoopRun.returns_iff (h : LoopRun w provider tools startTime left s tr ms r u)
    (hs : s.isDone = false) : (∃ s', r = .ok s') ↔ Finishes ms := by
  induction h with
  | done hdone => cases hs.symm.trans hdone
  | turnLimit _ => simp [not_finishes_nil]
  | timeLimit _ _ => simp [not_finishes_nil]
  | threw _ _ => simp [not_finishes_nil]
  | unsaved _ _ hafter =>
    obtain ⟨hidle, -, hfinal⟩ := after_error hafter
    refine iff_of_false (fun ⟨_, hok⟩ => nomatch hok) ?_
    rw [finishes_singleton]
    rintro ⟨-, hok⟩
    obtain ⟨result, hresult⟩ := hok hidle
    cases hfinal.symm.trans hresult
  | @turn left s s' tr t u response escalate ms r _ hasks hafter hrest ih =>
    have hends := after_isDone hs hafter
    cases hdone : s'.isDone with
    | true =>
      obtain ⟨rfl, rfl, -⟩ := hrest.of_done hdone
      rw [hdone] at hends
      rw [finishes_singleton]
      refine iff_of_true ⟨s', rfl⟩ ⟨hends.symm, fun hidle => ?_⟩
      rcases after_ok_cases hafter with ⟨-, hnot, -⟩ | ⟨-, -, hfinal, -⟩ | ⟨hnot, -⟩
      · cases hnot.symm.trans (Move.escalate_of_ends hends.symm hidle)
      · exact hfinal
      · cases hnot.symm.trans hidle
    | false =>
      rw [ih hdone]
      by_cases hne : ms = []
      · -- the loop has stopped behind a turn that was not the last
        subst hne
        rw [hdone] at hends
        refine iff_of_false not_finishes_nil ?_
        rw [finishes_singleton, ← hends]
        exact fun h => nomatch h.1
      · exact (finishes_cons _ hne).symm

end Run

/-! ## The whole run -/

theorem eq_ok_of_isOk {α : Type} {r : Except String α} (h : r.isOk = true) : ∃ a, r = .ok a := by
  cases r with
  | error e => cases h
  | ok a => exact ⟨a, rfl⟩

/-- The provider of a run: the given one, or the one configured for the test planner. -/
def chosenProvider (w : World) (provider? : Option LLMProvider) (tr : Trace) : LLMProvider :=
  match provider? with
  | some provider => provider
  | none => roleProvider w.env .testPlanner (w.configFile (elapsed tr))

/-- The trace once the provider is chosen. -/
def chosenTrace (provider? : Option LLMProvider) (tr : Trace) : Trace :=
  match provider? with
  | some _ => tr
  | none => tr ++ [.configRead]

theorem executeTestAutonomous_chosen (w : World) (testRunId instruction url : String)
    (provider? : Option LLMProvider) (tr : Trace) :
    executeTestAutonomous w testRunId instruction url provider? tr
      = executeTestAutonomous w testRunId instruction url (some (chosenProvider w provider? tr))
          (chosenTrace provider? tr) := by
  cases provider? with
  | some provider => rfl
  | none => rfl

/-- Choosing the provider reads the configuration, or does nothing. -/
theorem chosenTrace_append (provider? : Option LLMProvider) (tr : Trace) :
    ∃ es, chosenTrace provider? tr = tr ++ es ∧ ∀ e ∈ es, e = .configRead := by
  cases provider? with
  | some provider => exact ⟨[], by simp [chosenTrace], by simp⟩
  | none => exact ⟨[.configRead], rfl, by simp⟩

/-- What a program appends to the trace. -/
def runEvents {α : Type} (p : Prog Trace α) (tr : Trace) : Trace := (p tr).2.drop tr.length

theorem runEvents_eq {α : Type} {p : Prog Trace α} {tr es : Trace} (h : (p tr).2 = tr ++ es) :
    runEvents p tr = es := by
  rw [runEvents, h, List.drop_left]

/-- The trace before the first turn. -/
def loopTrace (tr : Trace) : Trace := tr ++ [.mcpConnect] ++ [.mcpListTools] ++ [.clockRead]

/-- The moves of a run with a given provider that starts after `tr`. -/
def movesWith (w : World) (provider : LLMProvider) (instruction url : String) (tr : Trace) :
    List Move :=
  match w.mcpConnect (elapsed tr), w.mcpListTools (elapsed tr + 1) with
  | .ok _, .ok tools =>
      loopMoves w provider tools (w.now (elapsed tr + 2)) maxTurns (initialState instruction url)
        (loopTrace tr)
  | _, _ => []

/-- The moves of a run that starts after `tr`. -/
def agentMoves (w : World) (provider? : Option LLMProvider) (instruction url : String) (tr : Trace) :
    List Move :=
  movesWith w (chosenProvider w provider? tr) instruction url (chosenTrace provider? tr)

/-- The client closes: a throw replaces the way out of the loop. -/
def closing (w : World) (testRunId : String) (r : Except String LoopState) (u : Trace) :
    Except String Artifacts :=
  match w.mcpClose (elapsed u) with
  | .ok _ => r.map (loopArtifacts w testRunId)
  | .error e => .error e

theorem closing_eq_ok {w : World} {testRunId : String} {r : Except String LoopState} {u : Trace}
    {a : Artifacts} (h : closing w testRunId r u = .ok a) :
    ∃ s, r = .ok s ∧ a = loopArtifacts w testRunId s := by
  unfold closing at h
  split at h
  · cases r with
    | error e => cases h
    | ok s =>
      cases h
      exact ⟨s, rfl, rfl⟩
  · cases h

/-- A run throws before its loop, or is the loop and the closing of the client. -/
theorem executeTestAutonomous_run (w : World) (provider : LLMProvider)
    (testRunId instruction url : String) (tr : Trace) :
    (∃ e es, executeTestAutonomous w testRunId instruction url (some provider) tr
        = (.error e, tr ++ es) ∧ (∀ x ∈ es, Outside x) ∧
        movesWith w provider instruction url tr = [] ∧ ¬ (w.mcpConnect (elapsed tr) = .ok () ∧
          ∃ tools, w.mcpListTools (elapsed tr + 1) = .ok tools)) ∨
      ∃ tools r u, w.mcpConnect (elapsed tr) = .ok () ∧ w.mcpListTools (elapsed tr + 1) = .ok tools ∧
        LoopRun w provider tools (w.now (elapsed tr + 2)) maxTurns (initialState instruction url)
          (loopTrace tr) (movesWith w provider instruction url tr) r u ∧
        u = loopEnd w provider tools (w.now (elapsed tr + 2)) maxTurns (initialState instruction url)
          (loopTrace tr) ∧
        executeTestAutonomous w testRunId instruction url (some provider) tr
          = (closing w testRunId r u, u ++ [.mcpClose]) := by
  rcases executeTestAutonomous_cases w testRunId instruction url tr with
    ⟨e, es, hrun, hes, hnot⟩ | ⟨tools, hconnect, hlist, hrun⟩
  · refine .inl ⟨e, es, hrun provider, hes, ?_, hnot⟩
    unfold movesWith
    split
    · rename_i hconnect hlist
      exact absurd ⟨hconnect, _, hlist⟩ hnot
    · rfl
  · have hmoves : movesWith w provider instruction url tr
        = loopMoves w provider tools (w.now (elapsed tr + 2)) maxTurns (initialState instruction url)
            (loopTrace tr) := by
      simp only [movesWith, hconnect, hlist]
    refine .inr ⟨tools, _, _, hconnect, hlist, hmoves ▸ mainLoop_run w provider tools _ maxTurns _ _,
      mainLoop_end w provider tools _ maxTurns _ _, ?_⟩
    rw [hrun, ← loopTrace, toolRun, Prog.bind_apply]
    simp only [Prog.tryFinally, interact, closing]
    generalize mainLoop w provider tools (w.now (elapsed tr + 2)) maxTurns
      (initialState instruction url) (loopTrace tr) = result
    obtain ⟨r, u⟩ := result
    cases w.mcpClose (elapsed u) with
    | error e => rfl
    | ok _ => cases r <;> rfl

section Whole

variable (w : World) (testRunId instruction url : String) (provider? : Option LLMProvider)
  (tr : Trace)

/-- The tool server answers when the run connects, lists the tools and closes. -/
def Served : Prop :=
  w.mcpConnect (elapsed (chosenTrace provider? tr)) = .ok () ∧
    ∃ tools, w.mcpListTools (elapsed (chosenTrace provider? tr) + 1) = .ok tools ∧
      w.mcpClose (elapsed (loopEnd w (chosenProvider w provider? tr) tools
        (w.now (elapsed (chosenTrace provider? tr) + 2)) maxTurns (initialState instruction url)
        (loopTrace (chosenTrace provider? tr)))) = .ok ()

/-- A run throws before its loop, or is the loop between set-up and closing. -/
theorem run_cases :
    (∃ e es, executeTestAutonomous w testRunId instruction url provider? tr = (.error e, tr ++ es) ∧
        (∀ x ∈ es, Outside x) ∧ agentMoves w provider? instruction url tr = [] ∧
        ¬ Served w instruction url provider? tr) ∨
      ∃ tools r pre es, w.mcpConnect (elapsed (chosenTrace provider? tr)) = .ok () ∧
        w.mcpListTools (elapsed (chosenTrace provider? tr) + 1) = .ok tools ∧
        (∀ e ∈ pre, Outside e) ∧
        LoopRun w (chosenProvider w provider? tr) tools (w.now (elapsed (chosenTrace provider? tr) + 2))
          maxTurns (initialState instruction url) (tr ++ pre)
          (agentMoves w provider? instruction url tr) r (tr ++ pre ++ es) ∧
        executeTestAutonomous w testRunId instruction url provider? tr
          = (closing w testRunId r (tr ++ pre ++ es), tr ++ (pre ++ es ++ [.mcpClose])) := by
  obtain ⟨reads, hchosen, hreads⟩ := chosenTrace_append provider? tr
  have hout : ∀ e ∈ reads, Outside e := by
    intro e he
    rw [hreads e he]
    simp [Outside]
  have hrun := executeTestAutonomous_chosen w testRunId instruction url provider? tr
  rcases executeTestAutonomous_run w (chosenProvider w provider? tr) testRunId instruction url
    (chosenTrace provider? tr) with
    ⟨e, es, hthrows, hes, hmoves, hnot⟩ | ⟨tools, r, u, hconnect, hlist, hloop, -, hreturns⟩
  · refine .inl ⟨e, reads ++ es, ?_, ?_, hmoves, ?_⟩
    · rw [hrun, hthrows, hchosen, List.append_assoc]
    · exact fun x hx => (List.mem_append.mp hx).elim (hout x) (hes x)
    · rintro ⟨hconnect, tools, hlist, -⟩
      exact hnot ⟨hconnect, tools, hlist⟩
  · obtain ⟨es, rfl, -⟩ := hloop.toolEvents
    have hstart : loopTrace (chosenTrace provider? tr)
        = tr ++ (reads ++ [.mcpConnect, .mcpListTools, .clockRead]) := by
      simp [loopTrace, hchosen]
    rw [hstart] at hloop hreturns
    refine .inr ⟨tools, r, _, es, hconnect, hlist, ?_, hloop, ?_⟩
    · intro e he
      rcases List.mem_append.mp he with he | he
      · exact hout e he
      · simp only [List.mem_cons, List.not_mem_nil, or_false] at he
        rcases he with rfl | rfl | rfl <;> simp [Outside]
    · rw [hrun, hreturns]
      simp only [List.append_assoc]

/-- The run returns exactly when it is served and its moves end with the screenshot. -/
theorem run_returns_iff :
    (∃ a, (executeTestAutonomous w testRunId instruction url provider? tr).1 = .ok a) ↔
      Served w instruction url provider? tr ∧
        Finishes (agentMoves w provider? instruction url tr) := by
  rw [executeTestAutonomous_chosen]
  rcases executeTestAutonomous_run w (chosenProvider w provider? tr) testRunId instruction url
    (chosenTrace provider? tr) with
    ⟨e, es, hrun, -, -, hnot⟩ | ⟨tools, r, u, hconnect, hlist, hloop, hend, hrun⟩
  · rw [hrun]
    refine iff_of_false nofun ?_
    rintro ⟨⟨hconnect, tools, hlist, -⟩, -⟩
    exact hnot ⟨hconnect, tools, hlist⟩
  · rw [agentMoves, ← hloop.returns_iff rfl, hrun, Served, closing]
    simp only [hconnect, hlist, true_and, Except.ok.injEq, exists_eq_left', ← hend]
    cases hclose : w.mcpClose (elapsed u) with
    | error e => simp
    | ok v => cases r <;> simp [Except.map]

/-- A run that returns hands over what its loop ended with. -/
theorem run_artifacts {a : Artifacts}
    (h : (executeTestAutonomous w testRunId instruction url provider? tr).1 = .ok a) :
    ∃ s, a = loopArtifacts w testRunId s := by
  rcases run_cases w testRunId instruction url provider? tr with
    ⟨e, es, hrun, -⟩ | ⟨tools, r, pre, es, -, -, -, -, hrun⟩
  · rw [hrun] at h
    cases h
  · rw [hrun] at h
    obtain ⟨s, -, ha⟩ := closing_eq_ok h
    exact ⟨s, ha⟩

/-- A run only appends to the trace. -/
theorem run_trace : (executeTestAutonomous w testRunId instruction url provider? tr).2
    = tr ++ runEvents (executeTestAutonomous w testRunId instruction url provider?) tr := by
  rcases run_cases w testRunId instruction url provider? tr with
    ⟨e, es, hrun, -⟩ | ⟨tools, r, pre, es, -, -, -, -, hrun⟩
  · rw [runEvents_eq (congrArg Prod.snd hrun), hrun]
  · rw [runEvents_eq (congrArg Prod.snd hrun), hrun]

theorem agentMoves_length_le : (agentMoves w provider? instruction url tr).length ≤ maxTurns := by
  rcases run_cases w "" instruction url provider? tr with
    ⟨_, _, _, _, hnil, _⟩ | ⟨_, _, _, _, _, _, _, hloop, _⟩
  · simp [hnil]
  · exact hloop.length_le

theorem agentMoves_replies_length :
    ∀ m ∈ agentMoves w provider? instruction url tr, m.replies.length = m.calls.length := by
  rcases run_cases w "" instruction url provider? tr with
    ⟨_, _, _, _, hnil, _⟩ | ⟨_, _, _, _, _, _, _, hloop, _⟩
  · simp [hnil]
  · exact hloop.replies_length

/-- Behind the turn that ends the loop there is no other. -/
theorem agentMoves_ends_last :
    (agentMoves w provider? instruction url tr).Pairwise fun m _ => m.ends = false := by
  rcases run_cases w "" instruction url provider? tr with
    ⟨_, _, _, _, hnil, _⟩ | ⟨_, _, _, _, _, _, _, hloop, _⟩
  · simp [hnil]
  · exact hloop.ends_last

/-- The tool calls of a run are those of its moves. -/
theorem run_toolEvents :
    (runEvents (executeTestAutonomous w testRunId instruction url provider?) tr).filter Event.isTool
      = (agentMoves w provider? instruction url tr).flatMap Move.events := by
  have houtside : ∀ {es : Trace}, (∀ e ∈ es, Outside e) → es.filter Event.isTool = [] := by
    intro es hes
    rw [List.filter_eq_nil_iff]
    intro e he
    rcases hes e he with rfl | rfl | rfl | rfl | rfl <;> exact nofun
  rcases run_cases w testRunId instruction url provider? tr with
    ⟨e, es, hrun, hes, hmoves, -⟩ | ⟨tools, r, pre, es, -, -, hout, hloop, hrun⟩
  · rw [runEvents_eq (congrArg Prod.snd hrun), hmoves, houtside hes]
    rfl
  · obtain ⟨es', heq, htools⟩ := hloop.toolEvents
    obtain rfl := List.append_cancel_left heq
    rw [runEvents_eq (congrArg Prod.snd hrun), ← htools]
    simp [houtside hout, Event.isTool]

end Whole

end AutoQa.LlmAgents

import AutoQa.LlmAgents.ClaudeEntries
import AutoQa.LlmAgents.Moves

/-!
# Empty messages

The loop pushes every response as an assistant message, whatever is in it, and
each adapter replays that message on every later turn. A response without text
and without calls becomes a message without content, and a response whose
`tool_calls` is the empty array keeps it.
-/

namespace AutoQa.LlmAgents

open AutoQa.Base

/-! ## The conversation, response by response -/

/-- What a turn that does not end the loop adds to the conversation. -/
def Move.messages (m : Move) : List Message :=
  assistantMessage m.response ::
    if m.idle then [nudgeMessage] else toolMessages m.calls m.replies

theorem after_messages {s s' : LoopState} {m : Move} (h : s.after m = .ok s')
    (hdone : s'.isDone = false) : s'.messages = s.messages ++ m.messages := by
  rcases after_ok_cases h with ⟨hidle, -, rfl⟩ | ⟨-, -, -, rfl⟩ | ⟨hidle, rfl⟩
  · simp [LoopState.nudged, LoopState.heard, LoopState.absorb, Move.messages, hidle]
  · cases hdone
  · simp [LoopState.called, LoopState.heard, LoopState.absorb, Move.messages, hidle]

/-- The conversation of turn `t`: what the turns before it added. -/
def conversationAt (instruction url : String) (ms : List Move) (t : Nat) : List Message :=
  firstMessages instruction url ++ (ms.take (t - 1)).flatMap Move.messages

section Loop

variable {w : World} {provider : LLMProvider} {tools : List ToolDefinition} {startTime left : Nat}
  {s : LoopState} {tr u : Trace} {ms : List Move} {r : Except String LoopState}

/-- A turn passes the conversation as it stands, under its own number. -/
theorem asks_passes {t : Trace} {r : Except String (Response × Bool)}
    (h : asks w provider tools s (tr ++ [.clockRead]) = (r, t)) :
    ∃ es, t = tr ++ es ∧ ∀ n messages, Passed es n messages →
      n = s.currentTurn + 1 ∧ messages = s.messages := by
  obtain ⟨sends, rfl, hsends⟩ := asks_events h
  refine ⟨.clockRead :: .configRead :: sends, by simp, ?_⟩
  rintro n messages ⟨f, hmem⟩
  have hsent : Event.generate n messages f ∈ sends := by simpa using hmem
  rcases hsends _ hsent with ⟨f', heq⟩ | ⟨p, -, heq | ⟨u, heq, -⟩⟩
  · cases heq
    exact ⟨rfl, rfl⟩
  · cases heq
  · cases heq

theorem LoopRun.passes (h : LoopRun w provider tools startTime left s tr ms r u) :
    ∃ es, u = tr ++ es ∧ ∀ n messages, Passed es n messages → s.currentTurn < n ∧
      messages = s.messages ++ (ms.take (n - 1 - s.currentTurn)).flatMap Move.messages := by
  have hquiet : ∀ {m : Move} {n : Nat} {messages : List Message},
      ¬ Passed m.events n messages := by
    rintro m n messages ⟨f, hmem⟩
    cases m.events_isTool _ hmem
  induction h with
  | done _ => exact ⟨[], by simp, fun _ _ hp => by simp [Passed] at hp⟩
  | turnLimit _ => exact ⟨[], by simp, fun _ _ hp => by simp [Passed] at hp⟩
  | timeLimit _ _ => exact ⟨[.clockRead], rfl, fun _ _ hp => by simp [Passed] at hp⟩
  | threw _ hasks =>
    obtain ⟨es, ht, hes⟩ := asks_passes hasks
    refine ⟨es, ht, fun n messages hp => ?_⟩
    obtain ⟨rfl, rfl⟩ := hes n messages hp
    simp
  | unsaved _ hasks _ =>
    obtain ⟨es, rfl, hes⟩ := asks_passes hasks
    refine ⟨_, List.append_assoc _ _ _, fun n messages hp => ?_⟩
    obtain ⟨rfl, rfl⟩ := hes n messages ((Passed.append.mp hp).resolve_right hquiet)
    simp
  | @turn left s s' tr t u response escalate ms r hs hasks hafter hrest ih =>
    obtain ⟨es, rfl, hes⟩ := asks_passes hasks
    obtain ⟨fs, rfl, hfs⟩ := ih
    refine ⟨es ++ ((moveAt w response escalate (elapsed (tr ++ es))).events ++ fs),
      by simp only [List.append_assoc], fun n messages hp => ?_⟩
    rcases Passed.append.mp hp with hp | hp
    · obtain ⟨rfl, rfl⟩ := hes n messages hp
      simp
    · have hlater := (Passed.append.mp hp).resolve_left hquiet
      have hdone : s'.isDone = false := by
        -- a loop that is done passes nothing
        by_contra hdone
        obtain ⟨-, -, hnil⟩ := hrest.of_done (Bool.not_eq_false _ ▸ hdone)
        rw [List.append_right_eq_self.mp hnil] at hlater
        simp [Passed] at hlater
      obtain ⟨hturn, rfl⟩ := hfs n messages hlater
      rw [after_currentTurn hafter] at hturn ⊢
      have hindex : n - 1 - s.currentTurn = n - 1 - (s.currentTurn + 1) + 1 := by omega
      rw [after_messages hafter hdone, hindex]
      exact ⟨by omega, by simp⟩

end Loop

/-- What a run passes on turn `n` is what its responses so far make of the conversation. -/
theorem run_passes {w : World} {testRunId instruction url : String}
    {provider? : Option LLMProvider} {tr : Trace} {n : Nat} {messages : List Message}
    (h : Passed (runEvents (executeTestAutonomous w testRunId instruction url provider?) tr) n
      messages) :
    messages = conversationAt instruction url (agentMoves w provider? instruction url tr) n := by
  rcases run_cases w testRunId instruction url provider? tr with
    ⟨e, es, hrun, hout, -⟩ | ⟨tools, r, pre, es, -, -, hout, hloop, hrun⟩
  · rw [runEvents_eq (congrArg Prod.snd hrun)] at h
    exact absurd h (not_passed_outside hout)
  · obtain ⟨es', heq, hpasses⟩ := hloop.passes
    obtain rfl := List.append_cancel_left heq
    rw [runEvents_eq (congrArg Prod.snd hrun)] at h
    rcases Passed.append.mp h with h | h
    · rcases Passed.append.mp h with h | h
      · exact absurd h (not_passed_outside hout)
      · exact (hpasses n messages h).2
    · exact absurd h (not_passed_outside (by simp [Outside]))

/-- What holds of every message of the user's, the system's and the tools' holds of the
conversation if it holds of the assistant messages, one for each response. -/
theorem forall_conversationAt {P : Message → Prop} (hP : ∀ msg, msg.role ≠ .assistant → P msg)
    (instruction url : String) (ms : List Move) (n : Nat) :
    (∀ msg ∈ conversationAt instruction url ms n, P msg) ↔
      ∀ m ∈ ms.take (n - 1), P (assistantMessage m.response) := by
  have hmove : ∀ m : Move, (∀ msg ∈ m.messages, P msg) ↔ P (assistantMessage m.response) := by
    intro m
    rw [Move.messages, List.forall_mem_cons]
    refine and_iff_left fun msg hmsg => hP msg ?_
    split at hmsg
    · rw [List.mem_singleton.mp hmsg]
      exact fun h => by cases h
    · rw [toolMessages, ← List.map_uncurry_zip_eq_zipWith] at hmsg
      obtain ⟨p, -, rfl⟩ := List.mem_map.mp hmsg
      exact fun h => by cases h
  have hfirst : ∀ msg ∈ firstMessages instruction url, P msg := by
    intro msg hmsg
    simp only [firstMessages, List.mem_cons, List.not_mem_nil, or_false] at hmsg
    rcases hmsg with rfl | rfl <;> exact hP _ (fun h => by cases h)
  rw [conversationAt, List.forall_mem_append, and_iff_right hfirst]
  simp only [List.mem_flatMap, forall_exists_index, and_imp]
  constructor
  · exact fun h m hm => (hmove m).mp fun msg hmsg => h msg m hm hmsg
  · exact fun h msg m hm hmsg => (hmove m).mpr (h m hm) msg hmsg

/-! ## The payloads -/

/-- The response has neither text nor tool calls. -/
def Response.Silent (response : Response) : Prop :=
  response.text.getD "" = "" ∧ callsOf response.toolCalls = []

/-- The message has content or calls, and no empty array of calls. The content of the
other messages is a string. -/
def OpenAIMessage.Filled : OpenAIMessage → Prop
  | .assistant content toolCalls =>
      (content ≠ none ∨ ∃ calls, toolCalls = some calls ∧ calls ≠ []) ∧ toolCalls ≠ some []
  | .tool _ _ => True
  | .plain _ _ => True

theorem openAIMessage_filled {msg : Message} (h : msg.role ≠ .assistant) :
    (openAIMessage msg).Filled := by
  unfold openAIMessage
  split <;> trivial

theorem openAI_assistant_filled_iff (response : Response) :
    (openAIMessage (assistantMessage response)).Filled ↔
      ¬ response.Silent ∧ response.toolCalls ≠ some [] := by
  cases hcalls : response.toolCalls with
  | none =>
    by_cases htext : response.text.getD "" = "" <;>
      simp [openAIMessage, assistantMessage, OpenAIMessage.Filled, Response.Silent, callsOf,
        orUndefined, hcalls, htext]
  | some calls =>
    cases calls <;>
      simp [openAIMessage, assistantMessage, OpenAIMessage.Filled, Response.Silent, callsOf, hcalls]

theorem geminiContent_filled {msg : Message} (h : msg.role ≠ .assistant) :
    ∀ c ∈ geminiContent msg, c.parts ≠ [] := by
  intro c hc
  unfold geminiContent at hc
  split at hc
  · rw [List.mem_singleton.mp hc]
    exact nofun
  · rename_i hrole
    exact absurd hrole h
  · rw [List.mem_singleton.mp hc]
    exact nofun
  · cases hc

theorem gemini_assistant_filled_iff (response : Response) :
    (∀ c ∈ geminiContent (assistantMessage response), c.parts ≠ []) ↔ ¬ response.Silent := by
  have hcontent : geminiContent (assistantMessage response)
      = [⟨.model, geminiAssistantParts (assistantMessage response)⟩] := rfl
  rw [hcontent, List.forall_mem_singleton]
  by_cases htext : response.text.getD "" = "" <;>
    simp [geminiAssistantParts, assistantMessage, Response.Silent, htext]

theorem gemini_contents_iff (model : String) (input : GenerateInput) :
    (∀ c ∈ (geminiPayload model input).contents, c.parts ≠ []) ↔
      ∀ msg ∈ input.messages, ∀ c ∈ geminiContent msg, c.parts ≠ [] := by
  simp only [geminiPayload, List.mem_flatMap, List.mem_filter]
  constructor
  · intro h msg hmsg c hc
    refine h c ⟨msg, ⟨hmsg, ?_⟩, hc⟩
    cases hrole : msg.role with
    | system =>
      rw [geminiContent, hrole] at hc
      cases hc
    | _ => rfl
  · rintro h c ⟨msg, ⟨hmsg, -⟩, hc⟩
    exact h msg hmsg c hc

/-- **Empty messages.** What a run passes on turn `n` becomes a payload without empty
messages exactly when none of the responses before was silent, and for OpenAI none
came with an empty array of calls. -/
theorem filled_payload_iff (w : World) (testRunId instruction url : String)
    (provider? : Option LLMProvider) (tr : Trace) (n : Nat) (model : String) (input : GenerateInput)
    (h : Passed (runEvents (executeTestAutonomous w testRunId instruction url provider?) tr) n
      input.messages) :
    ((∀ msg ∈ (openAIPayload model input).messages, msg.Filled) ↔
      ∀ m ∈ (agentMoves w provider? instruction url tr).take (n - 1),
        ¬ m.response.Silent ∧ m.response.toolCalls ≠ some []) ∧
    ((∀ c ∈ (geminiPayload model input).contents, c.parts ≠ []) ↔
      ∀ m ∈ (agentMoves w provider? instruction url tr).take (n - 1), ¬ m.response.Silent) := by
  have hmessages := run_passes h
  refine ⟨?_, ?_⟩
  · have hpayload : (openAIPayload model input).messages = input.messages.map openAIMessage := rfl
    rw [hpayload, List.forall_mem_map, hmessages,
      forall_conversationAt fun msg => openAIMessage_filled]
    simp only [openAI_assistant_filled_iff]
  · rw [gemini_contents_iff, hmessages, forall_conversationAt fun msg => geminiContent_filled]
    simp only [gemini_assistant_filled_iff]

instance (response : Response) : Decidable response.Silent := inferInstanceAs (Decidable (_ ∧ _))

/-- Claude opens the page; the next turn, whoever takes it, gets no empty message. -/
theorem twoTurn_filled : ∃ m, Passed (claudeTrace twoTurnWorld) 2 m ∧
    (∀ msg ∈ (openAIPayload "gpt-4o" { messages := m }).messages, msg.Filled) ∧
    ∀ c ∈ (geminiPayload "gemini-2.5-flash" { messages := m }).contents, c.parts ≠ [] := by
  have hpasses : (passedOn (claudeTrace twoTurnWorld) 2).isSome = true := by
    decide +kernel
  have hspoken : (((agentMoves twoTurnWorld (some (.single (.newClaude twoTurnWorld.env none none)))
      "Log in" "http://localhost:3000" []).take 1).all fun m =>
        decide (¬ m.response.Silent) && m.response.toolCalls.any (!·.isEmpty)) = true := by
    decide +kernel
  obtain ⟨m, hm⟩ := Option.isSome_iff_exists.mp hpasses
  have hpassed := passed_of_passedOn hm
  obtain ⟨hopenAI, hgemini⟩ := filled_payload_iff twoTurnWorld "0" "Log in" "http://localhost:3000"
    (some (.single (.newClaude twoTurnWorld.env none none))) [] 2 "gpt-4o" { messages := m } hpassed
  have hall := List.all_eq_true.mp hspoken
  refine ⟨m, hpassed, hopenAI.mpr fun m hm => ?_, hgemini.mpr fun m hm => ?_⟩
  · have hm := hall m hm
    simp only [Bool.and_eq_true, decide_eq_true_eq] at hm
    refine ⟨hm.1, fun hnil => ?_⟩
    rw [hnil] at hm
    cases hm.2
  · have hm := hall m hm
    simp only [Bool.and_eq_true, decide_eq_true_eq] at hm
    exact hm.1

/-- OpenAI answers without content, and with an empty array of calls. -/
def hollowWorld : World :=
  { World.calm with openai := fun _ _ _ => .ok ⟨[⟨none, some []⟩], some 10, some 1⟩ }

theorem Message.Blank.not_filled {msg : Message} (h : msg.Blank) : ¬ (openAIMessage msg).Filled := by
  obtain ⟨hrole, hcontent, hcalls⟩ := h
  cases htool : msg.toolCalls with
  | none => simp [openAIMessage, OpenAIMessage.Filled, orUndefined, hrole, hcontent, htool]
  | some calls =>
    rw [htool] at hcalls
    obtain rfl : calls = [] := hcalls
    simp [openAIMessage, OpenAIMessage.Filled, hrole, htool]

theorem Message.Blank.no_parts {msg : Message} (h : msg.Blank) :
    ∃ c ∈ geminiContent msg, c.parts = [] := by
  obtain ⟨hrole, hcontent, hcalls⟩ := h
  refine ⟨⟨.model, geminiAssistantParts msg⟩, ?_, ?_⟩
  · simp [geminiContent, hrole]
  · simp [geminiAssistantParts, hcontent, hcalls]

/-- The second request replays that response as an empty message. -/
theorem hollow_response_replayed :
    ∃ m, Passed (executeTestAutonomous hollowWorld "0" "Log in" "http://localhost:3000"
        (some (.single (.newOpenAI hollowWorld.env none none none))) []).2 2 m ∧
      (¬ ∀ msg ∈ (openAIPayload "gpt-4o" { messages := m }).messages, msg.Filled) ∧
      ¬ ∀ c ∈ (geminiPayload "gemini-2.5-flash" { messages := m }).contents, c.parts ≠ [] := by
  have heval : ((passedOn (executeTestAutonomous hollowWorld "0" "Log in" "http://localhost:3000"
      (some (.single (.newOpenAI hollowWorld.env none none none))) []).2 2).any fun m =>
        m.any fun x => decide x.Blank) = true := by
    decide +kernel
  obtain ⟨m, hm, hany⟩ := (Option.any_eq_true _ _).mp heval
  obtain ⟨msg, hmsg, hblank⟩ := List.any_eq_true.mp hany
  have hblank : msg.Blank := of_decide_eq_true hblank
  refine ⟨m, passed_of_passedOn hm, fun hfilled => ?_, fun hfilled => ?_⟩
  · exact hblank.not_filled (hfilled _ (List.mem_map_of_mem hmsg))
  · obtain ⟨c, hc, hparts⟩ := hblank.no_parts
    exact (gemini_contents_iff _ _).mp hfilled msg hmsg c hc hparts

end AutoQa.LlmAgents

import AutoQa.LlmAgents.ClaudeOutput
import AutoQa.LlmAgents.Moves
import AutoQa.LlmAgents.Transcript

/-!
# The dialogue of a run

A vendor's answer is decoded into a response, the response becomes a message, and
the message a part of every later payload, perhaps for another vendor. Abstractly a
run is a dialogue: on each turn a model is asked with all that was said before, and
what it answers and what its calls return is said from then on.
-/

namespace AutoQa.LlmAgents

open AutoQa.Base AutoQa.Base.Text

/-! ## What an answer says -/

/-- A text, unless it is empty, and the calls behind it. -/
def toldEvents (text : Option String) (calls : List (String × Json)) : List TranscriptEvent :=
  (text.bind orUndefined).toList.map .assistantText ++ calls.map fun call => .call call.1 call.2

def ClaudeAnswerBlock.call? : ClaudeAnswerBlock → Option (String × Json)
  | .toolUse _ name input => some (name, input)
  | _ => none

/-- The name and the arguments of a call, whose text must be JSON. -/
def OpenAIToolCall.read (tc : OpenAIToolCall) : Option (String × Json) :=
  (Json.parse tc.arguments).map fun args => (tc.name, args)

inductive VendorAnswer where
  | claude (answer : ClaudeAnswer)
  | openai (answer : OpenAIAnswer)
  | gemini (answer : GeminiAnswer)

/-- What the answer says, read off the vendor's own format: Claude's texts are one
text, without white space around it; OpenAI's first choice counts, if it can be read. -/
def VendorAnswer.told : VendorAnswer → Option (List TranscriptEvent)
  | .claude a => some (toldEvents (some (trim (String.ofList (a.content.flatMap (·.chars)))))
      (a.content.filterMap (·.call?)))
  | .openai a => a.choices.head?.bind fun msg =>
      ((msg.toolCalls.getD []).mapM OpenAIToolCall.read).map (toldEvents msg.content)
  | .gemini a => some (toldEvents a.text (a.functionCalls.getD []))

def Response.told (response : Response) : List TranscriptEvent :=
  toldEvents response.text ((callsOf response.toolCalls).map fun tc => (tc.name, tc.args))

/-- As a message a response says the same. -/
theorem messageEvents_assistant (response : Response) :
    messageEvents (assistantMessage response) = response.told := by
  cases htext : response.text with
  | none => simp [messageEvents, assistantMessage, Response.told, toldEvents, htext]
  | some text =>
    by_cases hempty : text = ""
    · simp [messageEvents, assistantMessage, Response.told, toldEvents, htext, hempty, orUndefined]
    · simp [messageEvents, assistantMessage, Response.told, toldEvents, htext, hempty, orUndefined]

/-! ## Decoding keeps it -/

/-- Without a schema no call is taken for the output. -/
theorem claudeRead_told (blocks : List ClaudeAnswerBlock) : ∀ acc : String × List ToolCall,
    (blocks.foldl (claudeRead false) acc).1.toList = acc.1.toList ++ blocks.flatMap (·.chars) ∧
      (blocks.foldl (claudeRead false) acc).2.map (fun tc => (tc.name, tc.args))
        = acc.2.map (fun tc => (tc.name, tc.args)) ++ blocks.filterMap (·.call?) := by
  induction blocks with
  | nil => simp
  | cons block blocks ih =>
    intro acc
    obtain ⟨htext, hcalls⟩ := ih (claudeRead false acc block)
    rw [List.foldl_cons, htext, hcalls]
    cases block with
    | text text => simp [claudeRead, ClaudeAnswerBlock.chars, ClaudeAnswerBlock.call?]
    | toolUse id name input =>
      simp [claudeRead, ClaudeAnswerBlock.chars, ClaudeAnswerBlock.call?]
    | other => simp [claudeRead, ClaudeAnswerBlock.chars, ClaudeAnswerBlock.call?]

theorem orUndefined_bind (s : String) : (orUndefined s).bind orUndefined = orUndefined s := by
  by_cases h : s = ""
  · simp [orUndefined, h]
  · simp [orUndefined, h]

/-- An empty list of calls is left out of a response. -/
theorem callsOf_present (calls : List ToolCall) :
    callsOf (if calls.length > 0 then some calls else none) = calls := by
  cases calls with
  | nil => rfl
  | cons call calls => rfl

theorem claudeDecode_told {input : GenerateInput} (hschema : input.responseSchema = none)
    (usage : Usage) (answer : ClaudeAnswer) :
    (VendorAnswer.claude answer).told = some (claudeDecode input usage answer).told := by
  obtain ⟨htext, hcalls⟩ := claudeRead_told answer.content ("", [])
  have hstring : (answer.content.foldl (claudeRead false) ("", [])).1
      = String.ofList (answer.content.flatMap (·.chars)) := by
    apply String.ext
    simpa using htext
  simp only [VendorAnswer.told, Response.told, claudeDecode, hschema, Option.isSome_none,
    Bool.false_and, callsOf_present, hstring, hcalls, toldEvents, Option.bind_some, orUndefined_bind]
  rfl

theorem openAIReadCall_eq (tc : OpenAIToolCall) :
    tc.read = (openAIReadCall tc).toOption.map fun call => (call.name, call.args) := by
  cases hparse : Json.parse tc.arguments with
  | none => simp [OpenAIToolCall.read, openAIReadCall, hparse, Except.toOption]
  | some args => simp [OpenAIToolCall.read, openAIReadCall, hparse, Except.toOption]

/-- All calls are read, or the response is refused. -/
theorem mapM_read {calls : List OpenAIToolCall} : ∀ {toolCalls : List ToolCall},
    calls.mapM openAIReadCall = .ok toolCalls →
    calls.mapM OpenAIToolCall.read = some (toolCalls.map fun tc => (tc.name, tc.args)) := by
  induction calls with
  | nil =>
    intro toolCalls h
    cases h
    rfl
  | cons call calls ih =>
    intro toolCalls h
    rw [List.mapM_cons] at h
    cases hcall : openAIReadCall call with
    | error e =>
      rw [hcall] at h
      cases h
    | ok tc =>
      cases hrest : calls.mapM openAIReadCall with
      | error e =>
        rw [hcall, hrest] at h
        cases h
      | ok rest =>
        rw [hcall, hrest] at h
        cases h
        simp [List.mapM_cons, openAIReadCall_eq, hcall, ih hrest, Except.toOption]

theorem openAIDecode_told {usage : Usage} {answer : OpenAIAnswer} {response : Response}
    (h : openAIDecode usage answer = .ok response) :
    (VendorAnswer.openai answer).told = some response.told := by
  unfold openAIDecode at h
  cases hchoices : answer.choices with
  | nil =>
    rw [hchoices] at h
    cases h
  | cons msg rest =>
    simp only [hchoices] at h
    cases hcalls : msg.toolCalls with
    | none =>
      simp only [hcalls, Except.ok.injEq] at h
      subst h
      cases hcontent : msg.content with
      | none => simp [VendorAnswer.told, hchoices, hcalls, hcontent, Response.told, toldEvents, callsOf]
      | some text =>
        simp [VendorAnswer.told, hchoices, hcalls, hcontent, Response.told, toldEvents, callsOf,
          orUndefined_bind]
    | some calls =>
      simp only [hcalls] at h
      cases hread : calls.mapM openAIReadCall with
      | error e => simp [hread] at h
      | ok toolCalls =>
        simp only [hread, Except.ok.injEq] at h
        subst h
        cases hcontent : msg.content with
        | none =>
          simp [VendorAnswer.told, hchoices, hcalls, hcontent, Response.told, toldEvents, callsOf,
            mapM_read hread]
        | some text =>
          simp [VendorAnswer.told, hchoices, hcalls, hcontent, Response.told, toldEvents, callsOf,
            mapM_read hread, orUndefined_bind]

theorem geminiDecode_told (freshId : Nat → String) (usage : Usage) (answer : GeminiAnswer) :
    (VendorAnswer.gemini answer).told = some (geminiDecode freshId usage answer).told := by
  have hcalls : ((answer.functionCalls.getD []).zipIdx.map fun x =>
      (⟨freshId x.2, x.1.1, x.1.2⟩ : ToolCall)).map (fun tc => (tc.name, tc.args))
        = answer.functionCalls.getD [] := by
    rw [List.map_map]
    conv_rhs => rw [← List.zipIdx_map_fst 0 (answer.functionCalls.getD [])]
    rfl
  simp only [VendorAnswer.told, Response.told, geminiDecode, callsOf_present, hcalls]
  cases htext : answer.text with
  | none => rfl
  | some text => simp [toldEvents, orUndefined_bind]

/-! ## Who has answered -/

/-- The vendor of `p` gives this answer to the payload for `input`. -/
def Gives (w : World) (p : SingleProvider) (input : GenerateInput) (time : Nat) :
    VendorAnswer → Prop
  | .claude answer => p.vendor = .claude ∧
      w.anthropic time (claudePayload p.model input) = .ok answer
  | .openai answer => (p.vendor = .openai ∨ p.vendor = .local) ∧
      w.openai time p.baseURL (openAIPayload p.model input) = .ok answer
  | .gemini answer => p.vendor = .gemini ∧
      w.gemini time (geminiPayload p.model input) = .ok answer

/-- The response says what one of `ps` has answered to `messages`. -/
def AnswerOf (w : World) (ps : List SingleProvider) (messages : List Message)
    (response : Response) : Prop :=
  ∃ p ∈ ps, ∃ input time answer, input.messages = messages ∧ Gives w p input time answer ∧
    answer.told = some response.told

theorem AnswerOf.mono {w : World} {ps qs : List SingleProvider} {messages : List Message}
    {response : Response} (h : AnswerOf w ps messages response) (hsub : ps ⊆ qs) :
    AnswerOf w qs messages response := by
  obtain ⟨p, hp, hrest⟩ := h
  exact ⟨p, hsub hp, hrest⟩

/-- What a call returns is such a response. -/
def Speaks (w : World) (ps : List SingleProvider) (messages : List Message)
    (call : Prog Trace Response) : Prop :=
  ∀ tr response, (call tr).1 = .ok response → AnswerOf w ps messages response

section Speaks

variable {w : World} {input : GenerateInput}

/-- A request and its decoding. -/
theorem request_speaks {α : Type} {p : SingleProvider} {answer : Nat → Except String α}
    {usage : α → Usage} {decode : α → Prog Trace Response}
    (h : ∀ time a, answer time = .ok a → ∀ tr response, (decode a tr).1 = .ok response →
      AnswerOf w [p] input.messages response) :
    Speaks w [p] input.messages (p.request input.messages answer usage >>= decode) := by
  intro tr response hok
  cases hanswer : answer (elapsed tr) with
  | error e =>
    have hrequest : p.request input.messages answer usage tr
        = (.error e, tr ++ [.sent p input.messages]) := by
      simp [SingleProvider.request, hanswer]
    rw [Prog.bind_error hrequest] at hok
    cases hok
  | ok a =>
    have hrequest : p.request input.messages answer usage tr
        = (.ok a, tr ++ [.sent p input.messages, .received (usage a)]) := by
      simp [SingleProvider.request, hanswer]
    rw [Prog.bind_ok hrequest] at hok
    exact h _ a hanswer _ response hok

theorem SingleProvider.generate_speaks (p : SingleProvider) (hschema : input.responseSchema = none) :
    Speaks w [p] input.messages (p.generate w input) := by
  have hopenai : (p.vendor = .openai ∨ p.vendor = .local) → Speaks w [p] input.messages (do
      let answer ← p.request input.messages
        (fun t => w.openai t p.baseURL (openAIPayload p.model input))
        (fun a : OpenAIAnswer => p.usage (a.promptTokens.getD 0) (a.completionTokens.getD 0))
      Prog.ofExcept (openAIDecode
        (p.usage (answer.promptTokens.getD 0) (answer.completionTokens.getD 0)) answer)) := by
    intro hvendor
    apply request_speaks
    intro time a ha tr response hok
    exact ⟨p, List.mem_singleton_self p, input, time, .openai a, rfl, ⟨hvendor, ha⟩,
      openAIDecode_told hok⟩
  cases hvendor : p.vendor with
  | claude =>
    simp only [SingleProvider.generate, hvendor]
    apply request_speaks
    intro time a ha tr response hok
    cases hok
    exact ⟨p, List.mem_singleton_self p, input, time, .claude a, rfl, ⟨hvendor, ha⟩,
      claudeDecode_told hschema _ a⟩
  | gemini =>
    simp only [SingleProvider.generate, hvendor]
    intro tr response hok
    -- the ids of the calls are drawn at the time of the request
    rw [Prog.bind_ok (Prog.get_apply tr)] at hok
    refine request_speaks (fun time a ha tr response hok => ?_) tr response hok
    cases hok
    exact ⟨p, List.mem_singleton_self p, input, time, .gemini a, rfl, ⟨hvendor, ha⟩,
      geminiDecode_told _ _ a⟩
  | openai =>
    simp only [SingleProvider.generate, hvendor]
    exact hopenai (.inl hvendor)
  | «local» =>
    simp only [SingleProvider.generate, hvendor]
    exact hopenai (.inr hvendor)

/-- Through a chain, it is the answer of one of its members. -/
theorem tryProviders_speaks (hschema : input.responseSchema = none) (ps : List SingleProvider) :
    ∀ lastError, Speaks w ps input.messages (tryProviders w input lastError ps) := by
  induction ps with
  | nil =>
    intro lastError tr response hok
    cases hok
  | cons p ps ih =>
    intro lastError tr response hok
    cases hmember : tryMember w input p tr with
    | mk r t =>
    cases r with
    | ok returned =>
      rw [tryProviders, Prog.tryCatch_ok hmember] at hok
      cases hok
      obtain ⟨res, u, hgenerate, hvalidate⟩ := Prog.bind_eq_ok hmember
      obtain ⟨_, _, -, hreturn⟩ := Prog.bind_eq_ok hvalidate
      cases hreturn
      apply (p.generate_speaks hschema tr response (congrArg Prod.fst hgenerate)).mono
      exact List.cons_subset.mpr ⟨List.mem_cons_self .., List.nil_subset _⟩
    | error e =>
      rw [tryProviders, Prog.tryCatch_error hmember] at hok
      exact (ih e t response hok).mono fun q hq => List.mem_cons_of_mem p hq

theorem LLMProvider.generate_speaks (provider : LLMProvider) (hschema : input.responseSchema = none) :
    Speaks w provider.members input.messages (provider.generate w input) := by
  cases provider with
  | single p => exact p.generate_speaks hschema
  | fallback first rest =>
    simp only [generate]
    split
    · intro tr response hok
      cases hok
    · intro tr response hok
      exact (tryProviders_speaks hschema _ _ tr response hok).mono (List.drop_subset _ _)

end Speaks

/-- The response of a turn. -/
theorem asks_speaks {w : World} {provider : LLMProvider} {tools : List ToolDefinition}
    {s : LoopState} {tr t : Trace} {response : Response} {escalate : Bool}
    (h : asks w provider tools s tr = (.ok (response, escalate), t)) :
    AnswerOf w provider.members s.messages response := by
  -- the first call or the retry, which differ in the flag
  have hcall : ∀ (flag : Bool) (u : Trace), ((do
      emit (.generate (s.currentTurn + 1) s.messages flag)
      let response ← provider.generate w
        { messages := s.messages, tools := some tools, forceFallback := flag }
      pure (response, flag) : Prog Trace (Response × Bool)) u).1 = .ok (response, escalate) →
      AnswerOf w provider.members s.messages response := by
    intro flag u hok
    obtain ⟨-, -, hok⟩ := (Prog.bind_returns _ _ _ _).mp hok
    obtain ⟨returned, hgenerate, hpure⟩ := (Prog.bind_returns _ _ _ _).mp hok
    cases hpure
    exact provider.generate_speaks rfl _ response hgenerate
  have hok : (asks w provider tools s tr).1 = .ok (response, escalate) := congrArg Prod.fst h
  rw [asks, sendTurn] at hok
  generalize hfirst : (do
      emit (.generate (s.currentTurn + 1) s.messages (escalates w s tr))
      let response ← provider.generate w
        { messages := s.messages, tools := some tools, forceFallback := escalates w s tr }
      pure (response, escalates w s tr) : Prog Trace (Response × Bool)) = first at hok
  cases hrun : first (tr ++ [.configRead]) with
  | mk r u =>
  cases r with
  | ok a =>
    rw [Prog.tryCatch_ok hrun] at hok
    cases hok
    rw [← hfirst] at hrun
    exact hcall _ _ (congrArg Prod.fst hrun)
  | error e =>
    rw [Prog.tryCatch_error hrun] at hok
    split at hok
    · exact hcall false u hok
    · cases hok

/-! ## The loop -/

/-- What is said on a turn: the answer, and what its calls return, or that the model
should call a tool. -/
def Move.exchange (m : Move) : List TranscriptEvent :=
  m.response.told ++
    if m.idle then [.userText nudgeMessage.content]
    else m.replies.map fun reply => .result (replyText reply)

theorem transcript_append (ms ms' : List Message) :
    transcript (ms ++ ms') = transcript ms ++ transcript ms' := List.flatMap_append

theorem transcript_assistant (response : Response) :
    transcript [assistantMessage response] = response.told := by
  rw [transcript, List.flatMap_singleton, messageEvents_assistant]

theorem transcript_toolMessages (calls : List ToolCall) :
    ∀ replies : List (Except String ToolResult), replies.length = calls.length →
      transcript (toolMessages calls replies)
        = replies.map fun reply => .result (replyText reply) := by
  induction calls with
  | nil =>
    intro replies h
    rw [List.length_eq_zero_iff.mp h]
    rfl
  | cons call calls ih =>
    intro replies h
    cases replies with
    | nil => cases h
    | cons reply replies =>
      have hrest := ih replies (Nat.succ.inj h)
      simp only [toolMessages, List.zipWith_cons_cons, transcript, List.flatMap_cons] at hrest ⊢
      rw [hrest]
      rfl

/-- A turn that is not the last adds its exchange to the transcript. -/
theorem after_transcript {s s' : LoopState} {m : Move} (hlength : m.replies.length = m.calls.length)
    (h : s.after m = .ok s') (hgo : s'.isDone = false) :
    transcript s'.messages = transcript s.messages ++ m.exchange := by
  have hheard : transcript (s.heard m).messages = transcript s.messages ++ m.response.told := by
    simp only [LoopState.heard, LoopState.absorb, transcript_append, transcript_assistant]
  rcases after_ok_cases h with ⟨hidle, -, rfl⟩ | ⟨-, -, -, rfl⟩ | ⟨hidle, rfl⟩
  · simp only [LoopState.nudged, transcript_append, hheard, Move.exchange, hidle, if_true,
      List.append_assoc]
    rfl
  · cases hgo
  · simp only [LoopState.called, transcript_append, hheard, Move.exchange, hidle,
      transcript_toolMessages _ _ hlength, List.append_assoc, Bool.false_eq_true, if_false]

/-- After `past`, each turn's answer is to all that was said before it. -/
def TurnsAnswered (w : World) (ps : List SingleProvider) (past : List TranscriptEvent)
    (ms : List Move) : Prop :=
  ∀ (k : Nat) m, ms[k]? = some m → ∃ messages,
    transcript messages = past ++ (ms.take k).flatMap Move.exchange ∧ AnswerOf w ps messages m.response

/-- After `past`, every request carries all that was said before some turn. -/
def Carries (past : List TranscriptEvent) (ms : List Move) (es : Trace) : Prop :=
  ∀ p messages, .sent p messages ∈ es →
    ∃ k ≤ ms.length, transcript messages = past ++ (ms.take k).flatMap Move.exchange

theorem TurnsAnswered.cons {w : World} {ps : List SingleProvider} {past : List TranscriptEvent}
    {m : Move} {ms : List Move} {messages : List Message} (hpast : transcript messages = past)
    (hanswer : AnswerOf w ps messages m.response) (h : TurnsAnswered w ps (past ++ m.exchange) ms) :
    TurnsAnswered w ps past (m :: ms) := by
  intro k m' hk
  cases k with
  | zero =>
    cases hk
    exact ⟨messages, by simpa using hpast, hanswer⟩
  | succ k =>
    obtain ⟨messages', hmessages, hanswer'⟩ := h k m' hk
    exact ⟨messages', by simpa using hmessages, hanswer'⟩

theorem Carries.cons {past : List TranscriptEvent} {m : Move} {ms : List Move} {es fs : Trace}
    (h : Carries past [] es) (h' : Carries (past ++ m.exchange) ms fs) :
    Carries past (m :: ms) (es ++ fs) := by
  intro p messages hmem
  rcases List.mem_append.mp hmem with hmem | hmem
  · obtain ⟨k, -, hk⟩ := h p messages hmem
    exact ⟨0, Nat.zero_le _, by simpa using hk⟩
  · obtain ⟨k, hle, hk⟩ := h' p messages hmem
    exact ⟨k + 1, Nat.succ_le_succ hle, by simpa using hk⟩

theorem carries_of_none {past : List TranscriptEvent} {ms : List Move} {es : Trace}
    (h : ∀ p messages, .sent p messages ∉ es) : Carries past ms es :=
  fun p messages hmem => absurd hmem (h p messages)

/-- The requests of a turn carry the messages of its state. -/
theorem asks_carries {w : World} {provider : LLMProvider} {tools : List ToolDefinition}
    {s : LoopState} {tr t : Trace} {r : Except String (Response × Bool)} (m : Option Move)
    (h : asks w provider tools s (tr ++ [.clockRead]) = (r, t)) :
    ∃ es, t = tr ++ es ∧ Carries (transcript s.messages) [] (es ++ (m.map Move.events).getD []) := by
  obtain ⟨sends, rfl, hsends⟩ := asks_events h
  refine ⟨.clockRead :: .configRead :: sends, by simp, ?_⟩
  intro p messages hmem
  have hsent : .sent p messages ∈ sends := by
    rcases List.mem_append.mp hmem with hmem | htool
    · simpa using hmem
    · cases m with
      | none => cases htool
      | some m => cases m.events_isTool _ htool
  refine ⟨0, Nat.le_refl 0, ?_⟩
  rcases hsends _ hsent with ⟨_, hgenerate⟩ | ⟨q, -, hsame | ⟨u, hreceived, -⟩⟩
  · cases hgenerate
  · cases hsame
    simp
  · cases hreceived

/-- The loop is a dialogue after what the state has in its messages. -/
theorem LoopRun.dialogue {w : World} {provider : LLMProvider} {tools : List ToolDefinition}
    {startTime left : Nat} {s : LoopState} {tr u : Trace} {ms : List Move}
    {r : Except String LoopState} (h : LoopRun w provider tools startTime left s tr ms r u) :
    ∀ past, (s.isDone = false → transcript s.messages = past) →
      TurnsAnswered w provider.members past ms ∧ ∃ es, u = tr ++ es ∧ Carries past ms es := by
  have hnone : ∀ past, TurnsAnswered w provider.members past [] := fun past k m hk => by cases hk
  induction h with
  | done _ =>
    intro past _
    exact ⟨hnone past, [], by simp, carries_of_none (by simp)⟩
  | turnLimit _ =>
    intro past _
    exact ⟨hnone past, [], by simp, carries_of_none (by simp)⟩
  | timeLimit _ _ =>
    intro past _
    exact ⟨hnone past, [.clockRead], rfl, carries_of_none (by simp)⟩
  | threw hdone hasks =>
    intro past hpast
    obtain ⟨es, rfl, hes⟩ := asks_carries none hasks
    rw [hpast hdone] at hes
    exact ⟨hnone past, es, rfl, by simpa using hes⟩
  | @unsaved left s tr t response escalate e hdone hasks hafter =>
    intro past hpast
    obtain ⟨es, rfl, hes⟩ := asks_carries (some (moveAt w response escalate (elapsed t))) hasks
    rw [hpast hdone] at hes
    refine ⟨.cons (hpast hdone) (asks_speaks hasks) (hnone _), _, List.append_assoc _ _ _, ?_⟩
    have hafterwards : ∀ past, Carries past [] [] :=
      fun _ => carries_of_none fun _ _ => List.not_mem_nil
    simpa using hes.cons (hafterwards _)
  | @turn left s s' tr t u response escalate ms r hdone hasks hafter hrest ih =>
    intro past hpast
    obtain ⟨es, rfl, hes⟩ := asks_carries (some (moveAt w response escalate (elapsed t))) hasks
    rw [hpast hdone] at hes
    have hnext : s'.isDone = false → transcript s'.messages
        = past ++ (moveAt w response escalate (elapsed (tr ++ es))).exchange := by
      intro hgo
      rw [after_transcript (repliesAt_length _ _ _) hafter hgo, hpast hdone]
    obtain ⟨hanswered, fs, rfl, hfs⟩ := ih _ hnext
    refine ⟨.cons (hpast hdone) (asks_speaks hasks) hanswered, _, ?_, hes.cons hfs⟩
    simp

/-! ## The run -/

/-- What a payload for `p` says, read off the vendor's own format. -/
def payloadEvents (p : SingleProvider) (input : GenerateInput) : Option (List TranscriptEvent) :=
  match p.vendor with
  | .claude => some (flattenClaude (claudePayload p.model input))
  | .gemini => some (flattenGemini (geminiPayload p.model input))
  | .openai | .local => flattenOpenAI (openAIPayload p.model input)

theorem payloadEvents_eq (p : SingleProvider) (input : GenerateInput) :
    payloadEvents p input = some (transcript input.messages) := by
  cases hvendor : p.vendor with
  | claude => simp only [payloadEvents, hvendor, flattenClaude_payload]
  | gemini => simp only [payloadEvents, hvendor, flattenGemini_payload]
  | openai => simp only [payloadEvents, hvendor, flattenOpenAI_payload]
  | «local» => simp only [payloadEvents, hvendor, flattenOpenAI_payload]

/-- What has been said once the moves are made. -/
def dialogue (url : String) (ms : List Move) : List TranscriptEvent :=
  .userText ("Begin task. Go to " ++ url) :: ms.flatMap Move.exchange

section Run

variable (w : World) (testRunId instruction url : String) (provider? : Option LLMProvider)
  (tr : Trace)

theorem agentMoves_dialogue :
    TurnsAnswered w (chosenProvider w provider? tr).members (dialogue url [])
        (agentMoves w provider? instruction url tr) ∧
      Carries (dialogue url []) (agentMoves w provider? instruction url tr)
        (runEvents (executeTestAutonomous w testRunId instruction url provider?) tr) := by
  have hsilent : ∀ {es : Trace}, (∀ e ∈ es, Outside e) → ∀ p messages, .sent p messages ∉ es := by
    intro es hes p messages hmem
    rcases hes _ hmem with hsame | hsame | hsame | hsame | hsame <;> cases hsame
  rcases run_cases w testRunId instruction url provider? tr with
    ⟨e, es, hrun, hes, hmoves, -⟩ | ⟨tools, r, pre, es, -, -, hpre, hloop, hrun⟩
  · rw [runEvents_eq (congrArg Prod.snd hrun), hmoves]
    exact ⟨fun _ _ hk => (by cases hk), carries_of_none (hsilent hes)⟩
  · obtain ⟨hanswered, es', heq, hcarries⟩ := hloop.dialogue (dialogue url []) fun _ => rfl
    obtain rfl := List.append_cancel_left heq
    rw [runEvents_eq (congrArg Prod.snd hrun)]
    refine ⟨hanswered, ?_⟩
    intro p messages hmem
    rcases List.mem_append.mp hmem with hmem | hclose
    · rcases List.mem_append.mp hmem with hmem | hmem
      · exact absurd hmem (hsilent hpre p messages)
      · exact hcarries p messages hmem
    · cases List.mem_singleton.mp hclose

end Run

end AutoQa.LlmAgents

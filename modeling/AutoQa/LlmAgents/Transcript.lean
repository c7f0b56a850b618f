import AutoQa.LlmAgents.Adapters

/-!
# One transcript behind three payloads

The abstract reading of a conversation is its transcript: what the user said,
what the assistant said and called, and what each call returned. Claude's
adapter regroups the messages with a pending buffer while the other two
translate one message at a time; all three payloads flatten to the same
transcript.
-/

namespace AutoQa.LlmAgents

open AutoQa.Base

inductive TranscriptEvent where
  | userText (text : String)
  | assistantText (text : String)
  | call (name : String) (args : Json)
  | result (content : String)

def messageEvents (m : Message) : List TranscriptEvent :=
  match m.role with
  | .user => [.userText m.content]
  | .assistant => (if m.content ≠ "" then [.assistantText m.content] else [])
      ++ (callsOf m.toolCalls).map fun tc => .call tc.name tc.args
  | .tool => [.result m.content]
  | .system => []

/-- The events of the non-system messages, in order. -/
def transcript (messages : List Message) : List TranscriptEvent := messages.flatMap messageEvents

/-! ## Reading a payload back -/

def claudeBlockEvent (role : ClaudeRole) : ClaudeBlock → TranscriptEvent
  | .text t => if role = .user then .userText t else .assistantText t
  | .toolUse _ name input => .call name input
  | .toolResult _ content => .result content

/-- The blocks of a payload, each with the role of the message it sits in. -/
def claudeBlocks (messages : List ClaudeMessage) : List (ClaudeRole × ClaudeBlock) :=
  messages.flatMap fun m => m.content.map fun b => (m.role, b)

def flattenClaude (payload : ClaudePayload) : List TranscriptEvent :=
  (claudeBlocks payload.messages).map fun (role, b) => claudeBlockEvent role b

def openAICallEvent (tc : OpenAIToolCall) : Option TranscriptEvent :=
  (Json.parse tc.arguments).map fun args => .call tc.name args

def openAIMessageEvents : OpenAIMessage → Option (List TranscriptEvent)
  | .tool content _ => some [.result content]
  | .assistant content toolCalls =>
      ((toolCalls.getD []).mapM openAICallEvent).map fun calls =>
        (content.toList.map .assistantText) ++ calls
  | .plain .user content => some [.userText content]
  | .plain _ _ => some []

/-- `none` when some `function.arguments` is not JSON. -/
def flattenOpenAI (payload : OpenAIPayload) : Option (List TranscriptEvent) :=
  (payload.messages.mapM openAIMessageEvents).map List.flatten

def geminiPartEvent (role : GeminiRole) : GeminiPart → TranscriptEvent
  | .text t => if role = .user then .userText t else .assistantText t
  | .functionCall name args => .call name args
  | .functionResponse _ result => .result result

def flattenGemini (payload : GeminiPayload) : List TranscriptEvent :=
  payload.contents.flatMap fun c => c.parts.map (geminiPartEvent c.role)

/-! ## Claude's grouping loop -/

/-- The role a message's blocks belong to. -/
def claudeRoleOf : Role → ClaudeRole
  | .assistant => .assistant
  | _ => .user

def claudeBlocksOf (m : Message) : List ClaudeBlock :=
  match m.role with
  | .user => [.text m.content]
  | .assistant => claudeAssistantBlocks m
  | .tool => [.toolResult m.toolCallId m.content]
  | .system => []

/-- The blocks of a conversation in order, each with its own role. -/
def ownBlocks (messages : List Message) : List (ClaudeRole × ClaudeBlock) :=
  messages.flatMap fun m => (claudeBlocksOf m).map fun b => (claudeRoleOf m.role, b)

/-- What the loop has said so far: the finished messages, then the buffer. -/
def ClaudeGrouping.blocks (s : ClaudeGrouping) : List (ClaudeRole × ClaudeBlock) :=
  claudeBlocks s.messages ++ s.currentContent.map fun b => (s.currentRole, b)

/-- One turn of the loop adds the message's blocks under its role: either the
buffer was flushed, or it is empty, or it already has that role. -/
theorem flush_push_blocks (s : ClaudeGrouping) {next pushed : ClaudeRole} (h : pushed ≠ next)
    (bs : List ClaudeBlock) :
    ((s.flushFor next pushed).push next bs).blocks = s.blocks ++ bs.map fun b => (next, b) := by
  by_cases hf : s.currentRole ≠ next ∧ s.currentContent ≠ []
  · -- there are two roles: the buffer's, which is not `next`, is the one that is flushed
    have hrole : s.currentRole = pushed := by
      cases hs : s.currentRole <;> cases next <;> cases pushed <;> simp_all
    rw [ClaudeGrouping.flushFor, if_pos hf]
    simp [ClaudeGrouping.push, ClaudeGrouping.blocks, claudeBlocks, hrole]
  · rw [ClaudeGrouping.flushFor, if_neg hf]
    by_cases hr : s.currentRole = next
    · simp [ClaudeGrouping.push, ClaudeGrouping.blocks, hr]
    · have hempty : s.currentContent = [] := by
        by_contra hc
        exact hf ⟨hr, hc⟩
      simp [ClaudeGrouping.push, ClaudeGrouping.blocks, hempty]

theorem claudeStep_blocks (s : ClaudeGrouping) (m : Message) :
    (claudeStep s m).blocks = s.blocks ++ ownBlocks [m] := by
  cases hr : m.role with
  | user =>
    simpa [claudeStep, ownBlocks, claudeBlocksOf, claudeRoleOf, hr]
      using flush_push_blocks s (by decide) [.text m.content]
  | assistant =>
    simpa [claudeStep, ownBlocks, claudeBlocksOf, claudeRoleOf, hr]
      using flush_push_blocks s (by decide) (claudeAssistantBlocks m)
  | tool =>
    simpa [claudeStep, ownBlocks, claudeBlocksOf, claudeRoleOf, hr]
      using flush_push_blocks s (by decide) [.toolResult m.toolCallId m.content]
  | system => simp [claudeStep, ownBlocks, claudeBlocksOf, hr]

theorem foldl_claudeStep_blocks (ms : List Message) :
    ∀ s : ClaudeGrouping, (ms.foldl claudeStep s).blocks = s.blocks ++ ownBlocks ms := by
  induction ms with
  | nil => intro s; simp [ownBlocks]
  | cons m ms ih =>
    intro s
    rw [List.foldl_cons, ih, claudeStep_blocks]
    simp [ownBlocks]

theorem finish_blocks (s : ClaudeGrouping) : claudeBlocks s.finish = s.blocks := by
  by_cases hc : s.currentContent = []
  · simp [ClaudeGrouping.finish, ClaudeGrouping.blocks, hc]
  · simp [ClaudeGrouping.finish, ClaudeGrouping.blocks, hc, claudeBlocks]

theorem ownBlocks_filter (ms : List Message) :
    ownBlocks (ms.filter (·.role != .system)) = ownBlocks ms := by
  induction ms with
  | nil => rfl
  | cons m ms ih =>
    by_cases hr : m.role = .system
    · have hm : claudeBlocksOf m = [] := by simp [claudeBlocksOf, hr]
      simpa [ownBlocks, hr, hm] using ih
    · simpa [ownBlocks, hr] using ih

/-- Claude's payload holds exactly the conversation's blocks, in order, each in
a message of its own role. -/
theorem claudeBlocks_claudeMessages (ms : List Message) :
    claudeBlocks (claudeMessages ms) = ownBlocks ms := by
  rw [claudeMessages, finish_blocks, foldl_claudeStep_blocks, ownBlocks_filter]
  rfl

/-- No finished message is empty. -/
def ClaudeGrouping.Nonempty (s : ClaudeGrouping) : Prop := ∀ m ∈ s.messages, m.content ≠ []

theorem claudeStep_nonempty {s : ClaudeGrouping} (h : s.Nonempty) (m : Message) :
    (claudeStep s m).Nonempty := by
  have hflush : ∀ (next pushed : ClaudeRole) (bs : List ClaudeBlock),
      ((s.flushFor next pushed).push next bs).Nonempty := by
    intro next pushed bs c hc
    by_cases hf : s.currentRole ≠ next ∧ s.currentContent ≠ []
    · simp only [ClaudeGrouping.flushFor, if_pos hf, ClaudeGrouping.push, List.mem_append,
        List.mem_singleton] at hc
      rcases hc with hc | rfl
      · exact h c hc
      · exact hf.2
    · rw [ClaudeGrouping.flushFor, if_neg hf] at hc
      exact h c hc
  unfold claudeStep
  split
  · exact hflush _ _ _
  · exact hflush _ _ _
  · exact hflush _ _ _
  · exact h

theorem foldl_claudeStep_nonempty (ms : List Message) :
    ∀ s : ClaudeGrouping, s.Nonempty → (ms.foldl claudeStep s).Nonempty := by
  induction ms with
  | nil => intro s h; exact h
  | cons m ms ih => intro s h; exact ih _ (claudeStep_nonempty h m)

theorem claudeMessages_nonempty (ms : List Message) :
    ∀ m ∈ claudeMessages ms, m.content ≠ [] := by
  have h := foldl_claudeStep_nonempty (ms.filter (·.role != .system)) {} (by
    intro m hm
    cases hm)
  intro m hm
  unfold claudeMessages ClaudeGrouping.finish at hm
  split at hm
  · -- the last message is pushed only when the buffer has something
    rename_i hc
    rcases List.mem_append.mp hm with hm | hm
    · exact h m hm
    · rw [List.mem_singleton.mp hm]
      exact hc
  · exact h m hm

/-! ## Each payload flattens to the transcript -/

theorem claudeBlocksOf_events (m : Message) :
    (claudeBlocksOf m).map (claudeBlockEvent (claudeRoleOf m.role)) = messageEvents m := by
  cases hr : m.role with
  | user => simp [claudeBlocksOf, messageEvents, claudeRoleOf, claudeBlockEvent, hr]
  | assistant =>
    by_cases hc : m.content = ""
    · simp [claudeBlocksOf, claudeAssistantBlocks, messageEvents, claudeRoleOf,
        claudeBlockEvent, hr, hc]
    · simp [claudeBlocksOf, claudeAssistantBlocks, messageEvents, claudeRoleOf,
        claudeBlockEvent, hr, hc]
  | tool => simp [claudeBlocksOf, messageEvents, claudeRoleOf, claudeBlockEvent, hr]
  | system => simp [claudeBlocksOf, messageEvents, hr]

theorem flattenClaude_payload (model : String) (input : GenerateInput) :
    flattenClaude (claudePayload model input) = transcript input.messages := by
  have h : flattenClaude (claudePayload model input)
      = (ownBlocks input.messages).map fun (role, b) => claudeBlockEvent role b := by
    rw [← claudeBlocks_claudeMessages]
    rfl
  rw [h, ownBlocks, transcript, List.map_flatMap]
  congr 1
  funext m
  rw [List.map_map, ← claudeBlocksOf_events]
  rfl

theorem openAICallEvent_stringify (tc : ToolCall) :
    openAICallEvent ⟨tc.id, tc.name, tc.args.stringify 0⟩ = some (.call tc.name tc.args) := by
  simp [openAICallEvent, Json.parse_stringify]

theorem mapM_callEvent (calls : List ToolCall) :
    (calls.map fun tc => (⟨tc.id, tc.name, tc.args.stringify 0⟩ : OpenAIToolCall)).mapM
        openAICallEvent
      = some (calls.map fun tc => .call tc.name tc.args) := by
  induction calls with
  | nil => rfl
  | cons tc calls ih => simp [List.mapM_cons, openAICallEvent_stringify, ih]

theorem openAIMessage_events (m : Message) :
    openAIMessageEvents (openAIMessage m) = some (messageEvents m) := by
  cases hr : m.role with
  | user => simp [openAIMessage, openAIMessageEvents, messageEvents, hr]
  | assistant =>
    -- the arguments travel as text, and `parse` inverts `stringify`
    have hcalls : ((m.toolCalls.map fun calls => calls.map fun tc =>
          (⟨tc.id, tc.name, tc.args.stringify 0⟩ : OpenAIToolCall)).getD []).mapM openAICallEvent
        = some ((callsOf m.toolCalls).map fun tc => .call tc.name tc.args) := by
      cases m.toolCalls with
      | none => rfl
      | some calls => exact mapM_callEvent calls
    by_cases hc : m.content = ""
    · simp [openAIMessage, openAIMessageEvents, messageEvents, hr, hcalls, hc, orUndefined]
    · simp [openAIMessage, openAIMessageEvents, messageEvents, hr, hcalls, hc, orUndefined]
  | tool => simp [openAIMessage, openAIMessageEvents, messageEvents, hr]
  | system => simp [openAIMessage, openAIMessageEvents, messageEvents, hr]

theorem flattenOpenAI_payload (model : String) (input : GenerateInput) :
    flattenOpenAI (openAIPayload model input) = some (transcript input.messages) := by
  have h : ∀ ms : List Message,
      (ms.map openAIMessage).mapM openAIMessageEvents = some (ms.map messageEvents) := by
    intro ms
    induction ms with
    | nil => rfl
    | cons m ms ih => simp [List.mapM_cons, openAIMessage_events, ih]
  simp [flattenOpenAI, openAIPayload, h, transcript, List.flatMap_def]

theorem geminiContent_events (m : Message) :
    (geminiContent m).flatMap (fun c => c.parts.map (geminiPartEvent c.role))
      = messageEvents m := by
  cases hr : m.role with
  | user => simp [geminiContent, messageEvents, geminiPartEvent, hr]
  | assistant =>
    by_cases hc : m.content = ""
    · simp [geminiContent, geminiAssistantParts, messageEvents, geminiPartEvent, hr, hc]
    · simp [geminiContent, geminiAssistantParts, messageEvents, geminiPartEvent, hr, hc]
  | tool => simp [geminiContent, messageEvents, geminiPartEvent, hr]
  | system => simp [geminiContent, messageEvents, hr]

theorem transcript_filter (ms : List Message) :
    transcript (ms.filter (·.role != .system)) = transcript ms := by
  induction ms with
  | nil => rfl
  | cons m ms ih =>
    by_cases hr : m.role = .system
    · -- a system message has no events
      simpa [transcript, hr, messageEvents] using ih
    · simpa [transcript, hr] using ih

theorem flattenGemini_payload (model : String) (input : GenerateInput) :
    flattenGemini (geminiPayload model input) = transcript input.messages := by
  rw [← transcript_filter, flattenGemini, geminiPayload, transcript, List.flatMap_assoc]
  congr 1
  funext m
  exact geminiContent_events m

/-! ## The system text -/

theorem orUndefined_getD (s : String) : (orUndefined s).getD "" = s := by
  by_cases h : s = ""
  · simp [orUndefined, h]
  · simp [orUndefined, h]

/-- The system text of a Claude request: the joined system contents, with the
schema instruction behind them when the call has tools AND a schema. -/
def claudeSystemText (input : GenerateInput) : String :=
  systemContents input.messages ++
    match input.responseSchema, input.tools with
    | some schema, some _ => schemaInstruction schema
    | _, _ => ""

/-- **The adapters agree.** For every conversation, and whatever tools and
schema the call carries, the three payloads flatten to its transcript. -/
theorem adapters_agree (model : String) (input : GenerateInput) :
    flattenClaude (claudePayload model input) = transcript input.messages
      ∧ flattenOpenAI (openAIPayload model input) = some (transcript input.messages)
      ∧ flattenGemini (geminiPayload model input) = transcript input.messages
      ∧ claudeBlocks (claudePayload model input).messages = ownBlocks input.messages
      ∧ (∀ m ∈ (claudePayload model input).messages, m.content ≠ [])
      ∧ (claudePayload model input).system.getD "" = claudeSystemText input
      ∧ (geminiPayload model input).systemInstruction.getD "" = systemContents input.messages :=
  ⟨flattenClaude_payload model input, flattenOpenAI_payload model input,
    flattenGemini_payload model input, claudeBlocks_claudeMessages input.messages,
    claudeMessages_nonempty input.messages, orUndefined_getD _, orUndefined_getD _⟩

/-- The first call of the canary check carries both tools and a schema. -/
def canaryInput : GenerateInput :=
  { messages := [{ role := .user, content :=
      "Use the calculator tool to add 2 and 2, then respond with the result." }]
    tools := some [⟨"calculator", "Adds two numbers together", .obj [("type", .str "object")]⟩]
    responseSchema := some (.obj [("type", .str "object")]) }

/-- There Claude's system text is not just the joined system contents. -/
theorem canary_system_text :
    (claudePayload "claude-3-5-sonnet-20241022" canaryInput).system.getD ""
      ≠ systemContents canaryInput.messages := by
  decide +kernel

end AutoQa.LlmAgents

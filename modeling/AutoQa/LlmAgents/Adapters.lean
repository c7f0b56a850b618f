import AutoQa.LlmAgents.Types
import AutoQa.Base.Text

/-!
# The vendor adapters

What `ClaudeProvider`, `OpenAIProvider` (with `LocalProvider`) and
`GeminiProvider` send for a `GenerateInput`, and how each turns the vendor's
answer into a `Response`. The requests themselves are made in `Providers`.
-/

namespace AutoQa.LlmAgents

open AutoQa.Base AutoQa.Base.Text

/-- The contents of the system messages, joined by a line break. -/
def systemContents (messages : List Message) : String :=
  String.intercalate "\n" ((messages.filter (·.role == .system)).map Message.content)

/-! ## Claude -/

inductive ClaudeBlock where
  | text (text : String)
  | toolUse (id name : String) (input : Json)
  | toolResult (toolUseId : Option String) (content : String)

inductive ClaudeRole where
  | user
  | assistant
  deriving DecidableEq, Repr

structure ClaudeMessage where
  role : ClaudeRole
  content : List ClaudeBlock

structure ClaudePayload where
  model : String
  maxTokens : Nat
  system : Option String
  messages : List ClaudeMessage
  tools : Option (List ToolDefinition)
  toolChoice : Option String

/-- The loop variables `messages`, `currentRole` and `currentContent`. -/
structure ClaudeGrouping where
  messages : List ClaudeMessage := []
  currentRole : ClaudeRole := .user
  currentContent : List ClaudeBlock := []

/-- Blocks of an assistant message: its text when there is any, then its calls. -/
def claudeAssistantBlocks (msg : Message) : List ClaudeBlock :=
  (if msg.content ≠ "" then [.text msg.content] else [])
    ++ (callsOf msg.toolCalls).map fun tc => .toolUse tc.id tc.name tc.args

/-- The pending content moves to `messages` as one message of role `pushed`
when the loop leaves `pushed` for another role. -/
def ClaudeGrouping.flushFor (s : ClaudeGrouping) (next pushed : ClaudeRole) : ClaudeGrouping :=
  if s.currentRole ≠ next ∧ s.currentContent ≠ [] then
    { s with messages := s.messages ++ [⟨pushed, s.currentContent⟩], currentContent := [] }
  else s

def ClaudeGrouping.push (s : ClaudeGrouping) (role : ClaudeRole) (blocks : List ClaudeBlock) :
    ClaudeGrouping :=
  { s with currentRole := role, currentContent := s.currentContent ++ blocks }

def claudeStep (s : ClaudeGrouping) (msg : Message) : ClaudeGrouping :=
  match msg.role with
  | .user => (s.flushFor .user .assistant).push .user [.text msg.content]
  | .assistant => (s.flushFor .assistant .user).push .assistant (claudeAssistantBlocks msg)
  | .tool => (s.flushFor .user .assistant).push .user [.toolResult msg.toolCallId msg.content]
  | .system => s

def ClaudeGrouping.finish (s : ClaudeGrouping) : List ClaudeMessage :=
  if s.currentContent ≠ [] then s.messages ++ [⟨s.currentRole, s.currentContent⟩] else s.messages

def claudeMessages (messages : List Message) : List ClaudeMessage :=
  ((messages.filter (·.role != .system)).foldl claudeStep {}).finish

/-- Appended to the system prompt when both tools and a schema are given. -/
def schemaInstruction (schema : Json) : String :=
  "\n\nYou MUST respond with JSON matching this schema:\n" ++ schema.stringify 2

def claudePayload (model : String) (input : GenerateInput) : ClaudePayload :=
  let tools := callTools input
  let system := systemContents input.messages ++
    match input.responseSchema, input.tools with
    | some schema, some _ => schemaInstruction schema
    | _, _ => ""
  { model
    maxTokens := 4096
    system := orUndefined system
    messages := claudeMessages input.messages
    tools := if tools.length > 0 then some tools else none
    toolChoice := if input.responseSchema.isSome && input.tools.isNone then some "output_json"
      else none }
where
  /-- The given tools, or the forced `output_json` tool when only a schema is given. -/
  callTools (input : GenerateInput) : List ToolDefinition :=
    match input.responseSchema, input.tools with
    | some schema, none => [⟨"output_json", "Outputs the final JSON response", schema⟩]
    | _, tools => tools.getD []

inductive ClaudeAnswerBlock where
  | text (text : String)
  | toolUse (id name : String) (input : Json)
  | other

structure ClaudeAnswer where
  content : List ClaudeAnswerBlock
  inputTokens : Nat
  outputTokens : Nat

/-- The variables `text` and `toolCalls` after one block of the answer;
`structured` is `input.responseSchema && !input.tools`. -/
def claudeRead (structured : Bool) (acc : String × List ToolCall) :
    ClaudeAnswerBlock → String × List ToolCall
  | .text t => (acc.1 ++ t, acc.2)
  | .toolUse id name input =>
      if structured && name == "output_json" then (input.stringify 0, acc.2)
      else (acc.1, acc.2 ++ [⟨id, name, input⟩])
  | .other => acc

def claudeDecode (input : GenerateInput) (usage : Usage) (answer : ClaudeAnswer) : Response :=
  let structured := input.responseSchema.isSome && input.tools.isNone
  let (text, toolCalls) := answer.content.foldl (claudeRead structured) ("", [])
  { text := orUndefined (trim text)
    toolCalls := if toolCalls.length > 0 then some toolCalls else none
    usage }

/-! ## OpenAI and the local servers -/

structure OpenAIToolCall where
  id : String
  name : String
  arguments : String

inductive OpenAIMessage where
  | tool (content : String) (toolCallId : Option String)
  | assistant (content : Option String) (toolCalls : Option (List OpenAIToolCall))
  | plain (role : Role) (content : String)

structure OpenAIPayload where
  model : String
  messages : List OpenAIMessage
  tools : Option (List ToolDefinition)
  responseFormat : Option Json

def openAIMessage (m : Message) : OpenAIMessage :=
  match m.role with
  | .tool => .tool m.content m.toolCallId
  | .assistant => .assistant (orUndefined m.content)
      (m.toolCalls.map fun calls => calls.map fun tc => ⟨tc.id, tc.name, tc.args.stringify 0⟩)
  | role => .plain role m.content

def openAIPayload (model : String) (input : GenerateInput) : OpenAIPayload :=
  { model
    messages := input.messages.map openAIMessage
    tools := if (input.tools.getD []).length > 0 then input.tools else none
    responseFormat := input.responseSchema.map responseFormat }
where
  responseFormat (schema : Json) : Json :=
    .obj [("type", .str "json_schema"),
      ("json_schema", .obj [("name", .str "response_schema"), ("strict", .bool true),
        ("schema", schema)])]

structure OpenAIAnswerMessage where
  content : Option String
  toolCalls : Option (List OpenAIToolCall)

structure OpenAIAnswer where
  choices : List OpenAIAnswerMessage
  promptTokens : Option Nat
  completionTokens : Option Nat

/-- `JSON.parse(tc.function.arguments)` throws on a malformed text. -/
def openAIReadCall (tc : OpenAIToolCall) : Except String ToolCall :=
  match Json.parse tc.arguments with
  | some args => .ok ⟨tc.id, tc.name, args⟩
  | none => .error "Unexpected token in JSON"

def openAIDecode (usage : Usage) (answer : OpenAIAnswer) : Except String Response :=
  match answer.choices with
  | [] => .error "Cannot read properties of undefined (reading 'message')"
  | msg :: _ =>
    match msg.toolCalls with
    | none => .ok { text := msg.content.bind orUndefined, toolCalls := none, usage }
    | some calls =>
      match calls.mapM openAIReadCall with
      | .ok toolCalls =>
          .ok { text := msg.content.bind orUndefined, toolCalls := some toolCalls, usage }
      | .error e => .error e

/-! ## Gemini -/

inductive GeminiPart where
  | text (text : String)
  | functionCall (name : String) (args : Json)
  | functionResponse (name : Option String) (result : String)

inductive GeminiRole where
  | user
  | model
  deriving DecidableEq, Repr

structure GeminiContent where
  role : GeminiRole
  parts : List GeminiPart

structure GeminiPayload where
  model : String
  contents : List GeminiContent
  systemInstruction : Option String
  tools : Option (List ToolDefinition)
  responseSchema : Option Json

def geminiAssistantParts (msg : Message) : List GeminiPart :=
  (if msg.content ≠ "" then [.text msg.content] else [])
    ++ (callsOf msg.toolCalls).map fun tc => .functionCall tc.name tc.args

/-- The entries one message of the conversation adds to `contents`. -/
def geminiContent (msg : Message) : List GeminiContent :=
  match msg.role with
  | .user => [⟨.user, [.text msg.content]⟩]
  | .assistant => [⟨.model, geminiAssistantParts msg⟩]
  | .tool => [⟨.user, [.functionResponse msg.name msg.content]⟩]
  | .system => []

def geminiPayload (model : String) (input : GenerateInput) : GeminiPayload :=
  { model
    contents := (input.messages.filter (·.role != .system)).flatMap geminiContent
    systemInstruction := orUndefined (systemContents input.messages)
    tools := input.tools
    responseSchema := input.responseSchema }

structure GeminiAnswer where
  text : Option String
  functionCalls : Option (List (String × Json))
  promptTokenCount : Option Nat
  candidatesTokenCount : Option Nat

/-- Gemini returns no call ids; `freshId` draws one for each call. -/
def geminiDecode (freshId : Nat → String) (usage : Usage) (answer : GeminiAnswer) : Response :=
  let toolCalls := (answer.functionCalls.getD []).zipIdx.map fun (fc, i) =>
    (⟨freshId i, fc.1, fc.2⟩ : ToolCall)
  { text := answer.text.bind orUndefined
    toolCalls := if toolCalls.length > 0 then some toolCalls else none
    usage }

end AutoQa.LlmAgents

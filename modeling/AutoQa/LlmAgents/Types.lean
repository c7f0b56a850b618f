import AutoQa.Base.Json

/-!
# Messages, tool calls and responses

The data that crosses `LLMProvider.generate` (`providers/types.ts`). A field
declared with `?` is an `Option`; `none` is `undefined`.
-/

namespace AutoQa.LlmAgents

open AutoQa.Base

inductive Role where
  | user
  | assistant
  | system
  | tool
  deriving DecidableEq, Repr

structure ToolCall where
  id : String
  name : String
  args : Json

structure Message where
  role : Role
  content : String
  name : Option String := none
  toolCalls : Option (List ToolCall) := none
  toolCallId : Option String := none

structure ToolDefinition where
  name : String
  description : String
  inputSchema : Json

structure Usage where
  promptTokens : Nat
  completionTokens : Nat
  provider : Option String
  model : Option String
  deriving DecidableEq, Repr

structure Response where
  toolCalls : Option (List ToolCall)
  text : Option String
  usage : Usage

/-- Tokens charged to one model, as the agents hand them to their callers. -/
structure UsageEntry where
  provider : String
  model : String
  promptTokens : Nat
  completionTokens : Nat
  deriving DecidableEq, Repr

/-- The part of an execution's artifacts that its verdict is based on. -/
structure Evidence where
  logs : String
  network : String
  errorMessage : Option String
  deriving DecidableEq, Repr

/-- What an execution hands to its caller. -/
structure Artifacts extends Evidence where
  screenshotPath : String
  usages : List UsageEntry
  deriving DecidableEq, Repr

/-- The argument of `generate`. `validate` throws by returning an error. -/
structure GenerateInput where
  messages : List Message
  tools : Option (List ToolDefinition) := none
  responseSchema : Option Json := none
  forceFallback : Bool := false
  validate : Option (Response → Except String Unit) := none

/-- `s || undefined`. -/
def orUndefined (s : String) : Option String := if s = "" then none else some s

/-- The tool calls of a response or message, none when the field is absent. -/
def callsOf (toolCalls : Option (List ToolCall)) : List ToolCall := toolCalls.getD []

end AutoQa.LlmAgents

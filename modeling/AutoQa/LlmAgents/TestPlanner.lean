import AutoQa.LlmAgents.Providers

/-!
# The agent loop

`executeTestAutonomous` (`test-planner.ts`): the loop that alternates provider
turns and browser tool calls until a screenshot is taken, the turn limit or
the time limit is reached, or a provider throws.
-/

namespace AutoQa.LlmAgents

open AutoQa.Base AutoQa.Base.Text

def maxTurns : Nat := 10

def timeoutMs : Nat := 60000

def maxNoProgress : Nat := 2

def screenshotTool : String := "playwright_screenshot"

def systemPrompt (instruction url : String) : String :=
  "You are an autonomous UI testing agent. Your task is to verify a feature by interacting with the browser.\nInstruction: "
    ++ instruction ++ "\nTarget URL: " ++ url
    ++ "\n\nStart by using 'playwright_navigate' to the target URL.\nThen inspect the DOM, click, fill, or evaluate to accomplish the task.\nYou have a maximum of 10 actions.\nOnce you have verified the instruction or are absolutely stuck, call 'playwright_screenshot' as your FINAL step to take a screenshot and end the execution."

/-! ## Usage, grouped by provider and model -/

/-- The key `provider-model`; an absent part prints as `undefined`. -/
def usageKey (u : Usage) : String :=
  u.provider.getD "undefined" ++ "-" ++ u.model.getD "undefined"

def UsageEntry.add (e : UsageEntry) (u : Usage) : UsageEntry :=
  { e with
    promptTokens := e.promptTokens + u.promptTokens
    completionTokens := e.completionTokens + u.completionTokens }

/-- `u.provider || 'unknown'` and `u.model || 'unknown'`, with no tokens yet. -/
def newEntry (u : Usage) : UsageEntry :=
  ⟨(orElse u.provider (some "unknown")).getD "", (orElse u.model (some "unknown")).getD "", 0, 0⟩

/-- `usageByProvider` as the list of its entries in insertion order: the entry
under the response's key grows, or a new one is appended. -/
def addUsage (u : Usage) : List (String × UsageEntry) → List (String × UsageEntry)
  | [] => [(usageKey u, (newEntry u).add u)]
  | (k, e) :: rest =>
      if k = usageKey u then (k, e.add u) :: rest else (k, e) :: addUsage u rest

/-! ## One turn -/

structure LoopState where
  currentTurn : Nat
  isDone : Bool
  noProgressTurns : Nat
  usageByProvider : List (String × UsageEntry)
  messages : List Message

/-- The message list before the first turn. -/
def firstMessages (instruction url : String) : List Message :=
  [{ role := .system, content := systemPrompt instruction url },
    { role := .user, content := "Begin task. Go to " ++ url }]

def initialState (instruction url : String) : LoopState :=
  { currentTurn := 0, isDone := false, noProgressTurns := 0, usageByProvider := []
    messages := firstMessages instruction url }

/-- `!!config.escalateToCloud`; a missing or unreadable file leaves it false. -/
def escalateToCloud (file : Option String) : Bool :=
  match file.bind Json.parse with
  | some config => ((config.member "escalateToCloud").map Json.truthy).getD false
  | none => false

/-- The provider call of a turn, with its retry when there is no provider to
escalate to. Returns the response and the final value of `escalate`. -/
def sendTurn (w : World) (provider : LLMProvider) (tools : List ToolDefinition) (turn : Nat)
    (messages : List Message) (escalate : Bool) : Prog Trace (Response × Bool) :=
  Prog.tryCatch
    (do
      emit (.generate turn messages escalate)
      let response ← provider.generate w
        { messages, tools := some tools, forceFallback := escalate }
      pure (response, escalate))
    (fun err =>
      if includes err "forceFallback requested but no fallback providers" then do
        emit (.generate turn messages false)
        let response ← provider.generate w { messages, tools := some tools }
        pure (response, false)
      else Prog.throw err)

def assistantMessage (response : Response) : Message :=
  { role := .assistant, content := response.text.getD "", toolCalls := response.toolCalls }

def toolMessage (call : ToolCall) (text : String) : Message :=
  { role := .tool, content := text, name := some call.name, toolCallId := some call.id }

/-- What the agent pushes when the model called no tool. -/
def nudgeMessage : Message :=
  { role := .user
    content := "Please call a tool to make progress, or call playwright_screenshot if you have completed the instruction." }

def callTool (w : World) (name : String) (args : Json) (event : Except String ToolResult → Event) :
    Prog Trace ToolResult :=
  interact (fun t => w.mcpCallTool t name args) event

/-- `result.content[0].text`. -/
def firstText (result : ToolResult) : Except String String :=
  match result.content with
  | text :: _ => .ok text
  | [] => .error "Cannot read properties of undefined (reading 'text')"

/-- `toolResultText` of one call: a throw becomes the text of the result. -/
def toolResultText (w : World) (call : ToolCall) : Prog Trace String :=
  Prog.tryCatch
    (do
      let result ← callTool w call.name call.args (.mcpCall call.name call.args)
      Prog.ofExcept (firstText result))
    (fun err => pure ("Error executing tool: " ++ err))

/-- `for (const functionCall of response.toolCalls)`. -/
def runToolCalls (w : World) : List ToolCall → LoopState → Prog Trace LoopState
  | [], s => pure s
  | call :: calls, s => do
      let text ← toolResultText w call
      runToolCalls w calls
        { s with
          isDone := s.isDone || call.name == screenshotTool
          messages := s.messages ++ [toolMessage call text] }

/-- The branch of a turn without tool calls: end with a forced screenshot if
the turn was escalated, else ask the model to go on. -/
def noProgress (w : World) (escalate : Bool) (s : LoopState) : Prog Trace LoopState :=
  let s := { s with noProgressTurns := s.noProgressTurns + 1 }
  if s.noProgressTurns ≥ maxNoProgress && escalate then do
    let _ ← callTool w screenshotTool (.obj []) .mcpScreenshot
    pure { s with isDone := true }
  else pure { s with messages := s.messages ++ [nudgeMessage] }

/-- The state after the response is counted and pushed as a message. -/
def LoopState.absorb (s : LoopState) (response : Response) : LoopState :=
  { s with
    usageByProvider := addUsage response.usage s.usageByProvider
    messages := s.messages ++ [assistantMessage response] }

/-- What follows the provider call of a turn: the tool calls, if there are any. -/
def answerTurn (w : World) (response : Response) (escalate : Bool) (s : LoopState) :
    Prog Trace LoopState :=
  match callsOf response.toolCalls with
  | [] => noProgress w escalate s
  | calls => runToolCalls w calls { s with noProgressTurns := 0 }

/-- The body of the loop after the two limit checks. -/
def turn (w : World) (provider : LLMProvider) (tools : List ToolDefinition) (s : LoopState) :
    Prog Trace LoopState := do
  let s := { s with currentTurn := s.currentTurn + 1 }
  let file ← readConfig w
  let (response, escalate) ← sendTurn w provider tools s.currentTurn s.messages
    (escalateToCloud file && s.noProgressTurns ≥ maxNoProgress)
  answerTurn w response escalate (s.absorb response)

/-! ## The loop -/

/-- `while (!isDone)`, with the two limit checks. `left` counts the turns up to
`maxTurns`, so `currentTurn >= MAX_TURNS` is `left = 0`. -/
def mainLoop (w : World) (provider : LLMProvider) (tools : List ToolDefinition)
    (startTime : Nat) : Nat → LoopState → Prog Trace LoopState
  | 0, s =>
      if s.isDone then pure s
      else Prog.throw "Max turns (10) reached without taking a screenshot."
  | left + 1, s =>
      if s.isDone then pure s
      else do
        let now ← dateNow w
        if now - startTime > timeoutMs then
          Prog.throw "Wall-clock timeout of 60000ms exceeded."
        else do
          let s ← turn w provider tools s
          mainLoop w provider tools startTime left s

def artifactPath (w : World) (testRunId : String) : String :=
  w.cwd ++ "/artifacts/" ++ testRunId ++ "/final.png"

/-- What a finished loop returns: no logs, no network record, no error message. -/
def loopArtifacts (w : World) (testRunId : String) (s : LoopState) : Artifacts :=
  { screenshotPath := artifactPath w testRunId
    logs := ""
    network := ""
    errorMessage := none
    usages := s.usageByProvider.map Prod.snd }

def executeTestAutonomous (w : World) (testRunId instruction url : String)
    (provider? : Option LLMProvider) : Prog Trace Artifacts := do
  let provider ← match provider? with
    | some provider => pure provider
    | none => getRoleProvider w .testPlanner
  interact w.mcpConnect fun _ => .mcpConnect
  let tools ← interact w.mcpListTools fun _ => .mcpListTools
  let startTime ← dateNow w
  let s ← Prog.tryFinally
    (mainLoop w provider tools startTime maxTurns (initialState instruction url))
    (interact w.mcpClose fun _ => .mcpClose)
  pure (loopArtifacts w testRunId s)

end AutoQa.LlmAgents

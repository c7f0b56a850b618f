import AutoQa.Base.Prog
import AutoQa.LlmAgents.Adapters

/-!
# The agents' surroundings

Everything outside the sources that an agent run depends on is a field of
`World`: the vendors' services, the browser's tool server, the clock, the
configuration file, the process environment. Each answer is a function of the
time it is asked for, which is the number of interactions before it, so a
`World` is one arbitrary behaviour of all of them. The `Trace` of a run is the
list of its interactions in order, with notes of the calls that the program
makes to itself between them.
-/

namespace AutoQa.LlmAgents

open AutoQa.Base

inductive Vendor where
  | claude
  | openai
  | «local»
  | gemini
  deriving DecidableEq, Repr

/-- `this.name` of the provider classes. -/
def Vendor.name : Vendor → String
  | .claude => "claude"
  | .openai => "openai"
  | .local => "local"
  | .gemini => "gemini"

/-- An instance of one of the four provider classes, after its constructor. -/
structure SingleProvider where
  vendor : Vendor
  model : String
  apiKey : Option String
  baseURL : Option String
  deriving DecidableEq, Repr

/-- The result of `mcpClient.callTool`: the texts of its content blocks. -/
structure ToolResult where
  isError : Bool
  content : List String
  deriving DecidableEq, Repr

/-- The calls that `executeTest` makes on the file system and on its browser. -/
inductive BrowserOp where
  | mkdir
  | launch
  | newContext
  | newPage
  | goto (url : String)
  | click (target : String)
  | fill (target value : String)
  | waitForTimeout (ms : Nat)
  | screenshot (path : String)
  | close
  | writeFile (path text : String)
  deriving DecidableEq, Repr

/-- One interaction of an agent with its surroundings, or a note of its own. -/
inductive Event where
  | clockRead
  | configRead
  /-- A note: the agent loop passes `messages` to `provider.generate` on `turn`. -/
  | generate (turn : Nat) (messages : List Message) (forceFallback : Bool)
  /-- A provider class sends a request to its vendor. -/
  | sent (provider : SingleProvider) (messages : List Message)
  /-- The vendor's response arrives; `usage` is what it reports. -/
  | received (usage : Usage)
  | mcpConnect
  | mcpListTools
  | mcpCall (name : String) (args : Json) (reply : Except String ToolResult)
  /-- The screenshot with which the agent loop ends an escalated run; its result
  is not read. -/
  | mcpScreenshot (reply : Except String ToolResult)
  | mcpClose
  /-- A note: the result analyzer is called with the evidence of a run. -/
  | analyze (evidence : Evidence)
  | browser (op : BrowserOp) (reply : Except String Unit)

abbrev Trace := List Event

/-- A note takes no time. -/
@[simp] def Event.ticks : Event → Nat
  | .generate _ _ _ => 0
  | .analyze _ => 0
  | _ => 1

/-- The time after a trace. -/
def elapsed (tr : Trace) : Nat := tr.foldr (fun e n => e.ticks + n) 0

@[simp] theorem elapsed_nil : elapsed [] = 0 := rfl

@[simp] theorem elapsed_cons (e : Event) (tr : Trace) :
    elapsed (e :: tr) = e.ticks + elapsed tr := rfl

@[simp] theorem elapsed_append (tr es : Trace) : elapsed (tr ++ es) = elapsed tr + elapsed es := by
  induction tr with
  | nil => rw [List.nil_append, elapsed_nil, Nat.zero_add]
  | cons e tr ih => rw [List.cons_append, elapsed_cons, ih, elapsed_cons, Nat.add_assoc]

structure World where
  env : String → Option String
  cwd : String
  /-- The text of `d-bug.config.json`, `none` when there is no such file. -/
  configFile : Nat → Option String
  now : Nat → Nat
  anthropic : Nat → ClaudePayload → Except String ClaudeAnswer
  openai : Nat → Option String → OpenAIPayload → Except String OpenAIAnswer
  gemini : Nat → GeminiPayload → Except String GeminiAnswer
  /-- `Math.random().toString(36).substring(7)`, the `i`-th draw. -/
  randomId : Nat → Nat → String
  mcpConnect : Nat → Except String Unit
  mcpListTools : Nat → Except String (List ToolDefinition)
  mcpCallTool : Nat → String → Json → Except String ToolResult
  mcpClose : Nat → Except String Unit
  browser : Nat → BrowserOp → Except String Unit
  /-- The console and network lines that the page's listeners have gathered. -/
  pageLogs : Nat → String
  pageNetwork : Nat → String
  toLowerCase : String → String
  /-- The JSON schema that `zod-to-json-schema` derives from the named schema. -/
  zodToJsonSchema : String → Json

/-- A world without a configuration file, in which every call succeeds and
Gemini asks for the final screenshot at once. -/
def World.calm : World where
  env _ := none
  cwd := "/repo"
  configFile _ := none
  now _ := 0
  anthropic _ _ := .error "401 Unauthorized"
  openai _ _ _ := .error "401 Unauthorized"
  gemini _ _ := .ok ⟨none, some [("playwright_screenshot", .obj [])], some 1000, some 100⟩
  randomId _ _ := "k3x9"
  mcpConnect _ := .ok ()
  mcpListTools _ := .ok []
  mcpCallTool _ _ _ := .ok ⟨false, ["Screenshot saved"]⟩
  mcpClose _ := .ok ()
  browser _ _ := .ok ()
  pageLogs _ := ""
  pageNetwork _ := ""
  toLowerCase s := String.ofList (s.toList.map Char.toLower)
  zodToJsonSchema _ := .obj []

/-- Append one event to the trace. -/
def emit (e : Event) : Prog Trace Unit := Prog.modify (· ++ [e])

/-- One interaction: its answer at the current time, recorded as `event`. -/
def interact {α : Type} (answer : Nat → Except String α) (event : Except String α → Event) :
    Prog Trace α := fun tr => (answer (elapsed tr), tr ++ [event (answer (elapsed tr))])

/-- `Date.now()`. -/
def dateNow (w : World) : Prog Trace Nat := interact (fun t => .ok (w.now t)) fun _ => .clockRead

/-- `fs.existsSync(configPath)` and, if so, `fs.readFileSync(configPath)`. -/
def readConfig (w : World) : Prog Trace (Option String) :=
  interact (fun t => .ok (w.configFile t)) fun _ => .configRead

end AutoQa.LlmAgents

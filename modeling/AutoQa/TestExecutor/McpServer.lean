import AutoQa.Base.Keyed
import AutoQa.Base.Proc
import AutoQa.Base.System
import AutoQa.LlmAgents.World

/-!
# The tool server

`mcp-server.ts`: the handler of tool requests, which starts the browser at its first
call, and the listener that keeps an inventory of the page's network responses. Requests
wait at their `await`s, and responses arrive in between.
-/

namespace AutoQa.TestExecutor

open AutoQa.Base AutoQa.LlmAgents

/-! ## The listener -/

inductive ResourceType where
  | fetch
  | xhr
  | other (name : String)
  deriving DecidableEq, Repr

/-- A `response` event, with what the listener reads of it and of its request. -/
structure NetworkResponse where
  resourceType : ResourceType
  url : String
  method : String
  status : Nat
  deriving DecidableEq, Repr

/-- An entry of `networkInventory`. -/
structure Endpoint where
  url : String
  method : String
  status : Nat
  deriving DecidableEq, Repr

def NetworkResponse.isApi (r : NetworkResponse) : Bool :=
  r.resourceType == .fetch || r.resourceType == .xhr

def NetworkResponse.endpoint (r : NetworkResponse) : Endpoint := ⟨r.url, r.method, r.status⟩

/-- `n.url === url && n.method === method`. -/
def sameEndpoint (r : NetworkResponse) (n : Endpoint) : Bool :=
  n.url == r.url && n.method == r.method

/-- `page.on('response', ...)`. -/
def onResponse (networkInventory : List Endpoint) (r : NetworkResponse) : List Endpoint :=
  if r.isApi then enter sameEndpoint NetworkResponse.endpoint networkInventory r
  else networkInventory

def endpointJson (n : Endpoint) : Json :=
  .obj [("url", .str n.url), ("method", .str n.method), ("status", .num ⟨false, n.status, [], 0⟩)]

def inventoryJson (networkInventory : List Endpoint) : Json := .arr (networkInventory.map endpointJson)

/-! ## The handler -/

inductive ServerTool where
  | navigate (url : String)
  | click (selector : String)
  | fill (selector text : String)
  | evaluate (expression : String)
  | a11ySnapshot
  | apiFetch (url : String) (method body : Option String)
  | checkAnimation (selector : String) (durationMs : Option Nat)
  | getNetworkActivity
  | screenshot
  | unknown (name : String)
  deriving DecidableEq, Repr

inductive ServerOp : Type → Type where
  /-- `browser && page`. -/
  | isUp : ServerOp Bool
  | launch : ServerOp Unit
  | newContext : ServerOp Unit
  /-- `context.newPage()`, and the listener. -/
  | newPage : ServerOp Unit
  /-- What the tool does with the page; the reply is the text of the value it evaluates to,
  if it evaluates something. -/
  | onPage (tool : ServerTool) : ServerOp String
  /-- `JSON.stringify(networkInventory, null, 2)`. -/
  | readInventory : ServerOp String

abbrev ServerProc := Proc ServerOp

/-- The text of a result. -/
def resultText (screenshotPath : String) (tool : ServerTool) (value : String) : String :=
  match tool with
  | .navigate url => "Navigated to " ++ url
  | .click selector => "Clicked " ++ selector
  | .fill selector _ => "Filled " ++ selector ++ " with text"
  | .screenshot => "Screenshot saved to " ++ screenshotPath
  | _ => value

/-- The `try` block. -/
def runTool (screenshotPath : String) (tool : ServerTool) : ServerProc ToolResult :=
  match tool with
  | .getNetworkActivity => do
      let text ← Proc.call .readInventory
      pure ⟨false, [text]⟩
  | .unknown name => Proc.throw ("Unknown tool: " ++ name)
  | tool => do
      let value ← Proc.call (.onPage tool)
      pure ⟨false, [resultText screenshotPath tool value]⟩

/-- Start the browser if there is none. -/
def ensurePage : ServerProc Unit := do
  let up ← Proc.call .isUp
  if up then pure ()
  else do
    Proc.call .launch
    Proc.call .newContext
    Proc.call .newPage

/-- The handler of `CallToolRequestSchema`. -/
def handleRequest (screenshotPath : String) (tool : ServerTool) : ServerProc ToolResult := do
  ensurePage
  (runTool screenshotPath tool).tryCatch fun message => pure ⟨true, [message]⟩

/-! ## The system -/

/-- What the browser answers, by the number of operations before. -/
structure Chromium where
  launch : Nat → Except String Unit
  newContext : Nat → Except String Unit
  newPage : Nat → Except String Unit
  onPage : Nat → ServerTool → Except String String

/-- The variables of the server. -/
structure Server where
  browser : Bool
  page : Bool
  networkInventory : List Endpoint
  /-- The responses that reached the listener so far. -/
  heard : List NetworkResponse
  /-- The number of operations so far. -/
  time : Nat

namespace Server

def start : Server := ⟨false, false, [], [], 0⟩

def tick (s : Server) : Server := { s with time := s.time + 1 }

/-- A response arrives; without a page there is none to arrive. -/
def hear (s : Server) (r : NetworkResponse) : Server :=
  if s.page then
    { s with networkInventory := onResponse s.networkInventory r, heard := s.heard ++ [r] }
  else s

end Server

/-- An operation that may throw, and what it changes if it does not. -/
def attemptOn (reply : Except String Unit) (f : Server → Server) : Prog Server Unit := fun s =>
  match reply with
  | .ok () => (.ok (), (f s).tick)
  | .error e => (.error e, s.tick)

def answerOp (c : Chromium) {ρ : Type} : ServerOp ρ → Prog Server ρ
  | .isUp => fun s => (.ok (s.browser && s.page), s.tick)
  | .launch => fun s => attemptOn (c.launch s.time) (fun s => { s with browser := true }) s
  | .newContext => fun s => attemptOn (c.newContext s.time) id s
  | .newPage => fun s => attemptOn (c.newPage s.time) (fun s => { s with page := true }) s
  | .onPage tool => fun s => (c.onPage s.time tool, s.tick)
  | .readInventory => fun s => (.ok ((inventoryJson s.networkInventory).stringify 2), s.tick)

/-- The server and the requests that wait at an `await`. -/
structure McpServer where
  server : Server
  requests : List (ServerProc ToolResult)

def McpServer.start : McpServer := ⟨.start, []⟩

inductive ServerStep where
  | response (r : NetworkResponse)
  | request (tool : ServerTool)
  /-- The `i`-th request gets its reply and runs on to its next `await`. -/
  | resume (i : Nat)
  deriving DecidableEq, Repr

def serverStep (c : Chromium) (screenshotPath : String) (s : McpServer) :
    ServerStep → Option McpServer
  | .response r => some { s with server := s.server.hear r }
  | .request tool => some { s with requests := s.requests ++ [handleRequest screenshotPath tool] }
  | .resume i =>
      match s.requests[i]? with
      | some (.step o k) =>
          let (r, server) := answerOp c o s.server
          some { server, requests := s.requests.set i (k r) }
      | _ => none

end AutoQa.TestExecutor

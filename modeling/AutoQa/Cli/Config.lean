import AutoQa.Base.Pool
import AutoQa.Cli.Init
import AutoQa.LlmAgents.Canary

/-!
# The configuration and the gate

`loadConfig` (`configLoader.ts`), `requireConfig` and `verifyCanary`
(`autoqa.ts`), which most commands wait for, and the wizard of `start-all.ts`,
which rewrites the configuration before it spawns three of these commands. They
are separate processes over the files of one machine.
-/

namespace AutoQa.Cli

open AutoQa.Base AutoQa.Base.Text AutoQa.LlmAgents

/-! ## Commands -/

/-- The commands that call `requireConfig`, with their `--url`. -/
inductive ConfiguredCommand where
  | test (url : Option String)
  | smoke (url : Option String)
  | audit (url : Option String)
  | watch (url : Option String)
  | worker
  | dashboardServer
  deriving DecidableEq, Repr

/-- `await requireConfig()`; `smoke` does not wait. -/
def ConfiguredCommand.awaits : ConfiguredCommand → Bool
  | .smoke _ => false
  | _ => true

/-- `options.url || globalConfig.targetUrl`, in the commands that use it. -/
def ConfiguredCommand.url (globalConfig : Json) : ConfiguredCommand → Option Json
  | .test url | .smoke url | .audit url | .watch url =>
      match url.bind orUndefined with
      | some u => some (.str u)
      | none => globalConfig.member "targetUrl"
  | .worker | .dashboardServer => none

/-- A command whose action goes on behind `requireConfig`, and what it goes on with. -/
structure Begun where
  command : ConfiguredCommand
  globalConfig : Json
  databaseUrl : Option String
  url : Option Json

/-- The line that is printed for a checked provider. -/
structure Report where
  role : AgentRole
  name : String
  result : CanaryResult
  deriving DecidableEq, Repr

/-- What `fetch` throws, as far as it is looked at. -/
structure FetchError where
  code : Option String
  causeCode : Option String
  deriving DecidableEq, Repr

inductive MachineOp : Type → Type where
  /-- `existsSync` and `readFileSync` of `d-bug.config.json`. -/
  | readConfig : MachineOp (Option String)
  | writeConfig (text : String) : MachineOp Unit
  | fetch (url : Option Json) : MachineOp (Option FetchError)
  | checkRedis : MachineOp Unit
  /-- `existsSync` and `readFileSync` of `canary_hash`. -/
  | readHash : MachineOp (Option String)
  | writeHash (hash : String) : MachineOp Unit
  | getRoleProvider (env : String → Option String) (role : AgentRole) : MachineOp LLMProvider
  | report (report : Report) : MachineOp Unit
  | begin (begun : Begun) : MachineOp Unit
  | spawn (children : List ConfiguredCommand) : MachineOp Unit

inductive ConfigOp (ρ : Type) : Type where
  | machine (op : MachineOp ρ)
  | canary (op : CanaryOp ρ)

abbrev ConfigProc := Proc ConfigOp

/-- `await` of an operation on the machine. -/
def machine {ρ : Type} (op : MachineOp ρ) : ConfigProc ρ := Proc.call (.machine op)

/-! ## The gate -/

/-- What does not change while the commands run. -/
structure Machine where
  env : String → Option String
  homedir : String
  md5 : String → String

structure Loaded where
  globalConfig : Option Json
  databaseUrl : Option String

/-- `process.env` after `loadConfig`. -/
def Machine.envOf (m : Machine) (databaseUrl : Option String) (name : String) : Option String :=
  if name = "DATABASE_URL" then databaseUrl else m.env name

/-- `process.env.DATABASE_URL` under a configuration. -/
def Machine.databaseUrl (m : Machine) (config : Json) : Option String :=
  match config.member "databaseUrl" with
  | some v => if v.truthy then some v.toText else m.env "DATABASE_URL"
  | none => m.env "DATABASE_URL"

/-- The `try` block of `loadConfig`. -/
def Machine.loaded (m : Machine) (text : String) : Loaded :=
  match Json.parse text with
  | none | some .null => ⟨none, m.env "DATABASE_URL"⟩
  | some config => ⟨some config, m.databaseUrl config⟩

def loadConfig (m : Machine) : ConfigProc Loaded := do
  match ← (machine .readConfig).attempt with
  | .ok (some text) => pure (m.loaded text)
  | .ok none => pure ⟨none, some ("file:" ++ m.homedir ++ "/.autoqa/dev.db")⟩
  | .error _ => pure ⟨none, m.env "DATABASE_URL"⟩

def canaryRoles : List AgentRole := [.diffAnalyzer, .testPlanner, .resultAnalyzer]

/-- `config.llm[role]` is truthy. -/
def configured (llm : Json) (role : AgentRole) : Bool := (llm.member role.key).any Json.truthy

def verifyRoles (env : String → Option String) (llm : Json) : List AgentRole → ConfigProc Unit
  | [] => pure ()
  | role :: roles => do
      if configured llm role then do
        let provider ← machine (.getRoleProvider env role)
        let result ← (runCanaryCheck provider).lift ConfigOp.canary
        machine (.report ⟨role, provider.name, result⟩)
        verifyRoles env llm roles
      else verifyRoles env llm roles

/-- `config.llm`, when it is truthy. -/
def llmOf (config : Json) : Option Json := (config.member "llm").filter Json.truthy

/-- The hash that the configuration's `llm` is known by. -/
def Machine.currentHash (m : Machine) (llm : Json) : String := m.md5 (llm.stringify 0)

def verifyCanary (m : Machine) (env : String → Option String) (config : Json) : ConfigProc Unit :=
  match llmOf config with
  | none => pure ()
  | some llm => do
      let lastHash ← machine .readHash
      if lastHash.getD "" = m.currentHash llm then pure ()
      else do
        verifyRoles env llm canaryRoles
        machine (.writeHash (m.currentHash llm))

def FetchError.refused (e : FetchError) : Bool :=
  e.causeCode == some "ECONNREFUSED" || e.code == some "ECONNREFUSED"

/-- `console.error(message); process.exit(1)`. -/
def exit {α : Type} (message : String) : ConfigProc α := Proc.throw message

def unreachable (targetUrl : Option Json) : String :=
  "Error: Target URL " ++ (targetUrl.map Json.toText).getD "undefined"
    ++ " is unreachable. Is your dev server running?"

def noRedis : String :=
  "Error: Redis is not running on 127.0.0.1:6379. "
    ++ "AutoQA requires Redis for its background worker queue."

/-- The checks of `requireConfig` behind that of the configuration. -/
def checkMachine (m : Machine) (c : Loaded) (config : Json) : ConfigProc Unit := do
  let failure ← machine (.fetch (config.member "targetUrl"))
  if failure.any FetchError.refused then exit (unreachable (config.member "targetUrl"))
  else do
    Proc.tryCatch (machine .checkRedis) fun _ => exit noRedis
    verifyCanary m (m.envOf c.databaseUrl) config

/-- `if (!globalConfig)`, with which `requireConfig` begins. -/
def presentConfig (c : Loaded) : ConfigProc Json :=
  match c.globalConfig.filter Json.truthy with
  | none => exit "Error: d-bug.config.json is missing. Please run `d-bug init` first."
  | some config => pure config

/-- A command up to its action. Of a `requireConfig` that is not awaited the first
check still comes first, and the rest comes beside the action. -/
def ConfiguredCommand.proc (m : Machine) (command : ConfiguredCommand) : ConfigProc Unit := do
  let c ← loadConfig m
  let config ← presentConfig c
  let begun : Begun := ⟨command, config, c.databaseUrl, command.url config⟩
  if command.awaits then do
    checkMachine m c config
    machine (.begin begun)
  else do
    machine (.begin begun)
    checkMachine m c config

/-! ## `init` -/

/-- The object that `init` makes of its answers, once it has a target URL. -/
def initDocument (answers : InitAnswers) (targetUrl : String) : Json :=
  .obj [("targetUrl", .str targetUrl),
    ("ignoredPaths", .arr ((split answers.ignoredPaths ',').map fun s => .str (trim s))),
    ("databaseUrl", .str ("file:" ++ answers.homedir ++ "/.autoqa/dev.db")),
    ("llm", llmConfig answers)]

/-- The end of `init`: the file is written and the object that was written is verified.
What the schema push between them throws is caught. -/
def initProc (m : Machine) (answers : InitAnswers) : ConfigProc Unit :=
  match answers.targetUrl.bind orUndefined with
  | none => pure ()
  | some targetUrl => do
      let config := initDocument answers targetUrl
      machine (.writeConfig (config.stringify 2))
      verifyCanary m (m.envOf (m.databaseUrl config)) config

/-! ## The wizard of `start-all.ts` -/

/-- The answers; a cancelled prompt leaves `none`. -/
structure WizardAnswers where
  repoPath : Option String
  localUrl : Option String
  deriving DecidableEq, Repr

def replaceMember (key : String) (value : Json) (m : String × Json) : String × Json :=
  if m.1 = key then (key, value) else m

/-- A property that an object has keeps its place. -/
def setMember (key : String) (value : Json) (members : List (String × Json)) :
    List (String × Json) :=
  if members.any fun m => m.1 == key then members.map (replaceMember key value)
  else members ++ [(key, value)]

/-- What is thrown when a property is set on a primitive value. -/
def onPrimitive (key type : String) (v : Json) : String :=
  "Cannot create property '" ++ key ++ "' on " ++ type ++ " '" ++ v.toText ++ "'"

/-- `config[key] = value`, as `JSON.stringify` sees it: what is set on an array it
leaves out. -/
def setField (config : Json) (key : String) (value : Json) : Except String Json :=
  match config with
  | .obj members => .ok (.obj (setMember key value members))
  | .arr items => .ok (.arr items)
  | .null => .error ("Cannot set properties of null (setting '" ++ key ++ "')")
  | .bool b => .error (onPrimitive key "boolean" (.bool b))
  | .num n => .error (onPrimitive key "number" (.num n))
  | .str s => .error (onPrimitive key "string" (.str s))

/-- The new text of the configuration. -/
def retarget (text localUrl : String) : Except String String :=
  match Json.parse text with
  | none => .error "Unexpected token in JSON"
  | some config => (setField config "targetUrl" (.str localUrl)).map fun config =>
      config.stringify 2

/-- What the wizard spawns, besides the dashboard's page. -/
def children (localUrl : String) : List ConfiguredCommand :=
  [.dashboardServer, .worker, .watch (some localUrl)]

/-- The configuration step of the wizard. -/
def rewriteConfig (localUrl : String) : ConfigProc Unit := do
  match ← machine .readConfig with
  | none => pure ()
  | some text =>
      let text ← Proc.done (retarget text localUrl)
      machine (.writeConfig text)

def startAll (answers : WizardAnswers) : ConfigProc Unit :=
  match answers.repoPath.bind orUndefined, answers.localUrl.bind orUndefined with
  | some _, some localUrl => do
      rewriteConfig localUrl
      machine (.spawn (children localUrl))
  | _, _ => pure ()

/-! ## The machine -/

structure MachineState where
  /-- The text of `d-bug.config.json`, when there is one. -/
  configFile : Option String
  canaryHash : Option String
  /-- What the canary checks exchange with the vendors. -/
  trace : Trace
  reports : List Report
  begun : List Begun
  /-- The commands that wizards have spawned and that have not started yet. -/
  spawned : List ConfiguredCommand
  steps : Nat

/-- The surroundings of one step. -/
structure ConfigEnv where
  agents : World
  fetchError : Option FetchError
  refused : Option String

def performMachine (e : ConfigEnv) {ρ : Type} : MachineOp ρ → Prog MachineState ρ
  | .readConfig => fun s => (.ok s.configFile, s)
  | .writeConfig text => Prog.modify fun s => { s with configFile := some text }
  | .fetch _ => pure e.fetchError
  | .checkRedis => pure ()
  | .readHash => fun s => (.ok s.canaryHash, s)
  | .writeHash hash => Prog.modify fun s => { s with canaryHash := some hash }
  | .getRoleProvider env role => fun s => (.ok (roleProvider env role s.configFile), s)
  | .report report => Prog.modify fun s => { s with reports := s.reports ++ [report] }
  | .begin begun => Prog.modify fun s => { s with begun := s.begun ++ [begun] }
  | .spawn children => Prog.modify fun s => { s with spawned := s.spawned ++ children }

def performConfig (e : ConfigEnv) {ρ : Type} : ConfigOp ρ → Prog MachineState ρ
  | .machine op => performMachine e op
  | .canary op => Prog.zoom MachineState.trace (fun trace s => { s with trace })
      (answerCanary e.agents op)

/-- What can fail: the files and the connection to Redis. What a vendor answers is a
matter of `agents`, and `getRoleProvider` catches all it throws. -/
def MachineOp.fallible {ρ : Type} : MachineOp ρ → Bool
  | .readConfig | .writeConfig _ | .checkRedis | .readHash | .writeHash _ => true
  | _ => false

def ConfigOp.fallible {ρ : Type} : ConfigOp ρ → Bool
  | .machine op => op.fallible
  | .canary _ => false

def ConfigEnv.refusal (e : ConfigEnv) {ρ : Type} (op : ConfigOp ρ) : Option String :=
  if op.fallible then e.refused else none

def answerConfig (env : Nat → ConfigEnv) {ρ : Type} (op : ConfigOp ρ) : Prog MachineState ρ :=
  fun s =>
    match (env s.steps).refusal op with
    | some e => (.error e, { s with steps := s.steps + 1 })
    | none => performConfig (env s.steps) op { s with steps := s.steps + 1 }

inductive ConfigEvent where
  | command (command : ConfiguredCommand)
  | startAll (answers : WizardAnswers)
  /-- The first of the spawned commands starts. -/
  | child
  /-- A process gets the reply it waits for. -/
  | resume (i : Nat)
  deriving DecidableEq, Repr

abbrev ConfigSystem := Pool ConfigOp MachineState Unit

def ConfigSystem.step (m : Machine) (env : Nat → ConfigEnv) (s : ConfigSystem) :
    ConfigEvent → Option ConfigSystem
  | .command command => some { s with procs := s.procs ++ [command.proc m] }
  | .startAll answers => some { s with procs := s.procs ++ [startAll answers] }
  | .child => match s.shared.spawned with
    | [] => none
    | command :: rest => some
        ⟨{ s.shared with spawned := rest }, s.procs ++ [command.proc m]⟩
  | .resume i => Pool.step (answerConfig env) s i

/-- Nothing runs yet on a machine with these files. -/
def ConfigSystem.over (configFile canaryHash : Option String) : ConfigSystem where
  shared := ⟨configFile, canaryHash, [], [], [], [], 0⟩
  procs := []

end AutoQa.Cli

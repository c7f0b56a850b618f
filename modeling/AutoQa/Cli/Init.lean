import AutoQa.LlmAgents.Providers

/-!
# The `init` wizard

`init` (`autoqa.ts`) asks for the provider of each role, or once for all of
them, and writes `d-bug.config.json`. What it writes is read back by
`getRoleProvider`, so the roles the wizard leaves out are served by the
factory's default vendor.
-/

namespace AutoQa.Cli

open AutoQa.Base AutoQa.Base.Text AutoQa.LlmAgents

/-! ## The answers and the file -/

/-- The answers to one `askProviderConfig`; a cancelled prompt leaves `none`. -/
structure ProviderAnswers where
  provider : Option Vendor
  model : Option String
  baseUrl : Option String
  apiKeyEnv : Option String

/-- The answers of a whole run; `ask` holds those under each prompt's role text. -/
structure InitAnswers where
  targetUrl : Option String
  ignoredPaths : String
  sameConfig : Bool
  ask : String → ProviderAnswers
  homedir : String

/-- An object literal as `JSON.stringify` sees it: `undefined` fields drop out. -/
def objectOf (fields : List (String × Option Json)) : Json :=
  .obj (fields.filterMap fun (key, value) => value.map fun v => (key, v))

/-- The object that `askProviderConfig` returns: a local provider is asked for
its URL, the others for the variable that holds their key. -/
def askProviderConfig (a : ProviderAnswers) : Json :=
  let isLocal := a.provider == some .local
  objectOf
    [("provider", a.provider.map fun v => .str v.name),
      ("model", a.model.map .str),
      ("apiKey", if isLocal then none
        else (a.apiKeyEnv.bind orUndefined).map fun name => .str ("env:" ++ name)),
      ("baseUrl", if isLocal then a.baseUrl.map .str else none)]

def llmConfig (answers : InitAnswers) : Json :=
  if answers.sameConfig then
    let sharedConfig := askProviderConfig (answers.ask "all roles")
    .obj [("diffAnalyzer", sharedConfig), ("testPlanner", sharedConfig),
      ("resultAnalyzer", sharedConfig)]
  else
    .obj [("diffAnalyzer", askProviderConfig (answers.ask "diffAnalyzer")),
      ("testPlanner", askProviderConfig (answers.ask "testPlanner")),
      ("resultAnalyzer", askProviderConfig (answers.ask "resultAnalyzer"))]

/-- The text `init` writes to `d-bug.config.json`; without a target URL the
wizard is cancelled and writes nothing. -/
def initConfig (answers : InitAnswers) : Option String :=
  (answers.targetUrl.bind orUndefined).map fun targetUrl =>
    Json.stringify
      (.obj [("targetUrl", .str targetUrl),
        ("ignoredPaths", .arr ((split answers.ignoredPaths ',').map fun s => .str (trim s))),
        ("databaseUrl", .str ("file:" ++ answers.homedir ++ "/.autoqa/dev.db")),
        ("llm", llmConfig answers)]) 2

/-! ## Where a provider's prompts go -/

inductive Endpoint where
  | url (u : String)
  | cloud (vendor : Vendor)
  deriving DecidableEq, Repr

/-- The service a provider class sends its prompts to. The OpenAI client, which
`local` shares, uses the vendor's own URL when it is given none. -/
def SingleProvider.endpoint (p : SingleProvider) : Endpoint :=
  match p.vendor with
  | .claude => .cloud .claude
  | .gemini => .cloud .gemini
  | .openai | .local =>
      match p.baseURL.bind orUndefined with
      | some u => .url u
      | none => .cloud .openai

/-- Every member of `provider` sends its prompts to `baseUrl`. -/
def Confined (provider : LLMProvider) (baseUrl : String) : Prop :=
  ∀ p ∈ provider.members, SingleProvider.endpoint p = .url baseUrl

/-- The wizard was answered with one local configuration for all roles. -/
structure AllLocal (answers : InitAnswers) (baseUrl : String) : Prop where
  same : answers.sameConfig = true
  provider : (answers.ask "all roles").provider = some .local
  url : (answers.ask "all roles").baseUrl = some baseUrl
  nonempty : baseUrl ≠ ""

/-! ## Reading the file back -/

/-- The entry the wizard writes for a local provider. -/
theorem askProviderConfig_local {a : ProviderAnswers} {baseUrl : String}
    (hp : a.provider = some .local) (hu : a.baseUrl = some baseUrl) :
    askProviderConfig a = objectOf [("provider", some (.str "local")),
      ("model", a.model.map .str), ("apiKey", none), ("baseUrl", some (.str baseUrl))] := by
  simp [askProviderConfig, hp, hu, Vendor.name]

/-- Read back, that entry is a `local` provider at the same URL. -/
theorem createSingleProvider_local (env : String → Option String) {a : ProviderAnswers}
    {baseUrl : String} (hp : a.provider = some .local) (hu : a.baseUrl = some baseUrl) :
    ∃ model, createSingleProvider env (askProviderConfig a)
      = .ok (.newLocal env model none (some baseUrl)) := by
  rw [askProviderConfig_local hp hu]
  refine ⟨a.model, ?_⟩
  -- a model that was not answered is left out of the file and read back as absent
  cases a.model <;> rfl

/-- What the factory finds under a role's key in a written file. -/
theorem configuredProvider_init (env : String → Option String) (role : AgentRole)
    {answers : InitAnswers} {text : String} (h : initConfig answers = some text) :
    configuredProvider env role text =
      match (llmConfig answers).member role.key with
      | none => .ok none
      | some (.obj fields) => (createSingleProvider env (.obj fields)).map fun p => some (.single p)
      | some _ => .ok none := by
  obtain ⟨targetUrl, -, rfl⟩ := Option.map_eq_some_iff.mp h
  simp only [configuredProvider, Json.parse_stringify]
  -- the file is one object with known members, so that every lookup in it computes
  cases hsame : answers.sameConfig <;> cases role <;>
    simp [readField, Json.member, llmConfig, hsame, Json.truthy, AgentRole.key, Except.bind,
      askProviderConfig, objectOf]

/-- The roles that the wizard writes are served by the provider it was told. -/
theorem roleProvider_written (env : String → Option String) {role : AgentRole}
    {answers : InitAnswers} {text baseUrl : String} (h : initConfig answers = some text)
    (hlocal : AllLocal answers baseUrl) (hrole : role ≠ .featureClassifier) :
    ∃ model, roleProvider env role (some text)
      = .single (.newLocal env model none (some baseUrl)) := by
  obtain ⟨model, hcreate⟩ :=
    createSingleProvider_local env hlocal.provider hlocal.url
  refine ⟨model, ?_⟩
  have hmember : (llmConfig answers).member role.key
      = some (askProviderConfig (answers.ask "all roles")) := by
    cases role <;> simp [llmConfig, hlocal.same, Json.member, AgentRole.key] at hrole ⊢
  have hconfigured : configuredProvider env role text
      = .ok (some (.single (.newLocal env model none (some baseUrl)))) := by
    rw [configuredProvider_init env role h, hmember]
    simp only [askProviderConfig, objectOf] at hcreate ⊢
    rw [hcreate]
    rfl
  simp only [roleProvider, Option.map_some, hconfigured]

/-- The role that it does not write falls to the default vendor. -/
theorem roleProvider_featureClassifier (env : String → Option String) {answers : InitAnswers}
    {text : String} (h : initConfig answers = some text) :
    roleProvider env .featureClassifier (some text) = .single (.newGemini env none none) := by
  have hmember : (llmConfig answers).member AgentRole.featureClassifier.key = none := by
    cases hsame : answers.sameConfig <;> simp [llmConfig, hsame, Json.member, AgentRole.key]
  simp only [roleProvider, Option.map_some, configuredProvider_init env _ h, hmember]

/-- **Offline confinement.** After a wizard run that chose one local endpoint
for all roles, a role is confined to that endpoint exactly when it is not
`featureClassifier`, whose prompts go to the default cloud vendor. -/
theorem confined_iff (env : String → Option String) (role : AgentRole) {answers : InitAnswers}
    {text baseUrl : String} (h : initConfig answers = some text)
    (hlocal : AllLocal answers baseUrl) :
    Confined (roleProvider env role (some text)) baseUrl ↔ role ≠ .featureClassifier := by
  constructor
  · intro hconf heq
    subst heq
    rw [roleProvider_featureClassifier env h] at hconf
    -- the default has one member, and its endpoint is a vendor's
    have hgemini := hconf _ (List.mem_singleton.mpr rfl)
    cases hgemini
  · intro hrole p hp
    obtain ⟨model, hprovider⟩ := roleProvider_written env h hlocal hrole
    rw [hprovider] at hp
    cases List.mem_singleton.mp hp
    simp [SingleProvider.endpoint, SingleProvider.newLocal, SingleProvider.newOpenAI,
      orUndefined, hlocal.nonempty]

/-! A wizard run that accepts the defaults for Ollama. -/

def ollamaAnswers : InitAnswers where
  targetUrl := some "http://localhost:3000"
  ignoredPaths := "node_modules,dist,build,coverage"
  sameConfig := true
  ask _ := ⟨some .local, some "llama3.1", some "http://localhost:11434/v1", none⟩
  homedir := "/home/user"

theorem ollamaAnswers_allLocal : AllLocal ollamaAnswers "http://localhost:11434/v1" :=
  ⟨rfl, rfl, rfl, by decide⟩

theorem ollama_confined_planner : ∃ text, initConfig ollamaAnswers = some text ∧
    (Confined (roleProvider (fun _ => none) .testPlanner (some text)) "http://localhost:11434/v1"
      ↔ AgentRole.testPlanner ≠ .featureClassifier) :=
  ⟨_, rfl, confined_iff _ _ rfl ollamaAnswers_allLocal⟩

/-- The classifier's prompts, and with them the guardrail's, leave the machine. -/
theorem ollama_classifier_in_cloud : AllLocal ollamaAnswers "http://localhost:11434/v1" ∧
    ∃ text, initConfig ollamaAnswers = some text ∧
      ¬ Confined (roleProvider (fun _ => none) .featureClassifier (some text))
        "http://localhost:11434/v1" := by
  refine ⟨ollamaAnswers_allLocal, _, rfl, ?_⟩
  rw [roleProvider_featureClassifier (fun _ => none) (show initConfig ollamaAnswers = some _ from rfl)]
  intro hconf
  cases hconf _ (List.mem_singleton.mpr rfl)

end AutoQa.Cli

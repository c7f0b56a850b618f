import AutoQa.LlmAgents.StructuredFallback

/-!
# What a role's configuration asks for

The configuration reference names four providers. `Asks` reads an entry as the
reference does: the provider class, its model, the key that `apiKey` stands for
and, for a local server, the base URL. The factory knows one of the four under
another name.
-/

namespace AutoQa.LlmAgents

open AutoQa.Base AutoQa.Base.Text

/-- The values of `llm.<agentType>[].provider`, with what each stands for. -/
def documentedProviders : List (String × Vendor) :=
  [("openai", .openai), ("anthropic", .claude), ("gemini", .gemini), ("local", .local)]

/-- `env:VAR` stands for the variable, every other key for itself. -/
def keyOf (env : String → Option String) (apiKey : String) : Option String :=
  if startsWith apiKey "env:" then env (substring apiKey 4) else some apiKey

/-- The entry is complete, and `p` is what it asks for. -/
structure Asks (env : String → Option String) (entry : Json) (p : SingleProvider) : Prop where
  provider : ∃ name, stringField entry "provider" = some name ∧ (name, p.vendor) ∈ documentedProviders
  model : stringField entry "model" = some p.model
  model_ne : p.model ≠ ""
  apiKey : ∃ raw key, entry.member "apiKey" = some (.str raw) ∧ raw ≠ "" ∧ keyOf env raw = some key ∧
    key ≠ "" ∧ p.apiKey = some key
  baseURL : if p.vendor = .local then ∃ url, stringField entry "baseUrl" = some url ∧ url ≠ "" ∧
    p.baseURL = some url else p.baseURL = none

/-- The entry has the name of the reference that the factory does not know. -/
def NamesAnthropic (entry : Json) : Prop := stringField entry "provider" = some "anthropic"

instance (entry : Json) : Decidable (NamesAnthropic entry) := inferInstanceAs (Decidable (_ = _))

@[simp] theorem orElse_some {s : String} (h : s ≠ "") (fallback : Option String) :
    orElse (some s) fallback = some s := by
  simp [orElse, orUndefined, h]

namespace Asks

variable {env : String → Option String} {entry : Json} {p : SingleProvider}

/-- Only an object has the fields. -/
theorem isObject (h : Asks env entry p) : ∃ members, entry = .obj members := by
  have hmodel := h.model
  cases entry with
  | obj members => exact ⟨members, rfl⟩
  | _ => simp [stringField, Json.member] at hmodel

theorem resolves (h : Asks env entry p) :
    (readField entry "apiKey").bind (resolveApiKey env) = .ok p.apiKey := by
  obtain ⟨members, rfl⟩ := h.isObject
  obtain ⟨raw, key, hraw, -, hkey, -, hp⟩ := h.apiKey
  simp only [readField, hraw, Except.bind, resolveApiKey, hp]
  unfold keyOf at hkey
  split at hkey
  · next henv => rw [if_pos henv, hkey]; rfl
  · next henv => rw [if_neg henv, hkey]

/-- The factory's own `switch`, after the key is resolved. -/
def switched (env : String → Option String) (entry : Json) (p : SingleProvider) : SingleProvider :=
  match stringField entry "provider" with
  | some "claude" => .newClaude env (some p.model) p.apiKey
  | some "openai" => .newOpenAI env (some p.model) p.apiKey none
  | some "local" => .newLocal env (some p.model) p.apiKey (stringField entry "baseUrl")
  | some "gemini" => .newGemini env (some p.model) p.apiKey
  | _ => .newGemini env none none

theorem create_eq (h : Asks env entry p) :
    createSingleProvider env entry = .ok (switched env entry p) := by
  have hresolves := h.resolves
  rw [createSingleProvider]
  cases hread : readField entry "apiKey" with
  | error e =>
    rw [hread] at hresolves
    cases hresolves
  | ok rawKey =>
    rw [hread] at hresolves
    have hkey : resolveApiKey env rawKey = .ok p.apiKey := hresolves
    simp only [Except.bind, hkey, Except.map, h.model]
    rfl

/-- A provider under a name that the factory knows is the one that was asked for. -/
theorem create_known (h : Asks env entry p) (hname : ¬ NamesAnthropic entry) :
    createSingleProvider env entry = .ok p := by
  rw [h.create_eq, switched]
  obtain ⟨name, hprovider, hdocumented⟩ := h.provider
  obtain ⟨raw, key, -, -, -, hne, hkey⟩ := h.apiKey
  have hmodel := h.model_ne
  have hurl := h.baseURL
  obtain ⟨vendor, model, apiKey, baseURL⟩ := p
  simp only [documentedProviders, List.mem_cons, Prod.mk.injEq, List.not_mem_nil, or_false] at hdocumented
  simp only at hkey hmodel hurl
  subst hkey
  rcases hdocumented with ⟨rfl, rfl⟩ | ⟨rfl, rfl⟩ | ⟨rfl, rfl⟩ | ⟨rfl, rfl⟩
  · have hnone : baseURL = none := hurl
    simp [hprovider, SingleProvider.newOpenAI, hmodel, hne, hnone]
  · exact absurd hprovider hname
  · have hnone : baseURL = none := hurl
    simp [hprovider, SingleProvider.newGemini, hmodel, hne, hnone]
  · obtain ⟨url, hfield, -, hbase⟩ : ∃ url, stringField entry "baseUrl" = some url ∧ url ≠ "" ∧
        baseURL = some url := hurl
    simp [hprovider, SingleProvider.newLocal, SingleProvider.newOpenAI, hmodel, hne, hfield, hbase]

/-- The unknown name falls back to Gemini with its own model and key. -/
theorem create_anthropic (h : Asks env entry p) (hname : NamesAnthropic entry) :
    createSingleProvider env entry = .ok (.newGemini env none none) ∧ p.vendor = .claude := by
  refine ⟨by rw [h.create_eq, switched, hname]; rfl, ?_⟩
  obtain ⟨name, hprovider, hdocumented⟩ := h.provider
  have hanthropic : name = "anthropic" := Option.some.inj (hprovider.symm.trans hname)
  subst hanthropic
  simpa [documentedProviders] using hdocumented

theorem create_iff (h : Asks env entry p) :
    createSingleProvider env entry = .ok p ↔ ¬ NamesAnthropic entry := by
  refine ⟨fun hcreate hname => ?_, h.create_known⟩
  obtain ⟨hgemini, hclaude⟩ := h.create_anthropic hname
  rw [hgemini] at hcreate
  cases hcreate
  cases hclaude

end Asks

/-- A list of complete entries becomes the list of what they ask for, unless one of
them has the unknown name. -/
theorem mapM_create_iff {env : String → Option String} {entries : List Json}
    {ps : List SingleProvider} (h : List.Forall₂ (Asks env) entries ps) :
    entries.mapM (createSingleProvider env) = .ok ps ↔ ∀ e ∈ entries, ¬ NamesAnthropic e := by
  induction h with
  | nil => simp [pure, Except.pure]
  | @cons entry p entries ps hentry _ ih =>
    rw [List.forall_mem_cons, ← hentry.create_iff, ← ih, List.mapM_cons, hentry.create_eq]
    cases hmap : entries.mapM (createSingleProvider env) with
    | error e => simp [bind, Except.bind]
    | ok qs => simp [bind, Except.bind, pure, Except.pure]

/-! ## The factory -/

/-- The text of the file configures the role as `roleConfig`. -/
def Configures (text : String) (role : AgentRole) (roleConfig : Json) : Prop :=
  ∃ config llm, Json.parse text = some config ∧ config.member "llm" = some llm ∧
    llm.member role.key = some roleConfig

section

variable {env : String → Option String} {role : AgentRole} {text : String} {roleConfig : Json}

theorem Configures.reads (h : Configures text role roleConfig) : ∃ config llm,
    Json.parse text = some config ∧ readField config "llm" = .ok (some llm) ∧ llm.truthy = true ∧
      llm.member role.key = some roleConfig := by
  obtain ⟨config, llm, hparse, hllm, hrole⟩ := h
  refine ⟨config, llm, hparse, ?_, ?_, hrole⟩
  · cases config with
    | null => simp [Json.member] at hllm
    | _ => simp [readField, hllm]
  · cases llm with
    | obj members => rfl
    | _ => simp [Json.member] at hrole

theorem configuredProvider_entry {members : List (String × Json)}
    (h : Configures text role (.obj members)) :
    configuredProvider env role text
      = (createSingleProvider env (.obj members)).map fun p => some (.single p) := by
  obtain ⟨config, llm, hparse, hread, htruthy, hrole⟩ := h.reads
  simp only [configuredProvider, hparse, hread, Except.bind, htruthy, if_true, hrole]
  rfl

theorem configuredProvider_entries {entries : List Json} (h : Configures text role (.arr entries)) :
    configuredProvider env role text
      = ((entries.mapM (createSingleProvider env)).bind newFallback).map some := by
  obtain ⟨config, llm, hparse, hread, htruthy, hrole⟩ := h.reads
  simp only [configuredProvider, hparse, hread, Except.bind, htruthy, if_true, hrole]
  rfl

end

theorem roleProvider_entry {env : String → Option String} {role : AgentRole} {text : String}
    {entry : Json} {p q : SingleProvider} (h : Configures text role entry) (hasks : Asks env entry p)
    (hq : createSingleProvider env entry = .ok q) :
    roleProvider env role (some text) = .single q := by
  obtain ⟨members, rfl⟩ := hasks.isObject
  rw [roleProvider, Option.map_some, configuredProvider_entry h, hq]
  rfl

theorem roleProvider_entry_iff {env : String → Option String} {role : AgentRole} {text : String}
    {entry : Json} {p : SingleProvider} (h : Configures text role entry) (hasks : Asks env entry p) :
    roleProvider env role (some text) = .single p ↔ ¬ NamesAnthropic entry := by
  rw [← hasks.create_iff, hasks.create_eq, roleProvider_entry h hasks hasks.create_eq]
  simp

theorem roleProvider_entries_iff {env : String → Option String} {role : AgentRole} {text : String}
    {entries : List Json} {first : SingleProvider} {rest : List SingleProvider}
    (h : Configures text role (.arr entries))
    (hasks : List.Forall₂ (Asks env) entries (first :: rest)) :
    roleProvider env role (some text) = .fallback first rest ↔ ∀ e ∈ entries, ¬ NamesAnthropic e := by
  rw [← mapM_create_iff hasks, roleProvider, Option.map_some, configuredProvider_entries h]
  cases hmap : entries.mapM (createSingleProvider env) with
  | error e => simp [Except.bind, Except.map]
  | ok qs =>
    cases qs with
    | nil => simp [Except.bind, Except.map, newFallback]
    | cons q qs => simp [Except.bind, Except.map, newFallback]

/-- **The configuration is honoured**, by an entry and by a chain of entries, unless one
of them has the name `anthropic`. -/
theorem config_honoured_iff (w : World) (role : AgentRole) (tr : Trace) {text : String}
    (hfile : w.configFile (elapsed tr) = some text) {roleConfig : Json}
    (h : Configures text role roleConfig) :
    (∀ p, Asks w.env roleConfig p →
      ((getRoleProvider w role tr).1 = .ok (.single p) ↔ ¬ NamesAnthropic roleConfig)) ∧
    ∀ entries first rest, roleConfig = .arr entries →
      List.Forall₂ (Asks w.env) entries (first :: rest) →
      ((getRoleProvider w role tr).1 = .ok (.fallback first rest) ↔
        ∀ entry ∈ entries, ¬ NamesAnthropic entry) := by
  simp only [getRoleProvider_apply, hfile, Except.ok.injEq]
  refine ⟨fun p hasks => roleProvider_entry_iff h hasks, ?_⟩
  rintro entries first rest rfl hasks
  exact roleProvider_entries_iff h hasks

/-! Two configurations. -/

def entryOf (provider model apiKey : String) : Json :=
  .obj [("provider", .str provider), ("model", .str model), ("apiKey", .str apiKey)]

def localEntry : Json :=
  .obj [("provider", .str "local"), ("model", .str "llama3.1"), ("apiKey", .str "ollama"),
    ("baseUrl", .str "http://localhost:11434/v1")]

def plannerText (roleConfig : Json) : String :=
  (Json.obj [("llm", .obj [("testPlanner", roleConfig)])]).stringify 0

/-- The planner runs on `roleConfig`, and the key of the vendor is in the environment. -/
def configuredWorld (roleConfig : Json) : World :=
  { World.calm with
    env := fun name => if name = "VENDOR_KEY" then some "sk-1" else none
    configFile := fun _ => some (plannerText roleConfig) }

theorem plannerText_configures (roleConfig : Json) :
    Configures (plannerText roleConfig) .testPlanner roleConfig :=
  ⟨_, _, Json.parse_stringify _ _, rfl, rfl⟩

def localChain : Json := .arr [localEntry, entryOf "openai" "gpt-4o" "env:VENDOR_KEY"]

/-- A local model with a cloud model behind it. -/
theorem local_then_openai :
    (getRoleProvider (configuredWorld localChain) .testPlanner []).1
      = .ok (.fallback ⟨.local, "llama3.1", some "ollama", some "http://localhost:11434/v1"⟩
          [⟨.openai, "gpt-4o", some "sk-1", none⟩]) := by
  have hlocal : Asks (configuredWorld localChain).env localEntry
      ⟨.local, "llama3.1", some "ollama", some "http://localhost:11434/v1"⟩ :=
    ⟨⟨"local", rfl, by simp [documentedProviders]⟩, rfl, by decide, ⟨"ollama", "ollama", rfl, by decide,
      by decide +kernel, by decide, rfl⟩, ⟨_, rfl, by decide, rfl⟩⟩
  have hopenai : Asks (configuredWorld localChain).env (entryOf "openai" "gpt-4o" "env:VENDOR_KEY")
      ⟨.openai, "gpt-4o", some "sk-1", none⟩ :=
    ⟨⟨"openai", rfl, by simp [documentedProviders]⟩, rfl, by decide, ⟨"env:VENDOR_KEY", "sk-1", rfl,
      by decide, by decide +kernel, by decide, rfl⟩, rfl⟩
  have hchain := config_honoured_iff (configuredWorld localChain) .testPlanner [] rfl
    (plannerText_configures localChain)
  refine (hchain.2 _ _ _ rfl (.cons hlocal (.cons hopenai .nil))).mpr ?_
  simp only [List.forall_mem_cons]
  exact ⟨by decide, by decide, by simp⟩

def anthropicEntry : Json := entryOf "anthropic" "claude-3-5-sonnet-20241022" "env:VENDOR_KEY"

/-- An entry as the reference spells it for Claude gets Gemini, with Gemini's default
model and without the key. -/
theorem anthropic_entry_gets_gemini :
    Asks (configuredWorld anthropicEntry).env anthropicEntry
        ⟨.claude, "claude-3-5-sonnet-20241022", some "sk-1", none⟩ ∧
      (getRoleProvider (configuredWorld anthropicEntry) .testPlanner []).1
        = .ok (.single ⟨.gemini, "gemini-2.5-flash", none, none⟩) := by
  have hasks : Asks (configuredWorld anthropicEntry).env anthropicEntry
      ⟨.claude, "claude-3-5-sonnet-20241022", some "sk-1", none⟩ :=
    ⟨⟨"anthropic", rfl, by simp [documentedProviders]⟩, rfl, by decide, ⟨"env:VENDOR_KEY", "sk-1", rfl,
      by decide, by decide +kernel, by decide, rfl⟩, rfl⟩
  have hprovider := roleProvider_entry (plannerText_configures anthropicEntry) hasks
    (hasks.create_anthropic rfl).1
  exact ⟨hasks, congrArg Except.ok hprovider⟩

end AutoQa.LlmAgents

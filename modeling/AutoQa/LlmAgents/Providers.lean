import AutoQa.LlmAgents.World

/-!
# Providers, the fallback chain and the factory

`generate` of the four provider classes and of `FallbackProvider`, and
`getRoleProvider`, which builds a role's provider from `d-bug.config.json`.
A vendor's response is recorded in the trace when it arrives, before the
adapter decodes it: a decoding error loses the response, not its tokens.
-/

namespace AutoQa.LlmAgents

open AutoQa.Base AutoQa.Base.Text

/-! ## The provider classes -/

namespace SingleProvider

def name (p : SingleProvider) : String := p.vendor.name

def usage (p : SingleProvider) (promptTokens completionTokens : Nat) : Usage :=
  ⟨promptTokens, completionTokens, some p.name, some p.model⟩

/-- Send one request; `usage` reads the token counts off the answer. -/
def request {α : Type} (p : SingleProvider) (messages : List Message)
    (answer : Nat → Except String α) (usage : α → Usage) : Prog Trace α := fun tr =>
  match answer (elapsed tr) with
  | .ok a => (.ok a, tr ++ [.sent p messages, .received (usage a)])
  | .error e => (.error e, tr ++ [.sent p messages])

def generate (w : World) (p : SingleProvider) (input : GenerateInput) : Prog Trace Response :=
  match p.vendor with
  | .claude => do
      let usage := fun a : ClaudeAnswer => p.usage a.inputTokens a.outputTokens
      let answer ← p.request input.messages (fun t => w.anthropic t (claudePayload p.model input))
        usage
      pure (claudeDecode input (usage answer) answer)
  | .gemini => do
      let usage := fun a : GeminiAnswer =>
        p.usage (a.promptTokenCount.getD 0) (a.candidatesTokenCount.getD 0)
      let past ← Prog.get
      let answer ← p.request input.messages (fun t => w.gemini t (geminiPayload p.model input))
        usage
      pure (geminiDecode (w.randomId (elapsed past)) (usage answer) answer)
  | _ => do
      let usage := fun a : OpenAIAnswer =>
        p.usage (a.promptTokens.getD 0) (a.completionTokens.getD 0)
      let answer ← p.request input.messages
        (fun t => w.openai t p.baseURL (openAIPayload p.model input)) usage
      Prog.ofExcept (openAIDecode (usage answer) answer)

end SingleProvider

/-! ## The fallback chain -/

/-- What a role is served by. A chain has a first member by construction: the
constructor of `FallbackProvider` refuses an empty list. -/
inductive LLMProvider where
  | single (p : SingleProvider)
  | fallback (first : SingleProvider) (rest : List SingleProvider)

namespace LLMProvider

/-- The members of a provider, in the order they are tried. -/
def members : LLMProvider → List SingleProvider
  | .single p => [p]
  | .fallback first rest => first :: rest

/-- `provider.name`: a chain exposes its primary's name. -/
def name : LLMProvider → String
  | .single p => p.name
  | .fallback first _ => first.name

/-- `provider.model`, which a chain does not have. -/
def model : LLMProvider → Option String
  | .single p => orUndefined p.model
  | .fallback _ _ => none

end LLMProvider

/-- `if (input.validate) input.validate(res)`. -/
def runValidate (input : GenerateInput) (res : Response) : Except String Unit :=
  match input.validate with
  | some validate => validate res
  | none => .ok ()

/-- One member's turn: its response counts only if `validate` accepts it. -/
def tryMember (w : World) (input : GenerateInput) (p : SingleProvider) : Prog Trace Response := do
  let res ← p.generate w input
  Prog.ofExcept (runValidate input res)
  pure res

/-- The member loop of `FallbackProvider.generate`; the text is `lastError?.message`. -/
def tryProviders (w : World) (input : GenerateInput) :
    String → List SingleProvider → Prog Trace Response
  | lastError, [] => Prog.throw ("All providers in fallback chain failed. Last error: " ++ lastError)
  | _, p :: ps => Prog.tryCatch (tryMember w input p) fun e => tryProviders w input e ps

def noFallbackMessage : String := "forceFallback requested but no fallback providers available."

/-- `forceFallback` skips the primary. -/
def startIndex (input : GenerateInput) : Nat := if input.forceFallback then 1 else 0

namespace LLMProvider

def generate (w : World) (provider : LLMProvider) (input : GenerateInput) : Prog Trace Response :=
  match provider with
  | .single p => p.generate w input
  | .fallback first rest =>
      if startIndex input ≥ (first :: rest).length then Prog.throw noFallbackMessage
      else tryProviders w input "undefined" ((first :: rest).drop (startIndex input))

end LLMProvider

theorem fallback_generate (w : World) (first : SingleProvider) (rest : List SingleProvider)
    {input : GenerateInput} (hforce : input.forceFallback = false) :
    (LLMProvider.fallback first rest).generate w input
      = tryProviders w input "undefined" (first :: rest) := by
  simp [LLMProvider.generate, startIndex, hforce]

/-! ## The factory -/

inductive AgentRole where
  | diffAnalyzer
  | testPlanner
  | resultAnalyzer
  | featureClassifier
  deriving DecidableEq, Repr

/-- The role's key under `llm` in the configuration. -/
def AgentRole.key : AgentRole → String
  | .diffAnalyzer => "diffAnalyzer"
  | .testPlanner => "testPlanner"
  | .resultAnalyzer => "resultAnalyzer"
  | .featureClassifier => "featureClassifier"

/-- `v[key]`; reading a field of `null` throws. -/
def readField (v : Json) (key : String) : Except String (Option Json) :=
  match v with
  | .null => .error ("Cannot read properties of null (reading '" ++ key ++ "')")
  | v => .ok (v.member key)

/-- A field that the sources use as a string, when it is one. -/
def stringField (v : Json) (key : String) : Option String := (v.member key).bind Json.string?

/-- `options.x || fallback` for an optional string. -/
def orElse (s : Option String) (fallback : Option String) : Option String :=
  match s.bind orUndefined with
  | some s => some s
  | none => fallback

namespace SingleProvider

def newClaude (env : String → Option String) (model apiKey : Option String) : SingleProvider :=
  { vendor := .claude
    model := (orElse model (some "claude-3-5-sonnet-20241022")).getD ""
    apiKey := orElse apiKey (env "ANTHROPIC_API_KEY")
    baseURL := none }

def newOpenAI (env : String → Option String) (model apiKey baseURL : Option String) :
    SingleProvider :=
  { vendor := .openai
    model := (orElse model (some "gpt-4o")).getD ""
    apiKey := orElse apiKey (orElse (env "OPENAI_API_KEY") (some "dummy-key"))
    baseURL := baseURL }

/-- `LocalProvider` runs the constructor of `OpenAIProvider`, then renames itself. -/
def newLocal (env : String → Option String) (model apiKey baseURL : Option String) :
    SingleProvider :=
  { newOpenAI env model (orElse apiKey (some "dummy")) baseURL with vendor := .local }

def newGemini (env : String → Option String) (model apiKey : Option String) : SingleProvider :=
  { vendor := .gemini
    model := (orElse model (some "gemini-2.5-flash")).getD ""
    apiKey := orElse apiKey (env "GEMINI_API_KEY")
    baseURL := none }

end SingleProvider

/-- `apiKey`, with `env:VAR` replaced by the variable; a truthy value that is
not a string has no `startsWith`. -/
def resolveApiKey (env : String → Option String) (apiKey : Option Json) :
    Except String (Option String) :=
  match apiKey with
  | none => .ok none
  | some (.str key) =>
      if startsWith key "env:" then .ok (some ((env (substring key 4)).getD "")) else .ok (some key)
  | some v => if v.truthy then .error "apiKey.startsWith is not a function" else .ok none

def createSingleProvider (env : String → Option String) (roleConfig : Json) :
    Except String SingleProvider :=
  (readField roleConfig "apiKey").bind fun rawKey =>
    (resolveApiKey env rawKey).map fun apiKey =>
      let model := stringField roleConfig "model"
      match stringField roleConfig "provider" with
      | some "claude" => .newClaude env model apiKey
      | some "openai" => .newOpenAI env model apiKey none
      | some "local" => .newLocal env model apiKey (stringField roleConfig "baseUrl")
      | some "gemini" => .newGemini env model apiKey
      | _ => .newGemini env none none

/-- `new FallbackProvider(providers)`. -/
def newFallback : List SingleProvider → Except String LLMProvider
  | [] => .error "FallbackProvider requires at least one provider"
  | first :: rest => .ok (.fallback first rest)

/-- The `try` block of `getRoleProvider`; `none` when the role is not configured. -/
def configuredProvider (env : String → Option String) (role : AgentRole) (text : String) :
    Except String (Option LLMProvider) :=
  match Json.parse text with
  | none => .error "Unexpected token in JSON"
  | some config =>
    (readField config "llm").bind fun
      | none => .ok none
      | some llm =>
        if llm.truthy then
          match llm.member role.key with
          | none => .ok none
          | some roleConfig =>
            if roleConfig.truthy then
              match roleConfig with
              | .arr entries =>
                  ((entries.mapM (createSingleProvider env)).bind newFallback).map some
              | entry => (createSingleProvider env entry).map fun p => some (.single p)
            else .ok none
        else .ok none

/-- The provider that `getRoleProvider` returns for a file content. A missing
file, a missing role and every exception end in the default, Gemini. -/
def roleProvider (env : String → Option String) (role : AgentRole) (file : Option String) :
    LLMProvider :=
  match file.map (configuredProvider env role) with
  | some (.ok (some provider)) => provider
  | _ => .single (.newGemini env none none)

def getRoleProvider (w : World) (role : AgentRole) : Prog Trace LLMProvider := do
  let file ← readConfig w
  pure (roleProvider w.env role file)

/-! ## What a provider call leaves in the trace

The responses received during a call, and the one of them that the caller
gets: the others are lost to it. -/

/-- The usages of the responses received, in order. -/
def receivedUsages (es : Trace) : List Usage :=
  es.filterMap fun
    | .received u => some u
    | _ => none

@[simp] theorem receivedUsages_nil : receivedUsages [] = [] := rfl

@[simp] theorem receivedUsages_append (es fs : Trace) :
    receivedUsages (es ++ fs) = receivedUsages es ++ receivedUsages fs :=
  List.filterMap_append

/-- The usage of a response of `p`: the class fills in its name and model. -/
def SingleProvider.Reports (p : SingleProvider) (u : Usage) : Prop :=
  u.provider = some p.name ∧ u.model = some p.model

/-- One of `ps` is sent `messages`, or responds. -/
def LlmEvent (ps : List SingleProvider) (messages : List Message) (e : Event) : Prop :=
  ∃ p ∈ ps, e = .sent p messages ∨ ∃ u, e = .received u ∧ p.Reports u

theorem LlmEvent.mono {ps qs : List SingleProvider} {messages : List Message} {e : Event}
    (h : LlmEvent ps messages e) (hsub : ∀ p ∈ ps, p ∈ qs) : LlmEvent qs messages e := by
  obtain ⟨p, hp, he⟩ := h
  exact ⟨p, hsub p hp, he⟩

/-- What is returned comes from the last response received. -/
def ReturnsLast {α : Type} (usage : α → Usage) (r : Except String α) (es : Trace) : Prop :=
  ∀ a, r = .ok a → ∃ lost, receivedUsages es = lost ++ [usage a]

/-- Only `ps` are asked, with `messages`, and a returned response is the last one
received. -/
def CallSpec (ps : List SingleProvider) (messages : List Message) (r : Except String Response)
    (es : Trace) : Prop :=
  (∀ e ∈ es, LlmEvent ps messages e) ∧ ReturnsLast Response.usage r es

theorem CallSpec.error {ps : List SingleProvider} {messages : List Message} {e : String}
    {es : Trace} (h : ∀ e ∈ es, LlmEvent ps messages e) : CallSpec ps messages (.error e) es :=
  ⟨h, fun _ hr => nomatch hr⟩

namespace SingleProvider

/-- The response arrived, or the vendor's call threw. -/
theorem request_logs {α : Type} (p : SingleProvider) (messages : List Message)
    (answer : Nat → Except String α) (usage : α → Usage) :
    Logs (fun r es => match r with
      | .ok a => es = [.sent p messages, .received (usage a)]
      | .error _ => es = [.sent p messages]) (p.request messages answer usage) := by
  intro tr
  cases h : answer (elapsed tr) with
  | ok a =>
    exact ⟨[.sent p messages, .received (usage a)], by simp only [request, h],
      by simp only [request, h]⟩
  | error e => exact ⟨[.sent p messages], by simp only [request, h], by simp only [request, h]⟩

/-- A request followed by decoding, in the shape all three adapters have. -/
theorem request_decode_logs {α : Type} (p : SingleProvider) (messages : List Message)
    (answer : Nat → Except String α) (usage : α → Usage) (husage : ∀ a, p.Reports (usage a))
    (decode : α → Prog Trace Response)
    (hdecode : ∀ a, Logs (fun r es => es = [] ∧ ∀ response, r = .ok response →
      response.usage = usage a) (decode a)) :
    Logs (CallSpec [p] messages) (p.request messages answer usage >>= decode) := by
  refine Logs.bind (p.request_logs messages answer usage) ?_ ?_
  · intro e es heq
    subst heq
    refine .error ?_
    intro e' he
    rw [List.mem_singleton.mp he]
    exact ⟨p, by simp, .inl rfl⟩
  · intro a es heq
    subst heq
    -- the response is on the trace even if decoding throws
    apply (hdecode a).mono
    intro r fs hspec
    obtain ⟨rfl, hr⟩ := hspec
    refine ⟨?_, ?_⟩
    · intro e he
      simp only [List.append_nil, List.mem_cons, List.not_mem_nil, or_false] at he
      rcases he with rfl | rfl
      · exact ⟨p, by simp, .inl rfl⟩
      · exact ⟨p, by simp, .inr ⟨usage a, rfl, husage a⟩⟩
    · intro response hok
      exact ⟨[], by simp [receivedUsages, hr response hok]⟩

theorem usage_reports (p : SingleProvider) (promptTokens completionTokens : Nat) :
    p.Reports (p.usage promptTokens completionTokens) := ⟨rfl, rfl⟩

theorem openAIDecode_usage {usage : Usage} {answer : OpenAIAnswer} {response : Response}
    (h : openAIDecode usage answer = .ok response) : response.usage = usage := by
  unfold openAIDecode at h
  split at h
  · cases h
  · split at h
    · cases h
      rfl
    · split at h
      · cases h
        rfl
      · cases h

theorem generate_logs (w : World) (p : SingleProvider) (input : GenerateInput) :
    Logs (CallSpec [p] input.messages) (p.generate w input) := by
  have hopenai : Logs (CallSpec [p] input.messages) (do
      let answer ← p.request input.messages
        (fun t => w.openai t p.baseURL (openAIPayload p.model input))
        (fun a : OpenAIAnswer => p.usage (a.promptTokens.getD 0) (a.completionTokens.getD 0))
      Prog.ofExcept (openAIDecode
        (p.usage (answer.promptTokens.getD 0) (answer.completionTokens.getD 0)) answer)) :=
    p.request_decode_logs _ _ _ (fun a => p.usage_reports _ _) _
      (fun a => .ofExcept ⟨rfl, fun _ h => openAIDecode_usage h⟩)
  cases hv : p.vendor with
  | claude =>
    simp only [generate, hv]
    exact p.request_decode_logs _ _ _ (fun a => p.usage_reports _ _) _
      (fun a => .pure ⟨rfl, by rintro _ ⟨⟩; rfl⟩)
  | gemini =>
    simp only [generate, hv]
    refine Logs.bind (Logs.get (R := fun _ es => es = []) (fun _ => rfl)) ?_ ?_
    · intro e es heq
      subst heq
      exact .error (by simp)
    · intro time es heq
      subst heq
      exact p.request_decode_logs _ _ _ (fun a => p.usage_reports _ _) _
        (fun a => .pure ⟨rfl, by rintro _ ⟨⟩; rfl⟩)
  | openai =>
    simp only [generate, hv]
    exact hopenai
  | «local» =>
    simp only [generate, hv]
    exact hopenai

end SingleProvider

theorem tryMember_logs (w : World) (input : GenerateInput) (p : SingleProvider) :
    Logs (CallSpec [p] input.messages) (tryMember w input p) := by
  apply Logs.bind (p.generate_logs w input) (fun e es h => .error h.1)
  intro res es hres
  refine Logs.bind (Logs.ofExcept (R := fun _ fs => fs = []) rfl) ?_ ?_
  · intro e fs heq
    subst heq
    exact .error (by simpa using hres.1)
  · intro _ fs heq
    subst heq
    exact Logs.pure (by simpa using hres)

theorem tryProviders_logs (w : World) (input : GenerateInput) (ps : List SingleProvider) :
    ∀ lastError, Logs (CallSpec ps input.messages) (tryProviders w input lastError ps) := by
  induction ps with
  | nil => intro lastError; exact .throw (.error (by simp))
  | cons p ps ih =>
    intro lastError
    refine Logs.tryCatch (tryMember_logs w input p) ?_ ?_
    · intro a es hspec
      obtain ⟨hes, hr⟩ := hspec
      exact ⟨fun e he => (hes e he).mono (by simp), hr⟩
    · intro e es hspec
      obtain ⟨hes, -⟩ := hspec
      apply (ih e).mono
      intro r fs hspec
      obtain ⟨hfs, hr⟩ := hspec
      refine ⟨?_, ?_⟩
      · intro e' he
        rcases List.mem_append.mp he with he | he
        · exact (hes e' he).mono (by simp)
        · exact (hfs e' he).mono (fun q hq => List.mem_cons_of_mem p hq)
      · intro response hok
        obtain ⟨lost, hlost⟩ := hr response hok
        -- a rejected member's responses join the lost ones
        exact ⟨receivedUsages es ++ lost, by simp [hlost]⟩

/-- Only members are asked; what a call returns is the last response it got. -/
theorem LLMProvider.generate_logs (w : World) (provider : LLMProvider) (input : GenerateInput) :
    Logs (CallSpec provider.members input.messages) (provider.generate w input) := by
  cases provider with
  | single p => exact p.generate_logs w input
  | fallback first rest =>
    simp only [generate]
    split
    · exact Logs.throw (CallSpec.error (by simp))
    · apply (tryProviders_logs w input _ _).mono
      intro r es hspec
      obtain ⟨hes, hr⟩ := hspec
      refine ⟨fun e he => (hes e he).mono ?_, hr⟩
      intro p hp
      exact List.mem_of_mem_drop hp

/-- The members that were sent a request, in order. -/
def askedMembers (es : Trace) : List SingleProvider :=
  es.filterMap fun
    | .sent p _ => some p
    | _ => none

/-- A request that is decoded is one request. -/
theorem request_asked {α : Type} (p : SingleProvider) (messages : List Message)
    (answer : Nat → Except String α) (usage : α → Usage) (decode : α → Prog Trace Response)
    (hdecode : ∀ a, Logs (fun _ es => es = []) (decode a)) :
    Logs (fun _ es => askedMembers es = [p]) (p.request messages answer usage >>= decode) := by
  refine Logs.bind (p.request_logs messages answer usage) ?_ ?_
  · rintro e es rfl
    rfl
  · rintro a es rfl
    apply (hdecode a).mono
    rintro r fs rfl
    rfl

theorem generate_asked (w : World) (p : SingleProvider) (input : GenerateInput) :
    Logs (fun _ es => askedMembers es = [p]) (p.generate w input) := by
  cases hvendor : p.vendor with
  | claude =>
    simp only [SingleProvider.generate, hvendor]
    exact request_asked p _ _ _ _ (fun a => .pure rfl)
  | gemini =>
    simp only [SingleProvider.generate, hvendor]
    refine Logs.bind (Logs.get (R := fun r es => es = [] ∧ ∃ l, r = .ok l)
      (fun l => ⟨rfl, l, rfl⟩)) ?_ ?_
    · rintro e es ⟨-, l, hl⟩
      cases hl
    · rintro time es ⟨rfl, -⟩
      exact request_asked p _ _ _ _ (fun a => .pure rfl)
  | openai =>
    simp only [SingleProvider.generate, hvendor]
    exact request_asked p _ _ _ _ (fun a => .ofExcept rfl)
  | «local» =>
    simp only [SingleProvider.generate, hvendor]
    exact request_asked p _ _ _ _ (fun a => .ofExcept rfl)

end AutoQa.LlmAgents

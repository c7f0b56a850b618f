import AutoQa.Base.Proc
import AutoQa.LlmAgents.Fences
import AutoQa.LlmAgents.Turn

/-!
# The canary check

`runCanaryCheck` (`canary.ts`) asks a provider for a tool call and for a JSON
document, in one request or in two. It says whether the document came; what the
provider or the parser throws becomes the reason of a failure.
-/

namespace AutoQa.LlmAgents

open AutoQa.Base

/-! ## The questions -/

def numberSchema : Json := .obj [("type", .str "number")]

def canaryTools : List ToolDefinition :=
  [{ name := "calculator"
     description := "Adds two numbers together"
     inputSchema := .obj [("type", .str "object"),
       ("properties", .obj [("a", numberSchema), ("b", numberSchema)]),
       ("required", .arr [.str "a", .str "b"])] }]

def canarySchema : Json :=
  .obj [("type", .str "object"), ("properties", .obj [("result", numberSchema)]),
    ("required", .arr [.str "result"])]

def canaryMessages : List Message :=
  [{ role := .user
     content := "Use the calculator tool to add 2 and 2, then respond with the result." }]

/-- The response, and the mocked result of each of its calls. -/
def canaryReplies (response : Response) : List Message :=
  { role := .assistant, content := response.text.getD "", toolCalls := response.toolCalls } ::
    (callsOf response.toolCalls).map fun tc =>
      { role := .tool, content := "4", name := some tc.name, toolCallId := some tc.id }

def firstQuestion : GenerateInput :=
  { messages := canaryMessages, tools := some canaryTools, responseSchema := some canarySchema }

/-- No tools this time. -/
def secondQuestion (response : Response) : GenerateInput :=
  { messages := canaryMessages ++ canaryReplies response, responseSchema := some canarySchema }

/-! ## The check -/

structure CanaryResult where
  success : Bool
  reason : Option String
  deriving DecidableEq, Repr

def canaryFailed (reason : String) : CanaryResult := ⟨false, some reason⟩

inductive CanaryOp : Type → Type where
  | generate (provider : LLMProvider) (input : GenerateInput) : CanaryOp Response

def answerCanary (w : World) {ρ : Type} : CanaryOp ρ → Prog Trace ρ
  | .generate provider input => provider.generate w input

/-- What is said of the last text; a document `null` has no `result` to read. -/
def canaryVerdict (finalJsonText : Option String) : Except String CanaryResult :=
  match finalJsonText.bind orUndefined with
  | none => .ok (canaryFailed "No text response produced for JSON schema.")
  | some text =>
    match Json.parse (cleanAnalysis text) with
    | none => .ok (canaryFailed "Failed to parse structured JSON response.")
    | some parsed => (readField parsed "result").map fun
        | some (.num _) => ⟨true, none⟩
        | _ => canaryFailed "JSON response did not match the required schema."

/-- What follows the first response: its calls are answered, if there are any. -/
def finishCanary (provider : LLMProvider) (response : Response) : Proc CanaryOp CanaryResult :=
  if response.toolCalls.isNone && (response.text.bind orUndefined).isNone then
    pure (canaryFailed "Empty response.")
  else if (callsOf response.toolCalls).isEmpty then
    .done (canaryVerdict response.text)
  else do
    let secondResponse ← Proc.call (.generate provider (secondQuestion response))
    .done (canaryVerdict secondResponse.text)

def askCanary (provider : LLMProvider) : Proc CanaryOp CanaryResult := do
  let response ← Proc.call (.generate provider firstQuestion)
  finishCanary provider response

def runCanaryCheck (provider : LLMProvider) : Proc CanaryOp CanaryResult :=
  Proc.tryCatch (askCanary provider) fun e => pure (canaryFailed e)

/-! ## What it sends -/

/-- One of the two questions: the first, or one that also answers all calls of a
response. -/
def IsQuestion (messages : List Message) : Prop :=
  messages = canaryMessages ∨ ∃ block, Block block ∧ messages = canaryMessages ++ block

theorem canaryReplies_block {response : Response} (h : (callsOf response.toolCalls).isEmpty = false) :
    Block (canaryReplies response) := by
  have hne : callsOf response.toolCalls ≠ [] := by
    intro hnil
    rw [hnil] at h
    cases h
  have hcalls : response.toolCalls = some (callsOf response.toolCalls) := by
    cases htc : response.toolCalls with
    | none => exact absurd (by rw [htc]; rfl) hne
    | some calls => rfl
  apply Block.calls _ (callsOf response.toolCalls) _ rfl hcalls hne
  simp [Answers]

/-- The operation puts one of the questions to `provider`. -/
def CanaryOp.Asks (provider : LLMProvider) {ρ : Type} : CanaryOp ρ → Prop
  | .generate p input => p = provider ∧ IsQuestion input.messages

theorem finishCanary_only (provider : LLMProvider) (response : Response) :
    (finishCanary provider response).Only fun o => o.Asks provider := by
  unfold finishCanary
  split
  · trivial
  · split
    · trivial
    · rename_i hcalls
      have hblock := canaryReplies_block (by simpa using hcalls)
      exact Proc.Only.bind (Proc.Only.call ⟨rfl, .inr ⟨_, hblock, rfl⟩⟩) fun _ => trivial

theorem firstQuestion_asks (provider : LLMProvider) :
    (CanaryOp.generate provider firstQuestion).Asks provider :=
  ⟨rfl, .inl rfl⟩

/-- The event puts one of the questions to a member of `provider`, or answers it. -/
def CanaryEvent (provider : LLMProvider) (e : Event) : Prop :=
  ∃ messages, IsQuestion messages ∧ LlmEvent provider.members messages e

theorem answerCanary_logs (w : World) {provider : LLMProvider} {ρ : Type} {o : CanaryOp ρ}
    (h : o.Asks provider) : Emits (CanaryEvent provider) (answerCanary w o) := by
  cases o with
  | generate p input =>
    obtain ⟨rfl, hquestion⟩ := h
    exact (p.generate_logs w input).mono fun _ _ hcall e he => ⟨_, hquestion, hcall.1 e he⟩

/-! ## The verdict -/

/-- The document that the schema asks for. -/
def Obeys (v : Json) : Prop := ∃ n, v.member "result" = some (.num n)

theorem canaryVerdict_text {text : String} {v : Json} (hne : text ≠ "")
    (hparse : Json.parse (cleanAnalysis text) = some v) (h : Obeys v) :
    canaryVerdict (some text) = .ok ⟨true, none⟩ := by
  obtain ⟨n, hn⟩ := h
  have hread : readField v "result" = .ok (some (.num n)) := by
    cases v with
    | null => cases hn
    | _ => exact congrArg Except.ok hn
  simp [canaryVerdict, orUndefined, hne, hparse, hread, Except.map]

/-- A check passes exactly on a text that is such a document once it is cleaned. -/
theorem canaryVerdict_iff (finalJsonText : Option String) :
    (∃ result, canaryVerdict finalJsonText = .ok result ∧ result.success = true) ↔
      ∃ text v, finalJsonText = some text ∧ text ≠ "" ∧
        Json.parse (cleanAnalysis text) = some v ∧ Obeys v := by
  constructor
  · intro h
    obtain ⟨result, hresult, hsuccess⟩ := h
    cases finalJsonText with
    | none => cases hresult; cases hsuccess
    | some text =>
      by_cases hempty : text = ""
      · rw [hempty] at hresult
        cases hresult
        cases hsuccess
      · simp only [canaryVerdict, Option.bind_some, orUndefined, if_neg hempty] at hresult
        cases hparse : Json.parse (cleanAnalysis text) with
        | none =>
          rw [hparse] at hresult
          cases hresult
          cases hsuccess
        | some v =>
          refine ⟨text, v, rfl, hempty, hparse, ?_⟩
          rw [hparse] at hresult
          cases hmember : readField v "result" with
          | error e => simp [hmember, Except.map] at hresult
          | ok field =>
            have hfield : v.member "result" = field := by
              cases v with
              | null => cases hmember
              | _ => exact Except.ok.inj hmember
            simp only [hmember, Except.map, Except.ok.injEq] at hresult
            subst hresult
            split at hsuccess
            · rename_i n
              exact ⟨n, hfield⟩
            · cases hsuccess
  · intro h
    obtain ⟨text, v, rfl, hne, hparse, hobeys⟩ := h
    exact ⟨_, canaryVerdict_text hne hparse hobeys, rfl⟩

/-- A model that wraps the document in a fence passes like one that does not. -/
theorem canaryVerdict_wrapped {j w c d : String} {v : Json} (h : Json.parse j = some v)
    (hobeys : Obeys v) (hw : Wrapping j w) (hc : AllSpace c) (hd : AllSpace d) :
    canaryVerdict (some (c ++ w ++ d)) = .ok ⟨true, none⟩ := by
  obtain ⟨hparse, -⟩ := parse_cleanAnalysis h hw hc hd
  refine canaryVerdict_text ?_ hparse hobeys
  intro hempty
  -- an empty text is cleaned to an empty text, which is no document
  rw [hempty] at hparse
  cases hparse

/-! ## Who is asked first -/

/-- The member that a call without `forceFallback` asks first. -/
def LLMProvider.primary : LLMProvider → SingleProvider
  | .single p => p
  | .fallback first _ => first

/-- The request is among what a call leaves behind. -/
def Sends (p : SingleProvider) (messages : List Message) {α : Type} (call : Prog Trace α) : Prop :=
  Logs (fun _ es => .sent p messages ∈ es) call

theorem generate_sends (w : World) (p : SingleProvider) (input : GenerateInput) :
    Sends p input.messages (p.generate w input) := by
  apply ((generate_asked w p input).and (p.generate_logs w input)).mono
  intro r es h
  obtain ⟨hasked, hcall, -⟩ := h
  have hmem : p ∈ askedMembers es := by simp [hasked]
  obtain ⟨e, he, hsent⟩ := List.mem_filterMap.mp hmem
  obtain ⟨q, hq, hevent⟩ := hcall e he
  rw [List.mem_singleton.mp hq] at hevent
  rcases hevent with rfl | ⟨u, rfl, -⟩
  · exact he
  · cases hsent

/-- A chain asks its first member whether or not the others follow. -/
theorem primary_asked (w : World) (provider : LLMProvider) {input : GenerateInput}
    (hforce : input.forceFallback = false) :
    Sends provider.primary input.messages (provider.generate w input) := by
  cases provider with
  | single p => exact generate_sends w p input
  | fallback first rest =>
    rw [fallback_generate w first rest hforce]
    have hmember : Sends first input.messages (tryMember w input first) := by
      apply Logs.bind (generate_sends w first input) fun _ _ hsent => hsent
      intro response es hsent
      exact Logs.bind (Logs.ofExcept (R := fun _ fs => fs = []) rfl)
        (fun _ fs hfs => List.mem_append_left fs hsent)
        (fun _ fs hfs => Logs.pure (List.mem_append_left _ hsent))
    apply Logs.tryCatch hmember fun _ _ hsent => hsent
    intro e es hsent
    exact (tryProviders_logs w input rest e).mono fun _ fs _ => List.mem_append_left fs hsent

end AutoQa.LlmAgents

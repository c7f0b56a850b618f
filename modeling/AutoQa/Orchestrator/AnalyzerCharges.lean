import AutoQa.LlmAgents.StructuredFallback
import AutoQa.Orchestrator.Runner
import AutoQa.Orchestrator.Watcher

/-!
# Whom an analysis is charged to

The analyzers take the names of a usage from the provider they called, the tokens
from the response. For a chain these are the primary's name and no model, whoever
answered.
-/

namespace AutoQa.LlmAgents

open AutoQa.Base

/-! ## The member that answers -/

section

variable {α : Type} (w : World) (input : GenerateInput) (schema : Schema α)

/-- The first member of `ps` that gives a document, asked one after the other. -/
def answering : List SingleProvider → Trace → Option SingleProvider
  | [], _ => none
  | p :: ps, tr =>
      if (documentOf w input schema p tr).isSome then some p
      else answering ps (p.generate w input tr).2

/-- A call that appended `es` to the trace went on with the response of `p`, the last one. -/
structure Answered (p : SingleProvider) (usage : Usage) (es : Trace) : Prop where
  reports : p.Reports usage
  last : ∃ lost, receivedUsages es = lost ++ [usage]

theorem Answered.after {p : SingleProvider} {usage : Usage} {es fs : Trace}
    (h : Answered p usage fs) : Answered p usage (es ++ fs) := by
  obtain ⟨lost, hlost⟩ := h.last
  exact ⟨h.reports, receivedUsages es ++ lost, by simp [hlost]⟩

/-- It is the usage of the last response. -/
theorem Answered.unique {p q : SingleProvider} {u v : Usage} {es : Trace} (h : Answered p u es)
    (h' : Answered q v es) : u = v := by
  obtain ⟨lost, hlost⟩ := h.last
  obtain ⟨lost', hlost'⟩ := h'.last
  have hsame := hlost.symm.trans hlost'
  simpa using congrArg List.getLast? hsame

/-- A response is the last one received, under the names of its provider. -/
theorem SingleProvider.generate_answered {p : SingleProvider} {tr t : Trace} {res : Response}
    (h : p.generate w input tr = (.ok res, t)) :
    ∃ es, t = tr ++ es ∧ Answered p res.usage es := by
  obtain ⟨es, hes, hevents, hlast⟩ := p.generate_logs w input tr
  rw [h] at hes hlast
  obtain ⟨lost, hlost⟩ := hlast res rfl
  have hmem : res.usage ∈ receivedUsages es := by simp [hlost]
  obtain ⟨e, he, hu⟩ := List.mem_filterMap.mp hmem
  obtain ⟨q, hq, rfl | ⟨u, rfl, hreports⟩⟩ := hevents e he
  · cases hu
  · obtain rfl : q = p := by simpa using hq
    obtain rfl : u = res.usage := Option.some.inj hu
    exact ⟨es, hes, hreports, lost, hlost⟩

/-- A member with a document returns a response that passes both checks. -/
theorem documentOf_isSome {p : SingleProvider} {tr : Trace}
    (h : (documentOf w input schema p tr).isSome = true) :
    ∃ res a es, p.generate w input tr = (.ok res, tr ++ es) ∧ validateWith schema res = .ok () ∧
      parseText schema res.text = .ok a ∧ Answered p res.usage es := by
  cases hcall : p.generate w input tr with
  | mk r t =>
  cases r with
  | error e => simp [documentOf, hcall] at h
  | ok res =>
    obtain ⟨es, rfl, hanswered⟩ := SingleProvider.generate_answered w input hcall
    rcases validateWith_cases schema res with ⟨a, -, hok, hparse⟩ | ⟨hnone, -⟩
    · exact ⟨res, a, es, rfl, hok, hparse, hanswered⟩
    · simp [documentOf, hcall, hnone] at h

/-- A response whose text parses is a document. -/
theorem documentOf_of_parse {p : SingleProvider} {tr t : Trace} {res : Response} {a : α}
    (hcall : p.generate w input tr = (.ok res, t)) (hparse : parseText schema res.text = .ok a) :
    (documentOf w input schema p tr).isSome = true := by
  rcases validateWith_cases schema res with ⟨b, hsome, -⟩ | ⟨hnone, -⟩
  · simp [documentOf, hcall, hsome]
  · cases htext : res.text with
    | none => simp [parseText, htext] at hparse
    | some text =>
      simp only [parseText, htext] at hparse
      simp [Response.document, htext, hparse, Except.toOption] at hnone

theorem tryProviders_answering {input : GenerateInput}
    (hvalidate : input.validate = some (validateWith schema)) (ps : List SingleProvider) :
    ∀ lastError tr, match answering w input schema ps tr with
      | some p => ∃ res a es, tryProviders w input lastError ps tr = (.ok res, tr ++ es) ∧
          parseText schema res.text = .ok a ∧ Answered p res.usage es
      | none => ∃ e t, tryProviders w input lastError ps tr = (.error e, t) := by
  induction ps with
  | nil => exact fun lastError tr => ⟨_, tr, rfl⟩
  | cons p ps ih =>
    intro lastError tr
    by_cases hdoc : (documentOf w input schema p tr).isSome = true
    · obtain ⟨res, a, es, hcall, hok, hparse, hanswered⟩ := documentOf_isSome w input schema hdoc
      rw [answering, if_pos hdoc]
      refine ⟨res, a, es, Prog.tryCatch_ok ?_, hparse, hanswered⟩
      rw [tryMember, Prog.bind_ok hcall, runValidate, hvalidate]
      simp only [hok]
      rfl
    · -- the chain goes on behind the member, whose events stay on the trace
      obtain ⟨es, hes, -⟩ := p.generate_logs w input tr
      rcases tryMember_cases w schema hvalidate p tr with ⟨res, a, hsome, -⟩ | ⟨-, e, htry⟩
      · simp [hsome] at hdoc
      · have hnext : tryProviders w input lastError (p :: ps) tr
            = tryProviders w input e ps (p.generate w input tr).2 := Prog.tryCatch_error htry
        have hrest := ih e (p.generate w input tr).2
        rw [answering, if_neg hdoc, hnext]
        cases hanswering : answering w input schema ps (p.generate w input tr).2 with
        | none => simpa only [hanswering] using hrest
        | some q =>
          rw [hanswering] at hrest
          obtain ⟨res, a, fs, hrun, hparse, hanswered⟩ := hrest
          exact ⟨res, a, es ++ fs, by rw [hrun, hes, List.append_assoc], hparse, hanswered.after⟩

end

theorem generateStructured_ok {α : Type} {w : World} {provider : LLMProvider}
    {messages : List Message} {responseSchema : Json} {schema : Schema α} {tr t : Trace}
    {res : Response} {a : α}
    (hcall : provider.generate w (structuredInput messages responseSchema schema) tr = (.ok res, t))
    (hparse : parseText schema res.text = .ok a) :
    generateStructured w provider messages responseSchema schema (validateWith schema) tr
      = (.ok (a, res.usage), t) := by
  rw [generateStructured, ← structuredInput, Prog.bind_ok hcall, hparse]
  rfl

/-- A provider alone throws if it has no document. -/
theorem generateStructured_throws {α : Type} (w : World) (p : SingleProvider)
    (messages : List Message) (responseSchema : Json) (schema : Schema α) (tr : Trace)
    (hdoc : ¬ (documentOf w (structuredInput messages responseSchema schema) schema p tr).isSome = true) :
    ∃ e t, generateStructured w (.single p) messages responseSchema schema (validateWith schema) tr
      = (.error e, t) := by
  cases hcall : p.generate w (structuredInput messages responseSchema schema) tr with
  | mk r t =>
  rw [generateStructured, ← structuredInput]
  cases r with
  | error e => exact ⟨e, t, Prog.bind_error hcall⟩
  | ok res =>
    cases hparse : parseText schema res.text with
    | error e =>
      refine ⟨e, t, ?_⟩
      rw [show LLMProvider.generate w (.single p) (structuredInput messages responseSchema schema)
        = p.generate w (structuredInput messages responseSchema schema) from rfl,
        Prog.bind_ok hcall, hparse]
      rfl
    | ok a => exact absurd (documentOf_of_parse w _ schema hcall hparse) hdoc

/-- A structured call returns if a member answers, and then with its usage. -/
theorem generateStructured_answering {α : Type} (w : World) (provider : LLMProvider)
    (messages : List Message) (responseSchema : Json) (schema : Schema α) (tr : Trace) :
    match answering w (structuredInput messages responseSchema schema) schema provider.members tr with
    | some p => ∃ a usage es, generateStructured w provider messages responseSchema schema
          (validateWith schema) tr = (.ok (a, usage), tr ++ es) ∧ Answered p usage es
    | none => ∃ e t, generateStructured w provider messages responseSchema schema
          (validateWith schema) tr = (.error e, t) := by
  cases provider with
  | single p =>
    simp only [LLMProvider.members, answering]
    by_cases hdoc : (documentOf w (structuredInput messages responseSchema schema) schema p tr).isSome = true
    · obtain ⟨res, a, es, hcall, -, hparse, hanswered⟩ := documentOf_isSome w _ schema hdoc
      rw [if_pos hdoc]
      exact ⟨a, res.usage, es, generateStructured_ok hcall hparse, hanswered⟩
    · rw [if_neg hdoc]
      exact generateStructured_throws w p messages responseSchema schema tr hdoc
  | fallback first rest =>
    have hchain := fallback_generate w first rest
      (show (structuredInput messages responseSchema schema).forceFallback = false from rfl)
    have hanswers := tryProviders_answering w schema
      (show (structuredInput messages responseSchema schema).validate = some (validateWith schema) from rfl)
      (first :: rest) "undefined" tr
    simp only [LLMProvider.members]
    cases hanswering : answering w (structuredInput messages responseSchema schema) schema
        (first :: rest) tr with
    | some p =>
      rw [hanswering] at hanswers
      obtain ⟨res, a, es, hrun, hparse, hanswered⟩ := hanswers
      exact ⟨a, res.usage, es, generateStructured_ok (by rw [hchain, hrun]) hparse, hanswered⟩
    | none =>
      rw [hanswering] at hanswers
      obtain ⟨e, t, hrun⟩ := hanswers
      refine ⟨e, t, ?_⟩
      rw [generateStructured, ← structuredInput, hchain]
      exact Prog.bind_error hrun

theorem answering_mem {α : Type} (w : World) (input : GenerateInput) (schema : Schema α)
    {ps : List SingleProvider} {p : SingleProvider} :
    ∀ {tr : Trace}, answering w input schema ps tr = some p → p ∈ ps := by
  induction ps with
  | nil => exact fun h => nomatch h
  | cons q ps ih =>
    intro tr h
    rw [answering] at h
    split at h
    · simp [Option.some.inj h]
    · exact List.mem_cons_of_mem q (ih h)

/-! ## The names of a usage -/

/-- What the answer of `p` is to be charged as. -/
def SingleProvider.entry (p : SingleProvider) (u : Usage) : UsageEntry :=
  ⟨p.name, p.model, u.promptTokens, u.completionTokens⟩

/-- The answer of `p` is reported under the names of `p`. -/
def ReportsOwn : LLMProvider → SingleProvider → Prop
  | .single _, _ => True
  | .fallback first _, p => p.vendor = first.vendor ∧ p.model = "unknown"

theorem Vendor.name_injective {a b : Vendor} (h : a.name = b.name) : a = b := by
  cases a <;> cases b <;> first | rfl | exact absurd h (by decide)

/-- The constructors replace an empty model by the default. -/
theorem createSingleProvider_model {env : String → Option String} {entry : Json} {p : SingleProvider}
    (h : createSingleProvider env entry = .ok p) : p.model ≠ "" := by
  have hdefault : ∀ (model : Option String) {default : String}, default ≠ "" →
      (orElse model (some default)).getD "" ≠ "" := by
    intro model default hne
    cases hmodel : model.bind orUndefined with
    | none => simpa [orElse, hmodel] using hne
    | some m =>
      obtain ⟨s, -, hs⟩ := Option.bind_eq_some_iff.mp hmodel
      unfold orUndefined at hs
      split at hs
      · cases hs
      · next hempty =>
        obtain rfl := Option.some.inj hs
        simpa [orElse, hmodel] using hempty
  unfold createSingleProvider at h
  cases hread : readField entry "apiKey" with
  | error e => simp [hread, Except.bind] at h
  | ok rawKey =>
    cases hkey : resolveApiKey env rawKey with
    | error e => simp [hread, hkey, Except.bind, Except.map] at h
    | ok apiKey =>
      simp only [hread, hkey, Except.bind, Except.map, Except.ok.injEq] at h
      split at h
      · exact h ▸ hdefault _ (by decide : "claude-3-5-sonnet-20241022" ≠ "")
      · exact h ▸ hdefault _ (by decide : "gpt-4o" ≠ "")
      · exact h ▸ hdefault _ (by decide : "gpt-4o" ≠ "")
      · exact h ▸ hdefault _ (by decide : "gemini-2.5-flash" ≠ "")
      · exact h ▸ hdefault none (by decide : "gemini-2.5-flash" ≠ "")

/-- A provider that stands alone comes from one entry. -/
theorem configuredProvider_single {env : String → Option String} {role : AgentRole} {text : String}
    {p : SingleProvider} (h : configuredProvider env role text = .ok (some (.single p))) :
    ∃ entry, createSingleProvider env entry = .ok p := by
  unfold configuredProvider at h
  split at h
  · cases h
  next config hparse =>
  cases hread : readField config "llm" with
  | error e => simp [hread, Except.bind] at h
  | ok llm? =>
  simp only [hread, Except.bind] at h
  split at h
  · cases h
  next llm =>
  split at h
  swap
  · cases h
  split at h
  · cases h
  next roleConfig hrole =>
  split at h
  swap
  · cases h
  split at h
  · next entries _ =>
    -- an array makes a chain, never a provider that stands alone
    cases hmap : entries.mapM (createSingleProvider env) with
    | error e => simp [hmap, Except.map] at h
    | ok qs => cases qs <;> simp [hmap, Except.map, newFallback] at h
  · cases hcreate : createSingleProvider env roleConfig with
    | error e => simp [hcreate, Except.map] at h
    | ok q =>
      obtain rfl : q = p := by simpa [hcreate, Except.map] using h
      exact ⟨roleConfig, hcreate⟩

theorem roleProvider_single_model {env : String → Option String} {role : AgentRole}
    {file : Option String} {p : SingleProvider} (h : roleProvider env role file = .single p) :
    p.model ≠ "" := by
  unfold roleProvider at h
  split at h
  · next provider hconfigured =>
    subst h
    obtain ⟨text, -, hconfigured⟩ := Option.map_eq_some_iff.mp hconfigured
    obtain ⟨entry, hentry⟩ := configuredProvider_single hconfigured
    exact createSingleProvider_model hentry
  · cases h
    exact (by decide : "gemini-2.5-flash" ≠ "")

/-- The name and model that an analyzer reports are those of the member that answered
if its provider reports the member's own, and only then. -/
theorem reportedUsage_iff {env : String → Option String} {role : AgentRole} {file : Option String}
    {p : SingleProvider} (hmem : p ∈ (roleProvider env role file).members) (u : Usage) :
    reportedUsage (roleProvider env role file) u = p.entry u ↔
      ReportsOwn (roleProvider env role file) p := by
  cases hprovider : roleProvider env role file with
  | single q =>
    rw [hprovider] at hmem
    obtain rfl : p = q := by simpa [LLMProvider.members] using hmem
    have hmodel := roleProvider_single_model hprovider
    simp [reportedUsage, SingleProvider.entry, LLMProvider.name, LLMProvider.model, orUndefined, hmodel,
      ReportsOwn]
  | fallback first rest =>
    have hname : first.name = p.name ↔ p.vendor = first.vendor :=
      ⟨fun h => (Vendor.name_injective h).symm, fun h => congrArg Vendor.name h.symm⟩
    have hmodel : "unknown" = p.model ↔ p.model = "unknown" := eq_comm
    simp [reportedUsage, SingleProvider.entry, LLMProvider.name, LLMProvider.model, ReportsOwn, hname,
      hmodel]

end AutoQa.LlmAgents

namespace AutoQa.Orchestrator

open AutoQa.Base AutoQa.LlmAgents AutoQa.Db

/-! ## What is stored -/

/-- The cost in the row that was stored last. -/
def lastCost (db : Db) : Option Cost := db.llmUsages.getLast?.bind LLMUsage.costUsd

/-- The watcher stores `entry` at the price `cost`, if the write goes through. -/
def WatcherStores (entry : UsageEntry) (cost : Cost) : Prop :=
  ∀ (w : WatchWorld) (d : WatchData) (featureId : Id), w.write d.log.length = .ok () →
    lastCost (answer w (.createUsage featureId entry) d).2.db = some cost

/-- So does the runner. -/
def RunnerStores (entry : UsageEntry) (cost : Cost) : Prop :=
  ∀ (w : World) (s : RunState) (run : Id),
    lastCost (perform w (.createUsage .body run .resultAnalyzer 0 entry) s).2.db = some cost

theorem watcherStores (entry : UsageEntry) : WatcherStores entry entry.cost := by
  intro w d featureId hwrite
  simp [answer, written, hwrite, lastCost, WatchData.record, Db.createUsage, diffUsageRow]

theorem runnerStores (entry : UsageEntry) : RunnerStores entry entry.cost := by
  intro w s run
  simp [perform, lastCost, RunState.onDb, Db.createUsage]

/-- Of the member `answerer`, the call has gone on with a response; its usage names that
member, and it is stored at the member's price. -/
def Charged {α : Type} (stores : UsageEntry → Cost → Prop) (answerer : Option SingleProvider)
    (tr : Trace) (outcome : Except String (α × UsageEntry) × Trace) : Prop :=
  ∀ a entry t, outcome = (.ok (a, entry), t) → ∃ p u es, answerer = some p ∧ t = tr ++ es ∧
    Answered p u es ∧ entry = p.entry u ∧
    stores entry (calculateCost p.name p.model u.promptTokens u.completionTokens)

/-- One analyzer: the structured call after the provider was looked up, and the usage that
is made of it. -/
theorem charged_iff {α : Type} (w : World) (role : AgentRole) (file : Option String)
    (messages : List Message) (responseSchema : Json) (schema : Schema α) (tr : Trace)
    {stores : UsageEntry → Cost → Prop} (hstores : ∀ entry, stores entry entry.cost) :
    let provider := roleProvider w.env role file
    let answerer := answering w (structuredInput messages responseSchema schema) schema
      provider.members tr
    Charged stores answerer tr ((do
        let (result, usage) ← generateStructured w provider messages responseSchema schema
          (validateWith schema)
        pure (result, reportedUsage provider usage) : Prog Trace (α × UsageEntry)) tr) ↔
      ∀ p, answerer = some p → ReportsOwn provider p := by
  intro provider answerer
  have hcall := generateStructured_answering w provider messages responseSchema schema tr
  cases hanswerer : answerer with
  | none =>
    rw [show answering w (structuredInput messages responseSchema schema) schema provider.members tr
      = none from hanswerer] at hcall
    obtain ⟨e, t, hrun⟩ := hcall
    rw [Prog.bind_error hrun]
    exact iff_of_true (fun a entry t h => nomatch h) (fun p h => nomatch h)
  | some p =>
    rw [show answering w (structuredInput messages responseSchema schema) schema provider.members tr
      = some p from hanswerer] at hcall
    obtain ⟨a, u, es, hrun, hanswered⟩ := hcall
    have hreported := reportedUsage_iff (answering_mem w _ schema hanswerer) u
    rw [Prog.bind_ok hrun]
    constructor
    · intro hcharged q hq
      obtain rfl := Option.some.inj hq
      obtain ⟨q, v, fs, hq, ht, hlast, hentry, -⟩ := hcharged a _ _ rfl
      obtain rfl := Option.some.inj hq
      obtain rfl : es = fs := List.append_cancel_left ht
      obtain rfl := hanswered.unique hlast
      exact hreported.mp hentry
    · rintro hown a' entry t ⟨⟩
      have hentry := hreported.mpr (hown p rfl)
      refine ⟨p, u, es, rfl, rfl, hanswered, hentry, ?_⟩
      rw [hentry]
      exact hstores (p.entry u)

/-- The provider that `analyzeDiff` gets, and the member of it that answers. -/
def diffProvider (w : World) (tr : Trace) : LLMProvider :=
  roleProvider w.env .diffAnalyzer (w.configFile (elapsed tr))

def diffAnswerer (w : World) (diffText : String) (tr : Trace) : Option SingleProvider :=
  answering w (structuredInput (analyzeDiffMessages diffText) (w.zodToJsonSchema "diffSchema")
    diffAnalyzerSchema) diffAnalyzerSchema (diffProvider w tr).members (tr ++ [.configRead])

/-- The same for `analyzeResults`. -/
def resultProvider (w : World) (tr : Trace) : LLMProvider :=
  roleProvider w.env .resultAnalyzer (w.configFile (elapsed tr))

def resultAnswerer (w : World) (evidence : Evidence) (tr : Trace) : Option SingleProvider :=
  answering w (structuredInput (analyzeMessages evidence) (w.zodToJsonSchema "resultSchema")
    resultAnalyzerSchema) resultAnalyzerSchema (resultProvider w tr).members
    (tr ++ [.analyze evidence, .configRead])

/-- **The analyzers charge the member that answered** exactly when their provider stands
alone, or the member is of the primary's vendor and its model is called `unknown`. -/
theorem analyzers_charge_iff (w : World) (tr : Trace) :
    (∀ diffText,
      Charged WatcherStores (diffAnswerer w diffText tr) (tr ++ [.configRead])
          (analyzeDiff w diffText tr) ↔
        ∀ p, diffAnswerer w diffText tr = some p → ReportsOwn (diffProvider w tr) p) ∧
    ∀ evidence,
      Charged RunnerStores (resultAnswerer w evidence tr) (tr ++ [.analyze evidence, .configRead])
          (analyzeResults w evidence tr) ↔
        ∀ p, resultAnswerer w evidence tr = some p → ReportsOwn (resultProvider w tr) p := by
  refine ⟨fun diffText => ?_, fun evidence => ?_⟩
  · rw [analyzeDiff, Prog.bind_ok (getRoleProvider_apply w .diffAnalyzer tr)]
    exact charged_iff w .diffAnalyzer _ _ _ _ _ watcherStores
  · have hemit : emit (.analyze evidence) tr = (.ok (), tr ++ [.analyze evidence]) := rfl
    have htime : elapsed (tr ++ [Event.analyze evidence]) = elapsed tr := by simp
    rw [analyzeResults, Prog.bind_ok hemit, Prog.bind_ok (getRoleProvider_apply w .resultAnalyzer _),
      htime, List.append_assoc]
    exact charged_iff w .resultAnalyzer _ _ _ _ _ runnerStores

/-- Claude refuses and Gemini answers; the usage names Claude and no model, so what is
stored is the price of nothing. -/
theorem fenced_answer_uncharged :
    (analyzeDiff fencedWorld "+ pay()" []).1.toOption.map Prod.snd = some ⟨"claude", "unknown", 10, 5⟩ ∧
      diffAnswerer fencedWorld "+ pay()" [] = some geminiMember ∧
      UsageEntry.cost ⟨"claude", "unknown", 10, 5⟩ = .usd 0 ∧
      calculateCost geminiMember.name geminiMember.model 10 5 ≠ .usd 0 ∧
      ¬ Charged WatcherStores (diffAnswerer fencedWorld "+ pay()" []) [.configRead]
        (analyzeDiff fencedWorld "+ pay()" []) := by
  have husage : (analyzeDiff fencedWorld "+ pay()" []).1.toOption.map Prod.snd
      = some ⟨"claude", "unknown", 10, 5⟩ := by
    rw [analyzeDiff, Prog.bind_ok (getRoleProvider_apply fencedWorld .diffAnalyzer []),
      fencedWorld_provider _ (.inl rfl)]
    decide +kernel
  have hanswerer : diffAnswerer fencedWorld "+ pay()" [] = some geminiMember := by
    rw [diffAnswerer, diffProvider, fencedWorld_provider _ (.inl rfl)]
    decide +kernel
  refine ⟨husage, hanswerer, by decide +kernel, by decide +kernel, ?_⟩
  intro hcharged
  cases hcall : analyzeDiff fencedWorld "+ pay()" [] with
  | mk r t =>
  rw [hcall] at husage hcharged
  cases r with
  | error e => cases husage
  | ok a =>
    obtain ⟨analysis, entry⟩ := a
    obtain rfl : entry = ⟨"claude", "unknown", 10, 5⟩ := Option.some.inj husage
    obtain ⟨p, u, es, hp, -, -, hentry, -⟩ := hcharged analysis _ t rfl
    obtain rfl : geminiMember = p := Option.some.inj (hanswerer.symm.trans hp)
    have hname : "claude" = geminiMember.name := congrArg UsageEntry.provider hentry
    exact absurd hname (by decide)

end AutoQa.Orchestrator

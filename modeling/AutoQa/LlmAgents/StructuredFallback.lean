import AutoQa.LlmAgents.DiffAnalyzer
import AutoQa.LlmAgents.FeatureClassifier

/-!
# Structured output from a chain

The chain accepts a response by its `validate`, and the agent parses the
accepted text again. Both read the same document, so a chain hands its agent
the document of its first member that has one.
-/

namespace AutoQa.LlmAgents

open AutoQa.Base

/-! ## The document of a response -/

section

variable {α : Type} (schema : Schema α)

/-- A response's text, cleaned, parsed and checked. -/
def Response.document (res : Response) : Option α :=
  res.text.bind fun text => (parseClean schema text).toOption

/-- The empty text, which `validate` refuses by itself, is no document either. -/
theorem parseClean_empty : ∃ e, parseClean schema "" = .error e := ⟨_, rfl⟩

theorem validateWith_cases (res : Response) :
    (∃ a, res.document schema = some a ∧ validateWith schema res = .ok () ∧
        parseText schema res.text = .ok a) ∨
      (res.document schema = none ∧ ∃ e, validateWith schema res = .error e) := by
  cases htext : res.text with
  | none =>
    refine .inr ⟨by simp [Response.document, htext], "No JSON found in response", ?_⟩
    simp [validateWith, htext]
  | some text =>
    simp only [Response.document, validateWith, parseText, htext, Option.bind_some]
    by_cases hempty : text = ""
    · subst hempty
      obtain ⟨e, he⟩ := parseClean_empty schema
      exact .inr ⟨by rw [he]; rfl, _, rfl⟩
    · have hdefined : orUndefined text = some text := by simp [orUndefined, hempty]
      rw [hdefined]
      cases hparse : parseClean schema text with
      | ok a => exact .inl ⟨a, rfl, by simp [hparse, Except.map], rfl⟩
      | error e => exact .inr ⟨rfl, e, by simp [hparse, Except.map]⟩

end

/-! ## The turns of the members -/

section

variable {α : Type} (w : World) (input : GenerateInput) (schema : Schema α)

/-- The document that a member gives when it is asked after `tr`. -/
def documentOf (p : SingleProvider) (tr : Trace) : Option α :=
  match (p.generate w input tr).1 with
  | .ok res => res.document schema
  | .error _ => none

/-- The trace after all of `ps` were asked, in order. -/
def afterTurns : List SingleProvider → Trace → Trace
  | [], tr => tr
  | p :: ps, tr => afterTurns ps (p.generate w input tr).2

/-- None of `ps` gives a document in its turn. -/
def NoDocument (ps : List SingleProvider) (tr : Trace) : Prop :=
  ∀ pre p post, ps = pre ++ p :: post → documentOf w input schema p (afterTurns w input pre tr) = none

/-- Each turn is one request. -/
theorem afterTurns_asked (ps : List SingleProvider) (tr : Trace) :
    ∃ es, afterTurns w input ps tr = tr ++ es ∧ askedMembers es = ps := by
  induction ps generalizing tr with
  | nil => exact ⟨[], by simp [afterTurns], rfl⟩
  | cons p ps ih =>
    obtain ⟨es, hes, hasked⟩ := generate_asked w p input tr
    obtain ⟨fs, hfs, hrest⟩ := ih (p.generate w input tr).2
    refine ⟨es ++ fs, ?_, ?_⟩
    · rw [afterTurns, hfs, hes, List.append_assoc]
    · rw [askedMembers, List.filterMap_append]
      exact congrArg₂ (· ++ ·) hasked hrest

theorem noDocument_nil (tr : Trace) : NoDocument w input schema [] tr := by
  intro pre p post h
  simp at h

theorem noDocument_cons {p : SingleProvider} {ps : List SingleProvider} {tr : Trace} :
    NoDocument w input schema (p :: ps) tr ↔
      documentOf w input schema p tr = none ∧ NoDocument w input schema ps (p.generate w input tr).2 := by
  constructor
  · intro h
    refine ⟨h [] p ps rfl, ?_⟩
    rintro pre q post rfl
    exact h (p :: pre) q post rfl
  · rintro ⟨hp, hps⟩ pre q post hsplit
    cases pre with
    | nil =>
      obtain ⟨rfl, rfl⟩ := List.cons.inj hsplit
      exact hp
    | cons p' pre =>
      obtain ⟨rfl, rfl⟩ := List.cons.inj hsplit
      exact hps pre q post rfl

variable {input}

/-- A member's turn in the chain: accepted with its document, or refused. -/
theorem tryMember_cases (hvalidate : input.validate = some (validateWith schema))
    (p : SingleProvider) (tr : Trace) :
    (∃ res a, documentOf w input schema p tr = some a ∧ parseText schema res.text = .ok a ∧
        tryMember w input p tr = (.ok res, (p.generate w input tr).2)) ∨
      (documentOf w input schema p tr = none ∧
        ∃ e, tryMember w input p tr = (.error e, (p.generate w input tr).2)) := by
  cases hcall : p.generate w input tr with
  | mk r t =>
  simp only [documentOf, tryMember, hcall]
  cases r with
  | error e => exact .inr ⟨rfl, e, Prog.bind_error hcall⟩
  | ok res =>
    rw [Prog.bind_ok hcall]
    simp only [runValidate, hvalidate]
    rcases validateWith_cases schema res with ⟨a, hdoc, hok, hparse⟩ | ⟨hdoc, e, he⟩
    · exact .inl ⟨res, a, hdoc, hparse, by rw [hok]; rfl⟩
    · exact .inr ⟨hdoc, e, by rw [he]; rfl⟩

/-- The chain stops at the first document. -/
theorem tryProviders_cases (hvalidate : input.validate = some (validateWith schema))
    (ps : List SingleProvider) : ∀ lastError tr,
    (∃ pre p post res a, ps = pre ++ p :: post ∧ NoDocument w input schema pre tr ∧
        documentOf w input schema p (afterTurns w input pre tr) = some a ∧
        parseText schema res.text = .ok a ∧
        tryProviders w input lastError ps tr = (.ok res, afterTurns w input (pre ++ [p]) tr)) ∨
      (NoDocument w input schema ps tr ∧
        ∃ e, tryProviders w input lastError ps tr = (.error e, afterTurns w input ps tr)) := by
  induction ps with
  | nil => exact fun lastError tr => .inr ⟨noDocument_nil w input schema tr, _, rfl⟩
  | cons p ps ih =>
    intro lastError tr
    rcases tryMember_cases w schema hvalidate p tr with ⟨res, a, hdoc, hparse, htry⟩ | ⟨hdoc, e, htry⟩
    · exact .inl ⟨[], p, ps, res, a, rfl, noDocument_nil w input schema tr, hdoc, hparse,
        Prog.tryCatch_ok htry⟩
    · -- the chain goes on as if the first member were not there
      have hnext : tryProviders w input lastError (p :: ps) tr
          = tryProviders w input e ps (p.generate w input tr).2 := Prog.tryCatch_error htry
      rw [hnext]
      rcases ih e (p.generate w input tr).2 with
        ⟨pre, q, post, res, a, rfl, hpre, hq, hparse, hrun⟩ | ⟨hnone, e', hrun⟩
      · exact .inl ⟨p :: pre, q, post, res, a, rfl,
          (noDocument_cons w input schema).mpr ⟨hdoc, hpre⟩, hq, hparse, hrun⟩
      · exact .inr ⟨(noDocument_cons w input schema).mpr ⟨hdoc, hnone⟩, e', hrun⟩

end

/-! ## The agents -/

/-- What a structured call with the outcome `r` does with the chain `first, rest`,
whose first turn starts after `tr`; `fields` reads the document off a result. -/
structure ExactFallback {α β : Type} (w : World) (input : GenerateInput) (schema : Schema α)
    (first : SingleProvider) (rest : List SingleProvider) (tr : Trace) (fields : β → α)
    (r : Except String β × Trace) : Prop where
  returns_iff : (∃ b, r.1 = .ok b) ↔ ¬ NoDocument w input schema (first :: rest) tr
  /-- The document is the first one, and no member after it is asked. -/
  returns_first : ∀ b, r.1 = .ok b → ∃ pre p post es, first :: rest = pre ++ p :: post ∧
    NoDocument w input schema pre tr ∧
    documentOf w input schema p (afterTurns w input pre tr) = some (fields b) ∧
    r.2 = tr ++ es ∧ askedMembers es = pre ++ [p]
  parses_again : ∀ res t, (LLMProvider.fallback first rest).generate w input tr = (.ok res, t) →
    ∃ a, parseText schema res.text = .ok a
  throws_last : ∀ e, r.1 = .error e → ∃ es, r.2 = tr ++ es ∧ askedMembers es = first :: rest

/-- The argument of `generate` in the structured agents. -/
def structuredInput {α : Type} (messages : List Message) (responseSchema : Json)
    (schema : Schema α) : GenerateInput :=
  { messages, responseSchema := some responseSchema, validate := some (validateWith schema) }

theorem getRoleProvider_apply (w : World) (role : AgentRole) (tr : Trace) :
    getRoleProvider w role tr
      = (.ok (roleProvider w.env role (w.configFile (elapsed tr))), tr ++ [.configRead]) := rfl

/-- The structured agents differ in what they make of the parsed document and the
usage. -/
theorem generateStructured_exact {α β : Type} (w : World) (first : SingleProvider)
    (rest : List SingleProvider) (messages : List Message) (responseSchema : Json)
    (schema : Schema α) (finish : α × Usage → β) (fields : β → α)
    (hfields : ∀ x, fields (finish x) = x.1) (tr : Trace) :
    ExactFallback w (structuredInput messages responseSchema schema) schema first rest tr fields
      ((do
        let x ← generateStructured w (.fallback first rest) messages responseSchema schema
          (validateWith schema)
        pure (finish x)) tr) := by
  have hchain := fallback_generate w first rest
    (show (structuredInput messages responseSchema schema).forceFallback = false from rfl)
  rw [generateStructured, ← structuredInput, hchain]
  have hvalidate : (structuredInput messages responseSchema schema).validate
      = some (validateWith schema) := rfl
  rcases tryProviders_cases w schema hvalidate (first :: rest) "undefined" tr with
    ⟨pre, p, post, res, a, hsplit, hpre, hdoc, hparse, hrun⟩ | ⟨hnone, e, hrun⟩
  · obtain ⟨es, hes, hasked⟩ :=
      afterTurns_asked w (structuredInput messages responseSchema schema) (pre ++ [p]) tr
    have hcall : ((do
        let response ← tryProviders w (structuredInput messages responseSchema schema) "undefined"
          (first :: rest)
        let result ← Prog.ofExcept (parseText schema response.text)
        pure (result, response.usage)) >>= fun x => pure (finish x) : Prog Trace β) tr
        = (.ok (finish (a, res.usage)), tr ++ es) := by
      rw [← hes]
      simp only [Prog.bind_apply, hrun, hparse, Prog.ofExcept_apply, Prog.pure_apply]
    rw [hcall]
    refine ⟨?_, ?_, ?_, ?_⟩
    · simp only [Except.ok.injEq, exists_eq', true_iff]
      intro hnone
      rw [hnone pre p post hsplit] at hdoc
      cases hdoc
    · rintro b ⟨⟩
      exact ⟨pre, p, post, es, hsplit, hpre, by rw [hfields]; exact hdoc, rfl, hasked⟩
    · intro res' t h
      rw [hchain, hrun] at h
      cases h
      exact ⟨a, hparse⟩
    · rintro e ⟨⟩
  · obtain ⟨es, hes, hasked⟩ :=
      afterTurns_asked w (structuredInput messages responseSchema schema) (first :: rest) tr
    rw [hes] at hrun
    rw [Prog.bind_error (Prog.bind_error hrun)]
    refine ⟨?_, ?_, ?_, ?_⟩
    · simp [hnone]
    · rintro b ⟨⟩
    · intro res t h
      rw [hchain, hrun] at h
      cases h
    · rintro e' ⟨⟩
      exact ⟨es, rfl, hasked⟩

/-- **Structured output from a chain is exact**, in each of the three agents. -/
theorem structured_fallback_exact (w : World) (first : SingleProvider)
    (rest : List SingleProvider) (tr : Trace) :
    (∀ diffText, roleProvider w.env .diffAnalyzer (w.configFile (elapsed tr)) = .fallback first rest →
      ExactFallback w (structuredInput (analyzeDiffMessages diffText)
          (w.zodToJsonSchema "diffSchema") diffAnalyzerSchema) diffAnalyzerSchema first rest
        (tr ++ [.configRead]) Prod.fst (analyzeDiff w diffText tr)) ∧
    (∀ evidence, roleProvider w.env .resultAnalyzer (w.configFile (elapsed tr))
        = .fallback first rest →
      ExactFallback w (structuredInput (analyzeMessages evidence)
          (w.zodToJsonSchema "resultSchema") resultAnalyzerSchema) resultAnalyzerSchema first rest
        (tr ++ [.analyze evidence, .configRead]) Prod.fst (analyzeResults w evidence tr)) ∧
    ∀ page, ExactFallback w (structuredInput (classifyMessages page)
        (namedJsonSchema w "FeatureClassifierSchema") featureClassifierSchema)
      featureClassifierSchema first rest tr Prod.fst
      (classifyFeatures w page (.fallback first rest) tr) := by
  refine ⟨?_, ?_, ?_⟩
  · intro diffText hrole
    have hcall := generateStructured_exact w first rest (analyzeDiffMessages diffText)
      (w.zodToJsonSchema "diffSchema") diffAnalyzerSchema
      (fun x => (x.1, reportedUsage (.fallback first rest) x.2)) Prod.fst (fun _ => rfl)
      (tr ++ [.configRead])
    rwa [analyzeDiff, Prog.bind_ok (getRoleProvider_apply w .diffAnalyzer tr), hrole]
  · intro evidence hrole
    have hcall := generateStructured_exact w first rest (analyzeMessages evidence)
      (w.zodToJsonSchema "resultSchema") resultAnalyzerSchema
      (fun x => (x.1, reportedUsage (.fallback first rest) x.2)) Prod.fst (fun _ => rfl)
      (tr ++ [.analyze evidence, .configRead])
    have hemit : emit (.analyze evidence) tr = (.ok (), tr ++ [.analyze evidence]) := rfl
    have htime : elapsed (tr ++ [Event.analyze evidence]) = elapsed tr := by simp
    rwa [analyzeResults, Prog.bind_ok hemit,
      Prog.bind_ok (getRoleProvider_apply w .resultAnalyzer _), htime, hrole, List.append_assoc]
  · intro page
    exact generateStructured_exact w first rest (classifyMessages page) _ featureClassifierSchema
      (fun x => (x.1, [x.2])) Prod.fst (fun _ => rfl) tr

def claudeMember : SingleProvider := .newClaude (fun _ => none) none none

def geminiMember : SingleProvider := .newGemini (fun _ => none) none none

/-- Every role is served by Claude, which refuses, and then by Gemini, which
answers with the document of the diff analyzer in a fence. -/
def fencedWorld : World :=
  { World.calm with
    configFile := fun _ =>
      let chain := Json.arr [.obj [("provider", .str "claude")], .obj [("provider", .str "gemini")]]
      some ((Json.obj [("llm", .obj [("diffAnalyzer", chain), ("resultAnalyzer", chain)])]).stringify 0)
    gemini := fun _ _ =>
      let document := Json.obj [("featureName", .str "Checkout"), ("description", .str "Pay")]
      .ok ⟨some ("```json\n" ++ document.stringify 0 ++ "\n```"), none, some 10, some 5⟩ }

theorem fencedWorld_provider (role : AgentRole) (h : role = .diffAnalyzer ∨ role = .resultAnalyzer)
    (n : Nat) :
    roleProvider fencedWorld.env role (fencedWorld.configFile n)
      = .fallback claudeMember [geminiMember] := by
  rw [roleProvider, fencedWorld, Option.map_some, configuredProvider, Json.parse_stringify]
  rcases h with rfl | rfl <;> rfl

/-- The chain of the calm world's variant hands on Gemini's document. -/
theorem fencedWorld_exact :
    ExactFallback fencedWorld (structuredInput (analyzeDiffMessages "+ pay()")
        (fencedWorld.zodToJsonSchema "diffSchema") diffAnalyzerSchema) diffAnalyzerSchema
      claudeMember [geminiMember] [.configRead] Prod.fst (analyzeDiff fencedWorld "+ pay()" []) ∧
    ExactFallback fencedWorld (structuredInput (analyzeMessages ⟨"", "", none⟩)
        (fencedWorld.zodToJsonSchema "resultSchema") resultAnalyzerSchema) resultAnalyzerSchema
      claudeMember [geminiMember] [.analyze ⟨"", "", none⟩, .configRead] Prod.fst
      (analyzeResults fencedWorld ⟨"", "", none⟩ []) ∧
    (analyzeDiff fencedWorld "+ pay()" []).1.toOption.map Prod.fst = some ⟨"Checkout", "Pay"⟩ := by
  have hexact := structured_fallback_exact fencedWorld claudeMember [geminiMember] []
  exact ⟨hexact.1 _ (fencedWorld_provider _ (.inl rfl) _),
    hexact.2.1 _ (fencedWorld_provider _ (.inr rfl) _), by decide +kernel⟩

end AutoQa.LlmAgents

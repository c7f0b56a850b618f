import AutoQa.LlmAgents.Moves
import AutoQa.LlmAgents.Accounting

/-!
# The guardrail before an audit

`executeFeatureAudit` starts the agent behind `isElementSafe`. Everything the
guardrail cannot decide ends the audit of the feature: a refusal skips it, an
unreadable configuration throws. The form rule never fires, because the audit
hands the guardrail neither a form id nor a form action.
-/

namespace AutoQa.LlmAgents

open AutoQa.Base AutoQa.Base.Text

/-! ## The audit as guardrail and agent run -/

/-- What the audit hands to the guardrail. -/
def auditElement (feature : AuditFeature) : Element :=
  { text := feature.name, selector := feature.selector.bind orUndefined }

/-- `feature.pageUrl || url`. -/
def auditUrl (feature : AuditFeature) (url : String) : String :=
  (orElse feature.pageUrl (some url)).getD ""

/-- The three ways of an audit: the guardrail throws, refuses, or lets the agent run. -/
theorem executeFeatureAudit_cases (w : World) (testRunId : String) (feature : AuditFeature)
    (url : String) (provider? : Option LLMProvider) (tr : Trace) :
    (∃ e t, isElementSafe w (auditElement feature) (chosenTrace provider? tr) = (.error e, t) ∧
        executeFeatureAudit w testRunId feature url provider? tr = (.error e, t)) ∨
      (∃ check t, isElementSafe w (auditElement feature) (chosenTrace provider? tr) = (.ok check, t) ∧
        check.isSafe = false ∧
        executeFeatureAudit w testRunId feature url provider? tr = (.ok (.skipped check.reason), t)) ∨
      ∃ check t, isElementSafe w (auditElement feature) (chosenTrace provider? tr) = (.ok check, t) ∧
        check.isSafe = true ∧ executeFeatureAudit w testRunId feature url provider? tr
          = (((executeTestAutonomous w testRunId (auditInstruction feature) (auditUrl feature url)
                (some (chosenProvider w provider? tr)) t).1.map .verified),
              (executeTestAutonomous w testRunId (auditInstruction feature) (auditUrl feature url)
                (some (chosenProvider w provider? tr)) t).2) := by
  have hchosen : executeFeatureAudit w testRunId feature url provider? tr = (do
      let safeCheck ← isElementSafe w (auditElement feature)
      if safeCheck.isSafe then do
        let result ← executeTestAutonomous w testRunId (auditInstruction feature)
          (auditUrl feature url) (some (chosenProvider w provider? tr))
        pure (.verified result)
      else pure (.skipped safeCheck.reason) : Prog Trace FeatureResult) (chosenTrace provider? tr) := by
    cases provider? <;> rfl
  rw [hchosen]
  cases hguard : isElementSafe w (auditElement feature) (chosenTrace provider? tr) with
  | mk r t =>
  cases r with
  | error e => exact .inl ⟨e, t, rfl, Prog.bind_error hguard⟩
  | ok check =>
    cases hsafe : check.isSafe with
    | false =>
      refine .inr (.inl ⟨check, t, rfl, hsafe, ?_⟩)
      rw [Prog.bind_ok hguard, hsafe]
      rfl
    | true =>
      refine .inr (.inr ⟨check, t, rfl, hsafe, ?_⟩)
      rw [Prog.bind_ok hguard, hsafe, if_pos rfl, Prog.bind_apply]
      generalize executeTestAutonomous w testRunId (auditInstruction feature) (auditUrl feature url)
        (some (chosenProvider w provider? tr)) t = result
      obtain ⟨r, u⟩ := result
      cases r <;> rfl

/-! ## The configuration -/

/-- `audit[key]`. -/
def auditEntry (file : Option String) (key : String) : Option Json :=
  ((file.bind Json.parse).bind (Json.member "audit")).bind (Json.member key)

theorem auditEntry_some {text : String} {v : Json} (h : Json.parse text = some v) (key : String) :
    auditEntry (some text) key = (v.member "audit").bind (Json.member key) := by
  simp only [auditEntry, Option.bind_some, h]

/-- The strings of the list `audit[key]`. -/
def auditList (file : Option String) (key : String) : List String :=
  match auditEntry file key with
  | some (.arr items) => items.filterMap Json.string?
  | _ => []

/-- The file is absent, or not JSON, or `null`, or an object; the block lists under
`audit`, where there are any, are lists of strings. -/
def ListsOfStrings (file : Option String) : Prop :=
  (∀ v, file.bind Json.parse = some v → v = .null ∨ ∃ fields, v = .obj fields) ∧
    ∀ key ∈ ["avoidText", "avoidSelectors", "neverSubmitForms"],
      auditEntry file key = none ∨
        ∃ entries : List String, auditEntry file key = some (.arr (entries.map .str))

/-- The file is absent or parses to an object. -/
def Readable (file : Option String) : Prop :=
  file = none ∨ ∃ fields, file.bind Json.parse = some (.obj fields)

theorem member_of_falsy {v : Json} (h : v.truthy = false) (key : String) : v.member key = none := by
  cases v <;> first | rfl | cases h

theorem auditConfig_readable {file : Option String} (h : Readable file) :
    ∃ config, auditConfig file = .ok config ∧ ∀ key, config.member key = auditEntry file key := by
  rcases h with rfl | ⟨fields, hparse⟩
  · exact ⟨.obj [], rfl, fun _ => rfl⟩
  · cases file with
    | none => cases hparse
    | some text =>
      have hparse' : Json.parse text = some (.obj fields) := hparse
      simp only [auditConfig, auditEntry, hparse', Option.bind_some, readField, Except.map]
      cases haudit : (Json.obj fields).member "audit" with
      | none => exact ⟨_, rfl, fun _ => rfl⟩
      | some audit =>
        refine ⟨_, rfl, ?_⟩
        intro key
        show Json.member key (if audit.truthy then audit else .obj []) = audit.member key
        cases htruthy : audit.truthy with
        | true => rfl
        | false => exact (member_of_falsy htruthy key).symm

theorem auditConfig_unreadable {file : Option String} (hlists : ListsOfStrings file)
    (h : ¬ Readable file) : ∃ e, auditConfig file = .error e := by
  cases file with
  | none => exact absurd (.inl rfl) h
  | some text =>
    cases hparse : Json.parse text with
    | none =>
      simp only [auditConfig, hparse]
      exact ⟨_, rfl⟩
    | some v =>
      rcases hlists.1 v hparse with rfl | ⟨fields, rfl⟩
      · simp only [auditConfig, hparse, readField, Except.map]
        exact ⟨_, rfl⟩
      · exact absurd (.inr ⟨fields, hparse⟩) h

theorem lowerAll_strings (w : World) (entries : List String) :
    lowerAll w (.arr (entries.map .str)) = .ok (entries.map w.toLowerCase) := by
  simp only [lowerAll]
  induction entries with
  | nil => rfl
  | cons entry entries ih =>
    rw [List.map_cons, List.mapM_cons, ih]
    rfl

theorem filterMap_string (entries : List String) :
    (entries.map Json.str).filterMap Json.string? = entries := by
  simp [List.filterMap_map, Function.comp_def, Json.string?]

/-- `config[key] || []`, for a list of strings or nothing. -/
theorem listOf_auditList {file : Option String} {config : Json} {key : String}
    (hconfig : config.member key = auditEntry file key)
    (h : auditEntry file key = none ∨
      ∃ entries : List String, auditEntry file key = some (.arr (entries.map .str))) :
    listOf config key = .arr ((auditList file key).map .str) := by
  rcases h with h | ⟨entries, h⟩
  · simp [listOf, hconfig, auditList, h]
  · simp only [listOf, hconfig, auditList, h, Json.truthy, filterMap_string, if_true]

theorem blockLists_readable (w : World) {file : Option String} (hlists : ListsOfStrings file)
    (h : Readable file) : blockLists w file = .ok
      { avoidText := (auditList file "avoidText").map w.toLowerCase
        avoidSelectors := .ok (auditList file "avoidSelectors")
        neverSubmitForms := (auditList file "neverSubmitForms").map w.toLowerCase } := by
  obtain ⟨config, hconfig, hmember⟩ := auditConfig_readable h
  have hlist : ∀ key ∈ ["avoidText", "avoidSelectors", "neverSubmitForms"],
      listOf config key = .arr ((auditList file key).map .str) :=
    fun key hkey => listOf_auditList (hmember key) (hlists.2 key hkey)
  have hselectors : iterated (.arr ((auditList file "avoidSelectors").map .str))
      = .ok (auditList file "avoidSelectors") := by
    simp [iterated, Function.comp_def, Json.toText]
  have hread : blockLists w file = (do
      let avoidText ← lowerAll w (listOf config "avoidText")
      let neverSubmitForms ← lowerAll w (listOf config "neverSubmitForms")
      pure { avoidText, avoidSelectors := iterated (listOf config "avoidSelectors"),
             neverSubmitForms }) := by
    rw [blockLists, hconfig]
    rfl
  rw [hread, hlist "avoidText" (by simp), hlist "avoidSelectors" (by simp),
    hlist "neverSubmitForms" (by simp), hselectors, lowerAll_strings, lowerAll_strings]
  rfl

/-! ## The block lists -/

theorem matchReason_eq_none (list text : String) (entries : List String) :
    matchReason list text entries = none ↔ ∀ entry ∈ entries, includes text entry = false := by
  simp [matchReason]

/-- No entry of `avoidText` is in the feature's name, and none of `avoidSelectors` in
its selector. -/
def Unlisted (w : World) (file : Option String) (feature : AuditFeature) : Prop :=
  (∀ entry ∈ auditList file "avoidText",
    includes (w.toLowerCase feature.name) (w.toLowerCase entry) = false) ∧
  ∀ selector, feature.selector.bind orUndefined = some selector →
    ∀ entry ∈ auditList file "avoidSelectors", includes selector entry = false

theorem orUndefined_twice (s : Option String) :
    (s.bind orUndefined).bind orUndefined = s.bind orUndefined := by
  cases s with
  | none => rfl
  | some s => by_cases hempty : s = "" <;> simp [orUndefined, hempty]

/-- Without a form id and a form action, `neverSubmitForms` is not looked at. -/
theorem blocked_audit (w : World) {file : Option String} {lists : BlockLists}
    (htext : lists.avoidText = (auditList file "avoidText").map w.toLowerCase)
    (hselectors : lists.avoidSelectors = .ok (auditList file "avoidSelectors"))
    (feature : AuditFeature) :
    (Unlisted w file feature ∧ blocked w lists (auditElement feature) = .ok none) ∨
      (¬ Unlisted w file feature ∧
        ∃ reason, blocked w lists (auditElement feature) = .ok (some reason)) := by
  have hname : matchReason "avoidText" (w.toLowerCase (auditElement feature).text) lists.avoidText
      = none ↔ ∀ entry ∈ auditList file "avoidText",
        includes (w.toLowerCase feature.name) (w.toLowerCase entry) = false := by
    rw [matchReason_eq_none, htext]
    simp [auditElement]
  cases hmatch : matchReason "avoidText" (w.toLowerCase (auditElement feature).text)
      lists.avoidText with
  | some reason =>
    refine .inr ⟨fun h => ?_, reason, by simp only [blocked, hmatch]⟩
    rw [hname.mpr h.1] at hmatch
    cases hmatch
  | none =>
    have hform : formText w (auditElement feature) = none := rfl
    have hselector : (auditElement feature).selector.bind orUndefined
        = feature.selector.bind orUndefined := orUndefined_twice feature.selector
    simp only [blocked, hmatch, blockedSelector, hselector, hform, Option.bind_none]
    have hunlisted : Unlisted w file feature ↔ ∀ selector,
        feature.selector.bind orUndefined = some selector →
          ∀ entry ∈ auditList file "avoidSelectors", includes selector entry = false :=
      and_iff_right (hname.mp hmatch)
    rw [hunlisted]
    cases feature.selector.bind orUndefined with
    | none => exact .inl ⟨nofun, rfl⟩
    | some selector =>
      have hnone := matchReason_eq_none "avoidSelector" selector (auditList file "avoidSelectors")
      simp only [hselectors, Except.map, Option.some.injEq, forall_eq']
      rw [← hnone]
      cases matchReason "avoidSelector" selector (auditList file "avoidSelectors") with
      | none => exact .inl ⟨rfl, rfl⟩
      | some reason => exact .inr ⟨nofun, reason, rfl⟩

/-! ## The provider's judgment -/

def destructiveInput (w : World) (element : Element) : GenerateInput :=
  { messages := guardrailMessages element
    responseSchema := some (namedJsonSchema w "DestructiveCheck")
    validate := some fun res => (parseText destructiveSchema res.text).map fun _ => () }

/-- The classifier's provider is asked after `tr`. -/
def classifierCall (w : World) (element : Element) (tr : Trace) : Except String Response × Trace :=
  (roleProvider w.env .featureClassifier (w.configFile (elapsed tr))).generate w
    (destructiveInput w element) (tr ++ [.configRead])

/-- The text, without its fences, is an object with a string `reason` and
`isDestructive` false. -/
def Harmless (text : String) : Prop :=
  ∃ fields reason, Json.parse (cleanAnalysis text) = some (.obj fields) ∧
    (Json.obj fields).member "isDestructive" = some (.bool false) ∧
    (Json.obj fields).member "reason" = some (.str reason)

/-- The classifier responds, and says that the element is harmless. -/
def JudgedHarmless (w : World) (element : Element) (tr : Trace) : Prop :=
  ∃ response t text, classifierCall w element tr = (.ok response, t) ∧
    response.text = some text ∧ Harmless text

theorem field_eq_ok {α : Type} {v : Json} {key : String} {schema : Schema α} {a : α} :
    Schema.field v key schema = .ok a ↔
      ∃ fields x, v = .obj fields ∧ v.member key = some x ∧ schema x = .ok a := by
  cases v with
  | obj fields =>
    simp only [Schema.field]
    cases hmember : (Json.obj fields).member key with
    | none => simp
    | some x => simp
  | _ => simp [Schema.field]

theorem string_eq_ok {v : Json} {s : String} : Schema.string v = .ok s ↔ v = .str s := by
  cases v <;> simp [Schema.string]

theorem boolean_eq_ok {v : Json} {b : Bool} : Schema.boolean v = .ok b ↔ v = .bool b := by
  cases v <;> simp [Schema.boolean]

theorem destructiveSchema_eq_ok {v : Json} {isDestructive : Bool} {reason : String} :
    destructiveSchema v = .ok ⟨isDestructive, reason⟩ ↔ ∃ fields, v = .obj fields ∧
      v.member "isDestructive" = some (.bool isDestructive) ∧
      v.member "reason" = some (.str reason) := by
  have hbind : destructiveSchema v = .ok ⟨isDestructive, reason⟩ ↔
      Schema.field v "isDestructive" .boolean = .ok isDestructive ∧
        Schema.field v "reason" .string = .ok reason := by
    simp only [destructiveSchema]
    cases Schema.field v "isDestructive" .boolean with
    | error e => simp [Bind.bind, Except.bind]
    | ok b =>
      cases Schema.field v "reason" .string with
      | error e => simp [Bind.bind, Except.bind]
      | ok r => simp [Bind.bind, Except.bind, Pure.pure, Except.pure]
  rw [hbind, field_eq_ok, field_eq_ok]
  constructor
  · rintro ⟨⟨fields, x, rfl, hx, hb⟩, -, y, -, hy, hs⟩
    rw [boolean_eq_ok.mp hb] at hx
    rw [string_eq_ok.mp hs] at hy
    exact ⟨fields, rfl, hx, hy⟩
  · rintro ⟨fields, rfl, hx, hy⟩
    exact ⟨⟨fields, _, rfl, hx, boolean_eq_ok.mpr rfl⟩, fields, _, rfl, hy, string_eq_ok.mpr rfl⟩

theorem parseClean_eq_ok {α : Type} {schema : Schema α} {text : String} {a : α} :
    parseClean schema text = .ok a ↔
      ∃ v, Json.parse (cleanAnalysis text) = some v ∧ schema v = .ok a := by
  unfold parseClean
  generalize Json.parse (cleanAnalysis text) = document
  cases document with
  | none => exact iff_of_false nofun nofun
  | some v => simp

theorem parseText_eq_ok {α : Type} {schema : Schema α} {text : Option String} {a : α} :
    parseText schema text = .ok a ↔ ∃ t, text = some t ∧ parseClean schema t = .ok a := by
  cases text with
  | none => exact iff_of_false nofun (fun ⟨_, h, _⟩ => nomatch h)
  | some t => simp [parseText]

theorem parseText_harmless (text : Option String) :
    (∃ reason, parseText destructiveSchema text = .ok ⟨false, reason⟩) ↔
      ∃ t, text = some t ∧ Harmless t := by
  simp only [parseText_eq_ok, parseClean_eq_ok, destructiveSchema_eq_ok, Harmless]
  constructor
  · rintro ⟨reason, t, rfl, v, hparse, fields, rfl, hb, hr⟩
    exact ⟨t, rfl, fields, reason, hparse, hb, hr⟩
  · rintro ⟨t, rfl, fields, reason, hparse, hb, hr⟩
    exact ⟨reason, t, rfl, _, hparse, fields, rfl, hb, hr⟩

/-- The judgment lets the element through exactly when it is harmless. -/
theorem llmCheck_cases (w : World) (element : Element) (tr : Trace) :
    (JudgedHarmless w element tr ∧
        llmCheck w element tr = (.ok { isSafe := true }, (classifierCall w element tr).2)) ∨
      (¬ JudgedHarmless w element tr ∧ ((∃ e t, llmCheck w element tr = (.error e, t)) ∨
        ∃ reason t, llmCheck w element tr = (.ok (.refuse reason), t))) := by
  have hrole : getRoleProvider w .featureClassifier tr
      = (.ok (roleProvider w.env .featureClassifier (w.configFile (elapsed tr))), tr ++ [.configRead]) :=
    rfl
  rw [llmCheck, Prog.bind_ok hrole]
  cases hcall : classifierCall w element tr with
  | mk r t =>
  cases r with
  | error e =>
    refine .inr ⟨?_, .inl ⟨e, t, Prog.bind_error (Prog.bind_error hcall)⟩⟩
    rintro ⟨response, t', text, hok, -⟩
    cases hcall.symm.trans hok
  | ok response =>
    have hjudged : JudgedHarmless w element tr ↔
        ∃ reason, parseText destructiveSchema response.text = .ok ⟨false, reason⟩ := by
      rw [parseText_harmless]
      constructor
      · rintro ⟨response', t', text, hok, htext, hharmless⟩
        cases hcall.symm.trans hok
        exact ⟨text, htext, hharmless⟩
      · rintro ⟨text, htext, hharmless⟩
        exact ⟨response, t, text, hcall, htext, hharmless⟩
    rw [hjudged]
    have hcall' : (roleProvider w.env .featureClassifier (w.configFile (elapsed tr))).generate w
        (destructiveInput w element) (tr ++ [.configRead]) = (.ok response, t) := hcall
    have hread : generateStructured w (roleProvider w.env .featureClassifier (w.configFile (elapsed tr)))
        (guardrailMessages element) (namedJsonSchema w "DestructiveCheck") destructiveSchema
        (fun res => (parseText destructiveSchema res.text).map fun _ => ()) (tr ++ [.configRead])
          = ((parseText destructiveSchema response.text).map fun result => (result, response.usage), t) := by
      rw [generateStructured, ← destructiveInput, Prog.bind_ok hcall', Prog.bind_apply]
      cases parseText destructiveSchema response.text <;> rfl
    cases hparse : parseText destructiveSchema response.text with
    | error e =>
      rw [hparse] at hread
      exact .inr ⟨nofun, .inl ⟨e, t, Prog.bind_error hread⟩⟩
    | ok result =>
      rw [hparse] at hread
      rw [Prog.bind_ok hread]
      obtain ⟨isDestructive, reason⟩ := result
      cases isDestructive with
      | false => exact .inl ⟨⟨reason, rfl⟩, rfl⟩
      | true => exact .inr ⟨by simp, .inr ⟨_, t, rfl⟩⟩

/-! ## What the guardrail lets through -/

/-- The feature's name holds a risk keyword. -/
def Risky (w : World) (feature : AuditFeature) : Prop :=
  ∃ k ∈ riskKeywords, includes (w.toLowerCase feature.name) k = true

/-- The feature is on no list, and is no risk or was judged to be none. -/
def Cleared (w : World) (feature : AuditFeature) (tr : Trace) : Prop :=
  Unlisted w (w.configFile (elapsed tr)) feature ∧
    (¬ Risky w feature ∨ JudgedHarmless w (auditElement feature) (tr ++ [.configRead]))

/-- The block lists have been read, and this is what they say. -/
def Listed (w : World) (feature : AuditFeature) (tr : Trace) (reason : Option String) : Prop :=
  ∃ lists, blockLists w (w.configFile (elapsed tr)) = .ok lists ∧
    blocked w lists (auditElement feature) = .ok reason

/-- No list blocks the feature, and it is no risk or was judged to be none. For a
configuration whose lists are lists of strings, this is `Cleared`. -/
def Passes (w : World) (feature : AuditFeature) (tr : Trace) : Prop :=
  Listed w feature tr none ∧
    (¬ Risky w feature ∨ JudgedHarmless w (auditElement feature) (tr ++ [.configRead]))

/-- The trace at the verdict of a guardrail that found no match in its lists. -/
def guardTrace (w : World) (feature : AuditFeature) (tr : Trace) : Trace :=
  if riskKeywords.any fun k => includes (w.toLowerCase feature.name) k then
    (classifierCall w (auditElement feature) (tr ++ [.configRead])).2
  else tr ++ [.configRead]

/-- The guardrail lets the feature through, refuses it, or cannot read its lists. -/
theorem isElementSafe_cases (w : World) (feature : AuditFeature) (tr : Trace) :
    (Passes w feature tr ∧ isElementSafe w (auditElement feature) tr
        = (.ok { isSafe := true }, guardTrace w feature tr)) ∨
      (¬ Passes w feature tr ∧
        ∃ reason t, isElementSafe w (auditElement feature) tr = (.ok (.refuse reason), t)) ∨
      ((∀ reason, ¬ Listed w feature tr reason) ∧
        ∃ e t, isElementSafe w (auditElement feature) tr = (.error e, t)) := by
  have hread : readConfig w tr = (.ok (w.configFile (elapsed tr)), tr ++ [.configRead]) := rfl
  have hlift : ∀ {α : Type} (x : Except String α) (t : Trace), Prog.ofExcept x t = (x, t) :=
    fun _ _ => rfl
  have hlisted : ∀ {lists : BlockLists} {reason : Option String},
      blockLists w (w.configFile (elapsed tr)) = .ok lists → Listed w feature tr reason →
      blocked w lists (auditElement feature) = .ok reason := by
    rintro lists reason hlists ⟨lists', hlists', hblocked⟩
    cases hlists.symm.trans hlists'
    exact hblocked
  rw [isElementSafe, Prog.bind_ok hread, Prog.bind_apply, hlift]
  cases hlists : blockLists w (w.configFile (elapsed tr)) with
  | error e =>
    refine .inr (.inr ⟨?_, e, _, rfl⟩)
    rintro reason ⟨lists, hok, -⟩
    cases hlists.symm.trans hok
  | ok lists =>
  dsimp only
  rw [Prog.bind_apply, hlift]
  cases hblocked : blocked w lists (auditElement feature) with
  | error e =>
    refine .inr (.inr ⟨fun reason h => ?_, e, _, rfl⟩)
    cases hblocked.symm.trans (hlisted hlists h)
  | ok match? =>
  cases match? with
  | some reason =>
    refine .inr (.inl ⟨fun h => ?_, reason, _, rfl⟩)
    cases hblocked.symm.trans (hlisted hlists h.1)
  | none =>
    have hnone : Listed w feature tr none := ⟨lists, hlists, hblocked⟩
    have hrisky : (riskKeywords.any fun k =>
        includes (w.toLowerCase (auditElement feature).text) k) = true ↔ Risky w feature :=
      List.any_eq_true
    by_cases hrisk : Risky w feature
    · have hpasses : Passes w feature tr ↔
          JudgedHarmless w (auditElement feature) (tr ++ [.configRead]) := by
        simp [Passes, hnone, hrisk]
      have hguard : guardTrace w feature tr
          = (classifierCall w (auditElement feature) (tr ++ [.configRead])).2 :=
        if_pos (hrisky.mpr hrisk)
      simp only [hrisky.mpr hrisk, if_true]
      rw [hpasses, hguard]
      rcases llmCheck_cases w (auditElement feature) (tr ++ [.configRead]) with
        ⟨hjudged, hcheck⟩ | ⟨hnot, ⟨e, t, hcheck⟩ | ⟨reason, t, hcheck⟩⟩
      · exact .inl ⟨hjudged, Prog.tryCatch_ok hcheck⟩
      · exact .inr (.inl ⟨hnot, _, t, Prog.tryCatch_error hcheck⟩)
      · exact .inr (.inl ⟨hnot, reason, t, Prog.tryCatch_ok hcheck⟩)
    · have hguard : guardTrace w feature tr = tr ++ [.configRead] := if_neg (mt hrisky.mp hrisk)
      rw [hguard]
      simp only [mt hrisky.mp hrisk]
      exact .inl ⟨⟨hnone, .inl hrisk⟩, rfl⟩

section

variable {w : World} {tr : Trace}

theorem isElementSafe_unreadable (hlists : ListsOfStrings (w.configFile (elapsed tr)))
    (h : ¬ Readable (w.configFile (elapsed tr))) (element : Element) :
    ∃ e t, isElementSafe w element tr = (.error e, t) := by
  have hread : readConfig w tr = (.ok (w.configFile (elapsed tr)), tr ++ [.configRead]) := rfl
  obtain ⟨e, he⟩ := auditConfig_unreadable hlists h
  have hblock : blockLists w (w.configFile (elapsed tr)) = .error e := by
    rw [blockLists, he]
    rfl
  refine ⟨e, tr ++ [.configRead], ?_⟩
  rw [isElementSafe, Prog.bind_ok hread, hblock]
  rfl

theorem isElementSafe_readable (hlists : ListsOfStrings (w.configFile (elapsed tr)))
    (h : Readable (w.configFile (elapsed tr))) (feature : AuditFeature) :
    (Cleared w feature tr ∧
        ∃ t, isElementSafe w (auditElement feature) tr = (.ok { isSafe := true }, t)) ∨
      (¬ Cleared w feature tr ∧
        ∃ reason t, isElementSafe w (auditElement feature) tr = (.ok (.refuse reason), t)) := by
  obtain ⟨lists, hread, htext, hselectors⟩ : ∃ lists,
      blockLists w (w.configFile (elapsed tr)) = .ok lists ∧
        lists.avoidText = (auditList (w.configFile (elapsed tr)) "avoidText").map w.toLowerCase ∧
        lists.avoidSelectors = .ok (auditList (w.configFile (elapsed tr)) "avoidSelectors") :=
    ⟨_, blockLists_readable w hlists h, rfl, rfl⟩
  have hnone : Listed w feature tr none ↔ blocked w lists (auditElement feature) = .ok none := by
    simp [Listed, hread]
  have hblocked := blocked_audit w htext hselectors feature
  have hcleared : Passes w feature tr ↔ Cleared w feature tr := by
    refine and_congr_left fun _ => ?_
    rw [hnone]
    rcases hblocked with ⟨hunlisted, heq⟩ | ⟨hlisted, reason, heq⟩
    · exact iff_of_true heq hunlisted
    · exact iff_of_false (by simp [heq]) hlisted
  rw [← hcleared]
  rcases isElementSafe_cases w feature tr with
    ⟨hpasses, hsafe⟩ | ⟨hnot, hrefused⟩ | ⟨hunread, -⟩
  · exact .inl ⟨hpasses, _, hsafe⟩
  · exact .inr ⟨hnot, hrefused⟩
  · rcases hblocked with ⟨-, heq⟩ | ⟨-, reason, heq⟩
    · exact absurd ⟨lists, hread, heq⟩ (hunread none)
    · exact absurd ⟨lists, hread, heq⟩ (hunread (some reason))

end

/-- Neither does the guardrail start the agent, nor does it call a tool. -/
theorem guardrail_events (w : World) (element : Element) (tr : Trace) :
    ∃ es, (isElementSafe w element tr).2 = tr ++ es ∧
      ∀ e ∈ es, e ≠ .mcpConnect ∧ e.isTool = false := by
  obtain ⟨es, hes, hguard⟩ := isElementSafe_emits w element tr
  refine ⟨es, hes, ?_⟩
  intro e he
  rcases hguard e he with rfl | ⟨ps, m, p, -, rfl | ⟨u, rfl, -⟩⟩ <;> exact ⟨nofun, rfl⟩

/-! ## The audit of a feature -/

section

variable {w : World} {feature : AuditFeature} {provider? : Option LLMProvider} {tr : Trace}

/-- Up to the guardrail's verdict, the audit calls no tool and starts no agent. -/
theorem audit_until_verdict {r : Except String GuardrailCheck} {t : Trace}
    (h : isElementSafe w (auditElement feature) (chosenTrace provider? tr) = (r, t)) :
    ∃ es, t = tr ++ es ∧ ∀ e ∈ es, e ≠ .mcpConnect ∧ e.isTool = false := by
  obtain ⟨pre, hpre, hreads⟩ := chosenTrace_append provider? tr
  obtain ⟨es, hes, hguard⟩ := guardrail_events w (auditElement feature) (chosenTrace provider? tr)
  rw [h, hpre] at hes
  refine ⟨pre ++ es, hes.trans (List.append_assoc _ _ _), ?_⟩
  intro e he
  rcases List.mem_append.mp he with he | he
  · rw [hreads e he]
    exact ⟨nofun, rfl⟩
  · exact hguard e he

/-- The guardrail lets the feature through: the agent starts. -/
theorem audit_started {check : GuardrailCheck} {t : Trace}
    (h : isElementSafe w (auditElement feature) (chosenTrace provider? tr) = (.ok check, t))
    (hsafe : check.isSafe = true) (testRunId url : String) :
    Event.mcpConnect ∈ runEvents (executeFeatureAudit w testRunId feature url provider?) tr ∧
      ∀ reason, (executeFeatureAudit w testRunId feature url provider? tr).1
        ≠ .ok (.skipped reason) := by
  rcases executeFeatureAudit_cases w testRunId feature url provider? tr with
    ⟨e, u, hguard, -⟩ | ⟨check', u, hguard, hnot, -⟩ | ⟨check', u, hguard, -, hrun⟩
  · cases hguard.symm.trans h
  · cases hguard.symm.trans h
    cases hnot.symm.trans hsafe
  · cases hguard.symm.trans h
    obtain ⟨es, ht, -⟩ := audit_until_verdict h
    obtain ⟨fs, hfs, gs, rfl⟩ := executeTestAutonomous_connects w testRunId
      (auditInstruction feature) (auditUrl feature url) (chosenProvider w provider? tr) t
    refine ⟨?_, ?_⟩
    · rw [runEvents, hrun, hfs, ht]
      simp
    · intro reason
      rw [hrun]
      cases (executeTestAutonomous w testRunId (auditInstruction feature) (auditUrl feature url)
        (some (chosenProvider w provider? tr)) t).1 with
      | error e => exact fun h => by cases h
      | ok result => exact fun h => by cases h

/-- The guardrail throws or refuses: nothing else happens. -/
theorem audit_stopped {r : Except String GuardrailCheck} {t : Trace}
    (h : isElementSafe w (auditElement feature) (chosenTrace provider? tr) = (r, t))
    (hstop : ∀ check, r = .ok check → check.isSafe = false) (testRunId url : String) :
    (∀ e ∈ runEvents (executeFeatureAudit w testRunId feature url provider?) tr,
        e ≠ .mcpConnect ∧ e.isTool = false) ∧
      (executeFeatureAudit w testRunId feature url provider? tr).1
        = r.map fun check => .skipped check.reason := by
  have hevents : ∀ e ∈ t.drop tr.length, e ≠ .mcpConnect ∧ e.isTool = false := by
    obtain ⟨es, rfl, hes⟩ := audit_until_verdict h
    rw [List.drop_left]
    exact hes
  rcases executeFeatureAudit_cases w testRunId feature url provider? tr with
    ⟨e, u, heq, hrun⟩ | ⟨check, u, heq, -, hrun⟩ | ⟨check, u, heq, hsafe, -⟩
  · cases heq.symm.trans h
    rw [runEvents, hrun]
    exact ⟨hevents, rfl⟩
  · cases heq.symm.trans h
    rw [runEvents, hrun]
    exact ⟨hevents, rfl⟩
  · cases heq.symm.trans h
    cases (hstop check rfl).symm.trans hsafe

end

/-- **The guardrail fails closed.** Exactly the features that a readable
configuration clears reach the agent; no other audit calls a tool, and it skips
the feature or throws. -/
theorem guardrail_fails_closed (w : World) (testRunId : String) (feature : AuditFeature)
    (url : String) (provider : LLMProvider) (tr : Trace)
    (h : ListsOfStrings (w.configFile (elapsed tr))) :
    (Event.mcpConnect ∈ runEvents (executeFeatureAudit w testRunId feature url (some provider)) tr ↔
      Readable (w.configFile (elapsed tr)) ∧ Cleared w feature tr) ∧
    (¬ (Readable (w.configFile (elapsed tr)) ∧ Cleared w feature tr) →
      (∀ e ∈ runEvents (executeFeatureAudit w testRunId feature url (some provider)) tr,
        e.isTool = false) ∧
      ((∃ reason, (executeFeatureAudit w testRunId feature url (some provider) tr).1
          = .ok (.skipped reason)) ∨
        ∃ e, (executeFeatureAudit w testRunId feature url (some provider) tr).1 = .error e)) := by
  have hchosen : chosenTrace (some provider) tr = tr := rfl
  by_cases hreadable : Readable (w.configFile (elapsed tr))
  · rcases isElementSafe_readable h hreadable feature with
      ⟨hcleared, t, hguard⟩ | ⟨hnot, reason, t, hguard⟩
    · rw [← hchosen] at hguard
      have hstarted := (audit_started hguard rfl testRunId url).1
      exact ⟨iff_of_true hstarted ⟨hreadable, hcleared⟩, fun hno => absurd ⟨hreadable, hcleared⟩ hno⟩
    · rw [← hchosen] at hguard
      obtain ⟨hevents, hresult⟩ := audit_stopped hguard (by rintro check ⟨⟩; rfl) testRunId url
      refine ⟨iff_of_false (fun hmem => (hevents _ hmem).1 rfl) (fun hc => hnot hc.2), ?_⟩
      exact fun _ => ⟨fun e he => (hevents e he).2, .inl ⟨_, hresult⟩⟩
  · obtain ⟨e, t, hguard⟩ := isElementSafe_unreadable h hreadable (auditElement feature)
    rw [← hchosen] at hguard
    obtain ⟨hevents, hresult⟩ := audit_stopped hguard nofun testRunId url
    refine ⟨iff_of_false (fun hmem => (hevents _ hmem).1 rfl) (fun hc => hreadable hc.1), ?_⟩
    exact fun _ => ⟨fun e he => (hevents e he).2, .inr ⟨_, hresult⟩⟩

/-- The configuration of a shop: what its audit must leave alone. -/
def shopAudit : Json :=
  .obj [("audit", .obj [("avoidText", .arr [.str "Delete"]), ("avoidSelectors", .arr []),
    ("neverSubmitForms", .arr [.str "payment"])])]

def shopText : String := shopAudit.stringify 0

def shopWorld : World := { World.calm with configFile := fun _ => some shopText }

theorem shop_parse : Json.parse shopText = some shopAudit :=
  Json.parse_stringify shopAudit 0

theorem shop_entries :
    auditEntry (some shopText) "avoidText" = some (.arr (["Delete"].map .str)) ∧
      auditEntry (some shopText) "avoidSelectors" = some (.arr ([].map .str)) ∧
      auditEntry (some shopText) "neverSubmitForms" = some (.arr (["payment"].map .str)) := by
  simp only [auditEntry_some shop_parse]
  exact ⟨rfl, rfl, rfl⟩

theorem shop_lists :
    auditList (some shopText) "avoidText" = ["Delete"] ∧
      auditList (some shopText) "avoidSelectors" = [] ∧
      auditList (some shopText) "neverSubmitForms" = ["payment"] := by
  obtain ⟨htext, hselectors, hforms⟩ := shop_entries
  simp only [auditList, htext, hselectors, hforms, filterMap_string]
  trivial

theorem shop_listsOfStrings : ListsOfStrings (some shopText) := by
  refine ⟨?_, ?_⟩
  · intro v hv
    rw [Option.bind_some, shop_parse] at hv
    exact .inr ⟨_, (Option.some.inj hv).symm⟩
  · obtain ⟨htext, hselectors, hforms⟩ := shop_entries
    intro key hkey
    simp only [List.mem_cons, List.not_mem_nil, or_false] at hkey
    rcases hkey with rfl | rfl | rfl
    · exact .inr ⟨_, htext⟩
    · exact .inr ⟨_, hselectors⟩
    · exact .inr ⟨_, hforms⟩

theorem shop_readable : Readable (some shopText) := by
  have hparse : (some shopText).bind Json.parse = some shopAudit := by
    rw [Option.bind_some, shop_parse]
  exact .inr ⟨_, hparse⟩

theorem shop_config (t : Nat) : shopWorld.configFile t = some shopText := rfl

/-- Gemini under its default model. -/
def shopPlanner : LLMProvider := .single (.newGemini World.calm.env none none)

def deleteAccount : AuditFeature := ⟨"DELETE account", some "#delete", some .button, none⟩

def searchBox : AuditFeature := ⟨"Search box", some "#search", some .button, none⟩

/-- The search box is exercised, the account is not deleted. -/
theorem shop_search_not_delete :
    Event.mcpConnect ∈ runEvents (executeFeatureAudit shopWorld "0" searchBox
        "http://localhost:3000" (some shopPlanner)) [] ∧
      ∀ e ∈ runEvents (executeFeatureAudit shopWorld "0" deleteAccount
        "http://localhost:3000" (some shopPlanner)) [], e.isTool = false := by
  refine ⟨(guardrail_fails_closed shopWorld "0" searchBox "http://localhost:3000" shopPlanner []
    shop_listsOfStrings).1.mpr ⟨shop_readable, ⟨?_, ?_⟩, .inl ?_⟩,
    ((guardrail_fails_closed shopWorld "0" deleteAccount "http://localhost:3000" shopPlanner []
      shop_listsOfStrings).2 ?_).1⟩
  · rw [shop_config, shop_lists.1]
    decide +kernel
  · rw [shop_config, shop_lists.2.1]
    exact fun _ _ _ => nofun
  · show ¬ ∃ k ∈ riskKeywords, _
    decide +kernel
  · rintro ⟨-, ⟨htext, -⟩, -⟩
    rw [shop_config, shop_lists.1] at htext
    exact absurd htext (by decide +kernel)

/-! ## Forbidden forms -/

/-- A form whose selector or name holds an entry of `neverSubmitForms`. -/
def ForbiddenForm (w : World) (file : Option String) (feature : AuditFeature) : Prop :=
  feature.featureType = some .form ∧ ∃ entry ∈ auditList file "neverSubmitForms",
    includes (w.toLowerCase (feature.selector.getD "")) (w.toLowerCase entry) = true ∨
      includes (w.toLowerCase feature.name) (w.toLowerCase entry) = true

theorem ForbiddenForm.readable {w : World} {file : Option String} {feature : AuditFeature}
    (h : ForbiddenForm w file feature) : Readable file := by
  obtain ⟨-, entry, hentry, -⟩ := h
  refine .inr ?_
  cases hparse : file.bind Json.parse with
  | none => simp [auditList, auditEntry, hparse] at hentry
  | some v =>
    cases v with
    | obj fields => exact ⟨fields, rfl⟩
    | _ => simp [auditList, auditEntry, hparse, Json.member] at hentry

/-- **A forbidden form is skipped** exactly when a rule skips it that is not about
forms: a listed text, a listed selector, or a risk that was not judged harmless. -/
theorem forms_skipped_iff (w : World) (testRunId : String) (feature : AuditFeature) (url : String)
    (provider? : Option LLMProvider) (tr : Trace)
    (h : ListsOfStrings (w.configFile (elapsed (chosenTrace provider? tr))))
    (hform : ForbiddenForm w (w.configFile (elapsed (chosenTrace provider? tr))) feature) :
    ((∃ reason, (executeFeatureAudit w testRunId feature url provider? tr).1
        = .ok (.skipped reason)) ∧
      ∀ e ∈ runEvents (executeFeatureAudit w testRunId feature url provider?) tr,
        e.isTool = false) ↔ ¬ Cleared w feature (chosenTrace provider? tr) := by
  rcases isElementSafe_readable h hform.readable feature with
    ⟨hcleared, t, hguard⟩ | ⟨hnot, reason, t, hguard⟩
  · have hstarted := (audit_started hguard rfl testRunId url).2
    exact iff_of_false (fun ⟨⟨reason, hskipped⟩, _⟩ => hstarted reason hskipped) (· hcleared)
  · obtain ⟨hevents, hresult⟩ := audit_stopped hguard (by rintro check ⟨⟩; rfl) testRunId url
    exact iff_of_true ⟨⟨_, hresult⟩, fun e he => (hevents e he).2⟩ hnot

/-- A form to pay with, and one that a listed text keeps from the agent. -/
def cardForm : AuditFeature := ⟨"Card details", some "form#payment", some .form, none⟩

def deletePaymentForm : AuditFeature := ⟨"Delete payment method", some "form#card", some .form, none⟩

theorem cardForm_forbidden : ForbiddenForm shopWorld (some shopText) cardForm := by
  refine ⟨rfl, "payment", ?_, .inl (by decide +kernel)⟩
  rw [shop_lists.2.2]
  exact List.mem_singleton.mpr rfl

theorem deletePaymentForm_forbidden : ForbiddenForm shopWorld (some shopText) deletePaymentForm := by
  refine ⟨rfl, "payment", ?_, .inr (by decide +kernel)⟩
  rw [shop_lists.2.2]
  exact List.mem_singleton.mpr rfl

theorem shop_deletePayment_skipped :
    ∃ reason, (executeFeatureAudit shopWorld "0" deletePaymentForm "http://localhost:3000"
      (some shopPlanner) []).1 = .ok (.skipped reason) := by
  refine ((forms_skipped_iff shopWorld "0" deletePaymentForm "http://localhost:3000"
    (some shopPlanner) [] shop_listsOfStrings deletePaymentForm_forbidden).mpr ?_).1
  rintro ⟨⟨htext, -⟩, -⟩
  rw [shop_config, shop_lists.1] at htext
  exact absurd htext (by decide +kernel)

def FeatureResult.isVerified : FeatureResult → Bool
  | .verified _ => true
  | .skipped _ => false

theorem FeatureResult.eq_verified {outcome : Except String FeatureResult}
    (h : outcome.toOption.any FeatureResult.isVerified = true) :
    ∃ artifacts, outcome = .ok (.verified artifacts) := by
  match outcome, h with
  | .ok (.verified artifacts), _ => exact ⟨artifacts, rfl⟩

/-- The agent works on the card form, although `neverSubmitForms` names its selector. -/
theorem shop_card_exercised :
    ForbiddenForm shopWorld (some shopText) cardForm ∧
      (∃ result, (executeFeatureAudit shopWorld "0" cardForm "http://localhost:3000"
        (some shopPlanner) []).1 = .ok (.verified result)) ∧
      ∃ e ∈ runEvents (executeFeatureAudit shopWorld "0" cardForm "http://localhost:3000"
        (some shopPlanner)) [], e.isTool = true := by
  refine ⟨cardForm_forbidden, ?_, List.any_eq_true.mp (by decide +kernel)⟩
  have hverified : ((executeFeatureAudit shopWorld "0" cardForm "http://localhost:3000"
      (some shopPlanner) []).1.toOption.any FeatureResult.isVerified) = true := by
    decide +kernel
  exact FeatureResult.eq_verified hverified

end AutoQa.LlmAgents

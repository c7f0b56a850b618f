import AutoQa.LlmAgents.Turn
import AutoQa.LlmAgents.ResultAnalyzer
import AutoQa.LlmAgents.FeatureAudit
import AutoQa.LlmAgents.Cost
import Mathlib.Algebra.BigOperators.Group.List.Basic
import Mathlib.Algebra.Group.Prod

/-!
# Where the tokens go

A vendor's response is paid for when it arrives. The agent loop counts the
response that it goes on with, one per turn, and hands the counts to its caller
when it returns. Everything else is lost to the caller: the responses that a
fallback chain discarded inside a turn, all responses of a run that throws, and
those of the guardrail.
-/

namespace AutoQa.LlmAgents

open AutoQa.Base

/-! ## Overtaken responses -/

/-- Another response arrives before the agent's next turn, which starts by
reading the configuration. -/
def answeredLater : Trace → Bool
  | [] => false
  | .configRead :: _ => false
  | .received _ :: _ => true
  | _ :: es => answeredLater es

/-- The responses of a trace, each with whether a later one overtook it. -/
def fates : Trace → List (Bool × Usage)
  | [] => []
  | .received u :: es => (answeredLater es, u) :: fates es
  | _ :: es => fates es

/-- The responses that the agent did not go on with. -/
def overtaken (es : Trace) : List Usage := ((fates es).filter (·.1)).map Prod.snd

/-- The last response of each turn. -/
def kept (es : Trace) : List Usage := ((fates es).filter (!·.1)).map Prod.snd

theorem fates_received (es : Trace) : (fates es).map Prod.snd = receivedUsages es := by
  induction es with
  | nil => rfl
  | cons e es ih => cases e <;> simp [fates, receivedUsages] at ih ⊢ <;> exact ih

theorem answeredLater_append {es fs : Trace} (h : answeredLater fs = false) :
    answeredLater (es ++ fs) = answeredLater es := by
  induction es with
  | nil => simpa [answeredLater] using h
  | cons e es ih => cases e <;> simp [answeredLater, ih]

/-- Splitting a trace where a turn ends. -/
theorem fates_append {es fs : Trace} (h : answeredLater fs = false) :
    fates (es ++ fs) = fates es ++ fates fs := by
  induction es with
  | nil => rfl
  | cons e es ih => cases e <;> simp [fates, ih, answeredLater_append h]

theorem answeredLater_of_silent {es : Trace} (h : receivedUsages es = []) :
    answeredLater es = false := by
  induction es with
  | nil => rfl
  | cons e es ih =>
    cases e <;> simp [receivedUsages] at h <;>
      first | rfl | exact ih (List.filterMap_eq_nil_iff.mpr h)

theorem fates_of_silent {es : Trace} (h : receivedUsages es = []) : fates es = [] := by
  rw [← fates_received] at h
  exact List.map_eq_nil_iff.mp h

theorem fates_silent_append {es fs : Trace} (h : receivedUsages es = []) :
    fates (es ++ fs) = fates fs := by
  induction es with
  | nil => rfl
  | cons e es ih =>
    cases e <;> simp [receivedUsages] at h <;>
      simpa [fates] using ih (List.filterMap_eq_nil_iff.mpr h)

/-- Inside one turn every response but the last is overtaken. -/
theorem fates_turn {body : Trace} (hbody : Event.configRead ∉ body) {lost : List Usage} {u : Usage}
    (h : receivedUsages body = lost ++ [u]) :
    fates body = lost.map (true, ·) ++ [(false, u)] := by
  -- inside a turn nothing cuts a later response off
  have hlater : ∀ {es : Trace}, Event.configRead ∉ es →
      answeredLater es = !(receivedUsages es).isEmpty := by
    intro es
    induction es with
    | nil => intro _; rfl
    | cons e es ih =>
      intro hes
      have hes' : Event.configRead ∉ es := fun hm => hes (List.mem_cons_of_mem e hm)
      cases e <;> first | exact absurd (List.mem_cons_self) hes | rfl | exact ih hes'
  induction body generalizing lost with
  | nil => simp [receivedUsages] at h
  | cons e es ih =>
    have hes' : Event.configRead ∉ es := fun hm => hbody (List.mem_cons_of_mem e hm)
    cases e with
    | received v =>
      have h' : v :: receivedUsages es = lost ++ [u] := h
      cases lost with
      | nil =>
        obtain ⟨rfl, hnil⟩ := List.cons_eq_cons.mp h'
        simp [fates, hlater hes', hnil, fates_of_silent hnil]
      | cons l lost =>
        obtain ⟨rfl, hrest⟩ := List.cons_eq_cons.mp h'
        simp [fates, hlater hes', hrest, ih hes' hrest]
    | _ => exact ih hes' h

/-- A sum over all responses, split by their fate. -/
theorem sum_received {M : Type} [AddCommMonoid M] (es : Trace) (f : Usage → M) :
    ((receivedUsages es).map f).sum = ((kept es).map f).sum + ((overtaken es).map f).sum := by
  rw [← fates_received, kept, overtaken]
  simp only [List.map_map]
  induction fates es with
  | nil => simp
  | cons fate fs ih =>
    obtain ⟨b, u⟩ := fate
    cases b
    · simp [ih, add_assoc]
    · simp [ih, add_left_comm]

/-! ## The usage table -/

/-- The usage comes from one of the provider classes. -/
def Reported (u : Usage) : Prop := ∃ p : SingleProvider, p.Reports u

/-- The entry that a provider class has under its key. -/
def EntryOf (p : SingleProvider) (entry : String × UsageEntry) : Prop :=
  entry.1 = p.name ++ "-" ++ p.model ∧ entry.2.provider = p.name ∧
    entry.2.model = (orUndefined p.model).getD "unknown"

def TableOk (table : List (String × UsageEntry)) : Prop :=
  ∀ entry ∈ table, ∃ p, EntryOf p entry

theorem usageKey_reports {p : SingleProvider} {u : Usage} (h : p.Reports u) :
    usageKey u = p.name ++ "-" ++ p.model := by
  simp [usageKey, h.1, h.2]

/-- No provider name has a hyphen, so a key determines both of its parts. -/
theorem name_model_of_key {p q : SingleProvider}
    (h : p.name ++ "-" ++ p.model = q.name ++ "-" ++ q.model) :
    p.name = q.name ∧ p.model = q.model := by
  have hl : p.name.toList ++ '-' :: p.model.toList = q.name.toList ++ '-' :: q.model.toList := by
    have := congrArg String.toList h
    simpa using this
  have hlist : ∀ v v' : Vendor, ∀ m m' : List Char,
      v.name.toList ++ '-' :: m = v'.name.toList ++ '-' :: m' → v = v' ∧ m = m' := by
    intro v v' m m' h
    cases v <;> cases v' <;> simp [Vendor.name] at h ⊢ <;> exact h
  obtain ⟨hv, hm⟩ := hlist p.vendor q.vendor _ _ hl
  exact ⟨by simp [SingleProvider.name, hv], String.ext (by simpa using hm)⟩

theorem newEntry_reports {p : SingleProvider} {u : Usage} (h : p.Reports u) :
    EntryOf p (usageKey u, (newEntry u).add u) := by
  refine ⟨usageKey_reports h, ?_, ?_⟩
  · have hname : p.name ≠ "" := by
      cases hv : p.vendor <;> simp [SingleProvider.name, Vendor.name, hv]
    simp [newEntry, UsageEntry.add, h.1, orElse, orUndefined, hname]
  · by_cases hm : p.model = "" <;> simp [newEntry, UsageEntry.add, h.2, orElse, orUndefined, hm]

theorem EntryOf.add {p : SingleProvider} {k : String} {e : UsageEntry} (h : EntryOf p (k, e))
    (u : Usage) : EntryOf p (k, e.add u) := h

theorem TableOk.addUsage {u : Usage} (hu : Reported u) {table : List (String × UsageEntry)}
    (h : TableOk table) : TableOk (addUsage u table) := by
  obtain ⟨p, hp⟩ := hu
  induction table with
  | nil =>
    intro entry he
    cases List.mem_singleton.mp he
    exact ⟨p, newEntry_reports hp⟩
  | cons entry rest ih =>
    obtain ⟨k, e⟩ := entry
    have hrest : TableOk rest := fun entry he => h entry (List.mem_cons_of_mem _ he)
    have hhead : ∃ q, EntryOf q (k, e) := h (k, e) List.mem_cons_self
    intro entry' he
    simp only [LlmAgents.addUsage] at he
    split at he
    · rcases List.mem_cons.mp he with rfl | he
      · exact hhead.imp (fun q hq => hq.add u)
      · exact hrest entry' he
    · rcases List.mem_cons.mp he with rfl | he
      · exact hhead
      · exact ih hrest entry' he

/-- A model without a name is free, as is the `unknown` it is filed under. -/
theorem calculateCost_filed (provider model : String) (p c : Nat) :
    calculateCost provider ((orUndefined model).getD "unknown") p c
      = calculateCost provider model p c := by
  by_cases hm : model = ""
  · subst hm
    simp [orUndefined, calculateCost, rates, inheritedKeys, List.lookup_cons]
  · simp [orUndefined, hm]

theorem EntryOf.cost_add {p : SingleProvider} {k : String} {e : UsageEntry} (h : EntryOf p (k, e))
    {u : Usage} (hu : p.Reports u) : (e.add u).cost = e.cost + u.cost := by
  obtain ⟨-, hprovider, hmodel⟩ := h
  -- the entry's provider and model price the response as its own would
  have hu' : u.cost = calculateCost e.provider e.model u.promptTokens u.completionTokens := by
    rw [hprovider, hmodel, calculateCost_filed]
    simp only [Usage.cost, hu.1, hu.2, Option.getD_some]
  rw [hu', UsageEntry.cost, UsageEntry.cost, ← calculateCost_add]
  rfl

/-- Counting a response adds its cost to the table's, whatever entry it lands in. -/
theorem addUsage_cost {u : Usage} (hu : Reported u) {table : List (String × UsageEntry)}
    (h : TableOk table) :
    ((addUsage u table).map fun e => e.2.cost).sum
      = (table.map fun e => e.2.cost).sum + u.cost := by
  obtain ⟨p, hp⟩ := hu
  induction table with
  | nil =>
    have hentry : ((newEntry u).add u).cost = u.cost := by
      obtain ⟨-, hprovider, hmodel⟩ := newEntry_reports hp
      rw [UsageEntry.cost, hprovider, hmodel, calculateCost_filed]
      simp [Usage.cost, hp.1, hp.2, UsageEntry.add, newEntry]
    simp [addUsage, hentry]
  | cons entry rest ih =>
    obtain ⟨k, e⟩ := entry
    have hrest : TableOk rest := fun entry he => h entry (List.mem_cons_of_mem _ he)
    simp only [addUsage]
    split
    · rename_i hkey
      obtain ⟨q, hq⟩ := h (k, e) List.mem_cons_self
      -- the entry was opened by a class with the same name and model
      obtain ⟨hname, hmodel⟩ := name_model_of_key
        (hq.1.symm.trans (hkey.trans (usageKey_reports hp)))
      have hqu : q.Reports u := ⟨by rw [hp.1, hname], by rw [hp.2, hmodel]⟩
      simp only [List.map_cons, List.sum_cons, hq.cost_add hqu]
      rw [add_assoc, add_assoc, add_comm u.cost]
    · simp only [List.map_cons, List.sum_cons, ih hrest, add_assoc]

/-- Prompt and completion tokens. -/
def Usage.tokens (u : Usage) : ℕ × ℕ := (u.promptTokens, u.completionTokens)

def UsageEntry.tokens (e : UsageEntry) : ℕ × ℕ := (e.promptTokens, e.completionTokens)

theorem addUsage_tokens (u : Usage) (table : List (String × UsageEntry)) :
    ((addUsage u table).map fun e => e.2.tokens).sum
      = (table.map fun e => e.2.tokens).sum + u.tokens := by
  induction table with
  | nil => simp [addUsage, newEntry, UsageEntry.add, UsageEntry.tokens, Usage.tokens]
  | cons entry rest ih =>
    obtain ⟨k, e⟩ := entry
    simp only [addUsage]
    split
    · have hadd : (e.add u).tokens = e.tokens + u.tokens := rfl
      simp only [List.map_cons, List.sum_cons, hadd]
      rw [add_assoc, add_assoc, add_comm u.tokens]
    · simp only [List.map_cons, List.sum_cons, ih, add_assoc]

/-- The table after counting `us` in order. -/
def countAll (us : List Usage) (table : List (String × UsageEntry)) : List (String × UsageEntry) :=
  us.foldl (fun table u => addUsage u table) table

theorem countAll_cost {us : List Usage} (hus : ∀ u ∈ us, Reported u) :
    ∀ {table : List (String × UsageEntry)}, TableOk table →
      ((countAll us table).map fun e => e.2.cost).sum
        = (table.map fun e => e.2.cost).sum + (us.map Usage.cost).sum := by
  induction us with
  | nil => intro table _; simp [countAll]
  | cons u us ih =>
    intro table htable
    have hu : Reported u := hus u List.mem_cons_self
    have hrest := ih (fun v hv => hus v (List.mem_cons_of_mem _ hv)) (htable.addUsage hu)
    rw [addUsage_cost hu htable, add_assoc] at hrest
    exact hrest

theorem countAll_tokens (us : List Usage) : ∀ table : List (String × UsageEntry),
    ((countAll us table).map fun e => e.2.tokens).sum
      = (table.map fun e => e.2.tokens).sum + (us.map Usage.tokens).sum := by
  induction us with
  | nil => intro table; simp [countAll]
  | cons u us ih =>
    intro table
    have hrest := ih (addUsage u table)
    rw [addUsage_tokens, add_assoc] at hrest
    exact hrest

/-! ## The agent run -/

theorem TurnSpec.fates_eq {provider : LLMProvider} {s s' : LoopState} {es : Trace}
    (h : TurnSpec provider s (.ok s') es) :
    ∃ (lost : List Usage) (u : Usage), fates es = lost.map (true, ·) ++ [(false, u)] ∧
      s'.usageByProvider = addUsage u s.usageByProvider := by
  obtain ⟨body, rfl, hbody⟩ := h.events
  obtain ⟨lost, u, hu, hs'⟩ := h.counts s' rfl
  have hnone : Event.configRead ∉ body := by
    intro hmem
    rcases hbody _ hmem with (⟨f, hgen⟩ | ⟨p, -, hsent | ⟨v, hrec, -⟩⟩) | htool
    · cases hgen
    · cases hsent
    · cases hrec
    · cases htool
  have hreceived : receivedUsages body = lost ++ [u] := hu
  exact ⟨lost, u, fates_turn hnone hreceived, hs'⟩

theorem TurnSpec.reported {provider : LLMProvider} {s : LoopState} {r : Except String LoopState}
    {es : Trace} (h : TurnSpec provider s r es) : ∀ u ∈ receivedUsages es, Reported u := by
  obtain ⟨body, rfl, hbody⟩ := h.events
  intro u hu
  obtain ⟨e, he, hue⟩ := List.mem_filterMap.mp hu
  rcases List.mem_cons.mp he with rfl | he
  · cases hue
  rcases hbody e he with (⟨f, rfl⟩ | ⟨p, -, rfl | ⟨v, rfl, hv⟩⟩) | htool
  · cases hue
  · cases hue
  · cases hue
    exact ⟨p, hv⟩
  · cases htool <;> cases hue

/-- The loop starts between turns, every response names its provider, and a
loop that returns has counted the last response of each turn. -/
structure LoopCounts (s : LoopState) (r : Except String LoopState) (es : Trace) : Prop where
  fresh : answeredLater es = false
  reported : ∀ u ∈ receivedUsages es, Reported u
  counted : ∀ s', r = .ok s' → s'.usageByProvider = countAll (kept es) s.usageByProvider

theorem mainLoop_counts (w : World) (provider : LLMProvider) (tools : List ToolDefinition)
    (startTime left : Nat) (s : LoopState) :
    Logs (LoopCounts s) (mainLoop w provider tools startTime left s) := by
  refine mainLoop_rule w provider tools startTime ?_ ?_ ?_ ?_ left s
  · intro s
    refine ⟨rfl, by simp, ?_⟩
    intro s' heq
    cases heq
    rfl
  · rintro s e es (rfl | rfl)
    · exact ⟨rfl, by simp, fun _ h => nomatch h⟩
    · exact ⟨rfl, by simp [receivedUsages], fun _ h => nomatch h⟩
  · intro s e es h
    have hrep := h.reported
    obtain ⟨body, rfl, -⟩ := h.events
    exact ⟨rfl, hrep, fun _ h => nomatch h⟩
  · intro s s' es r fs h _ hrest
    obtain ⟨lost, u, hfates, hs'⟩ := h.fates_eq
    have hrep := h.reported
    obtain ⟨body, rfl, -⟩ := h.events
    refine ⟨rfl, ?_, ?_⟩
    · intro v hv
      rw [receivedUsages_append] at hv
      rcases List.mem_append.mp hv with hv | hv
      · exact hrep v hv
      · exact hrest.reported v hv
    · intro s'' hok
      -- the rest of the loop starts with a configuration read, so it overtakes nothing
      have hkept : kept (.clockRead :: .configRead :: body ++ fs) = u :: kept fs := by
        rw [kept, fates_append hrest.fresh]
        have hone : fates (.clockRead :: .configRead :: body)
            = lost.map (true, ·) ++ [(false, u)] := hfates
        rw [hone]
        simp [kept]
      rw [hrest.counted s'' hok, hkept, hs']
      rfl

/-- The usages that a returning run hands over are the counts of the last
responses of its turns. -/
structure RunCounts (r : Except String Artifacts) (es : Trace) : Prop where
  reported : ∀ u ∈ receivedUsages es, Reported u
  counted : ∀ a, r = .ok a → a.usages = (countAll (kept es) []).map Prod.snd

theorem executeTestAutonomous_counts (w : World) (testRunId instruction url : String)
    (provider? : Option LLMProvider) :
    Logs RunCounts (executeTestAutonomous w testRunId instruction url provider?) := by
  have hreported : ∀ {pre es post : Trace}, (∀ u ∈ receivedUsages es, Reported u) →
      (∀ e ∈ pre ++ post, Outside e) → ∀ u ∈ receivedUsages (pre ++ es ++ post), Reported u := by
    intro pre es post hes hout u hu
    have hpre := receivedUsages_outside (fun e he => hout e (List.mem_append_left post he))
    have hpost := receivedUsages_outside (fun e he => hout e (List.mem_append_right pre he))
    simp only [receivedUsages_append, hpre, hpost, List.nil_append, List.append_nil] at hu
    exact hes u hu
  refine executeTestAutonomous_rule w testRunId instruction url provider?
    (fun provider tools startTime => mainLoop_counts w provider tools startTime maxTurns
      (initialState instruction url)) ?_ ?_ ?_
  · intro e es hes
    exact ⟨by simp [receivedUsages_outside hes], fun _ h => nomatch h⟩
  · intro s pre es post hes hout
    refine ⟨hreported hes.reported hout, ?_⟩
    intro a heq
    cases heq
    have hpre := receivedUsages_outside (fun e he => hout e (List.mem_append_left post he))
    have hpost := receivedUsages_outside (fun e he => hout e (List.mem_append_right pre he))
    have hkept : kept (pre ++ es ++ post) = kept es := by
      rw [kept, fates_append (answeredLater_of_silent hpost), fates_silent_append hpre,
        fates_of_silent hpost, List.append_nil]
      rfl
    simp only [loopArtifacts, hes.counted s rfl, hkept]
    rfl
  · intro r e pre es post hes hout
    exact ⟨hreported hes.reported hout, fun _ h => nomatch h⟩

theorem RunCounts.cost {a : Artifacts} {es : Trace} (h : RunCounts (.ok a) es) :
    (a.usages.map UsageEntry.cost).sum = ((kept es).map Usage.cost).sum := by
  have hkept : ∀ u ∈ kept es, Reported u := by
    intro u hu
    apply h.reported u
    rw [← fates_received]
    exact List.map_subset _ (List.filter_subset_self _) hu
  have hempty : TableOk [] := fun _ he => nomatch he
  have hcount := countAll_cost hkept hempty
  simp only [List.map_nil, List.sum_nil, zero_add] at hcount
  rw [h.counted a rfl, List.map_map]
  exact hcount

theorem RunCounts.tokens {a : Artifacts} {es : Trace} (h : RunCounts (.ok a) es) :
    (a.usages.map UsageEntry.tokens).sum = ((kept es).map Usage.tokens).sum := by
  have hcount := countAll_tokens (kept es) []
  simp only [List.map_nil, List.sum_nil, zero_add] at hcount
  rw [h.counted a rfl, List.map_map]
  exact hcount

/-! ## Structured calls -/

theorem generateStructured_logs {α : Type} (w : World) (provider : LLMProvider)
    (messages : List Message) (responseSchema : Json) (schema : Schema α)
    (validate : Response → Except String Unit) :
    Logs (fun r es => (∀ e ∈ es, LlmEvent provider.members messages e) ∧
      ReturnsLast (fun a : α × Usage => a.2) r es)
      (generateStructured w provider messages responseSchema schema validate) := by
  refine Logs.bind (provider.generate_logs w _)
    (fun e es h => ⟨h.1, fun _ h => nomatch h⟩) ?_
  intro response es hspec
  obtain ⟨hes, hr⟩ := hspec
  refine Logs.bind (Logs.ofExcept (R := fun _ fs => fs = []) rfl) ?_ ?_
  · intro e fs heq
    subst heq
    exact ⟨by simpa using hes, fun _ h => nomatch h⟩
  · intro result fs heq
    subst heq
    refine Logs.pure ⟨by simpa using hes, ?_⟩
    intro a heq
    cases heq
    simpa using hr response rfl

/-- The analyzer reports the tokens of the last response it received. -/
theorem analyzeResults_logs (w : World) (e : Evidence) :
    Logs (fun r es => ∃ body provider, es = .analyze e :: .configRead :: body ∧
      (∀ e' ∈ body, LlmEvent (LLMProvider.members provider) (analyzeMessages e) e') ∧ ∀ a, r = .ok a →
        ∃ lost u, receivedUsages body = lost ++ [u] ∧ a.2.tokens = u.tokens)
      (analyzeResults w e) := by
  -- `getRoleProvider` opened up, to have the configuration read as a step of its own
  have hassoc : analyzeResults w e = (do
      emit (.analyze e)
      let file ← readConfig w
      let provider := roleProvider w.env .resultAnalyzer file
      let answer ← generateStructured w provider (analyzeMessages e)
        (w.zodToJsonSchema "resultSchema") resultAnalyzerSchema (validateWith resultAnalyzerSchema)
      pure (answer.1, reportedUsage provider answer.2)) := rfl
  rw [hassoc]
  refine Logs.bind (Logs.append (R := fun r es => r = .ok () ∧ es = [.analyze e]) ⟨rfl, rfl⟩)
    (fun err es h => by cases h.1) ?_
  intro _ _ hspec
  obtain ⟨-, rfl⟩ := hspec
  refine Logs.bind (interact_logs _ _) ?_ ?_
  · intro err es heq
    subst heq
    exact ⟨[], .single ⟨.gemini, "", none, none⟩, rfl, by simp, fun _ h => by cases h⟩
  intro file cs heq
  subst heq
  refine Logs.bind (generateStructured_logs w (roleProvider w.env .resultAnalyzer file) _ _ _ _) ?_ ?_
  · intro err es hspec
    obtain ⟨hes, -⟩ := hspec
    exact ⟨es, _, rfl, hes, fun _ h => by cases h⟩
  · rintro ⟨result, usage⟩ es ⟨hes, hr⟩
    refine Logs.pure ⟨es, _, by simp, hes, ?_⟩
    intro a heq
    cases heq
    obtain ⟨lost, hlost⟩ := hr _ rfl
    exact ⟨lost, usage, hlost, rfl⟩

/-! ## The audit of a feature -/

def Event.isConnect : Event → Bool
  | .mcpConnect => true
  | _ => false

/-- The part of a feature's audit before its agent run, and the agent run. -/
def beforeConnect (es : Trace) : Trace := es.takeWhile fun e => !e.isConnect

def fromConnect (es : Trace) : Trace := es.dropWhile fun e => !e.isConnect

/-- The responses of a feature's audit whose usage its result does not carry. -/
def lostResponses : Except String FeatureResult → Trace → List Usage
  | .ok (.verified _), es => receivedUsages (beforeConnect es) ++ overtaken (fromConnect es)
  | _, es => receivedUsages es

/-- The usages that reach the caller of `executeFeatureAudit`. -/
def billed : Except String FeatureResult → List UsageEntry
  | .ok result => result.usages
  | .error _ => []

/-- An event of the guardrail. -/
def GuardEvent (e : Event) : Prop := e = .configRead ∨ ∃ ps messages, LlmEvent ps messages e

theorem GuardEvent.isConnect {e : Event} (h : GuardEvent e) : e.isConnect = false := by
  rcases h with rfl | ⟨ps, m, p, -, rfl | ⟨u, rfl, -⟩⟩ <;> rfl

theorem getRoleProvider_emits (w : World) (role : AgentRole) :
    Emits GuardEvent (getRoleProvider w role) :=
  .bind (interact_emits _ _ (fun _ => .inl rfl)) (fun _ => .pure _)

theorem llmCheck_emits (w : World) (element : Element) : Emits GuardEvent (llmCheck w element) := by
  refine .bind (getRoleProvider_emits w _) (fun provider => ?_)
  refine .bind ((generateStructured_logs w provider _ _ _ _).mono ?_) (fun _ => .pure _)
  intro r es h e he
  exact .inr ⟨_, _, h.1 e he⟩

theorem isElementSafe_emits (w : World) (element : Element) :
    Emits GuardEvent (isElementSafe w element) := by
  refine .bind (interact_emits _ _ (fun _ => .inl rfl)) (fun file => ?_)
  refine .bind (.ofExcept _) (fun lists => .bind (.ofExcept _) (fun reason => ?_))
  split
  · exact .pure _
  · split
    · exact .tryCatch (llmCheck_emits w element) (fun _ => .pure _)
    · exact .pure _

theorem executeTestAutonomous_connects (w : World) (testRunId instruction url : String)
    (provider : LLMProvider) :
    Logs (fun _ es => ∃ fs, es = .mcpConnect :: fs)
      (executeTestAutonomous w testRunId instruction url (some provider)) := by
  show Logs _ (interact w.mcpConnect _ >>= _)
  refine Logs.bind (interact_logs _ _) ?_ ?_
  · intro e es heq
    subst heq
    exact ⟨[], rfl⟩
  · intro _ es heq
    subst heq
    have hrest : Emits (fun _ => True) (do
        let tools ← interact w.mcpListTools fun _ => .mcpListTools
        let startTime ← dateNow w
        let s ← Prog.tryFinally
          (mainLoop w provider tools startTime maxTurns (initialState instruction url))
          (interact w.mcpClose fun _ => .mcpClose)
        pure (loopArtifacts w testRunId s)) := by
      refine .bind (interact_emits _ _ (fun _ => trivial)) (fun tools => ?_)
      refine .bind (interact_emits _ _ (fun _ => trivial)) (fun startTime => ?_)
      refine .bind (.tryFinally ?_ (interact_emits _ _ (fun _ => trivial))) (fun _ => .pure _)
      exact (mainLoop_counts w provider tools startTime maxTurns _).mono (fun _ _ _ _ _ => trivial)
    exact hrest.mono (fun r fs _ => ⟨fs, rfl⟩)

theorem beforeConnect_append {pre fs : Trace} (h : ∀ e ∈ pre, e.isConnect = false) :
    beforeConnect (pre ++ .mcpConnect :: fs) = pre := by
  rw [beforeConnect, List.takeWhile_append_of_pos (by simpa using h)]
  simp [Event.isConnect]

theorem fromConnect_append {pre fs : Trace} (h : ∀ e ∈ pre, e.isConnect = false) :
    fromConnect (pre ++ .mcpConnect :: fs) = .mcpConnect :: fs := by
  rw [fromConnect, List.dropWhile_append_of_pos (by simpa using h)]
  simp [Event.isConnect]

/-- What a feature's audit received is what it bills and what it loses. -/
def Accounted (r : Except String FeatureResult) (es : Trace) : Prop :=
  ((receivedUsages es).map Usage.cost).sum
    = ((billed r).map UsageEntry.cost).sum + ((lostResponses r es).map Usage.cost).sum

theorem Accounted.verified {a : Artifacts} {pre fs : Trace} (hpre : ∀ e ∈ pre, GuardEvent e)
    (hfs : RunCounts (.ok a) (.mcpConnect :: fs)) :
    Accounted (.ok (.verified a)) (pre ++ .mcpConnect :: fs) := by
  have hguard : ∀ e ∈ pre, e.isConnect = false := fun e he => (hpre e he).isConnect
  have hrun := sum_received (.mcpConnect :: fs) Usage.cost
  simp only [Accounted, billed, FeatureResult.usages, lostResponses, beforeConnect_append hguard,
    fromConnect_append hguard, receivedUsages_append, List.map_append, List.sum_append, hfs.cost,
    hrun]
  rw [add_left_comm]

theorem executeFeatureAudit_accounts (w : World) (testRunId : String) (feature : AuditFeature)
    (url : String) (provider? : Option LLMProvider) :
    Logs Accounted (executeFeatureAudit w testRunId feature url provider?) := by
  -- an audit that throws bills nothing and loses everything
  have herror : ∀ e es, Accounted (.error e) es := by
    intro e es
    simp [Accounted, billed, lostResponses]
  have hbody : ∀ (provider : LLMProvider) (pre : Trace), (∀ e ∈ pre, GuardEvent e) →
      Logs (fun r es => Accounted r (pre ++ es)) (do
        let safeCheck ← isElementSafe w
          { text := feature.name, selector := feature.selector.bind orUndefined }
        if safeCheck.isSafe then do
          let result ← executeTestAutonomous w testRunId (auditInstruction feature)
            ((orElse feature.pageUrl (some url)).getD "") (some provider)
          pure (.verified result)
        else pure (.skipped safeCheck.reason)) := by
    intro provider pre hpre
    refine Logs.bind (isElementSafe_emits w _) (fun e es _ => herror e _) ?_
    intro safeCheck es hes
    split
    · refine Logs.bind ((executeTestAutonomous_counts w _ _ _ _).and
        (executeTestAutonomous_connects w _ _ _ provider)) (fun e fs _ => herror e _) ?_
      intro a fs hspec
      obtain ⟨hcounts, gs, rfl⟩ := hspec
      apply Logs.pure
      have hguard : ∀ e ∈ pre ++ es, GuardEvent e := by
        intro e he
        rcases List.mem_append.mp he with he | he
        · exact hpre e he
        · exact hes e he
      simpa using Accounted.verified hguard hcounts
    · exact Logs.pure (by simp [Accounted, billed, FeatureResult.usages, lostResponses])
  cases provider? with
  | some provider => exact hbody provider [] (by simp)
  | none =>
    refine Logs.bind (getRoleProvider_emits w .testPlanner) (fun e es _ => herror e _) ?_
    intro provider es hes
    exact hbody provider es hes

end AutoQa.LlmAgents

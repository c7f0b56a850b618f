import AutoQa.Base.Group
import AutoQa.LlmAgents.Accounting
import AutoQa.LlmAgents.Moves

/-!
# The usages of a run

`usageByProvider` is a table of sums by group: its string keys stand for the
pairs of provider and model, because no provider name has a hyphen. What a run
returns is one entry for each pair, in the order of first use, with the tokens
of the responses that carry it.
-/

namespace AutoQa.LlmAgents

open AutoQa.Base

/-! ## The table by pairs -/

/-- The provider and the model that a usage names. -/
def Usage.pair (u : Usage) : String × String := (u.provider.getD "", u.model.getD "")

/-- The usage names one of the provider classes and a model. -/
def Usage.Named (u : Usage) : Prop :=
  ∃ v : Vendor, u.provider = some v.name ∧ ∃ model, u.model = some model ∧ model ≠ ""

/-- The pair as the key and the names of an entry. -/
def fileRow (row : (String × String) × (ℕ × ℕ)) : String × UsageEntry :=
  (row.1.1 ++ "-" ++ row.1.2, ⟨row.1.1, row.1.2, row.2.1, row.2.2⟩)

theorem Usage.Named.reports {u : Usage} (h : u.Named) :
    ∃ p : SingleProvider, p.Reports u ∧ p.model ≠ "" ∧ u.pair = (p.name, p.model) := by
  obtain ⟨v, hprovider, model, hmodel, hne⟩ := h
  refine ⟨⟨v, model, none, none⟩, ⟨hprovider, hmodel⟩, hne, ?_⟩
  simp [Usage.pair, hprovider, hmodel, SingleProvider.name]

/-- On rows that name provider classes, the string keys do what the pairs do. -/
theorem addUsage_fileRow {u : Usage} (hu : u.Named) {rows : List ((String × String) × (ℕ × ℕ))}
    (hrows : ∀ row ∈ rows, ∃ p : SingleProvider, row.1 = (p.name, p.model)) :
    addUsage u (rows.map fileRow) = (deposit u.pair u.tokens rows).map fileRow := by
  obtain ⟨p, hp, hne, hpair⟩ := hu.reports
  induction rows with
  | nil =>
    obtain ⟨hkey, hprovider, hmodel⟩ := newEntry_reports hp
    have hmodel' : ((newEntry u).add u).model = p.model := by
      rw [hmodel, orUndefined, if_neg hne]
      rfl
    have hentry : (newEntry u).add u = ⟨p.name, p.model, u.promptTokens, u.completionTokens⟩ := by
      rw [← hprovider, ← hmodel']
      simp [UsageEntry.add, newEntry]
    simp [addUsage, deposit, fileRow, hpair, hentry, usageKey_reports hp, Usage.tokens]
  | cons row rows ih =>
    obtain ⟨⟨q, hq⟩, hrest⟩ := List.forall_mem_cons.mp hrows
    obtain ⟨pair, tokens⟩ := row
    obtain rfl : pair = (q.name, q.model) := hq
    have hsame : q.name ++ "-" ++ q.model = usageKey u ↔ (q.name, q.model) = u.pair := by
      rw [usageKey_reports hp, hpair, Prod.mk.injEq]
      constructor
      · exact name_model_of_key
      · rintro ⟨hname, hmodel⟩
        rw [hname, hmodel]
    rw [List.map_cons, fileRow, addUsage, deposit]
    simp only [hsame]
    split
    · simp [fileRow, UsageEntry.add, Usage.tokens]
    · simp [fileRow, ih hrest]

/-- The table of all usages: the pairs by first use, each with its sums. -/
theorem countAll_grouped {us : List Usage} (h : ∀ u ∈ us, u.Named) :
    countAll us [] = ((us.map Usage.pair).eraseDups.map fun p =>
      (p, groupSum Usage.pair Usage.tokens us p)).map fileRow := by
  rw [← depositAll_eq]
  induction us using List.reverseRecOn with
  | nil => rfl
  | append_singleton us u ih =>
    obtain ⟨hus, hu⟩ := List.forall_mem_append.mp h
    have hrows : ∀ row ∈ depositAll Usage.pair Usage.tokens us [],
        ∃ p : SingleProvider, row.1 = (p.name, p.model) := by
      rw [depositAll_eq]
      intro row hrow
      obtain ⟨pair, hpair, rfl⟩ := List.mem_map.mp hrow
      obtain ⟨u', hu', rfl⟩ := List.mem_map.mp (List.mem_eraseDups.mp hpair)
      obtain ⟨p, -, -, heq⟩ := (hus u' hu').reports
      exact ⟨p, heq⟩
    have hlast : countAll (us ++ [u]) [] = addUsage u (countAll us []) := by simp [countAll]
    rw [hlast, ih hus, addUsage_fileRow (hu u (List.mem_singleton.mpr rfl)) hrows]
    simp [depositAll]

theorem tokens_sum (us : List Usage) : (us.map Usage.tokens).sum
    = ((us.map Usage.promptTokens).sum, (us.map Usage.completionTokens).sum) := by
  induction us with
  | nil => rfl
  | cons u us ih => simp [ih, Usage.tokens]

/-! ## The run -/

theorem after_usageByProvider {s s' : LoopState} {m : Move} (h : s.after m = .ok s') :
    s'.usageByProvider = addUsage m.response.usage s.usageByProvider := by
  rcases after_ok_cases h with ⟨-, -, rfl⟩ | ⟨-, -, -, rfl⟩ | ⟨-, rfl⟩ <;> rfl

theorem LoopRun.counts {w : World} {provider : LLMProvider} {tools : List ToolDefinition}
    {startTime left : Nat} {s s' : LoopState} {tr u : Trace} {ms : List Move}
    (h : LoopRun w provider tools startTime left s tr ms (.ok s') u) :
    s'.usageByProvider = countAll (ms.map (·.response.usage)) s.usageByProvider := by
  generalize hr : Except.ok s' = r at h
  induction h with
  | done _ =>
    cases hr
    rfl
  | turnLimit _ => cases hr
  | timeLimit _ _ => cases hr
  | threw _ _ => cases hr
  | unsaved _ _ _ => cases hr
  | turn _ _ hafter _ ih =>
    rw [ih hr, after_usageByProvider hafter]
    rfl

section Whole

variable (w : World) (testRunId instruction url : String) (provider? : Option LLMProvider)
  (tr : Trace)

/-- The usages of the responses of a run, turn by turn. -/
def turnUsages : List Usage := (agentMoves w provider? instruction url tr).map (·.response.usage)

/-- The entry of a pair: the sums over the usages that name it. -/
def entryOfPair (us : List Usage) (pair : String × String) : UsageEntry where
  provider := pair.1
  model := pair.2
  promptTokens := ((us.filter (·.pair = pair)).map Usage.promptTokens).sum
  completionTokens := ((us.filter (·.pair = pair)).map Usage.completionTokens).sum

theorem run_counts {a : Artifacts}
    (h : (executeTestAutonomous w testRunId instruction url provider? tr).1 = .ok a) :
    a.usages = (countAll (turnUsages w instruction url provider? tr) []).map Prod.snd := by
  rcases run_cases w testRunId instruction url provider? tr with
    ⟨e, es, hrun, -⟩ | ⟨tools, r, pre, es, -, -, -, hloop, hrun⟩
  · rw [hrun] at h
    cases h
  · rw [hrun] at h
    obtain ⟨s, rfl, rfl⟩ := closing_eq_ok h
    exact congrArg (List.map Prod.snd) hloop.counts

/-- **The usages of a run** are grouped exactly: one entry for each pair of provider and
model, in the order of first use, with the tokens of the responses that name the pair.
So they cost what the responses cost. -/
theorem usages_grouped {a : Artifacts}
    (h : (executeTestAutonomous w testRunId instruction url provider? tr).1 = .ok a)
    (hnamed : ∀ u ∈ turnUsages w instruction url provider? tr, u.Named) :
    a.usages = ((turnUsages w instruction url provider? tr).map Usage.pair).eraseDups.map
        (entryOfPair (turnUsages w instruction url provider? tr)) ∧
      (a.usages.map UsageEntry.cost).sum
        = ((turnUsages w instruction url provider? tr).map Usage.cost).sum := by
  have hcounts := run_counts w testRunId instruction url provider? tr h
  refine ⟨?_, ?_⟩
  · rw [hcounts, countAll_grouped hnamed, List.map_map, List.map_map]
    refine List.map_congr_left fun pair _ => ?_
    simp [fileRow, entryOfPair, groupSum, tokens_sum]
  · have hreported : ∀ u ∈ turnUsages w instruction url provider? tr, Reported u := by
      intro u hu
      obtain ⟨p, hp, -⟩ := (hnamed u hu).reports
      exact ⟨p, hp⟩
    have hempty : TableOk [] := List.forall_mem_nil _
    rw [hcounts]
    simpa [Function.comp_def] using countAll_cost hreported hempty

end Whole

/-- A local model takes the first two turns; then it stops responding, and Gemini ends
the run. -/
def relayWorld : World :=
  { World.calm with
    openai := fun t _ _ => if t < 13 then
        .ok ⟨[⟨some "Looking.", some [⟨"c1", "playwright_navigate", "null"⟩]⟩], some 40, some 8⟩
      else .error "Connection refused" }

def relayChain : LLMProvider :=
  .fallback (.newLocal World.calm.env (some "qwen2.5-coder-7b") none (some "http://localhost:11434/v1"))
    [.newGemini World.calm.env none none]

/-- The usages of the three turns: a model name with hyphens, twice, and Gemini's. -/
theorem relay_usages :
    turnUsages relayWorld "Log in" "http://localhost:3000" (some relayChain) []
      = [⟨40, 8, some "local", some "qwen2.5-coder-7b"⟩, ⟨40, 8, some "local", some "qwen2.5-coder-7b"⟩,
        ⟨1000, 100, some "gemini", some "gemini-2.5-flash"⟩] := by
  decide +kernel

theorem relay_grouped :
    ∃ a, (executeTestAutonomous relayWorld "7" "Log in" "http://localhost:3000" (some relayChain) []).1
        = .ok a ∧
      a.usages = [⟨"local", "qwen2.5-coder-7b", 80, 16⟩, ⟨"gemini", "gemini-2.5-flash", 1000, 100⟩] := by
  have hreturns : (executeTestAutonomous relayWorld "7" "Log in" "http://localhost:3000"
      (some relayChain) []).1.isOk = true := by
    decide +kernel
  obtain ⟨a, hrun⟩ := eq_ok_of_isOk hreturns
  have hnamed : ∀ u ∈ turnUsages relayWorld "Log in" "http://localhost:3000" (some relayChain) [],
      u.Named := by
    rw [relay_usages]
    intro u hu
    simp only [List.mem_cons, List.not_mem_nil, or_false] at hu
    rcases hu with rfl | rfl | rfl
    · exact ⟨.local, rfl, _, rfl, by decide⟩
    · exact ⟨.local, rfl, _, rfl, by decide⟩
    · exact ⟨.gemini, rfl, _, rfl, by decide⟩
  refine ⟨a, hrun, ?_⟩
  rw [(usages_grouped relayWorld "7" "Log in" "http://localhost:3000" (some relayChain) [] hrun
    hnamed).1, relay_usages]
  decide +kernel

end AutoQa.LlmAgents

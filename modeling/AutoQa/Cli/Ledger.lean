import AutoQa.Cli.Deployment

/-!
# The ledger

The part of a deployment's state that its records are about: the tables, the
queued and active jobs, the calls of the runner and the watchers. `Sound` says that the
records fit together. A process owns the run it has created, and `Moves` is what
a process may do to the ledger; there is one lemma for each kind of change.
-/

namespace AutoQa.Cli

open AutoQa.Base AutoQa.LlmAgents AutoQa.Db AutoQa.Orchestrator

structure Ledger where
  store : Store
  testQueue : List Job
  active : List Job
  calls : List Call
  watchers : List (Id × String)

def DeployState.ledger (d : DeployState) : Ledger :=
  ⟨d.store, d.testQueue, d.active, d.calls, d.watchers⟩

/-! ## Records that fit together -/

/-- The status of a run can change to this one: a run that is running goes on running or
gets a verdict, which stays, but a run that passed can still fail. -/
def Leads : RunStatus → RunStatus → Prop
  | .running, status => status ≠ .queued
  | .passed, status => status = .passed ∨ status = .failed
  | old, status => status = old

theorem Leads.refl (status : RunStatus) : Leads status status := by
  cases status with
  | running => exact RunStatus.noConfusion
  | passed => exact .inl rfl
  | _ => rfl

/-- No run is queued again. -/
theorem Leads.ne_queued {a b : RunStatus} (h : Leads a b) (ha : a ≠ .queued) : b ≠ .queued := by
  cases a with
  | running => exact h
  | passed => rcases h with rfl | rfl <;> exact RunStatus.noConfusion
  | queued => exact absurd rfl ha
  | failed => cases h; exact ha
  | skipped => cases h; exact ha

theorem Leads.trans {a b c : RunStatus} (h : Leads a b) (h' : Leads b c) : Leads a c := by
  cases a with
  | running => exact h'.ne_queued h
  | passed =>
    rcases h with rfl | rfl
    · exact h'
    · exact .inr h'
  | queued => cases h; exact h'
  | failed => cases h; exact h'
  | skipped => cases h; exact h'

/-- A run that is over stays over. -/
theorem Leads.over {a b : RunStatus} (h : Leads a b) (ha : a ≠ .running) : b ≠ .running := by
  cases a with
  | running => exact absurd rfl ha
  | passed => rcases h with rfl | rfl <;> simp
  | queued => cases h; exact ha
  | failed => cases h; exact ha
  | skipped => cases h; exact ha

/-- Every row of a table with one more row is an old one or the new one. -/
theorem mem_or_of_append {ρ : Type} {P : ρ → Prop} {table : List ρ} {row : ρ} (h : P row) :
    ∀ r ∈ table ++ [row], r ∈ table ∨ P r := by
  intro r hr
  rcases List.mem_append.mp hr with hold | hnew
  · exact .inl hold
  · rw [List.mem_singleton.mp hnew]
    exact .inr h

namespace Ledger

variable {l m n : Ledger}

/-- The feature has this description. -/
def Describes (l : Ledger) (feature : Id) (text : String) : Prop :=
  (l.store.features.map Feature.description)[feature]? = some text

def FeatureOk (l : Ledger) (f : Feature) : Prop := f.projectId < l.store.projects.length

/-- No run waits, and a run of the runner has a finishing time as soon as it is over. -/
def Stamped (r : TestRun) : Prop :=
  r.status ≠ .queued ∧
    (r.triggeredBy = some "auto" → (r.status = .running ↔ r.finishedAt = none))

def RunOk (l : Ledger) (r : TestRun) : Prop :=
  r.featureId < l.store.features.length ∧ Stamped r

/-- A test case is about the description of the feature whose run it belongs to. -/
def CaseOk (l : Ledger) (c : TestCase) : Prop :=
  ∃ r, l.store.testRuns[c.testRunId]? = some r ∧ l.Describes r.featureId c.description

/-- A bug is reported for a test case whose run failed. -/
def BugOk (l : Ledger) (b : BugReport) : Prop :=
  ∃ c r, l.store.testCases[b.testCaseId]? = some c ∧
    l.store.testRuns[c.testRunId]? = some r ∧ r.status = .failed

def UsageOk (l : Ledger) (u : LLMUsage) : Prop :=
  (∀ run ∈ u.testRunId, run < l.store.testRuns.length) ∧
    ∀ feature ∈ u.featureId, feature < l.store.features.length

/-- Every reference leads to a row, and every instruction is the description of the
feature it is for. -/
structure Sound (l : Ledger) : Prop where
  features : ∀ f ∈ l.store.features, l.FeatureOk f
  runs : ∀ r ∈ l.store.testRuns, l.RunOk r
  cases : ∀ c ∈ l.store.testCases, l.CaseOk c
  bugs : ∀ b ∈ l.store.bugReports, l.BugOk b
  usages : ∀ u ∈ l.store.llmUsages, l.UsageOk u
  single : ∀ run, (l.store.casesOf run).length ≤ 1
  jobs : ∀ j ∈ l.testQueue, l.Describes j.featureId j.instruction
  active : ∀ j ∈ l.active, l.Describes j.featureId j.instruction
  calls : ∀ c ∈ l.calls, l.Describes c.featureId c.instruction
  watchers : ∀ w ∈ l.watchers, w.1 < l.store.projects.length

/-! ## Ledgers that grow -/

/-- Rows are added, and the columns that others refer to stay as they are. -/
structure Grows (l m : Ledger) : Prop where
  projects : l.store.projects.length ≤ m.store.projects.length
  descriptions : l.store.features.map Feature.description
    <+: m.store.features.map Feature.description
  runFeatures : l.store.testRuns.map TestRun.featureId <+: m.store.testRuns.map TestRun.featureId
  caseRuns : l.store.testCases.map TestCase.testRunId <+: m.store.testCases.map TestCase.testRunId

/-- Each run goes on from the status it had, and keeps its finishing time once it has one. -/
def Advances (l m : Ledger) : Prop :=
  ∀ (run : Id) r, l.store.testRuns[run]? = some r → ∃ r', m.store.testRuns[run]? = some r' ∧
    r'.featureId = r.featureId ∧ Leads r.status r'.status ∧
    (r.finishedAt.isSome → r'.finishedAt.isSome)

/-- The run and its test cases are as they were. -/
def Untouched (run : Id) (l m : Ledger) : Prop :=
  m.store.testRuns[run]? = l.store.testRuns[run]? ∧
    m.store.casesOf run = l.store.casesOf run

namespace Grows

theorem refl (l : Ledger) : Grows l l :=
  ⟨Nat.le_refl _, List.prefix_refl _, List.prefix_refl _, List.prefix_refl _⟩

/-- The other tables do not matter. -/
theorem of_tables (hprojects : m.store.projects = l.store.projects)
    (hfeatures : m.store.features = l.store.features)
    (hruns : m.store.testRuns = l.store.testRuns)
    (hcases : m.store.testCases = l.store.testCases) : Grows l m :=
  ⟨by rw [hprojects], by rw [hfeatures], by rw [hruns], by rw [hcases]⟩

theorem trans (h : Grows l m) (h' : Grows m n) : Grows l n :=
  ⟨Nat.le_trans h.projects h'.projects, h.descriptions.trans h'.descriptions,
    h.runFeatures.trans h'.runFeatures, h.caseRuns.trans h'.caseRuns⟩

theorem features (h : Grows l m) : l.store.features.length ≤ m.store.features.length := by
  simpa using h.descriptions.length_le

theorem runs (h : Grows l m) : l.store.testRuns.length ≤ m.store.testRuns.length := by
  simpa using h.runFeatures.length_le

theorem describes (h : Grows l m) {feature : Id} {text : String} (ht : l.Describes feature text) :
    m.Describes feature text := by
  obtain ⟨hlt, rfl⟩ := List.getElem?_eq_some_iff.mp ht
  exact (List.prefix_iff_getElem?.mp h.descriptions feature hlt)

theorem caseRun (h : Grows l m) {case run : Id}
    (hc : (l.store.testCases.map TestCase.testRunId)[case]? = some run) :
    (m.store.testCases.map TestCase.testRunId)[case]? = some run := by
  obtain ⟨hlt, rfl⟩ := List.getElem?_eq_some_iff.mp hc
  exact (List.prefix_iff_getElem?.mp h.caseRuns case hlt)

end Grows

theorem Advances.refl (l : Ledger) : Advances l l :=
  fun _ r hr => ⟨r, hr, rfl, .refl _, fun h => h⟩

theorem Advances.trans (h : Advances l m) (h' : Advances m n) : Advances l n := by
  intro run r hr
  obtain ⟨r', hr', hfeature, hleads, hfinished⟩ := h run r hr
  obtain ⟨r'', hr'', hfeature', hleads', hfinished'⟩ := h' run r' hr'
  exact ⟨r'', hr'', hfeature'.trans hfeature, hleads.trans hleads',
    fun hsome => hfinished' (hfinished hsome)⟩

theorem Untouched.refl (run : Id) (l : Ledger) : Untouched run l l := ⟨rfl, rfl⟩

theorem Untouched.trans {run : Id} (h : Untouched run l m) (h' : Untouched run m n) :
    Untouched run l n :=
  ⟨h'.1.trans h.1, h'.2.trans h.2⟩

/-! ## What stays fitting -/

theorem FeatureOk.mono (h : Grows l m) {f : Feature} (hf : l.FeatureOk f) : m.FeatureOk f :=
  Nat.lt_of_lt_of_le hf h.projects

theorem RunOk.mono (h : Grows l m) {r : TestRun} (hr : l.RunOk r) : m.RunOk r :=
  ⟨Nat.lt_of_lt_of_le hr.1 h.features, hr.2⟩

theorem CaseOk.mono (h : Grows l m) (ha : Advances l m) {c : TestCase} (hc : l.CaseOk c) :
    m.CaseOk c := by
  obtain ⟨r, hr, htext⟩ := hc
  obtain ⟨r', hr', hfeature, -⟩ := ha _ r hr
  exact ⟨r', hr', hfeature ▸ h.describes htext⟩

theorem BugOk.mono (h : Grows l m) (ha : Advances l m) {b : BugReport} (hb : l.BugOk b) :
    m.BugOk b := by
  obtain ⟨c, r, hc, hr, hfailed⟩ := hb
  have hrun : (l.store.testCases.map TestCase.testRunId)[b.testCaseId]? = some c.testRunId := by
    rw [List.getElem?_map, hc]
    rfl
  have hrun' := h.caseRun hrun
  rw [List.getElem?_map, Option.map_eq_some_iff] at hrun'
  obtain ⟨c', hc', hsame⟩ := hrun'
  obtain ⟨r', hr', -, hleads, -⟩ := ha _ r hr
  rw [hfailed] at hleads
  exact ⟨c', r', hc', hsame ▸ hr', hleads⟩

theorem UsageOk.mono (h : Grows l m) {u : LLMUsage} (hu : l.UsageOk u) : m.UsageOk u :=
  ⟨fun run hrun => Nat.lt_of_lt_of_le (hu.1 run hrun) h.runs,
    fun feature hfeature => Nat.lt_of_lt_of_le (hu.2 feature hfeature) h.features⟩

/-- A change that adds or changes only records that fit. -/
structure Extends (l m : Ledger) : Prop where
  grows : Grows l m
  advances : Advances l m := by exact Advances.refl _
  features : ∀ f ∈ m.store.features, f ∈ l.store.features ∨ m.FeatureOk f := by
    exact fun _ h => .inl h
  runs : ∀ r ∈ m.store.testRuns, r ∈ l.store.testRuns ∨ m.RunOk r := by
    exact fun _ h => .inl h
  cases : ∀ c ∈ m.store.testCases, c ∈ l.store.testCases ∨ m.CaseOk c := by
    exact fun _ h => .inl h
  bugs : ∀ b ∈ m.store.bugReports, b ∈ l.store.bugReports ∨ m.BugOk b := by
    exact fun _ h => .inl h
  usages : ∀ u ∈ m.store.llmUsages, u ∈ l.store.llmUsages ∨ m.UsageOk u := by
    exact fun _ h => .inl h
  single : ∀ run, (m.store.casesOf run).length ≤ (l.store.casesOf run).length ∨
    (m.store.casesOf run).length ≤ 1 := by exact fun _ => .inl (Nat.le_refl _)
  jobs : ∀ j ∈ m.testQueue, j ∈ l.testQueue ∨ m.Describes j.featureId j.instruction := by
    exact fun _ h => .inl h
  active : ∀ j ∈ m.active, j ∈ l.active ∨ m.Describes j.featureId j.instruction := by
    exact fun _ h => .inl h
  calls : ∀ c ∈ m.calls, c ∈ l.calls ∨ m.Describes c.featureId c.instruction := by
    exact fun _ h => .inl h
  watchers : ∀ w ∈ m.watchers, w ∈ l.watchers ∨ w.1 < m.store.projects.length := by
    exact fun _ h => .inl h

theorem Extends.sound (h : Extends l m) (hl : l.Sound) : m.Sound where
  features f hf := (h.features f hf).elim (fun hold => (hl.features f hold).mono h.grows) id
  runs r hr := (h.runs r hr).elim (fun hold => (hl.runs r hold).mono h.grows) id
  cases c hc := (h.cases c hc).elim (fun hold => (hl.cases c hold).mono h.grows h.advances) id
  bugs b hb := (h.bugs b hb).elim (fun hold => (hl.bugs b hold).mono h.grows h.advances) id
  usages u hu := (h.usages u hu).elim (fun hold => (hl.usages u hold).mono h.grows) id
  single run := (h.single run).elim (fun hle => Nat.le_trans hle (hl.single run)) id
  jobs j hj := (h.jobs j hj).elim (fun hold => h.grows.describes (hl.jobs j hold)) id
  active j hj := (h.active j hj).elim (fun hold => h.grows.describes (hl.active j hold)) id
  calls c hc := (h.calls c hc).elim (fun hold => h.grows.describes (hl.calls c hold)) id
  watchers w hw := (h.watchers w hw).elim
    (fun hold => Nat.lt_of_lt_of_le (hl.watchers w hold) h.grows.projects) id

/-! ## Moves -/

/-- The run that is owned, if there is one, is over. -/
def Settled (g : Option Id) (l : Ledger) : Prop :=
  ∀ run ∈ g, ∀ r, l.store.testRuns[run]? = some r → r.status ≠ .running

/-- What a process that owns `g` may do; it ends up owning `g'`. Only its own run is
changed, and it owns a run that it creates. -/
structure Moves (g : Option Id) (l : Ledger) (g' : Option Id) (m : Ledger) : Prop where
  sound : m.Sound
  grows : Grows l m
  advances : Advances l m
  others : ∀ run < l.store.testRuns.length, g ≠ some run → Untouched run l m
  owned : (g' = g ∧ m.store.testRuns.length = l.store.testRuns.length) ∨
    (g' = some l.store.testRuns.length ∧
      m.store.testRuns.length = l.store.testRuns.length + 1 ∧ Settled g l)

section Changes

variable {g : Option Id} (hl : l.Sound)
include hl

/-- A change of other tables than those of the runs and their cases. -/
theorem Moves.of_extends (h : Extends l m) (hruns : m.store.testRuns = l.store.testRuns)
    (hcases : m.store.testCases = l.store.testCases) : Moves g l g m where
  sound := h.sound hl
  grows := h.grows
  advances := h.advances
  others run _ _ := ⟨by rw [hruns], by rw [Db.casesOf, Db.casesOf, hcases]⟩
  owned := .inl ⟨rfl, by rw [hruns]⟩

theorem Moves.same : Moves g l g l := .of_extends hl { grows := .refl l } rfl rfl

theorem Moves.createProject (p : Project) :
    Moves g l g { l with store := { l.store with projects := l.store.projects ++ [p] } } := by
  refine .of_extends hl { grows := ?_ } rfl rfl
  exact ⟨by simp, List.prefix_refl _, List.prefix_refl _, List.prefix_refl _⟩

theorem Moves.createFeature {f : Feature} (hf : l.FeatureOk f) :
    Moves g l g { l with store := { l.store with features := l.store.features ++ [f] } } := by
  refine .of_extends hl { grows := ?_, features := ?_ } rfl rfl
  · exact ⟨Nat.le_refl _, by simp, List.prefix_refl _, List.prefix_refl _⟩
  · exact mem_or_of_append hf

/-- An update that leaves a feature's project and description as they are. -/
theorem Moves.updateFeature (id : Id) {change : Feature → Feature}
    (hproject : ∀ f, (change f).projectId = f.projectId)
    (hdescription : ∀ f, (change f).description = f.description) :
    Moves g l g
      { l with store := { l.store with features := l.store.features.modify id change } } := by
  refine .of_extends hl { grows := ?_, features := ?_ } rfl rfl
  · refine ⟨Nat.le_refl _, ?_, List.prefix_refl _, List.prefix_refl _⟩
    rw [map_modify_of_same Feature.description change hdescription]
  · intro f hf
    refine .inr (forall_mem_modify hl.features ?_ id f hf)
    intro row hrow
    rw [FeatureOk, hproject]
    exact hrow

theorem Moves.createUsage {u : LLMUsage} (hu : l.UsageOk u) :
    Moves g l g { l with store := { l.store with llmUsages := l.store.llmUsages ++ [u] } } :=
  .of_extends hl { grows := .of_tables rfl rfl rfl rfl, usages := mem_or_of_append hu } rfl rfl

theorem Moves.createBug {b : BugReport} (hb : l.BugOk b) :
    Moves g l g { l with store := { l.store with bugReports := l.store.bugReports ++ [b] } } :=
  .of_extends hl { grows := .of_tables rfl rfl rfl rfl, bugs := mem_or_of_append hb } rfl rfl

theorem Moves.addJob {j : Job} (hj : l.Describes j.featureId j.instruction) :
    Moves g l g { l with testQueue := l.testQueue ++ [j] } :=
  .of_extends hl { grows := .of_tables rfl rfl rfl rfl, jobs := mem_or_of_append hj } rfl rfl

theorem Moves.called {c : Call} (hc : l.Describes c.featureId c.instruction) :
    Moves g l g { l with calls := l.calls ++ [c] } :=
  .of_extends hl { grows := .of_tables rfl rfl rfl rfl, calls := mem_or_of_append hc } rfl rfl

theorem Moves.watch {w : Id × String} (hw : w.1 < l.store.projects.length) :
    Moves g l g { l with watchers := l.watchers ++ [w] } :=
  .of_extends hl { grows := .of_tables rfl rfl rfl rfl, watchers := mem_or_of_append hw } rfl rfl

/-- A process that owns no run, or one that is over, creates one. -/
theorem Moves.createRun {r : TestRun} (hr : l.RunOk r) (hg : Settled g l) :
    Moves g l (some l.store.testRuns.length)
      { l with store := { l.store with testRuns := l.store.testRuns ++ [r] } } := by
  have hgrows : Grows l
      { l with store := { l.store with testRuns := l.store.testRuns ++ [r] } } :=
    ⟨Nat.le_refl _, List.prefix_refl _, by simp, List.prefix_refl _⟩
  have hold : ∀ run < l.store.testRuns.length,
      (l.store.testRuns ++ [r])[run]? = l.store.testRuns[run]? := fun run hrun =>
    List.getElem?_append_left hrun
  have hadvances : Advances l
      { l with store := { l.store with testRuns := l.store.testRuns ++ [r] } } := by
    intro run old hrun
    have hlt := (List.getElem?_eq_some_iff.mp hrun).1
    exact ⟨old, (hold run hlt).trans hrun, rfl, .refl _, fun h => h⟩
  refine ⟨Extends.sound { grows := hgrows, advances := hadvances, runs := ?_ } hl, hgrows,
    hadvances, fun run hrun _ => ⟨hold run hrun, rfl⟩, .inr ⟨rfl, by simp, hg⟩⟩
  exact mem_or_of_append (hr.mono hgrows)

/-- The first test case of the run that is owned. -/
theorem Moves.createCase {c : TestCase} (hc : l.CaseOk c) (hnone : l.store.casesOf c.testRunId = []) :
    Moves (some c.testRunId) l (some c.testRunId)
      { l with store := { l.store with testCases := l.store.testCases ++ [c] } } := by
  have hgrows : Grows l
      { l with store := { l.store with testCases := l.store.testCases ++ [c] } } :=
    ⟨Nat.le_refl _, List.prefix_refl _, List.prefix_refl _, by simp⟩
  have hcasesOf : ∀ run, (Db.createCase c l.store.toDb).casesOf run = l.store.casesOf run
      ++ if c.testRunId == run then [(l.store.testCases.length, c)] else [] := fun run =>
    findMany_append (fun c : TestCase => c.testRunId == run) l.store.testCases c
  refine ⟨Extends.sound { grows := hgrows, cases := ?_, single := ?_ } hl, hgrows, .refl l,
    ?_, .inl ⟨rfl, rfl⟩⟩
  · exact mem_or_of_append (hc.mono hgrows (.refl l))
  · intro run
    show ((Db.createCase c l.store.toDb).casesOf run).length ≤ _ ∨
      ((Db.createCase c l.store.toDb).casesOf run).length ≤ 1
    rw [hcasesOf run]
    by_cases hrun : c.testRunId = run
    · subst hrun
      right
      simp [hnone]
    · left
      simp [hrun]
  · intro run _ hother
    have hrun : (c.testRunId == run) = false := by
      rw [beq_eq_false_iff_ne]
      exact fun h => hother (congrArg some h)
    refine ⟨rfl, ?_⟩
    show (Db.createCase c l.store.toDb).casesOf run = l.store.casesOf run
    rw [hcasesOf run, hrun]
    simp

/-- The run that is owned goes on. -/
theorem Moves.updateRun {run : Id} {r : TestRun} {change : TestRun → TestRun}
    (hr : l.store.testRuns[run]? = some r) (hfeature : ∀ r, (change r).featureId = r.featureId)
    (hleads : Leads r.status (change r).status)
    (hfinished : r.finishedAt.isSome → (change r).finishedAt.isSome)
    (hstamp : Stamped (change r)) :
    Moves (some run) l (some run)
      { l with store := { l.store with testRuns := l.store.testRuns.modify run change } } := by
  have hsame : (l.store.testRuns.modify run change).map TestRun.featureId
      = l.store.testRuns.map TestRun.featureId :=
    map_modify_of_same TestRun.featureId change hfeature l.store.testRuns run
  have hgrows : Grows l
      { l with store := { l.store with testRuns := l.store.testRuns.modify run change } } :=
    ⟨Nat.le_refl _, List.prefix_refl _, by rw [hsame], List.prefix_refl _⟩
  have hadvances : Advances l
      { l with store := { l.store with testRuns := l.store.testRuns.modify run change } } := by
    intro other old hold
    by_cases hother : run = other
    · subst hother
      cases hr.symm.trans hold
      exact ⟨change r, by simp [hr], hfeature r, hleads, hfinished⟩
    · exact ⟨old, by simp [hother, hold], rfl, .refl _, fun h => h⟩
  refine ⟨Extends.sound { grows := hgrows, advances := hadvances, runs := ?_ } hl, hgrows,
    hadvances, ?_, .inl ⟨rfl, by simp⟩⟩
  · intro r' hr'
    obtain ⟨i, hi⟩ := List.mem_iff_getElem?.mp hr'
    rw [List.getElem?_modify] at hi
    obtain ⟨old, hold, rfl⟩ := Option.map_eq_some_iff.mp hi
    by_cases hrun : run = i
    · subst hrun
      cases hr.symm.trans hold
      have hok := hl.runs r (List.mem_of_getElem? hr)
      simp only [if_true]
      exact .inr ⟨hfeature r ▸ hok.1, hstamp⟩
    · simp only [hrun, if_false]
      exact .inl (List.mem_of_getElem? hold)
  · intro other _ hother
    have hne : run ≠ other := fun h => hother (congrArg some h)
    exact ⟨by simp [hne], rfl⟩

/-- A test case of the run that is owned. -/
theorem Moves.updateCase {case run : Id} (change : TestCase → TestCase)
    (hcase : (l.store.testCases.map TestCase.testRunId)[case]? = some run)
    (hrun : ∀ c, (change c).testRunId = c.testRunId)
    (hdescription : ∀ c, (change c).description = c.description) :
    Moves (some run) l (some run)
      { l with store := { l.store with testCases := l.store.testCases.modify case change } } := by
  have hsame : (l.store.testCases.modify case change).map TestCase.testRunId
      = l.store.testCases.map TestCase.testRunId :=
    map_modify_of_same TestCase.testRunId change hrun l.store.testCases case
  have hgrows : Grows l
      { l with store := { l.store with testCases := l.store.testCases.modify case change } } :=
    ⟨Nat.le_refl _, List.prefix_refl _, List.prefix_refl _, by rw [hsame]⟩
  refine ⟨Extends.sound { grows := hgrows, cases := ?_, single := ?_ } hl, hgrows, .refl l, ?_,
    .inl ⟨rfl, rfl⟩⟩
  · intro c hc
    refine .inr (forall_mem_modify (P := (l.CaseOk ·)) hl.cases ?_ case c hc)
    intro row hrow
    rw [CaseOk, hrun, hdescription]
    exact hrow
  · intro other
    left
    show (findMany (fun c : TestCase => c.testRunId == other)
      (l.store.testCases.modify case change)).length
        ≤ (findMany (fun c : TestCase => c.testRunId == other) l.store.testCases).length
    rw [length_findMany, length_findMany, map_modify_of_same (fun c : TestCase => c.testRunId == other)
      change (fun c => by rw [hrun])]
  · intro other _ hother
    refine ⟨rfl, ?_⟩
    show findMany (fun c : TestCase => c.testRunId == other) (l.store.testCases.modify case change)
      = findMany (fun c : TestCase => c.testRunId == other) l.store.testCases
    apply findMany_modify
    intro row hrow
    have hid : row.testRunId = run := by
      rw [List.getElem?_map, hrow] at hcase
      exact Option.some.inj hcase
    have hne : run ≠ other := fun h => hother (congrArg some h)
    simp [hrun, hid, hne]

end Changes

end Ledger

end AutoQa.Cli

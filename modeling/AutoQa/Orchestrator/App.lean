import AutoQa.Orchestrator.Dashboard

/-!
# The dashboard's page

What `App` (`App.tsx`) makes of the rows it keeps: one card for each run. Class
names that only lay the page out and the number formats are left out. An
exception in one card takes the whole page down.
-/

namespace AutoQa.Orchestrator

open AutoQa.Base AutoQa.LlmAgents AutoQa.Db

inductive RunIcon where
  | checkCircle
  | bug
  | activity
  | clock
  deriving DecidableEq, Repr

/-- The icon beside a run's name; a skipped run has none. -/
def runIcon : RunStatus → Option RunIcon
  | .passed => some .checkCircle
  | .failed => some .bug
  | .running => some .activity
  | .queued => some .clock
  | .skipped => none

/-- The colours of a run's badge. -/
def badgeClass : RunStatus → String
  | .passed => "bg-green-100 text-green-800"
  | .failed => "bg-red-100 text-red-800"
  | _ => "bg-blue-100 text-blue-800"

/-- `run.status.toUpperCase()`. -/
def badgeText : RunStatus → String
  | .queued => "QUEUED"
  | .running => "RUNNING"
  | .passed => "PASSED"
  | .failed => "FAILED"
  | .skipped => "SKIPPED"

structure BugEntry where
  title : String
  expected : String
  actual : String
  deriving DecidableEq, Repr

structure UsageLine where
  tokens : Nat
  /-- `[...new Set(…)]`. -/
  providers : List String
  cost : Cost
  deriving DecidableEq

structure RunCard where
  key : Id
  name : String
  description : String
  icon : Option RunIcon
  badge : String × String
  /-- The panel with the bug reports, if it is shown. -/
  bugs : Option (List BugEntry)
  /-- The line under the card, if it is shown. -/
  usage : Option UsageLine
  deriving DecidableEq

/-- `run.testCases[0]?.bugReports?.length > 0`. -/
def bugPanel (row : RunRow) : Option (List BugEntry) :=
  match row.testCases.head? with
  | some (_, bugReports) =>
      if bugReports.length > 0 then
        some (bugReports.map fun bug => ⟨bug.title, bug.expected, bug.actual⟩)
      else none
  | none => none

/-- Added to a number, the `null` of a row without a cost counts as zero. -/
def addCost (sum : Cost) (u : LLMUsage) : Cost := sum + u.costUsd.getD 0

def usageLine (row : RunRow) : Option UsageLine :=
  if row.llmUsages.length > 0 then
    some
      { tokens := row.llmUsages.foldl (fun sum u => sum + u.promptTokens + u.completionTokens) 0
        providers := (row.llmUsages.map LLMUsage.provider).eraseDups
        cost := row.llmUsages.foldl addCost 0 }
  else none

/-- One card: `run.feature.name` throws if there is no feature. -/
def renderRun (row : RunRow) : Except String RunCard :=
  match row.feature with
  | none => .error "Cannot read properties of null (reading 'name')"
  | some feature => .ok
      { key := row.id
        name := feature.name
        description := feature.description
        icon := runIcon row.run.status
        badge := (badgeClass row.run.status, badgeText row.run.status)
        bugs := bugPanel row
        usage := usageLine row }

structure Page where
  cards : List RunCard
  /-- The text that stands there instead of cards. -/
  placeholder : Option String
  deriving DecidableEq

def App (runs : List RunRow) : Except String Page :=
  (runs.mapM renderRun).map fun cards =>
    { cards
      placeholder := if runs.length = 0 then
          some "No test runs yet. Make a commit to see them appear here automatically!"
        else none }

/-! ## Rendering -/

theorem renderRun_ok {row : RunRow} {f : Feature} (h : row.feature = some f) :
    ∃ card, renderRun row = .ok card ∧ card.key = row.id := by
  rw [renderRun, h]
  exact ⟨_, rfl, rfl⟩

/-- The page has one card for each row, in order, if every row has a feature. -/
theorem App_ok {runs : List RunRow} (h : ∀ row ∈ runs, ∃ f, row.feature = some f) :
    ∃ page, App runs = .ok page ∧ page.cards.map RunCard.key = runs.map RunRow.id ∧
      ∀ card ∈ page.cards, ∃ row ∈ runs, renderRun row = .ok card := by
  have hcards : ∃ cards, runs.mapM renderRun = .ok cards ∧
      cards.map RunCard.key = runs.map RunRow.id ∧
      ∀ card ∈ cards, ∃ row ∈ runs, renderRun row = .ok card := by
    induction runs with
    | nil => exact ⟨[], rfl, rfl, List.forall_mem_nil _⟩
    | cons row runs ih =>
      obtain ⟨⟨f, hf⟩, hrest⟩ := List.forall_mem_cons.mp h
      obtain ⟨cards, hcards, hkeys, hall⟩ := ih hrest
      obtain ⟨card, hcard, hkey⟩ := renderRun_ok hf
      refine ⟨card :: cards, ?_, by rw [List.map_cons, List.map_cons, hkey, hkeys], ?_⟩
      · rw [List.mapM_cons, hcard, hcards]
        rfl
      · refine List.forall_mem_cons.mpr ⟨⟨row, List.mem_cons_self, hcard⟩, fun c hc => ?_⟩
        obtain ⟨r, hr, hrender⟩ := hall c hc
        exact ⟨r, List.mem_cons_of_mem row hr, hrender⟩
  obtain ⟨cards, hcards, hkeys, hall⟩ := hcards
  exact ⟨_, by rw [App, hcards]; rfl, hkeys, hall⟩

/-- The panel shows what is reported for the first test case. -/
theorem bugPanel_some {row : RunRow} {bugs : List BugEntry} (h : bugPanel row = some bugs) :
    ∃ c ∈ row.testCases, c.2 ≠ [] := by
  unfold bugPanel at h
  cases hhead : row.testCases.head? with
  | none =>
    rw [hhead] at h
    cases h
  | some c =>
    obtain ⟨case, bugReports⟩ := c
    refine ⟨(case, bugReports), List.mem_of_head? hhead, ?_⟩
    rintro rfl
    rw [hhead] at h
    cases h

end AutoQa.Orchestrator

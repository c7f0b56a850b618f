import AutoQa.Db.Projects

/-!
# Writes and the schema

A write as Prisma receives it: the table and the fields of its `data` object,
each with a value or `undefined`. The schema says which fields a table has and
which of them a new row must be given.
-/

namespace AutoQa.Db

open AutoQa.LlmAgents

/-! ## The schema -/

inductive Table where
  | project
  | feature
  | testRun
  | testCase
  | bugReport
  | llmUsage
  deriving DecidableEq, Repr

/-- A scalar field of a model; it is required if it has neither `?` nor `@default`. -/
structure Column where
  name : String
  required : Bool
  deriving DecidableEq, Repr

def required (name : String) : Column := ⟨name, true⟩

def optional (name : String) : Column := ⟨name, false⟩

/-- The models of `schema.prisma`, without their relations. -/
def Table.columns : Table → List Column
  | .project => [optional "id", required "name", required "repoPath", required "localUrl",
      optional "createdAt"]
  | .feature => [optional "id", required "projectId", optional "commitId", required "name",
      required "description", required "status", optional "firstSeenAt", optional "discoveredVia",
      optional "pageUrl", optional "selector", optional "featureType", optional "covered",
      optional "lastTestedAt"]
  | .testRun => [optional "id", required "featureId", required "triggeredBy", required "status",
      optional "startedAt", optional "finishedAt"]
  | .testCase => [optional "id", required "testRunId", required "type", required "description",
      required "status", optional "durationMs"]
  | .bugReport => [optional "id", required "testCaseId", required "severity", required "title",
      required "expected", required "actual", optional "screenshotPath"]
  | .llmUsage => [optional "id", optional "testRunId", optional "featureId", required "role",
      required "provider", required "model", required "promptTokens",
      required "completionTokens", required "costUsd", optional "createdAt"]

/-! ## Writes -/

inductive Value where
  | null
  | id (row : Id)
  | text (s : String)
  | int (n : Nat)
  | float (c : Cost)
  | bool (b : Bool)
  | date (time : Nat)
  deriving DecidableEq

inductive WriteKind where
  | create
  | update
  deriving DecidableEq, Repr

/-- A field whose value is `undefined` has none here. -/
structure Write where
  kind : WriteKind
  table : Table
  data : List (String × Option Value)
  deriving DecidableEq

namespace Write

def supplies (w : Write) (name : String) : Bool := (w.data.lookup name).join.isSome

/-- The required fields that a new row is not given. -/
def missing (w : Write) : List Column :=
  match w.kind with
  | .create => w.table.columns.filter fun c => c.required && !w.supplies c.name
  | .update => []

/-- The fields that the table does not have. -/
def undeclared (w : Write) : List String :=
  (w.data.map Prod.fst).filter fun name => !w.table.columns.any fun c => c.name == name

/-- Prisma's validation finds every required field and no other than the table's. -/
def Fits (w : Write) : Prop := w.missing = [] ∧ w.undeclared = []

instance (w : Write) : Decidable w.Fits := inferInstanceAs (Decidable (_ ∧ _))

end Write

/-! ## The texts of the enumerated columns -/

def FeatureStatus.text : FeatureStatus → String
  | .discovered => "discovered"
  | .testing => "testing"
  | .verified => "verified"
  | .broken => "broken"

def RunStatus.text : RunStatus → String
  | .queued => "queued"
  | .running => "running"
  | .passed => "passed"
  | .failed => "failed"
  | .skipped => "skipped"

def CaseStatus.text : CaseStatus → String
  | .pending => "pending"
  | .pass => "pass"
  | .fail => "fail"
  | .inconclusive => "inconclusive"

def UsageRole.text : UsageRole → String
  | .testPlanner => "testPlanner"
  | .resultAnalyzer => "resultAnalyzer"
  | .diffAnalyzer => "diffAnalyzer"

def severityText : Severity → String
  | .low => "low"
  | .medium => "medium"
  | .high => "high"
  | .critical => "critical"

def featureTypeText : FeatureType → String
  | .button => "button"
  | .form => "form"
  | .navLink => "nav-link"
  | .animationCandidate => "animation-candidate"
  | .apiEndpoint => "api-endpoint"
  | .llmIntegration => "llm-integration"

/-! ## The rows that several places create -/

/-- `prisma.project.create`, with a URL that may be `undefined`. -/
def projectWrite (name repoPath : String) (localUrl : Option String) : Write where
  kind := .create
  table := .project
  data := [("name", some (.text name)), ("repoPath", some (.text repoPath)),
    ("localUrl", localUrl.map .text)]

/-- A project without a URL does not fit. -/
theorem projectWrite_fits (name repoPath : String) (localUrl : Option String) :
    (projectWrite name repoPath localUrl).Fits ↔ localUrl.isSome := by
  cases localUrl with
  | none =>
    have hmissing : (projectWrite name repoPath none).missing = [required "localUrl"] := rfl
    exact ⟨fun h => absurd (hmissing.symm.trans h.1) (List.cons_ne_nil _ _), nofun⟩
  | some url => exact ⟨fun _ => rfl, fun _ => ⟨rfl, rfl⟩⟩

end AutoQa.Db

import AutoQa.LlmAgents.Cost
import AutoQa.LlmAgents.FeatureAudit
import AutoQa.LlmAgents.ResultAnalyzer

/-!
# The database

The tables of `schema.prisma` that the commands write. A row is identified by
its position in its table: rows are appended by `create`, changed in place by
`update` and never deleted, so positions serve as the unique ids that the
database generates. Enumerated columns are inductive types.
-/

set_option linter.dupNamespace false

namespace AutoQa.Db

open AutoQa.LlmAgents

abbrev Id := Nat

inductive FeatureStatus where
  | discovered
  | testing
  | verified
  | broken
  deriving DecidableEq, Repr

inductive RunStatus where
  | queued
  | running
  | passed
  | failed
  | skipped
  deriving DecidableEq, Repr

inductive CaseStatus where
  | pending
  | pass
  | fail
  | inconclusive
  deriving DecidableEq, Repr

inductive UsageRole where
  | testPlanner
  | resultAnalyzer
  | diffAnalyzer
  deriving DecidableEq, Repr

structure Feature extends AuditFeature where
  projectId : Id
  description : String
  status : FeatureStatus
  covered : Bool
  lastTestedAt : Option Nat
  deriving DecidableEq, Repr

/-- The audit creates its runs without a `triggeredBy`. -/
structure TestRun where
  featureId : Id
  triggeredBy : Option String
  status : RunStatus
  startedAt : Nat
  finishedAt : Option Nat
  deriving DecidableEq, Repr

structure TestCase where
  testRunId : Id
  type : String
  description : String
  status : CaseStatus
  durationMs : Option Nat
  deriving DecidableEq, Repr

structure BugReport where
  testCaseId : Id
  severity : Severity
  title : String
  expected : String
  actual : String
  screenshotPath : Option String
  deriving DecidableEq, Repr

/-- The audit records usages without a role and a cost. -/
structure LLMUsage where
  testRunId : Option Id
  featureId : Option Id
  role : Option UsageRole
  provider : String
  model : String
  promptTokens : Nat
  completionTokens : Nat
  costUsd : Option Cost
  deriving DecidableEq

structure Db where
  features : List Feature
  testRuns : List TestRun
  testCases : List TestCase
  bugReports : List BugReport
  llmUsages : List LLMUsage
  deriving DecidableEq

namespace Db

def empty : Db := ⟨[], [], [], [], []⟩

def createFeature (feature : Feature) (db : Db) : Db :=
  { db with features := db.features ++ [feature] }

/-- `prisma.feature.update({ where: { id }, … })`. -/
def updateFeature (id : Id) (f : Feature → Feature) (db : Db) : Db :=
  { db with features := db.features.modify id f }

def createRun (run : TestRun) (db : Db) : Db := { db with testRuns := db.testRuns ++ [run] }

def updateRun (id : Id) (f : TestRun → TestRun) (db : Db) : Db :=
  { db with testRuns := db.testRuns.modify id f }

def createCase (case : TestCase) (db : Db) : Db := { db with testCases := db.testCases ++ [case] }

def updateCase (id : Id) (f : TestCase → TestCase) (db : Db) : Db :=
  { db with testCases := db.testCases.modify id f }

def createBug (bug : BugReport) (db : Db) : Db := { db with bugReports := db.bugReports ++ [bug] }

def createUsage (usage : LLMUsage) (db : Db) : Db :=
  { db with llmUsages := db.llmUsages ++ [usage] }

/-- `prisma.lLMUsage.findMany({ where: { testRunId } })`. -/
def usagesOf (db : Db) (run : Id) : List LLMUsage :=
  db.llmUsages.filter fun u => u.testRunId == some run

/-- The bug reports of a test case. -/
def bugsOf (db : Db) (case : Id) : List BugReport :=
  db.bugReports.filter fun b => b.testCaseId == case

/-- The test cases of a run, with their ids. -/
def casesOf (db : Db) (run : Id) : List (Id × TestCase) :=
  (db.testCases.zipIdx.filter fun c => c.1.testRunId == run).map fun c => (c.2, c.1)

/-- The status of the run with this id. -/
def runStatus (db : Db) (id : Id) : Option RunStatus := (db.testRuns[id]?).map TestRun.status

end Db

/-- A TestRun with the relations that the dashboard's queries include. -/
structure RunRow where
  id : Id
  run : TestRun
  feature : Option Feature
  llmUsages : List LLMUsage
  testCases : List (TestCase × List BugReport)
  deriving DecidableEq

/-- `prisma.testRun.findUnique({ where: { id }, include: … })`. -/
def Db.findRun (db : Db) (id : Id) : Option RunRow :=
  (db.testRuns[id]?).map fun run =>
    { id, run
      feature := db.features[run.featureId]?
      llmUsages := db.usagesOf id
      testCases := (db.casesOf id).map fun c => (c.2, db.bugsOf c.1) }

end AutoQa.Db

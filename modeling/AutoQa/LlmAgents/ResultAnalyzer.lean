import AutoQa.LlmAgents.Structured

/-!
# The result analyzer

`analyzeResults` (`result-analyzer.ts`): the verdict on a run, from the logs,
the network record and the error message of its artifacts.
-/

namespace AutoQa.LlmAgents

open AutoQa.Base

inductive Verdict where
  | pass
  | fail
  deriving DecidableEq, Repr

inductive Severity where
  | low
  | medium
  | high
  | critical
  deriving DecidableEq, Repr

structure ResultAnalysis where
  status : Verdict
  title : String
  expected : String
  actual : String
  explanation : String
  likelyCause : Option String
  reproSteps : Option (List String)
  severity : Option Severity
  deriving DecidableEq, Repr

/-- `ResultAnalyzerSchema`. -/
def resultAnalyzerSchema : Schema ResultAnalysis := fun v => do
  let status ← Schema.field v "status" (.enum [("pass", .pass), ("fail", .fail)])
  let title ← Schema.field v "title" .string
  let expected ← Schema.field v "expected" .string
  let actual ← Schema.field v "actual" .string
  let explanation ← Schema.field v "explanation" .string
  let likelyCause ← Schema.optionalField v "likelyCause" .string
  let reproSteps ← Schema.optionalField v "reproSteps" (.array .string)
  let severity ← Schema.optionalField v "severity"
    (.enum [("low", .low), ("medium", .medium), ("high", .high), ("critical", .critical)])
  pure { status, title, expected, actual, explanation, likelyCause, reproSteps, severity }

def resultAnalyzerPrompt : String :=
  "You are result-analyzer, an AI agent that analyzes UI test execution artifacts.\nYou output strictly JSON. Evaluate the provided console logs, network logs, and any execution errors to determine if the test passed or failed.\nIf the test fails, you must provide a detailed structured Bug Report including 'likelyCause', a step-by-step array of 'reproSteps', and a 'severity' level (low, medium, high, critical)."

def analyzeUserMessage (e : Evidence) : String :=
  "Logs: " ++ e.logs ++ "\nNetwork: " ++ e.network ++ "\nError: "
    ++ (orElse e.errorMessage (some "None")).getD ""

def analyzeMessages (e : Evidence) : List Message :=
  [{ role := .system, content := resultAnalyzerPrompt },
    { role := .user, content := analyzeUserMessage e }]

/-- The usage an analyzer reports: its provider's name and model, which for a
chain are the primary's name and `unknown`, with the response's tokens. -/
def reportedUsage (provider : LLMProvider) (u : Usage) : UsageEntry :=
  { provider := provider.name
    model := provider.model.getD "unknown"
    promptTokens := u.promptTokens
    completionTokens := u.completionTokens }

def analyzeResults (w : World) (e : Evidence) : Prog Trace (ResultAnalysis × UsageEntry) := do
  emit (.analyze e)
  let provider ← getRoleProvider w .resultAnalyzer
  let (result, usage) ← generateStructured w provider (analyzeMessages e)
    (w.zodToJsonSchema "resultSchema") resultAnalyzerSchema (validateWith resultAnalyzerSchema)
  pure (result, reportedUsage provider usage)

end AutoQa.LlmAgents

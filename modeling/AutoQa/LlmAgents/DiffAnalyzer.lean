import AutoQa.LlmAgents.ResultAnalyzer

/-!
# The diff analyzer

`analyzeDiff` (`diff-analyzer.ts`): a feature's name and description, from the
text of a diff.
-/

namespace AutoQa.LlmAgents

open AutoQa.Base

structure DiffAnalysis where
  featureName : String
  description : String
  deriving DecidableEq, Repr

/-- `DiffAnalyzerSchema`. -/
def diffAnalyzerSchema : Schema DiffAnalysis := fun v => do
  let featureName ← Schema.field v "featureName" .string
  let description ← Schema.field v "description" .string
  pure { featureName, description }

def diffAnalyzerPrompt : String :=
  "You are diff-analyzer, an AI agent that analyzes git diffs to detect new features or changes.\nYou output strictly JSON. Write a short, clear 'featureName' and a plain English 'description' of the change that a developer would use to instruct a tester (e.g., 'test the new checkout flow').\nIf the diff contains minor fixes, describe what needs to be verified."

def analyzeDiffMessages (diffText : String) : List Message :=
  [{ role := .system, content := diffAnalyzerPrompt },
    { role := .user, content := "Git Diff:\n" ++ diffText }]

def analyzeDiff (w : World) (diffText : String) : Prog Trace (DiffAnalysis × UsageEntry) := do
  let provider ← getRoleProvider w .diffAnalyzer
  let (result, usage) ← generateStructured w provider (analyzeDiffMessages diffText)
    (w.zodToJsonSchema "diffSchema") diffAnalyzerSchema (validateWith diffAnalyzerSchema)
  pure (result, reportedUsage provider usage)

end AutoQa.LlmAgents

import AutoQa.LlmAgents.Guardrails
import AutoQa.LlmAgents.TestPlanner

/-!
# Auditing one feature

`executeFeatureAudit` (`test-planner.ts`): the guardrail check, then an agent
run with an instruction chosen by the feature's type.
-/

namespace AutoQa.LlmAgents

open AutoQa.Base

/-- The feature types of the classifier. -/
inductive FeatureType where
  | button
  | form
  | navLink
  | animationCandidate
  | apiEndpoint
  | llmIntegration
  deriving DecidableEq, Repr

/-- The fields of a feature record that an audit reads; `none` is `null`. -/
structure AuditFeature where
  name : String
  selector : Option String
  featureType : Option FeatureType
  pageUrl : Option String
  deriving DecidableEq, Repr

/-- What an audit of one feature returns. -/
inductive FeatureResult where
  | skipped (reason : Option String)
  | verified (artifacts : Artifacts)
  deriving DecidableEq, Repr

/-- `result.usages`. -/
def FeatureResult.usages : FeatureResult → List UsageEntry
  | .skipped _ => []
  | .verified artifacts => artifacts.usages

/-- The instruction for a feature type; an absent value prints as `null`. -/
def auditInstruction (feature : AuditFeature) : String :=
  let selector := feature.selector.getD "null"
  match feature.featureType with
  | some .button =>
      "Interact with the button at selector \"" ++ selector
        ++ "\". First, observe the page state (URL, text). Click the button, and explicitly assert what changed (e.g., URL change, new element, or text update)."
  | some .form =>
      "Interact with the form at selector \"" ++ selector
        ++ "\". Fill the form using SAFE, MOCK fixture data (do not use real PII or payment info). Submit it, and check for the expected success or validation behavior."
  | some .animationCandidate =>
      "Test the animation for element \"" ++ selector
        ++ "\". Use the 'playwright_check_animation' tool with durationMs: 500 to confirm its bounding box actually changes visibly."
  | some .apiEndpoint =>
      "Test the API endpoint \"" ++ feature.pageUrl.getD "null"
        ++ "\". Use the 'playwright_api_fetch' tool to call it directly. Verify that the response status code is 200 or appropriate."
  | some .llmIntegration =>
      "Exercise the LLM/AI integration at \"" ++ selector
        ++ "\". Submit a benign prompt (e.g., \"Hello\") and verify that a response is returned within a reasonable time. Do not assert the output content, just that it functions."
  | some .navLink | none =>
      "Interact with the element \"" ++ feature.name ++ "\" at selector \"" ++ selector
        ++ "\" and verify it functions correctly."

def executeFeatureAudit (w : World) (testRunId : String) (feature : AuditFeature) (url : String)
    (provider? : Option LLMProvider) : Prog Trace FeatureResult := do
  let provider ← match provider? with
    | some provider => pure provider
    | none => getRoleProvider w .testPlanner
  let safeCheck ← isElementSafe w
    { text := feature.name, selector := feature.selector.bind orUndefined }
  if safeCheck.isSafe then do
    let result ← executeTestAutonomous w testRunId (auditInstruction feature)
      ((orElse feature.pageUrl (some url)).getD "") (some provider)
    pure (.verified result)
  else pure (.skipped safeCheck.reason)

end AutoQa.LlmAgents

import AutoQa.LlmAgents.FeatureAudit
import AutoQa.LlmAgents.Structured

/-!
# The feature classifier

`classifyFeatures` (`feature-classifier.ts`): the testable features of a crawled
page, from its accessibility tree, its endpoints and the code's integrations.
-/

namespace AutoQa.LlmAgents

open AutoQa.Base

/-- An entry of `features`; `none` is `undefined`. -/
structure ClassifiedFeature where
  name : String
  description : String
  featureType : FeatureType
  selector : Option String
  pageUrl : Option String
  deriving DecidableEq, Repr

def featureTypeNames : List (String × FeatureType) :=
  [("button", .button), ("form", .form), ("nav-link", .navLink),
    ("animation-candidate", .animationCandidate), ("api-endpoint", .apiEndpoint),
    ("llm-integration", .llmIntegration)]

def classifiedFeatureSchema : Schema ClassifiedFeature := fun v => do
  let name ← Schema.field v "name" .string
  let description ← Schema.field v "description" .string
  let featureType ← Schema.field v "featureType" (.enum featureTypeNames)
  let selector ← Schema.undefinedField v "selector" .string
  let pageUrl ← Schema.undefinedField v "pageUrl" .string
  pure { name, description, featureType, selector, pageUrl }

/-- `FeatureClassifierSchema`, the value of its only field. -/
def featureClassifierSchema : Schema (List ClassifiedFeature) := fun v =>
  Schema.field v "features" (.array classifiedFeatureSchema)

def featureClassifierPrompt : String :=
  "You are feature-classifier, an AI agent that analyzes a page's accessibility tree, endpoints, and codebase integrations to identify and classify testable features.\nYour goal is to extract distinct, interactive, or functional features and label them as one of: button, form, nav-link, animation-candidate, api-endpoint, or llm-integration.\n\nRules:\n1. Provide a concise 'name' (e.g. \"Login Form\" or \"Submit Button\").\n2. Provide a 'description' of what the feature does or how it's interacted with.\n3. Provide a 'selector' that can be used by Playwright (like 'button[name=\"Submit\"]') if applicable.\n4. Set 'pageUrl' to the URL where this was found."

/-- A page as the crawler hands it to the classifier. -/
structure PageData where
  pageUrl : String
  a11ySnapshot : Json
  endpoints : Json
  integrations : Json

def classifyMessages (page : PageData) : List Message :=
  [{ role := .system, content := featureClassifierPrompt },
    { role := .user
      content := "Analyze the following data from URL: " ++ page.pageUrl
        ++ "\n\nAccessibility Tree:\n" ++ page.a11ySnapshot.stringify 0
        ++ "\n\nAPI Endpoints:\n" ++ page.endpoints.stringify 0
        ++ "\n\nCode Integrations:\n" ++ page.integrations.stringify 0 }]

/-- `result.features` and `result.usages`. -/
def classifyFeatures (w : World) (page : PageData) (provider : LLMProvider) :
    Prog Trace (List ClassifiedFeature × List Usage) := do
  let (features, usage) ← generateStructured w provider (classifyMessages page)
    (namedJsonSchema w "FeatureClassifierSchema") featureClassifierSchema
    (validateWith featureClassifierSchema)
  pure (features, [usage])

end AutoQa.LlmAgents

import AutoQa.LlmAgents.Structured

/-!
# The safety guardrail

`isElementSafe` (`guardrails.ts`): the block lists of the configuration, then
a provider's judgment for texts that hold a risk keyword. A configuration that
does not parse makes the check throw; a failed judgment counts as unsafe.
-/

namespace AutoQa.LlmAgents

open AutoQa.Base AutoQa.Base.Text

structure Element where
  text : String
  selector : Option String := none
  formId : Option String := none
  formAction : Option String := none
  deriving DecidableEq, Repr

structure GuardrailCheck where
  isSafe : Bool
  reason : Option String := none
  deriving DecidableEq, Repr

def GuardrailCheck.refuse (reason : String) : GuardrailCheck :=
  { isSafe := false, reason := some reason }

/-- The three block lists under `audit`. The selectors are not read before an
element with a selector is checked, which is where a value that cannot be
iterated over throws. -/
structure BlockLists where
  avoidText : List String
  avoidSelectors : Except String (List String)
  neverSubmitForms : List String

def riskKeywords : List String :=
  ["drop", "erase", "clear", "reset", "pay", "purchase", "buy", "checkout", "submit payment"]

/-- `config[key] || []`. -/
def listOf (config : Json) (key : String) : Json :=
  match config.member key with
  | some v => if v.truthy then v else .arr []
  | none => .arr []

/-- `.map((t) => t.toLowerCase())`. -/
def lowerAll (w : World) : Json → Except String (List String)
  | .arr items => items.mapM fun
      | .str t => .ok (w.toLowerCase t)
      | .null => .error "Cannot read properties of null (reading 'toLowerCase')"
      | _ => .error "t.toLowerCase is not a function"
  | _ => .error "map is not a function"

/-- The texts that `for (const sel of avoidSelectors)` compares: the entries of
an array, the characters of a string. -/
def iterated : Json → Except String (List String)
  | .arr items => .ok (items.map Json.toText)
  | .str s => .ok (s.toList.map fun c => String.ofList [c])
  | _ => .error "avoidSelectors is not iterable"

/-- `JSON.parse(file).audit || {}`, or `{}` when there is no file. -/
def auditConfig (file : Option String) : Except String Json :=
  match file with
  | none => .ok (.obj [])
  | some text =>
      match Json.parse text with
      | none => .error "Unexpected token in JSON"
      | some config => (readField config "audit").map fun
          | some audit => if audit.truthy then audit else .obj []
          | none => .obj []

def blockLists (w : World) (file : Option String) : Except String BlockLists := do
  let config ← auditConfig file
  let avoidText ← lowerAll w (listOf config "avoidText")
  let neverSubmitForms ← lowerAll w (listOf config "neverSubmitForms")
  pure { avoidText, avoidSelectors := iterated (listOf config "avoidSelectors"), neverSubmitForms }

/-- The first entry of `entries` inside `text`, as a block list reports it. -/
def matchReason (list text : String) (entries : List String) : Option String :=
  (entries.find? fun entry => includes text entry).map fun entry =>
    "Matched " ++ list ++ ": \"" ++ entry ++ "\""

/-- The form description that `neverSubmitForms` is matched against; elements
without a form id and a form action have none. -/
def formText (w : World) (element : Element) : Option String :=
  match element.formId.bind orUndefined, element.formAction.bind orUndefined with
  | none, none => none
  | id, action => some (w.toLowerCase (id.getD "" ++ " " ++ action.getD ""))

/-- The check of the element's selector, if it has one. -/
def blockedSelector (lists : BlockLists) (element : Element) : Except String (Option String) :=
  match element.selector.bind orUndefined with
  | some selector => lists.avoidSelectors.map (matchReason "avoidSelector" selector)
  | none => .ok none

/-- The three block lists, in the order of the source. -/
def blocked (w : World) (lists : BlockLists) (element : Element) : Except String (Option String) :=
  match matchReason "avoidText" (w.toLowerCase element.text) lists.avoidText with
  | some reason => .ok (some reason)
  | none => (blockedSelector lists element).map fun
      | some reason => some reason
      | none => (formText w element).bind fun form =>
          matchReason "neverSubmitForms" form lists.neverSubmitForms

structure DestructiveCheck where
  isDestructive : Bool
  reason : String
  deriving DecidableEq, Repr

def destructiveSchema : Schema DestructiveCheck := fun v => do
  let isDestructive ← Schema.field v "isDestructive" .boolean
  let reason ← Schema.field v "reason" .string
  pure { isDestructive, reason }

def guardrailMessages (element : Element) : List Message :=
  [{ role := .system
     content := "You are a safety guardrail for an automated UI testing bot. Determine if clicking or submitting this element is a \"destructive\" or \"financial\" action that should be avoided in an automated test (e.g., deleting data, making payments, logging out). Default to true (destructive) if you are unsure." },
    { role := .user
      content := "Element Text: \"" ++ element.text ++ "\"\nSelector: \""
        ++ (orElse element.selector (some "none")).getD "" ++ "\"\nIs this destructive?" }]

/-- The provider's judgment. Unlike the analyzers, `validate` has no check for
an absent text: reading it throws. -/
def llmCheck (w : World) (element : Element) : Prog Trace GuardrailCheck := do
  let provider ← getRoleProvider w .featureClassifier
  let (result, _) ← generateStructured w provider (guardrailMessages element)
    (namedJsonSchema w "DestructiveCheck") destructiveSchema
    fun res => (parseText destructiveSchema res.text).map fun _ => ()
  pure (if result.isDestructive then
      GuardrailCheck.refuse ("LLM flagged as destructive: " ++ result.reason)
    else { isSafe := true })

def isElementSafe (w : World) (element : Element) : Prog Trace GuardrailCheck := do
  let file ← readConfig w
  let lists ← Prog.ofExcept (blockLists w file)
  match ← Prog.ofExcept (blocked w lists element) with
  | some reason => pure (GuardrailCheck.refuse reason)
  | none =>
      if riskKeywords.any fun k => includes (w.toLowerCase element.text) k then
        Prog.tryCatch (llmCheck w element) fun _ =>
          pure (GuardrailCheck.refuse "LLM check failed, skipped (skip-if-uncertain)")
      else pure { isSafe := true }

end AutoQa.LlmAgents

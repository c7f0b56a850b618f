import AutoQa.LlmAgents.Types
import Mathlib.Data.Rat.Defs
import Mathlib.Algebra.BigOperators.Group.List.Basic
import Mathlib.Tactic.Ring

/-!
# What a call costs

`calculateCost` (`cost-calculator.ts`) in exact rational arithmetic, where the
source multiplies and adds doubles. A cost is `NaN` under a key that every
object inherits: there the rate table holds a value without prices. `NaN`
absorbs every addition and is below no bound, so a budget check never sees it.
-/

namespace AutoQa.LlmAgents

/-- A number of USD, as the source computes it. -/
inductive Cost where
  | nan
  | usd (amount : ℚ)
  deriving DecidableEq

namespace Cost

def add : Cost → Cost → Cost
  | .usd a, .usd b => .usd (a + b)
  | _, _ => .nan

instance : Zero Cost := ⟨.usd 0⟩

instance : Add Cost := ⟨add⟩

instance : AddCommMonoid Cost where
  nsmul := nsmulRec
  add_assoc a b c := by
    cases a <;> cases b <;> cases c <;> first | rfl | exact congrArg usd (add_assoc _ _ _)
  zero_add a := by cases a <;> first | rfl | exact congrArg usd (zero_add _)
  add_zero a := by cases a <;> first | rfl | exact congrArg usd (add_zero _)
  add_comm a b := by cases a <;> cases b <;> first | rfl | exact congrArg usd (add_comm _ _)

@[simp] theorem usd_add_usd (a b : ℚ) : usd a + usd b = usd (a + b) := rfl

@[simp] theorem nan_add (a : Cost) : nan + a = nan := rfl

/-- `a >= b`. -/
def atLeast : Cost → ℚ → Bool
  | .usd a, b => decide (b ≤ a)
  | .nan, _ => false

end Cost

/-- USD per million tokens. -/
structure Rate where
  prompt : ℚ
  completion : ℚ

def rates : List (String × Rate) :=
  [("gemini-2.5-flash", ⟨75 / 1000, 30 / 100⟩),
    ("gemini-1.5-pro", ⟨350 / 100, 1050 / 100⟩),
    ("claude-3-5-sonnet-20241022", ⟨3, 15⟩),
    ("claude-3-haiku-20240307", ⟨25 / 100, 125 / 100⟩),
    ("gpt-4o", ⟨5, 15⟩),
    ("gpt-4o-mini", ⟨15 / 100, 60 / 100⟩)]

/-- The keys that the rate table inherits: what it holds there is truthy, and
its `prompt` and `completion` are `undefined`. -/
def inheritedKeys : List String :=
  ["constructor", "__defineGetter__", "__defineSetter__", "hasOwnProperty", "__lookupGetter__",
    "__lookupSetter__", "isPrototypeOf", "propertyIsEnumerable", "toString", "valueOf",
    "__proto__", "toLocaleString"]

def calculateCost (provider model : String) (promptTokens completionTokens : Nat) : Cost :=
  if provider = "local" then .usd 0
  else match rates.lookup model with
    | some rate =>
        .usd (promptTokens / 1000000 * rate.prompt + completionTokens / 1000000 * rate.completion)
    | none => if model ∈ inheritedKeys then .nan else .usd 0

/-- Cost is additive in the tokens, so grouping calls by model loses nothing. -/
theorem calculateCost_add (provider model : String) (p c p' c' : Nat) :
    calculateCost provider model (p + p') (c + c')
      = calculateCost provider model p c + calculateCost provider model p' c' := by
  unfold calculateCost
  split
  · simp
  · split
    · simp only [Cost.usd_add_usd, Cost.usd.injEq, Nat.cast_add]
      ring
    · split <;> simp

def UsageEntry.cost (e : UsageEntry) : Cost :=
  calculateCost e.provider e.model e.promptTokens e.completionTokens

/-- `calculateCost` of one response, under the names its usage carries. -/
def Usage.cost (u : Usage) : Cost :=
  calculateCost (u.provider.getD "undefined") (u.model.getD "undefined") u.promptTokens
    u.completionTokens

end AutoQa.LlmAgents

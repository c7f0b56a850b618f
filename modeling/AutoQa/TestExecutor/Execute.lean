import AutoQa.LlmAgents.World

/-!
# The deterministic executor

`executeTest` (`test-executor/index.ts`): a fixed list of steps in a fresh
browser. An error of a step ends the steps and becomes the `errorMessage` of
the artifacts; an error of anything else is thrown.
-/

namespace AutoQa.TestExecutor

open AutoQa.Base AutoQa.LlmAgents

/-- The actions `executeTest` knows; it ignores every other one. -/
inductive Action where
  | navigate
  | click
  | fill
  | wait
  | assert
  | other (name : String)
  deriving DecidableEq, Repr

structure Step where
  action : Action
  description : String
  selector : Option String := none
  value : Option String := none
  deriving DecidableEq, Repr

def browser (w : World) (op : BrowserOp) : Prog Trace Unit :=
  interact (fun t => w.browser t op) (.browser op)

/-- The browser operation of a step; a step without a selector falls back to
the first element that fits. -/
def stepOp (url : String) (step : Step) : Option BrowserOp :=
  let value := step.value.bind orUndefined
  match step.action with
  | .navigate => some (.goto url)
  | .click => some (.click (((step.selector.bind orUndefined).or value).getD step.description))
  | .fill => some (.fill ((step.selector.bind orUndefined).getD "textbox") (value.getD ""))
  | .wait => some (.waitForTimeout 2000)
  | .assert => some (.waitForTimeout 1000)
  | .other _ => none

def runSteps (w : World) (url : String) : List Step → Prog Trace Unit
  | [] => pure ()
  | step :: steps => do
      match stepOp url step with
      | some op => browser w op
      | none => pure ()
      runSteps w url steps

def executeTest (w : World) (testRunId url : String) (steps : List Step) : Prog Trace Artifacts := do
  let artifactsDir := w.cwd ++ "/artifacts/" ++ testRunId
  browser w .mkdir
  browser w .launch
  browser w .newContext
  browser w .newPage
  let errorMessage ← Prog.tryCatch (do runSteps w url steps; pure none) fun e => pure (some e)
  browser w (.screenshot (artifactsDir ++ "/final.png"))
  browser w .close
  let past ← Prog.get
  let logs := w.pageLogs (elapsed past)
  let network := w.pageNetwork (elapsed past)
  browser w (.writeFile (artifactsDir ++ "/logs.txt") logs)
  browser w (.writeFile (artifactsDir ++ "/network.txt") network)
  match errorMessage.bind orUndefined with
  | some e => browser w (.writeFile (artifactsDir ++ "/error.txt") e)
  | none => pure ()
  pure { logs, network, errorMessage, screenshotPath := artifactsDir ++ "/final.png", usages := [] }

end AutoQa.TestExecutor

import AutoQa.Base.Proc
import AutoQa.Base.System
import AutoQa.Db.Schema
import AutoQa.LlmAgents.DiffAnalyzer

/-!
# The watcher

`startWatcher` (`watcher.ts`) after its set-up, as a system of steps: file
changes restart the debounce timer, the timer's callback waits at its `await`s,
and time passes. The steps come in any order in which they are enabled.
-/

namespace AutoQa.Orchestrator

open AutoQa.Base AutoQa.LlmAgents AutoQa.Db

/-- The data of a `run-test` job. -/
structure Job where
  featureId : Id
  instruction : String
  url : String
  deriving DecidableEq, Repr

/-- The steps of the timer's callback, by the type of their reply. -/
inductive WatchOp : Type → Type where
  /-- `git.status()`, of which `files` is read. -/
  | gitStatus : WatchOp (List String)
  | gitDiff : WatchOp String
  | analyzeDiff (diff : String) : WatchOp (DiffAnalysis × UsageEntry)
  | createFeature (analysis : DiffAnalysis) : WatchOp Id
  | createUsage (featureId : Id) (usage : UsageEntry) : WatchOp Unit
  | addJob (job : Job) : WatchOp Unit
  /-- `finally { isProcessing = false; }`. -/
  | clearProcessing : WatchOp Unit

abbrev WatchProc := Proc WatchOp

/-! ## The callback -/

/-- The `try` block when there are changes. The usage of `analyzeDiff` is always
there. -/
def enqueueChanges (localUrl : String) : WatchProc Unit := do
  let diff ← Proc.call .gitDiff
  let (analysis, usage) ← Proc.call (.analyzeDiff diff)
  let featureId ← Proc.call (.createFeature analysis)
  Proc.call (.createUsage featureId usage)
  Proc.call (.addJob { featureId, instruction := analysis.description, url := localUrl })

/-- The `try` block. -/
def processChanges (localUrl : String) : WatchProc Unit := do
  let files ← Proc.call .gitStatus
  if files = [] then pure () else enqueueChanges localUrl

/-- The callback after `isProcessing = true`: its `catch` block only prints. -/
def timerCallback (localUrl : String) : WatchProc Unit := do
  let _ ← (processChanges localUrl).attempt
  Proc.call .clearProcessing

/-! ## The system -/

/-- What happened, in order. -/
inductive WatchEvent where
  | changed (now : Nat) (filePath : String)
  /-- The timer fired; its callback started, or returned at once. -/
  | fired (now : Nat) (started : Bool)
  | statusRead (files : Except String (List String))
  | diffRead
  | analyzed
  | featureCreated
  | usageCreated
  | jobAdded
  | finished
  deriving DecidableEq

/-- What surrounds the watcher. Each answer depends on the number of events
before it; a write that is refused changes nothing. -/
structure WatchWorld where
  agents : World
  gitStatus : Nat → Except String (List String)
  gitDiff : Nat → Except String String
  write : Nat → Except String Unit
  projectId : Id
  localUrl : String

structure WatchData where
  now : Nat
  /-- The time at which the pending timer is due. -/
  debounceTimer : Option Nat
  isProcessing : Bool
  db : Db
  testQueue : List Job
  trace : Trace
  log : List WatchEvent

def WatchData.record (e : WatchEvent) (d : WatchData) : WatchData := { d with log := d.log ++ [e] }

/-- A write that goes through or throws. -/
def written {α : Type} (w : WatchWorld) (e : WatchEvent) (f : WatchData → α × WatchData) :
    Prog WatchData α := fun d =>
  match w.write d.log.length with
  | .ok () => (.ok (f d).1, (f d).2.record e)
  | .error err => (.error err, d.record e)

/-- The row of a discovered feature. -/
def discoveredFeature (projectId : Id) (analysis : DiffAnalysis) : Feature where
  name := analysis.featureName
  selector := none
  featureType := none
  pageUrl := none
  projectId := projectId
  description := analysis.description
  status := .discovered
  covered := false
  lastTestedAt := none

def diffUsageRow (featureId : Id) (u : UsageEntry) : LLMUsage where
  testRunId := none
  featureId := some featureId
  role := some .diffAnalyzer
  provider := u.provider
  model := u.model
  promptTokens := u.promptTokens
  completionTokens := u.completionTokens
  costUsd := some u.cost

def answer (w : WatchWorld) {ρ : Type} : WatchOp ρ → Prog WatchData ρ
  | .gitStatus => fun d =>
      (w.gitStatus d.log.length, d.record (.statusRead (w.gitStatus d.log.length)))
  | .gitDiff => fun d => (w.gitDiff d.log.length, d.record .diffRead)
  | .analyzeDiff diff => fun d =>
      let (r, trace) := LlmAgents.analyzeDiff w.agents diff d.trace
      (r, { d with trace }.record .analyzed)
  | .createFeature analysis => written w .featureCreated fun d =>
      (d.db.features.length,
        { d with db := d.db.createFeature (discoveredFeature w.projectId analysis) })
  | .createUsage featureId u => written w .usageCreated fun d =>
      ((), { d with db := d.db.createUsage (diffUsageRow featureId u) })
  | .addJob job => written w .jobAdded fun d =>
      ((), { d with testQueue := d.testQueue ++ [job] })
  | .clearProcessing => fun d => (.ok (), { d with isProcessing := false }.record .finished)

/-- The watcher: its variables and the callbacks that wait at an `await`. -/
structure Watcher where
  data : WatchData
  running : List (WatchProc Unit)

def Watcher.start (db : Db) (now : Nat) : Watcher where
  data := { now, debounceTimer := none, isProcessing := false, db, testQueue := [], trace := []
            log := [] }
  running := []

inductive WatchStep where
  /-- chokidar reports a change of a path that is not ignored. -/
  | change (filePath : String)
  | elapse (ms : Nat)
  | fire
  /-- The `i`-th waiting callback gets its reply and runs on to its next `await`. -/
  | resume (i : Nat)
  deriving DecidableEq, Repr

def debounceMs : Nat := 2000

/-- The change handler: `clearTimeout` and `setTimeout`. -/
def WatchData.onChange (d : WatchData) (filePath : String) : WatchData :=
  { d with debounceTimer := some (d.now + debounceMs) }.record (.changed d.now filePath)

/-- The timer fires; `if (isProcessing) return`. -/
def WatchData.onBusyTimer (d : WatchData) : WatchData :=
  { d with debounceTimer := none }.record (.fired d.now false)

/-- The timer fires; `isProcessing = true`. -/
def WatchData.onIdleTimer (d : WatchData) : WatchData :=
  { d with debounceTimer := none, isProcessing := true }.record (.fired d.now true)

/-- The callbacks after the `i`-th has gone on as `p`. -/
def goOn (running : List (WatchProc Unit)) (i : Nat) (p : WatchProc Unit) :
    List (WatchProc Unit) :=
  match p with
  | .done _ => running.eraseIdx i
  | p => running.set i p

def watchStep (w : WatchWorld) (s : Watcher) : WatchStep → Option Watcher
  | .change filePath => some { s with data := s.data.onChange filePath }
  | .elapse ms => some { s with data := { s.data with now := s.data.now + ms } }
  | .fire =>
      match s.data.debounceTimer with
      | none => none
      | some due =>
          if s.data.now < due then none
          else if s.data.isProcessing then some { s with data := s.data.onBusyTimer }
          else
            some { data := s.data.onIdleTimer
                   running := s.running ++ [timerCallback w.localUrl] }
  | .resume i =>
      match s.running[i]? with
      | some (.step o k) =>
          let (r, data) := answer w o s.data
          some { data, running := goOn s.running i (k r) }
      | _ => none

end AutoQa.Orchestrator

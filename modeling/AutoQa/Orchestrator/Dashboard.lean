import AutoQa.Base.System
import AutoQa.Orchestrator.Runner
import Mathlib.Data.List.Sort

/-!
# The dashboard

The processes that `start-all.ts` spawns, over one database: the worker steps
through `runTestExecution`, and the dashboard server answers each connection with
a snapshot of the runs. Every process has its own copy of the variable
`globalIo`, so only the server's is set. The browsers keep what they are sent
(`App.tsx`). The watcher writes no run and is left out.
-/

namespace AutoQa.Orchestrator

open AutoQa.Base AutoQa.LlmAgents AutoQa.Db

inductive Service where
  | dashboardServer
  | worker
  | watcher
  deriving DecidableEq, Repr

/-- `globalIo` is assigned by `startDashboardServer` only, which runs in one of
the processes. -/
def Service.globalIo : Service → Bool
  | .dashboardServer => true
  | .worker | .watcher => false

/-! ## The server and its clients -/

/-- `prisma.testRun.findMany({ orderBy: { startedAt: 'desc' }, take: 20, include: … })`. -/
def recentRuns (db : Db) : List RunRow :=
  let newest := db.testRuns.zipIdx.insertionSort fun a b => b.1.startedAt ≤ a.1.startedAt
  (newest.take 20).filterMap fun run => db.findRun run.2

inductive DashboardMessage where
  | init (runs : List RunRow)
  | update (run : RunRow)

/-- What `App` does with a message. -/
def appReducer (runs : List RunRow) : DashboardMessage → List RunRow
  | .init data => data
  | .update data =>
      match runs.findIdx? (·.id == data.id) with
      | none => data :: runs
      | some i => runs.set i data

/-- How far the connection handler of a client is. -/
inductive Handler where
  /-- Waits for `findMany`. -/
  | reading
  /-- Has its rows and is about to emit `init`. -/
  | emitting (rows : List RunRow)
  | served
  deriving DecidableEq

/-- A connected browser; `connectedAt` is the database when it connected. -/
structure Client where
  connectedAt : Db
  handler : Handler
  /-- Sent and not yet delivered, oldest first. -/
  inFlight : List DashboardMessage
  runs : List RunRow

def Client.send (messages : List DashboardMessage) (c : Client) : Client :=
  { c with inFlight := c.inFlight ++ messages }

/-! ## The system -/

structure Deployment where
  db : Db
  trace : Trace
  /-- The job in progress; a worker without a `concurrency` option takes one at a
  time. -/
  job : Option (RunProc Unit)
  clients : List Client

def Deployment.start (db : Db) : Deployment := ⟨db, [], none, []⟩

inductive DeployStep where
  | connect
  /-- The `i`-th client's `findMany` is answered. -/
  | snapshot (i : Nat)
  /-- Its handler emits `init`. -/
  | emitInit (i : Nat)
  /-- Its next message arrives. -/
  | deliver (i : Nat)
  | startJob (featureId : Id) (instruction url : String)
  /-- The job's pending operation is answered. -/
  | work
  deriving DecidableEq, Repr

def Deployment.onClient (s : Deployment) (i : Nat) (f : Client → Option Client) :
    Option Deployment :=
  match s.clients[i]? with
  | none => none
  | some c => (f c).map fun c' => { s with clients := s.clients.set i c' }

/-- What is left of a job, if it is not over. -/
def remaining : RunProc Unit → Option (RunProc Unit)
  | .done _ => none
  | p => some p

/-- The deployment after the job's operation left `s'`. -/
def Deployment.worked (s : Deployment) (s' : RunState) (p : RunProc Unit) : Deployment where
  db := s'.db
  trace := s'.trace
  job := remaining p
  clients := s.clients.map (Client.send (s'.emitted.map .update))

def deployStep (w : World) (faults : Faults) (s : Deployment) : DeployStep → Option Deployment
  | .connect =>
      some { s with clients := s.clients ++ [⟨s.db, .reading, [], []⟩] }
  | .snapshot i => s.onClient i fun c =>
      match c.handler with
      | .reading => some { c with handler := .emitting (recentRuns s.db) }
      | _ => none
  | .emitInit i => s.onClient i fun c =>
      match c.handler with
      | .emitting rows => some ({ c with handler := .served }.send [.init rows])
      | _ => none
  | .deliver i => s.onClient i fun c =>
      match c.inFlight with
      | [] => none
      | m :: ms => some { c with inFlight := ms, runs := appReducer c.runs m }
  | .startJob featureId instruction url =>
      match s.job with
      | none => some { s with
          job := remaining (runTestExecution Service.worker.globalIo featureId instruction url) }
      | some _ => none
  | .work =>
      match s.job with
      | some (.step o k) =>
          let (r, s') := handle w faults o ⟨s.db, s.trace, []⟩
          some (s.worked s' (k r))
      | _ => none

end AutoQa.Orchestrator

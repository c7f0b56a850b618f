import AutoQa.Orchestrator.Dashboard

/-!
# Dashboard convergence

No process but the dashboard server has a `globalIo`, and that process runs no
test: a client never gets an `update`. What it shows is the snapshot it was
sent when it connected, so it is up to date as long as no run changes after the
snapshot was read and the snapshot was large enough.
-/

namespace AutoQa.Orchestrator

open AutoQa.Base AutoQa.LlmAgents AutoQa.Db

/-- The rows of all runs, by id. -/
def runRows (db : Db) : List (Option RunRow) := (List.range db.testRuns.length).map db.findRun

/-- Every run that was created or changed since the client connected is among
`runs`, as it is in the database now. -/
def Shows (db : Db) (runs : List RunRow) (c : Client) : Prop :=
  ∀ id < db.testRuns.length, db.findRun id ≠ c.connectedAt.findRun id →
    ∃ row ∈ runs, db.findRun id = some row

instance (db : Db) (runs : List RunRow) (c : Client) : Decidable (Shows db runs c) :=
  inferInstanceAs (Decidable (∀ id < db.testRuns.length, _))

/-- No run is in progress, every connection is answered and every message has
arrived. -/
def Settled (s : Deployment) : Prop :=
  s.job.isNone = true ∧ ∀ c ∈ s.clients, c.handler = .served ∧ c.inFlight.isEmpty = true

instance (s : Deployment) : Decidable (Settled s) :=
  inferInstanceAs (Decidable (_ ∧ ∀ c ∈ s.clients, _))

/-- Every client shows the current rows of the runs changed since it connected. -/
def Converged (s : Deployment) : Prop := ∀ c ∈ s.clients, Shows s.db c.runs c

instance (s : Deployment) : Decidable (Converged s) :=
  inferInstanceAs (Decidable (∀ c ∈ s.clients, _))

/-! ## What a step must not do -/

/-- The worker changes the row of a run after a client's snapshot was read. -/
def outdates (w : World) (faults : Faults) (s : Deployment) : DeployStep → Bool
  | .work => s.clients.any (fun c => c.handler ≠ .reading) &&
      match deployStep w faults s .work with
      | some t => runRows t.db ≠ runRows s.db
      | none => false
  | _ => false

/-- The snapshot leaves out a run that was created or changed since the client
connected. -/
def truncates (s : Deployment) : DeployStep → Bool
  | .snapshot i =>
      match s.clients[i]? with
      | some c => !decide (Shows s.db (recentRuns s.db) c)
      | none => false
  | _ => false

/-! ## The job sends nothing -/

/-- Every operation but `emit`. -/
def Silent {ρ : Type} : RunOp ρ → Prop
  | .emitUpdate .. => False
  | _ => True

theorem runTestExecution_silent (featureId : Id) (instruction url : String) :
    (runTestExecution Service.worker.globalIo featureId instruction url).Only Silent := by
  have hrecording : ∀ {ρ : Type} (o : RunOp ρ), Recording o → Silent o := by
    intro ρ o ho
    cases o <;> trivial
  have hfail : ∀ run case screenshotPath message,
      (fail Service.worker.globalIo run case screenshotPath message).Only Silent :=
    fun run case screenshotPath message =>
      .bind ((recover_only run case screenshotPath message).mono hrecording) (fun _ =>
        .bind (.pure _) (fun _ => .throw _))
  -- the worker's `globalIo` is null, so each broadcast is over at once
  refine .bind (.bind (.call trivial) (fun _ => .bind (.call trivial) (fun _ =>
    .bind (.pure _) (fun _ => .pure _)))) (fun ids => .bind ?_ (fun _ => .pure _))
  refine .bind (.attempt ((judge_only _ instruction url).mono ?_)) (fun r => ?_)
  · intro ρ o ho
    cases o <;> trivial
  · cases r with
    | error e => exact hfail _ _ _ e
    | ok j => exact .tryCatch ((record_only _ _ j).mono hrecording) (hfail _ _ _)

theorem handle_silent (w : World) (faults : Faults) {ρ : Type} {o : RunOp ρ} (ho : Silent o)
    (s : RunState) : (handle w faults o s).2.emitted = s.emitted := by
  refine handle_state w faults o s (P := fun t => t.emitted = s.emitted) rfl ?_
  cases o <;> first | rfl | exact ho.elim

/-! ## The invariant -/

/-- How a client's handler, its messages and its state fit together: the
snapshot, wherever it is, shows what has changed. -/
def ClientOk (db : Db) (c : Client) : Prop :=
  match c.handler with
  | .reading => c.inFlight = []
  | .emitting rows => c.inFlight = [] ∧ Shows db rows c
  | .served => (c.inFlight = [] ∧ Shows db c.runs c) ∨
      ∃ rows, c.inFlight = [.init rows] ∧ Shows db rows c

structure DeploymentOk (s : Deployment) : Prop where
  silent : ∀ p, s.job = some p → p.Only Silent
  clients : ∀ c ∈ s.clients, ClientOk s.db c

theorem findRun_of_runRows {db db' : Db} (h : runRows db' = runRows db) :
    db'.testRuns.length = db.testRuns.length ∧
      ∀ id < db.testRuns.length, db'.findRun id = db.findRun id := by
  have hlen : db'.testRuns.length = db.testRuns.length := by
    simpa [runRows] using congrArg List.length h
  refine ⟨hlen, ?_⟩
  intro id hid
  have hget := congrArg (fun rows => rows[id]?) h
  simpa [runRows, List.getElem?_map, List.getElem?_range, hlen, hid] using hget

theorem Shows.of_runRows {db db' : Db} (heq : runRows db' = runRows db) {rows : List RunRow}
    {c : Client} (h : Shows db rows c) : Shows db' rows c := by
  obtain ⟨hlen, hfind⟩ := findRun_of_runRows heq
  intro id hid hchanged
  rw [hlen] at hid
  rw [hfind id hid] at hchanged ⊢
  exact h id hid hchanged

theorem ClientOk.of_runRows {db db' : Db} (heq : runRows db' = runRows db) {c : Client}
    (h : ClientOk db c) : ClientOk db' c := by
  unfold ClientOk at h ⊢
  split at h
  · exact h
  · exact ⟨h.1, h.2.of_runRows heq⟩
  · rcases h with ⟨hflight, hshows⟩ | ⟨rows, hflight, hshows⟩
    · exact .inl ⟨hflight, hshows.of_runRows heq⟩
    · exact .inr ⟨rows, hflight, hshows.of_runRows heq⟩

theorem remaining_only {p q : RunProc Unit} (hp : p.Only Silent) (h : remaining p = some q) :
    q.Only Silent := by
  cases p with
  | done r => cases h
  | step o k =>
    cases h
    exact hp

/-- A step on one client keeps the others. -/
theorem onClient_ok {s t : Deployment} (h : DeploymentOk s) {i : Nat} {f : Client → Option Client}
    (hstep : s.onClient i f = some t)
    (hf : ∀ c c', s.clients[i]? = some c → f c = some c' → ClientOk s.db c → ClientOk s.db c') :
    DeploymentOk t := by
  unfold Deployment.onClient at hstep
  split at hstep
  · cases hstep
  · rename_i c hc
    obtain ⟨c', hc', rfl⟩ := Option.map_eq_some_iff.mp hstep
    refine ⟨h.silent, ?_⟩
    intro d hd
    rcases List.mem_or_eq_of_mem_set hd with hd | rfl
    · exact h.clients d hd
    · exact hf c d hc hc' (h.clients c (List.mem_of_getElem? hc))

/-- The snapshot is read. -/
theorem ClientOk.snapshot {db : Db} {c : Client} (h : ClientOk db c) (hreading : c.handler = .reading)
    {rows : List RunRow} (hshows : Shows db rows c) :
    ClientOk db { c with handler := .emitting rows } := by
  rw [ClientOk, hreading] at h
  exact ⟨h, hshows⟩

/-- The snapshot is sent. -/
theorem ClientOk.emitInit {db : Db} {c : Client} (h : ClientOk db c) {rows : List RunRow}
    (hemitting : c.handler = .emitting rows) :
    ClientOk db ({ c with handler := .served }.send [.init rows]) := by
  rw [ClientOk, hemitting] at h
  exact .inr ⟨rows, by simp [Client.send, h.1], h.2⟩

/-- The only message that can arrive is the snapshot. -/
theorem ClientOk.deliver {db : Db} {c : Client} (h : ClientOk db c) {m : DashboardMessage}
    {ms : List DashboardMessage} (hflight : c.inFlight = m :: ms) :
    ClientOk db { c with inFlight := ms, runs := appReducer c.runs m } := by
  unfold ClientOk at h ⊢
  cases hhandler : c.handler with
  | reading =>
    rw [hhandler, hflight] at h
    cases h
  | emitting rows =>
    rw [hhandler, hflight] at h
    cases h.1
  | served =>
    rw [hhandler, hflight] at h
    rcases h with ⟨hnone, -⟩ | ⟨rows, hone, hshows⟩
    · cases hnone
    · cases hone
      exact .inl ⟨rfl, hshows⟩

/-- The worker's step: its operation emits nothing, and it leaves the rows alone
unless every client is still waiting for its snapshot. -/
theorem work_ok {w : World} {faults : Faults} {s t : Deployment} (h : DeploymentOk s)
    (houtdates : outdates w faults s .work = false)
    (hstep : deployStep w faults s .work = some t) : DeploymentOk t := by
  have hrows : (∀ c ∈ s.clients, c.handler = .reading) ∨ runRows t.db = runRows s.db := by
    simp only [outdates, hstep, Bool.and_eq_false_iff, List.any_eq_false, decide_eq_true_eq,
      not_not, decide_eq_false_iff_not] at houtdates
    exact houtdates
  simp only [deployStep] at hstep
  split at hstep
  · rename_i ρ o k hjob
    have honly := h.silent _ hjob
    have hemitted := handle_silent w faults honly.1 ⟨s.db, s.trace, []⟩
    cases hstep
    refine ⟨fun p hp => remaining_only (honly.2 _) hp, ?_⟩
    intro c hc
    obtain ⟨d, hd, rfl⟩ := List.mem_map.mp hc
    have hsend : d.send (List.map .update (handle w faults o ⟨s.db, s.trace, []⟩).2.emitted) = d := by
      simp [Client.send, hemitted]
    rw [hsend]
    have hok := h.clients d hd
    -- a client that is still reading is promised nothing yet
    rcases hrows with hreading | hrows
    · rw [ClientOk, hreading d hd] at hok ⊢
      exact hok
    · exact hok.of_runRows hrows
  · cases hstep

/-- A step that neither outdates a snapshot nor truncates one keeps the invariant. -/
theorem deployStep_ok {w : World} {faults : Faults} {s t : Deployment} {l : DeployStep}
    (h : DeploymentOk s) (houtdates : outdates w faults s l = false)
    (htruncates : truncates s l = false) (hstep : deployStep w faults s l = some t) :
    DeploymentOk t := by
  cases l with
  | connect =>
    cases hstep
    refine ⟨h.silent, ?_⟩
    intro c hc
    rcases List.mem_append.mp hc with hc | hc
    · exact h.clients c hc
    · cases List.mem_singleton.mp hc
      exact rfl
  | snapshot i =>
    apply onClient_ok h hstep
    intro c c' hc hc' hok
    have hshows : Shows s.db (recentRuns s.db) c := by simpa [truncates, hc] using htruncates
    split at hc'
    · rename_i hreading
      cases hc'
      exact hok.snapshot hreading hshows
    · cases hc'
  | emitInit i =>
    apply onClient_ok h hstep
    intro c c' _ hc' hok
    split at hc'
    · rename_i rows hemitting
      cases hc'
      exact hok.emitInit hemitting
    · cases hc'
  | deliver i =>
    apply onClient_ok h hstep
    intro c c' _ hc' hok
    split at hc'
    · cases hc'
    · rename_i m ms hflight
      cases hc'
      exact hok.deliver hflight
  | startJob featureId instruction url =>
    simp only [deployStep] at hstep
    split at hstep
    · cases hstep
      exact ⟨fun p hp => remaining_only (runTestExecution_silent _ _ _) hp, h.clients⟩
    · cases hstep
  | work => exact work_ok h houtdates hstep

/-! ## Every run -/

/-- **Dashboard convergence.** In every run in which no row changes after a
client's snapshot was read, and no snapshot leaves out a changed run, the
clients show the current rows whenever the deployment has settled. -/
theorem dashboard_converges {w : World} {faults : Faults} {db : Db} {schedule : List DeployStep}
    (hsteps : Along (deployStep w faults)
      (fun s l => outdates w faults s l = false ∧ truncates s l = false) (.start db) schedule)
    {s : Deployment} (hrun : exec (deployStep w faults) (.start db) schedule = some s)
    (hsettled : Settled s) : Converged s := by
  have hok : DeploymentOk s := by
    refine exec_invariant ?_ ?_ hsteps hrun
    · rintro s l t hs ⟨houtdates, htruncates⟩ hstep
      exact deployStep_ok hs houtdates htruncates hstep
    · exact ⟨(fun p hp => nomatch hp), (fun c hc => nomatch hc)⟩
  intro c hc
  have hclient := hok.clients c hc
  obtain ⟨hserved, hempty⟩ := hsettled.2 c hc
  unfold ClientOk at hclient
  rw [hserved] at hclient
  rcases hclient with ⟨-, hshows⟩ | ⟨rows, hflight, -⟩
  · exact hshows
  · rw [hflight] at hempty
    cases hempty

/-! A smoke test with a browser open, and one with a browser that connects
while it runs. -/

def loginDb : Db :=
  { Db.empty with
    features := [{ name := "Login", selector := none, featureType := none, pageUrl := none
                   projectId := 0, description := "Log in", status := .discovered
                   covered := false, lastTestedAt := none }] }

/-- The smoke test from its start to its end. -/
def smokeSteps : List DeployStep :=
  .startJob 0 smokeInstruction "http://localhost:3000" :: List.replicate 9 .work

/-- A client's connection is answered and the answer arrives. -/
def serveSteps : List DeployStep := [.snapshot 0, .emitInit 0, .deliver 0]

theorem late_snapshot_converges :
    ∃ s, exec (deployStep .calm fun _ _ => none) (.start loginDb)
        (.connect :: smokeSteps ++ serveSteps) = some s ∧
      Settled s ∧ Converged s := by
  have hrun : ((exec (deployStep .calm fun _ _ => none) (.start loginDb)
      (.connect :: smokeSteps ++ serveSteps)).map fun s => decide (Settled s)) = some true := by
    decide +kernel
  have hsteps : Along (deployStep .calm fun _ _ => none)
      (fun s l => outdates .calm (fun _ _ => none) s l = false ∧ truncates s l = false)
      (.start loginDb) (.connect :: smokeSteps ++ serveSteps) := by
    decide +kernel
  obtain ⟨s, hs, hsettled⟩ := Option.map_eq_some_iff.mp hrun
  exact ⟨s, hs, of_decide_eq_true hsettled,
    dashboard_converges hsteps hs (of_decide_eq_true hsettled)⟩

/-- The browser that was open keeps showing no run. -/
theorem open_dashboard_stale :
    ∃ s, exec (deployStep .calm fun _ _ => none) (.start loginDb)
        (.connect :: serveSteps ++ smokeSteps) = some s ∧
      Settled s ∧ ¬ Converged s := by
  have hrun : ((exec (deployStep .calm fun _ _ => none) (.start loginDb)
      (.connect :: serveSteps ++ smokeSteps)).map fun s => decide (Settled s ∧ ¬ Converged s))
      = some true := by
    decide +kernel
  obtain ⟨s, hs, hfinal⟩ := Option.map_eq_some_iff.mp hrun
  exact ⟨s, hs, of_decide_eq_true hfinal⟩

end AutoQa.Orchestrator

import AutoQa.Base.Relay
import AutoQa.Cli.Consistency
import AutoQa.Orchestrator.App

/-!
# What the browsers show

A deployment together with the browsers that watch it. A browser gets the recent
runs when it connects and the runs that are broadcast after that, each message
some time after it was sent. What it shows is behind the database, and never
beside it.
-/

namespace AutoQa.Cli

open AutoQa.Base AutoQa.LlmAgents AutoQa.Db AutoQa.Orchestrator Ledger

/-! ## The system -/

structure Observed where
  deployment : Deployment
  clients : List Client

inductive ObservedEvent where
  | deploy (event : DeployEvent)
  | connect
  /-- The `i`-th client's `findMany` is answered. -/
  | snapshot (i : Nat)
  /-- Its handler emits `init`. -/
  | emitInit (i : Nat)
  /-- Its next message arrives. -/
  | deliver (i : Nat)

/-- The rows that were emitted between two states. -/
def newlyEmitted (d d' : DeployState) : List RunRow := d'.emitted.drop d.emitted.length

def readSnapshot (db : Db) (c : Client) : Option Client :=
  match c.handler with
  | .reading => some { c with handler := .emitting (recentRuns db) }
  | _ => none

def sendInit (c : Client) : Option Client :=
  match c.handler with
  | .emitting rows => some ({ c with handler := .served }.send [.init rows])
  | _ => none

def receive (c : Client) : Option Client :=
  match c.inFlight with
  | [] => none
  | m :: ms => some { c with inFlight := ms, runs := appReducer c.runs m }

def Observed.onClient (s : Observed) (i : Nat) (f : Client → Option Client) : Option Observed :=
  match s.clients[i]? with
  | none => none
  | some c => (f c).map fun c' => { s with clients := s.clients.set i c' }

def Observed.step (env : Nat → DeployEnv) (s : Observed) : ObservedEvent → Option Observed
  | .deploy event => (s.deployment.step env event).map fun t =>
      { deployment := t
        clients := s.clients.map
          (Client.send ((newlyEmitted s.deployment.shared t.shared).map .update)) }
  | .connect => some { s with
      clients := s.clients ++ [⟨s.deployment.shared.store.toDb, .reading, [], []⟩] }
  | .snapshot i => s.onClient i (readSnapshot s.deployment.shared.store.toDb)
  | .emitInit i => s.onClient i sendInit
  | .deliver i => s.onClient i receive

/-! ## What is emitted was read -/

/-- The row that an operation of the runner sends to the clients. -/
def emittedRow : {ρ : Type} → RunOp ρ → List RunRow
  | _, .emitUpdate _ row => [row]
  | _, _ => []

/-- The row that the reply to an operation of the runner holds. -/
def readRow : {ρ : Type} → RunOp ρ → Except String ρ → List RunRow
  | _, .findRun _ _, .ok (some row) => [row]
  | _, _, _ => []

def runWire : Wire RunOp RunRow := ⟨emittedRow, readRow⟩

def rowWire : Wire DeployOp RunRow where
  out
    | .sys (.runner op) => emittedRow op
    | _ => []
  told
    | .sys (.runner op), r => readRow op r
    | _, _ => []

section Relays

variable {R : RunRow → Prop}

theorem mute_of_judging {ρ : Type} (o : RunOp ρ) (h : Judging o) : emittedRow o = [] := by
  cases o <;> first | rfl | exact h.elim

theorem mute_of_recording {ρ : Type} (o : RunOp ρ) (h : Recording o) : emittedRow o = [] := by
  cases o <;> first | rfl | exact h.elim

/-- The row that is broadcast is the one that was read. -/
theorem broadcastUpdate_relays (globalIo : Bool) (site : Site) (run : Id) :
    Relays runWire (broadcastUpdate globalIo site run) R := by
  unfold broadcastUpdate
  split
  · apply Relays.ask rfl
    intro found
    cases found with
    | none => trivial
    | some row => exact Relays.call fun w hw => .inr hw
  · trivial

theorem runTestExecution_relays (globalIo : Bool) (featureId : Id) (instruction url : String) :
    Relays runWire (runTestExecution globalIo featureId instruction url) R := by
  have hfail : ∀ run case shot e (R : RunRow → Prop), Relays runWire (fail globalIo run case shot e) R := by
    intro run case shot e R
    refine Relays.bind (.of_only ((recover_only run case shot e).mono mute_of_recording)) ?_
    intro _ R
    exact Relays.bind (broadcastUpdate_relays globalIo .recovery run) fun _ _ => trivial
  have hbody : ∀ run case (R : RunRow → Prop),
      Relays runWire (runBody globalIo run case instruction url) R := by
    intro run case R
    refine Relays.bind (.attempt (.of_only ((judge_only run instruction url).mono mute_of_judging))) ?_
    intro r R
    cases r with
    | error e => exact hfail run case none e R
    | ok j =>
      exact Relays.tryCatch (.of_only ((record_only run case j).mono mute_of_recording))
        (hfail run case j.screenshotPath)
  have hsetup : Relays runWire (setup globalIo featureId instruction) R := by
    refine Relays.bind (.of_only (.call rfl)) fun run R => ?_
    refine Relays.bind (.of_only (.call rfl)) fun case R => ?_
    exact Relays.bind (broadcastUpdate_relays globalIo .setup run) fun _ _ => trivial
  refine Relays.bind hsetup ?_
  rintro ⟨run, case⟩ R
  exact Relays.bind (hbody run case R) fun _ R => broadcastUpdate_relays globalIo .tail run

/-- The wire, as the commands see it. -/
abbrev sysWire : Wire SysOp RunRow :=
  ⟨fun o => rowWire.out (DeployOp.sys o), fun o => rowWire.told (DeployOp.sys o)⟩

theorem runTest_relays (globalIo : Bool) (call : Call) :
    Relays sysWire (runTest globalIo call) R := by
  refine Relays.bind (.of_only (.call rfl)) fun _ R => ?_
  exact Relays.lift (runTestExecution_relays globalIo call.featureId call.instruction call.url)

theorem started_relays (project : Project) (name description : String) (rest : Id → SysProc Unit)
    (hrest : ∀ id (R : RunRow → Prop), Relays sysWire (rest id) R) :
    Relays sysWire (started project name description rest) R := by
  refine Relays.bind (.of_only (firstProject_only project rfl rfl)) fun id R => ?_
  exact Relays.bind (.of_only (.call rfl)) hrest

theorem reviewFeatures_relays (localUrl : String) (discovered : List (Id × Feature)) :
    Relays sysWire (reviewFeatures localUrl discovered) R := by
  induction discovered generalizing R with
  | nil => trivial
  | cons row rest ih =>
    obtain ⟨id, feature⟩ := row
    refine Relays.bind (.of_only (.call rfl)) fun yes R => ?_
    cases yes with
    | false => exact ih
    | true =>
      refine Relays.bind (.of_only (.call rfl)) fun _ R => ?_
      exact Relays.bind (runTest_relays false _) fun _ R => ih

theorem Command.relays (cwd : String) (command : Command) :
    Relays sysWire (command.proc cwd) R := by
  cases command with
  | test instruction url =>
    exact started_relays _ _ _ (fun id => runTest false ⟨id, instruction, url⟩)
      fun id R => runTest_relays false _
  | smoke url =>
    exact started_relays _ _ _ (fun id => await (.addJob ⟨id, smokeInstruction, url⟩))
      fun id R => .of_only (.call rfl)
  | review =>
    refine Relays.bind (.of_only (.call rfl)) fun found R => ?_
    cases found with
    | none => trivial
    | some row =>
      refine Relays.bind (.of_only (.call rfl)) fun rows R => ?_
      exact reviewFeatures_relays row.2.localUrl rows

theorem auditProc_relays (c : AuditCommand) : Relays rowWire (auditProc c) R := by
  refine Relays.bind (.of_only (.lift (.all _ fun _ => rfl))) fun _ R => ?_
  refine Relays.bind (.of_only (.lift (.all _ fun _ => rfl))) fun projectId R => ?_
  refine Relays.bind (.of_only (.call rfl)) fun feats R => ?_
  refine Relays.bind (.of_only (.call rfl)) fun i R => ?_
  exact .of_only (.lift (.all _ fun _ => rfl))

theorem startWatcher_relays (repoPath localUrl : String) :
    Relays rowWire (startWatcher repoPath localUrl) R := by
  refine Relays.bind (.of_only (.call rfl)) fun isRepo R => ?_
  cases isRepo with
  | false => trivial
  | true =>
    refine Relays.bind (.of_only (.lift (.all _ fun _ => rfl))) fun projectId R => ?_
    exact .of_only (.call rfl)

theorem Launching.relays (launching : Launching) : Relays rowWire launching.proc R := by
  cases launching with
  | command cwd c => exact Relays.lift (c.relays cwd)
  | watch repoPath localUrl => exact startWatcher_relays repoPath localUrl
  | audit c => exact auditProc_relays c

theorem callbackProc_relays (projectId : Id) (localUrl : String) :
    Relays rowWire (callbackProc projectId localUrl) R :=
  .of_only (.lift (.lift (.all _ fun _ => rfl)))

end Relays

/-! ## Operations that emit and read -/

section Ops

variable {env : Nat → DeployEnv} {ρ : Type}

theorem emitted_perform (w : World) (op : RunOp ρ) (s : RunState) :
    (perform w op s).2.emitted = s.emitted ++ emittedRow op := by
  cases op <;> simp [perform, creates, RunState.onDb, Prog.bind_apply, emittedRow, onTrace,
    Prog.zoom]

theorem emitted_performDeploy (e : DeployEnv) (op : DeployOp ρ) (d : DeployState) :
    (performDeploy e op d).2.emitted = d.emitted ++ rowWire.out op := by
  cases op with
  | sys op =>
    cases op with
    | runner op => exact emitted_perform e.agents op ⟨d.store.toDb, d.trace, d.emitted⟩
    | command op => cases op <;> exact (List.append_nil _).symm
    | watcher projectId op => cases op <;> exact (List.append_nil _).symm
  | project op => exact (List.append_nil _).symm
  | discovery op => exact (List.append_nil _).symm
  | cli op => cases op <;> exact (List.append_nil _).symm
  | audit i budget op => exact (List.append_nil _).symm

/-- What is emitted is not awaited, so a refused operation emits nothing. -/
theorem emitted_answer (op : DeployOp ρ) (d : DeployState) :
    (answerDeploy env op d).2.emitted = d.emitted ++ rowWire.out op := by
  rcases answerDeploy_cases env op d with ⟨e, hrefused, hanswer⟩ | ⟨-, hanswer⟩
  · have hout : rowWire.out op = [] := by
      cases op with
      | sys op =>
        cases op with
        | runner op => cases op <;> first | rfl | cases hrefused
        | command op => rfl
        | watcher projectId op => rfl
      | project op => rfl
      | discovery op => rfl
      | cli op => rfl
      | audit i budget op => rfl
    rw [hanswer, hout, List.append_nil]
  · rw [hanswer]
    exact emitted_performDeploy (env d.steps) op { d with steps := d.steps + 1 }

/-- A row that a reply holds is a row of the database. -/
theorem told_answer (op : DeployOp ρ) (d : DeployState) :
    ∀ row ∈ rowWire.told op (answerDeploy env op d).1,
      ∃ run, (answerDeploy env op d).2.store.toDb.findRun run = some row := by
  intro row hrow
  cases op with
  | sys op =>
    cases op with
    | runner op =>
      cases op with
      | findRun site run =>
        rcases answerDeploy_cases env (.sys (.runner (.findRun site run))) d with
          ⟨e, -, hanswer⟩ | ⟨-, hanswer⟩
        · rw [hanswer] at hrow
          cases hrow
        · rw [hanswer] at hrow ⊢
          refine ⟨run, ?_⟩
          have hreply : (performDeploy (env d.steps) (.sys (.runner (.findRun site run)))
              { d with steps := d.steps + 1 }).1 = .ok (d.store.toDb.findRun run) := rfl
          rw [hreply] at hrow
          show d.store.toDb.findRun run = some row
          cases hfind : d.store.toDb.findRun run with
          | none =>
            rw [hfind] at hrow
            cases hrow
          | some found =>
            rw [hfind] at hrow
            rw [List.mem_singleton.mp hrow]
      | _ => cases hrow
    | command op => cases hrow
    | watcher projectId op => cases hrow
  | project op => cases hrow
  | discovery op => cases hrow
  | cli op => cases hrow
  | audit i budget op => cases hrow

end Ops

/-! ## Rows that are behind the database -/

section Rows

-- the states of the database up to now
variable {past : Store → Prop}

/-- The row was read from a state of the database, and its run has gone on from there. -/
structure Behind (past : Store → Prop) (row : RunRow) (l : Ledger) : Prop where
  feature : ∃ f, row.feature = some f ∧ l.Describes row.run.featureId f.description
  single : row.testCases.length ≤ 1
  bugs : ∀ c ∈ row.testCases, c.2 ≠ [] → row.run.status = .failed
  seen : ∃ store old, past store ∧ store.testRuns[row.id]? = some old ∧
    old.status = row.run.status
  run : ∃ r, l.store.testRuns[row.id]? = some r ∧ r.featureId = row.run.featureId ∧
    Leads row.run.status r.status

theorem Behind.mono {row : RunRow} {l m : Ledger} (h : Behind past row l) (hgrows : Grows l m)
    (hadvances : Advances l m) : Behind past row m := by
  obtain ⟨f, hf, htext⟩ := h.feature
  obtain ⟨r, hr, hfeature, hleads⟩ := h.run
  obtain ⟨r', hr', hsame, hgoes, -⟩ := hadvances row.id r hr
  exact ⟨⟨f, hf, hgrows.describes htext⟩, h.single, h.bugs, h.seen,
    ⟨r', hr', hsame.trans hfeature, hleads.trans hgoes⟩⟩

/-- A row is behind the database it is read from. -/
theorem behind_of_find {l : Ledger} (hsound : l.Sound) (hpast : past l.store) {run : Id}
    {row : RunRow}
    (hfind : l.store.toDb.findRun run = some row) : Behind past row l ∧ row.id = run := by
  obtain ⟨r, hr, rfl⟩ := Option.map_eq_some_iff.mp hfind
  have hrun : l.store.testRuns[run]? = some r := hr
  have hfeature := (hsound.runs r (List.mem_of_getElem? hrun)).1
  refine ⟨⟨?_, ?_, ?_, ⟨l.store, r, hpast, hrun, rfl⟩, ⟨r, hrun, rfl, .refl _⟩⟩, rfl⟩
  · refine ⟨_, List.getElem?_eq_getElem hfeature, ?_⟩
    rw [Describes, List.getElem?_map, List.getElem?_eq_getElem hfeature]
    rfl
  · show (List.map _ (l.store.casesOf run)).length ≤ 1
    rw [List.length_map]
    exact hsound.single run
  · intro c hc hbugs
    obtain ⟨⟨id, case⟩, hcase, rfl⟩ := List.mem_map.mp hc
    obtain ⟨b, hb⟩ := List.exists_mem_of_ne_nil _ hbugs
    obtain ⟨hmem, hid⟩ := List.mem_filter.mp hb
    obtain ⟨c', r', hc', hr', hfailed⟩ := hsound.bugs b hmem
    obtain ⟨⟨case', id'⟩, hfiltered, hpair⟩ := List.mem_map.mp hcase
    obtain ⟨hzip, hof⟩ := List.mem_filter.mp hfiltered
    obtain ⟨rfl, rfl⟩ := Prod.mk.inj hpair
    -- the bug is about the case of this run
    have hrow : l.store.testCases[id']? = some case' := by
      simpa using List.mem_zipIdx_iff_getElem?.mp hzip
    rw [beq_iff_eq.mp hid, hrow] at hc'
    cases hc'
    rw [beq_iff_eq.mp hof, hrun] at hr'
    cases hr'
    exact hfailed

/-- Rows of different runs, each behind the database. -/
def Shown (past : Store → Prop) (rows : List RunRow) (l : Ledger) : Prop :=
  (rows.map RunRow.id).Nodup ∧ ∀ row ∈ rows, Behind past row l

theorem Shown.mono {rows : List RunRow} {l m : Ledger} (h : Shown past rows l) (hgrows : Grows l m)
    (hadvances : Advances l m) : Shown past rows m :=
  ⟨h.1, fun row hrow => (h.2 row hrow).mono hgrows hadvances⟩

/-- The rows that a snapshot finds. -/
theorem filterMap_ids {l : Ledger} (picked : List (TestRun × Nat)) :
    ((picked.filterMap fun run => l.store.toDb.findRun run.2).map RunRow.id).Sublist
      (picked.map Prod.snd) := by
  induction picked with
  | nil => exact .slnil
  | cons run picked ih =>
    rw [List.filterMap_cons, List.map_cons]
    split
    · exact ih.cons _
    · rename_i row hfind
      obtain ⟨r, -, rfl⟩ := Option.map_eq_some_iff.mp hfind
      exact ih.cons_cons _

theorem recentRuns_shown {l : Ledger} (hsound : l.Sound) (hpast : past l.store) :
    Shown past (recentRuns l.store.toDb) l := by
  refine ⟨?_, ?_⟩
  · have hids : (l.store.testRuns.zipIdx.map Prod.snd).Nodup := by
      rw [List.zipIdx_map_snd]
      exact List.nodup_range'
    have hsorted : (((l.store.testRuns.zipIdx.insertionSort fun a b =>
        b.1.startedAt ≤ a.1.startedAt).take 20).map Prod.snd).Nodup := by
      have hperm := (List.perm_insertionSort (fun a b : TestRun × Nat =>
        b.1.startedAt ≤ a.1.startedAt) l.store.testRuns.zipIdx).map Prod.snd
      exact (hperm.nodup_iff.mpr hids).sublist ((List.take_sublist 20 _).map Prod.snd)
    exact hsorted.sublist (filterMap_ids _)
  · intro row hrow
    obtain ⟨run, -, hfind⟩ := List.mem_filterMap.mp hrow
    exact (behind_of_find hsound hpast hfind).1

/-- Both the first rows and an update put rows of different runs on the screen. -/
def MessageOk (past : Store → Prop) (l : Ledger) : DashboardMessage → Prop
  | .init rows => Shown past rows l
  | .update row => Behind past row l

theorem appReducer_shown {l : Ledger} {runs : List RunRow} {m : DashboardMessage}
    (hruns : Shown past runs l) (hm : MessageOk past l m) : Shown past (appReducer runs m) l := by
  cases m with
  | init rows => exact hm
  | update row =>
    rw [appReducer]
    cases hfind : runs.findIdx? fun r => r.id == row.id with
    | none =>
      refine ⟨?_, List.forall_mem_cons.mpr ⟨hm, hruns.2⟩⟩
      rw [List.map_cons, List.nodup_cons]
      refine ⟨?_, hruns.1⟩
      intro hmem
      obtain ⟨r, hr, hid⟩ := List.mem_map.mp hmem
      have hnot := List.findIdx?_eq_none_iff.mp hfind r hr
      simp [hid] at hnot
    | some i =>
      obtain ⟨hi, hid, -⟩ := List.findIdx?_eq_some_iff_getElem.mp hfind
      refine ⟨?_, ?_⟩
      · -- the row takes the place of one of the same run
        have hget : (runs.map RunRow.id)[i]? = some row.id := by
          rw [List.getElem?_map, List.getElem?_eq_getElem hi]
          exact congrArg some (beq_iff_eq.mp hid)
        have hsame : (runs.set i row).map RunRow.id = runs.map RunRow.id := by
          obtain ⟨hlt, hid'⟩ := List.getElem?_eq_some_iff.mp hget
          rw [List.map_set, ← hid']
          exact List.set_getElem_self hlt
        rw [hsame]
        exact hruns.1
      · intro r hr
        rcases List.mem_or_eq_of_mem_set hr with hr | rfl
        · exact hruns.2 r hr
        · exact hm

end Rows

/-! ## The invariant -/

/-- Everything that a client shows or will be sent is behind the database. -/
structure Faithful (past : Store → Prop) (l : Ledger) (c : Client) : Prop where
  runs : Shown past c.runs l
  inFlight : ∀ m ∈ c.inFlight, MessageOk past l m
  emitting : ∀ rows, c.handler = .emitting rows → Shown past rows l

structure Observing (env : Nat → DeployEnv) (past : Store → Prop) (s : Observed) : Prop where
  held : ∃ gs, Disciplined env false s.deployment gs ∧ Covered gs s.deployment.shared.ledger
  relays : ∀ p ∈ s.deployment.procs,
    Relays rowWire p fun row => Behind past row s.deployment.shared.ledger
  clients : ∀ c ∈ s.clients, Faithful past s.deployment.shared.ledger c

section Steps

variable {env : Nat → DeployEnv} {past : Store → Prop} {l m : Ledger} {c c' : Client}

theorem MessageOk.mono {message : DashboardMessage} (h : MessageOk past l message)
    (hgrows : Grows l m) (hadvances : Advances l m) : MessageOk past m message := by
  cases message with
  | init rows => exact Shown.mono h hgrows hadvances
  | update row => exact Behind.mono h hgrows hadvances

/-- The database goes on, and rows that are behind it are sent. -/
theorem Faithful.send (h : Faithful past l c) (hgrows : Grows l m) (hadvances : Advances l m)
    {rows : List RunRow} (hrows : ∀ row ∈ rows, Behind past row m) :
    Faithful past m (c.send (rows.map .update)) where
  runs := h.runs.mono hgrows hadvances
  inFlight := by
    refine List.forall_mem_append.mpr ⟨fun message hmem => (h.inFlight message hmem).mono hgrows
      hadvances, ?_⟩
    intro message hmem
    obtain ⟨row, hrow, rfl⟩ := List.mem_map.mp hmem
    exact hrows row hrow
  emitting := fun rows hemitting => (h.emitting rows hemitting).mono hgrows hadvances

theorem Faithful.readSnapshot (h : Faithful past l c) (hsound : l.Sound) (hpast : past l.store)
    (hread : Cli.readSnapshot l.store.toDb c = some c') : Faithful past l c' := by
  unfold Cli.readSnapshot at hread
  split at hread
  · cases hread
    refine ⟨h.runs, h.inFlight, fun rows hrows => ?_⟩
    cases hrows
    exact recentRuns_shown hsound hpast
  · cases hread

theorem Faithful.sendInit (h : Faithful past l c) (hsend : Cli.sendInit c = some c') :
    Faithful past l c' := by
  unfold Cli.sendInit at hsend
  split at hsend
  · rename_i rows hemitting
    cases hsend
    refine ⟨h.runs, List.forall_mem_append.mpr ⟨h.inFlight, ?_⟩, fun rows hrows => ?_⟩
    · exact List.forall_mem_singleton.mpr (h.emitting rows hemitting)
    · cases hrows
  · cases hsend

theorem Faithful.receive (h : Faithful past l c) (hreceive : Cli.receive c = some c') :
    Faithful past l c' := by
  unfold Cli.receive at hreceive
  split at hreceive
  · cases hreceive
  · rename_i message messages hflight
    cases hreceive
    have hmessages := h.inFlight
    rw [hflight] at hmessages
    obtain ⟨hmessage, hrest⟩ := List.forall_mem_cons.mp hmessages
    exact ⟨appReducer_shown h.runs hmessage, hrest, h.emitting⟩

/-- A step on one client. -/
theorem Observing.onClient {s t : Observed} (h : Observing env past s) {i : Nat}
    {f : Client → Option Client} (hstep : s.onClient i f = some t)
    (hf : ∀ c c', Faithful past s.deployment.shared.ledger c → f c = some c' →
      Faithful past s.deployment.shared.ledger c') : Observing env past t := by
  unfold Observed.onClient at hstep
  split at hstep
  · cases hstep
  · rename_i c hc
    obtain ⟨c', hc', rfl⟩ := Option.map_eq_some_iff.mp hstep
    refine ⟨h.held, h.relays, fun d hd => ?_⟩
    rcases List.mem_or_eq_of_mem_set hd with hd | rfl
    · exact h.clients d hd
    · exact hf c d (h.clients c (List.mem_of_getElem? hc)) hc'

/-- A step of the deployment: its processes still relay, and what they emit is behind
the database. -/
theorem relays_step {s t : Deployment} {event : DeployEvent}
    (hrelays : ∀ p ∈ s.procs, Relays rowWire p fun row => Behind past row s.shared.ledger)
    (hsound : t.shared.ledger.Sound) (hpast : past t.shared.store)
    (hgrows : Grows s.shared.ledger t.shared.ledger)
    (hadvances : Advances s.shared.ledger t.shared.ledger) (hstep : s.step env event = some t) :
    (∀ p ∈ t.procs, Relays rowWire p fun row => Behind past row t.shared.ledger) ∧
      ∀ row ∈ newlyEmitted s.shared t.shared, Behind past row t.shared.ledger := by
  have hlater : ∀ row, Behind past row s.shared.ledger → Behind past row t.shared.ledger :=
    fun row h => h.mono hgrows hadvances
  have hstarts : ∀ {p : DeployProc Unit}, t.procs = s.procs ++ [p] →
      Relays rowWire p (fun row => Behind past row t.shared.ledger) →
      ∀ p ∈ t.procs, Relays rowWire p fun row => Behind past row t.shared.ledger := by
    intro p hprocs hp
    rw [hprocs]
    exact List.forall_mem_append.mpr
      ⟨fun q hq => (hrelays q hq).mono hlater, List.forall_mem_singleton.mpr hp⟩
  have hsilent : t.shared.emitted = s.shared.emitted →
      ∀ row ∈ newlyEmitted s.shared t.shared, Behind past row t.shared.ledger := by
    intro hsame row hrow
    rw [newlyEmitted, hsame, List.drop_length] at hrow
    cases hrow
  rcases Deployment.step_cases hstep with ⟨launching, rfl⟩ | ⟨projectId, localUrl, -, rfl⟩ |
      ⟨globalIo, job, rest, -, rfl⟩ | ⟨i, job, -, rfl⟩ | ⟨i, -, hresume⟩
  · exact ⟨hstarts rfl launching.relays, hsilent rfl⟩
  · exact ⟨hstarts rfl (callbackProc_relays projectId localUrl), hsilent rfl⟩
  · exact ⟨hstarts rfl (Relays.lift (runTest_relays globalIo _)), hsilent rfl⟩
  · exact ⟨fun p hp => (hrelays p hp).mono hlater, hsilent rfl⟩
  · have htold : ∀ (ρ : Type) (o : DeployOp ρ), t.shared = (answerDeploy env o s.shared).2 →
        ∀ row ∈ rowWire.told o (answerDeploy env o s.shared).1, Behind past row t.shared.ledger := by
      intro ρ o hshared row hrow
      obtain ⟨run, hfind⟩ := told_answer o s.shared row hrow
      rw [← hshared] at hfind
      exact (behind_of_find hsound hpast hfind).1
    obtain ⟨hprocs, ρ, o, hshared, hout⟩ := Pool.relays_step hrelays hresume hlater htold
    refine ⟨hprocs, fun row hrow => hlater row (hout row ?_)⟩
    rw [newlyEmitted, hshared, emitted_answer, List.drop_left] at hrow
    exact hrow

theorem observing_step {s t : Observed} {event : ObservedEvent} (h : Observing env past s)
    (hs : past s.deployment.shared.store) (ht : past t.deployment.shared.store)
    (hstep : s.step env event = some t) : Observing env past t := by
  obtain ⟨gs, hheld, hcovered⟩ := h.held
  have hsound : s.deployment.shared.ledger.Sound := hheld.inv
  cases event with
  | deploy event =>
    obtain ⟨u, hu, rfl⟩ := Option.map_eq_some_iff.mp hstep
    obtain ⟨gs', hheld', hcovered', hgrows, hadvances⟩ :=
      disciplined_step hheld hcovered (by simp) hu
    obtain ⟨hrelays, hrows⟩ := relays_step h.relays hheld'.inv ht hgrows hadvances hu
    refine ⟨⟨gs', hheld', hcovered'⟩, hrelays, fun c hc => ?_⟩
    obtain ⟨d, hd, rfl⟩ := List.mem_map.mp hc
    exact (h.clients d hd).send hgrows hadvances hrows
  | connect =>
    cases hstep
    refine ⟨h.held, h.relays, List.forall_mem_append.mpr ⟨h.clients, ?_⟩⟩
    refine List.forall_mem_singleton.mpr ⟨⟨List.nodup_nil, List.forall_mem_nil _⟩,
      List.forall_mem_nil _, fun rows hrows => ?_⟩
    cases hrows
  | snapshot i => exact h.onClient hstep fun c c' hc => hc.readSnapshot hsound hs
  | emitInit i => exact h.onClient hstep fun c c' hc => hc.sendInit
  | deliver i => exact h.onClient hstep fun c c' hc => hc.receive

end Steps

/-! ## Runs -/

/-- Nothing runs and nobody watches. -/
def Observed.fresh (projects : List Project) (trace : Trace) : Observed where
  deployment := .fresh projects trace
  clients := []

section Runs

variable {env : Nat → DeployEnv} {projects : List Project} {trace : Trace} {s : Observed}
  {events : List ObservedEvent}

/-- The database had this state at a moment of the run. -/
def Past (env : Nat → DeployEnv) (projects : List Project) (trace : Trace)
    (events : List ObservedEvent) (store : Store) : Prop :=
  ∃ u, Visits (Observed.step env) (.fresh projects trace) events u ∧
    u.deployment.shared.store = store

theorem observing_run (hrun : exec (Observed.step env) (.fresh projects trace) events = some s) :
    Observing env (Past env projects trace events) s := by
  have hfresh : Observing env (Past env projects trace events) (.fresh projects trace) := by
    obtain ⟨hheld, hcovered⟩ := fresh_disciplined env false projects trace
    exact ⟨⟨[], hheld, hcovered⟩, List.forall_mem_nil _, List.forall_mem_nil _⟩
  exact exec_visits (fun u _ v hobserving hu hv hstep =>
    observing_step hobserving ⟨u, hu, rfl⟩ ⟨v, hv, rfl⟩ hstep) hfresh hrun

/-- The card is about this run; its badge names the status that the run had at a past
moment, from which it has gone on. -/
def Follows (past : Store → Prop) (store : Store) (card : RunCard) : Prop :=
  ∃ earlier old r f, past earlier ∧ earlier.testRuns[card.key]? = some old ∧
    card.badge = (badgeClass old.status, badgeText old.status) ∧
    store.testRuns[card.key]? = some r ∧ Leads old.status r.status ∧
    store.features[r.featureId]? = some f ∧ card.description = f.description ∧
    (card.bugs ≠ none → old.status = .failed ∧ r.status = .failed)

theorem Behind.follows {past : Store → Prop} {row : RunRow} {l : Ledger} {card : RunCard}
    (h : Behind past row l) (hrender : renderRun row = .ok card) : Follows past l.store card := by
  obtain ⟨f, hf, htext⟩ := h.feature
  obtain ⟨earlier, old, hpast, hold, hstatus⟩ := h.seen
  obtain ⟨r, hr, hfeature, hleads⟩ := h.run
  rw [renderRun, hf] at hrender
  cases hrender
  rw [Describes, List.getElem?_map, Option.map_eq_some_iff] at htext
  obtain ⟨f', hf', hdescription⟩ := htext
  rw [← hstatus] at hleads
  refine ⟨earlier, old, r, f', hpast, hold, by rw [hstatus], hr, hleads,
    by rw [hfeature]; exact hf', hdescription.symm, ?_⟩
  intro hbugs
  obtain ⟨bugs, hpanel⟩ := Option.ne_none_iff_exists'.mp hbugs
  obtain ⟨c, hc, hne⟩ := bugPanel_some hpanel
  have hfailed : old.status = .failed := hstatus.trans (h.bugs c hc hne)
  rw [hfailed] at hleads
  exact ⟨hfailed, hleads⟩

/-- **The screens follow the database**: in every state of a deployment that browsers
watch, every page renders, its cards have different keys, and each card names the status
that its run had at a moment of the past and went on from, and shows bugs only of a run
that had failed then. -/
theorem screens_follow
    (hrun : exec (Observed.step env) (.fresh projects trace) events = some s) :
    ∀ c ∈ s.clients, ∃ page, App c.runs = .ok page ∧ (page.cards.map RunCard.key).Nodup ∧
      ∀ card ∈ page.cards,
        Follows (Past env projects trace events) s.deployment.shared.store card := by
  intro c hc
  obtain ⟨hnodup, hbehind⟩ := ((observing_run hrun).clients c hc).runs
  have hfeatures : ∀ row ∈ c.runs, ∃ f, row.feature = some f := by
    intro row hrow
    obtain ⟨f, hf, -⟩ := (hbehind row hrow).feature
    exact ⟨f, hf⟩
  obtain ⟨page, hpage, hkeys, hcards⟩ := App_ok hfeatures
  refine ⟨page, hpage, by rw [hkeys]; exact hnodup, fun card hcard => ?_⟩
  obtain ⟨row, hrow, hrender⟩ := hcards card hcard
  exact (hbehind row hrow).follows hrender

/-- A smoke test by a worker that broadcasts, up to the middle of the job. -/
def broadcastRun : List DeployEvent :=
  .start (.command "/work/shop" (.smoke "http://localhost:3000")) :: List.replicate 4 (.resume 0)
    ++ [.work true] ++ List.replicate 3 (.resume 1)

/-- A browser connects in the middle of the job. When the job is over, two updates are
on their way. -/
def watchedRun : List ObservedEvent :=
  broadcastRun.map .deploy ++ [.connect, .snapshot 0, .emitInit 0, .deliver 0]
    ++ List.replicate 11 (.deploy (.resume 1))

/-- The badges on a client's page. -/
def badges (c : Client) : Option (List String) :=
  match App c.runs with
  | .ok page => some (page.cards.map fun card => card.badge.2)
  | .error _ => none

theorem watched_screens_follow :
    ∃ s, exec (Observed.step fun _ => calmDeploy) (.fresh [] []) watchedRun = some s ∧
      s.clients.map badges = [some ["RUNNING"]] ∧
      s.deployment.shared.store.testRuns.map TestRun.status = [.passed] ∧
      ∀ c ∈ s.clients, ∃ page, App c.runs = .ok page ∧ (page.cards.map RunCard.key).Nodup ∧
        ∀ card ∈ page.cards,
          Follows (Past (fun _ => calmDeploy) [] [] watchedRun) s.deployment.shared.store card := by
  have hview : (exec (Observed.step fun _ => calmDeploy) (.fresh [] []) watchedRun).map (fun s =>
      (s.clients.map badges, s.deployment.shared.store.testRuns.map TestRun.status))
        = some ([some ["RUNNING"]], [.passed]) := by decide +kernel
  obtain ⟨s, hrun, hs⟩ := Option.map_eq_some_iff.mp hview
  simp only [Prod.mk.injEq] at hs
  exact ⟨s, hrun, hs.1, hs.2, screens_follow hrun⟩

end Runs

end AutoQa.Cli

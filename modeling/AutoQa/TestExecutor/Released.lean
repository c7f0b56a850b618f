import AutoQa.LlmAgents.Moves
import AutoQa.TestExecutor.Crawler
import AutoQa.TestExecutor.Execute

/-!
# Browsers and clients are closed

`executeTest`, `executeTestAutonomous` and `runCrawl` each acquire a browser or a
tool client and close it again. Between the two, each does some work that no
`try` guards, and what throws there leaves the resource open.
-/

namespace AutoQa.TestExecutor

open AutoQa.Base AutoQa.LlmAgents

/-- The browser or the client is closed. -/
def closes : Event → Bool
  | .browser .close _ => true
  | .mcpClose => true
  | _ => false

/-- How often a program closes what it acquired. -/
def closings {α : Type} (p : Prog Trace α) (tr : Trace) : Nat := (runEvents p tr).countP closes

/-- The program only appends to the trace. -/
def Grows {α : Type} (p : Prog Trace α) : Prop := Logs (fun _ _ => True) p

theorem Logs.grows {α : Type} {R : Except String α → Trace → Prop} {p : Prog Trace α}
    (h : Logs R p) : Grows p :=
  h.mono (fun _ _ _ => trivial)

theorem Grows.then_ {α β : Type} {R : Except String α → Trace → Prop} {p : Prog Trace α}
    {k : α → Prog Trace β} (hp : Logs R p) (hk : ∀ a, Grows (k a)) : Grows (p >>= k) :=
  Logs.bind hp (fun _ _ _ => trivial) (fun a _ _ => hk a)

theorem closings_eq {α : Type} {p : Prog Trace α} {tr es : Trace} (h : (p tr).2 = tr ++ es) :
    closings p tr = es.countP closes := by
  rw [closings, runEvents_eq h]

/-- The program closes nothing. -/
def KeepsOpen {α : Type} (p : Prog Trace α) : Prop := Emits (fun e => closes e = false) p

theorem countP_closes {es : Trace} (h : ∀ e ∈ es, closes e = false) : es.countP closes = 0 := by
  rw [List.countP_eq_zero]
  intro e he
  simp [h e he]

theorem KeepsOpen.run {α : Type} {p : Prog Trace α} (h : KeepsOpen p) (tr : Trace) :
    ∃ es, (p tr).2 = tr ++ es ∧ es.countP closes = 0 := by
  obtain ⟨es, hes, hopen⟩ := h tr
  exact ⟨es, hes, countP_closes hopen⟩

/-! ## The deterministic executor -/

section Execute

variable (w : World) (testRunId url : String)

theorem closes_browser {op : BrowserOp} (h : op ≠ .close) (r : Except String Unit) :
    closes (.browser op r) = false := by
  unfold closes
  split
  · rename_i heq
    cases heq
    exact absurd rfl h
  · rename_i heq
    cases heq
  · rfl

theorem browser_keepsOpen {op : BrowserOp} (h : op ≠ .close) : KeepsOpen (browser w op) :=
  interact_emits _ _ (closes_browser h)

theorem stepOp_ne_close {step : Step} {op : BrowserOp} (h : stepOp url step = some op) :
    op ≠ .close := by
  unfold stepOp at h
  dsimp only at h
  split at h <;> cases h <;> exact nofun

theorem runSteps_keepsOpen (steps : List Step) : KeepsOpen (runSteps w url steps) := by
  induction steps with
  | nil => exact .pure _
  | cons step steps ih =>
    rw [runSteps]
    dsimp only
    split
    · rename_i op hop
      exact .bind (browser_keepsOpen w (stepOp_ne_close url hop)) (fun _ => ih)
    · exact ih

/-- The time at which the steps are over, if they start at `time`: one operation for
each step that has one, up to the first that throws. -/
def stepsEnd : List Step → Nat → Nat
  | [], time => time
  | step :: steps, time =>
      match stepOp url step with
      | none => stepsEnd steps time
      | some op =>
          match w.browser time op with
          | .ok _ => stepsEnd steps (time + 1)
          | .error _ => time + 1

theorem runSteps_elapsed (steps : List Step) : ∀ tr : Trace,
    elapsed (runSteps w url steps tr).2 = stepsEnd w url steps (elapsed tr) := by
  induction steps with
  | nil => exact fun _ => rfl
  | cons step steps ih =>
    intro tr
    rw [runSteps, stepsEnd]
    cases hop : stepOp url step with
    | none => exact ih tr
    | some op =>
      have hbrowser : browser w op tr
          = (w.browser (elapsed tr) op, tr ++ [.browser op (w.browser (elapsed tr) op)]) := rfl
      cases hreply : w.browser (elapsed tr) op with
      | error e =>
        rw [hreply] at hbrowser
        dsimp only
        rw [Prog.bind_error hbrowser, hreply]
        simp
      | ok _ =>
        rw [hreply] at hbrowser
        dsimp only
        rw [Prog.bind_ok hbrowser, ih, hreply]
        simp

/-- The steps, with the error that ends them. -/
def caughtSteps (steps : List Step) : Prog Trace (Option String) :=
  Prog.tryCatch (do runSteps w url steps; pure none) fun e => pure (some e)

theorem caughtSteps_keepsOpen (steps : List Step) : KeepsOpen (caughtSteps w url steps) :=
  .tryCatch (.bind (runSteps_keepsOpen w url steps) (fun _ => .pure _)) (fun _ => .pure _)

theorem caughtSteps_run (steps : List Step) (tr : Trace) : ∃ message es,
    caughtSteps w url steps tr = (.ok message, tr ++ es) ∧ es.countP closes = 0 ∧
      elapsed (tr ++ es) = stepsEnd w url steps (elapsed tr) := by
  obtain ⟨es, hes, hopen⟩ := (runSteps_keepsOpen w url steps).run tr
  have helapsed := runSteps_elapsed w url steps tr
  rw [hes] at helapsed
  cases hrun : runSteps w url steps tr with
  | mk r t =>
  obtain rfl : t = tr ++ es := by
    rw [hrun] at hes
    exact hes
  cases r with
  | error e => exact ⟨some e, es, Prog.tryCatch_error (Prog.bind_error hrun), hopen, helapsed⟩
  | ok _ => exact ⟨none, es, Prog.tryCatch_ok (Prog.bind_ok hrun), hopen, helapsed⟩

/-- What follows the screenshot. -/
def closeAndSave (artifactsDir : String) (errorMessage : Option String) :
    Prog Trace Artifacts := do
  browser w .close
  let past ← Prog.get
  let logs := w.pageLogs (elapsed past)
  let network := w.pageNetwork (elapsed past)
  browser w (.writeFile (artifactsDir ++ "/logs.txt") logs)
  browser w (.writeFile (artifactsDir ++ "/network.txt") network)
  match errorMessage.bind orUndefined with
  | some e => browser w (.writeFile (artifactsDir ++ "/error.txt") e)
  | none => pure ()
  pure { logs, network, errorMessage, screenshotPath := artifactsDir ++ "/final.png", usages := [] }

theorem closeAndSave_closes (artifactsDir : String) (errorMessage : Option String) :
    Logs (fun _ es => es.countP closes = 1) (closeAndSave w artifactsDir errorMessage) := by
  refine Logs.bind (interact_logs _ _) ?_ ?_
  · rintro e es rfl
    rfl
  rintro _ es rfl
  have hsave : ∀ {path text : String}, KeepsOpen (browser w (.writeFile path text)) :=
    browser_keepsOpen w nofun
  refine Logs.mono (R := fun _ fs => ∀ e ∈ fs, closes e = false) ?_ ?_
  · refine Emits.bind (Logs.get (fun _ => by simp)) (fun time => ?_)
    refine .bind hsave (fun _ => .bind hsave (fun _ => ?_))
    split
    · exact .bind hsave (fun _ => .pure _)
    · exact .pure _
  · intro r fs hfs
    rw [List.countP_append, countP_closes hfs]
    rfl

/-- Neither the context, nor the page, nor the last screenshot of a run that starts at
`time` throws. -/
def Photographed (steps : List Step) (time : Nat) : Prop :=
  w.browser (time + 2) .newContext = .ok () ∧ w.browser (time + 3) .newPage = .ok () ∧
    w.browser (stepsEnd w url steps (time + 4))
      (.screenshot (w.cwd ++ "/artifacts/" ++ testRunId ++ "/final.png")) = .ok ()

theorem closings_browser_iff {α : Type} (op : BrowserOp) (hop : op ≠ .close)
    {k : Unit → Prog Trace α} (hk : ∀ u, Grows (k u)) (tr : Trace) :
    closings (browser w op >>= k) tr = 1 ↔ w.browser (elapsed tr) op = .ok () ∧
      closings (k ()) (tr ++ [.browser op (.ok ())]) = 1 := by
  have hbrowser : browser w op tr
      = (w.browser (elapsed tr) op, tr ++ [.browser op (w.browser (elapsed tr) op)]) := rfl
  have hone : ∀ r, [Event.browser op r].countP closes = 0 := by
    intro r
    apply countP_closes
    simpa using closes_browser hop r
  cases hreply : w.browser (elapsed tr) op with
  | error e =>
    rw [hreply] at hbrowser
    have hrun := congrArg Prod.snd (Prog.bind_error (f := k) hbrowser)
    rw [closings_eq hrun, hone]
    simp
  | ok u =>
    rw [hreply] at hbrowser
    obtain ⟨es, hes, -⟩ := hk () (tr ++ [.browser op (.ok ())])
    have hrun : ((browser w op >>= k) tr).2 = tr ++ ([.browser op (.ok ())] ++ es) := by
      rw [Prog.bind_ok hbrowser, hes, List.append_assoc]
    rw [closings_eq hrun, closings_eq hes, List.countP_append, hone]
    simp

theorem Grows.browser {α : Type} {op : BrowserOp} {k : Unit → Prog Trace α}
    (hk : ∀ u, Grows (k u)) : Grows (browser w op >>= k) :=
  .then_ (interact_logs _ _) hk

/-- The last screenshot and what follows it. -/
def photograph (artifactsDir : String) (errorMessage : Option String) : Prog Trace Artifacts := do
  browser w (.screenshot (artifactsDir ++ "/final.png"))
  closeAndSave w artifactsDir errorMessage

theorem closings_photograph_iff (artifactsDir : String) (errorMessage : Option String) (tr : Trace) :
    closings (photograph w artifactsDir errorMessage) tr = 1 ↔
      w.browser (elapsed tr) (.screenshot (artifactsDir ++ "/final.png")) = .ok () := by
  have hgrows := closeAndSave_closes w artifactsDir errorMessage
  rw [photograph, closings_browser_iff w (.screenshot _) nofun (fun _ => Logs.grows hgrows)]
  obtain ⟨es, hes, hone⟩ := hgrows
    (tr ++ [.browser (.screenshot (artifactsDir ++ "/final.png")) (.ok ())])
  simp [closings_eq hes, hone]

/-- The steps close nothing. -/
theorem closings_steps {α : Type} (steps : List Step) {k : Option String → Prog Trace α}
    (hk : ∀ message, Grows (k message)) (tr : Trace) : ∃ message es,
    elapsed (tr ++ es) = stepsEnd w url steps (elapsed tr) ∧
      closings (caughtSteps w url steps >>= k) tr = closings (k message) (tr ++ es) := by
  obtain ⟨message, es, hrun, hopen, helapsed⟩ := caughtSteps_run w url steps tr
  obtain ⟨fs, hfs, -⟩ := hk message (tr ++ es)
  have hall : ((caughtSteps w url steps >>= k) tr).2 = tr ++ (es ++ fs) := by
    rw [Prog.bind_ok hrun, hfs, List.append_assoc]
  refine ⟨message, es, helapsed, ?_⟩
  rw [closings_eq hall, closings_eq hfs, List.countP_append, hopen, Nat.zero_add]

theorem executeTest_closes_iff (steps : List Step) {tr : Trace}
    (hmkdir : w.browser (elapsed tr) .mkdir = .ok ())
    (hlaunch : w.browser (elapsed tr + 1) .launch = .ok ()) :
    closings (executeTest w testRunId url steps) tr = 1 ↔
      Photographed w testRunId url steps (elapsed tr) := by
  generalize hdir : w.cwd ++ "/artifacts/" ++ testRunId = artifactsDir
  have hphoto : ∀ message, Grows (photograph w artifactsDir message) := fun message =>
    .browser w (fun _ => Logs.grows (closeAndSave_closes w artifactsDir message))
  have hsteps : Grows (caughtSteps w url steps >>= photograph w artifactsDir) :=
    .then_ (R := fun _ es => ∀ e ∈ es, closes e = false) (caughtSteps_keepsOpen w url steps) hphoto
  have hrun : executeTest w testRunId url steps = browser w .mkdir >>= fun _ =>
      browser w .launch >>= fun _ => browser w .newContext >>= fun _ =>
        browser w .newPage >>= fun _ => caughtSteps w url steps >>= photograph w artifactsDir := by
    rw [← hdir]
    rfl
  rw [hrun,
    closings_browser_iff w .mkdir nofun
      (fun _ => .browser w (fun _ => .browser w (fun _ => .browser w (fun _ => hsteps)))),
    closings_browser_iff w .launch nofun (fun _ => .browser w (fun _ => .browser w (fun _ => hsteps))),
    closings_browser_iff w .newContext nofun (fun _ => .browser w (fun _ => hsteps)),
    closings_browser_iff w .newPage nofun (fun _ => hsteps)]
  obtain ⟨message, es, helapsed, hcount⟩ := closings_steps w url steps hphoto
    (tr ++ [.browser .mkdir (.ok ())] ++ [.browser .launch (.ok ())]
      ++ [.browser .newContext (.ok ())] ++ [.browser .newPage (.ok ())])
  rw [hcount, closings_photograph_iff, helapsed]
  simp [Photographed, hmkdir, hlaunch, hdir]

end Execute

/-! ## The agent -/

theorem SendEvent.not_closes {provider : LLMProvider} {turn : Nat} {messages : List Message}
    {e : Event} (h : SendEvent provider turn messages e) : closes e = false := by
  rcases h with ⟨f, rfl⟩ | ⟨p, -, rfl | ⟨u, rfl, -⟩⟩ <;> rfl

theorem TurnSpec.not_closes {provider : LLMProvider} {s : LoopState} {r : Except String LoopState}
    {es : Trace} (h : TurnSpec provider s r es) : ∀ e ∈ es, closes e = false := by
  obtain ⟨body, rfl, hbody⟩ := h.events
  intro e he
  rcases List.mem_cons.mp he with rfl | he
  · rfl
  · rcases hbody e he with hsend | htool
    · exact SendEvent.not_closes hsend
    · cases htool <;> rfl

section Agent

variable (w : World) (testRunId instruction url : String) (provider? : Option LLMProvider)

theorem mainLoop_keepsOpen (provider : LLMProvider) (tools : List ToolDefinition)
    (startTime left : Nat) (s : LoopState) :
    KeepsOpen (mainLoop w provider tools startTime left s) := by
  have hclock : closes .clockRead = false := rfl
  refine mainLoop_rule (R := fun _ _ es => ∀ e ∈ es, closes e = false) w provider tools startTime
    ?_ ?_ ?_ ?_ left s
  · exact fun _ => List.forall_mem_nil _
  · rintro _ _ _ (rfl | rfl)
    · exact List.forall_mem_nil _
    · exact List.forall_mem_singleton.mpr hclock
  · exact fun _ _ _ hturn => List.forall_mem_cons.mpr ⟨hclock, TurnSpec.not_closes hturn⟩
  · intro _ _ _ _ _ hturn _ hrest
    exact List.forall_mem_append.mpr
      ⟨List.forall_mem_cons.mpr ⟨hclock, TurnSpec.not_closes hturn⟩, hrest⟩

/-- The client of a run that has connected is closed once if the tools were listed, else
not at all. -/
theorem executeTestAutonomous_closes_iff {tr : Trace}
    (hconnect : w.mcpConnect (elapsed (chosenTrace provider? tr)) = .ok ()) :
    closings (executeTestAutonomous w testRunId instruction url provider?) tr = 1 ↔
      ∃ tools, w.mcpListTools (elapsed (chosenTrace provider? tr) + 1) = .ok tools := by
  obtain ⟨reads, hchosen, hreads⟩ := chosenTrace_append provider? tr
  have hquiet : reads.countP closes = 0 := by
    apply countP_closes
    intro e he
    rw [hreads e he]
    rfl
  have hrun := executeTestAutonomous_chosen w testRunId instruction url provider? tr
  cases hlist : w.mcpListTools (elapsed (chosenTrace provider? tr) + 1) with
  | error e =>
    have htrace : (executeTestAutonomous w testRunId instruction url provider? tr).2
        = tr ++ (reads ++ [.mcpConnect, .mcpListTools]) := by
      rw [hrun, ← List.append_assoc, ← hchosen]
      simp [executeTestAutonomous, interact, Prog.bind_apply, hconnect, hlist]
    rw [closings_eq htrace, List.countP_append, hquiet]
    simp [closes]
  | ok tools =>
    rcases executeTestAutonomous_cases w testRunId instruction url (chosenTrace provider? tr) with
      ⟨_, _, _, _, hnot⟩ | ⟨tools', -, -, hloop⟩
    · exact absurd ⟨hconnect, tools, hlist⟩ hnot
    · obtain ⟨es, hes, hopen⟩ := (mainLoop_keepsOpen w (chosenProvider w provider? tr) tools'
        (w.now (elapsed (chosenTrace provider? tr) + 2)) maxTurns (initialState instruction url)).run
        (chosenTrace provider? tr ++ [.mcpConnect] ++ [.mcpListTools] ++ [.clockRead])
      have htrace : (executeTestAutonomous w testRunId instruction url provider? tr).2
          = tr ++ (reads ++ [.mcpConnect, .mcpListTools, .clockRead] ++ es ++ [.mcpClose]) := by
        rw [hrun, hloop, toolRun_trace, hes, hchosen]
        simp
      rw [closings_eq htrace]
      simp [List.countP_append, hquiet, hopen, closes]

end Agent

/-! ## The crawler -/

/-- The closing of the client, among the operations of a crawl. -/
def closeLog : {ρ : Type} → CrawlOp ρ → List Unit
  | _, .close => [()]
  | _, _ => []

/-- The operation does not close the client. -/
def LeavesOpen {ρ : Type} (op : CrawlOp ρ) : Prop := closeLog op = []

section Crawl

variable {σ : Type} (handle : {ρ : Type} → CrawlOp ρ → Prog σ ρ)

/-- How often a crawl closes its client. -/
def crawlClosings {α : Type} (p : CrawlProc α) (s : σ) : Nat := (p.issued handle closeLog s).length

/-- What leaves the client open can be taken off the front. -/
theorem crawlClosings_bind {α β : Type} {p : CrawlProc α} (hp : p.Only LeavesOpen)
    (f : α → CrawlProc β) (s : σ) :
    crawlClosings handle (p >>= f) s = match p.run handle s with
      | (.ok a, t) => crawlClosings handle (f a) t
      | (.error _, _) => 0 := by
  rw [crawlClosings, Proc.issued_bind, Proc.Only.issued_nil hp, List.nil_append]
  cases p.run handle s with
  | mk r t => cases r <;> rfl

theorem finishCrawl_closes (repoPath : String) (result : Except String (List CrawledPage)) (s : σ) :
    crawlClosings handle (finishCrawl repoPath result) s = 1 := by
  rw [crawlClosings, finishCrawl, Proc.issued_bind, Proc.run_call]
  have hclose : ((Proc.call .close : CrawlProc Unit).issued handle closeLog s).length = 1 := rfl
  rw [List.length_append, hclose]
  cases handle .close s with
  | mk r t =>
  cases r with
  | error e => rfl
  | ok _ =>
    -- nothing after the close touches the client
    dsimp only
    rw [Proc.Only.issued_nil]
    · rfl
    · refine .bind ?_ (fun pages => .bind (scanRepoForAI_only (fun _ => rfl) keywords) (fun _ =>
        .bind (.call rfl) (fun _ => .pure _)))
      trivial

/-- The client of a crawl that has connected is closed once if the configuration was read,
else not at all. -/
theorem runCrawl_closes_iff (ofText : String → Option ℚ) (startUrl repoPath : String) {s t : σ}
    (hconnect : handle .connect s = (.ok (), t)) :
    crawlClosings handle (runCrawl ofText startUrl repoPath) s = 1 ↔
      ∃ file maxPages, (handle .readConfig t).1 = .ok file ∧ maxPagesOf ofText file = .ok maxPages := by
  have hfirst : (Proc.call .connect : CrawlProc Unit).Only LeavesOpen := .call rfl
  have hsecond : (Proc.call .readConfig : CrawlProc (Option String)).Only LeavesOpen := .call rfl
  rw [runCrawl, crawlClosings_bind handle hfirst, Proc.run_call, hconnect]
  dsimp only
  rw [crawlClosings_bind handle hsecond, Proc.run_call]
  cases hread : handle .readConfig t with
  | mk r u =>
  cases r with
  | error e => simp
  | ok file =>
    have hthird : (.done (maxPagesOf ofText file) : CrawlProc Nat).Only LeavesOpen := trivial
    dsimp only
    rw [crawlClosings_bind handle hthird]
    cases hlimit : maxPagesOf ofText file with
    | error e => simp [Proc.run, hlimit]
    | ok maxPages =>
      have hloop : (crawlLoop maxPages (.start startUrl)).attempt.Only LeavesOpen :=
        .attempt (crawlLoop_only (fun _ _ _ => rfl) (fun _ => rfl) maxPages _)
      simp only [Proc.run, Prog.ofExcept_apply]
      rw [crawlClosings_bind handle hloop, Proc.run_attempt]
      simp [Prog.attempt, finishCrawl_closes, hlimit]

end Crawl

/-! ## All three -/

/-- **Browsers and clients are released once** exactly when nothing throws between their
acquisition and the region that a `try` guards: in `executeTest` the context, the page and the last
screenshot, in `executeTestAutonomous` the list of tools, in `runCrawl` the reading of
the configuration. -/
theorem released_once_iff (w : World) (tr : Trace) (testRunId url : String) {σ : Type}
    (handle : {ρ : Type} → CrawlOp ρ → Prog σ ρ) (s t : σ) :
    (∀ steps, w.browser (elapsed tr) .mkdir = .ok () → w.browser (elapsed tr + 1) .launch = .ok () →
      (closings (executeTest w testRunId url steps) tr = 1 ↔
        Photographed w testRunId url steps (elapsed tr))) ∧
    (∀ instruction provider?, w.mcpConnect (elapsed (chosenTrace provider? tr)) = .ok () →
      (closings (executeTestAutonomous w testRunId instruction url provider?) tr = 1 ↔
        ∃ tools, w.mcpListTools (elapsed (chosenTrace provider? tr) + 1) = .ok tools)) ∧
    ∀ ofText repoPath, handle .connect s = (.ok (), t) →
      (crawlClosings handle (runCrawl ofText url repoPath) s = 1 ↔
        ∃ file maxPages, (handle .readConfig t).1 = .ok file ∧
          maxPagesOf ofText file = .ok maxPages) :=
  ⟨fun steps => executeTest_closes_iff w testRunId url steps,
    fun instruction provider? => executeTestAutonomous_closes_iff w testRunId instruction url provider?,
    fun ofText repoPath => runCrawl_closes_iff handle ofText url repoPath⟩

/-- A tool server whose pages do not load, for a crawl with the configuration `config`. -/
def unreachable (config : Option String) {ρ : Type} : CrawlOp ρ → Prog Unit ρ
  | .connect => pure ()
  | .readConfig => pure config
  | .dequeued _ _ _ => pure ()
  | .callTool _ => Prog.throw "Request timed out"
  | .close => pure ()
  | .grep _ _ => pure ""
  | .saveFeatureMap _ => pure ()

/-- A step that throws, a model that is stopped and pages that do not load are no harm. -/
theorem guarded_faults_release :
    closings (executeTest
        { World.calm with browser := fun _ op => if op = .goto "/" then .error "timeout" else .ok () }
        "r1" "/" [⟨.navigate, "Open", none, none⟩]) [] = 1 ∧
      closings (executeTestAutonomous
        { World.calm with gemini := fun _ _ => .error "quota" } "r1" "Log in" "/" none) [] = 1 ∧
      crawlClosings (unreachable none) (runCrawl (fun _ => none) "/" "/repo") () = 1 :=
  ⟨((released_once_iff _ _ _ _ (unreachable none) () ()).1 _ rfl rfl).mpr ⟨rfl, rfl, rfl⟩,
    ((released_once_iff _ _ _ _ (unreachable none) () ()).2.1 _ _ rfl).mpr ⟨_, rfl⟩,
    ((released_once_iff .calm [] "r1" _ (unreachable none) () ()).2.2 _ _ rfl).mpr ⟨_, _, rfl, rfl⟩⟩

/-- A full disk at the last screenshot, a tool server that cannot list its tools and a
configuration that is no document leave the resource open. -/
theorem unguarded_faults_leak :
    closings (executeTest
        { World.calm with
          browser := fun _ op => if op = .screenshot "/repo/artifacts/r1/final.png" then
            .error "ENOSPC" else .ok () }
        "r1" "/" []) [] = 0 ∧
      closings (executeTestAutonomous
        { World.calm with mcpListTools := fun _ => .error "Request timed out" } "r1" "Log in" "/"
        none) [] = 0 ∧
      crawlClosings (unreachable (some "")) (runCrawl (fun _ => none) "/" "/repo") () = 0 :=
  ⟨by decide, by rfl, by rfl⟩

end AutoQa.TestExecutor

import AutoQa.Orchestrator.Watcher

/-!
# No lost change

A change is covered by a later `git.diff`, or by a later `git.status` that finds
nothing. What guarantees one is the pending timer, and after that the callback
as long as it still has to read. A timer that fires while a callback is past
its reads breaks the chain: its own callback returns at once.
-/

namespace AutoQa.Orchestrator

open AutoQa.Base AutoQa.LlmAgents AutoQa.Db

def WatchEvent.isChange : WatchEvent → Bool
  | .changed .. => true
  | _ => false

/-- The repository is read, as far as the callback reads it. -/
def WatchEvent.covers : WatchEvent → Bool
  | .diffRead => true
  | .statusRead (.ok []) => true
  | _ => false

/-- Every change is followed by an event that covers it. -/
def NoLostChange : List WatchEvent → Prop
  | [] => True
  | e :: es => (e.isChange = true → ∃ r ∈ es, r.covers = true) ∧ NoLostChange es

instance decidableNoLostChange : ∀ log, Decidable (NoLostChange log)
  | [] => .isTrue trivial
  | e :: es =>
    have := decidableNoLostChange es
    inferInstanceAs (Decidable
      ((e.isChange = true → ∃ r ∈ es, r.covers = true) ∧ NoLostChange es))

theorem NoLostChange.covered (log : List WatchEvent) {e : WatchEvent} (h : e.covers = true) :
    NoLostChange (log ++ [e]) := by
  induction log with
  | nil =>
    have hchange : e.isChange = false := by
      cases e <;> first | rfl | cases h
    exact ⟨fun hc => by simp [hchange] at hc, trivial⟩
  | cons e' es ih => exact ⟨fun _ => ⟨e, by simp, h⟩, ih⟩

theorem NoLostChange.snoc {log : List WatchEvent} (hlog : NoLostChange log) {e : WatchEvent}
    (h : e.isChange = false) : NoLostChange (log ++ [e]) := by
  induction log with
  | nil => exact ⟨fun hc => by simp [h] at hc, trivial⟩
  | cons e' es ih =>
    refine ⟨fun hc => ?_, ih hlog.2⟩
    obtain ⟨r, hr, hcovers⟩ := hlog.1 hc
    exact ⟨r, List.mem_append_left _ hr, hcovers⟩

/-! ## What is left of a callback -/

def WatchOp.reads {ρ : Type} : WatchOp ρ → Bool
  | .gitStatus | .gitDiff => true
  | _ => false

/-- The callback waits for one of its two reads. -/
def Reading : WatchProc Unit → Bool
  | .done _ => false
  | .step o _ => o.reads

/-- The steps between the reads and `finally`. -/
def Plain {ρ : Type} : WatchOp ρ → Prop
  | .gitStatus | .clearProcessing => False
  | _ => True

/-- A callback goes on to `git.diff` when `git.status` found something, and its
last step, and no other, is to clear `isProcessing`. -/
inductive Callback : WatchProc Unit → Prop where
  | status {k : Except String (List String) → WatchProc Unit} (hrest : ∀ r, Callback (k r))
      (hdiff : ∀ f fs, Reading (k (.ok (f :: fs))) = true) : Callback (.step .gitStatus k)
  | plain {ρ : Type} {o : WatchOp ρ} {k : Except String ρ → WatchProc Unit} (ho : Plain o)
      (hrest : ∀ r, Callback (k r)) : Callback (.step o k)
  | clear {k : Except String Unit → WatchProc Unit} (hend : ∀ r, ∃ v, k r = .done v) :
      Callback (.step .clearProcessing k)

theorem Callback.finally_clear {α : Type} {p : WatchProc α} (hp : p.Only Plain) :
    Callback (p.attempt.bind fun _ => Proc.call .clearProcessing) := by
  induction p with
  | done r => exact .clear fun r => ⟨r, rfl⟩
  | step o k ih => exact .plain hp.1 fun r => ih r (hp.2 r)

theorem timerCallback_callback (localUrl : String) : Callback (timerCallback localUrl) := by
  have henqueue : (enqueueChanges localUrl).Only Plain :=
    .bind (.call trivial) (fun _ => .bind (.call trivial) (fun _ => .bind (.call trivial) (fun _ =>
      .bind (.call trivial) (fun _ => .call trivial))))
  refine .status ?_ (fun f fs => rfl)
  intro r
  rcases r with e | _ | ⟨f, fs⟩
  · exact .clear fun r => ⟨r, rfl⟩
  · exact .clear fun r => ⟨r, rfl⟩
  · exact .finally_clear henqueue

/-! ## One step -/

/-- The reply to the step is an exception. -/
def fails (w : WatchWorld) (s : Watcher) : WatchStep → Bool
  | .resume i =>
      match s.running[i]? with
      | some (.step o _) => !(answer w o s.data).1.isOk
      | _ => false
  | _ => false

/-- The timer fires during a callback that is past its reads, with a change that
nothing has covered yet. -/
def drops (s : Watcher) : WatchStep → Bool
  | .fire => s.data.isProcessing && !decide (NoLostChange s.data.log)
      && s.running.all fun cb => !Reading cb
  | _ => false

/-- No timer is pending and no callback is at work. -/
def Quiescent (d : WatchData) : Prop := d.debounceTimer = none ∧ d.isProcessing = false

instance (d : WatchData) : Decidable (Quiescent d) := inferInstanceAs (Decidable (_ ∧ _))

/-- At most one callback is at work, and `isProcessing` says whether one is. -/
def Exclusive (s : Watcher) : Prop :=
  (s.running = [] ∧ s.data.isProcessing = false) ∨
    ∃ cb, s.running = [cb] ∧ s.data.isProcessing = true ∧ Callback cb

/-- An uncovered change has a timer or a callback that will read. -/
def Guarded (s : Watcher) : Prop :=
  NoLostChange s.data.log ∨ s.data.debounceTimer.isSome = true ∨
    ∃ cb ∈ s.running, Reading cb = true

/-- What an operation does to the variables. -/
theorem answer_frame (w : WatchWorld) {ρ : Type} (o : WatchOp ρ) (d : WatchData) :
    (answer w o d).2.debounceTimer = d.debounceTimer ∧
      ∃ e, (answer w o d).2.log = d.log ++ [e] ∧ e.isChange = false := by
  have hwritten : ∀ {α : Type} (e : WatchEvent) (f : WatchData → α × WatchData),
      (f d).2.debounceTimer = d.debounceTimer → (f d).2.log = d.log → e.isChange = false →
      (written w e f d).2.debounceTimer = d.debounceTimer ∧
        ∃ e', (written w e f d).2.log = d.log ++ [e'] ∧ e'.isChange = false := by
    intro α e f htimer hlog he
    unfold written
    split
    · exact ⟨htimer, e, by simp [WatchData.record, hlog], he⟩
    · exact ⟨rfl, e, rfl, he⟩
  cases o with
  | createFeature | createUsage | addJob => exact hwritten _ _ rfl rfl rfl
  | _ => exact ⟨rfl, _, rfl, rfl⟩

theorem answer_isProcessing (w : WatchWorld) {ρ : Type} {o : WatchOp ρ} (ho : Plain o)
    (d : WatchData) : (answer w o d).2.isProcessing = d.isProcessing := by
  cases o with
  | createFeature | createUsage | addJob => simp only [answer, written]; split <;> rfl
  | clearProcessing => exact ho.elim
  | _ => rfl

theorem Callback.goOn {p : WatchProc Unit} (hp : Callback p) (cb : WatchProc Unit) :
    goOn [cb] 0 p = [p] := by
  cases hp <;> rfl

/-- The ways a step can go. -/
theorem watchStep_cases {w : WatchWorld} {s t : Watcher} {l : WatchStep}
    (h : watchStep w s l = some t) :
    (∃ filePath, l = .change filePath ∧ t = { s with data := s.data.onChange filePath }) ∨
    (∃ ms, l = .elapse ms ∧ t = { s with data := { s.data with now := s.data.now + ms } }) ∨
    (l = .fire ∧ s.data.isProcessing = true ∧ t = { s with data := s.data.onBusyTimer }) ∨
    (l = .fire ∧ s.data.isProcessing = false ∧
      t = { data := s.data.onIdleTimer, running := s.running ++ [timerCallback w.localUrl] }) ∨
    (∃ (i : Nat) (ρ : Type) (o : WatchOp ρ) (k : Except String ρ → WatchProc Unit),
      l = .resume i ∧ s.running[i]? = some (.step o k) ∧
      t = { data := (answer w o s.data).2
            running := goOn s.running i (k (answer w o s.data).1) }) := by
  cases l with
  | change filePath => exact .inl ⟨filePath, rfl, (Option.some.inj h).symm⟩
  | elapse ms => exact .inr (.inl ⟨ms, rfl, (Option.some.inj h).symm⟩)
  | fire =>
    simp only [watchStep] at h
    split at h
    · cases h
    · split at h
      · cases h
      · split at h
        · rename_i hp
          exact .inr (.inr (.inl ⟨rfl, hp, (Option.some.inj h).symm⟩))
        · rename_i hp
          exact .inr (.inr (.inr (.inl ⟨rfl, by simpa using hp, (Option.some.inj h).symm⟩)))
  | resume i =>
    simp only [watchStep] at h
    split at h
    · rename_i ρ o k hcb
      exact .inr (.inr (.inr (.inr ⟨i, ρ, o, k, rfl, hcb, (Option.some.inj h).symm⟩)))
    · cases h

/-- The callback that a reply goes to is the only one. -/
theorem Exclusive.only {s : Watcher} (h : Exclusive s) {i : Nat} {p : WatchProc Unit}
    (hp : s.running[i]? = some p) :
    i = 0 ∧ s.running = [p] ∧ s.data.isProcessing = true ∧ Callback p := by
  rcases h with ⟨hnone, -⟩ | ⟨cb, hone, hprocessing, hcb⟩
  · simp [hnone] at hp
  · rw [hone] at hp
    cases i with
    | zero =>
      cases hp
      exact ⟨rfl, hone, hprocessing, hcb⟩
    | succ i => simp at hp

theorem exclusive_step {w : WatchWorld} {s t : Watcher} {l : WatchStep} (h : Exclusive s)
    (hstep : watchStep w s l = some t) : Exclusive t := by
  rcases watchStep_cases hstep with ⟨filePath, -, rfl⟩ | ⟨ms, -, rfl⟩ | ⟨-, -, rfl⟩ | ⟨-, hp, rfl⟩ |
    ⟨i, ρ, o, k, -, hcb, rfl⟩
  · exact h
  · exact h
  · exact h
  · -- the flag is down, so no callback is at work when this one starts
    rcases h with ⟨hnone, -⟩ | ⟨cb, -, hprocessing, -⟩
    · exact .inr ⟨timerCallback w.localUrl, by simp [hnone], rfl, timerCallback_callback _⟩
    · rw [hp] at hprocessing
      cases hprocessing
  · obtain ⟨rfl, hone, hprocessing, hcallback⟩ := h.only hcb
    rw [hone]
    cases hcallback with
    | status hrest hdiff => exact .inr ⟨_, (hrest _).goOn _, hprocessing, hrest _⟩
    | plain ho hrest =>
      exact .inr ⟨_, (hrest _).goOn _, (answer_isProcessing w ho _).trans hprocessing, hrest _⟩
    | clear hend =>
      obtain ⟨v, hv⟩ := hend (answer w .clearProcessing s.data).1
      exact .inl ⟨by rw [hv]; rfl, rfl⟩

/-- A step that neither fails nor drops the timer keeps the guard. -/
theorem guarded_step {w : WatchWorld} {s t : Watcher} {l : WatchStep} (hexcl : Exclusive s)
    (h : Guarded s) (hfail : fails w s l = false) (hdrop : drops s l = false)
    (hstep : watchStep w s l = some t) : Guarded t := by
  rcases watchStep_cases hstep with ⟨filePath, -, rfl⟩ | ⟨ms, -, rfl⟩ | ⟨rfl, hp, rfl⟩ | ⟨-, hp, rfl⟩ |
    ⟨i, ρ, o, k, rfl, hcb, rfl⟩
  · exact .inr (.inl rfl)
  · exact h
  · -- the callback at work covers the change, or there is none to cover
    by_cases hlost : NoLostChange s.data.log
    · exact .inl (hlost.snoc rfl)
    · have hreading : ∃ cb ∈ s.running, Reading cb = true := by
        simpa [drops, hp, hlost] using hdrop
      exact .inr (.inr hreading)
  · exact .inr (.inr ⟨timerCallback w.localUrl, by simp, rfl⟩)
  · obtain ⟨rfl, hone, -, hcallback⟩ := hexcl.only hcb
    obtain ⟨htimer, e, hlog, he⟩ := answer_frame w o s.data
    -- a step that is no read leaves the guard to what it was before
    have hkeep : Reading (.step o k) = false → Guarded
        { data := (answer w o s.data).2
          running := goOn s.running 0 (k (answer w o s.data).1) } := by
      intro hnot
      rcases h with h | h | ⟨cb, hmem, hr⟩
      · exact .inl (by rw [hlog]; exact h.snoc he)
      · exact .inr (.inl (by rw [htimer]; exact h))
      · rw [hone, List.mem_singleton] at hmem
        rw [hmem, hnot] at hr
        cases hr
    cases hcallback with
    | status hrest hdiff =>
      -- finding nothing covers every change; else the diff is still to be read
      cases hr : (answer w .gitStatus s.data).1 with
      | error err =>
        have hok : (answer w .gitStatus s.data).1.isOk = true := by
          simpa [fails, hcb] using hfail
        rw [hr] at hok
        cases hok
      | ok files =>
        have hlog' : (answer w .gitStatus s.data).2.log = s.data.log ++ [.statusRead (.ok files)] := by
          rw [← hr]
          rfl
        cases files with
        | nil => exact .inl (by rw [hlog']; exact .covered _ rfl)
        | cons f fs =>
          refine .inr (.inr ⟨_, ?_, hdiff f fs⟩)
          rw [hone, (hrest (.ok (f :: fs))).goOn]
          exact List.mem_singleton_self _
    | clear => exact hkeep rfl
    | plain ho hrest =>
      cases o with
      | gitDiff => exact .inl (.covered _ rfl)
      | gitStatus | clearProcessing => exact ho.elim
      | _ => exact hkeep rfl

/-! ## Every run -/

/-- **No lost change.** In every run without failing steps in which no timer is
dropped while a change waits to be covered, all changes are covered whenever
the watcher is at rest. -/
theorem no_lost_change {w : WatchWorld} {db : Db} {now : Nat} {schedule : List WatchStep}
    (hsteps : Along (watchStep w) (fun s l => fails w s l = false ∧ drops s l = false)
      (.start db now) schedule)
    {s : Watcher} (hrun : exec (watchStep w) (.start db now) schedule = some s)
    (hquiet : Quiescent s.data) : NoLostChange s.data.log := by
  have hinv : Exclusive s ∧ Guarded s := by
    refine exec_invariant (I := fun s => Exclusive s ∧ Guarded s) ?_ ?_ hsteps hrun
    · rintro s l t ⟨hexcl, hguard⟩ ⟨hfail, hdrop⟩ hstep
      exact ⟨exclusive_step hexcl hstep, guarded_step hexcl hguard hfail hdrop hstep⟩
    · exact ⟨.inl ⟨rfl, rfl⟩, .inl trivial⟩
  obtain ⟨hexcl, hguard⟩ := hinv
  -- at rest neither a timer nor a callback can be what guards the change
  rcases hguard with hlog | htimer | ⟨cb, hcb, -⟩
  · exact hlog
  · rw [hquiet.1] at htimer
    cases htimer
  · rcases hexcl with ⟨hnone, -⟩ | ⟨_, -, hprocessing, -⟩
    · rw [hnone] at hcb
      cases hcb
    · rw [hquiet.2] at hprocessing
      cases hprocessing

/-! Two runs in front of one repository. -/

/-- Gemini describes every diff, and all writes go through. -/
def savingWorld : WatchWorld where
  agents := { World.calm with
    gemini := fun _ _ =>
      let fields := [("featureName", Json.str "Login"), ("description", .str "Log in")]
      .ok ⟨some ((Json.obj fields).stringify 0), none, some 500, some 50⟩ }
  gitStatus _ := .ok ["src/login.ts"]
  gitDiff _ := .ok "+ login()"
  write _ := .ok ()
  projectId := 0
  localUrl := "http://localhost:3000"

/-- The steps of one callback after `git.diff`, to the end. -/
def finishCallback : List WatchStep := List.replicate 5 (.resume 0)

/-- A second change while the diff of the first is analyzed; its timer fires when the
callback is over. -/
def laterSchedule : List WatchStep :=
  [.change "src/login.ts", .elapse 2000, .fire, .resume 0, .resume 0, .elapse 500,
    .change "src/logout.ts"] ++ finishCallback
    ++ [.elapse 2000, .fire, .resume 0, .resume 0] ++ finishCallback

/-- The second callback reads the repository after the second change. -/
theorem later_changes_covered :
    ∃ s, exec (watchStep savingWorld) (.start .empty 0) laterSchedule = some s ∧
      Quiescent s.data ∧ s.data.log.take 12 = [.changed 0 "src/login.ts", .fired 2000 true,
        .statusRead (.ok ["src/login.ts"]), .diffRead, .changed 2500 "src/logout.ts", .analyzed,
        .featureCreated, .usageCreated, .jobAdded, .finished, .fired 4500 true,
        .statusRead (.ok ["src/login.ts"])] ∧
      NoLostChange s.data.log := by
  have hrun : ((exec (watchStep savingWorld) (.start .empty 0) laterSchedule).map fun s =>
      decide (Quiescent s.data ∧ s.data.log.take 12 = [.changed 0 "src/login.ts",
        .fired 2000 true, .statusRead (.ok ["src/login.ts"]), .diffRead,
        .changed 2500 "src/logout.ts", .analyzed, .featureCreated, .usageCreated, .jobAdded,
        .finished, .fired 4500 true, .statusRead (.ok ["src/login.ts"])])) = some true := by
    decide +kernel
  have hsteps : Along (watchStep savingWorld)
      (fun s l => fails savingWorld s l = false ∧ drops s l = false) (.start .empty 0)
      laterSchedule := by
    decide +kernel
  obtain ⟨s, hs, hfinal⟩ := Option.map_eq_some_iff.mp hrun
  obtain ⟨hquiet, hlog⟩ := of_decide_eq_true hfinal
  exact ⟨s, hs, hquiet, hlog, no_lost_change hsteps hs hquiet⟩

/-- A second change while the diff of the first is analyzed; its timer fires
before the analysis is over. -/
def busySchedule : List WatchStep :=
  [.change "src/login.ts", .elapse 2000, .fire, .resume 0, .resume 0,
    .change "src/logout.ts", .elapse 2000, .fire] ++ finishCallback

/-- Nothing reads the repository after the second change, though no step fails
and the watcher is at rest. -/
theorem logout_change_lost :
    ∃ s, exec (watchStep savingWorld) (.start .empty 0) busySchedule = some s ∧
      Along (watchStep savingWorld) (fun s l => fails savingWorld s l = false) (.start .empty 0)
        busySchedule ∧
      Quiescent s.data ∧ ¬ NoLostChange s.data.log ∧
      s.data.log.drop 5 = [.fired 4000 false, .analyzed, .featureCreated, .usageCreated, .jobAdded,
        .finished] := by
  have hrun : ((exec (watchStep savingWorld) (.start .empty 0) busySchedule).map fun s =>
      decide (Quiescent s.data ∧ ¬ NoLostChange s.data.log ∧
        s.data.log.drop 5 = [.fired 4000 false, .analyzed, .featureCreated, .usageCreated, .jobAdded,
          .finished])) = some true := by
    decide +kernel
  have hsteps : Along (watchStep savingWorld) (fun s l => fails savingWorld s l = false)
      (.start .empty 0) busySchedule := by
    decide +kernel
  obtain ⟨s, hs, hfinal⟩ := Option.map_eq_some_iff.mp hrun
  exact ⟨s, hs, hsteps, of_decide_eq_true hfinal⟩

end AutoQa.Orchestrator

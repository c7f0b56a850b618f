import AutoQa.Orchestrator.WatcherChanges

/-!
# The debounce timer

The watcher with the timers of the event loop: `setTimeout` adds one, `clearTimeout`
removes the one whose handle the variable `debounceTimer` holds, and a timer that is due
may fire at any time from then on. `Watcher`, which has room for one pending timer, is
what is left of it.
-/

namespace AutoQa.Orchestrator

open AutoQa.Base AutoQa.Db

/-! ## The event loop -/

structure Timer where
  handle : Nat
  due : Nat
  deriving DecidableEq, Repr

/-- A maximal run of changes with less than `debounceMs` from one to the next. -/
structure Burst where
  /-- The time of its last change. -/
  last : Nat
  /-- The firings between its first change and the first of the next burst. -/
  fires : Nat
  /-- The next burst began when the timer was due and had not fired. -/
  overtaken : Bool
  deriving DecidableEq, Repr

structure EventLoop where
  /-- The pending timers. -/
  timers : List Timer
  /-- The number of timers so far, which is the handle of the next one. -/
  created : Nat
  /-- The variable `debounceTimer`. It keeps its handle when the timer fires. -/
  debounceTimer : Option Nat
  /-- The rest; its own timer is not used. -/
  watcher : Watcher
  /-- The bursts so far, the last one first. -/
  bursts : List Burst

namespace EventLoop

def start (db : Db) (now : Nat) : EventLoop := ⟨[], 0, none, .start db now, []⟩

def now (s : EventLoop) : Nat := s.watcher.data.now

/-- `clearTimeout(debounceTimer)`, if it is set. -/
def cleared (s : EventLoop) : List Timer :=
  match s.debounceTimer with
  | some handle => s.timers.filter fun timer => timer.handle ≠ handle
  | none => s.timers

/-- A change belongs to the last burst, or begins one. -/
def countChange (s : EventLoop) : List Burst :=
  match s.bursts with
  | [] => [⟨s.now, 0, false⟩]
  | b :: earlier =>
      if s.now < b.last + debounceMs then { b with last := s.now } :: earlier
      else ⟨s.now, 0, false⟩ :: { b with overtaken := s.timers.any (·.due ≤ s.now) } :: earlier

def countFire (s : EventLoop) : List Burst :=
  match s.bursts with
  | [] => []
  | b :: earlier => { b with fires := b.fires + 1 } :: earlier

end EventLoop

inductive LoopStep where
  | change (filePath : String)
  | elapse (ms : Nat)
  /-- The `i`-th pending timer fires. -/
  | fire (i : Nat)
  | resume (i : Nat)
  deriving DecidableEq, Repr

/-- The callback of a timer, up to its first `await`. -/
def Watcher.runCallback (w : WatchWorld) (s : Watcher) : Watcher :=
  if s.data.isProcessing then { s with data := s.data.record (.fired s.data.now false) }
  else
    { data := { s.data with isProcessing := true }.record (.fired s.data.now true)
      running := s.running ++ [timerCallback w.localUrl] }

def loopStep (w : WatchWorld) (s : EventLoop) : LoopStep → Option EventLoop
  | .change filePath =>
      some { timers := s.cleared ++ [⟨s.created, s.now + debounceMs⟩]
             created := s.created + 1
             debounceTimer := some s.created
             watcher := { s.watcher with
               data := s.watcher.data.record (.changed s.now filePath) }
             bursts := s.countChange }
  | .elapse ms =>
      some { s with
        watcher := { s.watcher with
          data := { s.watcher.data with now := s.watcher.data.now + ms } } }
  | .fire i =>
      match s.timers[i]? with
      | none => none
      | some timer =>
          if s.now < timer.due then none
          else
            some { s with
              timers := s.timers.eraseIdx i
              watcher := s.watcher.runCallback w
              bursts := s.countFire }
  | .resume i => (watchStep w s.watcher (.resume i)).map fun watcher => { s with watcher }

/-! ## One pending timer -/

/-- The pending timer, if there is one, is that of the last change, and the variable holds
its handle; all but the last burst fired once or were overtaken. -/
inductive Debounced : EventLoop → Prop
  | unchanged {created : Nat} {watcher : Watcher} :
      Debounced ⟨[], created, none, watcher, []⟩
  | pending {created handle : Nat} {watcher : Watcher} {b : Burst} {earlier : List Burst} :
      b.fires = 0 →
      (∀ e ∈ earlier, e.fires + (if e.overtaken then 1 else 0) = 1) →
      Debounced ⟨[⟨handle, b.last + debounceMs⟩], created, some handle, watcher, b :: earlier⟩
  | fired {created handle : Nat} {watcher : Watcher} {b : Burst} {earlier : List Burst} :
      b.fires = 1 → b.last + debounceMs ≤ watcher.data.now →
      (∀ e ∈ earlier, e.fires + (if e.overtaken then 1 else 0) = 1) →
      Debounced ⟨[], created, some handle, watcher, b :: earlier⟩

theorem answer_now (w : WatchWorld) {ρ : Type} (o : WatchOp ρ) (d : WatchData) :
    (answer w o d).2.now = d.now := by
  cases o with
  | createFeature | createUsage | addJob =>
    simp only [answer, written]
    split <;> rfl
  | _ => rfl

theorem resume_now {w : WatchWorld} {s t : Watcher} {i : Nat}
    (h : watchStep w s (.resume i) = some t) : t.data.now = s.data.now := by
  simp only [watchStep] at h
  split at h
  · cases h
    exact answer_now w _ _
  · cases h

theorem Watcher.runCallback_now (w : WatchWorld) (s : Watcher) :
    (s.runCallback w).data.now = s.data.now := by
  unfold Watcher.runCallback
  split <;> rfl

namespace EventLoop

theorem countChange_soon {s : EventLoop} {b : Burst} {earlier : List Burst}
    (hbursts : s.bursts = b :: earlier) (h : s.now < b.last + debounceMs) :
    s.countChange = { b with last := s.now } :: earlier := by
  simp [countChange, hbursts, h]

theorem countChange_late {s : EventLoop} {b : Burst} {earlier : List Burst}
    (hbursts : s.bursts = b :: earlier) (h : b.last + debounceMs ≤ s.now) :
    s.countChange
      = ⟨s.now, 0, false⟩ :: { b with overtaken := s.timers.any (·.due ≤ s.now) } :: earlier := by
  simp [countChange, hbursts, Nat.not_lt.mpr h]

end EventLoop

/-- A change clears the pending timer. -/
theorem Debounced.cleared {s : EventLoop} (h : Debounced s) : s.cleared = [] := by
  cases h <;> simp [EventLoop.cleared]

/-- What a change makes of the bursts when the last one has fired, or its timer is pending. -/
theorem debounced_change {w : WatchWorld} {s t : EventLoop} {filePath : String} (h : Debounced s)
    (hstep : loopStep w s (.change filePath) = some t) : Debounced t := by
  cases hstep
  rw [h.cleared, List.nil_append]
  cases h with
  | @unchanged created watcher =>
    exact .pending (b := ⟨watcher.data.now, 0, false⟩) rfl (List.forall_mem_nil _)
  | @pending created handle watcher b earlier hfires hearlier =>
    rcases Nat.lt_or_ge watcher.data.now (b.last + debounceMs) with hsoon | hlate
    · rw [EventLoop.countChange_soon (s := ⟨_, _, _, watcher, _⟩) rfl hsoon]
      exact .pending (b := { b with last := watcher.data.now }) hfires hearlier
    · -- the timer of the last burst was due, so this change overtakes it
      rw [EventLoop.countChange_late (s := ⟨_, _, _, watcher, _⟩) rfl hlate]
      refine .pending (b := ⟨watcher.data.now, 0, false⟩) rfl (List.forall_mem_cons.mpr ⟨?_, hearlier⟩)
      simp [hfires, EventLoop.now, hlate]
  | @fired created handle watcher b earlier hfires hdue hearlier =>
    rw [EventLoop.countChange_late (s := ⟨_, _, _, watcher, _⟩) rfl hdue]
    refine .pending (b := ⟨watcher.data.now, 0, false⟩) rfl (List.forall_mem_cons.mpr ⟨?_, hearlier⟩)
    simp [hfires]

/-- Only the pending timer can fire, when it is due. -/
theorem Debounced.fire_cases {w : WatchWorld} {s t : EventLoop} {i : Nat} (h : Debounced s)
    (hstep : loopStep w s (.fire i) = some t) :
    ∃ created handle watcher, ∃ (b : Burst) (earlier : List Burst), b.fires = 0 ∧
      (∀ e ∈ earlier, e.fires + (if e.overtaken then 1 else 0) = 1) ∧
      b.last + debounceMs ≤ watcher.data.now ∧
      s = ⟨[⟨handle, b.last + debounceMs⟩], created, some handle, watcher, b :: earlier⟩ ∧
      t = ⟨[], created, some handle, watcher.runCallback w, { b with fires := 1 } :: earlier⟩ := by
  simp only [loopStep] at hstep
  split at hstep
  · cases hstep
  · rename_i timer htimer
    split at hstep
    · cases hstep
    · rename_i hlate
      cases h with
      | unchanged => simp at htimer
      | fired => simp at htimer
      | @pending created handle watcher b earlier hfires hearlier =>
        cases i with
        | succ i => simp at htimer
        | zero =>
          cases htimer
          cases hstep
          refine ⟨created, handle, watcher, b, earlier, hfires, hearlier, Nat.le_of_not_lt hlate, rfl, ?_⟩
          simp [EventLoop.countFire, hfires]

theorem debounced_step {w : WatchWorld} {s t : EventLoop} {l : LoopStep} (h : Debounced s)
    (hstep : loopStep w s l = some t) : Debounced t := by
  cases l with
  | change filePath => exact debounced_change h hstep
  | elapse ms =>
    cases hstep
    cases h with
    | unchanged => exact .unchanged
    | pending hfires hearlier => exact .pending hfires hearlier
    | fired hfires hdue hearlier => exact .fired hfires (Nat.le_add_right_of_le hdue) hearlier
  | fire i =>
    obtain ⟨created, handle, watcher, b, earlier, -, hearlier, hdue, rfl, rfl⟩ := h.fire_cases hstep
    refine .fired (b := { b with fires := 1 }) rfl ?_ hearlier
    rw [Watcher.runCallback_now]
    exact hdue
  | resume i =>
    obtain ⟨watcher, hwatcher, rfl⟩ := Option.map_eq_some_iff.mp hstep
    have hnow := resume_now hwatcher
    cases h with
    | unchanged => exact .unchanged
    | pending hfires hearlier => exact .pending hfires hearlier
    | fired hfires hdue hearlier => exact .fired hfires (hnow ▸ hdue) hearlier

theorem Debounced.timers_length_le {s : EventLoop} (h : Debounced s) : s.timers.length ≤ 1 := by
  cases h with
  | unchanged => exact Nat.zero_le _
  | pending => exact Nat.le_refl _
  | fired => exact Nat.zero_le _

/-! ## The watcher behind it -/

/-- The data with another time for the pending timer. -/
def WatchData.withTimer (due : Option Nat) (d : WatchData) : WatchData :=
  { d with debounceTimer := due }

/-- The loop as a watcher: of the timers, the time at which the first is due. -/
def EventLoop.abs (s : EventLoop) : Watcher :=
  { s.watcher with data := s.watcher.data.withTimer (s.timers.head?.map Timer.due) }

def LoopStep.abs : LoopStep → WatchStep
  | .change filePath => .change filePath
  | .elapse ms => .elapse ms
  | .fire _ => .fire
  | .resume i => .resume i

/-- No operation of a callback reads the timer. -/
theorem answer_withTimer (w : WatchWorld) {ρ : Type} (o : WatchOp ρ) (d : WatchData)
    (due : Option Nat) : answer w o (d.withTimer due)
      = ((answer w o d).1, (answer w o d).2.withTimer due) := by
  cases o with
  | createFeature | createUsage | addJob =>
    simp only [answer, written, WatchData.withTimer]
    split <;> rfl
  | _ => rfl

theorem resume_withTimer {w : WatchWorld} {s t : Watcher} {i : Nat} (due : Option Nat)
    (h : watchStep w s (.resume i) = some t) :
    watchStep w { s with data := s.data.withTimer due } (.resume i)
      = some { t with data := t.data.withTimer due } := by
  simp only [watchStep] at h ⊢
  split at h
  · rename_i hcb
    cases h
    simp only [answer_withTimer]
  · cases h

theorem Watcher.runCallback_idle {w : WatchWorld} {s : Watcher} (h : s.data.isProcessing = false) :
    s.runCallback w = { data := { s.data with isProcessing := true }.record (.fired s.data.now true)
                        running := s.running ++ [timerCallback w.localUrl] } :=
  if_neg (by simp [h])

/-- A step of the loop is a step of the watcher. -/
theorem loopStep_abs {w : WatchWorld} {s t : EventLoop} {l : LoopStep} (h : Debounced s)
    (hstep : loopStep w s l = some t) : watchStep w s.abs l.abs = some t.abs := by
  cases l with
  | change filePath =>
    cases hstep
    simp only [EventLoop.abs, h.cleared]
    rfl
  | elapse ms =>
    cases hstep
    rfl
  | fire i =>
    obtain ⟨created, handle, watcher, b, earlier, -, -, hdue, rfl, rfl⟩ := h.fire_cases hstep
    cases hprocessing : watcher.data.isProcessing with
    | true =>
      simp [EventLoop.abs, LoopStep.abs, watchStep, WatchData.withTimer, Nat.not_lt.mpr hdue,
        hprocessing, Watcher.runCallback, WatchData.onBusyTimer, WatchData.record]
    | false =>
      simp [EventLoop.abs, LoopStep.abs, watchStep, WatchData.withTimer, Nat.not_lt.mpr hdue,
        hprocessing, Watcher.runCallback, WatchData.onIdleTimer, WatchData.record]
  | resume i =>
    obtain ⟨watcher, hwatcher, rfl⟩ := Option.map_eq_some_iff.mp hstep
    exact resume_withTimer _ hwatcher

/-! ## Every run -/

/-- At most one callback is at work, and `isProcessing` says whether one is. -/
structure Alone (s : Watcher) : Prop where
  one : s.running.length ≤ 1
  flag : s.data.isProcessing = true ↔ s.running ≠ []

theorem Exclusive.alone {s : Watcher} (h : Exclusive s) : Alone s := by
  rcases h with ⟨hnone, hflag⟩ | ⟨cb, hone, hflag, -⟩
  · exact ⟨by simp [hnone], by simp [hnone, hflag]⟩
  · exact ⟨by simp [hone], by simp [hone, hflag]⟩

theorem exec_debounced {w : WatchWorld} {db : Db} {now : Nat} {schedule : List LoopStep}
    {s : EventLoop} (hrun : exec (loopStep w) (.start db now) schedule = some s) :
    Debounced s ∧ Exclusive s.abs := by
  refine exec_keeps (I := fun s => Debounced s ∧ Exclusive s.abs) ?_ ⟨.unchanged, .inl ⟨rfl, rfl⟩⟩ hrun
  rintro s l t ⟨hdebounced, hexclusive⟩ hstep
  exact ⟨debounced_step hdebounced hstep, exclusive_step hexclusive (loopStep_abs hdebounced hstep)⟩

/-- The firings of the bursts: each but the last fired once, or not at all if it was overtaken;
the last fired once, or its timer is pending. -/
def FiredOnce (s : EventLoop) : Prop :=
  match s.bursts with
  | [] => s.timers = []
  | b :: earlier => b.fires + s.timers.length = 1 ∧
      ∀ e ∈ earlier, e.fires + (if e.overtaken then 1 else 0) = 1

theorem Debounced.firedOnce {s : EventLoop} (h : Debounced s) : FiredOnce s := by
  cases h with
  | unchanged => rfl
  | pending hfires hearlier => exact ⟨by simp [hfires], hearlier⟩
  | fired hfires _ hearlier => exact ⟨by simp [hfires], hearlier⟩

/-- **Debounce and mutual exclusion.** In every run at most one timer is pending; each burst
of changes leads to one firing, unless the next one begins when the timer is due and has
not fired; at most one callback is at work, which `isProcessing` says; and a timer that
fires when none is at work starts one. -/
theorem debounce_and_exclusion {w : WatchWorld} {db : Db} {now : Nat} {schedule : List LoopStep}
    {s : EventLoop} (hrun : exec (loopStep w) (.start db now) schedule = some s) :
    s.timers.length ≤ 1 ∧ FiredOnce s ∧ Alone s.watcher ∧
      ∀ i t, loopStep w s (.fire i) = some t → s.watcher.running = [] →
        t.watcher.running = [timerCallback w.localUrl] ∧ t.watcher.data.isProcessing = true := by
  obtain ⟨hdebounced, hexclusive⟩ := exec_debounced hrun
  have halone : Alone s.watcher := ⟨hexclusive.alone.one, hexclusive.alone.flag⟩
  refine ⟨hdebounced.timers_length_le, hdebounced.firedOnce, halone, ?_⟩
  intro i t hfire hnone
  have hidle : s.watcher.data.isProcessing = false := by
    rw [← Bool.not_eq_true, halone.flag]
    exact not_not_intro hnone
  simp only [loopStep] at hfire
  split at hfire
  · cases hfire
  · split at hfire
    · cases hfire
    · cases hfire
      dsimp only
      rw [Watcher.runCallback_idle hidle, hnone]
      exact ⟨rfl, rfl⟩

/-- Two bursts; the timer of the second fires while the first is processed. -/
def twoBursts : List LoopStep :=
  [.change "a.ts", .elapse 500, .change "b.ts", .elapse 2000, .fire 0, .change "c.ts",
    .elapse 2100, .fire 0]

theorem two_bursts_fire :
    ∃ s, exec (loopStep savingWorld) (.start .empty 0) twoBursts = some s ∧
      s.bursts = [⟨2500, 1, false⟩, ⟨500, 1, false⟩] ∧ s.watcher.running.length = 1 ∧
      s.timers.length ≤ 1 ∧ FiredOnce s ∧ Alone s.watcher ∧
      ∀ i t, loopStep savingWorld s (.fire i) = some t → s.watcher.running = [] →
        t.watcher.running = [timerCallback savingWorld.localUrl] ∧
          t.watcher.data.isProcessing = true := by
  have hends : ((exec (loopStep savingWorld) (.start .empty 0) twoBursts).map fun s =>
      decide (s.bursts = [⟨2500, 1, false⟩, ⟨500, 1, false⟩] ∧ s.watcher.running.length = 1))
      = some true := by
    decide +kernel
  obtain ⟨s, hrun, hfinal⟩ := Option.map_eq_some_iff.mp hends
  obtain ⟨hbursts, hrunning⟩ := of_decide_eq_true hfinal
  exact ⟨s, hrun, hbursts, hrunning, debounce_and_exclusion hrun⟩

/-- The loop is busy when the timer is due, and handles the next change first. -/
def lateTimer : List LoopStep :=
  [.change "a.ts", .elapse 2500, .change "b.ts", .elapse 2000, .fire 0]

/-- The timer of the first burst never fires. -/
theorem late_timer_overtaken :
    ∃ s, exec (loopStep savingWorld) (.start .empty 0) lateTimer = some s ∧ s.timers = [] ∧
      s.bursts = [⟨2500, 1, false⟩, ⟨0, 0, true⟩] ∧ ¬ ∀ b ∈ s.bursts, b.fires = 1 := by
  have hends : ((exec (loopStep savingWorld) (.start .empty 0) lateTimer).map fun s =>
      decide (s.timers = [] ∧ s.bursts = [⟨2500, 1, false⟩, ⟨0, 0, true⟩] ∧
        ¬ ∀ b ∈ s.bursts, b.fires = 1)) = some true := by
    decide +kernel
  obtain ⟨s, hrun, hfinal⟩ := Option.map_eq_some_iff.mp hends
  exact ⟨s, hrun, of_decide_eq_true hfinal⟩

end AutoQa.Orchestrator

import AutoQa.LlmAgents.FinalStep

/-!
# The escalation schedule

`noProgressTurns` counts the turns without a tool call up to now, so that
`escalate` depends on the last two responses alone. A run whose provider calls
all return has a fixed shape: a turn is escalated behind two idle ones, and a
third idle turn is the last.
-/

namespace AutoQa.LlmAgents

open AutoQa.Base

/-! ## The flags of the provider calls -/

/-- The turn and the `forceFallback` of a provider call. -/
def Event.flag? : Event → Option (Nat × Bool)
  | .generate turn _ forceFallback => some (turn, forceFallback)
  | _ => none

def flags (es : Trace) : List (Nat × Bool) := es.filterMap Event.flag?

@[simp] theorem flags_append (es fs : Trace) : flags (es ++ fs) = flags es ++ flags fs :=
  List.filterMap_append

theorem flags_nil_of {es : Trace} (h : ∀ e ∈ es, e.flag? = none) : flags es = [] := by
  simpa [flags, List.filterMap_eq_nil_iff] using h

theorem LlmEvent.flag_none {ps : List SingleProvider} {messages : List Message} {e : Event}
    (h : LlmEvent ps messages e) : e.flag? = none := by
  rcases h with ⟨p, -, rfl | ⟨u, rfl, -⟩⟩ <;> rfl

theorem Event.flag_none_of_isTool {e : Event} (h : e.isTool = true) : e.flag? = none := by
  cases e <;> first | rfl | cases h

theorem Move.flags_events (m : Move) : flags m.events = [] :=
  flags_nil_of fun e he => Event.flag_none_of_isTool (m.events_isTool e he)

/-- One call of the provider leaves one flag. -/
theorem generate_flags (w : World) (provider : LLMProvider) (turn : Nat) (flag : Bool)
    (input : GenerateInput) :
    Logs (fun (r : Except String (Response × Bool)) es =>
        flags es = [(turn, flag)] ∧ ∀ a, r = .ok a → a.2 = flag) (do
      emit (.generate turn input.messages flag)
      let response ← provider.generate w input
      pure (response, flag)) := by
  refine Logs.bind (Logs.append (R := fun _ es => flags es = [(turn, flag)]) rfl) ?_ ?_
  · exact fun _ _ h => ⟨h, nofun⟩
  · intro _ es hes
    have hcall : Logs (fun _ fs => flags fs = []) (provider.generate w input) :=
      (provider.generate_logs w input).mono fun _ _ h =>
        flags_nil_of fun e he => (h.1 e he).flag_none
    refine Logs.bind hcall ?_ ?_
    · exact fun _ _ h => ⟨by simp [hes, h], nofun⟩
    · intro response fs hfs
      apply Logs.pure
      refine ⟨by simp [hes, hfs], ?_⟩
      rintro a ⟨⟩
      rfl

/-- A turn calls its provider. If it does so once and gets a response, the flag stands. -/
theorem sendTurn_flags (w : World) (provider : LLMProvider) (tools : List ToolDefinition)
    (turn : Nat) (messages : List Message) (escalate : Bool) :
    Logs (fun r es => 1 ≤ (flags es).length ∧
        ((flags es).length = 1 → ∀ a, r = .ok a → a.2 = escalate ∧ flags es = [(turn, escalate)]))
      (sendTurn w provider tools turn messages escalate) := by
  refine Logs.tryCatch (generate_flags w provider turn escalate
    { messages, tools := some tools, forceFallback := escalate }) ?_ ?_
  · rintro a es ⟨hes, hflag⟩
    refine ⟨by simp [hes], ?_⟩
    rintro - b ⟨⟩
    exact ⟨hflag a rfl, hes⟩
  · rintro err es ⟨hes, -⟩
    split
    · refine (generate_flags w provider turn false { messages, tools := some tools }).mono ?_
      rintro r fs ⟨hfs, -⟩
      refine ⟨by simp [hes], ?_⟩
      intro hone
      simp [hes, hfs] at hone
    · exact Logs.throw ⟨by simp [hes], fun _ => nofun⟩

/-! ## The counter -/

/-- The moves, escalated by a counter of idle turns that starts at `k`. -/
def Scheduled : Nat → List Move → Prop
  | _, [] => True
  | k, m :: ms =>
      (m.escalate = true ↔ maxNoProgress ≤ k) ∧ Scheduled (if m.idle then k + 1 else 0) ms

theorem escalates_iff {w : World} (h : ∀ t, escalateToCloud (w.configFile t) = true)
    (s : LoopState) (tr : Trace) :
    escalates w s tr = true ↔ maxNoProgress ≤ s.noProgressTurns := by
  simp [escalates, h]

section Loop

variable {w : World} {provider : LLMProvider} {tools : List ToolDefinition} {startTime left : Nat}
  {s : LoopState} {tr u : Trace} {ms : List Move} {r : Except String LoopState}

/-- The provider calls of a turn, as the loop sees them. -/
theorem asks_flags {t : Trace} {r : Except String (Response × Bool)}
    (h : asks w provider tools s (tr ++ [.clockRead]) = (r, t)) :
    ∃ es, t = tr ++ es ∧ 1 ≤ (flags es).length ∧ ((flags es).length = 1 →
      ∀ response escalate, r = .ok (response, escalate) →
        escalate = escalates w s (tr ++ [.clockRead]) ∧
          flags es = [(s.currentTurn + 1, escalate)]) := by
  obtain ⟨sends, hsends, hone, hflag⟩ := sendTurn_flags w provider tools (s.currentTurn + 1)
    s.messages (escalates w s (tr ++ [.clockRead])) (tr ++ [.clockRead] ++ [.configRead])
  rw [← asks, h] at hsends hflag
  refine ⟨[.clockRead, .configRead] ++ sends, by simpa using hsends, ?_⟩
  have hflags : flags ([.clockRead, .configRead] ++ sends) = flags sends := by
    rw [flags_append]
    rfl
  rw [hflags]
  refine ⟨hone, fun hlength response escalate hr => ?_⟩
  obtain ⟨hescalate, heq⟩ := hflag hlength (response, escalate) hr
  rw [← hescalate] at heq
  exact ⟨hescalate, heq⟩

/-- A loop in which every provider call returns: one flag a turn, the schedule, and
a limit where no turn is the last by itself. -/
theorem LoopRun.scheduled (h : LoopRun w provider tools startTime left s tr ms r u)
    (hconfig : ∀ t, escalateToCloud (w.configFile t) = true) :
    ∃ es, u = tr ++ es ∧ ms.length ≤ (flags es).length ∧ ((flags es).length = ms.length →
      flags es = (ms.zipIdx s.currentTurn).map (fun p => (p.2 + 1, p.1.escalate)) ∧
      Scheduled s.noProgressTurns ms ∧
      (s.isDone = false → (∀ m ∈ ms, m.ends = false) →
        ms.length = left ∨ w.now (elapsed u - 1) - startTime > timeoutMs)) := by
  induction h with
  | done hdone =>
    refine ⟨[], by simp, Nat.zero_le _, fun _ => ⟨rfl, trivial, fun hs => ?_⟩⟩
    cases hs.symm.trans hdone
  | turnLimit _ => exact ⟨[], by simp, Nat.zero_le _, fun _ => ⟨rfl, trivial, fun _ _ => .inl rfl⟩⟩
  | timeLimit _ htime =>
    refine ⟨[.clockRead], rfl, Nat.zero_le _, fun _ => ⟨rfl, trivial, fun _ _ => .inr ?_⟩⟩
    simpa using htime
  | threw _ hasks =>
    obtain ⟨es, ht, hone, -⟩ := asks_flags hasks
    refine ⟨es, ht, Nat.zero_le _, fun heq => ?_⟩
    rw [heq] at hone
    cases hone
  | @unsaved left s tr t response escalate e _ hasks hafter =>
    obtain ⟨es, rfl, hone, hflag⟩ := asks_flags hasks
    refine ⟨_, List.append_assoc _ _ _, ?_⟩
    rw [flags_append, Move.flags_events, List.append_nil]
    refine ⟨hone, fun heq => ?_⟩
    obtain ⟨hescalate, hflags⟩ := hflag heq response escalate rfl
    refine ⟨hflags, ⟨?_, trivial⟩, fun _ hnone => ?_⟩
    · rw [← escalates_iff hconfig s (tr ++ [.clockRead]), ← hescalate]
      rfl
    · obtain ⟨hidle, hesc, -⟩ := after_error hafter
      cases (hnone _ (List.mem_singleton.mpr rfl)).symm.trans (Move.ends_of_stuck hidle hesc)
  | @turn left s s' tr t u response escalate ms r hs hasks hafter _ ih =>
    obtain ⟨es, rfl, hone, hflag⟩ := asks_flags hasks
    obtain ⟨fs, rfl, hle, hrest⟩ := ih
    refine ⟨es ++ ((moveAt w response escalate (elapsed (tr ++ es))).events ++ fs),
      by simp only [List.append_assoc], ?_⟩
    rw [flags_append, flags_append, Move.flags_events, List.nil_append, List.length_cons]
    have hlength : (flags es ++ flags fs).length = (flags es).length + (flags fs).length :=
      List.length_append
    refine ⟨by omega, fun heq => ?_⟩
    -- Neither this turn nor the later ones have a flag to spare.
    obtain ⟨hescalate, hflags⟩ := hflag (by omega) response escalate rfl
    obtain ⟨hfs, hscheduled, hlimit⟩ := hrest (by omega)
    rw [after_currentTurn hafter] at hfs
    rw [after_noProgressTurns hafter] at hscheduled
    refine ⟨?_, ⟨?_, hscheduled⟩, fun _ hnone => ?_⟩
    · rw [hflags, hfs]
      rfl
    · rw [← escalates_iff hconfig s (tr ++ [.clockRead]), ← hescalate]
      rfl
    · obtain ⟨hends, hlater⟩ := List.forall_mem_cons.mp hnone
      rcases hlimit ((after_isDone hs hafter).trans hends) hlater with hturns | htime
      · exact .inl (congrArg (· + 1) hturns)
      · exact .inr htime

end Loop

/-! ## The shape of a run -/

/-- The last two turns called no tool. -/
def Stalled (pre : List Move) : Prop :=
  ∃ front a b, pre = front ++ [a, b] ∧ a.idle = true ∧ b.idle = true

/-- The turn asks for the screenshot, or is the third idle one in a row. -/
def IsLast (pre : List Move) (m : Move) : Prop :=
  m.shoots = true ∨ (m.idle = true ∧ Stalled pre)

/-- The counter of idle turns behind `pre`. -/
def idleTurns (k : Nat) (pre : List Move) : Nat :=
  pre.foldl (fun n m => if m.idle then n + 1 else 0) k

theorem Scheduled.escalate_iff {k : Nat} {pre post : List Move} {m : Move}
    (h : Scheduled k (pre ++ m :: post)) : m.escalate = true ↔ maxNoProgress ≤ idleTurns k pre := by
  induction pre generalizing k with
  | nil => exact h.1
  | cons first pre ih => exact ih h.2

theorem idleTurns_append (k : Nat) (pre : List Move) (m : Move) :
    idleTurns k (pre ++ [m]) = if m.idle then idleTurns k pre + 1 else 0 := by
  simp [idleTurns]

theorem stalled_append (front : List Move) (a b : Move) :
    Stalled (front ++ [a] ++ [b]) ↔ a.idle = true ∧ b.idle = true := by
  constructor
  · rintro ⟨front', a', b', heq, ha, hb⟩
    rw [List.append_assoc] at heq
    obtain ⟨-, hlast⟩ := List.append_inj' heq rfl
    simp only [List.singleton_append, List.cons.injEq, and_true] at hlast
    obtain ⟨rfl, rfl⟩ := hlast
    exact ⟨ha, hb⟩
  · rintro ⟨ha, hb⟩
    exact ⟨front, a, b, by simp, ha, hb⟩

/-- The counter is at its limit behind two idle turns. -/
theorem stalled_iff (pre : List Move) : maxNoProgress ≤ idleTurns 0 pre ↔ Stalled pre := by
  have hshort : ∀ ms : List Move, ms.length < 2 → ¬ Stalled ms := by
    rintro ms hlength ⟨front, a, b, rfl, -⟩
    simp at hlength
  rcases List.eq_nil_or_concat' pre with rfl | ⟨pre, b, rfl⟩
  · exact iff_of_false (by decide) (hshort [] (by decide))
  rcases List.eq_nil_or_concat' pre with rfl | ⟨front, a, rfl⟩
  · refine iff_of_false ?_ (hshort _ (by simp))
    rw [idleTurns_append]
    cases b.idle <;> simp [idleTurns, maxNoProgress]
  · rw [stalled_append, idleTurns_append, idleTurns_append]
    cases a.idle <;> cases b.idle <;> simp [maxNoProgress]

/-- What the moves of a run look like whose provider calls all return. -/
structure Schedule (ms : List Move) : Prop where
  /-- A turn is escalated behind two idle ones, and only there. -/
  escalated : ∀ pre m post, ms = pre ++ m :: post → (m.escalate = true ↔ Stalled pre)
  /-- No four turns in a row call no tool. -/
  idle_le : ∀ pre mid post, ms = pre ++ mid ++ post → (∀ m ∈ mid, m.idle = true) → mid.length ≤ 3
  turns_le : ms.length ≤ 10
  /-- Behind the screenshot or the third idle turn there is no other. -/
  ended : ∀ pre m post, ms = pre ++ m :: post → IsLast pre m → post = []

theorem Move.mem_events_screenshot {m : Move} {reply : Except String ToolResult} :
    .mcpScreenshot reply ∈ m.events ↔ m.idle = true ∧ m.escalate = true ∧ m.final = reply := by
  cases hidle : m.idle with
  | true =>
    rw [m.events_of_idle hidle]
    cases m.escalate <;> simp [eq_comm]
  | false => simp [m.events_of_calls hidle]

theorem isLast_iff_ends {pre : List Move} {m : Move} (h : m.escalate = true ↔ Stalled pre) :
    IsLast pre m ↔ m.ends = true := by
  simp [IsLast, Move.ends, h]

theorem Scheduled.schedule {ms : List Move} (h : Scheduled 0 ms)
    (hends : ms.Pairwise fun m _ => m.ends = false) (hlength : ms.length ≤ 10) : Schedule ms := by
  have hescalated : ∀ pre m post, ms = pre ++ m :: post → (m.escalate = true ↔ Stalled pre) := by
    rintro pre m post rfl
    rw [h.escalate_iff, stalled_iff]
  have hended : ∀ pre m post, ms = pre ++ m :: post → IsLast pre m → post = [] := by
    rintro pre m post rfl hlast
    have hm := (isLast_iff_ends (hescalated pre m post rfl)).mp hlast
    have hpost := (List.pairwise_cons.mp (List.pairwise_append.mp hends).2.1).1
    rw [List.eq_nil_iff_forall_not_mem]
    intro later hlater
    cases (hpost later hlater).symm.trans hm
  refine ⟨hescalated, ?_, hlength, hended⟩
  rintro pre mid post heq hidle
  match mid, hidle with
  | [], _ => simp
  | [_], _ => simp
  | [_, _], _ => simp
  | [_, _, _], _ => simp
  | a :: b :: c :: d :: mid, hidle =>
    simp only [List.mem_cons, forall_eq_or_imp] at hidle
    have hlast : IsLast (pre ++ [a, b]) c := .inr ⟨hidle.2.2.1, pre, a, b, rfl, hidle.1, hidle.2.1⟩
    have hnil := hended (pre ++ [a, b]) c (d :: mid ++ post) (by simp [heq]) hlast
    cases hnil

/-! ## The whole run -/

section Whole

variable (w : World) (testRunId instruction url : String) (provider? : Option LLMProvider)
  (tr : Trace)

/-- Every provider call of the run came back with a response. -/
def Responds : Prop :=
  (flags (runEvents (executeTestAutonomous w testRunId instruction url provider?) tr)).length
    = (agentMoves w provider? instruction url tr).length

/-- The run has used up its turns, or its clock has passed the limit when it is read
for the last time. -/
def LimitReached : Prop :=
  (agentMoves w provider? instruction url tr).length = 10 ∨
    w.now (elapsed (executeTestAutonomous w testRunId instruction url provider? tr).2 - 2)
      - w.now (elapsed (chosenTrace provider? tr) + 2) > timeoutMs

theorem run_scheduled (hconfig : ∀ t, escalateToCloud (w.configFile t) = true)
    (h : Responds w testRunId instruction url provider? tr) :
    flags (runEvents (executeTestAutonomous w testRunId instruction url provider?) tr)
        = (agentMoves w provider? instruction url tr).zipIdx.map
            (fun p => (p.2 + 1, p.1.escalate)) ∧
      Scheduled 0 (agentMoves w provider? instruction url tr) ∧
      (Served w instruction url provider? tr →
        (∀ m ∈ agentMoves w provider? instruction url tr, m.ends = false) →
        LimitReached w testRunId instruction url provider? tr) := by
  have houtside : ∀ {es : Trace}, (∀ e ∈ es, Outside e) → flags es = [] := by
    intro es hes
    apply flags_nil_of
    intro e he
    rcases hes e he with rfl | rfl | rfl | rfl | rfl <;> rfl
  rw [Responds] at h
  rcases run_cases w testRunId instruction url provider? tr with
    ⟨e, es, hrun, hout, hmoves, hnot⟩ | ⟨tools, r, pre, es, -, -, hout, hloop, hrun⟩
  · rw [runEvents_eq (congrArg Prod.snd hrun), houtside hout, hmoves]
    exact ⟨rfl, trivial, fun hserved => absurd hserved hnot⟩
  · obtain ⟨es', heq, -, hscheduled⟩ := hloop.scheduled hconfig
    obtain rfl := List.append_cancel_left heq
    have hflags : flags (runEvents (executeTestAutonomous w testRunId instruction url provider?) tr)
        = flags es := by
      rw [runEvents_eq (congrArg Prod.snd hrun), flags_append, flags_append, houtside hout]
      exact List.append_nil _
    rw [hflags] at h ⊢
    obtain ⟨hsent, hmoves, hlimit⟩ := hscheduled h
    refine ⟨hsent, hmoves, fun _ hnone => ?_⟩
    have hlast : elapsed (tr ++ (pre ++ es ++ [Event.mcpClose])) - 2 = elapsed (tr ++ pre ++ es) - 1 := by
      simp only [elapsed_append, elapsed_cons, elapsed_nil, Event.ticks]
      omega
    rw [LimitReached, hrun, hlast]
    exact hlimit rfl hnone

/-- The third idle turn, whose screenshot throws. -/
def ForcedThrows (ms : List Move) : Prop :=
  ∃ pre m e, ms = pre ++ [m] ∧ m.idle = true ∧ Stalled pre ∧ m.final = .error e

theorem Schedule.ends_iff {ms : List Move} (h : Schedule ms) :
    (∀ m ∈ ms, m.ends = false) ↔ ∀ pre m post, ms = pre ++ m :: post → ¬ IsLast pre m := by
  constructor
  · intro hnone pre m post heq hlast
    have hm := (isLast_iff_ends (h.escalated pre m post heq)).mp hlast
    cases (hnone m (by simp [heq])).symm.trans hm
  · intro hnone m hm
    obtain ⟨pre, post, heq⟩ := List.append_of_mem hm
    have hnot := mt (isLast_iff_ends (h.escalated pre m post heq)).mpr (hnone pre m post heq)
    exact Bool.eq_false_iff.mpr hnot

/-- The moves end with a screenshot, unless the agent's own throws or no turn is the last. -/
theorem Schedule.not_finishes_iff {ms : List Move} (h : Schedule ms) :
    ¬ Finishes ms ↔ ForcedThrows ms ∨ ∀ pre m post, ms = pre ++ m :: post → ¬ IsLast pre m := by
  constructor
  · intro hnot
    by_cases hlast : ∃ pre m post, ms = pre ++ m :: post ∧ IsLast pre m
    · obtain ⟨pre, m, post, heq, hlast⟩ := hlast
      obtain rfl := h.ended pre m post heq hlast
      have hends := (isLast_iff_ends (h.escalated pre m [] heq)).mp hlast
      cases hfinal : m.final with
      | ok result => exact absurd ⟨pre, m, heq, hends, fun _ => ⟨result, hfinal⟩⟩ hnot
      | error e =>
        cases hidle : m.idle with
        | false => exact absurd ⟨pre, m, heq, hends, by simp [hidle]⟩ hnot
        | true =>
          have hstalled := (h.escalated pre m [] heq).mp (m.escalate_of_ends hends hidle)
          exact .inl ⟨pre, m, e, heq, hidle, hstalled, hfinal⟩
    · exact .inr fun pre m post heq hm => hlast ⟨pre, m, post, heq, hm⟩
  · rintro (⟨pre, m, e, heq, hidle, -, hthrows⟩ | hnone) ⟨pre', m', heq', hends, hfinal⟩
    · obtain ⟨-, hm⟩ := List.append_inj' (heq.symm.trans heq') rfl
      obtain rfl : m = m' := List.singleton_inj.mp hm
      obtain ⟨result, hresult⟩ := hfinal hidle
      cases hthrows.symm.trans hresult
    · exact hnone pre' m' [] heq' ((isLast_iff_ends (h.escalated pre' m' [] heq')).mpr hends)

theorem Schedule.forced {ms : List Move} (h : Schedule ms) (reply : Except String ToolResult) :
    (∃ m ∈ ms, .mcpScreenshot reply ∈ m.events) ↔
      ∃ pre m, ms = pre ++ [m] ∧ m.idle = true ∧ Stalled pre ∧ m.final = reply := by
  constructor
  · rintro ⟨m, hm, hreply⟩
    obtain ⟨hidle, hesc, hfinal⟩ := Move.mem_events_screenshot.mp hreply
    obtain ⟨pre, post, heq⟩ := List.append_of_mem hm
    have hstalled := (h.escalated pre m post heq).mp hesc
    obtain rfl := h.ended pre m post heq (.inr ⟨hidle, hstalled⟩)
    exact ⟨pre, m, heq, hidle, hstalled, hfinal⟩
  · rintro ⟨pre, m, heq, hidle, hstalled, hfinal⟩
    have hesc := (h.escalated pre m [] heq).mpr hstalled
    exact ⟨m, by simp [heq], Move.mem_events_screenshot.mpr ⟨hidle, hesc, hfinal⟩⟩

theorem run_mem_screenshot (reply : Except String ToolResult) :
    .mcpScreenshot reply ∈ runEvents (executeTestAutonomous w testRunId instruction url provider?) tr ↔
      ∃ m ∈ agentMoves w provider? instruction url tr, .mcpScreenshot reply ∈ m.events := by
  rw [← List.mem_flatMap, ← run_toolEvents w testRunId instruction url provider? tr, List.mem_filter]
  simp [Event.isTool]

end Whole

/-- A local model with a cloud model behind it. -/
def escalatingChain : LLMProvider :=
  .fallback (.newGemini World.calm.env (some "gemma-3") none) [.newGemini World.calm.env none none]

/-- `escalateToCloud` is set, and no model ever calls a tool. -/
def mutedWorld : World :=
  { World.calm with
    configFile := fun _ => some "\x7b\"escalateToCloud\":true\x7d"
    gemini := fun _ _ => .ok ⟨some "Done.", none, some 1000, some 100⟩ }

theorem mutedWorld_escalates (t : Nat) : escalateToCloud (mutedWorld.configFile t) = true := by
  show escalateToCloud (mutedWorld.configFile 0) = true
  decide +kernel

/-- The models are as they should be, but the client of the tool server does not close. -/
def unclosedWorld : World :=
  { World.calm with
    configFile := mutedWorld.configFile
    mcpClose := fun _ => .error "Connection closed" }

end AutoQa.LlmAgents

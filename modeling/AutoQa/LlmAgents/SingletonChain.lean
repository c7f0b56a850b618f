import AutoQa.LlmAgents.Moves

/-!
# A chain of one provider

A role is configured with an object or with an array. An array with one entry
makes a chain that cannot escalate, and says so when it is asked to; the entry
alone ignores the request. The chain is then asked a second time, which leaves a
note in the trace and nothing else, so the two runs are compared without their
notes. They part at an escalated turn that does not get any further.
-/

namespace AutoQa.LlmAgents

open AutoQa.Base AutoQa.Base.Text

/-! ## One call -/

/-- The message of a chain whose members all failed. -/
def chainError (e : String) : String :=
  "All providers in fallback chain failed. Last error: " ++ e

/-- A text that can start nowhere in `pre` is found only behind it. -/
theorem infix_append_iff {a b : Char} {pre : List Char} (needle rest : List Char)
    (hab : ¬ [a, b] <:+: pre) (ha : ¬ [a] <:+ pre) :
    a :: b :: needle <:+: pre ++ rest ↔ a :: b :: needle <:+: rest := by
  induction pre with
  | nil => rfl
  | cons c pre ih =>
    have hnot : ¬ a :: b :: needle <+: c :: (pre ++ rest) := by
      intro h
      obtain ⟨rfl, htail⟩ := List.cons_prefix_cons.mp h
      cases pre with
      | nil => exact ha (List.suffix_refl _)
      | cons d pre =>
        obtain ⟨rfl, -⟩ := List.cons_prefix_cons.mp htail
        exact hab ⟨[], pre, rfl⟩
    rw [List.cons_append, List.infix_cons_iff, ih (fun h => hab (h.trans (List.suffix_cons c pre).isInfix))
      (fun h => ha (h.trans (List.suffix_cons c pre)))]
    simp [hnot]

theorem includes_append {s needle : String} {a b : Char} {t : List Char}
    (hneedle : needle.toList = a :: b :: t) (hab : ¬ [a, b] <:+: s.toList)
    (ha : ¬ [a] <:+ s.toList) (e : String) : includes (s ++ e) needle = includes e needle := by
  have hiff := infix_append_iff t e.toList hab ha
  rw [← hneedle] at hiff
  rw [includes, includes, String.toList_append]
  exact decide_eq_decide.mpr hiff

/-- The chain's own text is not taken for a refusal to escalate. -/
theorem includes_chainError (e : String) :
    includes (chainError e) "forceFallback requested but no fallback providers"
      = includes e "forceFallback requested but no fallback providers" :=
  includes_append (a := 'f') (b := 'o') (t := "rceFallback requested but no fallback providers".toList)
    (by decide +kernel) (by decide +kernel) (by decide +kernel) e

theorem singleton_generate (w : World) (p : SingleProvider) {input : GenerateInput}
    (hforce : input.forceFallback = false) (hvalidate : input.validate = none) (tr : Trace) :
    (LLMProvider.fallback p []).generate w input tr =
      match p.generate w input tr with
      | (.ok res, t) => (.ok res, t)
      | (.error e, t) => (.error (chainError e), t) := by
  rw [fallback_generate w p [] hforce, tryProviders]
  cases hcall : p.generate w input tr with
  | mk r t =>
  cases r with
  | ok res =>
    apply Prog.tryCatch_ok
    rw [tryMember, Prog.bind_ok hcall, runValidate, hvalidate]
    rfl
  | error e =>
    apply Prog.tryCatch_error
    rw [tryMember, Prog.bind_error hcall]

/-! ## What the surroundings see -/

/-- A trace without the notes. -/
def outward (tr : Trace) : Trace := tr.filter fun e => e.ticks != 0

@[simp] theorem outward_append (tr es : Trace) : outward (tr ++ es) = outward tr ++ outward es :=
  List.filter_append ..

theorem outward_cons (e : Event) (tr : Trace) :
    outward (e :: tr) = if e.ticks != 0 then e :: outward tr else outward tr :=
  List.filter_cons

theorem outward_note {e : Event} (he : e.ticks = 0) (tr : Trace) : outward (tr ++ [e]) = outward tr := by
  rw [outward_append, outward_cons, he]
  exact List.append_nil _

theorem elapsed_outward (tr : Trace) : elapsed tr = (outward tr).length := by
  induction tr with
  | nil => rfl
  | cons e tr ih => cases e <;> simp [outward_cons, ih, Nat.add_comm]

/-- The surroundings answer by the time, and the notes take none. -/
theorem elapsed_congr {tr tr' : Trace} (h : outward tr = outward tr') : elapsed tr = elapsed tr' := by
  rw [elapsed_outward, elapsed_outward, h]

theorem interact_steady {α : Type} (answer : Nat → Except String α)
    (event : Except String α → Event) : Steady outward (interact answer event) := by
  intro tr tr' h
  simp [interact, elapsed_congr h, h]

theorem request_steady {α : Type} (p : SingleProvider) (messages : List Message)
    (answer : Nat → Except String α) (usage : α → Usage) :
    Steady outward (p.request messages answer usage) := by
  intro tr tr' h
  simp only [SingleProvider.request, elapsed_congr h]
  cases answer (elapsed tr') <;> simp [h]

theorem generate_steady (w : World) (p : SingleProvider) (input : GenerateInput) :
    Steady outward (p.generate w input) := by
  unfold SingleProvider.generate
  split
  · exact .bind (request_steady p _ _ _) (fun _ => .pure _)
  · intro tr tr' h
    rw [Prog.bind_ok (Prog.get_apply tr), Prog.bind_ok (Prog.get_apply tr'), elapsed_congr h]
    exact Steady.bind (request_steady p _ _ _) (fun _ => .pure _) tr tr' h
  · exact .bind (request_steady p _ _ _) (fun _ => .ofExcept _)

/-! ## The comparison -/

def Event.toolCall? : Event → Option (String × Json)
  | .mcpCall name args _ => some (name, args)
  | .mcpScreenshot _ => some (screenshotTool, .obj [])
  | _ => none

def Event.request? : Event → Option (List Message)
  | .sent _ messages => some messages
  | _ => none

/-- The tool calls of a trace. -/
def toolCalls (tr : Trace) : List (String × Json) := tr.filterMap Event.toolCall?

/-- The message lists that its providers are sent. -/
def requests (tr : Trace) : List (List Message) := tr.filterMap Event.request?

/-- From `tr` on, the runs issue the same tool calls and send the same message lists,
and both return with the same usages or both throw. -/
def SameRun (p q : Prog Trace Artifacts) (tr : Trace) : Prop :=
  toolCalls (p tr).2 = toolCalls (q tr).2 ∧ requests (p tr).2 = requests (q tr).2 ∧
    (p tr).1.toOption.map Artifacts.usages = (q tr).1.toOption.map Artifacts.usages

@[simp] theorem toolCalls_append (tr es : Trace) : toolCalls (tr ++ es) = toolCalls tr ++ toolCalls es :=
  List.filterMap_append

@[simp] theorem requests_append (tr es : Trace) : requests (tr ++ es) = requests tr ++ requests es :=
  List.filterMap_append

theorem toolCalls_cons (e : Event) (tr : Trace) :
    toolCalls [e] ++ toolCalls tr = toolCalls (e :: tr) :=
  List.filterMap_append.symm

theorem requests_cons (e : Event) (tr : Trace) :
    requests [e] ++ requests tr = requests (e :: tr) :=
  List.filterMap_append.symm

theorem toolCalls_outward (tr : Trace) : toolCalls (outward tr) = toolCalls tr := by
  induction tr with
  | nil => rfl
  | cons e tr ih =>
    rw [outward_cons, ← toolCalls_cons, ← ih]
    cases e <;> rfl

theorem requests_outward (tr : Trace) : requests (outward tr) = requests tr := by
  induction tr with
  | nil => rfl
  | cons e tr ih =>
    rw [outward_cons, ← requests_cons, ← ih]
    cases e <;> rfl

theorem toolCalls_congr {tr tr' : Trace} (h : outward tr = outward tr') :
    toolCalls tr = toolCalls tr' := by
  rw [← toolCalls_outward, h, toolCalls_outward]

theorem requests_congr {tr tr' : Trace} (h : outward tr = outward tr') :
    requests tr = requests tr' := by
  rw [← requests_outward, h, requests_outward]

theorem requests_append_left {es : Trace} (h : requests es ≠ []) (fs : Trace) :
    requests (es ++ fs) ≠ [] := by
  simp [h]

theorem requests_append_right (es : Trace) {fs : Trace} (h : requests fs ≠ []) :
    requests (es ++ fs) ≠ [] := by
  simp [h]

/-- Each request is to one member. -/
theorem requests_length (tr : Trace) : (requests tr).length = (askedMembers tr).length := by
  induction tr with
  | nil => rfl
  | cons e tr ih =>
    rw [← requests_cons, List.length_append, ih]
    cases e <;> simp [requests, Event.request?, askedMembers, Nat.add_comm]

theorem requests_of_asked {p : SingleProvider} {es : Trace} (h : askedMembers es = [p]) :
    requests es ≠ [] := by
  rw [← List.length_pos_iff, requests_length, h]
  exact Nat.one_pos

theorem SameRun.of_alike {p q : Prog Trace Artifacts} {tr : Trace} (h : Alike outward p q tr tr) :
    SameRun p q tr :=
  ⟨toolCalls_congr h.1, requests_congr h.1, congrArg (Option.map Artifacts.usages) h.2⟩

/-! ## The provider call of a turn -/

/-- The text by which the loop recognises a refusal to escalate. -/
def refusalText : String := "forceFallback requested but no fallback providers"

/-- The provider's answer to the turn that starts in the state `s`, after `tr`. -/
def answerOf (w : World) (p : SingleProvider) (tools : List ToolDefinition) (s : LoopState)
    (tr : Trace) : Except String Response :=
  (p.generate w { messages := s.messages, tools := some tools } (tr ++ [.configRead])).1

/-- One attempt of a turn. -/
def attempt (w : World) (provider : LLMProvider) (tools : List ToolDefinition) (turn : Nat)
    (messages : List Message) (force : Bool) : Prog Trace (Response × Bool) := do
  emit (.generate turn messages force)
  let response ← provider.generate w { messages, tools := some tools, forceFallback := force }
  pure (response, force)

theorem sendTurn_attempts (w : World) (provider : LLMProvider) (tools : List ToolDefinition)
    (turn : Nat) (messages : List Message) (escalate : Bool) :
    sendTurn w provider tools turn messages escalate
      = Prog.tryCatch (attempt w provider tools turn messages escalate) fun err =>
          if includes err refusalText then attempt w provider tools turn messages false
          else Prog.throw err := rfl

/-- An attempt of the provider alone, and one of its chain that is not refused: the
chain returns the same response, or throws the error in its own words. -/
theorem attempt_cases (w : World) (p : SingleProvider) (tools : List ToolDefinition) (turn : Nat)
    (messages : List Message) (force : Bool) {tr tr' : Trace} (h : outward tr = outward tr') :
    ∃ t t', outward t = outward t' ∧
      ((∃ res, (p.generate w { messages, tools := some tools } tr).1 = .ok res ∧
          attempt w (.single p) tools turn messages force tr = (.ok (res, force), t) ∧
          attempt w (.fallback p []) tools turn messages false tr' = (.ok (res, false), t')) ∨
        ∃ e, (p.generate w { messages, tools := some tools } tr).1 = .error e ∧
          attempt w (.single p) tools turn messages force tr = (.error e, t) ∧
          attempt w (.fallback p []) tools turn messages false tr' = (.error (chainError e), t')) := by
  have hemit : ∀ (force : Bool) (tr : Trace), emit (.generate turn messages force) tr
      = (.ok (), tr ++ [.generate turn messages force]) := fun _ _ => rfl
  have hnote : ∀ (force : Bool) (tr : Trace),
      outward (tr ++ [.generate turn messages force]) = outward tr := fun _ => outward_note rfl
  have hsteady := generate_steady w p { messages, tools := some tools }
  have hfirst := hsteady tr (tr ++ [.generate turn messages force]) (hnote _ _).symm
  -- a provider class does not read `forceFallback`
  have hsingle : ∀ tr, (LLMProvider.single p).generate w
      { messages, tools := some tools, forceFallback := force } tr
        = p.generate w { messages, tools := some tools } tr := fun _ => rfl
  have hchain := singleton_generate w p
    (show ({ messages, tools := some tools } : GenerateInput).forceFallback = false from rfl) rfl
    (tr' ++ [.generate turn messages false])
  rw [attempt, attempt, Prog.bind_ok (hemit force tr), Prog.bind_ok (hemit false tr'), hfirst.1]
  rcases hsteady.cases (s := tr ++ [.generate turn messages force])
      (t := tr' ++ [.generate turn messages false]) (by rw [hnote, hnote, h]) with
    ⟨res, t, t', ht, ht', heq⟩ | ⟨e, t, t', ht, ht', heq⟩
  · rw [ht'] at hchain
    rw [ht]
    exact ⟨t, t', heq, .inl ⟨res, rfl, Prog.bind_ok ((hsingle _).trans ht), Prog.bind_ok hchain⟩⟩
  · rw [ht'] at hchain
    rw [ht]
    exact ⟨t, t', heq, .inr ⟨e, rfl, Prog.bind_error ((hsingle _).trans ht),
      Prog.bind_error hchain⟩⟩

/-- Not escalated, the two see the same error text, so both try again or neither does. -/
theorem sendTurn_alike (w : World) (p : SingleProvider) (tools : List ToolDefinition) (turn : Nat)
    (messages : List Message) {tr tr' : Trace} (h : outward tr = outward tr') :
    Alike outward (sendTurn w (.single p) tools turn messages false)
      (sendTurn w (.fallback p []) tools turn messages false) tr tr' := by
  rw [sendTurn_attempts, sendTurn_attempts]
  obtain ⟨t, t', heq, ⟨res, -, hp, hq⟩ | ⟨e, -, hp, hq⟩⟩ :=
    attempt_cases w p tools turn messages false h
  · exact .of_ok (Prog.tryCatch_ok hp) (Prog.tryCatch_ok hq) heq
  · rw [Alike, Prog.tryCatch_error hp, Prog.tryCatch_error hq, refusalText, includes_chainError,
      ← refusalText]
    split
    · obtain ⟨u, u', hend, ⟨res, -, hp, hq⟩ | ⟨e', -, hp, hq⟩⟩ :=
        attempt_cases w p tools turn messages false heq
      · exact Alike.of_ok hp hq hend
      · exact Alike.of_error hp hq hend
    · exact Alike.of_error (p := Prog.throw e) (q := Prog.throw (chainError e)) rfl rfl heq

/-- Asked to escalate, the chain refuses without an interaction, and is asked again. -/
theorem sendTurn_refused (w : World) (p : SingleProvider) (tools : List ToolDefinition)
    (turn : Nat) (messages : List Message) (tr : Trace) :
    sendTurn w (.fallback p []) tools turn messages true tr
      = attempt w (.fallback p []) tools turn messages false (tr ++ [.generate turn messages true]) := by
  have hrefused : attempt w (.fallback p []) tools turn messages true tr
      = (.error noFallbackMessage, tr ++ [.generate turn messages true]) := rfl
  have hincludes : includes noFallbackMessage refusalText = true := by decide +kernel
  rw [sendTurn_attempts, Prog.tryCatch_error hrefused, if_pos hincludes]

/-- An escalated turn: the chain refuses, and its second attempt is the first one of the
provider alone. -/
theorem sendTurn_escalated (w : World) (p : SingleProvider) (tools : List ToolDefinition)
    (turn : Nat) (messages : List Message) {tr tr' : Trace} (h : outward tr = outward tr') :
    ∃ t t', outward t = outward t' ∧
      ((∃ res, (p.generate w { messages, tools := some tools } tr).1 = .ok res ∧
          sendTurn w (.single p) tools turn messages true tr = (.ok (res, true), t) ∧
          sendTurn w (.fallback p []) tools turn messages true tr' = (.ok (res, false), t')) ∨
        ∃ e, (p.generate w { messages, tools := some tools } tr).1 = .error e ∧
          sendTurn w (.fallback p []) tools turn messages true tr' = (.error (chainError e), t') ∧
          sendTurn w (.single p) tools turn messages true tr
            = if includes e refusalText then attempt w (.single p) tools turn messages false t
              else (.error e, t)) := by
  rw [sendTurn_attempts w (.single p), sendTurn_refused]
  obtain ⟨t, t', heq, ⟨res, hres, hp, hq⟩ | ⟨e, he, hp, hq⟩⟩ :=
    attempt_cases w p tools turn messages true
      (h.trans (outward_note (e := .generate turn messages true) rfl tr').symm)
  · exact ⟨t, t', heq, .inl ⟨res, hres, Prog.tryCatch_ok hp, hq⟩⟩
  · refine ⟨t, t', heq, .inr ⟨e, he, hq, ?_⟩⟩
    rw [Prog.tryCatch_error hp]
    split <;> rfl

/-- An attempt that is not refused sends a request. -/
theorem attempt_sends {w : World} {provider : LLMProvider} {tools : List ToolDefinition}
    {messages : List Message} (turn : Nat)
    (h : Logs (fun _ es => requests es ≠ [])
      (provider.generate w { messages, tools := some tools })) :
    Logs (fun _ es => requests es ≠ []) (attempt w provider tools turn messages false) := by
  refine Logs.bind (R := fun r es => r = .ok () ∧ requests es = []) (Logs.append ⟨rfl, rfl⟩) ?_ ?_
  · rintro e es ⟨h, -⟩
    cases h
  · rintro _ es ⟨-, hes⟩
    refine Logs.bind h ?_ ?_
    · intro e fs hfs
      simpa [hes] using hfs
    · intro response fs hfs
      exact Logs.pure (by simpa [hes] using hfs)

/-! ## The turn -/

theorem runToolCalls_steady (w : World) (calls : List ToolCall) :
    ∀ s : LoopState, Steady outward (runToolCalls w calls s) := by
  induction calls with
  | nil => exact fun _ => .pure _
  | cons call calls ih =>
    intro s
    refine .bind (.tryCatch ?_ (fun _ => .pure _)) (fun _ => ih _)
    exact .bind (interact_steady _ _) (fun _ => .ofExcept _)

theorem answerTurn_steady (w : World) (response : Response) (escalate : Bool) (s : LoopState) :
    Steady outward (answerTurn w response escalate s) := by
  unfold answerTurn
  split
  · unfold noProgress
    dsimp only
    split
    · exact .bind (interact_steady _ _) (fun _ => .pure _)
    · exact .pure _
  · exact runToolCalls_steady w _ _

/-- The answer to an escalated turn gets the run further: it calls a tool, or it is an
error that the loop does not take for a refusal. -/
def Advances (answer : Except String Response) : Prop :=
  (∀ response, answer = .ok response → callsOf response.toolCalls ≠ []) ∧
    ∀ e, answer = .error e → includes e refusalText = false

/-- Where tools are called, the turn does not read its flag. -/
theorem moveAt_flag (w : World) {response : Response} (h : callsOf response.toolCalls ≠ [])
    (time : Nat) (s : LoopState) :
    s.after (moveAt w response true time) = s.after (moveAt w response false time) ∧
      (moveAt w response true time).events = (moveAt w response false time).events := by
  cases hcalls : callsOf response.toolCalls with
  | nil => exact absurd hcalls h
  | cons call calls => simp [LoopState.after, Move.events, Move.calls, moveAt, hcalls,
      LoopState.called, LoopState.heard]

theorem escalates_congr (w : World) (s : LoopState) {tr tr' : Trace}
    (h : outward tr = outward tr') : escalates w s tr = escalates w s tr' := by
  rw [escalates, escalates, elapsed_congr h]

section Turn

variable {w : World} {p : SingleProvider} {tools : List ToolDefinition} {s : LoopState}
  {tr tr' : Trace}

/-- The two calls of an escalated turn. -/
theorem asks_escalated (h : outward tr = outward tr') (hescalates : escalates w s tr = true) :
    ∃ t t', outward t = outward t' ∧
      ((∃ res, answerOf w p tools s tr = .ok res ∧
          asks w (.single p) tools s tr = (.ok (res, true), t) ∧
          asks w (.fallback p []) tools s tr' = (.ok (res, false), t')) ∨
        ∃ e, answerOf w p tools s tr = .error e ∧
          asks w (.fallback p []) tools s tr' = (.error (chainError e), t') ∧
          asks w (.single p) tools s tr
            = if includes e refusalText then
                attempt w (.single p) tools (s.currentTurn + 1) s.messages false t
              else (.error e, t)) := by
  have hescalates' := (escalates_congr w s h).symm.trans hescalates
  rw [asks, asks, hescalates, hescalates']
  exact sendTurn_escalated w p tools _ _ (by simp [h])

theorem turn_alike (h : outward tr = outward tr')
    (hadvances : escalates w s tr = true → Advances (answerOf w p tools s tr)) :
    Alike outward (turn w (.single p) tools s) (turn w (.fallback p []) tools s) tr tr' := by
  cases hescalates : escalates w s tr with
  | false =>
    have hread : ∀ tr : Trace,
        readConfig w tr = (.ok (w.configFile (elapsed tr)), tr ++ [.configRead]) := fun _ => rfl
    have hflag : ∀ tr, escalates w s tr = (escalateToCloud (w.configFile (elapsed tr))
      && decide (s.noProgressTurns ≥ maxNoProgress)) := fun _ => rfl
    rw [Alike, turn, turn, Prog.bind_ok (hread tr), Prog.bind_ok (hread tr')]
    dsimp only
    rw [← hflag, ← hflag, ← escalates_congr w s h, hescalates]
    exact (sendTurn_alike w p tools _ _ (by simp [h])).bind fun a u u' _ _ heq =>
      .of_steady (answerTurn_steady w a.1 a.2 _) heq
  | true =>
    obtain ⟨hcalls, herror⟩ := hadvances hescalates
    obtain ⟨t, t', heq, ⟨res, hres, hp, hq⟩ | ⟨e, he, hq, hp⟩⟩ :=
      asks_escalated h hescalates
    · obtain ⟨hafter, hevents⟩ := moveAt_flag w (hcalls res hres) (elapsed t) s
      rw [Alike, turn_eq hp, turn_eq hq, hafter, hevents, elapsed_congr heq]
      simp [heq]
    · rw [herror e he] at hp
      exact .of_error (turn_eq_error hp) (turn_eq_error hq) heq

/-- An escalated turn that gets no further: the provider alone ends with a screenshot
where the chain is asked to go on, or tries again where the chain throws. -/
theorem turn_parts (h : outward tr = outward tr') (hescalates : escalates w s tr = true)
    (hnot : ¬ Advances (answerOf w p tools s tr)) :
    ∃ t t', outward t = outward t' ∧
      ((∃ s' r reply, turn w (.single p) tools s tr = (r, t ++ [.mcpScreenshot reply]) ∧
          (∀ s'', r = .ok s'' → s''.isDone = true) ∧
          turn w (.fallback p []) tools s tr' = (.ok s', t')) ∨
        ∃ e r es, turn w (.single p) tools s tr = (r, t ++ es) ∧ requests es ≠ [] ∧
          turn w (.fallback p []) tools s tr' = (.error e, t')) := by
  obtain ⟨t, t', heq, ⟨res, hres, hp, hq⟩ | ⟨e, he, hq, hp⟩⟩ :=
    asks_escalated h hescalates
  · have hidle : callsOf res.toolCalls = [] := by
      by_contra hcalls
      refine hnot ⟨fun response hok => ?_, fun e he => ?_⟩
      · cases hres.symm.trans hok
        exact hcalls
      · cases hres.symm.trans he
    have hbare : turn w (.single p) tools s tr
        = ((w.mcpCallTool (elapsed t) screenshotTool (.obj [])).map fun _ =>
            s.stuck (moveAt w res true (elapsed t)),
          t ++ [.mcpScreenshot (w.mcpCallTool (elapsed t) screenshotTool (.obj []))]) := by
      rw [turn_eq hp]
      simp [LoopState.after, Move.events, Move.calls, moveAt, hidle]
    refine ⟨t, t', heq, .inl ⟨s.nudged (moveAt w res false (elapsed t')), _, _, hbare, ?_, ?_⟩⟩
    · intro s'' hdone
      cases hreply : w.mcpCallTool (elapsed t) screenshotTool (.obj []) with
      | error e =>
        rw [hreply] at hdone
        cases hdone
      | ok result =>
        rw [hreply] at hdone
        cases hdone
        rfl
    · rw [turn_eq hq]
      simp [LoopState.after, Move.events, Move.calls, moveAt, hidle]
  · have hrefusal : includes e refusalText = true := by
      by_contra hincludes
      refine hnot ⟨fun response hok => ?_, fun e' he' => ?_⟩
      · cases he.symm.trans hok
      · cases he.symm.trans he'
        exact Bool.eq_false_iff.mpr hincludes
    rw [if_pos hrefusal] at hp
    have hsends : Logs (fun _ es => requests es ≠ [])
        ((LLMProvider.single p).generate w { messages := s.messages, tools := some tools }) :=
      (generate_asked w p _).mono fun _ _ => requests_of_asked
    obtain ⟨es, hes, hrequests⟩ := attempt_sends (s.currentTurn + 1) hsends t
    cases hattempt : attempt w (.single p) tools (s.currentTurn + 1) s.messages false t with
    | mk r u =>
    rw [hattempt] at hp hes
    cases r with
    | error e' =>
      obtain rfl : u = t ++ es := hes
      exact ⟨t, t', heq, .inr ⟨_, _, es, turn_eq_error hp, hrequests, turn_eq_error hq⟩⟩
    | ok a =>
      obtain ⟨response, escalate⟩ := a
      have hturn := turn_eq hp
      obtain rfl : u = t ++ es := hes
      rw [List.append_assoc] at hturn
      exact ⟨t, t', heq, .inr ⟨_, _, _, hturn, requests_append_left hrequests _,
        turn_eq_error hq⟩⟩

end Turn

/-! ## The loop -/

theorem sendTurn_sends (w : World) (p : SingleProvider) (tools : List ToolDefinition) (turn : Nat)
    (messages : List Message) (escalate : Bool) :
    Logs (fun _ es => requests es ≠ [])
      (sendTurn w (.fallback p []) tools turn messages escalate) := by
  have hattempt : Logs (fun _ es => requests es ≠ [])
      (attempt w (.fallback p []) tools turn messages false) := by
    refine attempt_sends turn fun tr => ?_
    obtain ⟨es, hes, hasked⟩ := generate_asked w p { messages, tools := some tools } tr
    refine ⟨es, ?_, requests_of_asked hasked⟩
    rw [singleton_generate w p rfl rfl, ← hes]
    cases p.generate w { messages, tools := some tools } tr with
    | mk r t => cases r <;> rfl
  cases escalate with
  | false =>
    rw [sendTurn_attempts]
    refine Logs.tryCatch hattempt (fun _ _ h => h) (fun e es hes => ?_)
    split
    · exact hattempt.mono fun _ fs _ => requests_append_left hes fs
    · exact Logs.throw (by simpa using hes)
  | true =>
    intro tr
    obtain ⟨es, hes, hrequests⟩ := hattempt (tr ++ [.generate turn messages true])
    rw [sendTurn_refused, hes, List.append_assoc]
    exact ⟨_, rfl, hrequests⟩

theorem turn_sends (w : World) (p : SingleProvider) (tools : List ToolDefinition) (s : LoopState) :
    Logs (fun _ es => requests es ≠ []) (turn w (.fallback p []) tools s) := by
  refine Logs.bind (R := fun r es => (∃ file, r = .ok file) ∧ es = [.configRead])
    (fun tr => ⟨_, rfl, ⟨_, rfl⟩, rfl⟩) ?_ ?_
  · rintro e es ⟨⟨file, h⟩, -⟩
    cases h
  · rintro file es ⟨-, rfl⟩
    refine Logs.bind (sendTurn_sends w p tools _ _ _) ?_ ?_
    · exact fun _ _ hfs => requests_append_right _ hfs
    · rintro ⟨response, escalate⟩ fs hfs
      exact (answerTurn_logs w response escalate { s with currentTurn := s.currentTurn + 1 }).mono
        fun _ gs _ => requests_append_right _ (requests_append_left hfs gs)

theorem mainLoop_logs (w : World) (provider : LLMProvider) (tools : List ToolDefinition)
    (startTime left : Nat) (s : LoopState) :
    Logs (fun _ _ => True) (mainLoop w provider tools startTime left s) :=
  mainLoop_rule (R := fun _ _ _ => True) w provider tools startTime (fun _ => trivial)
    (fun _ _ _ _ => trivial) (fun _ _ _ _ => trivial) (fun _ _ _ _ _ _ _ _ => trivial) left s

/-- The loop of a chain calls no tool before it has sent a request. -/
theorem mainLoop_sends (w : World) (p : SingleProvider) (tools : List ToolDefinition)
    (startTime left : Nat) (s : LoopState) :
    Logs (fun _ es => toolCalls es = [] ∨ requests es ≠ [])
      (mainLoop w (.fallback p []) tools startTime left s) := by
  cases left with
  | zero =>
    unfold mainLoop
    split
    · exact Logs.pure (.inl rfl)
    · exact Logs.throw (.inl rfl)
  | succ left =>
    unfold mainLoop
    split
    · exact Logs.pure (.inl rfl)
    refine Logs.bind (interact_logs _ _) ?_ ?_
    · rintro e es rfl
      exact .inl rfl
    · rintro now es rfl
      split
      · exact Logs.throw (.inl rfl)
      · refine Logs.bind (turn_sends w p tools s) ?_ ?_
        · exact fun _ _ hfs => .inr (requests_append_right _ hfs)
        · intro s' fs hfs
          exact (mainLoop_logs w _ tools startTime left s').mono fun _ gs _ =>
            .inr (requests_append_right _ (requests_append_left hfs gs))

/-- Every escalated turn in the loop of the provider `p` gets the run further. -/
def AlwaysAdvances (w : World) (p : SingleProvider) (tools : List ToolDefinition) (startTime : Nat) :
    Nat → LoopState → Trace → Prop
  | 0, _, _ => True
  | left + 1, s, tr =>
      s.isDone = false → ¬ w.now (elapsed tr) - startTime > timeoutMs →
        (escalates w s (tr ++ [.clockRead]) = true →
          Advances (answerOf w p tools s (tr ++ [.clockRead]))) ∧
        ∀ s' t, turn w (.single p) tools s (tr ++ [.clockRead]) = (.ok s', t) →
          AlwaysAdvances w p tools startTime left s' t

instance (answer : Except String Response) : Decidable (Advances answer) :=
  match answer with
  | .ok response => decidable_of_iff (callsOf response.toolCalls ≠ []) (by simp [Advances])
  | .error e => decidable_of_iff (includes e refusalText = false) (by simp [Advances])

instance alwaysAdvancesDecidable (w : World) (p : SingleProvider) (tools : List ToolDefinition)
    (startTime : Nat) : ∀ left s tr, Decidable (AlwaysAdvances w p tools startTime left s tr)
  | 0, _, _ => isTrue trivial
  | left + 1, s, tr =>
      have := alwaysAdvancesDecidable w p tools startTime left
      match hturn : turn w (.single p) tools s (tr ++ [.clockRead]) with
      | (.ok s', t) =>
          decidable_of_iff (s.isDone = false → ¬ w.now (elapsed tr) - startTime > timeoutMs →
            (escalates w s (tr ++ [.clockRead]) = true →
              Advances (answerOf w p tools s (tr ++ [.clockRead]))) ∧
            AlwaysAdvances w p tools startTime left s' t) (by simp [AlwaysAdvances, hturn])
      | (.error _, _) =>
          decidable_of_iff (s.isDone = false → ¬ w.now (elapsed tr) - startTime > timeoutMs →
            escalates w s (tr ++ [.clockRead]) = true →
              Advances (answerOf w p tools s (tr ++ [.clockRead]))) (by simp [AlwaysAdvances, hturn])

theorem mainLoop_alike (w : World) (p : SingleProvider) (tools : List ToolDefinition)
    (startTime left : Nat) : ∀ {s : LoopState} {tr tr' : Trace}, outward tr = outward tr' →
    AlwaysAdvances w p tools startTime left s tr →
    Alike outward (mainLoop w (.single p) tools startTime left s)
      (mainLoop w (.fallback p []) tools startTime left s) tr tr' := by
  induction left with
  | zero =>
    intro s tr tr' h _
    refine .of_steady (f := outward) ?_ h
    unfold mainLoop
    split
    · exact .pure _
    · exact .throw _
  | succ left ih =>
    intro s tr tr' h hadvances
    cases hdone : s.isDone with
    | true =>
      rw [mainLoop_done w _ tools startTime _ hdone, mainLoop_done w _ tools startTime _ hdone]
      exact .of_steady (.pure s) h
    | false =>
      have hnow : ∀ tr, dateNow w tr = (.ok (w.now (elapsed tr)), tr ++ [.clockRead]) :=
        fun _ => rfl
      simp only [mainLoop, hdone, Bool.false_eq_true, if_false]
      rw [Alike, Prog.bind_ok (hnow tr), Prog.bind_ok (hnow tr'), ← elapsed_congr h]
      split
      · exact Alike.of_steady (f := outward) (p := Prog.throw _) (.throw _) (by simp [h])
      · rename_i hinTime
        obtain ⟨hturn, hrest⟩ := hadvances hdone hinTime
        exact (turn_alike (by simp [h]) hturn).bind fun s' t t' ht _ heq => ih heq (hrest s' t ht)

/-- An escalated turn that gets no further shows: the provider alone calls a tool or sends
a request that the chain does not. -/
theorem mainLoop_parts {w : World} {p : SingleProvider} {tools : List ToolDefinition}
    {startTime left : Nat} {s : LoopState} {tr tr' : Trace} (h : outward tr = outward tr')
    (hescalates : escalates w s tr = true) (hnot : ¬ Advances (answerOf w p tools s tr)) :
    let bare := turn w (.single p) tools s >>= mainLoop w (.single p) tools startTime left
    let chain := turn w (.fallback p []) tools s >>= mainLoop w (.fallback p []) tools startTime left
    requests (bare tr).2 = requests (chain tr').2 → toolCalls (bare tr).2 ≠ toolCalls (chain tr').2 := by
  dsimp only
  obtain ⟨t, t', heq, ⟨s', r, reply, hp, hdone, hq⟩ | ⟨e, r, es, hp, hes, hq⟩⟩ :=
    turn_parts h hescalates hnot
  · have hbare : ((turn w (.single p) tools s >>= mainLoop w (.single p) tools startTime left) tr).2
        = t ++ [.mcpScreenshot reply] := by
      cases r with
      | error e => rw [Prog.bind_error hp]
      | ok s'' =>
        rw [Prog.bind_ok hp, mainLoop_done w _ tools startTime left (hdone s'' rfl)]
        rfl
    obtain ⟨es, hes, hsends⟩ := mainLoop_sends w p tools startTime left s' t'
    rw [hbare, Prog.bind_ok hq, hes, requests_append, requests_append, toolCalls_append,
      toolCalls_append, requests_congr heq, toolCalls_congr heq]
    intro hrequests htools
    have hnone : requests es = [] := (List.append_cancel_left hrequests).symm
    have hcalls : toolCalls [.mcpScreenshot reply] = toolCalls es := List.append_cancel_left htools
    rcases hsends with hsends | hsends
    · cases hcalls.trans hsends
    · exact hsends hnone
  · intro hrequests
    obtain ⟨fs, hfs⟩ : ∃ fs, ((turn w (.single p) tools s
        >>= mainLoop w (.single p) tools startTime left) tr).2 = t ++ es ++ fs := by
      cases r with
      | error e => exact ⟨[], by rw [Prog.bind_error hp, List.append_nil]⟩
      | ok s'' =>
        obtain ⟨fs, hfs, -⟩ := mainLoop_logs w (.single p) tools startTime left s'' (t ++ es)
        exact ⟨fs, by rw [Prog.bind_ok hp, hfs]⟩
    rw [hfs, Prog.bind_error hq, List.append_assoc, requests_append, requests_congr heq] at hrequests
    exact absurd (List.append_right_eq_self.mp hrequests) (requests_append_left hes fs)

/-- Loops that call the same tools and send the same requests have no escalated turn that
gets no further. -/
theorem alwaysAdvances_of_same (w : World) (p : SingleProvider) (tools : List ToolDefinition)
    (startTime left : Nat) : ∀ {s : LoopState} {tr tr' : Trace}, outward tr = outward tr' →
    requests (mainLoop w (.single p) tools startTime left s tr).2
      = requests (mainLoop w (.fallback p []) tools startTime left s tr').2 →
    toolCalls (mainLoop w (.single p) tools startTime left s tr).2
      = toolCalls (mainLoop w (.fallback p []) tools startTime left s tr').2 →
    AlwaysAdvances w p tools startTime left s tr := by
  induction left with
  | zero => exact fun _ _ _ => trivial
  | succ left ih =>
    intro s tr tr' h hrequests htools hdone hinTime
    have hnow : ∀ tr, dateNow w tr = (.ok (w.now (elapsed tr)), tr ++ [.clockRead]) := fun _ => rfl
    simp only [mainLoop, hdone, Bool.false_eq_true, if_false] at hrequests htools
    rw [Prog.bind_ok (hnow tr), Prog.bind_ok (hnow tr'), ← elapsed_congr h, if_neg hinTime,
      if_neg hinTime] at hrequests htools
    have hstart : outward (tr ++ [.clockRead]) = outward (tr' ++ [.clockRead]) := by simp [h]
    have hturn : escalates w s (tr ++ [.clockRead]) = true →
        Advances (answerOf w p tools s (tr ++ [.clockRead])) := fun hescalates =>
      not_not.mp fun hnot => mainLoop_parts hstart hescalates hnot hrequests htools
    refine ⟨hturn, ?_⟩
    intro s' t ht
    rcases (turn_alike hstart hturn).ways_out with
      ⟨a, u, u', hp, hq, heq⟩ | ⟨e, e', u, u', hp, hq, -⟩
    · rw [Prog.bind_ok hp, Prog.bind_ok hq] at hrequests htools
      cases hp.symm.trans ht
      exact ih heq hrequests htools
    · cases hp.symm.trans ht

/-! ## The run -/

/-- Every escalated turn of the agent run of `p` that starts after `tr` gets it further. -/
def EscalationsAdvance (w : World) (p : SingleProvider) (instruction url : String) (tr : Trace) :
    Prop :=
  w.mcpConnect (elapsed tr) = .ok () → ∀ tools, w.mcpListTools (elapsed tr + 1) = .ok tools →
    AlwaysAdvances w p tools (w.now (elapsed tr + 2)) maxTurns (initialState instruction url)
      (loopTrace tr)

/-- **A chain of one behaves as its provider** exactly in the runs in which every
escalated turn is answered with a tool call, or fails for good. -/
theorem singleton_chain_iff (w : World) (p : SingleProvider) (testRunId instruction url : String)
    (tr : Trace) :
    SameRun (executeTestAutonomous w testRunId instruction url (some (.single p)))
      (executeTestAutonomous w testRunId instruction url (some (.fallback p []))) tr ↔
      EscalationsAdvance w p instruction url tr := by
  rcases executeTestAutonomous_cases w testRunId instruction url tr with
    ⟨e, es, hrun, -, hnot⟩ | ⟨tools, hconnect, hlist, hrun⟩
  · constructor
    · exact fun _ hconnect tools hlist => absurd ⟨hconnect, tools, hlist⟩ hnot
    · exact fun _ => .of_alike (.of_error (hrun _) (hrun _) rfl)
  · have hadvance : EscalationsAdvance w p instruction url tr ↔ AlwaysAdvances w p tools
        (w.now (elapsed tr + 2)) maxTurns (initialState instruction url) (loopTrace tr) := by
      constructor
      · exact fun h => h hconnect tools hlist
      · intro h _ tools' hlist'
        cases hlist.symm.trans hlist'
        exact h
    rw [hadvance]
    constructor
    · rintro ⟨htools, hrequests, -⟩
      rw [hrun, hrun, toolRun_trace, toolRun_trace, toolCalls_append, toolCalls_append,
        List.append_cancel_right_eq] at htools
      rw [hrun, hrun, toolRun_trace, toolRun_trace, requests_append, requests_append,
        List.append_cancel_right_eq] at hrequests
      exact alwaysAdvances_of_same w p tools _ maxTurns rfl hrequests htools
    · intro h
      have halike := ((mainLoop_alike w p tools _ maxTurns rfl h).tryFinally
        (interact_steady w.mcpClose fun _ => .mcpClose)).bind
          (k := fun s => pure (loopArtifacts w testRunId s))
          (l := fun s => pure (loopArtifacts w testRunId s))
          fun s t t' _ _ heq => Alike.of_steady (f := outward) (.pure _) heq
      refine .of_alike ?_
      rw [Alike, hrun, hrun]
      exact halike

/-- A configuration that asks for escalation. -/
def escalatingFile : String := (Json.obj [("escalateToCloud", .bool true)]).stringify 0

/-- Two idle turns, and then the screenshot. -/
def wakingWorld : World :=
  { World.calm with
    configFile := fun _ => some escalatingFile
    gemini := fun t _ =>
      if t < 12 then .ok ⟨some "Let me think.", none, some 10, some 5⟩
      else .ok ⟨none, some [("playwright_screenshot", .obj [])], some 1000, some 100⟩ }

/-- The third turn is escalated, and both runs end with its screenshot. -/
theorem waking_chain_same :
    escalateToCloud (some escalatingFile) = true ∧
      (agentMoves wakingWorld (some (.single (.newGemini World.calm.env none none))) "Log in"
        "http://localhost:3000" []).map Move.escalate = [false, false, true] ∧
      SameRun (executeTestAutonomous wakingWorld "0" "Log in" "http://localhost:3000"
          (some (.single (.newGemini World.calm.env none none))))
        (executeTestAutonomous wakingWorld "0" "Log in" "http://localhost:3000"
          (some (.fallback (.newGemini World.calm.env none none) []))) [] := by
  refine ⟨by decide +kernel, by decide +kernel, (singleton_chain_iff _ _ _ _ _ _).mpr ?_⟩
  intro _ tools htools
  obtain rfl : [] = tools := Except.ok.inj htools
  decide +kernel

/-- A provider that only talks. -/
def chattyWorld : World :=
  { World.calm with
    configFile := fun _ => some escalatingFile
    gemini := fun _ _ => .ok ⟨some "Let me think.", none, some 10, some 5⟩ }

/-- The provider alone ends with a forced screenshot on the third turn; the chain
goes on until there are no turns left. -/
theorem chatty_chain_throws :
    (executeTestAutonomous chattyWorld "0" "Log in" "http://localhost:3000"
        (some (.single (.newGemini chattyWorld.env none none))) []).1.toOption.isSome = true ∧
      (executeTestAutonomous chattyWorld "0" "Log in" "http://localhost:3000"
        (some (.fallback (.newGemini chattyWorld.env none none) [])) []).1
        = .error "Max turns (10) reached without taking a screenshot." ∧
      ¬ SameRun (executeTestAutonomous chattyWorld "0" "Log in" "http://localhost:3000"
          (some (.single (.newGemini chattyWorld.env none none))))
        (executeTestAutonomous chattyWorld "0" "Log in" "http://localhost:3000"
          (some (.fallback (.newGemini chattyWorld.env none none) []))) [] := by
  have hreturns : (executeTestAutonomous chattyWorld "0" "Log in" "http://localhost:3000"
      (some (.single (.newGemini chattyWorld.env none none))) []).1.toOption.isSome = true := by
    decide +kernel
  have hthrows : (executeTestAutonomous chattyWorld "0" "Log in" "http://localhost:3000"
      (some (.fallback (.newGemini chattyWorld.env none none) [])) []).1
        = .error "Max turns (10) reached without taking a screenshot." := by
    decide +kernel
  refine ⟨hreturns, hthrows, ?_⟩
  rintro ⟨-, -, husages⟩
  have hsome := congrArg Option.isSome husages
  rw [hthrows, Option.isSome_map, hreturns] at hsome
  cases hsome

end AutoQa.LlmAgents

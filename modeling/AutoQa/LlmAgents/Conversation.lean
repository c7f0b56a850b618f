import AutoQa.LlmAgents.Turn

/-!
# The conversation of an agent run

The lists passed to `provider.generate` grow by one block per turn, and every
tool call is answered before the next request: whichever way a run ends, its
lists are snapshots of one growing sequence of blocks.
-/

namespace AutoQa.LlmAgents

open AutoQa.Base

/-- The list of turn `t`: a system message, a user message, `t - 1` blocks. -/
def WellFormed (t : Nat) (messages : List Message) : Prop :=
  ∃ (sys user : Message) (blocks : List (List Message)),
    sys.role = .system ∧ user.role = .user ∧ blocks.length + 1 = t ∧ (∀ b ∈ blocks, Block b) ∧
      messages = sys :: user :: blocks.flatten

/-! ## Snapshots -/

/-- `messages` is the list of turn `t` in a run whose turns add `blocks`. -/
def Snapshot (base : List Message) (blocks : List (List Message)) (t : Nat)
    (messages : List Message) : Prop :=
  1 ≤ t ∧ t ≤ blocks.length + 1 ∧ messages = base ++ (blocks.take (t - 1)).flatten

theorem Snapshot.current (base : List Message) (blocks : List (List Message)) :
    Snapshot base blocks (blocks.length + 1) (base ++ blocks.flatten) :=
  ⟨by omega, le_refl _, by simp⟩

theorem Snapshot.extend {base : List Message} {blocks all : List (List Message)} {t : Nat}
    {messages : List Message} (h : Snapshot base blocks t messages) (hpre : blocks <+: all) :
    Snapshot base all t messages := by
  obtain ⟨h1, h2, h3⟩ := h
  obtain ⟨more, rfl⟩ := hpre
  refine ⟨h1, by simp; omega, ?_⟩
  rw [h3, List.take_append_of_le_length (by omega)]

/-- Consecutive turns: the earlier list is a prefix of the later one. -/
theorem Snapshot.prefix_succ {base : List Message} {blocks : List (List Message)} {t : Nat}
    {m m' : List Message} (h : Snapshot base blocks t m) (h' : Snapshot base blocks (t + 1) m') :
    m <+: m' := by
  obtain ⟨h1, -, rfl⟩ := h
  obtain ⟨-, h2, rfl⟩ := h'
  have ht : blocks.take (t + 1 - 1) = blocks.take (t - 1) ++ (blocks.drop (t - 1)).take 1 := by
    rw [show t + 1 - 1 = (t - 1) + 1 by omega, List.take_add]
  rw [ht, List.flatten_append, ← List.append_assoc]
  exact List.prefix_append _ _

theorem Snapshot.wellFormed {sys user : Message} {blocks : List (List Message)} {t : Nat}
    {messages : List Message} (hs : sys.role = .system) (hu : user.role = .user)
    (hb : ∀ b ∈ blocks, Block b) (h : Snapshot [sys, user] blocks t messages) :
    WellFormed t messages := by
  obtain ⟨h1, h2, rfl⟩ := h
  refine ⟨sys, user, blocks.take (t - 1), hs, hu, ?_, ?_, rfl⟩
  · rw [List.length_take]
    omega
  · intro b hmem
    exact hb b (List.mem_of_mem_take hmem)

/-! ## From turns to runs -/

/-- The only list passed on a turn is the one the turn starts with. -/
theorem TurnSpec.passes {provider : LLMProvider} {s : LoopState} {r : Except String LoopState}
    {es : Trace} (h : TurnSpec provider s r es) {t : Nat} {m : List Message}
    (hp : Passed (.clockRead :: es) t m) : t = s.currentTurn + 1 ∧ m = s.messages := by
  obtain ⟨body, rfl, hbody⟩ := h.events
  obtain ⟨f, hf⟩ := hp
  simp only [List.mem_cons, reduceCtorEq, false_or] at hf
  rcases hbody _ hf with (⟨f', hgen⟩ | ⟨p, -, hsent | ⟨u, hrec, -⟩⟩) | htool
  · cases hgen
    exact ⟨rfl, rfl⟩
  · cases hsent
  · cases hrec
  · cases htool

/-- From a state whose messages are `base` and some blocks on, the lists passed
are snapshots of one sequence that extends those blocks. -/
def PassesFrom (base : List Message) (s : LoopState) (es : Trace) : Prop :=
  ∀ blocks, s.messages = base ++ blocks.flatten → s.currentTurn = blocks.length →
    (∀ b ∈ blocks, Block b) → ∃ all, blocks <+: all ∧ (∀ b ∈ all, Block b) ∧
      ∀ t m, Passed es t m → Snapshot base all t m

theorem PassesFrom.stop {base : List Message} {s : LoopState} {es : Trace}
    (h : ∀ e ∈ es, Outside e) : PassesFrom base s es :=
  fun blocks _ _ hb => ⟨blocks, List.prefix_refl _, hb,
    fun _ _ hp => absurd hp (not_passed_outside h)⟩

/-- A turn after which the loop ends, done or by a throw. -/
theorem PassesFrom.last {base : List Message} {provider : LLMProvider} {s : LoopState}
    {r : Except String LoopState} {es : Trace} (h : TurnSpec provider s r es) :
    PassesFrom base s (.clockRead :: es) := by
  intro blocks hmsg hturn hb
  refine ⟨blocks, List.prefix_refl _, hb, ?_⟩
  intro t m hp
  obtain ⟨rfl, rfl⟩ := h.passes hp
  rw [hmsg, hturn]
  exact .current base blocks

theorem PassesFrom.turn {base : List Message} {provider : LLMProvider} {s s' : LoopState}
    {es fs : Trace} (h : TurnSpec provider s (.ok s') es) (hdone : s'.isDone = true → fs = [])
    (hrest : PassesFrom base s' fs) : PassesFrom base s (.clockRead :: es ++ fs) := by
  -- a turn that is done adds no block, but then no list is passed after it
  rcases h.grows s' rfl with hd | ⟨b, hbb, hm, ht⟩
  · rw [hdone hd, List.append_nil]
    exact .last h
  · intro blocks hmsg hturn hb
    obtain ⟨all, hpre, hall, hsnap⟩ := hrest (blocks ++ [b]) (by simp [hm, hmsg])
      (by simp [ht, hturn]) (by simpa [or_imp, forall_and] using ⟨hb, hbb⟩)
    have hpre' : blocks <+: all := (List.prefix_append _ _).trans hpre
    refine ⟨all, hpre', hall, ?_⟩
    intro t m hp
    rcases Passed.append.mp hp with hp | hp
    · obtain ⟨rfl, rfl⟩ := h.passes hp
      rw [hmsg, hturn]
      exact (Snapshot.current base blocks).extend hpre'
    · exact hsnap t m hp

theorem mainLoop_passes (w : World) (provider : LLMProvider) (tools : List ToolDefinition)
    (startTime : Nat) (base : List Message) (left : Nat) (s : LoopState) :
    Logs (fun _ es => PassesFrom base s es) (mainLoop w provider tools startTime left s) := by
  refine mainLoop_rule (R := fun s _ es => PassesFrom base s es) w provider tools startTime
    ?_ ?_ ?_ ?_ left s
  · intro s
    exact .stop (by simp)
  · rintro s e es (rfl | rfl)
    · exact .stop (by simp)
    · exact .stop (by simp [Outside])
  · intro s e es h
    exact .last h
  · intro s s' es r fs h hd hrest
    exact .turn h (fun hd' => (hd hd').2) hrest

/-- The lists a run passes are snapshots of one sequence of blocks. -/
def Conversation (base : List Message) (es : Trace) : Prop :=
  ∃ blocks, (∀ b ∈ blocks, Block b) ∧ ∀ t m, Passed es t m → Snapshot base blocks t m

theorem executeTestAutonomous_conversation (w : World) (testRunId instruction url : String)
    (provider? : Option LLMProvider) :
    Logs (fun _ es => Conversation (firstMessages instruction url) es)
      (executeTestAutonomous w testRunId instruction url provider?) := by
  -- the set-up and the close pass no list
  have haround : ∀ {pre es post : Trace}, PassesFrom (firstMessages instruction url)
      (initialState instruction url) es → (∀ e ∈ pre ++ post, Outside e) →
      Conversation (firstMessages instruction url) (pre ++ es ++ post) := by
    intro pre es post hes hout
    obtain ⟨all, -, hall, hsnap⟩ := hes [] (by simp [initialState]) rfl (by simp)
    refine ⟨all, hall, ?_⟩
    intro t m hp
    rcases Passed.append.mp hp with hp | hp
    · rcases Passed.append.mp hp with hp | hp
      · exact absurd hp (not_passed_outside (fun e he => hout e (List.mem_append_left _ he)))
      · exact hsnap t m hp
    · exact absurd hp (not_passed_outside (fun e he => hout e (List.mem_append_right _ he)))
  refine executeTestAutonomous_rule w testRunId instruction url provider?
    (fun provider tools startTime => mainLoop_passes w provider tools startTime
      (firstMessages instruction url) maxTurns (initialState instruction url)) ?_ ?_ ?_
  · intro e es hes
    exact ⟨[], by simp, fun t m hp => absurd hp (not_passed_outside hes)⟩
  · intro s pre es post hes hout
    exact haround hes hout
  · intro r e pre es post hes hout
    exact haround hes hout

theorem passed_wellFormed {w : World} {testRunId instruction url : String}
    {provider? : Option LLMProvider} {t : Nat} {m : List Message}
    (h : Passed (executeTestAutonomous w testRunId instruction url provider? []).2 t m) :
    WellFormed t m := by
  obtain ⟨es, hes, blocks, hb, hsnap⟩ :=
    executeTestAutonomous_conversation w testRunId instruction url provider? []
  rw [hes, List.nil_append] at h
  exact (hsnap t m h).wellFormed rfl rfl hb

/-- **Well-formed conversations.** Whatever the providers and the tool server
do, the list passed to `provider.generate` on turn `t` has `t - 1` answered
blocks and is a prefix of the list of turn `t + 1`. -/
theorem conversation_wellFormed (w : World) (testRunId instruction url : String)
    (provider? : Option LLMProvider) :
    (∀ t m, Passed (executeTestAutonomous w testRunId instruction url provider? []).2 t m →
      WellFormed t m) ∧
    ∀ t m m', Passed (executeTestAutonomous w testRunId instruction url provider? []).2 t m →
      Passed (executeTestAutonomous w testRunId instruction url provider? []).2 (t + 1) m' →
      m <+: m' := by
  refine ⟨fun t m hp => passed_wellFormed hp, ?_⟩
  obtain ⟨es, hes, blocks, hb, hsnap⟩ :=
    executeTestAutonomous_conversation w testRunId instruction url provider? []
  rw [hes, List.nil_append]
  intro t m m' hp hp'
  exact (hsnap t m hp).prefix_succ (hsnap (t + 1) m' hp')

end AutoQa.LlmAgents

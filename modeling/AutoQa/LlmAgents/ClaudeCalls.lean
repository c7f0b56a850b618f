import AutoQa.LlmAgents.ClaudeEntries

/-!
# The tool calls of a Claude payload

A conversation of the agent loop is a sequence of blocks, and each block makes
its own entries: the assistant's, unless it is blank, and the user's. So the
results of a turn stay together, directly behind the calls they answer.
-/

namespace AutoQa.LlmAgents

open AutoQa.Base

def toolUseIds (entry : ClaudeMessage) : List String :=
  entry.content.filterMap fun
    | .toolUse id _ _ => some id
    | _ => none

/-- The `tool_use_id` of a result block. -/
def ClaudeBlock.answers : ClaudeBlock → Option String
  | .toolResult id _ => id
  | _ => none

def ClaudeBlock.isResult : ClaudeBlock → Bool
  | .toolResult _ _ => true
  | _ => false

/-- An assistant entry with calls is followed by a user entry that starts with
their results, in call order, and there are no other results. -/
structure CallsAnswered (entries : List ClaudeMessage) : Prop where
  answered : ∀ i a, entries[i]? = some a → a.role = .assistant → toolUseIds a ≠ [] →
    ∃ b, entries[i + 1]? = some b ∧ b.role = .user ∧
      (b.content.take (toolUseIds a).length).map ClaudeBlock.answers = (toolUseIds a).map some
  answering : ∀ i b, entries[i]? = some b → ∀ j r, b.content[j]? = some r → r.isResult = true →
    ∃ k a, i = k + 1 ∧ entries[k]? = some a ∧ a.role = .assistant ∧ j < (toolUseIds a).length

/-- `b` follows `a`: its results are those of the calls of `a`. -/
def Replies (a b : ClaudeMessage) : Prop :=
  (toolUseIds a ≠ [] → b.role = .user ∧
    (b.content.take (toolUseIds a).length).map ClaudeBlock.answers = (toolUseIds a).map some) ∧
  ∀ j r, b.content[j]? = some r → r.isResult = true →
    a.role = .assistant ∧ j < (toolUseIds a).length

def NoResults (entry : ClaudeMessage) : Prop := ∀ r ∈ entry.content, r.isResult = false

/-- Entries that answer their own calls and nothing else. -/
structure Closed (entries : List ClaudeMessage) : Prop where
  chain : entries.IsChain Replies
  first : ∀ a ∈ entries.head?, NoResults a
  last : ∀ a ∈ entries.getLast?, toolUseIds a = []

theorem NoResults.follows {a b : ClaudeMessage} (h : NoResults b) (ha : toolUseIds a = []) :
    Replies a b := by
  refine ⟨fun hne => absurd ha hne, ?_⟩
  intro j r hr hresult
  rw [h r (List.mem_of_getElem? hr)] at hresult
  cases hresult

theorem Closed.append {es fs : List ClaudeMessage} (h : Closed es) (h' : Closed fs) :
    Closed (es ++ fs) := by
  refine ⟨h.chain.append h'.chain (fun a ha b hb => (h'.first b hb).follows (h.last a ha)), ?_, ?_⟩
  · cases es with
    | nil => exact h'.first
    | cons e es => exact h.first
  · intro a ha
    rw [List.getLast?_append] at ha
    cases hfs : fs.getLast? with
    | some b =>
      rw [hfs] at ha
      exact h'.last a (by simpa [hfs] using ha)
    | none =>
      rw [hfs] at ha
      exact h.last a (by simpa using ha)

theorem Closed.callsAnswered {entries : List ClaudeMessage} (h : Closed entries) :
    CallsAnswered entries := by
  have hnext : ∀ i a b, entries[i]? = some a → entries[i + 1]? = some b → Replies a b := by
    intro i a b ha hb
    obtain ⟨hi, rfl⟩ := List.getElem?_eq_some_iff.mp ha
    obtain ⟨hi', rfl⟩ := List.getElem?_eq_some_iff.mp hb
    exact h.chain.getElem i hi'
  refine ⟨?_, ?_⟩
  · intro i a ha _ hne
    have hi : i < entries.length := (List.getElem?_eq_some_iff.mp ha).1
    by_cases hlast : i + 1 < entries.length
    · have hb : entries[i + 1]? = some entries[i + 1] := List.getElem?_eq_getElem hlast
      exact ⟨_, hb, (hnext i a _ ha hb).1 hne⟩
    · -- the last entry has no calls
      have hget : entries.getLast? = some a := by
        rw [List.getLast?_eq_getElem?, show entries.length - 1 = i by omega]
        exact ha
      exact absurd (h.last a hget) hne
  · intro i b hb j r hr hresult
    cases i with
    | zero =>
      have hfirst := h.first b (by rwa [List.head?_eq_getElem?]) r (List.mem_of_getElem? hr)
      rw [hfirst] at hresult
      cases hresult
    | succ k =>
      have hk : k < entries.length := by
        have := (List.getElem?_eq_some_iff.mp hb).1
        omega
      have ha : entries[k]? = some entries[k] := List.getElem?_eq_getElem hk
      obtain ⟨hrole, hj⟩ := (hnext k _ b ha hb).2 j r hr hresult
      exact ⟨k, _, rfl, ha, hrole, hj⟩

/-! ## The entries of a block -/

/-- The entries that a block of the conversation adds. -/
def blockEntries : List Message → List ClaudeMessage
  | [] => []
  | a :: rest =>
      (if claudeBlocksOf a = [] then [] else [⟨.assistant, claudeBlocksOf a⟩])
        ++ [⟨.user, rest.flatMap claudeBlocksOf⟩]

theorem foldl_claudeStep_user (ms : List Message) :
    ∀ s : ClaudeGrouping, s.currentRole = .user →
      (∀ m ∈ ms, m.role ≠ .system ∧ claudeRoleOf m.role = .user) →
      ms.foldl claudeStep s
        = { s with currentContent := s.currentContent ++ ms.flatMap claudeBlocksOf } := by
  induction ms with
  | nil =>
    intro s _ _
    simp
  | cons m ms ih =>
    intro s hrole hms
    obtain ⟨hsys, hm⟩ := hms m (by simp)
    rw [List.foldl_cons, claudeStep_same hsys (hrole.trans hm.symm)]
    have hrest := ih { s with currentContent := s.currentContent ++ claudeBlocksOf m } hrole
      (fun x hx => hms x (List.mem_cons_of_mem m hx))
    rw [hrest]
    simp

/-- The loop stands at the end of a block: the user's entry is in the buffer. -/
def AtBlockEnd (s : ClaudeGrouping) : Prop := s.currentRole = .user ∧ s.currentContent ≠ []

theorem foldl_claudeStep_block {s : ClaudeGrouping} (h : AtBlockEnd s) {b : List Message}
    (hb : Block b) : AtBlockEnd (b.foldl claudeStep s) ∧
      (b.foldl claudeStep s).finish = s.finish ++ blockEntries b := by
  obtain ⟨a, rest, rfl, ha, hne, hrest⟩ := hb.shape
  obtain ⟨hrole, hcontent⟩ := h
  have hside : ∀ m ∈ rest, m.role ≠ .system ∧ claudeRoleOf m.role = .user := by
    intro m hm
    rcases hrest m hm with hr | hr <;> simp [hr, claudeRoleOf]
  have hassistant : claudeRoleOf a.role = .assistant := by
    rw [ha]
    rfl
  obtain ⟨m, rest, rfl⟩ := List.exists_cons_of_ne_nil hne
  obtain ⟨hsys, hm⟩ := hside m (by simp)
  have hstep : claudeStep s a = ⟨s.finish, .assistant, claudeBlocksOf a⟩ := by
    rw [claudeStep_other (by rw [ha]; decide) (by rw [hrole, hassistant]; decide), hassistant]
  have hstep' : claudeStep ⟨s.finish, .assistant, claudeBlocksOf a⟩ m
      = ⟨s.finish ++ (if claudeBlocksOf a = [] then [] else [⟨.assistant, claudeBlocksOf a⟩]),
          .user, claudeBlocksOf m⟩ := by
    rw [claudeStep_other hsys (by rw [hm]; exact fun h => by cases h), hm]
    by_cases hblocks : claudeBlocksOf a = [] <;> simp [ClaudeGrouping.finish, hblocks]
  rw [List.foldl_cons, List.foldl_cons, hstep, hstep', foldl_claudeStep_user rest _ rfl
    (fun x hx => hside x (List.mem_cons_of_mem m hx))]
  have hblocks := claudeBlocksOf_user hsys hm
  refine ⟨⟨rfl, by simp [hblocks]⟩, ?_⟩
  simp [ClaudeGrouping.finish, hblocks, blockEntries]

theorem foldl_claudeStep_blocks_finish (blocks : List (List Message)) :
    ∀ s : ClaudeGrouping, AtBlockEnd s → (∀ b ∈ blocks, Block b) →
      (blocks.flatten.foldl claudeStep s).finish = s.finish ++ blocks.flatMap blockEntries := by
  induction blocks with
  | nil =>
    intro s _ _
    simp
  | cons b blocks ih =>
    intro s hs hblocks
    obtain ⟨hs', hfinish⟩ := foldl_claudeStep_block hs (hblocks b (by simp))
    rw [List.flatten_cons, List.foldl_append, ih _ hs'
      (fun x hx => hblocks x (List.mem_cons_of_mem b hx)), hfinish]
    simp

/-- The payload of a conversation of the agent loop, block by block. -/
theorem claudeMessages_blocks {sys user : Message} {blocks : List (List Message)}
    (hsys : sys.role = .system) (huser : user.role = .user) (hblocks : ∀ b ∈ blocks, Block b) :
    claudeMessages (sys :: user :: blocks.flatten)
      = ⟨.user, [.text user.content]⟩ :: blocks.flatMap blockEntries := by
  have hfilter : (sys :: user :: blocks.flatten).filter (·.role != .system)
      = user :: blocks.flatten := nonSystem_wellFormed hsys huser hblocks
  have hstep : claudeStep {} user = ⟨[], .user, [.text user.content]⟩ := by
    simp [claudeStep, huser, ClaudeGrouping.flushFor, ClaudeGrouping.push]
  rw [claudeMessages, hfilter, List.foldl_cons, hstep,
    foldl_claudeStep_blocks_finish blocks _ ⟨rfl, by simp⟩ hblocks]
  rfl

/-! ## The calls of a block -/

/-- The replies of a turn are the results of its calls, in order. -/
theorem Answers.results {calls : List ToolCall} {replies : List Message} (h : Answers calls replies) :
    (replies.flatMap claudeBlocksOf).map ClaudeBlock.answers = calls.map (fun c => some c.id) ∧
      ∀ r ∈ replies.flatMap claudeBlocksOf, r.isResult = true := by
  induction calls generalizing replies with
  | nil =>
    obtain rfl : replies = [] := List.map_eq_nil_iff.mp h
    simp
  | cons call calls ih =>
    cases replies with
    | nil => simp [Answers] at h
    | cons reply replies =>
      simp only [Answers, List.map_cons, List.cons.injEq, Prod.mk.injEq] at h
      obtain ⟨⟨hrole, hid, -⟩, hrest⟩ := h
      obtain ⟨hids, hresults⟩ := ih hrest
      have hreply : claudeBlocksOf reply = [.toolResult (some call.id) reply.content] := by
        simp [claudeBlocksOf, hrole, hid]
      refine ⟨?_, ?_⟩
      · simp [hreply, ClaudeBlock.answers, hids]
      · simpa [hreply, ClaudeBlock.isResult] using hresults

theorem toolUseIds_assistant {a : Message} (ha : a.role = .assistant) :
    toolUseIds ⟨.assistant, claudeBlocksOf a⟩ = (callsOf a.toolCalls).map ToolCall.id := by
  by_cases hc : a.content = "" <;>
    simp [toolUseIds, claudeBlocksOf, claudeAssistantBlocks, ha, hc, List.filterMap_map]

theorem noResults_assistant {a : Message} (ha : a.role = .assistant) :
    NoResults ⟨.assistant, claudeBlocksOf a⟩ := by
  intro r hr
  simp only [claudeBlocksOf, ha, claudeAssistantBlocks, List.mem_append, List.mem_map] at hr
  rcases hr with hr | ⟨c, -, rfl⟩
  · split at hr
    · rw [List.mem_singleton.mp hr]
      rfl
    · cases hr
  · rfl

theorem Block.closed {b : List Message} (h : Block b) : Closed (blockEntries b) := by
  cases h with
  | calls a calls replies ha htc hne hans =>
    obtain ⟨hids, hresults⟩ := hans.results
    have huses : toolUseIds ⟨.assistant, claudeBlocksOf a⟩ = calls.map ToolCall.id := by
      rw [toolUseIds_assistant ha, htc]
      rfl
    have hblocks : claudeBlocksOf a ≠ [] := by
      intro hnil
      rw [hnil] at huses
      exact hne (List.map_eq_nil_iff.mp huses.symm)
    have hlength : (replies.flatMap claudeBlocksOf).length = calls.length := by
      simpa using congrArg List.length hids
    have hnone : toolUseIds ⟨.user, replies.flatMap claudeBlocksOf⟩ = [] := by
      rw [toolUseIds, List.filterMap_eq_nil_iff]
      intro r hr
      have hresult := hresults r hr
      cases r <;> first | rfl | cases hresult
    have hreplies : Replies ⟨.assistant, claudeBlocksOf a⟩ ⟨.user, replies.flatMap claudeBlocksOf⟩ := by
      refine ⟨fun _ => ⟨rfl, ?_⟩, ?_⟩
      · rw [huses, List.length_map, ← hlength, List.take_length, List.map_map]
        exact hids
      · intro j r hr _
        have hj : j < (replies.flatMap claudeBlocksOf).length := (List.getElem?_eq_some_iff.mp hr).1
        rw [huses, List.length_map, ← hlength]
        exact ⟨rfl, hj⟩
    simp only [blockEntries, if_neg hblocks, List.singleton_append]
    exact ⟨.cons_cons hreplies (.singleton _), by simpa using noResults_assistant ha,
      by simpa using hnone⟩
  | plain a u ha hcalls hu =>
    have huses : toolUseIds ⟨.assistant, claudeBlocksOf a⟩ = [] := by
      rw [toolUseIds_assistant ha, hcalls]
      rfl
    have huser : NoResults ⟨.user, [u].flatMap claudeBlocksOf⟩ := by
      simp [NoResults, claudeBlocksOf, hu, ClaudeBlock.isResult]
    have hnone : toolUseIds ⟨.user, [u].flatMap claudeBlocksOf⟩ = [] := by
      simp [toolUseIds, claudeBlocksOf, hu]
    by_cases hblocks : claudeBlocksOf a = []
    · simp only [blockEntries, if_pos hblocks, List.nil_append]
      exact ⟨.singleton _, by simpa using huser, by simpa using hnone⟩
    · simp only [blockEntries, if_neg hblocks, List.singleton_append]
      exact ⟨.cons_cons (huser.follows huses) (.singleton _), by simpa using noResults_assistant ha,
        by simpa using hnone⟩

theorem blocks_closed (blocks : List (List Message)) (h : ∀ b ∈ blocks, Block b) :
    Closed (blocks.flatMap blockEntries) := by
  induction blocks with
  | nil => exact ⟨.nil, by simp, by simp⟩
  | cons b blocks ih =>
    rw [List.flatMap_cons]
    exact (h b (by simp)).closed.append (ih (fun x hx => h x (List.mem_cons_of_mem b hx)))

/-- **Claude's tool calls are answered in the next entry**, in every request of
every run of the agent loop. -/
theorem claude_calls_answered (w : World) (testRunId instruction url : String)
    (provider? : Option LLMProvider) (t : Nat) (model : String) (input : GenerateInput)
    (h : Passed (executeTestAutonomous w testRunId instruction url provider? []).2 t input.messages) :
    CallsAnswered (claudePayload model input).messages := by
  obtain ⟨sys, user, blocks, hsys, huser, -, hblocks, heq⟩ := passed_wellFormed h
  have hopening : Closed [⟨.user, [.text user.content]⟩] :=
    ⟨.singleton _, by simp [NoResults, ClaudeBlock.isResult], by simp [toolUseIds]⟩
  have hclosed := hopening.append (blocks_closed blocks hblocks)
  rw [List.singleton_append, ← claudeMessages_blocks hsys huser hblocks, ← heq] at hclosed
  exact hclosed.callsAnswered

/-- The call of the first turn is answered in the request of the second. -/
theorem twoTurn_answered : ∃ m, Passed (claudeTrace twoTurnWorld) 2 m ∧
    ((claudeMessages m).any fun entry => !(toolUseIds entry).isEmpty) = true ∧
    CallsAnswered (claudePayload "claude-3-5-sonnet-20241022" { messages := m }).messages := by
  have heval : ((passedOn (claudeTrace twoTurnWorld) 2).any fun m =>
      (claudeMessages m).any fun entry => !(toolUseIds entry).isEmpty) = true := by
    decide +kernel
  obtain ⟨m, hm, hcalls⟩ := (Option.any_eq_true _ _).mp heval
  have hpassed := passed_of_passedOn hm
  exact ⟨m, hpassed, hcalls, claude_calls_answered _ _ _ _ _ 2 _ { messages := m } hpassed⟩

end AutoQa.LlmAgents

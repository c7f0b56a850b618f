import AutoQa.LlmAgents.Transcript
import AutoQa.LlmAgents.Conversation
import Mathlib.Data.List.Chain

/-!
# The entries of a Claude payload

Claude's adapter collects the messages of one side in a buffer and makes an
entry of it when the other side speaks. An assistant message without text and
without calls ends the user's entry and starts none of its own, so the user's
next message makes a second user entry behind the first.
-/

namespace AutoQa.LlmAgents

open AutoQa.Base

/-! ## Alternation -/

def nonSystem (messages : List Message) : List Message := messages.filter (·.role != .system)

/-- An assistant message that contributes no block. -/
def Message.Blank (m : Message) : Prop :=
  m.role = .assistant ∧ m.content = "" ∧ callsOf m.toolCalls = []

/-- The messages end in blank assistant messages, behind one of the user's. -/
def EndsBlank (ms : List Message) : Prop :=
  ∃ pre u run, ms = pre ++ u :: run ∧ claudeRoleOf u.role = .user ∧ run ≠ [] ∧ ∀ m ∈ run, m.Blank

/-- Somewhere the user goes on although the assistant's part was blank. -/
def SkipsAssistant (ms : List Message) : Prop :=
  ∃ pre v, pre ++ [v] <+: ms ∧ claudeRoleOf v.role = .user ∧ EndsBlank pre

/-- The entries start with the user, and the roles alternate. -/
def Alternates (entries : List ClaudeMessage) : Prop :=
  entries.head?.map ClaudeMessage.role = some .user ∧ entries.IsChain fun a b => a.role ≠ b.role

theorem claudeBlocksOf_user {m : Message} (hsys : m.role ≠ .system)
    (hm : claudeRoleOf m.role = .user) : claudeBlocksOf m ≠ [] := by
  cases hr : m.role <;> simp_all [claudeBlocksOf, claudeRoleOf]

theorem claudeBlocksOf_assistant {m : Message} (hm : claudeRoleOf m.role = .assistant) :
    claudeBlocksOf m = [] ↔ m.Blank := by
  have hr : m.role = .assistant := by
    cases hr : m.role <;> simp_all [claudeRoleOf]
  by_cases hc : m.content = ""
  · simp [claudeBlocksOf, claudeAssistantBlocks, Message.Blank, hr, hc]
  · simp [claudeBlocksOf, claudeAssistantBlocks, Message.Blank, hr, hc]

theorem Message.Blank.side {m : Message} (h : m.Blank) : claudeRoleOf m.role = .assistant := by
  rw [h.1]
  rfl

/-- One message more: the run goes on, or starts behind the user. -/
theorem endsBlank_concat {ms : List Message} {m : Message} :
    EndsBlank (ms ++ [m]) ↔ m.Blank ∧
      (EndsBlank ms ∨ ∃ pre u, ms = pre ++ [u] ∧ claudeRoleOf u.role = .user) := by
  constructor
  · rintro ⟨pre, u, run, heq, hu, hne, hblank⟩
    obtain ⟨run, last, rfl⟩ := (List.eq_nil_or_concat run).resolve_left hne
    have heq' : ms ++ [m] = (pre ++ u :: run) ++ [last] := by simpa using heq
    obtain ⟨rfl, hlast⟩ := List.append_inj' heq' rfl
    obtain rfl : m = last := by simpa using hlast
    refine ⟨hblank m (by simp), ?_⟩
    by_cases hrun : run = []
    · subst hrun
      exact .inr ⟨pre, u, rfl, hu⟩
    · exact .inl ⟨pre, u, run, rfl, hu, hrun, fun x hx => hblank x (by simp [hx])⟩
  · rintro ⟨hm, ⟨pre, u, run, rfl, hu, -, hblank⟩ | ⟨pre, u, rfl, hu⟩⟩
    · refine ⟨pre, u, run ++ [m], by simp, hu, by simp, ?_⟩
      intro x hx
      rcases List.mem_append.mp hx with hx | hx
      · exact hblank x hx
      · exact List.mem_singleton.mp hx ▸ hm
    · exact ⟨pre, u, [m], by simp, hu, by simp, by simpa using hm⟩

theorem skipsAssistant_concat {ms : List Message} {m : Message} :
    SkipsAssistant (ms ++ [m]) ↔ SkipsAssistant ms ∨ claudeRoleOf m.role = .user ∧ EndsBlank ms := by
  constructor
  · rintro ⟨pre, v, hpre, hv, hblank⟩
    rcases List.prefix_concat_iff.mp hpre with heq | hpre
    · obtain ⟨rfl, hlast⟩ := List.append_inj' heq rfl
      obtain rfl : v = m := by simpa using hlast
      exact .inr ⟨hv, hblank⟩
    · exact .inl ⟨pre, v, hpre, hv, hblank⟩
  · rintro (⟨pre, v, hpre, hv, hblank⟩ | ⟨hm, hblank⟩)
    · exact ⟨pre, v, hpre.trans (List.prefix_append _ _), hv, hblank⟩
    · exact ⟨ms, m, List.prefix_rfl, hm, hblank⟩

/-! ### The grouping loop -/

/-- A message of the buffer's role joins the buffer. -/
theorem claudeStep_same {s : ClaudeGrouping} {m : Message} (hsys : m.role ≠ .system)
    (h : s.currentRole = claudeRoleOf m.role) :
    claudeStep s m = { s with currentContent := s.currentContent ++ claudeBlocksOf m } := by
  cases hr : m.role <;>
    simp_all [claudeStep, claudeBlocksOf, claudeRoleOf, ClaudeGrouping.flushFor, ClaudeGrouping.push]

/-- A message of the other role finishes what there is and starts a new buffer. -/
theorem claudeStep_other {s : ClaudeGrouping} {m : Message} (hsys : m.role ≠ .system)
    (h : s.currentRole ≠ claudeRoleOf m.role) :
    claudeStep s m = ⟨s.finish, claudeRoleOf m.role, claudeBlocksOf m⟩ := by
  by_cases hc : s.currentContent = []
  · cases hr : m.role <;>
      simp_all [claudeStep, claudeBlocksOf, claudeRoleOf, ClaudeGrouping.flushFor,
        ClaudeGrouping.push, ClaudeGrouping.finish]
  · cases hs : s.currentRole <;> cases hr : m.role <;>
      simp_all [claudeStep, claudeBlocksOf, claudeRoleOf, ClaudeGrouping.flushFor,
        ClaudeGrouping.push, ClaudeGrouping.finish]

/-- The last message is on the side `role`. -/
def EndsOn (role : ClaudeRole) (ms : List Message) : Prop :=
  ∃ pre m, ms = pre ++ [m] ∧ claudeRoleOf m.role = role

theorem endsOn_concat {role : ClaudeRole} {ms : List Message} {m : Message} :
    EndsOn role (ms ++ [m]) ↔ claudeRoleOf m.role = role := by
  constructor
  · rintro ⟨pre, m', heq, hm⟩
    have hlast := (List.append_inj' heq rfl).2
    obtain rfl : m = m' := by simpa using hlast
    exact hm
  · exact fun hm => ⟨ms, m, rfl, hm⟩

theorem EndsBlank.endsOn {ms : List Message} (h : EndsBlank ms) : EndsOn .assistant ms := by
  obtain ⟨pre, u, run, rfl, -, hne, hblank⟩ := h
  obtain ⟨run, last, rfl⟩ := (List.eq_nil_or_concat run).resolve_left hne
  exact ⟨pre ++ u :: run, last, by simp, (hblank last (by simp)).side⟩

theorem EndsOn.unique {r r' : ClaudeRole} {ms : List Message} (h : EndsOn r ms)
    (h' : EndsOn r' ms) : r = r' := by
  obtain ⟨pre, m, rfl, rfl⟩ := h
  exact endsOn_concat.mp h'

/-- What the buffer holds, by the side that spoke last. While it is the
assistant's, the last finished entry is the user's. -/
inductive Buffer (ms : List Message) (s : ClaudeGrouping) : Prop where
  | user : EndsOn .user ms → s.currentRole = .user → s.currentContent ≠ [] → Buffer ms s
  | assistant (front : List ClaudeMessage) (last : ClaudeMessage) : EndsOn .assistant ms →
      s.currentRole = .assistant → s.messages = front ++ [last] → last.role = .user →
      (s.currentContent = [] ↔ EndsBlank ms) → Buffer ms s

/-- The roles of the entries that the loop would end with. -/
def ClaudeGrouping.roles (s : ClaudeGrouping) : List ClaudeRole := s.finish.map ClaudeMessage.role

theorem roles_of_content {s : ClaudeGrouping} (h : s.currentContent ≠ []) :
    s.roles = s.messages.map ClaudeMessage.role ++ [s.currentRole] := by
  simp [ClaudeGrouping.roles, ClaudeGrouping.finish, h]

theorem roles_of_empty {s : ClaudeGrouping} (h : s.currentContent = []) :
    s.roles = s.messages.map ClaudeMessage.role := by
  simp [ClaudeGrouping.roles, ClaudeGrouping.finish, h]

/-- An assistant entry behind a user entry changes nothing about the chain. -/
theorem roles_assistant {s : ClaudeGrouping} (hrole : s.currentRole = .assistant)
    {front : List ClaudeMessage} {last : ClaudeMessage} (hmessages : s.messages = front ++ [last])
    (hlast : last.role = .user) :
    s.roles.head? = (s.messages.map ClaudeMessage.role).head? ∧
      (s.roles.IsChain (· ≠ ·) ↔ (s.messages.map ClaudeMessage.role).IsChain (· ≠ ·)) := by
  by_cases hc : s.currentContent = []
  · rw [roles_of_empty hc]
    exact ⟨rfl, Iff.rfl⟩
  · rw [roles_of_content hc, hrole, hmessages]
    refine ⟨by simp [List.head?_append], ?_⟩
    rw [List.isChain_append]
    simp [hlast]

/-- The state of the loop after `ms`. -/
structure Grouped (ms : List Message) (s : ClaudeGrouping) : Prop where
  buffer : Buffer ms s
  starts : s.roles.head? = some .user
  chain : s.roles.IsChain (· ≠ ·) ↔ ¬ SkipsAssistant ms

theorem Grouped.start {u : Message} (hsys : u.role ≠ .system) (hu : claudeRoleOf u.role = .user) :
    Grouped [u] (claudeStep {} u) := by
  have hstep : claudeStep {} u = ⟨[], .user, claudeBlocksOf u⟩ := by
    rw [claudeStep_same hsys hu.symm]
    rfl
  have hblocks := claudeBlocksOf_user hsys hu
  have hskips : ¬ SkipsAssistant [u] := by
    rw [← List.nil_append [u], skipsAssistant_concat]
    rintro (⟨pre, v, hpre, -⟩ | ⟨-, pre, v, run, hnil, -⟩)
    · simp at hpre
    · simp at hnil
  rw [hstep]
  refine ⟨.user ⟨[], u, rfl, hu⟩ rfl hblocks, ?_, ?_⟩
  · rw [roles_of_content hblocks]
    rfl
  · rw [roles_of_content hblocks]
    simpa using hskips

section Step

variable {ms : List Message} {s : ClaudeGrouping} {m : Message}

/-- The user goes on: the buffer grows. -/
theorem Grouped.user_user (h : Grouped ms s) (hsys : m.role ≠ .system)
    (hm : claudeRoleOf m.role = .user) (hends : EndsOn .user ms) (hrole : s.currentRole = .user)
    (hcontent : s.currentContent ≠ []) : Grouped (ms ++ [m]) (claudeStep s m) := by
  rw [claudeStep_same hsys (hrole.trans hm.symm)]
  have hcontent' : s.currentContent ++ claudeBlocksOf m ≠ [] := by simp [hcontent]
  have hroles : ClaudeGrouping.roles { s with currentContent := s.currentContent ++ claudeBlocksOf m }
      = s.roles := by
    rw [roles_of_content hcontent, roles_of_content hcontent']
  have hskips : SkipsAssistant (ms ++ [m]) ↔ SkipsAssistant ms := by
    rw [skipsAssistant_concat]
    exact or_iff_left (fun hblank => nomatch hends.unique hblank.2.endsOn)
  refine ⟨.user ⟨ms, m, rfl, hm⟩ hrole hcontent', ?_, ?_⟩
  · rw [hroles]
    exact h.starts
  · rw [hroles, hskips]
    exact h.chain

/-- The assistant speaks, or is blank: the user's entry is finished. -/
theorem Grouped.user_assistant (h : Grouped ms s) (hsys : m.role ≠ .system)
    (hm : claudeRoleOf m.role = .assistant) (hends : EndsOn .user ms) (hrole : s.currentRole = .user)
    (hcontent : s.currentContent ≠ []) : Grouped (ms ++ [m]) (claudeStep s m) := by
  rw [claudeStep_other hsys (by rw [hrole, hm]; decide), hm]
  have hfinish : s.finish = s.messages ++ [⟨.user, s.currentContent⟩] := by
    simp [ClaudeGrouping.finish, hcontent, hrole]
  obtain ⟨hhead, hchain⟩ := roles_assistant (s := ⟨s.finish, .assistant, claudeBlocksOf m⟩) rfl
    hfinish rfl
  have hskips : SkipsAssistant (ms ++ [m]) ↔ SkipsAssistant ms := by
    rw [skipsAssistant_concat]
    exact or_iff_left (fun hblank => by cases hm.symm.trans hblank.1)
  refine ⟨.assistant _ _ ⟨ms, m, rfl, hm⟩ rfl hfinish rfl ?_, hhead.trans h.starts, ?_⟩
  · rw [endsBlank_concat, claudeBlocksOf_assistant hm]
    exact (and_iff_left (.inr hends)).symm
  · rw [hchain, hskips]
    exact h.chain

/-- The assistant goes on. -/
theorem Grouped.assistant_assistant (h : Grouped ms s) (hsys : m.role ≠ .system)
    (hm : claudeRoleOf m.role = .assistant) (hends : EndsOn .assistant ms)
    (hrole : s.currentRole = .assistant) {front : List ClaudeMessage} {last : ClaudeMessage}
    (hmessages : s.messages = front ++ [last]) (hlast : last.role = .user)
    (hblank : s.currentContent = [] ↔ EndsBlank ms) : Grouped (ms ++ [m]) (claudeStep s m) := by
  rw [claudeStep_same hsys (hrole.trans hm.symm)]
  obtain ⟨hhead, hchain⟩ := roles_assistant hrole hmessages hlast
  obtain ⟨hhead', hchain'⟩ := roles_assistant
    (s := { s with currentContent := s.currentContent ++ claudeBlocksOf m }) hrole hmessages hlast
  have hskips : SkipsAssistant (ms ++ [m]) ↔ SkipsAssistant ms := by
    rw [skipsAssistant_concat]
    exact or_iff_left (fun hblank => nomatch hm.symm.trans hblank.1)
  refine ⟨.assistant front last ⟨ms, m, rfl, hm⟩ hrole hmessages hlast ?_,
    hhead'.trans (hhead.symm.trans h.starts), ?_⟩
  · rw [endsBlank_concat, List.append_eq_nil_iff, hblank, claudeBlocksOf_assistant hm]
    have hnot : ¬ EndsOn .user ms := fun h => nomatch h.unique hends
    exact ⟨fun h => ⟨h.2, .inl h.1⟩, fun h => ⟨h.2.resolve_right hnot, h.1⟩⟩
  · rw [hchain', hskips, ← hchain]
    exact h.chain

/-- The user answers: behind a blank part there are two user entries in a row. -/
theorem Grouped.assistant_user (h : Grouped ms s) (hsys : m.role ≠ .system)
    (hm : claudeRoleOf m.role = .user) (hrole : s.currentRole = .assistant)
    {front : List ClaudeMessage} {last : ClaudeMessage}
    (hmessages : s.messages = front ++ [last]) (hlast : last.role = .user)
    (hblank : s.currentContent = [] ↔ EndsBlank ms) : Grouped (ms ++ [m]) (claudeStep s m) := by
  rw [claudeStep_other hsys (by rw [hrole, hm]; decide), hm]
  have hblocks := claudeBlocksOf_user hsys hm
  have hroles : ClaudeGrouping.roles ⟨s.finish, .user, claudeBlocksOf m⟩ = s.roles ++ [.user] :=
    roles_of_content hblocks
  refine ⟨.user ⟨ms, m, rfl, hm⟩ rfl hblocks, ?_, ?_⟩
  · rw [hroles, List.head?_append, h.starts]
    rfl
  · rw [hroles, skipsAssistant_concat, List.isChain_append, h.chain, ← hblank]
    by_cases hc : s.currentContent = []
    · simp [roles_of_empty hc, hmessages, hlast, hm, hc]
    · simp [roles_of_content hc, hrole, hc]

theorem Grouped.step (h : Grouped ms s) (hsys : m.role ≠ .system) :
    Grouped (ms ++ [m]) (claudeStep s m) := by
  cases h.buffer with
  | user hends hrole hcontent =>
    cases hm : claudeRoleOf m.role with
    | user => exact h.user_user hsys hm hends hrole hcontent
    | assistant => exact h.user_assistant hsys hm hends hrole hcontent
  | assistant front last hends hrole hmessages hlast hblank =>
    cases hm : claudeRoleOf m.role with
    | user => exact h.assistant_user hsys hm hrole hmessages hlast hblank
    | assistant => exact h.assistant_assistant hsys hm hends hrole hmessages hlast hblank

end Step

theorem foldl_claudeStep_grouped (rest : List Message) :
    ∀ (ms : List Message) (s : ClaudeGrouping), (∀ m ∈ rest, m.role ≠ .system) → Grouped ms s →
      Grouped (ms ++ rest) (rest.foldl claudeStep s) := by
  induction rest with
  | nil =>
    intro ms s _ h
    simpa using h
  | cons m rest ih =>
    intro ms s hsys h
    have hrest := ih (ms ++ [m]) (claudeStep s m) (fun x hx => hsys x (List.mem_cons_of_mem m hx))
      (h.step (hsys m (by simp)))
    simpa using hrest

/-- The first message that is not a system message is a user message. -/
def OpensWithUser (messages : List Message) : Prop :=
  ∃ u rest, nonSystem messages = u :: rest ∧ u.role = .user

theorem claudeMessages_alternates {messages : List Message} (h : OpensWithUser messages) :
    Alternates (claudeMessages messages) ↔ ¬ SkipsAssistant (nonSystem messages) := by
  obtain ⟨u, rest, heq, hu⟩ := h
  have hsys : ∀ m ∈ nonSystem messages, m.role ≠ .system := by
    intro m hm
    simpa using (List.mem_filter.mp hm).2
  have hfilter : messages.filter (·.role != .system) = u :: rest := heq
  rw [heq] at hsys
  have hgrouped := foldl_claudeStep_grouped rest [u] _
    (fun m hm => hsys m (List.mem_cons_of_mem u hm))
    (.start (hsys u (by simp)) (by rw [hu]; rfl))
  rw [heq, Alternates, claudeMessages, hfilter]
  have hstarts := hgrouped.starts
  have hchain := hgrouped.chain
  rw [ClaudeGrouping.roles, List.head?_map] at hstarts
  rw [ClaudeGrouping.roles, List.isChain_map] at hchain
  exact (and_iff_right hstarts).trans hchain

/-! ## The conversations of the agent loop -/

theorem Answers.role {calls : List ToolCall} {replies : List Message} (h : Answers calls replies) :
    ∀ m ∈ replies, m.role = .tool := by
  intro m hm
  have hmem := List.mem_map_of_mem (f := fun m : Message => (m.role, m.toolCallId, m.name)) hm
  rw [h] at hmem
  obtain ⟨c, -, hc⟩ := List.mem_map.mp hmem
  exact (congrArg Prod.fst hc).symm

/-- A block is an assistant message and what the user's side answers to it. -/
theorem Block.shape {b : List Message} (h : Block b) :
    ∃ a rest, b = a :: rest ∧ a.role = .assistant ∧ rest ≠ [] ∧
      ∀ m ∈ rest, m.role = .tool ∨ m.role = .user := by
  cases h with
  | calls a calls replies ha htc hne hans =>
    refine ⟨a, replies, rfl, ha, ?_, fun m hm => .inl (hans.role m hm)⟩
    rintro rfl
    exact hne (List.map_eq_nil_iff.mp hans.symm)
  | plain a u ha hcalls hu => exact ⟨a, [u], rfl, ha, by simp, by simp [hu]⟩

theorem blocks_nonSystem {blocks : List (List Message)} (h : ∀ b ∈ blocks, Block b) :
    ∀ m ∈ blocks.flatten, m.role ≠ .system := by
  intro m hm
  obtain ⟨b, hb, hmb⟩ := List.mem_flatten.mp hm
  obtain ⟨a, rest, rfl, ha, -, hrest⟩ := (h b hb).shape
  rcases List.mem_cons.mp hmb with rfl | hmb
  · simp [ha]
  · rcases hrest m hmb with hr | hr <;> simp [hr]

theorem blocks_endsOn {u : Message} (hu : u.role = .user) (blocks : List (List Message))
    (h : ∀ b ∈ blocks, Block b) : EndsOn .user (u :: blocks.flatten) := by
  induction blocks using List.reverseRecOn with
  | nil => exact ⟨[], u, rfl, by rw [hu]; rfl⟩
  | append_singleton blocks b _ =>
    obtain ⟨a, rest, rfl, -, hne, hrest⟩ := (h b (by simp)).shape
    obtain ⟨rest, last, rfl⟩ := (List.eq_nil_or_concat rest).resolve_left hne
    refine ⟨u :: (blocks.flatten ++ a :: rest), last, by simp, ?_⟩
    rcases hrest last (by simp) with hr | hr <;> rw [hr] <;> rfl

theorem nonSystem_wellFormed {sys user : Message} {blocks : List (List Message)}
    (hsys : sys.role = .system) (huser : user.role = .user) (hblocks : ∀ b ∈ blocks, Block b) :
    nonSystem (sys :: user :: blocks.flatten) = user :: blocks.flatten := by
  have hrest : blocks.flatten.filter (·.role != .system) = blocks.flatten := by
    rw [List.filter_eq_self]
    intro m hm
    simpa using blocks_nonSystem hblocks m hm
  simp [nonSystem, hsys, huser, hrest]

/-- The user's side speaks after every assistant message of the loop, so one blank
message is enough. -/
theorem WellFormed.skips_iff {t : Nat} {messages : List Message} (h : WellFormed t messages) :
    SkipsAssistant (nonSystem messages) ↔ ∃ m ∈ messages, m.Blank := by
  constructor
  · rintro ⟨pre, v, hpre, -, front, u, run, rfl, -, hne, hblank⟩
    obtain ⟨m, hm⟩ := List.exists_mem_of_ne_nil run hne
    refine ⟨m, ?_, hblank m hm⟩
    have hmem : m ∈ nonSystem messages := hpre.subset (by simp [hm])
    exact (List.mem_filter.mp hmem).1
  · rintro ⟨m, hm, hblank⟩
    obtain ⟨sys, user, blocks, hsys, huser, -, hblocks, rfl⟩ := h
    rw [nonSystem_wellFormed hsys huser hblocks]
    have hm' : m ∈ blocks.flatten := by
      rcases List.mem_cons.mp hm with rfl | hm
      · exact absurd (hsys.symm.trans hblank.1) (by decide)
      rcases List.mem_cons.mp hm with rfl | hm
      · exact absurd (huser.symm.trans hblank.1) (by decide)
      · exact hm
    obtain ⟨b, hb, hmb⟩ := List.mem_flatten.mp hm'
    obtain ⟨before, after, rfl⟩ := List.append_of_mem hb
    obtain ⟨pre, u, hpre, hu⟩ := blocks_endsOn huser before (fun b hb => hblocks b (by simp [hb]))
    cases hblocks b hb with
    | calls a calls replies ha htc hne hans =>
      rcases List.mem_cons.mp hmb with rfl | hmb
      · exact absurd (by simpa [callsOf, htc] using hblank.2.2) hne
      · exact absurd ((hans.role m hmb).symm.trans hblank.1) (by decide)
    | plain a v ha hcalls hv =>
      have hma : m = a := by
        rcases List.mem_cons.mp hmb with rfl | hmb
        · rfl
        · rw [List.mem_singleton.mp hmb, Message.Blank, hv] at hblank
          exact absurd hblank.1 (by decide)
      subst hma
      refine ⟨user :: before.flatten ++ [m], v, ⟨after.flatten, by simp⟩, by rw [hv]; rfl, ?_⟩
      rw [hpre]
      exact ⟨pre, u, [m], by simp, hu, by simp, by simpa using hblank⟩

theorem WellFormed.opensWithUser {t : Nat} {messages : List Message} (h : WellFormed t messages) :
    OpensWithUser messages := by
  obtain ⟨sys, user, blocks, hsys, huser, -, hblocks, rfl⟩ := h
  exact ⟨user, blocks.flatten, nonSystem_wellFormed hsys huser hblocks, huser⟩

/-- **The roles of a Claude payload alternate**, from the user on, unless the user
goes on behind a blank part of the assistant. In a conversation of the agent loop
that is a response with neither text nor tool calls. -/
theorem claude_alternates_iff (model : String) (input : GenerateInput)
    (h : OpensWithUser input.messages) :
    (Alternates (claudePayload model input).messages
      ↔ ¬ SkipsAssistant (nonSystem input.messages)) ∧
    ∀ w testRunId instruction url provider? t,
      Passed (executeTestAutonomous w testRunId instruction url provider? []).2 t input.messages →
      (Alternates (claudePayload model input).messages ↔ ∀ m ∈ input.messages, ¬ m.Blank) := by
  have hpayload : Alternates (claudePayload model input).messages
      ↔ ¬ SkipsAssistant (nonSystem input.messages) := claudeMessages_alternates h
  refine ⟨hpayload, ?_⟩
  intro w testRunId instruction url provider? t hpassed
  have hwf := passed_wellFormed hpassed
  rw [hpayload, hwf.skips_iff]
  simp

instance (m : Message) : Decidable m.Blank := inferInstanceAs (Decidable (_ ∧ _ ∧ _))

/-- The list that the loop passed on turn `t`. -/
def passedOn (tr : Trace) (t : Nat) : Option (List Message) :=
  tr.findSome? fun
    | .generate turn messages _ => if turn = t then some messages else none
    | _ => none

theorem passed_of_passedOn {tr : Trace} {t : Nat} {messages : List Message}
    (h : passedOn tr t = some messages) : Passed tr t messages := by
  obtain ⟨e, he, hsome⟩ := List.exists_of_findSome?_eq_some h
  split at hsome
  · rename_i turn m f
    split at hsome
    · rename_i hturn
      cases hsome
      exact ⟨f, hturn ▸ he⟩
    · cases hsome
  · cases hsome

/-- A conversation of two turns: the page is opened, then the screenshot is taken. -/
def twoTurnWorld : World :=
  { World.calm with
    anthropic := fun t _ => .ok ⟨[.text "On it.", .toolUse "c1"
      (if t < 8 then "playwright_navigate" else "playwright_screenshot") (.obj [])], 10, 5⟩ }

/-- The trace of the agent with Claude alone. -/
def claudeTrace (w : World) : Trace :=
  (executeTestAutonomous w "0" "Log in" "http://localhost:3000"
    (some (.single (.newClaude w.env none none))) []).2

theorem twoTurn_alternates : ∃ m, OpensWithUser m ∧ Passed (claudeTrace twoTurnWorld) 2 m ∧
    Alternates (claudePayload "claude-3-5-sonnet-20241022" { messages := m }).messages := by
  have heval : ((passedOn (claudeTrace twoTurnWorld) 2).any fun m =>
      m.all fun x => decide (¬ x.Blank)) = true := by
    decide +kernel
  obtain ⟨m, hm, hall⟩ := (Option.any_eq_true _ _).mp heval
  have hpassed := passed_of_passedOn hm
  have hopens := (passed_wellFormed hpassed).opensWithUser
  refine ⟨m, hopens, hpassed, ?_⟩
  exact ((claude_alternates_iff _ { messages := m } hopens).2 _ _ _ _ _ 2 hpassed).mpr
    (by simpa using hall)

/-- Claude answers without any content. -/
def silentWorld : World := { World.calm with anthropic := fun _ _ => .ok ⟨[], 10, 1⟩ }

/-- There the second request has two user entries in a row. -/
theorem silent_response_repeats_user : ∃ m, OpensWithUser m ∧ Passed (claudeTrace silentWorld) 2 m ∧
    ¬ Alternates (claudePayload "claude-3-5-sonnet-20241022" { messages := m }).messages := by
  have heval : ((passedOn (claudeTrace silentWorld) 2).any fun m =>
      m.any fun x => decide x.Blank) = true := by
    decide +kernel
  obtain ⟨m, hm, hany⟩ := (Option.any_eq_true _ _).mp heval
  have hpassed := passed_of_passedOn hm
  have hwf := passed_wellFormed hpassed
  refine ⟨m, hwf.opensWithUser, hpassed, ?_⟩
  intro halt
  exact (claudeMessages_alternates hwf.opensWithUser).mp halt (hwf.skips_iff.mpr (by simpa using hany))

end AutoQa.LlmAgents

import AutoQa.Base.Rely
import AutoQa.Cli.Config

/-!
# What the gate guarantees

Wizards rewrite the configuration while commands read it, some of them twice, and
the canary's hash is written and read by all. Whatever the order of their steps,
no command goes on with another configuration than the one the machine was set up
with, up to its target URL, and none that waits for the gate goes on before its
providers have been asked.
-/

namespace AutoQa.Cli

open AutoQa.Base AutoQa.LlmAgents

/-! ## Setting a field -/

section SetField

variable {key : String} {value : Json}

@[simp] theorem replaceMember_fst (m : String × Json) : (replaceMember key value m).1 = m.1 := by
  by_cases h : m.1 = key
  · simp [replaceMember, h]
  · simp [replaceMember, h]

theorem replaceMember_again (value' : Json) (m : String × Json) :
    replaceMember key value' (replaceMember key value m) = replaceMember key value' m := by
  by_cases h : m.1 = key
  · simp [replaceMember, h]
  · simp [replaceMember, h]

theorem replaceMember_other {m : String × Json} (h : m.1 ≠ key) : replaceMember key value m = m := by
  simp [replaceMember, h]

/-- Only the last value that is set remains. -/
theorem setMember_again (value' : Json) (members : List (String × Json)) :
    setMember key value' (setMember key value members) = setMember key value' members := by
  by_cases hany : members.any (fun m => m.1 == key) = true
  · have hsame : (members.map (replaceMember key value)).any (fun m => m.1 == key) = true := by
      simpa [List.any_map, Function.comp_def] using hany
    simp only [setMember, hany, hsame, if_true, List.map_map]
    exact List.map_congr_left fun m _ => replaceMember_again value' m
  · have hother : ∀ m ∈ members, m.1 ≠ key := by
      intro m hm heq
      exact hany (List.any_eq_true.mpr ⟨m, hm, by simp [heq]⟩)
    have hkept : members.map (replaceMember key value') = members := by
      conv_rhs => rw [← List.map_id members]
      exact List.map_congr_left fun m hm => replaceMember_other (hother m hm)
    simp [setMember, hany, hkept, replaceMember]

/-- The other properties are as they were. -/
theorem member_setMember {key' : String} (hne : key' ≠ key) (members : List (String × Json)) :
    (Json.obj (setMember key value members)).member key' = (Json.obj members).member key' := by
  by_cases hany : members.any (fun m => m.1 == key) = true
  · have hfind : (members.reverse.map (replaceMember key value)).find? (fun m => m.1 == key')
        = (members.reverse.find? fun m => m.1 == key').map (replaceMember key value) := by
      have hkeys : (fun m => m.1 == key') ∘ replaceMember key value = fun m => m.1 == key' :=
        funext fun m => congrArg (· == key') (replaceMember_fst m)
      rw [List.find?_map, hkeys]
    simp only [setMember, hany, if_true, Json.member, ← List.map_reverse, hfind]
    cases hfound : members.reverse.find? (fun m => m.1 == key') with
    | none => rfl
    | some m =>
      have hm : m.1 = key' := by simpa using List.find?_some hfound
      rw [Option.map_some, replaceMember_other (hm ▸ hne)]
  · have hlast : ((key, value).1 == key') = false := by simpa using hne.symm
    simp [setMember, hany, Json.member, hlast]

end SetField

theorem setField_again {config config' : Json} {key : String} {value : Json}
    (h : setField config key value = .ok config') (value' : Json) :
    setField config' key value' = setField config key value' := by
  cases config with
  | obj members =>
    cases h
    simp [setField, setMember_again]
  | arr items =>
    cases h
    rfl
  | _ => cases h

theorem setField_member {config config' : Json} {key key' : String} {value : Json}
    (h : setField config key value = .ok config') (hne : key' ≠ key) :
    config'.member key' = config.member key' := by
  cases config with
  | obj members =>
    cases h
    exact member_setMember hne members
  | arr items =>
    cases h
    rfl
  | _ => cases h

/-! ## The configuration, up to its target URL -/

section Config

variable {given : String → Prop} {file file' : Option String} {config config' config'' : Json}

/-- The configuration as it was, or with one of the given URLs as its target. -/
def Retargeted (given : String → Prop) (config config' : Json) : Prop :=
  config' = config ∨ ∃ u, given u ∧ setField config "targetUrl" (.str u) = .ok config'

/-- The document that a file holds, if it holds one. -/
def document (file : Option String) : Option Json := file.bind Json.parse

/-- The file as it was, or as a wizard has written it. -/
def Rewritten (given : String → Prop) (file file' : Option String) : Prop :=
  file' = file ∨ ∃ config config', document file = some config ∧
    (∃ u, given u ∧ setField config "targetUrl" (.str u) = .ok config') ∧
    file' = some (config'.stringify 2)

theorem Retargeted.member (h : Retargeted given config config') {key : String}
    (hne : key ≠ "targetUrl") : config'.member key = config.member key := by
  rcases h with rfl | ⟨u, -, hset⟩
  · rfl
  · exact setField_member hset hne

theorem Retargeted.llmOf (h : Retargeted given config config') : llmOf config' = llmOf config := by
  simp [Cli.llmOf, h.member (show "llm" ≠ "targetUrl" by decide)]

theorem Retargeted.databaseUrl (h : Retargeted given config config') (m : Machine) :
    m.databaseUrl config' = m.databaseUrl config := by
  simp [Machine.databaseUrl, h.member (show "databaseUrl" ≠ "targetUrl" by decide)]

/-- The field that the factory reads; only of `null` it cannot be read. -/
theorem Retargeted.readField (h : Retargeted given config config') {key : String}
    (hne : key ≠ "targetUrl") :
    LlmAgents.readField config' key = LlmAgents.readField config key := by
  rcases h with rfl | ⟨u, hu, hset⟩
  · rfl
  · have hmember := setField_member hset hne
    cases config with
    | obj members =>
      cases hset
      exact congrArg Except.ok hmember
    | arr items =>
      cases hset
      rfl
    | _ => cases hset

theorem Rewritten.document (h : Rewritten given file file') (hdoc : document file' = some config') :
    ∃ config, Cli.document file = some config ∧ Retargeted given config config' := by
  rcases h with rfl | ⟨config, written, hconfig, hset, rfl⟩
  · exact ⟨config', hdoc, .inl rfl⟩
  · have hread : Cli.document (some (written.stringify 2)) = some written :=
      Json.parse_stringify written 2
    rw [hread] at hdoc
    cases hdoc
    exact ⟨config, hconfig, .inr hset⟩

/-- A wizard that has read the file writes it with a URL of its own. -/
theorem Rewritten.again (h : Rewritten given file file') {text text' u : String}
    (hfile : file' = some text) (hu : given u) (hnew : retarget text u = .ok text') :
    Rewritten given file (some text') := by
  simp only [retarget] at hnew
  cases hparse : Json.parse text with
  | none =>
    rw [hparse] at hnew
    cases hnew
  | some config' =>
    simp only [hparse] at hnew
    cases hset : setField config' "targetUrl" (.str u) with
    | error e => simp [hset, Except.map] at hnew
    | ok written =>
      simp only [hset, Except.map, Except.ok.injEq] at hnew
      subst hnew
      obtain ⟨config, hconfig, hretargeted⟩ :=
        h.document (show Cli.document file' = some config' by rw [hfile]; exact hparse)
      refine .inr ⟨config, written, hconfig, ⟨u, hu, ?_⟩, rfl⟩
      rcases hretargeted with rfl | ⟨u', -, hset'⟩
      · exact hset
      · rw [← setField_again hset', hset]

/-- The factory makes the same of the file, whichever wizards have rewritten it. -/
theorem Rewritten.roleProvider (h : Rewritten given file file') (env : String → Option String)
    (role : AgentRole) :
    LlmAgents.roleProvider env role file' = LlmAgents.roleProvider env role file := by
  rcases h with rfl | ⟨config, written, hconfig, hset, rfl⟩
  · rfl
  · obtain ⟨text, rfl, hparse⟩ := Option.bind_eq_some_iff.mp hconfig
    have hretargeted : Retargeted given config written := .inr hset
    have hsame : configuredProvider env role (written.stringify 2)
        = configuredProvider env role text := by
      simp only [configuredProvider, Json.parse_stringify, hparse,
        hretargeted.readField (show "llm" ≠ "targetUrl" by decide)]
    simp only [LlmAgents.roleProvider, Option.map_some, hsame]

end Config

/-! ## What is true between any two steps -/

/-- A machine as it was set up, and the URLs that its wizards are given. -/
structure Setup where
  machine : Machine
  file : Option String
  hash : Option String
  given : String → Prop

/-- The first member of the provider has been sent the question. -/
def Questioned (provider : LLMProvider) (s : MachineState) : Prop :=
  .sent provider.primary canaryMessages ∈ s.trace

namespace Setup

variable (G : Setup)

/-- The provider of a role under the configuration of the set-up. -/
def providerOf (config : Json) (role : AgentRole) : LLMProvider :=
  roleProvider (G.machine.envOf (G.machine.databaseUrl config)) role G.file

/-- The hash of the set-up is that of this `llm`. -/
def Current (llm : Json) : Prop := G.hash.getD "" = G.machine.currentHash llm

/-- The provider of the role has been asked, and a line about it has been printed. -/
def Asked (config : Json) (role : AgentRole) (s : MachineState) : Prop :=
  Questioned (G.providerOf config role) s ∧
    ∃ result, ⟨role, (G.providerOf config role).name, result⟩ ∈ s.reports

/-- All configured roles among these have been asked. -/
def AllAsked (config llm : Json) (roles : List AgentRole) (s : MachineState) : Prop :=
  ∀ role ∈ roles, configured llm role = true → G.Asked config role s

/-- Nothing was to be asked, or everyone has been. -/
def Cleared (config : Json) (s : MachineState) : Prop :=
  ∀ llm, llmOf config = some llm → G.Current llm ∨ G.AllAsked config llm canaryRoles s

/-- The action goes on with the configuration of the set-up, up to the target URL. -/
def BegunOk (s : MachineState) (b : Begun) : Prop :=
  ∃ config, document G.file = some config ∧ Retargeted G.given config b.globalConfig ∧
    b.databaseUrl = G.machine.databaseUrl config ∧ b.url = b.command.url b.globalConfig ∧
    (b.command.awaits = true → G.Cleared config s)

/-- The configuration of the set-up is one whose providers are to be asked. -/
def ToAsk (config llm : Json) : Prop :=
  document G.file = some config ∧ llmOf config = some llm ∧ ¬ G.Current llm

/-- A canary's question to the provider of a configured role, or its answer. -/
def EventOk (e : Event) : Prop :=
  ∃ config llm role, G.ToAsk config llm ∧ role ∈ canaryRoles ∧ configured llm role = true ∧
    CanaryEvent (G.providerOf config role) e

/-- The hash is that of the set-up, or it was written behind the checks. -/
def HashOk (s : MachineState) : Prop :=
  s.canaryHash = G.hash ∨ ∃ config llm, G.ToAsk config llm ∧
    s.canaryHash = some (G.machine.currentHash llm) ∧ G.AllAsked config llm canaryRoles s

structure Inv (s : MachineState) : Prop where
  config : Rewritten G.given G.file s.configFile
  stored : G.HashOk s
  sent : ∀ e ∈ s.trace, G.EventOk e
  begun : ∀ b ∈ s.begun, G.BegunOk s b

end Setup

/-- What is sent and printed stays. -/
structure Later (s t : MachineState) : Prop where
  trace : s.trace ⊆ t.trace
  reports : s.reports ⊆ t.reports

theorem Later.refl (s : MachineState) : Later s s := ⟨List.Subset.refl _, List.Subset.refl _⟩

theorem Later.trans {s t u : MachineState} (h : Later s t) (h' : Later t u) : Later s u :=
  ⟨List.Subset.trans h.trace h'.trace, List.Subset.trans h.reports h'.reports⟩

section Gate

variable {G : Setup} {s t : MachineState} {config llm : Json}

theorem Setup.Asked.later {role : AgentRole} (h : G.Asked config role s) (hst : Later s t) :
    G.Asked config role t := by
  obtain ⟨hsent, result, hreport⟩ := h
  exact ⟨hst.trace hsent, result, hst.reports hreport⟩

theorem Setup.AllAsked.later {roles : List AgentRole} (h : G.AllAsked config llm roles s)
    (hst : Later s t) : G.AllAsked config llm roles t :=
  fun role hrole hconfigured => (h role hrole hconfigured).later hst

theorem Setup.Cleared.later (h : G.Cleared config s) (hst : Later s t) : G.Cleared config t :=
  fun llm hllm => (h llm hllm).imp_right fun hasked => hasked.later hst

theorem Setup.BegunOk.later {b : Begun} (h : G.BegunOk s b) (hst : Later s t) : G.BegunOk t b := by
  obtain ⟨config, hdoc, hretargeted, hurl, htarget, hcleared⟩ := h
  exact ⟨config, hdoc, hretargeted, hurl, htarget, fun hawaits => (hcleared hawaits).later hst⟩

theorem Setup.HashOk.later (h : G.HashOk s) (hst : Later s t) (hsame : t.canaryHash = s.canaryHash) :
    G.HashOk t := by
  rcases h with h | ⟨config, llm, htoAsk, hhash, hasked⟩
  · exact .inl (hsame.trans h)
  · exact .inr ⟨config, llm, htoAsk, hsame.trans hhash, hasked.later hst⟩

/-- A step that leaves the files and the commands alone. -/
theorem Setup.Inv.later (h : G.Inv s) (hst : Later s t) (hconfig : t.configFile = s.configFile)
    (hhash : t.canaryHash = s.canaryHash) (hbegun : t.begun = s.begun)
    (hsent : ∀ e ∈ t.trace, e ∈ s.trace ∨ G.EventOk e) : G.Inv t where
  config := hconfig ▸ h.config
  stored := h.stored.later hst hhash
  sent e he := (hsent e he).elim (h.sent e) id
  begun b hb := (h.begun b (hbegun ▸ hb)).later hst

/-- The time of a step does not matter. -/
theorem Setup.Inv.tick (h : G.Inv s) : G.Inv { s with steps := s.steps + 1 } :=
  h.later ⟨List.Subset.refl _, List.Subset.refl _⟩ rfl rfl rfl fun _ he => .inl he

/-! ## The discipline -/

/-- Nothing is owned: every process may do to the files what keeps the invariant. -/
def gateDiscipline (G : Setup) : Discipline MachineState Unit where
  inv := G.Inv
  holds _ _ := True
  apart _ _ := True
  rely _ := Later
  move _ s _ t := G.Inv t ∧ Later s t
  apart_symm _ := trivial
  rely_refl _ := Later.refl
  rely_trans := Later.trans
  holds_rely _ _ := trivial
  move_keeps _ _ h := ⟨h.1, trivial⟩
  move_apart _ _ _ h := ⟨h.2, trivial⟩

/-- The process keeps to the discipline, and `Q` holds of its way out. -/
abbrev Passes (G : Setup) (env : Nat → ConfigEnv) {α : Type}
    (Q : Except String α → MachineState → Prop) (p : ConfigProc α) (s : MachineState) : Prop :=
  Safe (gateDiscipline G) (answerConfig env) (fun _ _ => True) (fun r _ => Q r) p () s

variable {env : Nat → ConfigEnv} {α ρ : Type}

/-- One operation, judged at the moment at which it is performed. -/
theorem Passes.call {op : ConfigOp ρ} {Q : Except String ρ → MachineState → Prop}
    (hperform : ∀ e t, Later s t → G.Inv t →
      G.Inv (performConfig e op t).2 ∧ Later t (performConfig e op t).2 ∧
        ∀ u, Later (performConfig e op t).2 u → G.Inv u → Q (performConfig e op t).1 u)
    (hrefused : ∀ e u, op.fallible = true → Q (.error e) u) : Passes G env Q (Proc.call op) s := by
  apply Safe.call
  intro t hst hinv _ _
  have htick : Later t { t with steps := t.steps + 1 } :=
    ⟨List.Subset.refl _, List.Subset.refl _⟩
  cases hrefusal : (env t.steps).refusal op with
  | some e =>
    have hanswer : answerConfig env op t = (.error e, { t with steps := t.steps + 1 }) := by
      simp [answerConfig, hrefusal]
    have hfallible : op.fallible = true := by
      by_contra hnot
      simp [ConfigEnv.refusal, hnot] at hrefusal
    rw [hanswer]
    exact ⟨(), ⟨hinv.tick, htick⟩, fun u _ _ _ => hrefused e u hfallible⟩
  | none =>
    have hanswer : answerConfig env op t
        = performConfig (env t.steps) op { t with steps := t.steps + 1 } := by
      simp [answerConfig, hrefusal]
    obtain ⟨hkeeps, hlater, hQ⟩ := hperform (env t.steps) _ (hst.trans htick) hinv.tick
    rw [hanswer]
    exact ⟨(), ⟨hkeeps, htick.trans hlater⟩, fun u hu hinv' _ => hQ u hu hinv'⟩

/-- An operation that only looks. -/
theorem Passes.look {op : MachineOp ρ} {Q : Except String ρ → MachineState → Prop}
    (hsame : ∀ e t, (performMachine e op t).2 = t)
    (hreply : ∀ e t, Later s t → G.Inv t → ∀ u, Later t u → Q (performMachine e op t).1 u)
    (hrefused : ∀ e u, op.fallible = true → Q (.error e) u) : Passes G env Q (machine op) s := by
  refine Passes.call ?_ hrefused
  intro e t hst hinv
  show G.Inv (performMachine e op t).2 ∧ Later t (performMachine e op t).2 ∧
    ∀ u, Later (performMachine e op t).2 u → G.Inv u → Q (performMachine e op t).1 u
  rw [hsame e t]
  exact ⟨hinv, .refl t, fun u hu _ => hreply e t hst hinv u hu⟩

/-! ## The canary checks -/

/-- A question to the provider of a configured role, under a hash that is not current. -/
theorem canary_passes (htoAsk : G.ToAsk config llm) {role : AgentRole} (hrole : role ∈ canaryRoles)
    (hconfigured : configured llm role = true) {op : CanaryOp ρ}
    (hasks : op.Asks (G.providerOf config role)) {R : Trace → Prop}
    (hlogs : ∀ w, Logs (fun _ es => R es) (answerCanary w op)) :
    Passes G env (fun _ u => ∃ es, R es ∧ es ⊆ u.trace) (Proc.call (.canary op)) s := by
  refine Passes.call ?_ (fun _ _ hfallible => by cases hfallible)
  intro e t hst hinv
  obtain ⟨es, hes, hR, hevents⟩ :=
    ((hlogs e.agents).and (answerCanary_logs e.agents hasks)) t.trace
  have htrace : (performConfig e (.canary op) t).2.trace = t.trace ++ es := hes
  have hlater : Later t (performConfig e (.canary op) t).2 :=
    ⟨htrace ▸ List.subset_append_left _ _, List.Subset.refl _⟩
  refine ⟨hinv.later hlater rfl rfl rfl ?_, hlater, ?_⟩
  · intro event hmem
    rw [htrace] at hmem
    rcases List.mem_append.mp hmem with hold | hnew
    · exact .inl hold
    · exact .inr ⟨config, llm, role, htoAsk, hrole, hconfigured, hevents event hnew⟩
  · intro u hu _
    have hnew : es ⊆ (performConfig e (.canary op) t).2.trace :=
      htrace ▸ List.subset_append_right _ _
    exact ⟨es, hR, List.Subset.trans hnew hu.trace⟩

theorem questioned_later {provider : LLMProvider} (_ : Unit) (s t : MachineState) (hst : Later s t)
    (h : Questioned provider s) : Questioned provider t :=
  hst.trace h

/-- A check has asked the provider, whatever comes of it. -/
theorem runCanaryCheck_passes (htoAsk : G.ToAsk config llm) {role : AgentRole}
    (hrole : role ∈ canaryRoles) (hconfigured : configured llm role = true) :
    Passes G env (fun _ u => Questioned (G.providerOf config role) u)
      ((runCanaryCheck (G.providerOf config role)).lift ConfigOp.canary) s := by
  apply Safe.lift
  apply Safe.tryCatch (Q := fun _ _ u => Questioned (G.providerOf config role) u)
  · apply Safe.bind (Q := fun _ _ u => Questioned (G.providerOf config role) u)
    · intro t hst hinv hholds hallowed
      have hasked : Passes G env _ _ s := canary_passes htoAsk hrole hconfigured
        (firstQuestion_asks _) fun w => primary_asked w (G.providerOf config role) rfl
      obtain ⟨g, hmove, hsent⟩ := hasked t hst hinv hholds hallowed
      refine ⟨g, hmove, fun u hu hinv' hholds' => ?_⟩
      obtain ⟨es, hmem, hsub⟩ := hsent u hu hinv' hholds'
      exact hsub hmem
    · intro response g t _ _ hsent
      apply Safe.of_only (K := fun _ u => Questioned (G.providerOf config role) u)
        (finishCanary_only _ response) questioned_later ?_ hsent
      intro ρ op hasks g t hsent u hu hinv hholds hallowed
      have hasked : Passes G env _ _ t := canary_passes htoAsk hrole hconfigured hasks
        fun w => (answerCanary_logs w hasks).mono fun _ _ _ => trivial
      obtain ⟨g', hmove, -⟩ := hasked u hu hinv hholds hallowed
      exact ⟨g', hmove, fun v hv _ _ => (hu.trans (hmove.2.trans hv)).trace hsent⟩
    · exact fun _ _ _ _ _ hsent => hsent
  · exact fun _ _ _ _ _ hsent => hsent
  · intro e g t _ _ hsent
    exact Safe.done fun u hu _ _ => questioned_later g t u hu hsent

/-- On the way out of a part of the gate: `K` if it returns. -/
def IfOk {β : Type} (K : β → MachineState → Prop) (r : Except String β) (t : MachineState) : Prop :=
  ∀ b, r = .ok b → K b t

theorem verifyRoles_passes (htoAsk : G.ToAsk config llm) (roles : List AgentRole) :
    ∀ s, roles ⊆ canaryRoles →
      Passes G env (IfOk fun _ u => G.AllAsked config llm roles u)
        (verifyRoles (G.machine.envOf (G.machine.databaseUrl config)) llm roles) s := by
  induction roles with
  | nil => exact fun s _ => Safe.done fun _ _ _ _ _ _ => List.forall_mem_nil _
  | cons role roles ih =>
    intro s hsub
    have hrole : role ∈ canaryRoles := hsub (List.mem_cons_self ..)
    have hrest : roles ⊆ canaryRoles := fun r hr => hsub (List.mem_cons_of_mem role hr)
    by_cases hconfigured : configured llm role = true
    · simp only [verifyRoles, hconfigured, if_true]
      have hprovider : Passes G env (fun r _ => r = .ok (G.providerOf config role))
          (machine (.getRoleProvider (G.machine.envOf (G.machine.databaseUrl config)) role)) s := by
        refine Passes.look (fun _ _ => rfl) ?_ (fun _ _ hfallible => by cases hfallible)
        intro e t _ hinv u _
        exact congrArg Except.ok (hinv.config.roleProvider _ role)
      apply Safe.bind hprovider
      · intro provider g t _ _ hok
        cases hok
        apply Safe.bind (runCanaryCheck_passes htoAsk hrole hconfigured)
        · intro result g t _ _ hquestioned
          have hreport : Passes G env (fun _ u => G.Asked config role u)
              (machine (.report ⟨role, (G.providerOf config role).name, result⟩)) t := by
            refine Passes.call ?_ (fun _ _ hfallible => by cases hfallible)
            intro e u htu hinv
            refine ⟨hinv.later ⟨List.Subset.refl _, List.subset_append_left _ _⟩ rfl rfl rfl
              fun _ he => .inl he, ⟨List.Subset.refl _, List.subset_append_left _ _⟩, ?_⟩
            intro v huv _
            exact ⟨huv.trace (htu.trace hquestioned), result,
              huv.reports (by simp [performConfig, performMachine])⟩
          apply Safe.bind hreport
          · intro _ g t _ _ hasked
            -- what was asked stays asked while the other roles are checked
            have hframe := Safe.frame (K := fun u => G.Asked config role u) (ih t hrest)
              (fun _ _ _ hst hK => hK.later hst) (fun _ _ _ _ hmove hK => hK.later hmove.2) hasked
            apply hframe.mono
            intro r g u _ _ hboth b hb role' hmem
            rcases List.mem_cons.mp hmem with rfl | hmem
            · exact fun _ => hboth.2
            · exact hboth.1 b hb role' hmem
          · exact fun _ _ _ _ _ _ _ h => by cases h
        · exact fun _ _ _ _ _ _ _ h => by cases h
      · exact fun _ _ _ _ _ _ _ h => by cases h
    · simp only [verifyRoles, hconfigured, Bool.false_eq_true, if_false]
      apply (ih s hrest).mono
      intro r g u _ _ hok b hb role' hmem hconf
      rcases List.mem_cons.mp hmem with rfl | hmem
      · exact absurd hconf hconfigured
      · exact hok b hb role' hmem hconf

/-- The configuration that a command has loaded. -/
def LoadedOk (G : Setup) (config : Json) (c : Loaded) : Prop :=
  ∃ config₀, document G.file = some config₀ ∧ Retargeted G.given config₀ config ∧
    c.databaseUrl = G.machine.databaseUrl config₀

theorem loaded_globalConfig (m : Machine) {text : String}
    (h : (m.loaded text).globalConfig = some config) :
    Json.parse text = some config ∧ (m.loaded text).databaseUrl = m.databaseUrl config := by
  unfold Machine.loaded at h ⊢
  split at h
  · cases h
  · cases h
  · rename_i hparse
    cases h
    exact ⟨hparse, rfl⟩

theorem readConfig_passes :
    Passes G env (IfOk fun read _ => ∀ text, read = some text →
      Rewritten G.given G.file (some text)) (machine .readConfig) s := by
  refine Passes.look (fun _ _ => rfl) ?_ fun _ _ _ _ h => by cases h
  intro e t _ hinv u _ read hok text htext
  cases hok
  exact htext ▸ hinv.config

theorem loadConfig_passes :
    Passes G env (IfOk fun c _ => ∀ config, c.globalConfig = some config → LoadedOk G config c)
      (loadConfig G.machine) s := by
  apply Safe.bind (Q := fun r _ _ => ∀ text, r = .ok (.ok (some text)) →
    Rewritten G.given G.file (some text))
  · apply Safe.attempt
    apply readConfig_passes.mono
    intro r g t _ _ hok text hr
    exact hok (some text) (Except.ok.inj hr) text rfl
  · intro read g t _ _ hrewritten
    cases read with
    | error e =>
      apply Safe.done
      intro u _ _ _ c hc config hconfig
      cases hc
      cases hconfig
    | ok text =>
      cases text with
      | none =>
        apply Safe.done
        intro u _ _ _ c hc config hconfig
        cases hc
        cases hconfig
      | some text =>
        apply Safe.done
        intro u _ _ _ c hc config hconfig
        cases hc
        obtain ⟨hparse, hurl⟩ := loaded_globalConfig G.machine hconfig
        obtain ⟨config₀, hdoc, hretargeted⟩ := (hrewritten text rfl).document hparse
        exact ⟨config₀, hdoc, hretargeted, hurl.trans (hretargeted.databaseUrl G.machine)⟩
  · exact fun _ _ _ _ _ _ _ h => by cases h

/-- Everyone is cleared, whatever the configuration of the set-up is. -/
def AllCleared (G : Setup) (u : MachineState) : Prop :=
  ∀ config, document G.file = some config → G.Cleared config u

/-- The hash that is read tells whether anyone is to be asked. -/
theorem readHash_passes (hdoc : document G.file = some config) (hllm : llmOf config = some llm) :
    Passes G env (IfOk fun lastHash u =>
        if lastHash.getD "" = G.machine.currentHash llm
        then G.Current llm ∨ G.AllAsked config llm canaryRoles u else ¬ G.Current llm)
      (machine .readHash) s := by
  refine Passes.look (fun _ _ => rfl) ?_ fun _ _ _ _ h => by cases h
  intro e t _ hinv u hu lastHash hlast
  cases hlast
  rcases hinv.stored with hsame | ⟨config', llm', ⟨hdoc', hllm', hother⟩, hhash, hasked⟩
  · rw [hsame]
    split
    · rename_i hcurrent
      exact .inl hcurrent
    · rename_i hother
      exact hother
  · rw [hdoc] at hdoc'
    cases hdoc'
    rw [hllm] at hllm'
    cases hllm'
    rw [hhash, Option.getD_some, if_pos rfl]
    exact .inr (hasked.later hu)

theorem writeHash_passes (htoAsk : G.ToAsk config llm) (hasked : G.AllAsked config llm canaryRoles s) :
    Passes G env (IfOk fun _ u => G.AllAsked config llm canaryRoles u)
      (machine (.writeHash (G.machine.currentHash llm))) s := by
  refine Passes.call ?_ fun _ _ _ _ h => by cases h
  intro e t hst hinv
  have hlater : Later t { t with canaryHash := some (G.machine.currentHash llm) } :=
    ⟨List.Subset.refl _, List.Subset.refl _⟩
  have hkeeps : G.Inv { t with canaryHash := some (G.machine.currentHash llm) } :=
    { config := hinv.config
      stored := .inr ⟨config, llm, htoAsk, rfl, hasked.later (hst.trans hlater)⟩
      sent := hinv.sent
      begun := fun b hb => (hinv.begun b hb).later hlater }
  exact ⟨hkeeps, hlater, fun u hu _ _ _ => hasked.later (hst.trans (hlater.trans hu))⟩

/-- Behind the hash check everyone is cleared. -/
theorem verifyCanary_passes {c : Loaded} (hloaded : LoadedOk G config c) :
    Passes G env (IfOk fun _ u => AllCleared G u)
      (verifyCanary G.machine (G.machine.envOf c.databaseUrl) config) s := by
  obtain ⟨config₀, hdoc, hretargeted, hurl⟩ := hloaded
  unfold verifyCanary
  rw [hretargeted.llmOf, hurl]
  cases hllm : llmOf config₀ with
  | none =>
    refine Safe.done fun u _ _ _ b _ config hconfig llm h => ?_
    rw [hdoc] at hconfig
    cases hconfig
    rw [hllm] at h
    cases h
  | some llm =>
    have hclear : ∀ u, (G.Current llm ∨ G.AllAsked config₀ llm canaryRoles u) → AllCleared G u := by
      intro u hor config hconfig llm' h
      rw [hdoc] at hconfig
      cases hconfig
      rw [hllm] at h
      cases h
      exact hor
    apply Safe.bind (readHash_passes hdoc hllm)
    · intro lastHash g t _ _ hread
      have hlast := hread lastHash rfl
      by_cases hsame : lastHash.getD "" = G.machine.currentHash llm
      · simp only [hsame, if_true] at hlast ⊢
        exact Safe.done fun u hu _ _ b _ => hclear u (hlast.imp_right fun hasked => hasked.later hu)
      · simp only [hsame, if_false] at hlast ⊢
        have htoAsk : G.ToAsk config₀ llm := ⟨hdoc, hllm, hlast⟩
        apply Safe.bind (verifyRoles_passes htoAsk canaryRoles t (List.Subset.refl _))
        · intro _ g t _ _ hasked
          apply (writeHash_passes htoAsk (hasked () rfl)).mono
          exact fun _ _ u _ _ hall b hb => hclear u (.inr (hall b hb))
        · exact fun _ _ _ _ _ _ _ h => by cases h
    · exact fun _ _ _ _ _ _ _ h => by cases h

theorem checkMachine_passes {c : Loaded} (hloaded : LoadedOk G config c) :
    Passes G env (IfOk fun _ u => AllCleared G u) (checkMachine G.machine c config) s := by
  have hfetch : Passes G env (fun _ _ => True)
      (machine (.fetch (config.member "targetUrl"))) s :=
    Passes.look (fun _ _ => rfl) (fun _ _ _ _ _ _ => trivial) fun _ _ _ => trivial
  apply Safe.bind hfetch
  · intro failure g t _ _ _
    by_cases hrefused : failure.any FetchError.refused = true
    · simp only [hrefused, if_true]
      exact Safe.done fun u _ _ _ b hb => by cases hb
    · simp only [hrefused, Bool.false_eq_true, if_false]
      have hredis : Passes G env (fun _ _ => True)
          (Proc.tryCatch (machine .checkRedis) fun _ => exit noRedis) t := by
        apply Safe.tryCatch (Q := fun _ _ _ => True)
        · exact Passes.look (fun _ _ => rfl) (fun _ _ _ _ _ _ => trivial) fun _ _ _ => trivial
        · exact fun _ _ _ _ _ _ => trivial
        · exact fun _ _ _ _ _ _ => Safe.done fun _ _ _ _ => trivial
      apply Safe.bind hredis
      · exact fun _ _ _ _ _ _ => verifyCanary_passes hloaded
      · exact fun _ _ _ _ _ _ _ h => by cases h
  · exact fun _ _ _ _ _ _ _ h => by cases h

theorem begin_passes {c : Loaded} (hloaded : LoadedOk G config c) {command : ConfiguredCommand}
    (hcleared : command.awaits = true → AllCleared G s) :
    Passes G env (fun _ _ => True)
      (machine (.begin ⟨command, config, c.databaseUrl, command.url config⟩)) s := by
  refine Passes.call ?_ fun _ _ _ => trivial
  intro e t hst hinv
  obtain ⟨config₀, hdoc, hretargeted, hurl⟩ := hloaded
  have hlater : ∀ begun, Later t { t with begun } :=
    fun _ => ⟨List.Subset.refl _, List.Subset.refl _⟩
  refine ⟨⟨hinv.config, hinv.stored.later (hlater _) rfl, hinv.sent, ?_⟩, hlater _,
    fun _ _ _ => trivial⟩
  intro b hb
  rcases List.mem_append.mp hb with hold | hnew
  · exact (hinv.begun b hold).later (hlater _)
  · rw [List.mem_singleton.mp hnew]
    exact ⟨config₀, hdoc, hretargeted, hurl, rfl,
      fun hawaits => (hcleared hawaits config₀ hdoc).later (hst.trans (hlater _))⟩

theorem command_passes (command : ConfiguredCommand) :
    Passes G env (fun _ _ => True) (command.proc G.machine) s := by
  apply Safe.bind loadConfig_passes
  · intro c g t _ _ hload
    have hpresent : Passes G env (IfOk fun config _ => LoadedOk G config c) (presentConfig c) t := by
      unfold presentConfig
      cases hconfig : c.globalConfig.filter Json.truthy with
      | none => exact Safe.done fun _ _ _ _ _ h => by cases h
      | some config =>
        refine Safe.done fun _ _ _ _ b hb => ?_
        cases hb
        exact hload c rfl config (Option.eq_some_of_filter_eq_some hconfig)
    apply Safe.bind hpresent
    · intro config g t _ _ hok
      have hloaded := hok config rfl
      by_cases hawaits : command.awaits = true
      · simp only [hawaits, if_true]
        apply Safe.bind (checkMachine_passes hloaded)
        · exact fun _ _ t _ _ hcleared => begin_passes hloaded fun _ => hcleared () rfl
        · exact fun _ _ _ _ _ _ => trivial
      · simp only [hawaits, Bool.false_eq_true, if_false]
        apply Safe.bind (begin_passes hloaded fun h => absurd h hawaits)
        · exact fun _ _ t _ _ _ => (checkMachine_passes hloaded).mono fun _ _ _ _ _ _ => trivial
        · exact fun _ _ _ _ _ _ => trivial
    · exact fun _ _ _ _ _ _ => trivial
  · exact fun _ _ _ _ _ _ => trivial

/-! ## The wizard -/

theorem writeConfig_passes {text : String} (h : Rewritten G.given G.file (some text)) :
    Passes G env (fun _ _ => True) (machine (.writeConfig text)) s := by
  refine Passes.call ?_ fun _ _ _ => trivial
  intro e t _ hinv
  have hlater : Later t { t with configFile := some text } :=
    ⟨List.Subset.refl _, List.Subset.refl _⟩
  exact ⟨⟨h, hinv.stored.later hlater rfl, hinv.sent, fun b hb => (hinv.begun b hb).later hlater⟩,
    hlater, fun _ _ _ => trivial⟩

/-- Between its read and its write others may have written; none of it is lost but the
URLs of other wizards. -/
theorem rewriteConfig_passes {localUrl : String} (hgiven : G.given localUrl) :
    Passes G env (fun _ _ => True) (rewriteConfig localUrl) s := by
  apply Safe.bind readConfig_passes
  · intro read g t _ _ hok
    cases read with
    | none => exact Safe.done fun _ _ _ _ => trivial
    | some text =>
      have hnew : Passes G env (IfOk fun text' _ => Rewritten G.given G.file (some text'))
          (Proc.done (retarget text localUrl)) t :=
        Safe.done fun _ _ _ _ text' h => (hok _ rfl text rfl).again rfl hgiven h
      apply Safe.bind hnew
      · exact fun text' _ _ _ _ h => writeConfig_passes (h text' rfl)
      · exact fun _ _ _ _ _ _ => trivial
  · exact fun _ _ _ _ _ _ => trivial

theorem startAll_passes {answers : WizardAnswers} (h : ∀ u, answers.localUrl = some u → G.given u) :
    Passes G env (fun _ _ => True) (startAll answers) s := by
  unfold startAll
  split
  · rename_i localUrl _ hurl
    have hgiven : G.given localUrl := by
      obtain ⟨u, hu, hsame⟩ := Option.bind_eq_some_iff.mp hurl
      simp only [orUndefined] at hsame
      split at hsame
      · cases hsame
      · cases hsame
        exact h _ hu
    apply Safe.bind (rewriteConfig_passes hgiven)
    · intro _ g t _ _ _
      refine Passes.call ?_ fun _ _ _ => trivial
      intro e u _ hinv
      have hlater : ∀ spawned, Later u { u with spawned } :=
        fun _ => ⟨List.Subset.refl _, List.Subset.refl _⟩
      exact ⟨hinv.later (hlater _) rfl rfl rfl fun _ he => .inl he, hlater _, fun _ _ _ => trivial⟩
    · exact fun _ _ _ _ _ _ => trivial
  · exact Safe.done fun _ _ _ _ => trivial

end Gate

/-! ## All runs -/

/-- Every process is one that keeps to the discipline. -/
def Guarded (G : Setup) (env : Nat → ConfigEnv) (s : ConfigSystem) : Prop :=
  ∃ gs, Pool.Held (gateDiscipline G) (answerConfig env) (fun _ _ => True) (fun _ _ _ => True) s gs

/-- The URLs that the wizards of a run are given. -/
def Given (events : List ConfigEvent) (u : String) : Prop :=
  ∃ answers, .startAll answers ∈ events ∧ answers.localUrl = some u

section Runs

variable {G : Setup} {env : Nat → ConfigEnv} {s t : ConfigSystem}

theorem Guarded.start (h : Guarded G env s) {p : ConfigProc Unit}
    (hp : Passes G env (fun _ _ => True) p s.shared) :
    Guarded G env { s with procs := s.procs ++ [p] } := by
  obtain ⟨gs, hheld⟩ := h
  exact ⟨gs ++ [()], hheld.start trivial (fun _ _ => trivial) hp⟩

theorem guarded_step {event : ConfigEvent} (h : Guarded G env s)
    (hgiven : ∀ answers, event = .startAll answers → ∀ u, answers.localUrl = some u → G.given u)
    (hstep : s.step G.machine env event = some t) : Guarded G env t := by
  cases event with
  | command command =>
    cases hstep
    exact h.start (command_passes command)
  | startAll answers =>
    cases hstep
    exact h.start (startAll_passes (hgiven answers rfl))
  | child =>
    cases hspawned : s.shared.spawned with
    | nil => simp [ConfigSystem.step, hspawned] at hstep
    | cons command rest =>
      simp only [ConfigSystem.step, hspawned, Option.some.injEq] at hstep
      subst hstep
      obtain ⟨gs, hheld⟩ := h
      have hlater : Later s.shared { s.shared with spawned := rest } :=
        ⟨List.Subset.refl _, List.Subset.refl _⟩
      have hinv : G.Inv { s.shared with spawned := rest } :=
        Setup.Inv.later hheld.inv hlater rfl rfl rfl fun _ he => .inl he
      have htaken : Guarded G env { s with shared := { s.shared with spawned := rest } } :=
        ⟨gs, hheld.outside hinv fun _ => hlater⟩
      exact htaken.start (command_passes command)
  | resume i =>
    obtain ⟨gs, hheld⟩ := h
    obtain ⟨g, g', -, -, hnext⟩ := hheld.step hstep fun _ _ _ _ => trivial
    exact ⟨_, hnext⟩

theorem guarded_run (events : List ConfigEvent) : ∀ {s : ConfigSystem}, Guarded G env s →
    (∀ u, Given events u → G.given u) → exec (ConfigSystem.step G.machine env) s events = some t →
    Guarded G env t := by
  induction events with
  | nil =>
    intro s h _ hrun
    cases hrun
    exact h
  | cons event events ih =>
    intro s h hgiven hrun
    obtain ⟨s', hstep, hrest⟩ := Option.bind_eq_some_iff.mp hrun
    have hnext : Guarded G env s' := by
      apply guarded_step h ?_ hstep
      intro answers hevent u hu
      exact hgiven u ⟨answers, hevent ▸ List.mem_cons_self .., hu⟩
    apply ih hnext ?_ hrest
    intro u hu
    obtain ⟨answers, hmem, hanswer⟩ := hu
    exact hgiven u ⟨answers, List.mem_cons_of_mem event hmem, hanswer⟩

theorem inv_run {m : Machine} {file hash : Option String} {events : List ConfigEvent}
    (hrun : exec (ConfigSystem.step m env) (.over file hash) events = some t) :
    Setup.Inv ⟨m, file, hash, Given events⟩ t.shared := by
  have hstart : Guarded ⟨m, file, hash, Given events⟩ env (.over file hash) := by
    refine ⟨[], ⟨.inl rfl, .inl rfl, List.forall_mem_nil _, List.forall_mem_nil _⟩, rfl,
      List.forall_mem_nil _, ?_, ?_⟩
    · intro i j g g' _ hg
      cases hg
    · intro i p g hp
      cases hp
  obtain ⟨gs, hheld⟩ := guarded_run events hstart (fun _ hu => hu) hrun
  exact hheld.inv

end Runs

/-- A configuration for one role. -/
def plannerConfig : Json :=
  .obj [("targetUrl", .str "http://a"),
    ("llm", .obj [("testPlanner", .obj [("provider", .str "local")])])]

def plannerMachine : Machine :=
  ⟨fun _ => none, "/home/user", fun _ => "c6ac1ee39a48479856339469b3e0adc7"⟩

/-- A wizard, then the worker and the watcher that it spawns. -/
def wizardRun : List ConfigEvent :=
  .startAll ⟨some "/work/shop", some "http://b"⟩ :: List.replicate 3 (.resume 0)
    ++ [.child, .child, .child] ++ List.replicate 9 (.resume 2) ++ List.replicate 5 (.resume 3)

def wizardSetup : Setup :=
  ⟨plannerMachine, some (plannerConfig.stringify 0), none, Given wizardRun⟩

section AfterInit

variable {m : Machine} {env : Nat → ConfigEnv} {ρ : Type} {answers : InitAnswers}
  {targetUrl : String} {s t : MachineState}

theorem answerConfig_ok {op : ConfigOp ρ} {r : ρ} (h : answerConfig env op s = (.ok r, t)) :
    performConfig (env s.steps) op { s with steps := s.steps + 1 } = (.ok r, t) := by
  unfold answerConfig at h
  cases hrefusal : (env s.steps).refusal op with
  | some e =>
    rw [hrefusal] at h
    cases h
  | none =>
    rw [hrefusal] at h
    exact h

/-- All but the writing of the configuration leave it as it is. -/
def MachineOp.sparesConfig {ρ : Type} : MachineOp ρ → Bool
  | .writeConfig _ => false
  | _ => true

def ConfigOp.sparesConfig {ρ : Type} : ConfigOp ρ → Bool
  | .machine op => op.sparesConfig
  | .canary _ => true

theorem answerConfig_spares {op : ConfigOp ρ} (h : op.sparesConfig = true) :
    Keeps MachineState.configFile (answerConfig env op) := by
  intro s
  unfold answerConfig
  cases (env s.steps).refusal op with
  | some e => rfl
  | none =>
    cases op with
    | canary op => rfl
    | machine op =>
      cases op with
      | writeConfig text => cases h
      | _ => rfl

theorem verifyRoles_spares (e : String → Option String) (llm : Json) (roles : List AgentRole) :
    (verifyRoles e llm roles).Only fun op => op.sparesConfig = true := by
  induction roles with
  | nil => exact .pure ()
  | cons role roles ih =>
    by_cases hconfigured : configured llm role = true
    · simp only [verifyRoles, hconfigured, if_true]
      apply Proc.Only.bind (.call rfl)
      intro provider
      apply Proc.Only.bind (.lift (.all _ fun _ => rfl))
      intro result
      exact .bind (.call rfl) fun _ => ih
    · simpa only [verifyRoles, hconfigured, Bool.false_eq_true, if_false] using ih

theorem llmOf_initDocument (answers : InitAnswers) (targetUrl : String) :
    llmOf (initDocument answers targetUrl) = some (llmConfig answers) := by
  have htruthy : (llmConfig answers).truthy = true := by
    unfold llmConfig
    split <;> rfl
  simp [llmOf, initDocument, Json.member, htruthy]

/-- The gate of `init` leaves its document's hash behind when it returns. -/
theorem verifyCanary_leaves {e : String → Option String} {config llm : Json}
    (hllm : llmOf config = some llm)
    (hrun : (verifyCanary m e config).run (answerConfig env) s = (.ok (), t)) :
    t.configFile = s.configFile ∧ t.canaryHash.getD "" = m.currentHash llm := by
  unfold verifyCanary at hrun
  simp only [hllm, machine, Proc.run_bind, Proc.run_call] at hrun
  obtain ⟨lastHash, s₁, hread, hrest⟩ := Prog.bind_eq_ok hrun
  cases answerConfig_ok hread
  by_cases hsame : s.canaryHash.getD "" = m.currentHash llm
  · simp only [hsame, if_true] at hrest
    cases hrest
    exact ⟨rfl, hsame⟩
  · simp only [hsame, if_false, Proc.run_bind, Proc.run_call] at hrest
    obtain ⟨_, s₂, hroles, hwrite⟩ := Prog.bind_eq_ok hrest
    have hkeeps : Keeps MachineState.configFile
        ((verifyRoles e llm canaryRoles).run (answerConfig env)) :=
      (verifyRoles_spares e llm canaryRoles).keeps fun _ hop => answerConfig_spares hop
    have hkept := hkeeps { s with steps := s.steps + 1 }
    rw [hroles] at hkept
    cases answerConfig_ok hwrite
    exact ⟨hkept, rfl⟩

/-- What `init` leaves when it returns. -/
theorem initProc_leaves (hurl : answers.targetUrl.bind orUndefined = some targetUrl)
    (hinit : (initProc m answers).run (answerConfig env) s = (.ok (), t)) :
    t.configFile = some ((initDocument answers targetUrl).stringify 2) ∧
    t.canaryHash.getD "" = m.currentHash (llmConfig answers) := by
  unfold initProc at hinit
  simp only [hurl, machine, Proc.run_bind, Proc.run_call] at hinit
  obtain ⟨_, s₁, hwrite, hverify⟩ := Prog.bind_eq_ok hinit
  cases answerConfig_ok hwrite
  exact verifyCanary_leaves (llmOf_initDocument answers targetUrl) hverify

end AfterInit

/-- The factory's default provider for all roles. -/
def defaultAnswers : InitAnswers where
  targetUrl := some "http://a"
  ignoredPaths := ""
  sameConfig := true
  ask _ := ⟨none, none, none, none⟩
  homedir := "/h"

/-- `init` on a machine without files. -/
def initRun : Except String Unit × MachineState :=
  (initProc plannerMachine defaultAnswers).run (answerConfig fun _ => ⟨.calm, none, none⟩)
    (ConfigSystem.over none none).shared

/-- A wizard writes another URL, and its worker goes on with it. -/
def quietRun : List ConfigEvent :=
  .startAll ⟨some "/work/shop", some "http://b"⟩ :: List.replicate 3 (.resume 0)
    ++ [.child, .child] ++ List.replicate 5 (.resume 2)

/-- It asks about all three roles, and remembers that. -/
theorem initRun_asks : (initRun.1, initRun.2.reports.map Report.role, initRun.2.canaryHash)
    = (.ok (), [.diffAnalyzer, .testPlanner, .resultAnalyzer],
        some (plannerMachine.currentHash (llmConfig defaultAnswers))) := by
  decide +kernel

end AutoQa.Cli

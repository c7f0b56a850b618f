import AutoQa.Cli.Commands

/-!
# Projects of several repositories

One database holds the projects of all repositories. The commands that start
tests take the first project they find for the project of the working directory,
and `review` takes it for the project of every feature.
-/

namespace AutoQa.Cli

open AutoQa.Base AutoQa.LlmAgents AutoQa.Db AutoQa.Orchestrator

/-- Every feature created between `s` and `t` belongs to a project of `cwd`. -/
def CreatesOwn (cwd : String) (s t : SysState) : Prop :=
  ∀ id f, s.store.features.length ≤ id → t.store.features[id]? = some f →
    ∃ p, t.store.projects[f.projectId]? = some p ∧ p.repoPath = cwd

/-- Every feature executed between `s` and `t` is executed against the URL of its
own project. -/
def RunsOwn (s t : SysState) : Prop :=
  ∀ call ∈ t.calls.drop s.calls.length, ∀ f p, t.store.features[call.featureId]? = some f →
    t.store.projects[f.projectId]? = some p → call.url = p.localUrl

/-- A command that ran from `s` to `t` kept to its project. -/
def Isolated (cwd : String) (command : Command) (s t : SysState) : Prop :=
  CreatesOwn cwd s t ∧ (command = .review → RunsOwn s t)

theorem isolated_of_ne {cwd : String} {command : Command} {s t : SysState}
    (h : command ≠ .review) : Isolated cwd command s t ↔ CreatesOwn cwd s t :=
  and_iff_left fun hreview => absurd hreview h

/-- The first project is the right one for the command. -/
def Served (cwd : String) (store : Store) : Command → Prop
  | .review => ∀ first ∈ store.projects.head?, ∀ f ∈ store.features, f.status = .discovered →
      ∀ p, store.projects[f.projectId]? = some p → p.localUrl = first.localUrl
  | _ => store.projects.head?.map Project.repoPath = some cwd

/-! ## What the steps leave as it is -/

theorem perform_features (w : World) {ρ : Type} (op : RunOp ρ) (s : RunState) :
    (perform w op s).2.db.features = s.db.features := by
  cases op <;> rfl

/-- `findFirst()`. -/
theorem findFirst_true {ρ : Type} {table : List ρ} {first : ρ} (h : table.head? = some first) :
    findFirst (fun _ => true) table = some (0, first) := by
  obtain ⟨tail, htail⟩ := List.head?_eq_some_iff.mp h
  simp [findFirst, findMany, htail]

/-- The rows of both tables and the calls, as `review` changes them. -/
structure Reviews (Q : Call → Prop) (s t : SysState) : Prop where
  projects : t.store.projects = s.store.projects
  owners : t.store.features.map Feature.projectId = s.store.features.map Feature.projectId
  calls : ∃ new, t.calls = s.calls ++ new ∧ ∀ call ∈ new, Q call

namespace Reviews

variable {Q : Call → Prop} {s t u : SysState}

theorem of_store (h : t.store = s.store) (hcalls : t.calls = s.calls) : Reviews Q s t :=
  ⟨by rw [h], by rw [h], [], by simp [hcalls], by simp⟩

theorem refl (s : SysState) : Reviews Q s s := .of_store rfl rfl

theorem trans (h : Reviews Q s t) (h' : Reviews Q t u) : Reviews Q s u := by
  obtain ⟨new, hnew, hQ⟩ := h.calls
  obtain ⟨new', hnew', hQ'⟩ := h'.calls
  refine ⟨h'.projects.trans h.projects, h'.owners.trans h.owners, new ++ new', ?_, ?_⟩
  · rw [hnew', hnew, List.append_assoc]
  · intro call hcall
    exact (List.mem_append.mp hcall).elim (hQ call) (hQ' call)

theorem getElem?_owner (h : Reviews Q s t) (id : Id) :
    t.store.features[id]?.map Feature.projectId = s.store.features[id]?.map Feature.projectId := by
  rw [← List.getElem?_map, h.owners, List.getElem?_map]

end Reviews

/-- The steps of `review` after its two queries. -/
def Reviewing (Q : Call → Prop) {ρ : Type} : SysOp ρ → Prop
  | .command op => match op with
    | .confirm _ | .markTesting _ | .addJob _ => True
    | .called call => Q call
    | _ => False
  | .runner _ => True
  | .watcher _ _ => False

theorem answerSys_reviews (env : Nat → Env) {Q : Call → Prop} {ρ : Type} (op : SysOp ρ)
    (h : Reviewing Q op) (s : SysState) : Reviews Q s (answerSys env op s).2 := by
  cases hrefused : (env s.steps).refuses op with
  | some e =>
    rw [answerSys_refused hrefused]
    exact .of_store rfl rfl
  | none =>
    rw [answerSys_performed hrefused]
    cases op with
    | watcher => exact h.elim
    | runner op =>
      refine ⟨rfl, ?_, [], by simp [performSys, onRunner, Prog.zoom], by simp⟩
      simp only [performSys, onRunner, Prog.zoom, perform_features]
    | command op =>
      cases op with
      | confirm id => exact .of_store rfl rfl
      | markTesting id =>
        have howners := map_modify_of_same Feature.projectId
          (fun f => { f with status := .testing }) (fun _ => rfl) s.store.features id
        exact ⟨rfl, howners, [], (List.append_nil _).symm, by simp⟩
      | addJob job => exact .of_store rfl rfl
      | called call =>
        refine ⟨rfl, rfl, [call], rfl, ?_⟩
        intro c hc
        rw [List.mem_singleton.mp hc]
        exact h
      | _ => exact h.elim

theorem runTest_reviewing (globalIo : Bool) {Q : Call → Prop} {call : Call} (h : Q call) :
    (runTest globalIo call).Only (Reviewing Q) :=
  runTest_only globalIo call h fun _ => trivial

theorem reviewFeatures_reviewing (localUrl : String) {Q : Call → Prop}
    (discovered : List (Id × Feature))
    (h : ∀ d ∈ discovered, Q ⟨d.1, d.2.description, localUrl⟩) :
    (reviewFeatures localUrl discovered).Only (Reviewing Q) :=
  reviewFeatures_only localUrl discovered (fun _ => trivial) (fun _ => trivial) h fun _ => trivial

/-! ## Tests that are started by hand -/

section Started

variable (project : Project) (name description : String) (rest : Id → SysProc Unit)

theorem firstProject_run (env : Nat → Env) {s : SysState} {first : Project}
    (hfirst : s.store.projects.head? = some first) :
    (firstProject project).run (answerSys env) s
      = ((match (env s.steps).refused with | some e => .error e | none => .ok 0),
          { s with steps := s.steps + 1 }) := by
  have hfind := findFirst_true hfirst
  rw [firstProject, Proc.run_bind, Prog.bind_apply, await, Proc.run_call]
  cases hrefused : (env s.steps).refused with
  | some e => simp [answerSys, Env.refuses, SysOp.awaited, CommandOp.awaited, hrefused]
  | none =>
    simp [answerSys, Env.refuses, SysOp.awaited, CommandOp.awaited, hrefused, performSys,
      performCommand, hfind]

/-- The database after the feature of the first project was created. -/
def withManual (s : Store) : Store :=
  { s with toDb := Db.createFeature (manualFeature 0 name description) s.toDb }

theorem withManual_owner (s : Store) {id : Id} (hid : s.features.length ≤ id) :
    (withManual name description s).features[id]?.map Feature.projectId
      = if id = s.features.length then some 0 else none := by
  rw [withManual, Db.createFeature, List.getElem?_append_right hid]
  by_cases hlast : id = s.features.length
  · simp [hlast, manualFeature]
  · have hlt : s.features.length < id := Nat.lt_of_le_of_ne hid (Ne.symm hlast)
    rw [if_neg hlast, List.getElem?_eq_none (Nat.sub_pos_of_lt hlt), Option.map_none]

/-- Either a refusal stopped the command before it created anything, or it created
its feature for the first project. -/
theorem started_run (hrest : ∀ id, (rest id).Only (Reviewing fun _ => True)) (env : Nat → Env)
    {s : SysState} {first : Project} (hfirst : s.store.projects.head? = some first) :
    ((∃ n, (env n).refused ≠ none) ∧
        ((started project name description rest).run (answerSys env) s).2.store = s.store) ∨
      ∃ u, Reviews (fun _ => True) u
          ((started project name description rest).run (answerSys env) s).2 ∧
        u.store = withManual name description s.store := by
  have hfound := firstProject_run project env hfirst
  cases hrefused : (env s.steps).refused with
  | some e =>
    rw [hrefused] at hfound
    rw [started, Proc.run_bind, Prog.bind_error hfound]
    exact .inl ⟨⟨s.steps, by simp [hrefused]⟩, rfl⟩
  | none =>
    rw [hrefused] at hfound
    rw [started, Proc.run_bind, Prog.bind_ok hfound, Proc.run_bind, await, Proc.run_call]
    let s' : SysState := { s with steps := s.steps + 1 }
    let op : SysOp Id := .command (.createFeature (manualFeature 0 name description))
    cases hcreated : (env s'.steps).refuses op with
    | some e =>
      rw [Prog.bind_error (answerSys_refused hcreated)]
      exact .inl ⟨⟨s'.steps, fun h => nomatch h.symm.trans hcreated⟩, rfl⟩
    | none =>
      rw [Prog.bind_ok (answerSys_performed hcreated)]
      exact .inr ⟨_, (hrest _).rel .refl .trans (answerSys_reviews env) _, rfl⟩

theorem started_creates (hrest : ∀ id, (rest id).Only (Reviewing fun _ => True)) (cwd : String)
    {s : SysState} (hne : s.store.projects ≠ []) :
    (∀ env, CreatesOwn cwd s ((started project name description rest).run (answerSys env) s).2) ↔
      s.store.projects.head?.map Project.repoPath = some cwd := by
  obtain ⟨first, hfirst⟩ := Option.ne_none_iff_exists'.mp (mt List.head?_eq_none_iff.mp hne)
  have hrun := started_run project name description rest hrest
  rw [hfirst, Option.map_some, Option.some_inj]
  rw [List.head?_eq_getElem?] at hfirst
  constructor
  · intro h
    -- where nothing is refused, the feature is created, and for row 0
    obtain ⟨⟨n, hn⟩, -⟩ | ⟨u, hu, hstore⟩ := hrun (fun _ => calmEnv false)
      (List.head?_eq_getElem?.trans hfirst)
    · exact absurd rfl hn
    · have howner := hu.getElem?_owner s.store.features.length
      rw [hstore, withManual_owner name description s.store le_rfl, if_pos rfl] at howner
      obtain ⟨f, hf, hproject⟩ := Option.map_eq_some_iff.mp howner
      obtain ⟨p, hp, hpath⟩ := h _ _ f le_rfl hf
      rw [hu.projects, hstore, hproject] at hp
      cases hfirst.symm.trans hp
      exact hpath
  · intro h env id f hid hf
    obtain ⟨-, hsame⟩ | ⟨u, hu, hstore⟩ := hrun env (List.head?_eq_getElem?.trans hfirst)
    · rw [hsame, List.getElem?_eq_none hid] at hf
      cases hf
    · have howner := hu.getElem?_owner id
      rw [hstore, hf, withManual_owner name description s.store hid] at howner
      have hproject : f.projectId = 0 := by
        by_cases hlast : id = s.store.features.length
        · simpa [hlast] using howner
        · simp [hlast] at howner
      rw [hu.projects, hstore, hproject]
      exact ⟨first, hfirst, h⟩

end Started

/-! ## Review -/

/-- The call that `review` makes for a feature. -/
def reviewCall (localUrl : String) (d : Id × Feature) : Call :=
  ⟨d.1, d.2.description, localUrl⟩

/-- The `n`-th step is answered with yes. -/
def confirmAt (n : Nat) : Nat → Env := fun i => calmEnv (i == n)

theorem confirm_run (n : Nat) (id : Id) (s : SysState) :
    (await (.confirm id)).run (answerSys (confirmAt n)) s
      = (.ok (s.steps == n), { s with steps := s.steps + 1 }) := rfl

/-- A test that is called stays among the calls. -/
theorem runTest_calls (env : Nat → Env) (globalIo : Bool) (call : Call) {k : Unit → SysProc Unit}
    (hk : ∀ r, (k r).Only (Reviewing fun _ => True)) (s : SysState) :
    call ∈ ((runTest globalIo call >>= k).run (answerSys env) s).2.calls.drop s.calls.length := by
  have honly : (runTest globalIo call >>= k).Only (Reviewing fun _ => True) :=
    .bind (runTest_reviewing globalIo trivial) hk
  have hrest := (honly.2 (.ok ())).rel .refl .trans (answerSys_reviews env)
    { s with calls := s.calls ++ [call], steps := s.steps + 1 }
  obtain ⟨new, hnew, -⟩ := hrest.calls
  have hmem : call ∈ List.drop s.calls.length (s.calls ++ [call] ++ new) := by
    rw [List.append_assoc, List.drop_left]
    exact List.mem_cons_self
  exact (congrArg (call ∈ List.drop s.calls.length ·) hnew).mpr hmem

theorem markTesting_run (n : Nat) (id : Id) (s : SysState) :
    (await (.markTesting id)).run (answerSys (confirmAt n)) s
      = (.ok (), { s with steps := s.steps + 1 }.onDb
          (Db.updateFeature id fun f => { f with status := .testing })) := rfl

/-- Every feature is executed in some run: the user confirms that one alone. -/
theorem reviewFeatures_calls (localUrl : String) (before after : List (Id × Feature))
    (d : Id × Feature) (s : SysState) :
    reviewCall localUrl d ∈
      ((reviewFeatures localUrl (before ++ d :: after)).run
        (answerSys (confirmAt (s.steps + before.length))) s).2.calls.drop s.calls.length := by
  induction before generalizing s with
  | nil =>
    -- the user says yes, the feature is marked, and what follows the call only adds calls
    have hyes := confirm_run s.steps d.1 s
    rw [beq_self_eq_true] at hyes
    rw [List.nil_append, List.length_nil, Nat.add_zero, reviewFeatures, Proc.run_bind,
      Prog.bind_ok hyes, if_pos rfl, Proc.run_bind, Prog.bind_ok (markTesting_run _ _ _)]
    exact runTest_calls (confirmAt s.steps) false (reviewCall localUrl d)
      (fun _ => reviewFeatures_reviewing localUrl after fun _ _ => trivial)
      ({ s with steps := s.steps + 1 + 1 }.onDb _)
  | cons skipped before ih =>
    -- the user says no, so that the next feature is asked about one step later
    have hno := confirm_run (s.steps + (before.length + 1)) skipped.1 s
    rw [beq_false_of_ne (by omega)] at hno
    have hstep := ih { s with steps := s.steps + 1 }
    rw [List.cons_append, List.length_cons, reviewFeatures, Proc.run_bind, Prog.bind_ok hno]
    rwa [show s.steps + 1 + before.length = s.steps + (before.length + 1) by omega] at hstep

theorem findProject_run {env : Nat → Env} {s : SysState}
    (h : (env s.steps).refuses (.command .findProject) = none) :
    (await .findProject).run (answerSys env) s
      = (.ok (findFirst (fun _ => true) s.store.projects), { s with steps := s.steps + 1 }) :=
  answerSys_performed h

theorem findDiscovered_run {env : Nat → Env} {s : SysState}
    (h : (env s.steps).refuses (.command .findDiscovered) = none) :
    (await .findDiscovered).run (answerSys env) s
      = (.ok (findMany (fun f => f.status == .discovered) s.store.features),
          { s with steps := s.steps + 1 }) :=
  answerSys_performed h

/-- What `review` calls for the discovered features, and nothing else. -/
theorem review_reviews (env : Nat → Env) {Q : Call → Prop} {s : SysState}
    (h : ∀ first ∈ s.store.projects.head?, ∀ id f, s.store.features[id]? = some f →
      f.status = .discovered → Q (reviewCall first.localUrl (id, f))) :
    Reviews Q s (review.run (answerSys env) s).2 := by
  rw [review, Proc.run_bind]
  cases hproject : (env s.steps).refuses (.command .findProject) with
  | some e =>
    rw [await, Proc.run_call, Prog.bind_error (answerSys_refused hproject)]
    exact .of_store rfl rfl
  | none =>
    rw [Prog.bind_ok (findProject_run hproject)]
    cases hfirst : s.store.projects.head? with
    | none =>
      rw [List.head?_eq_none_iff.mp hfirst]
      exact .of_store rfl rfl
    | some first =>
      rw [findFirst_true hfirst]
      show Reviews Q s (Proc.run _ (await .findDiscovered >>= _) _).2
      rw [Proc.run_bind]
      let s' : SysState := { s with steps := s.steps + 1 }
      cases hdiscovered : (env s'.steps).refuses (.command .findDiscovered) with
      | some e =>
        rw [await, Proc.run_call, Prog.bind_error (answerSys_refused hdiscovered)]
        exact .of_store rfl rfl
      | none =>
        rw [Prog.bind_ok (findDiscovered_run hdiscovered)]
        have honly := reviewFeatures_reviewing first.localUrl
          (findMany (fun f => f.status == .discovered) s.store.features) (Q := Q) (by
            rintro ⟨id, f⟩ hd
            obtain ⟨hf, hstatus⟩ := mem_findMany.mp hd
            exact h first hfirst id f hf (eq_of_beq hstatus))
        have hqueries : Reviews Q s { s with steps := s.steps + 1 + 1 } := .of_store rfl rfl
        exact hqueries.trans (honly.rel .refl .trans (answerSys_reviews env) _)

/-- A discovered feature is executed against the URL of the first project if the
user confirms that feature alone. -/
theorem review_calls {s : SysState} {first : Project} (d : Id × Feature)
    (before after : List (Id × Feature)) (hfirst : s.store.projects.head? = some first)
    (hsplit : findMany (fun f => f.status == .discovered) s.store.features = before ++ d :: after) :
    reviewCall first.localUrl d ∈
      (review.run (answerSys (confirmAt (s.steps + 2 + before.length))) s).2.calls.drop
        s.calls.length := by
  have hcalls := reviewFeatures_calls first.localUrl before after d { s with steps := s.steps + 2 }
  rw [review, Proc.run_bind, Prog.bind_ok (findProject_run rfl), findFirst_true hfirst]
  show _ ∈ List.drop _ (SysState.calls (Proc.run _ (await .findDiscovered >>= _) _).2)
  rw [Proc.run_bind, Prog.bind_ok (findDiscovered_run rfl), hsplit]
  exact hcalls

/-- `review` leaves the owners of the features as they are, so that an isolated call
has the URL that the feature's project had before. -/
theorem review_url {cwd : String} {env : Nat → Env} {s : SysState} {call : Call} {f : Feature}
    {p : Project} (h : Isolated cwd .review s (review.run (answerSys env) s).2)
    (hcall : call ∈ (review.run (answerSys env) s).2.calls.drop s.calls.length)
    (hf : s.store.features[call.featureId]? = some f)
    (hp : s.store.projects[f.projectId]? = some p) : call.url = p.localUrl := by
  have hkeeps := review_reviews env (Q := fun _ => True) (s := s) fun _ _ _ _ _ _ => trivial
  have howner := hkeeps.getElem?_owner call.featureId
  rw [hf] at howner
  obtain ⟨f', hf', hproject⟩ := Option.map_eq_some_iff.mp howner
  rw [← hproject, ← hkeeps.projects] at hp
  exact h.2 rfl call hcall f' p hf' hp

theorem review_isolated_iff (cwd : String) (s : SysState) :
    (∀ env, Isolated cwd .review s (review.run (answerSys env) s).2) ↔
      Served cwd s.store .review := by
  constructor
  · intro h first hfirst f hf hstatus p hp
    obtain ⟨id, hid⟩ := List.mem_iff_getElem?.mp hf
    have hfound : (id, f) ∈ findMany (fun f => f.status == .discovered) s.store.features :=
      mem_findMany.mpr ⟨hid, beq_iff_eq.mpr hstatus⟩
    obtain ⟨before, after, hsplit⟩ := List.append_of_mem hfound
    exact (review_url (h _) (review_calls (id, f) before after hfirst hsplit) hid hp).symm
  · intro h env
    have hkeeps := review_reviews env (s := s) (Q := fun call => ∀ f p,
        s.store.features[call.featureId]? = some f → s.store.projects[f.projectId]? = some p →
        call.url = p.localUrl) fun first hfirst id f hf hstatus f' p hf' hp => by
      cases hf.symm.trans hf'
      exact (h first hfirst f (List.mem_of_getElem? hf) hstatus p hp).symm
    refine ⟨fun id f hid hf => ?_, fun _ call hcall f p hf hp => ?_⟩
    · have hlength := congrArg List.length hkeeps.owners
      rw [List.length_map, List.length_map] at hlength
      rw [List.getElem?_eq_none (hlength.trans_le hid)] at hf
      cases hf
    · obtain ⟨new, hnew, hQ⟩ := hkeeps.calls
      rw [hnew, List.drop_left] at hcall
      have howner := hkeeps.getElem?_owner call.featureId
      rw [hf] at howner
      obtain ⟨f', hf', hproject⟩ := Option.map_eq_some_iff.mp howner.symm
      rw [← hproject, hkeeps.projects] at hp
      exact hQ call hcall f' p hf' hp

/-- Two repositories, a shop and a blog, and one discovered feature of the blog. -/
def shopAndBlog : SysState where
  store :=
    { Db.empty with
      projects := [⟨"shop", "/work/shop", "http://localhost:3000"⟩,
        ⟨"blog", "/work/blog", "http://localhost:4000"⟩]
      features := [{ manualFeature 1 "Login form" "Fill in the form" with status := .discovered }] }
  testQueue := []
  trace := []
  emitted := []
  calls := []
  steps := 0

end AutoQa.Cli

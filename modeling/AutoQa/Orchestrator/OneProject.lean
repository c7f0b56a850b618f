import AutoQa.Db.Projects

/-!
# One project for each repository

Audits and watchers of one repository may start at the same time. Nothing in
the schema keeps them from creating its project twice: whether they do depends
on the order of their lookups and creations.
-/

namespace AutoQa.Orchestrator

open AutoQa.Base AutoQa.Db

/-- An execution that needs the project of a repository. -/
inductive Caller where
  | audit (localUrl : String)
  | watch (localUrl : String)
  deriving DecidableEq, Repr

def Caller.proc (repoPath : String) : Caller → Proc ProjectOp Id
  | .audit localUrl => getOrCreateProject repoPath localUrl
  | .watch localUrl => ensureProject repoPath localUrl

abbrev Callers := Pool ProjectOp (List Project) Id

/-- All executions wait for their lookup. -/
def Callers.start (projects : List Project) (repoPath : String) (callers : List Caller) : Callers :=
  ⟨projects, callers.map (Caller.proc repoPath)⟩

def callerStep : Callers → Nat → Option Callers := Pool.step answerProject

/-- The ids of the projects of a repository. -/
def idsAt (repoPath : String) (projects : List Project) : List Id :=
  (findMany (atPath repoPath) projects).map Prod.fst

/-- There is one project for the repository and every execution returned its id. -/
def OneProject (repoPath : String) (s : Callers) : Prop :=
  ∃ id, idsAt repoPath s.shared = [id] ∧ ∀ p ∈ s.procs, p = .done (.ok id)

section

variable {repoPath : String} {s t : Callers} {i : Nat}

theorem idsAt_eq_nil {projects : List Project} :
    idsAt repoPath projects = [] ↔ ∀ p ∈ projects, p.repoPath ≠ repoPath := by
  simp [idsAt, findMany_eq_nil, atPath]

theorem idsAt_append {projects : List Project} {project : Project}
    (h : project.repoPath = repoPath) :
    idsAt repoPath (projects ++ [project]) = idsAt repoPath projects ++ [projects.length] := by
  simp [idsAt, findMany_append, atPath, h]

theorem findFirst_atPath (repoPath : String) (projects : List Project) :
    (findFirst (atPath repoPath) projects).map Prod.fst = (idsAt repoPath projects).head? := by
  simp [findFirst, idsAt]

/-- The execution waits for its lookup. -/
def Fresh (repoPath : String) (p : Proc ProjectOp Id) : Prop :=
  ∃ project : Project, project.repoPath = repoPath ∧ p = findOrCreate project

theorem Callers.start_fresh (projects : List Project) (repoPath : String) (callers : List Caller) :
    ∀ p ∈ (Callers.start projects repoPath callers).procs, Fresh repoPath p := by
  intro p hp
  obtain ⟨caller, -, rfl⟩ := List.mem_map.mp hp
  cases caller with
  | audit localUrl => exact ⟨_, rfl, rfl⟩
  | watch localUrl => exact ⟨_, rfl, rfl⟩

/-! ## A lookup -/

/-- A lookup that finds the project returns its id. -/
theorem lookup_found {p : Proc ProjectOp Id} {id : Id} {ids : List Id} (hp : Fresh repoPath p)
    (hproc : s.procs[i]? = some p) (hids : idsAt repoPath s.shared = id :: ids) :
    callerStep s i = some ⟨s.shared, s.procs.set i (.done (.ok id))⟩ := by
  obtain ⟨project, rfl, rfl⟩ := hp
  have hfind := findFirst_atPath project.repoPath s.shared
  rw [hids, List.head?_cons, Option.map_eq_some_iff] at hfind
  obtain ⟨⟨id', row⟩, hfind, rfl⟩ := hfind
  rw [callerStep, Pool.step_some hproc]
  simp only [answerProject, hfind]
  rfl

/-- A lookup that finds nothing goes on to create. -/
theorem lookup_missing {p : Proc ProjectOp Id} (hp : Fresh repoPath p)
    (hproc : s.procs[i]? = some p) (hids : idsAt repoPath s.shared = []) :
    ∃ project : Project, project.repoPath = repoPath ∧
      callerStep s i = some ⟨s.shared, s.procs.set i (Proc.call (.create project))⟩ := by
  obtain ⟨project, rfl, rfl⟩ := hp
  have hfind := findFirst_atPath project.repoPath s.shared
  rw [hids, List.head?_nil, Option.map_eq_none_iff] at hfind
  refine ⟨project, rfl, ?_⟩
  rw [callerStep, Pool.step_some hproc]
  simp only [answerProject, hfind]
  rfl

/-! ## Once there is a project -/

/-- The project is there, and nobody is about to create another. -/
structure Secured (repoPath : String) (id : Id) (s : Callers) : Prop where
  ids : idsAt repoPath s.shared = [id]
  procs : ∀ p ∈ s.procs, Fresh repoPath p ∨ p = .done (.ok id)

theorem Secured.step {id : Id} (h : Secured repoPath id s) (hstep : callerStep s i = some t) :
    Secured repoPath id t := by
  obtain ⟨ρ, o, k, hproc, -⟩ := Pool.step_cases hstep
  rcases h.procs _ (List.mem_of_getElem? hproc) with hfresh | hdone
  · rw [lookup_found hfresh hproc h.ids] at hstep
    cases hstep
    exact ⟨h.ids, Pool.forall_set h.procs i (.inr rfl)⟩
  · cases hdone

theorem Secured.oneProject {id : Id} (h : Secured repoPath id s) (hfinished : s.Finished) :
    OneProject repoPath s := by
  refine ⟨id, h.ids, ?_⟩
  intro p hp
  rcases h.procs p hp with ⟨project, -, rfl⟩ | hdone
  · obtain ⟨r, hr⟩ := hfinished _ hp
    cases hr
  · exact hdone

/-! ## Once two executions have found nothing -/

/-- The execution is about to create the project. -/
def isCreating : Proc ProjectOp Id → Bool
  | .step (.create _) _ => true
  | _ => false

@[simp] theorem isCreating_find (path : String)
    (k : Except String (Option (Id × Project)) → Proc ProjectOp Id) :
    isCreating (.step (.findFirst path) k) = false := rfl

@[simp] theorem isCreating_create (project : Project) (k : Except String Id → Proc ProjectOp Id) :
    isCreating (.step (.create project) k) = true := rfl

/-- What is created is the repository's project. -/
def CreatesAt (repoPath : String) {ρ : Type} : ProjectOp ρ → Prop
  | .create project => project.repoPath = repoPath
  | .findFirst _ => True

/-- The projects that are there and those about to be created are two or more. -/
structure Doomed (repoPath : String) (s : Callers) : Prop where
  only : ∀ p ∈ s.procs, p.Only (CreatesAt repoPath)
  many : 2 ≤ (idsAt repoPath s.shared).length + s.procs.countP isCreating

theorem Doomed.step (h : Doomed repoPath s) (hstep : callerStep s i = some t) :
    Doomed repoPath t := by
  obtain ⟨ρ, o, k, hproc, rfl⟩ := Pool.step_cases hstep
  obtain ⟨hlt, hget⟩ := List.getElem?_eq_some_iff.mp hproc
  have honly := h.only _ (List.mem_of_getElem? hproc)
  have hmany := h.many
  refine ⟨Pool.forall_set h.only i (honly.2 _), ?_⟩
  simp only [List.countP_set hlt, hget]
  have hpos : isCreating (.step o k) = true → 0 < s.procs.countP isCreating :=
    fun hc => List.countP_pos_iff.mpr ⟨_, List.mem_of_getElem? hproc, hc⟩
  cases o with
  | findFirst path =>
    simp only [answerProject, isCreating_find, Bool.false_eq_true, if_false]
    omega
  | create project =>
    have hcreated : idsAt repoPath (s.shared ++ [project]) = _ := idsAt_append honly.1
    have hpos := hpos rfl
    simp only [answerProject, hcreated, List.length_append, List.length_singleton,
      isCreating_create, if_true]
    omega

theorem Doomed.not_oneProject (h : Doomed repoPath s) : ¬ OneProject repoPath s := by
  rintro ⟨id, hids, hdone⟩
  have hnone : s.procs.countP isCreating = 0 := by
    rw [List.countP_eq_zero]
    intro p hp
    rw [hdone p hp]
    exact Bool.false_ne_true
  have hmany := h.many
  rw [hids, hnone] at hmany
  simp at hmany

end

/-! ## The schedules -/

theorem fresh_only {repoPath : String} {p : Proc ProjectOp Id} (h : Fresh repoPath p) :
    p.Only (CreatesAt repoPath) := by
  obtain ⟨project, rfl, rfl⟩ := h
  refine .bind (.call trivial) (fun row => ?_)
  split
  · exact .pure _
  · exact .call rfl

theorem fresh_not_creating {repoPath : String} {p : Proc ProjectOp Id} (h : Fresh repoPath p) :
    isCreating p = false := by
  obtain ⟨project, -, rfl⟩ := h
  rfl

section

variable {repoPath : String} {s t : Callers} {i j : Nat}

/-- An execution that steps before any creation finds nothing. -/
theorem first_lookup (hfresh : ∀ p ∈ s.procs, Fresh repoPath p)
    (hids : idsAt repoPath s.shared = []) (hstep : callerStep s i = some t) :
    ∃ project : Project, project.repoPath = repoPath ∧ i < s.procs.length ∧
      t = ⟨s.shared, s.procs.set i (Proc.call (.create project))⟩ := by
  obtain ⟨ρ, o, k, hproc, -⟩ := Pool.step_cases hstep
  obtain ⟨project, hpath, hmissing⟩ :=
    lookup_missing (hfresh _ (List.mem_of_getElem? hproc)) hproc hids
  rw [hmissing] at hstep
  exact ⟨project, hpath, (List.getElem?_eq_some_iff.mp hproc).1, (Option.some.inj hstep).symm⟩

/-- The same execution goes on: the project is there. -/
theorem secured_of_create {project : Project} (hpath : project.repoPath = repoPath)
    (hfresh : ∀ p ∈ s.procs, Fresh repoPath p) (hids : idsAt repoPath s.shared = [])
    (hi : i < s.procs.length)
    (hstep : callerStep ⟨s.shared, s.procs.set i (Proc.call (.create project))⟩ i = some t) :
    Secured repoPath s.shared.length t := by
  rw [callerStep, Pool.step_some (List.getElem?_set_self hi)] at hstep
  cases hstep
  refine ⟨?_, ?_⟩
  · simp [answerProject, idsAt_append hpath, hids]
  · rw [List.set_set]
    exact Pool.forall_set (fun p hp => .inl (hfresh p hp)) i (.inr rfl)

/-- Another execution goes on: it finds nothing either. -/
theorem doomed_of_lookup {project : Project} (hpath : project.repoPath = repoPath)
    (hfresh : ∀ p ∈ s.procs, Fresh repoPath p) (hids : idsAt repoPath s.shared = [])
    (hi : i < s.procs.length) (hne : j ≠ i)
    (hstep : callerStep ⟨s.shared, s.procs.set i (Proc.call (.create project))⟩ j = some t) :
    Doomed repoPath t := by
  obtain ⟨ρ, o, k, hproc, -⟩ := Pool.step_cases hstep
  have hother : s.procs[j]? = some (.step o k) := by
    rw [← hproc]
    exact (List.getElem?_set_ne (Ne.symm hne)).symm
  obtain ⟨hj, hget⟩ := List.getElem?_eq_some_iff.mp hother
  have hjfresh := hfresh _ (List.mem_of_getElem? hother)
  obtain ⟨project', hpath', hmissing⟩ := lookup_missing hjfresh hproc hids
  rw [hmissing] at hstep
  cases hstep
  have hcall : ∀ p : Project, p.repoPath = repoPath →
      (Proc.call (.create p) : Proc ProjectOp Id).Only (CreatesAt repoPath) :=
    fun p hp => ⟨hp, fun _ => trivial⟩
  have honly : ∀ p ∈ s.procs, p.Only (CreatesAt repoPath) := fun p hp => fresh_only (hfresh p hp)
  refine ⟨Pool.forall_set (Pool.forall_set honly i (hcall _ hpath)) j (hcall _ hpath'), ?_⟩
  have hnone : s.procs.countP isCreating = 0 := by
    rw [List.countP_eq_zero]
    intro p hp
    simp [fresh_not_creating (hfresh p hp)]
  have hfirst : (s.procs.set i (Proc.call (.create project))).countP isCreating = 1 := by
    rw [List.countP_set hi, hnone]
    simp [Proc.call]
  simp only [hids, List.length_nil]
  rw [List.countP_set (by simpa using hj), hfirst, List.getElem_set_ne (Ne.symm hne), hget,
    fresh_not_creating hjfresh]
  simp [Proc.call]

end

/-- The first execution looks the project up and creates it before any other
looks. -/
def FirstCreates (schedule : List Nat) : Prop := ∃ i rest, schedule = i :: i :: rest

section

variable {repoPath : String} {projects : List Project} {callers : List Caller}
  {schedule : List Nat} {final : Callers}

/-- A project that is there is the one that every execution finds. -/
theorem oneProject_of_present {id : Id} (hids : idsAt repoPath projects = [id])
    (hrun : exec callerStep (.start projects repoPath callers) schedule = some final)
    (hfinished : final.Finished) : OneProject repoPath final := by
  have hfresh := Callers.start_fresh projects repoPath callers
  have hsecured : Secured repoPath id (.start projects repoPath callers) :=
    ⟨hids, fun p hp => .inl (hfresh p hp)⟩
  exact (exec_keeps (fun _ _ _ h hs => h.step hs) hsecured hrun).oneProject hfinished

/-- Some execution has to make the first lookup. -/
theorem schedule_ne_nil (hcallers : callers ≠ [])
    (hrun : exec callerStep (.start projects repoPath callers) schedule = some final)
    (hfinished : final.Finished) : schedule ≠ [] := by
  rintro rfl
  cases hrun
  obtain ⟨caller, hcaller⟩ := List.exists_mem_of_ne_nil callers hcallers
  obtain ⟨r, hr⟩ := hfinished _ (List.mem_map_of_mem hcaller)
  obtain ⟨project, -, heq⟩ :=
    Callers.start_fresh projects repoPath callers _ (List.mem_map_of_mem hcaller)
  rw [heq] at hr
  cases hr

/-- The first lookup finds nothing, whoever makes it; the second step decides. -/
theorem oneProject_of_missing (hcallers : callers ≠ []) (hids : idsAt repoPath projects = [])
    (hrun : exec callerStep (.start projects repoPath callers) schedule = some final)
    (hfinished : final.Finished) : OneProject repoPath final ↔ FirstCreates schedule := by
  have hfresh := Callers.start_fresh projects repoPath callers
  obtain ⟨i, schedule, rfl⟩ := List.exists_cons_of_ne_nil (schedule_ne_nil hcallers hrun hfinished)
  obtain ⟨u, hu, hrest⟩ := Option.bind_eq_some_iff.mp hrun
  obtain ⟨project, hpath, hi, rfl⟩ := first_lookup hfresh hids hu
  cases schedule with
  | nil =>
    cases hrest
    obtain ⟨r, hr⟩ := hfinished _ (List.mem_set hi _)
    cases hr
  | cons j schedule =>
    obtain ⟨v, hv, hlater⟩ := Option.bind_eq_some_iff.mp hrest
    by_cases hji : j = i
    · subst hji
      have hfinal := exec_keeps (fun _ _ _ h hs => h.step hs)
        (secured_of_create hpath hfresh hids hi hv) hlater
      exact ⟨fun _ => ⟨j, schedule, rfl⟩, fun _ => hfinal.oneProject hfinished⟩
    · have hfinal := exec_keeps (fun _ _ _ h hs => h.step hs)
        (doomed_of_lookup hpath hfresh hids hi hji hv) hlater
      constructor
      · exact fun h => absurd h hfinal.not_oneProject
      · rintro ⟨k, rest, hk⟩
        cases hk
        exact absurd rfl hji

end

/-- From at most one project, every execution gets the one project of the
repository if and only if it was there or the first execution to look it up
created it before any other looked. -/
theorem oneProject_iff (repoPath : String) (projects : List Project) (callers : List Caller)
    (schedule : List Nat) (final : Callers) (hone : (idsAt repoPath projects).length ≤ 1)
    (hcallers : callers ≠ [])
    (hrun : exec callerStep (.start projects repoPath callers) schedule = some final)
    (hfinished : final.Finished) :
    OneProject repoPath final ↔
      (∃ p ∈ projects, p.repoPath = repoPath) ∨ FirstCreates schedule := by
  cases hids : idsAt repoPath projects with
  | cons id ids =>
    obtain rfl : ids = [] := by
      rw [hids, List.length_cons] at hone
      exact List.length_eq_zero_iff.mp (by omega)
    have hthere : ∃ p ∈ projects, p.repoPath = repoPath := by
      by_contra hnone
      push Not at hnone
      rw [idsAt_eq_nil.mpr hnone] at hids
      cases hids
    exact ⟨fun _ => .inl hthere, fun _ => oneProject_of_present hids hrun hfinished⟩
  | nil =>
    have hnone : ¬ ∃ p ∈ projects, p.repoPath = repoPath := by
      rintro ⟨p, hp, hpath⟩
      exact idsAt_eq_nil.mp hids p hp hpath
    rw [or_iff_right hnone]
    exact oneProject_of_missing hcallers hids hrun hfinished

/-- An audit that creates the project before a watcher looks for it. -/
def auditFirst : List Caller := [.audit "http://localhost:3000", .watch "http://localhost:3000"]

def createdProject : Project := ⟨"shop", "/home/dev/shop", "http://localhost:3000"⟩

theorem oneProject_auditFirst :
    (idsAt "/home/dev/shop" []).length ≤ 1 ∧ auditFirst ≠ [] ∧
    exec callerStep (.start [] "/home/dev/shop" auditFirst) [0, 0, 1]
      = some ⟨[createdProject], [.done (.ok 0), .done (.ok 0)]⟩ ∧
    OneProject "/home/dev/shop" ⟨[createdProject], [.done (.ok 0), .done (.ok 0)]⟩ := by
  have hrun : exec callerStep (.start [] "/home/dev/shop" auditFirst) [0, 0, 1]
      = some ⟨[createdProject], [.done (.ok 0), .done (.ok 0)]⟩ := rfl
  refine ⟨by decide, by decide, hrun, ?_⟩
  refine (oneProject_iff _ [] auditFirst [0, 0, 1] _ (by decide) (by decide) hrun ?_).mpr
    (.inr ⟨0, [1], rfl⟩)
  simp [Pool.Finished]

/-- Both look the project up before either creates it. -/
theorem two_projects :
    ¬ ∀ (repoPath : String) (projects : List Project) (callers : List Caller) (schedule : List Nat)
        (final : Callers), (idsAt repoPath projects).length ≤ 1 → callers ≠ [] →
      exec callerStep (.start projects repoPath callers) schedule = some final → final.Finished →
      OneProject repoPath final := by
  intro h
  obtain ⟨id, hids, -⟩ := h "/home/dev/shop" [] auditFirst [0, 1, 0, 1]
    ⟨[createdProject, createdProject], [.done (.ok 0), .done (.ok 1)]⟩ (by decide) (by decide) rfl
    (by simp [Pool.Finished])
  have htwo : (idsAt "/home/dev/shop" [createdProject, createdProject]).length = 2 := by decide
  rw [hids] at htwo
  cases htwo

end AutoQa.Orchestrator

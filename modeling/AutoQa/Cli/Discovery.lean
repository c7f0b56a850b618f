import AutoQa.Base.Keyed
import AutoQa.Base.System
import AutoQa.Db.Projects
import AutoQa.LlmAgents.FeatureClassifier

/-!
# The discovery phase

Phase B of the `audit` command (`autoqa.ts`): the classified features of each
crawled page become rows of the Feature table, unless a lookup finds them there.
The lookup asks for the feature's own selector and page, and not for the ones
that are stored.
-/

namespace AutoQa.Cli

open AutoQa.Base AutoQa.LlmAgents AutoQa.Db

/-! ## The phase -/

/-- A crawled page, with what `classifyFeatures` makes of it. -/
structure ClassifiedPage where
  url : String
  result : Except String (List ClassifiedFeature)

/-- What the phase is run with; `repoPath` is resolved. -/
structure Discovery where
  repoPath : String
  url : String
  maxElementsPerPage : Option ℚ
  pages : List ClassifiedPage

/-- `globalConfig.audit?.maxElementsPerPage || 15`. -/
def Discovery.maxElements (d : Discovery) : ℚ :=
  match d.maxElementsPerPage with
  | some n => if n = 0 then 15 else n
  | none => 15

/-- `xs.slice(0, end)`: a fraction is cut off, a negative end counts from the back. -/
def sliceTo {α : Type} (stop : ℚ) (xs : List α) : List α :=
  let n := stop.num.tdiv stop.den
  if n < 0 then xs.take (xs.length - n.natAbs) else xs.take n.toNat

/-- A feature of a page in the inner loop. -/
structure Visit where
  projectId : Id
  page : String
  feature : ClassifiedFeature
  deriving DecidableEq, Repr

namespace Visit

/-- `where: { projectId, selector: feature.selector, pageUrl: feature.pageUrl }`;
a field that is `undefined` is no condition. -/
def looks (v : Visit) (row : Feature) : Bool :=
  row.projectId == v.projectId && v.feature.selector.all (fun s => row.selector == some s)
    && v.feature.pageUrl.all (fun u => row.pageUrl == some u)

/-- The row that is created. -/
def row (v : Visit) : Feature :=
  { projectId := v.projectId
    name := v.feature.name
    description := v.feature.description
    status := .discovered
    pageUrl := orElse v.feature.pageUrl (some v.page)
    selector := v.feature.selector
    featureType := some v.feature.featureType
    covered := false
    lastTestedAt := none }

end Visit

/-- The body of the inner loop. -/
def discoverFeature (v : Visit) : Prog Store Unit := do
  let s ← Prog.get
  match findFirst v.looks s.features with
  | some _ => pure ()
  | none => Prog.modify fun s => { s with features := s.features ++ [v.row] }

/-- `for (const feature of limitedFeatures)`. -/
def discoverFeatures (projectId : Id) (page : String) : List ClassifiedFeature → Prog Store Unit
  | [] => pure ()
  | feature :: features => do
      discoverFeature ⟨projectId, page, feature⟩
      discoverFeatures projectId page features

/-- `for (const page of featureMap.pages)`. -/
def discoverPages (d : Discovery) : List ClassifiedPage → Prog Store Unit
  | [] => pure ()
  | page :: pages => do
      let features ← Prog.ofExcept page.result
      let projectId ← onProjects ((getOrCreateProject d.repoPath d.url).run answerProject)
      discoverFeatures projectId page.url (sliceTo d.maxElements features)
      discoverPages d pages

def discover (d : Discovery) : Prog Store Unit := discoverPages d d.pages

/-! ## The phase as a sequence of lookups -/

/-- The columns by which a feature is told from others. -/
def featureKey (row : Feature) : Id × Option String × Option String :=
  (row.projectId, row.selector, row.pageUrl)

theorem looks_of_key (v : Visit) (r r' : Feature) (h : featureKey r = featureKey r') :
    v.looks r = v.looks r' := by
  simp only [featureKey, Prod.mk.injEq] at h
  simp only [Visit.looks, h]

/-- The features that the phase comes to, up to a page whose classification
throws. -/
def visitsOf (d : Discovery) (projectId : Id) : List ClassifiedPage → List Visit
  | [] => []
  | page :: pages =>
      match page.result with
      | .ok features =>
          (sliceTo d.maxElements features).map (Visit.mk projectId page.url)
            ++ visitsOf d projectId pages
      | .error _ => []

def Discovery.visits (d : Discovery) (s : Store) : List Visit :=
  visitsOf d (projectAfter d.repoPath d.url s.projects).1 d.pages

theorem discoverFeature_run (v : Visit) (s : Store) :
    discoverFeature v s = (.ok (), { s with features := enter Visit.looks Visit.row s.features v }) := by
  have hfound := findFirst_isSome v.looks s.features
  rw [discoverFeature, Prog.bind_ok (Prog.get_apply s)]
  cases hfind : findFirst v.looks s.features with
  | some row =>
    rw [hfind] at hfound
    rw [enter_found hfound.symm]
    rfl
  | none =>
    rw [hfind] at hfound
    rw [enter_new hfound.symm]
    rfl

theorem discoverFeatures_run (projectId : Id) (page : String) (features : List ClassifiedFeature)
    (s : Store) :
    discoverFeatures projectId page features s = (.ok (), { s with
      features := enterAll Visit.looks Visit.row s.features
        (features.map (Visit.mk projectId page)) }) := by
  induction features generalizing s with
  | nil => rfl
  | cons feature features ih =>
    rw [discoverFeatures, Prog.bind_ok (discoverFeature_run ⟨projectId, page, feature⟩ s), ih]
    rfl

theorem onProjects_getOrCreateProject (repoPath url : String) (s : Store) :
    onProjects ((getOrCreateProject repoPath url).run answerProject) s
      = (.ok (projectAfter repoPath url s.projects).1,
          { s with projects := (projectAfter repoPath url s.projects).2 }) := by
  simp only [onProjects, Prog.zoom, getOrCreateProject_run]

/-- The database after a page whose classification returned. -/
def afterPage (d : Discovery) (page : String) (features : List ClassifiedFeature) (s : Store) :
    Store :=
  { s with
    projects := (projectAfter d.repoPath d.url s.projects).2
    features := enterAll Visit.looks Visit.row s.features ((sliceTo d.maxElements features).map
      (Visit.mk (projectAfter d.repoPath d.url s.projects).1 page)) }

section

variable {d : Discovery} {page : ClassifiedPage} {pages : List ClassifiedPage} {s : Store}

theorem discoverPages_ok {features : List ClassifiedFeature} (h : page.result = .ok features) :
    discoverPages d (page :: pages) s = discoverPages d pages (afterPage d page.url features s) := by
  rw [discoverPages, h, Prog.bind_ok (Prog.ofExcept_apply (.ok features) s),
    Prog.bind_ok (onProjects_getOrCreateProject d.repoPath d.url s),
    Prog.bind_ok (discoverFeatures_run _ page.url _ _)]
  rfl

theorem discoverPages_error {e : String} (h : page.result = .error e) :
    discoverPages d (page :: pages) s = (.error e, s) := by
  rw [discoverPages, h, Prog.bind_error (Prog.ofExcept_apply (.error e) s)]

end

/-- The phase enters its visits one after another, all of them for the project it
finds or creates first. -/
theorem discoverPages_run (d : Discovery) (pages : List ClassifiedPage) (s : Store) :
    (discoverPages d pages s).2.features = enterAll Visit.looks Visit.row s.features
        (visitsOf d (projectAfter d.repoPath d.url s.projects).1 pages) ∧
      projectAfter d.repoPath d.url (discoverPages d pages s).2.projects
        = projectAfter d.repoPath d.url s.projects := by
  induction pages generalizing s with
  | nil => exact ⟨rfl, rfl⟩
  | cons page pages ih =>
    rw [visitsOf]
    cases hresult : page.result with
    | error e =>
      rw [discoverPages_error hresult]
      exact ⟨rfl, rfl⟩
    | ok features =>
      rw [discoverPages_ok hresult]
      obtain ⟨hfeatures, hprojects⟩ := ih (afterPage d page.url features s)
      simp only [afterPage, projectAfter_again] at hfeatures hprojects ⊢
      refine ⟨?_, hprojects⟩
      rw [hfeatures, enterAll, enterAll, enterAll, List.foldl_append]

theorem discover_features (d : Discovery) (s : Store) :
    (discover d s).2.features = enterAll Visit.looks Visit.row s.features (d.visits s) :=
  (discoverPages_run d d.pages s).1

/-- The phase finds its own project when it is repeated, so it comes to the same
visits. -/
theorem visits_again (d : Discovery) (s : Store) : d.visits (discover d s).2 = d.visits s := by
  rw [Discovery.visits, discover, (discoverPages_run d d.pages s).2, Discovery.visits]

/-- A phase that returns has come to every page. -/
theorem mem_visitsOf {d : Discovery} {pages : List ClassifiedPage} {s : Store}
    (h : (discoverPages d pages s).1 = .ok ()) (projectId : Id) {page : ClassifiedPage}
    (hpage : page ∈ pages) {features : List ClassifiedFeature} (hresult : page.result = .ok features)
    {feature : ClassifiedFeature} (hfeature : feature ∈ sliceTo d.maxElements features) :
    ⟨projectId, page.url, feature⟩ ∈ visitsOf d projectId pages := by
  induction pages generalizing s with
  | nil => cases hpage
  | cons p pages ih =>
    rw [visitsOf]
    cases hp : p.result with
    | error e =>
      rw [discoverPages_error hp] at h
      cases h
    | ok fs =>
      rw [discoverPages_ok hp] at h
      apply List.mem_append.mpr
      rcases List.mem_cons.mp hpage with rfl | hpage
      · cases hp.symm.trans hresult
        exact .inl (List.mem_map.mpr ⟨feature, hfeature, rfl⟩)
      · exact .inr (ih h hpage)

/-- A phase that returns leaves the repository with its project, if there was a
page. -/
theorem discoverPages_projects {d : Discovery} {pages : List ClassifiedPage} {s : Store}
    (h : (discoverPages d pages s).1 = .ok ()) (hpages : pages ≠ []) :
    (discoverPages d pages s).2.projects = (projectAfter d.repoPath d.url s.projects).2 := by
  induction pages generalizing s with
  | nil => exact absurd rfl hpages
  | cons p pages ih =>
    cases hp : p.result with
    | error e =>
      rw [discoverPages_error hp] at h
      cases h
    | ok fs =>
      rw [discoverPages_ok hp] at h ⊢
      cases pages with
      | nil => rfl
      | cons q pages =>
        rw [ih h (by simp), afterPage, projectAfter_again]

/-! ## Runs of audits -/

/-- What an audit does to the Feature table: a discovery phase, and marking a
tested feature. -/
inductive AuditWrite where
  | discover (d : Discovery)
  | cover (feature : Id) (time : Nat)

/-- The update of a feature whose test passed. -/
def markTested (time : Nat) (f : Feature) : Feature :=
  { f with covered := true, lastTestedAt := some time, status := .verified }

def auditWrite (s : Store) : AuditWrite → Option Store
  | .discover d => some (discover d s).2
  | .cover feature time => some { s with features := s.features.modify feature (markTested time) }

/-- A discovery phase whose lookups all agree with the table they meet. -/
def LooksUpKeys (s : Store) : AuditWrite → Prop
  | .discover d => AgreesAlong Visit.looks Visit.row featureKey s.features (d.visits s)
  | .cover _ _ => True

instance (s : Store) : (write : AuditWrite) → Decidable (LooksUpKeys s write)
  | .discover d => decidableAgreesAlong Visit.looks Visit.row featureKey s.features (d.visits s)
  | .cover _ _ => .isTrue trivial

/-- No two rows stand for one feature. -/
def Distinct (s : Store) : Prop := (s.features.map featureKey).Nodup

theorem auditWrite_distinct (s : Store) (write : AuditWrite) (t : Store) (h : Distinct s)
    (hlooks : LooksUpKeys s write) (hwrite : auditWrite s write = some t) : Distinct t := by
  cases write with
  | discover d =>
    cases hwrite
    rw [Distinct, discover_features]
    exact hlooks.nodup looks_of_key h
  | cover feature time =>
    cases hwrite
    have hkeys := map_modify_of_same featureKey (markTested time) (fun _ => rfl) s.features
      feature
    rw [Distinct, hkeys]
    exact h

/-- The condition is exact for a single feature: unless its lookup agrees with the
table, its row is missing, or stands twice, or is added again. -/
theorem agrees_iff_discoverFeature (v : Visit) {s : Store} (h : Distinct s) :
    Agrees Visit.looks Visit.row featureKey s.features v ↔
      featureKey v.row ∈ (discoverFeature v s).2.features.map featureKey ∧
        Distinct (discoverFeature v s).2 ∧
        (discoverFeature v (discoverFeature v s).2).2.features
          = (discoverFeature v s).2.features := by
  simp only [discoverFeature_run, Distinct]
  exact Agrees.iff_enter (looks_of_key v) h

/-- The row that a discovered feature should have: under the repository's
project, with its selector and with its page or else the crawled one. -/
def HasRow (t : Store) (repoPath page : String) (feature : ClassifiedFeature) : Prop :=
  ∃ id project, findFirst (atPath repoPath) t.projects = some (id, project) ∧
    (id, feature.selector, orElse feature.pageUrl (some page)) ∈ t.features.map featureKey

/-- **Discovery loses and duplicates nothing** in a run of audits whose lookups
agree with the tables they meet: after a phase every feature it came to has its
row, no two rows stand for one feature, and the same phase again adds nothing. -/
theorem discovery_exact (projects : List Project) (writes : List AuditWrite) (d : Discovery)
    {s : Store} (hrun : exec auditWrite (.fresh projects) writes = some s)
    (halong : Along auditWrite LooksUpKeys (.fresh projects) writes)
    (hlooks : LooksUpKeys s (.discover d)) (hreturns : (discover d s).1 = .ok ()) :
    (∀ page ∈ d.pages, ∀ features, page.result = .ok features →
        ∀ feature ∈ sliceTo d.maxElements features,
          HasRow (discover d s).2 d.repoPath page.url feature) ∧
      Distinct (discover d s).2 ∧
      (discover d (discover d s).2).2.features = (discover d s).2.features := by
  have hdistinct : Distinct s :=
    exec_invariant auditWrite_distinct (by simp [Distinct, Store.fresh, Db.empty]) halong hrun
  refine ⟨?_, auditWrite_distinct s (.discover d) _ hdistinct hlooks rfl, ?_⟩
  · intro page hpage features hresult feature hfeature
    have hvisit := mem_visitsOf hreturns (projectAfter d.repoPath d.url s.projects).1 hpage hresult
      hfeature
    obtain ⟨project, hproject⟩ := projectAfter_first d.repoPath d.url s.projects
    rw [← discoverPages_projects hreturns (List.ne_nil_of_mem hpage)] at hproject
    refine ⟨_, project, hproject, ?_⟩
    rw [discover_features]
    exact hlooks.mem _ hvisit
  · rw [discover_features, visits_again, discover_features]
    exact hlooks.again

def menuFeature (pageUrl : Option String) : ClassifiedFeature :=
  ⟨"Menu", "Opens the menu", .button, some "#menu", pageUrl⟩

/-- A phase that finds the menu on two pages of a site. -/
def menuDiscovery (pageUrl : String → Option String) : Discovery :=
  { repoPath := "/repo", url := "http://localhost:3000", maxElementsPerPage := none
    pages := ["/a", "/b"].map fun url => ⟨url, .ok [menuFeature (pageUrl url)]⟩ }

/-- The second audit of a site whose features name their pages. -/
theorem menu_discovered :
    HasRow (discover (menuDiscovery some) (discover (menuDiscovery some) (.fresh [])).2).2 "/repo"
        "/b" (menuFeature (some "/b")) ∧
      Distinct (discover (menuDiscovery some) (discover (menuDiscovery some) (.fresh [])).2).2 := by
  have hexact := discovery_exact [] [.discover (menuDiscovery some)] (menuDiscovery some) rfl
    (by decide +kernel) (by decide +kernel) (by decide +kernel)
  exact ⟨hexact.1 ⟨"/b", .ok [menuFeature (some "/b")]⟩ (by simp [menuDiscovery]) _ rfl _
    (by decide +kernel), hexact.2.1⟩

/-- Features that do not name their pages: the menu of the second page is taken
for the one of the first. With an empty page name both are added each time. -/
theorem menu_lost_or_repeated :
    ((discover (menuDiscovery fun _ => none) (.fresh [])).1 = .ok () ∧
      ¬ HasRow (discover (menuDiscovery fun _ => none) (.fresh [])).2 "/repo" "/b"
        (menuFeature none)) ∧
    ((discover (menuDiscovery fun _ => some "") (.fresh [])).1 = .ok () ∧
      (discover (menuDiscovery fun _ => some "")
          (discover (menuDiscovery fun _ => some "") (.fresh [])).2).2.features
        ≠ (discover (menuDiscovery fun _ => some "") (.fresh [])).2.features) := by
  refine ⟨⟨by decide +kernel, ?_⟩, by decide +kernel, by decide +kernel⟩
  rintro ⟨id, project, -, hrow⟩
  revert hrow
  have hkeys : (discover (menuDiscovery fun _ => none) (.fresh [])).2.features.map featureKey
      = [(0, some "#menu", some "/a")] := by decide +kernel
  rw [hkeys]
  simp [menuFeature, orElse]

end AutoQa.Cli

import AutoQa.TestExecutor.CrawlOrder

/-!
# A crawl with failed navigations

The tool server answers a failed `playwright_navigate` with `isError` and leaves
the browser where it was. The crawler does not read the answer: what it records
for the URL is then a snapshot of another page, and the links it follows are
that page's.
-/

namespace AutoQa.TestExecutor

open AutoQa.Base AutoQa.LlmAgents

/-! ## The server -/

/-- One call of `playwright_navigate`. -/
structure Attempt where
  url : String
  succeeded : Bool
  deriving DecidableEq, Repr

/-- The page of the tool server, and where the crawler has looked at it. -/
structure Tab where
  attempts : List Attempt
  /-- Where the browser was at each snapshot, `none` before its first navigation. -/
  snapshots : List (Option String)
  /-- Where it was when the links were read. -/
  linkReads : List (Option String)
  deriving DecidableEq, Repr

def Tab.fresh : Tab := ⟨[], [], []⟩

/-- The URLs that were navigated to, in order. -/
def Tab.navigated (tab : Tab) : List String := (tab.attempts.filter (·.succeeded)).map Attempt.url

/-- The URL of the page that the browser shows. -/
def Tab.location (tab : Tab) : Option String := tab.navigated.getLast?

def Tab.attempt (tab : Tab) (url : String) (succeeded : Bool) : Tab :=
  { tab with attempts := tab.attempts ++ [⟨url, succeeded⟩] }

/-- What a site has at the browser's location. -/
def shownAt {α : Type} (content : String → α) (location : Option String) : α :=
  content (location.getD "about:blank")

section

variable (site : Site) (fails : Nat → String → Option String)

/-- The tool server of `mcp-server.ts` on a site where the `k`-th navigation, to `url`,
fails with the message `fails k url`. -/
def useFaultyTool : CrawlTool → Prog Tab (List String)
  | .navigate url => do
      let tab ← Prog.get
      match fails tab.attempts.length url with
      | none => do
          Prog.modify fun tab => tab.attempt url true
          pure ["Navigated to " ++ url]
      | some message => do
          Prog.modify fun tab => tab.attempt url false
          pure [message]
  | .a11ySnapshot => do
      Prog.modify fun tab => { tab with snapshots := tab.snapshots ++ [tab.location] }
      let tab ← Prog.get
      pure [Json.stringify (shownAt site.a11y tab.location) 2]
  | .getNetworkActivity => do
      let tab ← Prog.get
      pure [Json.stringify (site.endpoints tab.navigated) 2]
  | .evaluateLinks => do
      Prog.modify fun tab => { tab with linkReads := tab.linkReads ++ [tab.location] }
      let tab ← Prog.get
      pure [Json.stringify (.arr ((shownAt site.links tab.location).map .str)) 0]

/-- Answer the crawler's operations. -/
def browseFaulty {ρ : Type} : CrawlOp ρ → Prog Tab ρ
  | .connect => pure ()
  | .readConfig => pure site.config
  | .dequeued _ _ _ => pure ()
  | .callTool tool => useFaultyTool site fails tool
  | .close => pure ()
  | .grep keyword repoPath => Prog.ofExcept (site.grep keyword repoPath)
  | .saveFeatureMap _ => pure ()

/-! ## One iteration -/

/-- The tab after the crawler has gone through the page at `url`. -/
def Tab.visit (tab : Tab) (url : String) : Tab :=
  let tab := tab.attempt url (fails tab.attempts.length url).isNone
  { tab with
    snapshots := tab.snapshots ++ [tab.location]
    linkReads := tab.linkReads ++ [tab.location] }

/-- The entry that is recorded for `url`. -/
def faultyPage (tab : Tab) (url : String) : CrawledPage :=
  ⟨url, shownAt site.a11y (tab.visit fails url).location,
    site.endpoints (tab.visit fails url).navigated⟩

theorem crawlPage_faulty (url : String) (tab : Tab) :
    (crawlPage url).run (browseFaulty site fails) tab
      = (.ok (faultyPage site fails tab url, shownAt site.links (tab.visit fails url).location),
          tab.visit fails url) := by
  cases hfails : fails tab.attempts.length url <;>
    simp [crawlPage, callTool, Proc.run, browseFaulty, useFaultyTool, Prog.bind_apply, parseReply,
      Json.parse_stringify, linksOf_strings, faultyPage, Tab.visit, Tab.attempt, Tab.location,
      Tab.navigated, hfails]

/-- At a URL that was not tried before, the browser is only if it got there now. -/
theorem Tab.location_visit {tab : Tab} {url : String} (h : url ∉ tab.attempts.map Attempt.url) :
    (tab.visit fails url).location = some url ↔ (fails tab.attempts.length url).isNone = true := by
  cases hfails : fails tab.attempts.length url with
  | none => simp [Tab.visit, Tab.attempt, Tab.location, Tab.navigated, hfails]
  | some message =>
    refine iff_of_false (fun hlocation => h ?_) nofun
    have hlast : tab.navigated.getLast? = some url := by
      simpa [Tab.visit, Tab.attempt, Tab.location, Tab.navigated, hfails] using hlocation
    obtain ⟨a, ha, rfl⟩ := List.mem_map.mp (List.mem_of_getLast? hlast)
    exact List.mem_map_of_mem (List.mem_of_mem_filter ha)

/-! ## The loop -/

/-- The loop stands before an iteration, the tab beside it: each entry holds a snapshot
that was taken somewhere, and that was its own URL for all of them if no navigation has
failed, and only then. -/
structure Tracked (s : CrawlState) (tab : Tab) : Prop where
  attempted : tab.attempts.map Attempt.url = s.visited
  recorded : s.discoveredPages.map CrawledPage.url = s.visited
  taken : List.Forall₂ (fun page location => page.a11y = shownAt site.a11y location)
    s.discoveredPages tab.snapshots
  reads : tab.linkReads = tab.snapshots
  located : s.discoveredPages.map (fun page => some page.url) = tab.snapshots ↔
    ∀ a ∈ tab.attempts, a.succeeded = true

theorem Tracked.start (startUrl : String) : Tracked site (.start startUrl) .fresh :=
  ⟨rfl, rfl, .nil, rfl, by simp [CrawlState.start, Tab.fresh]⟩

variable {site fails}

theorem Tracked.visit {visited toVisit queue : List String} {currentUrl : String}
    {discoveredPages : List CrawledPage} {tab : Tab}
    (h : Tracked site ⟨visited, currentUrl :: toVisit, discoveredPages⟩ tab)
    (hnew : currentUrl ∉ visited) :
    Tracked site ⟨visited ++ [currentUrl], queue,
      discoveredPages ++ [faultyPage site fails tab currentUrl]⟩ (tab.visit fails currentUrl) := by
  have hattempted : tab.attempts.map Attempt.url = visited := h.attempted
  have hrecorded : discoveredPages.map CrawledPage.url = visited := h.recorded
  have hreads : tab.linkReads = tab.snapshots := h.reads
  have hlocation := Tab.location_visit fails (hattempted ▸ hnew)
  have hsnapshots : (tab.visit fails currentUrl).snapshots
      = tab.snapshots ++ [(tab.visit fails currentUrl).location] := rfl
  have hattempts : (tab.visit fails currentUrl).attempts
      = tab.attempts ++ [⟨currentUrl, (fails tab.attempts.length currentUrl).isNone⟩] := rfl
  refine ⟨?_, ?_, ?_, ?_, ?_⟩
  · simp [hattempts, hattempted]
  · simp [hrecorded, faultyPage]
  · exact List.rel_append h.taken (.cons rfl .nil)
  · exact congrArg (· ++ [(tab.visit fails currentUrl).location]) hreads
  · have hlast : (faultyPage site fails tab currentUrl).url = currentUrl := rfl
    rw [hsnapshots, hattempts, List.map_append, List.map_singleton, hlast, List.forall_mem_append,
      List.forall_mem_singleton, ← hlocation, ← h.located]
    constructor
    · intro heq
      obtain ⟨hfront, hurl⟩ := List.append_inj' heq rfl
      exact ⟨hfront, (List.singleton_inj.mp hurl).symm⟩
    · rintro ⟨hfront, hurl⟩
      exact congr (congrArg _ hfront) (by rw [hurl])

variable (site fails)

theorem crawlLoop_faulty_visit {maxPages : Nat} {visited toVisit : List String}
    {currentUrl : String} {discoveredPages : List CrawledPage}
    (hmore : discoveredPages.length < maxPages) (hnew : currentUrl ∉ visited) (tab : Tab) :
    (crawlLoop maxPages ⟨visited, currentUrl :: toVisit, discoveredPages⟩).run
        (browseFaulty site fails) tab
      = (crawlLoop maxPages ⟨visited ++ [currentUrl], Bfs.enqueue (visited ++ [currentUrl]) toVisit
          (shownAt site.links (tab.visit fails currentUrl).location),
          discoveredPages ++ [faultyPage site fails tab currentUrl]⟩).run
          (browseFaulty site fails) (tab.visit fails currentUrl) := by
  rw [crawlLoop, if_pos hmore, if_neg hnew]
  simp only [Proc.run_bind, Proc.run_call]
  rw [Prog.bind_ok (by rfl), Prog.bind_ok (crawlPage_faulty site fails currentUrl tab)]

theorem crawlLoop_faulty (maxPages : Nat) (s : CrawlState) :
    ∀ tab, Tracked site s tab → ∃ pages visited queue tab',
      (crawlLoop maxPages s).run (browseFaulty site fails) tab = (.ok pages, tab') ∧
        Tracked site ⟨visited, queue, pages⟩ tab' := by
  induction s using crawlLoop.induct maxPages with
  | case1 visited discoveredPages =>
    intro tab h
    rw [crawlLoop]
    exact ⟨discoveredPages, visited, [], tab, rfl, h⟩
  | case2 visited currentUrl toVisit discoveredPages hmore hvisited ih =>
    intro tab h
    obtain ⟨pages, visited', queue, tab', hrun, htracked⟩ :=
      ih tab ⟨h.attempted, h.recorded, h.taken, h.reads, h.located⟩
    refine ⟨pages, visited', queue, tab', ?_, htracked⟩
    rw [crawlLoop, if_pos hmore, if_pos hvisited]
    exact hrun
  | case3 visited currentUrl toVisit discoveredPages hmore hvisited visited' ih =>
    intro tab h
    obtain ⟨pages, visited', queue, tab', hrun, htracked⟩ := ih _ _ _ (h.visit hvisited)
    exact ⟨pages, visited', queue, tab',
      (crawlLoop_faulty_visit site fails hmore hvisited tab).trans hrun, htracked⟩
  | case4 visited currentUrl toVisit discoveredPages hmore =>
    intro tab h
    rw [crawlLoop, if_neg hmore]
    exact ⟨discoveredPages, visited, currentUrl :: toVisit, tab, rfl, h⟩

/-! ## The whole function -/

theorem scanRepoForAI_faulty (repoPath : String) (keywords : List String) (tab : Tab) :
    ∃ integrations, (scanRepoForAI repoPath keywords).run (browseFaulty site fails) tab
      = (.ok integrations, tab) := by
  induction keywords with
  | nil => exact ⟨[], rfl⟩
  | cons keyword rest ih =>
    obtain ⟨others, hothers⟩ := ih
    simp only [scanRepoForAI, Proc.run_bind, Proc.run_attempt, Proc.run_call]
    rw [Prog.bind_ok (show Prog.attempt (browseFaulty site fails (.grep keyword repoPath)) tab
      = (.ok (site.grep keyword repoPath), tab) from rfl), Prog.bind_ok hothers]
    cases site.grep keyword repoPath with
    | error e => exact ⟨others, rfl⟩
    | ok text =>
      simp only
      split
      · exact ⟨others, rfl⟩
      · exact ⟨_, rfl⟩

/-- What follows the loop neither throws nor touches the tab. -/
theorem finishCrawl_faulty (repoPath : String) (pages : List CrawledPage) (tab : Tab) :
    ∃ integrations, (finishCrawl repoPath (.ok pages)).run (browseFaulty site fails) tab
      = (.ok ⟨pages, integrations⟩, tab) := by
  obtain ⟨integrations, hscan⟩ := scanRepoForAI_faulty site fails repoPath keywords tab
  refine ⟨integrations, ?_⟩
  simp only [finishCrawl, Proc.run_bind, Proc.run_call]
  rw [Prog.bind_ok (by rfl), Prog.bind_ok (by rfl), Prog.bind_ok hscan]
  rfl

/-- A crawl whose loop returns hands its pages over. -/
theorem runCrawl_of_loop {ofText : String → Option ℚ} {startUrl : String} {maxPages : Nat}
    {pages : List CrawledPage} {tab : Tab} (hlimit : maxPagesOf ofText site.config = .ok maxPages)
    (hloop : (crawlLoop maxPages (.start startUrl)).run (browseFaulty site fails) .fresh
      = (.ok pages, tab)) (repoPath : String) :
    ∃ integrations, (runCrawl ofText startUrl repoPath).run (browseFaulty site fails) .fresh
      = (.ok ⟨pages, integrations⟩, tab) := by
  obtain ⟨integrations, hfinish⟩ := finishCrawl_faulty site fails repoPath pages tab
  have hattempt : Prog.attempt ((crawlLoop maxPages (.start startUrl)).run (browseFaulty site fails))
      .fresh = (.ok (.ok pages), tab) := by
    rw [Prog.attempt, hloop]
  refine ⟨integrations, ?_⟩
  rw [runCrawl]
  simp only [Proc.run_bind, Proc.run_call, Proc.run_attempt]
  rw [Prog.bind_ok (by rfl), Prog.bind_ok (by rfl), hlimit, Prog.bind_ok (by rfl),
    Prog.bind_ok hattempt]
  exact hfinish

/-- A crawl throws before its loop, or ends with the loop's pages. -/
theorem runCrawl_faulty (ofText : String → Option ℚ) (startUrl repoPath : String) :
    (∃ e, (runCrawl ofText startUrl repoPath).run (browseFaulty site fails) .fresh
        = (.error e, .fresh)) ∨
      ∃ featureMap visited queue tab,
        (runCrawl ofText startUrl repoPath).run (browseFaulty site fails) .fresh
          = (.ok featureMap, tab) ∧ Tracked site ⟨visited, queue, featureMap.pages⟩ tab := by
  cases hlimit : maxPagesOf ofText site.config with
  | error e =>
    refine .inl ⟨e, ?_⟩
    rw [runCrawl]
    simp only [Proc.run_bind, Proc.run_call]
    rw [Prog.bind_ok (by rfl), Prog.bind_ok (by rfl), hlimit]
    rfl
  | ok maxPages =>
    obtain ⟨pages, visited, queue, tab, hloop, htracked⟩ :=
      crawlLoop_faulty site fails maxPages (.start startUrl) .fresh (.start site startUrl)
    obtain ⟨integrations, hrun⟩ := runCrawl_of_loop site fails hlimit hloop repoPath
    exact .inr ⟨⟨pages, integrations⟩, visited, queue, tab, hrun, htracked⟩

/-- Every entry was taken, and its links were read, at its own URL. -/
def TakenAtHome (pages : List CrawledPage) (tab : Tab) : Prop :=
  tab.snapshots = pages.map (fun page => some page.url) ∧
    tab.linkReads = pages.map (fun page => some page.url)

end

/-- **Snapshots and their URLs.** The `i`-th entry of the feature map holds the snapshot
that was taken where the `i`-th one was. That is the entry's URL for all of them exactly
when no navigation of the crawl failed. -/
theorem snapshots_at_home_iff (ofText : String → Option ℚ) (site : Site)
    (fails : Nat → String → Option String) (startUrl repoPath : String) :
    (∀ featureMap tab, (runCrawl ofText startUrl repoPath).run (browseFaulty site fails) .fresh
        = (.ok featureMap, tab) →
      List.Forall₂ (fun page location => page.a11y = shownAt site.a11y location) featureMap.pages
        tab.snapshots) ∧
    ((∀ featureMap tab, (runCrawl ofText startUrl repoPath).run (browseFaulty site fails) .fresh
        = (.ok featureMap, tab) → TakenAtHome featureMap.pages tab) ↔
      ∀ a ∈ ((runCrawl ofText startUrl repoPath).run (browseFaulty site fails) .fresh).2.attempts,
        a.succeeded = true) := by
  rcases runCrawl_faulty site fails ofText startUrl repoPath with
    ⟨e, hrun⟩ | ⟨featureMap, visited, queue, tab, hrun, htracked⟩
  · rw [hrun]
    exact ⟨nofun, iff_of_true nofun (by simp [Tab.fresh])⟩
  · rw [hrun]
    refine ⟨?_, ?_⟩
    · rintro _ _ ⟨⟩
      exact htracked.taken
    · rw [← htracked.located]
      constructor
      · exact fun h => (h featureMap tab rfl).1.symm
      · rintro heq _ _ ⟨⟩
        exact ⟨heq.symm, htracked.reads.trans heq.symm⟩

/-- Two pages that link to each other; the server of the second is down. -/
def downSite : Site where
  links _ := ["/a", "/b"]
  a11y url := .str url
  endpoints _ := .arr []
  config := none
  grep _ _ := .ok ""

def downFails (_ : Nat) (url : String) : Option String :=
  if url = "/b" then some "net::ERR_CONNECTION_REFUSED" else none

/-- The entry of the second page holds a snapshot of the first. -/
theorem down_page_misattributed :
    ∃ featureMap tab, (runCrawl (fun _ => none) "/a" "/repo").run (browseFaulty downSite downFails)
        .fresh = (.ok featureMap, tab) ∧
      featureMap.pages.map CrawledPage.url = ["/a", "/b"] ∧
      tab.snapshots = [some "/a", some "/a"] ∧ tab.linkReads = [some "/a", some "/a"] ∧
      ¬ TakenAtHome featureMap.pages tab := by
  have hloop : (crawlLoop 10 (.start "/a")).run (browseFaulty downSite downFails) .fresh
      = (.ok [faultyPage downSite downFails .fresh "/a",
          faultyPage downSite downFails (Tab.fresh.visit downFails "/a") "/b"],
        (Tab.fresh.visit downFails "/a").visit downFails "/b") := by
    have hfirst : Bfs.enqueue ([] ++ ["/a"]) [] (shownAt downSite.links
        (Tab.fresh.visit downFails "/a").location) = ["/b"] := by
      decide +kernel
    have hsecond : Bfs.enqueue ([] ++ ["/a"] ++ ["/b"]) [] (shownAt downSite.links
        ((Tab.fresh.visit downFails "/a").visit downFails "/b").location) = [] := by
      decide +kernel
    rw [CrawlState.start, crawlLoop_faulty_visit _ _ (by decide) (by decide), hfirst,
      crawlLoop_faulty_visit _ _ (by decide) (by decide), hsecond, crawlLoop]
    rfl
  obtain ⟨integrations, hrun⟩ := runCrawl_of_loop downSite downFails rfl hloop "/repo"
  refine ⟨_, _, hrun, rfl, rfl, rfl, ?_⟩
  rintro ⟨hsnapshots, -⟩
  have hsame : [some "/a", some "/a"] = [some "/a", some "/b"] := hsnapshots
  exact absurd hsame (by decide)

end AutoQa.TestExecutor

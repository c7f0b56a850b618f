import AutoQa.TestExecutor.Crawler

/-!
# The order of the crawl

On a site whose pages all answer, the crawl loop is a breadth-first search of
the site's links, cut off at the page limit.
-/

namespace AutoQa.TestExecutor

open AutoQa.Base AutoQa.LlmAgents

/-- What the crawler can see of the world. -/
structure Site where
  /-- The links that the link expression evaluates to on the page at a URL. -/
  links : String → List String
  a11y : String → Json
  /-- The requests captured since the browser started, by the pages navigated to. -/
  endpoints : List String → Json
  config : Option String
  grep : String → String → Except String String

/-- The loop's variables after a URL was taken off the queue. -/
structure Dequeue where
  currentUrl : String
  visited : List String
  toVisit : List String
  deriving DecidableEq, Repr

structure Browser where
  /-- The URLs navigated to, in order. -/
  navigated : List String
  dequeues : List Dequeue
  deriving DecidableEq, Repr

def Browser.fresh : Browser := ⟨[], []⟩

/-- The URL of the page that the browser shows. -/
def Browser.location (b : Browser) : String := b.navigated.getLast?.getD "about:blank"

/-- The tool server of `mcp-server.ts`, on a site where no call fails. -/
def useTool (site : Site) : CrawlTool → Prog Browser (List String)
  | .navigate url => do
      Prog.modify fun b => { b with navigated := b.navigated ++ [url] }
      pure ["Navigated to " ++ url]
  | .a11ySnapshot => do
      let b ← Prog.get
      pure [Json.stringify (site.a11y b.location) 2]
  | .getNetworkActivity => do
      let b ← Prog.get
      pure [Json.stringify (site.endpoints b.navigated) 2]
  | .evaluateLinks => do
      let b ← Prog.get
      pure [Json.stringify (.arr ((site.links b.location).map .str)) 0]

/-- Answer the crawler's operations from a site. -/
def browse (site : Site) {ρ : Type} : CrawlOp ρ → Prog Browser ρ
  | .connect => pure ()
  | .readConfig => pure site.config
  | .dequeued currentUrl visited toVisit =>
      Prog.modify fun b => { b with dequeues := b.dequeues ++ [⟨currentUrl, visited, toVisit⟩] }
  | .callTool tool => useTool site tool
  | .close => pure ()
  | .grep keyword repoPath => Prog.ofExcept (site.grep keyword repoPath)
  | .saveFeatureMap _ => pure ()

/-! ## One iteration -/

/-- The page that is recorded for a URL. -/
def Site.page (site : Site) (navigated : List String) (url : String) : CrawledPage :=
  ⟨url, site.a11y url, site.endpoints (navigated ++ [url])⟩

theorem linksOf_strings (links : List String) :
    linksOf (.arr (links.map .str)) = .ok links := by
  simp only [linksOf, List.mapM_map]
  induction links with
  | nil => rfl
  | cons link links ih =>
    rw [List.mapM_cons, ih]
    rfl

theorem crawlPage_run (site : Site) (url : String) (b : Browser) :
    (crawlPage url).run (browse site) b
      = (.ok (site.page b.navigated url, site.links url),
          { b with navigated := b.navigated ++ [url] }) := by
  simp [crawlPage, callTool, Proc.run, browse, useTool, Prog.bind_apply, parseReply,
    Json.parse_stringify, linksOf_strings, Browser.location, Site.page]

/-! ## The loop -/

/-- The queue has no duplicate and holds nothing visited. -/
def Dequeue.Clean (d : Dequeue) : Prop := d.toVisit.Nodup ∧ d.visited.Disjoint d.toVisit

/-- The loop stands before an iteration, the browser beside it. -/
structure Crawling (site : Site) (startUrl : String) (maxPages : Nat) (s : CrawlState)
    (b : Browser) : Prop where
  frontier : Bfs.Frontier site.links startUrl s.visited s.toVisit
  recorded : s.discoveredPages.map CrawledPage.url = s.visited
  navigated : b.navigated = s.visited
  limit : s.visited.length ≤ maxPages
  clean : ∀ d ∈ b.dequeues, d.Clean

section

variable {site : Site} {startUrl : String} {maxPages : Nat}

theorem Crawling.start : Crawling site startUrl maxPages (.start startUrl) .fresh :=
  ⟨.init, rfl, rfl, Nat.zero_le _, by simp [Browser.fresh]⟩

/-- The browser after the URL at the head of the queue was visited. -/
def Browser.visit (b : Browser) (currentUrl : String) (visited toVisit : List String) : Browser :=
  ⟨b.navigated ++ [currentUrl], b.dequeues ++ [⟨currentUrl, visited, toVisit⟩]⟩

variable {visited toVisit : List String} {currentUrl : String}
  {discoveredPages : List CrawledPage} {b : Browser}

/-- The dequeue test never fires: the enqueue test has kept the queue clean. -/
theorem Crawling.not_visited
    (h : Crawling site startUrl maxPages ⟨visited, currentUrl :: toVisit, discoveredPages⟩ b) :
    currentUrl ∉ visited := by
  intro hmem
  exact (List.nodup_append.mp h.frontier.nodup).2.2 currentUrl hmem currentUrl (by simp) rfl

theorem Crawling.visit
    (h : Crawling site startUrl maxPages ⟨visited, currentUrl :: toVisit, discoveredPages⟩ b)
    (hmore : discoveredPages.length < maxPages) :
    Crawling site startUrl maxPages
      ⟨visited ++ [currentUrl], Bfs.enqueue (visited ++ [currentUrl]) toVisit
        (site.links currentUrl), discoveredPages ++ [site.page b.navigated currentUrl]⟩
      (b.visit currentUrl (visited ++ [currentUrl]) toVisit) := by
  have hrecorded : discoveredPages.map CrawledPage.url = visited := h.recorded
  have hnavigated : b.navigated = visited := h.navigated
  refine ⟨h.frontier.visit, ?_, ?_, ?_, ?_⟩
  · simp [hrecorded, Site.page]
  · simp [Browser.visit, hnavigated]
  · have hlength : visited.length = discoveredPages.length := by simp [← hrecorded]
    simp only [List.length_append, List.length_singleton]
    omega
  · intro d hd
    rcases List.mem_append.mp hd with hd | hd
    · exact h.clean d hd
    · obtain rfl := List.mem_singleton.mp hd
      have hnodup : (visited ++ [currentUrl] ++ toVisit).Nodup := by
        simpa using h.frontier.nodup
      rw [List.nodup_append] at hnodup
      refine ⟨hnodup.2.1, ?_⟩
      intro x hx hx'
      exact hnodup.2.2 x hx x hx' rfl

end

theorem crawlLoop_visit (site : Site) {maxPages : Nat} {visited toVisit : List String}
    {currentUrl : String} {discoveredPages : List CrawledPage}
    (hmore : discoveredPages.length < maxPages) (hnew : currentUrl ∉ visited) (b : Browser) :
    (crawlLoop maxPages ⟨visited, currentUrl :: toVisit, discoveredPages⟩).run (browse site) b
      = (crawlLoop maxPages ⟨visited ++ [currentUrl], Bfs.enqueue (visited ++ [currentUrl]) toVisit
          (site.links currentUrl), discoveredPages ++ [site.page b.navigated currentUrl]⟩).run
          (browse site) (b.visit currentUrl (visited ++ [currentUrl]) toVisit) := by
  rw [crawlLoop, if_pos hmore, if_neg hnew]
  simp only [Proc.run_bind, Proc.run_call]
  rw [Prog.bind_ok (by rfl), Prog.bind_ok (crawlPage_run site currentUrl _)]
  rfl

theorem crawlLoop_run (site : Site) (startUrl : String) (maxPages : Nat) (s : CrawlState) :
    ∀ b, Crawling site startUrl maxPages s b →
      ∃ pages queue b', (crawlLoop maxPages s).run (browse site) b = (.ok pages, b') ∧
        Crawling site startUrl maxPages ⟨pages.map CrawledPage.url, queue, pages⟩ b' ∧
        (queue = [] ∨ pages.length = maxPages) := by
  induction s using crawlLoop.induct maxPages with
  | case1 visited discoveredPages =>
    intro b h
    have hrecorded : discoveredPages.map CrawledPage.url = visited := h.recorded
    rw [crawlLoop]
    exact ⟨discoveredPages, [], b, rfl, hrecorded ▸ h, .inl rfl⟩
  | case2 visited currentUrl toVisit discoveredPages hmore hvisited ih =>
    intro b h
    exact absurd hvisited h.not_visited
  | case3 visited currentUrl toVisit discoveredPages hmore hvisited visited' ih =>
    intro b h
    obtain ⟨pages, queue, b', hrun, hcrawling, hover⟩ := ih _ _ _ (h.visit hmore)
    exact ⟨pages, queue, b', (crawlLoop_visit site hmore hvisited b).trans hrun, hcrawling, hover⟩
  | case4 visited currentUrl toVisit discoveredPages hmore =>
    intro b h
    have hrecorded : discoveredPages.map CrawledPage.url = visited := h.recorded
    have hlimit : visited.length ≤ maxPages := h.limit
    have hlength : visited.length = discoveredPages.length := by simp [← hrecorded]
    rw [crawlLoop, if_neg hmore]
    exact ⟨discoveredPages, currentUrl :: toVisit, b, rfl, hrecorded ▸ h, .inr (by omega)⟩

/-! ## The pages -/

/-- A loop that is over has searched breadth first. -/
theorem Crawling.breadthFirst {site : Site} {startUrl : String} {maxPages : Nat}
    {pages : List CrawledPage} {queue : List String} {b : Browser}
    (h : Crawling site startUrl maxPages ⟨pages.map CrawledPage.url, queue, pages⟩ b)
    (hpos : 1 ≤ maxPages) (hover : queue = [] ∨ pages.length = maxPages) :
    Bfs.BreadthFirst site.links startUrl maxPages (pages.map CrawledPage.url) :=
  h.frontier.breadthFirst hpos h.limit (by simpa using hover)

/-- The crawl loop ends, and the pages it records are the site's pages in
breadth-first order. -/
theorem crawl_breadthFirst (site : Site) (startUrl : String) (maxPages : Nat)
    (hpos : 1 ≤ maxPages) :
    ∃ pages b,
      (crawlLoop maxPages (.start startUrl)).run (browse site) .fresh = (.ok pages, b) ∧
      Bfs.BreadthFirst site.links startUrl maxPages (pages.map CrawledPage.url) ∧
      ∀ d ∈ b.dequeues, d.toVisit.Nodup ∧ d.visited.Disjoint d.toVisit := by
  obtain ⟨pages, queue, b, hrun, hcrawling, hover⟩ :=
    crawlLoop_run site startUrl maxPages (.start startUrl) .fresh .start
  exact ⟨pages, b, hrun, hcrawling.breadthFirst hpos hover, hcrawling.clean⟩

/-- Two pages that link to each other, and to themselves. -/
def Site.pair : Site where
  links url := if url = "/a" then ["/a", "/b", "/b"] else ["/a", "/b"]
  a11y _ := .arr []
  endpoints _ := .arr []
  config := none
  grep _ _ := .ok ""

theorem crawl_pair : 1 ≤ 10 ∧ ∃ pages b,
    (crawlLoop 10 (.start "/a")).run (browse .pair) .fresh = (.ok pages, b) ∧
    Bfs.BreadthFirst Site.pair.links "/a" 10 (pages.map CrawledPage.url) ∧
    ∀ d ∈ b.dequeues, d.toVisit.Nodup ∧ d.visited.Disjoint d.toVisit :=
  ⟨by decide, crawl_breadthFirst .pair "/a" 10 (by decide)⟩

/-! ## The whole function -/

/-- The URLs that the loop navigates to on a site. -/
def loopNavigations (site : Site) (startUrl : String) (maxPages : Nat) : List String :=
  ((crawlLoop maxPages (.start startUrl)).run (browse site) .fresh).2.navigated

theorem loopNavigations_reachable (site : Site) (startUrl : String) (maxPages : Nat) :
    ∀ url ∈ loopNavigations site startUrl maxPages, Bfs.Reachable site.links startUrl url := by
  obtain ⟨pages, queue, b, hrun, hcrawling, -⟩ :=
    crawlLoop_run site startUrl maxPages (.start startUrl) .fresh .start
  rw [loopNavigations, hrun, hcrawling.navigated]
  exact fun url hurl => hcrawling.frontier.reachable url (List.mem_append_left _ hurl)

theorem loopNavigations_breadthFirst (site : Site) (startUrl : String) {maxPages : Nat}
    (hpos : 1 ≤ maxPages) :
    Bfs.BreadthFirst site.links startUrl maxPages (loopNavigations site startUrl maxPages) := by
  obtain ⟨pages, queue, b, hrun, hcrawling, hover⟩ :=
    crawlLoop_run site startUrl maxPages (.start startUrl) .fresh .start
  rw [loopNavigations, hrun, hcrawling.navigated]
  exact hcrawling.breadthFirst hpos hover

/-- The URLs that `runCrawl` navigates to on a site. -/
def navigations (ofText : String → Option ℚ) (site : Site) (startUrl repoPath : String) :
    List String :=
  ((runCrawl ofText startUrl repoPath).run (browse site) .fresh).2.navigated

/-- The operations that leave the browser where it is. -/
def Resting {ρ : Type} : CrawlOp ρ → Prop
  | .callTool _ => False
  | _ => True

theorem browse_resting (site : Site) {ρ : Type} (op : CrawlOp ρ) (h : Resting op) :
    Keeps Browser.navigated (browse site op) := by
  intro b
  cases op <;> first | rfl | exact h.elim

/-- Nothing after the loop navigates. -/
theorem finishCrawl_resting (repoPath : String) (result : Except String (List CrawledPage)) :
    (finishCrawl repoPath result).Only Resting := by
  refine .bind (.call trivial) (fun _ => .bind ?_ (fun pages => ?_))
  · trivial
  · exact .bind (scanRepoForAI_only (fun _ => trivial) keywords) (fun _ =>
      .bind (.call trivial) (fun _ => .pure _))

theorem navigations_eq (ofText : String → Option ℚ) (site : Site) (startUrl repoPath : String) :
    navigations ofText site startUrl repoPath =
      match maxPagesOf ofText site.config with
      | .ok maxPages => loopNavigations site startUrl maxPages
      | .error _ => [] := by
  rw [navigations, runCrawl]
  simp only [Proc.run_bind, Proc.run_call, Proc.run_attempt]
  rw [Prog.bind_ok (by rfl), Prog.bind_ok (by rfl)]
  cases hlimit : maxPagesOf ofText site.config with
  | error e => rfl
  | ok maxPages =>
    simp only [Proc.run]
    rw [Prog.bind_ok (by rfl), Prog.bind_ok (by rfl)]
    exact (finishCrawl_resting repoPath _).keeps (browse_resting site) _

end AutoQa.TestExecutor

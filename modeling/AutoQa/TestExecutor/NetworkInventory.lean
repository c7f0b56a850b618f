import AutoQa.Base.FirstSeen
import AutoQa.TestExecutor.Crawler
import AutoQa.TestExecutor.McpServer

/-!
# The network inventory

Only the listener writes the inventory, and it adds an endpoint once. So whatever the
requests do and whenever the responses arrive, the inventory holds the first response of
each endpoint, in order, and a later reading of it extends an earlier one.
-/

namespace AutoQa.TestExecutor

open AutoQa.Base AutoQa.LlmAgents

/-- What two responses must share to be one entry. -/
def Endpoint.key (n : Endpoint) : String × String := (n.url, n.method)

/-- The fetch and xhr responses that were heard. -/
def Server.apiResponses (s : Server) : List NetworkResponse := s.heard.filter NetworkResponse.isApi

/-- The inventory is the first response of each endpoint, in order. -/
def Server.FirstSeen (s : Server) : Prop :=
  Base.FirstSeen NetworkResponse.endpoint Endpoint.key s.networkInventory s.apiResponses

/-! ## One step -/

theorem sameEndpoint_eq (r : NetworkResponse) (n : Endpoint) :
    sameEndpoint r n = decide (n.key = r.endpoint.key) := by
  rw [Bool.eq_iff_iff]
  simp [sameEndpoint, Endpoint.key, NetworkResponse.endpoint]

theorem onResponse_extends (networkInventory : List Endpoint) (r : NetworkResponse) :
    networkInventory <+: onResponse networkInventory r := by
  unfold onResponse
  split
  · exact enter_extends _ _
  · exact List.prefix_rfl

theorem Server.FirstSeen.hear {s : Server} (h : s.FirstSeen) (r : NetworkResponse) :
    (s.hear r).FirstSeen := by
  unfold Server.hear
  split
  · cases hapi : r.isApi with
    | true =>
      have hall : (s.heard ++ [r]).filter NetworkResponse.isApi = s.apiResponses ++ [r] := by
        rw [List.filter_append, List.filter_singleton, hapi]
        rfl
      simp only [Server.FirstSeen, Server.apiResponses, onResponse, hapi, if_true, hall]
      exact Base.FirstSeen.enter sameEndpoint_eq h r
    | false =>
      have hall : (s.heard ++ [r]).filter NetworkResponse.isApi = s.apiResponses := by
        rw [List.filter_append, List.filter_singleton, hapi]
        exact List.append_nil _
      simp only [Server.FirstSeen, Server.apiResponses, onResponse, hapi, hall]
      exact h
  · exact h

/-- The inventory and what was heard. -/
def Server.memory (s : Server) : List Endpoint × List NetworkResponse :=
  (s.networkInventory, s.heard)

theorem Server.FirstSeen.of_memory {s t : Server} (h : s.FirstSeen) (heq : t.memory = s.memory) :
    t.FirstSeen := by
  obtain ⟨hinventory, hheard⟩ := Prod.mk.inj heq
  rw [Server.FirstSeen, Server.apiResponses, hinventory, hheard]
  exact h

/-- No operation of a request writes the inventory. -/
theorem answerOp_keeps (c : Chromium) {ρ : Type} (o : ServerOp ρ) :
    Keeps Server.memory (answerOp c o) := by
  have hattempt : ∀ (reply : Except String Unit) (f : Server → Server),
      (∀ s, (f s).memory = s.memory) → Keeps Server.memory (attemptOn reply f) := by
    intro reply f hf s
    cases reply with
    | error e => rfl
    | ok u => exact hf s
  intro s
  cases o with
  | launch => exact hattempt _ (fun s => { s with browser := true }) (fun _ => rfl) s
  | newContext => exact hattempt _ id (fun _ => rfl) s
  | newPage => exact hattempt _ (fun s => { s with page := true }) (fun _ => rfl) s
  | _ => rfl

/-! ## Every run of the server -/

theorem serverStep_firstSeen {c : Chromium} {screenshotPath : String} {s t : McpServer}
    {l : ServerStep} (h : s.server.FirstSeen) (hstep : serverStep c screenshotPath s l = some t) :
    t.server.FirstSeen := by
  cases l with
  | response r =>
    cases hstep
    exact h.hear r
  | request tool =>
    cases hstep
    exact h
  | resume i =>
    simp only [serverStep] at hstep
    split at hstep
    · cases hstep
      exact h.of_memory (answerOp_keeps c _ _)
    · cases hstep

theorem exec_firstSeen {c : Chromium} {screenshotPath : String} {steps : List ServerStep}
    {s : McpServer} (hrun : exec (serverStep c screenshotPath) .start steps = some s) :
    s.server.FirstSeen :=
  exec_keeps (I := fun s => s.server.FirstSeen) (fun _ _ _ => serverStep_firstSeen)
    Base.FirstSeen.nil hrun

/-! ## A crawl -/

/-- The server's tools that the crawler uses. -/
def CrawlTool.serverTool : CrawlTool → ServerTool
  | .navigate url => .navigate url
  | .a11ySnapshot => .a11ySnapshot
  | .getNetworkActivity => .getNetworkActivity
  | .evaluateLinks => .evaluate "Array.from(document.querySelectorAll('a[href]')).map(a => a.href).filter(h => h.startsWith(window.location.origin))"

/-- What surrounds a crawl: the browser, the responses that arrive before each operation,
and what the crawler's other operations return. -/
structure CrawlWorld where
  chromium : Chromium
  arrivals : Nat → List NetworkResponse
  screenshotPath : String
  others : {ρ : Type} → Nat → CrawlOp ρ → Except String ρ

section Crawl

variable (w : CrawlWorld)

/-- An operation of the server, behind the responses that arrive before it. -/
def serveOp {ρ : Type} (o : ServerOp ρ) : Prog Server ρ := fun s =>
  answerOp w.chromium o ((w.arrivals s.time).foldl Server.hear s)

/-- The crawler's operations: a tool call is a request to the server, of which the content
is read. -/
def crawlServer {ρ : Type} : CrawlOp ρ → Prog Server ρ
  | .callTool tool => do
      let result ← (handleRequest w.screenshotPath tool.serverTool).run (serveOp w)
      pure result.content
  | op => fun s => (w.others s.time op, s.tick)

/-- The server went on: what it has is first seen if it was, and extends what it had. -/
structure Later (s t : Server) : Prop where
  firstSeen : s.FirstSeen → t.FirstSeen
  extends_ : s.networkInventory <+: t.networkInventory

theorem Later.refl (s : Server) : Later s s := ⟨id, List.prefix_rfl⟩

theorem Later.trans {s t u : Server} (h : Later s t) (h' : Later t u) : Later s u :=
  ⟨fun hs => h'.firstSeen (h.firstSeen hs), h.extends_.trans h'.extends_⟩

theorem Later.of_memory {s t : Server} (h : t.memory = s.memory) : Later s t :=
  ⟨fun hs => hs.of_memory h, (Prod.mk.inj h).1 ▸ List.prefix_rfl⟩

theorem later_hear (s : Server) (r : NetworkResponse) : Later s (s.hear r) := by
  refine ⟨fun h => h.hear r, ?_⟩
  unfold Server.hear
  split
  · exact onResponse_extends _ _
  · exact List.prefix_rfl

theorem later_foldl (rs : List NetworkResponse) : ∀ s, Later s (rs.foldl Server.hear s) := by
  induction rs with
  | nil => exact .refl
  | cons r rs ih => exact fun s => (later_hear s r).trans (ih _)

theorem later_serveOp {ρ : Type} (o : ServerOp ρ) (s : Server) : Later s (serveOp w o s).2 :=
  (later_foldl _ s).trans (.of_memory (answerOp_keeps _ o _))

theorem later_serve {α : Type} (p : ServerProc α) (s : Server) : Later s (p.run (serveOp w) s).2 :=
  Proc.Only.rel (P := fun _ => True) (.all p (fun _ => trivial)) .refl .trans
    (fun o _ s => later_serveOp w o s) s

theorem crawlServer_callTool (tool : CrawlTool) : crawlServer w (.callTool tool) = (do
    let result ← (handleRequest w.screenshotPath tool.serverTool).run (serveOp w)
    pure result.content) := rfl

theorem Later.tick (s : Server) : Later s s.tick := .of_memory rfl

theorem later_crawlServer {ρ : Type} (op : CrawlOp ρ) (s : Server) :
    Later s (crawlServer w op s).2 := by
  cases op with
  | callTool tool =>
    have hlater := later_serve w (handleRequest w.screenshotPath tool.serverTool) s
    rw [crawlServer_callTool, Prog.bind_apply]
    cases hrun : (handleRequest w.screenshotPath tool.serverTool).run (serveOp w) s with
    | mk r t =>
    rw [hrun] at hlater
    cases r with
    | error e => exact hlater
    | ok result => exact hlater
  | connect => exact .tick s
  | readConfig => exact .tick s
  | dequeued currentUrl visited toVisit => exact .tick s
  | close => exact .tick s
  | grep keyword repoPath => exact .tick s
  | saveFeatureMap featureMap => exact .tick s

theorem later_crawl {α : Type} {p : CrawlProc α} {s t : Server} {r : Except String α}
    (h : p.run (crawlServer w) s = (r, t)) : Later s t := by
  have hlater := Proc.Only.rel (P := fun _ => True) (.all p (fun _ => trivial)) .refl .trans
    (fun op _ s => later_crawlServer w op s) s
  rwa [h] at hlater

/-- A reading of the inventory returns it as it is then. -/
theorem callTool_network {s t : Server} {endpoints : Json}
    (h : (callTool .getNetworkActivity).run (crawlServer w) s = (.ok endpoints, t)) :
    endpoints = inventoryJson t.networkInventory := by
  rw [callTool, Proc.run_bind, Proc.run_call] at h
  obtain ⟨content, u, hcall, hparse⟩ := Prog.bind_eq_ok h
  obtain ⟨result, v, hserved, hcontent⟩ := Prog.bind_eq_ok hcall
  rw [handleRequest, Proc.run_bind, Proc.run_tryCatch] at hserved
  obtain ⟨_, s', -, htool⟩ := Prog.bind_eq_ok hserved
  have hread : (runTool w.screenshotPath .getNetworkActivity).run (serveOp w) s'
      = (.ok ⟨false, [(inventoryJson (serveOp w .readInventory s').2.networkInventory).stringify 2]⟩,
          (serveOp w .readInventory s').2) := rfl
  rw [CrawlTool.serverTool, Prog.tryCatch_ok hread] at htool
  cases htool
  cases hcontent
  have hparsed : parseReply [(inventoryJson
      (serveOp w .readInventory s').2.networkInventory).stringify 2]
      = .ok (inventoryJson (serveOp w .readInventory s').2.networkInventory) := by
    simp [parseReply, Json.parse_stringify]
  simp only [Proc.run, hparsed, Prog.ofExcept_apply, Prod.mk.injEq, Except.ok.injEq] at hparse
  rw [← hparse.1, ← hparse.2]

/-- The entry of a page holds the inventory at some time during its visit. -/
theorem crawlPage_endpoints {currentUrl : String} {s t : Server} {page : CrawledPage}
    {links : List String}
    (h : (crawlPage currentUrl).run (crawlServer w) s = (.ok (page, links), t)) :
    ∃ inventory, page.endpoints = inventoryJson inventory ∧ s.networkInventory <+: inventory ∧
      inventory <+: t.networkInventory := by
  simp only [crawlPage, Proc.run_bind] at h
  obtain ⟨_, s₁, hnavigate, h⟩ := Prog.bind_eq_ok h
  obtain ⟨a11y, s₂, hsnapshot, h⟩ := Prog.bind_eq_ok h
  obtain ⟨endpoints, s₃, hnetwork, h⟩ := Prog.bind_eq_ok h
  have hbefore := ((later_crawl w hnavigate).trans (later_crawl w hsnapshot)).trans
    (later_crawl w hnetwork)
  obtain ⟨value, s₄, hlinks, h⟩ := Prog.bind_eq_ok h
  obtain ⟨_, s₅, hread, h⟩ := Prog.bind_eq_ok h
  have hafter := (later_crawl w hlinks).trans (later_crawl w hread)
  cases h
  exact ⟨s₃.networkInventory, callTool_network w hnetwork, hbefore.extends_, hafter.extends_⟩

/-- The entries hold inventories, each a continuation of the one before. -/
def Recorded (pages : List CrawledPage) (s : Server) : Prop :=
  ∃ inventories : List (List Endpoint),
    pages.map CrawledPage.endpoints = inventories.map inventoryJson ∧
      inventories.Pairwise (· <+: ·) ∧ ∀ inventory ∈ inventories, inventory <+: s.networkInventory

theorem Recorded.later {pages : List CrawledPage} {s t : Server} (h : Recorded pages s)
    (hlater : Later s t) : Recorded pages t := by
  obtain ⟨inventories, hpages, hchain, hall⟩ := h
  exact ⟨inventories, hpages, hchain, fun i hi => (hall i hi).trans hlater.extends_⟩

theorem Recorded.snoc {pages : List CrawledPage} {page : CrawledPage} {s t : Server}
    {inventory : List Endpoint} (h : Recorded pages s)
    (hpage : page.endpoints = inventoryJson inventory)
    (hbefore : s.networkInventory <+: inventory) (hafter : inventory <+: t.networkInventory) :
    Recorded (pages ++ [page]) t := by
  obtain ⟨inventories, hpages, hchain, hall⟩ := h
  refine ⟨inventories ++ [inventory], by simp [hpages, hpage], ?_, ?_⟩
  · rw [List.pairwise_append]
    refine ⟨hchain, List.pairwise_singleton _ _, ?_⟩
    intro i hi j hj
    rw [List.mem_singleton.mp hj]
    exact (hall i hi).trans hbefore
  · intro i hi
    rcases List.mem_append.mp hi with hi | hi
    · exact (hall i hi).trans (hbefore.trans hafter)
    · rw [List.mem_singleton.mp hi]
      exact hafter

theorem crawlLoop_recorded (maxPages : Nat) (state : CrawlState) :
    ∀ (s t : Server) (pages : List CrawledPage), Recorded state.discoveredPages s →
      (crawlLoop maxPages state).run (crawlServer w) s = (.ok pages, t) → Recorded pages t := by
  induction state using crawlLoop.induct maxPages with
  | case1 visited discoveredPages =>
    intro s t pages h hrun
    rw [crawlLoop] at hrun
    cases hrun
    exact h
  | case2 visited currentUrl toVisit discoveredPages hmore hvisited ih =>
    intro s t pages h hrun
    rw [crawlLoop, if_pos hmore, if_pos hvisited, Proc.run_bind] at hrun
    obtain ⟨_, u, hdequeued, hrun⟩ := Prog.bind_eq_ok hrun
    exact ih _ _ _ (h.later (later_crawl w hdequeued)) hrun
  | case3 visited currentUrl toVisit discoveredPages hmore hvisited visited' ih =>
    intro s t pages h hrun
    rw [crawlLoop, if_pos hmore, if_neg hvisited, Proc.run_bind] at hrun
    obtain ⟨_, u, hdequeued, hrun⟩ := Prog.bind_eq_ok hrun
    rw [Proc.run_bind] at hrun
    obtain ⟨⟨page, links⟩, v, hpage, hrun⟩ := Prog.bind_eq_ok hrun
    obtain ⟨inventory, hendpoints, hbefore, hafter⟩ := crawlPage_endpoints w hpage
    exact ih _ _ _ _ _ ((h.later (later_crawl w hdequeued)).snoc hendpoints hbefore hafter) hrun
  | case4 visited currentUrl toVisit discoveredPages hmore =>
    intro s t pages h hrun
    rw [crawlLoop, if_neg hmore] at hrun
    cases hrun
    exact h

theorem runCrawl_recorded {ofText : String → Option ℚ} {startUrl repoPath : String}
    {featureMap : FeatureMap} {t : Server}
    (h : (runCrawl ofText startUrl repoPath).run (crawlServer w) .start = (.ok featureMap, t)) :
    t.FirstSeen ∧ Recorded featureMap.pages t := by
  refine ⟨(later_crawl w h).firstSeen Base.FirstSeen.nil, ?_⟩
  simp only [runCrawl, Proc.run_bind, Proc.run_attempt] at h
  obtain ⟨_, s₁, -, h⟩ := Prog.bind_eq_ok h
  obtain ⟨file, s₂, -, h⟩ := Prog.bind_eq_ok h
  obtain ⟨maxPages, s₃, -, h⟩ := Prog.bind_eq_ok h
  obtain ⟨result, s₄, hloop, h⟩ := Prog.bind_eq_ok h
  simp only [finishCrawl, Proc.run_bind] at h
  obtain ⟨_, s₅, hclose, h⟩ := Prog.bind_eq_ok h
  obtain ⟨pages, s₆, hpages, h⟩ := Prog.bind_eq_ok h
  obtain ⟨integrations, s₇, hscan, h⟩ := Prog.bind_eq_ok h
  obtain ⟨_, s₈, hsave, h⟩ := Prog.bind_eq_ok h
  cases h
  cases hpages
  have hrun : (crawlLoop maxPages (.start startUrl)).run (crawlServer w) s₃ = (.ok pages, s₄) := by
    obtain ⟨hresult, hstate⟩ := Prod.mk.inj hloop
    exact Prod.ext (Except.ok.inj hresult) hstate
  have hnone : Recorded (CrawlState.start startUrl).discoveredPages s₃ := ⟨[], rfl, .nil, by simp⟩
  have hafter := ((later_crawl w hclose).trans (later_crawl w hscan)).trans (later_crawl w hsave)
  exact (crawlLoop_recorded w maxPages _ _ _ _ hnone hrun).later hafter

end Crawl

/-- **The network inventory is a first-seen set.** In every run of the server it holds the
first of the fetch and xhr responses of each endpoint, in order. The lists that a crawl
records for its pages have no endpoint twice, and each continues the one before. -/
theorem network_inventory_first_seen :
    (∀ (c : Chromium) (screenshotPath : String) (steps : List ServerStep) (s : McpServer),
      exec (serverStep c screenshotPath) .start steps = some s →
        Base.FirstSeen NetworkResponse.endpoint Endpoint.key s.server.networkInventory
          (s.server.heard.filter NetworkResponse.isApi)) ∧
    (∀ (w : CrawlWorld) (ofText : String → Option ℚ) (startUrl repoPath : String)
      (featureMap : FeatureMap) (t : Server),
      (runCrawl ofText startUrl repoPath).run (crawlServer w) .start = (.ok featureMap, t) →
        ∃ inventories : List (List Endpoint),
          featureMap.pages.map CrawledPage.endpoints = inventories.map inventoryJson ∧
            inventories.Pairwise (· <+: ·) ∧
            ∀ inventory ∈ inventories, (inventory.map Endpoint.key).Nodup) := by
  constructor
  · intro c screenshotPath steps s hrun
    exact exec_firstSeen hrun
  · intro w ofText startUrl repoPath featureMap t hrun
    obtain ⟨hseen, inventories, hpages, hchain, hall⟩ := runCrawl_recorded w hrun
    refine ⟨inventories, hpages, hchain, ?_⟩
    intro inventory hinventory
    exact ((hall inventory hinventory).map Endpoint.key).sublist.nodup hseen.nodup

/-- A browser in which every call succeeds; its pages have no elements and one link. -/
def calmChromium : Chromium where
  launch _ := .ok ()
  newContext _ := .ok ()
  newPage _ := .ok ()
  onPage := fun _ tool =>
    match tool with
    | .evaluate _ => .ok "[\"/cart\"]"
    | _ => .ok "[]"

/-- Pages whose script asks for `/api` again and again; the second one asks for the cart. -/
def pollingWorld : CrawlWorld where
  chromium := calmChromium
  arrivals time := [⟨.fetch, "/api", "GET", 200⟩, ⟨.other "image", "/logo.png", "GET", 200⟩]
    ++ if time < 15 then [] else [⟨.xhr, "/api/cart", "GET", 200⟩]
  screenshotPath := "/final.png"
  others := fun _ op =>
    match op with
    | .connect => .ok ()
    | .readConfig => .ok none
    | .dequeued _ _ _ => .ok ()
    | .callTool _ => .ok []
    | .close => .ok ()
    | .grep _ _ => .ok ""
    | .saveFeatureMap _ => .ok ()

/-- How many entries a list has. -/
def entryCount : Json → Nat
  | .arr items => items.length
  | _ => 0

/-- How many endpoints a visit records, and the links that it finds. -/
def visitView (visit : Except String (CrawledPage × List String)) : Option (Nat × List String) :=
  visit.toOption.map fun result => (entryCount result.1.endpoints, result.2)

theorem of_visitView {visit : Except String (CrawledPage × List String)} {n : Nat}
    {links : List String} (h : visitView visit = some (n, links)) :
    ∃ page, visit = .ok (page, links) ∧ entryCount page.endpoints = n := by
  cases visit with
  | error message => cases h
  | ok result =>
    obtain ⟨hcount, hlinks⟩ := Prod.mk.inj (Option.some.inj h)
    exact ⟨result.1, by rw [← hlinks], hcount⟩

/-- The loop goes on after a page. -/
theorem polling_iteration {currentUrl : String} {visited toVisit links : List String}
    {pages : List CrawledPage} {page : CrawledPage} {s t : Server} (hroom : pages.length < 10)
    (hnew : currentUrl ∉ visited)
    (hpage : (crawlPage currentUrl).run (crawlServer pollingWorld) s.tick = (.ok (page, links), t)) :
    (crawlLoop 10 ⟨visited, currentUrl :: toVisit, pages⟩).run (crawlServer pollingWorld) s
      = (crawlLoop 10 ⟨visited ++ [currentUrl], Bfs.enqueue (visited ++ [currentUrl]) toVisit links,
          pages ++ [page]⟩).run (crawlServer pollingWorld) t := by
  have hdequeued : crawlServer pollingWorld (.dequeued currentUrl (visited ++ [currentUrl]) toVisit) s
      = (.ok (), s.tick) := rfl
  rw [crawlLoop, if_pos hroom, if_neg hnew, Proc.run_bind, Proc.run_call, Prog.bind_ok hdequeued,
    Proc.run_bind, Prog.bind_ok hpage]

/-- The server when the loop begins. -/
def connected : Server := ⟨false, false, [], [], 2⟩

def firstVisit : Except String (CrawledPage × List String) × Server :=
  (crawlPage "/").run (crawlServer pollingWorld) connected.tick

def secondVisit : Except String (CrawledPage × List String) × Server :=
  (crawlPage "/cart").run (crawlServer pollingWorld) firstVisit.2.tick

theorem polling_loop : ∃ pages t,
    (crawlLoop 10 (.start "/")).run (crawlServer pollingWorld) connected = (.ok pages, t) ∧
      pages.map (fun page => entryCount page.endpoints) = [1, 2] := by
  have hviews : visitView firstVisit.1 = some (1, ["/cart"]) ∧
      visitView secondVisit.1 = some (2, ["/cart"]) := by
    decide +kernel
  obtain ⟨home, hhome, hone⟩ := of_visitView hviews.1
  obtain ⟨cart, hcart, htwo⟩ := of_visitView hviews.2
  have hfirst : (crawlPage "/").run (crawlServer pollingWorld) connected.tick
      = (.ok (home, ["/cart"]), firstVisit.2) := by
    show firstVisit = _
    rw [← hhome]
  have hsecond : (crawlPage "/cart").run (crawlServer pollingWorld) firstVisit.2.tick
      = (.ok (cart, ["/cart"]), secondVisit.2) := by
    show secondVisit = _
    rw [← hcart]
  refine ⟨[home, cart], secondVisit.2, ?_, by
    rw [List.map_cons, List.map_singleton, hone, htwo]⟩
  have hqueue : Bfs.enqueue ([] ++ ["/"]) [] ["/cart"] = ["/cart"] := by decide
  have hempty : Bfs.enqueue ([] ++ ["/"] ++ ["/cart"]) [] ["/cart"] = [] := by decide
  rw [CrawlState.start, polling_iteration (by decide) (by decide) hfirst, hqueue,
    polling_iteration (by simp) (by decide) hsecond, hempty, crawlLoop]
  rfl

theorem polling_finish (pages : List CrawledPage) (t : Server) : ∃ featureMap u,
    (finishCrawl "/repo" (.ok pages)).run (crawlServer pollingWorld) t = (.ok featureMap, u) ∧
      featureMap.pages = pages :=
  ⟨_, _, rfl, rfl⟩

theorem polling_crawl : ∃ featureMap t,
    (runCrawl (fun _ => none) "/" "/repo").run (crawlServer pollingWorld) .start
      = (.ok featureMap, t) ∧
    featureMap.pages.map (fun page => entryCount page.endpoints) = [1, 2] := by
  obtain ⟨pages, t, hloop, hcounts⟩ := polling_loop
  obtain ⟨featureMap, u, hfinish, hpages⟩ := polling_finish pages t
  refine ⟨featureMap, u, ?_, by rw [hpages]; exact hcounts⟩
  simp only [runCrawl, Proc.run_bind, Proc.run_attempt]
  rw [Prog.bind_ok (by rfl), Prog.bind_ok (by rfl), Prog.bind_ok (by rfl)]
  have hattempt : Prog.attempt ((crawlLoop 10 (.start "/")).run (crawlServer pollingWorld)) connected
      = (.ok (.ok pages), t) := by
    rw [Prog.attempt, hloop]
  exact (Prog.bind_ok hattempt).trans hfinish

/-- A request that starts the browser, and responses of which the third repeats the first. -/
def pollingSteps : List ServerStep :=
  [.response ⟨.fetch, "/early", "GET", 200⟩, .request (.navigate "/"), .resume 0, .resume 0,
    .resume 0, .resume 0, .response ⟨.fetch, "/api", "GET", 200⟩,
    .response ⟨.other "document", "/", "GET", 200⟩, .response ⟨.xhr, "/api", "GET", 500⟩,
    .response ⟨.fetch, "/api", "POST", 201⟩]

/-- Such a run, and a crawl of two pages: the inventory grows between them. -/
theorem polling_first_seen :
    (∃ s, exec (serverStep calmChromium "/final.png") .start pollingSteps = some s ∧
      s.server.networkInventory = [⟨"/api", "GET", 200⟩, ⟨"/api", "POST", 201⟩] ∧
      Base.FirstSeen NetworkResponse.endpoint Endpoint.key s.server.networkInventory
        (s.server.heard.filter NetworkResponse.isApi)) ∧
    (∃ featureMap t, (runCrawl (fun _ => none) "/" "/repo").run (crawlServer pollingWorld) .start
        = (.ok featureMap, t) ∧
      featureMap.pages.map (fun page => entryCount page.endpoints) = [1, 2] ∧
      ∃ inventories : List (List Endpoint),
        featureMap.pages.map CrawledPage.endpoints = inventories.map inventoryJson ∧
          inventories.Pairwise (· <+: ·) ∧
          ∀ inventory ∈ inventories, (inventory.map Endpoint.key).Nodup) := by
  obtain ⟨featureMap, t, hrun, hpages⟩ := polling_crawl
  exact ⟨⟨_, rfl, rfl, network_inventory_first_seen.1 calmChromium "/final.png" pollingSteps _ rfl⟩,
    featureMap, t, hrun, hpages, network_inventory_first_seen.2 _ _ _ _ _ _ hrun⟩

end AutoQa.TestExecutor

import AutoQa.Base.Bfs
import AutoQa.Base.Proc
import AutoQa.LlmAgents.Providers
import Mathlib.Algebra.Order.Floor.Semiring
import Mathlib.Data.Rat.Floor

/-!
# The discovery crawler

`runCrawl` (`crawler.ts`) as a process over the tool server. `browse` answers
it from a site: the browser stays on the page it last navigated to, and every
call succeeds.
-/

namespace AutoQa.TestExecutor

open AutoQa.Base AutoQa.Base.Text AutoQa.LlmAgents

/-! ## The operations -/

/-- The tools the crawler calls, with the arguments that vary. -/
inductive CrawlTool where
  | navigate (url : String)
  | a11ySnapshot
  | getNetworkActivity
  /-- `playwright_evaluate` of `Array.from(document.querySelectorAll('a[href]'))
  .map(a => a.href).filter(h => h.startsWith(window.location.origin))`. -/
  | evaluateLinks
  deriving DecidableEq, Repr

/-- An entry of `pages` in the feature map. -/
structure CrawledPage where
  url : String
  a11y : Json
  endpoints : Json

/-- An entry of `integrations`. -/
structure Integration where
  keyword : String
  findings : List String
  deriving DecidableEq, Repr

structure FeatureMap where
  pages : List CrawledPage
  integrations : List Integration

inductive CrawlOp : Type → Type where
  | connect : CrawlOp Unit
  /-- The text of `d-bug.config.json`, `none` when there is no such file. -/
  | readConfig : CrawlOp (Option String)
  /-- The loop took a URL off the queue; its variables after that. -/
  | dequeued (currentUrl : String) (visited toVisit : List String) : CrawlOp Unit
  /-- `callTool`; the reply is the texts of its content. -/
  | callTool (tool : CrawlTool) : CrawlOp (List String)
  | close : CrawlOp Unit
  | grep (keyword repoPath : String) : CrawlOp String
  | saveFeatureMap (featureMap : FeatureMap) : CrawlOp Unit

abbrev CrawlProc := Proc CrawlOp

/-! ## The page limit -/

/-- The value of a decimal literal. -/
def numberValue (n : Number) : ℚ :=
  (if n.neg then -1 else 1) * (n.frac.foldl (fun acc d => acc * 10 + d.val) n.int : Nat)
    * 10 ^ (n.exp - n.frac.length)

/-- `Number(v)`, where `ofText` reads a string; `none` is `NaN`. -/
def toNumber (ofText : String → Option ℚ) : Json → Option ℚ
  | .null => some 0
  | .bool b => some (if b then 1 else 0)
  | .num n => some (numberValue n)
  | v => ofText v.toText

/-- The number of pages up to which `discoveredPages.length < maxPages` holds. -/
def pageLimit : Option ℚ → Nat
  | some q => ⌈q⌉₊
  | none => 0

/-- `conf.audit?.maxPages || 10`. -/
def maxPagesOf (ofText : String → Option ℚ) (file : Option String) : Except String Nat :=
  match file with
  | none => .ok 10
  | some text =>
    match Json.parse text with
    | none => .error "Unexpected token in JSON"
    | some conf =>
      (readField conf "audit").map fun audit =>
        match audit.bind (Json.member "maxPages") with
        | some v => if v.truthy then pageLimit (toNumber ofText v) else 10
        | none => 10

/-! ## The loop -/

/-- `JSON.parse(result.content[0].text)`. -/
def parseReply (content : List String) : Except String Json :=
  match content with
  | [] => .error "Cannot read properties of undefined (reading 'text')"
  | text :: _ =>
    match Json.parse text with
    | some v => .ok v
    | none => .error "Unexpected token in JSON"

def callTool (tool : CrawlTool) : CrawlProc Json := do
  let content ← Proc.call (.callTool tool)
  .done (parseReply content)

/-- `for (const link of links)`: the evaluated expression is a list of strings. -/
def linksOf : Json → Except String (List String)
  | .arr items => items.mapM fun
      | .str s => .ok s
      | _ => .error "links holds a value that is not a string"
  | _ => .error "links is not iterable"

structure CrawlState where
  visited : List String
  toVisit : List String
  discoveredPages : List CrawledPage

def CrawlState.start (startUrl : String) : CrawlState := ⟨[], [startUrl], []⟩

/-- What an iteration does with a URL it has not visited: the page and its links. -/
def crawlPage (currentUrl : String) : CrawlProc (CrawledPage × List String) := do
  let _ ← Proc.call (.callTool (.navigate currentUrl))
  let a11y ← callTool .a11ySnapshot
  let endpoints ← callTool .getNetworkActivity
  let links ← callTool .evaluateLinks
  let links ← (.done (linksOf links) : CrawlProc (List String))
  pure ({ url := currentUrl, a11y, endpoints }, links)

/-- `while (toVisit.length > 0 && discoveredPages.length < maxPages)`. -/
def crawlLoop (maxPages : Nat) : CrawlState → CrawlProc (List CrawledPage)
  | ⟨_, [], discoveredPages⟩ => pure discoveredPages
  | ⟨visited, currentUrl :: toVisit, discoveredPages⟩ =>
    if discoveredPages.length < maxPages then
      if currentUrl ∈ visited then do
        Proc.call (.dequeued currentUrl visited toVisit)
        crawlLoop maxPages ⟨visited, toVisit, discoveredPages⟩
      else do
        let visited := visited ++ [currentUrl]
        Proc.call (.dequeued currentUrl visited toVisit)
        let (page, links) ← crawlPage currentUrl
        crawlLoop maxPages
          ⟨visited, Bfs.enqueue visited toVisit links, discoveredPages ++ [page]⟩
    else pure discoveredPages
termination_by s => (maxPages - s.discoveredPages.length, s.toVisit.length)
decreasing_by
  · simp [Prod.lex_def]
  · simp [Prod.lex_def]
    omega

/-! ## The function -/

def keywords : List String :=
  ["@anthropic-ai/sdk", "openai", "@google/genai", "api.openai.com", "api.anthropic.com",
    "generativelanguage.googleapis.com"]

/-- The keywords that occur in the repository, each with up to five lines; a
command that throws counts as no line. -/
def scanRepoForAI (repoPath : String) : List String → CrawlProc (List Integration)
  | [] => pure []
  | keyword :: rest => do
      let result ← (Proc.call (.grep keyword repoPath)).attempt
      let others ← scanRepoForAI repoPath rest
      match result with
      | .ok text =>
          if trim text = "" then pure others
          else pure ({ keyword, findings := (split (trim text) '\n').take 5 } :: others)
      | .error _ => pure others

/-- What follows the loop, which returned its pages or threw. -/
def finishCrawl (repoPath : String) (result : Except String (List CrawledPage)) :
    CrawlProc FeatureMap := do
  Proc.call .close
  let pages ← (.done result : CrawlProc (List CrawledPage))
  let integrations ← scanRepoForAI repoPath keywords
  let featureMap := { pages, integrations }
  Proc.call (.saveFeatureMap featureMap)
  pure featureMap

def runCrawl (ofText : String → Option ℚ) (startUrl repoPath : String) : CrawlProc FeatureMap := do
  Proc.call .connect
  let file ← Proc.call .readConfig
  let maxPages ← (.done (maxPagesOf ofText file) : CrawlProc Nat)
  let result ← (crawlLoop maxPages (.start startUrl)).attempt
  finishCrawl repoPath result

/-! ## The operations of each part -/

section Only

variable {P : {ρ : Type} → CrawlOp ρ → Prop}

theorem crawlPage_only (htool : ∀ tool, P (.callTool tool)) (currentUrl : String) :
    (crawlPage currentUrl).Only P := by
  have hread : ∀ tool, (callTool tool).Only P := fun tool =>
    .bind (.call (htool tool)) (fun _ => trivial)
  exact .bind (.call (htool _)) (fun _ => .bind (hread _) (fun _ => .bind (hread _) (fun _ =>
    .bind (hread _) (fun _ => .bind trivial (fun _ => .pure _)))))

theorem crawlLoop_only (hdequeued : ∀ url visited toVisit, P (.dequeued url visited toVisit))
    (htool : ∀ tool, P (.callTool tool)) (maxPages : Nat) (s : CrawlState) :
    (crawlLoop maxPages s).Only P := by
  induction s using crawlLoop.induct maxPages with
  | case1 visited discoveredPages =>
    rw [crawlLoop]
    exact .pure _
  | case2 visited currentUrl toVisit discoveredPages hmore hvisited ih =>
    rw [crawlLoop, if_pos hmore, if_pos hvisited]
    exact .bind (.call (hdequeued _ _ _)) (fun _ => ih)
  | case3 visited currentUrl toVisit discoveredPages hmore hvisited visited' ih =>
    rw [crawlLoop, if_pos hmore, if_neg hvisited]
    exact .bind (.call (hdequeued _ _ _)) (fun _ =>
      .bind (crawlPage_only htool currentUrl) (fun _ => ih _ _))
  | case4 visited currentUrl toVisit discoveredPages hmore =>
    rw [crawlLoop, if_neg hmore]
    exact .pure _

theorem scanRepoForAI_only {repoPath : String} (hgrep : ∀ keyword, P (.grep keyword repoPath))
    (keywords : List String) : (scanRepoForAI repoPath keywords).Only P := by
  induction keywords with
  | nil => exact .pure _
  | cons keyword rest ih =>
    refine .bind (.attempt (.call (hgrep keyword))) (fun result => .bind ih (fun others => ?_))
    split
    · split
      · exact .pure _
      · exact .pure _
    · exact .pure _

end Only

end AutoQa.TestExecutor

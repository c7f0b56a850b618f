import AutoQa.TestExecutor.CrawlOrder
import Mathlib.Data.List.DropRight
import Mathlib.Data.Set.Finite.Lattice

/-!
# The origin of what the crawler visits

The crawler follows a link whose text begins with the origin of the page it
stands on. The text of an origin ends where its host or port ends, which a
longer host, a longer port or credentials can go beyond.
-/

namespace AutoQa.TestExecutor

open AutoQa.Base AutoQa.Base.Text AutoQa.LlmAgents

/-! ## Origins -/

/-- The schemes of URLs that have an origin of scheme, host and port. -/
def originSchemes : List String := ["http", "https", "ws", "wss", "ftp"]

/-- The characters that end the authority of such a URL. -/
def endsAuthority (c : Char) : Bool := c == '/' || c == '?' || c == '#' || c == '\\'

/-- A scheme and a host with its port, as a serialised URL writes them: in lower
case, without a default port. -/
@[ext]
structure Origin where
  scheme : List Char
  host : List Char
  knownScheme : String.ofList scheme ∈ originSchemes
  plainHost : ∀ c ∈ host, endsAuthority c = false ∧ c ≠ '@'
  deriving DecidableEq

/-- The characters of `window.location.origin`. -/
def Origin.chars (o : Origin) : List Char := o.scheme ++ ':' :: '/' :: '/' :: o.host

def Origin.text (o : Origin) : String := String.ofList o.chars

/-- The host and port of a URL whose authority starts `cs`: what stands after
the credentials. -/
def hostOf (cs : List Char) : List Char :=
  (cs.takeWhile fun c => !endsAuthority c).rtakeWhile (· != '@')

theorem hostOf_plain (cs : List Char) : ∀ c ∈ hostOf cs, endsAuthority c = false ∧ c ≠ '@' := by
  intro c hc
  have hauthority := List.mem_takeWhile_imp ((List.rtakeWhile_suffix _ _).subset hc)
  have hat := List.mem_rtakeWhile_imp hc
  exact ⟨by simpa using hauthority, by simpa using hat⟩

/-- The origin of a serialised URL; `none` when it is opaque. -/
def originOf (url : String) : Option Origin :=
  let scheme := url.toList.takeWhile (· != ':')
  match url.toList.dropWhile (· != ':') with
  | ':' :: '/' :: '/' :: rest =>
      if hscheme : String.ofList scheme ∈ originSchemes then
        some ⟨scheme, hostOf rest, hscheme, hostOf_plain rest⟩
      else none
  | _ => none

/-- What the authority of a URL that begins with the text of `o` adds to it. -/
def addedAuthority (o : Origin) (url : String) : List Char :=
  (url.toList.drop o.chars.length).takeWhile fun c => !endsAuthority c

/-- The URL begins with the text of `o` and goes on to another host or port. It
comes back to the host of `o` if the text of `o` was taken for credentials. -/
def Strays (o : Origin) (url : String) : Prop :=
  startsWith url o.text = true ∧ addedAuthority o url ≠ [] ∧
    ¬ '@' :: o.host <:+ addedAuthority o url

instance (o : Origin) (url : String) : Decidable (Strays o url) :=
  inferInstanceAs (Decidable (_ ∧ _ ∧ ¬ _))

theorem scheme_no_colon (o : Origin) : ∀ c ∈ o.scheme, (c != ':') = true := by
  have hall : ∀ scheme ∈ originSchemes, ∀ c ∈ scheme.toList, (c != ':') = true := by
    simp [originSchemes]
  intro c hc
  exact hall _ o.knownScheme c (by simpa using hc)

theorem bne_at {cs : List Char} (h : '@' ∉ cs) : ∀ c ∈ cs, (c != '@') = true := by
  intro c hc
  rw [bne_iff_ne]
  rintro rfl
  exact h hc

/-- What follows the last `@`. -/
theorem rtakeWhile_at (cs : List Char) {host : List Char} (h : '@' ∉ host) :
    (cs ++ '@' :: host).rtakeWhile (· != '@') = host := by
  have hrev : ∀ c ∈ host.reverse, (c != '@') = true := bne_at (by simpa using h)
  simp [List.rtakeWhile, List.takeWhile_append_of_pos hrev]

theorem exists_last_at {cs : List Char} (h : '@' ∈ cs) :
    ∃ front back, cs = front ++ '@' :: back ∧ '@' ∉ back := by
  obtain ⟨back, front, heq, hback⟩ := List.eq_append_cons_of_mem (List.mem_reverse.mpr h)
  refine ⟨front.reverse, back.reverse, ?_, by simpa using hback⟩
  rw [← List.reverse_reverse cs, heq]
  simp

theorem hostOf_append {host : List Char} (hplain : ∀ c ∈ host, endsAuthority c = false ∧ c ≠ '@')
    (rest : List Char) :
    hostOf (host ++ rest) = host ↔
      rest.takeWhile (fun c => !endsAuthority c) = [] ∨
        '@' :: host <:+ rest.takeWhile fun c => !endsAuthority c := by
  have hnot : '@' ∉ host := fun h => (hplain _ h).2 rfl
  have hauthority : ∀ c ∈ host, (!endsAuthority c) = true := fun c hc => by simp [(hplain c hc).1]
  rw [hostOf, List.takeWhile_append_of_pos hauthority]
  generalize rest.takeWhile (fun c => !endsAuthority c) = added
  constructor
  · intro heq
    by_cases hat : '@' ∈ added
    · obtain ⟨front, back, rfl, hback⟩ := exists_last_at hat
      rw [← List.append_assoc, rtakeWhile_at _ hback] at heq
      exact .inr ⟨front, by rw [heq]⟩
    · have hself : (host ++ added).rtakeWhile (· != '@') = host ++ added := by
        rw [List.rtakeWhile_eq_self_iff]
        intro c hc
        rcases List.mem_append.mp hc with hc | hc
        · exact bne_at hnot c hc
        · exact bne_at hat c hc
      exact .inl (by simpa [hself] using heq)
  · rintro (rfl | ⟨front, rfl⟩)
    · rw [List.append_nil, List.rtakeWhile_eq_self_iff]
      exact bne_at hnot
    · rw [← List.append_assoc, rtakeWhile_at _ hnot]

theorem startsWith_iff {s p : String} :
    startsWith s p = true ↔ ∃ rest, s.toList = p.toList ++ rest := by
  rw [startsWith, List.isPrefixOf_iff_prefix]
  exact ⟨fun ⟨rest, h⟩ => ⟨rest, h.symm⟩, fun ⟨rest, h⟩ => ⟨rest, h.symm⟩⟩

/-- Which URLs with the text of an origin in front have that origin. -/
theorem originOf_eq_iff (o : Origin) {url : String} (hbegins : startsWith url o.text = true) :
    originOf url = some o ↔ ¬ Strays o url := by
  obtain ⟨rest, hrest⟩ := startsWith_iff.mp hbegins
  have hchars : url.toList = o.scheme ++ ':' :: '/' :: '/' :: (o.host ++ rest) := by
    rw [hrest]
    simp [Origin.text, Origin.chars]
  have hadded : addedAuthority o url = rest.takeWhile fun c => !endsAuthority c := by
    rw [addedAuthority, hrest, Origin.text, String.toList_ofList, List.drop_left]
  have hscheme : url.toList.takeWhile (· != ':') = o.scheme := by
    rw [hchars, List.takeWhile_append_of_pos (scheme_no_colon o)]
    simp
  have htail : url.toList.dropWhile (· != ':') = ':' :: '/' :: '/' :: (o.host ++ rest) := by
    rw [hchars, List.dropWhile_append_of_pos (scheme_no_colon o)]
    simp
  have horigin : originOf url = some o ↔ hostOf (o.host ++ rest) = o.host := by
    simp only [originOf, htail, hscheme, o.knownScheme, dite_true, Option.some.injEq,
      Origin.ext_iff, true_and]
  rw [horigin, hostOf_append o.plainHost, Strays, hadded]
  simp only [hbegins, true_and]
  tauto

/-! ## The crawl -/

/-- What the pages at all URLs link to, without redirects. -/
structure Web where
  /-- The serialisation of the URL that a string parses to, which is the location
  of the browser after it navigated to the string. -/
  serialize : String → String
  /-- `a.href` of every link on the page. -/
  hrefs : String → List String
  /-- An `href` is the serialisation of a URL, and parsing it gives that URL again. -/
  serialized : ∀ url, ∀ href ∈ hrefs url, serialize href = href

namespace Web

variable (web : Web)

def origin (url : String) : Option Origin := originOf (web.serialize url)

/-- `window.location.origin` on the page at a URL. -/
def locationOrigin (url : String) : String :=
  match web.origin url with
  | some o => o.text
  | none => "null"

/-- The link expression. -/
def links (url : String) : List String :=
  (web.hrefs url).filter fun href => startsWith href (web.locationOrigin url)

/-- A site of this web, with a configuration. -/
def site (rest : Site) (config : Option String) : Site := { rest with links := web.links, config }

/-- The links that begin with the text of `o` and have that origin. -/
def internal (o : Origin) (url : String) : List String :=
  (web.hrefs url).filter fun href => startsWith href o.text && !decide (Strays o href)

/-- No page that such links lead to has a link that strays. -/
def Confined (o : Origin) (startUrl : String) : Prop :=
  ∀ url, Bfs.Reachable (web.internal o) startUrl url → ∀ href ∈ web.hrefs url, ¬ Strays o href

variable {web} {o : Origin} {startUrl : String}

theorem mem_links {url href : String} (h : web.origin url = some o) :
    href ∈ web.links url ↔ href ∈ web.hrefs url ∧ startsWith href o.text = true := by
  simp [links, locationOrigin, h]

theorem mem_internal {url href : String} :
    href ∈ web.internal o url ↔
      href ∈ web.hrefs url ∧ startsWith href o.text = true ∧ ¬ Strays o href := by
  simp [internal]

theorem origin_href {url href : String} (h : href ∈ web.hrefs url) :
    web.origin href = originOf href := by
  rw [origin, web.serialized url href h]

/-- The crawler follows every internal link. -/
theorem reachable_of_internal (hstart : web.origin startUrl = some o) {url : String}
    (h : Bfs.Reachable (web.internal o) startUrl url) :
    Bfs.Reachable web.links startUrl url ∧ web.origin url = some o := by
  obtain ⟨n, hwalk⟩ := h
  induction hwalk with
  | start => exact ⟨⟨0, .start⟩, hstart⟩
  | link hwalk hy ih =>
    obtain ⟨hreach, horigin⟩ := ih
    obtain ⟨hhref, hbegins, hstays⟩ := mem_internal.mp hy
    refine ⟨hreach.link ((mem_links horigin).mpr ⟨hhref, hbegins⟩), ?_⟩
    rw [origin_href hhref]
    exact (originOf_eq_iff o hbegins).mpr hstays

/-- Where no link strays, the crawler follows internal links only. -/
theorem internal_of_reachable (hstart : web.origin startUrl = some o)
    (hconfined : web.Confined o startUrl) {url : String}
    (h : Bfs.Reachable web.links startUrl url) :
    Bfs.Reachable (web.internal o) startUrl url := by
  obtain ⟨n, hwalk⟩ := h
  induction hwalk with
  | start => exact ⟨0, .start⟩
  | link hwalk hy ih =>
    obtain ⟨hhref, hbegins⟩ := (mem_links (reachable_of_internal hstart ih).2).mp hy
    exact ih.link (mem_internal.mpr ⟨hhref, hbegins, hconfined _ ih _ hhref⟩)

end Web

/-- A configuration that sets the page limit. -/
def limitConfig (maxPages : Nat) : String :=
  Json.stringify (.obj [("audit", .obj [("maxPages", .num ⟨false, maxPages, [], 0⟩)])]) 2

theorem maxPagesOf_limitConfig (ofText : String → Option ℚ) {maxPages : Nat} (h : 1 ≤ maxPages) :
    maxPagesOf ofText (some (limitConfig maxPages)) = .ok maxPages := by
  have hvalue : numberValue ⟨false, maxPages, [], 0⟩ = maxPages := by simp [numberValue]
  have htruthy : (Json.num ⟨false, maxPages, [], 0⟩).truthy = true := by
    simp [Json.truthy, Json.Number.isZero]
    omega
  simp [maxPagesOf, limitConfig, Json.parse_stringify, readField, Json.member, Except.map,
    htruthy, toNumber, pageLimit, hvalue]

/-- Whatever the page limit, the crawler stays on the origin of its start URL if
and only if no page it can come to has a link that strays. -/
theorem crawl_origin_iff (ofText : String → Option ℚ) (web : Web) (rest : Site)
    (startUrl repoPath : String) (o : Origin) (hstart : web.origin startUrl = some o) :
    (∀ config, ∀ url ∈ navigations ofText (web.site rest config) startUrl repoPath,
        web.origin url = some o) ↔ web.Confined o startUrl := by
  constructor
  · intro hstays url hurl href hhref hstrays
    obtain ⟨hreach, horigin⟩ := Web.reachable_of_internal hstart hurl
    have hnext := hreach.link ((Web.mem_links horigin).mpr ⟨hhref, hstrays.1⟩)
    obtain ⟨maxPages, hpos, hfound⟩ := Bfs.exists_limit hnext
    have hmem : href ∈ navigations ofText (web.site rest (some (limitConfig maxPages))) startUrl
        repoPath := by
      rw [navigations_eq, show (web.site rest (some (limitConfig maxPages))).config
        = some (limitConfig maxPages) from rfl, maxPagesOf_limitConfig ofText hpos]
      exact hfound _ (loopNavigations_breadthFirst (web.site rest _) startUrl hpos)
    have hother := hstays _ href hmem
    rw [Web.origin_href hhref, originOf_eq_iff o hstrays.1] at hother
    exact hother hstrays
  · intro hconfined config url hurl
    rw [navigations_eq] at hurl
    split at hurl
    · have hreach := loopNavigations_reachable _ startUrl _ url hurl
      exact (Web.reachable_of_internal hstart
        (Web.internal_of_reachable hstart hconfined hreach)).2
    · cases hurl

/-- `http://localhost:3000`. -/
def Origin.port3000 : Origin :=
  ⟨"http".toList, "localhost:3000".toList, by decide, by simp [endsAuthority]⟩

/-- An application on port 3000 with one more page. -/
def Web.about : Web where
  serialize url := url
  hrefs _ := ["http://localhost:3000/about"]
  serialized _ _ _ := rfl

theorem crawl_origin_about :
    Web.about.origin "http://localhost:3000/" = some .port3000 ∧
    ∀ config, ∀ url ∈ navigations (fun _ => none) (Web.about.site .pair config)
        "http://localhost:3000/" "/repo", Web.about.origin url = some .port3000 := by
  refine ⟨by decide, (crawl_origin_iff (fun _ => none) .about .pair "http://localhost:3000/" "/repo"
    .port3000 (by decide)).mpr ?_⟩
  intro url _ href hhref
  rw [List.mem_singleton.mp hhref]
  decide

/-- An application on port 3000 that links to another one on port 30001. -/
def Web.neighbour : Web where
  serialize url := url
  hrefs url := if url = "http://localhost:3000/" then ["http://localhost:30001/"] else []
  serialized _ _ _ := rfl

theorem crawl_leaves_origin :
    Web.neighbour.origin "http://localhost:3000/" = some .port3000 ∧
    ¬ ∀ url ∈ navigations (fun _ => none) (Web.neighbour.site .pair none)
        "http://localhost:3000/" "/repo", Web.neighbour.origin url = some .port3000 := by
  refine ⟨by decide, fun h => ?_⟩
  have hmem : "http://localhost:30001/" ∈ navigations (fun _ => none)
      (Web.neighbour.site .pair none) "http://localhost:3000/" "/repo" := by
    rw [navigations_eq]
    show _ ∈ loopNavigations _ _ 10
    rw [loopNavigations, CrawlState.start, crawlLoop_visit _ (by decide) (by decide)]
    have hqueue : Bfs.enqueue ([] ++ ["http://localhost:3000/"]) []
        ((Web.neighbour.site .pair none).links "http://localhost:3000/")
          = ["http://localhost:30001/"] := by decide
    rw [hqueue, crawlLoop_visit _ (by decide) (by decide)]
    have hempty : Bfs.enqueue ([] ++ ["http://localhost:3000/"] ++ ["http://localhost:30001/"]) []
        ((Web.neighbour.site .pair none).links "http://localhost:30001/") = [] := by decide
    rw [hempty, crawlLoop]
    decide
  exact absurd (h _ hmem) (by decide)

end AutoQa.TestExecutor

import AutoQa.Base.Pattern
import Mathlib.Algebra.Order.BigOperators.Group.List
import Mathlib.Algebra.Order.Group.Nat

/-!
# What the watcher does not see

`startWatcher` hands `chokidar` a fixed list of patterns; the `ignoredPaths` of
`d-bug.config.json` are not among them. `chokidar` tests the patterns against
absolute paths, from the watched directory down to the file, and does not look below
a directory that one of them matches.
-/

namespace AutoQa.Orchestrator

open AutoQa.Base AutoQa.Base.Pattern

/-! ## Paths -/

/-- The separators of a path: `chokidar` writes a backslash as a slash. -/
def isSeparator (c : Char) : Bool := c == '/' || c == '\\'

/-- A component of a normalized path. -/
@[ext] structure Name where
  chars : List Char
  nonempty : chars ≠ []
  solid : chars.any isSeparator = false
  notDot : chars ≠ ['.']
  notDotDot : chars ≠ ['.', '.']
  deriving DecidableEq

/-- An absolute path. -/
abbrev Path := List Name

/-- The components, each behind its slash. -/
def slashed (path : Path) : List Char := path.flatMap fun name => '/' :: name.chars

def Path.text : Path → List Char
  | [] => ['/']
  | name :: path => slashed (name :: path)

/-! ## The patterns -/

/-- An entry of `ignored`. -/
inductive IgnoreMatcher where
  | regExp (test : Pattern)
  | path (expected : List Char)

/-- `createPattern`. -/
def IgnoreMatcher.test : IgnoreMatcher → List Char → Bool
  | .regExp test, text => test text
  | .path expected, text => expected == text

/-- A dot and one more character. -/
def dotName : Pattern := literal ['.'] (oneOf isDot done)

/-- `/(^|[\/\\])\../`. -/
def hidden : Pattern := fun text => dotName text || search (oneOf isSeparator dotName) text

/-- `DOT_RE` of `chokidar`: `/\..*\.(sw[px])$|~$|\.subl.*\.tmp/`. -/
def editorFile : Pattern := fun text =>
  search (literal ".".toList (anything (literal ".sw".toList
      (oneOf (fun c => c == 'p' || c == 'x') atEnd)))) text ||
    search (oneOf (· == '~') atEnd) text ||
    search (literal ".subl".toList (anything (literal ".tmp".toList done))) text

/-- The names that `startWatcher` looks for anywhere in a path. -/
def outputNames : List (List Char) :=
  ["node_modules".toList, "dist".toList, "build".toList, "coverage".toList]

def artifactsName : Name := ⟨"artifacts".toList, by decide, by decide, by decide, by decide⟩

/-- `path.join(process.cwd(), 'artifacts')`. -/
def artifactsDir (cwd : Path) : Path := cwd ++ [artifactsName]

/-- The list `ignoredPaths` of `startWatcher`. -/
def watcherIgnored (cwd : Path) : List IgnoreMatcher :=
  .regExp hidden :: outputNames.map (fun name => .regExp (search (literal name done)))
    ++ [.path (artifactsDir cwd).text]

/-- `_isIgnored`, with `atomic` at its default. -/
def isIgnored (cwd path : Path) : Bool :=
  editorFile path.text || (watcherIgnored cwd).any (·.test path.text)

/-- Whether no change of the file at `rel` below `repo` is reported: it, or a directory on
the way to it, is ignored. -/
def ignores (cwd repo rel : Path) : Bool := rel.inits.any fun front => isIgnored cwd (repo ++ front)

/-- What the documentation of `ignoredPaths` promises: the file is hidden, in a hidden or
a configured directory, or among the artifacts. -/
def Configured (ignoredPaths : List String) (cwd repo rel : Path) : Prop :=
  (∃ name ∈ rel, name.chars.head? = some '.' ∨ String.ofList name.chars ∈ ignoredPaths) ∨
    artifactsDir cwd <+: repo ++ rel

instance (ignoredPaths : List String) (cwd repo rel : Path) :
    Decidable (Configured ignoredPaths cwd repo rel) :=
  inferInstanceAs (Decidable (_ ∨ _))

/-- The name contains one of those that the watcher looks for. -/
def Name.output (name : Name) : Bool :=
  outputNames.any fun word => search (literal word done) name.chars

/-! ## Components -/

theorem search_solid {chars : List Char} (h : chars.any isSeparator = false) (m : Pattern)
    (rest : List Char) :
    search (oneOf isSeparator m) (chars ++ rest) = search (oneOf isSeparator m) rest := by
  induction chars with
  | nil => rfl
  | cons c chars ih =>
    obtain ⟨hc, hchars⟩ := Bool.or_eq_false_iff.mp h
    simp only [List.cons_append, search, oneOf, hc, Bool.false_and, Bool.false_or]
    exact ih hchars

/-- What follows a component does not make it a hidden one. -/
theorem dotName_append (name : Name) (rest : List Char) :
    dotName (name.chars ++ rest) = dotName name.chars := by
  obtain ⟨chars, hnonempty, -, hdot, -⟩ := name
  match chars with
  | [] => exact absurd rfl hnonempty
  | [c] =>
    have hc : (c == '.') = false := by simpa using hdot
    simp [dotName, literal, oneOf, hc]
  | c :: d :: chars => rfl

/-- A path is hidden if one of its components is. -/
theorem hidden_slashed (path : Path) :
    hidden (slashed path) = path.any fun name => dotName name.chars := by
  have hsearch : ∀ path : Path, search (oneOf isSeparator dotName) (slashed path)
      = path.any fun name => dotName name.chars := by
    intro path
    induction path with
    | nil => rfl
    | cons name path ih =>
      have hslash : slashed (name :: path) = '/' :: (name.chars ++ slashed path) := rfl
      have hseparator : isSeparator '/' = true := rfl
      rw [hslash, search, search_solid name.solid, ih, List.any_cons, oneOf, hseparator,
        dotName_append, Bool.true_and]
  have hstart : dotName (slashed path) = false := by
    cases path <;> rfl
  rw [hidden, hstart, Bool.false_or, hsearch]

theorem search_slashed {word : List Char} (hslash : '/' ∉ word) (hne : word ≠ []) (path : Path) :
    search (literal word done) (slashed path)
      = path.any fun name => search (literal word done) name.chars := by
  induction path with
  | nil => exact search_nil_literal hne
  | cons name path ih =>
    have hsplit : search (literal word done) (name.chars ++ slashed path)
        = (search (literal word done) name.chars || search (literal word done) (slashed path)) := by
      cases path with
      | nil =>
        have hnil : slashed [] = [] := rfl
        rw [hnil, List.append_nil, search_nil_literal hne, Bool.or_false]
      | cons next path =>
        have hslashed : slashed (next :: path) = [] ++ '/' :: (next.chars ++ slashed path) := rfl
        rw [hslashed, search_separated hslash hne [], search_nil_literal hne, Bool.false_or,
          List.nil_append, search_separated hslash hne]
    have hslashed : slashed (name :: path) = [] ++ '/' :: (name.chars ++ slashed path) := rfl
    rw [hslashed, search_separated hslash hne, search_nil_literal hne, Bool.false_or, hsplit, ih,
      List.any_cons]

theorem takeWhile_slashed (name : Name) (path : Path) :
    (name.chars ++ slashed path).takeWhile (fun c => !isSeparator c) = name.chars := by
  have hsolid : ∀ c ∈ name.chars, (!isSeparator c) = true := by
    intro c hc
    simpa using List.any_eq_false.mp name.solid c hc
  rw [List.takeWhile_append_of_pos hsolid]
  cases path with
  | nil => exact List.append_nil _
  | cons next path =>
    have hstop : (slashed (next :: path)).takeWhile (fun c => !isSeparator c) = [] := rfl
    rw [hstop, List.append_nil]

theorem slashed_injective {path path' : Path} (h : slashed path = slashed path') : path = path' := by
  induction path generalizing path' with
  | nil =>
    cases path' with
    | nil => rfl
    | cons name' path' => cases h
  | cons name path ih =>
    cases path' with
    | nil => cases h
    | cons name' path' =>
      have hbehind : name.chars ++ slashed path = name'.chars ++ slashed path' :=
        (List.cons.inj h).2
      have hchars : name.chars = name'.chars := by
        rw [← takeWhile_slashed name path, hbehind, takeWhile_slashed]
      rw [hchars] at hbehind
      rw [Name.ext hchars, ih (List.append_cancel_left hbehind)]

/-! ## One file below a directory -/

theorem slashed_append (front back : Path) : slashed (front ++ back) = slashed front ++ slashed back :=
  List.flatMap_append

theorem text_eq_slashed {path : Path} (h : path ≠ []) : path.text = slashed path := by
  cases path with
  | nil => exact absurd rfl h
  | cons name path => rfl

theorem text_snoc (path : Path) (name : Name) :
    Path.text (path ++ [name]) = slashed path ++ '/' :: name.chars := by
  rw [text_eq_slashed (by simp), slashed_append]
  simp [slashed]

theorem isIgnored_iff (cwd path : Path) :
    isIgnored cwd path = true ↔ editorFile path.text = true ∨ hidden path.text = true ∨
      (∃ name ∈ outputNames, search (literal name done) path.text = true) ∨
      (artifactsDir cwd).text = path.text := by
  simp [isIgnored, watcherIgnored, IgnoreMatcher.test]

/-- A file name that no pattern matches. -/
def plainName : Name := ⟨['z'], by decide, by decide, by decide, by decide⟩

theorem inert_editorFile {c : Char} (h : c = '/' ∨ c = 'z') : Inert c editorFile := by
  have hswap : Inert c (search (literal ".".toList (anything (literal ".sw".toList
      (oneOf (fun c => c == 'p' || c == 'x') atEnd))))) := by
    refine .search (.literal (.anything (.literal (.oneOf .atEnd ?_) ?_)) ?_) <;>
      rcases h with rfl | rfl <;> decide
  have hbackup : Inert c (search (oneOf (· == '~') atEnd)) := by
    refine .search (.oneOf .atEnd ?_)
    rcases h with rfl | rfl <;> decide
  have hsublime : Inert c (search (literal ".subl".toList
      (anything (literal ".tmp".toList done)))) := by
    refine .search (.literal (.anything (.literal .done ?_)) ?_) <;>
      rcases h with rfl | rfl <;> decide
  intro text
  simp only [editorFile, Bool.or_eq_true]
  exact Or.imp (Or.imp (hswap text) (hbackup text)) (hsublime text)

theorem inert_outputName {c : Char} (h : c = '/' ∨ c = 'z') {name : List Char}
    (hname : name ∈ outputNames) : Inert c (search (literal name done)) := by
  have hc : ∀ name ∈ outputNames, c ∉ name := by
    rcases h with rfl | rfl <;> decide
  exact .search (.literal .done (hc name hname))

/-- Below a directory that is not ignored there is room for a file that is not. -/
theorem isIgnored_plainName {cwd repo : Path} (hroot : isIgnored cwd repo = false)
    (hunder : artifactsDir cwd <+: repo) : isIgnored cwd (repo ++ [plainName]) = false := by
  have hrepo : repo ≠ [] := by
    rintro rfl
    simp [artifactsDir] at hunder
  have htext : repo.text = slashed repo := text_eq_slashed hrepo
  have hplain : Path.text (repo ++ [plainName]) = slashed repo ++ ['/'] ++ ['z'] := by
    rw [text_snoc]
    simp [plainName]
  have hpeel : ∀ {m : Pattern}, (∀ {c : Char}, c = '/' ∨ c = 'z' → Inert c m) →
      m (slashed repo ++ ['/'] ++ ['z']) = true → m (slashed repo) = true :=
    fun hm h => hm (.inl rfl) _ (hm (.inr rfl) _ h)
  rw [Bool.eq_false_iff, ne_eq, isIgnored_iff] at hroot ⊢
  rw [htext] at hroot
  rw [hplain]
  refine fun h => hroot (h.imp (hpeel inert_editorFile) (Or.imp ?_ (Or.imp ?_ ?_)))
  · -- a hidden component is one of the directory's
    intro hhidden
    rw [← hplain, text_eq_slashed (by simp), hidden_slashed] at hhidden
    rw [hidden_slashed]
    simpa [plainName, dotName, literal, oneOf] using hhidden
  · rintro ⟨name, hname, hfound⟩
    exact ⟨name, hname, hpeel (fun hc => inert_outputName hc hname) hfound⟩
  · -- the path is longer than that of the artifacts
    intro heq
    obtain ⟨back, rfl⟩ := hunder
    have hlength := congrArg List.length heq
    rw [text_eq_slashed (by simp [artifactsDir]), slashed_append] at hlength
    simp at hlength

/-! ## The two readings -/

theorem head_of_dotName {name : Name} (h : dotName name.chars = true) :
    name.chars.head? = some '.' := by
  cases hchars : name.chars with
  | nil => exact absurd hchars name.nonempty
  | cons c chars =>
    rw [hchars] at h
    simp only [dotName, literal, List.foldr, oneOf, Bool.and_eq_true, beq_iff_eq] at h
    rw [List.head?_cons, h.1]

theorem exists_output (path : Path) :
    (∃ word ∈ outputNames, search (literal word done) (slashed path) = true) ↔
      ∃ name ∈ path, name.output = true := by
  have hwords : ∀ word ∈ outputNames, '/' ∉ word ∧ word ≠ [] := by decide
  simp only [Name.output, List.any_eq_true]
  constructor
  · rintro ⟨word, hword, hfound⟩
    rw [search_slashed (hwords word hword).1 (hwords word hword).2, List.any_eq_true] at hfound
    obtain ⟨name, hname, hfound⟩ := hfound
    exact ⟨name, hname, word, hword, hfound⟩
  · rintro ⟨name, hname, word, hword, hfound⟩
    refine ⟨word, hword, ?_⟩
    rw [search_slashed (hwords word hword).1 (hwords word hword).2, List.any_eq_true]
    exact ⟨name, hname, hfound⟩

/-- What is ignored by itself, the files of an editor apart. -/
theorem isIgnored_iff_names {cwd path : Path} (hne : path ≠ [])
    (heditor : editorFile path.text = false) :
    isIgnored cwd path = true ↔
      (∃ name ∈ path, dotName name.chars = true ∨ name.output = true) ∨ artifactsDir cwd = path := by
  have hartifacts : (artifactsDir cwd).text = path.text ↔ artifactsDir cwd = path := by
    rw [text_eq_slashed hne, text_eq_slashed (by simp [artifactsDir])]
    exact ⟨slashed_injective, congrArg slashed⟩
  have hhidden : hidden (slashed path) = true ↔ ∃ name ∈ path, dotName name.chars = true := by
    simp only [hidden_slashed, List.any_eq_true]
  rw [isIgnored_iff, hartifacts, heditor, text_eq_slashed hne, exists_output, hhidden]
  simp only [Bool.false_eq_true, false_or, ← or_assoc, ← exists_or, ← and_or_left]

/-- Below a directory that is seen and no part of the artifacts. -/
theorem ignores_iff {cwd repo rel : Path} (hroot : isIgnored cwd repo = false)
    (hout : ¬ artifactsDir cwd <+: repo)
    (heditor : ∀ front ∈ rel.inits, editorFile (Path.text (repo ++ front)) = false) :
    ignores cwd repo rel = true ↔
      (∃ name ∈ rel, dotName name.chars = true ∨ name.output = true) ∨
        artifactsDir cwd <+: repo ++ rel := by
  have hitself : ∀ {front}, front <+: rel → front ≠ [] →
      (isIgnored cwd (repo ++ front) = true ↔
        (∃ name ∈ repo ++ front, dotName name.chars = true ∨ name.output = true) ∨
          artifactsDir cwd = repo ++ front) := by
    intro front hfront hne
    exact isIgnored_iff_names (by simp [hne]) (heditor front ((List.mem_inits _ _).mpr hfront))
  rw [ignores, List.any_eq_true]
  constructor
  · rintro ⟨front, hmem, hignored⟩
    have hfront := (List.mem_inits _ _).mp hmem
    by_cases hne : front = []
    · rw [hne, List.append_nil, hroot] at hignored
      cases hignored
    rcases (hitself hfront hne).mp hignored with ⟨name, hname, hseen⟩ | hartifacts
    · rcases List.mem_append.mp hname with hname | hname
      · -- the repository would be ignored itself
        have hrepo : repo ≠ [] := List.ne_nil_of_mem hname
        have hclean := heditor [] ((List.mem_inits _ _).mpr List.nil_prefix)
        rw [List.append_nil] at hclean
        have hignored : isIgnored cwd repo = true :=
          (isIgnored_iff_names hrepo hclean).mpr (.inl ⟨name, hname, hseen⟩)
        rw [hroot] at hignored
        cases hignored
      · exact .inl ⟨name, hfront.subset hname, hseen⟩
    · exact .inr (hartifacts ▸ (List.prefix_append_right_inj repo).mpr hfront)
  · rintro (⟨name, hname, hseen⟩ | hunder)
    · refine ⟨rel, (List.mem_inits _ _).mpr (List.prefix_refl _), ?_⟩
      exact (hitself (List.prefix_refl _) (List.ne_nil_of_mem hname)).mpr
        (.inl ⟨name, List.mem_append_right _ hname, hseen⟩)
    · have hcompare := List.prefix_or_prefix_of_prefix hunder (List.prefix_append repo rel)
      obtain ⟨front, hfront⟩ := hcompare.resolve_left hout
      rw [← hfront] at hunder
      have hprefix := (List.prefix_append_right_inj repo).mp hunder
      have hne : front ≠ [] := by
        rintro rfl
        rw [List.append_nil] at hfront
        exact hout (hfront ▸ List.prefix_refl _)
      exact ⟨front, (List.mem_inits _ _).mpr hprefix, (hitself hprefix hne).mpr (.inr hfront.symm)⟩

theorem nil_mem_inits (rel : Path) : [] ∈ rel.inits := (List.mem_inits _ _).mpr (List.nil_prefix)

theorem ignores_of_root {cwd repo : Path} (h : isIgnored cwd repo = true) (rel : Path) :
    ignores cwd repo rel = true := by
  rw [ignores, List.any_eq_true]
  exact ⟨[], nil_mem_inits rel, by simpa using h⟩

theorem ignores_singleton (cwd repo : Path) (name : Name) :
    ignores cwd repo [name] = (isIgnored cwd repo || isIgnored cwd (repo ++ [name])) := by
  simp [ignores]

/-- A source file whose name only contains `dist`. -/
def distName (n : Nat) : Name where
  chars := "dist".toList ++ List.replicate n 'x'
  nonempty := by simp
  solid := by
    have hdist : "dist".toList.any isSeparator = false := by decide
    have hmore : (List.replicate n 'x').any isSeparator = false := by
      rw [List.any_replicate]
      split
      · rfl
      · decide
    rw [List.any_append, hdist, hmore]
    rfl
  notDot := by simp
  notDotDot := by simp

theorem isIgnored_distName (cwd repo : Path) (n : Nat) :
    isIgnored cwd (repo ++ [distName n]) = true := by
  rw [isIgnored_iff]
  refine .inr (.inr (.inl ⟨"dist".toList, by decide, ?_⟩))
  rw [text_snoc, ← List.singleton_append, ← List.append_assoc]
  exact search_literal _ _ _

theorem distName_length (n : Nat) : (String.ofList (distName n).chars).length = 4 + n := by
  have hchars : (distName n).chars = "dist".toList ++ List.replicate n 'x' := rfl
  have hdist : "dist".toList.length = 4 := rfl
  rw [String.length_ofList, hchars, List.length_append, List.length_replicate, hdist]

/-- No list of names holds all of these. -/
theorem exists_distName (ignoredPaths : List String) :
    ∃ n, String.ofList (distName n).chars ∉ ignoredPaths := by
  refine ⟨(ignoredPaths.map String.length).sum, fun hmem => ?_⟩
  have hle := List.single_le_sum (fun _ _ => Nat.zero_le _) _
    (List.mem_map_of_mem (f := String.length) hmem)
  rw [distName_length] at hle
  omega

/-- Outside the artifacts, such a file is ignored though nothing asks for it. -/
theorem distName_not_configured {ignoredPaths : List String} {cwd repo : Path} {n : Nat}
    (hfresh : String.ofList (distName n).chars ∉ ignoredPaths)
    (hout : ¬ artifactsDir cwd <+: repo) : ¬ Configured ignoredPaths cwd repo [distName n] := by
  rintro (⟨name, hname, hdot | hentry⟩ | hunder)
  · rw [List.mem_singleton.mp hname] at hdot
    simp [distName] at hdot
  · rw [List.mem_singleton.mp hname] at hentry
    exact hfresh hentry
  · have hcases : artifactsDir cwd = repo ++ [distName n] ∨ artifactsDir cwd <+: repo :=
      List.prefix_concat_iff.mp hunder
    rcases hcases with heq | hunder
    · have hfirst : artifactsName.chars.head? = some 'a' := rfl
      have hsecond : (distName n).chars.head? = some 'd' := rfl
      have hlast : some artifactsName = some (distName n) := by
        rw [← List.getLast?_concat (l := cwd), ← List.getLast?_concat (l := repo), ← heq]
        rfl
      rw [Option.some.inj hlast, hsecond] at hfirst
      exact absurd hfirst (by decide)
    · exact hout hunder

theorem agree_everywhere_iff (ignoredPaths : List String) (cwd repo : Path) :
    (∀ rel, rel ≠ [] → (ignores cwd repo rel = true ↔ Configured ignoredPaths cwd repo rel)) ↔
      artifactsDir cwd <+: repo ∧ isIgnored cwd repo = true := by
  constructor
  · intro h
    have hunder : artifactsDir cwd <+: repo := by
      by_contra hout
      obtain ⟨n, hfresh⟩ := exists_distName ignoredPaths
      have hseen := (h [distName n] (by simp)).mp (by simp [ignores_singleton, isIgnored_distName])
      exact distName_not_configured hfresh hout hseen
    refine ⟨hunder, ?_⟩
    by_contra hroot
    rw [Bool.not_eq_true] at hroot
    have hplain := (h [plainName] (by simp)).mpr (.inr (hunder.trans (List.prefix_append _ _)))
    simp [ignores_singleton, hroot, isIgnored_plainName hroot hunder] at hplain
  · rintro ⟨hunder, hroot⟩ rel -
    exact iff_of_true (ignores_of_root hroot rel) (.inr (hunder.trans (List.prefix_append _ _)))

theorem agree_iff (ignoredPaths : List String) {cwd repo rel : Path}
    (hroot : isIgnored cwd repo = false) (hout : ¬ artifactsDir cwd <+: repo)
    (heditor : ∀ front ∈ rel.inits, editorFile (Path.text (repo ++ front)) = false) :
    (ignores cwd repo rel = true ↔ Configured ignoredPaths cwd repo rel) ↔
      (∃ name ∈ rel, dotName name.chars = true) ∨ artifactsDir cwd <+: repo ++ rel ∨
        ((∃ name ∈ rel, name.output = true) ↔
          ∃ name ∈ rel, name.chars.head? = some '.' ∨ String.ofList name.chars ∈ ignoredPaths) := by
  rw [ignores_iff hroot hout heditor, Configured]
  by_cases hunder : artifactsDir cwd <+: repo ++ rel
  · simp only [hunder, or_true, true_or]
  by_cases hhidden : ∃ name ∈ rel, dotName name.chars = true
  · obtain ⟨name, hname, hdot⟩ := hhidden
    exact iff_of_true
      (iff_of_true (.inl ⟨name, hname, .inl hdot⟩)
        (.inl ⟨name, hname, .inl (head_of_dotName hdot)⟩))
      (.inl ⟨name, hname, hdot⟩)
  · simp only [and_or_left, exists_or, hunder, hhidden, false_or, or_false]

/-- **The watcher ignores what is configured** for all files below a repository exactly
when the repository lies among the artifacts and is itself ignored, so that both readings
drop everything. In a repository that is seen and not among the artifacts, they agree on a
file exactly if it is hidden or among the artifacts, or else a name on the way contains one
of the watcher's just as one is configured. -/
theorem ignores_configured_iff (ignoredPaths : List String) (cwd repo : Path) :
    ((∀ rel, rel ≠ [] → (ignores cwd repo rel = true ↔ Configured ignoredPaths cwd repo rel)) ↔
      artifactsDir cwd <+: repo ∧ isIgnored cwd repo = true) ∧
    (isIgnored cwd repo = false → ¬ artifactsDir cwd <+: repo → ∀ rel : Path,
      (∀ front ∈ rel.inits, editorFile (Path.text (repo ++ front)) = false) →
      ((ignores cwd repo rel = true ↔ Configured ignoredPaths cwd repo rel) ↔
        (∃ name ∈ rel, dotName name.chars = true) ∨ artifactsDir cwd <+: repo ++ rel ∨
          ((∃ name ∈ rel, name.output = true) ↔
            ∃ name ∈ rel, name.chars.head? = some '.' ∨ String.ofList name.chars ∈ ignoredPaths))) :=
  ⟨agree_everywhere_iff ignoredPaths cwd repo,
    fun hroot hout _ heditor => agree_iff ignoredPaths hroot hout heditor⟩

/-- A path from its components. -/
def Name.ofString? (s : String) : Option Name :=
  if h : s.toList ≠ [] ∧ s.toList.any isSeparator = false ∧ s.toList ≠ ['.'] ∧
      s.toList ≠ ['.', '.'] then
    some ⟨s.toList, h.1, h.2.1, h.2.2.1, h.2.2.2⟩
  else none

def path (names : List String) : Path := names.filterMap Name.ofString?

/-- With the default list, a source file is seen and a build is not. -/
theorem ordinary_files_agree :
    ∀ rel ∈ [path ["src", "index.ts"], path ["dist", "main.js"]],
      ignores (path ["srv", "d-bug"]) (path ["home", "u", "app"]) rel = true ↔
        Configured ["node_modules", "dist", "build", "coverage"] (path ["srv", "d-bug"])
          (path ["home", "u", "app"]) rel := by
  have hagree := (ignores_configured_iff ["node_modules", "dist", "build", "coverage"]
    (path ["srv", "d-bug"]) (path ["home", "u", "app"])).2 (by decide +kernel) (by decide +kernel)
  intro rel hrel
  have hseen : ∀ rel ∈ [path ["src", "index.ts"], path ["dist", "main.js"]],
      ∀ front ∈ rel.inits, editorFile (Path.text (path ["home", "u", "app"] ++ front)) = false := by
    decide +kernel
  refine (hagree rel (hseen rel hrel)).mpr (.inr (.inr ?_))
  revert rel
  decide +kernel

/-- With the default list, a source file whose name starts with `dist` and everything in a
checkout below a directory `build` are ignored. -/
theorem sources_ignored :
    (ignores (path ["srv", "d-bug"]) (path ["home", "u", "app"]) (path ["src", "distance.ts"]) = true ∧
      ¬ Configured ["node_modules", "dist", "build", "coverage"] (path ["srv", "d-bug"])
        (path ["home", "u", "app"]) (path ["src", "distance.ts"])) ∧
    (ignores (path ["srv", "d-bug"]) (path ["home", "build", "app"]) (path ["index.ts"]) = true ∧
      ¬ Configured ["node_modules", "dist", "build", "coverage"] (path ["srv", "d-bug"])
        (path ["home", "build", "app"]) (path ["index.ts"])) := by
  decide +kernel

end AutoQa.Orchestrator

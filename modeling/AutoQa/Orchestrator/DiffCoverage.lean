import AutoQa.Orchestrator.Watcher

/-!
# The diff that is analyzed

The watcher asks git twice. `git.status()` compares HEAD, the index and the working
tree, and decides whether there is something to analyze; `git.diff()` compares the
working tree with the index alone, and its text is what is analyzed.
-/

namespace AutoQa.Orchestrator

open AutoQa.Base AutoQa.LlmAgents

/-! ## The repository -/

/-- The contents of a file in the three trees, `none` where it is absent. -/
structure FileState where
  head : Option String
  index : Option String
  worktree : Option String
  deriving DecidableEq, Repr

/-- The three trees differ on the file. -/
def FileState.changed (f : FileState) : Bool := !(f.head == f.index && f.index == f.worktree)

/-- The file is in the index and the working tree differs from it. -/
def FileState.unstaged (f : FileState) : Bool := f.index.isSome && f.index != f.worktree

/-- The file changed, and the index does not have it: a new file, or a removal that is
staged. -/
def FileState.untracked (f : FileState) : Bool := f.changed && f.index.isNone

/-- All that changed in the file is staged. -/
def FileState.staged (f : FileState) : Bool := f.index.isSome && f.index == f.worktree && f.head != f.index

theorem FileState.unchanged {f : FileState} (h : f.changed = false) :
    f.untracked = false ∧ f.staged = false := by
  simp only [changed, Bool.not_eq_false', Bool.and_eq_true, beq_iff_eq] at h
  simp [untracked, staged, changed, h.1, h.2]

theorem FileState.unstaged_iff (f : FileState) :
    f.unstaged = true ↔ f.changed = true ∧ f.untracked = false ∧ f.staged = false := by
  obtain ⟨head, index, worktree⟩ := f
  cases index with
  | none => cases head <;> simp [changed, untracked, staged, unstaged]
  | some content =>
    by_cases hwork : some content = worktree
    · subst hwork
      simp [changed, untracked, staged, unstaged]
    · simp [changed, untracked, staged, unstaged, hwork]

structure Repo where
  /-- The paths that occur in one of the trees. -/
  paths : List String
  state : String → FileState

namespace Repo

variable (repo : Repo) (body : String → FileState → String)

/-- `(await git.status()).files`. -/
def statusFiles : List String := repo.paths.filter fun path => (repo.state path).changed

/-- The part of a diff that belongs to one file; `body` prints its hunks. -/
def diffSection (path : String) : String :=
  "diff --git a/" ++ path ++ " b/" ++ path ++ "\n" ++ body path (repo.state path)

/-- The files of which a diff has a part. -/
def diffFiles : List String := repo.paths.filter fun path => (repo.state path).unstaged

/-- `git.diff()`. -/
def diff : String := String.join (repo.diffFiles.map (repo.diffSection body))

/-- The text says how each of the changed files differs, and is not empty. -/
def Covers (text : String) : Prop :=
  text ≠ "" ∧ ∀ path ∈ repo.statusFiles,
    path ∈ repo.diffFiles ∧ (repo.diffSection body path).toList <:+: text.toList

end Repo

/-! ## The callback -/

/-- The diffs that are analyzed. -/
def diffLog : {ρ : Type} → WatchOp ρ → List String
  | _, .analyzeDiff diff => [diff]
  | _, _ => []

/-- The diffs that the callback analyzes when it starts in the state `d`. -/
def analyzedDiffs (w : WatchWorld) (d : WatchData) : List String :=
  (timerCallback w.localUrl).issued (answer w) diffLog d

/-- The callback analyzes what `git.diff()` returns, if `git.status()` lists a file. -/
theorem analyzedDiffs_eq {w : WatchWorld} {d : WatchData} {files : List String} {diff : String}
    (hstatus : w.gitStatus d.log.length = .ok files)
    (hdiff : w.gitDiff (d.log.length + 1) = .ok diff) :
    analyzedDiffs w d = if files = [] then [] else [diff] := by
  have hread : answer w .gitStatus d = (.ok files, d.record (.statusRead (.ok files))) := by
    rw [← hstatus]
    rfl
  have hlength : (d.record (.statusRead (.ok files))).log.length = d.log.length + 1 := by
    simp [WatchData.record]
  have hreply : answer w .gitDiff (d.record (.statusRead (.ok files)))
      = (.ok diff, (d.record (.statusRead (.ok files))).record .diffRead) := by
    rw [← hdiff, ← hlength]
    rfl
  have hclear : ∀ _ : Except String Unit,
      (Proc.call .clearProcessing : WatchProc Unit).Only fun o => diffLog o = [] :=
    fun _ => .call rfl
  rw [analyzedDiffs, timerCallback, Proc.Only.issued_bind_tail _ hclear, Proc.issued_attempt,
    processChanges, Proc.issued_bind, Proc.run_call, hread]
  dsimp only
  by_cases hfiles : files = []
  · rw [if_pos hfiles, if_pos hfiles]
    rfl
  · rw [if_neg hfiles, if_neg hfiles, enqueueChanges, Proc.issued_bind, Proc.run_call, hreply]
    dsimp only
    -- what follows the analysis analyzes nothing
    rw [Proc.Only.issued_bind_tail]
    · rfl
    · exact fun _ => .bind (.call rfl) (fun _ => .bind (.call rfl) (fun _ => .call rfl))

/-! ## What the diff covers -/

section

variable (repo : Repo) (body : String → FileState → String)

theorem Repo.mem_diffFiles {path : String} (h : path ∈ repo.statusFiles) :
    path ∈ repo.diffFiles ↔
      (repo.state path).untracked = false ∧ (repo.state path).staged = false := by
  obtain ⟨hpath, hchanged⟩ := List.mem_filter.mp h
  rw [diffFiles, List.mem_filter, FileState.unstaged_iff]
  simp [hpath, hchanged]

theorem Repo.diffSection_ne_nil (path : String) : (repo.diffSection body path).toList ≠ [] := by
  unfold diffSection
  simp only [String.toList_append]
  simp

theorem Repo.diffSection_infix {path : String} (h : path ∈ repo.diffFiles) :
    (repo.diffSection body path).toList <:+: (repo.diff body).toList := by
  obtain ⟨front, back, hsplit⟩ := List.append_of_mem h
  rw [diff, hsplit]
  simp only [List.map_append, List.map_cons, String.join_append, String.join_cons,
    String.toList_append]
  exact (List.prefix_append _ _).isInfix.trans (List.suffix_append _ _).isInfix

/-- The diff has a part for each of the listed files if none of them is new, none is
removed from the index and none is staged as it is. -/
theorem Repo.covers_diff_iff (hlisted : repo.statusFiles ≠ []) :
    repo.Covers body (repo.diff body) ↔ ∀ path ∈ repo.statusFiles,
      (repo.state path).untracked = false ∧ (repo.state path).staged = false := by
  constructor
  · intro h path hpath
    exact (repo.mem_diffFiles hpath).mp (h.2 path hpath).1
  · intro h
    have hpart : ∀ path ∈ repo.statusFiles, path ∈ repo.diffFiles ∧
        (repo.diffSection body path).toList <:+: (repo.diff body).toList := by
      intro path hpath
      have hmem := (repo.mem_diffFiles hpath).mpr (h path hpath)
      exact ⟨hmem, repo.diffSection_infix body hmem⟩
    refine ⟨fun hempty => ?_, hpart⟩
    obtain ⟨path, hpath⟩ := List.exists_mem_of_ne_nil _ hlisted
    have hnone := (hpart path hpath).2
    rw [hempty] at hnone
    exact repo.diffSection_ne_nil body path (List.infix_nil.mp hnone)

/-- **The analyzed diff covers the detected changes** exactly when every changed file is in
the index and is not staged as it is. -/
theorem analyzed_diff_covers_iff {w : WatchWorld} {d : WatchData}
    (hstatus : w.gitStatus d.log.length = .ok repo.statusFiles)
    (hdiff : w.gitDiff (d.log.length + 1) = .ok (repo.diff body)) :
    (∀ text ∈ analyzedDiffs w d, repo.Covers body text) ↔ ∀ path ∈ repo.paths,
      (repo.state path).untracked = false ∧ (repo.state path).staged = false := by
  have hpaths : (∀ path ∈ repo.statusFiles,
      (repo.state path).untracked = false ∧ (repo.state path).staged = false) ↔
      ∀ path ∈ repo.paths, (repo.state path).untracked = false ∧ (repo.state path).staged = false := by
    constructor
    · intro h path hpath
      cases hchanged : (repo.state path).changed with
      | false => exact FileState.unchanged hchanged
      | true => exact h path (List.mem_filter.mpr ⟨hpath, hchanged⟩)
    · exact fun h path hpath => h path (List.mem_of_mem_filter hpath)
  rw [analyzedDiffs_eq hstatus hdiff, ← hpaths]
  split
  · rename_i hnone
    simp [hnone]
  · rename_i hlisted
    rw [List.forall_mem_singleton]
    exact repo.covers_diff_iff body hlisted

end

/-- A repository of one file. -/
def oneFile (path : String) (f : FileState) : Repo := ⟨[path], fun _ => f⟩

/-- The watcher over a repository that stays as it is. -/
def watching (repo : Repo) : WatchWorld where
  agents := .calm
  gitStatus _ := .ok repo.statusFiles
  gitDiff _ := .ok (repo.diff fun _ _ => "@@\n")
  write _ := .ok ()
  projectId := 0
  localUrl := "http://localhost:5173"

/-- A file that was staged and then edited again is covered. -/
theorem edited_after_staging :
    analyzedDiffs (watching (oneFile "a.ts" ⟨some "1", some "2", some "3"⟩))
        (Watcher.start .empty 0).data
      = [(oneFile "a.ts" ⟨some "1", some "2", some "3"⟩).diff fun _ _ => "@@\n"] ∧
    (oneFile "a.ts" ⟨some "1", some "2", some "3"⟩).Covers (fun _ _ => "@@\n")
      ((oneFile "a.ts" ⟨some "1", some "2", some "3"⟩).diff fun _ _ => "@@\n") := by
  have hone : analyzedDiffs (watching (oneFile "a.ts" ⟨some "1", some "2", some "3"⟩))
        (Watcher.start .empty 0).data
      = [(oneFile "a.ts" ⟨some "1", some "2", some "3"⟩).diff fun _ _ => "@@\n"] :=
    (analyzedDiffs_eq (w := watching (oneFile "a.ts" _)) rfl rfl).trans (by decide)
  have hcovers := (analyzed_diff_covers_iff _ _ (d := (Watcher.start .empty 0).data)
    (w := watching (oneFile "a.ts" ⟨some "1", some "2", some "3"⟩)) rfl rfl).mpr (by decide)
  rw [hone] at hcovers
  exact ⟨hone, hcovers _ List.mem_cons_self⟩

/-- Of a new file, and of a file that is staged, the empty text is analyzed. -/
theorem empty_diff_analyzed :
    analyzedDiffs (watching (oneFile "new.ts" ⟨none, none, some "1"⟩))
        (Watcher.start .empty 0).data = [""] ∧
      analyzedDiffs (watching (oneFile "a.ts" ⟨some "1", some "2", some "2"⟩))
        (Watcher.start .empty 0).data = [""] ∧
      ¬ (oneFile "new.ts" ⟨none, none, some "1"⟩).Covers (fun _ _ => "@@\n") "" := by
  refine ⟨?_, ?_, fun h => h.1 rfl⟩
  · exact (analyzedDiffs_eq (w := watching (oneFile "new.ts" _)) rfl rfl).trans (by decide)
  · exact (analyzedDiffs_eq (w := watching (oneFile "a.ts" _)) rfl rfl).trans (by decide)

end AutoQa.Orchestrator

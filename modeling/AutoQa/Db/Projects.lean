import AutoQa.Base.Pool
import AutoQa.Base.Text
import AutoQa.Db.Schema

/-!
# The projects

The Project table, and the two places that look a project up by its repository
and create it when there is none.
-/

namespace AutoQa.Db

open AutoQa.Base AutoQa.Base.Text

structure Project where
  name : String
  repoPath : String
  localUrl : String
  deriving DecidableEq, Repr

/-! ## Queries -/

/-- `findMany`: the rows that satisfy the condition with their ids, in row order. -/
def findMany {ρ : Type} (cond : ρ → Bool) (table : List ρ) : List (Id × ρ) :=
  (table.zipIdx.filter fun r => cond r.1).map fun r => (r.2, r.1)

/-- `findFirst`. -/
def findFirst {ρ : Type} (cond : ρ → Bool) (table : List ρ) : Option (Id × ρ) :=
  (findMany cond table).head?

theorem mem_findMany {ρ : Type} {cond : ρ → Bool} {table : List ρ} {id : Id} {row : ρ} :
    (id, row) ∈ findMany cond table ↔ table[id]? = some row ∧ cond row = true := by
  simp only [findMany, List.mem_map, List.mem_filter, Prod.mk.injEq, Prod.exists]
  constructor
  · rintro ⟨r, i, ⟨hmem, hcond⟩, rfl, rfl⟩
    exact ⟨List.mem_zipIdx_iff_getElem?.mp hmem, hcond⟩
  · rintro ⟨hrow, hcond⟩
    exact ⟨row, id, ⟨List.mem_zipIdx_iff_getElem?.mpr hrow, hcond⟩, rfl, rfl⟩

/-- A row that is appended is found last. -/
theorem findMany_append {ρ : Type} (cond : ρ → Bool) (table : List ρ) (row : ρ) :
    findMany cond (table ++ [row])
      = findMany cond table ++ if cond row then [(table.length, row)] else [] := by
  by_cases hcond : cond row = true
  · simp [findMany, List.zipIdx_append, hcond]
  · simp [findMany, List.zipIdx_append, hcond]

theorem findMany_eq_nil {ρ : Type} {cond : ρ → Bool} {table : List ρ} :
    findMany cond table = [] ↔ ∀ row ∈ table, cond row = false := by
  simp only [List.eq_nil_iff_forall_not_mem, Prod.forall, mem_findMany, not_and, Bool.not_eq_true]
  constructor
  · intro h row hrow
    obtain ⟨id, hid⟩ := List.mem_iff_getElem?.mp hrow
    exact h id row hid
  · intro h id row hid
    exact h row (List.mem_of_getElem? hid)

theorem findFirst_isSome {ρ : Type} (cond : ρ → Bool) (table : List ρ) :
    (findFirst cond table).isSome = table.any cond := by
  have hnil : (findFirst cond table).isSome = false ↔ table.any cond = false := by
    simp [findFirst, findMany_eq_nil]
  cases hany : table.any cond with
  | false => exact hnil.mpr hany
  | true => exact (Bool.not_eq_false _).mp (mt hnil.mp (by simp [hany]))

/-- A column of an updated table. -/
theorem map_modify {ρ κ : Type} (column : ρ → κ) (f : ρ → ρ) (g : κ → κ)
    (h : ∀ row, column (f row) = g (column row)) (table : List ρ) (id : Id) :
    (table.modify id f).map column = (table.map column).modify id g := by
  apply List.ext_getElem?
  intro i
  rw [List.getElem?_map, List.getElem?_modify, List.getElem?_modify, List.getElem?_map]
  cases table[i]? with
  | none => rfl
  | some row => by_cases hid : id = i <;> simp [hid, h]

/-- An update leaves the columns as they are that it does not write. -/
theorem map_modify_of_same {ρ κ : Type} (column : ρ → κ) (f : ρ → ρ)
    (h : ∀ row, column (f row) = column row) (table : List ρ) (id : Id) :
    (table.modify id f).map column = table.map column :=
  (map_modify column f (fun c => c) h table id).trans (List.modify_id _ _)

/-- What every row has, every row has after an update that keeps it. -/
theorem forall_mem_modify {ρ : Type} {P : ρ → Prop} {table : List ρ} (h : ∀ row ∈ table, P row)
    {f : ρ → ρ} (hf : ∀ row, P row → P (f row)) (id : Id) : ∀ row ∈ table.modify id f, P row := by
  intro row hrow
  obtain ⟨i, hi⟩ := List.mem_iff_getElem?.mp hrow
  rw [List.getElem?_modify] at hi
  obtain ⟨old, hold, rfl⟩ := Option.map_eq_some_iff.mp hi
  have hmem := h old (List.mem_of_getElem? hold)
  by_cases hid : id = i
  · simpa [hid] using hf old hmem
  · simpa [hid] using hmem

/-- A row that is not found before and after its update does not matter. -/
theorem findMany_modify {ρ : Type} {cond : ρ → Bool} {table : List ρ} {id : Id} {f : ρ → ρ}
    (h : ∀ row, table[id]? = some row → cond row = false ∧ cond (f row) = false) :
    findMany cond (table.modify id f) = findMany cond table := by
  by_cases hid : id < table.length
  · obtain ⟨hrow, hrow'⟩ := h _ (List.getElem?_eq_getElem hid)
    have hsplit : table.take id ++ table[id] :: table.drop (id + 1) = table := by simp
    have hsame : findMany cond (table.take id ++ f table[id] :: table.drop (id + 1))
        = findMany cond (table.take id ++ table[id] :: table.drop (id + 1)) := by
      simp only [findMany, List.zipIdx_append, List.zipIdx_cons, List.filter_append,
        List.filter_cons, hrow, hrow']
      rfl
    rw [List.modify_eq_take_cons_drop hid, hsame, hsplit]
  · rw [List.modify_eq_self (Nat.le_of_not_lt hid)]

theorem length_findMany {ρ : Type} (cond : ρ → Bool) (table : List ρ) :
    (findMany cond table).length = (table.map cond).countP fun b => b := by
  have hcount : (table.zipIdx.map Prod.fst).countP cond = table.zipIdx.countP fun r => cond r.1 :=
    List.countP_map
  rw [findMany, List.length_map, ← List.countP_eq_length_filter, ← hcount, List.zipIdx_map_fst,
    List.countP_map]
  rfl

/-- `{ where: { repoPath } }`. -/
def atPath (repoPath : String) (p : Project) : Bool := p.repoPath == repoPath

/-! ## Find, then create -/

inductive ProjectOp : Type → Type where
  | findFirst (repoPath : String) : ProjectOp (Option (Id × Project))
  | create (project : Project) : ProjectOp Id

/-- The database answers one operation. -/
def answerProject {ρ : Type} : ProjectOp ρ → Prog (List Project) ρ
  | .findFirst repoPath => fun projects => (.ok (findFirst (atPath repoPath) projects), projects)
  | .create project => fun projects => (.ok projects.length, projects ++ [project])

/-- `path.basename(p)`. -/
def basename (p : String) : String := ((split p '/').filter (· != "")).getLast?.getD ""

/-- Look the project up by its repository, create it if there is none. -/
def findOrCreate (project : Project) : Proc ProjectOp Id := do
  match ← Proc.call (.findFirst project.repoPath) with
  | some (id, _) => pure id
  | none => Proc.call (.create project)

/-- `getOrCreateProject` of the audit. -/
def getOrCreateProject (repoPath localUrl : String) : Proc ProjectOp Id :=
  findOrCreate { name := basename repoPath, repoPath, localUrl }

/-- The step `Ensure project exists` of `startWatcher`. -/
def ensureProject (repoPath localUrl : String) : Proc ProjectOp Id :=
  findOrCreate { name := basename repoPath, repoPath, localUrl }

/-- The id that `getOrCreateProject` returns, and the table it leaves. -/
def projectAfter (repoPath localUrl : String) (projects : List Project) : Id × List Project :=
  match findFirst (atPath repoPath) projects with
  | some (id, _) => (id, projects)
  | none => (projects.length, projects ++ [⟨basename repoPath, repoPath, localUrl⟩])

theorem getOrCreateProject_run (repoPath localUrl : String) (projects : List Project) :
    (getOrCreateProject repoPath localUrl).run answerProject projects
      = (.ok (projectAfter repoPath localUrl projects).1,
          (projectAfter repoPath localUrl projects).2) := by
  rw [getOrCreateProject, findOrCreate, Proc.run_bind, Proc.run_call, projectAfter,
    Prog.bind_ok (show answerProject (.findFirst repoPath) projects = _ from rfl)]
  cases findFirst (atPath repoPath) projects with
  | some row => rfl
  | none => rfl

/-- The project is the first of its repository, and stays so. -/
theorem projectAfter_first (repoPath localUrl : String) (projects : List Project) :
    ∃ project, findFirst (atPath repoPath) (projectAfter repoPath localUrl projects).2
      = some ((projectAfter repoPath localUrl projects).1, project) := by
  unfold projectAfter
  cases hfind : findFirst (atPath repoPath) projects with
  | some row => exact ⟨row.2, hfind⟩
  | none =>
    have hnil : findMany (atPath repoPath) projects = [] := List.head?_eq_none_iff.mp hfind
    refine ⟨⟨basename repoPath, repoPath, localUrl⟩, ?_⟩
    simp [findFirst, findMany_append, hnil, atPath]

theorem projectAfter_again (repoPath localUrl : String) (projects : List Project) :
    projectAfter repoPath localUrl (projectAfter repoPath localUrl projects).2
      = projectAfter repoPath localUrl projects := by
  obtain ⟨project, hfind⟩ := projectAfter_first repoPath localUrl projects
  rw [projectAfter, hfind]

/-! ## The database with its projects -/

structure Store extends Db where
  projects : List Project
  deriving DecidableEq

/-- A database that holds nothing but projects. -/
def Store.fresh (projects : List Project) : Store := { Db.empty with projects }

/-- A program over the Project table, over the whole database. -/
def onProjects {α : Type} (p : Prog (List Project) α) : Prog Store α :=
  Prog.zoom Store.projects (fun projects s => { s with projects }) p

end AutoQa.Db

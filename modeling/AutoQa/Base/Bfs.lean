import Mathlib.Data.ENat.Lattice
import Mathlib.Order.Lattice.Nat
import Mathlib.Data.Set.Card
import Mathlib.Data.Set.Finite.Lattice

/-!
# Breadth-first search

A search over the graph of `next` keeps the vertices it has found, in order,
and a queue. `Frontier` is its invariant; `Frontier.visit` is one round, and
what the found vertices then are is read off the invariant alone, whatever
ended the search. The graph may have cycles and infinitely many vertices.
-/

namespace AutoQa.Base.Bfs

universe u

variable {α : Type u} (next : α → List α) (start : α)

/-! ## Walks and distances -/

/-- There is a walk of `n` links from `start`. -/
inductive Walk : Nat → α → Prop where
  | start : Walk 0 start
  | link {n : Nat} {x y : α} (h : Walk n x) (hy : y ∈ next x) : Walk (n + 1) y

def Reachable (x : α) : Prop := ∃ n, Walk next start n x

/-- The length of a shortest walk. -/
noncomputable def dist (x : α) : Nat := sInf {n | Walk next start n x}

variable {next start}

theorem dist_le {n : Nat} {x : α} (h : Walk next start n x) : dist next start x ≤ n :=
  Nat.sInf_le h

theorem Reachable.walk {x : α} (h : Reachable next start x) :
    Walk next start (dist next start x) x :=
  Nat.sInf_mem h

theorem Reachable.link {x y : α} (h : Reachable next start x) (hy : y ∈ next x) :
    Reachable next start y :=
  ⟨dist next start x + 1, h.walk.link hy⟩

theorem dist_link {x y : α} (h : Reachable next start x) (hy : y ∈ next x) :
    dist next start y ≤ dist next start x + 1 :=
  dist_le (h.walk.link hy)

/-! ## Filling the queue -/

section

variable [DecidableEq α]

/-- Push each link that is neither visited nor in the queue. -/
def enqueue (visited : List α) : List α → List α → List α
  | queue, [] => queue
  | queue, link :: links =>
      enqueue visited (if link ∉ visited ∧ link ∉ queue then queue ++ [link] else queue) links

theorem mem_enqueue (visited links : List α) {x : α} :
    ∀ queue, x ∈ enqueue visited queue links ↔ x ∈ queue ∨ (x ∈ links ∧ x ∉ visited) := by
  induction links with
  | nil => intro queue; simp [enqueue]
  | cons link links ih =>
    intro queue
    rw [enqueue, ih]
    by_cases hnew : link ∉ visited ∧ link ∉ queue
    · rw [if_pos hnew]
      simp only [List.mem_append, List.mem_cons, List.not_mem_nil, or_false]
      grind
    · rw [if_neg hnew]
      simp only [List.mem_cons]
      grind

/-- What a round adds stands after what was there, without repetition. -/
theorem enqueue_append (visited links : List α) :
    ∀ queue, ∃ fresh, enqueue visited queue links = queue ++ fresh ∧ fresh.Nodup ∧
      ∀ x ∈ fresh, x ∈ links ∧ x ∉ visited ∧ x ∉ queue := by
  induction links with
  | nil => intro queue; exact ⟨[], by simp [enqueue]⟩
  | cons link links ih =>
    intro queue
    rw [enqueue]
    by_cases hnew : link ∉ visited ∧ link ∉ queue
    · rw [if_pos hnew]
      obtain ⟨fresh, heq, hnodup, hfresh⟩ := ih (queue ++ [link])
      refine ⟨link :: fresh, by rw [heq]; simp, ?_, ?_⟩
      · rw [List.nodup_cons]
        exact ⟨fun h => (hfresh link h).2.2 (by simp), hnodup⟩
      · intro x hx
        rcases List.mem_cons.mp hx with rfl | hx
        · exact ⟨by simp, hnew⟩
        · obtain ⟨hlinks, hvisited, hqueue⟩ := hfresh x hx
          exact ⟨List.mem_cons_of_mem _ hlinks, hvisited,
            fun h => hqueue (List.mem_append_left _ h)⟩
    · rw [if_neg hnew]
      obtain ⟨fresh, heq, hnodup, hfresh⟩ := ih queue
      exact ⟨fresh, heq, hnodup, fun x hx => ⟨List.mem_cons_of_mem _ (hfresh x hx).1, (hfresh x hx).2⟩⟩

end

theorem encard_list {found : List α} (h : found.Nodup) :
    {x | x ∈ found}.encard = found.length := by
  classical
  rw [← List.coe_toFinset, Set.encard_coe_eq_coe_finsetCard, List.toFinset_card_of_nodup h]

/-! ## The invariant -/

/-- The search stands between two rounds: `found` has been visited, in this
order, and `queue` waits. -/
structure Frontier (next : α → List α) (start : α) (found queue : List α) : Prop where
  nodup : (found ++ queue).Nodup
  first : (found ++ queue).head? = some start
  reachable : ∀ x ∈ found ++ queue, Reachable next start x
  closed : ∀ x ∈ found, ∀ y ∈ next x, y ∈ found ++ queue
  sorted : (found ++ queue).Pairwise fun x y => dist next start x ≤ dist next start y
  /-- The queue holds at most two levels. -/
  levels : ∀ x ∈ queue, ∀ y ∈ queue, dist next start y ≤ dist next start x + 1

theorem Frontier.init : Frontier next start [] [start] where
  nodup := by simp
  first := rfl
  reachable := by
    intro x hx
    obtain rfl : x = start := by simpa using hx
    exact ⟨0, .start⟩
  closed := by simp
  sorted := by simp
  levels := by simp

namespace Frontier

variable {found queue : List α}

theorem start_mem (h : Frontier next start found queue) : start ∈ found ++ queue :=
  List.mem_of_mem_head? h.first

/-- A walk to a vertex that was not found leaves `found` through the queue. -/
theorem crosses (h : Frontier next start found queue) {n : Nat} {x : α}
    (hwalk : Walk next start n x) (hx : x ∉ found) :
    ∃ y ∈ queue, dist next start y ≤ n ∧ (x ∉ queue → dist next start y < n) := by
  induction hwalk with
  | start =>
    rcases List.mem_append.mp h.start_mem with hstart | hstart
    · exact absurd hstart hx
    · exact ⟨start, hstart, dist_le .start, fun hnot => absurd hstart hnot⟩
  | @link n x y hwalk hy ih =>
    by_cases hfound : x ∈ found
    · rcases List.mem_append.mp (h.closed x hfound y hy) with hmem | hmem
      · exact absurd hmem hx
      · exact ⟨y, hmem, dist_le (hwalk.link hy), fun hnot => absurd hmem hnot⟩
    · obtain ⟨z, hz, hle, -⟩ := ih hfound
      exact ⟨z, hz, by omega, fun _ => by omega⟩

/-- With the queue empty nothing is left to find. -/
theorem exhausted (h : Frontier next start found []) {x : α} (hx : Reachable next start x) :
    x ∈ found := by
  by_contra hnot
  obtain ⟨y, hy, -⟩ := h.crosses hx.walk hnot
  cases hy

/-- What was found is no further than what was not. -/
theorem closest (h : Frontier next start found queue) {x y : α} (hx : x ∈ found)
    (hy : Reachable next start y) (hnot : y ∉ found) : dist next start x ≤ dist next start y := by
  obtain ⟨z, hz, hle, -⟩ := h.crosses hy.walk hnot
  exact ((List.pairwise_append.mp h.sorted).2.2 x hx z hz).trans hle

/-- How many vertices were found, when the search stopped at its limit or for
want of vertices. -/
theorem length_eq (h : Frontier next start found queue) {limit : Nat} (hle : found.length ≤ limit)
    (hover : queue = [] ∨ found.length = limit) :
    (found.length : ℕ∞) = min (limit : ℕ∞) {x | Reachable next start x}.encard := by
  have hnodup : found.Nodup := (List.nodup_append.mp h.nodup).1
  have hcard := encard_list hnodup
  have hsub : {x | x ∈ found} ⊆ {x | Reachable next start x} :=
    fun x hx => h.reachable x (List.mem_append_left _ hx)
  rcases hover with rfl | hfull
  · have hall : {x | Reachable next start x} = {x | x ∈ found} :=
      Set.Subset.antisymm (fun x hx => h.exhausted hx) hsub
    rw [hall, hcard, min_eq_right (by exact_mod_cast hle)]
  · have hmany := Set.encard_le_encard hsub
    rw [hcard, hfull] at hmany
    rw [hfull, min_eq_left hmany]

/-! One round, which finds the first vertex `x` of the queue. -/

section

variable {x : α}

theorem head_le (h : Frontier next start found (x :: queue)) {y : α} (hy : y ∈ x :: queue) :
    dist next start x ≤ dist next start y := by
  rcases List.mem_cons.mp hy with rfl | hy
  · exact Nat.le_refl _
  · exact (List.pairwise_cons.mp (List.pairwise_append.mp h.sorted).2.1).1 y hy

theorem le_head_succ (h : Frontier next start found (x :: queue)) {y : α}
    (hy : y ∈ found ++ x :: queue) : dist next start y ≤ dist next start x + 1 := by
  rcases List.mem_append.mp hy with hy | hy
  · have hle := (List.pairwise_append.mp h.sorted).2.2 y hy x (by simp)
    omega
  · exact h.levels x (by simp) y hy

/-- A new link of `x` lies exactly one level below it. -/
theorem dist_fresh (h : Frontier next start found (x :: queue)) {y : α} (hy : y ∈ next x)
    (hnew : y ∉ found ++ x :: queue) : dist next start y = dist next start x + 1 := by
  have hx : Reachable next start x := h.reachable x (by simp)
  rw [List.mem_append, not_or] at hnew
  obtain ⟨z, hz, -, hlt⟩ := h.crosses (hx.link hy).walk hnew.1
  have hlow := h.head_le hz
  have hup := dist_link hx hy
  have hz := hlt hnew.2
  omega

/-- The invariant when the new links of `x` have joined the queue. -/
theorem extend (h : Frontier next start found (x :: queue)) {fresh : List α}
    (hnodup : fresh.Nodup) (hlinks : ∀ y ∈ fresh, y ∈ next x)
    (hnew : ∀ y ∈ fresh, y ∉ found ++ x :: queue)
    (hall : ∀ y ∈ next x, y ∈ found ++ x :: queue ++ fresh) :
    Frontier next start (found ++ [x]) (queue ++ fresh) := by
  have hsplit : found ++ [x] ++ (queue ++ fresh) = found ++ x :: queue ++ fresh := by simp
  have hdist : ∀ y ∈ fresh, dist next start y = dist next start x + 1 :=
    fun y hy => h.dist_fresh (hlinks y hy) (hnew y hy)
  refine ⟨?_, ?_, ?_, ?_, ?_, ?_⟩
  · rw [hsplit, List.nodup_append]
    refine ⟨h.nodup, hnodup, ?_⟩
    rintro y hy z hz rfl
    exact hnew y hz hy
  · rw [hsplit, List.head?_append, h.first]
    rfl
  · rw [hsplit]
    intro y hy
    rcases List.mem_append.mp hy with hy | hy
    · exact h.reachable y hy
    · exact (h.reachable x (by simp)).link (hlinks y hy)
  · rw [hsplit]
    intro y hy z hz
    by_cases hyx : y = x
    · subst hyx
      exact hall z hz
    · have hfound : y ∈ found := by simpa [hyx] using hy
      exact List.mem_append_left _ (h.closed y hfound z hz)
  · rw [hsplit, List.pairwise_append]
    refine ⟨h.sorted, ?_, ?_⟩
    · apply List.Pairwise.imp_of_mem _ hnodup
      intro y z hy hz _
      rw [hdist y hy, hdist z hz]
    · intro y hy z hz
      rw [hdist z hz]
      exact h.le_head_succ hy
  · have hrange : ∀ y ∈ queue ++ fresh,
        dist next start x ≤ dist next start y ∧ dist next start y ≤ dist next start x + 1 := by
      intro y hy
      rcases List.mem_append.mp hy with hy | hy
      · exact ⟨h.head_le (List.mem_cons_of_mem _ hy), h.le_head_succ (by simp [hy])⟩
      · rw [hdist y hy]
        omega
    intro y hy z hz
    have hlow := (hrange y hy).1
    have hup := (hrange z hz).2
    omega

theorem visit [DecidableEq α] (h : Frontier next start found (x :: queue)) :
    Frontier next start (found ++ [x]) (enqueue (found ++ [x]) queue (next x)) := by
  have hmem : ∀ y, y ∈ enqueue (found ++ [x]) queue (next x) ↔ _ :=
    fun y => mem_enqueue (found ++ [x]) (next x) queue
  obtain ⟨fresh, heq, hnodup, hfresh⟩ := enqueue_append (found ++ [x]) (next x) queue
  rw [heq] at hmem ⊢
  refine h.extend hnodup (fun y hy => (hfresh y hy).1) ?_ ?_
  · intro y hy
    have hy := (hfresh y hy).2
    simp only [List.mem_append, List.mem_cons, List.not_mem_nil, or_false] at hy ⊢
    tauto
  · intro y hy
    have hy := (hmem y).mpr
    simp only [List.mem_append, List.mem_cons, List.not_mem_nil, or_false] at hy ⊢
    tauto

end

end Frontier

/-! ## The result of a search -/

/-- `found` lists up to `limit` reachable vertices in breadth-first order. -/
structure BreadthFirst (next : α → List α) (start : α) (limit : Nat) (found : List α) : Prop where
  nodup : found.Nodup
  first : found.head? = some start
  length : (found.length : ℕ∞) = min (limit : ℕ∞) {x | Reachable next start x}.encard
  reachable : ∀ x ∈ found, Reachable next start x
  sorted : found.Pairwise fun x y => dist next start x ≤ dist next start y
  complete : ∀ last ∈ found.getLast?, ∀ x, Reachable next start x →
    dist next start x < dist next start last → x ∈ found

theorem Frontier.breadthFirst {found queue : List α} (h : Frontier next start found queue)
    {limit : Nat} (hpos : 1 ≤ limit) (hle : found.length ≤ limit)
    (hover : queue = [] ∨ found.length = limit) : BreadthFirst next start limit found where
  nodup := (List.nodup_append.mp h.nodup).1
  first := by
    have hfirst := h.first
    cases found with
    | cons x found => simpa using hfirst
    | nil =>
      rcases hover with rfl | hfull
      · simp at hfirst
      · simp at hfull
        omega
  length := h.length_eq hle hover
  reachable := fun x hx => h.reachable x (List.mem_append_left _ hx)
  sorted := (List.pairwise_append.mp h.sorted).1
  complete := by
    intro last hlast x hx hlt
    by_contra hnot
    have hle := h.closest (List.mem_of_getLast? hlast) hx hnot
    omega

/-! ## With a large enough limit every reachable vertex is found -/

theorem finite_walk (next : α → List α) (start : α) :
    ∀ n, {x | Walk next start n x}.Finite := by
  intro n
  induction n with
  | zero =>
    apply (Set.finite_singleton start).subset
    rintro x ⟨⟩
    rfl
  | succ n ih =>
    apply (ih.biUnion fun x _ => (next x).finite_toSet).subset
    rintro y ⟨⟩
    rename_i x hwalk hy
    exact Set.mem_biUnion hwalk hy

/-- Links are finite in number at each vertex, so few vertices are close. -/
theorem finite_close (next : α → List α) (start : α) (d : Nat) :
    {x | Reachable next start x ∧ dist next start x ≤ d}.Finite := by
  apply ((Set.finite_Iic d).biUnion fun n _ => finite_walk next start n).subset
  intro x hx
  exact Set.mem_biUnion (Set.mem_Iic.mpr hx.2) hx.1.walk

namespace BreadthFirst

variable {limit : Nat} {found : List α}

/-- What was found is no further than what was not. -/
theorem dist_le (h : BreadthFirst next start limit found) {x y : α} (hx : x ∈ found)
    (hy : Reachable next start y) (hnot : y ∉ found) : dist next start x ≤ dist next start y := by
  obtain ⟨front, last, rfl⟩ :=
    (List.eq_nil_or_concat' found).resolve_left (List.ne_nil_of_mem hx)
  have hlast : dist next start last ≤ dist next start y := by
    by_contra hlt
    exact hnot (h.complete last (by simp) y hy (by omega))
  rcases List.mem_append.mp hx with hx | hx
  · exact ((List.pairwise_append.mp h.sorted).2.2 x hx last (by simp)).trans hlast
  · rw [List.mem_singleton.mp hx]
    exact hlast

end BreadthFirst

theorem exists_limit {x : α} (hx : Reachable next start x) :
    ∃ limit, 1 ≤ limit ∧ ∀ found, BreadthFirst next start limit found → x ∈ found := by
  have hfinite := finite_close next start (dist next start x)
  refine ⟨hfinite.toFinset.card + 1, by omega, ?_⟩
  intro found h
  by_contra hnot
  have hsub : {y | y ∈ found} ⊆ {y | Reachable next start y ∧ dist next start y ≤ dist next start x} :=
    fun y hy => ⟨h.reachable y hy, h.dist_le hy hx hnot⟩
  have hfew : (found.length : ℕ∞) ≤ hfinite.toFinset.card := by
    rw [← encard_list h.nodup, ← hfinite.encard_eq_coe_toFinset_card]
    exact Set.encard_le_encard hsub
  -- fewer than the limit were found, so nothing reachable is missing
  have hcard : {y | Reachable next start y}.encard = found.length := by
    have hlength := h.length
    rcases min_choice ((hfinite.toFinset.card + 1 : Nat) : ℕ∞) {y | Reachable next start y}.encard
      with hmin | hmin
    · rw [hmin, Nat.cast_inj] at hlength
      rw [Nat.cast_le] at hfew
      omega
    · rw [hlength, hmin]
  have hall : {y | y ∈ found} = {y | Reachable next start y} := by
    have hreach : {y | y ∈ found} ⊆ {y | Reachable next start y} := fun y hy => h.reachable y hy
    apply (List.finite_toSet found).eq_of_subset_of_encard_le hreach
    rw [hcard, encard_list h.nodup]
  exact hnot (hall.symm.subset hx)

end AutoQa.Base.Bfs

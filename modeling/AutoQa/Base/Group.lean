import Mathlib.Algebra.BigOperators.Group.List.Basic
import Mathlib.Data.List.Induction
import Mathlib.Data.List.Nodup

/-!
# Sums by group

A table of sums grows with each item: the row under the item's key takes its
value, or a new row is appended. The table then has one row for each key, in the
order of first use, and the row holds the sum over the items with its key.
-/

namespace AutoQa.Base

variable {ι κ M : Type} [DecidableEq κ] [AddCommMonoid M]

/-- Add `x` to the row under `k`, or append such a row. -/
def deposit (k : κ) (x : M) : List (κ × M) → List (κ × M)
  | [] => [(k, x)]
  | (k', y) :: rest => if k' = k then (k', y + x) :: rest else (k', y) :: deposit k x rest

def depositAll (key : ι → κ) (value : ι → M) (items : List ι) (table : List (κ × M)) :
    List (κ × M) :=
  items.foldl (fun table i => deposit (key i) (value i) table) table

/-- The sum over the items with the key `k`. -/
def groupSum (key : ι → κ) (value : ι → M) (items : List ι) (k : κ) : M :=
  ((items.filter (key · = k)).map value).sum

omit [DecidableEq κ] in
theorem eraseDups_concat [BEq κ] [LawfulBEq κ] (ks : List κ) (k : κ) :
    (ks ++ [k]).eraseDups = ks.eraseDups ++ if k ∈ ks then [] else [k] := by
  rw [List.eraseDups_append]
  by_cases hk : k ∈ ks <;> simp [List.removeAll, List.eraseDups_cons, hk]

omit [DecidableEq κ] in
theorem nodup_eraseDups [BEq κ] [LawfulBEq κ] (ks : List κ) : ks.eraseDups.Nodup := by
  induction ks using List.reverseRecOn with
  | nil => exact List.nodup_nil
  | append_singleton ks k ih =>
    rw [eraseDups_concat]
    by_cases hk : k ∈ ks
    · simpa [hk] using ih
    · rw [if_neg hk]
      refine ih.append (List.nodup_singleton k) ?_
      simpa [List.mem_eraseDups] using hk

theorem groupSum_concat (key : ι → κ) (value : ι → M) (items : List ι) (i : ι) (k : κ) :
    groupSum key value (items ++ [i]) k
      = if k = key i then groupSum key value items k + value i else groupSum key value items k := by
  by_cases hk : key i = k
  · simp [groupSum, hk]
  · simp [groupSum, hk, Ne.symm hk]

theorem groupSum_unused {key : ι → κ} {value : ι → M} {items : List ι} {k : κ}
    (h : k ∉ items.map key) : groupSum key value items k = 0 := by
  have hnone : items.filter (key · = k) = [] := by
    simp only [List.filter_eq_nil_iff, decide_eq_true_eq]
    exact fun i hi heq => h (List.mem_map.mpr ⟨i, hi, heq⟩)
  simp [groupSum, hnone]

/-- A deposit into a table with one row for each of `ks`. -/
theorem deposit_rows (sum : κ → M) (k : κ) (x : M) {ks : List κ} (h : ks.Nodup) :
    deposit k x (ks.map fun j => (j, sum j))
      = (ks.map fun j => (j, if j = k then sum j + x else sum j)) ++ if k ∈ ks then [] else [(k, x)] := by
  induction ks with
  | nil => rfl
  | cons j ks ih =>
    obtain ⟨hj, hks⟩ := List.nodup_cons.mp h
    by_cases hjk : j = k
    · subst hjk
      have hrest : (ks.map fun i => (i, if i = j then sum i + x else sum i))
          = ks.map fun i => (i, sum i) := by
        refine List.map_congr_left fun i hi => ?_
        rw [if_neg (fun heq : i = j => hj (heq ▸ hi))]
      simp [deposit, hrest]
    · have hkj : k ≠ j := Ne.symm hjk
      simp [deposit, hjk, hkj, ih hks]

/-- The table of all deposits: the keys by first use, each with the sum of its group. -/
theorem depositAll_eq [BEq κ] [LawfulBEq κ] (key : ι → κ) (value : ι → M) (items : List ι) :
    depositAll key value items []
      = (items.map key).eraseDups.map fun k => (k, groupSum key value items k) := by
  induction items using List.reverseRecOn with
  | nil => rfl
  | append_singleton items i ih =>
    have hlast : depositAll key value (items ++ [i]) []
        = deposit (key i) (value i) (depositAll key value items []) := by
      simp [depositAll]
    rw [hlast, ih, deposit_rows _ _ _ (nodup_eraseDups _), List.map_append, List.map_singleton,
      eraseDups_concat, List.map_append]
    simp only [groupSum_concat, List.mem_eraseDups]
    by_cases hk : key i ∈ items.map key
    · simp [hk]
    · simp [hk, groupSum_unused hk]

end AutoQa.Base

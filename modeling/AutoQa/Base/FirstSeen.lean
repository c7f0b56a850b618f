import AutoQa.Base.Keyed

/-!
# First occurrences

What a table is of the items that were entered into it, when the lookup asks for the
key of the row: the first item with each key, in order.
-/

namespace AutoQa.Base

variable {ι ρ κ : Type} [DecidableEq κ] (make : ι → ρ) (key : ρ → κ)

/-- The item would stand under the key `k`. -/
def hasKey (k : κ) (i : ι) : Bool := decide (key (make i) = k)

/-- The table has one row for each key of the items, made of the first item with that key,
and the rows come in the order of these items. -/
structure FirstSeen (table : List ρ) (items : List ι) : Prop where
  nodup : (table.map key).Nodup
  mem_iff : ∀ k, k ∈ table.map key ↔ k ∈ items.map fun i => key (make i)
  first : ∀ row ∈ table, (items.find? (hasKey make key (key row))).map make = some row
  ordered : table.Pairwise fun row later =>
    items.findIdx (hasKey make key (key row)) < items.findIdx (hasKey make key (key later))

namespace FirstSeen

variable {make key} {looks : ι → ρ → Bool} {table : List ρ} {items : List ι}

theorem nil : FirstSeen make key [] [] := ⟨.nil, by simp, by simp, .nil⟩

/-- A row's key is that of one of the items. -/
theorem exists_item (h : FirstSeen make key table items) {row : ρ} (hrow : row ∈ table) :
    ∃ i ∈ items, hasKey make key (key row) i = true := by
  obtain ⟨i, hi, hkey⟩ := List.mem_map.mp ((h.mem_iff _).mp (List.mem_map_of_mem hrow))
  exact ⟨i, hi, decide_eq_true hkey⟩

/-- A further item does not move the first item of a row. -/
theorem findIdx_append (h : FirstSeen make key table items) {row : ρ} (hrow : row ∈ table)
    (i : ι) : (items ++ [i]).findIdx (hasKey make key (key row))
      = items.findIdx (hasKey make key (key row)) := by
  rw [List.findIdx_append, if_pos (List.findIdx_lt_length.mpr (h.exists_item hrow))]

theorem find?_append (h : FirstSeen make key table items) {row : ρ} (hrow : row ∈ table) (i : ι) :
    (items ++ [i]).find? (hasKey make key (key row)) = items.find? (hasKey make key (key row)) := by
  obtain ⟨j, hj, hkey⟩ := h.exists_item hrow
  rw [List.find?_append, Option.or_of_isSome]
  exact List.find?_isSome.mpr ⟨j, hj, hkey⟩

/-- An item whose key is there already changes nothing. -/
theorem seen (h : FirstSeen make key table items) {i : ι} (hi : key (make i) ∈ table.map key) :
    FirstSeen make key table (items ++ [i]) where
  nodup := h.nodup
  mem_iff k := by
    rw [h.mem_iff, List.map_append, List.mem_append]
    constructor
    · exact .inl
    · rintro (hk | hk)
      · exact hk
      · rw [List.mem_singleton.mp hk]
        exact (h.mem_iff _).mp hi
  first row hrow := by
    rw [h.find?_append hrow]
    exact h.first row hrow
  ordered := by
    refine h.ordered.imp_of_mem ?_
    intro row later hrow hlater hlt
    rwa [h.findIdx_append hrow, h.findIdx_append hlater]

/-- An item with a new key gets the last row. -/
theorem unseen (h : FirstSeen make key table items) {i : ι} (hi : key (make i) ∉ table.map key) :
    FirstSeen make key (table ++ [make i]) (items ++ [i]) := by
  have hnone : ∀ j ∈ items, hasKey make key (key (make i)) j = false := by
    intro j hj
    have hne : key (make j) ≠ key (make i) := fun heq =>
      hi ((h.mem_iff _).mpr (List.mem_map.mpr ⟨j, hj, heq⟩))
    simp [hasKey, hne]
  have hself : hasKey make key (key (make i)) i = true := decide_eq_true rfl
  refine ⟨?_, ?_, ?_, ?_⟩
  · rw [List.map_append, List.nodup_append']
    refine ⟨h.nodup, by simp, ?_⟩
    intro k hk hnew
    obtain rfl : k = key (make i) := by simpa using hnew
    exact hi hk
  · intro k
    have hk := h.mem_iff k
    rw [List.map_append, List.mem_append, List.map_append, List.mem_append, hk]
    rfl
  · intro row hrow
    rcases List.mem_append.mp hrow with hrow | hrow
    · rw [h.find?_append hrow]
      exact h.first row hrow
    · obtain rfl := List.mem_singleton.mp hrow
      have hfind : items.find? (hasKey make key (key (make i))) = none := by
        rw [List.find?_eq_none]
        intro j hj
        simp [hnone j hj]
      rw [List.find?_append, hfind, Option.none_or, List.find?_singleton, if_pos hself]
      rfl
  · rw [List.pairwise_append]
    refine ⟨?_, List.pairwise_singleton _ _, ?_⟩
    · refine h.ordered.imp_of_mem ?_
      intro row later hrow hlater hlt
      rwa [h.findIdx_append hrow, h.findIdx_append hlater]
    · -- the items of the earlier rows come before the new one
      intro row hrow later hlater
      obtain rfl := List.mem_singleton.mp hlater
      have hlast : items.length ≤ (items ++ [i]).findIdx (hasKey make key (key (make i))) := by
        rw [List.findIdx_append, if_neg]
        · exact Nat.le_add_left _ _
        · rw [List.findIdx_lt_length]
          rintro ⟨j, hj, hkey⟩
          rw [hnone j hj] at hkey
          cases hkey
      rw [h.findIdx_append hrow]
      exact Nat.lt_of_lt_of_le (List.findIdx_lt_length.mpr (h.exists_item hrow)) hlast

/-- Entering one more item. -/
theorem enter (hlooks : ∀ i row, looks i row = decide (key row = key (make i)))
    (h : FirstSeen make key table items) (i : ι) :
    FirstSeen make key (enter looks make table i) (items ++ [i]) := by
  have hfound : table.any (looks i) = true ↔ key (make i) ∈ table.map key := by
    simp only [List.any_eq_true, hlooks, decide_eq_true_eq, List.mem_map]
  cases hany : table.any (looks i) with
  | true =>
    rw [enter_found hany]
    exact h.seen (hfound.mp hany)
  | false =>
    rw [enter_new hany]
    refine h.unseen (fun hmem => ?_)
    rw [hfound.mpr hmem] at hany
    cases hany

end FirstSeen

end AutoQa.Base

import Mathlib.Data.List.Infix
import Mathlib.Data.List.Nodup

/-!
# Tables that are looked up before they grow

An item is looked up in a table, and a row is made of it only if nothing is
found. If the lookup asks for the key under which the row would stand, the table
has one row for each key. This module is about a lookup that may ask for
something else: `Agrees` is what it takes for one item, in the table it meets.
-/

namespace AutoQa.Base

variable {ι ρ κ : Type} (looks : ι → ρ → Bool) (make : ι → ρ) (key : ρ → κ)

/-- Add the row of an item unless the lookup finds one. -/
def enter (table : List ρ) (i : ι) : List ρ :=
  if table.any (looks i) then table else table ++ [make i]

def enterAll (table : List ρ) (items : List ι) : List ρ := items.foldl (enter looks make) table

/-- If the lookup finds something, the row's own key is in the table; if it finds
nothing, it would find the new row. -/
def Agrees (table : List ρ) (i : ι) : Prop :=
  (table.any (looks i) = true → key (make i) ∈ table.map key) ∧
    (table.any (looks i) = false → looks i (make i) = true)

instance [DecidableEq κ] (table : List ρ) (i : ι) : Decidable (Agrees looks make key table i) :=
  inferInstanceAs (Decidable (_ ∧ _))

/-- Every item agrees with the table it meets. -/
def AgreesAlong : List ρ → List ι → Prop
  | _, [] => True
  | table, i :: items => Agrees looks make key table i ∧ AgreesAlong (enter looks make table i) items

instance decidableAgreesAlong [DecidableEq κ] :
    ∀ table items, Decidable (AgreesAlong looks make key table items)
  | _, [] => .isTrue trivial
  | table, i :: items =>
    have := decidableAgreesAlong (enter looks make table i) items
    inferInstanceAs (Decidable (_ ∧ _))

variable {looks make key}

theorem enter_found {table : List ρ} {i : ι} (h : table.any (looks i) = true) :
    enter looks make table i = table := if_pos h

theorem enter_new {table : List ρ} {i : ι} (h : table.any (looks i) = false) :
    enter looks make table i = table ++ [make i] := if_neg (by simp [h])

theorem enter_extends (table : List ρ) (i : ι) : table <+: enter looks make table i := by
  cases h : table.any (looks i) with
  | true => rw [enter_found h]
  | false =>
    rw [enter_new h]
    exact List.prefix_append _ _

theorem enterAll_extends (items : List ι) (table : List ρ) :
    table <+: enterAll looks make table items := by
  induction items generalizing table with
  | nil => exact List.prefix_rfl
  | cons i items ih => exact (enter_extends table i).trans (ih _)

theorem any_of_extends {p : ρ → Bool} {table table' : List ρ} (h : table <+: table')
    (hany : table.any p = true) : table'.any p = true := by
  obtain ⟨row, hrow, hp⟩ := List.any_eq_true.mp hany
  exact List.any_eq_true.mpr ⟨row, h.subset hrow, hp⟩

/-- A table in which every item is found stays as it is. -/
theorem enterAll_found {items : List ι} {table : List ρ}
    (h : ∀ i ∈ items, table.any (looks i) = true) : enterAll looks make table items = table := by
  induction items with
  | nil => rfl
  | cons i items ih =>
    rw [enterAll, List.foldl_cons, enter_found (h i (by simp))]
    exact ih fun j hj => h j (List.mem_cons_of_mem i hj)

namespace Agrees

variable {table : List ρ} {i : ι}

/-- An item that agreed has its key in the table. -/
theorem mem (h : Agrees looks make key table i) :
    key (make i) ∈ (enter looks make table i).map key := by
  cases hfound : table.any (looks i) with
  | true =>
    rw [enter_found hfound]
    exact h.1 hfound
  | false =>
    rw [enter_new hfound]
    simp

/-- An item that agreed is found when it is looked up again. -/
theorem found (h : Agrees looks make key table i) :
    (enter looks make table i).any (looks i) = true := by
  cases hfound : table.any (looks i) with
  | true => rw [enter_found hfound, hfound]
  | false =>
    rw [enter_new hfound]
    simp [h.2 hfound]

/-- An item that agreed leaves one row for each key, if the lookup reads nothing
but keys. -/
theorem nodup (hkey : ∀ r r', key r = key r' → looks i r = looks i r')
    (h : Agrees looks make key table i) (hnodup : (table.map key).Nodup) :
    ((enter looks make table i).map key).Nodup := by
  cases hfound : table.any (looks i) with
  | true => rwa [enter_found hfound]
  | false =>
    rw [enter_new hfound, List.map_append, List.nodup_append']
    refine ⟨hnodup, by simp, ?_⟩
    -- a row with this key would have been found
    intro k hk hnew
    obtain ⟨row, hrow, rfl⟩ := List.mem_map.mp hk
    have hsame : key row = key (make i) := by simpa using hnew
    have hany : table.any (looks i) = true :=
      List.any_eq_true.mpr ⟨row, hrow, (hkey row (make i) hsame).trans (h.2 hfound)⟩
    rw [hfound] at hany
    cases hany

/-- Agreement is all that one item needs: without it, its key is missing, or two
rows have it, or it is added again. -/
theorem iff_enter (hkey : ∀ r r', key r = key r' → looks i r = looks i r')
    (hnodup : (table.map key).Nodup) :
    Agrees looks make key table i ↔
      key (make i) ∈ (enter looks make table i).map key ∧
        ((enter looks make table i).map key).Nodup ∧
        enter looks make (enter looks make table i) i = enter looks make table i := by
  constructor
  · intro h
    exact ⟨h.mem, h.nodup hkey hnodup, enter_found h.found⟩
  · rintro ⟨hmem, -, hagain⟩
    constructor
    · intro hfound
      rwa [enter_found hfound] at hmem
    · intro hfound
      rw [enter_new hfound] at hagain
      by_contra hnot
      have hnone : (table ++ [make i]).any (looks i) = false := by simp_all
      rw [enter_new hnone] at hagain
      simp at hagain

end Agrees

namespace AgreesAlong

theorem found {items : List ι} {table : List ρ} (h : AgreesAlong looks make key table items) :
    ∀ i ∈ items, (enterAll looks make table items).any (looks i) = true := by
  induction items generalizing table with
  | nil => simp
  | cons j items ih =>
    intro i hi
    rcases List.mem_cons.mp hi with rfl | hi
    · exact any_of_extends (enterAll_extends items _) h.1.found
    · exact ih h.2 i hi

theorem mem {items : List ι} {table : List ρ} (h : AgreesAlong looks make key table items) :
    ∀ i ∈ items, key (make i) ∈ (enterAll looks make table items).map key := by
  induction items generalizing table with
  | nil => simp
  | cons j items ih =>
    intro i hi
    rcases List.mem_cons.mp hi with rfl | hi
    · exact ((enterAll_extends items _).map key).subset h.1.mem
    · exact ih h.2 i hi

theorem nodup (hkey : ∀ i r r', key r = key r' → looks i r = looks i r') {items : List ι}
    {table : List ρ} (h : AgreesAlong looks make key table items) (hnodup : (table.map key).Nodup) :
    ((enterAll looks make table items).map key).Nodup := by
  induction items generalizing table with
  | nil => exact hnodup
  | cons i items ih => exact ih h.2 (h.1.nodup (hkey i) hnodup)

/-- The same items add nothing the second time. -/
theorem again {items : List ι} {table : List ρ} (h : AgreesAlong looks make key table items) :
    enterAll looks make (enterAll looks make table items) items
      = enterAll looks make table items :=
  enterAll_found h.found

end AgreesAlong

end AutoQa.Base

import Mathlib.Data.Set.Card

/-! Owns counts over a two-level table: how many entries a predicate selects, and how one
written entry changes that number. The count is an extended natural, so that a finite
counter equal to it also says that finitely many entries are selected. -/

namespace TableCount

universe u v w

variable {ι : Type u} {κ : Type v} {β : Type w}

/-- The places whose entry is selected; the selection may depend on the row. -/
def places (table : ι → κ → β) (select : ι → β → Prop) : Set (ι × κ) :=
  {place | select place.1 (table place.1 place.2)}

/-- How many entries are selected. -/
noncomputable def count (table : ι → κ → β) (select : ι → β → Prop) : ℕ∞ :=
  (places table select).encard

variable {table table' : ι → κ → β} {i : ι} {k : κ} {value : β}

theorem count_congr {select select' : ι → β → Prop}
    (same : ∀ i k, select' i (table' i k) ↔ select i (table i k)) :
    count table' select' = count table select := by
  have places_eq : places table' select' = places table select :=
    Set.ext fun place => same place.1 place.2
  rw [count, places_eq, count]

variable (select : ι → β → Prop)

theorem one_le_count (selected : select i (table i k)) : 1 ≤ count table select :=
  Set.one_le_encard_iff_nonempty.mpr ⟨(i, k), selected⟩

theorem count_eq_zero (none : ∀ i k, ¬ select i (table i k)) : count table select = 0 :=
  Set.encard_eq_zero.mpr (Set.eq_empty_of_forall_notMem fun place => none place.1 place.2)

section Write

variable [DecidableEq ι] [DecidableEq κ]
  (written : ∀ i' k', table' i' k' = if i' = i ∧ k' = k then value else table i' k')

include written

theorem count_write_gain (before : ¬ select i (table i k)) (after : select i value) :
    count table' select = count table select + 1 := by
  have grown : places table' select = insert (i, k) (places table select) := by
    ext ⟨i', k'⟩
    by_cases here : i' = i ∧ k' = k
    · obtain ⟨rfl, rfl⟩ := here
      simpa [places, written] using after
    · simp [places, written, here]
  have absent : (i, k) ∉ places table select := before
  rw [count, grown, Set.encard_insert_of_notMem absent, count]

theorem count_write_loss (before : select i (table i k)) (after : ¬ select i value) :
    count table' select + 1 = count table select := by
  have shrunk : places table' select = places table select \ {(i, k)} := by
    ext ⟨i', k'⟩
    by_cases here : i' = i ∧ k' = k
    · obtain ⟨rfl, rfl⟩ := here
      simpa [places, written] using after
    · simp [places, written, here]
  have member : (i, k) ∈ places table select := before
  rw [count, shrunk, Set.encard_sdiff_singleton_add_one member, count]

theorem count_write_same (same : select i value ↔ select i (table i k)) :
    count table' select = count table select := by
  refine count_congr fun i' k' => ?_
  rw [written]
  split_ifs with here
  · obtain ⟨rfl, rfl⟩ := here
    exact same
  · exact Iff.rfl

end Write

end TableCount

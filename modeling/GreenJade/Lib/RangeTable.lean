import Mathlib

/-! Owns tables of extents that owners hold on resources in modes, such as the ranges of a lock
manager: when the entries of a table are compatible, and which changes of a table keep them so.
An entry may be narrowed or split, a new one may be added where nothing clashes, and two entries
of one owner may be merged. -/

namespace RangeTable

open Function

universe u v w x y

/-- A part of a resource that an owner holds in a mode. -/
structure Held (ρ : Type u) (κ : Type v) (ν : Type w) (α : Type x) where
  resource : ρ
  owner : κ
  mode : ν
  extent : Set α

variable {ι : Type y} {ρ : Type u} {κ : Type v} {ν : Type w} {α : Type x}
variable {clash : ν → ν → Prop} {table table' table'' : ι → Option (Held ρ κ ν α)}

/-- Two entries of one owner are disjoint, and so are two entries of different owners whose modes
clash. -/
structure Compatible (clash : ν → ν → Prop) (table : ι → Option (Held ρ κ ν α)) : Prop where
  own : ∀ i j a b, table i = some a → table j = some b → i ≠ j → a.resource = b.resource →
    a.owner = b.owner → Disjoint a.extent b.extent
  others : ∀ i j a b, table i = some a → table j = some b → a.resource = b.resource →
    a.owner ≠ b.owner → clash a.mode b.mode → Disjoint a.extent b.extent

/-- A part of what another entry holds. -/
structure Held.Within (part whole : Held ρ κ ν α) : Prop where
  resource : part.resource = whole.resource
  owner : part.owner = whole.owner
  mode : part.mode = whole.mode
  extent : part.extent ⊆ whole.extent

theorem Held.Within.refl (held : Held ρ κ ν α) : held.Within held := ⟨rfl, rfl, rfl, subset_rfl⟩

theorem Held.Within.trans {a b c : Held ρ κ ν α} (inner : a.Within b) (outer : b.Within c) :
    a.Within c :=
  ⟨inner.resource.trans outer.resource, inner.owner.trans outer.owner,
    inner.mode.trans outer.mode, inner.extent.trans outer.extent⟩

/-- Each entry of the later table is a part of an entry of the earlier one, and parts of one
entry are disjoint. -/
structure Narrows (table table' : ι → Option (Held ρ κ ν α)) (source : ι → ι) : Prop where
  within : ∀ i a, table' i = some a → ∃ b, table (source i) = some b ∧ a.Within b
  apart : ∀ i j a b, table' i = some a → table' j = some b → i ≠ j → source i = source j →
    Disjoint a.extent b.extent

theorem Narrows.refl (table : ι → Option (Held ρ κ ν α)) : Narrows table table id where
  within _ a entry := ⟨a, entry, .refl a⟩
  apart _ _ _ _ _ _ different same := absurd same different

theorem Narrows.trans {source source' : ι → ι} (first : Narrows table table' source)
    (second : Narrows table' table'' source') : Narrows table table'' (source ∘ source') where
  within i a entry := by
    obtain ⟨b, middle, inner⟩ := second.within i a entry
    obtain ⟨c, root, outer⟩ := first.within (source' i) b middle
    exact ⟨c, root, inner.trans outer⟩
  apart i j a b entryA entryB different same := by
    by_cases direct : source' i = source' j
    · exact second.apart i j a b entryA entryB different direct
    · obtain ⟨c, middleA, withinA⟩ := second.within i a entryA
      obtain ⟨d, middleB, withinB⟩ := second.within j b entryB
      exact (first.apart _ _ c d middleA middleB direct same).mono withinA.extent withinB.extent

theorem Narrows.compatible {source : ι → ι} (narrows : Narrows table table' source)
    (compatible : Compatible clash table) : Compatible clash table' where
  own i j a b entryA entryB different resource owner := by
    by_cases same : source i = source j
    · exact narrows.apart i j a b entryA entryB different same
    · obtain ⟨c, rootA, withinA⟩ := narrows.within i a entryA
      obtain ⟨d, rootB, withinB⟩ := narrows.within j b entryB
      refine (compatible.own _ _ c d rootA rootB same ?_ ?_).mono withinA.extent withinB.extent
      · rw [← withinA.resource, ← withinB.resource]
        exact resource
      · rw [← withinA.owner, ← withinB.owner]
        exact owner
  others i j a b entryA entryB resource owner clashing := by
    obtain ⟨c, rootA, withinA⟩ := narrows.within i a entryA
    obtain ⟨d, rootB, withinB⟩ := narrows.within j b entryB
    rw [withinA.mode, withinB.mode] at clashing
    refine (compatible.others _ _ c d rootA rootB ?_ ?_ clashing).mono withinA.extent withinB.extent
    · rw [← withinA.resource, ← withinB.resource]
      exact resource
    · rw [← withinA.owner, ← withinB.owner]
      exact owner

section Update

variable [DecidableEq ι]

theorem Narrows.erase (table : ι → Option (Held ρ κ ν α)) (i : ι) :
    Narrows table (update table i none) id where
  within j a entry := by
    rw [update_apply] at entry
    split_ifs at entry
    exact ⟨a, entry, .refl a⟩
  apart _ _ _ _ _ _ different same := absurd same different

theorem Narrows.shrink {i : ι} {whole part : Held ρ κ ν α} (entry : table i = some whole)
    (within : part.Within whole) :
    Narrows table (update table i (some part)) id where
  within j a held := by
    rw [update_apply] at held
    split_ifs at held with here
    · cases held
      exact ⟨whole, here ▸ entry, within⟩
    · exact ⟨a, held, .refl a⟩
  apart _ _ _ _ _ _ different same := absurd same different

/-- One entry becomes two, of which the second is written over a free place. -/
theorem Narrows.split {i j : ι} {whole first second : Held ρ κ ν α} (entry : table i = some whole)
    (free : table j = none) (withinFirst : first.Within whole) (withinSecond : second.Within whole)
    (disjoint : Disjoint first.extent second.extent) :
    Narrows table (update (update table i (some first)) j (some second)) (update id j i) where
  within k a held := by
    rw [update_apply, update_apply] at held
    rw [update_apply]
    split_ifs at held ⊢ with atJ atI
    · cases held
      exact ⟨whole, entry, withinSecond⟩
    · cases held
      exact ⟨whole, atI ▸ entry, withinFirst⟩
    · exact ⟨a, held, .refl a⟩
  apart k l a b heldA heldB different same := by
    by_cases kJ : k = j
    · have lJ : l ≠ j := fun lJ => different (kJ.trans lJ.symm)
      have lI : i = l := by simpa [kJ, lJ] using same
      subst kJ lI
      obtain rfl : second = a := by simpa using heldA
      obtain rfl : first = b := by simpa [lJ] using heldB
      exact disjoint.symm
    · by_cases lJ : l = j
      · have kI : k = i := by simpa [kJ, lJ] using same
        subst lJ kI
        obtain rfl : first = a := by simpa [kJ] using heldA
        obtain rfl : second = b := by simpa using heldB
        exact disjoint
      · exact absurd (by simpa [kJ, lJ] using same) different

end Update

/-- An entry that meets no other of its owner and clashes with none of another can be added. -/
theorem Compatible.insert [DecidableEq ι] (compatible : Compatible clash table)
    (symmetric : ∀ m n, clash m n → clash n m) (k : ι) (new : Held ρ κ ν α)
    (own : ∀ i a, table i = some a → a.resource = new.resource → a.owner = new.owner →
      Disjoint new.extent a.extent)
    (others : ∀ i a, table i = some a → a.resource = new.resource → a.owner ≠ new.owner →
      clash new.mode a.mode → Disjoint new.extent a.extent) :
    Compatible clash (update table k (some new)) where
  own i j a b entryA entryB different resource owner := by
    rw [update_apply] at entryA entryB
    split_ifs at entryA entryB with here there there
    · exact absurd (here.trans there.symm) different
    · cases entryA
      exact own j b entryB resource.symm owner.symm
    · cases entryB
      exact (own i a entryA resource owner).symm
    · exact compatible.own i j a b entryA entryB different resource owner
  others i j a b entryA entryB resource owner clashing := by
    rw [update_apply] at entryA entryB
    split_ifs at entryA entryB with here there there
    · cases entryA
      cases entryB
      exact absurd rfl owner
    · cases entryA
      exact others j b entryB resource.symm owner.symm clashing
    · cases entryB
      exact (others i a entryA resource owner (symmetric _ _ clashing)).symm
    · exact compatible.others i j a b entryA entryB resource owner clashing

/-- Two entries of one owner and mode can be merged into the first. -/
theorem Compatible.merge [DecidableEq ι] (compatible : Compatible clash table) {i j : ι}
    {a b : Held ρ κ ν α} (entryA : table i = some a)
    (entryB : table j = some b) (resource : a.resource = b.resource) (owner : a.owner = b.owner)
    (mode : a.mode = b.mode) :
    Compatible clash (update
      (update table i (some { a with extent := a.extent ∪ b.extent })) j none) where
  own k l c d entryC entryD apart sameResource sameOwner := by
    rw [update_apply, update_apply] at entryC entryD
    split_ifs at entryC entryD with atJ atI atJ' atI' atJ' atI'
    · exact absurd (atI.trans atI'.symm) apart
    · cases entryC
      refine Set.disjoint_union_left.mpr ⟨?_, ?_⟩
      · exact compatible.own i l a d entryA entryD (Ne.symm atI') sameResource sameOwner
      · exact compatible.own j l b d entryB entryD (Ne.symm atJ')
          (resource.symm.trans sameResource) (owner.symm.trans sameOwner)
    · cases entryD
      refine Set.disjoint_union_right.mpr ⟨?_, ?_⟩
      · exact compatible.own k i c a entryC entryA atI sameResource sameOwner
      · exact compatible.own k j c b entryC entryB atJ (sameResource.trans resource)
          (sameOwner.trans owner)
    · exact compatible.own k l c d entryC entryD apart sameResource sameOwner
  others k l c d entryC entryD sameResource otherOwner clashing := by
    rw [update_apply, update_apply] at entryC entryD
    split_ifs at entryC entryD with atJ atI atJ' atI' atJ' atI'
    · cases entryC
      cases entryD
      exact absurd rfl otherOwner
    · cases entryC
      refine Set.disjoint_union_left.mpr ⟨?_, ?_⟩
      · exact compatible.others i l a d entryA entryD sameResource otherOwner clashing
      · exact compatible.others j l b d entryB entryD (resource.symm.trans sameResource)
          (owner ▸ otherOwner) (mode ▸ clashing)
    · cases entryD
      refine Set.disjoint_union_right.mpr ⟨?_, ?_⟩
      · exact compatible.others k i c a entryC entryA sameResource otherOwner clashing
      · exact compatible.others k j c b entryC entryB (sameResource.trans resource)
          (owner ▸ otherOwner) (mode ▸ clashing)
    · exact compatible.others k l c d entryC entryD sameResource otherOwner clashing

end RangeTable

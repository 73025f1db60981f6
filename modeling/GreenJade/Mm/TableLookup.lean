import GreenJade.Mm.TableWalk

/-! Owns what the walk of `vmm.c` that only looks up does to the layout of the tables. It changes
nothing but a large page in its way, which it splits even if the table is the template's; and it
changes no leaf of any space. -/

namespace GreenJade.Mm

open Proc Option Bool

variable {st st' : Vmm} {own own' : Frame → Role} {t f root : Frame} {path : List Index}
  {page : VPage}

theorem Layout.root_small (layout : Layout st own) (isRoot : st.Root root) (i : Index)
    (isPresent : present (st.mem root i) = true) : large (st.mem root i) = false := by
  rcases isRoot with rfl | live
  · exact layout.kernelSmall i isPresent
  · rcases layout.tableNext root root [] i (layout.spaceRoot root live) (by simp) isPresent with
      shared | ⟨notEmpty, -⟩ | ⟨usable, -⟩
    · have same : st.mem st.kernelCr3 i = st.mem root i := some.inj shared
      rw [← same] at isPresent ⊢
      exact layout.kernelSmall i isPresent
    · exact absurd rfl notEmpty
    · exact usable.small

theorem nextTable_lookup (slot : Slot) :
    st.nextTable slot false none = (present (st.entry slot), st) := by
  unfold Vmm.nextTable
  cases present (st.entry slot) <;> rfl

theorem walkPt_lookup (pd : Frame) (page : VPage) : st.walkPt ⟨pd, page.i2⟩ page false false =
      if present (st.mem pd page.i2) = false then (none, st)
      else (some ⟨frameOf (st.mem pd page.i2), page.i1⟩, st) := by
  simp only [Vmm.walkPt, false_eq_true, if_false, nextTable_lookup, entry_mk]
  cases present (st.mem pd page.i2) <;> rfl

theorem walkPde_lookup (pd : Frame) (page : VPage) : st.walkPde ⟨pd, page.i2⟩ page false false =
      if present (st.mem pd page.i2) = false then (none, st)
      else if large (st.mem pd page.i2) = false then
        (some ⟨frameOf (st.mem pd page.i2), page.i1⟩, st)
      else
        match st.splitLargePde ⟨pd, page.i2⟩ with
        | (false, st) => (none, st)
        | (true, st) => st.walkPt ⟨pd, page.i2⟩ page false false := by
  have start : st.ownPde ⟨pd, page.i2⟩ none = (true, st) := rfl
  simp only [Vmm.walkPde, false_eq_true, if_false, start, entry_mk]
  rcases eq_false_or_eq_true (present (st.mem pd page.i2)) with isPresent | absent
  · rcases eq_false_or_eq_true (large (st.mem pd page.i2)) with wide | small
    · rcases st.splitLargePde ⟨pd, page.i2⟩ with ⟨_ | _, after⟩ <;>
        simp only [isPresent, wide, Bool.and_self, true_eq_false, if_true, if_false]
    · simp only [walkPt_lookup, isPresent, small, Bool.and_false, false_eq_true, if_true,
      if_false]
  · simp only [walkPt_lookup, absent, Bool.false_and, false_eq_true, if_true, if_false]

/-- The lookup comes to the third level as the processor does, and then goes on past a large page
by splitting it. -/
theorem Layout.walkPte_lookup (layout : Layout st own) (isRoot : st.Root st.cr3) (page : VPage) :
    st.walkPte page false = match st.tableAt [page.i4, page.i3] st.cr3 with
      | none => (none, st)
      | some pd =>
        if present (st.mem pd page.i2) = false then (none, st)
        else if large (st.mem pd page.i2) = false then
          (some ⟨frameOf (st.mem pd page.i2), page.i1⟩, st)
        else
          match st.splitLargePde ⟨pd, page.i2⟩ with
          | (false, st) => (none, st)
          | (true, st) => st.walkPt ⟨pd, page.i2⟩ page false false := by
  simp only [Vmm.walkPte, Vmm.walkPdEntry, Vmm.walkPdpt, Bool.false_and, false_eq_true, if_false,
    nextTable_lookup, entry_mk, Vmm.tableAt]
  rcases eq_false_or_eq_true (present (st.mem st.cr3 page.i4)) with present4 | absent4
  · have leads4 : next (st.mem st.cr3 page.i4) = some (frameOf (st.mem st.cr3 page.i4)) :=
      next_eq_some.mpr ⟨present4, layout.root_small isRoot _ present4, rfl⟩
    simp only [present4, leads4, bind_some]
    rcases eq_false_or_eq_true
      (present (st.mem (frameOf (st.mem st.cr3 page.i4)) page.i3)) with present3 | absent3
    · rcases eq_false_or_eq_true
        (large (st.mem (frameOf (st.mem st.cr3 page.i4)) page.i3)) with wide3 | small3
      · simp only [present3, wide3, next, Bool.not_true, Bool.and_false, false_eq_true,
          if_true, if_false, bind_none]
      · simp only [present3, small3, next, Bool.not_false, Bool.and_true, false_eq_true,
        if_true, bind_some]
        exact walkPde_lookup _ page
    · simp only [absent3, next, Bool.false_and, false_eq_true, if_false, bind_none]
  · simp only [absent4, next, Bool.false_and, false_eq_true, if_false, bind_none]

/-- The table in which a page of a space is mapped, by a leaf or within a large page. -/
def Vmm.lastTable (st : Vmm) (root : Frame) (page : VPage) : Option Frame :=
  (st.tableAt [page.i4, page.i3] root).bind fun pd =>
    if present (st.mem pd page.i2) && large (st.mem pd page.i2) then some pd
    else next (st.mem pd page.i2)

/-- The active space maps the page in a table of the template. -/
def Vmm.SharesTable (st : Vmm) (page : VPage) : Prop :=
  (st.lastTable st.cr3 page).isSome ∧ st.lastTable st.cr3 page = st.lastTable st.kernelCr3 page

instance (page : VPage) : Decidable (st.SharesTable page) :=
  inferInstanceAs (Decidable (_ ∧ _))

/-- A table of the template is reached from the template the same way. -/
theorem Layout.tableAt_kernel (layout : Layout st own) (isRoot : st.Root root)
    (short : path.length ≤ 3) (reached : st.tableAt path root = some t)
    (kernel : own t = .kernel path.length) : st.tableAt path st.kernelCr3 = some t := by
  induction path using List.reverseRecOn generalizing t with
  | nil =>
    cases reached
    rcases isRoot with rfl | live
    · rfl
    · rw [layout.spaceRoot root live] at kernel
      cases kernel
  | append_singleton path i ih =>
    rw [List.length_append, List.length_singleton] at short
    rw [Vmm.tableAt_snoc] at reached ⊢
    obtain ⟨last, reached, leads⟩ := bind_eq_some_iff.mp reached
    rcases layout.tableAt_role isRoot (by omega) reached with lastKernel | lastTable
    · rw [ih (by omega) reached lastKernel]
      exact leads
    · obtain ⟨isPresent, small, rfl⟩ := next_eq_some.mp leads
      rcases layout.tableNext last root path i lastTable (by omega) isPresent with
        shared | wide | own
      · obtain ⟨last', reached', same⟩ := map_eq_some_iff.mp shared
        rw [reached', bind_some, same]
        exact leads
      · exact nomatch small.symm.trans wide.2
      · rw [own.2] at kernel
        cases kernel

theorem lastTable_of_tableAt (reached : st.tableAt [page.i4, page.i3, page.i2] root = some t) :
    st.lastTable root page = some t := by
  obtain ⟨pd, reached, leads⟩ := tableAt_third reached
  rw [Vmm.lastTable, reached, bind_some, (next_eq_some.mp leads).2.1, Bool.and_false]
  exact leads

theorem lastTable_of_large (reached : st.tableAt [page.i4, page.i3] root = some t)
    (isPresent : present (st.mem t page.i2) = true) (wide : large (st.mem t page.i2) = true) :
    st.lastTable root page = some t := by
  rw [Vmm.lastTable, reached, bind_some, isPresent, wide]
  rfl

/-- Where a lookup has come to: the place of the leaf, in a table of the space or of the template.
A large page that was in the way has been split. -/
structure Found (st : Vmm) (own : Frame → Role) (page : VPage) (slot : Slot) (st' : Vmm)
    (own' : Frame → Role) : Prop where
  entry : st'.entry slot = st.leafPte st.cr3 page
  index : slot.index = page.i1
  home : (own' slot.table = .table st.cr3 [page.i4, page.i3, page.i2] ∧
      Grows (some st.cr3) st own st' own') ∨
    own' slot.table = .kernel 3 ∧ Grows none st own st' own' ∧ st.SharesTable page

theorem Layout.walkPte_reached (layout : Layout st own) (isRoot : st.Root st.cr3)
    (reached : st.tableAt [page.i4, page.i3, page.i2] st.cr3 = some t) :
    st.walkPte page false = (some ⟨t, page.i1⟩, st) := by
  obtain ⟨pd, atThird, leads⟩ := tableAt_third reached
  obtain ⟨isPresent, small, rfl⟩ := next_eq_some.mp leads
  rw [layout.walkPte_lookup isRoot, atThird]
  simp only [isPresent, small, true_eq_false, if_true, if_false]

theorem Layout.found_reached (layout : Layout st own) (isRoot : st.Root st.cr3)
    (reached : st.tableAt [page.i4, page.i3, page.i2] st.cr3 = some t) :
    Found st own page ⟨t, page.i1⟩ st own where
  entry := (leafPte_of_tableAt reached).symm
  index := rfl
  home := by
    rcases layout.tableAt_role isRoot (by simp) reached with kernel | table
    · refine .inr ⟨kernel, .refl layout, ?_⟩
      have template := layout.tableAt_kernel isRoot (by simp) reached kernel
      rw [Vmm.SharesTable, lastTable_of_tableAt reached, lastTable_of_tableAt template]
      exact ⟨rfl, rfl⟩
    · exact .inl ⟨table, .refl layout⟩

theorem Layout.found_split (layout : Layout st own) (isRoot : st.Root st.cr3) {pd : Frame}
    (reached : st.tableAt [page.i4, page.i3] st.cr3 = some pd)
    (isPresent : present (st.mem pd page.i2) = true) (wide : large (st.mem pd page.i2) = true)
    (new : NewTable st own st' (own pd) pd page.i2 f) :
    Found st own page ⟨f, page.i1⟩ st' (Function.update own f ((own pd).child page.i2)) where
  entry := by
    have level : (own pd).level = 2 := by
      rcases layout.tableAt_role isRoot (by simp) reached with kernel | table
      · rw [kernel]
        rfl
      · rw [table]
        rfl
    have same := new.same [page.i1] (by rw [level]; rfl) fun u r mine => by
      rw [leafFrom_cons, new.mem_of_ne layout _ mine.not_free]
      · rfl
      · rintro rfl
        rw [level] at mine
        rcases mine with kernel | ⟨path, table, length⟩
        · rw [kernel] at level
          cases level
        · rw [table, Role.level] at level
          omega
    rw [behind_next new.leads] at same
    rw [leafPte_eq_behind, reached]
    refine same.trans (behind_congr fun child leads => ?_)
    rfl
  index := rfl
  home := by
    have grows := new.grows layout
    rcases layout.tableAt_role isRoot (by simp) reached with kernel | table
    · rw [kernel] at grows ⊢
      refine .inr ⟨by rw [Function.update_self]; rfl, grows, ?_⟩
      have template := layout.tableAt_kernel isRoot (by simp) reached kernel
      rw [Vmm.SharesTable, lastTable_of_large reached isPresent wide,
        lastTable_of_large template isPresent wide]
      exact ⟨rfl, rfl⟩
    · rw [table] at grows ⊢
      exact .inl ⟨by rw [Function.update_self]; rfl, grows⟩

/-- What a lookup does: it finds no place, or the place of the leaf. -/
theorem Layout.walkPte_found (layout : Layout st own) (isRoot : st.Root st.cr3) (page : VPage) :
    (∃ st', st.walkPte page false = (none, st') ∧ Untouched st st') ∨
      ∃ slot st' own', st.walkPte page false = (some slot, st') ∧
        Found st own page slot st' own' := by
  cases reached : st.tableAt [page.i4, page.i3] st.cr3 with
  | none =>
    refine .inl ⟨st, ?_, .refl st⟩
    rw [layout.walkPte_lookup isRoot, reached]
  | some pd =>
    rcases eq_false_or_eq_true (present (st.mem pd page.i2)) with isPresent | absent
    · rcases eq_false_or_eq_true (large (st.mem pd page.i2)) with wide | small
      · have kind : (∃ root path, own pd = .table root path ∧ path.length = 2) ∨
            own pd = .kernel 2 :=
          (layout.tableAt_role isRoot (by simp) reached).symm.imp_left fun table =>
            ⟨_, _, table, rfl⟩
        rw [layout.walkPte_lookup isRoot, reached]
        simp only [isPresent, wide]
        rcases splitLargePde_spec layout rfl kind isPresent wide with
          ⟨after, outcome, untouched⟩ | ⟨after, f, outcome, new⟩ <;> rw [outcome]
        · exact .inl ⟨after, rfl, untouched⟩
        · refine .inr ⟨⟨f, page.i1⟩, after, _, ?_,
            layout.found_split isRoot reached isPresent wide new⟩
          simp only [walkPt_lookup, new.usable.present, true_eq_false, if_false, new.frame]
      · have last : st.tableAt [page.i4, page.i3, page.i2] st.cr3 =
            some (frameOf (st.mem pd page.i2)) := by
          rw [show [page.i4, page.i3, page.i2] = [page.i4, page.i3] ++ [page.i2] from rfl,
            Vmm.tableAt_snoc, reached]
          exact next_eq_some.mpr ⟨isPresent, small, rfl⟩
        exact .inr ⟨_, st, own, layout.walkPte_reached isRoot last,
          layout.found_reached isRoot last⟩
    · refine .inl ⟨st, ?_, .refl st⟩
      rw [layout.walkPte_lookup isRoot, reached]
      simp only [absent, if_true]

theorem present_piece (e : U64) (i : Index) : present (piece e i) = true := by
  unfold present piece
  simp [GjUserPte.p]

/-- Without a leaf there is nothing to split. -/
theorem Layout.walkPte_absent (layout : Layout st own) (isRoot : st.Root st.cr3)
    (absent : present (st.leafPte st.cr3 page) = false) :
    st.walkPte page false = (none, st) ∨
      ∃ slot, st.walkPte page false = (some slot, st) ∧ present (st.entry slot) = false := by
  rw [leafPte_eq_behind] at absent
  rw [layout.walkPte_lookup isRoot]
  cases reached : st.tableAt [page.i4, page.i3] st.cr3 with
  | none => exact .inl rfl
  | some pd =>
    rw [reached] at absent
    rcases eq_false_or_eq_true (present (st.mem pd page.i2)) with isPresent | absent2
    · rcases eq_false_or_eq_true (large (st.mem pd page.i2)) with wide | small
      · simp only [behind, isPresent, wide, true_eq_false, if_true, if_false,
          present_piece] at absent
      · simp only [behind, isPresent, small, false_eq_true, if_false] at absent
        simp only [isPresent, small, true_eq_false]
        exact .inr ⟨_, rfl, absent⟩
    · refine .inl ?_
      simp only [absent2, if_true]

/-- A lookup in full: there is no leaf and nothing has changed, or its place has been found. -/
theorem Layout.walkPte_cases (layout : Layout st own) (isRoot : st.Root st.cr3) (page : VPage) :
    (∃ st', Untouched st st' ∧ (st.walkPte page false = (none, st') ∨
      ∃ slot, st.walkPte page false = (some slot, st') ∧ present (st'.entry slot) = false)) ∨
    (present (st.leafPte st.cr3 page) = true ∧ ∃ slot st' own',
      st.walkPte page false = (some slot, st') ∧ Found st own page slot st' own') := by
  rcases eq_false_or_eq_true (present (st.leafPte st.cr3 page)) with isPresent | absent
  · rcases layout.walkPte_found isRoot page with ⟨st', outcome, untouched⟩ | found
    · exact .inl ⟨st', untouched, .inl outcome⟩
    · exact .inr ⟨isPresent, found⟩
  · exact .inl ⟨st, .refl st, layout.walkPte_absent isRoot absent⟩

end GreenJade.Mm

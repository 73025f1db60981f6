import GreenJade.Mm.PageCalls

/-! Owns the loops over pages: the loop of `vmm_munmap`, the loop of `vmm_mmap_anon` and its way
back. Each page that is taken down is mapped by a page table, and its frame is a page that no other
of them is mapped to; so a loop clears leaves and gives back each frame once, and no table is
touched otherwise. -/

namespace GreenJade.Mm

open Proc Function Vmm
open Vmm (pageAfter pageAlign pageCount anonPlace)

variable {st st' st'' : Vmm} {own own' own'' : Frame → Role} {t f : Frame} {page : VPage}
  {touch : Role → Prop} {kind : U64 → Prop} {pages : Set VPage}

/-! ### Pages that are taken down -/

/-- The pages that the active space maps. -/
def Vmm.mapped (st : Vmm) : Set VPage := {page | present (st.leafPte st.cr3 page) = true}

theorem Vmm.mem_mapped : page ∈ st.mapped ↔ present (st.leafPte st.cr3 page) = true := .rfl

/-- The frame that the leaf of a page names. -/
def Vmm.pageFrame (st : Vmm) (page : VPage) : Frame := frameOf (st.leafPte st.cr3 page)

/-- The two pages have one leaf. -/
def Vmm.SameLeaf (st : Vmm) (page other : VPage) : Prop :=
  st.tableAt [page.i4, page.i3, page.i2] st.cr3 = st.tableAt [other.i4, other.i3, other.i2] st.cr3 ∧
    page.i1 = other.i1

/-- The pages of a range. -/
def pagesFrom (base : U64) (count : Nat) : Set VPage :=
  {page | ∃ i < count, page = pageOf (pageAfter base i)}

/-- Those pages of a set that are mapped have leaves of a kind in page tables of a kind, and are
mapped to pages, no two leaves to the same. -/
structure Detachable (touch : Role → Prop) (kind : U64 → Prop) (st : Vmm) (own : Frame → Role)
    (pages : Set VPage) : Prop where
  leaf : ∀ page ∈ pages ∩ st.mapped, kind (st.leafPte st.cr3 page)
  table : ∀ page ∈ pages ∩ st.mapped,
    ∃ t, st.tableAt [page.i4, page.i3, page.i2] st.cr3 = some t ∧ touch (own t)
  isPage : ∀ page ∈ pages ∩ st.mapped, (own (st.pageFrame page)).IsPage
  apart : ∀ page ∈ pages ∩ st.mapped, ∀ other ∈ pages ∩ st.mapped,
    st.pageFrame page = st.pageFrame other → st.SameLeaf page other

theorem Layout.detachable_of_once (layout : Layout st own) {touch : Role → Prop}
    (table : ∀ page ∈ pages ∩ st.mapped,
      ∃ t, st.tableAt [page.i4, page.i3, page.i2] st.cr3 = some t ∧ touch (own t))
    (isPage : ∀ page ∈ pages ∩ st.mapped, st.IsPageFrame (st.pageFrame page))
    (once : Set.InjOn st.pageFrame (pages ∩ st.mapped)) :
    Detachable touch (fun _ => True) st own pages where
  leaf _ _ := trivial
  table := table
  isPage page member := layout.isPage_iff.mpr (isPage page member)
  apart page member other member' same := by
    rw [once member member' same]
    exact ⟨rfl, rfl⟩

/-- What is mapped has been mapped before, in the same way, to frames that keep their roles. -/
theorem Detachable.of_kept (detachable : Detachable touch kind st own pages)
    (leaf : ∀ page ∈ st'.mapped, st'.leafPte st'.cr3 page = st.leafPte st.cr3 page)
    (reach : ∀ (page : VPage) t, st.tableAt [page.i4, page.i3, page.i2] st.cr3 = some t →
      touch (own t) →
      st'.tableAt [page.i4, page.i3, page.i2] st'.cr3 = some t ∧ own' t = own t)
    (roles : ∀ page ∈ pages ∩ st'.mapped, own' (st.pageFrame page) = own (st.pageFrame page)) :
    Detachable touch kind st' own' pages := by
  have frame (page : VPage) (isMapped : page ∈ st'.mapped) :
      st'.pageFrame page = st.pageFrame page := congrArg frameOf (leaf page isMapped)
  have before (page : VPage) (member : page ∈ pages ∩ st'.mapped) : page ∈ pages ∩ st.mapped := by
    refine ⟨member.1, ?_⟩
    rw [mem_mapped, ← leaf page member.2]
    exact member.2
  constructor
  · intro page member
    rw [leaf page member.2]
    exact detachable.leaf page (before page member)
  · intro page member
    obtain ⟨t, reached, touched⟩ := detachable.table page (before page member)
    obtain ⟨reached', same⟩ := reach page t reached touched
    rw [← same] at touched
    exact ⟨t, reached', touched⟩
  · intro page member
    rw [frame page member.2, roles page member]
    exact detachable.isPage page (before page member)
  · intro page member other member' same
    rw [frame page member.2, frame other member'.2] at same
    obtain ⟨t, reached, touched⟩ := detachable.table page (before page member)
    obtain ⟨tables, index⟩ := detachable.apart _ (before page member) _ (before other member') same
    refine ⟨?_, index⟩
    rw [(reach page t reached touched).1, (reach other t (tables ▸ reached) touched).1]

/-- Pages of the active space have been taken down, and tables are where they were. A frame has
another role only if a page of the set was mapped to it and no longer is. -/
structure TakesDown (touch : Role → Prop) (pages : Set VPage) (st : Vmm) (own : Frame → Role)
    (st' : Vmm) (own' : Frame → Role) : Prop extends Works touch st own st' own' where
  tables : ∀ f, (own' f).IsTable → (own f).IsTable
  leaf : ∀ page ∈ st'.mapped, st'.leafPte st'.cr3 page = st.leafPte st.cr3 page
  reach : ∀ page : VPage, ∀ t, st.tableAt [page.i4, page.i3, page.i2] st.cr3 = some t →
    st'.tableAt [page.i4, page.i3, page.i2] st'.cr3 = some t
  released : ∀ f, own' f = own f ∨
    ∃ page ∈ pages ∩ st.mapped, st.pageFrame page = f ∧ page ∉ st'.mapped

theorem TakesDown.refl (layout : Layout st own) : TakesDown touch pages st own st own :=
  ⟨.refl layout, fun _ => id, fun _ _ => rfl, fun _ _ => id, fun _ => .inl rfl⟩

theorem TakesDown.mapped (down : TakesDown touch pages st own st' own') :
    st'.mapped ⊆ st.mapped := by
  intro page isMapped
  rw [mem_mapped, ← down.leaf page isMapped]
  exact isMapped

theorem TakesDown.trans (first : TakesDown touch pages st own st' own')
    (second : TakesDown touch pages st' own' st'' own'') :
    TakesDown touch pages st own st'' own'' where
  toWorks := first.toWorks.trans second.toWorks (.inr second.tables)
  tables f table := first.tables f (second.tables f table)
  leaf page isMapped :=
    (second.leaf page isMapped).trans (first.leaf page (second.mapped isMapped))
  reach page t reached := second.reach page t (first.reach page t reached)
  released f := by
    rcases second.released f with same | ⟨page, ⟨member, isMapped⟩, names, gone⟩
    · rw [same]
      apply (first.released f).imp_right
      rintro ⟨page, member, names, gone⟩
      exact ⟨page, member, names, fun later => gone (second.mapped later)⟩
    · refine .inr ⟨page, ⟨member, first.mapped isMapped⟩, ?_, gone⟩
      rw [← names]
      exact congrArg frameOf (first.leaf page isMapped).symm

theorem TakesDown.isRoot (down : TakesDown touch pages st own st' own') (isRoot : st.Root st.cr3) :
    st'.Root st'.cr3 := by
  rw [down.cr3]
  exact down.root_iff.mpr isRoot

theorem TakesDown.detachable (down : TakesDown touch pages st own st' own')
    (layout : Layout st own) (isRoot : st.Root st.cr3)
    (detachable : Detachable touch kind st own pages) : Detachable touch kind st' own' pages := by
  refine detachable.of_kept down.leaf (fun page t reached _ => ⟨down.reach page t reached, ?_⟩)
    fun page member => (down.released _).resolve_right ?_
  · exact down.roles t (layout.isTable_iff.mpr ⟨st.cr3, _, isRoot, by simp, reached⟩)
  · rintro ⟨other, member', names, gone⟩
    have before : page ∈ pages ∩ st.mapped := ⟨member.1, down.mapped member.2⟩
    obtain ⟨t, reached, -⟩ := detachable.table page before
    obtain ⟨tables, index⟩ := detachable.apart other member' page before names
    have leaf := leafPte_of_tableAt (down.reach other t (tables.trans reached))
    rw [index, ← leafPte_of_tableAt (down.reach page t reached)] at leaf
    apply gone
    rw [mem_mapped, leaf]
    exact member.2

/-- A leaf is written by a table that the active space has come to. -/
theorem Layout.writeReached (layout : Layout st own) (isRoot : st.Root st.cr3)
    (reached : st.tableAt [page.i4, page.i3, page.i2] st.cr3 = some t) (touched : touch (own t))
    (e : U64) : Works touch st own (st.setEntry ⟨t, page.i1⟩ e) own := by
  have here (f : Frame) (foreign : ¬ touch (own f)) :
      (st.setEntry ⟨t, page.i1⟩ e).mem f = st.mem f := by
    apply setEntry_mem_of_table_ne
    rintro rfl
    exact foreign touched
  rcases layout.tableAt_role isRoot (by simp) reached with kernel | table
  · have written : Works _ st own (st.setEntry ⟨t, page.i1⟩ e) own := layout.setKernelLeaf kernel e
    exact { written with mem := fun f _ foreign => here f foreign }
  · have written : Works _ st own (st.setEntry ⟨t, page.i1⟩ e) own :=
      layout.setLeaf ⟨rfl, table⟩ e
    exact { written with mem := fun f _ foreign => here f foreign }

theorem Layout.level_reached (layout : Layout st own) (isRoot : st.Root st.cr3)
    (reached : st.tableAt [page.i4, page.i3, page.i2] st.cr3 = some t) : (own t).level = 3 := by
  rcases layout.tableAt_role isRoot (by simp) reached with kernel | table
  · rw [kernel]
    rfl
  · rw [table]
    rfl

/-- The leaf is cleared, and its frame may be given back. -/
theorem Layout.detach (layout : Layout st own) (isRoot : st.Root st.cr3)
    (member : page ∈ pages ∩ st.mapped)
    (reached : st.tableAt [page.i4, page.i3, page.i2] st.cr3 = some t) (touched : touch (own t))
    (recasts : Recasts (st.setEntry ⟨t, page.i1⟩ 0) own st' own')
    (others : ∀ g, g ≠ st.pageFrame page → own' g = own g) :
    TakesDown touch pages st own st' own' := by
  have last := layout.level_reached isRoot reached
  have cleared := layout.writeReached isRoot reached touched 0
  have cr3 : st'.cr3 = st.cr3 := recasts.cr3
  have leaf (q : VPage) : st'.leafPte st'.cr3 q = if st.tableAt [q.i4, q.i3, q.i2] st.cr3 = some t ∧
      q.i1 = page.i1 then 0 else st.leafPte st.cr3 q := by
    rw [cr3, recasts.leaf cleared.layout isRoot]
    exact layout.leafPte_setEntry last 0 isRoot q
  refine ⟨cleared.trans recasts.works (.inr recasts.tables), recasts.tables, fun q isMapped => ?_,
    fun q u reached' => ?_, fun f => ?_⟩
  · rw [mem_mapped, leaf q] at isMapped
    rw [leaf q]
    split_ifs at isMapped ⊢ with here
    · exact nomatch present_zero.symm.trans isMapped
    · rfl
  · rw [cr3, recasts.tableAt cleared.layout isRoot (by simp)]
    exact (layout.tableAt_setEntry last isRoot (by simp)).trans reached'
  · by_cases here : f = st.pageFrame page
    · refine .inr ⟨page, member, here.symm, fun isMapped => ?_⟩
      rw [mem_mapped, leaf page, if_pos ⟨reached, rfl⟩] at isMapped
      exact nomatch present_zero.symm.trans isMapped
    · exact .inl (others f here)

section Reached

variable {va : U64} (layout : Layout st own) (isRoot : st.Root st.cr3)
include layout isRoot

theorem Layout.unmapPage_reached (isPresent : present (st.leafPte st.cr3 (pageOf va)) = true)
    (reached : st.tableAt [(pageOf va).i4, (pageOf va).i3, (pageOf va).i2] st.cr3 = some t) :
    st.vmmUnmapPage va =
      (.ok, st.unmapLeaf ⟨t, (pageOf va).i1⟩ va (st.leafPte st.cr3 (pageOf va))) := by
  have entry : st.entry ⟨t, (pageOf va).i1⟩ = st.leafPte st.cr3 (pageOf va) :=
    (leafPte_of_tableAt reached).symm
  simp only [vmmUnmapPage, layout.walkPte_reached isRoot reached, entry, isPresent,
    Bool.true_eq_false, if_false, unmapLeaf]
  split_ifs <;> rfl

theorem Layout.virtToPhys_reached (isPresent : present (st.leafPte st.cr3 (pageOf va)) = true)
    (reached : st.tableAt [(pageOf va).i4, (pageOf va).i3, (pageOf va).i2] st.cr3 = some t) :
    st.vmmVirtToPhys va =
      (framePa (frameOf (st.leafPte st.cr3 (pageOf va))) ||| (va &&& 0xfff), st) := by
  have entry : st.entry ⟨t, (pageOf va).i1⟩ = st.leafPte st.cr3 (pageOf va) :=
    (leafPte_of_tableAt reached).symm
  simp only [vmmVirtToPhys, layout.walkPte_reached isRoot reached, entry, isPresent, if_true]

theorem Layout.readPte_reached
    (reached : st.tableAt [(pageOf va).i4, (pageOf va).i3, (pageOf va).i2] st.cr3 = some t) :
    st.vmmReadPte va = (st.leafPte st.cr3 (pageOf va), st) := by
  have entry : st.entry ⟨t, (pageOf va).i1⟩ = st.leafPte st.cr3 (pageOf va) :=
    (leafPte_of_tableAt reached).symm
  simp [vmmReadPte, layout.walkPte_reached isRoot reached, entry]

/-- Without a leaf the calls change nothing. -/
theorem Layout.calls_absent (absent : present (st.leafPte st.cr3 (pageOf va)) = false) :
    (st.vmmReadPte va).2 = st ∧ st.vmmVirtToPhys va = (0, st) ∧
      st.vmmUnmapPage va = (.errNoent, st) := by
  unfold vmmReadPte vmmVirtToPhys vmmUnmapPage
  rcases layout.walkPte_absent isRoot absent with walk | ⟨slot, walk, absentEntry⟩ <;> rw [walk]
  · exact ⟨rfl, rfl, rfl⟩
  · simp only [absentEntry, Bool.false_eq_true, if_true, if_false, and_self]

/-- A page is unmapped and, if a test says so, its frame given back. -/
theorem Layout.unmapFree_down (member : pageOf va ∈ pages ∩ st.mapped)
    (detachable : Detachable touch kind st own pages) (gives : Prop) [Decidable gives]
    (plain : gives → cowBit (st.leafPte st.cr3 (pageOf va)) = false) :
    ∃ own', TakesDown touch pages st own (if gives then
      (st.vmmUnmapPage va).2.pmmFree (st.pageFrame (pageOf va))
      else (st.vmmUnmapPage va).2) own' := by
  obtain ⟨t, reached, touched⟩ := detachable.table _ member
  have isPage := detachable.isPage _ member
  have cleared := (layout.writeReached isRoot reached touched 0).layout
  have detach {after : Vmm} {own' : Frame → Role} (recasts : Recasts _ own after own') :=
    layout.detach isRoot member reached touched recasts
  rw [layout.unmapPage_reached isRoot member.2 reached]
  dsimp only [unmapLeaf]
  split_ifs with test shares shares
  · exact nomatch (plain test).symm.trans shares.2.1
  · obtain ⟨own', recasts, others⟩ := cleared.pmmFree isPage
    exact ⟨own', detach recasts others⟩
  · obtain ⟨own', recasts, others⟩ := cleared.releaseLeafFrame isPage
    exact ⟨own', detach recasts others⟩
  · exact ⟨own, detach (.refl cleared) fun _ _ => rfl⟩

end Reached

theorem frameOf_offset (f : Frame) (va : U64) : frameOf (framePa f ||| (va &&& 0xfff)) = f := by
  rw [frameOf_or, frameOf_framePa, frameOf_and, show frameOf (0xfff : U64) = 0#40 by decide,
    BitVec.and_zero, BitVec.or_zero]

/-! ### `vmm_munmap` -/

theorem Layout.munmapPage_down (layout : Layout st own) (isRoot : st.Root st.cr3) {va : U64}
    (detachable : Detachable touch kind st own pages) (member : pageOf va ∈ pages) :
    ∃ own', TakesDown touch pages st own (st.munmapPage va) own' := by
  rcases Bool.eq_false_or_eq_true (present (st.leafPte st.cr3 (pageOf va))) with
    isPresent | absent
  · obtain ⟨t, reached, -⟩ := detachable.table _ ⟨member, isPresent⟩
    simp only [munmapPage, layout.readPte_reached isRoot reached,
      layout.virtToPhys_reached isRoot isPresent reached, frameOf_offset]
    exact layout.unmapFree_down isRoot ⟨member, isPresent⟩ detachable _ And.right
  · obtain ⟨read, phys, unmap⟩ := layout.calls_absent isRoot absent
    simp only [munmapPage, read, phys, unmap, ne_eq, not_true_eq_false]
    exact ⟨own, .refl layout⟩

theorem Layout.munmapPages_down (layout : Layout st own) (isRoot : st.Root st.cr3) {va : U64}
    {left i : Nat} (detachable : Detachable touch kind st own pages)
    (members : ∀ j, i ≤ j → j < i + left → pageOf (pageAfter va j) ∈ pages) :
    ∃ own', TakesDown touch pages st own (st.munmapPages va left i) own' := by
  induction left generalizing st own i with
  | zero => exact ⟨own, .refl layout⟩
  | succ left ih =>
    obtain ⟨own₁, down⟩ :=
      layout.munmapPage_down isRoot detachable (members i (by omega) (by omega))
    obtain ⟨own₂, down'⟩ := ih (i := i + 1) down.layout (down.isRoot isRoot)
      (down.detachable layout isRoot detachable)
      fun j after before => members j (by omega) (by omega)
    exact ⟨own₂, down.trans down'⟩

/-- The range of `vmm_munmap` is mapped by page tables, to pages of which each is mapped once. -/
theorem Layout.munmap_down (layout : Layout st own) (isRoot : st.Root st.cr3) {va len : U64}
    (detachable : Detachable touch kind st own (pagesFrom va (pageCount len))) :
    ∃ own', TakesDown touch (pagesFrom va (pageCount len)) st own (st.vmmMunmap va len).2 own' := by
  unfold vmmMunmap
  split_ifs
  · exact ⟨own, .refl layout⟩
  · exact layout.munmapPages_down isRoot detachable fun j _ before => ⟨j, by omega, rfl⟩

/-! ### `vmm_mmap_anon` -/

/-- Leaves of `vmm_mmap_anon`: the frame is not shared. -/
abbrev PlainLeaf (e : U64) : Prop := cowBit e = false

theorem Layout.anonUnwind_down (layout : Layout st own) (isRoot : st.Root st.cr3) {base : U64}
    {i : Nat} (detachable : Detachable touch PlainLeaf st own pages)
    (members : ∀ j < i, pageOf (pageAfter base j) ∈ pages) :
    ∃ own', TakesDown touch pages st own (st.anonUnwind base i) own' := by
  induction i generalizing st own with
  | zero => exact ⟨own, .refl layout⟩
  | succ i ih =>
    have page : ∃ own', TakesDown touch pages st own
        (if (st.vmmVirtToPhys (pageAfter base i)).1 ≠ 0 then
          ((st.vmmVirtToPhys (pageAfter base i)).2.vmmUnmapPage (pageAfter base i)).2.pmmFree
            (frameOf (st.vmmVirtToPhys (pageAfter base i)).1)
        else ((st.vmmVirtToPhys (pageAfter base i)).2.vmmUnmapPage (pageAfter base i)).2)
        own' := by
      rcases Bool.eq_false_or_eq_true
        (present (st.leafPte st.cr3 (pageOf (pageAfter base i)))) with isPresent | absent
      · have member : pageOf (pageAfter base i) ∈ pages ∩ st.mapped :=
          ⟨members i (by omega), isPresent⟩
        obtain ⟨t, reached, -⟩ := detachable.table _ member
        simp only [layout.virtToPhys_reached isRoot isPresent reached, frameOf_offset]
        exact layout.unmapFree_down isRoot member detachable _ fun _ => detachable.leaf _ member
      · obtain ⟨-, phys, unmap⟩ := layout.calls_absent isRoot absent
        simp only [phys, unmap, ne_eq]
        exact ⟨own, .refl layout⟩
    obtain ⟨own₁, down⟩ := page
    obtain ⟨own₂, down'⟩ := ih down.layout (down.isRoot isRoot)
      (down.detachable layout isRoot detachable) fun j before => members j (by omega)
    exact ⟨own₂, down.trans down'⟩

theorem Works.writer (works : Works touch st own st' own') : st'.writer = st.writer := by
  rw [Vmm.writer, Vmm.writer, works.cr3, works.kernelCr3]

theorem frameOf_protToFlags (prot : U32) : frameOf (protToFlags prot) = 0#40 := by
  unfold protToFlags
  split_ifs <;> decide

theorem frameOf_mapLeaf (pa : U64) (prot : U32) : frameOf (mapLeaf pa prot) = frameOf pa := by
  rw [mapLeaf, frameOf_and, frameOf_or, frameOf_framePa, frameOf_protToFlags, BitVec.or_zero,
    show frameOf (~~~GjUserPte.cow) = BitVec.allOnes 40 by decide, BitVec.and_allOnes]

theorem plainLeaf_mapLeaf (pa : U64) (prot : U32) : PlainLeaf (mapLeaf pa prot) := by
  simp [PlainLeaf, cowBit, mapLeaf, GjUserPte.cow]

/-- No page of the set is mapped to the frame. -/
def Unnamed (st : Vmm) (pages : Set VPage) (f : Frame) : Prop :=
  ∀ page ∈ pages ∩ st.mapped, st.pageFrame page ≠ f

theorem Unnamed.of_leaf (unnamed : Unnamed st pages f)
    (leaf : ∀ page, st'.leafPte st'.cr3 page = st.leafPte st.cr3 page) : Unnamed st' pages f := by
  rintro page ⟨member, isMapped⟩
  rw [mem_mapped, leaf] at isMapped
  rw [pageFrame, leaf]
  exact unnamed page ⟨member, isMapped⟩

/-- One more page is mapped, to a page that no other is mapped to. -/
theorem Detachable.of_write (layout : Layout st own) (isRoot : st.Root st.cr3) {target : VPage}
    (reached : st.tableAt [target.i4, target.i3, target.i2] st.cr3 = some t)
    (touched : touch (own t)) {e : U64} (ofKind : kind e) (isPage : (own (frameOf e)).IsPage)
    (unnamed : Unnamed st pages (frameOf e)) (detachable : Detachable touch kind st own pages) :
    Detachable touch kind (st.setEntry ⟨t, target.i1⟩ e) own (insert target pages) := by
  have last := layout.level_reached isRoot reached
  obtain ⟨st', made⟩ : ∃ st', st' = st.setEntry ⟨t, target.i1⟩ e := ⟨_, rfl⟩
  have leaf (q : VPage) : st'.leafPte st'.cr3 q = if st.tableAt [q.i4, q.i3, q.i2] st.cr3 = some t ∧
      q.i1 = target.i1 then e else st.leafPte st.cr3 q := by
    rw [made]
    exact layout.leafPte_setEntry last e isRoot q
  have upper (q : VPage) : st'.tableAt [q.i4, q.i3, q.i2] st'.cr3 =
      st.tableAt [q.i4, q.i3, q.i2] st.cr3 := by
    rw [made]
    exact layout.tableAt_setEntry last isRoot (by simp)
  rw [← made]
  -- a page of the set has the new leaf, or has been mapped before
  have cases (q : VPage) (member : q ∈ insert target pages ∩ st'.mapped) :
      (st.tableAt [q.i4, q.i3, q.i2] st.cr3 = some t ∧ q.i1 = target.i1) ∧
          st'.leafPte st'.cr3 q = e ∨
        q ∈ pages ∩ st.mapped ∧ st'.leafPte st'.cr3 q = st.leafPte st.cr3 q := by
    obtain ⟨inside, isMapped⟩ := member
    rw [mem_mapped, leaf q] at isMapped
    rw [leaf q]
    split_ifs at isMapped ⊢ with here
    · exact .inl ⟨here, rfl⟩
    · refine .inr ⟨⟨inside.resolve_left ?_, isMapped⟩, rfl⟩
      rintro rfl
      exact here ⟨reached, rfl⟩
  constructor
  · intro q member
    rcases cases q member with ⟨-, same⟩ | ⟨before, same⟩ <;> rw [same]
    · exact ofKind
    · exact detachable.leaf q before
  · intro q member
    rw [upper]
    rcases cases q member with ⟨here, -⟩ | ⟨before, -⟩
    · exact ⟨t, here.1, touched⟩
    · exact detachable.table q before
  · intro q member
    rcases cases q member with ⟨-, same⟩ | ⟨before, same⟩ <;> rw [pageFrame, same]
    · exact isPage
    · exact detachable.isPage q before
  · intro q member r member' names
    rw [SameLeaf, upper, upper]
    rw [pageFrame, pageFrame] at names
    rcases cases q member with ⟨here, same⟩ | ⟨before, same⟩ <;>
      rcases cases r member' with ⟨here', same'⟩ | ⟨before', same'⟩ <;> rw [same, same'] at names
    · exact ⟨here.1.trans here'.1.symm, here.2.trans here'.2.symm⟩
    · exact absurd names.symm (unnamed r before')
    · exact absurd names (unnamed q before)
    · exact detachable.apart q before r before' names

section Steps

variable (layout : Layout st own) (isRoot : st.Root st.cr3)

include isRoot in
theorem Grows.activeLeaf {who : Option Frame} (grows : Grows who st own st' own') (page : VPage) :
    st'.leafPte st'.cr3 page = st.leafPte st.cr3 page := by
  rw [grows.keeps.cr3]
  exact grows.leaf _ page isRoot

include layout isRoot

theorem Recasts.activeLeaf (recasts : Recasts st own st' own') (page : VPage) :
    st'.leafPte st'.cr3 page = st.leafPte st.cr3 page := by
  rw [recasts.cr3]
  exact recasts.leaf layout isRoot page

variable (detachable : Detachable (Role.By st.writer) kind st own pages)
include detachable

theorem Detachable.of_grows {who : Option Frame} (grows : Grows who st own st' own') :
    Detachable (Role.By st.writer) kind st' own' pages := by
  have leaf := grows.activeLeaf isRoot
  refine detachable.of_kept (fun page _ => leaf page) (fun page t reached mine => ?_)
    fun page member => grows.roles _ ?_
  · exact ⟨grows.reach layout isRoot (by simp) mine reached, grows.roles t mine.isTable.not_free⟩
  · refine (Role.isPage_iff.mp (detachable.isPage page ⟨member.1, ?_⟩)).1
    rw [mem_mapped, ← leaf]
    exact member.2

/-- A step on frames that leaves the frames of the pages alone. -/
theorem Detachable.of_recasts (recasts : Recasts st own st' own')
    (roles : ∀ page ∈ pages ∩ st.mapped, own' (st.pageFrame page) = own (st.pageFrame page)) :
    Detachable (Role.By st.writer) kind st' own' pages := by
  have leaf := recasts.activeLeaf layout isRoot
  refine detachable.of_kept (fun page _ => leaf page) (fun page t reached mine => ⟨?_, ?_⟩)
    fun page member => roles page ⟨member.1, ?_⟩
  · rw [recasts.cr3, recasts.tableAt layout isRoot (by simp)]
    exact reached
  · exact recasts.roles t mine.isTable
  · rw [mem_mapped, ← leaf]
    exact member.2

end Steps

/-- What has been mapped so far, when one more page is mapped or has failed. -/
structure MapsOn (st : Vmm) (own : Frame → Role) (f : Frame) (va : U64) (pages : Set VPage)
    (result : GjStatus × Vmm) (own' : Frame → Role) : Prop where
  works : Works (Role.By st.writer) st own result.2 own'
  given : result.2.given = st.given
  role : own' f = .page
  failed : result.1 ≠ .ok → Unnamed result.2 pages f ∧
    Detachable (Role.By st.writer) PlainLeaf result.2 own' pages
  done : result.1 = .ok →
    Detachable (Role.By st.writer) PlainLeaf result.2 own' (insert (pageOf va) pages)

/-- One mapping of the loop. -/
theorem Layout.mapAnon_step (layout : Layout st own) {va : U64} (active : st.Active (pageOf va))
    (role : own f = .page) (prot : U32) (unnamed : Unnamed st pages f)
    (detachable : Detachable (Role.By st.writer) PlainLeaf st own pages) :
    ∃ own', MapsOn st own f va pages (st.vmmMapPage va (framePa f) prot) own' := by
  have isRoot := active.root
  have used : own f ≠ .free := by
    rw [role]
    nofun
  have kept {mid : Vmm} {own' : Frame → Role} (grows : Grows st.writer st own mid own') :
      Unnamed mid pages f ∧ Detachable (Role.By st.writer) PlainLeaf mid own' pages :=
    ⟨unnamed.of_leaf (grows.activeLeaf isRoot), detachable.of_grows layout isRoot grows⟩
  rcases layout.mapPage_cases active (framePa f) prot with
    ⟨status, after, own', failed, outcome, grows⟩ |
      ⟨t, mid, own', -, outcome, grows, mine, reached⟩ <;> rw [outcome]
  · exact ⟨own', grows.works, grows.keeps.given, (grows.roles f used).trans role,
      fun _ => kept grows, fun done => absurd done failed⟩
  · have here := (grows.roles f used).trans role
    have rootMid : mid.Root mid.cr3 := by
      rw [grows.keeps.cr3]
      exact grows.keeps.root.mpr isRoot
    have written := grows.layout.writeReached rootMid reached mine
      (mapLeaf (framePa f) (st.mapProt va prot))
    obtain ⟨unnamed, detachable⟩ := kept grows
    refine ⟨own', grows.works.trans written (.inl grows.keeps.given), grows.keeps.given, here,
      fun failed => absurd rfl failed, fun _ => ?_⟩
    have frame : frameOf (mapLeaf (framePa f) (st.mapProt va prot)) = f := by
      rw [frameOf_mapLeaf, frameOf_framePa]
    refine Detachable.of_write grows.layout rootMid reached mine (plainLeaf_mapLeaf _ _) ?_ ?_
      detachable
    · rw [frame, here]
      trivial
    · rw [frame]
      exact unnamed

theorem Layout.anonPages_works (layout : Layout st own) {base : U64} {prot : U32} {left i : Nat}
    (isRoot : st.Root st.cr3)
    (active : ∀ j, i ≤ j → j < i + left → st.Active (pageOf (pageAfter base j)))
    (members : ∀ j < i, pageOf (pageAfter base j) ∈ pages)
    (detachable : Detachable (Role.By st.writer) PlainLeaf st own pages) :
    ∃ own', Works (Role.By st.writer) st own (st.anonPages base prot left i).2 own' := by
  induction left generalizing st own i pages with
  | zero => exact ⟨own, .refl layout⟩
  | succ left ih =>
    -- the way back, from wherever the loop has come to
    have unwind {mid : Vmm} {ownMid : Frame → Role}
        (works : Works (Role.By st.writer) st own mid ownMid)
        (kept : Detachable (Role.By st.writer) PlainLeaf mid ownMid pages) :
        ∃ own', Works (Role.By st.writer) st own (mid.anonUnwind base i) own' := by
      have rootMid : mid.Root mid.cr3 := by
        rw [works.cr3]
        exact works.root_iff.mpr isRoot
      obtain ⟨own', down⟩ := works.layout.anonUnwind_down rootMid kept members
      exact ⟨own', works.trans down.toWorks (.inr down.tables)⟩
    rw [anonPages]
    rcases alloc : st.pmmAlloc with ⟨_ | f, taken⟩
    · have grows : Grows st.writer st own taken own := (pmmAlloc_none alloc).grows layout
      exact unwind grows.works (detachable.of_grows layout isRoot grows)
    · have takes := pmmAlloc_some layout alloc
      have recasts := takes.page layout
      have fresh : Unnamed st pages f := by
        rintro page member rfl
        exact (Role.isPage_iff.mp (detachable.isPage page member)).1
          ((layout.free _).mpr takes.wasFree)
      have kept := detachable.of_recasts layout isRoot recasts
        fun page member => update_of_ne (fresh page member) ..
      have activeTaken := (active i (by omega) (by omega)).of_works recasts.toWorks
      rw [← recasts.writer] at kept
      obtain ⟨ownMid, step⟩ := recasts.layout.mapAnon_step activeTaken (update_self ..)
        (prot ||| GjVmmProt.user) (fresh.of_leaf (recasts.activeLeaf layout isRoot)) kept
      rcases outcome : taken.vmmMapPage (pageAfter base i) (framePa f) (prot ||| GjVmmProt.user)
        with ⟨status, mid⟩
      rw [outcome] at step
      simp only [outcome]
      obtain ⟨works, given, rolePage, failed, mapped⟩ := step
      rw [recasts.writer] at works failed mapped
      have given' : mid.given = st.given := given.trans takes.keeps.given
      have worksMid := recasts.works.trans works (.inl takes.keeps.given)
      have rootMid : mid.Root mid.cr3 := by
        rw [worksMid.cr3]
        exact worksMid.root_iff.mpr isRoot
      rw [← worksMid.writer] at failed mapped
      by_cases done : status = .ok
      · subst done
        have cleared := worksMid.layout.setPage (f := f) (by rw [rolePage]; exact id) fun _ => 0
        have worksNext := worksMid.trans cleared.works (.inl given')
        have members' (j : Nat) (before : j < i + 1) :
            pageOf (pageAfter base j) ∈ insert (pageOf (pageAfter base i)) pages := by
          rcases Nat.lt_succ_iff_lt_or_eq.mp before with earlier | rfl
          · exact .inr (members j earlier)
          · exact .inl rfl
        have rest := ih cleared.layout (by
            rw [worksNext.cr3]
            exact worksNext.root_iff.mpr isRoot)
          (fun j later before => (active j (by omega) (by omega)).of_works worksNext) members' (by
            rw [cleared.writer]
            exact (mapped rfl).of_recasts worksMid.layout rootMid cleared fun _ _ => rfl)
        rw [worksNext.writer] at rest
        obtain ⟨own', worksRest⟩ := rest
        exact ⟨own', worksNext.trans worksRest (.inl given')⟩
      · obtain ⟨own', freed, others⟩ := worksMid.layout.pmmFree (f := f) (by rw [rolePage]; trivial)
        obtain ⟨unnamed, kept⟩ := failed done
        have back := unwind (worksMid.trans freed.works (.inr freed.tables)) (by
          rw [← worksMid.writer]
          exact kept.of_recasts worksMid.layout rootMid freed fun page member =>
            others _ (unnamed page member))
        cases status <;> first | exact absurd rfl done | exact back

theorem Layout.mmapAnon_works (layout : Layout st own) (isRoot : st.Root st.cr3)
    {hint len : U64} {prot : U32} {fixed : Bool}
    (active : ∀ base cursor,
      anonPlace (st.cursor st.cr3) hint (pageAlign len) fixed = some (base, cursor) →
      ∀ j < pageCount len, st.Active (pageOf (pageAfter base j))) :
    ∃ own', Works (Role.By st.writer) st own (st.vmmMmapAnon hint len prot fixed).2 own' := by
  unfold vmmMmapAnon
  split_ifs
  · exact ⟨own, .refl layout⟩
  · rcases place : anonPlace (st.cursor st.cr3) hint (pageAlign len) fixed with _ | ⟨base, cursor⟩
    · exact ⟨own, .refl layout⟩
    · let moved : Vmm := { st with cursor := update st.cursor st.cr3 cursor }
      have recasts : Recasts st own moved own :=
        layout.recasts_congr rfl rfl rfl rfl rfl rfl rfl
      have none : Detachable (Role.By moved.writer) PlainLeaf moved own ∅ :=
        ⟨by simp, by simp, by simp, by simp⟩
      have pages : ∃ own', Works (Role.By st.writer) moved own
          (moved.anonPages base prot (pageCount len) 0).2 own' :=
        recasts.layout.anonPages_works isRoot
          (fun j _ before => (active base cursor place j (by omega)).of_works recasts.toWorks)
          (by nofun) none
      obtain ⟨own', works⟩ := pages
      refine ⟨own', ?_⟩
      rcases outcome : moved.anonPages base prot (pageCount len) 0 with ⟨_ | _, after⟩ <;>
        rw [outcome] at works <;> simp only [moved] at outcome <;> simp only [outcome] <;>
        exact recasts.works.trans works (.inl rfl)

end GreenJade.Mm

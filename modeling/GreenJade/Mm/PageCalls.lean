import GreenJade.Mm.SpaceRuns

/-! Owns what each call on a page can do, said once: it fails and no leaf has changed, or the place
of the leaf has been found or made and the leaf is written there. It does not own what follows from
this for a space or for the frames. -/

namespace GreenJade.Mm

open Proc

variable {st st' : Vmm} {own own' : Frame → Role} {f : Frame}

/-! ### Mapping a page -/

/-- The leaf that `vmm_map_page` installs. -/
def mapLeaf (pa : U64) (prot : U32) : U64 :=
  (framePa (frameOf pa) ||| protToFlags prot) &&& ~~~GjUserPte.cow

/-- The rights that `vmm_map_page` grants. -/
def Vmm.mapProt (st : Vmm) (va : U64) (prot : U32) : U32 :=
  if st.vaInKernelIdentity va then GjVmmProt.read ||| GjVmmProt.write ||| GjVmmProt.exec else prot

/-- The arguments that `vmm_map_page` accepts. -/
structure MapAccepts (st : Vmm) (va pa : U64) (prot : U32) : Prop where
  aligned : va &&& 0xfff = 0 ∧ pa &&& 0xfff = 0
  permitted : st.vaInKernelIdentity va = true → prot &&& GjVmmProt.user = 0 ∧ pa = va

theorem vmmMapPage_cases (st : Vmm) (va pa : U64) (prot : U32) :
    (∃ status, status ≠ .ok ∧ st.vmmMapPage va pa prot = (status, st)) ∨
      MapAccepts st va pa prot ∧ st.vmmMapPage va pa prot = match st.walkPte (pageOf va) true with
        | (none, st') => (.errNomem, st')
        | (some slot, st') => (.ok, st'.setEntry slot (mapLeaf pa (st.mapProt va prot))) := by
  unfold Vmm.vmmMapPage
  by_cases unaligned : va &&& 0xfff ≠ 0 ∨ pa &&& 0xfff ≠ 0
  · exact .inl ⟨.errInval, nofun, if_pos unaligned⟩
  · rw [if_neg unaligned]
    rw [not_or, not_not, not_not] at unaligned
    by_cases refused : st.vaInKernelIdentity va = true ∧ (prot &&& GjVmmProt.user ≠ 0 ∨ pa ≠ va)
    · exact .inl ⟨.errPerm, nofun, if_pos refused⟩
    · rw [if_neg refused]
      refine .inr ⟨⟨unaligned, fun identity => ?_⟩, rfl⟩
      have permitted := not_and.mp refused identity
      rw [not_or, not_not, not_not] at permitted
      exact permitted

/-- The space in whose tables the active walk writes; none if these are the template's. -/
def Vmm.writer (st : Vmm) : Option Frame := if st.cr3 = st.kernelCr3 then none else some st.cr3

/-- A space is active, or it is the template and the walk to the page opens nothing. -/
def Vmm.Active (st : Vmm) (page : VPage) : Prop :=
  st.cr3 ∈ st.spaces ∨ st.cr3 = st.kernelCr3 ∧ st.OpenPath page

theorem Vmm.Active.root {page : VPage} (active : st.Active page) : st.Root st.cr3 :=
  active.symm.imp And.left id

theorem Layout.writer_space (layout : Layout st own) (active : st.cr3 ∈ st.spaces) :
    st.writer = some st.cr3 :=
  if_neg (of_decide_eq_true (layout.cr3_private active))

theorem Vmm.Active.of_works {touch : Role → Prop} {page : VPage} (active : st.Active page)
    (works : Works touch st own st' own') : st'.Active page := by
  unfold Vmm.Active
  rw [works.cr3, works.spaces, works.kernelCr3]
  refine active.imp_right fun ⟨template, opened⟩ => ⟨template, ?_⟩
  intro path i e inside entry isPresent small
  have short : path.length < 3 := by
    have bound := inside.length_le
    simp only [List.length_append, List.length_cons] at bound
    omega
  rcases works.opens path i e short entry isPresent with before | usable
  · exact opened path i e inside before isPresent small
  · exact ⟨usable.writable, usable.user⟩

/-- `vmm_map_page` fails, or writes the leaf in a table of the active space. -/
theorem Layout.mapPage_cases (layout : Layout st own) {va : U64} (active : st.Active (pageOf va))
    (pa : U64) (prot : U32) :
    (∃ status st' own', status ≠ .ok ∧ st.vmmMapPage va pa prot = (status, st') ∧
      Grows st.writer st own st' own') ∨
    ∃ t mid own', MapAccepts st va pa prot ∧ st.vmmMapPage va pa prot =
        (.ok, mid.setEntry ⟨t, (pageOf va).i1⟩ (mapLeaf pa (st.mapProt va prot))) ∧
      Grows st.writer st own mid own' ∧ (own' t).By st.writer ∧
      mid.tableAt [(pageOf va).i4, (pageOf va).i3, (pageOf va).i2] mid.cr3 = some t := by
  rcases vmmMapPage_cases st va pa prot with ⟨status, failed, outcome⟩ | ⟨accepts, outcome⟩
  · exact .inl ⟨status, st, own, failed, outcome, .refl layout⟩
  · have walk : ∃ own', Grows st.writer st own (st.walkPte (pageOf va) true).2 own' ∧
        ∀ slot, (st.walkPte (pageOf va) true).1 = some slot → slot.index = (pageOf va).i1 ∧
          (own' slot.table).By st.writer ∧ (st.walkPte (pageOf va) true).2.tableAt
            [(pageOf va).i4, (pageOf va).i3, (pageOf va).i2] st.cr3 = some slot.table := by
      rcases active with live | ⟨template, opened⟩
      · rw [layout.writer_space live]
        obtain ⟨own', grows, reached⟩ := layout.walkPte_create live (pageOf va)
        refine ⟨own', grows, fun slot same => ?_⟩
        obtain ⟨index, table⟩ := reached slot same
        exact ⟨index, ⟨_, table⟩, grows.layout.tableAt_own table⟩
      · rw [Vmm.writer, if_pos template, template]
        obtain ⟨own', grows, reached⟩ := layout.walkPte_kernel template (pageOf va) opened
        refine ⟨own', grows, fun slot same => ?_⟩
        obtain ⟨index, place⟩ := reached slot same
        rw [← grows.keeps.kernelCr3] at place
        have kernel := grows.layout.kernel_tableAt grows.layout.kernelRoot (by simp) place
        rw [grows.keeps.kernelCr3] at place
        exact ⟨index, ⟨_, kernel⟩, place⟩
    obtain ⟨own', grows, reached⟩ := walk
    rcases walk : st.walkPte (pageOf va) true with ⟨_ | ⟨t, i⟩, mid⟩ <;>
      rw [walk] at outcome grows reached
    · exact .inl ⟨.errNomem, mid, own', nofun, outcome, grows⟩
    · obtain ⟨rfl, mine, place⟩ := reached ⟨t, i⟩ rfl
      rw [← grows.keeps.cr3] at place
      exact .inr ⟨t, mid, own', accepts, outcome, grows, mine, place⟩

/-- A table that the active space writes stays where it is. -/
theorem Grows.reach {who : Option Frame} {t : Frame} (grows : Grows who st own st' own')
    (layout : Layout st own) (isRoot : st.Root st.cr3) {path : List Index}
    (short : path.length ≤ 3) (mine : (own t).By st.writer)
    (reached : st.tableAt path st.cr3 = some t) : st'.tableAt path st'.cr3 = some t := by
  unfold Vmm.writer at mine
  split_ifs at mine with template
  · rw [grows.keeps.cr3, template, ← grows.keeps.kernelCr3]
    rw [template] at reached
    exact grows.tableAt_kernel layout short reached
  · obtain ⟨path', table⟩ := mine
    rcases layout.tableAt_role isRoot short reached with kernel | table'
    · rw [table] at kernel
      cases kernel
    · rw [grows.keeps.cr3]
      apply grows.layout.tableAt_own
      rw [grows.roles t (by rw [table']; nofun)]
      exact table'

/-! ### Looking up a page -/

/-- What `vmm_unmap_page` does with a leaf that it has found. -/
def Vmm.unmapLeaf (st : Vmm) (slot : Slot) (va e : U64) : Vmm :=
  if user e = true ∧ cowBit e = true ∧ frameOf e ≠ 0 ∧ framePa (frameOf e) ≠ va then
    (st.setEntry slot 0).releaseLeafFrame (frameOf e)
  else st.setEntry slot 0

theorem Layout.unmapPage_cases (layout : Layout st own) (isRoot : st.Root st.cr3) (va : U64) :
    (∃ st', st.vmmUnmapPage va = (.errNoent, st') ∧ Untouched st st') ∨
    ∃ slot mid own', present (st.leafPte st.cr3 (pageOf va)) = true ∧
      Found st own (pageOf va) slot mid own' ∧
      st.vmmUnmapPage va = (.ok, mid.unmapLeaf slot va (st.leafPte st.cr3 (pageOf va))) := by
  unfold Vmm.vmmUnmapPage
  rcases layout.walkPte_cases isRoot (pageOf va) with
    ⟨st', untouched, walk | ⟨slot, walk, absent⟩⟩ | ⟨isPresent, slot, mid, own', walk, found⟩ <;>
    rw [walk]
  · exact .inl ⟨st', rfl, untouched⟩
  · refine .inl ⟨st', ?_, untouched⟩
    simp only [absent, if_true]
  · refine .inr ⟨slot, mid, own', isPresent, found, ?_⟩
    simp only [found.entry, isPresent, Bool.true_eq_false, if_false, Vmm.unmapLeaf]
    split_ifs <;> rfl

/-- What `vmm_protect_page` does with a leaf that it has found. -/
def Vmm.protectLeaf (st : Vmm) (slot : Slot) (va : U64) (prot : U32) (e : U64) : Vmm :=
  if st.vaInKernelIdentity va then
    if framePa (frameOf e) = va ∨ frameOf e = 0 then
      st.setEntry slot (framePa (frameOf va) ||| GjUserPte.p ||| GjUserPte.w)
    else st
  else st.setEntry slot (framePa (frameOf e) ||| protToFlags prot)

theorem Layout.protectPage_cases (layout : Layout st own) (isRoot : st.Root st.cr3) (va : U64)
    (prot : U32) :
    (∃ st', (st.vmmProtectPage va prot).2 = st' ∧ Untouched st st') ∨
    ∃ slot mid own', present (st.leafPte st.cr3 (pageOf va)) = true ∧
      Found st own (pageOf va) slot mid own' ∧
      (st.vmmProtectPage va prot).2 =
        mid.protectLeaf slot va prot (st.leafPte st.cr3 (pageOf va)) := by
  unfold Vmm.vmmProtectPage
  rcases layout.walkPte_cases isRoot (pageOf va) with
    ⟨st', untouched, walk | ⟨slot, walk, absent⟩⟩ | ⟨isPresent, slot, mid, own', walk, found⟩ <;>
    rw [walk]
  · exact .inl ⟨st', rfl, untouched⟩
  · refine .inl ⟨st', ?_, untouched⟩
    simp only [absent, if_true]
  · refine .inr ⟨slot, mid, own', isPresent, found, ?_⟩
    simp only [found.entry, isPresent, Bool.true_eq_false, if_false, Vmm.protectLeaf]
    split_ifs <;> rfl

/-! ### Shared frames -/

theorem cowRefDrop_fst_or (st : Vmm) (f : Frame) :
    ∃ cow, (st.cowRefDrop f).2 = { st with cow } := by
  unfold Vmm.cowRefDrop
  split_ifs
  · exact ⟨st.cow, rfl⟩
  · split
    · exact ⟨st.cow, rfl⟩
    · simp only
      split_ifs
      all_goals exact ⟨_, rfl⟩

/-- A reference to a page is dropped; its frame may be given back. -/
theorem Layout.releaseLeafFrame (layout : Layout st own) (page : (own f).IsPage) :
    ∃ own', Recasts st own (st.releaseLeafFrame f) own' ∧ ∀ g, g ≠ f → own' g = own g := by
  unfold Vmm.releaseLeafFrame
  split_ifs
  · exact ⟨own, .refl layout, fun _ _ => rfl⟩
  · obtain ⟨cow, same⟩ := cowRefDrop_fst_or st f
    have dropped : Recasts st own (st.cowRefDrop f).2 own := by
      rw [same]
      exact layout.recasts_congr rfl rfl rfl rfl rfl rfl rfl
    rcases outcome : st.cowRefDrop f with ⟨_ | _, mid⟩ <;> rw [outcome] at dropped
    · obtain ⟨own', recasts, others⟩ := dropped.layout.pmmFree page
      exact ⟨own', dropped.trans recasts, others⟩
    · exact ⟨own, dropped, fun _ _ => rfl⟩

end GreenJade.Mm

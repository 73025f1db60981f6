import GreenJade.Mm.PageLoops

/-! Owns the confinement of the page calls to the active space. Mapping is confined, since the walk
that creates copies what it shares with the template; unmapping and changing rights are where the
page is not mapped in a table of the template. It does not own runs with teardown. -/

namespace GreenJade.Mm

open Proc StepRuns
open Vmm (pageAfter pageAlign pageCount anonPlace)

variable {st st' : Vmm} {own own' : Frame → Role} {page : VPage}

/-! ### Calls -/

/-- The active space maps the page by a table that is not the template's. -/
def Vmm.OwnsTable (st : Vmm) (page : VPage) : Prop :=
  ∃ t, st.tableAt [page.i4, page.i3, page.i2] st.cr3 = some t ∧
    st.tableAt [page.i4, page.i3, page.i2] st.kernelCr3 ≠ some t

/-- When a call in a space is confined to it. Addresses are of the lower half, since the upper half
has the direct map through which the kernel reaches the tables. A page that is unmapped or
protected is not mapped in a table of the template, and a frame that is given back is in use, is no
table, and is given back once. -/
def SpaceCall.Confined (st : Vmm) : SpaceCall → Prop
  | .mapPage va _ _ => va.toNat < 2 ^ 47
  | .unmapPage va => va.toNat < 2 ^ 47 ∧
      (present (st.leafPte st.cr3 (pageOf va)) = true → ¬ st.SharesTable (pageOf va) ∧
        (cowBit (st.leafPte st.cr3 (pageOf va)) = true → st.IsPageFrame (st.pageFrame (pageOf va))))
  | .protectPage va _ => va.toNat < 2 ^ 47 ∧
      (present (st.leafPte st.cr3 (pageOf va)) = true → ¬ st.SharesTable (pageOf va))
  | .munmap va len => va.toNat + pageCount len * 0x1000 ≤ 2 ^ 47 ∧
      (∀ page ∈ pagesFrom va (pageCount len) ∩ st.mapped,
        st.OwnsTable page ∧ st.IsPageFrame (st.pageFrame page)) ∧
      Set.InjOn st.pageFrame (pagesFrom va (pageCount len) ∩ st.mapped)
  | .mmapAnon hint len _ fixed =>
    ∀ base cursor, anonPlace (st.cursor st.cr3) hint (pageAlign len) fixed = some (base, cursor) →
      base.toNat + pageCount len * 0x1000 ≤ 2 ^ 47

theorem Untouched.works {touch : Role → Prop} (untouched : Untouched st st')
    (layout : Layout st own) : Works touch st own st' own :=
  (layout.recasts_congr untouched.mem untouched.free untouched.keeps.cr3 untouched.keeps.kernelCr3
    untouched.keeps.spaces untouched.keeps.listable untouched.keeps.given).works

/-- The lookup and a write of the leaf that it has found are of a kind. -/
def Found.Within (touch : Role → Prop) (st : Vmm) (own : Frame → Role) (slot : Slot) (st' : Vmm)
    (own' : Frame → Role) : Prop :=
  Works touch st own st' own' ∧ ∀ e, Works touch st' own' (st'.setEntry slot e) own'

theorem Found.grows {slot : Slot} (found : Found st own page slot st' own') :
    ∃ who, Grows who st own st' own' := by
  rcases found.home with ⟨-, grows⟩ | ⟨-, grows, -⟩
  all_goals exact ⟨_, grows⟩

theorem Found.confined {slot : Slot} (found : Found st own page slot st' own')
    (unshared : ¬ st.SharesTable page) :
    Found.Within (Role.By (some st.cr3)) st own slot st' own' := by
  rcases found.home with ⟨table, grows⟩ | ⟨-, -, shared⟩
  · exact ⟨grows.works, fun e => grows.layout.setLeaf ⟨found.index, table⟩ e⟩
  · exact absurd shared unshared

section Calls

variable {touch : Role → Prop} (layout : Layout st own) (isRoot : st.Root st.cr3) {va : U64}
  (within : present (st.leafPte st.cr3 (pageOf va)) = true → ∀ slot mid own',
    Found st own (pageOf va) slot mid own' → Found.Within touch st own slot mid own')
include layout isRoot within

theorem Layout.unmapPage_works (kept : present (st.leafPte st.cr3 (pageOf va)) = true →
      cowBit (st.leafPte st.cr3 (pageOf va)) = true → st.IsPageFrame (st.pageFrame (pageOf va))) :
    ∃ own', Works touch st own (st.vmmUnmapPage va).2 own' := by
  rcases layout.unmapPage_cases isRoot va with
    ⟨after, outcome, untouched⟩ | ⟨slot, mid, own', isPresent, found, outcome⟩ <;> rw [outcome]
  · exact ⟨own, untouched.works layout⟩
  · obtain ⟨who, grows⟩ := found.grows
    obtain ⟨works, writes⟩ := within isPresent slot mid own' found
    have cleared := works.trans (writes 0) (.inl grows.keeps.given)
    simp only [Vmm.unmapLeaf]
    split_ifs with gives
    · have isPage := layout.isPage_iff.mpr (kept isPresent gives.2.1)
      rw [← grows.roles _ (Role.isPage_iff.mp isPage).1] at isPage
      obtain ⟨own'', recasts, -⟩ := cleared.layout.releaseLeafFrame isPage
      exact ⟨own'', cleared.trans recasts.works (.inr recasts.tables)⟩
    · exact ⟨own', cleared⟩

theorem Layout.protectPage_works (prot : U32) :
    ∃ own', Works touch st own (st.vmmProtectPage va prot).2 own' := by
  rcases layout.protectPage_cases isRoot va prot with
    ⟨after, outcome, untouched⟩ | ⟨slot, mid, own', isPresent, found, outcome⟩ <;> rw [outcome]
  · exact ⟨own, untouched.works layout⟩
  · obtain ⟨who, grows⟩ := found.grows
    obtain ⟨works, writes⟩ := within isPresent slot mid own' found
    have write (e : U64) := works.trans (writes e) (.inl grows.keeps.given)
    unfold Vmm.protectLeaf
    split_ifs
    · exact ⟨own', write _⟩
    · exact ⟨own', works⟩
    · exact ⟨own', write _⟩

end Calls

theorem Layout.mapPage_works (layout : Layout st own) {va : U64} (active : st.Active (pageOf va))
    (pa : U64) (prot : U32) :
    ∃ own', Works (Role.By st.writer) st own (st.vmmMapPage va pa prot).2 own' := by
  rcases layout.mapPage_cases active pa prot with
    ⟨status, after, own', -, outcome, grows⟩ |
      ⟨t, mid, own', -, outcome, grows, mine, reached⟩ <;> rw [outcome]
  · exact ⟨own', grows.works⟩
  · have rootMid : mid.Root mid.cr3 := by
      rw [grows.keeps.cr3]
      exact grows.keeps.root.mpr active.root
    exact ⟨own', grows.works.trans (grows.layout.writeReached rootMid reached mine _)
      (.inl grows.keeps.given)⟩

theorem Layout.munmap_confined (layout : Layout st own) (active : st.cr3 ∈ st.spaces)
    {va len : U64} (meets : (SpaceCall.munmap va len).Confined st) :
    ∃ own', Confines st.cr3 st own (st.vmmMunmap va len).2 own' := by
  have isRoot : st.Root st.cr3 := .inr active
  obtain ⟨-, pages, once⟩ := meets
  have tables : ∀ page ∈ pagesFrom va (pageCount len) ∩ st.mapped, ∃ t,
      st.tableAt [page.i4, page.i3, page.i2] st.cr3 = some t ∧ Role.By (some st.cr3) (own t) := by
    intro page member
    obtain ⟨t, reached, differs⟩ := (pages page member).1
    exact ⟨t, reached, _, layout.own_of_tableAt isRoot (by simp) reached differs⟩
  obtain ⟨own', down⟩ := layout.munmap_down isRoot
    (layout.detachable_of_once tables (fun page member => (pages page member).2) once)
  exact ⟨own', down.toWorks⟩

/-- A call that meets the condition is confined to the active space. -/
theorem SpaceCall.confines (layout : Layout st own) (active : st.cr3 ∈ st.spaces)
    (call : SpaceCall) (meets : call.Confined st) :
    ∃ own', Confines st.cr3 st own (call.run st) own' := by
  have writer := layout.writer_space active
  cases call with
  | mapPage va pa prot =>
    have works : ∃ own', Works (Role.By st.writer) st own (st.vmmMapPage va pa prot).2 own' :=
      layout.mapPage_works (.inl active) pa prot
    rw [writer] at works
    exact works
  | unmapPage va =>
    exact layout.unmapPage_works (.inr active)
      (fun isPresent _ _ _ found => found.confined (meets.2 isPresent).1)
      fun isPresent => (meets.2 isPresent).2
  | protectPage va prot =>
    exact layout.protectPage_works (.inr active)
      (fun isPresent _ _ _ found => found.confined (meets.2 isPresent)) prot
  | munmap va len => exact layout.munmap_confined active meets
  | mmapAnon hint len prot fixed =>
    have works : ∃ own', Works (Role.By st.writer) st own
        (st.vmmMmapAnon hint len prot fixed).2 own' :=
      layout.mmapAnon_works (.inr active) fun _ _ _ _ _ => .inl active
    rw [writer] at works
    exact works

/-! ### Runs -/

/-- The steps of a run that makes spaces and works in them. -/
def ConfinedMeets (st : Vmm) : SpaceStep → Prop
  | .create => True
  | .call space inner => space ∈ st.spaces ∧ inner.Confined (st.loadCr3 space)
  | .destroy _ => False

theorem Layout.loadCr3 (layout : Layout st own) (cr3 : Frame) : Layout (st.loadCr3 cr3) own :=
  layout.of_upper rfl rfl rfl rfl fun _ _ _ _ _ => rfl

theorem ConfinedMeets.layout {step : SpaceStep} (known : ∃ own, Layout st own)
    (meets : ConfinedMeets st step) : ∃ own, Layout (step.run st) own := by
  obtain ⟨own, layout⟩ := known
  cases step with
  | create =>
    show ∃ own, Layout st.asCreate.2 own
    rcases layout.asCreate with ⟨after, outcome, untouched⟩ | ⟨root, after, outcome, spawns⟩ <;>
      rw [outcome]
    · have grows : Grows none st own after own := untouched.grows layout
      exact ⟨own, grows.layout⟩
    · exact ⟨_, spawns.layout⟩
  | call space inner =>
    obtain ⟨own', confines⟩ := inner.confines (layout.loadCr3 space) meets.1 meets.2
    exact ⟨own', confines.layout⟩
  | destroy => exact meets.elim

/-- In every run of calls that meet the condition, each call leaves what every other space, and the
template, translates each address to. -/
theorem spaceRuns_confined {steps : List SpaceStep} {space : Frame} {inner : SpaceCall}
    (boot : Boot st) (run : Meets SpaceStep.run ConfinedMeets st (steps ++ [.call space inner]))
    {root : Frame} (isRoot : (st.runSteps steps).Root root) (other : root ≠ space)
    (page : VPage) :
    (st.runSteps (steps ++ [.call space inner])).translate root page =
      (st.runSteps steps).translate root page := by
  obtain ⟨before, last, -⟩ := Meets.append.mp run
  obtain ⟨own, layout⟩ := before.invariant
    (fun st step (known : ∃ own, Layout st own) meets => ConfinedMeets.layout known meets)
    ⟨bootRole st, boot.layout⟩
  obtain ⟨own', confines⟩ := inner.confines (layout.loadCr3 space) last.1 last.2
  rw [Vmm.runSteps, List.foldl_append]
  exact confines.translate (layout.loadCr3 space) isRoot other page

/-- The lookup of `vmm_unmap_page` ends in a table of the template: a new space that unmaps a page
of the kernel unmaps it for the kernel. -/
theorem spaceRuns_unmap_template : Boot sampleBoot ∧ (sampleBoot.runSteps [.create]).spaces = {6} ∧
      (sampleBoot.runSteps [.create]).translate 1 (pageOf 0x1000) =
        some { frame := 5, write := true, user := false, exec := true } ∧
      (sampleBoot.runSteps [.create, .call 6 (.unmapPage 0x1000)]).translate 1 (pageOf 0x1000) =
        none :=
  ⟨sampleBoot_boot, by decide +kernel, by decide +kernel, by decide +kernel⟩

theorem spaceRuns_confined_anon :
    (sampleBoot.runSteps [.create, .call 6 (.mmapAnon 0 0x1000 3 false)]).translate 1
        (pageOf 0x1000) = (sampleBoot.runSteps [.create]).translate 1 (pageOf 0x1000) := by
  have live : (6 : Frame) ∈ (sampleBoot.runSteps [.create]).spaces := by decide +kernel
  have placed : anonPlace (((SpaceStep.create.run sampleBoot).loadCr3 6).cursor 6) 0
      (pageAlign 0x1000) false = some (0x40000000, 0x40001000) := by decide +kernel
  have run : Meets SpaceStep.run ConfinedMeets sampleBoot
      ([.create] ++ [.call 6 (.mmapAnon 0 0x1000 3 false)]) := by
    refine ⟨trivial, ⟨live, fun base cursor place => ?_⟩, trivial⟩
    obtain ⟨rfl, rfl⟩ := Prod.mk.inj (Option.some.inj (placed.symm.trans place))
    decide
  exact spaceRuns_confined sampleBoot_boot run (.inl (by decide +kernel)) (by decide) _

end GreenJade.Mm

import GreenJade.Lib.StepRuns
import GreenJade.Mm.TableLookup

/-! Owns the runs of the address spaces: the calls in a space and the steps on whole spaces, the
state that the boot leaves, and what the steps on frames do to the layout of the tables. It does not
own the properties of runs. -/

namespace GreenJade.Mm

open Function Proc List

/-! ### Runs -/

inductive SpaceCall
  | mapPage (va pa : U64) (prot : U32)
  | unmapPage (va : U64)
  | protectPage (va : U64) (prot : U32)
  | munmap (va len : U64)
  | mmapAnon (hint len : U64) (prot : U32) (fixed : Bool)

def SpaceCall.run (st : Vmm) : SpaceCall → Vmm
  | .mapPage va pa prot => (st.vmmMapPage va pa prot).2
  | .unmapPage va => (st.vmmUnmapPage va).2
  | .protectPage va prot => (st.vmmProtectPage va prot).2
  | .munmap va len => (st.vmmMunmap va len).2
  | .mmapAnon hint len prot fixed => (st.vmmMmapAnon hint len prot fixed).2

inductive SpaceStep
  | create
  | call (space : Frame) (inner : SpaceCall)
  | destroy (root : Frame)

def SpaceStep.run (st : Vmm) : SpaceStep → Vmm
  | .create => st.asCreate.2
  | .call space inner => inner.run (st.loadCr3 space)
  | .destroy root => (st.vmmAsDestroy root).2

def Vmm.runSteps (st : Vmm) (steps : List SpaceStep) : Vmm := steps.foldl SpaceStep.run st

/-! ### What a walk reads -/

section Tables

variable {st st' : Vmm} {own own' : Frame → Role} {root f : Frame}

theorem Layout.leafFrom_congr (layout : Layout st own)
    (same : ∀ u level, Mine own root level u → st'.mem u = st.mem u) {path : List Index} {u : Frame}
    {level : Nat} (mine : Mine own root level u) (length : path.length + level = 4) :
    st'.leafFrom path u = st.leafFrom path u := by
  induction path generalizing u level with
  | nil => rfl
  | cons i rest ih =>
    rw [leafFrom_cons, same u level mine]
    cases rest with
    | nil => rfl
    | cons j rest =>
      simp only [length_cons] at length
      refine behind_congr fun child leads => ?_
      exact ih (layout.mine_next mine (by omega) leads) (by simp only [length_cons]; omega)

/-- The leaves of a space are read from its tables and the template's. -/
theorem Layout.leafPte_congr (layout : Layout st own) (isRoot : st.Root root)
    (same : ∀ u level, Mine own root level u → st'.mem u = st.mem u) (page : VPage) :
    st'.leafPte root page = st.leafPte root page :=
  layout.leafFrom_congr same (layout.root_mine isRoot) rfl

/-- A step of the processor's walk from the second level on: a large page ends it. -/
theorem descend_congr {e : U64} {wide : Option Translation} {further further' : Option Translation}
    (same : ∀ t, next e = some t → further' = further) :
    (if present e = false then none else if large e then wide else further') =
      if present e = false then none else if large e then wide else further := by
  cases isPresent : present e <;> cases isLarge : large e <;> simp
  exact same _ (next_eq_some.mpr ⟨isPresent, isLarge, rfl⟩)

/-- So is what the processor finds. -/
theorem Layout.translate_congr (layout : Layout st own) (isRoot : st.Root root)
    (same : ∀ u level, Mine own root level u → st'.mem u = st.mem u) (page : VPage) :
    st'.translate root page = st.translate root page := by
  have mine4 := layout.root_mine isRoot
  unfold Vmm.translate
  simp only [same _ _ mine4]
  by_cases dead4 : present (st.mem root page.i4) = false ∨ large (st.mem root page.i4) = true
  · simp [if_pos dead4]
  · have present4 := Bool.of_not_eq_false (not_or.mp dead4).1
    have small4 := Bool.of_not_eq_true (not_or.mp dead4).2
    have mine3 := layout.mine_next mine4 (by omega) (next_eq_some.mpr ⟨present4, small4, rfl⟩)
    simp only [if_neg dead4, same _ _ mine3]
    refine descend_congr fun pd leads3 => ?_
    have mine2 := layout.mine_next mine3 (by omega) leads3
    obtain ⟨-, -, rfl⟩ := next_eq_some.mp leads3
    simp only [same _ _ mine2]
    refine descend_congr fun pt leads2 => ?_
    have mine1 := layout.mine_next mine2 (by omega) leads2
    obtain ⟨-, -, rfl⟩ := next_eq_some.mp leads2
    simp [same _ _ mine1]

/-! ### Steps that leave the tables alone -/

/-- A table of the template, or of one of the spaces. -/
def Role.Within (spaces : Finset Frame) : Role → Prop
  | .kernel _ => True
  | .table root _ => root ∈ spaces
  | _ => False

def Role.IsTable : Role → Prop
  | .kernel _ => True
  | .table _ _ => True
  | _ => False

/-- A frame in use that is no table. -/
def Role.IsPage : Role → Prop
  | .page => True
  | .other => True
  | _ => False

/-- Frames other than tables have changed, in content or role; spaces may have gone. -/
structure Retags (st : Vmm) (own : Frame → Role) (st' : Vmm) (own' : Frame → Role) : Prop where
  kernelCr3 : st'.kernelCr3 = st.kernelCr3
  spaces : st'.spaces ⊆ st.spaces
  listable : st'.listable = st.listable
  mem : ∀ f, (own f).Within st'.spaces → st'.mem f = st.mem f
  kept : ∀ f, (own f).Within st'.spaces → own' f = own f
  tables : ∀ f, (own' f).IsTable → (own f).Within st'.spaces
  free : ∀ f, own' f = .free ↔ st'.free f = true
  freeListable : ∀ f, own' f = .free → f ≠ 0 ∧ st'.listable f = true

namespace Retags

variable (retags : Retags st own st' own')
include retags

theorem kernel {level : Nat} : own' f = .kernel level ↔ own f = .kernel level := by
  constructor
  · intro kernel
    have within := retags.tables f (by rw [kernel]; trivial)
    rw [← retags.kept f within]
    exact kernel
  · intro kernel
    rw [retags.kept f (by rw [kernel]; trivial)]
    exact kernel

theorem table {path : List Index} :
    own' f = .table root path ↔ own f = .table root path ∧ root ∈ st'.spaces := by
  constructor
  · intro table
    have within := retags.tables f (by rw [table]; trivial)
    have before : own f = .table root path := by
      rw [← retags.kept f within]
      exact table
    rw [before] at within
    exact ⟨before, within⟩
  · rintro ⟨table, live⟩
    rw [retags.kept f (by rw [table]; exact live)]
    exact table

theorem mem_kernel {level : Nat} (kernel : own f = .kernel level) : st'.mem f = st.mem f :=
  retags.mem f (by rw [kernel]; trivial)

theorem mem_table {path : List Index} (table : own f = .table root path)
    (live : root ∈ st'.spaces) : st'.mem f = st.mem f :=
  retags.mem f (by rw [table]; exact live)

theorem layout_after (layout : Layout st own) : Layout st' own' := by
  refine layout.rebuild retags.free retags.freeListable retags.kernelCr3
    (fun _ _ => retags.kernel) (fun _ _ kernel _ => retags.mem_kernel kernel)
    (fun root live => retags.table.mpr ⟨layout.spaceRoot root (retags.spaces live), live⟩)
    (fun t root path table => ?_) (fun t root path table => ?_)
    (fun t root path i table short isPresent => ?_) fun t root path table => ?_ <;>
    obtain ⟨before, live⟩ := retags.table.mp table
  · exact ⟨live, (layout.tableSpace t root path before).2⟩
  · rw [retags.listable]
    exact layout.tableListable t root path before
  · rw [retags.mem_table before live] at isPresent ⊢
    apply (layout.tableNext t root path i before short isPresent).imp_right
    exact Or.imp_right (And.imp_right fun own => retags.table.mpr ⟨own, live⟩)
  · apply (layout.tableLinked t root path before).imp_right
    rintro ⟨parent, above, i, pathEq, parentTable, leads⟩
    refine ⟨parent, above, i, pathEq, retags.table.mpr ⟨parentTable, live⟩, ?_⟩
    rw [retags.mem_table parentTable live]
    exact leads

end Retags

end Tables

/-! ### What a step keeps -/

section Steps

variable {st st' st'' : Vmm} {own own' own'' : Frame → Role} {t f root space : Frame}

variable {role : Role}

theorem Role.By.isTable {who : Option Frame} (owned : role.By who) : role.IsTable := by
  cases who <;> obtain ⟨_, rfl⟩ := owned <;> trivial

theorem Role.IsTable.not_free (table : role.IsTable) : role ≠ .free := by
  rintro rfl
  exact table

theorem Role.isPage_iff : role.IsPage ↔ role ≠ .free ∧ ¬ role.IsTable := by
  cases role <;> simp [Role.IsPage, Role.IsTable]

/-- The spaces stay, and so do all tables; those that have been written are of a kind. No frame of a
table has been given back. -/
structure Works (touch : Role → Prop) (st : Vmm) (own : Frame → Role) (st' : Vmm)
    (own' : Frame → Role) : Prop where
  layout : Layout st' own'
  cr3 : st'.cr3 = st.cr3
  kernelCr3 : st'.kernelCr3 = st.kernelCr3
  spaces : st'.spaces = st.spaces
  listable : st'.listable = st.listable
  roles : ∀ f, (own f).IsTable → own' f = own f
  mem : ∀ f, (own f).IsTable → ¬ touch (own f) → st'.mem f = st.mem f
  opens : Opens st st'
  given : ∃ back, st'.given = back ++ st.given ∧ ∀ f ∈ back, ¬ (own f).IsTable ∧ ¬ (own' f).IsTable

variable {touch touch' : Role → Prop}

theorem Works.refl (layout : Layout st own) : Works touch st own st own :=
  ⟨layout, rfl, rfl, rfl, rfl, fun _ _ => rfl, fun _ _ _ => rfl, .refl st, [], rfl, by simp⟩

/-- A frame that has been given back first may not become a table later, or none has been. -/
theorem Works.trans (first : Works touch st own st' own') (second : Works touch st' own' st'' own'')
    (order : st'.given = st.given ∨ ∀ f, (own'' f).IsTable → (own' f).IsTable) :
    Works touch st own st'' own'' where
  layout := second.layout
  cr3 := second.cr3.trans first.cr3
  kernelCr3 := second.kernelCr3.trans first.kernelCr3
  spaces := second.spaces.trans first.spaces
  listable := second.listable.trans first.listable
  roles f table := by
    have same := first.roles f table
    rw [second.roles f (by rw [same]; exact table), same]
  mem f table foreign := by
    have same := first.roles f table
    rw [second.mem f (by rw [same]; exact table) (by rw [same]; exact foreign),
      first.mem f table foreign]
  opens := first.opens.trans second.opens
  given := by
    obtain ⟨back, given, pages⟩ := first.given
    obtain ⟨back', given', pages'⟩ := second.given
    refine ⟨back' ++ back, by rw [given', given, append_assoc], fun f member => ?_⟩
    rcases mem_append.mp member with later | earlier
    · refine ⟨fun table => (pages' f later).1 ?_, (pages' f later).2⟩
      rw [first.roles f table]
      exact table
    · refine ⟨(pages f earlier).1, fun table => ?_⟩
      rcases order with none | tables
      · rw [given, append_left_eq_self] at none
        rw [none] at earlier
        cases earlier
      · exact (pages f earlier).2 (tables f table)

theorem Works.mono (works : Works touch st own st' own')
    (wider : ∀ f, (own f).IsTable → touch (own f) → touch' (own f)) :
    Works touch' st own st' own' :=
  { works with
    mem := fun f table foreign => works.mem f table fun own => foreign (wider f table own) }

theorem Works.root_iff (works : Works touch st own st' own') : st'.Root root ↔ st.Root root := by
  rw [Vmm.Root, Vmm.Root, works.kernelCr3, works.spaces]

/-- What is written is written to tables of the space, or to no table. -/
abbrev Confines (space : Frame) : Vmm → (Frame → Role) → Vmm → (Frame → Role) → Prop :=
  Works (Role.By (some space))

theorem Mine.isTable {level : Nat} (mine : Mine own root level f) : (own f).IsTable := by
  rcases mine with kernel | ⟨path, table, -⟩
  · rw [kernel]
    trivial
  · rw [table]
    trivial

/-- No other space is affected. -/
theorem Works.translate (confines : Confines space st own st' own') (layout : Layout st own)
    (isRoot : st.Root root) (other : root ≠ space) (page : VPage) :
    st'.translate root page = st.translate root page := by
  refine layout.translate_congr isRoot (fun u level mine => ?_) page
  apply confines.mem u mine.isTable
  rintro ⟨path, same⟩
  rcases mine with kernel | ⟨_, table, -⟩
  · exact nomatch kernel.symm.trans same
  · exact other (Role.table.inj (table.symm.trans same)).1

theorem Grows.works {who : Option Frame} (grows : Grows who st own st' own') :
    Works (Role.By who) st own st' own' where
  layout := grows.layout
  cr3 := grows.keeps.cr3
  kernelCr3 := grows.keeps.kernelCr3
  spaces := grows.keeps.spaces
  listable := grows.keeps.listable
  roles f table := grows.roles f table.not_free
  mem f table foreign := grows.mem f table.not_free foreign
  opens := grows.opens
  given := ⟨[], grows.keeps.given, by simp⟩

/-- No table has changed, come or gone. -/
structure Recasts (st : Vmm) (own : Frame → Role) (st' : Vmm) (own' : Frame → Role) : Prop
    extends Works (fun _ => False) st own st' own' where
  tables : ∀ f, (own' f).IsTable → (own f).IsTable

theorem Recasts.refl (layout : Layout st own) : Recasts st own st own := ⟨.refl layout, fun _ => id⟩

theorem Recasts.trans (first : Recasts st own st' own') (second : Recasts st' own' st'' own'') :
    Recasts st own st'' own'' :=
  ⟨first.toWorks.trans second.toWorks (.inr second.tables),
    fun f table => first.tables f (second.tables f table)⟩

section

variable (recasts : Recasts st own st' own')
include recasts

theorem Recasts.works : Works touch st own st' own' := recasts.toWorks.mono fun _ _ => False.elim

theorem Recasts.mem_mine {level : Nat} (mine : Mine own root level f) : st'.mem f = st.mem f :=
  recasts.mem f mine.isTable id

theorem Recasts.leaf (layout : Layout st own)
    (isRoot : st.Root root) (page : VPage) : st'.leafPte root page = st.leafPte root page :=
  layout.leafPte_congr isRoot (fun _ _ mine => recasts.mem_mine mine) page

theorem Recasts.tableAt (layout : Layout st own)
    (isRoot : st.Root root) {path : List Index} (short : path.length ≤ 3) :
    st'.tableAt path root = st.tableAt path root :=
  layout.tableAt_of_upper (fun _ _ _ mine _ => recasts.mem_mine mine) (layout.root_mine isRoot)
    (by omega)

end

/-! ### Steps on frames -/

theorem Layout.within (layout : Layout st own) (table : (own f).IsTable) :
    (own f).Within st.spaces := by
  cases role : own f with
  | kernel level => trivial
  | table root path => exact (layout.tableSpace f root path role).1
  | free | page | other =>
    rw [role] at table
    exact table.elim

theorem Role.Within.isTable {spaces : Finset Frame} (within : role.Within spaces) :
    role.IsTable := by
  cases role <;> trivial

/-- One frame that is no table has changed its content, its role or both. -/
theorem Layout.retag (layout : Layout st own) (page : ¬ (own f).IsTable)
    (notTable : ¬ role.IsTable) (kernelCr3 : st'.kernelCr3 = st.kernelCr3)
    (spaces : st'.spaces = st.spaces) (listable : st'.listable = st.listable)
    (mem : ∀ g, g ≠ f → st'.mem g = st.mem g)
    (free : ∀ g, g ≠ f → st'.free g = st.free g) (freeHere : role = .free ↔ st'.free f = true)
    (freeListable : role = .free → f ≠ 0 ∧ st.listable f = true) :
    Retags st own st' (update own f role) := by
  have apart {g : Frame} (within : (own g).Within st'.spaces) : g ≠ f := by
    rintro rfl
    exact page within.isTable
  refine ⟨kernelCr3, by rw [spaces], listable, fun g within => mem g (apart within),
    fun g within => update_of_ne (apart within) .., fun g table => ?_, fun g => ?_,
    fun g isFree => ?_⟩
  · have ne : g ≠ f := by
      rintro rfl
      rw [update_self] at table
      exact notTable table
    rw [update_of_ne ne] at table
    rw [spaces]
    exact layout.within table
  · by_cases here : g = f
    · subst here
      rw [update_self]
      exact freeHere
    · rw [update_of_ne here, free g here]
      exact layout.free g
  · rw [listable]
    by_cases here : g = f
    · subst here
      rw [update_self] at isFree
      exact freeListable isFree
    · rw [update_of_ne here] at isFree
      exact layout.freeListable g isFree

theorem Retags.recasts (retags : Retags st own st' own') (layout : Layout st own)
    (cr3 : st'.cr3 = st.cr3) (spaces : st'.spaces = st.spaces)
    (given : ∃ back, st'.given = back ++ st.given ∧
      ∀ f ∈ back, ¬ (own f).IsTable ∧ ¬ (own' f).IsTable) : Recasts st own st' own' where
  layout := retags.layout_after layout
  cr3 := cr3
  kernelCr3 := retags.kernelCr3
  spaces := spaces
  listable := retags.listable
  roles f table := retags.kept f (by rw [spaces]; exact layout.within table)
  mem f table _ := retags.mem f (by rw [spaces]; exact layout.within table)
  opens := (retags.layout_after layout).opens_of_upper retags.kernelCr3 fun _ _ kernel _ =>
    (retags.mem_kernel (retags.kernel.mp kernel)).symm
  given := given
  tables f table := (retags.tables f table).isTable

theorem pmmFree_mem_of_ne {g : Frame} (ne : g ≠ f) : (st.pmmFree f).mem g = st.mem g := by
  unfold Vmm.pmmFree
  split_ifs
  · rfl
  · exact setEntry_mem_of_table_ne ne

theorem pmmFree_refused (refused : f = 0 ∨ st.listable f = false) : st.pmmFree f = st :=
  if_pos refused

theorem pmmFree_accepted (accepted : f ≠ 0 ∧ st.listable f = true) (used : st.free f = false) :
    (st.pmmFree f).free = update st.free f true ∧ (st.pmmFree f).given = f :: st.given := by
  have notRefused : ¬ (f = 0 ∨ st.listable f = false) := by
    rw [not_or, Bool.not_eq_false]
    exact accepted
  rw [Vmm.pmmFree, if_neg notRefused]
  refine ⟨(free_of_whole used).trans ?_, rfl⟩
  rw [free_of_whole (torn_of_used used)]

/-- What giving back a frame does not touch. -/
theorem pmmFree_rest (st : Vmm) (f : Frame) :
    (st.pmmFree f).cr3 = st.cr3 ∧ (st.pmmFree f).kernelCr3 = st.kernelCr3 ∧
      (st.pmmFree f).spaces = st.spaces ∧ (st.pmmFree f).listable = st.listable ∧
      (st.pmmFree f).cow = st.cow := by
  unfold Vmm.pmmFree
  split_ifs <;> exact ⟨rfl, rfl, rfl, rfl, rfl⟩

theorem Layout.used_iff (layout : Layout st own) : own f ≠ .free ↔ st.free f = false := by
  rw [← Bool.not_eq_true, ← layout.free f]

/-- A frame in use that is no table is given back. -/
theorem Layout.pmmFree (layout : Layout st own) (page : (own f).IsPage) :
    ∃ own', Recasts st own (st.pmmFree f) own' ∧ ∀ g, g ≠ f → own' g = own g := by
  obtain ⟨cr3, kernelCr3, spaces, listable, -⟩ := pmmFree_rest st f
  by_cases refused : f = 0 ∨ st.listable f = false
  · rw [pmmFree_refused refused]
    exact ⟨own, .refl layout, fun _ _ => rfl⟩
  · rw [not_or, Bool.not_eq_false] at refused
    obtain ⟨used, page⟩ := Role.isPage_iff.mp page
    obtain ⟨free, given⟩ := pmmFree_accepted refused (layout.used_iff.mp used)
    refine ⟨update own f .free, ?_, fun g ne => update_of_ne ne ..⟩
    refine (layout.retag page (by exact id) kernelCr3 spaces listable
      (fun g ne => pmmFree_mem_of_ne ne) (fun g ne => ?_) ?_ fun _ => refused).recasts layout cr3
      spaces ⟨[f], given, fun g member => ?_⟩
    · rw [free, update_of_ne ne]
    · rw [free, update_self]
      exact ⟨fun _ => rfl, fun _ => rfl⟩
    · rw [mem_singleton.mp member, update_self]
      exact ⟨page, id⟩

/-- A frame is taken for a page. -/
theorem Takes.page (layout : Layout st own) (takes : Takes st st' f) :
    Recasts st own st' (update own f .page) := by
  have wasFree := (layout.free f).mpr takes.wasFree
  refine (layout.retag (by rw [wasFree]; exact id) (by exact id)
    takes.keeps.kernelCr3 takes.keeps.spaces takes.keeps.listable takes.others ?_ ?_
    (by nofun)).recasts layout takes.keeps.cr3 takes.keeps.spaces
    ⟨[], takes.keeps.given, by simp⟩
  · intro g ne
    rw [takes.free, update_of_ne ne]
  · rw [takes.free, update_self]
    exact ⟨by nofun, by nofun⟩

/-- A leaf in a table of the space is written. -/
theorem Layout.setLeaf (layout : Layout st own) {slot : Slot} {page : VPage}
    (place : LeafOf own space page slot) (e : U64) :
    Confines space st own (st.setEntry slot e) own := by
  obtain ⟨t, i⟩ := slot
  obtain ⟨rfl, table⟩ := place
  have written := (layout.writeLeaf table e).1
  refine ⟨written, rfl, rfl, rfl, rfl, fun _ _ => rfl, fun f _ foreign => ?_, ?_, [], rfl, by simp⟩
  · apply setEntry_mem_of_table_ne
    rintro rfl
    exact foreign ⟨_, table⟩
  · refine written.opens_of_upper rfl fun u level kernel _ => (setEntry_mem_of_table_ne ?_).symm
    rintro rfl
    rw [table] at kernel
    cases kernel

/-- A leaf in a table of the template is written. -/
theorem Layout.setKernelLeaf (layout : Layout st own) {slot : Slot}
    (kernel : own slot.table = .kernel 3) (e : U64) :
    Works (Role.By none) st own (st.setEntry slot e) own := by
  have upper (u : Frame) (level : Nat) (r : Frame) (mine : Mine own r level u) (short : level < 3) :
      (st.setEntry slot e).mem u = st.mem u :=
    Layout.upper_setEntry (by rw [kernel]; rfl) mine short
  have written : Layout (st.setEntry slot e) own := layout.of_upper rfl rfl rfl rfl upper
  refine ⟨written, rfl, rfl, rfl, rfl, fun _ _ => rfl, fun f _ foreign => ?_, ?_, [], rfl, by simp⟩
  · apply setEntry_mem_of_table_ne
    rintro rfl
    exact foreign ⟨3, kernel⟩
  · exact written.opens_of_upper rfl fun u level isKernel short =>
      (upper u level 0 (.inl isKernel) short).symm

/-- A page is written. -/
theorem Layout.setPage (layout : Layout st own) (page : ¬ (own f).IsTable) (content : Page) :
    Recasts st own (st.setPage f content) own := by
  have retags : Retags st own (st.setPage f content) (update own f (own f)) :=
    layout.retag page page rfl rfl rfl (fun g ne => update_of_ne ne ..)
      (fun _ _ => rfl) (layout.free f) (layout.freeListable f)
  rw [update_eq_self] at retags
  exact retags.recasts layout rfl rfl ⟨[], rfl, by simp⟩

/-- The rest of the state is not part of the layout. -/
theorem Layout.recasts_congr (layout : Layout st own) (mem : st'.mem = st.mem)
    (free : st'.free = st.free) (cr3 : st'.cr3 = st.cr3) (kernelCr3 : st'.kernelCr3 = st.kernelCr3)
    (spaces : st'.spaces = st.spaces) (listable : st'.listable = st.listable)
    (given : st'.given = st.given) : Recasts st own st' own := by
  have after := layout.of_upper free kernelCr3 spaces listable fun _ _ _ _ _ => by rw [mem]
  exact ⟨⟨after, cr3, kernelCr3, spaces, listable, fun _ _ => rfl, fun _ _ _ => by rw [mem],
    after.opens_of_upper kernelCr3 fun _ _ _ _ => by rw [mem], [], given, by simp⟩, fun _ => id⟩

/-! ### A new space -/

/-- A space has been made: its root is a copy of the template's. -/
structure Spawns (st : Vmm) (own : Frame → Role) (root : Frame) (st' : Vmm)
    (own' : Frame → Role) : Prop where
  layout : Layout st' own'
  cr3 : st'.cr3 = st.cr3
  kernelCr3 : st'.kernelCr3 = st.kernelCr3
  spaces : st'.spaces = insert root st.spaces
  cow : st'.cow = st.cow
  given : st'.given = st.given
  wasFree : own root = .free
  roles : ∀ f, f ≠ root → own' f = own f
  mem : ∀ f, f ≠ root → st'.mem f = st.mem f
  copy : st'.mem root = st.mem st.kernelCr3

theorem Layout.spawn (layout : Layout st own) (wasFree : own root = .free)
    (kernelCr3 : st'.kernelCr3 = st.kernelCr3) (spaces : st'.spaces = insert root st.spaces)
    (listable : st'.listable = st.listable) (free : st'.free = update st.free root false)
    (mem : ∀ f, f ≠ root → st'.mem f = st.mem f) (copy : st'.mem root = st.mem st.kernelCr3) :
    Layout st' (update own root (.table root [])) := by
  have memOf {u : Frame} {role : Role} (before : own u = role) (used : role ≠ .free) :
      st'.mem u = st.mem u := by
    apply mem u
    rintro rfl
    exact used (before.symm.trans wasFree)
  have kernel {u : Frame} {level : Nat} :
      update own root (.table root []) u = .kernel level ↔ own u = .kernel level := by
    by_cases here : u = root
    · subst here
      rw [update_self, wasFree]
      exact ⟨nofun, nofun⟩
    · rw [update_of_ne here]
  have table {u r : Frame} {path : List Index} :
      update own root (.table root []) u = .table r path ↔
        (u = root ∧ r = root ∧ path = []) ∨ own u = .table r path := by
    by_cases here : u = root
    · subst here
      rw [update_self, wasFree]
      constructor
      · intro same
        cases same
        exact .inl ⟨rfl, rfl, rfl⟩
      · rintro (⟨-, rfl, rfl⟩ | impossible)
        · rfl
        · cases impossible
    · rw [update_of_ne here]
      exact ⟨.inr, fun either => either.resolve_left fun both => here both.1⟩
  refine layout.rebuild (fun u => ?_) (fun u isFree => ?_) kernelCr3 (fun _ _ => kernel)
    (fun u level kernel _ => memOf kernel nofun) (fun r live => ?_)
    (fun u r path isTable => ?_) (fun u r path isTable => ?_)
    (fun u r path i isTable short isPresent => ?_) fun u r path isTable => ?_
  · rw [free]
    by_cases here : u = root
    · subst here
      rw [update_self, update_self]
      exact ⟨nofun, nofun⟩
    · rw [update_of_ne here, update_of_ne here]
      exact layout.free u
  · rw [listable]
    by_cases here : u = root
    · subst here
      rw [update_self] at isFree
      cases isFree
    · rw [update_of_ne here] at isFree
      exact layout.freeListable u isFree
  · rw [spaces, Finset.mem_insert] at live
    rw [table]
    exact live.imp (fun same => ⟨same, same, rfl⟩) (layout.spaceRoot r)
  · rw [spaces, Finset.mem_insert]
    rcases table.mp isTable with ⟨-, rfl, rfl⟩ | before
    · exact ⟨.inl rfl, by simp⟩
    · exact (layout.tableSpace u r path before).imp_left .inr
  · rw [listable]
    rcases table.mp isTable with ⟨rfl, -, -⟩ | before
    · exact layout.freeListable u wasFree
    · exact layout.tableListable u r path before
  · rcases table.mp isTable with ⟨rfl, rfl, rfl⟩ | before
    · refine .inl ?_
      rw [copy]
      rfl
    · rw [memOf before nofun] at isPresent ⊢
      apply (layout.tableNext u r path i before short isPresent).imp_right
      exact Or.imp_right (And.imp_right fun own => table.mpr (.inr own))
  · rcases table.mp isTable with ⟨rfl, rfl, rfl⟩ | before
    · exact .inl ⟨rfl, rfl⟩
    · apply (layout.tableLinked u r path before).imp_right
      rintro ⟨parent, above, i, pathEq, parentTable, leads⟩
      refine ⟨parent, above, i, pathEq, table.mpr (.inr parentTable), ?_⟩
      rw [memOf parentTable nofun]
      exact leads

theorem Layout.asCreate (layout : Layout st own) :
    (∃ st', st.asCreate = (none, st') ∧ Untouched st st') ∨
      ∃ root st', st.asCreate = (some root, st') ∧
        Spawns st own root st' (update own root (.table root [])) := by
  unfold Vmm.asCreate
  rcases taken : st.allocTable with ⟨_ | root, mid⟩
  · exact .inl ⟨mid, rfl, allocTable_none taken⟩
  · obtain ⟨takes, -⟩ := allocTable_some layout taken
    have wasFree := (layout.free root).mpr takes.wasFree
    have kernelNe : st.kernelCr3 ≠ root :=
      layout.ne_of_free (by rw [layout.kernelRoot]; nofun) takes.wasFree
    have kernelCr3 : mid.kernelCr3 = st.kernelCr3 := takes.keeps.kernelCr3
    let made : Vmm := { mid.setPage root (mid.mem mid.kernelCr3) with
      spaces := insert root mid.spaces }
    have mem {f : Frame} (ne : f ≠ root) : made.mem f = st.mem f :=
      (update_of_ne ne ..).trans (takes.others f ne)
    have copy : made.mem root = st.mem st.kernelCr3 := by
      rw [← takes.others _ kernelNe, ← kernelCr3]
      exact update_self ..
    have spaces : made.spaces = insert root st.spaces := by
      show insert root mid.spaces = insert root st.spaces
      rw [takes.keeps.spaces]
    refine .inr ⟨root, made, rfl, ?_, takes.keeps.cr3, kernelCr3, ?_, takes.keeps.cow,
      takes.keeps.given, wasFree, fun f ne => update_of_ne ne .., fun f ne => mem ne,
      copy⟩
    · exact layout.spawn wasFree kernelCr3 spaces takes.keeps.listable takes.free
        (fun f ne => mem ne) copy
    · exact spaces

end Steps

/-! ### Frames of tables -/

/-- The frame is a table of the template or of a space. -/
def Vmm.IsTableFrame (st : Vmm) (f : Frame) : Prop :=
  ∃ root path, st.Root root ∧ path.length ≤ 3 ∧ st.tableAt path root = some f

/-- The frame is in use, and not as a table. -/
def Vmm.IsPageFrame (st : Vmm) (f : Frame) : Prop := st.free f = false ∧ ¬ st.IsTableFrame f

section TableFrames

variable {st : Vmm} {own : Frame → Role} {t f root : Frame}

theorem Layout.kernel_reached (layout : Layout st own) {level : Nat}
    (kernel : own t = .kernel level) :
    ∃ path, path.length = level ∧ level ≤ 3 ∧ st.tableAt path st.kernelCr3 = some t := by
  induction level generalizing t with
  | zero =>
    rcases layout.kernelLinked t 0 kernel with ⟨-, rfl⟩ | ⟨parent, i, above, -, impossible, -⟩
    · exact ⟨[], rfl, by omega, rfl⟩
    · cases impossible
  | succ level ih =>
    rcases layout.kernelLinked t _ kernel with
      ⟨impossible, -⟩ | ⟨parent, i, above, short, levelEq, parentKernel, leads⟩
    · cases impossible
    · cases levelEq
      obtain ⟨path, rfl, -, reached⟩ := ih parentKernel
      refine ⟨path ++ [i], by simp, by omega, ?_⟩
      rw [Vmm.tableAt_snoc, reached]
      exact leads

theorem Layout.isTable_iff (layout : Layout st own) : (own f).IsTable ↔ st.IsTableFrame f := by
  constructor
  · intro isTable
    cases role : own f with
    | kernel level =>
      obtain ⟨path, rfl, short, reached⟩ := layout.kernel_reached role
      exact ⟨st.kernelCr3, path, .inl rfl, short, reached⟩
    | table root path =>
      obtain ⟨live, short⟩ := layout.tableSpace f root path role
      exact ⟨root, path, .inr live, short, layout.tableAt_own role⟩
    | free | page | other =>
      rw [role] at isTable
      exact isTable.elim
  · rintro ⟨root, path, isRoot, short, reached⟩
    rcases layout.tableAt_role isRoot short reached with kernel | table
    · rw [kernel]
      trivial
    · rw [table]
      trivial

theorem Layout.isPage_iff (layout : Layout st own) : (own f).IsPage ↔ st.IsPageFrame f := by
  rw [Role.isPage_iff, layout.used_iff, layout.isTable_iff]
  rfl

/-- A space's table that is not the template's is its own. -/
theorem Layout.own_of_tableAt (layout : Layout st own) (isRoot : st.Root root)
    {path : List Index} (short : path.length ≤ 3) (reached : st.tableAt path root = some t)
    (differs : st.tableAt path st.kernelCr3 ≠ some t) : own t = .table root path := by
  rcases layout.tableAt_role isRoot short reached with kernel | table
  · exact absurd (layout.tableAt_kernel isRoot short reached kernel) differs
  · exact table

end TableFrames

/-! ### The boot -/

/-- The state in which no address space has been made: the template is a tree of four levels
outside of the free memory, without large pages at the first level. -/
structure Boot (st : Vmm) : Prop where
  spaces : st.spaces = ∅
  small : ∀ i, present (st.mem st.kernelCr3 i) = true → large (st.mem st.kernelCr3 i) = false
  levels : ∀ path path' t, path.length ≤ 3 → path'.length ≤ 3 →
    st.tableAt path st.kernelCr3 = some t → st.tableAt path' st.kernelCr3 = some t →
    path.length = path'.length
  used : ∀ path t, path.length ≤ 3 → st.tableAt path st.kernelCr3 = some t → st.free t = false
  listable : ∀ f, st.free f = true → f ≠ 0 ∧ st.listable f = true

section Booting

variable {st : Vmm}

/-- The table is one of the template's, of a level. -/
def Vmm.TemplateAt (st : Vmm) (t : Frame) (level : Nat) : Prop :=
  level ≤ 3 ∧ ∃ path, path.length = level ∧ st.tableAt path st.kernelCr3 = some t

open Classical in
/-- The roles of frames when there is the template only. -/
noncomputable def bootRole (st : Vmm) (f : Frame) : Role :=
  if st.free f = true then .free
  else if known : ∃ level, st.TemplateAt f level then .kernel known.choose
  else .other

variable {t : Frame}

theorem Boot.role_kernel (boot : Boot st) {level : Nat} :
    bootRole st t = .kernel level ↔ st.TemplateAt t level := by
  unfold bootRole
  constructor
  · intro kernel
    split_ifs at kernel with isFree known
    cases kernel
    exact known.choose_spec
  · intro known
    obtain ⟨short, path, rfl, reached⟩ := known
    rw [if_neg (by rw [boot.used path t short reached]; exact Bool.false_ne_true),
      dif_pos ⟨path.length, short, path, rfl, reached⟩]
    generalize_proofs known
    obtain ⟨short', path', length, reached'⟩ := known.choose_spec
    rw [← length, boot.levels path' path t (by omega) short reached' reached]

theorem bootRole_table {root : Frame} {path : List Index} : bootRole st t ≠ .table root path := by
  unfold bootRole
  split_ifs <;> nofun

theorem Boot.layout (boot : Boot st) : Layout st (bootRole st) := by
  constructor
  · intro f
    unfold bootRole
    split_ifs with isFree known
    · exact ⟨fun _ => isFree, fun _ => rfl⟩
    all_goals exact ⟨nofun, fun is => absurd is isFree⟩
  · intro f isFree
    apply boot.listable f
    unfold bootRole at isFree
    split_ifs at isFree with free
    exact free
  · exact boot.role_kernel.mpr ⟨by omega, [], rfl, rfl⟩
  · exact boot.small
  · intro t level i child kernel short leads
    obtain ⟨-, path, rfl, reached⟩ := boot.role_kernel.mp kernel
    refine boot.role_kernel.mpr ⟨by omega, path ++ [i], by simp, ?_⟩
    rw [Vmm.tableAt_snoc, reached]
    exact leads
  · intro t level kernel
    obtain ⟨short, path, rfl, reached⟩ := boot.role_kernel.mp kernel
    rcases path.eq_nil_or_concat with rfl | ⟨above, i, rfl⟩
    · exact .inl ⟨rfl, (Option.some.inj reached).symm⟩
    · rw [concat_eq_append] at short reached ⊢
      rw [Vmm.tableAt_snoc] at reached
      obtain ⟨parent, reachedParent, leads⟩ := Option.bind_eq_some_iff.mp reached
      rw [length_append, length_singleton] at short ⊢
      exact .inr ⟨parent, i, above.length, by omega, rfl,
        boot.role_kernel.mpr ⟨by omega, above, rfl, reachedParent⟩, leads⟩
  · intro root live
    rw [boot.spaces] at live
    exact absurd live (Finset.notMem_empty root)
  · exact fun t root path table => absurd table bootRole_table
  · exact fun t root path table => absurd table bootRole_table
  · exact fun t root path i table => absurd table bootRole_table
  · exact fun t root path table => absurd table bootRole_table

/-- A template that maps the page at 4 KiB, with four tables in the frames 1 to 4. -/
def sampleTables (f : Frame) (i : Index) : U64 :=
  if f = 1 ∧ i = 0 then 0x2003
  else if f = 2 ∧ i = 0 then 0x3003
  else if f = 3 ∧ i = 0 then 0x4003
  else if f = 4 ∧ i = 1 then 0x5003
  else 0

def sampleBoot : Vmm where
  mem := sampleTables
  cr3 := 1
  kernelCr3 := 1
  kernelStart := 0x100000
  kernelEnd := 0x300000
  spaces := ∅
  cursor _ := Vmm.gjVmmAnonBase
  cow _ := none
  listed f := decide (6 ≤ f ∧ f < 60)
  torn := false
  listable f := decide (6 ≤ f)
  picks := [6, 7, 8, 9, 10, 11, 12, 13, 14, 15, 16, 17, 18, 19, 20]
  link := 0
  given := []

theorem sampleTables_next {child : Frame} {i : Index}
    (leads : next (sampleTables t i) = some child) (upper : t ≠ 4) : child = t + 1 := by
  unfold sampleTables at leads
  split_ifs at leads with root second third last
  · obtain ⟨rfl, -⟩ := root
    exact (Option.some.inj leads).symm
  · obtain ⟨rfl, -⟩ := second
    exact (Option.some.inj leads).symm
  · obtain ⟨rfl, -⟩ := third
    exact (Option.some.inj leads).symm
  · exact absurd last.1 upper
  · cases leads

theorem sampleBoot_tableAt {path : List Index} (short : path.length ≤ 3)
    (reached : sampleBoot.tableAt path sampleBoot.kernelCr3 = some t) :
    t = BitVec.ofNat 40 (path.length + 1) := by
  induction path using List.reverseRecOn generalizing t with
  | nil => exact (Option.some.inj reached).symm
  | append_singleton path i ih =>
    rw [length_append, length_singleton] at short ⊢
    rw [Vmm.tableAt_snoc] at reached
    obtain ⟨last, reached, leads⟩ := Option.bind_eq_some_iff.mp reached
    obtain rfl := ih (by omega) reached
    rw [sampleTables_next leads]
    · rw [BitVec.ofNat_add (path.length + 1)]
      rfl
    · intro same
      have values := congrArg BitVec.toNat same
      simp at values
      omega

theorem sampleBoot_boot : Boot sampleBoot where
  spaces := rfl
  small i isPresent := by
    have entry : sampleBoot.mem sampleBoot.kernelCr3 i = if i = 0 then 0x2003 else 0 := by
      show sampleTables 1 i = _
      simp [sampleTables]
    rw [entry] at isPresent ⊢
    split_ifs at isPresent ⊢ <;> decide
  levels path path' t short short' reached reached' := by
    have values := congrArg BitVec.toNat
      ((sampleBoot_tableAt short reached).symm.trans (sampleBoot_tableAt short' reached'))
    rw [BitVec.toNat_ofNat, BitVec.toNat_ofNat, Nat.mod_eq_of_lt (by omega)] at values
    omega
  used path t short reached := by
    rw [sampleBoot_tableAt short reached]
    refine decide_eq_false fun both => ?_
    have low := BitVec.le_def.mp both.1
    simp at low
    omega
  listable f isFree := by
    have bounds := of_decide_eq_true isFree
    refine ⟨?_, decide_eq_true bounds.1⟩
    rintro rfl
    exact absurd bounds.1 (by decide)

end Booting

end GreenJade.Mm

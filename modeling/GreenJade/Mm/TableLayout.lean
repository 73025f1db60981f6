import GreenJade.Mm.AddressSpaces

/-! Owns the layout of the page tables in memory. Each frame has one role: a table of the template,
a table that one address space has for itself, a page, or a free frame. An entry in a table of a
space is the template's own entry, a large page, or leads to a table of the same space; so what is
written to the tables of one space is not seen through another. The walk keeps this layout, and
keeps the leaf that each space has for each page. -/

namespace GreenJade.Mm

open Function Proc List Option GjUserPte Vmm

/-! ### Entries -/

section Entries

variable (a b e : U64) (f : Frame) (i : Index)

theorem frameOf_or : frameOf (a ||| b) = frameOf a ||| frameOf b := by
  unfold frameOf
  ext k
  simp

theorem frameOf_and : frameOf (a &&& b) = frameOf a &&& frameOf b := by
  unfold frameOf
  ext k
  simp

theorem frameOf_shiftLeft : frameOf (a <<< 12) = a.setWidth 40 := by
  unfold frameOf
  ext k below
  have inside : 12 + k < 64 := by omega
  rw [BitVec.getElem_extractLsb', BitVec.getLsbD_shiftLeft, BitVec.getElem_setWidth]
  simp [inside, show ¬ 12 + k < 12 by omega, decide_true, decide_false, Bool.not_false,
    Bool.true_and]

@[simp]
theorem frameOf_framePa : frameOf (framePa f) = f := by
  rw [framePa, frameOf_shiftLeft]
  simp

theorem framePa_getLsbD_low {k : Nat} (low : k < 12) : (framePa f).getLsbD k = false := by
  simp [framePa, low]

theorem frameOf_p : frameOf p = 0#40 := by decide
theorem frameOf_w : frameOf w = 0#40 := by decide
theorem frameOf_u : frameOf u = 0#40 := by decide
theorem frameOf_not_addrMask : frameOf (~~~pteAddrMask) = 0#40 := by decide

@[simp]
theorem frameOf_tablePte : frameOf (tablePte f) = f := by
  simp [tablePte, frameOf_or, frameOf_framePa, frameOf_p, frameOf_w, frameOf_u, BitVec.or_zero]

/-- The flags of an entry that leads to a table of a space. -/
structure Usable (e : U64) : Prop where
  present : present e = true
  small : large e = false
  writable : writable e = true
  user : user e = true

theorem tablePte_usable : Usable (tablePte f) where
  present := by simp [Mm.present, tablePte, p]
  small := by
    simp only [large, tablePte, BitVec.getLsbD_or, framePa_getLsbD_low f (by decide : 7 < 12)]
    decide
  writable := by simp [Mm.writable, tablePte, w]
  user := by simp [Mm.user, tablePte, u]

/-- An entry with its frame replaced, and opened for users. -/
theorem retarget_usable (isPresent : present e = true) (small : large e = false) :
    Usable (framePa f ||| (e &&& ~~~pteAddrMask) ||| (u ||| w)) where
  present := by
    unfold Mm.present at isPresent ⊢
    simp [isPresent, pteAddrMask]
  small := by
    unfold large at small ⊢
    simp only [BitVec.getLsbD_or, BitVec.getLsbD_and, small,
      framePa_getLsbD_low f (by decide : 7 < 12)]
    decide
  writable := by simp [Mm.writable, w]
  user := by simp [Mm.user, u]

theorem frameOf_retarget :
    frameOf (framePa f ||| (e &&& ~~~pteAddrMask) ||| (u ||| w)) = f := by
  simp [frameOf_or, frameOf_and, frameOf_framePa, frameOf_not_addrMask, frameOf_w, frameOf_u,
    BitVec.or_zero, BitVec.and_zero]

theorem opened_getLsbD :
    ∀ k < 64, (u ||| w).getLsbD k = decide (k = 1 ∨ k = 2) := by
  decide

/-- An entry that is open for users already. -/
theorem opened_eq {e : U64} (isWritable : writable e = true) (isUser : user e = true) :
    e ||| (u ||| w) = e := by
  refine BitVec.eq_of_getLsbD_eq fun k below => ?_
  rw [BitVec.getLsbD_or, opened_getLsbD k below]
  by_cases flag : k = 1 ∨ k = 2
  · rcases flag with rfl | rfl
    · rw [show e.getLsbD 1 = true from isWritable]
      rfl
    · rw [show e.getLsbD 2 = true from isUser]
      rfl
  · simp [flag]

theorem Usable.opened {e : U64} (usable : Usable e) : e ||| (u ||| w) = e :=
  opened_eq usable.writable usable.user

end Entries

/-! ### Walks -/

def next (e : U64) : Option Frame := if present e && !large e then some (frameOf e) else none

variable {further : Frame → U64} {e : U64}

theorem next_eq_some {t : Frame} :
    next e = some t ↔ present e = true ∧ large e = false ∧ frameOf e = t := by
  unfold next
  cases present e <;> cases large e <;> simp

theorem Usable.next (usable : Usable e) : next e = some (frameOf e) :=
  next_eq_some.mpr ⟨usable.present, usable.small, rfl⟩

def VPage.path (page : VPage) : List Index := [page.i4, page.i3, page.i2, page.i1]

/-- The leaf behind an entry, when this many indices are left: the entry itself, a piece of a
large page of the third level, or what there is further on. -/
def behind (further : Frame → U64) (e : U64) : List Index → U64
  | [] => e
  | [i] => if present e = false then 0 else if large e then piece e i else further (frameOf e)
  | _ :: _ :: _ => if present e = false then 0 else if large e then 0 else further (frameOf e)

theorem behind_congr {further' : Frame → U64} {rest : List Index}
    (same : ∀ t, next e = some t → further' t = further t) :
    behind further' e rest = behind further e rest := by
  match rest with
  | [] => rfl
  | [i] =>
    unfold behind
    cases isPresent : present e <;> cases isLarge : large e <;> simp
    exact same _ (next_eq_some.mpr ⟨isPresent, isLarge, rfl⟩)
  | _ :: _ :: _ =>
    unfold behind
    cases isPresent : present e <;> cases isLarge : large e <;> simp
    exact same _ (next_eq_some.mpr ⟨isPresent, isLarge, rfl⟩)

theorem behind_next {t : Frame} (leads : next e = some t)
    (i : Index) (rest : List Index) : behind further e (i :: rest) = further t := by
  obtain ⟨isPresent, small, rfl⟩ := next_eq_some.mp leads
  cases rest <;> simp [behind, isPresent, small]

theorem behind_absent (absent : present e = false) (i : Index)
    (rest : List Index) : behind further e (i :: rest) = 0 := by
  cases rest <;> simp [behind, absent]

theorem behind_none (dead : next e = none) (i j : Index)
    (rest : List Index) : behind further e (i :: j :: rest) = 0 := by
  unfold next at dead
  unfold behind
  cases isPresent : present e <;> cases isLarge : large e <;> simp [isPresent, isLarge] at dead ⊢

namespace Vmm

def tableAt (st : Vmm) : List Index → Frame → Option Frame
  | [], t => some t
  | i :: rest, t => (next (st.mem t i)).bind (st.tableAt rest)

variable (st : Vmm)

theorem tableAt_append (path rest : List Index) (t : Frame) :
    st.tableAt (path ++ rest) t = (st.tableAt path t).bind (st.tableAt rest) := by
  induction path generalizing t with
  | nil => rfl
  | cons i path ih =>
    rw [cons_append, tableAt, tableAt]
    cases next (st.mem t i) with
    | none => rfl
    | some child => exact ih child

theorem tableAt_snoc (path : List Index) (i : Index) (t : Frame) :
    st.tableAt (path ++ [i]) t = (st.tableAt path t).bind fun last => next (st.mem last i) := by
  rw [tableAt_append]
  congr 1
  funext last
  rw [tableAt]
  cases next (st.mem last i) <;> rfl

def leafFrom (st : Vmm) : List Index → Frame → U64
  | [], _ => 0
  | i :: rest, t => behind (st.leafFrom rest) (st.mem t i) rest

/-- The leaf that a space has for a page. -/
def leafPte (root : Frame) (page : VPage) : U64 := st.leafFrom page.path root

/-- The template's entry at the end of a path. -/
def kernelEntry (path : List Index) (i : Index) : Option U64 :=
  (st.tableAt path st.kernelCr3).map fun t => st.mem t i

theorem tableAt_of_mem {st st' : Vmm} (mem : st'.mem = st.mem) (path : List Index) (t : Frame) :
    st'.tableAt path t = st.tableAt path t := by
  induction path generalizing t with
  | nil => rfl
  | cons i rest ih =>
    rw [tableAt, mem]
    congr 1
    funext child
    exact ih child

theorem leafFrom_of_mem {st st' : Vmm} (mem : st'.mem = st.mem) (path : List Index) (t : Frame) :
    st'.leafFrom path t = st.leafFrom path t := by
  induction path generalizing t with
  | nil => rfl
  | cons i rest ih =>
    rw [leafFrom, mem]
    exact behind_congr fun child _ => ih child

def Root (root : Frame) : Prop := root = st.kernelCr3 ∨ root ∈ st.spaces

/-- What the walk does not touch. -/
structure Keeps (st st' : Vmm) : Prop where
  cr3 : st'.cr3 = st.cr3
  kernelCr3 : st'.kernelCr3 = st.kernelCr3
  kernelStart : st'.kernelStart = st.kernelStart
  kernelEnd : st'.kernelEnd = st.kernelEnd
  spaces : st'.spaces = st.spaces
  cursor : st'.cursor = st.cursor
  cow : st'.cow = st.cow
  listable : st'.listable = st.listable
  given : st'.given = st.given

theorem Keeps.refl (st : Vmm) : st.Keeps st := ⟨rfl, rfl, rfl, rfl, rfl, rfl, rfl, rfl, rfl⟩

theorem Keeps.setPage (st : Vmm) (f : Frame) (page : Page) : st.Keeps (st.setPage f page) :=
  ⟨rfl, rfl, rfl, rfl, rfl, rfl, rfl, rfl, rfl⟩

theorem Keeps.setEntry (st : Vmm) (slot : Slot) (e : U64) : st.Keeps (st.setEntry slot e) :=
  ⟨rfl, rfl, rfl, rfl, rfl, rfl, rfl, rfl, rfl⟩

theorem Keeps.trans {st st' st'' : Vmm} (first : st.Keeps st') (second : st'.Keeps st'') :
    st.Keeps st'' where
  cr3 := second.cr3.trans first.cr3
  kernelCr3 := second.kernelCr3.trans first.kernelCr3
  kernelStart := second.kernelStart.trans first.kernelStart
  kernelEnd := second.kernelEnd.trans first.kernelEnd
  spaces := second.spaces.trans first.spaces
  cursor := second.cursor.trans first.cursor
  cow := second.cow.trans first.cow
  listable := second.listable.trans first.listable
  given := second.given.trans first.given

end Vmm

/-! ### Roles of frames -/

/-- What a frame is used for: a table of the template, of a level; a table that an address space
has for itself, at the end of a path; or a page. -/
inductive Role
  | free
  | kernel (level : Nat)
  | table (root : Frame) (path : List Index)
  | page
  | other

/-- The role of a table below one. -/
def Role.child : Role → Index → Role
  | .kernel level, _ => .kernel (level + 1)
  | .table root path, i => .table root (path ++ [i])
  | role, _ => role

def Role.level : Role → Nat
  | .kernel level => level
  | .table _ path => path.length
  | _ => 0

def Role.owner : Role → Option Frame
  | .table root _ => some root
  | _ => none

/-- A table of the space, or of the template if there is none. -/
def Role.By : Option Frame → Role → Prop
  | some root, role => ∃ path, role = .table root path
  | none, role => ∃ level, role = .kernel level

/-- A table that the walk from a root may come to at a level. -/
def Mine (own : Frame → Role) (root : Frame) (level : Nat) (t : Frame) : Prop :=
  own t = .kernel level ∨ ∃ path, own t = .table root path ∧ path.length = level

/-- What a present entry of a space may be: the template's, a large page, or the way to a table of
the space. -/
def Links (st : Vmm) (own : Frame → Role) (root : Frame) (path : List Index) (i : Index)
    (e : U64) : Prop :=
  st.kernelEntry path i = some e ∨ (path ≠ [] ∧ large e = true) ∨
    Usable e ∧ own (frameOf e) = .table root (path ++ [i])

structure Layout (st : Vmm) (own : Frame → Role) : Prop where
  free : ∀ f, own f = .free ↔ st.free f = true
  freeListable : ∀ f, own f = .free → f ≠ 0 ∧ st.listable f = true
  kernelRoot : own st.kernelCr3 = .kernel 0
  kernelSmall : ∀ i, present (st.mem st.kernelCr3 i) = true → large (st.mem st.kernelCr3 i) = false
  kernelNext : ∀ t level i child, own t = .kernel level → level < 3 →
    next (st.mem t i) = some child → own child = .kernel (level + 1)
  kernelLinked : ∀ t level, own t = .kernel level → (level = 0 ∧ t = st.kernelCr3) ∨
    ∃ parent i above, above < 3 ∧ level = above + 1 ∧ own parent = .kernel above ∧
      next (st.mem parent i) = some t
  spaceRoot : ∀ root ∈ st.spaces, own root = .table root []
  tableSpace : ∀ t root path, own t = .table root path → root ∈ st.spaces ∧ path.length ≤ 3
  tableListable : ∀ t root path, own t = .table root path → t ≠ 0 ∧ st.listable t = true
  tableNext : ∀ t root path i, own t = .table root path → path.length < 3 →
    present (st.mem t i) = true → Links st own root path i (st.mem t i)
  tableLinked : ∀ t root path, own t = .table root path → (path = [] ∧ t = root) ∨
    ∃ parent above i, path = above ++ [i] ∧ own parent = .table root above ∧
      next (st.mem parent i) = some t

section Walks

variable {st st' st'' : Vmm} {own own' own'' : Frame → Role}

variable {path : List Index} {level : Nat} {who : Option Frame} {st' st : Vmm} {u t : Frame}
  {i : Index}

theorem Layout.kernel_tableAt (layout : Layout st own)
    (kernel : own u = .kernel level) (short : level + path.length ≤ 3)
    (reached : st.tableAt path u = some t) : own t = .kernel (level + path.length) := by
  induction path generalizing u level with
  | nil =>
    cases reached
    exact kernel
  | cons i rest ih =>
    obtain ⟨child, leads, reached⟩ := bind_eq_some_iff.mp reached
    rw [length_cons] at short ⊢
    have below := layout.kernelNext u level i child kernel (by omega) leads
    rw [ih below (by omega) reached]
    congr 1
    omega

theorem Layout.kernelEntry_next (layout : Layout st own) {e : U64}
    (short : path.length < 3) (entry : st.kernelEntry path i = some e)
    (leads : next e = some t) : own t = .kernel (path.length + 1) := by
  obtain ⟨last, reached, rfl⟩ := map_eq_some_iff.mp entry
  have kernel := layout.kernel_tableAt layout.kernelRoot (by omega) reached
  rw [Nat.zero_add] at kernel
  exact layout.kernelNext last _ i t kernel short leads

/-- The walk stays within the tables of its root. -/
theorem Layout.mine_next (layout : Layout st own) {root child : Frame}
    (mine : Mine own root level u) (short : level < 3) (leads : next (st.mem u i) = some child) :
    Mine own root (level + 1) child := by
  rcases mine with kernel | ⟨path, table, rfl⟩
  · exact .inl (layout.kernelNext u level i child kernel short leads)
  · obtain ⟨isPresent, small, rfl⟩ := next_eq_some.mp leads
    rcases layout.tableNext u root path i table short isPresent with shared | wide | own
    · exact .inl (layout.kernelEntry_next short shared leads)
    · exact nomatch small.symm.trans wide.2
    · exact .inr ⟨path ++ [i], own.2, by simp⟩

theorem Layout.root_mine (layout : Layout st own) {root : Frame} (isRoot : st.Root root) :
    Mine own root 0 root := by
  rcases isRoot with rfl | live
  · exact .inl layout.kernelRoot
  · exact .inr ⟨[], layout.spaceRoot root live, rfl⟩

theorem Mine.not_free {root : Frame} (mine : Mine own root level u) : own u ≠ .free := by
  rcases mine with kernel | ⟨path, table, -⟩
  · rw [kernel]
    nofun
  · rw [table]
    nofun

/-- If one entry is changed and the leaves behind it stay, all leaves do. -/
theorem Layout.leafFrom_eq (layout : Layout st own)
    (others : ∀ u, u ≠ t → own u ≠ .free → st'.mem u = st.mem u)
    (row : ∀ j, j ≠ i → st'.mem t j = st.mem t j)
    (here : ∀ root level rest, Mine own root level t → rest.length + level = 3 →
      (∀ u root, Mine own root (level + 1) u → st'.leafFrom rest u = st.leafFrom rest u) →
      behind (st'.leafFrom rest) (st'.mem t i) rest = behind (st.leafFrom rest) (st.mem t i) rest)
    {root : Frame} (mine : Mine own root level u)
    (length : path.length + level = 4) : st'.leafFrom path u = st.leafFrom path u := by
  induction path generalizing u root level with
  | nil => rfl
  | cons j rest ih =>
    rw [length_cons] at length
    rw [leafFrom]
    by_cases changed : u = t ∧ j = i
    · obtain ⟨rfl, rfl⟩ := changed
      refine here root level rest mine (by omega) fun v root' mine' => ?_
      exact ih mine' (by omega)
    · have entry : st'.mem u j = st.mem u j := by
        by_cases same : u = t
        · subst same
          exact row j fun equal => changed ⟨rfl, equal⟩
        · rw [others u same mine.not_free]
      rw [entry]
      cases rest with
      | nil => rfl
      | cons k rest =>
        rw [length_cons] at length
        refine behind_congr fun child leads => ?_
        exact ih (layout.mine_next mine (by omega) leads) (by rw [length_cons]; omega)

/-- Entries of the template above the last level are as they were, or newly open for users. -/
def Opens (st st' : Vmm) : Prop :=
  ∀ path i e, path.length < 3 → st'.kernelEntry path i = some e → present e = true →
    st.kernelEntry path i = some e ∨ Usable e

theorem Opens.refl (st : Vmm) : Opens st st := fun _ _ _ _ entry _ => .inl entry

theorem Opens.trans (first : Opens st st') (second : Opens st' st'') : Opens st st'' := by
  intro path i e short entry isPresent
  rcases second path i e short entry isPresent with before | usable
  · exact first path i e short before isPresent
  · exact .inr usable

/-- Tables of a space (or of the template) have changed or been added; pages and the tables of
others have not, and neither has any leaf. -/
structure Grows (who : Option Frame) (st : Vmm) (own : Frame → Role) (st' : Vmm)
    (own' : Frame → Role) : Prop where
  layout : Layout st' own'
  keeps : st.Keeps st'
  roles : ∀ f, own f ≠ .free → own' f = own f
  fresh : ∀ f, own f = .free → own' f = .free ∨ (own' f).By who
  mem : ∀ f, own f ≠ .free → ¬ (own f).By who → st'.mem f = st.mem f
  leaf : ∀ root page, st.Root root → st'.leafPte root page = st.leafPte root page
  opens : Opens st st'
  linked : ∀ u level j child, own u = .kernel level → next (st.mem u j) = some child →
    next (st'.mem u j) = some child

theorem Vmm.Keeps.root {root : Frame} (keeps : st.Keeps st') : st'.Root root ↔ st.Root root := by
  unfold Root
  rw [keeps.kernelCr3, keeps.spaces]

theorem Grows.refl (layout : Layout st own) : Grows who st own st own where
  layout := layout
  keeps := .refl st
  roles _ _ := rfl
  fresh _ isFree := .inl isFree
  mem _ _ _ := rfl
  leaf _ _ _ := rfl
  opens := .refl st
  linked _ _ _ _ _ := id

theorem Grows.trans (first : Grows who st own st' own')
    (second : Grows who st' own' st'' own'') : Grows who st own st'' own'' where
  layout := second.layout
  keeps := first.keeps.trans second.keeps
  roles f used := by
    have same := first.roles f used
    rw [second.roles f (by rw [same]; exact used), same]
  fresh f isFree := by
    rcases first.fresh f isFree with still | taken
    · exact second.fresh f still
    · have used : own' f ≠ .free := by
        intro isFree'
        rw [isFree'] at taken
        cases who <;> obtain ⟨_, equal⟩ := taken <;> cases equal
      rw [second.roles f used]
      exact .inr taken
  mem f used foreign := by
    have same := first.roles f used
    rw [second.mem f (by rw [same]; exact used) (by rw [same]; exact foreign),
      first.mem f used foreign]
  leaf root page isRoot := by
    rw [second.leaf root page (first.keeps.root.mpr isRoot), first.leaf root page isRoot]
  opens := first.opens.trans second.opens
  linked u level j child kernel leads := by
    refine second.linked u level j child ?_ (first.linked u level j child kernel leads)
    rw [first.roles u (by rw [kernel]; nofun)]
    exact kernel

/-! ### A new table below an entry -/

/-- One entry has changed and one frame has been taken from the allocator. -/
structure Relinks (st st' : Vmm) (t : Frame) (i : Index) (f : Frame) : Prop where
  keeps : st.Keeps st'
  wasFree : st.free f = true
  free : st'.free = update st.free f false
  others : ∀ u, u ≠ t → u ≠ f → st'.mem u = st.mem u
  row : ∀ j, j ≠ i → st'.mem t j = st.mem t j

theorem Layout.tableAt_congr (layout : Layout st own)
    (same : ∀ u level, own u = .kernel level → level < 3 → ∀ j child,
      next (st.mem u j) = some child → next (st'.mem u j) = some child)
    (kernel : own u = .kernel level)
    (short : level + path.length ≤ 3) (reached : st.tableAt path u = some t) :
    st'.tableAt path u = some t := by
  induction path generalizing u level with
  | nil => exact reached
  | cons i rest ih =>
    obtain ⟨child, leads, reached⟩ := bind_eq_some_iff.mp reached
    rw [length_cons] at short
    rw [tableAt, same u level kernel (by omega) i child leads]
    exact ih (layout.kernelNext u level i child kernel (by omega) leads) (by omega) reached

/-- The template's entries stay if its tables above the last level do. -/
theorem Layout.kernelEntry_congr (layout : Layout st own) (kernelCr3 : st'.kernelCr3 = st.kernelCr3)
    (same : ∀ u level, own u = .kernel level → level < 3 → st'.mem u = st.mem u)
    {e : U64} (short : path.length < 3)
    (entry : st.kernelEntry path i = some e) : st'.kernelEntry path i = some e := by
  obtain ⟨last, reached, rfl⟩ := map_eq_some_iff.mp entry
  have kernel := layout.kernel_tableAt layout.kernelRoot (by omega) reached
  have reached' : st'.tableAt path st.kernelCr3 = some last := layout.tableAt_congr
    (fun u level isKernel upper j child leads => by rw [same u level isKernel upper]; exact leads)
    layout.kernelRoot (by omega) reached
  rw [kernelEntry, kernelCr3, reached', map_some, same last _ kernel (by omega)]

/-- The template's tables above the last level stay, and the rest is laid out anew. -/
theorem Layout.rebuild (layout : Layout st own) (free : ∀ f, own' f = .free ↔ st'.free f = true)
    (freeListable : ∀ f, own' f = .free → f ≠ 0 ∧ st'.listable f = true)
    (kernelCr3 : st'.kernelCr3 = st.kernelCr3)
    (kernel : ∀ u level, own' u = .kernel level ↔ own u = .kernel level)
    (kernelMem : ∀ u level, own u = .kernel level → level < 3 → st'.mem u = st.mem u)
    (spaceRoot : ∀ root ∈ st'.spaces, own' root = .table root [])
    (tableSpace : ∀ t root path, own' t = .table root path → root ∈ st'.spaces ∧ path.length ≤ 3)
    (tableListable : ∀ t root path, own' t = .table root path → t ≠ 0 ∧ st'.listable t = true)
    (tableNext : ∀ t root path i, own' t = .table root path → path.length < 3 →
      present (st'.mem t i) = true → Links st own' root path i (st'.mem t i))
    (tableLinked : ∀ t root path, own' t = .table root path → (path = [] ∧ t = root) ∨
      ∃ parent above i, path = above ++ [i] ∧ own' parent = .table root above ∧
        next (st'.mem parent i) = some t) : Layout st' own' where
  free := free
  freeListable := freeListable
  kernelRoot := by
    rw [kernelCr3, kernel]
    exact layout.kernelRoot
  kernelSmall := by
    rw [kernelCr3, kernelMem _ 0 layout.kernelRoot (by omega)]
    exact layout.kernelSmall
  kernelNext t level i child isKernel short leads := by
    rw [kernel] at isKernel ⊢
    rw [kernelMem t level isKernel short] at leads
    exact layout.kernelNext t level i child isKernel short leads
  kernelLinked t level isKernel := by
    rw [kernelCr3]
    apply (layout.kernelLinked t level ((kernel t level).mp isKernel)).imp_right
    rintro ⟨parent, i, above, short, levelEq, parentKernel, leads⟩
    refine ⟨parent, i, above, short, levelEq, (kernel parent above).mpr parentKernel, ?_⟩
    rw [kernelMem parent above parentKernel short]
    exact leads
  spaceRoot := spaceRoot
  tableSpace := tableSpace
  tableListable := tableListable
  tableNext t root path i table short isPresent :=
    (tableNext t root path i table short isPresent).imp_left
      (layout.kernelEntry_congr kernelCr3 kernelMem short)
  tableLinked := tableLinked

/-- The layout is one of the tables above the last level, the free frames, the template and the
spaces. -/
theorem Layout.of_upper (layout : Layout st own) (free : st'.free = st.free)
    (kernelCr3 : st'.kernelCr3 = st.kernelCr3) (spaces : st'.spaces = st.spaces)
    (listable : st'.listable = st.listable)
    (upper : ∀ u level root, Mine own root level u → level < 3 → st'.mem u = st.mem u) :
    Layout st' own := by
  have tableMem (u root : Frame) (path : List Index) (table : own u = .table root path)
      (short : path.length < 3) : st'.mem u = st.mem u :=
    upper u _ root (.inr ⟨path, table, rfl⟩) short
  refine layout.rebuild (by rw [free]; exact layout.free)
    (by rw [listable]; exact layout.freeListable) kernelCr3 (fun _ _ => .rfl)
    (fun u level kernel => upper u level 0 (.inl kernel)) (by rw [spaces]; exact layout.spaceRoot)
    (by rw [spaces]; exact layout.tableSpace) (by rw [listable]; exact layout.tableListable)
    (fun t root path i table short isPresent => ?_) fun t root path table => ?_
  · rw [tableMem t root path table short] at isPresent ⊢
    exact layout.tableNext t root path i table short isPresent
  · apply (layout.tableLinked t root path table).imp_right
    rintro ⟨parent, above, i, pathEq, parentTable, leads⟩
    have bound := (layout.tableSpace t root path table).2
    rw [pathEq, length_append, length_singleton] at bound
    rw [← tableMem parent root above parentTable (by omega)] at leads
    exact ⟨parent, above, i, pathEq, parentTable, leads⟩

/-- If the template's tables above the last level stay, so do its entries. -/
theorem Layout.opens_of_upper (layout : Layout st' own') (kernelCr3 : st'.kernelCr3 = st.kernelCr3)
    (same : ∀ u level, own' u = .kernel level → level < 3 → st.mem u = st'.mem u) :
    Opens st st' := by
  intro path i e short entry _
  exact .inl (layout.kernelEntry_congr kernelCr3.symm same short entry)

variable {t f : Frame} {i : Index} {role : Role}

/-- An entry of a space that led to no table of the space, or one of the template that led nowhere,
now leads to a new table with the same leaves. -/
structure NewTable (st : Vmm) (own : Frame → Role) (st' : Vmm) (role : Role) (t : Frame)
    (i : Index) (f : Frame) : Prop where
  change : Relinks st st' t i f
  hasRole : own t = role
  kind : (∃ root path, role = .table root path ∧ path.length < 3) ∨
    ∃ level, role = .kernel level ∧ level < 3 ∧ next (st.mem t i) = none ∧
      (present (st.mem t i) = true → level = 2)
  old : ∀ child, next (st.mem t i) = some child → ∃ level, own child = .kernel level
  usable : Usable (st'.mem t i)
  frame : frameOf (st'.mem t i) = f
  content : ∀ root path j, role = .table root path → path.length + 1 < 3 →
    present (st'.mem f j) = true → st.kernelEntry (path ++ [i]) j = some (st'.mem f j)
  empty : ∀ level j, role = .kernel level → level + 1 < 3 → present (st'.mem f j) = false
  same : ∀ rest, rest.length + role.level = 3 →
    (∀ u root, Mine own root (role.level + 1) u → st'.leafFrom rest u = st.leafFrom rest u) →
    behind (st'.leafFrom rest) (st'.mem t i) rest = behind (st.leafFrom rest) (st.mem t i) rest

namespace NewTable

variable {u : Frame} {level : Nat} {j : Index} {path : List Index} {r : Role}

theorem role_cases (isRole : update own f (role.child i) u = r) :
    u = f ∧ role.child i = r ∨ own u = r := by
  by_cases here : u = f
  · subst here
    rw [update_self] at isRole
    exact .inl ⟨rfl, isRole⟩
  · rw [update_of_ne here] at isRole
    exact .inr isRole

variable (new : NewTable st own st' role t i f)
include new

theorem leads : next (st'.mem t i) = some f := by rw [new.usable.next, new.frame]

variable (layout : Layout st own)
include layout

theorem ne_of_used (used : own u ≠ .free) : u ≠ f := by
  rintro rfl
  exact used ((layout.free u).mpr new.change.wasFree)

theorem role_of_used (used : own u ≠ .free) : update own f (role.child i) u = own u :=
  update_of_ne (new.ne_of_used layout used) ..

theorem keeps_role (before : own u = r) (used : r ≠ .free) : update own f (role.child i) u = r := by
  subst before
  exact new.role_of_used layout used

theorem mem_of_ne (ne : u ≠ t) (used : own u ≠ .free) : st'.mem u = st.mem u :=
  new.change.others u ne (new.ne_of_used layout used)

theorem entry_of_ne (before : own u = r) (used : r ≠ .free)
    (other : ¬ (u = t ∧ j = i)) : st'.mem u j = st.mem u j := by
  subst before
  by_cases here : u = t
  · subst here
    exact new.change.row j fun equal => other ⟨rfl, equal⟩
  · rw [new.mem_of_ne layout here used]

/-- The entry of the template that has changed led nowhere. -/
theorem kernel_next {child : Frame} (kernel : own u = .kernel level)
    (leads : next (st.mem u j) = some child) : st'.mem u j = st.mem u j := by
  apply new.entry_of_ne layout kernel nofun
  rintro ⟨rfl, rfl⟩
  rcases new.kind with ⟨root, path, rfl, -⟩ | ⟨_, -, -, dead, -⟩
  · exact nomatch new.hasRole.symm.trans kernel
  · exact nomatch dead.symm.trans leads

theorem links {r : Frame} {q : List Index} {e : U64} (short : q.length < 3)
    (isPresent : present e = true) (link : Links st own r q j e) :
    Links st' (update own f (role.child i)) r q j e := by
  rcases link with shared | wide | ⟨usable, table⟩
  · obtain ⟨last, reached, rfl⟩ := map_eq_some_iff.mp shared
    have kernel := layout.kernel_tableAt layout.kernelRoot (by omega) reached
    have reached' : st'.tableAt q st.kernelCr3 = some last := layout.tableAt_congr
      (fun u level isKernel _ k child leads => by
        rw [new.kernel_next layout isKernel leads]; exact leads)
      layout.kernelRoot (by omega) reached
    by_cases here : last = t ∧ j = i
    · -- the template's large page has been split, and the space keeps it
      obtain ⟨rfl, rfl⟩ := here
      rcases new.kind with ⟨root, path, rfl, -⟩ | ⟨level, isKernel, -, dead, third⟩
      · exact nomatch new.hasRole.symm.trans kernel
      · rw [new.hasRole, isKernel, third isPresent] at kernel
        have wide : large (st.mem last j) = true := by
          unfold next at dead
          rw [isPresent] at dead
          cases isLarge : large (st.mem last j) <;> simp [isLarge] at dead ⊢
        refine .inr (.inl ⟨?_, wide⟩)
        rintro rfl
        cases kernel
    · refine .inl ?_
      rw [kernelEntry, new.change.keeps.kernelCr3, reached', map_some,
        new.entry_of_ne layout kernel nofun here]
  · exact .inr (.inl wide)
  · exact .inr (.inr ⟨usable, new.keeps_role layout table nofun⟩)

theorem kernelNext {child : Frame}
    (kernel : update own f (role.child i) u = .kernel level) (short : level < 3)
    (leads : next (st'.mem u j) = some child) :
    update own f (role.child i) child = .kernel (level + 1) := by
  rcases role_cases kernel with ⟨rfl, equal⟩ | before
  · rcases new.kind with ⟨root, path, rfl, -⟩ | ⟨above, rfl, -⟩
    · cases equal
    · cases equal
      exact nomatch (new.empty above j rfl short).symm.trans (next_eq_some.mp leads).1
  · by_cases here : u = t ∧ j = i
    · obtain ⟨rfl, rfl⟩ := here
      cases new.leads.symm.trans leads
      rw [update_self, ← new.hasRole, before]
      rfl
    · rw [new.entry_of_ne layout before nofun here] at leads
      exact new.keeps_role layout (layout.kernelNext u level j child before short leads) nofun

theorem kernelLinked (kernel : update own f (role.child i) u = .kernel level) :
    (level = 0 ∧ u = st.kernelCr3) ∨ ∃ parent j above, above < 3 ∧ level = above + 1 ∧
      update own f (role.child i) parent = .kernel above ∧
      next (st'.mem parent j) = some u := by
  rcases role_cases kernel with ⟨rfl, equal⟩ | before
  · rcases new.kind with ⟨root, path, rfl, -⟩ | ⟨above, rfl, short, -⟩
    · cases equal
    · cases equal
      exact .inr ⟨t, i, above, short, rfl, new.keeps_role layout new.hasRole nofun, new.leads⟩
  · apply (layout.kernelLinked u level before).imp_right
    rintro ⟨parent, j, above, short, levelEq, parentKernel, leads⟩
    refine ⟨parent, j, above, short, levelEq, new.keeps_role layout parentKernel nofun, ?_⟩
    rw [new.kernel_next layout parentKernel leads]
    exact leads

theorem tableNext {root : Frame}
    (table : update own f (role.child i) u = .table root path) (short : path.length < 3)
    (isPresent : present (st'.mem u j) = true) :
    Links st' (update own f (role.child i)) root path j (st'.mem u j) := by
  rcases role_cases table with ⟨rfl, equal⟩ | before
  · rcases new.kind with ⟨root', path', rfl, -⟩ | ⟨above, rfl, -⟩
    · cases equal
      rw [length_append, length_singleton] at short
      exact new.links layout (by simpa using short) isPresent
        (.inl (new.content root path' j rfl short isPresent))
    · cases equal
  · by_cases here : u = t ∧ j = i
    · obtain ⟨rfl, rfl⟩ := here
      refine .inr (.inr ⟨new.usable, ?_⟩)
      rw [new.frame, update_self, ← new.hasRole, before]
      rfl
    · rw [new.entry_of_ne layout before nofun here] at isPresent ⊢
      exact new.links layout short isPresent (layout.tableNext u root path j before short isPresent)

theorem tableLinked {root : Frame} (table : update own f (role.child i) u = .table root path) :
    (path = [] ∧ u = root) ∨ ∃ parent above j, path = above ++ [j] ∧
      update own f (role.child i) parent = .table root above ∧
      next (st'.mem parent j) = some u := by
  rcases role_cases table with ⟨rfl, equal⟩ | before
  · rcases new.kind with ⟨root', path', rfl, -⟩ | ⟨above, rfl, -⟩
    · cases equal
      exact .inr ⟨t, path', i, rfl, new.keeps_role layout new.hasRole nofun, new.leads⟩
    · cases equal
  · apply (layout.tableLinked u root path before).imp_right
    rintro ⟨parent, above, j, pathEq, parentTable, leads⟩
    refine ⟨parent, above, j, pathEq, new.keeps_role layout parentTable nofun, ?_⟩
    rw [new.entry_of_ne layout parentTable nofun]
    · exact leads
    · rintro ⟨rfl, rfl⟩
      obtain ⟨level, kernel⟩ := new.old u leads
      exact nomatch before.symm.trans kernel

theorem layout_after : Layout st' (update own f (role.child i)) := by
  constructor
  · intro u
    rw [new.change.free]
    by_cases here : u = f
    · subst here
      rcases new.kind with ⟨root, path, rfl, -⟩ | ⟨above, rfl, -⟩ <;> simp [Role.child]
    · rw [update_of_ne here, update_of_ne here]
      exact layout.free u
  · intro u isFree
    rw [new.change.keeps.listable]
    rcases role_cases isFree with ⟨-, equal⟩ | before
    · rcases new.kind with ⟨root, path, rfl, -⟩ | ⟨above, rfl, -⟩ <;> cases equal
    · exact layout.freeListable u before
  · rw [new.change.keeps.kernelCr3]
    exact new.keeps_role layout layout.kernelRoot nofun
  · rw [new.change.keeps.kernelCr3]
    intro j isPresent
    by_cases here : st.kernelCr3 = t ∧ j = i
    · obtain ⟨rfl, rfl⟩ := here
      exact new.usable.small
    · rw [new.entry_of_ne layout layout.kernelRoot nofun here] at isPresent ⊢
      exact layout.kernelSmall j isPresent
  · exact fun _ _ _ _ => new.kernelNext layout
  · rw [new.change.keeps.kernelCr3]
    exact fun _ _ => new.kernelLinked layout
  · rw [new.change.keeps.spaces]
    exact fun root live => new.keeps_role layout (layout.spaceRoot root live) nofun
  · rw [new.change.keeps.spaces]
    intro u root path table
    rcases role_cases table with ⟨-, equal⟩ | before
    · rcases new.kind with ⟨root', path', rfl, -⟩ | ⟨above, rfl, -⟩
      · cases equal
        refine ⟨(layout.tableSpace t root path' new.hasRole).1, ?_⟩
        rcases new.kind with ⟨_, _, same, short⟩ | ⟨_, same, -⟩
        · cases same
          rw [length_append, length_singleton]
          omega
        · cases same
      · cases equal
    · exact layout.tableSpace u root path before
  · rw [new.change.keeps.listable]
    intro u root path table
    rcases role_cases table with ⟨rfl, -⟩ | before
    · exact layout.freeListable u ((layout.free u).mpr new.change.wasFree)
    · exact layout.tableListable u root path before
  · exact fun _ _ _ _ => new.tableNext layout
  · exact fun _ _ _ => new.tableLinked layout

/-- A walk through the template comes to where it came before, or to the new table. -/
theorem tableAt_before {last : Frame}
    (kernel : own u = .kernel level) (short : level + path.length < 3)
    (reached : st'.tableAt path u = some last) : st.tableAt path u = some last ∨ last = f := by
  induction path generalizing u level with
  | nil => exact .inl reached
  | cons j rest ih =>
    rw [length_cons] at short
    obtain ⟨child, leads, reached⟩ := bind_eq_some_iff.mp reached
    by_cases here : u = t ∧ j = i
    · obtain ⟨rfl, rfl⟩ := here
      cases new.leads.symm.trans leads
      -- the new table is empty, so the walk ends in it
      cases rest with
      | nil => exact .inr (some.inj reached).symm
      | cons k rest =>
        obtain ⟨next', leads', -⟩ := bind_eq_some_iff.mp reached
        have zero := new.empty level k (by rw [← new.hasRole, kernel]) (by omega)
        exact nomatch zero.symm.trans (next_eq_some.mp leads').1
    · rw [new.entry_of_ne layout kernel nofun here] at leads
      rw [tableAt, leads]
      exact ih (layout.kernelNext u level j child kernel (by omega) leads) (by omega) reached

theorem opens : Opens st st' := by
  intro path j e short entry isPresent
  obtain ⟨last, reached, rfl⟩ := map_eq_some_iff.mp entry
  have after := (new.layout_after layout).kernel_tableAt (new.layout_after layout).kernelRoot
    (by omega) reached
  rw [new.change.keeps.kernelCr3] at reached
  rw [Nat.zero_add] at after
  rcases new.tableAt_before layout layout.kernelRoot (by omega) reached with before | rfl
  · have kernel := layout.kernel_tableAt layout.kernelRoot (by omega) before
    by_cases here : last = t ∧ j = i
    · obtain ⟨rfl, rfl⟩ := here
      exact .inr new.usable
    · rw [new.entry_of_ne layout kernel nofun here]
      exact .inl (by rw [kernelEntry, before, map_some])
  · -- the new table is one of the template's, and empty
    rw [update_self] at after
    rcases new.kind with ⟨root, path', rfl, -⟩ | ⟨above, rfl, -⟩
    · cases after
    · have zero := new.empty above j rfl (by
        have level : above + 1 = path.length := Role.kernel.inj after
        omega)
      exact nomatch zero.symm.trans isPresent

theorem grows : Grows role.owner st own st' (update own f (role.child i)) where
  layout := new.layout_after layout
  keeps := new.change.keeps
  roles _ used := new.role_of_used layout used
  fresh u isFree := by
    by_cases here : u = f
    · subst here
      rw [update_self]
      rcases new.kind with ⟨root, path, rfl, -⟩ | ⟨above, rfl, -⟩
      all_goals exact .inr ⟨_, rfl⟩
    · rw [update_of_ne here]
      exact .inl isFree
  mem u used foreign := by
    refine new.mem_of_ne layout ?_ used
    rintro rfl
    rw [new.hasRole] at foreign
    rcases new.kind with ⟨root, path, rfl, -⟩ | ⟨above, rfl, -⟩
    all_goals exact foreign ⟨_, rfl⟩
  leaf root page isRoot := by
    refine layout.leafFrom_eq (fun u ne used => new.mem_of_ne layout ne used) new.change.row ?_
      (layout.root_mine isRoot) rfl
    intro root' level rest mine length inner
    have level_eq : level = role.level := by
      rcases mine with kernel | ⟨path, table, rfl⟩
      · rw [← new.hasRole, kernel]
        rfl
      · rw [← new.hasRole, table]
        rfl
    subst level_eq
    exact new.same rest length inner
  opens := new.opens layout
  linked u level j child kernel leads := by
    rw [new.kernel_next layout kernel leads]
    exact leads

end NewTable

/-! ### Allocation -/

/-- Nothing that counts has changed. -/
structure Untouched (st st' : Vmm) : Prop where
  keeps : st.Keeps st'
  free : st'.free = st.free
  mem : st'.mem = st.mem

theorem Untouched.refl (st : Vmm) : Untouched st st := ⟨.refl st, rfl, rfl⟩

/-- A frame has been taken from the allocator. -/
structure Takes (st st' : Vmm) (f : Frame) : Prop where
  keeps : st.Keeps st'
  wasFree : st.free f = true
  free : st'.free = update st.free f false
  others : ∀ u, u ≠ f → st'.mem u = st.mem u

theorem pmmAlloc_none (failed : st.pmmAlloc = (none, st')) : Untouched st st' := by
  unfold pmmAlloc at failed
  split at failed
  · cases failed
    exact ⟨.refl _, rfl, rfl⟩
  · split_ifs at failed
    · cases failed
    · cases failed
      exact ⟨⟨rfl, rfl, rfl, rfl, rfl, rfl, rfl, rfl, rfl⟩, rfl, rfl⟩

/-- As long as a frame is in use, no frame is listed twice. -/
theorem torn_of_used {f : Frame} (used : st.free f = false) : st.torn = false :=
  (Bool.or_eq_false_iff.mp used).1

theorem free_of_whole (whole : st.torn = false) : st.free = st.listed := by
  funext f
  rw [Vmm.free, whole, Bool.false_or]

theorem Layout.torn (layout : Layout st own) : st.torn = false := by
  apply torn_of_used (f := st.kernelCr3)
  rw [← Bool.not_eq_true, ← layout.free, layout.kernelRoot]
  nofun

theorem pmmAlloc_some {f : Frame} (layout : Layout st own)
    (taken : st.pmmAlloc = (some f, st')) : Takes st st' f := by
  have whole := layout.torn
  unfold pmmAlloc at taken
  split at taken
  · cases taken
  · split_ifs at taken with isFree
    · obtain ⟨same, rfl⟩ := Prod.mk.inj taken
      cases same
      refine ⟨⟨rfl, rfl, rfl, rfl, rfl, rfl, rfl, rfl, rfl⟩, isFree.2, ?_,
        fun u ne => update_of_ne ne ..⟩
      rw [free_of_whole whole]
      exact free_of_whole whole
    · cases taken

theorem Takes.setPage {mid : Vmm} (takes : Takes st mid f) (page : Page) :
    Takes st (mid.setPage f page) f where
  keeps := takes.keeps.trans (.setPage mid _ _)
  wasFree := takes.wasFree
  free := takes.free
  others u ne := (update_of_ne ne ..).trans (takes.others u ne)

theorem allocTable_none (failed : st.allocTable = (none, st')) : Untouched st st' := by
  unfold allocTable at failed
  rcases taken : st.pmmAlloc with ⟨_ | f, mid⟩ <;> rw [taken] at failed
  · cases failed
    exact pmmAlloc_none taken
  · cases failed

theorem allocTable_some {f : Frame} (layout : Layout st own)
    (taken : st.allocTable = (some f, st')) : Takes st st' f ∧ st'.mem f = fun _ => 0 := by
  unfold allocTable at taken
  rcases alloc : st.pmmAlloc with ⟨_ | g, mid⟩ <;> rw [alloc] at taken
  · cases taken
  · obtain ⟨same, rfl⟩ := Prod.mk.inj taken
    cases same
    exact ⟨(pmmAlloc_some layout alloc).setPage _, update_self ..⟩

/-- A table that has been taken from the allocator is linked. -/
theorem Takes.relinks {mid : Vmm} (takes : Takes st mid f) (ne : t ≠ f) (e : U64) :
    Relinks st (mid.setEntry ⟨t, i⟩ e) t i f where
  keeps := takes.keeps.trans (.setEntry mid _ _)
  wasFree := takes.wasFree
  free := takes.free
  others u neT neF := by
    simp only [setEntry, Vmm.setPage]
    rw [update_of_ne neT, takes.others u neF]
  row j other := by
    simp only [setEntry, Vmm.setPage]
    rw [update_self, update_of_ne other, takes.others t ne]

@[simp]
theorem setEntry_entry (st : Vmm) (slot : Slot) (e : U64) :
    (st.setEntry slot e).entry slot = e := by
  simp [setEntry, Vmm.setPage, entry]

theorem setEntry_setEntry (st : Vmm) (slot : Slot) (e e' : U64) :
    (st.setEntry slot e).setEntry slot e' = st.setEntry slot e' := by
  simp [setEntry, Vmm.setPage]

theorem setEntry_self (st : Vmm) (slot : Slot) : st.setEntry slot (st.entry slot) = st := by
  simp [setEntry, Vmm.setPage, entry]

theorem Usable.ensureUserFlag {slot : Slot} (usable : Usable (st.entry slot)) :
    st.ensureUserFlag slot = st := by
  rw [Vmm.ensureUserFlag, if_pos usable.present, usable.opened, setEntry_self]

theorem Untouched.layout (untouched : Untouched st st') (layout : Layout st own) : Layout st' own :=
  layout.of_upper untouched.free untouched.keeps.kernelCr3 untouched.keeps.spaces
    untouched.keeps.listable fun _ _ _ _ _ => by rw [untouched.mem]

theorem Untouched.grows (untouched : Untouched st st')
    (layout : Layout st own) : Grows who st own st' own where
  layout := untouched.layout layout
  keeps := untouched.keeps
  roles _ _ := rfl
  fresh _ isFree := .inl isFree
  mem _ _ _ := by rw [untouched.mem]
  leaf root page _ := leafFrom_of_mem untouched.mem page.path root
  opens := (untouched.layout layout).opens_of_upper untouched.keeps.kernelCr3
    fun _ _ _ _ => by rw [untouched.mem]
  linked _ _ _ _ _ leads := by rw [untouched.mem]; exact leads

/-- Walks through the template go the same way. -/
theorem Grows.tableAt_kernel (grows : Grows who st own st' own')
    (layout : Layout st own) (short : path.length ≤ 3)
    (reached : st.tableAt path st.kernelCr3 = some t) :
    st'.tableAt path st'.kernelCr3 = some t := by
  rw [grows.keeps.kernelCr3]
  exact layout.tableAt_congr (fun u level kernel _ j child leads =>
    grows.linked u level j child kernel leads) layout.kernelRoot (by omega) reached

end Walks

end GreenJade.Mm

import GreenJade.Mm.TableLayout

/-! Owns what the walk of `vmm.c` that creates does to the layout of the tables: it leaves the
space with tables of its own all the way to the leaf, and changes no leaf of any space. It does not
own the walk that only looks up. -/

namespace GreenJade.Mm

open Proc Function List GjUserPte Vmm

variable {st st' st'' : Vmm} {own own' own'' : Frame → Role} {t f root : Frame} {i : Index}
  {path : List Index} {e : U64} {page : VPage}

/-! ### Writing an entry -/

theorem entry_mk : st.entry ⟨t, i⟩ = st.mem t i := rfl

variable {u r : Frame}

theorem setEntry_mem_of_ne {j : Index} (other : ¬ (u = t ∧ j = i)) :
    (st.setEntry ⟨t, i⟩ e).mem u j = st.mem u j := by
  simp only [setEntry, setPage]
  by_cases here : u = t
  · subst here
    rw [update_self, update_of_ne fun same => other ⟨rfl, same⟩]
  · rw [update_of_ne here]

theorem setEntry_mem_of_table_ne (ne : u ≠ t) : (st.setEntry ⟨t, i⟩ e).mem u = st.mem u :=
  update_of_ne ne ..

theorem setEntry_mem_of_kernel {level : Nat} (role : own t = .table root path)
    (kernel : own u = .kernel level) : (st.setEntry ⟨t, i⟩ e).mem u = st.mem u := by
  apply setEntry_mem_of_table_ne
  rintro rfl
  rw [role] at kernel
  cases kernel

@[simp]
theorem setEntry_mem_self : (st.setEntry ⟨t, i⟩ e).mem t i = e := by
  simp [setEntry, setPage]

/-- An entry that led to no table of the space is written. -/
theorem Layout.writeEntry (layout : Layout st own) (role : own t = .table root path)
    (link : path.length < 3 → present e = true → Links st own root path i e)
    (old : path.length < 3 → ∀ child, next (st.mem t i) = some child →
      ∃ level, own child = .kernel level) : Layout (st.setEntry ⟨t, i⟩ e) own := by
  refine layout.rebuild layout.free layout.freeListable rfl (fun _ _ => .rfl)
    (fun u level kernel _ => setEntry_mem_of_kernel role kernel) layout.spaceRoot layout.tableSpace
    layout.tableListable (fun u r q j table short isPresent => ?_) fun u r q table => ?_
  · by_cases here : u = t ∧ j = i
    · obtain ⟨rfl, rfl⟩ := here
      rw [role] at table
      cases table
      rw [setEntry_mem_self] at isPresent ⊢
      exact link short isPresent
    · rw [setEntry_mem_of_ne here] at isPresent ⊢
      exact layout.tableNext u r q j table short isPresent
  · apply (layout.tableLinked u r q table).imp_right
    rintro ⟨parent, above, j, pathEq, parentTable, leads⟩
    refine ⟨parent, above, j, pathEq, parentTable, ?_⟩
    rw [setEntry_mem_of_ne]
    · exact leads
    · rintro ⟨rfl, rfl⟩
      rw [role] at parentTable
      cases parentTable
      have bound := (layout.tableSpace u _ _ table).2
      rw [pathEq, length_append, length_singleton] at bound
      obtain ⟨level, kernel⟩ := old (by omega) u leads
      rw [table] at kernel
      cases kernel

/-- The table at the end of a walk from a root is the template's, or the root's own by its path. -/
theorem Layout.tableAt_role (layout : Layout st own) (isRoot : st.Root root)
    (short : path.length ≤ 3) (reached : st.tableAt path root = some t) :
    own t = .kernel path.length ∨ own t = .table root path := by
  induction path using List.reverseRecOn generalizing t with
  | nil =>
    cases reached
    exact isRoot.imp (fun isKernel => by rw [isKernel]; exact layout.kernelRoot)
      (layout.spaceRoot root)
  | append_singleton path i ih =>
    rw [length_append, length_singleton] at short
    rw [tableAt_snoc] at reached
    obtain ⟨last, reached, leads⟩ := Option.bind_eq_some_iff.mp reached
    rw [length_append]
    rcases ih (by omega) reached with kernel | table
    · exact .inl (layout.kernelNext last _ i t kernel (by omega) leads)
    · obtain ⟨isPresent, small, rfl⟩ := next_eq_some.mp leads
      rcases layout.tableNext last root path i table (by omega) isPresent with
        shared | wide | own
      · exact .inl (layout.kernelEntry_next (by omega) shared leads)
      · exact nomatch small.symm.trans wide.2
      · exact .inr own.2

/-- A table of a space is reached by its path. -/
theorem Layout.tableAt_own (layout : Layout st own) (table : own t = .table root path) :
    st.tableAt path root = some t := by
  induction path using List.reverseRecOn generalizing t with
  | nil =>
    rcases layout.tableLinked t root [] table with ⟨-, rfl⟩ | ⟨parent, above, j, pathEq, -⟩
    · rfl
    · exact absurd pathEq (by simp)
  | append_singleton path i ih =>
    rcases layout.tableLinked t root _ table with ⟨pathEq, -⟩ | ⟨parent, above, j, pathEq, rest⟩
    · exact absurd pathEq (by simp)
    · obtain ⟨rfl, same⟩ := append_inj' pathEq rfl
      obtain rfl := singleton_inj.mp same
      rw [tableAt_snoc, ih rest.1]
      exact rest.2

theorem leafPte_of_tableAt (reached : st.tableAt [page.i4, page.i3, page.i2] root = some t) :
    st.leafPte root page = st.mem t page.i1 := by
  obtain ⟨pdpt, leads4, reached⟩ := Option.bind_eq_some_iff.mp reached
  obtain ⟨pd, leads3, reached⟩ := Option.bind_eq_some_iff.mp reached
  obtain ⟨pt, leads2, reached⟩ := Option.bind_eq_some_iff.mp reached
  cases reached
  rw [leafPte, VPage.path, leafFrom, behind_next leads4, leafFrom, behind_next leads3,
    leafFrom, behind_next leads2]
  rfl

/-- Tables above the last level stay as they are, so walks to the last level do. -/
theorem Layout.tableAt_of_upper (layout : Layout st own)
    (same : ∀ u level r, Mine own r level u → level < 3 → st'.mem u = st.mem u)
    {level : Nat} (mine : Mine own r level u) (short : level + path.length ≤ 3) :
    st'.tableAt path u = st.tableAt path u := by
  induction path generalizing u level with
  | nil => rfl
  | cons j rest ih =>
    rw [length_cons] at short
    rw [tableAt, tableAt, same u level r mine (by omega)]
    cases leads : next (st.mem u j) with
    | none => rfl
    | some child =>
      exact ih (layout.mine_next mine (by omega) leads) (by omega)

theorem leafPte_eq_behind (st : Vmm) (root : Frame) (page : VPage) :
    st.leafPte root page = match st.tableAt [page.i4, page.i3] root with
      | none => 0
      | some pd => behind (fun pt => st.mem pt page.i1) (st.mem pd page.i2) [page.i1] := by
  rw [leafPte, VPage.path, leafFrom, tableAt]
  cases leads4 : next (st.mem root page.i4) with
  | none => rw [behind_none leads4, Option.bind_none]
  | some pdpt =>
    rw [behind_next leads4, leafFrom, Option.bind_some, tableAt]
    cases leads3 : next (st.mem pdpt page.i3) with
    | none => rw [behind_none leads3, Option.bind_none]
    | some pd =>
      rw [behind_next leads3]
      rfl

theorem Mine.level {level : Nat} (mine : Mine own r level u) : (own u).level = level := by
  rcases mine with kernel | ⟨path, table, rfl⟩
  · rw [kernel]
    rfl
  · rw [table]
    rfl

theorem tableAt_third (reached : st.tableAt [page.i4, page.i3, page.i2] root = some t) :
    ∃ pd, st.tableAt [page.i4, page.i3] root = some pd ∧ next (st.mem pd page.i2) = some t := by
  rw [← Option.bind_eq_some_iff, ← tableAt_snoc]
  exact reached

theorem Layout.upper_setEntry (last : (own t).level = 3) {e : U64} {level : Nat}
    (mine : Mine own r level u) (short : level < 3) :
    (st.setEntry ⟨t, i⟩ e).mem u = st.mem u := by
  apply setEntry_mem_of_table_ne
  rintro rfl
  rw [mine.level] at last
  omega

/-- Writing a leaf changes no way to a table. -/
theorem Layout.tableAt_setEntry (layout : Layout st own) (last : (own t).level = 3) {e : U64}
    (isRoot : st.Root r) (short : path.length ≤ 3) :
    (st.setEntry ⟨t, i⟩ e).tableAt path r = st.tableAt path r :=
  layout.tableAt_of_upper (fun _ _ _ mine upper => Layout.upper_setEntry last mine upper)
    (layout.root_mine isRoot) (by omega)

/-- A leaf is written: it is the leaf of all pages that are mapped by this place, and no other
changes. -/
theorem Layout.leafPte_setEntry (layout : Layout st own) (last : (own t).level = 3) (e : U64)
    (isRoot : st.Root r) (q : VPage) :
    (st.setEntry ⟨t, i⟩ e).leafPte r q =
      if st.tableAt [q.i4, q.i3, q.i2] r = some t ∧ q.i1 = i then e else st.leafPte r q := by
  split_ifs with target
  · obtain ⟨reached, rfl⟩ := target
    rw [leafPte_of_tableAt ((layout.tableAt_setEntry last isRoot (by simp)).trans reached),
      setEntry_mem_self]
  · rw [leafPte_eq_behind, leafPte_eq_behind, layout.tableAt_setEntry last isRoot (by simp)]
    cases reached : st.tableAt [q.i4, q.i3] r with
    | none => rfl
    | some pd =>
      have pdMine : Mine own r 2 pd :=
        (layout.tableAt_role isRoot (by simp) reached).imp_right fun table => ⟨_, table, rfl⟩
      simp only [Layout.upper_setEntry last pdMine (by omega)]
      refine behind_congr fun pt leads => setEntry_mem_of_ne ?_
      rintro ⟨rfl, rfl⟩
      refine target ⟨?_, rfl⟩
      rw [show [q.i4, q.i3, q.i2] = [q.i4, q.i3] ++ [q.i2] from rfl, tableAt_snoc, reached]
      exact leads

/-- A leaf in a table of the space is written: this page of this space changes, and no other. -/
theorem Layout.writeLeaf (layout : Layout st own)
    (table : own t = .table root [page.i4, page.i3, page.i2]) (e : U64) :
    Layout (st.setEntry ⟨t, page.i1⟩ e) own ∧ ∀ r q, st.Root r →
      (st.setEntry ⟨t, page.i1⟩ e).leafPte r q =
        if r = root ∧ q = page then e else st.leafPte r q := by
  refine ⟨layout.writeEntry table (fun short => absurd short (by simp))
    (fun short => absurd short (by simp)), fun r q isRoot => ?_⟩
  rw [layout.leafPte_setEntry (by rw [table]; rfl) e isRoot]
  refine if_congr ⟨fun ⟨reached, sameIndex⟩ => ?_, ?_⟩ rfl rfl
  · rcases layout.tableAt_role isRoot (by simp) reached with kernel | table'
    · rw [table] at kernel
      cases kernel
    · rw [table] at table'
      injection table' with sameRoot samePath
      injection samePath with same4 samePath
      injection samePath with same3 samePath
      injection samePath with same2
      exact ⟨sameRoot.symm, VPage.ext same4.symm same3.symm same2.symm sameIndex⟩
  · rintro ⟨rfl, rfl⟩
    exact ⟨layout.tableAt_own table, rfl⟩

/-! ### New tables -/

theorem leafFrom_cons (i : Index) (rest : List Index) (t : Frame) :
    st.leafFrom (i :: rest) t = behind (st.leafFrom rest) (st.mem t i) rest := rfl

theorem present_zero : present 0 = false := by decide

theorem leafFrom_zero {rest : List Index} (zero : st.mem t = fun _ => 0) :
    st.leafFrom rest t = 0 := by
  match rest with
  | [] => rfl
  | [i] =>
    rw [leafFrom_cons, zero]
    rfl
  | i :: j :: rest =>
    rw [leafFrom_cons, zero]
    exact behind_absent present_zero j rest

theorem leafFrom_of_page (same : st.mem u = st.mem t) (rest : List Index) :
    st.leafFrom rest u = st.leafFrom rest t := by
  cases rest with
  | nil => rfl
  | cons i rest => rw [leafFrom_cons, leafFrom_cons, same]

theorem Layout.ne_of_free (layout : Layout st own) (used : own u ≠ .free)
    (isFree : st.free f = true) : u ≠ f := by
  rintro rfl
  exact used ((layout.free u).mpr isFree)

/-- An entry that is not present gets a new table. -/
theorem NewTable.fresh (layout : Layout st own) {role : Role} (hasRole : own t = role)
    (kind : (∃ root path, role = .table root path ∧ path.length < 3) ∨
      ∃ level, role = .kernel level ∧ level < 3)
    (absent : present (st.mem t i) = false) {mid : Vmm}
    (takes : Takes st mid f) (zero : mid.mem f = fun _ => 0) :
    NewTable st own (mid.setEntry ⟨t, i⟩ (tablePte f)) role t i f := by
  have used : own t ≠ .free := by
    rw [hasRole]
    rcases kind with ⟨root, path, rfl, -⟩ | ⟨level, rfl, -⟩ <;> nofun
  have upper : role.level < 3 := by
    rcases kind with ⟨root, path, rfl, short⟩ | ⟨level, rfl, short⟩ <;> exact short
  have notPresent {P : Prop} (isPresent : present (st.mem t i) = true) : P :=
    nomatch absent.symm.trans isPresent
  have ne : t ≠ f := layout.ne_of_free used takes.wasFree
  have zero' : (mid.setEntry ⟨t, i⟩ (tablePte f)).mem f = fun _ => 0 :=
    (setEntry_mem_of_table_ne ne.symm).trans zero
  refine ⟨takes.relinks ne _, hasRole, ?_, ?_, ?_, ?_, ?_, ?_, ?_⟩
  · apply kind.imp_right
    rintro ⟨level, isKernel, short⟩
    refine ⟨level, isKernel, short, ?_, notPresent⟩
    simp only [next, absent, Bool.false_and, Bool.false_eq_true, if_false]
  · exact fun child leads => notPresent (next_eq_some.mp leads).1
  · rw [setEntry_mem_self]
    exact tablePte_usable f
  · rw [setEntry_mem_self, frameOf_tablePte]
  · intro _ _ j _ _ isPresent
    rw [zero'] at isPresent
    exact nomatch present_zero.symm.trans isPresent
  · intro _ j _ _
    rw [zero']
    exact present_zero
  · intro rest length _
    obtain ⟨j, rest, rfl⟩ := exists_cons_of_length_pos (by omega : 0 < rest.length)
    rw [setEntry_mem_self, behind_next (tablePte_usable f).next, frameOf_tablePte,
      leafFrom_zero zero', behind_absent absent]

/-- An entry that is the template's gets a copy of the template's table. -/
theorem NewTable.copy (layout : Layout st own) (role : own t = .table root path)
    (short : path.length < 3) (isPresent : present (st.mem t i) = true)
    (small : large (st.mem t i) = false) (shared : st.kernelEntry path i = some (st.mem t i))
    {mid : Vmm} (takes : Takes st mid f) (copied : mid.mem f = st.mem (frameOf (st.mem t i))) :
    NewTable st own (mid.setEntry ⟨t, i⟩ (framePa f ||| (st.mem t i &&& ~~~pteAddrMask) |||
      (GjUserPte.u ||| w))) (.table root path) t i f := by
  have ne : t ≠ f := layout.ne_of_free (by rw [role]; nofun) takes.wasFree
  have leads : next (st.mem t i) = some (frameOf (st.mem t i)) :=
    next_eq_some.mpr ⟨isPresent, small, rfl⟩
  have kernel := layout.kernelEntry_next short shared leads
  have usable := retarget_usable (st.mem t i) f isPresent small
  have copied' : (mid.setEntry ⟨t, i⟩ (framePa f ||| (st.mem t i &&& ~~~pteAddrMask) |||
      (GjUserPte.u ||| w))).mem f = st.mem (frameOf (st.mem t i)) :=
    (setEntry_mem_of_table_ne ne.symm).trans copied
  refine ⟨takes.relinks ne _, role, .inl ⟨root, path, rfl, short⟩, ?_, ?_, ?_, ?_, by nofun, ?_⟩
  · intro child leads'
    obtain rfl := Option.some.inj (leads.symm.trans leads')
    exact ⟨_, kernel⟩
  · rw [setEntry_mem_self]
    exact usable
  · rw [setEntry_mem_self, frameOf_retarget]
  · intro root' path' j equal _ _
    cases equal
    obtain ⟨last, reached, entry⟩ := Option.map_eq_some_iff.mp shared
    rw [copied', kernelEntry, tableAt_snoc, reached, Option.bind_some, entry, leads,
      Option.map_some]
  · intro rest length inner
    rw [Role.level] at length
    obtain ⟨j, rest, rfl⟩ := exists_cons_of_length_pos (by omega : 0 < rest.length)
    have tableNe : frameOf (st.mem t i) ≠ t := by
      intro same
      rw [same, role] at kernel
      cases kernel
    have tableNeF : frameOf (st.mem t i) ≠ f :=
      layout.ne_of_free (by rw [kernel]; rintro ⟨⟩) takes.wasFree
    rw [setEntry_mem_self, behind_next usable.next, frameOf_retarget, behind_next leads,
      ← inner _ root (.inl kernel)]
    refine leafFrom_of_page ?_ _
    rw [copied', setEntry_mem_of_table_ne tableNe, takes.others _ tableNeF]

/-- A large page is split. -/
theorem NewTable.split (layout : Layout st own) {role : Role} (hasRole : own t = role)
    (kind : (∃ root path, role = .table root path ∧ path.length = 2) ∨ role = .kernel 2)
    (isPresent : present (st.mem t i) = true) (wide : large (st.mem t i) = true) {mid : Vmm}
    (takes : Takes st mid f) (pieces : mid.mem f = piece (st.mem t i)) :
    NewTable st own (mid.setEntry ⟨t, i⟩ (tablePte f)) role t i f := by
  have used : own t ≠ .free := by
    rw [hasRole]
    rcases kind with ⟨root, path, rfl, -⟩ | rfl <;> nofun
  have ne : t ≠ f := layout.ne_of_free used takes.wasFree
  have pieces' : (mid.setEntry ⟨t, i⟩ (tablePte f)).mem f = piece (st.mem t i) :=
    (setEntry_mem_of_table_ne ne.symm).trans pieces
  have level : role.level = 2 := by
    rcases kind with ⟨root, path, rfl, length⟩ | rfl
    · exact length
    · rfl
  have dead : next (st.mem t i) = none := by simp [next, wide]
  refine ⟨takes.relinks ne _, hasRole, ?_, ?_, ?_, ?_, ?_, ?_, ?_⟩
  · rcases kind with ⟨root, path, rfl, length⟩ | rfl
    · exact .inl ⟨root, path, rfl, by omega⟩
    · exact .inr ⟨2, rfl, by omega, dead, fun _ => rfl⟩
  · intro child leads
    rw [dead] at leads
    cases leads
  · rw [setEntry_mem_self]
    exact tablePte_usable f
  · rw [setEntry_mem_self, frameOf_tablePte]
  · rintro root path j rfl short _
    simp only [Role.level] at level
    omega
  · rintro above j rfl short
    simp only [Role.level] at level
    omega
  · intro rest length _
    obtain ⟨j, rfl⟩ : ∃ j, rest = [j] := length_eq_one_iff.mp (by omega)
    rw [setEntry_mem_self, behind_next (tablePte_usable f).next, frameOf_tablePte, leafFrom_cons,
      pieces']
    simp [behind, isPresent, wide]

/-! ### The walk that creates -/

theorem large_opened : large (e ||| (GjUserPte.u ||| w)) = large e := by
  unfold large
  rw [BitVec.getLsbD_or, opened_getLsbD 7 (by omega)]
  simp

/-- A page of 1 GiB in the way is opened for users, and still is no way to a leaf. -/
theorem Layout.openLarge (layout : Layout st own) (role : own t = .table root path)
    (second : path.length = 1) (isPresent : present (st.mem t i) = true)
    (wide : large (st.mem t i) = true) :
    Grows (some root) st own (st.ensureUserFlag ⟨t, i⟩) own := by
  rw [ensureUserFlag, if_pos (show present (st.entry ⟨t, i⟩) = true from isPresent)]
  have notEmpty : path ≠ [] := by
    rintro rfl
    cases second
  have written : Layout (st.setEntry ⟨t, i⟩ (st.mem t i ||| (GjUserPte.u ||| w))) own := by
    refine layout.writeEntry role (fun _ _ => .inr (.inl ⟨notEmpty, ?_⟩)) fun _ child leads => ?_
    · exact large_opened.trans wide
    · rw [(next_eq_some.mp leads).2.1] at wide
      cases wide
  have kernelMem (u : Frame) (level : Nat) (kernel : own u = .kernel level) :
      (st.setEntry ⟨t, i⟩ (st.mem t i ||| (GjUserPte.u ||| w))).mem u = st.mem u :=
    setEntry_mem_of_kernel role kernel
  refine ⟨written, .setEntry st _ _, fun _ _ => rfl, fun _ isFree => .inl isFree, ?_, ?_,
    written.opens_of_upper rfl fun u level kernel _ => (kernelMem u level kernel).symm, ?_⟩
  · intro u _ foreign
    apply setEntry_mem_of_table_ne
    rintro rfl
    exact foreign ⟨path, role⟩
  · intro r page isRoot
    refine layout.leafFrom_eq (fun u ne _ => setEntry_mem_of_table_ne ne)
      (fun j other => setEntry_mem_of_ne fun both => other both.2) ?_ (layout.root_mine isRoot) rfl
    intro r' level rest mine length _
    have level_eq : level = 1 := by
      rcases mine with kernel | ⟨path', table, rfl⟩
      · rw [role] at kernel
        cases kernel
      · rw [role] at table
        cases table
        exact second
    obtain ⟨j, k, rfl⟩ : ∃ j k, rest = [j, k] := length_eq_two.mp (by omega)
    have dead {e : U64} (isLarge : large e = true) : next e = none := by simp [next, isLarge]
    rw [setEntry_mem_self, behind_none (dead wide)]
    exact behind_none (dead (large_opened.trans wide)) j k []
  · intro u level j child kernel leads
    show next ((st.setEntry ⟨t, i⟩ (st.mem t i ||| (GjUserPte.u ||| w))).mem u j) = _
    rw [kernelMem u level kernel]
    exact leads

/-- What a level of the walk leaves at its entry. -/
def Entered (own : Frame → Role) (root : Frame) (path : List Index) (i : Index) (e : U64) : Prop :=
  (path.length = 1 ∧ large e = true) ∨ Usable e ∧ own (frameOf e) = .table root (path ++ [i])

theorem Layout.ensureUserFlag_entered (layout : Layout st own) (role : own t = .table root path)
    (entered : Entered own root path i (st.mem t i)) (isPresent : present (st.mem t i) = true) :
    Grows (some root) st own (st.ensureUserFlag ⟨t, i⟩) own ∧
      Entered own root path i ((st.ensureUserFlag ⟨t, i⟩).mem t i) := by
  rcases entered with ⟨second, wide⟩ | ⟨usable, table⟩
  · refine ⟨layout.openLarge role second isPresent wide, .inl ⟨second, ?_⟩⟩
    rw [ensureUserFlag, if_pos (show present (st.entry ⟨t, i⟩) = true from isPresent),
      setEntry_mem_self]
    exact large_opened.trans wide
  · rw [show st.ensureUserFlag ⟨t, i⟩ = st from Usable.ensureUserFlag usable]
    exact ⟨.refl layout, .inr ⟨usable, table⟩⟩

/-- A present entry that is not the template's way to a table is a large page, or leads to a table
of the space. -/
theorem Layout.entered (layout : Layout st own) (role : own t = .table root path)
    (short : path.length < 3) (isPresent : present (st.mem t i) = true)
    (small : path.length = 2 → large (st.mem t i) = false)
    (unshared : st.kernelEntry path i = some (st.mem t i) → large (st.mem t i) = true) :
    Entered own root path i (st.mem t i) := by
  have wideEntry (notEmpty : path ≠ []) (wide : large (st.mem t i) = true) :
      Entered own root path i (st.mem t i) := by
    refine .inl ⟨?_, wide⟩
    have positive := length_pos_iff.mpr notEmpty
    have notSecond : path.length ≠ 2 := fun third =>
      nomatch (small third).symm.trans wide
    omega
  rcases layout.tableNext t root path i role short isPresent with shared | ⟨notEmpty, wide⟩ | own
  · refine wideEntry ?_ (unshared shared)
    rintro rfl
    have same : st.mem st.kernelCr3 i = st.mem t i := Option.some.inj shared
    have narrow := layout.kernelSmall i (by rw [same]; exact isPresent)
    rw [same, unshared shared] at narrow
    cases narrow
  · exact wideEntry notEmpty wide
  · exact .inr own

theorem present_retarget (isPresent : present e = true) :
    present (framePa f ||| (e &&& ~~~pteAddrMask)) = true := by
  unfold present at isPresent ⊢
  rw [BitVec.getLsbD_or, BitVec.getLsbD_and, isPresent]
  simp [pteAddrMask]

theorem large_retarget (small : large e = false) :
    large (framePa f ||| (e &&& ~~~pteAddrMask)) = false := by
  unfold large at small ⊢
  rw [BitVec.getLsbD_or, BitVec.getLsbD_and, small, framePa_getLsbD_low f (by decide)]
  rfl

theorem ensureUserFlag_setEntry {slot : Slot} (isPresent : present e = true) :
    (st.setEntry slot e).ensureUserFlag slot =
      st.setEntry slot (e ||| (GjUserPte.u ||| w)) := by
  unfold ensureUserFlag
  rw [setEntry_entry, if_pos isPresent, setEntry_setEntry]

theorem ensureUserFlag_tablePte {slot : Slot} :
    (st.setEntry slot (tablePte f)).ensureUserFlag slot = st.setEntry slot (tablePte f) :=
  Usable.ensureUserFlag (by rw [setEntry_entry]; exact tablePte_usable f)

section

variable (layout : Layout st own)
include layout

/-- One level of the walk that creates. -/
theorem Layout.nextTable_create (role : own t = .table root path) (short : path.length < 3)
    (small : path.length = 2 → present (st.mem t i) = true → large (st.mem t i) = false) :
    ∃ own', Grows (some root) st own (st.nextTable ⟨t, i⟩ true (st.kernelEntry path i)).2 own' ∧
      ((st.nextTable ⟨t, i⟩ true (st.kernelEntry path i)).1 = true → Entered own' root path i
        ((st.nextTable ⟨t, i⟩ true (st.kernelEntry path i)).2.mem t i)) := by
  simp only [nextTable, cowTableEntry, entry_mk]
  rcases Bool.eq_false_or_eq_true (present (st.mem t i)) with isPresent | isPresent
  · simp only [isPresent, Bool.true_eq_false, if_false, if_true, false_or]
    -- without a copy the entry is not the template's way to a table
    have keep (unshared : st.kernelEntry path i = some (st.mem t i) → large (st.mem t i) = true) :
        Grows (some root) st own (st.ensureUserFlag ⟨t, i⟩) own ∧
          Entered own root path i ((st.ensureUserFlag ⟨t, i⟩).mem t i) :=
      layout.ensureUserFlag_entered role (layout.entered role short isPresent
        (fun third => small third isPresent) unshared) isPresent
    cases template : st.kernelEntry path i with
    | none =>
      have kept := keep fun shared => by rw [template] at shared; cases shared
      exact ⟨own, kept.1, fun _ => kept.2⟩
    | some k =>
      by_cases stays : large (st.mem t i) = true ∨ st.mem t i ≠ k
      · simp only [if_pos stays]
        have kept := keep fun shared => by
          rcases stays with wide | differs
          · exact wide
          · exact absurd (Option.some.inj (shared.symm.trans template)) differs
        exact ⟨own, kept.1, fun _ => kept.2⟩
      · simp only [if_neg stays]
        rw [not_or, not_not] at stays
        obtain ⟨narrow, rfl⟩ := stays
        have narrow : large (st.mem t i) = false := Bool.eq_false_iff.mpr narrow
        rcases taken : st.allocTable with ⟨_ | f, mid⟩
        · exact ⟨own, (allocTable_none taken).grows layout, nofun⟩
        · have takes := (allocTable_some layout taken).1
          have copied : (mid.setPage f (mid.mem (frameOf (st.mem t i)))).mem f =
              st.mem (frameOf (st.mem t i)) := by
            have kernel := layout.kernelEntry_next short template
              (next_eq_some.mpr ⟨isPresent, narrow, rfl⟩)
            rw [← takes.others (frameOf (st.mem t i))
              (layout.ne_of_free (by rw [show own (frameOf (st.mem t i)) = _ from kernel]; nofun)
                takes.wasFree)]
            exact update_self ..
          have new := NewTable.copy layout role short isPresent narrow template
            (takes.setPage _) copied
          simp only [ensureUserFlag_setEntry (present_retarget isPresent)]
          exact ⟨_, new.grows layout, fun _ => .inr ⟨new.usable, by
            rw [new.frame, update_self]; rfl⟩⟩
  · simp only [isPresent, if_true, Bool.true_eq_false, if_false]
    rcases taken : st.allocTable with ⟨_ | f, mid⟩
    · exact ⟨own, (allocTable_none taken).grows layout, nofun⟩
    · obtain ⟨takes, zero⟩ := allocTable_some layout taken
      have new := NewTable.fresh layout role (.inl ⟨root, path, rfl, short⟩) isPresent takes zero
      simp only [ensureUserFlag_tablePte]
      exact ⟨_, new.grows layout, fun _ => .inr ⟨new.usable, by
        rw [new.frame, update_self]; rfl⟩⟩

theorem Layout.templatePdpte_eq (page : VPage) :
    st.templatePdpte page = st.kernelEntry [page.i4] page.i3 := by
  unfold templatePdpte kernelEntry
  simp only [tableAt]
  cases isPresent : present (st.mem st.kernelCr3 page.i4) with
  | false => simp [next, isPresent]
  | true => simp [next, isPresent, layout.kernelSmall _ isPresent]

theorem Layout.templatePde_eq (page : VPage) :
    st.templatePde page = st.kernelEntry [page.i4, page.i3] page.i2 := by
  have snoc := st.tableAt_snoc [page.i4] page.i3 st.kernelCr3
  rw [templatePde, layout.templatePdpte_eq, kernelEntry, kernelEntry,
    show [page.i4, page.i3] = [page.i4] ++ [page.i3] from rfl, snoc]
  cases st.tableAt [page.i4] st.kernelCr3 with
  | none => rfl
  | some pdpt =>
    simp only [Option.map_some, Option.bind_some, next]
    split_ifs <;> rfl

/-- The template's entry is read from the template's tables only. -/
theorem Layout.templatePde_congr (kernelCr3 : st'.kernelCr3 = st.kernelCr3)
    (same : ∀ u level, own u = .kernel level → st'.mem u = st.mem u) (page : VPage) :
    st'.templatePde page = st.templatePde page := by
  have root := same _ 0 layout.kernelRoot
  unfold templatePde templatePdpte
  simp only [kernelCr3, root]
  cases isPresent : present (st.mem st.kernelCr3 page.i4) with
  | false => simp
  | true =>
    have pdpt := layout.kernelNext _ 0 page.i4 _ layout.kernelRoot (by omega)
      (next_eq_some.mpr ⟨isPresent, layout.kernelSmall _ isPresent, rfl⟩)
    simp only [if_true, same _ _ pdpt]
    split_ifs with leads
    · rw [Bool.and_eq_true, Bool.not_eq_true'] at leads
      have pd := layout.kernelNext _ 1 page.i3 _ pdpt (by omega)
        (next_eq_some.mpr ⟨leads.1, leads.2, rfl⟩)
      rw [same _ _ pd]
    · rfl

theorem splitLargePde_spec {role : Role} (hasRole : own t = role)
    (kind : (∃ root path, role = .table root path ∧ path.length = 2) ∨ role = .kernel 2)
    (isPresent : present (st.mem t i) = true) (wide : large (st.mem t i) = true) :
    (∃ st', st.splitLargePde ⟨t, i⟩ = (false, st') ∧ Untouched st st') ∨
      ∃ st' f, st.splitLargePde ⟨t, i⟩ = (true, st') ∧ NewTable st own st' role t i f := by
  simp only [splitLargePde, entry_mk, isPresent, wide]
  rcases taken : st.allocTable with ⟨_ | f, mid⟩
  · exact .inl ⟨mid, rfl, allocTable_none taken⟩
  · refine .inr ⟨_, f, rfl, ?_⟩
    exact NewTable.split layout hasRole kind isPresent wide
      ((allocTable_some layout taken).1.setPage _) (update_self ..)

end

/-- The leaf's place in a table of the space. -/
def LeafOf (own : Frame → Role) (root : Frame) (page : VPage) (slot : Slot) : Prop :=
  slot.index = page.i1 ∧ own slot.table = .table root [page.i4, page.i3, page.i2]

section ThirdLevel

variable {pd : Frame}

/-- The walk past an entry that is not large. -/
theorem Layout.walkPt_create (layout : Layout st own) (page : VPage)
    (role : own pd = .table root [page.i4, page.i3])
    (small : present (st.mem pd page.i2) = true → large (st.mem pd page.i2) = false) :
    ∃ own', Grows (some root) st own (st.walkPt ⟨pd, page.i2⟩ page true true).2 own' ∧
      ∀ slot, (st.walkPt ⟨pd, page.i2⟩ page true true).1 = some slot →
        LeafOf own' root page slot := by
  unfold walkPt
  simp only [if_true]
  rw [layout.templatePde_eq]
  obtain ⟨own', grows, entered⟩ := layout.nextTable_create role (by simp) fun _ => small
  rcases outcome : st.nextTable ⟨pd, page.i2⟩ true (st.kernelEntry [page.i4, page.i3] page.i2) with
    ⟨_ | _, after⟩ <;> rw [outcome] at grows entered
  · exact ⟨own', grows, nofun⟩
  · refine ⟨own', grows, fun slot same => ?_⟩
    cases same
    rcases entered rfl with ⟨second, -⟩ | ⟨-, table⟩
    · cases second
    · exact ⟨rfl, table⟩

/-- The template's table that is copied first is not copied again. -/
theorem Layout.nextTable_copied (layout : Layout st own)
    (role : own pd = .table root [page.i4, page.i3])
    (isPresent : present (st.mem pd page.i2) = true) (small : large (st.mem pd page.i2) = false)
    (shared : st.templatePde page = some (st.mem pd page.i2))
    (copied : st.cowTableEntry ⟨pd, page.i2⟩ (st.mem pd page.i2) = (true, st')) :
    present (st'.mem pd page.i2) = true ∧ large (st'.mem pd page.i2) = false ∧
      st'.nextTable ⟨pd, page.i2⟩ true (st'.templatePde page) =
        (true, st'.ensureUserFlag ⟨pd, page.i2⟩) := by
  have entry : st.kernelEntry [page.i4, page.i3] page.i2 = some (st.mem pd page.i2) := by
    rw [← layout.templatePde_eq]
    exact shared
  have kernel : own (frameOf (st.mem pd page.i2)) = .kernel 3 :=
    layout.kernelEntry_next (by simp) entry (next_eq_some.mpr ⟨isPresent, small, rfl⟩)
  simp only [cowTableEntry, entry_mk, isPresent, small, Bool.true_eq_false, Bool.false_eq_true,
    ne_eq, not_true_eq_false, or_self] at copied
  rcases taken : st.allocTable with ⟨_ | f, mid⟩ <;> rw [taken] at copied
  · cases copied
  · cases copied
    have takes := ((allocTable_some layout taken).1.setPage (mid.mem (frameOf (st.mem pd page.i2))))
    have ne : pd ≠ f := layout.ne_of_free (by rw [role]; nofun) takes.wasFree
    have change := takes.relinks (i := page.i2) ne
      (framePa f ||| (st.mem pd page.i2 &&& ~~~pteAddrMask))
    have template := layout.templatePde_congr change.keeps.kernelCr3 (fun u level isKernel => by
      refine change.others u ?_ (layout.ne_of_free (by rw [isKernel]; nofun) takes.wasFree)
      rintro rfl
      rw [role] at isKernel
      cases isKernel) page
    have differs : framePa f ||| (st.mem pd page.i2 &&& ~~~pteAddrMask) ≠ st.mem pd page.i2 := by
      intro same
      have sameFrame := congrArg frameOf same
      rw [frameOf_or, frameOf_framePa, frameOf_and, frameOf_not_addrMask, BitVec.and_zero,
        BitVec.or_zero] at sameFrame
      rw [← sameFrame, (layout.free f).mpr takes.wasFree] at kernel
      cases kernel
    refine ⟨?_, ?_, ?_⟩
    · rw [setEntry_mem_self]
      exact present_retarget isPresent
    · rw [setEntry_mem_self]
      exact large_retarget small
    · rw [template, shared]
      simp only [nextTable, cowTableEntry, setEntry_entry, present_retarget isPresent,
        Bool.true_eq_false, if_false, ne_eq, differs, not_false_eq_true, or_true, if_true]

/-- The first test of `walk_pte` does nothing if the entry is not the template's. -/
theorem ownPde_skip {template : Option U64}
    (unshared : present (st.mem t i) = true → template ≠ some (st.mem t i)) :
    st.ownPde ⟨t, i⟩ template = (true, st) := by
  cases template with
  | none => rfl
  | some k =>
    apply if_neg
    rintro ⟨isPresent, rfl⟩
    exact unshared isPresent rfl

/-- A table of the template that `walk_pte` copies first could as well be copied by its end. -/
theorem Layout.walkPde_shared (layout : Layout st own)
    (role : own pd = .table root [page.i4, page.i3])
    (isPresent : present (st.mem pd page.i2) = true) (small : large (st.mem pd page.i2) = false)
    (shared : st.templatePde page = some (st.mem pd page.i2)) :
    st.walkPde ⟨pd, page.i2⟩ page true true = st.walkPt ⟨pd, page.i2⟩ page true true := by
  have start : st.ownPde ⟨pd, page.i2⟩ (st.templatePde page) =
      st.cowTableEntry ⟨pd, page.i2⟩ (st.mem pd page.i2) := by
    simp only [shared, ownPde, entry_mk, isPresent, small, and_self, Bool.false_eq_true,
      if_true, if_false]
  simp only [walkPde, if_true]
  rw [start]
  rcases outcome : st.cowTableEntry ⟨pd, page.i2⟩ (st.mem pd page.i2) with ⟨_ | _, after⟩
  · simp only [walkPt, shared, if_true, nextTable, entry_mk, isPresent, Bool.true_eq_false,
      if_false, outcome]
  · obtain ⟨-, small', done⟩ := layout.nextTable_copied role isPresent small shared outcome
    have finish : st.walkPt ⟨pd, page.i2⟩ page true true =
        (some ⟨frameOf ((after.ensureUserFlag ⟨pd, page.i2⟩).entry ⟨pd, page.i2⟩), page.i1⟩,
          after.ensureUserFlag ⟨pd, page.i2⟩) := by
      simp only [walkPt, shared, if_true, nextTable, entry_mk, isPresent, Bool.true_eq_false,
        if_false, outcome]
    rw [finish]
    simp only [entry_mk, small', Bool.and_false, Bool.false_eq_true, if_false, walkPt, if_true,
      done]

/-- The third level of the walk that creates. -/
theorem Layout.walkPde_create (layout : Layout st own)
    (role : own pd = .table root [page.i4, page.i3]) :
    ∃ own', Grows (some root) st own (st.walkPde ⟨pd, page.i2⟩ page true true).2 own' ∧
      ∀ slot, (st.walkPde ⟨pd, page.i2⟩ page true true).1 = some slot →
        LeafOf own' root page slot := by
  have afterSplit {after : Vmm} {f : Frame}
      (new : NewTable st own after (.table root [page.i4, page.i3]) pd page.i2 f) :
      ∃ own', Grows (some root) st own (after.walkPt ⟨pd, page.i2⟩ page true true).2 own' ∧
        ∀ slot, (after.walkPt ⟨pd, page.i2⟩ page true true).1 = some slot →
          LeafOf own' root page slot := by
    have grows := new.grows layout
    obtain ⟨own', grows', leaf⟩ := grows.layout.walkPt_create page
      ((grows.roles pd (by rw [role]; nofun)).trans role) fun _ => new.usable.small
    exact ⟨own', grows.trans grows', leaf⟩
  rcases Bool.eq_false_or_eq_true (present (st.mem pd page.i2)) with isPresent | absent
  · rcases Bool.eq_false_or_eq_true (large (st.mem pd page.i2)) with wide | small
    · simp only [walkPde]
      -- the large page is split by the first or by the second test
      by_cases shared : st.templatePde page = some (st.mem pd page.i2)
      · simp only [shared, ownPde, entry_mk, isPresent, wide, and_self, if_true]
        rcases splitLargePde_spec layout role (.inl ⟨root, _, rfl, rfl⟩) isPresent wide with
          ⟨after, outcome, untouched⟩ | ⟨after, f, outcome, new⟩ <;> rw [outcome]
        · exact ⟨own, untouched.grows layout, nofun⟩
        · simp only [new.usable.small, Bool.and_false, Bool.false_eq_true]
          exact afterSplit new
      · simp only [ownPde_skip fun _ => shared, entry_mk, isPresent, wide, if_true]
        rcases splitLargePde_spec layout role (.inl ⟨root, _, rfl, rfl⟩) isPresent wide with
          ⟨after, outcome, untouched⟩ | ⟨after, f, outcome, new⟩ <;> rw [outcome]
        · exact ⟨own, untouched.grows layout, nofun⟩
        · exact afterSplit new
    · by_cases shared : st.templatePde page = some (st.mem pd page.i2)
      · rw [layout.walkPde_shared role isPresent small shared]
        exact layout.walkPt_create page role fun _ => small
      · simp only [walkPde, if_true, ownPde_skip fun _ => shared, entry_mk, small,
        Bool.and_false, Bool.false_eq_true]
        exact layout.walkPt_create page role fun _ => small
  · have notPresent {P : Prop} (isPresent : present (st.mem pd page.i2) = true) : P :=
      nomatch absent.symm.trans isPresent
    simp only [walkPde, ownPde_skip fun isPresent => notPresent isPresent, entry_mk, absent,
      Bool.false_and, Bool.false_eq_true, if_false]
    exact layout.walkPt_create page role notPresent

end ThirdLevel

theorem Layout.cr3_private (layout : Layout st own) (active : st.cr3 ∈ st.spaces) :
    st.asIsPrivate = true := by
  refine decide_eq_true fun same => ?_
  have role := layout.spaceRoot _ active
  rw [same, layout.kernelRoot] at role
  cases role

/-- The second level of the walk that creates. -/
theorem Layout.walkPdpt_create (layout : Layout st own) (page : VPage) {pdpt : Frame}
    (role : own pdpt = .table root [page.i4]) :
    ∃ own', Grows (some root) st own (st.walkPdpt ⟨pdpt, page.i3⟩ page true true).2 own' ∧
      ∀ slot, (st.walkPdpt ⟨pdpt, page.i3⟩ page true true).1 = some slot →
        slot.index = page.i2 ∧ own' slot.table = .table root [page.i4, page.i3] := by
  unfold walkPdpt
  simp only [if_true, entry_mk]
  rw [layout.templatePdpte_eq]
  obtain ⟨own', grows, entered⟩ := layout.nextTable_create (i := page.i3) role (by simp) (by nofun)
  rcases outcome : st.nextTable ⟨pdpt, page.i3⟩ true (st.kernelEntry [page.i4] page.i3) with
    ⟨_ | _, after⟩ <;> rw [outcome] at grows entered
  · exact ⟨own', grows, nofun⟩
  · rcases Bool.eq_false_or_eq_true (large (after.mem pdpt page.i3)) with wide | small
    · simp only [wide]
      exact ⟨own', grows, nofun⟩
    · simp only [small]
      refine ⟨own', grows, fun slot same => ?_⟩
      cases same
      rcases entered rfl with ⟨-, wide⟩ | ⟨-, table⟩
      · exact nomatch small.symm.trans wide
      · exact ⟨rfl, table⟩

/-- The first two levels of the walk that creates. -/
theorem Layout.walkPdEntry_create (layout : Layout st own) (active : st.cr3 ∈ st.spaces)
    (page : VPage) :
    ∃ own', Grows (some st.cr3) st own (st.walkPdEntry page true).2 own' ∧
      ∀ slot, (st.walkPdEntry page true).1 = some slot →
        slot.index = page.i2 ∧ own' slot.table = .table st.cr3 [page.i4, page.i3] := by
  simp only [walkPdEntry, layout.cr3_private active, Bool.and_self, if_true]
  have first := layout.nextTable_create (i := page.i4) (layout.spaceRoot _ active) (by simp)
    (by nofun)
  rw [show st.kernelEntry [] page.i4 = some (st.mem st.kernelCr3 page.i4) from rfl] at first
  obtain ⟨own₁, grows₁, entered⟩ := first
  rcases outcome : st.nextTable ⟨st.cr3, page.i4⟩ true (some (st.mem st.kernelCr3 page.i4)) with
    ⟨_ | _, st₁⟩ <;> rw [outcome] at grows₁ entered
  · exact ⟨own₁, grows₁, nofun⟩
  · rcases entered rfl with ⟨impossible, -⟩ | ⟨-, table⟩
    · cases impossible
    · obtain ⟨own₂, grows₂, reached⟩ := grows₁.layout.walkPdpt_create page table
      exact ⟨own₂, grows₁.trans grows₂, reached⟩

/-- The walk that creates changes the tables of the active space only, and ends in one. -/
theorem Layout.walkPte_create (layout : Layout st own) (active : st.cr3 ∈ st.spaces)
    (page : VPage) :
    ∃ own', Grows (some st.cr3) st own (st.walkPte page true).2 own' ∧
      ∀ slot, (st.walkPte page true).1 = some slot → LeafOf own' st.cr3 page slot := by
  unfold walkPte
  obtain ⟨own₁, grows₁, reached⟩ := layout.walkPdEntry_create active page
  rcases outcome : st.walkPdEntry page true with ⟨_ | slot, st₁⟩ <;> rw [outcome] at grows₁ reached
  · exact ⟨own₁, grows₁, nofun⟩
  · obtain ⟨pd, i2⟩ := slot
    obtain ⟨rfl, table⟩ := reached _ rfl
    have active₁ : st₁.cr3 ∈ st₁.spaces := by
      rw [grows₁.keeps.cr3, grows₁.keeps.spaces]
      exact active
    simp only [grows₁.layout.cr3_private active₁]
    obtain ⟨own₂, grows₂, leaf⟩ := grows₁.layout.walkPde_create table
    exact ⟨own₂, grows₁.trans grows₂, leaf⟩

/-! ### The walk that creates under the template -/

/-- The entries of the template that the walk opens for users are open already. A large page of the
third level is not among them: it is split. -/
def Vmm.OpenPath (st : Vmm) (page : VPage) : Prop :=
  ∀ path i e, path ++ [i] <+: [page.i4, page.i3, page.i2] → st.kernelEntry path i = some e →
    present e = true → (path.length = 2 → large e = false) → writable e = true ∧ user e = true

/-- The entry stands as it was, or leads to a new empty table. -/
inductive KernelEntered (st : Vmm) (own : Frame → Role) (t : Frame) (i : Index) (level : Nat) :
    Vmm → (Frame → Role) → Prop
  | kept (isPresent : present (st.mem t i) = true) : KernelEntered st own t i level st own
  | fresh {mid : Vmm} {ownMid : Frame → Role} (absent : present (st.mem t i) = false)
      (grows : Grows none st own mid ownMid) (usable : Usable (mid.mem t i))
      (role : ownMid (frameOf (mid.mem t i)) = .kernel (level + 1))
      (zero : mid.mem (frameOf (mid.mem t i)) = fun _ => 0) :
      KernelEntered st own t i level mid ownMid

/-- One level of the walk that creates, under the template. -/
theorem Layout.nextTable_kernel (layout : Layout st own) {level : Nat}
    (role : own t = .kernel level) (short : level < 3)
    (opened : present (st.mem t i) = true →
      writable (st.mem t i) = true ∧ user (st.mem t i) = true) :
    (∃ st', st.nextTable ⟨t, i⟩ true none = (false, st') ∧ Untouched st st') ∨
      ∃ st' own', st.nextTable ⟨t, i⟩ true none = (true, st') ∧
        KernelEntered st own t i level st' own' := by
  simp only [nextTable, entry_mk]
  rcases Bool.eq_false_or_eq_true (present (st.mem t i)) with isPresent | absent
  · refine .inr ⟨st, own, ?_, .kept isPresent⟩
    obtain ⟨isWritable, isUser⟩ := opened isPresent
    simp only [isPresent, Bool.true_eq_false, if_false, if_true, ensureUserFlag, entry_mk,
      opened_eq isWritable isUser]
    rw [← entry_mk, setEntry_self]
  · simp only [absent, Bool.true_eq_false]
    rcases taken : st.allocTable with ⟨_ | f, mid⟩
    · exact .inl ⟨mid, rfl, allocTable_none taken⟩
    · obtain ⟨takes, zero⟩ := allocTable_some layout taken
      have new := NewTable.fresh layout role (.inr ⟨level, rfl, short⟩) absent takes zero
      simp only [ensureUserFlag_tablePte]
      refine .inr ⟨_, _, rfl, .fresh absent (new.grows layout) new.usable ?_ ?_⟩
      · rw [new.frame, update_self]
        rfl
      · rw [new.frame, setEntry_mem_of_table_ne]
        · exact zero
        · exact (layout.ne_of_free (by rw [role]; rintro ⟨⟩) takes.wasFree).symm

/-- Open for users, unless it is absent or a large page. -/
def OpenEntry (e : U64) : Prop :=
  present e = true → large e = false → writable e = true ∧ user e = true

theorem openEntry_zero : OpenEntry 0 := fun isPresent =>
  nomatch present_zero.symm.trans isPresent

theorem kernelEntry_of_tableAt (reached : st.tableAt path st.kernelCr3 = some t) :
    st.kernelEntry path i = some (st.mem t i) := by
  rw [kernelEntry, reached, Option.map_some]

/-- What the walk under the template has come to at the third level. -/
structure KernelPd (page : VPage) (st : Vmm) (slot : Slot) : Prop where
  index : slot.index = page.i2
  reached : st.tableAt [page.i4, page.i3] st.kernelCr3 = some slot.table
  opened : OpenEntry (st.entry slot)

theorem tableAt_step {j : Index} (reached : st.tableAt path st.kernelCr3 = some t)
    (leads : next (st.mem t j) = some f) : st.tableAt (path ++ [j]) st.kernelCr3 = some f := by
  rw [tableAt_snoc, reached]
  exact leads

/-- The second level of the walk that creates, under the template. -/
theorem Layout.walkPdpt_kernel (layout : Layout st own) (page : VPage) {pdpt : Frame}
    (reached : st.tableAt [page.i4] st.kernelCr3 = some pdpt)
    (opened : present (st.mem pdpt page.i3) = true →
      writable (st.mem pdpt page.i3) = true ∧ user (st.mem pdpt page.i3) = true)
    (below : ∀ pd, next (st.mem pdpt page.i3) = some pd → OpenEntry (st.mem pd page.i2)) :
    ∃ own', Grows none st own (st.walkPdpt ⟨pdpt, page.i3⟩ page true false).2 own' ∧
      ∀ slot, (st.walkPdpt ⟨pdpt, page.i3⟩ page true false).1 = some slot →
        KernelPd page (st.walkPdpt ⟨pdpt, page.i3⟩ page true false).2 slot := by
  have role := layout.kernel_tableAt layout.kernelRoot (by simp) reached
  simp only [walkPdpt, Bool.false_eq_true, if_false, entry_mk]
  rcases layout.nextTable_kernel role (by simp) opened with
    ⟨after, outcome, untouched⟩ | ⟨after, own', outcome, entered⟩ <;> rw [outcome]
  · exact ⟨own, untouched.grows layout, nofun⟩
  · cases entered with
    | kept isPresent =>
      rcases Bool.eq_false_or_eq_true (large (st.mem pdpt page.i3)) with wide | small
      · simp only [wide]
        exact ⟨own, .refl layout, nofun⟩
      · simp only [small]
        refine ⟨own, .refl layout, fun slot same => ?_⟩
        cases same
        have leads := next_eq_some.mpr ⟨isPresent, small, rfl⟩
        exact ⟨rfl, tableAt_step reached leads, below _ leads⟩
    | fresh absent grows usable newRole zero =>
      simp only [usable.small, Bool.false_eq_true, if_false]
      refine ⟨own', grows, fun slot same => ?_⟩
      cases same
      refine ⟨rfl, tableAt_step (grows.tableAt_kernel layout (by simp) reached) usable.next, ?_⟩
      simp only [entry_mk, zero]
      exact openEntry_zero

/-- The first two levels of the walk that creates, under the template. -/
theorem Layout.walkPdEntry_kernel (layout : Layout st own) (active : st.cr3 = st.kernelCr3)
    (page : VPage) (opened : st.OpenPath page) :
    ∃ own', Grows none st own (st.walkPdEntry page true).2 own' ∧
      ∀ slot, (st.walkPdEntry page true).1 = some slot →
        KernelPd page (st.walkPdEntry page true).2 slot := by
  have shared : st.asIsPrivate = false := decide_eq_false (not_not.mpr active)
  simp only [walkPdEntry, shared, Bool.and_false, Bool.false_eq_true, if_false, active]
  have openRoot (isPresent : present (st.mem st.kernelCr3 page.i4) = true) :=
    opened [] page.i4 _ (prefix_append _ _) rfl isPresent (by rintro ⟨⟩)
  rcases layout.nextTable_kernel layout.kernelRoot (by omega) openRoot with
    ⟨after, outcome, untouched⟩ | ⟨after, own₁, outcome, entered⟩ <;> rw [outcome]
  · exact ⟨own, untouched.grows layout, by rintro _ ⟨⟩⟩
  · cases entered with
    | kept isPresent =>
      have leads4 := next_eq_some.mpr ⟨isPresent, layout.kernelSmall _ isPresent, rfl⟩
      have reached4 : st.tableAt [page.i4] st.kernelCr3 =
          some (frameOf (st.mem st.kernelCr3 page.i4)) := by
        rw [tableAt, leads4]
        rfl
      refine layout.walkPdpt_kernel page reached4 (fun present3 => ?_) fun pd leads3 => ?_
      · exact opened [page.i4] page.i3 _ (prefix_append _ _)
          (kernelEntry_of_tableAt reached4) present3 (by rintro ⟨⟩)
      · intro present2 small2
        exact opened [page.i4, page.i3] page.i2 _ prefix_rfl
          (kernelEntry_of_tableAt (tableAt_step reached4 leads3)) present2 fun _ => small2
    | fresh absent grows usable newRole zero =>
      have entry3 : after.mem (frameOf (after.mem st.kernelCr3 page.i4)) page.i3 = 0 := by
        rw [zero]
      have absent3 := present_zero
      rw [← entry3] at absent3
      have reached4 : after.tableAt [page.i4] after.kernelCr3 =
          some (frameOf (after.mem st.kernelCr3 page.i4)) := by
        rw [grows.keeps.kernelCr3, tableAt, usable.next]
        rfl
      obtain ⟨own', grows', place⟩ := grows.layout.walkPdpt_kernel page reached4
        (fun present3 => Bool.noConfusion (absent3.symm.trans present3))
        fun pd leads3 => Bool.noConfusion (absent3.symm.trans (next_eq_some.mp leads3).1)
      exact ⟨own', grows.trans grows', place⟩

/-- The third level of the walk that creates, under the template. -/
theorem Layout.walkPt_kernel (layout : Layout st own) (page : VPage) {pd : Frame}
    (reached : st.tableAt [page.i4, page.i3] st.kernelCr3 = some pd)
    (opened : OpenEntry (st.mem pd page.i2))
    (small : present (st.mem pd page.i2) = true → large (st.mem pd page.i2) = false) :
    ∃ own', Grows none st own (st.walkPt ⟨pd, page.i2⟩ page true false).2 own' ∧
      ∀ slot, (st.walkPt ⟨pd, page.i2⟩ page true false).1 = some slot →
        slot.index = page.i1 ∧ (st.walkPt ⟨pd, page.i2⟩ page true false).2.tableAt
          [page.i4, page.i3, page.i2] st.kernelCr3 = some slot.table := by
  have role := layout.kernel_tableAt layout.kernelRoot (by simp) reached
  simp only [walkPt, Bool.false_eq_true, if_false]
  rcases layout.nextTable_kernel role (by simp) fun isPresent =>
    opened isPresent (small isPresent) with
    ⟨after, outcome, untouched⟩ | ⟨after, own', outcome, entered⟩ <;> rw [outcome]
  · exact ⟨own, untouched.grows layout, nofun⟩
  · cases entered with
    | kept isPresent =>
      refine ⟨own, .refl layout, fun slot same => ?_⟩
      cases same
      exact ⟨rfl, tableAt_step reached (next_eq_some.mpr ⟨isPresent, small isPresent, rfl⟩)⟩
    | fresh absent grows usable newRole zero =>
      refine ⟨own', grows, fun slot same => ?_⟩
      cases same
      rw [← grows.keeps.kernelCr3]
      exact ⟨rfl, tableAt_step (grows.tableAt_kernel layout (by simp) reached) usable.next⟩

/-- The walk that creates, under the template: it comes to a table of the template. -/
theorem Layout.walkPte_kernel (layout : Layout st own) (active : st.cr3 = st.kernelCr3)
    (page : VPage) (opened : st.OpenPath page) :
    ∃ own', Grows none st own (st.walkPte page true).2 own' ∧
      ∀ slot, (st.walkPte page true).1 = some slot →
        slot.index = page.i1 ∧ (st.walkPte page true).2.tableAt
          [page.i4, page.i3, page.i2] st.kernelCr3 = some slot.table := by
  unfold walkPte
  obtain ⟨own₁, grows₁, reached⟩ := layout.walkPdEntry_kernel active page opened
  rcases outcome : st.walkPdEntry page true with ⟨_ | slot, st₁⟩ <;> rw [outcome] at grows₁ reached
  · exact ⟨own₁, grows₁, nofun⟩
  · obtain ⟨pd, i2⟩ := slot
    obtain ⟨rfl, reached₁, opened₁⟩ := reached _ rfl
    have role := grows₁.layout.kernel_tableAt grows₁.layout.kernelRoot (by simp) reached₁
    rw [← grows₁.keeps.kernelCr3]
    have shared : st₁.asIsPrivate = false := decide_eq_false (not_not.mpr (by
      rw [grows₁.keeps.cr3, grows₁.keeps.kernelCr3]
      exact active))
    have start : st₁.ownPde ⟨pd, page.i2⟩ none = (true, st₁) := rfl
    simp only [shared, Bool.and_false, walkPde, Bool.false_eq_true, if_false, start, entry_mk]
    by_cases wide : present (st₁.mem pd page.i2) = true ∧ large (st₁.mem pd page.i2) = true
    · simp only [wide.1, wide.2]
      rcases splitLargePde_spec grows₁.layout role (.inr rfl) wide.1 wide.2 with
        ⟨after, outcome, untouched⟩ | ⟨after, f, outcome, new⟩ <;> rw [outcome]
      · exact ⟨own₁, grows₁.trans (untouched.grows grows₁.layout), nofun⟩
      · have grows₂ := new.grows grows₁.layout
        obtain ⟨own₃, grows₃, leaf⟩ := grows₂.layout.walkPt_kernel page
          (grows₂.tableAt_kernel grows₁.layout (by simp) reached₁)
          (fun _ _ => ⟨new.usable.writable, new.usable.user⟩) fun _ => new.usable.small
        rw [grows₂.keeps.kernelCr3] at leaf
        exact ⟨own₃, (grows₁.trans grows₂).trans grows₃, leaf⟩
    · have small (isPresent : present (st₁.mem pd page.i2) = true) :
          large (st₁.mem pd page.i2) = false :=
        Bool.of_not_eq_true fun isLarge => wide ⟨isPresent, isLarge⟩
      rw [← Bool.and_eq_true] at wide
      simp only [wide]
      obtain ⟨own₂, grows₂, leaf⟩ := grows₁.layout.walkPt_kernel page reached₁ opened₁ small
      exact ⟨own₂, grows₁.trans grows₂, leaf⟩

end GreenJade.Mm

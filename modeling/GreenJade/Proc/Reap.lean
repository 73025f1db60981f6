import GreenJade.Proc.TaskHandle

/-! Owns the reaping of a killed child by its parent. A kill of a child that is in the wait
table revokes the child's header, which the handle that the parent would wait on names; only a
child that found no room in the wait table can be reaped through its handle. -/

namespace GreenJade.Proc

open Cap Function GjRight

universe u v w x

variable {C : Type u} {O : Type v} {Q : Type w} {X : Type x}

/-! ### What leaves a handle and its object alone -/

/-- A slot and the header of an object are as before, and the object gets no edge. -/
structure KeepsCap (c : C) (i : Nat) (o : O) (caps caps' : CapState C O Q) : Prop where
  slot : caps'.slot c i = caps.slot c i
  cSlots : caps'.cSlots c = caps.cSlots c
  state : (caps'.obj o).state = (caps.obj o).state
  gen : (caps'.obj o).gen = (caps.obj o).gen
  head : caps.cdt.head o = none → caps'.cdt.head o = none

namespace KeepsCap

variable {c : C} {i : Nat} {o : O} {caps caps' caps'' : CapState C O Q}

theorem refl (caps : CapState C O Q) : KeepsCap c i o caps caps := ⟨rfl, rfl, rfl, rfl, id⟩

theorem trans (first : KeepsCap c i o caps caps') (second : KeepsCap c i o caps' caps'') :
    KeepsCap c i o caps caps'' where
  slot := second.slot.trans first.slot
  cSlots := second.cSlots.trans first.cSlots
  state := second.state.trans first.state
  gen := second.gen.trans first.gen
  head none := second.head (first.head none)

theorem of_clears {may : C → CapSlot O → Prop} (clears : Clears may caps caps')
    (spared : ¬ may c (caps.slot c i)) : KeepsCap c i o caps caps' where
  slot := clears.slot_eq spared
  cSlots := congrFun clears.cSlots c
  state := clears.state o
  gen := clears.gen o
  head := clears.head o

section

variable [DecidableEq C]

/-- An install goes to another slot than one in use. -/
theorem of_installs {c' : C} {capType : CapType} {rights : U16} {o' : O} {ref : CapRef}
    (installs : Installs caps c' capType rights o' ref caps')
    (inUse : (caps.slot c i).capType ≠ .invalid) (cdt : caps'.cdt = caps.cdt) :
    KeepsCap c i o caps caps' where
  slot := by
    rw [installs.slot]
    apply if_neg
    rintro ⟨rfl, rfl⟩
    exact inUse installs.ready.free
  cSlots := congrFun installs.cSlots c
  state := installs.state o
  gen := installs.objGen o
  head none := by rw [cdt]; exact none

theorem invalidateSlot {c' : C} {i' : Nat} (elsewhere : ¬ (c = c' ∧ i = i'))
    (caps : CapState C O Q) : KeepsCap c i o caps (invalidateSlot caps c' i') where
  slot := (update_update_apply caps.slot c' c i' i _).trans (if_neg elsewhere)
  cSlots := rfl
  state := rfl
  gen := rfl
  head := id

theorem invalidateRef {c' : C} {ref : CapRef} (elsewhere : ¬ (c = c' ∧ i = ref.slot))
    (caps : CapState C O Q) : KeepsCap c i o caps (invalidateRef caps c' ref) := by
  unfold Proc.invalidateRef
  split
  · exact .invalidateSlot elsewhere caps
  · exact .refl caps

theorem gjCnodeInit {c' : C} (other : c' ≠ c) (caps : CapState C O Q) (cSlots : Nat) :
    KeepsCap c i o caps (gjCnodeInit caps c' cSlots) where
  slot := (gjCnodeInit_slot caps c' cSlots c i).trans (if_neg other.symm)
  cSlots := update_of_ne other.symm ..
  state := rfl
  gen := rfl
  head := id

end

section

variable [DecidableEq O]

theorem initObj {o' : O} (other : o' ≠ o) (caps : CapState C O Q) :
    KeepsCap c i o caps (initObj caps o') where
  slot := rfl
  cSlots := rfl
  state := congrArg ObjHdr.state (update_of_ne other.symm ..)
  gen := congrArg ObjHdr.gen (update_of_ne other.symm ..)
  head none := (update_of_ne other.symm ..).trans none

end

end KeepsCap

/-- The handle, the child's entry and the parent's entry are as before. -/
structure KeepsChild (layout : SpawnLayout C O X) (parent : GjProcess X) (c : C) (i : Nat)
    (e : Fin gjSpawnMax) (st st' : ProcState C O Q X) : Prop where
  caps : KeepsCap c i (layout.hdr e) st.caps st'.caps
  entry : st'.entry e = st.entry e
  parent : ∀ p, parent = .spawned p → st'.entry p = st.entry p

variable {layout : SpawnLayout C O X} {parent : GjProcess X} {c : C} {i : Nat}
  {e e' : Fin gjSpawnMax} {st st' st'' : ProcState C O Q X}

theorem KeepsChild.refl (st : ProcState C O Q X) : KeepsChild layout parent c i e st st :=
  ⟨.refl _, rfl, fun _ _ => rfl⟩

theorem KeepsChild.trans (first : KeepsChild layout parent c i e st st')
    (second : KeepsChild layout parent c i e st' st'') :
    KeepsChild layout parent c i e st st'' :=
  ⟨first.caps.trans second.caps, second.entry.trans first.entry,
    fun p up => (second.parent p up).trans (first.parent p up)⟩

/-- A change to the entry of a third process. -/
theorem KeepsChild.of_third (caps : KeepsCap c i (layout.hdr e) st.caps st'.caps)
    (others : ∀ x, x ≠ e' → st'.entry x = st.entry x) (notChild : e' ≠ e)
    (notParent : parent ≠ .spawned e') : KeepsChild layout parent c i e st st' where
  caps := caps
  entry := others e notChild.symm
  parent p up := others p fun same => notParent (same ▸ up)

section

variable {ref : CapRef}

/-! ### The handle of a child -/

theorem pCnode_congr {proc : GjProcess X}
    (kept : ∀ p, proc = .spawned p → (st'.entry p).hasCnode = (st.entry p).hasCnode) :
    st'.pCnode layout proc = st.pCnode layout proc := by
  cases proc with
  | other p => rfl
  | spawned p => simp only [ProcState.pCnode, kept p rfl]

/-- The parent holds a handle to the child, and both are in the tables: the parent, if it is in
the spawn table itself, is alive and not its own child. -/
structure ChildHandle (layout : SpawnLayout C O X) (parent : GjProcess X) (c : C) (ref : CapRef)
    (e : Fin gjSpawnMax) (st : ProcState C O Q X) : Prop where
  cnode : st.pCnode layout parent = some c
  inRange : ref.slot < st.caps.cSlots c
  nonNull : ref.gen ≠ 0
  slotGen : (st.caps.slot c ref.slot).gen = ref.gen
  task : (st.caps.slot c ref.slot).capType = .process
  child : (st.caps.slot c ref.slot).obj = some (layout.hdr e)
  destroy : (st.caps.slot c ref.slot).rights &&& destroy ≠ 0
  wait : (st.caps.slot c ref.slot).rights &&& wait ≠ 0
  unwired : st.caps.cdt.head (layout.hdr e) = none
  used : (st.entry e).used = true
  parentUp : ∀ p, parent = .spawned p → p ≠ e ∧ (st.entry p).used = true ∧ (st.entry p).alive = true

namespace ChildHandle

theorem names (handle : ChildHandle layout parent c ref e st) :
    (st.caps.slot c ref.slot).Names (layout.hdr e) :=
  ⟨by rw [handle.task]; decide, handle.child⟩

theorem of_slot_eq (handle : ChildHandle layout parent c ref e st)
    (slot : st'.caps.slot c ref.slot = st.caps.slot c ref.slot)
    (cSlots : st'.caps.cSlots c = st.caps.cSlots c)
    (unwired : st'.caps.cdt.head (layout.hdr e) = none)
    (used : (st'.entry e).used = (st.entry e).used)
    (parentKept : ∀ p, parent = .spawned p → st'.entry p = st.entry p) :
    ChildHandle layout parent c ref e st' := by
  refine ⟨?_, by rw [cSlots]; exact handle.inRange, handle.nonNull,
    by rw [slot]; exact handle.slotGen, by rw [slot]; exact handle.task,
    by rw [slot]; exact handle.child, by rw [slot]; exact handle.destroy,
    by rw [slot]; exact handle.wait, unwired, by rw [used]; exact handle.used, fun p up => ?_⟩
  · exact (pCnode_congr fun p up => by rw [parentKept p up]).trans handle.cnode
  · rw [parentKept p up]
    exact handle.parentUp p up

theorem keeps (handle : ChildHandle layout parent c ref e st)
    (keeps : KeepsChild layout parent c ref.slot e st st') :
    ChildHandle layout parent c ref e st' :=
  handle.of_slot_eq keeps.caps.slot keeps.caps.cSlots (keeps.caps.head handle.unwired)
    (congrArg SpawnEntry.used keeps.entry) keeps.parent

section

variable (handle : ChildHandle layout parent c ref e st)
include handle

/-- The parent's CNode is not that of another child. -/
theorem cnode_ne
    (notParent : parent ≠ .spawned e') : layout.cnode e' ≠ c :=
  ProcState.pCnode_ne handle.cnode notParent

theorem not_own : parent ≠ .spawned e := by
  intro own
  exact (handle.parentUp e own).1 rfl

variable [DecidableEq O]

/-- The only handle to the child is the parent's. -/
theorem third (sound : HandlesSound layout st)
    {caller : GjProcess X} {r : CapRef} {right : U16} {c' : C}
    (other : ¬ (st.pCnode layout caller = st.pCnode layout parent ∧ r = ref))
    (task : taskOf layout st caller r right = .ok (c', e')) :
    e' ≠ e ∧ ¬ (c = c' ∧ ref.slot = r.slot) := by
  obtain ⟨cnode, res, resolved, obj, -, -⟩ := taskOf_names task
  obtain ⟨-, -, gen, names, -⟩ := gjCapResolve_eq_ok resolved
  have elsewhere : ¬ (c = c' ∧ ref.slot = r.slot) := by
    rintro ⟨rfl, sameSlot⟩
    rw [← sameSlot, handle.slotGen] at gen
    exact other ⟨cnode.trans handle.cnode.symm, (CapRef.mk.injEq ..).mpr ⟨sameSlot.symm, gen.symm⟩⟩
  refine ⟨?_, elsewhere⟩
  rintro rfl
  rw [obj] at names
  exact elsewhere (sound.unique c ref.slot c' r.slot e' handle.names names)

/-- Kill and wait accept the handle exactly while the child's header is live. -/
theorem taskOf_eq {right : U16}
    (allowed : (st.caps.slot c ref.slot).rights &&& right ≠ 0)
    (live : (st.caps.obj (layout.hdr e)).state = .live)
    (current : (st.caps.obj (layout.hdr e)).gen = (st.caps.slot c ref.slot).objGen) :
    taskOf layout st parent ref right = .ok (c, e) := by
  have slot : st.caps.slot c ref.slot =
      { capType := .process, rights := (st.caps.slot c ref.slot).rights, gen := ref.gen
        objGen := (st.caps.slot c ref.slot).objGen, obj := some (layout.hdr e) } := by
    rw [← handle.task, ← handle.slotGen, ← handle.child]
  have resolved := gjCapResolve_of_slot handle.inRange handle.nonNull (by decide) slot live current
  have child : layout.childOf (layout.hdr e) = some e := by
    unfold SpawnLayout.childOf
    cases found : (List.finRange gjSpawnMax).find? fun e' => layout.hdr e' = layout.hdr e with
    | none =>
      have missed := List.find?_eq_none.mp found e (List.mem_finRange e)
      simp at missed
    | some e' =>
      have same : layout.hdr e' = layout.hdr e := by simpa using List.find?_some found
      rw [layout.hdr_injective same]
  unfold taskOf
  rw [handle.cnode]
  simp only [resolved, child, if_neg allowed, ne_eq, not_true_eq_false, if_false]

theorem taskOf_dead (gone : (st.caps.obj (layout.hdr e)).state ≠ .live) (right : U16) (c' : C)
    (e' : Fin gjSpawnMax) : taskOf layout st parent ref right ≠ .ok (c', e') := by
  intro task
  obtain ⟨cnode, res, resolved, obj, -, -⟩ := taskOf_names task
  rw [handle.cnode] at cnode
  cases cnode
  obtain ⟨-, -, -, names, live, -⟩ := gjCapResolve_eq_ok resolved
  have same : res.obj = layout.hdr e := Option.some.inj (names.2.symm.trans handle.child)
  rw [same] at live
  exact gone live

end

end ChildHandle

/-- A child that waits for its end: its header is live and its handle current. -/
structure LiveChild (layout : SpawnLayout C O X) (c : C) (ref : CapRef) (e : Fin gjSpawnMax)
    (st : ProcState C O Q X) : Prop where
  live : (st.caps.obj (layout.hdr e)).state = .live
  current : (st.caps.obj (layout.hdr e)).gen = (st.caps.slot c ref.slot).objGen
  alive : (st.entry e).alive = true

theorem LiveChild.keeps (child : LiveChild layout c ref e st)
    (keeps : KeepsChild layout parent c ref.slot e st st') : LiveChild layout c ref e st' where
  live := keeps.caps.state.trans child.live
  current := by rw [keeps.caps.gen, keeps.caps.slot]; exact child.current
  alive := by rw [keeps.entry]; exact child.alive

section

variable [DecidableEq O]

theorem taskOf_error_ne_ok {right : U16} :
    taskOf layout st parent ref right ≠ .error .ok := by
  intro failed
  unfold taskOf at failed
  split at failed
  · cases failed
  · split at failed
    · rename_i status refused
      obtain rfl : status = .ok := Except.error.inj failed
      exact gjCapResolve_error_ne_ok refused
    · split_ifs at failed <;> try cases failed
      split at failed
      all_goals cases failed

end

/-! ### The wait table -/

section

variable [DecidableEq X]

theorem processIsWaitChild_reparent (st : ProcState C O Q X) (old new : U32) (proc : GjProcess X) :
    processIsWaitChild (processWaitReparent st old new) proc = processIsWaitChild st proc := by
  unfold processWaitReparent
  split_ifs
  · rfl
  · unfold processIsWaitChild ProcState.waitFind
    congr 2
    funext k
    simp only [WaitSlot.Of]
    split_ifs <;> rfl

theorem processWaitNoteExit_entry (st : ProcState C O Q X) (e : Fin gjSpawnMax) (code : U32) :
    (processWaitNoteExit st e code).entry e =
      { st.entry e with exitCode := code, alive := false } := by
  unfold processWaitNoteExit
  simp only
  split <;> exact st.setEntry_self e _

/-- The state of a dying child before its capabilities are looked at. -/
def orphan (st : ProcState C O Q X) (e : Fin gjSpawnMax) (code : U32) : ProcState C O Q X :=
  let dying := st.setEntry e { st.entry e with exitCode := code, alive := false }
  if processWaitPidOf st (.spawned e) ≠ 0 then
    processWaitReparent dying (processWaitPidOf st (.spawned e)) 1
  else dying

theorem orphan_waitOnly (st : ProcState C O Q X) (e : Fin gjSpawnMax) (code : U32) :
    WaitOnly st (orphan st e code) e := by
  have dying : WaitOnly st
      (st.setEntry e { st.entry e with exitCode := code, alive := false }) e := .setEntry rfl rfl
  unfold orphan
  split_ifs
  · exact dying.trans (processWaitReparent_waitOnly _ _ 1 e)
  · exact dying

theorem processIsWaitChild_orphan (st : ProcState C O Q X) (e : Fin gjSpawnMax) (code : U32)
    (proc : GjProcess X) :
    processIsWaitChild (orphan st e code) proc = processIsWaitChild st proc := by
  unfold orphan
  split_ifs
  · exact processIsWaitChild_reparent _ _ _ proc
  · rfl

theorem processWaitRegister_alive (ppid : U32) (alive : (st.entry e).alive = true) :
    ((processWaitRegister st e ppid).entry e).alive = true := by
  unfold processWaitRegister
  split
  · exact alive
  · split
    · exact alive
    · exact congrArg SpawnEntry.alive (ProcState.setEntry_self _ e _)

theorem processWaitRegister_pCnode (ppid : U32) (proc : GjProcess X) :
    (processWaitRegister st e ppid).pCnode layout proc = st.pCnode layout proc := by
  have waits := processWaitRegister_waitOnly st e ppid
  refine pCnode_congr fun p _ => ?_
  by_cases own : p = e
  · rw [own, waits.hasCnode]
  · rw [waits.others p own]

variable [DecidableEq C]

theorem reap_caps (st : ProcState C O Q X) (c : C) (ref : CapRef) (e : Fin gjSpawnMax) :
    (reap st c ref e).caps = invalidateSlot st.caps c ref.slot := by
  have forgets := processWaitForget_waitOnly st (.spawned e) e
  unfold reap
  simp only
  split_ifs
  all_goals exact congrArg (fun caps => invalidateSlot caps c ref.slot) forgets.caps

theorem reap_entry (st : ProcState C O Q X) (c : C) (ref : CapRef) (e x : Fin gjSpawnMax) :
    (reap st c ref e).entry x =
      if x = e then { st.entry e with used := false } else st.entry x := by
  have entry : (processWaitForget st (.spawned e)).entry = st.entry := by
    unfold processWaitForget
    split <;> rfl
  unfold reap
  simp only [entry]
  by_cases own : x = e
  · subst own
    rw [if_pos rfl]
    split_ifs with used
    · exact ProcState.setEntry_self _ x _
    · have unused : (st.entry x).used = false := by simpa using used
      show st.entry x = _
      rw [← unused]
  · split_ifs
    · exact ProcState.setEntry_of_ne _ own _
    · rfl

variable [DecidableEq O]

/-- What a wait on a handle has to do after a kill with the given code: it succeeds once, reports
the code, and gives back the handle and the entry. -/
structure ReapedOnce (layout : SpawnLayout C O X) (parent : GjProcess X) (ref : CapRef)
    (e : Fin gjSpawnMax) (code : U32) (st : ProcState C O Q X) : Prop where
  reaped : (processWait layout st parent ref).1 = .ok
  exit : (processWait layout st parent ref).2.1 = some code
  stale : ∀ c res, (processWait layout st parent ref).2.2.pCnode layout parent = some c →
    gjCapResolve (processWait layout st parent ref).2.2.caps c ref.slot ref.gen ≠ .ok res
  freed : ((processWait layout st parent ref).2.2.entry e).used = false
  once : (processWait layout (processWait layout st parent ref).2.2 parent ref).1 ≠ .ok

/-- A dead child with a live header is reaped. -/
theorem reapedOnce_of_live {code : U32} (handle : ChildHandle layout parent c ref e st)
    (live : (st.caps.obj (layout.hdr e)).state = .live)
    (current : (st.caps.obj (layout.hdr e)).gen = (st.caps.slot c ref.slot).objGen)
    (dead : (st.entry e).alive = false) (exit : (st.entry e).exitCode = code) :
    ReapedOnce layout parent ref e code st := by
  have waits : processWait layout st parent ref = (.ok, some code, reap st c ref e) := by
    unfold processWait
    rw [handle.taskOf_eq handle.wait live current]
    simp only [dead, exit, Bool.false_eq_true, if_false]
  have cnode : (reap st c ref e).pCnode layout parent = some c := by
    rw [← handle.cnode]
    exact pCnode_congr fun p up => by rw [reap_entry, if_neg (handle.parentUp p up).1]
  have stale : ∀ res, gjCapResolve (reap st c ref e).caps c ref.slot ref.gen ≠ .ok res := by
    intro res resolved
    have names := (gjCapResolve_eq_ok resolved).2.2.2.1
    rw [reap_caps, invalidateSlot_slot_self] at names
    exact names.1 rfl
  refine ⟨by rw [waits], by rw [waits], ?_, ?_, ?_⟩
  · rw [waits]
    intro c' res cnode'
    obtain rfl := Option.some.inj (cnode.symm.trans cnode')
    exact stale res
  · rw [waits]
    show ((reap st c ref e).entry e).used = false
    rw [reap_entry, if_pos rfl]
  · rw [waits]
    show (processWait layout (reap st c ref e) parent ref).1 ≠ .ok
    unfold processWait
    rcases task : taskOf layout (reap st c ref e) parent ref wait with status | ⟨c', e'⟩
    · intro reaped
      obtain rfl : status = .ok := reaped
      exact taskOf_error_ne_ok task
    · obtain ⟨cnode', res, resolved, -⟩ := taskOf_names task
      obtain rfl := Option.some.inj (cnode.symm.trans cnode')
      exact absurd resolved (stale res)

theorem processWait_keeps (handle : ChildHandle layout parent c ref e st)
    (sound : HandlesSound layout st) {caller : GjProcess X} {r : CapRef}
    (other : ¬ (st.pCnode layout caller = st.pCnode layout parent ∧ r = ref)) :
    KeepsChild layout parent c ref.slot e st (processWait layout st caller r).2.2 := by
  unfold processWait
  rcases task : taskOf layout st caller r wait with status | ⟨c', e'⟩
  · exact .refl st
  · simp only
    split_ifs with alive
    · exact .refl st
    · obtain ⟨notChild, elsewhere⟩ := handle.third sound other task
      have notParent : parent ≠ .spawned e' := by
        intro up
        exact alive (handle.parentUp e' up).2.2
      refine .of_third ?_ (fun x different => ?_) notChild notParent
      · rw [reap_caps]
        exact .invalidateSlot elsewhere st.caps
      · rw [reap_entry, if_neg different]

end

/-! ### Calls about third processes -/

variable [DecidableEq C] [DecidableEq O] [DecidableEq Q]

/-- A spent budget, or an edge that some other object has, leaves the slot of an object without
edges alone. -/
theorem KeepsCap.deferred {o : O} {caps : CapState C O Q} (names : (caps.slot c i).Names o)
    (unwired : caps.cdt.head o = none) :
    KeepsCap c i o caps (gjRevokeProcessDeferred caps 16).2 := by
  refine .of_clears (clears_gjRevokeProcessDeferred _ 16) ?_
  rintro ⟨o', ⟨-, wired⟩, named⟩
  rw [Option.some.inj (named.2.symm.trans names.2)] at wired
  exact wired unwired

theorem gjProcessBootstrapRootMeta_keeps (caps : CapState C O Q)
    (inUse : (caps.slot c i).capType ≠ .invalid) :
    KeepsCap c i (layout.hdr e) caps (gjProcessBootstrapRootMeta layout caps e').2 := by
  have readied : KeepsCap c i (layout.hdr e) caps (initObj caps (layout.rootMeta e')) :=
    .initObj (layout.hdr_ne_rootMeta e e').symm caps
  unfold gjProcessBootstrapRootMeta
  rcases installs_gjCapSlotInstall (initObj caps (layout.rootMeta e')) (layout.cnode e')
    slotRootMeta .rootMeta (read ||| identify) (layout.rootMeta e') with
    ⟨code, caps', result, clears⟩ | ⟨ref, caps', result, cdt, installs⟩
  · rw [result]
    exact readied.trans (.of_clears (clears fun _ _ => False) id)
  · rw [result]
    exact readied.trans (.of_installs installs inUse cdt)

theorem gjProcessBootstrapRootMeta_head {caps : CapState C O Q}
    (unwired : caps.cdt.head (layout.hdr e) = none) :
    (gjProcessBootstrapRootMeta layout caps e).2.cdt.head (layout.hdr e) = none := by
  have readied : (initObj caps (layout.rootMeta e)).cdt.head (layout.hdr e) = none :=
    (update_of_ne (layout.hdr_ne_rootMeta e e) ..).trans unwired
  unfold gjProcessBootstrapRootMeta
  rcases installs_gjCapSlotInstall (initObj caps (layout.rootMeta e)) (layout.cnode e)
    slotRootMeta .rootMeta (read ||| identify) (layout.rootMeta e) with
    ⟨code, caps', result, clears⟩ | ⟨ref, caps', result, cdt, -⟩ <;> rw [result]
  · exact (clears fun _ _ => False).head _ readied
  · rw [cdt]
    exact readied

/-- The death of another child clears its own CNode and the slots of dead objects with edges. -/
theorem deathRevoke_keeps (caps : CapState C O Q) (names : (caps.slot c i).Names (layout.hdr e))
    (unwired : caps.cdt.head (layout.hdr e) = none) (notChild : e' ≠ e)
    (otherCnode : layout.cnode e' ≠ c) :
    KeepsCap c i (layout.hdr e) caps (deathRevoke layout caps e') := by
  have otherHdr : layout.hdr e ≠ layout.hdr e' := fun same =>
    notChild (layout.hdr_injective same).symm
  have wiped : KeepsCap c i (layout.hdr e) caps (processDeathCnodeWipe caps (layout.cnode e')) :=
    .of_clears (clears_processDeathCnodeWipe caps _) fun picked => otherCnode picked.1.symm
  have kills := kills_gjObjRevokeBegin (processDeathCnodeWipe caps (layout.cnode e'))
    (layout.hdr e')
  have revoked := wiped.trans
    { slot := congrFun (congrFun kills.slot c) i
      cSlots := congrFun kills.cSlots c
      state := congrArg ObjHdr.state (kills.others _ otherHdr)
      gen := congrArg ObjHdr.gen (kills.others _ otherHdr)
      head := fun none => by rw [kills.cdt]; exact none }
  have walked := revoked.trans (.of_clears (clears_gjRevokeCdtWalkBatch _ (layout.hdr e') 16)
    fun picked => by
      have named := picked.2
      rw [revoked.slot, names.2] at named
      exact otherHdr (Option.some.inj named))
  exact walked.trans (.deferred (by rw [walked.slot]; exact names) (walked.head unwired))

/-- The death of the child itself leaves the parent's slot and kills the header it names. -/
theorem deathRevoke_own (caps : CapState C O Q) (names : (caps.slot c i).Names (layout.hdr e))
    (unwired : caps.cdt.head (layout.hdr e) = none) (otherCnode : layout.cnode e ≠ c) :
    (deathRevoke layout caps e).slot c i = caps.slot c i ∧
      (deathRevoke layout caps e).cSlots c = caps.cSlots c ∧
      (deathRevoke layout caps e).cdt.head (layout.hdr e) = none ∧
      ((deathRevoke layout caps e).obj (layout.hdr e)).state ≠ .live := by
  have wiped : KeepsCap c i (layout.hdr e) caps (processDeathCnodeWipe caps (layout.cnode e)) :=
    .of_clears (clears_processDeathCnodeWipe caps _) fun picked => otherCnode picked.1.symm
  have kills := kills_gjObjRevokeBegin (processDeathCnodeWipe caps (layout.cnode e)) (layout.hdr e)
  have slot : (gjObjRevokeBegin (processDeathCnodeWipe caps (layout.cnode e))
      (layout.hdr e)).2.slot c i = caps.slot c i :=
    (congrFun (congrFun kills.slot c) i).trans wiped.slot
  have stillUnwired : (gjObjRevokeBegin (processDeathCnodeWipe caps (layout.cnode e))
      (layout.hdr e)).2.cdt.head (layout.hdr e) = none := by
    rw [kills.cdt]
    exact wiped.head unwired
  -- The header has no edge, so neither the walk nor the drain finds the parent's slot.
  have drained : KeepsCap c i (layout.hdr e) (gjObjRevokeBegin
      (processDeathCnodeWipe caps (layout.cnode e)) (layout.hdr e)).2
      (deathRevoke layout caps e) := by
    unfold deathRevoke
    simp only
    rw [gjRevokeCdtWalkBatch_of_head_none _ stillUnwired]
    exact .deferred (by rw [slot]; exact names) stillUnwired
  refine ⟨drained.slot.trans slot, ?_, drained.head stillUnwired, ?_⟩
  · rw [drained.cSlots, kills.cSlots]
    exact wiped.cSlots
  · rw [drained.state]
    exact kills.notLive

variable [DecidableEq X]

/-- A spawn into another entry, from the wiped entry on. -/
theorem spawnInto_keeps (genPos : ∀ c i, (st.caps.slot c i).gen ≠ 0)
    (inUse : (st.caps.slot c i).capType ≠ .invalid) (caller : GjProcess X) (c' : C)
    (args : SpawnArgs) :
    KeepsCap c i (layout.hdr e) st.caps (spawnInto layout st caller c' args e').2.caps ∧
      ∀ x, x ≠ e' → (spawnInto layout st caller c' args e').2.entry x = st.entry x := by
  have boots : KeepsCap c i (layout.hdr e) st.caps
      (gjProcessBootstrapRootMeta layout st.caps e').2 :=
    gjProcessBootstrapRootMeta_keeps st.caps inUse
  have stillInUse :
      ((gjProcessBootstrapRootMeta layout st.caps e').2.slot c i).capType ≠ .invalid := by
    rw [boots.slot]
    exact inUse
  have others (caps : CapState C O Q) : ∀ x, x ≠ e' →
      (spawnGiveUp st e' caps).entry x = st.entry x :=
    fun x different => st.setEntry_of_ne different _
  have ends : SpawnEnd layout st c' args e' _ (spawnInto layout st caller c' args e') :=
    spawnInto_end genPos caller c' args
  generalize spawnInto layout st caller c' args e' = result at ends ⊢
  cases ends with
  | bare => exact ⟨boots, others _⟩
  | unminted status failed clears =>
    exact ⟨boots.trans (.of_clears (clears fun _ _ => False) id), others failed⟩
  | threadless ref minted nonNull cdt installs =>
    have elsewhere : ¬ (c = c' ∧ i = ref.slot) := by
      rintro ⟨rfl, rfl⟩
      exact stillInUse installs.ready.free
    have mints := boots.trans (.of_installs installs stillInUse cdt)
    exact ⟨mints.trans (.invalidateRef elsewhere minted), others _⟩
  | started ref minted ppid nonNull cdt installs =>
    have waits := processWaitRegister_waitOnly
      (({ st with caps := minted }).issue c' ref.slot (some (e', st.tenant e'))) e' ppid
    refine ⟨?_, waits.others⟩
    rw [waits.caps]
    exact boots.trans (.of_installs installs stillInUse cdt)

/-- A spawn takes a free entry, and that one only. -/
theorem processSpawn_keeps (sound : HandlesSound layout st)
    (inUse : (st.caps.slot c i).capType ≠ .invalid)
    (third : ∀ e', (st.entry e').used = false →
      e' ≠ e ∧ parent ≠ .spawned e' ∧ layout.cnode e' ≠ c) (caller : GjProcess X)
    (args : SpawnArgs) :
    KeepsChild layout parent c i e st (processSpawn layout st caller args).2 := by
  rcases processSpawn_cases layout st caller args with
    ⟨status, result⟩ | ⟨c', e', -, free, result⟩ <;> rw [result]
  · exact .refl st
  · obtain ⟨notChild, notParent, otherCnode⟩ := third e' free
    have wiped : KeepsChild layout parent c i e st (spawnInit layout st e') := by
      refine .of_third ?_ (fun x different => st.setEntry_of_ne different _) notChild notParent
      exact (KeepsCap.initObj (fun same => notChild (layout.hdr_injective same)) _).trans
        (.gjCnodeInit otherCnode _ gjSpawnCnodeSlots)
    have wipedInUse : ((spawnInit layout st e').caps.slot c i).capType ≠ .invalid := by
      rw [wiped.caps.slot]
      exact inUse
    obtain ⟨caps, others⟩ := spawnInto_keeps (spawnInit_sound sound free).1.genPos
      wipedInUse caller c' args
    exact wiped.trans (.of_third caps others notChild notParent)

theorem processDeath_eq (st : ProcState C O Q X) (e : Fin gjSpawnMax) (code : U32) :
    processDeath layout st e code = processWaitNoteExit
      (if processIsWaitChild st (.spawned e) then
        { orphan st e code with caps := deathRevoke layout st.caps e } else orphan st e code)
      e code := by
  have wait := processIsWaitChild_orphan st e code (.spawned e)
  have caps := (orphan_waitOnly st e code).caps
  rw [← wait, ← caps]
  rfl

theorem processDeath_caps (layout : SpawnLayout C O X) (st : ProcState C O Q X)
    (e : Fin gjSpawnMax) (code : U32) : (processDeath layout st e code).caps =
      if processIsWaitChild st (.spawned e) then deathRevoke layout st.caps e else st.caps := by
  rw [processDeath_eq, (processWaitNoteExit_waitOnly _ e code).caps]
  split_ifs
  · rfl
  · exact (orphan_waitOnly st e code).caps

/-- A dead child is marked with its exit code; no other entry changes. -/
theorem processDeath_entry (layout : SpawnLayout C O X) (st : ProcState C O Q X)
    (e : Fin gjSpawnMax) (code : U32) (x : Fin gjSpawnMax) :
    (processDeath layout st e code).entry x =
      if x = e then { st.entry e with exitCode := code, alive := false } else st.entry x := by
  have waits := orphan_waitOnly st e code
  rw [processDeath_eq]
  by_cases own : x = e
  · subst own
    rw [if_pos rfl, processWaitNoteExit_entry, SpawnEntry.mk.injEq]
    split_ifs
    all_goals exact ⟨waits.used, waits.hasCnode, rfl, rfl⟩
  · rw [(processWaitNoteExit_waitOnly _ e code).others x own]
    split_ifs
    all_goals exact waits.others x own

/-! ### Other calls -/

/-- A spawn, a kill or a wait that is not about the handle and does not kill the parent. -/
def OtherCall (layout : SpawnLayout C O X) (parent : GjProcess X) (ref : CapRef)
    (st : ProcState C O Q X) : ProcOp C X → Prop
  | .spawn _ _ => True
  | .kill caller r _ => ¬ (st.pCnode layout caller = st.pCnode layout parent ∧ r = ref) ∧
      ∀ c' e', taskOf layout st caller r destroy = .ok (c', e') → parent ≠ .spawned e'
  | .wait caller r => ¬ (st.pCnode layout caller = st.pCnode layout parent ∧ r = ref)
  | _ => False

theorem processKill_keeps (handle : ChildHandle layout parent c ref e st)
    (sound : HandlesSound layout st) {caller : GjProcess X} {r : CapRef} (code : U32)
    (other : ¬ (st.pCnode layout caller = st.pCnode layout parent ∧ r = ref))
    (sparesParent : ∀ c' e', taskOf layout st caller r destroy = .ok (c', e') →
      parent ≠ .spawned e') :
    KeepsChild layout parent c ref.slot e st (processKill layout st caller r code).2 := by
  unfold processKill
  rcases task : taskOf layout st caller r destroy with status | ⟨c', e'⟩
  · exact .refl st
  · simp only
    split_ifs
    · exact .refl st
    · have notParent := sparesParent c' e' task
      have notChild := (handle.third sound other task).1
      refine .of_third ?_ (fun x different => ?_) notChild notParent
      · rw [processDeath_caps]
        split_ifs
        · exact deathRevoke_keeps st.caps handle.names handle.unwired notChild
            (handle.cnode_ne notParent)
        · exact .refl _
      · rw [processDeath_entry, if_neg different]

/-- Another call leaves the handle, the child and the parent alone. -/
theorem OtherCall.keeps {op : ProcOp C X} (other : OtherCall layout parent ref st op)
    (handle : ChildHandle layout parent c ref e st) (sound : HandlesSound layout st) :
    KeepsChild layout parent c ref.slot e st (op.exec layout st) := by
  cases op with
  | spawn caller args =>
    refine processSpawn_keeps sound handle.names.1 ?_ caller args
    intro e' free
    have notParent : parent ≠ .spawned e' := fun up =>
      nomatch free.symm.trans (handle.parentUp e' up).2.1
    refine ⟨?_, notParent, handle.cnode_ne notParent⟩
    rintro rfl
    exact nomatch free.symm.trans handle.used
  | kill caller r code => exact processKill_keeps handle sound code other.1 other.2
  | wait caller r => exact processWait_keeps handle sound other
  | copy | mint | delete => exact other.elim

theorem ProcRuns.keeps (runs : ProcRuns layout (OtherCall layout parent ref) st st')
    (handle : ChildHandle layout parent c ref e st) (sound : HandlesSound layout st) :
    KeepsChild layout parent c ref.slot e st st' := by
  induction runs with
  | refl => exact .refl st
  | tail before step ih =>
    obtain ⟨op, other, rfl⟩ := step
    exact ih.trans (other.keeps (handle.keeps ih) (ProcRuns.sound before sound))

/-! ### The handle that a spawn returns -/

/-- A spawn that succeeds returns a handle to a live child. -/
theorem spawnInto_handle {args : SpawnArgs} {st' : ProcState C O Q X}
    (genPos : ∀ c i, (st.caps.slot c i).gen ≠ 0) (unwired : st.caps.cdt.head (layout.hdr e) = none)
    (cnode : st.pCnode layout parent = some c) (used : (st.entry e).used = true)
    (alive : (st.entry e).alive = true)
    (parentUp : ∀ p, parent = .spawned p →
      p ≠ e ∧ (st.entry p).used = true ∧ (st.entry p).alive = true)
    (spawned : spawnInto layout st parent c args e = (.ok (e', ref), st')) :
    e = e' ∧ ChildHandle layout parent c ref e st' ∧ LiveChild layout c ref e st' := by
  have ends : SpawnEnd layout st c args e _ (spawnInto layout st parent c args e) :=
    spawnInto_end genPos parent c args
  rw [spawned] at ends
  cases ends with
  | started ref caps ppid nonNull cdt installs =>
    have waits := processWaitRegister_waitOnly
      (({ st with caps }).issue c ref.slot (some (e, st.tenant e))) e ppid
    have slot : caps.slot c ref.slot = _ :=
      (installs.slot c ref.slot).trans (if_pos ⟨rfl, rfl⟩)
    have rights := spawnProcessRights_spec args.jit
    refine ⟨rfl, ⟨?_, ?_, nonNull, ?_, ?_, ?_, ?_, ?_, ?_, ?_, ?_⟩, ?_, ?_, ?_⟩
    · rw [processWaitRegister_pCnode]
      exact cnode
    · rw [waits.caps]
      show ref.slot < caps.cSlots c
      rw [installs.cSlots]
      exact installs.ready.inRange
    · rw [waits.caps]
      exact congrArg CapSlot.gen slot
    · rw [waits.caps]
      exact congrArg CapSlot.capType slot
    · rw [waits.caps]
      exact congrArg CapSlot.obj slot
    · rw [waits.caps]
      show (caps.slot c ref.slot).rights &&& _ ≠ 0
      rw [slot]
      exact rights.2.2.2.1
    · rw [waits.caps]
      show (caps.slot c ref.slot).rights &&& _ ≠ 0
      rw [slot]
      exact rights.2.2.2.2
    · rw [waits.caps]
      show caps.cdt.head (layout.hdr e) = none
      rw [cdt]
      exact gjProcessBootstrapRootMeta_head unwired
    · rw [waits.used]
      exact used
    · intro p up
      rw [waits.others p (parentUp p up).1]
      exact parentUp p up
    · rw [waits.caps]
      exact (installs.state _).trans installs.ready.live
    · rw [waits.caps]
      show (caps.obj (layout.hdr e)).gen = (caps.slot c ref.slot).objGen
      rw [slot, installs.objGen]
    · exact processWaitRegister_alive _ alive

theorem processSpawn_handle {args : SpawnArgs} {st' : ProcState C O Q X}
    (sound : HandlesSound layout st)
    (parentUp : ∀ p, parent = .spawned p → (st.entry p).used = true ∧ (st.entry p).alive = true)
    (spawned : processSpawn layout st parent args = (.ok (e, ref), st')) :
    ∃ c, st.pCnode layout parent = some c ∧ ChildHandle layout parent c ref e st' ∧
      LiveChild layout c ref e st' := by
  rcases processSpawn_cases layout st parent args with
    ⟨status, result⟩ | ⟨c, e₀, cnode, free, result⟩ <;> rw [result] at spawned
  · cases spawned
  · have others : ∀ p, parent = .spawned p → p ≠ e₀ := by
      rintro p up rfl
      exact nomatch free.symm.trans (parentUp p up).1
    have unchanged (p : Fin gjSpawnMax) (up : parent = .spawned p) :
        (spawnInit layout st e₀).entry p = st.entry p := st.setEntry_of_ne (others p up) _
    have wiped : (spawnInit layout st e₀).pCnode layout parent = some c :=
      (pCnode_congr fun p up => by rw [unchanged p up]).trans cnode
    have wipedUp : ∀ p, parent = .spawned p → p ≠ e₀ ∧
        ((spawnInit layout st e₀).entry p).used = true ∧
        ((spawnInit layout st e₀).entry p).alive = true := by
      intro p up
      rw [unchanged p up]
      exact ⟨others p up, parentUp p up⟩
    obtain ⟨rfl, handle, child⟩ := spawnInto_handle
      (spawnInit_sound sound free).1.genPos (update_self ..) wiped
      (congrArg SpawnEntry.used (st.setEntry_self e₀ _))
      (congrArg SpawnEntry.alive (st.setEntry_self e₀ _)) wipedUp spawned
    exact ⟨c, cnode, handle, child⟩

/-! ### Spawn, kill, wait -/

section

variable (handle : ChildHandle layout parent c ref e st)
include handle

theorem processKill_eq
    (child : LiveChild layout c ref e st) (code : U32) :
    processKill layout st parent ref code = (.ok, processDeath layout st e code) := by
  unfold processKill
  rw [handle.taskOf_eq handle.destroy child.live child.current]
  simp only [child.alive, Bool.true_eq_false, if_false]

/-- The parent's handle survives the death of the child, as a capability for a dead object if
the child was in the wait table. -/
theorem ChildHandle.death
    (code : U32) : ChildHandle layout parent c ref e (processDeath layout st e code) := by
  have revoked := deathRevoke_own st.caps handle.names handle.unwired
    (handle.cnode_ne handle.not_own)
  have entry := processDeath_entry layout st e code
  have used : ((processDeath layout st e code).entry e).used = (st.entry e).used := by
    rw [entry, if_pos rfl]
  have parentKept (p : Fin gjSpawnMax) (up : parent = .spawned p) :
      (processDeath layout st e code).entry p = st.entry p := by
    rw [entry, if_neg (handle.parentUp p up).1]
  have caps := processDeath_caps layout st e code
  split_ifs at caps
  · exact handle.of_slot_eq (by rw [caps]; exact revoked.1) (by rw [caps]; exact revoked.2.1)
      (by rw [caps]; exact revoked.2.2.1) used parentKept
  · exact handle.of_slot_eq (by rw [caps]) (by rw [caps]) (by rw [caps]; exact handle.unwired) used
      parentKept

end

/-- A killed child is reaped once through the handle that its spawn returned exactly if it was
not in the wait table when it was killed: the death of a child in the table revokes the header
that the handle names. -/
theorem kill_reapedOnce_iff {st₀ st₁ st₂ st₃ st₄ st₅ : ProcState C O Q X} {args : SpawnArgs}
    {ref : CapRef} {code : U32} (boot : SpawnBoot layout st₀)
    (runs : ProcRuns layout (fun _ _ => True) st₀ st₁)
    (parentUp : ∀ p, parent = .spawned p → (st₁.entry p).used = true ∧ (st₁.entry p).alive = true)
    (spawned : processSpawn layout st₁ parent args = (.ok (e, ref), st₂))
    (before : ProcRuns layout (OtherCall layout parent ref) st₂ st₃)
    (killed : processKill layout st₃ parent ref code = (.ok, st₄))
    (after : ProcRuns layout (OtherCall layout parent ref) st₄ st₅) :
    ReapedOnce layout parent ref e code st₅ ↔ processIsWaitChild st₃ (.spawned e) = false := by
  have sound₁ := runs.sound boot.sound
  have sound₂ : HandlesSound layout st₂ := by
    have spawn := processSpawn_sound sound₁ parent args
    rw [spawned] at spawn
    exact spawn
  obtain ⟨c, -, handle₂, child₂⟩ := processSpawn_handle sound₁ parentUp spawned
  have waited := before.keeps handle₂ sound₂
  have handle₃ := handle₂.keeps waited
  have child₃ := child₂.keeps waited
  have sound₃ := before.sound sound₂
  obtain rfl : processDeath layout st₃ e code = st₄ :=
    (Prod.mk.inj ((processKill_eq handle₃ child₃ code).symm.trans killed)).2
  have handle₄ := handle₃.death code
  have later := after.keeps handle₄ (processDeath_sound sound₃ e code)
  have handle₅ := handle₄.keeps later
  have entry₅ : st₅.entry e = { st₃.entry e with exitCode := code, alive := false } := by
    rw [later.entry, processDeath_entry, if_pos rfl]
  cases registered : processIsWaitChild st₃ (.spawned e) with
  | true =>
    have gone : (st₅.caps.obj (layout.hdr e)).state ≠ .live := by
      rw [later.caps.state, processDeath_caps, if_pos registered]
      exact (deathRevoke_own st₃.caps handle₃.names handle₃.unwired
        (handle₃.cnode_ne handle₃.not_own)).2.2.2
    refine iff_of_false ?_ Bool.true_eq_false.mp
    intro once
    have reaped := once.reaped
    unfold processWait at reaped
    rcases task : taskOf layout st₅ parent ref wait with status | ⟨c', e'⟩ <;>
      rw [task] at reaped
    · obtain rfl : status = .ok := reaped
      exact taskOf_error_ne_ok task
    · exact handle₅.taskOf_dead gone _ c' e' task
  | false =>
    have caps₄ : (processDeath layout st₃ e code).caps = st₃.caps := by
      rw [processDeath_caps, registered]
      rfl
    refine iff_of_true ?_ rfl
    apply reapedOnce_of_live handle₅
    · rw [later.caps.state, caps₄]
      exact child₃.live
    · rw [later.caps.gen, later.caps.slot, caps₄]
      exact child₃.current
    all_goals rw [entry₅]

end

/-! ### A child in the wait table and one outside of it -/

def sampleSpawned (waitFull : Bool) : ProcState Nat Nat Nat Unit :=
  (sampleProcs waitFull).after [.spawn sampleParent sampleArgs]

def sampleKilled (waitFull : Bool) : ProcState Nat Nat Nat Unit :=
  (sampleSpawned waitFull).after [.kill sampleParent ⟨1, 1⟩ 7]

theorem kill_then_wait_dead :
    processSpawn sampleLayout (sampleProcs false) sampleParent sampleArgs =
        (.ok (0, ⟨1, 1⟩), sampleSpawned false) ∧
      processIsWaitChild (sampleSpawned false) (.spawned 0) = true ∧
      processKill sampleLayout (sampleSpawned false) sampleParent ⟨1, 1⟩ 7 =
        (.ok, sampleKilled false) ∧
      (processWait sampleLayout (sampleKilled false) sampleParent ⟨1, 1⟩).1 = .errDead ∧
      ((processWait sampleLayout (sampleKilled false) sampleParent ⟨1, 1⟩).2.2.entry 0).used =
        true ∧
      ¬ ReapedOnce sampleLayout sampleParent ⟨1, 1⟩ 0 7 (sampleKilled false) := by
  have refused :
      (processWait sampleLayout (sampleKilled false) sampleParent ⟨1, 1⟩).1 = .errDead := by
    decide +kernel
  refine ⟨by rfl, by rfl, by rfl, refused, by decide +kernel, ?_⟩
  exact fun once => nomatch refused.symm.trans once.reaped

theorem kill_reapedOnce_iff_waitFull :
    processIsWaitChild (sampleSpawned true) (.spawned 0) = false ∧
      ReapedOnce sampleLayout sampleParent ⟨1, 1⟩ 0 7 (sampleKilled true) := by
  have outside : processIsWaitChild (sampleSpawned true) (.spawned 0) = false := by rfl
  have noSpawned : ∀ p, sampleParent = .spawned p → ((sampleProcs true).entry p).used = true ∧
      ((sampleProcs true).entry p).alive = true := by
    intro p own
    cases own
  have spawned : processSpawn sampleLayout (sampleProcs true) sampleParent sampleArgs =
      (.ok (0, ⟨1, 1⟩), sampleSpawned true) := by
    rfl
  have killed : processKill sampleLayout (sampleSpawned true) sampleParent ⟨1, 1⟩ 7 =
      (.ok, sampleKilled true) := by
    rfl
  refine ⟨outside, ?_⟩
  exact (kill_reapedOnce_iff (sampleProcs_boot true) .refl noSpawned spawned .refl killed
    .refl).mpr outside

end GreenJade.Proc

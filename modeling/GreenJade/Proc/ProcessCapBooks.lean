import GreenJade.Cap.AllOrNothing
import GreenJade.Proc.Reap

/-! Owns the books of a PROCESS capability: what a spawn that fails behind the mint and a wait that
reaps leave in the account of the parent's CNode and in the header of the child. Both drop the
parent's slot with `gj_cap_slot_invalidate`, which clears the fields of the slot and nothing
else. -/

namespace GreenJade.Proc

open Cap Function List

universe u v w x

variable {C : Type u} {O : Type v} {Q : Type w} {X : Type x}

/-- How many slots of a CNode are occupied. -/
def occupiedSlots (caps : CapState C O Q) (c : C) : Nat :=
  (List.range (caps.cSlots c)).countP fun i => decide ((caps.slot c i).capType ≠ .invalid)

/-- The account counts the occupied slots of the CNode, and the header the slots that name it. -/
def Balanced (caps : CapState C O Q) (c : C) (q : Q) (o : O) : Prop :=
  (caps.quota q).used.toNat = occupiedSlots caps c ∧
    (caps.holders o).encard = (caps.obj o).slotsLeft.toNat

/-- The slots outside of the entry's own CNode that name its header. -/
def strayHolders (layout : SpawnLayout C O X) (caps : CapState C O Q) (e : Fin gjSpawnMax) :
    Set (C × Nat) :=
  {place | place.1 ≠ layout.cnode e ∧ place ∈ caps.holders (layout.hdr e)}

theorem occupiedSlots_congr {caps caps' : CapState C O Q} {c : C}
    (cSlots : caps'.cSlots c = caps.cSlots c)
    (slot : ∀ i, (caps'.slot c i).capType = .invalid ↔ (caps.slot c i).capType = .invalid) :
    occupiedSlots caps' c = occupiedSlots caps c := by
  rw [occupiedSlots, cSlots]
  refine countP_congr fun i _ => ?_
  simp [ne_eq, slot]

/-- One occupied slot is cleared. -/
theorem occupiedSlots_clear {caps caps' : CapState C O Q} {c : C} {i : Nat}
    (cSlots : caps'.cSlots c = caps.cSlots c) (inRange : i < caps.cSlots c)
    (occupied : (caps.slot c i).capType ≠ .invalid) (cleared : (caps'.slot c i).capType = .invalid)
    (others : ∀ j, j ≠ i → caps'.slot c j = caps.slot c j) :
    occupiedSlots caps' c + 1 = occupiedSlots caps c := by
  have split (p : Nat → Bool) : (List.range (caps.cSlots c)).countP p =
      ((List.range (caps.cSlots c)).erase i).countP p + if p i = true then 1 else 0 := by
    have perm := perm_cons_erase (mem_range.mpr inRange)
    rw [perm.countP_eq, countP_cons]
  rw [occupiedSlots, occupiedSlots, cSlots, split, split fun j => decide _]
  have rest : ((List.range (caps.cSlots c)).erase i).countP
        (fun j => decide ((caps'.slot c j).capType ≠ .invalid)) =
      ((List.range (caps.cSlots c)).erase i).countP
        (fun j => decide ((caps.slot c j).capType ≠ .invalid)) := by
    refine countP_congr fun j member => ?_
    have different : j ≠ i := (nodup_range.mem_erase_iff.mp member).1
    rw [others j different]
  rw [rest, if_neg (by simp [cleared]), if_pos (by simp [occupied])]

section

variable {layout : SpawnLayout C O X} {st : ProcState C O Q X} {parent : GjProcess X} {c : C}
  {q : Q} {e : Fin gjSpawnMax} {ref : CapRef}

/-! ### A wait that reaps -/

/-- The account counts one occupied slot less than there are, and the header one slot less than name
it. -/
def ShortByOne (caps : CapState C O Q) (c : C) (q : Q) (o : O) : Prop :=
  (caps.quota q).used.toNat + 1 = occupiedSlots caps c ∧
    (caps.holders o).encard = (caps.obj o).slotsLeft.toNat + 1

section

variable [DecidableEq C]

theorem invalidateSlot_slot (caps : CapState C O Q) (c c' : C) (i i' : Nat) :
    (invalidateSlot caps c i).slot c' i' =
      if c' = c ∧ i' = i then gjCapSlotInvalidate (caps.slot c i) else caps.slot c' i' :=
  update_update_apply ..

/-- One slot names the object no longer. -/
theorem encard_holders_invalidateSlot {caps : CapState C O Q} {i : Nat} {o : O}
    (holds : caps.Holds c i o) :
    ((invalidateSlot caps c i).holders o).encard + 1 = (caps.holders o).encard := by
  have gone : (invalidateSlot caps c i).holders o = caps.holders o \ {(c, i)} := by
    ext ⟨c', i'⟩
    by_cases here : c' = c ∧ i' = i
    · obtain ⟨rfl, rfl⟩ := here
      refine iff_of_false (fun held => held.2.1 ?_) fun held => held.2 rfl
      rw [invalidateSlot_slot, if_pos ⟨rfl, rfl⟩]
      rfl
    · have different : (c', i') ≠ (c, i) := fun same => here (Prod.mk.inj same)
      have same := invalidateSlot_slot caps c c' i i'
      rw [if_neg here] at same
      simp only [CapState.holders, CapState.Holds, Set.mem_ofPred_eq, same, Set.mem_sdiff,
        Set.mem_singleton_iff, different, not_false_eq_true, and_true]
      rfl
  rw [gone]
  exact Set.encard_sdiff_singleton_add_one holds

end

section

variable [DecidableEq O]

/-- `process_wait` reaps the child of an entry. -/
def Reaps (layout : SpawnLayout C O X) (st : ProcState C O Q X) (parent : GjProcess X)
    (ref : CapRef) (c : C) (e : Fin gjSpawnMax) : Prop :=
  taskOf layout st parent ref GjRight.wait = .ok (c, e) ∧ (st.entry e).alive = false

theorem taskOf_eq_ok {right : U16} (task : taskOf layout st parent ref right = .ok (c, e)) :
    st.caps.Holds c ref.slot (layout.hdr e) := by
  obtain ⟨-, res, resolved, obj, -, -⟩ := taskOf_names task
  obtain ⟨inRange, -, -, names, -⟩ := gjCapResolve_eq_ok resolved
  exact ⟨inRange, obj ▸ names⟩

variable [DecidableEq C] [DecidableEq X]

theorem balanced_reap (reaps : Reaps layout st parent ref c e) (q : Q) :
    Balanced (processWait layout st parent ref).2.2.caps c q (layout.hdr e) ↔
      ShortByOne st.caps c q (layout.hdr e) := by
  have holds := taskOf_eq_ok reaps.1
  have after : (processWait layout st parent ref).2.2.caps = invalidateSlot st.caps c ref.slot := by
    rw [processWait, reaps.1]
    dsimp only
    rw [if_neg (by simp [reaps.2]), reap_caps]
  have occupied : occupiedSlots (invalidateSlot st.caps c ref.slot) c + 1 =
      occupiedSlots st.caps c := by
    refine occupiedSlots_clear rfl holds.1 holds.2.1 ?_ fun j different => ?_
    · rw [invalidateSlot_slot, if_pos ⟨rfl, rfl⟩]
      rfl
    · rw [invalidateSlot_slot, if_neg fun same => different same.2]
  have named := encard_holders_invalidateSlot holds
  rw [after, ShortByOne, ← named, ← occupied]
  apply and_congr Nat.succ_inj.symm
  exact (WithTop.add_right_inj ENat.one_ne_top).symm

end

/-! ### A spawn that fails behind the mint -/

variable [DecidableEq C] [DecidableEq O] [DecidableEq Q]

/-- `process_spawn` takes an entry, mints the PROCESS capability into the CNode of a parent that is
there, and then gets no thread. -/
structure FailsBehindMint (layout : SpawnLayout C O X) (st : ProcState C O Q X)
    (parent : GjProcess X) (args : SpawnArgs) (c : C) (e : Fin gjSpawnMax) (ref : CapRef)
    (booted minted : CapState C O Q) : Prop where
  pfnEntry : args.pfnEntry = true
  cnode : st.pCnode layout parent = some c
  there : ∀ e', parent = .spawned e' → (st.entry e').used = true
  free : (List.finRange gjSpawnMax).find? (fun e => !(st.entry e).used) = some e
  boots : ∃ root, gjProcessBootstrapRootMeta layout (spawnInit layout st e).caps e =
    (.ok root, booted)
  space : args.processAsEnsure = .ok
  mints : spawnProcessCapMint booted c (layout.hdr e) args.jit = (.ok ref, minted)
  noThread : args.threadCreate = 0

section Fails

variable {args : SpawnArgs} {booted minted : CapState C O Q}

/-- The parent does not live in the entry that is taken. -/
theorem FailsBehindMint.cnode_ne
    (fails : FailsBehindMint layout st parent args c e ref booted minted) :
    c ≠ layout.cnode e := by
  have unused : (st.entry e).used = false := by
    simpa using find?_some fails.free
  refine (ProcState.pCnode_ne fails.cnode fun same => ?_).symm
  exact Bool.false_ne_true (unused.symm.trans (fails.there e same))

/-- What the capability layer looks like before the mint: as at the start, but for the header, the
root meta object and the CNode of the entry. -/
structure Booted (layout : SpawnLayout C O X) (caps : CapState C O Q) (e : Fin gjSpawnMax)
    (booted : CapState C O Q) : Prop where
  slot : ∀ c, c ≠ layout.cnode e → booted.slot c = caps.slot c
  cSlots : ∀ c, c ≠ layout.cnode e → booted.cSlots c = caps.cSlots c
  quota : booted.quota = caps.quota
  quotaAccount : ∀ c, c ≠ layout.cnode e → booted.quotaAccount c = caps.quotaAccount c
  slotsLeft : (booted.obj (layout.hdr e)).slotsLeft = 0
  unnamed : ∀ i, ¬ (booted.slot (layout.cnode e) i).Names (layout.hdr e)

theorem gjProcessBootstrapRootMeta_booted {root : CapRef}
    (boots : gjProcessBootstrapRootMeta layout (spawnInit layout st e).caps e =
      (.ok root, booted)) : Booted layout st.caps e booted := by
  set before := initObj (spawnInit layout st e).caps (layout.rootMeta e)
  have otherObj : layout.hdr e ≠ layout.rootMeta e := layout.hdr_ne_rootMeta e e
  have account : before.quotaAccount (layout.cnode e) = none := update_self ..
  rcases gjCapSlotInstall_cases before (layout.cnode e) slotRootMeta .rootMeta
      (GjRight.read ||| GjRight.identify) (layout.rootMeta e) with
    ⟨_, result⟩ | ⟨_, _, result⟩ | ⟨charged, ready, paid, result⟩
  · rw [gjProcessBootstrapRootMeta, result] at boots
    cases boots
  · rw [gjProcessBootstrapRootMeta, result] at boots
    cases boots
  · rw [gjProcessBootstrapRootMeta, result] at boots
    cases boots
    have uncharged : charged = before.quota := by
      rw [account] at paid
      exact (Prod.mk.inj paid).2.symm
    have written := installSlot_slot { before with quota := charged } (layout.cnode e)
      slotRootMeta .rootMeta (GjRight.read ||| GjRight.identify) (layout.rootMeta e)
    refine ⟨fun c other => ?_, fun c other => ?_, uncharged, fun c other => ?_, ?_,
      fun i named => ?_⟩
    · funext i
      rw [written, if_neg fun same => other same.1]
      exact congrFun (update_of_ne other _ _) i
    · exact update_of_ne other _ _
    · exact update_of_ne other _ _
    · rw [installSlot_obj, update_of_ne otherObj]
      change (update (update st.caps.obj (layout.hdr e) gjObjHdrInit)
        (layout.rootMeta e) gjObjHdrInit (layout.hdr e)).slotsLeft = 0
      rw [update_of_ne otherObj, update_self]
      rfl
    · rw [written] at named
      split_ifs at named with root
      · exact otherObj (Option.some.inj named.2).symm
      · have fresh : before.slot (layout.cnode e) = fun _ => .fresh := update_self ..
        have invalid : (before.slot (layout.cnode e) i).capType = .invalid := by
          rw [fresh]
          rfl
        exact named.1 invalid

/-- The slot that the mint took is free again; the charge and the count stay. -/
structure LeftBehind (booted : CapState C O Q) (c : C) (i : Nat) (o : O)
    (after : CapState C O Q) : Prop where
  free : (booted.slot c i).capType = .invalid
  cleared : (after.slot c i).capType = .invalid
  others : ∀ c' i', ¬(c' = c ∧ i' = i) → after.slot c' i' = booted.slot c' i'
  cSlots : after.cSlots = booted.cSlots
  charged : gjCapQuotaSlotCharge booted.quota (booted.quotaAccount c) = (.ok, after.quota)
  slotsLeft : (after.obj o).slotsLeft = (booted.obj o).slotsLeft + 1

theorem spawnProcessCapMint_leftBehind {o : O} {jit : Bool}
    (mints : spawnProcessCapMint booted c o jit = (.ok ref, minted)) :
    LeftBehind booted c ref.slot o (invalidateRef minted c ref) := by
  unfold spawnProcessCapMint at mints
  split at mints
  · cases mints
  next installedRef installed allocation =>
    split at mints
    next verified =>
      obtain ⟨rfl, rfl⟩ := (Prod.mk.inj mints).imp_left Except.ok.inj
      obtain ⟨charged, ready, paid, -, rfl⟩ := gjCapAllocInstall_eq_ok allocation
      unfold spawnProcessCapMintSoftVerify at verified
      split at verified
      next status refused =>
        exact absurd (verified ▸ refused) gjCapResolve_error_ne_ok
      next res resolved =>
        rw [invalidateRef, resolved]
        refine ⟨ready.free, ?_, fun c' i' other => ?_, rfl, paid, ?_⟩
        · rw [invalidateSlot_slot, if_pos ⟨rfl, rfl⟩]
          rfl
        · rw [invalidateSlot_slot, if_neg other, installSlot_slot, if_neg other]
        · change (update booted.obj o _ o).slotsLeft = _
          rw [update_self]
    · cases mints

variable [DecidableEq X]

/-- What the failed spawn returns with. -/
theorem FailsBehindMint.processSpawn_caps
    (fails : FailsBehindMint layout st parent args c e ref booted minted) :
    (processSpawn layout st parent args).2.caps = invalidateRef minted c ref := by
  obtain ⟨root, boots⟩ := fails.boots
  simp only [processSpawn, fails.pfnEntry, Bool.true_eq_false, if_false, fails.cnode, fails.free,
    spawnInto, boots, fails.space, ne_eq, not_true_eq_false, fails.mints, fails.noThread, if_true,
    spawnGiveUp]

theorem FailsBehindMint.balanced_iff
    (fails : FailsBehindMint layout st parent args c e ref booted minted)
    (account : st.caps.quotaAccount c = some q) (acyclic : Acyclic st.caps) :
    Balanced (processSpawn layout st parent args).2.caps c q (layout.hdr e) ↔
      (st.caps.quota q).used.toNat + 1 = occupiedSlots st.caps c ∧
        (strayHolders layout st.caps e).encard = 1 := by
  obtain ⟨root, boots⟩ := fails.boots
  have init := gjProcessBootstrapRootMeta_booted boots
  have left := spawnProcessCapMint_leftBehind fails.mints
  have different := fails.cnode_ne
  rw [fails.processSpawn_caps]
  set after := invalidateRef minted c ref
  have used : (after.quota q).used.toNat = (st.caps.quota q).used.toNat + 1 := by
    have paid := left.charged
    rw [init.quota, init.quotaAccount c different, account] at paid
    obtain ⟨room, committed⟩ := gjCapQuotaSlotCharge_ok (acyclic.walk_nodup _ _ le_rfl) paid
    have here : q ∈ chargePath st.caps.quota (some q) := mem_cons_self
    rw [committed, if_pos here, CapQuota.charged_used (room q here)]
  have occupied : occupiedSlots after c = occupiedSlots st.caps c := by
    refine occupiedSlots_congr ?_ fun i => ?_
    · rw [left.cSlots, init.cSlots c different]
    · by_cases same : i = ref.slot
      · rw [same, ← init.slot c different]
        exact iff_of_true left.cleared left.free
      · rw [left.others c i fun both => same both.2, init.slot c different]
  have holders : after.holders (layout.hdr e) = strayHolders layout st.caps e := by
    ext ⟨c', i'⟩
    simp only [CapState.holders, Set.mem_ofPred_eq]
    by_cases own : c' = layout.cnode e
    · subst own
      refine iff_of_false (fun held => init.unnamed i' ?_) fun held => held.1 rfl
      rw [← left.others _ i' fun both => different both.1.symm]
      exact held.2
    · by_cases here : c' = c ∧ i' = ref.slot
      · obtain ⟨rfl, rfl⟩ := here
        refine iff_of_false (fun held => held.2.1 left.cleared) fun held => held.2.2.1 ?_
        rw [← init.slot c' own]
        exact left.free
      · rw [CapState.Holds, left.cSlots, left.others c' i' here, init.cSlots c' own,
          init.slot c' own]
        exact (and_iff_right own).symm
  have slotsLeft : (after.obj (layout.hdr e)).slotsLeft.toNat = 1 := by
    rw [left.slotsLeft, init.slotsLeft]
    rfl
  rw [Balanced, used, occupied, holders, slotsLeft, Nat.cast_one]

end Fails

variable [DecidableEq X]

/-- Neither a spawn that fails behind the mint nor a wait that reaps gives back what the PROCESS
capability took: the books are right afterwards only if they were short by one before. -/
theorem processCap_givenBack (account : st.caps.quotaAccount c = some q)
    (acyclic : Acyclic st.caps) :
    (∀ args booted minted, FailsBehindMint layout st parent args c e ref booted minted →
      (Balanced (processSpawn layout st parent args).2.caps c q (layout.hdr e) ↔
        (st.caps.quota q).used.toNat + 1 = occupiedSlots st.caps c ∧
          (strayHolders layout st.caps e).encard = 1)) ∧
    (Reaps layout st parent ref c e →
      (Balanced (processWait layout st parent ref).2.2.caps c q (layout.hdr e) ↔
        ShortByOne st.caps c q (layout.hdr e))) :=
  ⟨fun _ _ _ fails => fails.balanced_iff account acyclic, fun reaps => balanced_reap reaps q⟩

end

/-! ### A parent with an account -/

/-- The sample parent's CNode has an account, and the wait table is full. -/
def sampleAccounted : ProcState Nat Nat Nat Unit :=
  { sampleProcs true with
    caps := { (sampleProcs true).caps with quotaAccount := fun _ => some 0 } }

def sampleNoThread : SpawnArgs := { sampleArgs with threadCreate := 0 }

/-- Its first child, killed. -/
def sampleDeadChild : ProcState Nat Nat Nat Unit :=
  sampleAccounted.after [.spawn sampleParent sampleArgs, .kill sampleParent ⟨1, 1⟩ 7]

/-- The books are right and a spawn that gets no thread leaves one slot too many in them; so does
the wait for a child that was killed. -/
theorem processCap_givenBack_kept : Balanced sampleAccounted.caps 0 0 10 ∧
      (processSpawn sampleLayout sampleAccounted sampleParent sampleNoThread).1 = .error .errNomem ∧
      ¬ Balanced (processSpawn sampleLayout sampleAccounted sampleParent sampleNoThread).2.caps
        0 0 10 ∧
      (sampleDeadChild.caps.quota 0).used.toNat = occupiedSlots sampleDeadChild.caps 0 ∧
      (processWait sampleLayout sampleDeadChild sampleParent ⟨1, 1⟩).1 = .ok ∧
      ¬ Balanced (processWait sampleLayout sampleDeadChild sampleParent ⟨1, 1⟩).2.2.caps
        0 0 10 := by
  have nowhere : sampleAccounted.caps.holders 10 = ∅ :=
    Set.eq_empty_of_forall_notMem fun _ held => held.2.1 rfl
  refine ⟨⟨by decide +kernel, ?_⟩, by decide +kernel, fun balanced => ?_, by decide +kernel,
    by decide +kernel, fun balanced => ?_⟩
  · rw [nowhere, Set.encard_empty]
    rfl
  all_goals exact absurd balanced.1 (by decide +kernel)

/-- A dead child whose capability was never counted. -/
def sampleUncounted : ProcState Nat Nat Nat Unit :=
  { sampleAccounted with
    caps := sampleAccounted.caps.setSlot 0 1
      { capType := .process, rights := gjSpawnProcessRightsBase, gen := 1, objGen := 1,
        obj := some 10 }
    entry := fun _ => { used := true, hasCnode := true, alive := false, exitCode := 7 } }

theorem processCap_givenBack_uncounted : sampleUncounted.caps.quotaAccount 0 = some 0 ∧
      Reaps sampleLayout sampleUncounted sampleParent ⟨1, 1⟩ 0 0 ∧
      Balanced (processWait sampleLayout sampleUncounted sampleParent ⟨1, 1⟩).2.2.caps 0 0 10 := by
  have acyclic : Acyclic sampleUncounted.caps := .of_orphans fun _ => rfl
  have reaps : Reaps sampleLayout sampleUncounted sampleParent ⟨1, 1⟩ 0 0 :=
    ⟨by decide +kernel, rfl⟩
  have once : sampleUncounted.caps.holders 10 = {((0 : Nat), (1 : Nat))} := by
    ext ⟨c, i⟩
    have written := update_update_apply (fun _ _ => CapSlot.fresh) 0 c 1 i
      ({ capType := .process, rights := gjSpawnProcessRightsBase, gen := 1, objGen := 1,
         obj := some 10 } : CapSlot Nat)
    constructor
    · intro held
      by_contra elsewhere
      rw [if_neg fun same => elsewhere (Prod.ext same.1 same.2)] at written
      exact held.2.1 (congrArg CapSlot.capType written)
    · rintro ⟨⟩
      exact ⟨by decide +kernel, by decide +kernel, rfl⟩
  refine ⟨rfl, reaps, ((processCap_givenBack rfl acyclic).2 reaps).mpr ⟨by decide +kernel, ?_⟩⟩
  rw [show sampleLayout.hdr 0 = 10 from rfl, once, Set.encard_singleton]
  rfl

end GreenJade.Proc

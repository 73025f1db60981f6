import GreenJade.Cap.Decompose

/-! Owns what the operations of the capability layer write to slots and headers in any state,
well-formed or not: which slots they may clear, and where they install one. It does not own the
edges, the queue and the accounts, about which it says nothing. -/

namespace GreenJade.Cap

open LinkedChain Function

universe u v w

variable {C : Type u} {O : Type v} {Q : Type w}

/-- Only slots that `may` picks are cleared; nothing is installed, no object changes its state
or generation, and no object without edges gets one. -/
structure Clears (may : C → CapSlot O → Prop) (s s' : CapState C O Q) : Prop where
  slot : ∀ c i, s'.slot c i = s.slot c i ∨
    (may c (s.slot c i) ∧ s'.slot c i = gjCapSlotInvalidate (s.slot c i))
  state : ∀ o, (s'.obj o).state = (s.obj o).state
  gen : ∀ o, (s'.obj o).gen = (s.obj o).gen
  cSlots : s'.cSlots = s.cSlots
  head : ∀ o, s.cdt.head o = none → s'.cdt.head o = none

namespace Clears

variable {may may' : C → CapSlot O → Prop} {s s' s'' : CapState C O Q}

/-- Nothing but edges, locks, accounts and the queue changed. -/
theorem of_eq (slot : s'.slot = s.slot) (obj : s'.obj = s.obj) (cSlots : s'.cSlots = s.cSlots)
    (head : ∀ o, s.cdt.head o = none → s'.cdt.head o = none) : Clears may s s' :=
  ⟨fun c i => .inl (by rw [slot]), fun o => by rw [obj], fun o => by rw [obj], cSlots, head⟩

/-- Nothing but locks, accounts and the queue changed. -/
theorem of_quiet (slot : s'.slot = s.slot) (obj : s'.obj = s.obj)
    (cSlots : s'.cSlots = s.cSlots) (cdt : s'.cdt = s.cdt) : Clears may s s' :=
  of_eq slot obj cSlots fun _ none => by rw [cdt]; exact none

theorem refl (may : C → CapSlot O → Prop) (s : CapState C O Q) : Clears may s s :=
  of_quiet rfl rfl rfl rfl

theorem mono (clears : Clears may s s') (wider : ∀ c slot, may c slot → may' c slot) :
    Clears may' s s' where
  slot c i := (clears.slot c i).imp_right fun cleared => ⟨wider _ _ cleared.1, cleared.2⟩
  state := clears.state
  gen := clears.gen
  cSlots := clears.cSlots
  head := clears.head

/-- A slot is cleared at most once, since only slots in use are picked. -/
theorem trans (first : Clears may s s') (second : Clears may s' s'')
    (inUse : ∀ c slot, may c slot → slot.capType ≠ .invalid) : Clears may s s'' where
  slot c i := by
    rcases first.slot c i with same | ⟨picked, cleared⟩
    · rw [← same]
      exact second.slot c i
    · rcases second.slot c i with same | ⟨again, -⟩
      · exact .inr ⟨picked, same.trans cleared⟩
      · rw [cleared] at again
        exact absurd rfl (inUse c _ again)
  state o := (second.state o).trans (first.state o)
  gen o := (second.gen o).trans (first.gen o)
  cSlots := second.cSlots.trans first.cSlots
  head o none := second.head o (first.head o none)

/-- A slot that is not picked stays as it is. -/
theorem slot_eq (clears : Clears may s s') {c : C} {i : Nat} (spared : ¬ may c (s.slot c i)) :
    s'.slot c i = s.slot c i :=
  (clears.slot c i).resolve_right fun cleared => spared cleared.1

/-- What a slot names afterwards it named before. -/
theorem names (clears : Clears may s s') {c : C} {i : Nat} {o : O}
    (names : (s'.slot c i).Names o) : s'.slot c i = s.slot c i := by
  rcases clears.slot c i with same | ⟨-, cleared⟩
  · exact same
  · rw [cleared] at names
    exact absurd rfl names.1

end Clears

variable {s s' : CapState C O Q} {c : C} {o : O} {i : Nat} {capType : CapType} {rights : U16}
  {ref : CapRef}

@[simp]
theorem ObjHdr.slotGone_state (hdr : ObjHdr) : hdr.slotGone.state = hdr.state := by
  unfold ObjHdr.slotGone
  split_ifs <;> rfl

@[simp]
theorem ObjHdr.slotGone_gen (hdr : ObjHdr) : hdr.slotGone.gen = hdr.gen := by
  unfold ObjHdr.slotGone
  split_ifs <;> rfl

/-! ### Selections of slots -/

def InCnode (c : C) (c' : C) (slot : CapSlot O) : Prop := c' = c ∧ slot.capType ≠ .invalid

theorem InCnode.inUse (c c' : C) (slot : CapSlot O) (picked : InCnode c c' slot) :
    slot.capType ≠ .invalid :=
  picked.2

def NamesObj (o : O) (_ : C) (slot : CapSlot O) : Prop := slot.Names o

theorem NamesObj.inUse (o : O) (c : C) (slot : CapSlot O) (picked : NamesObj o c slot) :
    slot.capType ≠ .invalid :=
  picked.1

def NamesOneOf (dead : O → Prop) (_ : C) (slot : CapSlot O) : Prop := ∃ o, dead o ∧ slot.Names o

theorem NamesOneOf.inUse (dead : O → Prop) (c : C) (slot : CapSlot O)
    (picked : NamesOneOf dead c slot) : slot.capType ≠ .invalid := by
  obtain ⟨o, -, names⟩ := picked
  exact names.1

theorem CapSlot.not_names_fresh (o : O) : ¬ (CapSlot.fresh : CapSlot O).Names o :=
  fun names => names.1 rfl

/-! ### Resolve -/

/-- A handle to a slot in use of a live object resolves. -/
theorem gjCapResolve_of_slot {gen objGen : U32}
    (inRange : i < s.cSlots c) (nonNull : gen ≠ 0) (typed : capType ≠ .invalid)
    (slot : s.slot c i = { capType, rights, gen, objGen, obj := some o })
    (live : (s.obj o).state = .live) (current : (s.obj o).gen = objGen) :
    gjCapResolve s c i gen = .ok { obj := o, capType, rights } := by
  have checked : gjObjCheckLive (s.obj o) objGen = .ok := gjObjCheckLive_eq_ok.mpr ⟨live, current⟩
  unfold gjCapResolve
  rw [if_neg (by omega), if_neg nonNull, if_neg (by omega), slot]
  simp only [if_neg typed, checked, ne_eq, not_true_eq_false, if_false]

theorem gjCapResolve_error_ne_ok {i : Nat} {gen : U32} :
    gjCapResolve s c i gen ≠ .error .ok := by
  intro failed
  unfold gjCapResolve at failed
  split_ifs at failed <;> try cases failed
  split at failed
  · cases failed
  · split at failed
    · cases failed
    · rename_i notOk
      exact notOk (Except.error.inj failed)

/-! ### Writes to a CNode -/

section

variable [DecidableEq C]

/-- One cleared slot, with the counter of its object. -/
theorem clears_invalidateSlot {may : C → CapSlot O → Prop} (picked : may c (s.slot c i))
    (slot : s'.slot = s.slot)
    (state : ∀ o, (s'.obj o).state = (s.obj o).state) (gen : ∀ o, (s'.obj o).gen = (s.obj o).gen)
    (cSlots : s'.cSlots = s.cSlots) (cdt : s'.cdt = s.cdt) :
    Clears may s (invalidateSlot s' c i) where
  slot c' i' := by
    have written : (invalidateSlot s' c i).slot c' i' =
        if c' = c ∧ i' = i then gjCapSlotInvalidate (s'.slot c i) else s'.slot c' i' :=
      update_update_apply ..
    rw [written, slot]
    by_cases here : c' = c ∧ i' = i
    · obtain ⟨rfl, rfl⟩ := here
      rw [if_pos ⟨rfl, rfl⟩]
      exact .inr ⟨picked, rfl⟩
    · rw [if_neg here]
      exact .inl rfl
  state := state
  gen := gen
  cSlots := cSlots
  head o none := by
    show s'.cdt.head o = Option.none
    rw [cdt]
    exact none

theorem clears_unlock (may : C → CapSlot O → Prop) (s : CapState C O Q) (c : C) :
    Clears may s (gjCnodeUnlock s c) :=
  .of_quiet rfl rfl rfl rfl

theorem clears_getD_trylock (may : C → CapSlot O → Prop) (s : CapState C O Q) (c : C) :
    Clears may s ((gjCnodeTrylock s c).getD s) := by
  unfold gjCnodeTrylock
  split_ifs
  · exact .refl _ s
  · exact .of_quiet rfl rfl rfl rfl

theorem gjCnodeInit_slot (s : CapState C O Q) (c : C) (cSlots : Nat) (c' : C) (i : Nat) :
    (gjCnodeInit s c cSlots).slot c' i = if c' = c then .fresh else s.slot c' i := by
  by_cases here : c' = c
  · subst here
    simp [gjCnodeInit]
  · simp [gjCnodeInit, here]

/-- One slot that was free now holds the given capability; no other slot changed, and no object
changed its state or generation. -/
structure Installs (s : CapState C O Q) (c : C) (capType : CapType) (rights : U16) (o : O)
    (ref : CapRef) (s' : CapState C O Q) : Prop where
  ready : InstallReady s c ref.slot capType o
  gen : ref.gen = (s.slot c ref.slot).gen
  slot : ∀ c' i, s'.slot c' i = if c' = c ∧ i = ref.slot then
    { capType, rights, gen := ref.gen, objGen := (s.obj o).gen, obj := some o } else s.slot c' i
  state : ∀ o', (s'.obj o').state = (s.obj o').state
  objGen : ∀ o', (s'.obj o').gen = (s.obj o').gen
  cSlots : s'.cSlots = s.cSlots

/-- Slot generations stay nonzero. -/
theorem Installs.genPos (installs : Installs s c capType rights o ref s')
    (genPos : ∀ c i, (s.slot c i).gen ≠ 0) (c' : C) (i : Nat) : (s'.slot c' i).gen ≠ 0 := by
  rw [installs.slot]
  split_ifs with here
  · show ref.gen ≠ 0
    rw [installs.gen]
    exact genPos c ref.slot
  · exact genPos c' i

theorem Installs.resolves
    (installs : Installs s c capType rights o ref s') (nonNull : ref.gen ≠ 0) :
    gjCapResolve s' c ref.slot ref.gen = .ok { obj := o, capType, rights } := by
  apply gjCapResolve_of_slot
  · rw [installs.cSlots]
    exact installs.ready.inRange
  · exact nonNull
  · exact installs.ready.typed
  · rw [installs.slot, if_pos ⟨rfl, rfl⟩]
  · rw [installs.state]
    exact installs.ready.live
  · exact installs.objGen o

end

/-! ### Writes to a header -/

section

variable [DecidableEq O]

theorem setObj_slotGone_state (s : CapState C O Q) (o o' : O) :
    ((s.setObj o (s.obj o).slotGone).obj o').state = (s.obj o').state := by
  by_cases same : o' = o
  · subst same
    simp [CapState.setObj]
  · simp [CapState.setObj, same]

theorem setObj_slotGone_gen (s : CapState C O Q) (o o' : O) :
    ((s.setObj o (s.obj o).slotGone).obj o').gen = (s.obj o').gen := by
  by_cases same : o' = o
  · subst same
    simp [CapState.setObj]
  · simp [CapState.setObj, same]

/-- Taking an edge off a chain gives no other object an edge. -/
theorem gjCdtEdgeUnlink_head {cdt : Cdt C O} {o' : O} (none : cdt.head o' = none) (o : O)
    (edge : EdgePtr) : (gjCdtEdgeUnlink cdt o edge).head o' = Option.none := by
  unfold gjCdtEdgeUnlink
  by_cases same : o' = o
  · subst same
    have missing : findPrevious cdt.next edge cdtEdgePool (cdt.head o') Option.none =
        Option.none := by
      rw [none]
      rfl
    rw [missing]
    exact none
  · split
    · exact none
    · rename_i previous _
      cases previous with
      | none =>
        show update cdt.head o _ o' = _
        rw [update_of_ne same]
        exact none
      | some previous => exact none

theorem clears_unlinkEdge (may : C → CapSlot O → Prop) (s : CapState C O Q) (o : O)
    (edge : EdgePtr) : Clears may s (unlinkEdge s o edge) :=
  .of_eq rfl rfl rfl fun _ none => gjCdtEdgeUnlink_head none o edge

/-- A revoke leaves its object dead or revoking and changes nothing else of slots and headers. -/
structure Kills (s : CapState C O Q) (o : O) (s' : CapState C O Q) : Prop where
  slot : s'.slot = s.slot
  cSlots : s'.cSlots = s.cSlots
  others : ∀ o', o' ≠ o → s'.obj o' = s.obj o'
  cdt : s'.cdt = s.cdt
  notLive : (s'.obj o).state ≠ .live

theorem kills_gjObjRevokeBegin (s : CapState C O Q) (o : O) :
    Kills s o (gjObjRevokeBegin s o).2 := by
  unfold gjObjRevokeBegin
  split_ifs with gone
  · exact ⟨rfl, rfl, fun _ _ => rfl, rfl, gone⟩
  · have dead : Kills s o (s.setObj o { s.obj o with state := .dead, gen := (s.obj o).gen + 1 }) :=
      { slot := rfl
        cSlots := rfl
        others := fun _ other => update_of_ne other ..
        cdt := rfl
        notLive := by simp [CapState.setObj] }
    simp only
    split
    · exact dead
    · exact { dead with }

variable [DecidableEq C]

theorem clears_invalidateLocked_some (s : CapState C O Q) (c : C) (i : Nat) (o : O) :
    Clears (fun c' slot => c' = c ∧ slot.Names o) s
      (gjCapSlotInvalidateLocked s c i (some o)) := by
  unfold gjCapSlotInvalidateLocked
  split_ifs with invalid
  · exact .refl _ s
  · by_cases other : (s.slot c i).obj ≠ some o
    · simp only [if_pos other]
      exact .refl _ s
    · simp only [if_neg other]
      exact clears_invalidateSlot ⟨rfl, invalid, not_not.mp other⟩ rfl
        (setObj_slotGone_state s o) (setObj_slotGone_gen s o) rfl rfl

theorem clears_invalidateLocked_none (s : CapState C O Q) (c : C) (i : Nat) :
    Clears (fun c' slot => c' = c ∧ slot.capType ≠ .invalid) s
      (gjCapSlotInvalidateLocked s c i none) := by
  unfold gjCapSlotInvalidateLocked
  split_ifs with invalid
  · exact .refl _ s
  · cases (s.slot c i).obj with
    | none =>
      exact clears_invalidateSlot ⟨rfl, invalid⟩ rfl (fun _ => rfl) (fun _ => rfl) rfl rfl
    | some o =>
      exact clears_invalidateSlot ⟨rfl, invalid⟩ rfl (setObj_slotGone_state s o)
        (setObj_slotGone_gen s o) rfl rfl

theorem unlinkSlotLoop_head {o' : O} (o : O) (c : C) (slot fuel : Nat) (edge : Option EdgePtr)
    (cdt : Cdt C O) (none : cdt.head o' = none) :
    (unlinkSlotLoop o c slot fuel edge cdt).head o' = Option.none := by
  induction fuel generalizing edge cdt with
  | zero => exact none
  | succ fuel ih =>
    cases edge with
    | none => exact none
    | some edge =>
      rw [unlinkSlotLoop]
      split_ifs
      · exact ih _ _ (gjCdtEdgeUnlink_head none o edge)
      · exact ih _ _ none

theorem clears_unlinkSlot (may : C → CapSlot O → Prop) (s : CapState C O Q) (o : O) (c : C)
    (i : Nat) : Clears may s (unlinkSlot s o c i) :=
  .of_eq rfl rfl rfl fun _ none => unlinkSlotLoop_head o c i _ _ _ none

theorem installs_installSlot
    (ready : InstallReady s c ref.slot capType o) (gen : ref.gen = (s.slot c ref.slot).gen)
    (charged : QuotaTable Q) :
    Installs s c capType rights o ref
      (installSlot { s with quota := charged } c ref.slot capType rights o) where
  ready := ready
  gen := gen
  slot c' i := by
    rw [installSlot_slot, gen]
  state o' := by
    rw [installSlot_obj]
    by_cases same : o' = o
    · subst same
      rw [update_self]
    · rw [update_of_ne same]
  objGen o' := by
    rw [installSlot_obj]
    by_cases same : o' = o
    · subst same
      rw [update_self]
    · rw [update_of_ne same]
  cSlots := rfl

theorem Installs.tryWire
    (installs : Installs s c capType rights o ref s') (o' : O) (c' : C) (i : Nat) :
    Installs s c capType rights o ref (tryWire s' o' c' i) :=
  { installs with }

end

variable [DecidableEq C] [DecidableEq O] [DecidableEq Q]

/-! ### The wipe of a CNode -/

variable (s)

theorem clears_wipeSlot (c : C) (i : Nat) :
    Clears (InCnode c) s (wipeSlot s c i) := by
  unfold wipeSlot
  split_ifs with invalid
  · exact .refl _ s
  · cases (s.slot c i).obj with
    | none =>
      have refunded : Clears (InCnode c) s (refundSlot s c) := .of_quiet rfl rfl rfl rfl
      exact refunded.trans (clears_invalidateLocked_none _ c i) (InCnode.inUse c)
    | some o =>
      have refunded : Clears (InCnode c) s (refundSlot s c) := .of_quiet rfl rfl rfl rfl
      have unlinked := refunded.trans (clears_unlinkSlot _ _ o c i) (InCnode.inUse c)
      refine unlinked.trans ((clears_invalidateLocked_some _ c i o).mono ?_) (InCnode.inUse c)
      exact fun _ _ picked => ⟨picked.1, picked.2.1⟩

theorem clears_wipeLoop (c : C) (slots : List Nat) (s : CapState C O Q) :
    Clears (InCnode c) s (slots.foldl (fun s i => wipeSlot s c i) s) := by
  induction slots generalizing s with
  | nil => exact .refl _ s
  | cons i rest ih =>
    exact (clears_wipeSlot s c i).trans (ih _) (InCnode.inUse c)

/-- A wipe clears slots of its CNode only. -/
theorem clears_processDeathCnodeWipe (c : C) :
    Clears (InCnode c) s (processDeathCnodeWipe s c) := by
  have wiped := (clears_getD_trylock (InCnode c) s c).trans
    (clears_wipeLoop c (List.range (((gjCnodeTrylock s c).getD s).cSlots c)) _) (InCnode.inUse c)
  unfold processDeathCnodeWipe
  refine wiped.trans ?_ (InCnode.inUse c)
  split_ifs with held
  · exact .of_quiet rfl rfl rfl rfl
  · exact .of_quiet rfl rfl rfl rfl

/-! ### The walk over an object's edges -/

theorem clears_visitEdge (o : O) (edge : EdgePtr) :
    Clears (NamesObj o) s (visitEdge s o edge).2 := by
  unfold visitEdge
  cases (s.cdt.edge edge).cnode with
  | none => exact clears_unlinkEdge _ s o edge
  | some c =>
    simp only
    split_ifs with outside
    · exact clears_unlinkEdge _ s o edge
    · cases lock : gjCnodeTrylock s c with
      | none => exact .refl _ s
      | some locked =>
        have same : Clears (NamesObj o) s locked := by
          have taken := clears_getD_trylock (NamesObj o) s c
          rwa [lock] at taken
        simp only
        split_ifs
        · have refunded : Clears (NamesObj o) locked (refundSlot locked c) :=
            .of_quiet rfl rfl rfl rfl
          have cleared := (clears_invalidateLocked_some (refundSlot locked c) c
            (s.cdt.edge edge).slot o).mono fun _ _ picked => (picked.2 : NamesObj o _ _)
          have unlocked := (same.trans refunded (NamesObj.inUse o)).trans cleared (NamesObj.inUse o)
          exact (unlocked.trans (clears_unlock _ _ c) (NamesObj.inUse o)).trans
            (clears_unlinkEdge _ _ o edge) (NamesObj.inUse o)
        · exact (same.trans (clears_unlock _ _ c) (NamesObj.inUse o)).trans
            (clears_unlinkEdge _ _ o edge) (NamesObj.inUse o)

theorem clears_walkPass (o : O) (bound : WalkBound) (fuel : Nat) (edge : Option EdgePtr)
    (count : WalkCount) (s : CapState C O Q) :
    Clears (NamesObj o) s (walkPass o bound fuel edge count s).2 := by
  induction fuel generalizing edge count s with
  | zero => exact .refl _ s
  | succ fuel ih =>
    cases edge with
    | none => exact .refl _ s
    | some edge =>
      rw [walkPass]
      split_ifs
      · exact (clears_visitEdge s o edge).trans (ih _ _ _) (NamesObj.inUse o)
      · exact .refl _ s

theorem clears_walkPasses (o : O) (bound : WalkBound) (passes : Nat) (count : WalkCount)
    (s : CapState C O Q) : Clears (NamesObj o) s (walkPasses o bound passes count s).2 := by
  induction passes generalizing count s with
  | zero => exact .refl _ s
  | succ passes ih =>
    rw [walkPasses]
    split_ifs with stop
    · exact .refl _ s
    · have walked := clears_walkPass o bound cdtEdgePool (s.cdt.head o) { count with busy := 0 } s
      simp only
      split_ifs
      · exact walked
      · exact walked.trans (ih _ _) (NamesObj.inUse o)

/-- A walk clears slots that name its object only. -/
theorem clears_gjRevokeCdtWalkBatch (o : O) (maxSlots : U32) :
    Clears (NamesObj o) s (gjRevokeCdtWalkBatch s o maxSlots).2 := by
  unfold gjRevokeCdtWalkBatch
  split_ifs
  · exact .refl _ s
  · exact clears_walkPasses o _ _ _ s

/-- An object without edges has nothing to walk. -/
theorem gjRevokeCdtWalkBatch_of_head_none {o : O}
    (none : s.cdt.head o = none) (maxSlots : U32) : (gjRevokeCdtWalkBatch s o maxSlots).2 = s := by
  unfold gjRevokeCdtWalkBatch
  split_ifs
  · rfl
  · show (walkPasses o _ (softRetryMax + 1) _ s).2 = s
    rw [walkPasses, if_pos (.inr none)]

/-! ### The deferred drain -/

section Drain

variable {dead : O → Prop}

theorem clears_drainObject (s : CapState C O Q) {o : O} (isDead : dead o) (maxSlots cleared : U32) :
    Clears (NamesOneOf dead) s (drainObject s o maxSlots cleared).2 := by
  have walks (t : CapState C O Q) (bound : U32) :
      Clears (NamesOneOf dead) t (gjRevokeCdtWalkBatch t o bound).2 :=
    (clears_gjRevokeCdtWalkBatch t o bound).mono fun _ _ names => ⟨o, isDead, names⟩
  unfold drainObject
  simp only
  split_ifs
  · exact (walks s _).trans (walks _ _) (NamesOneOf.inUse dead)
  · exact walks s _

theorem clears_drainEntry (s : CapState C O Q)
    (covers : ∀ o, (s.obj o).state = .dead → s.cdt.head o ≠ none → dead o)
    (entry : Fin revokeQMax) (limit : Nat) (maxSlots cleared : U32) :
    Clears (NamesOneOf dead) s (drainEntry s entry limit maxSlots cleared).2 := by
  unfold drainEntry
  split_ifs with idle
  · exact .refl _ s
  · cases (s.revokeQ.entry entry).obj with
    | none => exact .of_quiet rfl rfl rfl rfl
    | some o =>
      simp only
      by_cases alive : (s.obj o).state ≠ .dead
      · rw [if_pos alive]
        exact .of_quiet rfl rfl rfl rfl
      · split_ifs with done wired
        · exact .refl _ s
        · refine (clears_drainObject s (covers o (not_not.mp alive) wired) maxSlots cleared).trans
            ?_ (NamesOneOf.inUse dead)
          exact .of_quiet rfl rfl rfl rfl
        · exact .of_quiet rfl rfl rfl rfl

theorem clears_drainLoop (limit start : Nat) (maxSlots : U32) (scan : List Nat) (cleared : U32)
    (s : CapState C O Q)
    (covers : ∀ o, (s.obj o).state = .dead → s.cdt.head o ≠ none → dead o) :
    Clears (NamesOneOf dead) s (drainLoop limit start maxSlots scan cleared s).2 := by
  induction scan generalizing cleared s with
  | nil => exact .refl _ s
  | cons scanned rest ih =>
    rw [drainLoop]
    split_ifs
    · exact .refl _ s
    · have drained := clears_drainEntry s covers
        (Fin.ofNat revokeQMax ((start + scanned) % limit)) limit maxSlots cleared
      refine drained.trans (ih _ _ ?_) (NamesOneOf.inUse dead)
      intro o isDead wired
      rw [drained.state] at isDead
      exact covers o isDead fun none => wired (drained.head o none)

end Drain

/-- A drain clears slots that name dead objects with edges only. -/
theorem clears_gjRevokeProcessDeferred (maxSlots : U32) :
    Clears (NamesOneOf fun o => (s.obj o).state = .dead ∧ s.cdt.head o ≠ none) s
      (gjRevokeProcessDeferred s maxSlots).2 := by
  unfold gjRevokeProcessDeferred
  simp only
  split_ifs
  · exact .refl _ s
  · exact clears_drainLoop _ _ _ _ _ s fun _ isDead wired => ⟨isDead, wired⟩

/-! ### Delete, and the derived slot of copy and mint -/

theorem clears_gjCapDelete (c : C) (slot : Nat) (gen : U32) :
    Clears (fun _ slot => slot.capType ≠ .invalid) s (gjCapDelete s c slot gen).2 := by
  unfold gjCapDelete
  cases gjCapResolve s c slot gen with
  | error status => exact .refl _ s
  | ok res =>
    simp only
    split_ifs
    · exact .refl _ s
    · exact .refl _ s
    · have readied : Clears (fun _ slot => slot.capType ≠ .invalid) s
          (refundSlot (unlinkSlot s res.obj c slot) c) :=
        (clears_unlinkSlot _ s res.obj c slot).trans (.of_quiet rfl rfl rfl rfl)
          fun _ _ inUse => inUse
      refine readied.trans ((clears_invalidateLocked_some _ c slot res.obj).mono ?_) ?_
      · exact fun _ _ picked => picked.2.1
      · exact fun _ _ inUse => inUse

theorem installs_gjCapSlotInstall (s : CapState C O Q) (c : C) (slot : Nat) (capType : CapType)
    (rights : U16) (o : O) :
    (∃ code s', gjCapSlotInstall s c slot capType rights o = (.error code, s') ∧
      ∀ may, Clears may s s') ∨
    ∃ ref s', gjCapSlotInstall s c slot capType rights o = (.ok ref, s') ∧ s'.cdt = s.cdt ∧
      Installs s c capType rights o ref s' := by
  rcases gjCapSlotInstall_cases s c slot capType rights o with
    ⟨code, result⟩ | ⟨code, account, result⟩ | ⟨charged, ready, -, result⟩
  · exact .inl ⟨code, s, result, fun may => .refl may s⟩
  · exact .inl ⟨code, _, result, fun may => .of_quiet rfl rfl rfl rfl⟩
  · exact .inr ⟨_, _, result, rfl, installs_installSlot ready rfl charged⟩

theorem installs_gjCapAllocInstall (s : CapState C O Q) (c : C) (capType : CapType)
    (rights : U16) (o : O) :
    (∃ code s', gjCapAllocInstall s c capType rights o = (.error code, s') ∧
      ∀ may, Clears may s s') ∨
    ∃ ref s', gjCapAllocInstall s c capType rights o = (.ok ref, s') ∧ s'.cdt = s.cdt ∧
      Installs s c capType rights o ref s' := by
  rcases gjCapAllocInstall_cases s c capType rights o with ⟨code, failed⟩ | ⟨slot, same⟩
  · exact .inl ⟨code, s, failed, fun may => .refl may s⟩
  · rw [same]
    rcases installs_gjCapSlotInstall s c slot capType rights o with
      failed | succeeded
    · exact .inl failed
    · exact .inr succeeded

theorem installs_installDerived (s : CapState C O Q) (c : C) (res : CapResolved O) (rights : U16) :
    (∃ code s', installDerived s c res rights = (.error code, s') ∧ ∀ may, Clears may s s') ∨
    ∃ ref s', installDerived s c res rights = (.ok ref, s') ∧
      Installs s c res.capType rights res.obj ref s' := by
  unfold installDerived
  rcases installs_gjCapAllocInstall s c res.capType rights res.obj with
    ⟨code, s', result, clears⟩ | ⟨ref, s', result, -, installs⟩
  · rw [result]
    exact .inl ⟨code, s', rfl, clears⟩
  · rw [result]
    exact .inr ⟨ref, _, rfl, installs.tryWire _ _ _⟩

/-- A copy fails and changes no slot, or installs a capability for the object of its source,
which then carries the GRANT right. -/
theorem gjCapCopy_installs (s : CapState C O Q) (c : C) (slot : Nat) (gen : U32) (rights : U16) :
    (∃ code s', gjCapCopy s c slot gen rights = (.error code, s') ∧ ∀ may, Clears may s s') ∨
    ∃ ref s' res rights', gjCapCopy s c slot gen rights = (.ok ref, s') ∧
      gjCapResolve s c slot gen = .ok res ∧ res.rights &&& GjRight.grant ≠ 0 ∧
      Installs s c res.capType rights' res.obj ref s' := by
  unfold gjCapCopy
  cases resolved : gjCapResolve s c slot gen with
  | error status => exact .inl ⟨status, s, rfl, fun may => .refl may s⟩
  | ok res =>
    by_cases noGrant : res.rights &&& GjRight.grant = 0
    · exact .inl ⟨_, s, if_pos noGrant, fun may => .refl may s⟩
    · simp only [if_neg noGrant]
      rcases installs_installDerived s c res (copyRights res.rights rights) with
        failed | ⟨ref, s', result, installs⟩
      · exact .inl failed
      · exact .inr ⟨ref, s', res, _, result, rfl, noGrant, installs⟩

/-- A mint fails and changes no slot, or installs a capability for the object of its source,
which then carries the MINT right. -/
theorem gjCapMint_installs (s : CapState C O Q) (src : C) (slot : Nat) (gen : U32)
    (rights : U16) (dst : Option C) :
    (∃ code s', gjCapMint s src slot gen rights dst = (.error code, s') ∧ ∀ may, Clears may s s') ∨
    ∃ ref s' res rights', gjCapMint s src slot gen rights dst = (.ok ref, s') ∧
      gjCapResolve s src slot gen = .ok res ∧ res.rights &&& GjRight.mint ≠ 0 ∧
      Installs s (dst.getD src) res.capType rights' res.obj ref s' := by
  unfold gjCapMint
  cases resolved : gjCapResolve s src slot gen with
  | error status => exact .inl ⟨status, s, rfl, fun may => .refl may s⟩
  | ok res =>
    by_cases noMint : res.rights &&& GjRight.mint = 0
    · exact .inl ⟨_, s, if_pos noMint, fun may => .refl may s⟩
    · simp only [if_neg noMint]
      by_cases empty : rightsWeaker res.rights rights = 0
      · exact .inl ⟨_, s, if_pos empty, fun may => .refl may s⟩
      · simp only [if_neg empty]
        rcases installs_installDerived s (dst.getD src) res (rightsWeaker res.rights rights) with
          failed | ⟨ref, s', result, installs⟩
        · exact .inl failed
        · exact .inr ⟨ref, s', res, _, result, rfl, noMint, installs⟩

end GreenJade.Cap

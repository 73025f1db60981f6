import GreenJade.Cap.Effect

/-! Owns the decomposition of every call into effects: from a well-formed state a call
leads to its result through effects only, and through no events but those it may emit. -/

namespace GreenJade.Cap

open Function List

universe u v w

variable {C : Type u} {O : Type v} {Q : Type w}
variable {s : CapState C O Q} {c : C} {i : Nat} {o : O} {allowed : Event C O Q → Prop}

/-! ### The checks of resolve and install -/

variable {slot : Nat} {capType : CapType}

/-- What a successful resolve has checked. -/
theorem gjCapResolve_eq_ok {gen : U32} {res : CapResolved O}
    (resolved : gjCapResolve s c slot gen = .ok res) :
    slot < s.cSlots c ∧ gen ≠ 0 ∧ (s.slot c slot).gen = gen ∧ (s.slot c slot).Names res.obj ∧
      (s.obj res.obj).state = .live ∧ (s.obj res.obj).gen = (s.slot c slot).objGen ∧
      res.capType = (s.slot c slot).capType ∧ res.rights = (s.slot c slot).rights := by
  simp only [gjCapResolve, ite_error_eq_ok] at resolved
  obtain ⟨-, null, outside, invalid, stale, resolved⟩ := resolved
  cases pointer : (s.slot c slot).obj with
  | none => simp [pointer] at resolved
  | some o =>
    simp only [pointer] at resolved
    split at resolved
    · rename_i checked
      cases resolved
      obtain ⟨live, gen⟩ := gjObjCheckLive_eq_ok.mp checked
      exact ⟨Nat.not_le.mp outside, null, not_not.mp stale, ⟨invalid, pointer⟩, live, gen, rfl, rfl⟩
    · simp at resolved

theorem installReady_of_check
    (passed : installCheck s c slot capType o = .ok) : InstallReady s c slot capType o := by
  simp only [installCheck, ite_code_eq_ok .errInval nofun, ite_code_eq_ok .errDead nofun,
    ite_code_eq_ok .errPerm nofun, ite_code_eq_ok .errBusy nofun,
    ite_code_eq_ok .errQuota nofun] at passed
  obtain ⟨outside, untyped, dead, -, rootSlot, rootType, busy, -, full, -⟩ := passed
  exact
    { inRange := by omega
      typed := untyped
      rootMeta := by tauto
      free := not_not.mp busy
      live := not_not.mp dead
      room := full }

/-! ### The edges of a slot -/

section

variable [DecidableEq O] (wellFormed : WellFormed s)
include wellFormed

/-- Wiring another slot of the object leaves a slot without edges as it is. -/
theorem WellFormed.unwired_tryWire {c' : C} {i' : Nat}
    (inRange : i' < s.cSlots c') (different : (c', i') ≠ (c, i)) (unwired : Unwired s o c i) :
    Unwired (Cap.tryWire s o c' i') o c i := by
  rcases cdtEdgeTryWire_cases (o := o) wellFormed.sound c' inRange with ⟨-, same⟩ |
      ⟨new, -, becomes, place⟩
  · simpa only [Cap.tryWire, same] using unwired
  · intro edge member
    rw [Cap.tryWire, becomes.chain, update_self] at member
    rcases mem_cons.mp member with rfl | old
    · rw [Cap.tryWire, place]
      simpa using different
    · rw [Cap.tryWire, becomes.place o edge old ⟨o, by simp [old]⟩]
      exact unwired edge old

/-- After an edge is unlinked nothing on its chain names the slot it named. -/
theorem WellFormed.unwired_unlinkEdge {edge : EdgePtr}
    (listed : edge ∈ s.cdt.chain o) (place : s.cdt.place edge = (some c, i)) :
    Unwired (Cap.unlinkEdge s o edge) o c i := by
  have becomes := gjCdtEdgeUnlink_becomes wellFormed.sound o edge
  intro other member same
  rw [Cap.unlinkEdge, becomes.chain, update_self] at member
  obtain ⟨before, differs⟩ := mem_filter.mp member
  rw [Cap.unlinkEdge, becomes.place o other before ⟨o, by simpa using member⟩] at same
  exact (by simpa using differs : other ≠ edge)
    (wellFormed.distinct o other before edge listed (same.trans place.symm))

theorem unlinkEdge_chain (edge : EdgePtr) :
    (unlinkEdge s o edge).cdt.chain o = (s.cdt.chain o).filter (· ≠ edge) := by
  rw [unlinkEdge, (gjCdtEdgeUnlink_becomes wellFormed.sound o edge).chain, update_self]

variable [DecidableEq C]

/-- After `gj_cdt_unlink_slot` the object has no edge for the slot. -/
theorem WellFormed.unwired_unlinkSlot (o : O) (c : C) (i : Nat) :
    Unwired (Cap.unlinkSlot s o c i) o c i := by
  have becomes := gjCdtUnlinkSlot_becomes wellFormed.sound o c i
  intro edge member
  rw [Cap.unlinkSlot, becomes.chain, update_self] at member
  obtain ⟨before, differs⟩ := mem_filter.mp member
  rw [Cap.unlinkSlot, becomes.place o edge before ⟨o, by simpa using member⟩]
  simpa using differs

/-- Unlinking other slots adds no edge. -/
theorem WellFormed.unwired_of_unlinkSlot {c' : C} {i' : Nat}
    (unwired : Unwired s o c i) : Unwired (Cap.unlinkSlot s o c' i') o c i := by
  have becomes := gjCdtUnlinkSlot_becomes wellFormed.sound o c' i'
  intro edge member
  rw [Cap.unlinkSlot, becomes.chain, update_self] at member
  have before := mem_of_mem_filter member
  rw [Cap.unlinkSlot, becomes.place o edge before ⟨o, by simpa using member⟩]
  exact unwired edge before

/-- Right after an install the new slot names the live object and has no edge. -/
theorem wire_installed (rights : U16)
    (charged : QuotaTable Q) (ready : InstallReady s c i capType o) :
    (installSlot { s with quota := charged } c i capType rights o).Holds c i o ∧
      ((installSlot { s with quota := charged } c i capType rights o).obj o).state = .live ∧
      Unwired (installSlot { s with quota := charged } c i capType rights o) o c i := by
  refine ⟨⟨ready.inRange, ?_⟩, ?_, ?_⟩
  · rw [installSlot_slot, if_pos ⟨rfl, rfl⟩]
    exact ⟨ready.typed, rfl⟩
  · simpa using ready.live
  · exact wellFormed.unwired_of_not_names fun names => names.1 ready.free

end

/-! ### Installs -/

variable [DecidableEq C] [DecidableEq O] [DecidableEq Q]

/-- An install fails without a change, fails with one account's exhaustion counted, or
commits to a slot it has checked. -/
theorem gjCapSlotInstall_cases (s : CapState C O Q) (c : C) (slot : Nat) (capType : CapType)
    (rights : U16) (o : O) :
    (∃ code, gjCapSlotInstall s c slot capType rights o = (.error code, s)) ∨
    (∃ code account, gjCapSlotInstall s c slot capType rights o = (.error code,
      { s with quota := update s.quota account (s.quota account).exhausted })) ∨
    ∃ charged, InstallReady s c slot capType o ∧
      gjCapQuotaSlotCharge s.quota (s.quotaAccount c) = (.ok, charged) ∧
      gjCapSlotInstall s c slot capType rights o = (.ok { slot, gen := (s.slot c slot).gen },
        installSlot { s with quota := charged } c slot capType rights o) := by
  unfold gjCapSlotInstall
  split
  · rename_i passed
    cases charge : gjCapQuotaSlotCharge s.quota (s.quotaAccount c) with
    | mk status charged =>
      by_cases paid : status = .ok
      · subst paid
        have slotNow :
            (installSlot { s with quota := charged } c slot capType rights o).slot c slot =
              { s.slot c slot with capType, rights, objGen := (s.obj o).gen, obj := some o } := by
          rw [installSlot_slot, if_pos ⟨rfl, rfl⟩]
        exact .inr (.inr ⟨charged, installReady_of_check passed, rfl, by simp only [slotNow]⟩)
      · obtain ⟨rfl, account, rfl⟩ := gjCapQuotaSlotCharge_fail charge paid
        exact .inr (.inl ⟨_, account, rfl⟩)
  · exact .inl ⟨_, rfl⟩

variable {maxSlots : U32} {rights : U16}

theorem gjCapSlotInstall_leads
    (quiet : allowed .quiet) (install : allowed (.install c slot capType rights o)) :
    Leads allowed s (gjCapSlotInstall s c slot capType rights o).2 := by
  rcases gjCapSlotInstall_cases s c slot capType rights o with
    ⟨code, result⟩ | ⟨code, account, result⟩ | ⟨charged, ready, paid, result⟩
  · rw [result]
    exact .refl
  · rw [result]
    exact .single .exhaust quiet
  · rw [result]
    exact .single (.install ready paid) install

/-- The allocator fails without a change or installs at one slot. -/
theorem gjCapAllocInstall_cases (s : CapState C O Q) (c : C) (capType : CapType) (rights : U16)
    (o : O) :
    (∃ code, gjCapAllocInstall s c capType rights o = (.error code, s)) ∨
    ∃ slot, gjCapAllocInstall s c capType rights o =
      gjCapSlotInstall s c slot capType rights o := by
  unfold gjCapAllocInstall
  split_ifs
  · exact .inl ⟨_, rfl⟩
  · exact .inl ⟨_, rfl⟩
  · exact .inr ⟨_, rfl⟩
  · cases firstFreeSlot s c with
    | none => exact .inl ⟨_, rfl⟩
    | some slot => exact .inr ⟨slot, rfl⟩

theorem gjCapAllocInstall_leads (quiet : allowed .quiet)
    (install : ∀ slot, allowed (.install c slot capType rights o)) :
    Leads allowed s (gjCapAllocInstall s c capType rights o).2 := by
  rcases gjCapAllocInstall_cases s c capType rights o with ⟨code, result⟩ | ⟨slot, result⟩
  · rw [result]
    exact .refl
  · rw [result]
    exact gjCapSlotInstall_leads quiet (install slot)

/-- A successful allocation has committed to the slot of the handle it returns. -/
theorem gjCapAllocInstall_eq_ok {ref : CapRef} {installed : CapState C O Q}
    (success : gjCapAllocInstall s c capType rights o = (.ok ref, installed)) :
    ∃ charged, InstallReady s c ref.slot capType o ∧
      gjCapQuotaSlotCharge s.quota (s.quotaAccount c) = (.ok, charged) ∧
      ref.gen = (s.slot c ref.slot).gen ∧
      installed = installSlot { s with quota := charged } c ref.slot capType rights o := by
  rcases gjCapAllocInstall_cases s c capType rights o with ⟨code, failed⟩ | ⟨slot, same⟩
  · simp [failed] at success
  · rw [same] at success
    rcases gjCapSlotInstall_cases s c slot capType rights o with
      ⟨code, result⟩ | ⟨code, account, result⟩ | ⟨charged, ready, paid, result⟩
    · simp [result] at success
    · simp [result] at success
    · rw [result] at success
      obtain ⟨rfl, rfl⟩ : _ ∧ _ := by simpa using success
      exact ⟨charged, ready, paid, rfl, rfl⟩

/-! ### Derived slots -/

section

variable (wellFormed : WellFormed s)
include wellFormed

variable {rights : U16}

theorem installDerived_leads {res : CapResolved O} (quiet : allowed .quiet)
    (install : ∀ slot, allowed (.install c slot res.capType rights res.obj)) :
    Leads allowed s (installDerived s c res rights).2 := by
  have leads : Leads allowed s (gjCapAllocInstall s c res.capType rights res.obj).2 :=
    gjCapAllocInstall_leads quiet install
  unfold installDerived
  rcases outcome : gjCapAllocInstall s c res.capType rights res.obj with ⟨code | ref, installed⟩
  · rwa [outcome] at leads
  · rw [outcome] at leads
    obtain ⟨charged, ready, -, -, rfl⟩ := gjCapAllocInstall_eq_ok outcome
    obtain ⟨holds, live, unwired⟩ := wire_installed wellFormed rights charged ready
    exact leads.tail (.wire holds live unwired) quiet

theorem gjCapMint_leads {gen : U32} {dst : Option C} (quiet : allowed .quiet)
    (install : ∀ res i, gjCapResolve s c slot gen = .ok res →
      allowed (.install (dst.getD c) i res.capType (rightsWeaker res.rights rights) res.obj)) :
    Leads allowed s (gjCapMint s c slot gen rights dst).2 := by
  unfold gjCapMint
  split
  · exact .refl
  · rename_i res resolved
    split_ifs
    · exact .refl
    · exact .refl
    · exact installDerived_leads wellFormed quiet fun i => install res i resolved

theorem gjCapCopy_leads {gen : U32} (quiet : allowed .quiet)
    (install : ∀ res i, gjCapResolve s c slot gen = .ok res →
      allowed (.install c i res.capType (copyRights res.rights rights) res.obj)) :
    Leads allowed s (gjCapCopy s c slot gen rights).2 := by
  unfold gjCapCopy
  split
  · exact .refl
  · rename_i res resolved
    split_ifs with grant
    · exact .refl
    · exact installDerived_leads wellFormed quiet fun i => install res i resolved

end

/-- The refund and the guarded invalidate of a slot without edges are one clearing effect. -/
theorem Leads.clear {t : CapState C O Q} (leads : Leads allowed s t) (holds : t.Holds c i o)
    (unwired : Unwired t o c i) (clear : allowed (.clear c i)) :
    Leads allowed s (gjCapSlotInvalidateLocked (refundSlot t c) c i (some o)) := by
  rw [invalidateLocked_eq_clearSlot _ _ _ _ holds.2]
  exact leads.tail (.clear holds unwired) clear

section

variable (wellFormed : WellFormed s)
include wellFormed

/-- The tail of a move: the old slot loses its edge, the new one is wired, and the old slot
is cleared. -/
theorem retarget_leads {source dest : Nat}
    (holdsDest : s.Holds c dest o) (live : (s.obj o).state = .live)
    (unwired : Unwired s o c dest) (holdsSource : s.Holds c source o) (different : dest ≠ source)
    (quiet : allowed .quiet) (clear : allowed (.clear c source)) :
    Leads allowed s (gjCapSlotInvalidateLocked
      (refundSlot (tryWire (unlinkSlot s o c source) o c dest) c) c source (some o)) := by
  have unlinked : Leads allowed s (unlinkSlot s o c source) := .single .unlinkSlot quiet
  have wired : Leads allowed s (tryWire (unlinkSlot s o c source) o c dest) :=
    unlinked.tail (.wire holdsDest live (wellFormed.unwired_of_unlinkSlot unwired)) quiet
  have sourceUnwired : Unwired (tryWire (unlinkSlot s o c source) o c dest) o c source :=
    (unlinked.wellFormed wellFormed).unwired_tryWire holdsDest.1 (by simpa using different)
      (wellFormed.unwired_unlinkSlot o c source)
  exact wired.clear holdsSource sourceUnwired clear

/-- The source of a move and its destination are different slots: one was occupied and the
other free. -/
theorem gjCapMove_leads {gen : U32}
    (quiet : allowed .quiet) (clear : allowed (.clear c slot))
    (install : ∀ res i, gjCapResolve s c slot gen = .ok res →
      allowed (.install c i res.capType res.rights res.obj)) :
    Leads allowed s (gjCapMove s c slot gen).2 := by
  unfold gjCapMove
  split
  · exact .refl
  · rename_i res resolved
    split_ifs
    · exact .refl
    · exact .refl
    · have leads : Leads allowed s (gjCapAllocInstall s c res.capType res.rights res.obj).2 :=
        gjCapAllocInstall_leads quiet fun i => install res i resolved
      rcases outcome : gjCapAllocInstall s c res.capType res.rights res.obj with
        ⟨code | ref, installed⟩
      · rwa [outcome] at leads
      · rw [outcome] at leads
        have wellFormedInstalled := leads.wellFormed wellFormed
        obtain ⟨charged, ready, -, -, rfl⟩ := gjCapAllocInstall_eq_ok outcome
        obtain ⟨inTable, -, -, names, -⟩ := gjCapResolve_eq_ok resolved
        have different : ref.slot ≠ slot := fun same => names.1 (same ▸ ready.free)
        obtain ⟨holds, live, unwired⟩ := wire_installed wellFormed res.rights charged ready
        refine leads.trans (retarget_leads wellFormedInstalled holds live unwired ⟨inTable, ?_⟩
          different quiet clear)
        rwa [installSlot_slot, if_neg fun same => different same.2.symm]

theorem gjCapDelete_leads {gen : U32}
    (quiet : allowed .quiet) (clear : allowed (.clear c slot)) :
    Leads allowed s (gjCapDelete s c slot gen).2 := by
  unfold gjCapDelete
  split
  · exact .refl
  · rename_i res resolved
    split_ifs
    · exact .refl
    · exact .refl
    · obtain ⟨inTable, -, -, names, -⟩ := gjCapResolve_eq_ok resolved
      have unlinked : Leads allowed s (unlinkSlot s res.obj c slot) := .single .unlinkSlot quiet
      exact unlinked.clear ⟨inTable, names⟩ (wellFormed.unwired_unlinkSlot _ _ _) clear

end

/-! ### Scans over the slots of one CNode -/

/-- The scan clears the slot before it unlinks the edge; the two writes commute. -/
theorem invalidateObjLoop_leads (quiet : allowed .quiet)
    (clear : ∀ i, allowed (.clear c i)) (slots : List Nat) :
    ∀ (cleared : U32) (s : CapState C O Q), WellFormed s →
      Leads allowed s (invalidateObjLoop c o maxSlots slots cleared s).2 := by
  induction slots with
  | nil => exact fun cleared s _ => .refl
  | cons i rest ih =>
    intro cleared s wellFormed
    rw [invalidateObjLoop]
    split_ifs with spent skipped
    · exact .refl
    · exact ih cleared s wellFormed
    · obtain ⟨occupied, pointer⟩ := not_or.mp skipped
      have names : (s.slot c i).Names o := ⟨occupied, not_not.mp pointer⟩
      have unlinked : Leads allowed s (unlinkSlot s o c i) := .single .unlinkSlot quiet
      have clears : Leads allowed s (clearSlot (unlinkSlot s o c i) c i o) :=
        unlinked.tail (.clear ⟨wellFormed.inRange c i occupied, names⟩
          (wellFormed.unwired_unlinkSlot o c i)) (clear i)
      rw [invalidateLocked_eq_clearSlot _ _ _ _ names]
      exact clears.trans (ih _ _ (clears.wellFormed wellFormed))

theorem gjCnodeTrylock_leads {locked : CapState C O Q} (quiet : allowed .quiet)
    (taken : gjCnodeTrylock s c = some locked) : Leads allowed s locked := by
  unfold gjCnodeTrylock at taken
  split_ifs at taken
  cases taken
  exact .single .lock quiet

theorem gjCnodeInvalidateObjSlots_leads (wellFormed : WellFormed s)
    (quiet : allowed .quiet) (clear : ∀ i, allowed (.clear c i)) :
    Leads allowed s (gjCnodeInvalidateObjSlots s c o maxSlots).2 := by
  unfold gjCnodeInvalidateObjSlots
  split_ifs
  · exact .refl
  · split
    · exact .refl
    · rename_i locked taken
      have held : Leads allowed s locked := gjCnodeTrylock_leads quiet taken
      have scanned : Leads allowed locked
          (invalidateObjLoop c o maxSlots (List.range (locked.cSlots c)) 0 locked).2 :=
        invalidateObjLoop_leads quiet clear _ _ _ (held.wellFormed wellFormed)
      exact (held.trans scanned).tail .lock quiet

theorem wipeSlot_leads (wellFormed : WellFormed s) (quiet : allowed .quiet)
    (clear : allowed (.clear c i)) : Leads allowed s (wipeSlot s c i) := by
  unfold wipeSlot
  split_ifs with free
  · exact .refl
  · obtain ⟨o, pointer⟩ := wellFormed.pointed c i free
    have names : (s.slot c i).Names o := ⟨free, pointer⟩
    have unlinked : Leads allowed s (unlinkSlot s o c i) := .single .unlinkSlot quiet
    simp only [pointer]
    exact unlinked.clear ⟨wellFormed.inRange c i free, names⟩
      (wellFormed.unwired_unlinkSlot o c i) clear

theorem wipeLoop_leads (quiet : allowed .quiet) (clear : ∀ i, allowed (.clear c i))
    (slots : List Nat) :
    ∀ s : CapState C O Q, WellFormed s →
      Leads allowed s (slots.foldl (fun s i => wipeSlot s c i) s) := by
  induction slots with
  | nil => exact fun s _ => .refl
  | cons i rest ih =>
    intro s wellFormed
    have wiped : Leads allowed s (wipeSlot s c i) := wipeSlot_leads wellFormed quiet (clear i)
    exact wiped.trans (ih _ (wiped.wellFormed wellFormed))

theorem wipeSlot_capType (wellFormed : WellFormed s) (j : Nat) :
    ((wipeSlot s c i).slot c j).capType = if j = i then .invalid else (s.slot c j).capType := by
  unfold wipeSlot
  split_ifs with free here here
  · rw [here, free]
  · rfl
  all_goals
    obtain ⟨o, pointer⟩ := wellFormed.pointed c i free
    have cleared := invalidateLocked_eq_clearSlot (unlinkSlot s o c i) c i o ⟨free, pointer⟩
    simp only [pointer]
    change ((gjCapSlotInvalidateLocked (refundSlot (unlinkSlot s o c i) c) c i
      (some o)).slot c j).capType = _
    rw [cleared, clearSlot_slot]
    simp [here, unlinkSlot, gjCapSlotInvalidate]

/-- After the loop the slots it went over are free, and no slot has become occupied. -/
theorem wipeLoop_empties (slots : List Nat) :
    ∀ s : CapState C O Q, WellFormed s → ∀ j, j ∈ slots ∨ (s.slot c j).capType = .invalid →
      ((slots.foldl (fun s i => wipeSlot s c i) s).slot c j).capType = .invalid := by
  induction slots with
  | nil => exact fun s _ j free => free.resolve_left not_mem_nil
  | cons i rest ih =>
    intro s wellFormed j covered
    have wiped : Leads (fun _ => True) s (wipeSlot s c i) :=
      wipeSlot_leads wellFormed trivial trivial
    apply ih _ (wiped.wellFormed wellFormed) j
    rw [wipeSlot_capType wellFormed]
    split_ifs with here
    · exact .inr rfl
    · exact covered.imp_left fun member => (mem_cons.mp member).resolve_left here

theorem processDeathCnodeWipe_leads (wellFormed : WellFormed s) (quiet : allowed .quiet)
    (clear : ∀ i, allowed (.clear c i)) : Leads allowed s (processDeathCnodeWipe s c) := by
  have held : Leads allowed s ((gjCnodeTrylock s c).getD s) := by
    cases taken : gjCnodeTrylock s c with
    | none => exact .refl
    | some locked => exact gjCnodeTrylock_leads quiet taken
  have lockedFormed := held.wellFormed wellFormed
  have wiped := held.trans (wipeLoop_leads quiet clear
    (List.range (((gjCnodeTrylock s c).getD s).cSlots c)) _ lockedFormed)
  have empty := fun j => wipeLoop_empties (c := c)
    (List.range (((gjCnodeTrylock s c).getD s).cSlots c)) _ lockedFormed j <| by
      by_contra occupied
      push Not at occupied
      exact occupied.1 (mem_range.mpr (lockedFormed.inRange c j occupied.2))
  unfold processDeathCnodeWipe
  split_ifs
  · exact wiped.tail (.detachEmpty empty) quiet
  · exact (wiped.tail .lock quiet).tail (.detachEmpty empty) quiet

/-! ### Revoke -/

theorem gjObjRevokeBegin_leads (kill : allowed (.kill o (s.revokeQ.push o).isSome)) :
    Leads allowed s (gjObjRevokeBegin s o).2 := by
  dsimp only [gjObjRevokeBegin]
  split_ifs with notLive
  · exact .refl
  · have live : (s.obj o).state = .live := not_not.mp notLive
    have sameQueue : (s.setObj o { s.obj o with
        state := .dead, gen := (s.obj o).gen + 1 }).revokeQ = s.revokeQ := rfl
    rw [sameQueue]
    cases pushed : s.revokeQ.push o with
    | none =>
      rw [pushed] at kill
      exact .single (.killMissed live pushed) kill
    | some queue =>
      rw [pushed] at kill
      exact .single (.killQueued live pushed) kill

/-- The chain after a visit: a busy edge stays, any other outcome removes exactly it. -/
def chainAfter (nodes : List EdgePtr) (edge : EdgePtr) : EdgeVisit → List EdgePtr
  | .busy => nodes
  | .stale => nodes.filter (· ≠ edge)
  | .cleared => nodes.filter (· ≠ edge)

theorem visitEdge_leads (wellFormed : WellFormed s) {edge : EdgePtr}
    (listed : edge ∈ s.cdt.chain o) (quiet : allowed .quiet)
    (clear : ∀ c i, allowed (.clear c i)) :
    Leads allowed s (visitEdge s o edge).2 ∧
      (visitEdge s o edge).2.cdt.chain o =
        chainAfter (s.cdt.chain o) edge (visitEdge s o edge).1 := by
  unfold visitEdge
  split
  · exact ⟨.single .unlinkEdge quiet, unlinkEdge_chain wellFormed edge⟩
  · rename_i c cnode
    dsimp only
    split_ifs with outside
    · exact ⟨.single .unlinkEdge quiet, unlinkEdge_chain wellFormed edge⟩
    · split
      · exact ⟨.refl, rfl⟩
      · rename_i locked taken
        have held : Leads allowed s locked := gjCnodeTrylock_leads quiet taken
        have wellFormedLocked := held.wellFormed wellFormed
        obtain ⟨-, rfl⟩ : _ ∧ { s with softLock := update s.softLock c true } = locked := by
          simpa [gjCnodeTrylock] using taken
        split_ifs with names
        · -- lock, unlink, clear, unlock; the source clears before it unlinks
          have unlinked : Leads allowed s (unlinkEdge _ o edge) := held.tail .unlinkEdge quiet
          have cleared : Leads allowed s (clearSlot (unlinkEdge _ o edge) c _ o) :=
            unlinked.tail (.clear ⟨Nat.not_le.mp outside, names⟩
              (wellFormedLocked.unwired_unlinkEdge listed (by simp [Cdt.place, cnode]))) (clear c _)
          rw [invalidateLocked_eq_clearSlot _ _ _ _ names]
          exact ⟨cleared.tail .lock quiet, unlinkEdge_chain wellFormed edge⟩
        · exact ⟨(held.tail .lock quiet).tail .unlinkEdge quiet, unlinkEdge_chain wellFormed edge⟩

/-- The walk's loop invariant: what is behind the saved pointer is still the tail of the
chain, whether the visited edge was kept or freed. -/
theorem walkPass_leads {bound : WalkBound} (quiet : allowed .quiet)
    (clear : ∀ c i, allowed (.clear c i)) (rest : List EdgePtr) :
    ∀ (kept : List EdgePtr) (fuel : Nat) (count : WalkCount) (s : CapState C O Q), WellFormed s →
      s.cdt.chain o = kept ++ rest →
      Leads allowed s (walkPass o bound fuel rest.head? count s).2 := by
  induction rest with
  | nil =>
    intro kept fuel count s _ _
    cases fuel <;> exact .refl
  | cons edge rest ih =>
    intro kept fuel count s wellFormed split
    cases fuel with
    | zero => exact .refl
    | succ fuel =>
      have chained : LinkedChain.IsChain s.cdt.next (s.cdt.head o) (kept ++ edge :: rest) :=
        split ▸ wellFormed.sound.chained o
      have saved : s.cdt.next edge = rest.head? := chained.suffix.next_eq
      have listed : edge ∈ s.cdt.chain o := by simp [split]
      obtain ⟨visited, chainNow⟩ := visitEdge_leads wellFormed listed quiet clear
      rw [head?_cons, walkPass, saved]
      split_ifs
      · have unrepeated := chained.nodup
        rw [nodup_middle, nodup_cons, mem_append, not_or] at unrepeated
        have without : (s.cdt.chain o).filter (· ≠ edge) = kept ++ rest := by
          simp only [split, filter_append, filter_cons]
          rw [filter_ne_eq_self unrepeated.1.1, filter_ne_eq_self unrepeated.1.2]
          simp
        have wellFormedNow := visited.wellFormed wellFormed
        apply visited.trans
        cases outcome : (visitEdge s o edge).1 with
        | busy =>
          apply ih (kept ++ [edge]) fuel _ _ wellFormedNow
          rw [chainNow, outcome, chainAfter, split]
          simp
        | stale | cleared =>
          apply ih kept fuel _ _ wellFormedNow
          rw [chainNow, outcome, chainAfter, without]
      · exact .refl

theorem walkPasses_leads {bound : WalkBound} (quiet : allowed .quiet)
    (clear : ∀ c i, allowed (.clear c i)) (passes : Nat) :
    ∀ (count : WalkCount) (s : CapState C O Q), WellFormed s →
      Leads allowed s (walkPasses o bound passes count s).2 := by
  induction passes with
  | zero => exact fun count s _ => .refl
  | succ passes ih =>
    intro count s wellFormed
    have pass : Leads allowed s
        (walkPass o bound cdtEdgePool (s.cdt.head o) { count with busy := 0 } s).2 := by
      rw [(wellFormed.sound.chained o).head_eq]
      exact walkPass_leads quiet clear _ [] _ _ _ wellFormed rfl
    dsimp only [walkPasses]
    split_ifs
    · exact .refl
    · exact pass
    · exact pass.trans (ih _ _ (pass.wellFormed wellFormed))

theorem gjRevokeCdtWalkBatch_leads (wellFormed : WellFormed s)
    (quiet : allowed .quiet) (clear : ∀ c i, allowed (.clear c i)) :
    Leads allowed s (gjRevokeCdtWalkBatch s o maxSlots).2 := by
  unfold gjRevokeCdtWalkBatch
  split_ifs
  · exact .refl
  · exact walkPasses_leads quiet clear _ _ _ wellFormed

theorem drainObject_leads (wellFormed : WellFormed s) {cleared : U32}
    (quiet : allowed .quiet) (clear : ∀ c i, allowed (.clear c i)) :
    Leads allowed s (drainObject s o maxSlots cleared).2 := by
  have first : Leads allowed s (gjRevokeCdtWalkBatch s o (maxSlots - cleared)).2 :=
    gjRevokeCdtWalkBatch_leads wellFormed quiet clear
  dsimp only [drainObject]
  split_ifs
  · exact first.trans (gjRevokeCdtWalkBatch_leads (first.wellFormed wellFormed) quiet clear)
  · exact first

theorem drainEntry_leads (wellFormed : WellFormed s) (entry : Fin revokeQMax) (limit : Nat)
    (maxSlots cleared : U32) (quiet : allowed .quiet) (clear : ∀ c i, allowed (.clear c i)) :
    Leads allowed s (drainEntry s entry limit maxSlots cleared).2 := by
  dsimp only [drainEntry]
  split_ifs
  · exact .refl
  · cases held : (s.revokeQ.entry entry).obj with
    | none =>
      refine .single (.dropEntry fun o same => ?_) quiet
      simp [held] at same
    | some o =>
      dsimp only
      split_ifs with notDead
      · refine .single (.dropEntry fun o' same => .inl ?_) quiet
        obtain rfl : o = o' := by simpa [held] using same
        exact notDead
      · exact .refl
      · exact (drainObject_leads wellFormed quiet clear).tail .cursor quiet
      · exact .single .cursor quiet

theorem drainLoop_leads {limit start : Nat} (quiet : allowed .quiet)
    (clear : ∀ c i, allowed (.clear c i)) (scan : List Nat) :
    ∀ (cleared : U32) (s : CapState C O Q), WellFormed s →
      Leads allowed s (drainLoop limit start maxSlots scan cleared s).2 := by
  induction scan with
  | nil => exact fun cleared s _ => .refl
  | cons scanned rest ih =>
    intro cleared s wellFormed
    rw [drainLoop]
    split_ifs
    · exact .refl
    · have entry := drainEntry_leads wellFormed
        (Fin.ofNat revokeQMax ((start + scanned) % limit)) limit maxSlots cleared quiet clear
      exact entry.trans (ih _ _ (entry.wellFormed wellFormed))

theorem gjRevokeProcessDeferred_leads (wellFormed : WellFormed s)
    (quiet : allowed .quiet) (clear : ∀ c i, allowed (.clear c i)) :
    Leads allowed s (gjRevokeProcessDeferred s maxSlots).2 := by
  dsimp only [gjRevokeProcessDeferred]
  split_ifs
  · exact .refl
  · exact drainLoop_leads quiet clear _ _ _ wellFormed

/-- Dropping entries keeps the object's hygiene finished, so every later entry of it may be
dropped too. -/
theorem dropObject_leads (quiet : allowed .quiet) (entries : List (Fin revokeQMax)) :
    ∀ s : CapState C O Q, HygieneDone s o → Leads allowed s (dropObject s o entries) := by
  induction entries with
  | nil => exact fun s _ => .refl
  | cons i rest ih =>
    intro s done
    rw [dropObject, foldl_cons]
    split_ifs with holds
    · have drop : Leads allowed s (dropEntry s i) := by
        refine .single (.dropEntry fun o' same => .inr ?_) quiet
        obtain rfl : o = o' := by simpa [holds] using same
        exact done
      exact drop.trans (ih _ done)
    · exact ih s done

theorem gjObjReclaim_leads (quiet : allowed .quiet) : Leads allowed s (gjObjReclaim s o).2 := by
  unfold gjObjReclaim
  split_ifs with ready
  · simp only [gjObjReclaimReady, decide_eq_true_eq] at ready
    dsimp only
    exact dropObject_leads quiet _ s ⟨ready.2.1, ready.2.2.1⟩
  · exact .refl

/-! ### Calls -/

/-- The events a call may emit besides quiet ones. -/
def CapOp.Emits (s : CapState C O Q) : CapOp C O Q → Event C O Q → Prop
  | _, .quiet => True
  | .slotInstall c i capType rights o, event => event = .install c i capType rights o
  | .allocInstall c capType rights o, event => ∃ i, event = .install c i capType rights o
  | .mint src slot gen rights dst, event => ∃ res i, gjCapResolve s src slot gen = .ok res ∧
      event = .install (dst.getD src) i res.capType (rightsWeaker res.rights rights) res.obj
  | .copy c slot gen rights, event => ∃ res i, gjCapResolve s c slot gen = .ok res ∧
      event = .install c i res.capType (copyRights res.rights rights) res.obj
  | .move c slot gen, event => event = .clear c slot ∨
      ∃ res i, gjCapResolve s c slot gen = .ok res ∧
        event = .install c i res.capType res.rights res.obj
  | .delete c slot _, event => event = .clear c slot
  | .invalidateObjSlots c _ _, event => ∃ i, event = .clear c i
  | .deathWipe c, event => ∃ i, event = .clear c i
  | .quotaAttach c account, event => event = .attach c account
  | .quotaSetParent account parent, event => event = .setParent account parent
  | .revokeBegin o, event => event = .kill o (s.revokeQ.push o).isSome
  | .walkBatch _ _, event => ∃ c i, event = .clear c i
  | .processDeferred _, event => ∃ c i, event = .clear c i
  | _, _ => False

/-- Every call is a sequence of effects that it may emit. -/
theorem CapOp.exec_leads (wellFormed : WellFormed s) (op : CapOp C O Q) :
    Leads (op.Emits s) s (op.exec s).2 := by
  have quiet : op.Emits s .quiet := by cases op <;> trivial
  cases op with
  | resolve c slot gen =>
    dsimp only [CapOp.exec]
    split <;> exact .refl
  | slotInstall c slot capType rights o => exact gjCapSlotInstall_leads quiet rfl
  | allocInstall c capType rights o => exact gjCapAllocInstall_leads quiet fun i => ⟨i, rfl⟩
  | mint src slot gen rights dst =>
    exact gjCapMint_leads wellFormed quiet fun res i resolved => ⟨res, i, resolved, rfl⟩
  | copy c slot gen rights =>
    exact gjCapCopy_leads wellFormed quiet fun res i resolved => ⟨res, i, resolved, rfl⟩
  | move c slot gen =>
    exact gjCapMove_leads wellFormed quiet (.inl rfl)
      fun res i resolved => .inr ⟨res, i, resolved, rfl⟩
  | delete c slot gen => exact gjCapDelete_leads wellFormed quiet rfl
  | invalidateObjSlots c o maxSlots =>
    exact gjCnodeInvalidateObjSlots_leads wellFormed quiet fun i => ⟨i, rfl⟩
  | deathWipe c =>
    exact processDeathCnodeWipe_leads wellFormed quiet fun i => ⟨i, rfl⟩
  | trylock c =>
    dsimp only [CapOp.exec]
    cases taken : gjCnodeTrylock s c with
    | none => exact .refl
    | some locked => exact gjCnodeTrylock_leads quiet taken
  | unlock c => exact .single .lock quiet
  | quotaAttach c account => exact .single .attach rfl
  | quotaSetParent account parent => exact .single .setParent rfl
  | revokeBegin o => exact gjObjRevokeBegin_leads rfl
  | walkBatch o maxSlots =>
    exact gjRevokeCdtWalkBatch_leads wellFormed quiet fun c i => ⟨c, i, rfl⟩
  | processDeferred maxSlots =>
    exact gjRevokeProcessDeferred_leads wellFormed quiet fun c i => ⟨c, i, rfl⟩
  | reclaim o => exact gjObjReclaim_leads quiet

end GreenJade.Cap

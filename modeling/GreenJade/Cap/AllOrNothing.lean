import GreenJade.Cap.Accounting
import GreenJade.Cap.QuotaOccupancy

/-! Owns that the operations on handles are all-or-nothing: a mint, copy, move or delete that fails
changes no slot, header, edge or count of used slots, and a move that succeeds changes two slots and
no count. The exhaustion counters of accounts and the self-tests are not part of this. -/

namespace GreenJade.Cap

open LinkedChain ParentWalk Function

universe u v w

variable {C : Type u} {O : Type v} {Q : Type w}

/-- Slots, headers, the derivation tree with its edge pool, and the counts of used slots are as
before. -/
structure Untouched (s s' : CapState C O Q) : Prop where
  slot : s'.slot = s.slot
  obj : s'.obj = s.obj
  cdt : s'.cdt = s.cdt
  used : ∀ q, (s'.quota q).used = (s.quota q).used

/-- No account is its own ancestor within reach of a charge. -/
def Acyclic (s : CapState C O Q) : Prop := NoShortCycle (parentLinks s.quota) quotaDepthMax

/-- A capability has gone from its slot to the slot of the returned handle. -/
structure Moved (s : CapState C O Q) (c : C) (i : Nat) (ref : CapRef) (s' : CapState C O Q) :
    Prop where
  occupied : (s.slot c i).capType ≠ .invalid
  free : (s.slot c ref.slot).capType = .invalid
  freed : (s'.slot c i).capType = .invalid ∧ (s'.slot c i).obj = none
  held : (s'.slot c ref.slot).capType = (s.slot c i).capType ∧
    (s'.slot c ref.slot).rights = (s.slot c i).rights ∧
    (s'.slot c ref.slot).obj = (s.slot c i).obj ∧ (s'.slot c ref.slot).gen = ref.gen
  others : ∀ c' i', ¬ (c' = c ∧ i' = i) → ¬ (c' = c ∧ i' = ref.slot) → s'.slot c' i' = s.slot c' i'
  obj : s'.obj = s.obj
  named : ∀ o, (s'.holders o).encard = (s.holders o).encard
  used : Acyclic s → ∀ q, (s'.quota q).used = (s.quota q).used

theorem Untouched.refl (s : CapState C O Q) : Untouched s s := ⟨rfl, rfl, rfl, fun _ => rfl⟩

section

variable {s s' : CapState C O Q} {c : C} {i : Nat} {gen : U32} {code : GjStatus} {ref : CapRef}

/-- Two tables that differ in two slots of one CNode, where one has lost what the other has got. -/
theorem encard_holders_exchange {k : Nat} (cSlots : s'.cSlots = s.cSlots) (different : i ≠ k)
    (inRange : i < s.cSlots c ∧ k < s.cSlots c) (free : (s.slot c k).capType = .invalid)
    (freed : (s'.slot c i).capType = .invalid)
    (held : ∀ o, (s'.slot c k).Names o ↔ (s.slot c i).Names o)
    (others : ∀ c' i', ¬ (c' = c ∧ i' = i) → ¬ (c' = c ∧ i' = k) → s'.slot c' i' = s.slot c' i')
    (o : O) : (s'.holders o).encard = (s.holders o).encard := by
  have empty : (c, k) ∉ s.holders o := fun holds => holds.2.1 free
  have gone : (c, i) ∉ s'.holders o := fun holds => holds.2.1 freed
  have elsewhere (place : C × Nat) (notSource : place ≠ (c, i)) (notDest : place ≠ (c, k)) :
      place ∈ s'.holders o ↔ place ∈ s.holders o := by
    have same := others place.1 place.2 (fun here => notSource (Prod.ext here.1 here.2))
      fun here => notDest (Prod.ext here.1 here.2)
    simp [CapState.holders, CapState.Holds, Set.mem_ofPred_eq, cSlots, same]
  by_cases names : (s.slot c i).Names o
  · have before : (c, i) ∈ s.holders o := ⟨inRange.1, names⟩
    have after : (c, k) ∈ s'.holders o := ⟨cSlots ▸ inRange.2, (held o).mpr names⟩
    have exchanged : s'.holders o = insert (c, k) (s.holders o \ {(c, i)}) := by
      ext place
      by_cases source : place = (c, i)
      · subst source
        simp [gone, different]
      · by_cases dest : place = (c, k)
        · subst dest
          simp [after]
        · simp [elsewhere place source dest, source, dest]
    rw [exchanged, Set.encard_exchange empty before]
  · have before : (c, i) ∉ s.holders o := fun holds => names holds.2
    have after : (c, k) ∉ s'.holders o := fun holds => names ((held o).mp holds.2)
    congr 1
    ext place
    by_cases source : place = (c, i)
    · subst source
      exact iff_of_false gone before
    · by_cases dest : place = (c, k)
      · subst dest
        exact iff_of_false after empty
      · exact elsewhere place source dest

theorem Acyclic.of_parents (acyclic : Acyclic s)
    (parents : ∀ q, (s'.quota q).parent = (s.quota q).parent) : Acyclic s' := by
  have same : parentLinks s'.quota = parentLinks s.quota := funext parents
  rw [Acyclic, same]
  exact acyclic

/-- No account has a parent. -/
theorem Acyclic.of_orphans (orphans : ∀ q, (s.quota q).parent = none) : Acyclic s := by
  intro node count positive bound
  cases count with
  | zero => exact absurd positive (Nat.lt_irrefl 0)
  | succ count =>
    have orphan : parentLinks s.quota node = none := orphans node
    rw [climb, orphan]
    rintro ⟨⟩

/-! ### Calls that fail -/

section

variable [DecidableEq Q]

theorem Untouched.exhaust (s : CapState C O Q) (account : Q) :
    Untouched s { s with quota := update s.quota account (s.quota account).exhausted } :=
  ⟨rfl, rfl, rfl, fun q => (update_exhausted_apply s.quota account q).2.2.1⟩

end

variable [DecidableEq C] [DecidableEq O] [DecidableEq Q]

variable {rights : U16}

theorem gjCapAllocInstall_untouched {capType : CapType} {o : O}
    (fails : gjCapAllocInstall s c capType rights o = (.error code, s')) : Untouched s s' := by
  rcases gjCapAllocInstall_cases s c capType rights o with ⟨_, result⟩ | ⟨slot, same⟩
  · rw [result] at fails
    cases fails
    exact .refl s
  · rw [same] at fails
    rcases gjCapSlotInstall_cases s c slot capType rights o with
      ⟨_, result⟩ | ⟨_, account, result⟩ | ⟨charged, _, _, result⟩ <;> rw [result] at fails <;>
      cases fails
    · exact .refl s
    · exact .exhaust s account

theorem installDerived_untouched {res : CapResolved O}
    (fails : installDerived s c res rights = (.error code, s')) : Untouched s s' := by
  unfold installDerived at fails
  split at fails
  next _ failed allocation =>
    cases fails
    exact gjCapAllocInstall_untouched allocation
  next => cases fails

theorem gjCapMint_untouched {dst : Option C}
    (fails : gjCapMint s c i gen rights dst = (.error code, s')) : Untouched s s' := by
  unfold gjCapMint at fails
  split at fails
  · cases fails
    exact .refl s
  · split_ifs at fails
    · cases fails
      exact .refl s
    · cases fails
      exact .refl s
    · exact installDerived_untouched fails

theorem gjCapCopy_untouched
    (fails : gjCapCopy s c i gen rights = (.error code, s')) : Untouched s s' := by
  unfold gjCapCopy at fails
  split at fails
  · cases fails
    exact .refl s
  · split_ifs at fails
    · cases fails
      exact .refl s
    · exact installDerived_untouched fails

theorem gjCapMove_untouched (fails : gjCapMove s c i gen = (.error code, s')) : Untouched s s' := by
  unfold gjCapMove at fails
  split at fails
  · cases fails
    exact .refl s
  · split_ifs at fails
    · cases fails
      exact .refl s
    · cases fails
      exact .refl s
    · split at fails
      next _ failed allocation =>
        cases fails
        exact gjCapAllocInstall_untouched allocation
      next => cases fails

theorem gjCapDelete_untouched (deletes : gjCapDelete s c i gen = (code, s'))
    (fails : code ≠ .ok) : Untouched s s' := by
  unfold gjCapDelete at deletes
  split at deletes
  · cases deletes
    exact .refl s
  · split_ifs at deletes
    · cases deletes
      exact .refl s
    · cases deletes
      exact .refl s
    · exact absurd (Prod.mk.inj deletes).1.symm fails

/-! ### Moves that succeed -/

/-- The state after a move in terms of the state before. -/
theorem gjCapMove_eq_ok (moves : gjCapMove s c i gen = (.ok ref, s')) :
    ∃ o charged, s.Holds c i o ∧ i ≠ ref.slot ∧ ref.gen = (s.slot c ref.slot).gen ∧
      InstallReady s c ref.slot (s.slot c i).capType o ∧
      gjCapQuotaSlotCharge s.quota (s.quotaAccount c) = (.ok, charged) ∧
      ∃ cdt, s' = clearSlot { installSlot { s with quota := charged } c ref.slot
        (s.slot c i).capType (s.slot c i).rights o with cdt } c i o := by
  unfold gjCapMove at moves
  split at moves
  · cases moves
  next res resolved =>
    obtain ⟨inRange, -, -, names, -, -, sameType, sameRights⟩ := gjCapResolve_eq_ok resolved
    split_ifs at moves
    · cases moves
    · cases moves
    · split at moves
      · cases moves
      next installedRef installed allocation =>
        obtain ⟨rfl, rfl⟩ := (Prod.mk.inj moves).imp_left Except.ok.inj
        obtain ⟨charged, ready, paid, sameGen, rfl⟩ := gjCapAllocInstall_eq_ok allocation
        rw [sameType] at ready
        rw [sameType, sameRights]
        have different : i ≠ installedRef.slot := by
          rintro rfl
          exact names.1 ready.free
        refine ⟨res.obj, charged, ⟨inRange, names⟩, different, sameGen, ready, paid, _,
          invalidateLocked_eq_clearSlot _ _ _ _ ?_⟩
        have kept : (installSlot { s with quota := charged } c installedRef.slot
            (s.slot c i).capType (s.slot c i).rights res.obj).slot c i = s.slot c i := by
          rw [installSlot_slot, if_neg fun same => different same.2]
        exact kept.symm ▸ names

/-- A charge and the refund of the same chain cancel. -/
theorem used_refund_charge {table charged : QuotaTable Q} {account : Option Q}
    (distinct : (chargePath table account).Nodup)
    (paid : gjCapQuotaSlotCharge table account = (.ok, charged)) (q : Q) :
    (gjCapQuotaSlotRefund charged account q).used = (table q).used := by
  obtain ⟨room, committed⟩ := gjCapQuotaSlotCharge_ok distinct paid
  have links : parentLinks charged = parentLinks table := by
    funext x
    have kept := gjCapQuotaSlotCharge_parent distinct x
    rwa [paid] at kept
  have path : chargePath charged account = chargePath table account := by
    rw [chargePath, links, chargePath]
  rw [gjCapQuotaSlotRefund_apply (path ▸ distinct), path, committed]
  split_ifs with onPath
  · apply BitVec.eq_of_toNat_eq
    rw [CapQuota.refunded_used, CapQuota.charged_used (room q onPath), Nat.add_sub_cancel]
  · rfl

/-- The header counts the new slot and uncounts the old one. -/
theorem slotGone_counted {hdr : ObjHdr} (room : hdr.slotsLeft ≠ 0xffffffff) :
    ({ hdr with slotsLeft := hdr.slotsLeft + 1 } : ObjHdr).slotGone = hdr := by
  have positive : 0 < hdr.slotsLeft + 1 := by bv_omega
  rw [ObjHdr.slotGone, if_pos positive]
  rw [BitVec.add_sub_cancel]

theorem gjCapMove_moved (moves : gjCapMove s c i gen = (.ok ref, s')) : Moved s c i ref s' := by
  obtain ⟨o, charged, holds, different, sameGen, ready, paid, cdt, rfl⟩ := gjCapMove_eq_ok moves
  set installed := installSlot { s with quota := charged } c ref.slot (s.slot c i).capType
    (s.slot c i).rights o
  have installedSlot (c' : C) (i' : Nat) := installSlot_slot { s with quota := charged } c ref.slot
    (s.slot c i).capType (s.slot c i).rights o c' i'
  have clearedSlot (c' : C) (i' : Nat) := clearSlot_slot { installed with cdt } c i o c' i'
  have source : (clearSlot { installed with cdt } c i o).slot c i =
      gjCapSlotInvalidate (installed.slot c i) := by
    rw [clearedSlot, if_pos ⟨rfl, rfl⟩]
  have dest : (clearSlot { installed with cdt } c i o).slot c ref.slot = { s.slot c ref.slot with
        capType := (s.slot c i).capType, rights := (s.slot c i).rights
        objGen := (s.obj o).gen, obj := some o } := by
    rw [clearedSlot, if_neg fun same => different same.2.symm]
    exact (installedSlot c ref.slot).trans (if_pos ⟨rfl, rfl⟩)
  have others (c' : C) (i' : Nat) (notSource : ¬ (c' = c ∧ i' = i))
      (notDest : ¬ (c' = c ∧ i' = ref.slot)) :
      (clearSlot { installed with cdt } c i o).slot c' i' = s.slot c' i' := by
    rw [clearedSlot, if_neg notSource]
    exact (installedSlot c' i').trans (if_neg notDest)
  have held : ((clearSlot { installed with cdt } c i o).slot c ref.slot).obj =
      (s.slot c i).obj := by
    rw [dest, holds.2.2]
  refine ⟨holds.2.1, ready.free, ?_, ?_, others, ?_, ?_, ?_⟩
  · rw [source]
    exact ⟨rfl, rfl⟩
  · exact ⟨by rw [dest], by rw [dest], held, by rw [dest, sameGen]⟩
  · change update installed.obj o (installed.obj o).slotGone = s.obj
    rw [show installed.obj = update s.obj o
      { s.obj o with slotsLeft := (s.obj o).slotsLeft + 1 } from rfl, update_self,
      slotGone_counted ready.room, update_idem, update_eq_self]
  · refine encard_holders_exchange rfl different ⟨holds.1, ready.inRange⟩ ready.free ?_ ?_ others
    · rw [source]
      rfl
    · intro x
      rw [CapSlot.Names, CapSlot.Names, held, dest]
  · intro acyclic q
    exact used_refund_charge (acyclic.walk_nodup _ _ le_rfl) paid q

/-! ### Accounts of reachable states -/

/-- Re-parenting refuses short cycles, and nothing else writes a parent but the seed of an account
without one. -/
theorem Effect.acyclic {event : Event C O Q} (effect : Effect s event s') (acyclic : Acyclic s) :
    Acyclic s' := by
  have distinct (account : Option Q) : (chargePath s.quota account).Nodup :=
    acyclic.walk_nodup _ _ le_rfl
  cases effect with
  | @install c _ _ _ _ charged ready paid =>
    refine acyclic.of_parents fun q => ?_
    have kept := gjCapQuotaSlotCharge_parent (distinct (s.quotaAccount c)) q
    rwa [paid] at kept
  | @exhaust account =>
    exact acyclic.of_parents fun q => (update_exhausted_apply s.quota account q).1
  | @clear c _ _ holds unwired =>
    exact acyclic.of_parents (gjCapQuotaSlotRefund_parent (distinct (s.quotaAccount c)))
  | setParent => exact gjCapQuotaSetParent_noShortCycle acyclic
  | @seedQuota account c =>
    have links : parentLinks (Cap.seedQuota s account c).quota =
        update (parentLinks s.quota) account none := by
      funext q
      by_cases here : q = account
      · subst here
        simp [Cap.seedQuota, parentLinks, CapQuota.init]
      · simp [Cap.seedQuota, parentLinks, here]
    rw [Acyclic, links]
    exact NoShortCycle.detach acyclic
  | _ => exact acyclic.of_parents fun _ => rfl

theorem Reachable.acyclic {frame : LeanFrame C O Q} {m : Machine C O Q}
    (reachable : Reachable frame m) : Acyclic m.caps := by
  obtain ⟨cSlots, limit, reaches⟩ := reachable
  have leads := reaches.leads_any (.of_boot rfl)
  exact leads.invariant Acyclic (fun _ effect => effect.acyclic) (.of_orphans fun _ => rfl)

/-- A derivation that fails leaves everything as it was, and a move that succeeds moves one
capability and changes no count: the object's and the number of slots that name it in every state,
the accounts' wherever no account is its own ancestor, which holds in every reachable state. -/
theorem derivation_allOrNothing :
    (∀ (s s' : CapState C O Q) (c : C) (i : Nat) (gen : U32) (code : GjStatus),
      (∀ rights dst, gjCapMint s c i gen rights dst = (.error code, s') → Untouched s s') ∧
      (∀ rights, gjCapCopy s c i gen rights = (.error code, s') → Untouched s s') ∧
      (gjCapMove s c i gen = (.error code, s') → Untouched s s') ∧
      (gjCapDelete s c i gen = (code, s') → code ≠ .ok → Untouched s s') ∧
      ∀ ref, gjCapMove s c i gen = (.ok ref, s') → Moved s c i ref s') ∧
    ∀ (frame : LeanFrame C O Q) (m : Machine C O Q), Reachable frame m → Acyclic m.caps :=
  ⟨fun _ _ _ _ _ _ => ⟨fun _ _ => gjCapMint_untouched, fun _ => gjCapCopy_untouched,
    gjCapMove_untouched, gjCapDelete_untouched, fun _ => gjCapMove_moved⟩,
    fun _ _ => Reachable.acyclic⟩

end

/-- A move in a reachable state goes through, and a second one with the same handle does not. -/
theorem derivation_allOrNothing_installed :
    ∃ ref, (gjCapMove sampleInstalled.caps 0 1 1).1 = .ok ref ∧
      Moved sampleInstalled.caps 0 1 ref (gjCapMove sampleInstalled.caps 0 1 1).2 ∧
      Acyclic sampleInstalled.caps ∧
      Untouched (gjCapMove sampleInstalled.caps 0 1 1).2
        (gjCapMove (gjCapMove sampleInstalled.caps 0 1 1).2 0 1 1).2 := by
  have moves : (gjCapMove sampleInstalled.caps 0 1 1).1 = .ok { slot := 2, gen := 1 } := by
    decide +kernel
  have again : (gjCapMove (gjCapMove sampleInstalled.caps 0 1 1).2 0 1 1).1 = .error .errNoent := by
    decide +kernel
  have acyclic := derivation_allOrNothing.2 sampleFrame _ sampleInstalled_reachable
  generalize sampleInstalled.caps = s at *
  rcases first : gjCapMove s 0 1 1 with ⟨reply, after⟩
  rw [first] at moves again
  rcases second : gjCapMove after 0 1 1 with ⟨reply', after'⟩
  rw [second] at again
  subst moves again
  refine ⟨_, rfl, (derivation_allOrNothing.1 s after 0 1 1 .ok).2.2.2.2 _ first, acyclic, ?_⟩
  exact (derivation_allOrNothing.1 after after' 0 1 1 .errNoent).2.2.1 second

end GreenJade.Cap

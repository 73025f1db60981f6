import GreenJade.Cap.Run
import GreenJade.Lib.TableCount

/-! Owns the slot accounting: in every reachable state the counter `u32SlotsLeft` of an
object is the number of slots that name it. -/

namespace GreenJade.Cap

open Function TableCount

universe u v w

variable {C : Type u} {O : Type v} {Q : Type w}

/-- The slots, over all CNodes, that are not INVALID and whose pointer is `o`. -/
def CapState.holders (s : CapState C O Q) (o : O) : Set (C × Nat) :=
  {place | s.Holds place.1 place.2 o}

/-- The selection of the slots that name an object. -/
def naming (o : O) (_ : C) (slot : CapSlot O) : Prop := slot.Names o

/-- Every object's counter is the number of slots that name it. -/
def Counted (s : CapState C O Q) : Prop :=
  ∀ o, count s.slot (naming o) = (s.obj o).slotsLeft.toNat

theorem WellFormed.encard_holders {s : CapState C O Q} (wellFormed : WellFormed s) (o : O) :
    (s.holders o).encard = count s.slot (naming o) := by
  have same : s.holders o = places s.slot (naming o) :=
    Set.ext fun place => and_iff_right_of_imp fun names => wellFormed.inRange _ _ names.1
  rw [same, count]

section

variable {s s' : CapState C O Q} {c : C} {i : Nat} {o : O} {event : Event C O Q}

theorem Counted.boot (cSlots : C → Nat) (limit : Q → U32) :
    Counted (CapState.boot cSlots limit : CapState C O Q) :=
  fun o => count_eq_zero (naming o) fun _ _ names => names.1 rfl

section

variable (counted : Counted s)
include counted

/-- The counts read nothing but the slots and the counters. -/
theorem Counted.congr (slot : s'.slot = s.slot)
    (left : ∀ o, (s'.obj o).slotsLeft = (s.obj o).slotsLeft) : Counted s' := by
  intro o
  rw [left, ← counted o, slot]

/-- A slot that names the object keeps its counter above zero. -/
theorem Counted.slotsLeft_pos (names : (s.slot c i).Names o) : 0 < (s.obj o).slotsLeft.toNat := by
  have one : 1 ≤ count s.slot (naming o) := one_le_count (naming o) names
  rw [counted o] at one
  exact_mod_cast one

section

variable [DecidableEq C]

theorem Counted.resetCnode (empty : ∀ i, (s.slot c i).capType = .invalid)
    (cSlots : Nat) : Counted (gjCnodeInit s c cSlots) := by
  intro o
  refine (count_congr fun c' i => ?_).trans (counted o)
  by_cases here : c' = c
  · subst here
    exact iff_of_false (fun names => names.1 (by simp [gjCnodeInit, CapSlot.fresh]))
      fun names => names.1 (empty i)
  · simp [gjCnodeInit, update_of_ne here]

end

variable [DecidableEq O]

/-- A header whose counter is written is named by no slot, and the counter is written to
zero or kept. -/
theorem Counted.setObj {hdr : ObjHdr} (slot : s'.slot = s.slot) (obj : s'.obj = update s.obj o hdr)
    (left : hdr.slotsLeft = (s.obj o).slotsLeft ∨
      hdr.slotsLeft = 0 ∧ ∀ c i, ¬ (s.slot c i).Names o) : Counted s' := by
  refine counted.congr slot fun x => ?_
  rw [obj]
  by_cases here : x = o
  · subst here
    rw [update_self]
    rcases left with same | ⟨zero, unnamed⟩
    · exact same
    · have none : count s.slot (naming x) = 0 :=
        count_eq_zero (naming x) unnamed
      rw [counted x] at none
      have left : (s.obj x).slotsLeft.toNat = 0 := by exact_mod_cast none
      bv_omega
  · rw [update_of_ne here]

variable [DecidableEq C]

theorem Counted.install {capType : CapType} {rights : U16} {charged : QuotaTable Q}
    (ready : InstallReady s c i capType o) :
    Counted (installSlot { s with quota := charged } c i capType rights o) := by
  intro x
  have written := installSlot_slot { s with quota := charged } c i capType rights o
  have free : ¬ naming x c (s.slot c i) := fun names => names.1 ready.free
  by_cases here : x = o
  · subst here
    have next : ((s.obj x).slotsLeft + 1).toNat = (s.obj x).slotsLeft.toNat + 1 := by
      have room := ready.room
      bv_omega
    rw [count_write_gain (naming x) written free ⟨ready.typed, rfl⟩, counted x,
      installSlot_obj, update_self, next]
    push_cast
    rfl
  · have other : ∀ slot : CapSlot O, slot.obj = some o → ¬ naming x c slot :=
      fun slot pointer names => here (Option.some.inj (names.2.symm.trans pointer))
    rw [count_write_same (naming x) written (iff_of_false (other _ rfl) free), counted x]
    simp [update_of_ne here]

variable [DecidableEq Q]

theorem Counted.clear (names : (s.slot c i).Names o) : Counted (clearSlot s c i o) := by
  intro x
  have written := clearSlot_slot s c i o
  have cleared : ¬ naming x c (gjCapSlotInvalidate (s.slot c i)) := fun named => named.1 rfl
  by_cases here : x = o
  · subst here
    have positive := counted.slotsLeft_pos names
    have gone : ((s.obj x).slotGone).slotsLeft.toNat + 1 = (s.obj x).slotsLeft.toNat := by
      have above : 0 < (s.obj x).slotsLeft := by simpa [BitVec.lt_def] using positive
      rw [ObjHdr.slotGone, if_pos above]
      change ((s.obj x).slotsLeft - 1).toNat + 1 = _
      bv_omega
    have lost := count_write_loss (naming x) written names cleared
    rw [counted x, ← gone] at lost
    have same : count (clearSlot s c i x).slot (naming x) =
        ((s.obj x).slotGone).slotsLeft.toNat :=
      (ENat.add_left_injective_of_ne_top ENat.one_ne_top) (by push_cast at lost; exact lost)
    simpa using same
  · have other : ¬ naming x c (s.slot c i) :=
      fun named => here (Option.some.inj (named.2.symm.trans names.2))
    rw [count_write_same (naming x) written (iff_of_false cleared other), counted x]
    simp [update_of_ne here]

end

variable [DecidableEq C] [DecidableEq O] [DecidableEq Q]

/-- Every effect keeps the counters exact. -/
theorem Effect.counted (effect : Effect s event s') (counted : Counted s) : Counted s' := by
  cases effect with
  | install ready paid => exact counted.install ready
  | clear holds unwired => exact counted.clear holds.2
  | killQueued | killMissed | pokeDead => exact counted.setObj rfl rfl (.inl rfl)
  | resetCnode empty => exact counted.resetCnode empty _
  | resetObj unnamed => exact counted.setObj rfl rfl (.inr ⟨rfl, unnamed⟩)
  | @resetField o field unnamed =>
    cases field with
    | pin | ref => exact counted.setObj rfl rfl (.inl rfl)
    | slotsLeft => exact counted.setObj rfl rfl (.inr ⟨rfl, unnamed⟩)
  | _ => exact counted.congr rfl fun _ => rfl

theorem Leads.counted {allowed : Event C O Q → Prop} (leads : Leads allowed s s')
    (counted : Counted s) : Counted s' :=
  leads.invariant Counted (fun _ effect => effect.counted) counted

variable {frame : LeanFrame C O Q} {m : Machine C O Q}

theorem Reachable.counted (reachable : Reachable frame m) : Counted m.caps := by
  obtain ⟨cSlots, limit, reaches⟩ := reachable
  exact (reaches.leads_any (.of_boot rfl)).counted (.boot cSlots limit)

/-- In every reachable state the counter of an object is the number of slots that name it.
Hence no decrement inside a call finds the counter at zero, and an object that is ready for
reclaim is named by no slot. -/
theorem slotsLeft_counts_holders (reachable : Reachable frame m) (o : O) :
    (m.caps.holders o).encard = (m.caps.obj o).slotsLeft.toNat ∧
      (∀ (op : CapOp C O Q) (s : CapState C O Q), Leads (op.Emits m.caps) m.caps s →
        ∀ c i, s.Holds c i o → 0 < (s.obj o).slotsLeft.toNat) ∧
      (gjObjReclaimReady m.caps o = true → ∀ c i, ¬ m.caps.Holds c i o) := by
  have counted := reachable.counted
  refine ⟨?_, ?_, ?_⟩
  · rw [reachable.tidy.wellFormed.encard_holders, counted o]
  · intro op s inside c i holds
    exact (inside.counted counted).slotsLeft_pos holds.2
  · intro ready c i holds
    simp only [gjObjReclaimReady, decide_eq_true_eq] at ready
    have positive := counted.slotsLeft_pos holds.2
    simp [ready.2.1] at positive

end

def sampleInstalled : Machine Nat Nat Nat :=
  ((Machine.boot (fun _ => 4) fun _ => 8).call sampleFrame
    (.slotInstall 0 1 .frame (GjRight.mint ||| GjRight.grant) 0)).2

theorem sampleInstalled_reachable : Reachable sampleFrame sampleInstalled :=
  (Reachable.boot _ _ _).call ⟨sampleFrame_cnodes.mpr (by decide), sampleFrame_objects (.inl rfl)⟩

theorem slotsLeft_counts_holders_installed : (sampleInstalled.caps.holders 0).encard = 1 := by
  have left : (sampleInstalled.caps.obj 0).slotsLeft = 1 := by decide +kernel
  rw [(slotsLeft_counts_holders sampleInstalled_reachable 0).1, left]
  rfl

end GreenJade.Cap

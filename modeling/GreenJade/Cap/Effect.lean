import GreenJade.Cap.SelfTest
import Mathlib.Logic.Relation

/-! Owns the elementary effects that every call of the capability layer is made of, each
with the condition under which the code produces it, and the well-formedness of a state
that all of them keep. An invariant of the layer is shown effect by effect; that the calls
produce nothing else is shown once, where they are decomposed. -/

namespace GreenJade.Cap

open Function

universe u v w

variable {C : Type u} {O : Type v} {Q : Type w}

/-- What an effect did, for the invariants that constrain which effects a run contains. -/
inductive Event (C : Type u) (O : Type v) (Q : Type w)
  | install (c : C) (i : Nat) (capType : CapType) (rights : U16) (o : O)
  | clear (c : C) (i : Nat)
  | kill (o : O) (queued : Bool)
  | attach (c : C) (account : Option Q)
  | setParent (account parent : Option Q)
  | resetCnode (c : C)
  | resetObj (o : O)
  | resetField (o : O)
  | seedQuota (account : Q)
  | pokeDead (o : O)
  | quiet

variable [DecidableEq C] [DecidableEq O] [DecidableEq Q]

/-- A slot that names `o` is cleared: refund, one derived slot less, structured invalidate. -/
def clearSlot (s : CapState C O Q) (c : C) (i : Nat) (o : O) : CapState C O Q :=
  invalidateSlot ((refundSlot s c).setObj o (s.obj o).slotGone) c i

def Unwired (s : CapState C O Q) (o : O) (c : C) (i : Nat) : Prop :=
  ∀ edge ∈ s.cdt.chain o, s.cdt.place edge ≠ (some c, i)

structure InstallReady (s : CapState C O Q) (c : C) (i : Nat) (capType : CapType) (o : O) :
    Prop where
  inRange : i < s.cSlots c
  typed : capType ≠ .invalid
  rootMeta : i = slotRootMeta ↔ capType = .rootMeta
  free : (s.slot c i).capType = .invalid
  live : (s.obj o).state = .live
  room : (s.obj o).slotsLeft ≠ 0xffffffff

/-- A queue entry that may be dropped: it holds no object that still needs hygiene. -/
def Droppable (s : CapState C O Q) (i : Fin revokeQMax) : Prop :=
  ∀ o, (s.revokeQ.entry i).obj = some o → (s.obj o).state ≠ .dead ∨ HygieneDone s o

inductive Effect : CapState C O Q → Event C O Q → CapState C O Q → Prop
  | install {s : CapState C O Q} {c : C} {i : Nat} {capType : CapType} {rights : U16} {o : O}
      {charged : QuotaTable Q} (ready : InstallReady s c i capType o)
      (paid : gjCapQuotaSlotCharge s.quota (s.quotaAccount c) = (.ok, charged)) :
      Effect s (.install c i capType rights o)
        (installSlot { s with quota := charged } c i capType rights o)
  | exhaust {s : CapState C O Q} {account : Q} :
      Effect s .quiet
        { s with quota := update s.quota account (s.quota account).exhausted }
  | wire {s : CapState C O Q} {o : O} {c : C} {i : Nat} (holds : s.Holds c i o)
      (live : (s.obj o).state = .live) (unwired : Unwired s o c i) :
      Effect s .quiet (tryWire s o c i)
  | unlinkSlot {s : CapState C O Q} {o : O} {c : C} {i : Nat} : Effect s .quiet (unlinkSlot s o c i)
  | unlinkEdge {s : CapState C O Q} {o : O} {edge : EdgePtr} : Effect s .quiet (unlinkEdge s o edge)
  | clear {s : CapState C O Q} {c : C} {i : Nat} {o : O} (holds : s.Holds c i o)
      (unwired : Unwired s o c i) : Effect s (.clear c i) (clearSlot s c i o)
  | lock {s : CapState C O Q} {c : C} {held : Bool} :
      Effect s .quiet { s with softLock := update s.softLock c held }
  | killQueued {s : CapState C O Q} {o : O} {queue : RevokeQueue O}
      (live : (s.obj o).state = .live) (pushed : s.revokeQ.push o = some queue) :
      Effect s (.kill o true)
        { s.setObj o { s.obj o with state := .dead, gen := (s.obj o).gen + 1 } with
          revokeQ := queue }
  | killMissed {s : CapState C O Q} {o : O} (live : (s.obj o).state = .live)
      (full : s.revokeQ.push o = none) :
      Effect s (.kill o false)
        (s.setObj o { s.obj o with state := .dead, gen := (s.obj o).gen + 1 })
  | dropEntry {s : CapState C O Q} {i : Fin revokeQMax} (droppable : Droppable s i) :
      Effect s .quiet (dropEntry s i)
  | cursor {s : CapState C O Q} {cursor : Nat} : Effect s .quiet (setCursor s cursor)
  | attach {s : CapState C O Q} {c : C} {account : Option Q} :
      Effect s (.attach c account) (gjCapQuotaAttach s c account)
  | detachEmpty {s : CapState C O Q} {c : C} (empty : ∀ i, (s.slot c i).capType = .invalid) :
      Effect s .quiet (gjCapQuotaAttach s c none)
  | setParent {s : CapState C O Q} {account parent : Option Q} :
      Effect s (.setParent account parent)
        { s with quota := gjCapQuotaSetParent s.quota account parent }
  | resetCnode {s : CapState C O Q} {c : C} {cSlots : Nat}
      (empty : ∀ i, (s.slot c i).capType = .invalid) :
      Effect s (.resetCnode c) (gjCnodeInit s c cSlots)
  | resetObj {s : CapState C O Q} {o : O} (unnamed : ∀ c i, ¬ (s.slot c i).Names o) :
      Effect s (.resetObj o) (initObj s o)
  | resetField {s : CapState C O Q} {o : O} {field : GateField}
      (unnamed : ∀ c i, ¬ (s.slot c i).Names o) :
      Effect s (.resetField o) (s.setObj o (field.set 0 (s.obj o)))
  | seedQuota {s : CapState C O Q} {account : Q} {c : C} :
      Effect s (.seedQuota account) (seedQuota s account c)
  | pokeDead {s : CapState C O Q} {o : O} : Effect s (.pokeDead o) (pokeObjDead s o)

/-- A sequence of effects whose events are all allowed. -/
def Leads (allowed : Event C O Q → Prop) : CapState C O Q → CapState C O Q → Prop :=
  Relation.ReflTransGen fun s s' => ∃ event, allowed event ∧ Effect s event s'

namespace Leads

variable {allowed allowed' : Event C O Q → Prop} {s s' s'' : CapState C O Q} {event : Event C O Q}

theorem refl : Leads allowed s s := Relation.ReflTransGen.refl

theorem trans (first : Leads allowed s s') (second : Leads allowed s' s'') : Leads allowed s s'' :=
  Relation.ReflTransGen.trans first second

theorem single (effect : Effect s event s') (permitted : allowed event) : Leads allowed s s' :=
  Relation.ReflTransGen.single ⟨event, permitted, effect⟩

theorem tail (first : Leads allowed s s') (effect : Effect s' event s'')
    (permitted : allowed event) : Leads allowed s s'' :=
  Relation.ReflTransGen.tail first ⟨event, permitted, effect⟩

theorem mono (leads : Leads allowed s s') (wider : ∀ event, allowed event → allowed' event) :
    Leads allowed' s s' := by
  induction leads with
  | refl => exact refl
  | tail _ step ih =>
    obtain ⟨event, permitted, effect⟩ := step
    exact ih.tail effect (wider event permitted)

/-- A property that every allowed effect keeps holds at the end. -/
theorem invariant (property : CapState C O Q → Prop)
    (keeps : ∀ {s s' : CapState C O Q} {event : Event C O Q}, allowed event →
      Effect s event s' → property s → property s')
    (leads : Leads allowed s s') (start : property s) : property s' := by
  induction leads with
  | refl => exact start
  | tail _ step ih =>
    obtain ⟨event, permitted, effect⟩ := step
    exact keeps permitted effect ih

end Leads

/-! ### Field lemmas of the two slot writes -/

section Fields

variable (s : CapState C O Q) (c : C) (i : Nat) (capType : CapType) (rights : U16) (o : O)

section

omit [DecidableEq Q]

theorem installSlot_slot (c' : C) (i' : Nat) : (installSlot s c i capType rights o).slot c' i' =
      if c' = c ∧ i' = i then
        { s.slot c i with capType, rights, objGen := (s.obj o).gen, obj := some o }
      else s.slot c' i' :=
  update_update_apply ..

@[simp]
theorem installSlot_obj : (installSlot s c i capType rights o).obj =
      update s.obj o { s.obj o with slotsLeft := (s.obj o).slotsLeft + 1 } := rfl

end

theorem clearSlot_slot (c' : C) (i' : Nat) : (clearSlot s c i o).slot c' i' =
      if c' = c ∧ i' = i then gjCapSlotInvalidate (s.slot c i) else s.slot c' i' :=
  update_update_apply ..

theorem clearSlot_invalidations (c' : C) (i' : Nat) : (clearSlot s c i o).invalidations c' i' =
      if c' = c ∧ i' = i then s.invalidations c i + 1 else s.invalidations c' i' :=
  update_update_apply ..

@[simp]
theorem clearSlot_obj : (clearSlot s c i o).obj = update s.obj o (s.obj o).slotGone := rfl

@[simp]
theorem clearSlot_cdt : (clearSlot s c i o).cdt = s.cdt := rfl

@[simp]
theorem clearSlot_quota :
    (clearSlot s c i o).quota = gjCapQuotaSlotRefund s.quota (s.quotaAccount c) := rfl

@[simp]
theorem clearSlot_revokeQ : (clearSlot s c i o).revokeQ = s.revokeQ := rfl

@[simp]
theorem clearSlot_quotaAccount : (clearSlot s c i o).quotaAccount = s.quotaAccount := rfl

/-- On a slot that names the object the guarded invalidate of the source clears it. -/
theorem invalidateLocked_eq_clearSlot (names : (s.slot c i).Names o) :
    gjCapSlotInvalidateLocked (refundSlot s c) c i (some o) = clearSlot s c i o := by
  have occupied : ((refundSlot s c).slot c i).capType ≠ .invalid := names.1
  have same : ((refundSlot s c).slot c i).obj = some o := names.2
  simp only [gjCapSlotInvalidateLocked, if_neg occupied, same, ne_eq]
  rfl

end Fields

/-! ### Well-formed states -/

/-- Every occupied slot is inside its table and names an object; every edge names a slot
that names the edge's object, and no two edges of an object name the same slot. -/
structure WellFormed (s : CapState C O Q) : Prop where
  sound : s.cdt.Sound
  named : ∀ o, ∀ edge ∈ s.cdt.chain o, ∃ c i, s.cdt.place edge = (some c, i) ∧ s.Holds c i o
  distinct : ∀ o, ∀ edge ∈ s.cdt.chain o, ∀ edge' ∈ s.cdt.chain o,
    s.cdt.place edge = s.cdt.place edge' → edge = edge'
  inRange : ∀ c i, (s.slot c i).capType ≠ .invalid → i < s.cSlots c
  pointed : ∀ c i, (s.slot c i).capType ≠ .invalid → ∃ o, (s.slot c i).obj = some o

namespace WellFormed

variable {s s' : CapState C O Q} {c : C} {i : Nat} {o : O}

omit [DecidableEq C] [DecidableEq O] [DecidableEq Q]

theorem boot (cSlots : C → Nat) (limit : Q → U32) :
    WellFormed (CapState.boot cSlots limit : CapState C O Q) where
  sound := .boot
  named := fun o edge member => by simp [CapState.boot, Cdt.boot_chain] at member
  distinct := fun o edge member => by simp [CapState.boot, Cdt.boot_chain] at member
  inRange := fun c i occupied => absurd rfl occupied
  pointed := fun c i occupied => absurd rfl occupied

section

variable (wellFormed : WellFormed s)
include wellFormed

/-- Well-formedness reads the slot tables and the derivation tree only. -/
theorem congr (cSlots : s'.cSlots = s.cSlots)
    (slot : s'.slot = s.slot) (cdt : s'.cdt = s.cdt) : WellFormed s' where
  sound := cdt ▸ wellFormed.sound
  named := by
    simp only [cdt, CapState.Holds, cSlots, slot]
    exact wellFormed.named
  distinct := by
    simp only [cdt]
    exact wellFormed.distinct
  inRange := by
    simp only [slot, cSlots]
    exact wellFormed.inRange
  pointed := by
    simp only [slot]
    exact wellFormed.pointed

/-- A slot that does not name the object has none of its edges. -/
theorem unwired_of_not_names (free : ¬ (s.slot c i).Names o) : Unwired s o c i := by
  intro edge member place
  obtain ⟨c', i', place', -, names⟩ := wellFormed.named o edge member
  obtain ⟨rfl, rfl⟩ : c = c' ∧ i = i' := by simpa using place.symm.trans place'
  exact free names

theorem chain_nil_of_unnamed (unnamed : ∀ c i, ¬ (s.slot c i).Names o) : s.cdt.chain o = [] := by
  refine List.eq_nil_iff_forall_not_mem.mpr fun edge member => ?_
  obtain ⟨c, i, -, -, names⟩ := wellFormed.named o edge member
  exact unnamed c i names

theorem head_none_of_unnamed (unnamed : ∀ c i, ¬ (s.slot c i).Names o) : s.cdt.head o = none := by
  have chained := wellFormed.sound.chained o
  rw [wellFormed.chain_nil_of_unnamed unnamed] at chained
  exact chained.head_eq

end

/-- A change of the derivation tree keeps well-formedness when every edge on a chain was
there before with the same place, or is the only one for a slot that names the object. -/
theorem of_cdt_shrink (wellFormed : WellFormed s) {cdt : Cdt C O} {chains : O → List EdgePtr}
    (becomes : s.cdt.Becomes cdt chains) (shrinks : ∀ o, chains o ⊆ s.cdt.chain o) :
    WellFormed { s with cdt } where
  sound := becomes.sound
  named := by
    intro o edge member
    have kept : edge ∈ chains o := becomes.chain o ▸ member
    obtain ⟨c, i, place, holds⟩ := wellFormed.named o edge (shrinks o kept)
    exact ⟨c, i, (becomes.place o edge (shrinks o kept) ⟨o, kept⟩).trans place, holds⟩
  distinct := by
    intro o edge member edge' member' same
    have kept : edge ∈ chains o := becomes.chain o ▸ member
    have kept' : edge' ∈ chains o := becomes.chain o ▸ member'
    apply wellFormed.distinct o edge (shrinks o kept) edge' (shrinks o kept')
    rw [← becomes.place o edge (shrinks o kept) ⟨o, kept⟩,
      ← becomes.place o edge' (shrinks o kept') ⟨o, kept'⟩]
    exact same
  inRange := wellFormed.inRange
  pointed := wellFormed.pointed

section

variable [DecidableEq C]

/-- Writing a slot keeps the edges when the slots that carry an edge still name its object. -/
theorem of_slot_write (wellFormed : WellFormed s) {written : CapSlot O}
    (cSlots : s'.cSlots = s.cSlots) (cdt : s'.cdt = s.cdt)
    (slot : ∀ c' i', s'.slot c' i' = if c' = c ∧ i' = i then written else s.slot c' i')
    (untouched : ∀ o, Unwired s o c i)
    (occupied : written.capType ≠ .invalid → i < s.cSlots c ∧ ∃ o, written.obj = some o) :
    WellFormed s' where
  sound := cdt ▸ wellFormed.sound
  named := by
    intro o edge member
    rw [cdt] at member ⊢
    obtain ⟨c', i', place, inTable, names⟩ := wellFormed.named o edge member
    have elsewhere : ¬ (c' = c ∧ i' = i) := by
      rintro ⟨rfl, rfl⟩
      exact untouched o edge member place
    refine ⟨c', i', place, ?_, ?_⟩
    · rwa [cSlots]
    · rwa [slot, if_neg elsewhere]
  distinct := by
    simp only [cdt]
    exact wellFormed.distinct
  inRange := by
    intro c' i' inUse
    rw [slot] at inUse
    rw [cSlots]
    split_ifs at inUse with here
    · obtain ⟨rfl, rfl⟩ := here
      exact (occupied inUse).1
    · exact wellFormed.inRange c' i' inUse
  pointed := by
    intro c' i' inUse
    rw [slot] at inUse ⊢
    split_ifs at inUse ⊢ with here
    · exact (occupied inUse).2
    · exact wellFormed.pointed c' i' inUse

theorem gjCnodeInit (wellFormed : WellFormed s)
    (empty : ∀ i, (s.slot c i).capType = .invalid) (cSlots : Nat) :
    WellFormed (Cap.gjCnodeInit s c cSlots) where
  sound := wellFormed.sound
  named := by
    intro o edge member
    obtain ⟨c', i, place, inTable, names⟩ := wellFormed.named o edge member
    have different : c' ≠ c := by
      rintro rfl
      exact names.1 (empty i)
    refine ⟨c', i, place, ?_, ?_⟩
    · simpa [Cap.gjCnodeInit, update_of_ne different] using inTable
    · simpa [Cap.gjCnodeInit, update_of_ne different] using names
  distinct := wellFormed.distinct
  inRange := by
    intro c' i occupied
    by_cases here : c' = c
    · subst here
      simp [Cap.gjCnodeInit, CapSlot.fresh] at occupied
    · simp only [Cap.gjCnodeInit, update_of_ne here] at occupied ⊢
      exact wellFormed.inRange c' i occupied
  pointed := by
    intro c' i occupied
    by_cases here : c' = c
    · subst here
      simp [Cap.gjCnodeInit, CapSlot.fresh] at occupied
    · simp only [Cap.gjCnodeInit, update_of_ne here] at occupied ⊢
      exact wellFormed.pointed c' i occupied

end

variable [DecidableEq O]

theorem tryWire (wellFormed : WellFormed s) (holds : s.Holds c i o) (unwired : Unwired s o c i) :
    WellFormed (Cap.tryWire s o c i) := by
  rcases cdtEdgeTryWire_cases (o := o) wellFormed.sound c holds.1 with ⟨-, same⟩ |
      ⟨new, free, becomes, place⟩
  · exact wellFormed.congr rfl rfl same
  · -- the new edge is the only one in front; all others keep their place
    have split : ∀ x, ∀ edge ∈ (cdtEdgeTryWire s.cdt o c i (s.cSlots c)).chain x,
        (edge = new ∧ x = o) ∨ edge ∈ s.cdt.chain x := by
      intro x edge member
      rw [becomes.chain, mem_update_chain] at member
      rcases member with ⟨rfl, listed⟩ | ⟨-, listed⟩
      · exact (List.mem_cons.mp listed).imp (fun here => ⟨here, rfl⟩) id
      · exact .inr listed
    have keeps : ∀ x, ∀ edge ∈ s.cdt.chain x,
        (cdtEdgeTryWire s.cdt o c i (s.cSlots c)).place edge = s.cdt.place edge := by
      intro x edge member
      refine becomes.place x edge member ⟨x, mem_update_chain.mpr ?_⟩
      by_cases here : x = o
      · subst here
        exact .inl ⟨rfl, List.mem_cons_of_mem _ member⟩
      · exact .inr ⟨here, member⟩
    refine ⟨becomes.sound, ?_, ?_, wellFormed.inRange, wellFormed.pointed⟩
    · intro x edge member
      rcases split x edge member with ⟨rfl, rfl⟩ | old
      · exact ⟨c, i, place, holds⟩
      · obtain ⟨c', i', place', holds'⟩ := wellFormed.named x edge old
        exact ⟨c', i', (keeps x edge old).trans place', holds'⟩
    · intro x edge member edge' member' same
      simp only [Cap.tryWire] at same
      rcases split x edge member with ⟨rfl, rfl⟩ | old <;>
        rcases split x edge' member' with ⟨rfl, here⟩ | old'
      · rfl
      · rw [place, keeps _ edge' old'] at same
        exact absurd same.symm (unwired edge' old')
      · subst here
        rw [place, keeps _ edge old] at same
        exact absurd same (unwired edge old)
      · rw [keeps _ edge old, keeps _ edge' old'] at same
        exact wellFormed.distinct x edge old edge' old' same

theorem unlinkEdge (wellFormed : WellFormed s) (o : O) (edge : EdgePtr) :
    WellFormed (Cap.unlinkEdge s o edge) := by
  apply wellFormed.of_cdt_shrink (gjCdtEdgeUnlink_becomes wellFormed.sound o edge)
  intro x node member
  rcases mem_update_chain.mp member with ⟨rfl, listed⟩ | ⟨-, listed⟩
  · exact List.mem_of_mem_filter listed
  · exact listed

theorem initObj (wellFormed : WellFormed s) (unnamed : ∀ c i, ¬ (s.slot c i).Names o) :
    WellFormed (Cap.initObj s o) := by
  refine wellFormed.congr rfl rfl ?_
  have head : update s.cdt.head o none = s.cdt.head := by
    rw [← wellFormed.head_none_of_unnamed unnamed, update_eq_self]
  simp [Cap.initObj, head]

variable [DecidableEq C]

theorem unlinkSlot (wellFormed : WellFormed s) (o : O) (c : C) (i : Nat) :
    WellFormed (Cap.unlinkSlot s o c i) := by
  apply wellFormed.of_cdt_shrink (gjCdtUnlinkSlot_becomes wellFormed.sound o c i)
  intro x edge member
  rcases mem_update_chain.mp member with ⟨rfl, listed⟩ | ⟨-, listed⟩
  · exact List.mem_of_mem_filter listed
  · exact listed

variable [DecidableEq Q]

theorem clearSlot (wellFormed : WellFormed s) (holds : s.Holds c i o)
    (unwired : Unwired s o c i) : WellFormed (Cap.clearSlot s c i o) := by
  refine wellFormed.of_slot_write rfl rfl (clearSlot_slot s c i o) (fun x => ?_)
    (fun occupied => absurd rfl occupied)
  by_cases here : x = o
  · exact here ▸ unwired
  · refine wellFormed.unwired_of_not_names fun names => here ?_
    exact Option.some.inj (names.2.symm.trans holds.2.2)

end WellFormed

/-- Every effect keeps a well-formed state well-formed. -/
theorem Effect.wellFormed {s s' : CapState C O Q} {event : Event C O Q}
    (effect : Effect s event s') (wellFormed : WellFormed s) : WellFormed s' := by
  cases effect with
  | install ready paid =>
    refine wellFormed.of_slot_write rfl rfl (installSlot_slot _ _ _ _ _ _) (fun x => ?_)
      (fun _ => ⟨ready.inRange, _, rfl⟩)
    exact wellFormed.unwired_of_not_names fun names => names.1 ready.free
  | exhaust | lock | killQueued | killMissed | dropEntry | cursor | attach | detachEmpty
  | setParent | resetField | seedQuota | pokeDead => exact wellFormed.congr rfl rfl rfl
  | wire holds live unwired => exact wellFormed.tryWire holds unwired
  | unlinkSlot => exact wellFormed.unlinkSlot _ _ _
  | unlinkEdge => exact wellFormed.unlinkEdge _ _
  | clear holds unwired => exact wellFormed.clearSlot holds unwired
  | resetCnode empty => exact wellFormed.gjCnodeInit empty _
  | resetObj unnamed => exact wellFormed.initObj unnamed

theorem Leads.wellFormed {allowed : Event C O Q → Prop} {s s' : CapState C O Q}
    (leads : Leads allowed s s') (wellFormed : WellFormed s) : WellFormed s' :=
  leads.invariant WellFormed (fun _ effect => effect.wellFormed) wellFormed

end GreenJade.Cap

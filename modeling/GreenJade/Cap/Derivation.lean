import GreenJade.Cap.Run

/-! Owns the flow of authority: a history variable records from which slot every slot was
derived, and along it types stay equal and rights never grow. It also owns the placement of
ROOT_META. -/

namespace GreenJade.Cap

open GjRight

universe u v w

variable {C : Type u} {O : Type v} {Q : Type w}

/-! ### Origins -/

inductive Derivation
  | mint
  | copy
  | move
  deriving DecidableEq, Repr

def Derivation.needs : Derivation → U16
  | .mint => GjRight.mint
  | .copy => grant
  | .move => grant

structure Authority (O : Type v) where
  capType : CapType
  rights : U16
  obj : Option O
  deriving DecidableEq

def CapSlot.authority (slot : CapSlot O) : Authority O :=
  { capType := slot.capType, rights := slot.rights, obj := slot.obj }

/-- How a slot came to be: by a direct install, or derived from a slot with its own origin. -/
inductive Origin (O : Type v)
  | direct (held : Authority O)
  | derived (how : Derivation) (held : Authority O) (source : Origin O)

def RightsSubset (rights source : U16) : Prop := rights &&& source = rights

/-- Same type, same object and no right that the source does not hold. -/
structure Weaker (held source : Authority O) : Prop where
  capType : held.capType = source.capType
  obj : held.obj = source.obj
  rights : RightsSubset held.rights source.rights

namespace Origin

def held : Origin O → Authority O
  | .direct held => held
  | .derived _ held _ => held

/-- The authority of the direct install at the start of the derivation. -/
def root : Origin O → Authority O
  | .direct held => held
  | .derived _ _ source => source.root

/-- Each derivation weakens its source, which holds the right the call needs. -/
def Sound : Origin O → Prop
  | .direct _ => True
  | .derived how held source =>
    Weaker held source.held ∧ source.held.rights &&& how.needs ≠ 0 ∧ source.Sound

end Origin

theorem RightsSubset.trans {a b c : U16} (first : RightsSubset a b) (second : RightsSubset b c) :
    RightsSubset a c := by
  calc a &&& c = a &&& b &&& c := by rw [first]
    _ = a &&& (b &&& c) := BitVec.and_assoc ..
    _ = a := by rw [second, first]

theorem Weaker.refl (held : Authority O) : Weaker held held := ⟨rfl, rfl, BitVec.and_self⟩

theorem Weaker.trans {a b c : Authority O} (first : Weaker a b) (second : Weaker b c) :
    Weaker a c :=
  ⟨first.capType.trans second.capType, first.obj.trans second.obj, first.rights.trans second.rights⟩

/-- Along a whole derivation the authority stays below that of the direct install. -/
theorem Origin.Sound.weaker_root {origin : Origin O} (sound : origin.Sound) :
    Weaker origin.held origin.root := by
  induction origin with
  | direct held => exact .refl held
  | derived how held source ih =>
    exact sound.1.trans (ih sound.2.2)

/-! ### Which slot a call creates -/

/-- The CNode a successful call creates a slot in, and what the slot is derived from. -/
def CapOp.creation : CapOp C O Q → Option (C × Option (Derivation × C × Nat))
  | .slotInstall c _ _ _ _ => some (c, none)
  | .allocInstall c _ _ _ => some (c, none)
  | .mint src slot _ _ dst => some (dst.getD src, some (.mint, src, slot))
  | .copy c slot _ _ => some (c, some (.copy, c, slot))
  | .move c slot _ => some (c, some (.move, c, slot))
  | _ => none

/-- The slot was created from the source by the given call. -/
structure DerivedFrom (how : Derivation) (created source : CapSlot O) : Prop where
  occupied : source.capType ≠ .invalid
  weaker : Weaker created.authority source.authority
  entitled : source.rights &&& how.needs ≠ 0

section

variable {s s' : CapState C O Q} {c : C} {i : Nat} {o : O} {event : Event C O Q}
  {op : CapOp C O Q} {ref : CapRef}

/-- A slot is as it was, or has been cleared. -/
def KeptOrCleared (s s' : CapState C O Q) (c : C) (i : Nat) : Prop :=
  s'.slot c i = s.slot c i ∨ (s'.slot c i).capType = .invalid

theorem KeptOrCleared.trans {s'' : CapState C O Q} (first : KeptOrCleared s s' c i)
    (second : KeptOrCleared s' s'' c i) : KeptOrCleared s s'' c i := by
  rcases second with same | cleared
  · rw [KeptOrCleared, same]
    exact first
  · exact .inr cleared

/-- What a call that returns a handle does to the slots: on failure slots are at most cleared;
on success the slot of the handle is as described, with the generation of the handle, and all
others are at most cleared. -/
def Outcome (s : CapState C O Q) (c : C) (created : CapSlot O → Prop) :
    Except GjStatus CapRef × CapState C O Q → Prop
  | (.error _, s') => ∀ c i, KeptOrCleared s s' c i
  | (.ok ref, s') => created (s'.slot c ref.slot) ∧ (s'.slot c ref.slot).gen = ref.gen ∧
      ∀ c' i', ¬ (c' = c ∧ i' = ref.slot) → KeptOrCleared s s' c' i'

variable {slot : Nat} {rights : U16} {created : CapSlot O → Prop}

variable {capType : CapType} {gen : U32}

/-- What a call has done to the slots: at most the slot of a returned handle is new, it has
the handle's generation and is derived as the call says; all others are kept or cleared. -/
def SlotsAfter (s : CapState C O Q) :
    Option (C × Option (Derivation × C × Nat)) → CapReply → CapState C O Q → Prop
  | some (c, source), .handle ref, s' =>
    (∀ how c' i', source = some (how, c', i') →
      DerivedFrom how (s'.slot c ref.slot) (s.slot c' i')) ∧
    (s'.slot c ref.slot).gen = ref.gen ∧
    ∀ c' i', ¬ (c' = c ∧ i' = ref.slot) → KeptOrCleared s s' c' i'
  | _, _, s' => ∀ c i, KeptOrCleared s s' c i

theorem Outcome.slotsAfter_direct
    {result : Except GjStatus CapRef × CapState C O Q} (outcome : Outcome s c created result) :
    SlotsAfter s (some (c, none)) (.ofHandle result.1) result.2 := by
  obtain ⟨code | ref, after⟩ := result
  · exact outcome
  · exact ⟨nofun, outcome.2⟩

theorem Outcome.slotsAfter_derived {how : Derivation} {src : C}
    {result : Except GjStatus CapRef × CapState C O Q}
    (outcome : Outcome s c (fun new => DerivedFrom how new (s.slot src slot)) result) :
    SlotsAfter s (some (c, some (how, src, slot))) (.ofHandle result.1) result.2 := by
  obtain ⟨code | ref, after⟩ := result
  · exact outcome
  · refine ⟨fun how' c' i' same => ?_, outcome.2⟩
    obtain ⟨rfl, rfl, rfl⟩ : how = how' ∧ src = c' ∧ slot = i' := by simpa using same
    exact outcome.1

/-- A slot with rights taken from a resolved source is derived from it. -/
theorem derivedFrom_resolved {how : Derivation} {src : C}
    {res : CapResolved O} (resolved : gjCapResolve s src slot gen = .ok res)
    (entitled : res.rights &&& how.needs ≠ 0) (subset : RightsSubset rights res.rights)
    (new : CapSlot O) (holds : new.authority = ⟨res.capType, rights, some res.obj⟩) :
    DerivedFrom how new (s.slot src slot) := by
  obtain ⟨-, -, -, names, -, -, sameType, sameRights⟩ := gjCapResolve_eq_ok resolved
  rw [sameRights] at entitled subset
  refine ⟨names.1, ?_, entitled⟩
  rw [holds]
  exact ⟨sameType, names.2.symm, subset⟩

theorem rightsWeaker_subset (source want : U16) :
    RightsSubset (rightsWeaker source want) source := by
  rw [RightsSubset, rightsWeaker, BitVec.and_comm, ← BitVec.and_assoc, BitVec.and_self]

section

variable [DecidableEq C] [DecidableEq O]

/-- The guarded invalidate writes one slot, and leaves it INVALID. -/
theorem gjCapSlotInvalidateLocked_keptOrCleared (s : CapState C O Q) (c : C) (i : Nat)
    (obj : Option O) (c' : C) (i' : Nat) :
    KeptOrCleared s (gjCapSlotInvalidateLocked s c i obj) c' i' ∧
      (¬ (c' = c ∧ i' = i) → (gjCapSlotInvalidateLocked s c i obj).slot c' i' = s.slot c' i') := by
  have written : ∀ t : CapState C O Q, t.slot = s.slot →
      KeptOrCleared s (invalidateSlot t c i) c' i' ∧
        (¬ (c' = c ∧ i' = i) → (invalidateSlot t c i).slot c' i' = s.slot c' i') := by
    intro t same
    have slot : (invalidateSlot t c i).slot c' i' =
        if c' = c ∧ i' = i then gjCapSlotInvalidate (t.slot c i) else t.slot c' i' :=
      update_update_apply ..
    rw [KeptOrCleared, slot, same]
    split_ifs with here
    · exact ⟨.inr rfl, fun elsewhere => absurd here elsewhere⟩
    · exact ⟨.inl rfl, fun _ => rfl⟩
  unfold gjCapSlotInvalidateLocked
  split_ifs
  · exact ⟨.inl rfl, fun _ => rfl⟩
  · cases obj with
    | some o =>
      dsimp only
      split_ifs
      · exact ⟨.inl rfl, fun _ => rfl⟩
      · exact written _ rfl
    | none =>
      dsimp only
      split
      all_goals exact written _ rfl

theorem Outcome.installed {charged : QuotaTable Q}
    (holds : ∀ new : CapSlot O, new.authority = ⟨capType, rights, some o⟩ → created new) :
    Outcome s c created (.ok { slot, gen := (s.slot c slot).gen },
      installSlot { s with quota := charged } c slot capType rights o) := by
  refine ⟨holds _ ?_, ?_, fun c' i' elsewhere => .inl ?_⟩
  · rw [installSlot_slot, if_pos ⟨rfl, rfl⟩]
    rfl
  · rw [installSlot_slot, if_pos ⟨rfl, rfl⟩]
  · rw [installSlot_slot, if_neg elsewhere]

end

variable [DecidableEq C] [DecidableEq O] [DecidableEq Q]

/-- Without an install into the CNode its slots are only cleared. -/
theorem Leads.keptOrCleared {allowed : Event C O Q → Prop} (leads : Leads allowed s s')
    (noInstall : ∀ i capType rights o, ¬ allowed (.install c i capType rights o)) (i : Nat) :
    KeptOrCleared s s' c i := by
  refine leads.invariant (fun now => KeptOrCleared s now c i) ?_ (.inl rfl)
  intro now next event permitted effect before
  apply before.trans
  rcases effect.slot_cases c i with same | cleared | ⟨capType, rights, o, rfl, -⟩
  · exact .inl same
  · exact .inr cleared
  · exact absurd permitted (noInstall i capType rights o)

theorem gjCapSlotInstall_outcome
 (holds : ∀ new : CapSlot O, new.authority = ⟨capType, rights, some o⟩ → created new) :
    Outcome s c created (gjCapSlotInstall s c slot capType rights o) := by
  rcases gjCapSlotInstall_cases s c slot capType rights o with
    ⟨code, result⟩ | ⟨code, account, result⟩ | ⟨charged, -, -, result⟩
  · rw [result]
    exact fun _ _ => .inl rfl
  · rw [result]
    exact fun _ _ => .inl rfl
  · rw [result]
    exact .installed holds

theorem gjCapAllocInstall_outcome
    (holds : ∀ new : CapSlot O, new.authority = ⟨capType, rights, some o⟩ → created new) :
    Outcome s c created (gjCapAllocInstall s c capType rights o) := by
  rcases gjCapAllocInstall_cases s c capType rights o with ⟨code, result⟩ | ⟨slot, result⟩
  · rw [result]
    exact fun _ _ => .inl rfl
  · rw [result]
    exact gjCapSlotInstall_outcome holds

theorem installDerived_outcome {res : CapResolved O}
    (holds : ∀ new : CapSlot O, new.authority = ⟨res.capType, rights, some res.obj⟩ → created new) :
    Outcome s c created (installDerived s c res rights) := by
  have installed : Outcome s c created (gjCapAllocInstall s c res.capType rights res.obj) :=
    gjCapAllocInstall_outcome holds
  unfold installDerived
  generalize gjCapAllocInstall s c res.capType rights res.obj = result at installed ⊢
  obtain ⟨code | ref, after⟩ := result
  all_goals exact installed

theorem gjCapMint_outcome {dst : Option C} :
    Outcome s (dst.getD c) (fun new => DerivedFrom .mint new (s.slot c slot))
      (gjCapMint s c slot gen rights dst) := by
  unfold gjCapMint
  split
  · exact fun _ _ => .inl rfl
  · rename_i res resolved
    split_ifs with entitled
    · exact fun _ _ => .inl rfl
    · exact fun _ _ => .inl rfl
    · exact installDerived_outcome
        (derivedFrom_resolved resolved entitled (rightsWeaker_subset _ _))

theorem gjCapCopy_outcome : Outcome s c (fun new => DerivedFrom .copy new (s.slot c slot))
      (gjCapCopy s c slot gen rights) := by
  unfold gjCapCopy
  split
  · exact fun _ _ => .inl rfl
  · rename_i res resolved
    split_ifs with entitled
    · exact fun _ _ => .inl rfl
    · exact installDerived_outcome
        (derivedFrom_resolved resolved entitled (rightsWeaker_subset _ _))

/-- A move clears its source after the install; the source is not the new slot, which was
free. -/
theorem gjCapMove_outcome :
    Outcome s c (fun new => DerivedFrom .move new (s.slot c slot)) (gjCapMove s c slot gen) := by
  unfold gjCapMove
  split
  · exact fun _ _ => .inl rfl
  · rename_i res resolved
    split_ifs with entitled
    · exact fun _ _ => .inl rfl
    · exact fun _ _ => .inl rfl
    · have installed : Outcome s c (fun new => DerivedFrom .move new (s.slot c slot))
          (gjCapAllocInstall s c res.capType res.rights res.obj) :=
        gjCapAllocInstall_outcome (derivedFrom_resolved resolved entitled BitVec.and_self)
      rcases outcome : gjCapAllocInstall s c res.capType res.rights res.obj with
        ⟨code | ref, after⟩
      · rw [outcome] at installed
        exact installed
      · rw [outcome] at installed
        obtain ⟨-, ready, -, -, -⟩ := gjCapAllocInstall_eq_ok outcome
        have occupied := (gjCapResolve_names resolved).1
        have different : ¬ (c = c ∧ ref.slot = slot) := fun same =>
          occupied (same.2 ▸ ready.free)
        refine ⟨?_, ?_, fun c' i' elsewhere => ?_⟩
        · rw [(gjCapSlotInvalidateLocked_keptOrCleared _ _ _ _ c ref.slot).2 different]
          exact installed.1
        · rw [(gjCapSlotInvalidateLocked_keptOrCleared _ _ _ _ c ref.slot).2 different]
          exact installed.2.1
        · exact (installed.2.2 c' i' elsewhere).trans
            (gjCapSlotInvalidateLocked_keptOrCleared (refundSlot (tryWire
              (unlinkSlot after res.obj c slot) res.obj c ref.slot) c) _ _ _ c' i').1

theorem CapOp.exec_slots (wellFormed : WellFormed s) (op : CapOp C O Q) :
    SlotsAfter s op.creation (op.exec s).1 (op.exec s).2 := by
  cases op with
  | slotInstall c slot capType rights o =>
    exact (gjCapSlotInstall_outcome fun _ holds => holds).slotsAfter_direct
  | allocInstall c capType rights o =>
    exact (gjCapAllocInstall_outcome fun _ holds => holds).slotsAfter_direct
  | mint src slot gen rights dst => exact gjCapMint_outcome.slotsAfter_derived
  | copy c slot gen rights => exact gjCapCopy_outcome.slotsAfter_derived
  | move c slot gen => exact gjCapMove_outcome.slotsAfter_derived
  | _ =>
    intro c i
    exact (CapOp.exec_leads wellFormed _).keptOrCleared (by simp [CapOp.Emits]) i

/-! ### Runs with the history of derivations -/

/-- The machine with the origin of every slot that a client's call has created. -/
structure Traced (C : Type u) (O : Type v) (Q : Type w) where
  machine : Machine C O Q
  origin : C → Nat → Option (Origin O)

namespace Traced

def boot (cSlots : C → Nat) (limit : Q → U32) : Traced C O Q :=
  { machine := .boot cSlots limit, origin := fun _ _ => none }

def originOf (t : Traced C O Q) (held : Authority O) :
    Option (Derivation × C × Nat) → Option (Origin O)
  | none => some (.direct held)
  | some (how, c, i) => (t.origin c i).map (.derived how held)

def record (t : Traced C O Q) (after : CapState C O Q) :
    Option (C × Option (Derivation × C × Nat)) → CapReply → C → Nat → Option (Origin O)
  | some (c, source), .handle ref => Function.update t.origin c
      (Function.update (t.origin c) ref.slot (t.originOf (after.slot c ref.slot).authority source))
  | _, _ => t.origin

/-- A client's call with its self-tests; the history variable is read by nothing else. -/
def call (frame : LeanFrame C O Q) (t : Traced C O Q) (op : CapOp C O Q) : Traced C O Q :=
  { machine := (t.machine.call frame op).2
    origin := t.record (op.exec t.machine.caps).2 op.creation (op.exec t.machine.caps).1 }

def Reachable (frame : LeanFrame C O Q) (t : Traced C O Q) : Prop :=
  ∃ cSlots limit, Relation.ReflTransGen
    (fun t t' : Traced C O Q => ∃ op : CapOp C O Q, op.Avoids frame ∧ t.call frame op = t')
    (.boot cSlots limit) t

/-- Every occupied slot of a client has a recorded origin that ends in what the slot holds and
in which every derivation weakens its source. -/
def Justified (frame : LeanFrame C O Q) (t : Traced C O Q) : Prop :=
  ∀ c i, c ∉ frame.cnodes → (t.machine.caps.slot c i).capType ≠ .invalid →
    ∃ origin, t.origin c i = some origin ∧
      origin.held = (t.machine.caps.slot c i).authority ∧ origin.Sound

variable {frame : LeanFrame C O Q} {t : Traced C O Q}

section

omit [DecidableEq C] [DecidableEq O] [DecidableEq Q]

/-- A slot that was only kept has the origin it had. -/
theorem Justified.kept (justified : t.Justified frame)
    {after : CapState C O Q} (client : c ∉ frame.cnodes)
    (occupied : (after.slot c i).capType ≠ .invalid)
    (kept : KeptOrCleared t.machine.caps after c i) :
    ∃ origin, t.origin c i = some origin ∧ origin.held = (after.slot c i).authority ∧
      origin.Sound := by
  rcases kept with same | cleared
  · rw [same] at occupied ⊢
    exact justified c i client occupied
  · exact absurd cleared occupied

variable [DecidableEq C]

/-- Recording a call: the new slot's origin extends the origin its source has. -/
theorem Justified.record (justified : t.Justified frame) {after : CapState C O Q}
    {creation : Option (C × Option (Derivation × C × Nat))} {reply : CapReply}
    (slots : SlotsAfter t.machine.caps creation reply after)
    (sourceClient : ∀ c how c' i', creation = some (c, some (how, c', i')) → c' ∉ frame.cnodes)
    (client : c ∉ frame.cnodes) (occupied : (after.slot c i).capType ≠ .invalid) :
    ∃ origin, t.record after creation reply c i = some origin ∧
      origin.held = (after.slot c i).authority ∧ origin.Sound := by
  rcases creation with _ | ⟨created, source⟩
  · exact justified.kept client occupied (slots c i)
  · cases reply with
    | handle ref =>
      obtain ⟨derived, -, others⟩ := slots
      by_cases here : c = created ∧ i = ref.slot
      · obtain ⟨rfl, rfl⟩ := here
        simp only [Traced.record, Function.update_self]
        rcases source with _ | ⟨how, c', i'⟩
        · exact ⟨_, rfl, rfl, trivial⟩
        · have new := derived how c' i' rfl
          obtain ⟨origin, recorded, held, sound⟩ :=
            justified c' i' (sourceClient c how c' i' rfl) new.occupied
          refine ⟨.derived how (after.slot c ref.slot).authority origin,
            by simp [originOf, recorded], rfl, ?_, ?_, sound⟩
          · rw [held]
            exact new.weaker
          · rw [held]
            exact new.entitled
      · simp only [Traced.record, update_update_apply, if_neg here]
        exact justified.kept client occupied (others c i here)
    | _ => exact justified.kept client occupied (slots c i)

end

theorem call_justified (tidy : Tidy frame t.machine)
    (avoids : op.Avoids frame) (justified : t.Justified frame) :
    (t.call frame op).Justified frame := by
  intro c i client occupied
  have sourceClient : ∀ c how c' i', op.creation = some (c, some (how, c', i')) →
      c' ∉ frame.cnodes := by
    intro c how c' i' creation
    cases op <;> simp only [CapOp.creation, Option.some.injEq, Prod.mk.injEq, reduceCtorEq,
      and_false] at creation
    · exact creation.2.2.1 ▸ avoids.1
    all_goals exact creation.2.2.1 ▸ avoids
  -- the self-tests install nothing into a client's CNode
  have selfTests : KeptOrCleared (op.exec t.machine.caps).2 (t.machine.call frame op).2.caps c i :=
    (Machine.call_leads tidy avoids).1.keptOrCleared (fun i capType rights o event => by
        rcases event with ⟨-, inside, -⟩ | none
        · exact client inside
        · exact none) i
  rcases selfTests with same | cleared
  · simp only [Traced.call, same] at occupied ⊢
    exact justified.record (op.exec_slots tidy.wellFormed) sourceClient client occupied
  · exact absurd cleared occupied

theorem Reachable.boot (frame : LeanFrame C O Q) (cSlots : C → Nat) (limit : Q → U32) :
    (Traced.boot cSlots limit : Traced C O Q).Reachable frame :=
  ⟨cSlots, limit, .refl⟩

theorem Reachable.call (reachable : t.Reachable frame)
    (avoids : op.Avoids frame) : (t.call frame op).Reachable frame := by
  obtain ⟨cSlots, limit, run⟩ := reachable
  exact ⟨cSlots, limit, run.tail ⟨op, avoids, rfl⟩⟩

theorem Reachable.invariant
    (reachable : t.Reachable frame) : Cap.Reachable frame t.machine ∧ t.Justified frame := by
  obtain ⟨cSlots, limit, run⟩ := reachable
  induction run with
  | refl => exact ⟨.boot frame cSlots limit, fun c i _ occupied => absurd rfl occupied⟩
  | tail _ step ih =>
    obtain ⟨op, avoids, rfl⟩ := step
    exact ⟨ih.1.call avoids, call_justified ih.1.tidy avoids ih.2⟩

end Traced

/-! ### ROOT_META -/

/-- Slot 0 and ROOT_META belong to each other. -/
def RootPlaced (s : CapState C O Q) : Prop :=
  ∀ c i, (s.slot c i).capType ≠ .invalid → (i = slotRootMeta ↔ (s.slot c i).capType = .rootMeta)

theorem Effect.rootPlaced (effect : Effect s event s') (placed : RootPlaced s) : RootPlaced s' := by
  intro c i occupied
  cases effect with
  | install ready paid =>
    rw [installSlot_slot] at occupied ⊢
    split_ifs with here
    · obtain ⟨rfl, rfl⟩ := here
      exact ready.rootMeta
    · rw [if_neg here] at occupied
      exact placed c i occupied
  | clear holds unwired =>
    rw [clearSlot_slot] at occupied ⊢
    split_ifs at occupied ⊢ with here
    · exact absurd rfl occupied
    · exact placed c i occupied
  | @resetCnode c' cSlots empty =>
    by_cases here : c = c'
    · subst here
      simp [gjCnodeInit, CapSlot.fresh] at occupied
    · simp only [gjCnodeInit, Function.update_of_ne here] at occupied ⊢
      exact placed c i occupied
  | _ => exact placed c i occupied

theorem Reachable.rootPlaced {frame : LeanFrame C O Q} {m : Machine C O Q}
    (reachable : Reachable frame m) : RootPlaced m.caps := by
  obtain ⟨cSlots, limit, reaches⟩ := reachable
  exact (reaches.leads_any (.of_boot rfl)).invariant RootPlaced
    (fun _ effect => effect.rootPlaced) fun c i occupied => absurd rfl occupied

/-- No run amplifies authority. Every occupied slot of a client ends a derivation that starts
with a direct install, in which each slot has its source's type and object and no right beyond
it, and in which minting sources hold MINT and copied or moved sources hold GRANT; so the slot
is below its direct install. ROOT_META is at slot 0 only, and slot 0 holds nothing else. -/
theorem authority_never_amplified {frame : LeanFrame C O Q} {t : Traced C O Q}
    (reachable : t.Reachable frame) :
    (∀ c i, c ∉ frame.cnodes → (t.machine.caps.slot c i).capType ≠ .invalid →
      ∃ origin, t.origin c i = some origin ∧
        origin.held = (t.machine.caps.slot c i).authority ∧ origin.Sound ∧
        Weaker (t.machine.caps.slot c i).authority origin.root) ∧
      (∀ c i, (t.machine.caps.slot c i).capType = .rootMeta → i = slotRootMeta) ∧
      ∀ c, (t.machine.caps.slot c slotRootMeta).capType = .rootMeta ∨
        (t.machine.caps.slot c slotRootMeta).capType = .invalid := by
  obtain ⟨machine, justified⟩ := reachable.invariant
  have placed := machine.rootPlaced
  refine ⟨?_, ?_, ?_⟩
  · intro c i client occupied
    obtain ⟨origin, recorded, held, sound⟩ := justified c i client occupied
    exact ⟨origin, recorded, held, sound, held ▸ sound.weaker_root⟩
  · intro c i rootMeta
    exact (placed c i (by simp [rootMeta])).mpr rootMeta
  · intro c
    by_cases free : (t.machine.caps.slot c slotRootMeta).capType = .invalid
    · exact .inr free
    · exact .inl ((placed c slotRootMeta free).mp rfl)

end

def sampleMinted : Traced Nat Nat Nat :=
  ((Traced.boot (fun _ => 4) fun _ => 8).call sampleFrame
    (.slotInstall 0 1 .frame (GjRight.mint ||| grant) 0)).call sampleFrame
    (.mint 0 1 1 (grant ||| write) none)

theorem authority_never_amplified_minted : ∃ origin, sampleMinted.origin 0 2 = some origin ∧
      origin.held = { capType := .frame, rights := grant, obj := some 0 } ∧
      Weaker origin.held origin.root := by
  have client : 0 ∉ sampleFrame.cnodes := sampleFrame_cnodes.mpr (by decide)
  have reachable : sampleMinted.Reachable sampleFrame := by
    refine .call (.call (.boot _ _ _) ?_) ?_
    · exact ⟨client, sampleFrame_objects (.inl rfl)⟩
    · exact ⟨client, client⟩
  have holds : (sampleMinted.machine.caps.slot 0 2).authority =
      { capType := .frame, rights := grant, obj := some 0 } := by decide +kernel
  obtain ⟨origin, recorded, held, sound, weaker⟩ :=
    (authority_never_amplified reachable).1 0 2 client
      (fun free => by simp [CapSlot.authority, free] at holds)
  exact ⟨origin, recorded, held.trans holds, held ▸ weaker⟩

end GreenJade.Cap

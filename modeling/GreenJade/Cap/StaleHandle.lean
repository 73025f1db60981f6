import GreenJade.Cap.Derivation

/-! Owns the life of a handle: a slot's generation is a function of how often the slot has
been invalidated, so a handle issued before an invalidation stays stale until the generation
has gone once around. -/

namespace GreenJade.Cap

universe u v w

variable {C : Type u} {O : Type v} {Q : Type w}

/-! ### The cycle of generations -/

/-- The generations run through all non-zero words. -/
def genPeriod : Nat := 2 ^ 32 - 1

theorem nextGen_toNat (gen : U32) : (nextGen gen).toNat = gen.toNat % genPeriod + 1 := by
  unfold nextGen genPeriod
  split_ifs with wraps
  · have last : gen.toNat = 2 ^ 32 - 1 := by bv_omega
    rw [last]
    rfl
  · have small : gen.toNat < 2 ^ 32 - 1 := by bv_omega
    rw [Nat.mod_eq_of_lt small]
    change (gen.toNat + 1) % 2 ^ 32 = gen.toNat + 1
    omega

theorem nextGen_iterate_toNat (count : Nat) :
    (nextGen^[count] 1).toNat = count % genPeriod + 1 := by
  induction count with
  | zero => rfl
  | succ count ih =>
    rw [Function.iterate_succ_apply', nextGen_toNat, ih, Nat.mod_add_mod]

theorem nextGen_iterate_eq_iff {first second : Nat} :
    nextGen^[first] 1 = nextGen^[second] 1 ↔ first ≡ second [MOD genPeriod] := by
  rw [← BitVec.toNat_inj, nextGen_iterate_toNat, nextGen_iterate_toNat, Nat.add_right_cancel_iff]
  rfl

/-! ### Generations along a run -/

section

variable {frame : LeanFrame C O Q} {s s' : CapState C O Q} {event : Event C O Q}
  {m m' : Machine C O Q} {op : CapOp C O Q} {c : C} {ref : CapRef}

/-- The generation of a client's slot counts its invalidations. -/
def GenTracked (frame : LeanFrame C O Q) (s : CapState C O Q) : Prop :=
  ∀ c ∉ frame.cnodes, ∀ i, (s.slot c i).gen = nextGen^[s.invalidations c i] 1

/-- Only the CNodes of the self-tests are initialised again. -/
def ResetsStackOnly (frame : LeanFrame C O Q) (event : Event C O Q) : Prop :=
  ∀ c, event = .resetCnode c → c ∈ frame.cnodes

theorem selfTest_resetsStackOnly (emits : m.SelfTestEvent frame event) :
    ResetsStackOnly frame event := by
  rintro c rfl
  exact emits.elim And.right False.elim

theorem CapOp.Avoids.creation {source : Option (Derivation × C × Nat)} (avoids : op.Avoids frame)
    (target : op.creation = some (c, source)) : c ∉ frame.cnodes := by
  cases op with
  | slotInstall | allocInstall => exact (Prod.mk.inj (Option.some.inj target)).1 ▸ avoids.1
  | mint => exact (Prod.mk.inj (Option.some.inj target)).1 ▸ avoids.2
  | copy | move => exact (Prod.mk.inj (Option.some.inj target)).1 ▸ avoids
  | _ => exact nomatch target

section

variable [DecidableEq O]

theorem CapOp.emits_resetsStackOnly (emits : op.Emits s event) : ResetsStackOnly frame event := by
  rintro c rfl
  cases op <;> simp [CapOp.Emits] at emits

end

variable [DecidableEq C] [DecidableEq O] [DecidableEq Q]

theorem Effect.genTracked (effect : Effect s event s') (resets : ResetsStackOnly frame event)
    (tracked : GenTracked frame s) : GenTracked frame s' := by
  intro c client i
  cases effect with
  | install ready paid =>
    rw [installSlot_slot]
    split_ifs with here
    · obtain ⟨rfl, rfl⟩ := here
      exact tracked c client i
    · exact tracked c client i
  | clear holds unwired =>
    rw [clearSlot_slot, clearSlot_invalidations]
    split_ifs with here
    · obtain ⟨rfl, rfl⟩ := here
      rw [gjCapSlotInvalidate_gen, tracked c client i, Function.iterate_succ_apply']
    · exact tracked c client i
  | @resetCnode c' cSlots empty =>
    have different : c ≠ c' := fun same => client (same ▸ resets c' rfl)
    simpa [gjCnodeInit, different] using tracked c client i
  | _ => exact tracked c client i

theorem Leads.genTracked {allowed : Event C O Q → Prop} (leads : Leads allowed s s')
    (resets : ∀ event, allowed event → ResetsStackOnly frame event)
    (tracked : GenTracked frame s) : GenTracked frame s' :=
  leads.invariant (GenTracked frame)
    (fun permitted effect => effect.genTracked (resets _ permitted)) tracked

theorem Reaches.genTracked {admissible : Machine C O Q → CapOp C O Q → Prop}
    (reaches : Reaches frame admissible m m') (tidy : Tidy frame m)
    (tracked : GenTracked frame m.caps) : GenTracked frame m'.caps :=
  (reaches.leads (fun _ _ _ => CapOp.emits_resetsStackOnly) selfTest_resetsStackOnly
    tidy).genTracked (fun _ resets => resets) tracked

theorem Reachable.genTracked (reachable : Reachable frame m) : GenTracked frame m.caps := by
  obtain ⟨cSlots, limit, reaches⟩ := reachable
  exact reaches.genTracked (.of_boot rfl) fun _ _ _ => rfl

/-! ### The handle a call returns -/

/-- A call that returned a handle has started at most the first self-test. -/
theorem Machine.call_handle (issued : (m.call frame op).1 = .handle ref) :
    (op.exec m.caps).1 = .handle ref ∧ (m.call frame op).2 =
      cdtSoftInventoryMaybeOnce frame { m with caps := (op.exec m.caps).2 } := by
  have reply : (op.exec m.caps).1 = .handle ref := by
    dsimp only [Machine.call] at issued
    split_ifs at issued <;> exact issued
  refine ⟨reply, ?_⟩
  have fires : op.firesCdt (op.exec m.caps).1 = true := by
    rw [reply]
    cases op with
    | slotInstall => rfl
    | allocInstall => rfl
    | mint => rfl
    | copy => rfl
    | move => rfl
    | resolve c slot gen =>
      dsimp only [CapOp.exec] at reply
      split at reply <;> exact nomatch reply
    | _ => exact nomatch reply
  dsimp only [Machine.call]
  rw [if_pos fires]

theorem Effect.invalidations_cases (effect : Effect s event s') (c : C) (i : Nat) :
    s'.invalidations c i = s.invalidations c i ∨ event = .clear c i := by
  cases effect with
  | clear holds unwired =>
    rw [clearSlot_invalidations]
    split_ifs with here
    · obtain ⟨rfl, rfl⟩ := here
      exact .inr rfl
    · exact .inl rfl
  | _ => exact .inl rfl

theorem Leads.invalidations_eq {allowed : Event C O Q → Prop} (leads : Leads allowed s s')
    (noClear : ∀ i, ¬ allowed (.clear c i)) (i : Nat) :
    s'.invalidations c i = s.invalidations c i := by
  refine leads.invariant (fun now => now.invalidations c i = s.invalidations c i) ?_ rfl
  intro now next event permitted effect before
  rcases effect.invalidations_cases c i with same | rfl
  · exact same.trans before
  · exact absurd permitted (noClear i)

/-- A returned handle carries the generation its slot has when the call returns. -/
theorem issued_gen {source : Option (Derivation × C × Nat)} (reachable : Reachable frame m)
    (avoids : op.Avoids frame) (target : op.creation = some (c, source))
    (issued : (m.call frame op).1 = .handle ref) :
    ref.gen = nextGen^[(m.call frame op).2.caps.invalidations c ref.slot] 1 := by
  have tidy := reachable.tidy
  have client := avoids.creation target
  obtain ⟨reply, after⟩ := Machine.call_handle issued
  have slots := op.exec_slots tidy.wellFormed
  rw [target, reply] at slots
  have tracked : GenTracked frame (op.exec m.caps).2 :=
    (op.exec_leads tidy.wellFormed).genTracked (fun _ => CapOp.emits_resetsStackOnly)
      reachable.genTracked
  -- the self-test clears slots of its own CNodes only
  have kept := (cdtSoftInventoryMaybeOnce_leads (tidy.exec avoids)).1.invalidations_eq (c := c)
    (fun _ admits => client admits.2) ref.slot
  rw [after, kept, ← slots.2.1]
  exact tracked c client ref.slot

/-- A handle does not resolve once its slot has been invalidated, until the generation has
gone once around; and two different handles that resolve in one CNode name different slots. -/
theorem stale_handle_stays_stale {source : Option (Derivation × C × Nat)}
    (reachable : Reachable frame m) (avoids : op.Avoids frame)
    (target : op.creation = some (c, source)) (issued : (m.call frame op).1 = .handle ref)
    (later : Reaches frame (fun _ _ => True) (m.call frame op).2 m')
    (invalidated : (m.call frame op).2.caps.invalidations c ref.slot <
      m'.caps.invalidations c ref.slot)
    (fewer : m'.caps.invalidations c ref.slot <
      (m.call frame op).2.caps.invalidations c ref.slot + (2 ^ 32 - 1)) :
    (∀ res, gjCapResolve m'.caps c ref.slot ref.gen ≠ .ok res) ∧
      ∀ (now : CapState C O Q) (c : C) (ref ref' : CapRef) (res res' : CapResolved O),
        gjCapResolve now c ref.slot ref.gen = .ok res →
        gjCapResolve now c ref'.slot ref'.gen = .ok res' → ref ≠ ref' → ref.slot ≠ ref'.slot := by
  constructor
  · intro res resolved
    have called := reachable.call avoids
    have current : (m'.caps.slot c ref.slot).gen = nextGen^[m'.caps.invalidations c ref.slot] 1 :=
      later.genTracked called.tidy called.genTracked c (avoids.creation target) ref.slot
    have same : (m'.caps.slot c ref.slot).gen = ref.gen :=
      (gjCapResolve_eq_ok resolved).2.2.1
    rw [current, issued_gen reachable avoids target issued, nextGen_iterate_eq_iff,
      Nat.ModEq.comm] at same
    have around := (Nat.modEq_iff_dvd' invalidated.le).mp same
    have period := Nat.le_of_dvd (Nat.sub_pos_of_lt invalidated) around
    unfold genPeriod at period
    omega
  · intro now c ref ref' res res' resolved resolved' different slots
    have gen := (gjCapResolve_eq_ok resolved).2.2.1
    have gen' := (gjCapResolve_eq_ok resolved').2.2.1
    have gens : ref.gen = ref'.gen := by rw [← gen, ← gen', slots]
    cases ref
    cases ref'
    exact different (congrArg₂ CapRef.mk slots gens)

end

def sampleInstall : CapOp Nat Nat Nat := .slotInstall 0 1 .frame GjRight.grant 0

def sampleIssued : Machine Nat Nat Nat :=
  ((Machine.boot (fun _ => 4) fun _ => 8).call sampleFrame sampleInstall).2

def sampleDeleted : Machine Nat Nat Nat := (sampleIssued.call sampleFrame (.delete 0 1 1)).2

theorem stale_handle_stays_stale_deleted :
    sampleDeleted.caps.invalidations 0 1 = 1 ∧
      ∀ res, gjCapResolve sampleDeleted.caps 0 1 1 ≠ .ok res := by
  have client : 0 ∉ sampleFrame.cnodes := sampleFrame_cnodes.mpr (by decide)
  have avoids : sampleInstall.Avoids sampleFrame := ⟨client, sampleFrame_objects (.inl rfl)⟩
  have target : sampleInstall.creation = some (0, none) := rfl
  have issued : ((Machine.boot (fun _ => 4) fun _ => 8).call sampleFrame sampleInstall).1 =
      .handle { slot := 1, gen := 1 } := by
    decide +kernel
  have later : Reaches sampleFrame (fun _ _ => True) sampleIssued sampleDeleted :=
    .single ⟨.delete 0 1 1, client, trivial, rfl⟩
  have atIssue : sampleIssued.caps.invalidations 0 1 = 0 := by decide +kernel
  have now : sampleDeleted.caps.invalidations 0 1 = 1 := by decide +kernel
  unfold sampleIssued at atIssue
  refine ⟨now, (stale_handle_stays_stale (.boot sampleFrame _ _) avoids target issued later
    ?_ ?_).1⟩
  all_goals
    rw [atIssue, now]
    decide

end GreenJade.Cap

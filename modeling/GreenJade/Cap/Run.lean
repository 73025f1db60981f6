import GreenJade.Cap.Separation

/-! Owns whole runs of the capability layer: a client calls with pointers of its own, the
first successful calls run the self-tests on stack memory, and every state a run reaches
comes about through effects only. -/

namespace GreenJade.Cap

universe u v w

variable {C : Type u} {O : Type v} {Q : Type w}

/-- The calls that reach `cdt_soft_inventory_maybe_once`: those that succeed. -/
def CapOp.firesCdt : CapOp C O Q → CapReply → Bool
  | .resolve .., .status .ok => true
  | .slotInstall .., .handle _ => true
  | .allocInstall .., .handle _ => true
  | .mint .., .handle _ => true
  | .copy .., .handle _ => true
  | .move .., .handle _ => true
  | .delete .., .status .ok => true
  | _, _ => false

/-- The calls that reach `soft_revoke_inventory_maybe_once`. -/
def CapOp.firesRevoke (s : CapState C O Q) : CapOp C O Q → CapReply → Bool
  | .revokeBegin _, .status .ok => true
  | .revokeBegin _, .status .errAgain => true
  | .walkBatch _ maxSlots, _ => maxSlots ≠ 0
  | .processDeferred maxSlots, _ => maxSlots ≠ 0 ∧ min s.revokeQ.len revokeQMax ≠ 0
  | .reclaim _, .status .ok => true
  | _, _ => false

/-- The pointers a client passes are not stack memory of a self-test. -/
def CapOp.Avoids (frame : LeanFrame C O Q) : CapOp C O Q → Prop
  | .resolve c _ _ => c ∉ frame.cnodes
  | .slotInstall c _ _ _ o => c ∉ frame.cnodes ∧ o ∉ frame.objects
  | .allocInstall c _ _ o => c ∉ frame.cnodes ∧ o ∉ frame.objects
  | .mint src _ _ _ dst => src ∉ frame.cnodes ∧ dst.getD src ∉ frame.cnodes
  | .copy c _ _ _ => c ∉ frame.cnodes
  | .move c _ _ => c ∉ frame.cnodes
  | .delete c _ _ => c ∉ frame.cnodes
  | .invalidateObjSlots c o _ => c ∉ frame.cnodes ∧ o ∉ frame.objects
  | .deathWipe c => c ∉ frame.cnodes
  | .trylock c => c ∉ frame.cnodes
  | .unlock c => c ∉ frame.cnodes
  | .quotaAttach c account => c ∉ frame.cnodes ∧ account ≠ some frame.qLean
  | .quotaSetParent account parent => account ≠ some frame.qLean ∧ parent ≠ some frame.qLean
  | .revokeBegin o => o ∉ frame.objects
  | .walkBatch o _ => o ∉ frame.objects
  | .processDeferred _ => True
  | .reclaim o => o ∉ frame.objects

theorem CapOp.Avoids.respects {frame : LeanFrame C O Q} {op : CapOp C O Q}
    {s : CapState C O Q} (avoids : op.Avoids frame)
    (separated : Separated frame s) : op.Respects frame.clientScope s := by
  cases op with
  | resolve | delete | invalidateObjSlots | deathWipe | trylock | unlock | reclaim => trivial
  | slotInstall | allocInstall | quotaAttach | quotaSetParent | revokeBegin => exact avoids
  | mint => exact fun o names => ⟨avoids.2, separated.outside _ _ _ avoids.1 names⟩
  | copy => exact fun o names => ⟨avoids, separated.outside _ _ _ avoids names⟩
  | move => exact ⟨trivial, fun o names => ⟨avoids, separated.outside _ _ _ avoids names⟩⟩
  | walkBatch | processDeferred => exact fun _ => trivial

structure Tidy (frame : LeanFrame C O Q) (m : Machine C O Q) : Prop where
  wellFormed : WellFormed m.caps
  separated : Separated frame m.caps
  fresh : m.cdtSoftInvLogged = false → StackEmpty frame m.caps

/-- Freshly initialised memory is tidy, whichever self-test has been marked as done. -/
theorem Tidy.of_boot {frame : LeanFrame C O Q} {m : Machine C O Q} {cSlots : C → Nat}
    {limit : Q → U32} (caps : m.caps = .boot cSlots limit) :
    Tidy frame m where
  wellFormed := caps ▸ .boot cSlots limit
  separated := caps ▸ .boot frame cSlots limit
  fresh := fun _ => caps ▸ fun _ _ _ => rfl

variable [DecidableEq C] [DecidableEq O] [DecidableEq Q]

/-- A client's call with the self-tests it triggers. The source calls them at the end of
the function, or where nothing but the out-parameter is written after them. -/
def Machine.call (frame : LeanFrame C O Q) (m : Machine C O Q) (op : CapOp C O Q) :
    CapReply × Machine C O Q :=
  let (reply, caps) := op.exec m.caps
  let after := { m with caps }
  if op.firesCdt reply then (reply, cdtSoftInventoryMaybeOnce frame after)
  else if op.firesRevoke m.caps reply then (reply, softRevokeInventoryMaybeOnce frame after)
  else (reply, after)

def Step (frame : LeanFrame C O Q) (admissible : Machine C O Q → CapOp C O Q → Prop)
    (m m' : Machine C O Q) : Prop :=
  ∃ op : CapOp C O Q, op.Avoids frame ∧ admissible m op ∧ (m.call frame op).2 = m'

def Reaches (frame : LeanFrame C O Q) (admissible : Machine C O Q → CapOp C O Q → Prop) :
    Machine C O Q → Machine C O Q → Prop :=
  Relation.ReflTransGen (Step frame admissible)

def Reachable (frame : LeanFrame C O Q) (m : Machine C O Q) : Prop :=
  ∃ cSlots limit, Reaches frame (fun _ _ => True) (.boot cSlots limit) m

variable {frame : LeanFrame C O Q} {m m' : Machine C O Q} {op : CapOp C O Q}

/-! ### What one call does -/

/-- What the self-tests may emit; the first one only while its marker is not set. -/
def Machine.SelfTestEvent (frame : LeanFrame C O Q) (m : Machine C O Q) (event : Event C O Q) :
    Prop :=
  (m.cdtSoftInvLogged = false ∧ frame.cdtScope.Admits event) ∨ frame.revokeScope.Admits event

theorem cdtSoftInventoryMaybeOnce_leads (tidy : Tidy frame m) :
    Leads (fun event => m.cdtSoftInvLogged = false ∧ frame.cdtScope.Admits event) m.caps
        (cdtSoftInventoryMaybeOnce frame m).caps ∧
      Tidy frame (cdtSoftInventoryMaybeOnce frame m) := by
  unfold cdtSoftInventoryMaybeOnce
  split_ifs with done
  · exact ⟨.refl, tidy⟩
  · have pending : m.cdtSoftInvLogged = false := Bool.eq_false_iff.mpr done
    have leads := cdtLean_leads .start tidy.wellFormed tidy.separated (tidy.fresh pending)
    generalize (runScript (cdtLeanInit frame ++ cdtLeanChecks frame) (.start, m.caps)).2 = after
      at leads ⊢
    exact ⟨leads.mono fun _ admits => ⟨pending, admits⟩, leads.wellFormed tidy.wellFormed,
      leads.separated frame.cdtScope_keepsApart tidy.separated, by rintro ⟨⟩⟩

theorem softRevokeInventoryMaybeOnce_leads (tidy : Tidy frame m) :
    Leads frame.revokeScope.Admits m.caps (softRevokeInventoryMaybeOnce frame m).caps ∧
      Tidy frame (softRevokeInventoryMaybeOnce frame m) := by
  unfold softRevokeInventoryMaybeOnce
  split_ifs
  · exact ⟨.refl, tidy⟩
  · have leads := revokeLean_leads .start tidy.wellFormed tidy.separated
    generalize (runScript (revokeLeanScript frame) (.start, m.caps)).2 = after at leads ⊢
    exact ⟨leads, leads.wellFormed tidy.wellFormed,
      leads.separated frame.revokeScope_keepsApart tidy.separated,
      fun pending => leads.stackEmpty (fun _ _ _ _ _ none => none.elim) (tidy.fresh pending)⟩

/-- What a client's call does itself stays within the client's memory. -/
theorem Tidy.exec_leads (tidy : Tidy frame m) (avoids : op.Avoids frame) :
    Leads frame.clientScope.Admits m.caps (op.exec m.caps).2 :=
  (op.exec_leads tidy.wellFormed).mono fun _ =>
    CapOp.admits_of_emits (avoids.respects tidy.separated)

/-- The call without the self-tests leaves the machine tidy. -/
theorem Tidy.exec (tidy : Tidy frame m) (avoids : op.Avoids frame) :
    Tidy frame { m with caps := (op.exec m.caps).2 } := by
  have leads := tidy.exec_leads avoids
  exact
    { wellFormed := leads.wellFormed tidy.wellFormed
      separated := leads.separated frame.clientScope_keepsApart tidy.separated
      fresh := fun pending =>
        leads.stackEmpty (fun _ _ _ _ _ client => client.1) (tidy.fresh pending) }

/-- A client's call with its self-tests: first what the call emits, then what the self-tests
emit. -/
theorem Machine.call_leads (tidy : Tidy frame m) (avoids : op.Avoids frame) :
    Leads (m.SelfTestEvent frame) (op.exec m.caps).2 (m.call frame op).2.caps ∧
      Tidy frame (m.call frame op).2 := by
  have executed := tidy.exec avoids
  dsimp only [Machine.call]
  split_ifs
  · exact (cdtSoftInventoryMaybeOnce_leads executed).imp_left fun leads =>
      leads.mono fun _ => .inl
  · exact (softRevokeInventoryMaybeOnce_leads executed).imp_left fun leads =>
      leads.mono fun _ => .inr
  · exact ⟨.refl, executed⟩

/-! ### Runs -/

section Runs

variable {admissible : Machine C O Q → CapOp C O Q → Prop}

/-- A property of the machine that every admissible call keeps holds after a run. -/
theorem Reaches.invariant (property : Machine C O Q → Prop)
    (keeps : ∀ {m op}, Tidy frame m → op.Avoids frame → admissible m op → property m →
      property (m.call frame op).2)
    (reaches : Reaches frame admissible m m') (tidy : Tidy frame m) (start : property m) :
    Tidy frame m' ∧ property m' := by
  induction reaches with
  | refl => exact ⟨tidy, start⟩
  | tail _ step ih =>
    obtain ⟨op, avoids, permitted, rfl⟩ := step
    exact ⟨(Machine.call_leads ih.1 avoids).2, keeps ih.1 avoids permitted ih.2⟩

theorem Reaches.tidy (reaches : Reaches frame admissible m m') (tidy : Tidy frame m) :
    Tidy frame m' :=
  (reaches.invariant (fun _ => True) (fun _ _ _ _ => trivial) tidy trivial).1

/-- A property of the state that every event of an admissible call and of the self-tests
keeps holds after a run. -/
theorem Reaches.leads {allowed : Event C O Q → Prop}
    (calls : ∀ {m op event}, Tidy frame m → op.Avoids frame → admissible m op →
      op.Emits m.caps event → allowed event)
    (selfTests : ∀ {m : Machine C O Q} {event}, m.SelfTestEvent frame event → allowed event)
    (reaches : Reaches frame admissible m m') (tidy : Tidy frame m) :
    Leads allowed m.caps m'.caps := by
  refine (reaches.invariant (fun now => Leads allowed m.caps now.caps) ?_ tidy .refl).2
  intro now op tidyNow avoids permitted before
  have own : Leads allowed now.caps (op.exec now.caps).2 :=
    (op.exec_leads tidyNow.wellFormed).mono fun _ => calls tidyNow avoids permitted
  exact (before.trans own).trans ((Machine.call_leads tidyNow avoids).1.mono fun _ => selfTests)

/-- Whatever the calls are, the state comes about through effects. -/
theorem Reaches.leads_any (reaches : Reaches frame admissible m m') (tidy : Tidy frame m) :
    Leads (fun _ => True) m.caps m'.caps :=
  reaches.leads (fun _ _ _ _ => trivial) (fun _ => trivial) tidy

theorem Reachable.tidy (reachable : Reachable frame m) : Tidy frame m := by
  obtain ⟨cSlots, limit, reaches⟩ := reachable
  exact reaches.tidy (.of_boot rfl)

theorem Reachable.boot (frame : LeanFrame C O Q) (cSlots : C → Nat) (limit : Q → U32) :
    Reachable frame (.boot cSlots limit) :=
  ⟨cSlots, limit, .refl⟩

def Machine.calls (frame : LeanFrame C O Q) (m : Machine C O Q) (ops : List (CapOp C O Q)) :
    Machine C O Q :=
  ops.foldl (fun m op => (m.call frame op).2) m

theorem Reachable.call (reachable : Reachable frame m) (avoids : op.Avoids frame) :
    Reachable frame (m.call frame op).2 := by
  obtain ⟨cSlots, limit, reaches⟩ := reachable
  exact ⟨cSlots, limit, reaches.tail ⟨op, avoids, trivial, rfl⟩⟩

theorem Reachable.calls {ops : List (CapOp C O Q)} (reachable : Reachable frame m)
    (avoids : ∀ op ∈ ops, op.Avoids frame) : Reachable frame (m.calls frame ops) := by
  induction ops generalizing m with
  | nil => exact reachable
  | cons op rest ih =>
    exact ih (reachable.call (avoids op List.mem_cons_self))
      fun op member => avoids op (List.mem_cons_of_mem _ member)

end Runs

/-! ### A concrete layout -/

/-- Numbered memory: CNodes 1 and 2, objects 1 to 8 and account 1 are stack memory, all
other numbers are a client's. -/
def sampleFrame : LeanFrame Nat Nat Nat where
  cnSrc := 1
  cnDst := 2
  aObj := fun i => i + 1
  objNoMint := 4
  objQuota := 5
  qLean := 1
  aHdr := fun i => i + 6
  apart_obj := by decide
  apart_noMint := by decide
  apart_quota := by decide

theorem sampleFrame_cnodes {c : Nat} : c ∉ sampleFrame.cnodes ↔ c ≠ 1 ∧ c ≠ 2 := by
  simp [LeanFrame.cnodes, sampleFrame]

theorem sampleFrame_objects {o : Nat} (outside : o = 0 ∨ 8 < o) : o ∉ sampleFrame.objects := by
  simp only [LeanFrame.objects, LeanFrame.testObjects, sampleFrame, Set.mem_union, Set.mem_range,
    Set.mem_insert_iff, Set.mem_singleton_iff, not_or]
  exact ⟨⟨fun i => by omega, by omega, by omega⟩, fun i => by omega⟩

end GreenJade.Cap

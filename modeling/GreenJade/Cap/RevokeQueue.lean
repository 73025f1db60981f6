import GreenJade.Cap.Run

/-! Owns what the deferred queue guarantees: as long as no revoke of an object with slots or
edges finds the queue full, every dead object with work left is queued below the high-water
mark. It also owns the run in which the queue is full. -/

namespace GreenJade.Cap

open Function List RevokeQueue

universe u v w

variable {C : Type u} {O : Type v} {Q : Type w}

/-! ### The queue itself -/

namespace RevokeQueue

def Bounded (queue : RevokeQueue O) : Prop :=
  ∀ i, (queue.entry i).active = true → i.val < queue.len

theorem Bounded.boot : (boot : RevokeQueue O).Bounded :=
  fun _ active => absurd active Bool.false_ne_true

theorem lt_shrinkLen (entry : Fin revokeQMax → RevokeEntry O) {i : Nat}
    (active : activeAt entry i = true) : ∀ {len : Nat}, i < len → i < shrinkLen entry len
  | 0, below => below
  | len + 1, below => by
    rw [shrinkLen]
    split_ifs with last
    · exact below
    · refine lt_shrinkLen entry active (lt_of_le_of_ne (Nat.le_of_lt_succ below) ?_)
      rintro rfl
      exact last active

theorem Bounded.drop {queue : RevokeQueue O} (bounded : queue.Bounded) (i : Fin revokeQMax) :
    (queue.drop i).Bounded := by
  intro j active
  have different : j ≠ i := by
    rintro rfl
    simp [RevokeQueue.drop] at active
  have before : (queue.entry j).active = true := by
    simpa [RevokeQueue.drop, update_of_ne different] using active
  refine lt_shrinkLen _ ?_ (bounded j before)
  rw [activeAt, dif_pos j.isLt]
  exact active

theorem Queued.drop {queue : RevokeQueue O} {o : O} {i j : Fin revokeQMax}
    (holds : queue.entry j = { active := true, obj := some o }) (different : j ≠ i) :
    (queue.drop i).Queued o :=
  ⟨j, by simpa [RevokeQueue.drop, update_of_ne different] using holds⟩

variable [DecidableEq O] {queue queue' : RevokeQueue O} {o : O}

/-- A push that succeeds finds the object queued or fills a free entry. -/
theorem push_eq_some (pushed : queue.push o = some queue') :
    (queue' = queue ∧ queue.Queued o) ∨ ∃ i, (queue.entry i).active = false ∧
      queue' = { queue with
        entry := update queue.entry i { active := true, obj := some o }
        len := if queue.len ≤ i then i + 1 else queue.len } := by
  unfold push at pushed
  split_ifs at pushed with present
  · cases pushed
    obtain ⟨i, -, holds⟩ := any_eq_true.mp present
    exact .inl ⟨rfl, i, by simpa using holds⟩
  · split at pushed
    · simp at pushed
    · rename_i i found
      cases pushed
      have free := find?_some found
      exact .inr ⟨i, by simpa using free, rfl⟩

/-- A push that fails finds every entry active. -/
theorem push_eq_none (full : queue.push o = none) (i : Fin revokeQMax) :
    (queue.entry i).active = true := by
  unfold push at full
  split_ifs at full
  split at full
  · rename_i none
    simpa using find?_eq_none.mp none i (mem_finRange i)
  · simp at full

theorem Bounded.push (bounded : queue.Bounded) (pushed : queue.push o = some queue') :
    queue'.Bounded := by
  rcases push_eq_some pushed with ⟨rfl, -⟩ | ⟨i, -, rfl⟩
  · exact bounded
  · intro j active
    by_cases here : j = i
    · dsimp only
      split_ifs <;> omega
    · have before := bounded j (by simpa [update_of_ne here] using active)
      dsimp only
      split_ifs <;> omega

theorem queued_of_push (pushed : queue.push o = some queue') : queue'.Queued o := by
  rcases push_eq_some pushed with ⟨rfl, queued⟩ | ⟨i, -, rfl⟩
  · exact queued
  · exact ⟨i, by simp⟩

/-- A push overwrites no active entry. -/
theorem Queued.push {x : O} (queued : queue.Queued x) (pushed : queue.push o = some queue') :
    queue'.Queued x := by
  rcases push_eq_some pushed with ⟨rfl, -⟩ | ⟨i, free, rfl⟩
  · exact queued
  · obtain ⟨j, holds⟩ := queued
    have different : j ≠ i := by
      rintro rfl
      simp [holds] at free
    exact ⟨j, by simpa [update_of_ne different] using holds⟩

end RevokeQueue

/-! ### Work that is left -/

theorem WellFormed.head_eq_none_iff {s : CapState C O Q} (wellFormed : WellFormed s) (o : O) :
    s.cdt.head o = none ↔ s.cdt.chain o = [] := by
  rw [(wellFormed.sound.chained o).head_eq, head?_eq_none_iff]

variable {s s' : CapState C O Q} {o : O} {event : Event C O Q}
variable {frame : LeanFrame C O Q} {m : Machine C O Q} {op : CapOp C O Q}

def WorkLeft (s : CapState C O Q) (o : O) : Prop :=
  (s.obj o).state = .dead ∧ ¬ HygieneDone s o

theorem WorkLeft.congr (work : WorkLeft s' o) (obj : s'.obj o = s.obj o)
    (cdt : s'.cdt.head o = none ↔ s.cdt.head o = none) : WorkLeft s o := by
  unfold WorkLeft HygieneDone at *
  rwa [← obj, ← cdt]

/-- Every dead object of a client that has slots or edges left is in an active entry of the
deferred queue below `g_u32RevokeQLen`. -/
def RevokeWorkQueued (frame : LeanFrame C O Q) (s : CapState C O Q) : Prop :=
  ∀ o ∉ frame.objects, (s.obj o).state = .dead →
    (0 < (s.obj o).slotsLeft ∨ s.cdt.head o ≠ none) →
    ∃ i : Fin revokeQMax, i.val < s.revokeQ.len ∧
      s.revokeQ.entry i = { active := true, obj := some o }

/-- The form in which the effects keep it. -/
structure NoneLost (frame : LeanFrame C O Q) (s : CapState C O Q) : Prop where
  bounded : s.revokeQ.Bounded
  queued : ∀ o ∉ frame.objects, WorkLeft s o → s.revokeQ.Queued o

theorem NoneLost.revokeWorkQueued (noneLost : NoneLost frame s) :
    RevokeWorkQueued frame s := by
  intro o client dead left
  have work : WorkLeft s o := by
    refine ⟨dead, fun done => ?_⟩
    rcases left with counted | edges
    · simp [done.1] at counted
    · exact edges done.2
  obtain ⟨i, holds⟩ := noneLost.queued o client work
  exact ⟨i, noneLost.bounded i (by rw [holds]), holds⟩

/-- Events that lose no work of a client's object. -/
def LosesNothing (frame : LeanFrame C O Q) : Event C O Q → Prop
  | .kill o queued => o ∈ frame.objects ∨ queued = true
  | .pokeDead o => o ∈ frame.objects
  | .resetField o => o ∈ frame.objects
  | _ => True

theorem Machine.SelfTestEvent.losesNothing (selfTest : m.SelfTestEvent frame event) :
    LosesNothing frame event := by
  cases event with
  | kill o queued =>
    rcases selfTest with ⟨-, none⟩ | header
    · exact none.elim
    · exact .inl (.inr header)
  | pokeDead o =>
    rcases selfTest with ⟨-, test⟩ | none
    · exact .inl test
    · exact none.elim
  | resetField o =>
    rcases selfTest with ⟨-, none⟩ | header
    · exact none.elim
    · exact .inr header
  | _ => trivial

section

variable [DecidableEq O]

/-- Only the edges of one object change, and they only get fewer. -/
theorem WorkLeft.of_shrunk (wellFormed : WellFormed s) {cdt : Cdt C O} {x : O}
    {keep : EdgePtr → Bool}
    (becomes : s.cdt.Becomes cdt (update s.cdt.chain x ((s.cdt.chain x).filter keep)))
    (work : WorkLeft { s with cdt } o) : WorkLeft s o := by
  refine ⟨work.1, fun done => work.2 ⟨done.1, ?_⟩⟩
  have before := (wellFormed.head_eq_none_iff o).mp done.2
  have empty : update s.cdt.chain x ((s.cdt.chain x).filter keep) o = [] := by
    by_cases here : o = x
    · subst here
      rw [update_self, before, filter_nil]
    · rw [update_of_ne here, before]
  have chained := becomes.sound.chained o
  rw [becomes.chain, empty] at chained
  exact chained.head_eq

theorem CapOp.losesNothing_of_emits (begins : ∀ o, op ≠ .revokeBegin o) (emits : op.Emits s event) :
    LosesNothing frame event := by
  cases event with
  | kill o queued =>
    cases op with
    | revokeBegin x => exact absurd rfl (begins x)
    | _ => simp [CapOp.Emits] at emits
  | pokeDead | resetField => cases op <;> simp [CapOp.Emits] at emits
  | _ => trivial

end

/-! ### Work left behind by an effect -/

variable [DecidableEq C] [DecidableEq O] [DecidableEq Q]

/-- Work of an object exists before every effect after which it exists, except its own death
and the writes of a self-test to its own headers. -/
theorem Effect.workLeft_before (effect : Effect s event s') (wellFormed : WellFormed s)
    (killed : ∀ queued, event ≠ .kill o queued) (poked : event ≠ .pokeDead o)
    (reset : event ≠ .resetField o) (work : WorkLeft s' o) : WorkLeft s o := by
  have otherHeader : ∀ {x : O} {hdr : ObjHdr} {t : CapState C O Q}, o ≠ x →
      t.obj = update s.obj x hdr → t.obj o = s.obj o := by
    intro x hdr t different written
    rw [written, update_of_ne different]
  cases effect with
  | @install c i capType rights x charged ready paid =>
    by_cases here : o = x
    · subst here
      have live := ready.live
      simp [WorkLeft, live] at work
    · exact work.congr (otherHeader here rfl) Iff.rfl
  | @wire x c i holds live unwired =>
    by_cases here : o = x
    · subst here
      exact nomatch live.symm.trans work.1
    · refine work.congr rfl ?_
      have after : WellFormed (tryWire s x c i) := wellFormed.tryWire holds unwired
      rw [after.head_eq_none_iff, wellFormed.head_eq_none_iff]
      rcases cdtEdgeTryWire_cases (o := x) wellFormed.sound c holds.1 with ⟨-, same⟩ |
          ⟨new, -, becomes, -⟩
      · rw [tryWire, same]
      · rw [tryWire, becomes.chain, update_of_ne here]
  | @unlinkSlot x c i =>
    exact work.of_shrunk wellFormed (gjCdtUnlinkSlot_becomes wellFormed.sound x c i)
  | @unlinkEdge x edge =>
    exact work.of_shrunk wellFormed (gjCdtEdgeUnlink_becomes wellFormed.sound x edge)
  | @clear c i x holds unwired =>
    by_cases here : o = x
    · subst here
      simp only [WorkLeft, HygieneDone, clearSlot_obj, update_self, ObjHdr.slotGone] at work ⊢
      split_ifs at work with above
      · exact ⟨work.1, fun done => by simp [done.1] at above⟩
      · exact work
    · exact work.congr (otherHeader here rfl) Iff.rfl
  | @killQueued x queue live pushed =>
    exact work.congr (otherHeader (fun same => killed true (same ▸ rfl)) rfl) Iff.rfl
  | @killMissed x live full =>
    exact work.congr (otherHeader (fun same => killed false (same ▸ rfl)) rfl) Iff.rfl
  | @resetObj x unnamed =>
    by_cases here : o = x
    · subst here
      simp [WorkLeft, initObj, gjObjHdrInit] at work
    · apply work.congr (otherHeader here rfl)
      simp [initObj, update_of_ne here]
  | @resetField x field unnamed =>
    exact work.congr (otherHeader (fun same => reset (same ▸ rfl)) rfl) Iff.rfl
  | @pokeDead x => exact work.congr (otherHeader (fun same => poked (same ▸ rfl)) rfl) Iff.rfl
  | _ => exact work

/-- An object with work left stays queued. -/
theorem Effect.queued_after (effect : Effect s event s') (work : WorkLeft s o)
    (queued : s.revokeQ.Queued o) : s'.revokeQ.Queued o := by
  cases effect with
  | killQueued live pushed => exact queued.push pushed
  | @dropEntry i droppable =>
    obtain ⟨j, holds⟩ := queued
    have different : j ≠ i := by
      rintro rfl
      rcases droppable o (by rw [holds]) with notDead | done
      · exact notDead work.1
      · exact work.2 done
    exact .drop holds different
  | _ => exact queued

theorem Effect.bounded (effect : Effect s event s') (bounded : s.revokeQ.Bounded) :
    s'.revokeQ.Bounded := by
  cases effect with
  | killQueued live pushed => exact bounded.push pushed
  | @dropEntry i droppable => exact bounded.drop i
  | _ => exact bounded

/-! ### Runs -/

/-- Work that an effect does not create itself stays queued. -/
theorem NoneLost.queued_after (noneLost : NoneLost frame s) (wellFormed : WellFormed s)
    (effect : Effect s event s') (loses : LosesNothing frame event) (client : o ∉ frame.objects)
    (killed : ∀ queued, event ≠ .kill o queued) (work : WorkLeft s' o) : s'.revokeQ.Queued o := by
  have before : WorkLeft s o := by
    refine effect.workLeft_before wellFormed killed ?_ ?_ work
    all_goals
      rintro rfl
      exact client loses
  exact effect.queued_after before (noneLost.queued o client before)

theorem Effect.noneLost (effect : Effect s event s') (wellFormed : WellFormed s)
    (loses : LosesNothing frame event) (noneLost : NoneLost frame s) : NoneLost frame s' := by
  refine ⟨effect.bounded noneLost.bounded, fun o client work => ?_⟩
  by_cases killed : ∃ queued, event = .kill o queued
  · obtain ⟨queued, rfl⟩ := killed
    obtain rfl : queued = true := loses.resolve_left client
    cases effect with
    | killQueued live pushed => exact queued_of_push pushed
  · exact noneLost.queued_after wellFormed effect loses client (not_exists.mp killed) work

theorem Leads.noneLost {allowed : Event C O Q → Prop} (leads : Leads allowed s s')
    (loses : ∀ event, allowed event → LosesNothing frame event) (wellFormed : WellFormed s)
    (noneLost : NoneLost frame s) : NoneLost frame s' :=
  (leads.invariant (fun now => WellFormed now ∧ NoneLost frame now)
    (fun permitted effect ⟨wellFormed, noneLost⟩ =>
      ⟨effect.wellFormed wellFormed, effect.noneLost wellFormed (loses _ permitted) noneLost⟩)
    ⟨wellFormed, noneLost⟩).2

/-- A revoke of a live object finds a free queue entry. -/
def BeginsWithRoom (m : Machine C O Q) : CapOp C O Q → Prop
  | .revokeBegin o => (m.caps.obj o).state = .live → ∃ i, (m.caps.revokeQ.entry i).active = false
  | _ => True

/-- With a free entry the push goes through. -/
theorem push_isSome {queue : RevokeQueue O} (room : ∃ i, (queue.entry i).active = false) :
    ∃ pushed, queue.push o = some pushed := by
  obtain ⟨i, free⟩ := room
  cases pushed : queue.push o with
  | none => simp [push_eq_none pushed i] at free
  | some queue => exact ⟨queue, rfl⟩

theorem NoneLost.revokeBegin (noneLost : NoneLost frame m.caps) (wellFormed : WellFormed m.caps)
    (room : BeginsWithRoom m (.revokeBegin o)) :
    NoneLost frame (gjObjRevokeBegin m.caps o).2 := by
  dsimp only [gjObjRevokeBegin]
  split_ifs with notLive
  · exact noneLost
  · have live : (m.caps.obj o).state = .live := not_not.mp notLive
    have sameQueue : (m.caps.setObj o { m.caps.obj o with
        state := .dead, gen := (m.caps.obj o).gen + 1 }).revokeQ = m.caps.revokeQ := rfl
    obtain ⟨queue, pushed⟩ := push_isSome (o := o) (room live)
    rw [sameQueue, pushed]
    exact (Effect.killQueued live pushed).noneLost wellFormed (.inr rfl) noneLost

theorem NoneLost.call (tidy : Tidy frame m) (avoids : op.Avoids frame)
    (room : BeginsWithRoom m op) (noneLost : NoneLost frame m.caps) :
    NoneLost frame (m.call frame op).2.caps := by
  have executed : NoneLost frame (op.exec m.caps).2 := by
    by_cases begins : ∃ o, op = .revokeBegin o
    · obtain ⟨o, rfl⟩ := begins
      exact noneLost.revokeBegin tidy.wellFormed room
    · exact (op.exec_leads tidy.wellFormed).noneLost
        (fun _ => CapOp.losesNothing_of_emits (not_exists.mp begins)) tidy.wellFormed noneLost
  exact (Machine.call_leads tidy avoids).1.noneLost (fun _ => Machine.SelfTestEvent.losesNothing)
    (tidy.exec avoids).wellFormed executed

/-- In every run in which each revoke of a live object finds a free queue entry, no work item is
dropped: every dead object with work left is queued below the high-water mark, and a revoke
that finds a free entry never asks to be tried again. -/
theorem revoke_work_stays_queued {cSlots : C → Nat} {limit : Q → U32}
    (reaches : Reaches frame BeginsWithRoom (.boot cSlots limit) m) :
    RevokeWorkQueued frame m.caps ∧
      ∀ o, BeginsWithRoom m (.revokeBegin o) → (gjObjRevokeBegin m.caps o).1 ≠ .errAgain := by
  have start : NoneLost frame (CapState.boot cSlots limit : CapState C O Q) :=
    ⟨.boot, fun o _ work => absurd work.1 nofun⟩
  obtain ⟨-, noneLost⟩ := reaches.invariant (fun m => NoneLost frame m.caps)
    (fun tidy avoids room noneLost => noneLost.call tidy avoids room) (.of_boot rfl) start
  refine ⟨noneLost.revokeWorkQueued, fun o room again => ?_⟩
  dsimp only [gjObjRevokeBegin] at again
  split_ifs at again with notLive
  obtain ⟨queue, pushed⟩ := push_isSome (o := o) (room (not_not.mp notLive))
  split at again
  next full => exact absurd (pushed.symm.trans full) (by rintro ⟨⟩)
  next => exact absurd again (by rintro ⟨⟩)

/-! ### With room, and without -/

def sampleOwned : Machine Nat Nat Nat :=
  ((Machine.boot (fun _ => 4) fun _ => 8).call sampleFrame
    (.slotInstall 0 1 .frame GjRight.mint 9)).2

theorem revoke_work_stays_queued_sample :
    ∃ i : Fin revokeQMax,
      i.val < (sampleOwned.call sampleFrame (.revokeBegin 9)).2.caps.revokeQ.len ∧
      (sampleOwned.call sampleFrame (.revokeBegin 9)).2.caps.revokeQ.entry i =
        { active := true, obj := some 9 } := by
  have client : 9 ∉ sampleFrame.objects := sampleFrame_objects (.inr (by decide))
  have reaches : Reaches sampleFrame BeginsWithRoom (.boot (fun _ => 4) fun _ => 8)
      (sampleOwned.call sampleFrame (.revokeBegin 9)).2 := by
    refine Relation.ReflTransGen.tail
      (.single ⟨.slotInstall 0 1 .frame GjRight.mint 9, ?_, ?_, rfl⟩)
      ⟨.revokeBegin 9, client, ?_, rfl⟩
    · exact ⟨sampleFrame_cnodes.mpr (by decide), client⟩
    · trivial
    · exact fun _ => ⟨0, by decide +kernel⟩
  exact (revoke_work_stays_queued reaches).1 9 client (by decide +kernel) (.inl (by decide +kernel))

/-- 64 revoked objects that nobody has reclaimed fill the queue. -/
def sampleFullQueue : Machine Nat Nat Nat :=
  sampleOwned.calls sampleFrame ((List.range 64).map fun k => .revokeBegin (10 + k))

/-- The revoke of the object with a slot is asked to try again, and a second attempt is
refused because the object is already dead: its slot is never queued for clearing. -/
theorem revoke_work_dropped_when_full :
    Reachable sampleFrame (sampleFullQueue.call sampleFrame (.revokeBegin 9)).2 ∧
      (sampleFullQueue.call sampleFrame (.revokeBegin 9)).1 = .status .errAgain ∧
      ¬ RevokeWorkQueued sampleFrame (sampleFullQueue.call sampleFrame (.revokeBegin 9)).2.caps ∧
      gjObjRevokeBegin (sampleFullQueue.call sampleFrame (.revokeBegin 9)).2.caps 9 =
        (.errDead, (sampleFullQueue.call sampleFrame (.revokeBegin 9)).2.caps) := by
  have client : ∀ o, 8 < o → o ∉ sampleFrame.objects := fun o above =>
    sampleFrame_objects (.inr above)
  have owned : Reachable sampleFrame sampleOwned :=
    (Reachable.boot _ _ _).call ⟨sampleFrame_cnodes.mpr (by decide), client 9 (by decide)⟩
  have full : Reachable sampleFrame sampleFullQueue := by
    refine owned.calls fun op member => ?_
    obtain ⟨k, -, rfl⟩ := mem_map.mp member
    exact client (10 + k) (by omega)
  have facts : (sampleFullQueue.call sampleFrame (.revokeBegin 9)).1 = .status .errAgain ∧
      ((sampleFullQueue.call sampleFrame (.revokeBegin 9)).2.caps.obj 9).state = .dead ∧
      0 < ((sampleFullQueue.call sampleFrame (.revokeBegin 9)).2.caps.obj 9).slotsLeft ∧
      ∀ i, (sampleFullQueue.call sampleFrame (.revokeBegin 9)).2.caps.revokeQ.entry i ≠
        { active := true, obj := some 9 } := by
    decide +kernel
  obtain ⟨again, dead, named, absent⟩ := facts
  refine ⟨full.call (client 9 (by decide)), again, fun queued => ?_, ?_⟩
  · obtain ⟨i, -, holds⟩ := queued 9 (client 9 (by decide)) dead (.inl named)
    exact absent i holds
  · rw [gjObjRevokeBegin, if_pos (by rw [dead]; decide)]

end GreenJade.Cap

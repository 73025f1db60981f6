import GreenJade.Sync.FutexSlots

/-! Owns whose slot a wait slot is when waits are cancelled: the slot of a thread that goes on
waiting is left as it is by every event, but for the resumption of a cancelled waiter. It keeps the
pointer to its slot across the sleep, and clears the slot although another thread may have claimed
it since. -/

namespace GreenJade.Sync

open Function Futex

namespace Futex

variable {n : Nat} {st after : Futex n}

/-- The slot of every thread that waits before and after is the same. -/
def Keeps (st after : Futex n) : Prop :=
  ∀ t k, st.blocked t = some k → after.blocked t = some k → after.waiters k = st.waiters k

/-- An event leaves the slot of every thread alone that goes on waiting in it. -/
def Undisturbed (st : Futex n) (event : FutexEvent n) : Prop := st.Keeps (st.next event)

/-- Fewer threads wait, and the slots of those that do are the same. -/
structure Fewer (st after : Futex n) : Prop where
  quiet : after.Quiet
  same : ∀ t k, after.blocked t = some k → st.blocked t = some k ∧ after.waiters k = st.waiters k

variable {k : Slot}

theorem Fewer.endWait (fewer : st.Fewer after) (used : (after.waiters k).used = true)
    (waiting : (after.waiters k).waiting = true) (late : Bool) :
    st.Fewer (after.endWait k late) := by
  refine ⟨fewer.quiet.endWait used waiting late, fun u j other => ?_⟩
  obtain ⟨t, args, -, isBlocked, -, effect⟩ := fewer.quiet.sound.endWait_eq used waiting late
  rw [effect, unblock_blocked, update_apply] at other
  split_ifs at other with same
  have apart : j ≠ k := fun here => same (fewer.quiet.sound.alone (here ▸ other) isBlocked)
  rw [effect, unblock_waiters, setWaiter_waiters, update_of_ne apart]
  exact fewer.same u j other

theorem Fewer.wipe (fewer : st.Fewer after) (ended : (after.waiters k).waiting = false) :
    st.Fewer (after.setWaiter k .zero) := by
  refine ⟨fewer.quiet.wipe ended, fun u j other => ?_⟩
  obtain ⟨args, -, registered⟩ := fewer.quiet.sound.waits u j other
  rw [setWaiter_waiters, update_of_ne]
  · exact fewer.same u j other
  · rintro rfl
    rw [registered] at ended
    cases ended

theorem Fewer.cancelSlot (fewer : st.Fewer after)
    (used : (after.waiters k).used = true) : st.Fewer (after.cancelSlot k) := by
  unfold Futex.cancelSlot
  split_ifs with waiting
  · exact (fewer.endWait used waiting false).wipe (fewer.quiet.endWait_over used waiting)
  · exact fewer.wipe (Bool.eq_false_iff.mpr waiting)

theorem Quiet.fewer (quiet : st.Quiet) : st.Fewer st :=
  ⟨quiet, fun _ _ isBlocked => ⟨isBlocked, rfl⟩⟩

theorem Fewer.keeps (fewer : st.Fewer after) : st.Keeps after :=
  fun t k _ isBlocked => (fewer.same t k isBlocked).2

/-- A slot that no thread waits in is rewritten. -/
theorem Sound.keeps_free (sound : st.Sound) (free : (st.waiters k).used = false)
    (slots : ∀ j, j ≠ k → after.waiters j = st.waiters j) : st.Keeps after := by
  intro u j isBlocked _
  obtain ⟨args, -, registered⟩ := sound.waits u j isBlocked
  apply slots j
  rintro rfl
  rw [registered] at free
  cases free

/-- An event leaves the slots of threads that go on waiting alone exactly if it is not the
resumption of a waiter whose slot another thread waits in. -/
theorem Sound.undisturbed_iff (sound : st.Sound) (event : FutexEvent n) :
    st.Undisturbed event ↔ st.Undisputed event := by
  constructor
  · intro undisturbed
    cases event with
    | resume t =>
      intro k args isParked awake unlocked u isBlocked
      have resumed : st.next (.resume t) = (st.freeSlot k).setPhase t .idle := by
        unfold Futex.next
        rw [step_resume isParked awake unlocked]
        rfl
      unfold Undisturbed at undisturbed
      rw [resumed] at undisturbed
      have same : (st.freeSlot k).waiters k = st.waiters k := undisturbed u k isBlocked isBlocked
      obtain ⟨args', -, registered⟩ := sound.waits u k isBlocked
      unfold freeSlot at same
      rw [setWaiter_waiters, update_self, registered] at same
      exact absurd (congrArg FutexWaiter.used same) Bool.false_ne_true
    | _ => trivial
  · intro undisputed
    have effect := sound.effect event
    unfold Undisturbed
    generalize st.outcome event = result at effect
    generalize st.next event = after at effect ⊢
    cases effect with
    | skip | reject | wakeEarly | store | enter | refuse | park => exact fun _ _ _ _ => rfl
    | expire t now args k waiter entered unlocked free
    | register t now args k entered unlocked free =>
      exact sound.keeps_free free fun j apart => update_of_ne apart _ _
    | retract t k args waiter isRegistered changed given =>
      intro u j isBlocked still
      have mine := (sound.held t k args isRegistered).2
      refine update_of_ne ?_ _ _
      rintro rfl
      rw [sound.alone isBlocked mine] at still
      exact absurd ((update_self ..).symm.trans still) (Option.some_ne_none _).symm
    | resume t k args isParked awake unlocked =>
      intro u j isBlocked _
      refine update_of_ne ?_ _ _
      rintro rfl
      exact undisputed _ args isParked awake unlocked u isBlocked
    | wake key count bitset unlocked =>
      exact (wakeLoop_induct st.Fewer (fun _ _ fewer found => fewer.endWait
        (matching_waits found).1 (matching_waits found).2 false) _ _ _ _
        (Quiet.fewer ⟨sound, unlocked⟩)).keeps
    | timerCheck now unlocked =>
      exact (timerCheck_induct st.Fewer now (fun _ _ fewer used waiting =>
        fewer.endWait used waiting true) (Quiet.fewer ⟨sound, unlocked⟩)).keeps
    | cancel t unlocked =>
      exact (cancelThr_induct st.Fewer (fun _ _ fewer used _ => fewer.cancelSlot used)
        (Quiet.fewer ⟨sound, unlocked⟩)).keeps

end Futex

/-- In every run of waits, wakes, timer checks and cancellations, every event leaves the slots of
the threads alone that go on waiting in them exactly if no waiter resumes while another thread waits
in the slot that it claimed. -/
theorem futexRuns_undisturbed_iff {n : Nat} (words : U64 → U32) (events : List (FutexEvent n)) :
    (∀ front event back, events = front ++ event :: back →
        ((init n words).run front).Undisturbed event) ↔
      StepRuns.Meets Futex.next Undisputed (init n words) events := by
  have keeps (st : Futex n) (event : FutexEvent n) (sound : st.Sound)
      (undisputed : st.Undisputed event) : (st.next event).Sound := sound.next undisputed
  have exactly (st : Futex n) (event : FutexEvent n) (sound : st.Sound) :
      st.Undisturbed event ↔ st.Undisputed event := sound.undisturbed_iff event
  exact (StepRuns.meets_iff_steps keeps exactly (init_sound words)).symm

/-- The first thread is cancelled, the second claims its slot, and the first resumes: the slot is
cleared, and no wake finds the second thread. -/
theorem futexRuns_cancel_resume :
    ((init 2 fun _ => 0).run (sampleWait 0 ++ [.cancel 0] ++ sampleWait 1)).blocked 1 =
        some 0 ∧
      ¬((init 2 fun _ => 0).run (sampleWait 0 ++ [.cancel 0] ++ sampleWait 1)).Undisturbed
        (.resume 0) ∧
      ((init 2 fun _ => 0).run
        (sampleWait 0 ++ [.cancel 0] ++ sampleWait 1 ++ [.resume 0])).outcome
          (.wake (some sampleKey) 1 1) = some 0 ∧
      ((init 2 fun _ => 0).run (sampleWait 0 ++ [.cancel 0] ++ sampleWait 1 ++
          [.resume 0, .wake (some sampleKey) 1 1])).blocked 1 = some 0 := by
  refine ⟨by decide +kernel, fun undisturbed => ?_, by decide +kernel, by decide +kernel⟩
  have same := undisturbed 1 0 (by decide +kernel) (by decide +kernel)
  exact absurd (congrArg FutexWaiter.used same) (by decide +kernel)

end GreenJade.Sync

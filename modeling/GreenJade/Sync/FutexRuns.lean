import Mathlib.Data.Fintype.Card
import GreenJade.Sync.FutexSlots

/-! Owns the accounting of waits and wakes over runs without cancellations: how many waiters a wake
counts, what a waiter that was counted returns, that a call returns once, and that no waiter stays
asleep whose word was changed before a wake. -/

namespace GreenJade.Sync

open Function List Option Futex

namespace Futex

variable {n : Nat} {st : Futex n}

/-! ### The loop of a wake -/

section Loop

variable {key : FutexKey} {bitset : U32}

@[simp] theorem threadWake_waiters (st : Futex n) (k : Slot) :
    (st.threadWake k).waiters = st.waiters := by
  unfold threadWake
  split <;> rfl

theorem endWait_waiters (st : Futex n) (k : Slot) (late : Bool) :
    (st.endWait k late).waiters = update st.waiters k
      { st.waiters k with waiting := false, timedOut := (st.waiters k).timedOut || late } := by
  unfold endWait
  rw [threadWake_waiters, setWaiter_waiters]

theorem endWait_matching {j k : Slot} (apart : j ≠ k) (late : Bool) :
    (st.endWait k late).matching key bitset j = st.matching key bitset j := by
  unfold matching
  rw [endWait_waiters, update_of_ne apart]

/-- The loop leaves slots alone that it does not visit. -/
theorem wakeLoop_waiters {k : Slot} (count : Nat) (list : List Slot) :
    ∀ (woken : Nat) (st : Futex n), k ∉ list →
      (wakeLoop key count bitset list woken st).2.waiters k = st.waiters k := by
  induction list with
  | nil => exact fun _ _ _ => rfl
  | cons j rest ih =>
    intro woken st away
    rw [mem_cons, not_or] at away
    unfold wakeLoop
    split_ifs with more found
    · rw [ih _ _ away.2, endWait_waiters, update_of_ne away.1]
    · exact ih _ _ away.2
    · rfl

def matchCount (st : Futex n) (key : FutexKey) (bitset : U32) (list : List Slot) : Nat :=
  list.countP (st.matching key bitset)

variable {list : List Slot}

theorem endWait_matchCount {k : Slot} (away : k ∉ list) (late : Bool) :
    (st.endWait k late).matchCount key bitset list = st.matchCount key bitset list := by
  refine countP_congr fun j inside => ?_
  have apart : j ≠ k := fun same => away (same ▸ inside)
  rw [endWait_matching apart]

/-- The loop counts as many waiters as it may. -/
theorem wakeLoop_count (count : Nat) (distinct : list.Nodup) :
    ∀ {woken : Nat} (st : Futex n), woken ≤ count →
      (wakeLoop key count bitset list woken st).1 =
        min count (woken + st.matchCount key bitset list) := by
  induction list with
  | nil =>
    intro woken st few
    exact (min_eq_right few).symm
  | cons k rest ih =>
    intro woken st few
    obtain ⟨away, distinct⟩ := nodup_cons.mp distinct
    have split : st.matchCount key bitset (k :: rest) =
        st.matchCount key bitset rest + if st.matching key bitset k then 1 else 0 :=
      countP_cons
    rw [split]
    unfold wakeLoop
    split
    · next more =>
          split_ifs with found
          · rw [ih distinct _ more, endWait_matchCount away]
            congr 1
            omega
          · exact ih distinct _ few
    · have full : woken = count := by omega
      rw [full, min_eq_left (by omega)]

/-- Before the loop no wait of a matching waiter is over. -/
theorem countP_over (st : Futex n) (list : List Slot) :
    (list.countP fun k => st.matching key bitset k && !(st.waiters k).waiting) = 0 := by
  refine countP_eq_zero.mpr fun k _ counted => ?_
  rw [Bool.and_eq_true] at counted
  rw [(matching_waits counted.1).2] at counted
  exact absurd counted.2 Bool.false_ne_true

/-- The slots whose waiters the loop has counted are those whose wait is over. -/
theorem wakeLoop_counted (count : Nat) (distinct : list.Nodup) :
    ∀ (woken : Nat) (st : Futex n), (wakeLoop key count bitset list woken st).1 =
      woken + list.countP fun k => st.matching key bitset k &&
        !((wakeLoop key count bitset list woken st).2.waiters k).waiting := by
  induction list with
  | nil => exact fun _ _ => rfl
  | cons k rest ih =>
    intro woken st
    obtain ⟨away, distinct⟩ := nodup_cons.mp distinct
    unfold wakeLoop
    by_cases more : woken < count
    · by_cases found : st.matching key bitset k = true
      · simp only [if_pos more, if_pos found]
        have later := ih distinct (woken + 1) (st.endWait k false)
        have ended : ((wakeLoop key count bitset rest (woken + 1)
            (st.endWait k false)).2.waiters k).waiting = false := by
          rw [wakeLoop_waiters count rest _ _ away, endWait_waiters, update_self]
        rw [countP_cons, found, ended]
        have same : (rest.countP fun j => (st.endWait k false).matching key bitset j &&
            !((wakeLoop key count bitset rest (woken + 1)
              (st.endWait k false)).2.waiters j).waiting) =
            rest.countP fun j => st.matching key bitset j &&
              !((wakeLoop key count bitset rest (woken + 1)
                (st.endWait k false)).2.waiters j).waiting :=
          countP_congr fun j inside => by
            have apart : j ≠ k := fun same => away (same ▸ inside)
            rw [endWait_matching apart]
        simp only [Bool.not_false, Bool.and_self, if_true]
        omega
      · simp only [if_pos more]
        rw [countP_cons, Bool.eq_false_iff.mpr found]
        exact ih distinct woken st
    · simp only [if_neg more]
      rw [countP_over, Nat.add_zero]

/-- A slot after the loop is as before, or its wait is over. -/
theorem wakeLoop_slot (count : Nat) (k : Slot) (list : List Slot) (woken : Nat) (st : Futex n) :
    (wakeLoop key count bitset list woken st).2.waiters k = st.waiters k ∨
      (wakeLoop key count bitset list woken st).2.waiters k =
        { st.waiters k with waiting := false } := by
  refine wakeLoop_induct (fun after => after.waiters k = st.waiters k ∨
    after.waiters k = { st.waiters k with waiting := false }) (fun after j before _ => ?_) count
    list woken st (Or.inl rfl)
  rw [endWait_waiters, update_apply]
  split_ifs with here
  · subst here
    rw [Bool.or_false]
    rcases before with same | ended
    · exact Or.inr (by rw [same])
    · exact Or.inr (by rw [ended])
  · exact before

end Loop

/-! ### Runs without cancellations -/

def NoCancel (events : List (FutexEvent n)) : Prop := ∀ t, .cancel t ∉ events

theorem noCancel_cons {event : FutexEvent n} {rest : List (FutexEvent n)} :
    NoCancel (event :: rest) ↔ (∀ t, event ≠ .cancel t) ∧ NoCancel rest := by
  simp [NoCancel, forall_and, eq_comm]

/-- A thread that sleeps or is about to take up again still has its slot. -/
structure Whole (st : Futex n) : Prop where
  sound : st.Sound
  slot : ∀ t k args, st.phase t = .parked k args →
    (st.waiters k).used = true ∧ (st.waiters k).thr = some t

theorem init_whole (words : U64 → U32) : (init n words).Whole :=
  ⟨init_sound words, fun _ _ _ isParked => nomatch isParked⟩

theorem Whole.undisputed (whole : st.Whole) (event : FutexEvent n) : st.Undisputed event := by
  cases event with
  | resume t =>
    intro k args isParked awake _ u isBlocked
    obtain ⟨args', -, registered⟩ := whole.sound.waits u k isBlocked
    have mine := (whole.slot t k args isParked).2
    rw [registered] at mine
    cases mine
    exact absurd (awake.symm.trans isBlocked) (some_ne_none k).symm
  | _ => trivial

theorem endWait_phase (st : Futex n) (k : Slot) (late : Bool) :
    (st.endWait k late).phase = st.phase := by
  unfold endWait threadWake
  split <;> rfl

theorem cancelSlot_phase (st : Futex n) (k : Slot) : (st.cancelSlot k).phase = st.phase := by
  unfold cancelSlot
  split_ifs
  · exact endWait_phase ..
  · rfl

/-- Phases, and which slots are in use and whose they are, are the same. -/
structure SameOwners (st after : Futex n) : Prop where
  phase : after.phase = st.phase
  used : ∀ k, (after.waiters k).used = (st.waiters k).used
  thr : ∀ k, (after.waiters k).thr = (st.waiters k).thr

theorem SameOwners.refl (st : Futex n) : st.SameOwners st := ⟨rfl, fun _ => rfl, fun _ => rfl⟩

variable {after : Futex n} {t : Fin n} {k : Slot} {event : FutexEvent n}
    {events : List (FutexEvent n)} {args : WaitArgs}

theorem SameOwners.endWait (same : st.SameOwners after) (k : Slot) (late : Bool) :
    st.SameOwners (after.endWait k late) := by
  refine ⟨(endWait_phase ..).trans same.phase, fun j => ?_, fun j => ?_⟩
  all_goals
    rw [endWait_waiters, update_apply]
    split_ifs with here
    · subst here
      first | exact same.used j | exact same.thr j
    · first | exact same.used j | exact same.thr j

/-- The slots of parked threads stay with them where only other slots and phases change. -/
theorem Whole.slot_of (whole : st.Whole)
    (owners : st.SameOwners after) (t : Fin n) (k : Slot) (args : WaitArgs)
    (isParked : after.phase t = .parked k args) :
    (after.waiters k).used = true ∧ (after.waiters k).thr = some t := by
  rw [owners.used, owners.thr]
  rw [owners.phase] at isParked
  exact whole.slot t k args isParked

/-- A thread goes to a phase without a slot, and a slot changes that no other thread sleeps in. -/
theorem Whole.slot_move (whole : st.Whole) {phase : Phase}
    (phases : after.phase = update st.phase t phase)
    (away : ∀ j args, phase ≠ .parked j args)
    (slots : ∀ j, j ≠ k → after.waiters j = st.waiters j)
    (foreign : ∀ u args, st.phase u = .parked k args → u = t) (u : Fin n) (j : Slot)
    (args : WaitArgs) (isParked : after.phase u = .parked j args) :
    (after.waiters j).used = true ∧ (after.waiters j).thr = some u := by
  rw [phases, update_apply] at isParked
  split_ifs at isParked with same
  · exact absurd isParked (away j args)
  · have apart : j ≠ k := by
      rintro rfl
      exact same (foreign u args isParked)
    rw [slots j apart]
    exact whole.slot u j args isParked

/-- A slot that is not in use is no sleeping thread's. -/
theorem Whole.foreign_free (whole : st.Whole)
    (free : (st.waiters k).used = false) (u : Fin n) (args : WaitArgs)
    (isParked : st.phase u = .parked k args) : u = t :=
  nomatch free.symm.trans (whole.slot u k args isParked).1

theorem Whole.next (whole : st.Whole) (other : ∀ t, event ≠ .cancel t) :
    (st.next event).Whole := by
  refine ⟨whole.sound.next (whole.undisputed event), ?_⟩
  have effect := whole.sound.effect event
  generalize st.outcome event = result at effect
  generalize st.next event = after at effect ⊢
  cases effect with
  | skip | reject | wakeEarly | store => exact whole.slot
  | enter | refuse =>
    intro u j args' isParked
    rw [setPhase_phase, update_apply] at isParked
    split_ifs at isParked
    exact whole.slot u j args' isParked
  | expire t now args k waiter entered unlocked free
  | register t now args k entered unlocked free =>
    exact whole.slot_move rfl nofun (fun j apart => update_of_ne apart _ _)
      (whole.foreign_free free)
  | retract t k args waiter isRegistered changed given =>
    refine whole.slot_move rfl nofun (fun j apart => update_of_ne apart _ _)
      fun u args' isParked => ?_
    have thr := (whole.slot u k args' isParked).2
    rw [whole.sound.registered isRegistered] at thr
    exact (some.inj thr).symm
  | park t k args isRegistered same =>
    intro u j args' isParked
    rw [setPhase_phase, update_apply] at isParked
    split_ifs at isParked with mine
    · cases isParked
      change (st.waiters k).used = true ∧ (st.waiters k).thr = some u
      rw [whole.sound.registered isRegistered, mine]
      exact ⟨rfl, rfl⟩
    · exact whole.slot u j args' isParked
  | resume t k args isParked awake unlocked =>
    refine whole.slot_move rfl nofun (fun j apart => update_of_ne apart _ _)
      fun u args' isParked' => ?_
    have thr := (whole.slot u k args' isParked').2
    exact some.inj (thr.symm.trans (whole.slot t k args isParked).2)
  | wake key count bitset unlocked =>
    exact whole.slot_of (wakeLoop_induct st.SameOwners
      (fun _ k same _ => same.endWait k false) _ _ _ _ (.refl st))
  | timerCheck now unlocked =>
    exact whole.slot_of (timerCheck_induct st.SameOwners now
      (fun _ k same _ _ => same.endWait k true) (.refl st))
  | cancel t unlocked => exact absurd rfl (other t)

theorem Whole.run (whole : st.Whole) (noCancel : NoCancel events) :
    (st.run events).Whole := by
  induction events generalizing st with
  | nil => exact whole
  | cons event rest ih =>
    obtain ⟨other, noCancel⟩ := noCancel_cons.mp noCancel
    exact ih (whole.next other) noCancel

/-! ### Counting -/

def waitersOf (st : Futex n) (key : FutexKey) (bitset : U32) : Finset Slot :=
  Finset.univ.filter fun k => st.matching key bitset k = true

theorem slots_nodup : slots.Nodup := nodup_finRange _

theorem card_filter_slots (p : Slot → Bool) :
    (Finset.univ.filter fun k => p k = true).card = slots.countP p := by
  rw [countP_eq_length_filter, Finset.card_def, Finset.filter_val, Fin.univ_def,
    Multiset.filter_coe]
  simp only [Bool.decide_eq_true]
  rfl

section Wake

variable {key : FutexKey} {count bitset : U32}

/-- A bitset that can match, and a key that can be equal to one. -/
def Wakes (key : FutexKey) (bitset : U32) : Prop :=
  bitset ≠ 0 ∧ (key.isPrivate = true ∨ key.phys ≠ 0)

theorem step_wake (unlocked : st.holder = none) (wakes : Wakes key bitset) (some : count ≠ 0) :
    st.step (.wake (.some key) count bitset) =
      .some (.some (wakeLoop key count.toNat bitset slots 0 st).1,
        (wakeLoop key count.toNat bitset slots 0 st).2) := by
  have early : wakeEarly (.some key) count bitset = none := by
    unfold wakeEarly
    dsimp only
    rw [if_neg wakes.1, if_neg some, if_neg]
    rintro ⟨shared, noFrame⟩
    rcases wakes.2 with isPrivate | frame
    · exact nomatch shared.symm.trans isPrivate
    · exact frame noFrame
  unfold step
  dsimp only
  rw [early]
  exact if_pos unlocked

theorem step_wake_zero (usable : bitset ≠ 0) :
    st.step (.wake (some key) 0 bitset) = some (some 0, st) := by
  have early : wakeEarly (some key) 0 bitset = some 0 := by
    unfold wakeEarly
    dsimp only
    rw [if_neg usable, if_pos rfl]
  unfold step
  dsimp only
  rw [early]

/-- A wake returns the lesser of its limit and of the number of waiters that match. -/
theorem wake_outcome (unlocked : st.holder = none) (wakes : Wakes key bitset) :
    st.outcome (.wake (some key) count bitset) =
      some ((min count.toNat (st.waitersOf key bitset).card : Nat) : Int) := by
  unfold outcome
  by_cases none : count = 0
  · rw [none, step_wake_zero wakes.1]
    rfl
  · have total : (wakeLoop key count.toNat bitset slots 0 st).1 =
        min count.toNat (0 + st.matchCount key bitset slots) :=
      wakeLoop_count count.toNat slots_nodup st (Nat.zero_le _)
    rw [step_wake unlocked wakes none, total, Nat.zero_add, waitersOf, card_filter_slots]
    rfl

/-- The waiters that a wake counts are those that match and whose wait it ends. -/
theorem wake_counted (unlocked : st.holder = none) (wakes : Wakes key bitset) :
    st.outcome (.wake (some key) count bitset) =
      some (((st.waitersOf key bitset).filter fun k =>
        ((st.next (.wake (some key) count bitset)).waiters k).waiting = false).card : Int) := by
  have filtered (after : Futex n) : ((st.waitersOf key bitset).filter fun k =>
      (after.waiters k).waiting = false).card =
        slots.countP fun k => st.matching key bitset k && !(after.waiters k).waiting := by
    rw [← card_filter_slots, waitersOf, Finset.filter_filter]
    congr 1
    refine Finset.filter_congr fun k _ => ?_
    rw [Bool.and_eq_true, Bool.not_eq_true']
  rw [filtered]
  unfold outcome Futex.next
  by_cases none : count = 0
  · rw [none, step_wake_zero wakes.1]
    rw [countP_over]
    rfl
  · rw [step_wake unlocked wakes none]
    have counted : (wakeLoop key count.toNat bitset slots 0 st).1 =
        0 + slots.countP fun k => st.matching key bitset k &&
          !((wakeLoop key count.toNat bitset slots 0 st).2.waiters k).waiting :=
      wakeLoop_counted count.toNat slots_nodup 0 st
    rw [Nat.zero_add] at counted
    exact congrArg (fun woken : Nat => some (woken : Int)) counted

/-- A wake with a bitset that matches nothing, or with a shared key of no frame, is refused. -/
theorem wake_refused (useless : bitset = 0 ∨ (count ≠ 0 ∧ key.isPrivate = false ∧ key.phys = 0)) :
    st.step (.wake (some key) count bitset) = some (some einval, st) := by
  have early : wakeEarly (some key) count bitset = some einval := by
    unfold wakeEarly
    dsimp only
    rcases useless with none | ⟨some, shared⟩
    · rw [if_pos none]
    · split_ifs
      all_goals rfl
  unfold step
  dsimp only
  rw [early]

end Wake

/-! ### Waiters that were counted -/

/-- The wait of a sleeping thread has been ended by a wake. -/
structure Woken (st : Futex n) (t : Fin n) (k : Slot) : Prop where
  parked : ∃ args, st.phase t = .parked k args
  ended : (st.waiters k).waiting = false
  inTime : (st.waiters k).timedOut = false

/-- Where neither the thread moves nor its slot changes, it stays woken. -/
theorem Woken.keep (woken : st.Woken t k)
    (phase : after.phase t = st.phase t) (slot : after.waiters k = st.waiters k) :
    after.Woken t k := by
  obtain ⟨args, isParked⟩ := woken.parked
  exact ⟨⟨args, phase.trans isParked⟩, slot ▸ woken.ended, slot ▸ woken.inTime⟩

/-- Phases are the same, and the slot of a thread that was woken. -/
theorem Woken.endWait {j : Slot} (woken : after.Woken t k)
    (waiting : (after.waiters j).waiting = true) (late : Bool) :
    (after.endWait j late).Woken t k := by
  apply woken.keep (congrFun (endWait_phase ..) t)
  rw [endWait_waiters, update_of_ne]
  rintro rfl
  exact nomatch woken.ended.symm.trans waiting

theorem Woken.next (woken : st.Woken t k) (whole : st.Whole) (other : ∀ u, event ≠ .cancel u)
    (stays : event.waiter = some t → st.outcome event = none) : (st.next event).Woken t k := by
  obtain ⟨args, isParked⟩ := woken.parked
  have ⟨used, thr⟩ := whole.slot t k args isParked
  have apart {u : Fin n} {phase : Phase} (isAt : st.phase u = phase)
      (differs : ∀ args, phase ≠ .parked k args) : t ≠ u := by
    rintro rfl
    exact differs args (isAt.symm.trans isParked)
  have slotApart {j : Slot} (free : (st.waiters j).used = false) : k ≠ j := by
    rintro rfl
    exact nomatch free.symm.trans used
  have effect := whole.sound.effect event
  generalize st.outcome event = result at effect stays
  generalize st.next event = after at effect ⊢
  cases effect with
  | skip | reject | wakeEarly => exact woken
  | store addr value => exact woken.keep rfl rfl
  | enter u args' isAt | refuse u now args' result isAt | park u j args' isAt =>
    exact woken.keep (update_of_ne (apart isAt nofun) _ _) rfl
  | expire u now args' j waiter entered unlocked free
  | register u now args' j entered unlocked free =>
    exact woken.keep (update_of_ne (apart entered nofun) _ _) (update_of_ne (slotApart free) _ _)
  | retract u j args' waiter isRegistered changed given =>
    have differs := apart isRegistered nofun
    refine woken.keep (update_of_ne differs _ _) (update_of_ne ?_ _ _)
    rintro rfl
    rw [whole.sound.registered isRegistered] at thr
    exact differs (some.inj thr).symm
  | resume u j args' isParked' awake unlocked =>
    have differs : t ≠ u := by
      rintro rfl
      exact absurd (stays rfl) (some_ne_none _)
    refine woken.keep (update_of_ne differs _ _) (update_of_ne ?_ _ _)
    rintro rfl
    exact differs (some.inj (thr.symm.trans (whole.slot u _ args' isParked').2))
  | wake key count bitset unlocked =>
    exact wakeLoop_induct (fun after => after.Woken t k)
      (fun _ _ woken found => woken.endWait (matching_waits found).2 false) _ _ _ _ woken
  | timerCheck now unlocked =>
    exact timerCheck_induct (fun after => after.Woken t k) now
      (fun _ _ woken _ waiting => woken.endWait waiting true) woken
  | cancel u unlocked => exact absurd rfl (other u)

/-- What a thread that was woken returns. -/
theorem Woken.returns (woken : st.Woken t k) (sound : st.Sound)
    (mine : event.waiter = some t) {result : Int}
    (returned : st.outcome event = some result) : result = 0 := by
  obtain ⟨args, isParked⟩ := woken.parked
  have effect := sound.effect event
  rw [returned] at effect
  generalize st.next event = after at effect
  cases effect with
  | reject u _ _ _ _ _ _ isAt | refuse u now args' _ isAt | expire u now args' j waiter isAt
  | retract u j args' waiter isAt =>
    cases mine
    exact nomatch isAt.symm.trans isParked
  | resume u j args' isParked' awake unlocked =>
    cases mine
    obtain ⟨rfl, rfl⟩ := Phase.parked.inj (isParked'.symm.trans isParked)
    unfold waitResult
    rw [woken.inTime]
    rfl
  | wakeEarly | wake => cases mine

/-- A thread does not return from its call during a run. -/
def Stays (t : Fin n) (st : Futex n) (events : List (FutexEvent n)) : Prop :=
  StepRuns.Meets next (fun st event => event.waiter = some t → st.outcome event = none) st
    events

theorem Woken.run (woken : st.Woken t k)
    (whole : st.Whole) (noCancel : NoCancel events) (stays : Stays t st events) :
    (st.run events).Woken t k := by
  induction events generalizing st with
  | nil => exact woken
  | cons event rest ih =>
    obtain ⟨other, noCancel⟩ := noCancel_cons.mp noCancel
    exact ih (woken.next whole other stays.1) (whole.next other) noCancel stays.2

/-- A wake moves no thread on, and ends waits at most. -/
theorem Sound.next_wake (sound : st.Sound) (pKey : Option FutexKey) (count bitset : U32)
    (k : Slot) :
    (st.next (.wake pKey count bitset)).phase = st.phase ∧
      ((st.next (.wake pKey count bitset)).waiters k = st.waiters k ∨
        (st.next (.wake pKey count bitset)).waiters k =
          { st.waiters k with waiting := false }) := by
  have effect := sound.effect (.wake pKey count bitset)
  generalize st.outcome (.wake pKey count bitset) = result at effect
  generalize st.next (.wake pKey count bitset) = after at effect ⊢
  cases effect with
  | skip | wakeEarly => exact ⟨rfl, Or.inl rfl⟩
  | wake key count bitset unlocked =>
    refine ⟨?_, wakeLoop_slot _ _ _ _ _⟩
    exact (wakeLoop_induct st.SameOwners (fun _ k same _ => same.endWait k false) _ _ _ _
      (.refl st)).phase

/-- A waiter that a wake counts was asleep, and is woken. -/
theorem Whole.woken_of_counted (whole : st.Whole) (unlocked : st.holder = none) {key : FutexKey}
    {count bitset : U32} (found : st.matching key bitset k = true)
    (ended : ((st.next (.wake (some key) count bitset)).waiters k).waiting = false) :
    ∃ t, (st.waiters k).thr = some t ∧ (st.next (.wake (some key) count bitset)).Woken t k := by
  have ⟨used, waiting⟩ := matching_waits found
  obtain ⟨t, args, isAt, thr, waits⟩ := whole.sound.owner k used
  refine ⟨t, thr, ?_⟩
  obtain ⟨args', isAt', registered⟩ := whole.sound.waits t k (waits waiting)
  have isParked : st.phase t = .parked k args := by
    rcases isAt with isRegistered | isParked
    · have isHolder := (whole.sound.held t k args isRegistered).1
      exact absurd (unlocked.symm.trans isHolder) (some_ne_none t).symm
    · exact isParked
  have ⟨phase, slot⟩ := whole.sound.next_wake (some key) count bitset k
  refine ⟨⟨args, by rw [phase, isParked]⟩, ended, ?_⟩
  rcases slot with same | cleared
  · rw [same, registered]
    rfl
  · rw [cleared, registered]
    rfl

/-! ### Waiters whose word was changed -/

/-- The words and the phases are the same, and no thread is blocked that was not. -/
structure Calms (st after : Futex n) : Prop where
  words : after.words = st.words
  phase : after.phase = st.phase
  awake : ∀ t, st.blocked t = none → after.blocked t = none

theorem Calms.endWait (calm : st.Calms after) (k : Slot) (late : Bool) :
    st.Calms (after.endWait k late) := by
  unfold Futex.endWait threadWake
  split
  · exact ⟨calm.words, calm.phase, calm.awake⟩
  · refine ⟨calm.words, calm.phase, fun t awake => ?_⟩
    rw [unblock_blocked, update_apply]
    split_ifs
    · rfl
    · exact calm.awake t awake

theorem wakeLoop_calms (st : Futex n) (key : FutexKey) (count : Nat) (bitset : U32) :
    st.Calms (wakeLoop key count bitset slots 0 st).2 :=
  wakeLoop_induct st.Calms (fun _ k calm _ => calm.endWait k false) _ _ _ _ ⟨rfl, rfl, fun _ => id⟩

theorem timerCheck_calms (st : Futex n) (now : Option U64) : st.Calms (st.futexTimerCheck now) :=
  timerCheck_induct st.Calms now (fun _ k calm _ _ => calm.endWait k true) ⟨rfl, rfl, fun _ => id⟩

/-- A thread is in a wait with these arguments, and its word has another value than it expects. -/
structure Changed (st : Futex n) (t : Fin n) (args : WaitArgs) : Prop where
  inCall : st.phase t = .entered args ∨ ∃ k, st.At t k args
  word : st.words args.addr ≠ args.val

theorem Changed.keep (changed : st.Changed t args)
    (words : after.words = st.words) (phase : after.phase t = st.phase t) :
    after.Changed t args := by
  refine ⟨?_, words ▸ changed.word⟩
  unfold At
  rw [phase]
  exact changed.inCall

/-- As long as the word is not given back the value that a wait expects and the wait does not
return, the thread is not blocked if it was not. -/
theorem Changed.next (changed : st.Changed t args) (sound : st.Sound)
    (other : ∀ u, event ≠ .cancel u)
    (noRestore : event ≠ .store args.addr args.val)
    (stays : event.waiter = some t → st.outcome event = none) :
    (st.next event).Changed t args ∧ (st.blocked t = none → (st.next event).blocked t = none) := by
  have notIdle : st.phase t ≠ .idle := by
    intro idle
    rcases changed.inCall with entered | ⟨k, isAt⟩
    · exact nomatch idle.symm.trans entered
    · exact not_at_of_idle idle k args isAt
  have effect := sound.effect event
  generalize st.outcome event = result at effect stays
  generalize st.next event = after at effect ⊢
  have leaves {u : Fin n} (mine : event.waiter = some u) {value : Int}
      (returns : result = some value) : t ≠ u := by
    rintro rfl
    exact absurd ((stays mine).symm.trans returns) (some_ne_none value).symm
  cases effect with
  | skip | reject | wakeEarly => exact ⟨changed, id⟩
  | store addr value =>
    refine ⟨⟨changed.inCall, ?_⟩, id⟩
    dsimp only
    rw [update_apply]
    split_ifs with here
    · rintro rfl
      exact noRestore (by rw [here])
    · exact changed.word
  | enter u args' idle same =>
    have apart : t ≠ u := by
      rintro rfl
      exact notIdle idle
    exact ⟨changed.keep rfl (update_of_ne apart _ _), id⟩
  | refuse | expire | resume =>
    exact ⟨changed.keep rfl (update_of_ne (leaves rfl rfl) _ _), id⟩
  | register u now args' j entered unlocked free same =>
    have apart : t ≠ u := by
      rintro rfl
      rcases changed.inCall with entered' | ⟨k, isAt⟩
      · obtain rfl := Phase.entered.inj (entered.symm.trans entered')
        exact changed.word same
      · exact not_at_of_entered entered k args isAt
    refine ⟨changed.keep rfl (update_of_ne apart _ _), fun awake => ?_⟩
    exact (update_of_ne apart _ _).trans awake
  | retract u j args' waiter isRegistered isChanged given =>
    have apart := leaves rfl rfl
    refine ⟨changed.keep rfl (update_of_ne apart _ _), fun awake => ?_⟩
    exact (update_of_ne apart _ _).trans awake
  | park u j args' isRegistered same =>
    have apart : t ≠ u := by
      rintro rfl
      rcases changed.inCall with entered | ⟨k, isAt⟩
      · exact nomatch isRegistered.symm.trans entered
      · obtain ⟨-, rfl⟩ := isAt.unique (Or.inl isRegistered)
        exact changed.word same
    exact ⟨changed.keep rfl (update_of_ne apart _ _), id⟩
  | wake key count bitset unlocked =>
    have calm := wakeLoop_calms st key count.toNat bitset
    exact ⟨changed.keep calm.words (congrFun calm.phase t), calm.awake t⟩
  | timerCheck now unlocked =>
    have calm := timerCheck_calms st now
    exact ⟨changed.keep calm.words (congrFun calm.phase t), calm.awake t⟩
  | cancel u unlocked => exact absurd rfl (other u)

theorem Changed.next_wake (changed : st.Changed t args) (sound : st.Sound) (pKey : Option FutexKey)
    (count bitset : U32) : (st.next (.wake pKey count bitset)).Changed t args ∧
      (st.blocked t = none → (st.next (.wake pKey count bitset)).blocked t = none) :=
  changed.next sound nofun nofun nofun

/-- No event of a list gives the word back the value that a wait expects. -/
def NoRestore (args : WaitArgs) (events : List (FutexEvent n)) : Prop :=
  .store args.addr args.val ∉ events

theorem Changed.run (changed : st.Changed t args) (whole : st.Whole) (noCancel : NoCancel events)
    (noRestore : NoRestore args events) (stays : Stays t st events) :
    (st.run events).Changed t args ∧ (st.blocked t = none → (st.run events).blocked t = none) := by
  induction events generalizing st with
  | nil => exact ⟨changed, id⟩
  | cons event rest ih =>
    obtain ⟨other, noCancel⟩ := noCancel_cons.mp noCancel
    have ⟨next, awake⟩ := changed.next whole.sound other
      (fun same => noRestore (same ▸ mem_cons_self)) stays.1
    have ⟨later, stillAwake⟩ := ih next (whole.next other) noCancel
      (fun inside => noRestore (mem_cons_of_mem _ inside)) stays.2
    exact ⟨later, fun before => stillAwake (awake before)⟩

/-- A wake that may count all waiters that match leaves no such waiter blocked. -/
theorem Whole.wake_awake (whole : st.Whole) (unlocked : st.holder = none)
    (changed : st.Changed t args) {key : FutexKey} {count bitset : U32}
    (wakes : Wakes key bitset) (equal : keyEq args.key key = true)
    (common : args.bitset &&& bitset ≠ 0) (enough : (st.waitersOf key bitset).card ≤ count.toNat) :
    (st.next (.wake (some key) count bitset)).blocked t = none := by
  cases isBlocked : st.blocked t with
  | none => exact (changed.next_wake whole.sound ..).2 isBlocked
  | some k =>
    obtain ⟨args', isAt, registered⟩ := whole.sound.waits t k isBlocked
    have same : args' = args := by
      rcases changed.inCall with entered | ⟨j, isAt'⟩
      · exact absurd isAt (not_at_of_entered entered k args')
      · exact (isAt.unique isAt').2
    have found : st.matching key bitset k = true := by
      unfold matching
      rw [registered, same]
      change (true && true && keyEq args.key key && decide (args.bitset &&& bitset ≠ 0)) = true
      rw [equal, decide_eq_true common]
      rfl
    have ended : ((st.next (.wake (.some key) count bitset)).waiters k).waiting = false := by
      -- as many waits are over as there are waiters that match
      have total : st.outcome (.wake (.some key) count bitset) = _ := wake_outcome unlocked wakes
      rw [wake_counted unlocked wakes, min_eq_right enough] at total
      apply Finset.filter_card_eq (Int.ofNat_inj.mp (some.inj total)) k
      exact Finset.mem_filter.mpr ⟨Finset.mem_univ k, found⟩
    cases after : (st.next (.wake (.some key) count bitset)).blocked t with
    | none => rfl
    | some j =>
      have sound := whole.sound.next (whole.undisputed (.wake (.some key) count bitset))
      obtain ⟨args'', isAfter, registered'⟩ := sound.waits t j after
      have phase := (whole.sound.next_wake (.some key) count bitset k).1
      unfold At at isAfter
      rw [phase] at isAfter
      obtain ⟨rfl, -⟩ := isAt.unique isAfter
      rw [registered'] at ended
      cases ended

/-! ### Calls and returns -/

def calls (t : Fin n) (st : Futex n) : FutexEvent n → Bool
  | .enter u _ _ _ _ _ => decide (u = t ∧ st.phase t = .idle)
  | _ => false

def returns (t : Fin n) (st : Futex n) (event : FutexEvent n) : Bool :=
  decide (event.waiter = some t) && (st.outcome event).isSome

def tally (sort : Futex n → FutexEvent n → Bool) : Futex n → List (FutexEvent n) → Nat
  | _, [] => 0
  | st, event :: rest => (if sort st event then 1 else 0) + tally sort (st.next event) rest

def inCall (st : Futex n) (t : Fin n) : Nat := if st.phase t = .idle then 0 else 1

theorem inCall_keep (phase : after.phase t = st.phase t) :
    after.inCall t = st.inCall t := by
  unfold inCall
  rw [phase]

theorem inCall_idle (idle : st.phase t = .idle) : st.inCall t = 0 := if_pos idle

theorem inCall_busy (busy : st.phase t ≠ .idle) : st.inCall t = 1 := if_neg busy

/-- An event that cannot happen begins no call. -/
theorem not_calls_of_stuck (cannot : st.step event = none) :
    calls t st event = false := by
  cases event with
  | enter u pU32 val pKey deadline bitset =>
    apply decide_eq_false
    rintro ⟨rfl, idle⟩
    unfold step at cannot
    dsimp only at cannot
    rw [if_pos idle] at cannot
    cases cannot
  | _ => rfl

theorem calls_enter (idle : st.phase t = .idle) (pU32 : Option U64) (val : U32)
    (pKey : Option FutexKey) (deadline : U64) (bitset : U32) :
    calls t st (.enter t pU32 val pKey deadline bitset) = true :=
  decide_eq_true ⟨rfl, idle⟩

/-- The books of one thread: it is in a call before and begins one as often as it is in a call after
and ends one. -/
def Balanced (t : Fin n) (st : Futex n) (event : FutexEvent n) (result : Option Int)
    (after : Futex n) : Prop :=
  (if calls t st event then 1 else 0) + st.inCall t =
    (if decide (event.waiter = some t) && result.isSome then 1 else 0) + after.inCall t

/-- An event of another thread, or of none. -/
theorem Balanced.other {result : Option Int}
    (foreign : event.waiter ≠ some t) (phase : after.phase t = st.phase t) :
    Balanced t st event result after := by
  have noCall : calls t st event = false := by
    cases event with
    | enter u pU32 val pKey deadline bitset =>
      refine decide_eq_false fun both => foreign ?_
      exact congrArg some both.1
    | _ => rfl
  unfold Balanced
  rw [noCall, decide_eq_false foreign, inCall_keep phase]
  rfl

/-- An event in which a call returns. -/
theorem Balanced.ends {value : Int}
    (mine : event.waiter = some t) (noCall : calls t st event = false) (busy : st.phase t ≠ .idle)
    (idle : after.phase t = .idle) : Balanced t st event (some value) after := by
  unfold Balanced
  rw [noCall, decide_eq_true mine, inCall_busy busy, inCall_idle idle]
  rfl

/-- An event in which a call goes on. -/
theorem Balanced.goesOn (noCall : calls t st event = false) (busy : st.phase t ≠ .idle)
    (still : after.phase t ≠ .idle) : Balanced t st event none after := by
  unfold Balanced
  rw [noCall, isSome_none, Bool.and_false, inCall_busy busy, inCall_busy still]

theorem Sound.balanced (sound : st.Sound) (t : Fin n) (event : FutexEvent n) :
    Balanced t st event (st.outcome event) (st.next event) := by
  have effect := sound.effect event
  have moved {u : Fin n} {event : FutexEvent n} {result : Option Int} {after : Futex n}
      {phase : Phase} (mover : event.waiter = some u)
      (phases : after.phase = update st.phase u phase)
      (own : u = t → Balanced t st event result after) : Balanced t st event result after := by
    by_cases same : u = t
    · exact own same
    · refine .other (fun mine => same (some.inj (mover.symm.trans mine))) ?_
      rw [phases, update_of_ne (Ne.symm same)]
  generalize st.outcome event = result at effect ⊢
  generalize st.next event = after at effect ⊢
  cases effect with
  | skip _ cannot =>
    unfold Balanced
    rw [not_calls_of_stuck cannot, isSome_none, Bool.and_false]
  | store | wakeEarly => exact .other (fun mine => nomatch mine) rfl
  | reject u pU32 val pKey deadline bitset value idle =>
    apply moved rfl (update_eq_self u st.phase).symm
    rintro rfl
    unfold Balanced
    rw [calls_enter idle, show FutexEvent.waiter (.enter u pU32 val pKey deadline bitset) =
      some u from rfl, decide_eq_true rfl]
    rfl
  | enter u args idle same =>
    apply moved rfl rfl
    rintro rfl
    have busy : (st.setPhase u (.entered args)).phase u ≠ .idle := by
      rw [setPhase_phase, update_self]
      nofun
    unfold Balanced
    rw [calls_enter idle, inCall_idle idle, inCall_busy busy, isSome_none, Bool.and_false]
    rfl
  | refuse u now args value isAt | expire u now args k waiter isAt | retract u k args waiter isAt
  | resume u k args isAt =>
    apply moved rfl rfl
    rintro rfl
    exact .ends rfl rfl (by rw [isAt]; nofun) (update_self ..)
  | register u now args k entered unlocked free same =>
    apply moved rfl rfl
    rintro rfl
    refine .goesOn rfl (by rw [entered]; nofun) ?_
    rw [show (st.registeredState u k args).phase u = .registered k args from
      update_self ..]
    nofun
  | park u k args isRegistered same =>
    apply moved rfl rfl
    rintro rfl
    refine .goesOn rfl (by rw [isRegistered]; nofun) ?_
    rw [setPhase_phase, update_self]
    nofun
  | wake key count bitset unlocked =>
    exact .other nofun (congrFun (wakeLoop_calms ..).phase t)
  | timerCheck now unlocked =>
    exact .other nofun (congrFun (timerCheck_calms st now).phase t)
  | cancel u unlocked =>
    refine .other (fun mine => nomatch mine) (congrFun ?_ t)
    exact cancelThr_induct (fun after => after.phase = st.phase)
      (fun _ k same _ _ => (cancelSlot_phase ..).trans same) rfl

/-- Every call returns once: a thread has begun as many calls as have returned, and one more while
it is in a call. -/
theorem Whole.tally_calls (whole : st.Whole) (noCancel : NoCancel events) :
    tally (calls t) st events + st.inCall t =
      tally (returns t) st events + (st.run events).inCall t := by
  induction events generalizing st with
  | nil => rfl
  | cons event rest ih =>
    obtain ⟨other, noCancel⟩ := noCancel_cons.mp noCancel
    have balanced : (if calls t st event then 1 else 0) + st.inCall t =
        (if returns t st event then 1 else 0) + (st.next event).inCall t :=
      whole.sound.balanced t event
    have later := ih (whole.next other) noCancel
    change (if calls t st event then 1 else 0) + tally (calls t) (st.next event) rest + _ =
      (if returns t st event then 1 else 0) + tally (returns t) (st.next event) rest +
        ((st.next event).run rest).inCall t
    omega

/-- A waiter that is not blocked can return, as soon as a thread that holds the lock has given it
back. -/
theorem Whole.can_return (whole : st.Whole)
    (isParked : st.phase t = .parked k args) (awake : st.blocked t = none) :
    ∃ unlock : List (FutexEvent n), (∀ event ∈ unlock, ∃ u, event = .settle u) ∧
      ((st.run unlock).outcome (.resume t)).isSome = true := by
  have ready {after : Futex n} (isParked : after.phase t = .parked k args)
      (awake : after.blocked t = none) (unlocked : after.holder = none) :
      (after.outcome (.resume t)).isSome = true := by
    unfold outcome
    rw [step_resume isParked awake unlocked]
    rfl
  cases holder : st.holder with
  | none => exact ⟨[], nofun, ready isParked awake holder⟩
  | some u =>
    obtain ⟨j, args', isRegistered⟩ := whole.sound.holds u holder
    have apart : t ≠ u := by
      rintro rfl
      exact nomatch isRegistered.symm.trans isParked
    refine ⟨[.settle u], fun event inside => ⟨u, mem_singleton.mp inside⟩, ?_⟩
    change ((st.next (.settle u)).outcome (.resume t)).isSome = true
    have effect := whole.sound.effect (.settle u)
    generalize st.outcome (.settle u) = result at effect
    generalize st.next (.settle u) = after at effect ⊢
    cases effect with
    | skip _ cannot => simp [step, isRegistered] at cannot
    | retract _ j args' waiter isRegistered changed given =>
      exact ready ((update_of_ne apart _ _).trans isParked)
        ((update_of_ne apart _ _).trans awake) rfl
    | park _ j args' isRegistered same =>
      exact ready ((update_of_ne apart _ _).trans isParked) awake rfl

theorem Woken.awake (woken : st.Woken t k) (sound : st.Sound) :
    st.blocked t = none := by
  obtain ⟨args, isParked⟩ := woken.parked
  cases isBlocked : st.blocked t with
  | none => rfl
  | some j =>
    obtain ⟨args', isAt, registered⟩ := sound.waits t j isBlocked
    obtain ⟨rfl, -⟩ := isAt.unique (Or.inr isParked)
    have ended := woken.ended
    rw [registered] at ended
    cases ended

end Futex

/-- A thread is in a wait and its word has another value than it expects. After any run in which the
word is not given back that value, a wake that matches and may count all waiters leaves the thread
awake for the rest of its call. -/
def Futex.LeavesAwake {n : Nat} (st : Futex n) (t : Fin n) (args : WaitArgs) : Prop :=
  ∀ before key count bitset after, NoCancel before → NoRestore args before →
    Stays t st before → (st.run before).holder = none → Wakes key bitset →
      keyEq args.key key = true → args.bitset &&& bitset ≠ 0 →
        ((st.run before).waitersOf key bitset).card ≤ count.toNat →
          NoCancel after → NoRestore args after →
            Stays t ((st.run before).next (.wake (some key) count bitset)) after →
              (((st.run before).next (.wake (some key) count bitset)).run after).blocked t = none

theorem Futex.Whole.leavesAwake {n : Nat} {st : Futex n} (whole : st.Whole) {t : Fin n}
    {args : WaitArgs} (changed : st.Changed t args) : st.LeavesAwake t args := by
  intro before key count bitset after noCancel noRestore stays unlocked wakes equal common enough
    noCancel' noRestore' stays'
  obtain ⟨still, -⟩ := changed.run whole noCancel noRestore stays
  have reached := whole.run noCancel
  have awake := reached.wake_awake unlocked still wakes equal common enough
  have next : ((st.run before).next (.wake (some key) count bitset)).Whole :=
    reached.next fun _ impossible => nomatch impossible
  have onward := (still.next_wake reached.sound (some key) count bitset).1
  exact (onward.run next noCancel' noRestore' stays').2 awake

open Futex

/-- What holds of waits and wakes in a state, and in every run without cancellations from there. -/
structure Accounts {n : Nat} (st : Futex n) : Prop where
  count : ∀ key count bitset, st.holder = none → Wakes key bitset →
    st.outcome (.wake (some key) count bitset) =
      some ((min count.toNat (st.waitersOf key bitset).card : Nat) : Int)
  refused : ∀ key count bitset,
    bitset = 0 ∨ (count ≠ 0 ∧ key.isPrivate = false ∧ key.phys = 0) →
      st.outcome (.wake (some key) count bitset) = some einval ∧
        st.next (.wake (some key) count bitset) = st
  counted : ∀ key count bitset, st.holder = none → Wakes key bitset →
    st.outcome (.wake (some key) count bitset) =
      some (((st.waitersOf key bitset).filter fun k =>
        ((st.next (.wake (some key) count bitset)).waiters k).waiting = false).card : Int)
  woken : ∀ key count bitset k, st.holder = none → k ∈ st.waitersOf key bitset →
    ((st.next (.wake (some key) count bitset)).waiters k).waiting = false →
      ∃ t, (st.waiters k).thr = some t ∧ ∀ later, NoCancel later →
        Stays t (st.next (.wake (some key) count bitset)) later →
          ((st.next (.wake (some key) count bitset)).run later).blocked t = none ∧
            ∀ event result, event.waiter = some t →
              ((st.next (.wake (some key) count bitset)).run later).outcome event = some result →
                result = 0
  returns : ∀ t k args, st.phase t = .parked k args → st.blocked t = none →
    ∃ unlock : List (FutexEvent n), (∀ event ∈ unlock, ∃ u, event = .settle u) ∧
      ((st.run unlock).outcome (.resume t)).isSome = true
  noneLeft : ∀ t args value, st.phase t = .entered args ∨ (∃ k, st.At t k args) →
    value ≠ args.val → LeavesAwake (st.next (.store args.addr value)) t args

/-- In every run of waits, wakes, timer checks and stores: a wake returns the lesser of its limit
and of the number of matching waiters, or an error for arguments that can match nothing; the
waiters that it counts return 0; every call returns once; and a waiter whose word was changed
before a wake that may count all waiters does not stay asleep. -/
theorem futexRuns_account {n : Nat} (words : U64 → U32) (events : List (FutexEvent n))
    (noCancel : NoCancel events) :
    Accounts ((init n words).run events) ∧ ∀ t,
      tally (calls t) (init n words) events =
        tally (returns t) (init n words) events + ((init n words).run events).inCall t := by
  have whole := (init_whole words).run noCancel
  refine ⟨⟨fun _ _ _ unlocked wakes => wake_outcome unlocked wakes, fun _ _ _ useless => ?_,
    fun _ _ _ unlocked wakes => wake_counted unlocked wakes,
    fun key count bitset k unlocked found ended => ?_,
    fun _ _ _ isParked awake => whole.can_return isParked awake,
    fun t args value inCall differs => ?_⟩, fun t => (init_whole words).tally_calls noCancel⟩
  · unfold outcome Futex.next
    rw [wake_refused useless]
    exact ⟨rfl, rfl⟩
  · have next : ((init n words).run events |>.next (.wake (some key) count bitset)).Whole :=
      whole.next fun _ impossible => nomatch impossible
    obtain ⟨t, thr, woken⟩ := whole.woken_of_counted unlocked (Finset.mem_filter.mp found).2 ended
    refine ⟨t, thr, fun later noCancel stays => ?_⟩
    have still := woken.run next noCancel stays
    have sound := (next.run noCancel).sound
    exact ⟨still.awake sound, fun event result mine returned => still.returns sound mine returned⟩
  · have next : ((init n words).run events |>.next (.store args.addr value)).Whole :=
      whole.next fun _ impossible => nomatch impossible
    have changed : ((init n words).run events |>.next (.store args.addr value)).Changed t args := by
      refine ⟨inCall, ?_⟩
      change update ((init n words).run events).words args.addr value args.addr ≠ args.val
      rw [update_self]
      exact differs
    exact next.leavesAwake changed

/-- A wake with an empty bitset is an error, where no waiter matches and the lesser would be 0. -/
theorem futexRuns_empty_bitset :
    (init 1 fun _ => 0).outcome (.wake (some sampleKey) 1 0) = some (-22) ∧
      min (1 : U32).toNat ((init 1 fun _ => 0).waitersOf sampleKey 0).card = 0 := by
  decide +kernel

/-- A thread sleeps, is woken, and returns. -/
theorem futexRuns_account_woken :
    Accounts ((init 2 fun _ => 0).run
      (sampleWait 0 ++ [.wake (some sampleKey) 1 1, .resume 0])) ∧ ∀ t,
      tally (calls t) (init 2 fun _ => 0)
          (sampleWait 0 ++ [.wake (some sampleKey) 1 1, .resume 0]) =
        tally (returns t) (init 2 fun _ => 0)
            (sampleWait 0 ++ [.wake (some sampleKey) 1 1, .resume 0]) +
          ((init 2 fun _ => 0).run
            (sampleWait 0 ++ [.wake (some sampleKey) 1 1, .resume 0])).inCall t :=
  futexRuns_account _ _ fun _ inside => by simp [sampleWait] at inside

end GreenJade.Sync

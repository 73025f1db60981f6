import GreenJade.Lib.StepRuns
import GreenJade.Sync.Futex

/-! Owns the invariant of the wait table: a thread that is blocked on a slot has its registration
there, and a slot in use is the one of a thread that has yet to give it up. Every event keeps it but
the resumption of a cancelled waiter whose slot has been claimed again. -/

namespace GreenJade.Sync

open Function Futex

namespace Futex

variable {n : Nat} {st : Futex n}

/-- The slot that a thread claimed and has yet to give up, as far as it knows. -/
def At (st : Futex n) (t : Fin n) (k : Slot) (args : WaitArgs) : Prop :=
  st.phase t = .registered k args ∨ st.phase t = .parked k args

structure Sound (st : Futex n) : Prop where
  waits : ∀ t k, st.blocked t = some k → ∃ args, st.At t k args ∧ st.waiters k = registration t args
  owner : ∀ k, (st.waiters k).used = true → ∃ t args, st.At t k args ∧
    (st.waiters k).thr = some t ∧ ((st.waiters k).waiting = true → st.blocked t = some k)
  held : ∀ t k args, st.phase t = .registered k args → st.holder = some t ∧ st.blocked t = some k
  holds : ∀ t, st.holder = some t → ∃ k args, st.phase t = .registered k args

variable {t : Fin n} {k : Slot} {args : WaitArgs}

theorem At.unique {j : Slot} {args' : WaitArgs} (one : st.At t k args)
    (other : st.At t j args') : k = j ∧ args = args' := by
  rcases one with one | one <;> rcases other with other | other <;> rw [one] at other <;>
    cases other
  all_goals exact ⟨rfl, rfl⟩

/-- Two threads are not blocked on one slot. -/
theorem Sound.alone (sound : st.Sound) {u : Fin n} (one : st.blocked t = some k)
    (other : st.blocked u = some k) : t = u := by
  obtain ⟨_, -, mine⟩ := sound.waits t k one
  obtain ⟨_, -, yours⟩ := sound.waits u k other
  exact Option.some.inj (congrArg FutexWaiter.thr (mine.symm.trans yours))

theorem init_sound (words : U64 → U32) : (init n words).Sound where
  waits _ _ isBlocked := nomatch isBlocked
  owner _ used := nomatch used
  held _ _ _ isRegistered := nomatch isRegistered
  holds _ isHolder := nomatch isHolder

/-! ### Updates -/

/-- Some threads and some slots change: no other thread is blocked on such a slot, and such a thread
has no other slot. -/
theorem Sound.change (sound : st.Sound) {after : Futex n} (moved : Fin n → Prop)
    (touched : Slot → Prop) (phases : ∀ u, ¬moved u → after.phase u = st.phase u)
    (slots : ∀ j, ¬touched j → after.waiters j = st.waiters j)
    (blocks : ∀ u, ¬moved u → after.blocked u = st.blocked u)
    (alone : ∀ u j, ¬moved u → touched j → st.blocked u ≠ some j)
    (own : ∀ u j args, moved u → st.At u j args → touched j)
    (waits : ∀ u j, moved u → after.blocked u = some j →
      ∃ args, after.At u j args ∧ after.waiters j = registration u args)
    (owner : ∀ j, touched j → (after.waiters j).used = true → ∃ u args, after.At u j args ∧
      (after.waiters j).thr = some u ∧
      ((after.waiters j).waiting = true → after.blocked u = some j))
    (held : ∀ u j args, after.phase u = .registered j args →
      after.holder = some u ∧ after.blocked u = some j)
    (holds : ∀ u, after.holder = some u → ∃ j args, after.phase u = .registered j args) :
    after.Sound := by
  have isAt {u : Fin n} {j : Slot} {args : WaitArgs} (still : ¬moved u) :
      after.At u j args ↔ st.At u j args := by
    unfold At
    rw [phases u still]
  refine ⟨fun u j isBlocked => ?_, fun j used => ?_, held, holds⟩
  · by_cases mover : moved u
    · exact waits u j mover isBlocked
    · rw [blocks u mover] at isBlocked
      obtain ⟨args, found, registered⟩ := sound.waits u j isBlocked
      refine ⟨args, (isAt mover).mpr found, ?_⟩
      rw [slots j fun here => alone u j mover here isBlocked]
      exact registered
  · by_cases here : touched j
    · exact owner j here used
    · rw [slots j here] at used ⊢
      obtain ⟨u, args, found, thr, waiting⟩ := sound.owner j used
      have still : ¬moved u := fun mover => here (own u j args mover found)
      rw [← blocks u still] at waiting
      exact ⟨u, args, (isAt still).mpr found, thr, waiting⟩

/-- No thread is blocked on a slot that is not in use or whose wait is over. -/
theorem Sound.not_blocked (sound : st.Sound)
    (ended : (st.waiters k).used = false ∨ (st.waiters k).waiting = false) (u : Fin n) :
    st.blocked u ≠ some k := by
  intro isBlocked
  obtain ⟨args, -, registered⟩ := sound.waits u k isBlocked
  rw [registered] at ended
  rcases ended with impossible | impossible <;> cases impossible

/-- A slot that no thread is blocked on is given content that is not in use. -/
theorem Sound.setUnused (sound : st.Sound) {waiter : FutexWaiter n}
    (ended : (st.waiters k).used = false ∨ (st.waiters k).waiting = false)
    (still : waiter.used = false) : (st.setWaiter k waiter).Sound := by
  refine sound.change (fun _ => False) (· = k) (fun _ _ => rfl)
    (fun j other => update_of_ne other ..) (fun _ _ => rfl)
    (fun u j _ here => here ▸ sound.not_blocked ended u) (fun _ _ _ => False.elim)
    (fun _ _ => False.elim) (fun j here used => ?_) sound.held sound.holds
  rw [here, setWaiter_waiters, update_self, still] at used
  cases used

/-- A thread without a slot goes to a phase without a slot. -/
theorem Sound.setPhase (sound : st.Sound) {phase : Phase}
    (before : ∀ k args, ¬st.At t k args) (after : ∀ k args, phase ≠ .registered k args) :
    (st.setPhase t phase).Sound := by
  have phases (u : Fin n) (other : u ≠ t) : (st.setPhase t phase).phase u = st.phase u :=
    update_of_ne other ..
  refine sound.change (· = t) (fun _ => False) phases (fun _ _ => rfl) (fun _ _ => rfl)
    (fun _ _ _ => False.elim) (fun u j args same found => before j args (same ▸ found))
    (fun u j same isBlocked => ?_) (fun _ => False.elim) (fun u j args isRegistered => ?_)
    fun u isHolder => ?_
  · obtain ⟨args, found, -⟩ := sound.waits u j isBlocked
    exact absurd (same ▸ found) (before j args)
  · have other : u ≠ t := by
      rintro rfl
      rw [setPhase_phase, update_self] at isRegistered
      exact after j args isRegistered
    rw [phases u other] at isRegistered
    exact sound.held u j args isRegistered
  · obtain ⟨j, args, isRegistered⟩ := sound.holds u isHolder
    have other : u ≠ t := fun same => before j args (same ▸ .inl isRegistered)
    exact ⟨j, args, (phases u other).trans isRegistered⟩

theorem threadWake_eq (isBlocked : st.blocked t = some k)
    (alone : ∀ u, st.blocked u = some k → u = t) : st.threadWake k = st.unblock t := by
  unfold threadWake
  have found : (List.finRange n).find? (fun u => decide (st.blocked u = some k)) = some t := by
    cases first : (List.finRange n).find? (fun u => decide (st.blocked u = some k)) with
    | none =>
      have none := List.find?_eq_none.mp first t (List.mem_finRange t)
      exact absurd (decide_eq_true isBlocked) none
    | some u =>
      have other : st.blocked u = some k := by simpa using List.find?_some first
      rw [alone u other]
  rw [found]

/-- The wait in a slot where a thread waits is over: the thread is no longer blocked. -/
theorem Sound.endWait_eq (sound : st.Sound) (used : (st.waiters k).used = true)
    (waiting : (st.waiters k).waiting = true) (late : Bool) :
    ∃ t args, st.At t k args ∧ st.blocked t = some k ∧ st.waiters k = registration t args ∧
      st.endWait k late =
        (st.setWaiter k { registration t args with waiting := false, timedOut := late }).unblock
          t := by
  obtain ⟨t, args, found, -, isBlocked⟩ := sound.owner k used
  obtain ⟨args', found', registered⟩ := sound.waits t k (isBlocked waiting)
  obtain ⟨-, rfl⟩ := found.unique found'
  refine ⟨t, args, found, isBlocked waiting, registered, ?_⟩
  unfold endWait
  rw [registered]
  exact threadWake_eq (isBlocked waiting) fun u other => sound.alone other (isBlocked waiting)

/-- The slots are sound and the table is not locked across a load. -/
structure Quiet (st : Futex n) : Prop where
  sound : st.Sound
  unlocked : st.holder = none

theorem Quiet.not_registered (quiet : st.Quiet) : st.phase t ≠ .registered k args :=
  fun isRegistered => absurd (quiet.unlocked.symm.trans (quiet.sound.held t k args isRegistered).1)
    (Option.some_ne_none t).symm

theorem Quiet.endWait (quiet : st.Quiet) (used : (st.waiters k).used = true)
    (waiting : (st.waiters k).waiting = true) (late : Bool) : (st.endWait k late).Quiet := by
  obtain ⟨t, args, found, isBlocked, registered, effect⟩ := quiet.sound.endWait_eq used waiting late
  rw [effect]
  refine ⟨quiet.sound.change (· = t) (· = k) (fun _ _ => rfl)
    (fun j other => update_of_ne other ..) (fun u other => update_of_ne other ..)
    (fun u j other here asleep => other (quiet.sound.alone (here ▸ asleep) isBlocked))
    (fun u j args' same found' => (same ▸ found').unique found |>.1) (fun u j same asleep => ?_)
    (fun j here _ => ?_) (fun u j args' isRegistered => absurd isRegistered quiet.not_registered)
    quiet.sound.holds, quiet.unlocked⟩
  · rw [same, unblock_blocked, update_self] at asleep
    cases asleep
  · rw [here, unblock_waiters, setWaiter_waiters, update_self]
    exact ⟨t, args, found, rfl, nofun⟩

theorem Quiet.endWait_over (quiet : st.Quiet) (used : (st.waiters k).used = true)
    (waiting : (st.waiters k).waiting = true) {late : Bool} :
    ((st.endWait k late).waiters k).waiting = false := by
  obtain ⟨t, args, -, -, -, effect⟩ := quiet.sound.endWait_eq used waiting late
  rw [effect, unblock_waiters, setWaiter_waiters, update_self]

/-- A slot in which no thread waits is wiped. -/
theorem Quiet.wipe (quiet : st.Quiet) (ended : (st.waiters k).waiting = false) :
    (st.setWaiter k .zero).Quiet :=
  ⟨quiet.sound.setUnused (.inr ended) rfl, quiet.unlocked⟩

/-! ### The loops -/

/-- What every wake-up keeps holds after the loop. -/
theorem wakeLoop_induct (holds : Futex n → Prop) {key : FutexKey} {bitset : U32}
    (ends : ∀ st k, holds st → st.matching key bitset k = true → holds (st.endWait k false))
    (count : Nat) (list : List Slot) : ∀ (woken : Nat) (st : Futex n), holds st →
      holds (wakeLoop key count bitset list woken st).2 := by
  induction list with
  | nil => exact fun _ _ start => start
  | cons k rest ih =>
    intro woken st start
    unfold wakeLoop
    split_ifs with more found
    · exact ih _ _ (ends st k start found)
    · exact ih _ _ start
    · exact start

theorem matching_waits {key : FutexKey} {bitset : U32} (found : st.matching key bitset k = true) :
    (st.waiters k).used = true ∧ (st.waiters k).waiting = true := by
  unfold matching at found
  simp only [Bool.and_eq_true] at found
  exact ⟨found.1.1.1, found.1.1.2⟩

theorem timerCheck_induct (holds : Futex n → Prop) (now : Option U64)
    (ends : ∀ st k, holds st → (st.waiters k).used = true → (st.waiters k).waiting = true →
      holds (st.endWait k true)) (start : holds st) : holds (st.futexTimerCheck now) := by
  refine List.foldlRecOn slots _ start fun st start k _ => ?_
  split_ifs with late
  · simp only [Bool.and_eq_true] at late
    exact ends st k start late.1.1 late.1.2
  · exact start

def cancelSlot (st : Futex n) (k : Slot) : Futex n :=
  (if (st.waiters k).waiting then st.endWait k false else st).setWaiter k .zero

theorem cancelThr_induct (holds : Futex n → Prop)
    (ends : ∀ st k, holds st → (st.waiters k).used = true → (st.waiters k).thr = some t →
      holds (st.cancelSlot k)) (start : holds st) : holds (st.futexCancelThr t) := by
  refine List.foldlRecOn slots _ start fun st start k _ => ?_
  split
  · next mine =>
        exact ends st k start mine.1 mine.2
  · exact start

theorem Quiet.cancelSlot (quiet : st.Quiet) (used : (st.waiters k).used = true) :
    (st.cancelSlot k).Quiet := by
  unfold Futex.cancelSlot
  split_ifs with waiting
  · exact (quiet.endWait used waiting false).wipe (quiet.endWait_over used waiting)
  · exact quiet.wipe (Bool.eq_false_iff.mpr waiting)

/-! ### Waits -/

theorem not_at_of_idle (idle : st.phase t = .idle) (k : Slot) (args : WaitArgs) :
    ¬st.At t k args := by
  unfold At
  rw [idle]
  rintro (impossible | impossible) <;> cases impossible

theorem not_at_of_entered (entered : st.phase t = .entered args)
    (k : Slot) (args' : WaitArgs) : ¬st.At t k args' := by
  unfold At
  rw [entered]
  rintro (impossible | impossible) <;> cases impossible

theorem freeWaiter_eq_some (found : st.freeWaiter = some k) : (st.waiters k).used = false := by
  simpa using List.find?_some found

/-- The state of a thread that has filled a slot. -/
def registeredState (st : Futex n) (t : Fin n) (k : Slot) (args : WaitArgs) : Futex n :=
  { (st.setWaiter k (registration t args)).setPhase t (.registered k args) with
    blocked := update st.blocked t (some k), holder := some t }

theorem Quiet.register (quiet : st.Quiet)
    (entered : st.phase t = .entered args) (free : (st.waiters k).used = false) :
    (st.registeredState t k args).Sound := by
  have phases (u : Fin n) (other : u ≠ t) :
      (st.registeredState t k args).phase u = st.phase u := update_of_ne other ..
  have mine : (st.registeredState t k args).phase t = .registered k args := update_self ..
  have slot : (st.registeredState t k args).waiters k = registration t args := update_self ..
  have isBlocked : (st.registeredState t k args).blocked t = some k := update_self ..
  refine quiet.sound.change (· = t) (· = k) phases (fun j other => update_of_ne other ..)
    (fun u other => update_of_ne other ..)
    (fun u j _ here => here ▸ quiet.sound.not_blocked (.inl free) u)
    (fun u j args' same found => absurd (same ▸ found) (not_at_of_entered entered j args'))
    (fun u j same asleep => ?_) (fun j here _ => ?_) (fun u j args' isRegistered => ?_)
    fun u isHolder => ?_
  · subst same
    cases isBlocked.symm.trans asleep
    exact ⟨args, .inl mine, slot⟩
  · rw [here, slot]
    exact ⟨t, args, .inl mine, rfl, fun _ => isBlocked⟩
  · by_cases same : u = t
    · subst same
      rw [mine] at isRegistered
      cases isRegistered
      exact ⟨rfl, isBlocked⟩
    · rw [phases u same] at isRegistered
      exact absurd isRegistered quiet.not_registered
  · cases isHolder
    exact ⟨k, args, mine⟩

theorem setWaiter_setWaiter (st : Futex n) (k : Slot) (first second : FutexWaiter n) :
    (st.setWaiter k first).setWaiter k second = st.setWaiter k second :=
  congrArg (fun waiters => { st with waiters }) (update_idem ..)

/-- A thread gives up the slot that it is blocked on, or that no thread is blocked on, and its call
is over. -/
theorem Sound.giveUp (sound : st.Sound) (found : st.At t k args)
    (alone : ∀ u, st.blocked u = some k → u = t) (lock : ∀ u, st.holder = some u → u = t)
    {waiter : FutexWaiter n} (given : waiter.used = false) :
    ({ ((st.setWaiter k waiter).unblock t).setPhase t .idle with holder := none }).Sound := by
  set after : Futex n :=
    { ((st.setWaiter k waiter).unblock t).setPhase t .idle with holder := none } with isAfter
  have phases (u : Fin n) (other : u ≠ t) : after.phase u = st.phase u := update_of_ne other ..
  refine sound.change (· = t) (· = k) phases (fun j other => update_of_ne other ..)
    (fun u other => update_of_ne other ..)
    (fun u j other here asleep => other (alone u (here ▸ asleep)))
    (fun u j args' same found' => (same ▸ found').unique found |>.1)
    (fun u j same asleep => ?_) (fun j here used => ?_) (fun u j args' isRegistered => ?_) nofun
  · have awake : after.blocked t = none := update_self ..
    cases awake.symm.trans (same ▸ asleep)
  · have slot : after.waiters k = waiter := update_self ..
    rw [here, slot, given] at used
    cases used
  · by_cases same : u = t
    · have idle : after.phase t = .idle := update_self ..
      cases idle.symm.trans (same ▸ isRegistered)
    · rw [phases u same] at isRegistered
      exact absurd (lock u (sound.held u j args' isRegistered).1) same

theorem Sound.registered (sound : st.Sound)
    (isRegistered : st.phase t = .registered k args) : st.waiters k = registration t args := by
  obtain ⟨args', found, registered⟩ := sound.waits t k (sound.held t k args isRegistered).2
  rw [registered, (found.unique (Or.inl isRegistered)).2]

/-- A thread goes to sleep in its slot and gives the lock back. -/
theorem Sound.park (sound : st.Sound) (isRegistered : st.phase t = .registered k args) :
    ({ st with holder := none }.setPhase t (.parked k args)).Sound := by
  obtain ⟨isHolder, isBlocked⟩ := sound.held t k args isRegistered
  set after : Futex n := { st with holder := none }.setPhase t (.parked k args)
  have phases (u : Fin n) (other : u ≠ t) : after.phase u = st.phase u := update_of_ne other ..
  have mine : after.phase t = .parked k args := update_self ..
  have registered := sound.registered isRegistered
  refine sound.change (· = t) (· = k) phases (fun _ _ => rfl) (fun _ _ => rfl)
    (fun u j other here asleep => other (sound.alone (here ▸ asleep) isBlocked))
    (fun u j args' same found => (same ▸ found).unique (.inl isRegistered) |>.1)
    (fun u j same asleep => ?_) (fun j here _ => ?_) (fun u j args' isRegistered' => ?_) nofun
  · subst same
    cases isBlocked.symm.trans asleep
    exact ⟨args, .inr mine, registered⟩
  · subst here
    exact ⟨t, args, .inr mine, congrArg FutexWaiter.thr registered, fun _ => isBlocked⟩
  · by_cases same : u = t
    · cases mine.symm.trans (same ▸ isRegistered')
    · rw [phases u same] at isRegistered'
      have isHolder' := (sound.held u j args' isRegistered').1
      exact absurd (Option.some.inj (isHolder'.symm.trans isHolder)) same

/-- The state after a wait that sees the word changed with its slot filled. -/
theorem Sound.waitSettle_changed (sound : st.Sound)
    (isRegistered : st.phase t = .registered k args) (changed : st.words args.addr ≠ args.val) :
    ∃ waiter : FutexWaiter n, waiter.used = false ∧ st.waitSettle t k args = (some eagain,
        { ((st.setWaiter k waiter).unblock t).setPhase t .idle with holder := none }) := by
  have isBlocked := (sound.held t k args isRegistered).2
  unfold waitSettle waiterCancelBlocked
  rw [if_pos changed]
  rw [sound.registered isRegistered]
  dsimp only [registration]
  rw [if_pos isBlocked]
  exact ⟨_, rfl, rfl⟩

/-- The state after a wait that sees the word unchanged with its slot filled. -/
theorem Sound.waitSettle_same (sound : st.Sound)
    (isRegistered : st.phase t = .registered k args) (same : st.words args.addr = args.val) :
    st.waitSettle t k args = (none, { st with holder := none }.setPhase t (.parked k args)) := by
  unfold waitSettle
  rw [if_neg (not_not_intro same), sound.registered isRegistered]
  rfl

theorem Quiet.waitResume (quiet : st.Quiet)
    (isParked : st.phase t = .parked k args) (awake : st.blocked t = none)
    (alone : ∀ u, st.blocked u ≠ some k) : (st.waitResume t k).2.Sound := by
  have kept := quiet.sound.giveUp (Or.inr isParked) (fun u other => absurd other (alone u))
    (fun u other => absurd (quiet.unlocked.symm.trans other) (Option.some_ne_none u).symm)
    (rfl : ({ st.waiters k with used := false, waiting := false, bitset := 0 } :
      FutexWaiter n).used = false)
  have same : update st.blocked t none = st.blocked := by
    rw [← awake, update_eq_self]
  unfold unblock at kept
  rw [setWaiter_blocked, same, ← quiet.unlocked] at kept
  exact kept

/-! ### Events -/

/-- What an event can do, with what the call returns that it ends. -/
inductive Effect (st : Futex n) : FutexEvent n → Option Int → Futex n → Prop
  | skip (event : FutexEvent n) (cannot : st.step event = none) : Effect st event none st
  | store (addr : U64) (value : U32) :
      Effect st (.store addr value) none { st with words := update st.words addr value }
  | reject (t : Fin n) (pU32 : Option U64) (val : U32) (pKey : Option FutexKey) (deadline : U64)
      (bitset : U32) (result : Int) (idle : st.phase t = .idle) :
      Effect st (.enter t pU32 val pKey deadline bitset) (some result) st
  | enter (t : Fin n) (args : WaitArgs) (idle : st.phase t = .idle)
      (same : st.words args.addr = args.val) :
      Effect st (.enter t (some args.addr) args.val (some args.key) args.deadline args.bitset) none
        (st.setPhase t (.entered args))
  | refuse (t : Fin n) (now : Option U64) (args : WaitArgs) (result : Int)
      (entered : st.phase t = .entered args) (unlocked : st.holder = none) :
      Effect st (.claim t now) (some result) (st.setPhase t .idle)
  | expire (t : Fin n) (now : Option U64) (args : WaitArgs) (k : Slot) (waiter : FutexWaiter n)
      (entered : st.phase t = .entered args) (unlocked : st.holder = none)
      (free : (st.waiters k).used = false) (still : waiter.used = false) :
      Effect st (.claim t now) (some etimedout) ((st.setWaiter k waiter).setPhase t .idle)
  | register (t : Fin n) (now : Option U64) (args : WaitArgs) (k : Slot)
      (entered : st.phase t = .entered args) (unlocked : st.holder = none)
      (free : (st.waiters k).used = false) (same : st.words args.addr = args.val) :
      Effect st (.claim t now) none (st.registeredState t k args)
  | retract (t : Fin n) (k : Slot) (args : WaitArgs) (waiter : FutexWaiter n)
      (isRegistered : st.phase t = .registered k args)
      (changed : st.words args.addr ≠ args.val) (given : waiter.used = false) :
      Effect st (.settle t) (some eagain)
        { ((st.setWaiter k waiter).unblock t).setPhase t .idle with holder := none }
  | park (t : Fin n) (k : Slot) (args : WaitArgs) (isRegistered : st.phase t = .registered k args)
      (same : st.words args.addr = args.val) :
      Effect st (.settle t) none ({ st with holder := none }.setPhase t (.parked k args))
  | resume (t : Fin n) (k : Slot) (args : WaitArgs) (isParked : st.phase t = .parked k args)
      (awake : st.blocked t = none) (unlocked : st.holder = none) :
      Effect st (.resume t) (some (st.waitResult k)) ((st.freeSlot k).setPhase t .idle)
  | wakeEarly (pKey : Option FutexKey) (count bitset : U32) (result : Int) :
      Effect st (.wake pKey count bitset) (some result) st
  | wake (key : FutexKey) (count bitset : U32) (unlocked : st.holder = none) :
      Effect st (.wake (some key) count bitset)
        (some (wakeLoop key count.toNat bitset slots 0 st).1)
        (wakeLoop key count.toNat bitset slots 0 st).2
  | timerCheck (now : Option U64) (unlocked : st.holder = none) :
      Effect st (.timerCheck now) none (st.futexTimerCheck now)
  | cancel (t : Fin n) (unlocked : st.holder = none) :
      Effect st (.cancel t) none (st.futexCancelThr t)

theorem enter_effect (idle : st.phase t = .idle)
    (pU32 : Option U64) (val : U32) (pKey : Option FutexKey) (deadline : U64) (bitset : U32) :
    Effect st (.enter t pU32 val pKey deadline bitset)
      (st.waitEnter t pU32 val pKey deadline bitset).1
      (st.waitEnter t pU32 val pKey deadline bitset).2 := by
  unfold waitEnter
  repeat' split
  all_goals first
    | exact .reject t _ _ _ _ _ _ idle
    | exact .enter t ⟨_, _, _, _, _⟩ idle (not_not.mp ‹_›)

theorem claim_effect (entered : st.phase t = .entered args)
    (unlocked : st.holder = none) (now : Option U64) :
    Effect st (.claim t now) (st.waitClaim t args now).1 (st.waitClaim t args now).2 := by
  unfold waitClaim
  split
  · exact .refuse t now args _ entered unlocked
  · next k found =>
      have free := freeWaiter_eq_some found
      dsimp only
      split_ifs with changed late
      · exact .refuse t now args _ entered unlocked
      · unfold finish freeSlot
        rw [setWaiter_setWaiter]
        exact .expire t now args k _ entered unlocked free rfl
      · exact .register t now args k entered unlocked free (not_not.mp changed)

theorem step_resume (isParked : st.phase t = .parked k args) (awake : st.blocked t = none)
    (unlocked : st.holder = none) : st.step (.resume t) = some (st.waitResume t k) := by
  unfold step
  dsimp only
  rw [isParked]
  exact if_pos ⟨awake, unlocked⟩

/-- Every event has one of the effects. -/
theorem Sound.effect (sound : st.Sound) (event : FutexEvent n) :
    Effect st event (st.outcome event) (st.next event) := by
  have cannot (none : st.step event = none) :
      Effect st event (st.outcome event) (st.next event) := by
    unfold outcome next
    rw [none]
    exact .skip event none
  have can {result : Option Int} {after : Futex n} (happens : st.step event = some (result, after))
      (effect : Effect st event result after) :
      Effect st event (st.outcome event) (st.next event) := by
    unfold outcome next
    rw [happens]
    exact effect
  cases event with
  | store addr value => exact .store addr value
  | enter t pU32 val pKey deadline bitset =>
    by_cases idle : st.phase t = .idle
    · exact can (if_pos idle) (enter_effect idle pU32 val pKey deadline bitset)
    · exact cannot (if_neg idle)
  | claim t now =>
    cases phase : st.phase t with
    | entered args =>
      by_cases unlocked : st.holder = none
      · exact can (by simp [step, phase, unlocked]) (claim_effect phase unlocked now)
      · exact cannot (by simp [step, phase, unlocked])
    | _ => exact cannot (by simp [step, phase])
  | settle t =>
    cases phase : st.phase t with
    | registered k args =>
      have happens : st.step (.settle t) = some (st.waitSettle t k args) := by
        simp [step, phase]
      by_cases changed : st.words args.addr ≠ args.val
      · obtain ⟨waiter, given, effect⟩ := sound.waitSettle_changed phase changed
        rw [effect] at happens
        exact can happens (.retract t k args waiter phase changed given)
      · have same := not_not.mp changed
        rw [sound.waitSettle_same phase same] at happens
        exact can happens (.park t k args phase same)
    | _ => exact cannot (by simp [step, phase])
  | resume t =>
    cases phase : st.phase t with
    | parked k args =>
      by_cases ready : st.blocked t = none ∧ st.holder = none
      · exact can (step_resume phase ready.1 ready.2) (.resume t k args phase ready.1 ready.2)
      · exact cannot (by simp only [step, phase, if_neg ready])
    | _ => exact cannot (by simp [step, phase])
  | wake pKey count bitset =>
    cases early : wakeEarly pKey count bitset with
    | some result =>
      exact can (by simp [step, early]) (.wakeEarly pKey count bitset result)
    | none =>
      cases pKey with
      | none => exact cannot (by simp [step, early])
      | some key =>
        by_cases unlocked : st.holder = none
        · exact can (by simp [step, early, unlocked]) (.wake key count bitset unlocked)
        · exact cannot (by simp [step, early, unlocked])
  | timerCheck now =>
    by_cases unlocked : st.holder = none
    · exact can (if_pos unlocked) (.timerCheck now unlocked)
    · exact cannot (if_neg unlocked)
  | cancel t =>
    by_cases unlocked : st.holder = none
    · exact can (if_pos unlocked) (.cancel t unlocked)
    · exact cannot (if_neg unlocked)

/-- A waiter does not resume while another thread waits in the slot that it claimed. -/
def Undisputed (st : Futex n) : FutexEvent n → Prop
  | .resume t => ∀ k args, st.phase t = .parked k args → st.blocked t = none → st.holder = none →
      ∀ u, st.blocked u ≠ some k
  | _ => True

theorem Sound.next (sound : st.Sound) {event : FutexEvent n} (undisputed : st.Undisputed event) :
    (st.next event).Sound := by
  have effect := sound.effect event
  generalize st.outcome event = result at effect
  generalize st.next event = after at effect ⊢
  cases effect with
  | skip | reject | wakeEarly => exact sound
  | store addr value => exact ⟨sound.waits, sound.owner, sound.held, sound.holds⟩
  | enter t args idle same => exact sound.setPhase (not_at_of_idle idle) nofun
  | refuse t now args result entered unlocked =>
    exact sound.setPhase (not_at_of_entered entered) nofun
  | expire t now args k waiter entered unlocked free still =>
    exact (sound.setUnused (.inl free) still).setPhase (not_at_of_entered entered) nofun
  | register t now args k entered unlocked free same =>
    exact Quiet.register ⟨sound, unlocked⟩ entered free
  | retract t k args waiter isRegistered changed given =>
    have ⟨isHolder, isBlocked⟩ := sound.held t k args isRegistered
    exact sound.giveUp (Or.inl isRegistered) (fun u other => sound.alone other isBlocked)
      (fun u other => Option.some.inj (other.symm.trans isHolder)) given
  | park t k args isRegistered same => exact sound.park isRegistered
  | resume t k args isParked awake unlocked =>
    exact Quiet.waitResume ⟨sound, unlocked⟩ isParked awake
      (undisputed k args isParked awake unlocked)
  | wake key count bitset unlocked =>
    exact (wakeLoop_induct Quiet (fun _ _ quiet found => quiet.endWait
      (matching_waits found).1 (matching_waits found).2 false) _ _ _ _ ⟨sound, unlocked⟩).sound
  | timerCheck now unlocked =>
    exact (timerCheck_induct Quiet now (fun _ _ quiet used waiting =>
      quiet.endWait used waiting true) ⟨sound, unlocked⟩).sound
  | cancel t unlocked =>
    exact (cancelThr_induct Quiet (fun _ _ quiet used _ => quiet.cancelSlot used)
      ⟨sound, unlocked⟩).sound

end Futex

end GreenJade.Sync

import GreenJade.Libc.Semaphore

/-! Owns the mutexes of libcgj in `pthread.c`: threads inside `pthread_mutex_lock`, its try and
timed forms and `pthread_mutex_unlock` of one mutex, step by atomic step. One thread holds the mutex
at most, and a free mutex has a sleeper only while somebody is about to wake it or to try again. -/

namespace GreenJade.Libc

open FutexThreads Function

universe u

inductive MutexType
  | normal
  | recursive
  | errorcheck
  deriving DecidableEq

inductive LockCall
  | lock
  | trylock
  | timedlock (pAbs : Timespec)
  deriving DecidableEq

/-- What a thread does next. A swap knows whether a wake has led to it. -/
inductive MutexPc
  | outside
  | checkLock (call : LockCall)
  | checkOwner (call : LockCall)
  | countUp
  | swap (call : LockCall) (woken : Bool)
  | setOwner
  | setCount
  | clock (pAbs : Timespec)
  | futexWait (call : LockCall)
  | asleep (call : LockCall)
  | unlockCheck
  | countDown
  | countTest
  | clearOwner
  | clearCount
  | release
  | wake
  deriving DecidableEq

def MutexPc.isAsleep : MutexPc → Bool
  | .asleep _ => true
  | _ => false

/-- The mutex and its threads. The history variable `depth` counts for each thread the acquisitions
that it has not called an unlock for. -/
structure Mutex (T : Type u) where
  nLock : Nat
  nCount : Int
  uOwner : Option T
  pc : T → MutexPc
  depth : T → Nat

inductive MutexEvent (T : Type u)
  | locks (t : T) (call : LockCall)
  | unlocks (t : T)
  /-- The next step of a thread, with what the clock says and whom a wake chooses. -/
  | runs (t : T) (now : Option Timespec) (choice : Option T)
  | interrupted (t : T)
  | timedOut (t : T)

variable {T : Type u}

namespace Mutex

variable [DecidableEq T]

/-- `pthread_mutex_init`. -/
def init : Mutex T :=
  { nLock := 0, nCount := 0, uOwner := none, pc := fun _ => .outside, depth := fun _ => 0 }

def goto (st : Mutex T) (t : T) (pc : MutexPc) : Mutex T :=
  { st with pc := update st.pc t pc }

def setDepth (st : Mutex T) (t : T) (depth : Nat) : Mutex T :=
  { st with depth := update st.depth t depth }

def asleep (st : Mutex T) (t : T) : Bool := (st.pc t).isAsleep

/-- The futex wait of a sleeper returns, and the loop tries the swap again. -/
def rouse (st : Mutex T) (woken : Bool) (t : T) : Mutex T :=
  match st.pc t with
  | .asleep call => st.goto t (.swap call woken)
  | _ => st

/-- Where a call starts: who may hold the mutex already is checked for some types. -/
def lockPc : MutexType → LockCall → MutexPc
  | .normal, call => .swap call false
  | .errorcheck, .timedlock pAbs => .swap (.timedlock pAbs) false
  | _, call => .checkLock call

variable [Fintype T] (nType : MutexType)

/-- The next atomic step of a thread. -/
def run (st : Mutex T) (t : T) (now : Option Timespec) (choice : Option T) : Mutex T :=
  match st.pc t with
  | .outside | .asleep _ => st
  | .checkLock call => st.goto t (if st.nLock ≠ 0 then .checkOwner call else .swap call false)
  | .checkOwner call =>
    st.goto t (if st.uOwner = some t then if nType = .recursive then .countUp else .outside
      else .swap call false)
  | .countUp => ({ st with nCount := st.nCount + 1 }.setDepth t (st.depth t + 1)).goto t .outside
  | .swap call _ =>
    if st.nLock = 0 then ({ st with nLock := 1 }.setDepth t (st.depth t + 1)).goto t .setOwner
    else
      match call with
      | .trylock => st.goto t .outside
      | .lock => st.goto t (.futexWait .lock)
      | .timedlock pAbs => st.goto t (.clock pAbs)
  | .setOwner => { st with uOwner := some t }.goto t .setCount
  | .setCount => { st with nCount := 1 }.goto t .outside
  | .clock pAbs => st.goto t (if pAbs.remains now then .futexWait (.timedlock pAbs) else .outside)
  | .futexWait call => st.goto t (if st.nLock = 1 then .asleep call else .swap call false)
  | .unlockCheck =>
    st.goto t (if st.uOwner = some t then if nType = .recursive then .countDown else .clearOwner
      else .outside)
  | .countDown => { st with nCount := st.nCount - 1 }.goto t .countTest
  | .countTest => st.goto t (if 0 < st.nCount then .outside else .clearOwner)
  | .clearOwner =>
    let next : MutexPc := if nType = .recursive then .release else .clearCount
    { st with uOwner := none }.goto t next
  | .clearCount => { st with nCount := 0 }.goto t .release
  | .release => { st with nLock := 0 }.goto t .wake
  | .wake =>
    if MayWake st.asleep choice then (choice.elim st (st.rouse true)).goto t .outside else st

/-- A step. Only a thread that holds the mutex calls an unlock. -/
def step (st : Mutex T) : MutexEvent T → Mutex T
  | .locks t call => if st.pc t = .outside then st.goto t (lockPc nType call) else st
  | .unlocks t =>
    if st.pc t = .outside ∧ 0 < st.depth t then
      (st.setDepth t (st.depth t - 1)).goto t
        (if nType = .normal then .clearOwner else .unlockCheck)
    else st
  | .runs t now choice => st.run nType t now choice
  | .interrupted t => st.rouse false t
  | .timedOut t =>
    match st.pc t with
    | .asleep (.timedlock _) => st.goto t .outside
    | _ => st

end Mutex

/-! ### The holder -/

/-- Where a thread is neither about to take the mutex for itself nor to give it back. -/
def MutexPc.free : MutexPc → Bool
  | .outside | .checkLock _ | .checkOwner _ | .swap .. | .clock _ | .futexWait _ | .asleep _
  | .wake => true
  | _ => false

/-- Inside an unlock before the mutex is released. -/
def MutexPc.releasing : MutexPc → Bool
  | .unlockCheck | .countDown | .countTest | .clearOwner | .clearCount | .release => true
  | _ => false

theorem MutexPc.releasing_of_free {pc : MutexPc} (free : pc.free = true) :
    pc.releasing = false := by
  cases pc <;> first | rfl | cases free

/-- Between a release and its wake, or between a wake and the next swap. -/
def MutexPc.hears : MutexPc → Bool
  | .wake | .swap _ true => true
  | _ => false

/-- What the owner and the count say about the holder, wherever it is. -/
def HeldAt (nType : MutexType) (st : Mutex T) (t : T) (depth : Nat) : MutexPc → Prop
  | .countUp => nType = .recursive ∧ st.uOwner = some t ∧ st.nCount = depth ∧ 0 < depth
  | .setOwner => st.uOwner = none ∧ depth = 1
  | .setCount => st.uOwner = some t ∧ depth = 1
  | .unlockCheck => st.uOwner = some t ∧
      if nType = .recursive then st.nCount = depth + 1 else depth = 0
  | .countDown => nType = .recursive ∧ st.uOwner = some t ∧ st.nCount = depth + 1
  | .countTest => nType = .recursive ∧ st.uOwner = some t ∧ st.nCount = depth
  | .clearOwner => st.uOwner = some t ∧ depth = 0
  | .clearCount | .release => st.uOwner = none ∧ depth = 0
  | _ => st.uOwner = some t ∧ 0 < depth ∧
      if nType = .recursive then st.nCount = depth else depth = 1

namespace Mutex

variable {nType : MutexType} {st base : Mutex T} {t u : T} {old next : MutexPc} {n : Nat}

/-- A thread that does not hold the mutex. -/
structure Idle (st : Mutex T) (t : T) : Prop where
  depth : st.depth t = 0
  free : (st.pc t).free = true

/-- What holds in every state: the mutex is free, or one thread holds it. -/
inductive Sound (nType : MutexType) (st : Mutex T) : Prop
  | free (lock : st.nLock = 0) (owner : st.uOwner = none) (idle : ∀ t, st.Idle t)
  | held (t : T) (lock : st.nLock = 1) (at' : HeldAt nType st t (st.depth t) (st.pc t))
      (idle : ∀ u, u ≠ t → st.Idle u)

theorem heldAt_free (free : next.free = true) :
    HeldAt nType st t n next = (st.uOwner = some t ∧ 0 < n ∧
      if nType = .recursive then st.nCount = n else n = 1) := by
  cases next <;> first | rfl | cases free

theorem heldAt_owner (at' : HeldAt nType st t n next) : st.uOwner = some t ∨ st.uOwner = none := by
  cases next with
  | setOwner | clearCount | release => exact .inr at'.1
  | countUp | countDown | countTest => exact .inl at'.2.1
  | _ => exact .inl at'.1

/-- A thread holds the mutex from an acquisition until the unlock that balances it has released
it. -/
def Holds (st : Mutex T) (t : T) : Prop := 0 < st.depth t ∨ (st.pc t).releasing = true

theorem Idle.not_holds (idle : st.Idle t) : ¬ st.Holds t := by
  rintro (deep | releasing)
  · exact absurd idle.depth deep.ne'
  · exact nomatch (MutexPc.releasing_of_free idle.free).symm.trans releasing

theorem holds_of_heldAt (at' : HeldAt nType st t (st.depth t) (st.pc t)) : st.Holds t := by
  cases here : st.pc t with
  | unlockCheck | countDown | countTest | clearOwner | clearCount | release =>
    exact .inr (by rw [here]; rfl)
  | countUp | setOwner | setCount =>
    rw [here] at at'
    simp only [HeldAt] at at'
    exact .inl (by omega)
  | _ =>
    rw [here] at at'
    exact .inl at'.2.1

theorem Sound.holds_iff (sound : st.Sound nType) :
    (∀ t u, st.Holds t → st.Holds u → t = u) ∧ (st.nLock = 0 ↔ ∀ t, ¬ st.Holds t) := by
  cases sound with
  | free lock _ idle =>
    exact ⟨fun t _ holds => absurd holds (idle t).not_holds,
      iff_of_true lock fun t => (idle t).not_holds⟩
  | held h lock at' idle =>
    have own (t) (holds : st.Holds t) : t = h :=
      not_not.mp fun other => (idle t other).not_holds holds
    refine ⟨fun t u first second => (own t first).trans (own u second).symm, ?_⟩
    exact iff_of_false (by omega) fun none => none h (holds_of_heldAt at')

/-! ### The sleepers -/

/-- A free mutex has a sleeper only while somebody is about to wake it or to try again. -/
def Heard (st : Mutex T) : Prop :=
  st.nLock = 0 → ∀ s, st.asleep s = true → ∃ u, (st.pc u).hears = true

theorem Heard.of_locked (locked : st.nLock ≠ 0) : st.Heard := fun free => absurd free locked

theorem asleep_cases (asleep : st.asleep u = true) : ∃ call, st.pc u = .asleep call := by
  unfold Mutex.asleep at asleep
  cases here : st.pc u with
  | asleep call => exact ⟨call, rfl⟩
  | _ =>
    rw [here] at asleep
    cases asleep

/-! ### Steps -/

variable [DecidableEq T]

theorem Idle.goto (idle : st.Idle u) (depth : base.depth u = st.depth u)
    (pc : base.pc u = st.pc u) (free : u = t → next.free = true) : (base.goto t next).Idle u := by
  refine ⟨depth.trans idle.depth, ?_⟩
  show (update base.pc t next u).free = true
  rw [update_apply]
  split_ifs with same
  · exact free same
  · rw [pc]
    exact idle.free

/-- A thread goes on without taking the mutex or giving it back. -/
theorem Sound.goto (sound : st.Sound nType) (here : (st.pc t).free = true)
    (free : next.free = true) : (st.goto t next).Sound nType := by
  cases sound with
  | free lock owner idle =>
    exact .free lock owner fun u => (idle u).goto rfl rfl fun _ => free
  | held h lock at' idle =>
    refine .held h lock ?_ fun u other => (idle u other).goto rfl rfl fun _ => free
    show HeldAt nType st h (st.depth h) (update st.pc t next h)
    rw [update_apply]
    split_ifs with same
    · subst same
      rw [heldAt_free here] at at'
      rwa [heldAt_free free]
    · exact at'

/-- Who is taking the mutex or giving it back, has taken it or is its owner holds it. -/
theorem Sound.holder (sound : st.Sound nType) (busy : st.Idle t → st.uOwner = some t) :
    st.nLock = 1 ∧ HeldAt nType st t (st.depth t) (st.pc t) ∧ ∀ u, u ≠ t → st.Idle u := by
  cases sound with
  | free _ owner idle => exact nomatch owner.symm.trans (busy (idle t))
  | held h lock at' idle =>
    by_cases same : t = h
    · subst same
      exact ⟨lock, at', idle⟩
    · rcases heldAt_owner at' with owner | owner
      · exact absurd (Option.some.inj ((busy (idle t same)).symm.trans owner)) same
      · exact nomatch owner.symm.trans (busy (idle t same))

/-- The holder goes on. -/
theorem Sound.of_holder (idle : ∀ u, u ≠ t → st.Idle u)
    (others : ∀ u, u ≠ t → base.depth u = st.depth u) (pc : base.pc = st.pc)
    (lock : base.nLock = 1) (depth : base.depth t = n) (at' : HeldAt nType base t n next) :
    (base.goto t next).Sound nType := by
  refine .held t lock ?_ fun u other =>
    (idle u other).goto (others u other) (congrFun pc u) fun same => absurd same other
  show HeldAt nType base t (base.depth t) (update base.pc t next t)
  rwa [update_self, depth]

theorem Heard.goto (heard : st.Heard) (pc : base.pc = st.pc)
    (awake : next.isAsleep = true → base.nLock ≠ 0)
    (hears : base.nLock = 0 → next.hears = true ∨ st.nLock = 0 ∧ (st.pc t).hears = false) :
    (base.goto t next).Heard := by
  intro free s asleep
  have moved (u) : (base.goto t next).pc u = if u = t then next else st.pc u := by
    rw [← pc]
    exact update_apply ..
  rcases hears free with hears | ⟨before, deaf⟩
  · exact ⟨t, by rw [moved, if_pos rfl, hears]⟩
  · rw [Mutex.asleep, moved] at asleep
    split_ifs at asleep
    · exact absurd free (awake asleep)
    · obtain ⟨u, will⟩ := heard before s asleep
      have other : u ≠ t := by
        rintro rfl
        exact nomatch deaf.symm.trans will
      exact ⟨u, by rw [moved, if_neg other, will]⟩

theorem asleep_goto (asleep : (st.goto t next).asleep u = true) (awake : next.isAsleep = false) :
    st.asleep u = true := by
  have moved : (update st.pc t next u).isAsleep = true := asleep
  rw [update_apply] at moved
  split_ifs at moved
  · exact nomatch awake.symm.trans moved
  · exact moved

/-- What every step keeps. -/
structure Kept (nType : MutexType) (st : Mutex T) : Prop where
  sound : st.Sound nType
  heard : st.Heard

/-- A thread that is not about to wake anybody goes on without the mutex changing hands. -/
theorem Kept.goto (kept : st.Kept nType) (here : st.pc t = old) (before : old.free = true)
    (deaf : old.hears = false) (free : next.free = true)
    (awake : next.isAsleep = true → st.nLock ≠ 0) : (st.goto t next).Kept nType := by
  subst here
  exact ⟨kept.sound.goto before free,
    kept.heard.goto rfl awake fun unlocked => .inr ⟨unlocked, deaf⟩⟩

theorem Kept.of_holder (idle : ∀ u, u ≠ t → st.Idle u)
    (others : ∀ u, u ≠ t → base.depth u = st.depth u) (pc : base.pc = st.pc)
    (lock : base.nLock = 1) (depth : base.depth t = n) (at' : HeldAt nType base t n next) :
    (base.goto t next).Kept nType :=
  ⟨.of_holder idle others pc lock depth at', .of_locked (lock.trans_ne one_ne_zero)⟩

theorem Kept.holder (kept : st.Kept nType) (here : st.pc t = old) (busy : old.free = false) :
    st.nLock = 1 ∧ HeldAt nType st t (st.depth t) old ∧ ∀ u, u ≠ t → st.Idle u :=
  here ▸ kept.sound.holder fun idle =>
    nomatch idle.free.symm.trans ((congrArg _ here).trans busy)

/-- The holder goes on without an acquisition or a release. -/
theorem Kept.holds (kept : st.Kept nType) (here : st.pc t = old) (busy : old.free = false)
    (pc : base.pc = st.pc) (depth : base.depth = st.depth) (lock : base.nLock = st.nLock)
    (at' : HeldAt nType st t (st.depth t) old → HeldAt nType base t (st.depth t) next) :
    (base.goto t next).Kept nType := by
  obtain ⟨locked, before, idle⟩ := kept.holder here busy
  exact .of_holder idle (fun u _ => congrFun depth u) pc (lock.trans locked) (congrFun depth t)
    (at' before)

theorem kept_rouse (kept : st.Kept nType) (woken : Bool) (s : T) :
    (st.rouse woken s).Kept nType := by
  unfold rouse
  split
  next call here =>
      exact kept.goto here rfl rfl rfl nofun
  next => exact kept

/-- Whoever released the mutex passes its wake on to a sleeper, which will try again. -/
theorem Kept.wake {s : T} {call : LockCall} (kept : st.Kept nType) (here : st.pc t = .wake)
    (there : st.pc s = .asleep call) : ((st.rouse true s).goto t .outside).Kept nType := by
  have other : s ≠ t := by
    rintro rfl
    exact nomatch there.symm.trans here
  have moved : st.rouse true s = st.goto s (.swap call true) := by rw [rouse, there]
  have still : (st.rouse true s).pc t = .wake := by
    rw [moved, ← here]
    exact update_of_ne other.symm ..
  refine ⟨(kept_rouse kept true s).sound.goto (by rw [still]; rfl) rfl, fun _ _ _ => ⟨s, ?_⟩⟩
  show (update (st.rouse true s).pc t .outside s).hears = true
  rw [update_of_ne other, moved]
  show (update st.pc s (.swap call true) s).hears = true
  rw [update_self]
  rfl

variable [Fintype T]

theorem kept_run (kept : st.Kept nType) (t : T) (now : Option Timespec) (choice : Option T) :
    (st.run nType t now choice).Kept nType := by
  unfold run
  cases here : st.pc t with
  | outside | asleep => exact kept
  | checkLock | clock =>
    refine kept.goto here rfl rfl ?_ ?_
    · split_ifs <;> rfl
    · split_ifs <;> nofun
  | checkOwner call =>
    simp only
    split_ifs with own recursive
    · obtain ⟨lock, at', idle⟩ := kept.sound.holder fun _ : st.Idle t => own
      rw [here, heldAt_free rfl, if_pos recursive] at at'
      exact .of_holder idle (fun _ _ => rfl) rfl lock rfl ⟨recursive, own, at'.2.2, at'.2.1⟩
    all_goals exact kept.goto here rfl rfl rfl nofun
  | countUp =>
    obtain ⟨lock, ⟨recursive, own, count, -⟩, idle⟩ := kept.holder here rfl
    refine .of_holder idle (fun _ other => update_of_ne other ..) rfl lock
      (update_self ..) ⟨own, Nat.succ_pos _, ?_⟩
    rw [if_pos recursive]
    exact congrArg (· + 1) count
  | swap call woken =>
    simp only
    split_ifs with unlocked
    · cases kept.sound with
      | held _ lock => exact nomatch unlocked.symm.trans lock
      | free _ owner idle =>
        exact .of_holder (fun u _ => idle u) (fun _ other => update_of_ne other ..) rfl
          rfl (update_self ..) ⟨owner, congrArg (· + 1) (idle t).depth⟩
    · cases call <;> exact ⟨kept.sound.goto (by rw [here]; rfl) rfl, .of_locked unlocked⟩
  | setOwner => exact kept.holds here rfl rfl rfl rfl fun at' => ⟨rfl, at'.2⟩
  | setCount =>
    refine kept.holds here rfl rfl rfl rfl fun ⟨own, once⟩ => ⟨own, once.symm ▸ Nat.one_pos, ?_⟩
    show if _ then (1 : Int) = st.depth t else st.depth t = 1
    rw [once]
    split_ifs <;> rfl
  | futexWait call =>
    refine kept.goto here rfl rfl ?_ ?_
    · split_ifs <;> rfl
    · split_ifs with locked
      · exact fun _ free => nomatch locked.symm.trans free
      · nofun
  | unlockCheck =>
    refine kept.holds here rfl rfl rfl rfl fun ⟨own, count⟩ => ?_
    split_ifs at count ⊢ with recursive
    · exact ⟨recursive, own, count⟩
    · exact ⟨own, count⟩
  | countDown =>
    refine kept.holds here rfl rfl rfl rfl fun ⟨recursive, own, count⟩ => ⟨recursive, own, ?_⟩
    show st.nCount - 1 = st.depth t
    omega
  | countTest =>
    refine kept.holds here rfl rfl rfl rfl fun ⟨recursive, own, count⟩ => ?_
    split_ifs with more
    · refine ⟨own, by omega, ?_⟩
      rw [if_pos recursive]
      exact count
    · exact ⟨own, by omega⟩
  | clearOwner =>
    refine kept.holds here rfl rfl rfl rfl fun at' => ?_
    split_ifs <;> exact ⟨rfl, at'.2⟩
  | clearCount => exact kept.holds here rfl rfl rfl rfl id
  | release =>
    obtain ⟨-, ⟨owner, depth⟩, idle⟩ := kept.holder here rfl
    refine ⟨.free rfl owner fun u => ?_, kept.heard.goto rfl nofun fun _ => .inl rfl⟩
    by_cases same : u = t
    · subst same
      refine ⟨depth, ?_⟩
      show (update st.pc u .wake u).free = true
      rw [update_self]
      rfl
    · exact (idle u same).goto rfl rfl fun now => absurd now same
  | wake =>
    simp only
    split_ifs with may
    · cases choice with
      | none =>
        refine ⟨kept.sound.goto (by rw [here]; rfl) rfl, fun _ s asleep => ?_⟩
        have slept : st.asleep s = true := asleep_goto asleep rfl
        exact nomatch slept.symm.trans (may s)
      | some s =>
        obtain ⟨call, there⟩ := asleep_cases may
        exact kept.wake here there
    · exact kept

theorem kept_step (kept : st.Kept nType) (event : MutexEvent T) :
    (st.step nType event).Kept nType := by
  cases event with
  | locks t call =>
    simp only [step]
    split_ifs with outside
    · refine kept.goto outside rfl rfl ?_ ?_ <;> cases nType <;> cases call <;> first | rfl | nofun
    · exact kept
  | unlocks t =>
    simp only [step]
    split_ifs with may normal
    · obtain ⟨lock, at', idle⟩ := kept.sound.holder fun idle : st.Idle t =>
        absurd idle.depth may.2.ne'
      rw [may.1, normal] at at'
      have once : st.depth t = 1 := at'.2.2
      exact .of_holder idle (fun _ other => update_of_ne other ..) rfl lock
        (update_self ..) ⟨at'.1, by omega⟩
    · obtain ⟨lock, at', idle⟩ := kept.sound.holder fun idle : st.Idle t =>
        absurd idle.depth may.2.ne'
      rw [may.1] at at'
      refine .of_holder idle (fun _ other => update_of_ne other ..) rfl lock
        (update_self ..) ⟨at'.1, ?_⟩
      have count := at'.2.2
      split_ifs at count ⊢
      · show st.nCount = (st.depth t - 1 : Nat) + 1
        omega
      · omega
    · exact kept
  | runs t now choice => exact kept_run kept t now choice
  | interrupted t => exact kept_rouse kept false t
  | timedOut t =>
    simp only [step]
    split
    next here => exact kept.goto here rfl rfl rfl nofun
    next => exact kept

/-- The mutex after a run. -/
def after (nType : MutexType) (run : List (MutexEvent T)) : Mutex T := run.foldl (step nType) init

theorem kept_after (nType : MutexType) (run : List (MutexEvent T)) : (after nType run).Kept nType :=
  List.foldlRecOn run (step nType) ⟨.free rfl rfl fun _ => ⟨rfl, rfl⟩, nofun⟩
    fun _ kept event _ => kept_step kept event

/-- In every state one thread at most holds the mutex, the mutex is locked exactly while somebody
holds it, and unless somebody is about to wake a sleeper or has been woken, nobody sleeps on a free
mutex. -/
theorem mutex_excludes_and_strands_nobody (nType : MutexType) (run : List (MutexEvent T)) :
    (∀ t u, (after nType run).Holds t → (after nType run).Holds u → t = u) ∧
      ((after nType run).nLock = 0 ↔ ∀ t, ¬ (after nType run).Holds t) ∧
      ((∀ t, ((after nType run).pc t).hears = false) → (after nType run).nLock = 0 →
        ∀ t, (after nType run).asleep t = false) := by
  have kept := kept_after nType run
  refine ⟨kept.sound.holds_iff.1, kept.sound.holds_iff.2, fun deaf unlocked t => ?_⟩
  refine Bool.eq_false_iff.mpr fun asleep => ?_
  obtain ⟨u, hears⟩ := kept.heard unlocked t asleep
  exact nomatch (deaf u).symm.trans hears

end Mutex

end GreenJade.Libc

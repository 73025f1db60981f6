import GreenJade.Sched.Threads

/-! Owns the notification object: the atomic steps of `notify_wait`, `notify_pulse`, the wakers and
`notify_mark_dead`, for any number of threads and interrupt contexts at once. It does not own the
counters of pulses and waits, or which runnable thread the scheduler picks. -/

namespace GreenJade.Ipc

open GreenJade.Sched

universe u

def notifySoftMultiMax : Nat := 8

def notifyWakerDrainRounds : Nat := 4

/-! ### Calls -/

inductive NotifyCall
  | wait (mask : U64) (fBlock : Bool)
  | pulse (badge : U64)
  | wake (max : Nat)
  | wakeDrain
  | abortWaiter
  | markDead
deriving DecidableEq

structure Wait where
  mask : U64
  fBlock : Bool
  fRegistered : Bool
deriving DecidableEq

inductive Waker
  | pulse
  /-- `notify_wake`. -/
  | kick (max : Nat)
  /-- `notify_abort_waiter`, which looks for waiters before it drains. -/
  | abort
  /-- A round of `notify_soft_waker_drain`. -/
  | drain (iRound : Nat)
deriving DecidableEq

/-- How many threads a wake takes at most. -/
def Waker.max : Waker → Nat
  | .kick max => max
  | _ => notifySoftMultiMax

/-- The accesses of `thread_wake` to one entry of the thread table, in their order. -/
inductive WakePhase
  | state
  | obj
  | tag
  | clearObj
  | clearTag
  | ready
deriving DecidableEq

/-- The loop of `thread_wake`: the entry, how many threads were woken so far, and the next
access. -/
structure Scan where
  iThr : Nat
  n : Nat
  phase : WakePhase
deriving DecidableEq

def Scan.start : Scan := { iThr := 0, n := 0, phase := .state }

/-- The loop goes on with the next entry. -/
def Scan.next (s : Scan) (n : Nat) : Scan := { iThr := s.iThr + 1, n, phase := .state }

/-- Where a thread or an interrupt is in a call. Each place is one access to what is shared, where
`u32Ready` and the object's state are taken for one. -/
inductive NotifyPc
  | idle
  /-- `notify_wait` before its loop. -/
  | enter (w : Wait)
  /-- The top of the loop. -/
  | check (w : Wait)
  | load (w : Wait)
  /-- The compare-and-swap, with the bits that were loaded. -/
  | swap (w : Wait) (pend : U64)
  /-- The way out of `notify_wait`, with the bits that it returns. -/
  | leave (w : Wait) (got : U64)
  | leaveHint (w : Wait) (got : U64)
  | uncount (w : Wait) (got : U64)
  | register (w : Wait)
  | hint (w : Wait)
  /-- The stores of `thread_block`. -/
  | blockObj (w : Wait)
  | blockTag (w : Wait)
  | blockState (w : Wait)
  /-- The bits are loaded again once the thread is blocked. -/
  | sample (w : Wait)
  | sampleLive (w : Wait)
  /-- The loop of `thread_wake`, called by the thread that just blocked. -/
  | selfWake (w : Wait) (s : Scan)
  | sched (w : Wait)
  /-- After `schedule`. -/
  | unhint (w : Wait)
  | clearHint (w : Wait)
  /-- `notify_pulse` before it looks whether the object is live. -/
  | pulse (badge : U64)
  | post (badge : U64)
  /-- `notify_has_waiter`: the hint, then the count. -/
  | hasHint (waker : Waker)
  | hasCount (waker : Waker)
  /-- The loop of `thread_wake`. -/
  | scan (waker : Waker) (s : Scan)
  /-- `notify_mark_dead`. -/
  | kill
deriving DecidableEq

/-- Who makes calls: a thread, or a context without one, such as an interrupt. -/
abbrev Agent (κ : Type u) := Thr ⊕ κ

def threadCurrent {κ : Type u} : Agent κ → Option Thr
  | .inl t => some t
  | .inr _ => none

/-! ### Events -/

/-- What is recorded of a run: the badges that are asked for and those that are posted, and the bits
that waits take and return. -/
inductive NotifyEvent (κ : Type u)
  | asked (a : Agent κ) (badge : U64)
  | posted (a : Agent κ) (badge : U64)
  | took (a : Agent κ) (mask got : U64)
  | returned (a : Agent κ) (value : U64)
deriving DecidableEq

/-- The object, what the thread table holds of it, and where everyone is. -/
structure NotifySys (κ : Type u) where
  /-- `u32Ready`, with the object's state LIVE. -/
  live : Bool
  pending : U64
  /-- `pWaiter`. -/
  waiter : Option Thr
  /-- `u32Waiters`. -/
  waiters : Nat
  /-- `u32State` is BLOCKED. -/
  blocked : Thr → Bool
  /-- `pBlockObj` is the object. -/
  blockObj : Thr → Bool
  /-- `u32BlockTag` is the tag of waiters. -/
  blockTag : Thr → Bool
  pc : Agent κ → NotifyPc
  log : List (NotifyEvent κ)

namespace NotifySys

variable {κ : Type u}

/-- `notify_init`, with nobody in a call. -/
def init : NotifySys κ where
  live := true
  pending := 0
  waiter := none
  waiters := 0
  blocked := fun _ => false
  blockObj := fun _ => false
  blockTag := fun _ => false
  pc := fun _ => .idle
  log := []

variable (st : NotifySys κ)

def note (event : NotifyEvent κ) : NotifySys κ :=
  { st with log := st.log ++ [event] }

/-- A store of `thread_block`, which does nothing where there is no thread. -/
def threadStore (a : Agent κ) (store : Thr → NotifySys κ) : NotifySys κ :=
  (threadCurrent a).elim st store

/-- One access of `thread_wake` to an entry, and how its loop goes on. -/
def wakeEntry (t : Thr) (s : Scan) : NotifySys κ × Scan :=
  match s.phase with
  | .state => (st, if st.blocked t then { s with phase := .obj } else s.next s.n)
  | .obj => (st, if st.blockObj t then { s with phase := .tag } else s.next s.n)
  | .tag => (st, if st.blockTag t then { s with phase := .clearObj } else s.next s.n)
  | .clearObj =>
    ({ st with blockObj := Function.update st.blockObj t false }, { s with phase := .clearTag })
  | .clearTag =>
    ({ st with blockTag := Function.update st.blockTag t false }, { s with phase := .ready })
  | .ready => ({ st with blocked := setBlocked st.blocked t false }, s.next (s.n + 1))

/-- What an access of `thread_wake` leaves as it was. -/
structure Wakes (st st' : NotifySys κ) : Prop where
  live : st'.live = st.live
  pending : st'.pending = st.pending
  waiters : st'.waiters = st.waiters
  pc : st'.pc = st.pc
  log : st'.log = st.log
  blocked : ∀ t, st'.blocked t = true → st.blocked t = true

theorem wakes_wakeEntry (t : Thr) (s : Scan) : Wakes st (st.wakeEntry t s).1 := by
  obtain ⟨iThr, n, phase⟩ := s
  cases phase with
  | ready =>
    refine ⟨rfl, rfl, rfl, rfl, rfl, fun u blocked => ?_⟩
    dsimp only [wakeEntry] at blocked
    rw [setBlocked_apply] at blocked
    split_ifs at blocked
    exact blocked
  | state | obj | tag | clearObj | clearTag => exact ⟨rfl, rfl, rfl, rfl, rfl, fun _ => id⟩

/-- What `notify_has_waiter` leads to. -/
def wakePc : Waker → NotifyPc
  | .abort => .hasHint (.drain 0)
  | waker => .scan waker .start

/-- What comes after a wake: the drain goes on until a round wakes nobody. -/
def afterScan (waker : Waker) (n : Nat) : NotifyPc :=
  match waker with
  | .drain iRound =>
    if n = 0 then .idle
    else if iRound + 1 < notifyWakerDrainRounds then .hasHint (.drain (iRound + 1)) else .idle
  | _ => .idle

theorem wakePc_eq (waker : Waker) :
    wakePc waker = .scan waker .start ∨ wakePc waker = .hasHint (.drain 0) := by
  cases waker with
  | abort => exact .inr rfl
  | pulse | kick | drain => exact .inl rfl

theorem afterScan_eq (waker : Waker) (n : Nat) :
    afterScan waker n = .idle ∨ ∃ iRound, afterScan waker n = .hasHint (.drain iRound) := by
  cases waker with
  | drain iRound =>
    dsimp only [afterScan]
    split_ifs
    · exact .inl rfl
    · exact .inr ⟨_, rfl⟩
    · exact .inl rfl
  | pulse | kick | abort => exact .inl rfl

variable [DecidableEq κ]

def goto (a : Agent κ) (pc : NotifyPc) : NotifySys κ :=
  { st with pc := Function.update st.pc a pc }

@[simp] theorem goto_pc (a b : Agent κ) (pc : NotifyPc) :
    (st.goto a pc).pc b = if b = a then pc else st.pc b := Function.update_apply ..

/-- The loop of `thread_wake` makes its next access, or it is at its end. -/
def scanStep (a : Agent κ) (max : Nat) (s : Scan) (again : Scan → NotifyPc) (done : NotifyPc) :
    NotifySys κ :=
  if inside : s.iThr < gjMaxThreads ∧ (s.phase = .state → s.n < max) then
    let entry := st.wakeEntry ⟨s.iThr, inside.1⟩ s
    entry.1.goto a (again entry.2)
  else st.goto a done

/-- One step of a call. -/
def step (a : Agent κ) : NotifySys κ :=
  match st.pc a with
  | .idle => st
  | .enter w =>
    if st.live then st.goto a (.check { w with mask := if w.mask = 0 then ~~~0 else w.mask })
    else st.goto a (.leave w 0)
  | .check w => st.goto a (if st.live then .load w else .leave w 0)
  | .load w =>
    if st.pending &&& w.mask ≠ 0 then st.goto a (.swap w st.pending)
    else if w.fBlock = false ∨ threadCurrent a = none then st.goto a (.leave w 0)
    else st.goto a (if w.fRegistered then .hint w else .register w)
  | .swap w pend =>
    if st.pending = pend then
      (({ st with pending := pend &&& ~~~(pend &&& w.mask) }).note
        (.took a w.mask (pend &&& w.mask))).goto a (.leave w (pend &&& w.mask))
    else st.goto a (.check w)
  | .leave w got =>
    if w.fRegistered then
      st.goto a (if st.waiter = threadCurrent a then .leaveHint w got else .uncount w got)
    else (st.note (.returned a got)).goto a .idle
  | .leaveHint w got => ({ st with waiter := none }).goto a (.uncount w got)
  | .uncount _ got =>
    (({ st with waiters := st.waiters - 1 }).note (.returned a got)).goto a .idle
  | .register w =>
    ({ st with waiters := st.waiters + 1 }).goto a (.hint { w with fRegistered := true })
  | .hint w => ({ st with waiter := threadCurrent a }).goto a (.blockObj w)
  | .blockObj w =>
    (st.threadStore a fun t => { st with blockObj := Function.update st.blockObj t true }).goto a
      (.blockTag w)
  | .blockTag w =>
    (st.threadStore a fun t => { st with blockTag := Function.update st.blockTag t true }).goto a
      (.blockState w)
  | .blockState w =>
    (st.threadStore a fun t => { st with blocked := setBlocked st.blocked t true }).goto a
      (.sample w)
  | .sample w =>
    st.goto a (if st.pending &&& w.mask ≠ 0 then .selfWake w .start else .sampleLive w)
  | .sampleLive w => st.goto a (if st.live then .sched w else .selfWake w .start)
  | .selfWake w s => st.scanStep a notifySoftMultiMax s (.selfWake w) (.sched w)
  | .sched w =>
    if (threadCurrent a).any st.blocked then st else st.goto a (.unhint w)
  | .unhint w => st.goto a (if st.waiter = threadCurrent a then .clearHint w else .check w)
  | .clearHint w => ({ st with waiter := none }).goto a (.check w)
  | .pulse badge =>
    st.goto a (if st.live then .post (if badge = 0 then 1 else badge) else .idle)
  | .post badge =>
    (({ st with pending := st.pending ||| badge }).note (.posted a badge)).goto a (.hasHint .pulse)
  | .hasHint waker =>
    st.goto a (if st.waiter ≠ none then wakePc waker else .hasCount waker)
  | .hasCount waker => st.goto a (if 0 < st.waiters then wakePc waker else .idle)
  | .scan waker s => st.scanStep a waker.max s (.scan waker) (afterScan waker s.n)
  | .kill => ({ st with live := false }).goto a (.hasHint .abort)

def begin (a : Agent κ) : NotifyCall → NotifySys κ
  | .wait mask fBlock => st.goto a (.enter { mask, fBlock, fRegistered := false })
  | .pulse badge => (st.note (.asked a badge)).goto a (.pulse badge)
  | .wake max => st.goto a (.hasHint (.kick (if max = 0 then notifySoftMultiMax else max)))
  | .wakeDrain => st.goto a (.hasHint (.drain 0))
  | .abortWaiter => st.goto a (.hasHint .abort)
  | .markDead => st.goto a .kill

end NotifySys

/-- Somebody who is in no call begins one, or somebody makes the next step of a call. -/
inductive NotifyAct (κ : Type u)
  | call (a : Agent κ) (call : NotifyCall)
  | step (a : Agent κ)
deriving DecidableEq

def NotifySys.next {κ : Type u} [DecidableEq κ] (st : NotifySys κ) : NotifyAct κ → NotifySys κ
  | .call a call => if st.pc a = .idle then st.begin a call else st
  | .step a => st.step a

end GreenJade.Ipc

import Mathlib.Tactic.Simps.Basic
import Mathlib.Data.List.FinRange
import Mathlib.Logic.Function.Basic
import GreenJade.Base

/-! Owns the wait table of `futex.c`: `futex_wait_common`, `futex_wake_common`, `futex_timer_check`
and `futex_cancel_thr`. A wait is cut where another processor can act: at each load of the futex
word, which a user may store to although the table is locked, and at the sleep. What happens between
two cuts is one event, and any order of events is a run. It does not own the scheduler: a thread is
blocked on a slot or is not, and a sleeping waiter resumes when it is not. -/

namespace GreenJade.Sync

open Function

def futexMaxWaiters : Nat := 64

instance : NeZero futexMaxWaiters := ⟨by decide⟩

abbrev Slot := Fin futexMaxWaiters

structure FutexKey where
  phys : U64
  uaddr : U64
  asId : U64
  isPrivate : Bool
  deriving DecidableEq

def FutexKey.zero : FutexKey where
  phys := 0
  uaddr := 0
  asId := 0
  isPrivate := false

/-- `key_eq`: private keys by address and address space, shared ones by the physical address. -/
def keyEq (a b : FutexKey) : Bool :=
  if a.isPrivate ≠ b.isPrivate then false
  else if a.isPrivate then a.uaddr == b.uaddr && a.asId == b.asId
  else if a.phys = 0 ∨ b.phys = 0 then false
  else a.phys == b.phys

/-- `struct futex_waiter`, with a thread as its index in the thread table. -/
structure FutexWaiter (n : Nat) where
  used : Bool
  waiting : Bool
  val : U32
  bitset : U32
  timedOut : Bool
  key : FutexKey
  thr : Option (Fin n)
  deadline : U64
  deriving DecidableEq

def FutexWaiter.zero {n : Nat} : FutexWaiter n where
  used := false
  waiting := false
  val := 0
  bitset := 0
  timedOut := false
  key := .zero
  thr := none
  deadline := 0

/-- What a wait is called with, once the pointers are known not to be null. -/
structure WaitArgs where
  addr : U64
  val : U32
  key : FutexKey
  deadline : U64
  bitset : U32
  deriving DecidableEq

/-- Where a thread is in a wait: before the table is locked, with the table locked and the slot
filled, asleep or about to take up again. -/
inductive Phase
  | idle
  | entered (args : WaitArgs)
  | registered (k : Slot) (args : WaitArgs)
  | parked (k : Slot) (args : WaitArgs)
  deriving DecidableEq

/-- The futex words, the table and its lock where it is held across a load, the slot that each
blocked thread is blocked on, and where each thread is. -/
structure Futex (n : Nat) where
  words : U64 → U32
  waiters : Slot → FutexWaiter n
  holder : Option (Fin n)
  blocked : Fin n → Option Slot
  phase : Fin n → Phase

def einval : Int := -22
def eagain : Int := -11
def enomem : Int := -12
def etimedout : Int := -110

namespace Futex

variable {n : Nat}

def init (n : Nat) (words : U64 → U32) : Futex n where
  words := words
  waiters _ := .zero
  holder := none
  blocked _ := none
  phase _ := .idle

variable (st : Futex n)

@[simps -fullyApplied] def setWaiter (k : Slot) (waiter : FutexWaiter n) : Futex n :=
  { st with waiters := update st.waiters k waiter }

@[simps -fullyApplied] def setPhase (t : Fin n) (phase : Phase) : Futex n :=
  { st with phase := update st.phase t phase }

@[simps -fullyApplied] def unblock (t : Fin n) : Futex n :=
  { st with blocked := update st.blocked t none }

/-- `thread_wake` of one thread that is blocked on a slot: the first in the thread table. -/
def threadWake (k : Slot) : Futex n :=
  match (List.finRange n).find? fun t => decide (st.blocked t = some k) with
  | none => st
  | some t => st.unblock t

def finish (t : Fin n) (result : Int) : Option Int × Futex n :=
  (some result, st.setPhase t .idle)

def freeSlot (k : Slot) : Futex n :=
  st.setWaiter k { st.waiters k with used := false, waiting := false, bitset := 0 }

/-! ### Waiting -/

/-- `futex_wait_common` up to its first load. -/
def waitEnter (t : Fin n) (pU32 : Option U64) (val : U32) (pKey : Option FutexKey)
    (deadline : U64) (bitset : U32) : Option Int × Futex n :=
  match pU32, pKey with
  | some addr, some key =>
    if key.uaddr &&& 3 ≠ 0 then (some einval, st)
    else if bitset = 0 then (some einval, st)
    else if key.isPrivate = false ∧ key.phys = 0 then (some einval, st)
    else if st.words addr ≠ val then (some eagain, st)
    else (none, st.setPhase t (.entered { addr, val, key, deadline, bitset }))
  | _, _ => (some einval, st)

def registration (t : Fin n) (args : WaitArgs) : FutexWaiter n where
  used := true
  waiting := true
  val := args.val
  bitset := args.bitset
  timedOut := false
  key := args.key
  thr := some t
  deadline := args.deadline

def freeWaiter : Option Slot :=
  (List.finRange futexMaxWaiters).find? fun k => !(st.waiters k).used

/-- The deadline of a wait has passed. There is no time before the timer is ready. -/
def pastDeadline (now : Option U64) (deadline : U64) : Bool :=
  match now with
  | none => false
  | some now => decide (deadline ≠ 0 ∧ deadline ≤ now)

/-- The table is locked, the word loaded again, and a slot filled; the thread is blocked on it
before the lock is given back. -/
def waitClaim (t : Fin n) (args : WaitArgs) (now : Option U64) : Option Int × Futex n :=
  match st.freeWaiter with
  | none => st.finish t enomem
  | some k =>
    if st.words args.addr ≠ args.val then st.finish t eagain
    else
      let st := st.setWaiter k (registration t args)
      if pastDeadline now args.deadline then (st.freeSlot k).finish t etimedout
      else
        (none,
          { st.setPhase t (.registered k args) with
            blocked := update st.blocked t (some k), holder := some t })

def waiterCancelBlocked (k : Slot) : Futex n :=
  let after := st.setWaiter k
    { st.waiters k with waiting := false, used := false, timedOut := false, bitset := 0 }
  match (st.waiters k).thr with
  | none => after
  | some t => if st.blocked t = some k then after.unblock t else after

def waitResult (k : Slot) : Int :=
  if (st.waiters k).timedOut then etimedout else 0

/-- The word is loaded once more with the table locked; the lock is given back. -/
def waitSettle (t : Fin n) (k : Slot) (args : WaitArgs) : Option Int × Futex n :=
  let unlocked := { st with holder := none }
  if st.words args.addr ≠ args.val then (unlocked.waiterCancelBlocked k).finish t eagain
  else if (st.waiters k).waiting = false then
    let after := unlocked.freeSlot k
    (if st.blocked t = some k then after.unblock t else after).finish t (st.waitResult k)
  else (none, unlocked.setPhase t (.parked k args))

/-- The waiter is back from `schedule`. -/
def waitResume (t : Fin n) (k : Slot) : Option Int × Futex n :=
  (st.freeSlot k).finish t (st.waitResult k)

/-! ### Waking -/

/-- A slot in which a thread waits with an equal key and a common bit. -/
def matching (key : FutexKey) (bitset : U32) (k : Slot) : Bool :=
  (st.waiters k).used && (st.waiters k).waiting && keyEq (st.waiters k).key key &&
    decide ((st.waiters k).bitset &&& bitset ≠ 0)

def endWait (k : Slot) (late : Bool) : Futex n :=
  (st.setWaiter k
    { st.waiters k with
      waiting := false, timedOut := (st.waiters k).timedOut || late }).threadWake k

def wakeLoop (key : FutexKey) (count : Nat) (bitset : U32) :
    List Slot → Nat → Futex n → Nat × Futex n
  | [], woken, st => (woken, st)
  | k :: rest, woken, st =>
    if woken < count then
      if st.matching key bitset k then
        wakeLoop key count bitset rest (woken + 1) (st.endWait k false)
      else wakeLoop key count bitset rest woken st
    else (woken, st)

/-- What `futex_wake_common` returns before it locks the table. -/
def wakeEarly (pKey : Option FutexKey) (count : U32) (bitset : U32) : Option Int :=
  match pKey with
  | none => some einval
  | some key =>
    if bitset = 0 then some einval
    else if count = 0 then some 0
    else if key.isPrivate = false ∧ key.phys = 0 then some einval
    else none

def slots : List Slot := List.finRange futexMaxWaiters

def futexTimerCheck (now : Option U64) : Futex n :=
  slots.foldl
    (fun st k =>
      if (st.waiters k).used && (st.waiters k).waiting &&
          pastDeadline now (st.waiters k).deadline then st.endWait k true
      else st) st

/-- `futex_cancel_thr`, without the robust list. -/
def futexCancelThr (t : Fin n) : Futex n :=
  slots.foldl
    (fun st k =>
      if (st.waiters k).used = true ∧ (st.waiters k).thr = some t then
        (if (st.waiters k).waiting then st.endWait k false else st).setWaiter k .zero
      else st) st

end Futex

/-! ### Events -/

inductive FutexEvent (n : Nat)
  | store (addr : U64) (value : U32)
  | enter (t : Fin n) (pU32 : Option U64) (val : U32) (pKey : Option FutexKey) (deadline : U64)
      (bitset : U32)
  | claim (t : Fin n) (now : Option U64)
  | settle (t : Fin n)
  | resume (t : Fin n)
  | wake (pKey : Option FutexKey) (count bitset : U32)
  | timerCheck (now : Option U64)
  | cancel (t : Fin n)

namespace Futex

variable {n : Nat}

variable (st : Futex n)

/-- What an event does where it can happen, and what the call returns that it ends. -/
def step : FutexEvent n → Option (Option Int × Futex n)
  | .store addr value => some (none, { st with words := update st.words addr value })
  | .enter t pU32 val pKey deadline bitset =>
    if st.phase t = .idle then some (st.waitEnter t pU32 val pKey deadline bitset) else none
  | .claim t now =>
    match st.phase t with
    | .entered args => if st.holder = none then some (st.waitClaim t args now) else none
    | _ => none
  | .settle t =>
    match st.phase t with
    | .registered k args => some (st.waitSettle t k args)
    | _ => none
  | .resume t =>
    match st.phase t with
    | .parked k _ =>
      if st.blocked t = none ∧ st.holder = none then some (st.waitResume t k) else none
    | _ => none
  | .wake pKey count bitset =>
    match wakeEarly pKey count bitset, pKey with
    | some result, _ => some (some result, st)
    | none, some key =>
      if st.holder = none then
        let (woken, st) := wakeLoop key count.toNat bitset slots 0 st
        some (some woken, st)
      else none
    | none, none => none
  | .timerCheck now => if st.holder = none then some (none, st.futexTimerCheck now) else none
  | .cancel t => if st.holder = none then some (none, st.futexCancelThr t) else none

/-- The state after an event; one that cannot happen changes nothing. -/
def next (event : FutexEvent n) : Futex n :=
  match st.step event with
  | none => st
  | some (_, st) => st

def outcome (event : FutexEvent n) : Option Int := (st.step event).bind Prod.fst

def run (events : List (FutexEvent n)) : Futex n := events.foldl next st

end Futex

def FutexEvent.waiter {n : Nat} : FutexEvent n → Option (Fin n)
  | .enter t _ _ _ _ _ | .claim t _ | .settle t | .resume t => some t
  | .store _ _ | .wake _ _ _ | .timerCheck _ | .cancel _ => none

def sampleKey : FutexKey where
  phys := 0
  uaddr := 0x1000
  asId := 1
  isPrivate := true

/-- A thread waits, up to its sleep. -/
def sampleWait {n : Nat} (t : Fin n) : List (FutexEvent n) :=
  [.enter t (some 0x1000) 0 (some sampleKey) 0 1, .claim t none, .settle t]

end GreenJade.Sync

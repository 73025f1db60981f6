import GreenJade.Base
import Mathlib.Data.List.FinRange
import Mathlib.Logic.Function.Basic

/-! Owns the tables of `file_lock.c` and the functions that run on them under `g_lkLock`: the
byte-range locks with their conflict test, carving and coalescing, and the table of waiters with
the deadlock probe. It does not own the interleaving of the callers. Ends of ranges are
exclusive, and a negative end stands for the end of the file. -/

namespace GreenJade.Fs

abbrev I64 := BitVec 64

abbrev gjFlockMax : Nat := 32

abbrev gjFlockMaxWaiters : Nat := 8

def gjFlockDeadlockDepth : Nat := 4

def gjFlockEof : Int := -1

/-- The greatest offset, which also stands for the end of the file in comparisons. -/
def i64Max : Int := 0x7fffffffffffffff

inductive LockType
  | rdlck
  | wrlck
  deriving DecidableEq, Repr

inductive FlockType
  | lock (type : LockType)
  | unlck
  | other
  deriving DecidableEq, Repr

inductive FlockErr
  | einval
  | ebadf
  | eagain
  | enolck
  | edeadlk
  deriving DecidableEq, Repr

structure GjFlock where
  type : FlockType
  whence : BitVec 16
  start : I64
  len : I64
  pid : U32
  deriving DecidableEq

structure FlockSlot where
  used : Bool
  fd : I64
  type : LockType
  start : Int
  stop : Int
  pid : U32
  deriving DecidableEq

structure FlockWaiter where
  used : Bool
  fd : I64
  type : LockType
  start : Int
  stop : Int
  pid : U32
  blockerPid : U32
  genSeen : U32
  deriving DecidableEq

structure LockTable where
  lk : Fin gjFlockMax → FlockSlot
  wait : Fin gjFlockMaxWaiters → FlockWaiter
  nLocks : U32
  nWaiters : U32
  wakeGen : U32

def fileLockInit : LockTable where
  lk _ := { used := false, fd := 0, type := .rdlck, start := 0, stop := 0, pid := 0 }
  wait _ :=
    { used := false, fd := 0, type := .rdlck, start := 0, stop := 0, pid := 0, blockerPid := 0
      genSeen := 0 }
  nLocks := 0
  nWaiters := 0
  wakeGen := 0

/-- A lock request that has passed `flock_validate` and the check of its type. -/
structure LockReq where
  fd : I64
  type : LockType
  start : Int
  stop : Int
  pid : U32
  deriving DecidableEq

/-! ### Ranges -/

def rangeEnd (start len : Int) : Int :=
  if len = 0 then gjFlockEof
  else if start > i64Max - len then gjFlockEof
  else start + len

def rangeOverflow (start len : Int) : Bool :=
  if len = 0 then false else start > i64Max - len

def rangeNormEnd (stop : Int) : Int :=
  if stop < 0 then i64Max else stop

def rangesOverlap (a0 a1 b0 b1 : Int) : Bool :=
  a0 < rangeNormEnd b1 ∧ b0 < rangeNormEnd a1

def typesConflict (a b : LockType) : Bool :=
  !(a = .rdlck ∧ b = .rdlck)

/-- `flock_validate`: the start, the end and the pid. -/
def flockValidate (fd : I64) (fl : GjFlock) : Except FlockErr (Int × Int × U32) :=
  let pid := if fl.pid ≠ 0 then fl.pid else 1
  let start := if fl.start.toInt < 0 then 0 else fl.start.toInt
  if fd.toInt < 0 then .error .ebadf
  else if fl.whence ≠ 0 then .error .einval
  else if fl.len.toInt < 0 then .error .einval
  else if rangeOverflow start fl.len.toInt then .error .einval
  else if 0 < fl.len.toInt ∧ rangeEnd start fl.len.toInt = start then .error .einval
  else .ok (start, rangeEnd start fl.len.toInt, pid)

/-! ### Slots -/

variable (tbl : LockTable)

def LockTable.setLk (i : Fin gjFlockMax) (slot : FlockSlot) : LockTable :=
  { tbl with lk := Function.update tbl.lk i slot }

def LockTable.setWait (i : Fin gjFlockMaxWaiters) (entry : FlockWaiter) : LockTable :=
  { tbl with wait := Function.update tbl.wait i entry }

def slotFreeCount : Nat :=
  (List.finRange gjFlockMax).countP fun i => !(tbl.lk i).used

/-- `slot_alloc`: the first free slot, marked as used. -/
def slotAlloc : Option (Fin gjFlockMax × LockTable) :=
  match (List.finRange gjFlockMax).find? fun i => !(tbl.lk i).used with
  | some i => some (i, { tbl.setLk i { tbl.lk i with used := true } with nLocks := tbl.nLocks + 1 })
  | none => none

def slotFree (i : Fin gjFlockMax) : LockTable :=
  if (tbl.lk i).used = false then tbl
  else
    { tbl.setLk i { tbl.lk i with used := false } with
      nLocks := if 0 < tbl.nLocks then tbl.nLocks - 1 else tbl.nLocks }

def slotFill (i : Fin gjFlockMax) (req : LockReq) : LockTable :=
  tbl.setLk i
    { used := true, fd := req.fd, type := req.type, start := req.start, stop := req.stop
      pid := req.pid }

def wakeGenBump : LockTable := { tbl with wakeGen := tbl.wakeGen + 1 }

/-- A lock that stands in the way of a request. -/
def FlockSlot.Blocks (slot : FlockSlot) (req : LockReq) : Prop :=
  slot.used = true ∧ slot.fd = req.fd ∧ slot.pid ≠ req.pid ∧
    rangesOverlap req.start req.stop slot.start slot.stop = true ∧
    typesConflict req.type slot.type = true

instance (slot : FlockSlot) (req : LockReq) : Decidable (slot.Blocks req) :=
  inferInstanceAs (Decidable (_ ∧ _))

def betterHit : Option (Fin gjFlockMax) → Fin gjFlockMax → Option (Fin gjFlockMax)
  | none, i => some i
  | some best, i =>
    if (tbl.lk i).start < (tbl.lk best).start then some i
    else if (tbl.lk i).start = (tbl.lk best).start ∧ (tbl.lk i).type = .wrlck ∧
        (tbl.lk best).type ≠ .wrlck then some i
    else some best

def conflict (req : LockReq) : Option (Fin gjFlockMax) :=
  (List.finRange gjFlockMax).foldl
    (fun best i => if (tbl.lk i).Blocks req then betterHit tbl best i else best) none

/-! ### Carving -/

/-- A slot that holds a range of the pid on the descriptor. -/
def FlockSlot.Own (slot : FlockSlot) (fd : I64) (pid : U32) : Prop :=
  slot.used = true ∧ slot.fd = fd ∧ slot.pid = pid

instance (slot : FlockSlot) (fd : I64) (pid : U32) : Decidable (slot.Own fd pid) :=
  inferInstanceAs (Decidable (_ ∧ _))

def carveSlot (fd : I64) (pid : U32) (start stop : Int) (tbl : LockTable) (i : Fin gjFlockMax) :
    Except FlockErr Unit × LockTable :=
  let slot := tbl.lk i
  if ¬ slot.Own fd pid then (.ok (), tbl)
  else if rangesOverlap start stop slot.start slot.stop = false then (.ok (), tbl)
  else
    let left : Bool := slot.start < start
    let right : Bool := rangeNormEnd slot.stop > rangeNormEnd stop
    if !left && !right then (.ok (), slotFree tbl i)
    else if left && right then
      if slotFreeCount tbl < 1 then (.error .enolck, tbl)
      else
        match slotAlloc (tbl.setLk i { slot with stop := start }) with
        | none => (.error .enolck, tbl)
        | some (j, cut) =>
          (.ok (), slotFill cut j { fd, type := slot.type, start := stop, stop := slot.stop, pid })
    else if left then (.ok (), tbl.setLk i { slot with stop := start })
    else (.ok (), tbl.setLk i { slot with start := stop })

def carveLoop (fd : I64) (pid : U32) (start stop : Int) :
    List (Fin gjFlockMax) → LockTable → Except FlockErr Unit × LockTable
  | [], tbl => (.ok (), tbl)
  | i :: rest, tbl =>
    match carveSlot fd pid start stop tbl i with
    | (.ok (), carved) => carveLoop fd pid start stop rest carved
    | (.error err, carved) => (.error err, carved)

def carvePidRange (fd : I64) (pid : U32) (start stop : Int) : Except FlockErr Unit × LockTable :=
  carveLoop fd pid start stop (List.finRange gjFlockMax) tbl

/-! ### Coalescing -/

def mergedStop (a1 b1 : Int) : Int :=
  if a1 < 0 ∨ b1 < 0 then gjFlockEof else max (rangeNormEnd a1) (rangeNormEnd b1)

def FlockSlot.merge (a b : FlockSlot) : FlockSlot :=
  { a with start := min a.start b.start, stop := mergedStop a.stop b.stop }

/-- One iteration of the inner loop of `coalesce_pid`: slot `j` is merged into slot `i`. -/
def coalescePair (fd : I64) (pid : U32) (i : Fin gjFlockMax) (state : Bool × LockTable)
    (j : Fin gjFlockMax) : Bool × LockTable :=
  let a := state.2.lk i
  let b := state.2.lk j
  if ¬ b.Own fd pid then state
  else if a.type ≠ b.type then state
  else if rangeNormEnd a.stop < b.start ∨ rangeNormEnd b.stop < a.start then state
  else (true, slotFree (state.2.setLk i (a.merge b)) j)

def coalesceSlot (fd : I64) (pid : U32) (state : Bool × LockTable) (i : Fin gjFlockMax) :
    Bool × LockTable :=
  if ¬ (state.2.lk i).Own fd pid then state
  else
    ((List.finRange gjFlockMax).filter fun j => i < j).foldl (coalescePair fd pid i) state

/-- The passes of `coalesce_pid`, until one makes no progress. -/
def coalescePasses (fd : I64) (pid : U32) : Nat → LockTable → LockTable
  | 0, tbl => tbl
  | passes + 1, tbl =>
    let (progress, merged) := (List.finRange gjFlockMax).foldl (coalesceSlot fd pid) (false, tbl)
    if progress then coalescePasses fd pid passes merged else merged

def coalescePid (fd : I64) (pid : U32) : LockTable :=
  coalescePasses fd pid gjFlockMax tbl

/-! ### Waiters -/

def waiterRegister (req : LockReq) (blockerPid : U32) :
    Option (Fin gjFlockMaxWaiters) × LockTable :=
  match (List.finRange gjFlockMaxWaiters).find? fun i => !(tbl.wait i).used with
  | some i =>
    let entry : FlockWaiter :=
      { used := true, fd := req.fd, type := req.type, start := req.start, stop := req.stop
        pid := req.pid, blockerPid, genSeen := tbl.wakeGen }
    (some i, { tbl.setWait i entry with nWaiters := tbl.nWaiters + 1 })
  | none => (none, tbl)

/-- `waiter_unregister`; no index is `-1`. -/
def waiterUnregister : Option (Fin gjFlockMaxWaiters) → LockTable
  | none => tbl
  | some i =>
    if (tbl.wait i).used = false then tbl
    else
      { tbl.setWait i { tbl.wait i with used := false } with
        nWaiters := if 0 < tbl.nWaiters then tbl.nWaiters - 1 else tbl.nWaiters }

def waiterUpdateBlocker (i : Fin gjFlockMaxWaiters) (blockerPid : U32) : LockTable :=
  if (tbl.wait i).used = false then tbl
  else tbl.setWait i { tbl.wait i with blockerPid, genSeen := tbl.wakeGen }

def waiterOf (pid : U32) : Option (Fin gjFlockMaxWaiters) :=
  (List.finRange gjFlockMaxWaiters).find? fun i => (tbl.wait i).used ∧ (tbl.wait i).pid = pid

/-- The walk of `soft_deadlock` along the recorded blockers. -/
def deadlockWalk (tbl : LockTable) (selfPid : U32) : Nat → U32 → Bool
  | 0, _ => false
  | depth + 1, cur =>
    match waiterOf tbl cur with
    | none => false
    | some i =>
      let next := (tbl.wait i).blockerPid
      if next = 0 then false
      else if next = selfPid then true
      else deadlockWalk tbl selfPid depth next

def softDeadlock (selfPid blockerPid : U32) : Bool :=
  if blockerPid = 0 ∨ selfPid = 0 then false
  else if blockerPid = selfPid then true
  else deadlockWalk tbl selfPid gjFlockDeadlockDepth blockerPid

/-! ### The calls -/

/-- What one pass of the loop in `file_lock_set` comes to. -/
inductive SetPass
  | refused (err : FlockErr)
  | waits (nWait : Option (Fin gjFlockMaxWaiters))
  | granted
  deriving DecidableEq

/-- One pass of the loop in `file_lock_set`, up to its release of the spinlock. A call that does
not block never registers, so its `-EAGAIN` has no entry to drop. -/
def fileLockSetPass (req : LockReq) (block : Bool)
    (nWait : Option (Fin gjFlockMaxWaiters)) : SetPass × LockTable :=
  match conflict tbl req with
  | some hit =>
    let blocker := (tbl.lk hit).pid
    if block = false then (.refused .eagain, waiterUnregister tbl nWait)
    else if softDeadlock tbl req.pid blocker then
      (.refused .edeadlk, waiterUnregister tbl nWait)
    else
      match nWait with
      | none =>
        let (index, registered) := waiterRegister tbl req blocker
        (.waits index, registered)
      | some i => (.waits (some i), waiterUpdateBlocker tbl i blocker)
  | none =>
    match carvePidRange tbl req.fd req.pid req.start req.stop with
    | (.error err, carved) => (.refused err, waiterUnregister carved nWait)
    | (.ok (), carved) =>
      match slotAlloc carved with
      | none => (.refused .enolck, waiterUnregister carved nWait)
      | some (i, taken) =>
        let held := coalescePid (slotFill taken i req) req.fd req.pid
        (.granted, wakeGenBump (waiterUnregister held nWait))

/-- The `F_UNLCK` branch of `file_lock_set`, under the spinlock. -/
def fileLockUnlock (fd : I64) (pid : U32) (start stop : Int) : Except FlockErr Unit × LockTable :=
  match carvePidRange tbl fd pid start stop with
  | (.ok (), carved) => (.ok (), wakeGenBump carved)
  | (.error err, carved) => (.error err, carved)

/-- `file_lock_get`, with the descriptor it writes back. -/
def fileLockGet (fd : I64) (fl : GjFlock) : Except FlockErr GjFlock :=
  match flockValidate fd fl with
  | .error err => .error err
  | .ok (start, stop, pid) =>
    let probe : Option LockType :=
      match fl.type with
      | .unlck => some .wrlck
      | .lock type => some type
      | .other => none
    match probe with
    | none => .error .einval
    | some type =>
      match conflict tbl { fd, type, start, stop, pid } with
      | none => .ok { fl with type := .unlck, whence := 0 }
      | some hit =>
        let slot := tbl.lk hit
        .ok
          { type := .lock slot.type, whence := 0, start := BitVec.ofInt 64 slot.start
            len := if slot.stop < 0 then 0 else BitVec.ofInt 64 (slot.stop - slot.start)
            pid := slot.pid }

/-- The slots that a release frees, and how many they are. -/
def releaseSlots (picked : FlockSlot → Bool) (tbl : LockTable) : U32 × LockTable :=
  (List.finRange gjFlockMax).foldl
    (fun state i =>
      if (state.2.lk i).used && picked (state.2.lk i) then (state.1 + 1, slotFree state.2 i)
      else state)
    (0, tbl)

/-- The waiters that `file_lock_release_pid` drops, and how many they are. -/
def dropWaiters (pid : U32) (tbl : LockTable) : U32 × LockTable :=
  (List.finRange gjFlockMaxWaiters).foldl
    (fun state i =>
      if (state.2.wait i).used ∧ (state.2.wait i).pid = pid then
        (state.1 + 1, waiterUnregister state.2 (some i))
      else state)
    (0, tbl)

/-- `file_lock_release_fd` under the spinlock: how many slots it has cleared, and whether a wake
follows. -/
def fileLockReleaseFd (fd : I64) : U32 × Bool × LockTable :=
  if fd.toInt < 0 then (0, false, tbl)
  else
    let (cleared, released) := releaseSlots (fun slot => slot.fd = fd) tbl
    let observed := (List.finRange gjFlockMaxWaiters).countP fun i =>
      (released.wait i).used ∧ (released.wait i).fd = fd
    if 0 < cleared then (cleared, true, wakeGenBump released)
    else if 0 < observed then (cleared, true, wakeGenBump released)
    else (cleared, false, released)

/-- `file_lock_release_pid` under the spinlock. -/
def fileLockReleasePid (pid : U32) : U32 × Bool × LockTable :=
  if pid = 0 then (0, false, tbl)
  else
    let (cleared, released) := releaseSlots (fun slot => slot.pid = pid) tbl
    let (dropped, left) := dropWaiters pid released
    if 0 < cleared then (cleared, true, wakeGenBump left)
    else if 0 < dropped then (cleared, true, wakeGenBump left)
    else (cleared, false, left)

end GreenJade.Fs

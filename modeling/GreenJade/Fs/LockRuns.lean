import GreenJade.Fs.LockCalls
import Mathlib.Logic.Relation

/-! Owns the interleaving of any number of threads in the file-lock calls. One step is one
critical section of a call, or one of the scheduler calls between them. It owns the exclusion that
holds after every run, and leaves the waiters to the modules after it. -/

namespace GreenJade.Fs

open Function RangeTable Option FlockSlot

universe u

def gjFlockSoftWakeMax : Nat := 4

/-- The locals of a pending `file_lock_set` of a lock; `hasThread` is `pCur != NULL`. -/
structure SetCall where
  req : LockReq
  block : Bool
  hasThread : Bool
  nWait : Option (Fin gjFlockMaxWaiters)
  deriving DecidableEq

inductive Pc
  | idle
  | test (call : SetCall)
  | block (call : SetCall)
  | recheck (call : SetCall)
  | selfWake (call : SetCall)
  | asleep (call : SetCall)
  | wake
  deriving DecidableEq

def Pc.call : Pc → Option SetCall
  | .idle => none
  | .test call => some call
  | .block call => some call
  | .recheck call => some call
  | .selfWake call => some call
  | .asleep call => some call
  | .wake => none

/-- The lock tables and the threads. `blocked` is `GJ_THR_BLOCKED` on the wait object. The last
three are history variables that no step reads: how many calls a thread has made, which call has
registered a waiter entry and which one has written it last. -/
structure LockSys (T : Type u) where
  tbl : LockTable
  pc : T → Pc
  blocked : T → Bool
  serial : T → Nat
  registrar : Fin gjFlockMaxWaiters → Option (T × Nat)
  writer : Fin gjFlockMaxWaiters → Option (T × Nat)

/-- The steps, each of one thread. `woken` are the threads that a `thread_wake` finds. -/
inductive LockAct (T : Type u)
  | set (t : T) (fd : I64) (fl : GjFlock) (block hasThread : Bool)
  | get (t : T) (fd : I64) (fl : GjFlock)
  | releaseFd (t : T) (fd : I64)
  | releasePid (t : T) (pid : U32)
  | pass (t : T)
  | block (t : T)
  | recheck (t : T)
  | wake (t : T) (woken : Finset T)
  | resume (t : T)

def LockAct.thread {T : Type u} : LockAct T → T
  | .set t .. => t
  | .get t .. => t
  | .releaseFd t _ => t
  | .releasePid t _ => t
  | .pass t => t
  | .block t => t
  | .recheck t => t
  | .wake t _ => t
  | .resume t => t

variable {T : Type u}

/-- After `file_lock_init`, with every thread outside of the calls. -/
def LockSys.init : LockSys T where
  tbl := fileLockInit
  pc _ := .idle
  blocked _ := false
  serial _ := 0
  registrar _ := none
  writer _ := none

/-- `thread_wake` wakes at most the given number of the blocked threads, and all of them if there
are not more. -/
structure LockSys.Wakes (st : LockSys T) (woken : Finset T) : Prop where
  blocked : ∀ t ∈ woken, st.blocked t = true
  atMost : woken.card ≤ gjFlockSoftWakeMax
  all : woken.card < gjFlockSoftWakeMax → ∀ t, st.blocked t = true → t ∈ woken

section Steps

variable [DecidableEq T] (st : LockSys T)

def LockSys.goto (t : T) (pc : Pc) : LockSys T :=
  { st with pc := update st.pc t pc }

/-- A wait of a call has been noted in an entry of the waiter table. -/
def LockSys.noteWait (t : T) (call : SetCall) : Option (Fin gjFlockMaxWaiters) → LockSys T
  | none => st
  | some i =>
    { st with
      registrar := if call.nWait = none then update st.registrar i (some (t, st.serial t))
        else st.registrar
      writer := update st.writer i (some (t, st.serial t)) }

def LockSys.pass (t : T) (call : SetCall) : LockSys T :=
  match fileLockSetPass st.tbl call.req call.block call.nWait with
  | (.refused _, tbl) => ({ st with tbl }).goto t .idle
  | (.granted, tbl) => ({ st with tbl }).goto t .wake
  | (.waits nWait, tbl) =>
    (({ st with tbl }).noteWait t call nWait).goto t
      (if call.hasThread then .block { call with nWait } else .test { call with nWait })

/-- `file_lock_set` up to its first pass, or the whole of an unlock but its wake. -/
def LockSys.enterSet (t : T) (fd : I64) (fl : GjFlock) (block hasThread : Bool) : LockSys T :=
  match flockValidate fd fl with
  | .error _ => st
  | .ok (start, stop, pid) =>
    match fl.type with
    | .other => st
    | .unlck =>
      match fileLockUnlock st.tbl fd pid start stop with
      | (.ok (), tbl) => ({ st with tbl }).goto t .wake
      | (.error _, tbl) => { st with tbl }
    | .lock type =>
      ({ st with serial := update st.serial t (st.serial t + 1) }).goto t
        (.test { req := { fd, type, start, stop, pid }, block, hasThread, nWait := none })

/-- A step, if the thread is where it can take it. -/
def LockSys.exec : LockAct T → Option (LockSys T)
  | .set t fd fl block hasThread =>
    if st.pc t = .idle then some (st.enterSet t fd fl block hasThread) else none
  | .get t _ _ => if st.pc t = .idle then some st else none
  | .releaseFd t fd =>
    if st.pc t = .idle then
      let (_, wake, tbl) := fileLockReleaseFd st.tbl fd
      some (({ st with tbl }).goto t (if wake then .wake else .idle))
    else none
  | .releasePid t pid =>
    if st.pc t = .idle then
      let (_, wake, tbl) := fileLockReleasePid st.tbl pid
      some (({ st with tbl }).goto t (if wake then .wake else .idle))
    else none
  | .pass t =>
    match st.pc t with
    | .test call => some (st.pass t call)
    | _ => none
  | .block t =>
    match st.pc t with
    | .block call =>
      some ({ st with blocked := update st.blocked t true }.goto t (.recheck call))
    | _ => none
  | .recheck t =>
    match st.pc t with
    | .recheck call =>
      some (st.goto t (if (conflict st.tbl call.req).isSome then .asleep call
        else .selfWake call))
    | _ => none
  | .wake t woken =>
    match st.pc t with
    | .selfWake call =>
      some ({ st with blocked := fun t => st.blocked t && decide (t ∉ woken) }.goto t
        (.asleep call))
    | .wake =>
      some ({ st with blocked := fun t => st.blocked t && decide (t ∉ woken) }.goto t .idle)
    | _ => none
  | .resume t =>
    match st.pc t with
    | .asleep call => if st.blocked t then none else some (st.goto t (.test call))
    | _ => none

/-- A step with the choice that the scheduler has in it. -/
def LockStep (act : LockAct T) (st' : LockSys T) : Prop :=
  (∀ t woken, act = .wake t woken → st.Wakes woken) ∧ st.exec act = some st'

/-- Any finite interleaving of steps that are all admitted where they are taken. -/
def LockRuns (admits : LockSys T → LockAct T → Prop) : LockSys T → LockSys T → Prop :=
  Relation.ReflTransGen fun st st' => ∃ act, admits st act ∧ LockStep st act st'

/-! ### What a step can do -/

/-- The steps by their effect. -/
inductive LockSys.Moves (st : LockSys T) : LockAct T → LockSys T → Prop
  | refused (t : T) (fd : I64) (fl : GjFlock) (block hasThread : Bool) (idle : st.pc t = .idle) :
      Moves st (.set t fd fl block hasThread) st
  | unlocked (t : T) (fd : I64) (fl : GjFlock) (block hasThread : Bool) (idle : st.pc t = .idle)
      (start stop : Int) (pid : U32) (valid : flockValidate fd fl = .ok (start, stop, pid))
      (tbl : LockTable) (done : fileLockUnlock st.tbl fd pid start stop = (.ok (), tbl)) :
      Moves st (.set t fd fl block hasThread) (({ st with tbl }).goto t .wake)
  | unlockFails (t : T) (fd : I64) (fl : GjFlock) (block hasThread : Bool) (idle : st.pc t = .idle)
      (start stop : Int) (pid : U32) (valid : flockValidate fd fl = .ok (start, stop, pid))
      (tbl : LockTable) (err : FlockErr)
      (failed : fileLockUnlock st.tbl fd pid start stop = (.error err, tbl)) :
      Moves st (.set t fd fl block hasThread) { st with tbl }
  | entered (t : T) (fd : I64) (fl : GjFlock) (block hasThread : Bool) (idle : st.pc t = .idle)
      (start stop : Int) (pid : U32) (valid : flockValidate fd fl = .ok (start, stop, pid))
      (type : LockType) (lock : fl.type = .lock type) :
      Moves st (.set t fd fl block hasThread)
        (({ st with serial := update st.serial t (st.serial t + 1) }).goto t
          (.test { req := { fd, type, start, stop, pid }, block, hasThread, nWait := none }))
  | got (t : T) (fd : I64) (fl : GjFlock) (idle : st.pc t = .idle) : Moves st (.get t fd fl) st
  | releasedFd (t : T) (fd : I64) (idle : st.pc t = .idle) :
      Moves st (.releaseFd t fd) (({ st with tbl := (fileLockReleaseFd st.tbl fd).2.2 }).goto t
        (if (fileLockReleaseFd st.tbl fd).2.1 then .wake else .idle))
  | releasedPid (t : T) (pid : U32) (idle : st.pc t = .idle) :
      Moves st (.releasePid t pid) (({ st with tbl := (fileLockReleasePid st.tbl pid).2.2 }).goto t
        (if (fileLockReleasePid st.tbl pid).2.1 then .wake else .idle))
  | passed (t : T) (call : SetCall) (at_ : st.pc t = .test call) :
      Moves st (.pass t) (st.pass t call)
  | blocks (t : T) (call : SetCall) (at_ : st.pc t = .block call) :
      Moves st (.block t) ({ st with blocked := update st.blocked t true }.goto t (.recheck call))
  | rechecked (t : T) (call : SetCall) (at_ : st.pc t = .recheck call) :
      Moves st (.recheck t)
        (st.goto t (if (conflict st.tbl call.req).isSome then .asleep call else .selfWake call))
  | selfWoke (t : T) (woken : Finset T) (call : SetCall) (at_ : st.pc t = .selfWake call) :
      Moves st (.wake t woken)
        ({ st with blocked := fun t => st.blocked t && decide (t ∉ woken) }.goto t (.asleep call))
  | woke (t : T) (woken : Finset T) (at_ : st.pc t = .wake) :
      Moves st (.wake t woken)
        ({ st with blocked := fun t => st.blocked t && decide (t ∉ woken) }.goto t .idle)
  | resumed (t : T) (call : SetCall) (at_ : st.pc t = .asleep call) (ready : st.blocked t = false) :
      Moves st (.resume t) (st.goto t (.test call))

theorem LockSys.enterSet_moves (st : LockSys T) (t : T) (fd : I64) (fl : GjFlock)
    (block hasThread : Bool) (idle : st.pc t = .idle) :
    st.Moves (.set t fd fl block hasThread) (st.enterSet t fd fl block hasThread) := by
  unfold LockSys.enterSet
  rcases valid : flockValidate fd fl with err | ⟨start, stop, pid⟩
  · exact .refused t fd fl block hasThread idle
  · cases type : fl.type with
    | other => exact .refused t fd fl block hasThread idle
    | lock lockType =>
      exact .entered t fd fl block hasThread idle start stop pid valid lockType type
    | unlck =>
      rcases done : fileLockUnlock st.tbl fd pid start stop with ⟨err | ⟨⟩, tbl⟩
      · simp only [done]
        exact .unlockFails t fd fl block hasThread idle start stop pid valid tbl err done
      · simp only [done]
        exact .unlocked t fd fl block hasThread idle start stop pid valid tbl done

variable {st : LockSys T}

variable {emptyAtEnd : Prop} {st' : LockSys T}

theorem LockStep.moves {act : LockAct T} (step : LockStep st act st') :
    st.Moves act st' := by
  have run := step.2
  cases act with
  | set t fd fl block hasThread =>
    obtain ⟨idle, rfl⟩ := (ite_none_right_eq_some.mp run).imp_right some.inj
    exact st.enterSet_moves t fd fl block hasThread idle
  | get t fd fl =>
    obtain ⟨idle, rfl⟩ := (ite_none_right_eq_some.mp run).imp_right some.inj
    exact .got t fd fl idle
  | releaseFd t fd =>
    obtain ⟨idle, rfl⟩ := (ite_none_right_eq_some.mp run).imp_right some.inj
    exact .releasedFd t fd idle
  | releasePid t pid =>
    obtain ⟨idle, rfl⟩ := (ite_none_right_eq_some.mp run).imp_right some.inj
    exact .releasedPid t pid idle
  | pass t =>
    cases at_ : st.pc t <;> simp only [LockSys.exec, at_, reduceCtorEq] at run
    cases run
    exact .passed t _ at_
  | block t =>
    cases at_ : st.pc t <;> simp only [LockSys.exec, at_, reduceCtorEq] at run
    cases run
    exact .blocks t _ at_
  | recheck t =>
    cases at_ : st.pc t <;> simp only [LockSys.exec, at_, reduceCtorEq] at run
    cases run
    exact .rechecked t _ at_
  | wake t woken =>
    cases at_ : st.pc t <;> simp only [LockSys.exec, at_, reduceCtorEq] at run
    · cases run
      exact .selfWoke t woken _ at_
    · cases run
      exact .woke t woken at_
  | resume t =>
    cases at_ : st.pc t <;> simp only [LockSys.exec, at_, reduceCtorEq] at run
    split at run
    · cases run
    next ready =>
    cases run
    exact .resumed t _ at_ (Bool.eq_false_iff.mpr ready)

/-! ### The table over a run -/

theorem LockSys.pass_tbl (st : LockSys T) (t : T) (call : SetCall) :
    (st.pass t call).tbl = (fileLockSetPass st.tbl call.req call.block call.nWait).2 := by
  unfold LockSys.pass
  rcases fileLockSetPass st.tbl call.req call.block call.nWait with ⟨err | (_ | i) | -, tbl⟩
  all_goals rfl

theorem LockSys.goto_pc (st : LockSys T) (t : T) (pc : Pc) (x : T) :
    (st.goto t pc).pc x = if x = t then pc else st.pc x :=
  update_apply ..

/-- A pass moves its own thread only, and a call that goes on is still the same request. -/
theorem LockSys.pass_moves (st : LockSys T) (t : T) (call : SetCall) : ∃ pc,
    (st.pass t call).pc = update st.pc t pc ∧ (st.pass t call).blocked = st.blocked ∧
      (st.pass t call).serial = st.serial ∧
      (∀ call', pc.call = some call' → call'.req = call.req) ∧
      ((fileLockSetPass st.tbl call.req call.block call.nWait).1 = .granted → pc = .wake) := by
  unfold LockSys.pass
  rcases fileLockSetPass st.tbl call.req call.block call.nWait with ⟨err | nWait | -, tbl⟩
  · exact ⟨.idle, rfl, rfl, rfl, nofun, nofun⟩
  · have same (call' : SetCall) (pending : (if call.hasThread then Pc.block { call with nWait }
        else .test { call with nWait }).call = some call') : call'.req = call.req := by
      split_ifs at pending <;> obtain rfl := some.inj pending <;> rfl
    cases nWait with
    | none | some => exact ⟨_, rfl, rfl, rfl, same, nofun⟩
  · exact ⟨.wake, rfl, rfl, rfl, nofun, fun _ => rfl⟩

/-- The table is sound and so are the ranges of the pending requests. -/
structure LockSys.Ok (emptyAtEnd : Prop) (st : LockSys T) : Prop where
  tbl : st.tbl.Ok emptyAtEnd
  calls : ∀ t call, (st.pc t).call = some call → RangeOk emptyAtEnd call.req.start call.req.stop

section

omit [DecidableEq T]

theorem LockSys.init_ok (emptyAtEnd : Prop) : (LockSys.init : LockSys T).Ok emptyAtEnd where
  tbl :=
    { range := nofun
      compatible := ⟨nofun, nofun⟩
      count := by rfl }
  calls := nofun

end

/-- A lock is asked for from the greatest offset to the end of the file. -/
def LockAct.AtEnd : LockAct T → Prop
  | .set _ _ fl _ _ =>
    (∃ type, fl.type = .lock type) ∧ fl.start.toInt = i64Max ∧ fl.len.toInt = 0
  | _ => False

/-- One thread moves, within its call or to a request whose range is sound. -/
theorem LockSys.Ok.goto (ok : st.Ok emptyAtEnd) {t : T}
    {pc : Pc} (tblOk : st'.tbl.Ok emptyAtEnd) (pcs : st'.pc = update st.pc t pc)
    (same : ∀ call, pc.call = some call →
      (st.pc t).call = some call ∨ RangeOk emptyAtEnd call.req.start call.req.stop) :
    st'.Ok emptyAtEnd where
  tbl := tblOk
  calls x call pending := by
    rw [pcs, update_apply] at pending
    split_ifs at pending
    · exact (same call pending).elim (ok.calls t call) id
    · exact ok.calls x call pending

theorem LockSys.Ok.step {act : LockAct T}
    (ok : st.Ok emptyAtEnd) (step : LockStep st act st') (inside : emptyAtEnd ∨ ¬ act.AtEnd) :
    st'.Ok emptyAtEnd := by
  cases step.moves with
  | refused | got => exact ok
  | unlocked t fd fl block hasThread idle start stop pid valid tbl done =>
    have unlock := (fileLockUnlock_ok ok.tbl (flockValidate_range valid).2.1 fd pid).1
    rw [done] at unlock
    exact ok.goto unlock rfl nofun
  | unlockFails t fd fl block hasThread idle start stop pid valid tbl err failed =>
    have unlock := (fileLockUnlock_ok ok.tbl (flockValidate_range valid).2.1 fd pid).1
    rw [failed] at unlock
    exact ⟨unlock, ok.calls⟩
  | entered t fd fl block hasThread idle start stop pid valid type lock =>
    obtain ⟨-, weak, strict⟩ := flockValidate_range valid
    have range : RangeOk emptyAtEnd start stop := by
      rcases inside with empty | inside
      · exact weak.imp fun _ => empty
      · exact (strict fun atEnd => inside ⟨⟨type, lock⟩, atEnd⟩).imp False.elim
    refine ok.goto ok.tbl rfl fun call pending => .inr ?_
    cases pending
    exact range
  | releasedFd t fd idle =>
    refine ok.goto (fileLockReleaseFd_ok ok.tbl fd).1 rfl fun call pending => ?_
    split_ifs at pending <;> cases pending
  | releasedPid t pid idle =>
    refine ok.goto (fileLockReleasePid_ok ok.tbl pid).1 rfl fun call pending => ?_
    split_ifs at pending <;> cases pending
  | passed t call at_ =>
    have range := ok.calls t call (by rw [at_]; rfl)
    obtain ⟨pc, pcs, -, -, same, -⟩ := st.pass_moves t call
    refine ok.goto ?_ pcs fun call' pending => .inr ?_
    · rw [LockSys.pass_tbl]
      exact (fileLockSetPass_step ..).ok ok.tbl range
    · rw [same call' pending]
      exact range
  | blocks t call at_ | selfWoke t woken call at_ | resumed t call at_ =>
    exact ok.goto ok.tbl rfl fun _ pending => .inl (by rw [at_]; exact pending)
  | rechecked t call at_ =>
    refine ok.goto ok.tbl rfl fun call' pending => .inl ?_
    rw [at_]
    split_ifs at pending <;> exact pending
  | woke t woken at_ => exact ok.goto ok.tbl rfl nofun

theorem LockRuns.ok {admits : LockSys T → LockAct T → Prop}
    (runs : LockRuns admits st st') (ok : st.Ok emptyAtEnd)
    (inside : ∀ st act, admits st act → emptyAtEnd ∨ ¬ act.AtEnd) : st'.Ok emptyAtEnd := by
  induction runs with
  | refl => exact ok
  | tail _ step ih =>
    obtain ⟨act, admitted, step⟩ := step
    exact ih.step step (inside _ act admitted)

/-! ### Exclusion -/

/-- A byte of a range; a negative end is no end. -/
def FlockSlot.Covers (slot : FlockSlot) (b : Int) : Prop :=
  slot.start ≤ b ∧ (slot.stop < 0 ∨ b < slot.stop)

/-- What the lock table promises to its callers. -/
structure LockExclusion (tbl : LockTable) : Prop where
  exclusive : ∀ i j b, 0 ≤ b → b < i64Max → (tbl.lk i).used = true → (tbl.lk j).used = true →
    (tbl.lk i).fd = (tbl.lk j).fd → (tbl.lk i).pid ≠ (tbl.lk j).pid → (tbl.lk i).type = .wrlck →
    (tbl.lk i).Covers b → ¬ (tbl.lk j).Covers b
  disjoint : ∀ i j b, i ≠ j → (tbl.lk i).used = true → (tbl.lk j).used = true →
    (tbl.lk i).fd = (tbl.lk j).fd → (tbl.lk i).pid = (tbl.lk j).pid →
    (tbl.lk i).Covers b → ¬ (tbl.lk j).Covers b
  nonempty : ∀ i, (tbl.lk i).used = true → ∃ b, 0 ≤ b ∧ b < i64Max ∧ (tbl.lk i).Covers b
  count : tbl.nLocks.toNat = tbl.usedSlots.card

theorem FlockSlot.covers_iff {slot : FlockSlot} {b : Int} (below : b < i64Max) :
    slot.Covers b ↔ b ∈ rangeBytes slot.start slot.stop := by
  unfold FlockSlot.Covers rangeBytes rangeNormEnd
  split_ifs with eof
  · simp [eof, below]
  · simp [eof]

/-- Two ranges that share a byte share one below the greatest offset. -/
theorem FlockSlot.covers_below {a b : FlockSlot} (rangeA : RangeOk False a.start a.stop)
    (rangeB : RangeOk False b.start b.stop) {byte : Int} (inA : a.Covers byte)
    (inB : b.Covers byte) : ∃ byte, byte < i64Max ∧ a.Covers byte ∧ b.Covers byte := by
  have nonemptyA := rangeA.nonempty.resolve_right fun atEnd => atEnd.1
  have nonemptyB := rangeB.nonempty.resolve_right fun atEnd => atEnd.1
  have normA := rangeNormEnd_le rangeA.stop_le
  have normB := rangeNormEnd_le rangeB.stop_le
  obtain ⟨startA, stopA⟩ := inA
  obtain ⟨startB, stopB⟩ := inB
  refine ⟨max a.start b.start, by omega, ⟨le_max_left _ _, ?_⟩, le_max_right _ _, ?_⟩
  · exact stopA.imp_right fun below => by omega
  · exact stopB.imp_right fun below => by omega

/-- In every run in which no lock is asked for from the greatest offset on, the table keeps its
promise. -/
theorem lockRuns_exclusion {st : LockSys T}
    (runs : LockRuns (fun _ act => ¬ act.AtEnd) LockSys.init st) : LockExclusion st.tbl := by
  have ok := (runs.ok (LockSys.init_ok False) fun _ _ => .inr).tbl
  refine ⟨?_, ?_, ?_, ?_⟩
  · intro i j b nonneg below usedI usedJ fd pid write coversI coversJ
    have disjoint := ok.compatible.others i j _ _ (LockTable.view_of_used usedI)
      (LockTable.view_of_used usedJ) fd pid (by
        show typesConflict (st.tbl.lk i).type _ = true
        rw [write]
        rfl)
    exact Set.disjoint_left.mp disjoint ((covers_iff below).mp coversI)
      ((covers_iff below).mp coversJ)
  · intro i j b different usedI usedJ fd pid coversI coversJ
    have disjoint := ok.compatible.own i j _ _ (LockTable.view_of_used usedI)
      (LockTable.view_of_used usedJ) different fd pid
    obtain ⟨byte, below, inI, inJ⟩ := covers_below (ok.range i usedI)
      (ok.range j usedJ) coversI coversJ
    exact Set.disjoint_left.mp disjoint ((covers_iff below).mp inI)
      ((covers_iff below).mp inJ)
  · intro i used
    have range := ok.range i used
    have nonempty := range.nonempty.resolve_right fun atEnd => atEnd.1
    have below := nonempty.trans_le (rangeNormEnd_le range.stop_le)
    exact ⟨(st.tbl.lk i).start, range.nonneg, below,
      (covers_iff below).mpr ⟨le_rfl, nonempty⟩⟩
  · rw [ok.count]
    have bound := usedSlots_card_le st.tbl
    exact Nat.mod_eq_of_lt (by omega)

/-! ### Runs of given steps -/

section Given

variable [Fintype T]

instance (st : LockSys T) (woken : Finset T) : Decidable (st.Wakes woken) :=
  decidable_of_iff ((∀ t ∈ woken, st.blocked t = true) ∧ woken.card ≤ gjFlockSoftWakeMax ∧
      (woken.card < gjFlockSoftWakeMax → ∀ t, st.blocked t = true → t ∈ woken))
    ⟨fun all => ⟨all.1, all.2.1, all.2.2⟩, fun wakes => ⟨wakes.blocked, wakes.atMost, wakes.all⟩⟩

def LockSys.allows (st : LockSys T) : LockAct T → Bool
  | .wake _ woken => decide (st.Wakes woken)
  | _ => true

def LockSys.after (check : LockSys T → LockAct T → Bool) (st : LockSys T) :
    List (LockAct T) → Option (LockSys T)
  | [] => some st
  | act :: rest =>
    if st.allows act && check st act then
      (st.exec act).bind fun next => next.after check rest
    else none

theorem LockSys.after_runs {admits : LockSys T → LockAct T → Prop}
    {check : LockSys T → LockAct T → Bool} {acts : List (LockAct T)} {st st' : LockSys T}
    (ends : st.after check acts = some st')
    (sound : ∀ act ∈ acts, ∀ st, check st act = true → admits st act) :
    LockRuns admits st st' := by
  induction acts generalizing st with
  | nil =>
    cases ends
    exact .refl
  | cons act rest ih =>
    obtain ⟨allowed, ends⟩ := ite_none_right_eq_some.mp ends
    obtain ⟨next, run, ends⟩ := bind_eq_some_iff.mp ends
    have first := List.mem_cons_self (a := act) (l := rest)
    obtain ⟨allowed, checked⟩ := Bool.and_eq_true_iff.mp allowed
    refine .head ⟨act, sound act first st checked, ?_, run⟩ (ih ends
      fun later member => sound later (List.mem_cons_of_mem act member))
    rintro t woken rfl
    exact of_decide_eq_true allowed

/-- Steps that can all be taken are a run, and what they lead to can be evaluated. -/
theorem LockRuns.of_after {α : Type*} {acts : List (LockAct T)} {f : LockSys T → α} {value : α}
    (ends : (LockSys.init.after (fun _ _ => true) acts).map f = some value) :
    ∃ st, LockRuns (fun _ _ => True) LockSys.init st ∧ f st = value := by
  obtain ⟨st, ends, value⟩ := map_eq_some_iff.mp ends
  exact ⟨st, LockSys.after_runs ends fun _ _ _ _ => trivial, value⟩

end Given

end Steps

def sampleFlock (type : FlockType) (start len : I64) (pid : U32) : GjFlock :=
  { type, whence := 0, start, len, pid }

def sampleSet (t : Fin 6) (type : FlockType) (start len : I64) (pid : U32) :
    List (LockAct (Fin 6)) :=
  [.set t 3 (sampleFlock type start len pid) false true, .pass t]

/-- Two processes lock the file for writing from the greatest offset on, and both get it. -/
def sampleAtEnd : List (LockAct (Fin 6)) :=
  sampleSet 0 (.lock .wrlck) 0x7fffffffffffffff 0 1 ++
    sampleSet 1 (.lock .wrlck) 0x7fffffffffffffff 0 2

theorem lockRuns_empty_range :
    ∃ st, LockRuns (fun _ _ => True) (LockSys.init : LockSys (Fin 6)) st ∧
      (st.tbl.lk 0).used = true ∧ (st.tbl.lk 0).pid = 1 ∧ (st.tbl.lk 0).start = i64Max ∧
      (st.tbl.lk 1).used = true ∧ (st.tbl.lk 1).pid = 2 ∧ (st.tbl.lk 1).start = i64Max ∧
      ¬ LockExclusion st.tbl := by
  have stored : ((LockSys.init : LockSys (Fin 6)).after (fun _ _ => true) sampleAtEnd).map
      (fun st => (st.tbl.lk 0, st.tbl.lk 1)) =
      some ({ used := true, fd := 3, type := .wrlck, start := i64Max, stop := -1, pid := 1 },
        { used := true, fd := 3, type := .wrlck, start := i64Max, stop := -1, pid := 2 }) := by
    decide +kernel
  obtain ⟨st, runs, slots⟩ := LockRuns.of_after stored
  obtain ⟨first, second⟩ := Prod.mk.inj slots
  refine ⟨st, runs, ?_⟩
  rw [first, second]
  refine ⟨rfl, rfl, rfl, rfl, rfl, rfl, fun excludes => ?_⟩
  obtain ⟨b, -, below, covers⟩ := excludes.nonempty 0 (by rw [first])
  rw [first] at covers
  exact absurd below (not_lt.mpr covers.1)

/-- A reader and a writer on one file, and a read lock that an unlock has split. -/
def sampleShared : List (LockAct (Fin 6)) :=
  sampleSet 0 (.lock .rdlck) 0 100 1 ++ sampleSet 1 (.lock .wrlck) 200 0 2 ++
    [.set 2 3 (sampleFlock .unlck 40 20 1) false true]

theorem lockRuns_exclusion_shared :
    ∃ st, LockRuns (fun _ act => ¬ act.AtEnd) (LockSys.init : LockSys (Fin 6)) st ∧
      (st.tbl.lk 0).stop = 40 ∧ (st.tbl.lk 2).start = 60 ∧ st.tbl.nLocks = 3 ∧
      LockExclusion st.tbl := by
  have stored : ((LockSys.init : LockSys (Fin 6)).after (fun _ _ => true) sampleShared).map
      (fun st => ((st.tbl.lk 0).stop, (st.tbl.lk 2).start, st.tbl.nLocks)) =
      some (40, 60, 3) := by
    decide +kernel
  obtain ⟨st, ends, values⟩ := map_eq_some_iff.mp stored
  obtain ⟨left, right⟩ := Prod.mk.inj values
  obtain ⟨middle, count⟩ := Prod.mk.inj right
  have runs : LockRuns (fun _ act => ¬ act.AtEnd) (LockSys.init : LockSys (Fin 6)) st := by
    apply LockSys.after_runs ends
    simp [sampleShared, sampleSet, sampleFlock, LockAct.AtEnd, i64Max]
  exact ⟨st, runs, left, middle, count, lockRuns_exclusion runs⟩

end GreenJade.Fs

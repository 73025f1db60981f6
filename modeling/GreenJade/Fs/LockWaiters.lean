import GreenJade.Fs.LockWake
import Mathlib.Data.Fin.VecNotation
import Mathlib.Tactic.FinCases

/-! Owns the table of waiters over all interleavings: an entry in use always describes the pending
call that registered it, but what it records of the holder may be out of date, and an entry that
`file_lock_release_pid` drops under a sleeper leaves it with the index of somebody else's. It owns
when the deadlock probe can be believed and when the entries are private. -/

namespace GreenJade.Fs

open Function LockSys

universe u

variable {T : Type u} {tbl : LockTable} {st st' : LockSys T}

/-! ### What a pass does to the waiters -/

def FlockWaiter.req (entry : FlockWaiter) : LockReq :=
  { fd := entry.fd, type := entry.type, start := entry.start, stop := entry.stop, pid := entry.pid }

inductive PassWaits (tbl : LockTable) (req : LockReq) (nWait : Option (Fin gjFlockMaxWaiters)) :
    SetPass × LockTable → Prop
  | leaves (outcome : SetPass) (tbl' : LockTable) (ends : ∀ n, outcome ≠ .waits n)
      (wait : ∀ k, tbl'.wait k =
        if nWait = some k then { tbl.wait k with used := false } else tbl.wait k) :
      PassWaits tbl req nWait (outcome, tbl')
  | full (tbl' : LockTable) (unregistered : nWait = none) (wait : tbl'.wait = tbl.wait) :
      PassWaits tbl req nWait (.waits none, tbl')
  | registers (tbl' : LockTable) (unregistered : nWait = none) (i : Fin gjFlockMaxWaiters)
      (free : (tbl.wait i).used = false) (entry : FlockWaiter) (describes : entry.req = req)
      (used : entry.used = true) (wait : tbl'.wait = update tbl.wait i entry) :
      PassWaits tbl req nWait (.waits (some i), tbl')
  | updates (tbl' : LockTable) (i : Fin gjFlockMaxWaiters) (registered : nWait = some i)
      (entry : FlockWaiter) (describes : entry.req = (tbl.wait i).req)
      (used : entry.used = (tbl.wait i).used)
      (wait : tbl'.wait = update tbl.wait i entry) :
      PassWaits tbl req nWait (.waits (some i), tbl')

variable {nWait : Option (Fin gjFlockMaxWaiters)} {t : T} {call call' : SetCall}
    {i : Fin gjFlockMaxWaiters}

theorem PassStep.waits {emptyAtEnd : Prop} {req : LockReq} {block : Bool}
    {result : SetPass × LockTable}
    (step : PassStep tbl req block nWait result) (ok : tbl.Ok emptyAtEnd)
    (range : RangeOk emptyAtEnd req.start req.stop) : PassWaits tbl req nWait result := by
  cases step with
  | eagain | edeadlk => exact .leaves _ _ nofun (waiterUnregister_wait tbl nWait)
  | registers hit _ _ unregistered =>
    unfold waiterRegister
    cases found : (List.finRange gjFlockMaxWaiters).find? fun i => !(tbl.wait i).used with
    | none => exact .full _ unregistered rfl
    | some i =>
      have free : (tbl.wait i).used = false := by simpa using List.find?_some found
      exact .registers _ unregistered i free _ rfl rfl rfl
  | updates hit _ _ i registered =>
    unfold waiterUpdateBlocker
    split_ifs with free
    · exact .updates _ i registered (tbl.wait i) rfl rfl (update_eq_self ..).symm
    · exact .updates _ i registered
        { tbl.wait i with blockerPid := (tbl.lk hit).pid, genSeen := tbl.wakeGen } rfl rfl rfl
  | uncarved free err carved failed =>
    obtain rfl := carvePidRange_error ok range.weaken failed
    exact .leaves _ _ nofun (waiterUnregister_wait carved nWait)
  | full free carved done noSlot =>
    have wait := (carvePidRange_ok ok range.weaken req.fd req.pid).2.1
    rw [done] at wait
    refine .leaves _ _ nofun fun k => ?_
    rw [waiterUnregister_wait, show carved.wait = tbl.wait from wait]
  | granted free carved filled done inserts =>
    have carvedWait := (carvePidRange_ok ok range.weaken req.fd req.pid).2.1
    rw [done] at carvedWait
    have merged := (coalescePid_merges (inserts.ok ok range free done) req.fd req.pid).wait
    have wait : (coalescePid filled req.fd req.pid).wait = tbl.wait :=
      merged.trans (inserts.wait.trans carvedWait)
    refine .leaves _ _ nofun fun k => ?_
    show (waiterUnregister (coalescePid filled req.fd req.pid) nWait).wait k = _
    rw [waiterUnregister_wait, wait]

/-! ### Entries describe pending calls -/

/-- The call that registered an entry is pending, holds its index and made the request that the
entry describes. -/
structure LockSys.RegisteredBy (st : LockSys T) (i : Fin gjFlockMaxWaiters) (t : T)
    (call : SetCall) : Prop where
  pending : (st.pc t).call = some call
  index : call.nWait = some i
  describes : (st.tbl.wait i).req = call.req
  registrar : st.registrar i = some (t, st.serial t)

def LockSys.Registered (st : LockSys T) : Prop :=
  ∀ i, (st.tbl.wait i).used = true → ∃ t call, st.RegisteredBy i t call

/-- Pending calls go on, and the entries that are left are as before. -/
theorem LockSys.Registered.transfer (registered : st.Registered)
    (waits : ∀ i, (st'.tbl.wait i).used = true → st'.tbl.wait i = st.tbl.wait i)
    (registrar : st'.registrar = st.registrar)
    (calls : ∀ t call, (st.pc t).call = some call →
      (st'.pc t).call = some call ∧ st'.serial t = st.serial t) : st'.Registered := by
  intro i used
  have same := waits i used
  rw [same] at used
  obtain ⟨t, call, by_⟩ := registered i used
  obtain ⟨pending, serial⟩ := calls t call by_.pending
  refine ⟨t, call, pending, by_.index, ?_, ?_⟩
  · rw [same]
    exact by_.describes
  · rw [registrar, serial]
    exact by_.registrar

/-- Only the thread of a call holds the index of the call's entry. -/
theorem LockSys.RegisteredBy.other {x : T}
    (by_ : st.RegisteredBy i x call') (at_ : st.pc t = .test call) (index : call.nWait ≠ some i) :
    x ≠ t := by
  rintro rfl
  have pending := by_.pending
  rw [at_] at pending
  cases pending
  exact index by_.index

variable [DecidableEq T]

/-- A step of a thread without a pending call, or within its call, leaves the pending calls. -/
theorem LockSys.goto_call {st : LockSys T} {pc : Pc} (same : pc.call = (st.pc t).call) (x : T) :
    ((st.goto t pc).pc x).call = (st.pc x).call := by
  rw [goto_pc]
  split_ifs with here
  · rw [here, same]
  · rfl

/-- A call that waits goes on with its index. -/
theorem LockSys.pass_waits {after : LockTable}
    (outcome : fileLockSetPass st.tbl call.req call.block call.nWait = (.waits nWait, after)) :
    ((st.pass t call).pc t).call = some { call with nWait } ∧
      (st.pass t call).registrar = ({ st with tbl := after }.noteWait t call nWait).registrar ∧
      (st.pass t call).writer = ({ st with tbl := after }.noteWait t call nWait).writer := by
  unfold pass
  rw [outcome]
  simp only [goto_pc]
  refine ⟨?_, rfl, rfl⟩
  split_ifs
  all_goals rfl

theorem LockSys.pass_ends {result : SetPass} {after : LockTable}
    (outcome : fileLockSetPass st.tbl call.req call.block call.nWait = (result, after))
    (ends : ∀ n, result ≠ .waits n) :
    (st.pass t call).registrar = st.registrar ∧ (st.pass t call).writer = st.writer ∧
      ((st.pass t call).pc t).call = none := by
  unfold pass
  rw [outcome]
  cases result with
  | refused | granted => exact ⟨rfl, rfl, by simp only [goto_pc]; rfl⟩
  | waits n => exact absurd rfl (ends n)

/-- What a pass does to one entry: nothing, where the caller has no part in it; it frees the entry
of a call that is over; it registers the caller in it; or it notes the caller's blocker. -/
inductive LockSys.PassEntry (st : LockSys T) (t : T) (call : SetCall) (after : LockSys T)
    (i : Fin gjFlockMaxWaiters) : Prop
  | foreign (before : call.nWait ≠ some i)
      (later : ∀ call', (after.pc t).call = some call' → call'.nWait ≠ some i)
      (wait : after.tbl.wait i = st.tbl.wait i) (registrar : after.registrar i = st.registrar i)
      (writer : after.writer i = st.writer i)
  | ended (index : call.nWait = some i) (ends : (after.pc t).call = none)
      (unused : (after.tbl.wait i).used = false)
  | registered (free : (st.tbl.wait i).used = false)
      (pending : (after.pc t).call = some { call with nWait := some i })
      (used : (after.tbl.wait i).used = true) (describes : (after.tbl.wait i).req = call.req)
      (registrar : after.registrar i = some (t, st.serial t))
      (writer : after.writer i = some (t, st.serial t))
  | noted (index : call.nWait = some i) (pending : (after.pc t).call = some call)
      (used : (after.tbl.wait i).used = (st.tbl.wait i).used)
      (describes : (after.tbl.wait i).req = (st.tbl.wait i).req)
      (registrar : after.registrar i = st.registrar i)
      (writer : after.writer i = some (t, st.serial t))

theorem LockSys.pass_entry (waits : PassWaits st.tbl call.req call.nWait
      (fileLockSetPass st.tbl call.req call.block call.nWait)) (i : Fin gjFlockMaxWaiters) :
    st.PassEntry t call (st.pass t call) i := by
  have tbl := st.pass_tbl t call
  rcases outcome : fileLockSetPass st.tbl call.req call.block call.nWait with ⟨result, after⟩
  rw [outcome] at waits tbl
  cases waits with
  | leaves _ _ ends wait =>
    obtain ⟨registrar, writer, ended⟩ := pass_ends (t := t) outcome ends
    by_cases index : call.nWait = some i
    · exact .ended index ended (by rw [tbl, wait, if_pos index])
    · exact .foreign index (by simp [ended]) (by rw [tbl, wait, if_neg index]) (by rw [registrar])
        (by rw [writer])
  | full _ unregistered wait =>
    obtain ⟨pending, registrar, writer⟩ := pass_waits (t := t) outcome
    exact .foreign (by simp [unregistered]) (by simp [pending]) (by rw [tbl, wait])
      (by rw [registrar]; rfl) (by rw [writer]; rfl)
  | registers _ unregistered k free entry describes used wait =>
    obtain ⟨pending, registrar, writer⟩ := pass_waits (t := t) outcome
    simp only [noteWait, if_pos unregistered] at registrar writer
    by_cases here : i = k
    · subst here
      exact .registered free pending (by simp [tbl, wait, used]) (by simp [tbl, wait, describes])
        (by simp [registrar]) (by simp [writer])
    · exact .foreign (by simp [unregistered]) (by simp [pending, Ne.symm here])
        (by simp [tbl, wait, here]) (by simp [registrar, here]) (by simp [writer, here])
  | updates _ k held entry describes used wait =>
    obtain ⟨pending, registrar, writer⟩ := pass_waits (t := t) outcome
    simp only [noteWait, if_neg (by rw [held]; nofun : ¬ call.nWait = none)]
      at registrar writer
    by_cases here : i = k
    · subst here
      exact .noted held (by rw [pending, ← held]) (by simp [tbl, wait, used])
        (by simp [tbl, wait, describes]) (by rw [registrar]) (by simp [writer])
    · exact .foreign (by simp [held, Ne.symm here]) (by simp [pending, Ne.symm here])
        (by simp [tbl, wait, here]) (by rw [registrar]) (by simp [writer, here])

theorem LockSys.Registered.pass (registered : st.Registered) (at_ : st.pc t = .test call)
    (waits : PassWaits st.tbl call.req call.nWait
      (fileLockSetPass st.tbl call.req call.block call.nWait)) :
    (st.pass t call).Registered := by
  intro i used
  obtain ⟨pc, pcs, -, serial, -⟩ := st.pass_moves t call
  -- The thread of an entry that is not the caller's has not moved.
  have kept (x : T) (call' : SetCall) (other : x ≠ t) (by_ : st.RegisteredBy i x call')
      (describes : ((st.pass t call).tbl.wait i).req = (st.tbl.wait i).req)
      (registrar : (st.pass t call).registrar i = st.registrar i) :
      (st.pass t call).RegisteredBy i x call' := by
    refine ⟨?_, by_.index, describes.trans by_.describes, ?_⟩
    · rw [pcs, update_of_ne other]
      exact by_.pending
    · rw [registrar, serial]
      exact by_.registrar
  cases st.pass_entry (t := t) waits i with
  | foreign before later wait registrar writer =>
    rw [wait] at used
    obtain ⟨x, call', by_⟩ := registered i used
    exact ⟨x, call', kept x call' (by_.other at_ before) by_ (by rw [wait]) registrar⟩
  | ended index ends unused =>
    rw [unused] at used
    cases used
  | registered free pending used describes registrar writer =>
    exact ⟨t, _, pending, rfl, describes, by rw [registrar, serial]⟩
  | noted index pending same describes registrar writer =>
    rw [same] at used
    obtain ⟨x, call', by_⟩ := registered i used
    by_cases own : x = t
    · subst own
      have call'_eq := by_.pending
      rw [at_] at call'_eq
      obtain rfl := Option.some.inj call'_eq
      refine ⟨x, _, pending, by_.index, describes.trans by_.describes, ?_⟩
      rw [registrar, serial]
      exact by_.registrar
    · exact ⟨x, call', kept x call' own by_ describes registrar⟩

/-- A step by its effect on the pending calls and their entries: it leaves both, it begins a
call, it drops the entries of a pid, or it is a pass. -/
inductive LockSys.WaitMoves (st : LockSys T) : LockAct T → LockSys T → Prop
  | calm (act : LockAct T) (st' : LockSys T) (calls : ∀ x, (st'.pc x).call = (st.pc x).call)
      (wait : st'.tbl.wait = st.tbl.wait) (registrar : st'.registrar = st.registrar)
      (writer : st'.writer = st.writer) (serial : st'.serial = st.serial) : WaitMoves st act st'
  | enters (act : LockAct T) (t : T) (idle : (st.pc t).call = none) (call : SetCall)
      (unregistered : call.nWait = none) :
      WaitMoves st act
        (({ st with serial := update st.serial t (st.serial t + 1) }).goto t (.test call))
  | drops (t : T) (pid : U32) (st' : LockSys T) (calls : ∀ x, (st'.pc x).call = (st.pc x).call)
      (wait : st'.tbl.wait = (fileLockReleasePid st.tbl pid).2.2.wait)
      (registrar : st'.registrar = st.registrar) (writer : st'.writer = st.writer)
      (serial : st'.serial = st.serial) : WaitMoves st (.releasePid t pid) st'
  | passes (t : T) (call : SetCall) (at_ : st.pc t = .test call)
      (waits : PassWaits st.tbl call.req call.nWait
        (fileLockSetPass st.tbl call.req call.block call.nWait)) :
      WaitMoves st (.pass t) (st.pass t call)

variable {act : LockAct T}

theorem LockStep.waitMoves (step : LockStep st act st') (ok : st.Ok True) :
    st.WaitMoves act st' := by
  cases step.moves with
  | refused | got => exact .calm _ _ (fun _ => rfl) rfl rfl rfl rfl
  | unlocked t fd fl block hasThread idle start stop pid valid tbl done =>
    have wait := (fileLockUnlock_ok ok.tbl (flockValidate_range valid).2.1 fd pid).2.1
    rw [done] at wait
    exact .calm _ _ (goto_call (by rw [idle]; rfl)) wait rfl rfl rfl
  | unlockFails t fd fl block hasThread idle start stop pid valid tbl err failed =>
    have wait := (fileLockUnlock_ok ok.tbl (flockValidate_range valid).2.1 fd pid).2.1
    rw [failed] at wait
    exact .calm _ _ (fun _ => rfl) wait rfl rfl rfl
  | entered t fd fl block hasThread idle => exact .enters _ t (by rw [idle]; rfl) _ rfl
  | releasedFd t fd idle =>
    exact .calm _ _ (goto_call (by rw [idle]; split_ifs <;> rfl))
      (fileLockReleaseFd_ok ok.tbl fd).2.1 rfl rfl rfl
  | releasedPid t pid idle =>
    exact .drops t pid _ (goto_call (by rw [idle]; split_ifs <;> rfl)) rfl rfl rfl rfl
  | passed t call at_ =>
    exact .passes t call at_ ((fileLockSetPass_step ..).waits ok.tbl
      (ok.calls t call (by rw [at_]; rfl)))
  | blocks t call at_ | selfWoke t woken call at_ | resumed t call at_ | woke t woken at_ =>
    exact .calm _ _ (goto_call (by rw [at_]; rfl)) rfl rfl rfl rfl
  | rechecked t call at_ =>
    exact .calm _ _ (goto_call (by rw [at_]; split_ifs <;> rfl)) rfl rfl rfl rfl

theorem LockSys.Registered.step (registered : st.Registered)
    (step : LockStep st act st') (ok : st.Ok True) : st'.Registered := by
  cases step.waitMoves ok with
  | calm _ _ calls wait registrar writer serial =>
    exact registered.transfer (fun i _ => by rw [wait]) registrar fun x call pending =>
      ⟨(calls x).trans pending, by rw [serial]⟩
  | enters _ t idle call =>
    refine registered.transfer (fun _ _ => rfl) rfl fun x call' pending => ?_
    have other : x ≠ t := by
      rintro rfl
      cases idle.symm.trans pending
    rw [goto_pc, if_neg other]
    exact ⟨pending, update_of_ne other ..⟩
  | drops t pid _ calls wait registrar writer serial =>
    refine registered.transfer (fun i used => ?_) registrar fun x call pending =>
      ⟨(calls x).trans pending, by rw [serial]⟩
    rw [wait] at used ⊢
    refine ((fileLockReleasePid_ok ok.tbl pid).2.1 i).resolve_right fun own => ?_
    exact nomatch used.symm.trans own.2.2
  | passes t call at_ waits => exact registered.pass at_ waits

/-- In every run the entries describe pending calls. -/
theorem LockRuns.registered {admits : LockSys T → LockAct T → Prop}
    (runs : LockRuns admits init st) : st.Ok True ∧ st.Registered := by
  induction runs with
  | refl => exact ⟨init_ok True, nofun⟩
  | tail _ step ih =>
    obtain ⟨act, -, step⟩ := step
    obtain ⟨ok, registered⟩ := ih
    exact ⟨ok.step step (.inl trivial), registered.step step ok⟩

/-! ### The deadlock probe -/

/-- A pid has a pending request that a lock of the other pid stands in the way of. -/
def LockSys.WaitsFor (st : LockSys T) (p q : U32) : Prop :=
  ∃ t call i, (st.pc t).call = some call ∧ call.req.pid = p ∧ (st.tbl.lk i).Blocks call.req ∧
    (st.tbl.lk i).pid = q

def Follows (tbl : LockTable) (p q : U32) : Prop :=
  ∃ i, waiterOf tbl p = some i ∧ (tbl.wait i).blockerPid = q

/-- The pid that an entry names still holds a lock in the way of the entry's request. -/
def BlockerCurrent (tbl : LockTable) (i : Fin gjFlockMaxWaiters) : Prop :=
  ∃ k, (tbl.lk k).Blocks (tbl.wait i).req ∧ (tbl.lk k).pid = (tbl.wait i).blockerPid

/-- Each entry that a probe may follow from the holder it has found is up to date. -/
def ProbeCurrent (st : LockSys T) : LockAct T → Prop
  | .pass t => ∀ call hit, st.pc t = .test call → conflict st.tbl call.req = some hit →
      ∀ p i, Relation.ReflTransGen (Follows st.tbl) (st.tbl.lk hit).pid p →
        waiterOf st.tbl p = some i → BlockerCurrent st.tbl i
  | _ => True

theorem waiterOf_spec {p : U32} (found : waiterOf tbl p = some i) :
    (tbl.wait i).used = true ∧ (tbl.wait i).pid = p := by
  simpa using List.find?_some found

section

omit [DecidableEq T]

theorem LockSys.Registered.waitsFor (registered : st.Registered) {p : U32}
    (found : waiterOf st.tbl p = some i)
    (current : BlockerCurrent st.tbl i) : st.WaitsFor p (st.tbl.wait i).blockerPid := by
  obtain ⟨used, pid⟩ := waiterOf_spec found
  obtain ⟨t, call, by_⟩ := registered i used
  obtain ⟨k, blocks, holder⟩ := current
  rw [by_.describes] at blocks
  refine ⟨t, call, k, by_.pending, ?_, blocks, holder⟩
  rw [← by_.describes]
  exact pid

/-- A walk that comes back to the caller has followed real edges. -/
theorem deadlockWalk_path {self cur : U32} {depth : Nat}
    (cycle : deadlockWalk st.tbl self depth cur = true)
    (edges : ∀ p i, Relation.ReflTransGen (Follows st.tbl) cur p → waiterOf st.tbl p = some i →
      st.WaitsFor p (st.tbl.wait i).blockerPid) : Relation.TransGen st.WaitsFor cur self := by
  induction depth generalizing cur with
  | zero => cases cycle
  | succ depth ih =>
    rw [deadlockWalk] at cycle
    split at cycle
    · cases cycle
    next i found =>
    have edge := edges cur i .refl found
    dsimp only at cycle
    split_ifs at cycle with null self_
    · rw [← self_]
      exact .single edge
    · refine .head edge (ih cycle fun p k follows => ?_)
      exact edges p k (.head ⟨i, found, rfl⟩ follows)

end

/-- Only the probe refuses with `-EDEADLK`. -/
theorem edeadlk_probe {emptyAtEnd : Prop} {req : LockReq} {block : Bool} (ok : tbl.Ok emptyAtEnd)
    (range : RangeOk True req.start req.stop)
    (refused : (fileLockSetPass tbl req block nWait).1 = .refused .edeadlk) :
    ∃ hit, conflict tbl req = some hit ∧ (tbl.lk hit).Blocks req ∧
      softDeadlock tbl req.pid (tbl.lk hit).pid = true := by
  have step := fileLockSetPass_step tbl req block nWait
  generalize fileLockSetPass tbl req block nWait = result at *
  cases step with
  | edeadlk hit blocks blocking cycle found => exact ⟨hit, found, blocks, cycle⟩
  | uncarved free err carved failed =>
    rw [(carveLoop_error ok range failed).2.1] at refused
    cases refused
  | _ => cases refused

/-- In every run whose probes find the entries that they follow up to date, a call that is refused
with `-EDEADLK` is part of a cycle of pending requests. -/
theorem lockRuns_deadlock_real (runs : LockRuns ProbeCurrent init st) {t : T}
    {call : SetCall} (at_ : st.pc t = .test call) (current : ProbeCurrent st (.pass t))
    (refused : (fileLockSetPass st.tbl call.req call.block call.nWait).1 = .refused .edeadlk) :
    Relation.TransGen st.WaitsFor call.req.pid call.req.pid := by
  obtain ⟨ok, registered⟩ := runs.registered
  obtain ⟨hit, found, blocks, cycle⟩ :=
    edeadlk_probe ok.tbl (ok.calls t call (by rw [at_]; rfl)) refused
  have own : st.WaitsFor call.req.pid (st.tbl.lk hit).pid :=
    ⟨t, call, hit, by rw [at_]; rfl, rfl, blocks, rfl⟩
  unfold softDeadlock at cycle
  split_ifs at cycle with null same
  · exact absurd same blocks.2.2.1
  · refine .head own (deadlockWalk_path cycle fun p i follows entry => ?_)
    exact registered.waitsFor entry (current call hit at_ found p i follows entry)

/-- Two pids hold a range each, and the second waits for the range of the first. -/
def sampleHolders : List (LockAct (Fin 6)) :=
  sampleSet 0 (.lock .wrlck) 0 10 1 ++ [.wake 0 ∅] ++ sampleSet 1 (.lock .wrlck) 20 10 2 ++
    [.wake 1 ∅] ++ sampleSleep 1 2

def sampleAsk : LockAct (Fin 6) := .set 0 3 (sampleFlock (.lock .wrlck) 20 10 1) true true

def sampleAskCall : SetCall where
  req := { fd := 3, type := .wrlck, start := 20, stop := 30, pid := 1 }
  block := true
  hasThread := true
  nWait := none

theorem lockRuns_deadlock_stale :
    ∃ st, LockRuns (fun _ _ => True) (init : LockSys (Fin 6)) st ∧
      st.pc 0 = .test sampleAskCall ∧
      (fileLockSetPass st.tbl sampleAskCall.req sampleAskCall.block sampleAskCall.nWait).1 =
        .refused .edeadlk ∧
      ¬ Relation.TransGen st.WaitsFor sampleAskCall.req.pid sampleAskCall.req.pid := by
  -- the first pid gives its range up before it asks; the second has been woken and not yet run
  have left : ((init : LockSys (Fin 6)).after (fun _ _ => true) (sampleHolders ++
      [.set 0 3 (sampleFlock .unlck 0 10 1) false true, .wake 0 {1}, sampleAsk])).map
      (fun st => (st.pc 0, (fileLockSetPass st.tbl sampleAskCall.req true none).1,
        decide (∀ i, (st.tbl.lk i).used = true → (st.tbl.lk i).pid = 2))) =
      some (.test sampleAskCall, .refused .edeadlk, true) := by
    decide +kernel
  obtain ⟨st, runs, values⟩ := LockRuns.of_after left
  obtain ⟨pc, values⟩ := Prod.mk.inj values
  obtain ⟨refused, holders⟩ := Prod.mk.inj values
  refine ⟨st, runs, pc, refused, fun cycle => ?_⟩
  have noEdge (p : U32) : ¬ st.WaitsFor p 1 := by
    rintro ⟨t, call, i, -, -, blocks, pid⟩
    rw [of_decide_eq_true holders i blocks.1] at pid
    exact absurd pid (by decide)
  cases cycle with
  | single edge | tail _ edge => exact noEdge _ edge

instance (tbl : LockTable) (i : Fin gjFlockMaxWaiters) : Decidable (BlockerCurrent tbl i) :=
  inferInstanceAs (Decidable (∃ _, _))

def sampleCurrent (st : LockSys (Fin 6)) (_ : LockAct (Fin 6)) : Bool :=
  decide (∀ i, (st.tbl.wait i).used = true → BlockerCurrent st.tbl i)

theorem sampleCurrent_sound (st : LockSys (Fin 6)) (act : LockAct (Fin 6))
    (checked : sampleCurrent st act = true) : ProbeCurrent st act := by
  cases act with
  | pass t =>
    intro _ _ _ _ p i _ found
    exact of_decide_eq_true checked i (waiterOf_spec found).1
  | set | get | releaseFd | releasePid | block | recheck | wake | resume => trivial

theorem lockRuns_deadlock_real_pair :
    ∃ st, LockRuns ProbeCurrent (init : LockSys (Fin 6)) st ∧
      Relation.TransGen st.WaitsFor 1 1 := by
  have left : ((init : LockSys (Fin 6)).after sampleCurrent
      (sampleHolders ++ [sampleAsk])).map
      (fun st => (st.pc 0, (fileLockSetPass st.tbl sampleAskCall.req true none).1,
        sampleCurrent st (.pass 0))) = some (.test sampleAskCall, .refused .edeadlk, true) := by
    decide +kernel
  obtain ⟨st, ends, values⟩ := Option.map_eq_some_iff.mp left
  obtain ⟨pc, values⟩ := Prod.mk.inj values
  obtain ⟨refused, current⟩ := Prod.mk.inj values
  have runs : LockRuns ProbeCurrent (init : LockSys (Fin 6)) st :=
    after_runs ends fun act _ st => sampleCurrent_sound st act
  exact ⟨st, runs, lockRuns_deadlock_real runs pc (sampleCurrent_sound st _ current) refused⟩

/-! ### Private entries -/

/-- No pid is released under a registered call. -/
def SparesWaiters (st : LockSys T) : LockAct T → Prop
  | .releasePid _ pid => ∀ t call, (st.pc t).call = some call → call.nWait ≠ none →
      call.req.pid ≠ pid
  | _ => True

/-- A registered call finds its own entry behind its index. -/
def LockSys.Owned (st : LockSys T) : Prop :=
  ∀ t call i, (st.pc t).call = some call → call.nWait = some i →
    (st.tbl.wait i).used = true ∧ st.registrar i = some (t, st.serial t) ∧
      st.writer i = some (t, st.serial t)

section

variable (owned : st.Owned)
include owned

omit [DecidableEq T]

theorem LockSys.Owned.unique {x : T}
    (pending : (st.pc t).call = some call) (index : call.nWait = some i)
    (pending' : (st.pc x).call = some call') (index' : call'.nWait = some i) : x = t := by
  have first := (owned t call i pending index).2.1
  have second := (owned x call' i pending' index').2.1
  exact (Prod.mk.inj (Option.some.inj (second.symm.trans first))).1

theorem LockSys.Owned.transfer
    (calls : ∀ t call i, (st'.pc t).call = some call → call.nWait = some i →
      (st.pc t).call = some call ∧ st'.serial t = st.serial t ∧
        st'.tbl.wait i = st.tbl.wait i ∧ st'.registrar i = st.registrar i ∧
        st'.writer i = st.writer i) : st'.Owned := by
  intro t call i pending index
  obtain ⟨before, serial, wait, registrar, writer⟩ := calls t call i pending index
  rw [serial, wait, registrar, writer]
  exact owned t call i before index

/-- A release of a pid that no registered call has drops none of their entries. -/
theorem LockSys.Owned.spared (registered : st.Registered) (ok : st.Ok True)
    {x : T} {pid : U32} (spares : SparesWaiters st (.releasePid t pid))
    (pending : (st.pc x).call = some call)
    (index : call.nWait = some i) :
    (fileLockReleasePid st.tbl pid).2.2.wait i = st.tbl.wait i := by
  apply ((fileLockReleasePid_ok ok.tbl pid).2.1 i).resolve_right
  rintro ⟨used, entryPid, -⟩
  obtain ⟨y, call', by_⟩ := registered i used
  obtain rfl := owned.unique pending index by_.pending by_.index
  cases pending.symm.trans by_.pending
  refine spares y call pending (by rw [index]; nofun) ?_
  rw [← by_.describes]
  exact entryPid

variable [DecidableEq T]

/-- A pass leaves the entries of other calls alone. -/
theorem LockSys.Owned.pass_foreign {x : T} (at_ : st.pc t = .test call)
    (entry : st.PassEntry t call (st.pass t call) i)
    (pending : (st.pc x).call = some call') (index : call'.nWait = some i) (other : x ≠ t) :
    (st.pass t call).tbl.wait i = st.tbl.wait i ∧ (st.pass t call).registrar i = st.registrar i ∧
      (st.pass t call).writer i = st.writer i := by
  have here : (st.pc t).call = some call := by rw [at_]; rfl
  cases entry with
  | foreign before later wait registrar writer => exact ⟨wait, registrar, writer⟩
  | ended same | noted same => exact absurd (owned.unique here same pending index) other
  | registered free =>
    exact nomatch (owned x call' i pending index).1.symm.trans free

/-- A call that goes on waiting has its own entry. -/
theorem LockSys.Owned.pass_own (at_ : st.pc t = .test call)
    (entry : st.PassEntry t call (st.pass t call) i)
    (pending : ((st.pass t call).pc t).call = some call') (index : call'.nWait = some i) :
    ((st.pass t call).tbl.wait i).used = true ∧
      (st.pass t call).registrar i = some (t, st.serial t) ∧
      (st.pass t call).writer i = some (t, st.serial t) := by
  cases entry with
  | foreign before later => exact absurd index (later call' pending)
  | ended same ends => cases ends.symm.trans pending
  | registered free _ used describes registrar writer => exact ⟨used, registrar, writer⟩
  | noted same _ used describes registrar writer =>
    obtain ⟨before, mine, -⟩ := owned t call i (by rw [at_]; rfl) same
    exact ⟨used.trans before, registrar.trans mine, writer⟩

/-- No step of another thread touches the entry of a registered call. -/
theorem LockSys.Owned.foreign {act : LockAct T} (registered : st.Registered)
    (ok : st.Ok True) (step : LockStep st act st') (spares : SparesWaiters st act) {x : T}
    (pending : (st.pc x).call = some call')
    (index : call'.nWait = some i) (other : act.thread ≠ x) :
    st'.tbl.wait i = st.tbl.wait i := by
  cases step.waitMoves ok with
  | calm _ _ _ wait => rw [wait]
  | enters => rfl
  | drops t pid _ _ wait => rw [wait, owned.spared registered ok spares pending index]
  | passes t call at_ waits =>
    exact (owned.pass_foreign at_ (st.pass_entry waits i) pending index (Ne.symm other)).1

end

theorem LockSys.Owned.step (owned : st.Owned) (registered : st.Registered)
    (ok : st.Ok True) (step : LockStep st act st') (spares : SparesWaiters st act) :
    st'.Owned := by
  cases step.waitMoves ok with
  | calm _ _ calls wait registrar writer serial =>
    refine owned.transfer fun x call i pending _ => ⟨(calls x).symm.trans pending, ?_⟩
    rw [serial, wait, registrar, writer]
    exact ⟨rfl, rfl, rfl, rfl⟩
  | enters _ t idle call unregistered =>
    refine owned.transfer fun x call' i pending index => ?_
    rw [goto_pc] at pending
    split_ifs at pending with here
    · cases pending
      cases unregistered.symm.trans index
    · exact ⟨pending, update_of_ne here .., rfl, rfl, rfl⟩
  | drops t pid _ calls wait registrar writer serial =>
    refine owned.transfer fun x call i pending index => ?_
    have before := (calls x).symm.trans pending
    rw [serial, wait, registrar, writer, owned.spared registered ok spares before index]
    exact ⟨before, rfl, rfl, rfl, rfl⟩
  | passes t call at_ waits =>
    intro x call' i pending index
    obtain ⟨pc, pcs, -, serial, -⟩ := st.pass_moves t call
    rw [serial]
    by_cases own : x = t
    · subst own
      exact owned.pass_own at_ (st.pass_entry waits i) pending index
    · rw [pcs, update_of_ne own] at pending
      obtain ⟨wait, registrar, writer⟩ :=
        owned.pass_foreign at_ (st.pass_entry waits i) pending index own
      rw [wait, registrar, writer]
      exact owned x call' i pending index

theorem LockRuns.owned (runs : LockRuns SparesWaiters init st) : st.Owned := by
  induction runs with
  | refl => exact nofun
  | tail before step ih =>
    obtain ⟨act, spares, step⟩ := step
    have registered := LockRuns.registered before
    exact ih.step registered.2 registered.1 step spares

/-- In every run in which no pid is released under a registered call, the entries in use belong
to pending calls that were the last to write them, and no step of another thread changes one. -/
theorem lockRuns_waiters_private (runs : LockRuns SparesWaiters init st) :
    (∀ i, (st.tbl.wait i).used = true →
      ∃ t call, st.RegisteredBy i t call ∧ st.writer i = some (t, st.serial t)) ∧
    ∀ act st', SparesWaiters st act → LockStep st act st' →
      ∀ i t call, (st.tbl.wait i).used = true → st.RegisteredBy i t call → act.thread ≠ t →
        st'.tbl.wait i = st.tbl.wait i := by
  obtain ⟨ok, registered⟩ := runs.registered
  have owned := runs.owned
  constructor
  · intro i used
    obtain ⟨t, call, by_⟩ := registered i used
    exact ⟨t, call, by_, (owned t call i by_.pending by_.index).2.2⟩
  · intro act st' spares step i t call _ by_ other
    exact owned.foreign registered ok step spares by_.pending by_.index other

/-- The entry of a sleeper is released with its pid and taken by another pid; the sleeper, woken
by then, gets its lock. -/
def sampleReuse : List (LockAct (Fin 6)) :=
  sampleSet 0 (.lock .wrlck) 0 10 1 ++ [.wake 0 ∅] ++ sampleSleep 1 2 ++
    [.releasePid 2 2, .wake 2 {1}] ++ sampleSleep 3 3 ++
    [.set 0 3 (sampleFlock .unlck 0 10 1) false true, .wake 0 {3}, .resume 1]

theorem lockRuns_waiters_stolen :
    ∃ st st', LockRuns (fun _ _ => True) (init : LockSys (Fin 6)) st ∧
      (st.tbl.wait 0).used = true ∧ st.RegisteredBy 0 3 (sampleCall 3 0) ∧
      LockStep st (.pass 1) st' ∧ st'.pc 3 = .asleep (sampleCall 3 0) ∧
      (st'.tbl.wait 0).used = false := by
  have left : ((init : LockSys (Fin 6)).after (fun _ _ => true) sampleReuse).map
      (fun st => decide ((st.pc 1 = .test (sampleCall 2 0) ∧ st.pc 3 = .asleep (sampleCall 3 0) ∧
          st.serial 3 = 1) ∧
        ((st.tbl.wait 0).used = true ∧ (st.tbl.wait 0).req = (sampleCall 3 0).req ∧
          st.registrar 0 = some (3, 1)) ∧
        (st.pass 1 (sampleCall 2 0)).pc 3 = .asleep (sampleCall 3 0) ∧
          ((st.pass 1 (sampleCall 2 0)).tbl.wait 0).used = false)) = some true := by
    decide +kernel
  obtain ⟨st, runs, values⟩ := LockRuns.of_after left
  obtain ⟨⟨passes, sleeps, serial⟩, ⟨used, describes, registrar⟩, after⟩ := of_decide_eq_true values
  refine ⟨st, st.pass 1 (sampleCall 2 0), runs, used,
    ⟨by rw [sleeps]; rfl, rfl, describes, by rw [registrar, serial]⟩, ⟨nofun, ?_⟩, after⟩
  simp [exec, passes]

def sampleSpares (_ : LockSys (Fin 6)) : LockAct (Fin 6) → Bool
  | .releasePid _ _ => false
  | _ => true

theorem lockRuns_waiters_private_one :
    ∃ st, LockRuns SparesWaiters (init : LockSys (Fin 6)) st ∧ (st.tbl.wait 0).used = true ∧
      ∃ t call, st.RegisteredBy 0 t call ∧ st.writer 0 = some (t, st.serial t) := by
  have left : ((init : LockSys (Fin 6)).after sampleSpares sampleHolders).map
      (fun st => (st.tbl.wait 0).used) = some true := by
    decide +kernel
  obtain ⟨st, ends, used⟩ := Option.map_eq_some_iff.mp left
  have runs : LockRuns SparesWaiters (init : LockSys (Fin 6)) st := by
    refine after_runs ends fun act _ st checked => ?_
    cases act with
    | releasePid => cases checked
    | _ => trivial
  exact ⟨st, runs, used, (lockRuns_waiters_private runs).1 0 used⟩

end GreenJade.Fs

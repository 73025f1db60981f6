import GreenJade.Fs.LockRuns
import Mathlib.Data.Fin.VecNotation
import Mathlib.Tactic.FinCases

/-! Owns what keeps a waiter of the file locks asleep. All waiters share one wait object, of which
a release wakes four; and a request that is refused for want of a slot may have given up ranges of
its own without a wake. Where neither happens, a thread that sleeps has a lock in its way. -/

namespace GreenJade.Fs

open Function LockSys

universe u

variable {T : Type u}

/-- A thread that is going to wake the waiters. -/
def Pc.WakePending : Pc → Prop
  | .selfWake _ => True
  | .wake => True
  | _ => False

/-- No thread is between its conflict test and the block or wake that follows. -/
def LockSys.Quiet (st : LockSys T) : Prop :=
  ∀ t, st.pc t = .idle ∨ (∃ call, st.pc t = .test call) ∨ ∃ call, st.pc t = .asleep call

/-- A lock stands in the way of the request. -/
def LockTable.Obstructs (tbl : LockTable) (req : LockReq) : Prop := ∃ i, (tbl.lk i).Blocks req

/-- Why a blocked thread may be so. -/
def LockSys.Excused (st : LockSys T) (t : T) : Prop :=
  match st.pc t with
  | .recheck _ => True
  | .selfWake _ => True
  | .asleep call => st.tbl.Obstructs call.req ∨ ∃ w, (st.pc w).WakePending
  | _ => False

/-- The branch that gives up ranges without a wake: the carve has cut own ranges of the caller, and
no slot is left for the new one. -/
def LosesLock (tbl : LockTable) (req : LockReq) : Prop :=
  conflict tbl req = none ∧ ∃ carved,
    carvePidRange tbl req.fd req.pid req.start req.stop = (.ok (), carved) ∧
      slotAlloc carved = none ∧ carved.lk ≠ tbl.lk

/-- A wake finds no more threads than it wakes, and a refused request has kept its ranges. -/
def WakesAll (st : LockSys T) : LockAct T → Prop
  | .wake _ _ => ∀ s : Finset T, (∀ t ∈ s, st.blocked t = true) → s.card ≤ gjFlockSoftWakeMax
  | .pass t => ∀ call, st.pc t = .test call → ¬ LosesLock st.tbl call.req
  | _ => True

variable {st st' : LockSys T}

/-- A thread that is not in the middle of its wait is not blocked. -/
theorem LockSys.Excused.not_blocked {t : T} (excused : ∀ t, st.blocked t = true → st.Excused t)
    (outside : ¬ st.Excused t) : st.blocked t = false := by
  cases blocked : st.blocked t with
  | false => rfl
  | true => exact absurd (excused t blocked) outside

variable [DecidableEq T]

/-- A step of a thread that owes no wake keeps the excuses of the others, if it keeps the locks or
leaves a wake to come. -/
theorem LockSys.Excused.frame {a t : T} {next : Pc} (excused : st.Excused t) (other : t ≠ a)
    (pcs : st'.pc = update st.pc a next) (owes : ¬ (st.pc a).WakePending)
    (locks : st'.tbl.lk = st.tbl.lk ∨ next.WakePending) : st'.Excused t := by
  unfold LockSys.Excused at excused ⊢
  rw [pcs, update_of_ne other]
  cases pc : st.pc t <;> simp only [pc] at excused ⊢
  rename_i call
  rcases locks with same | wakes
  · refine excused.imp (fun obstructs => ?_) fun ⟨w, pending⟩ => ⟨w, ?_⟩
    · unfold LockTable.Obstructs
      rw [same]
      exact obstructs
    · have different : w ≠ a := by
        rintro rfl
        exact owes pending
      rw [update_of_ne different]
      exact pending
  · exact .inr ⟨a, by rw [update_self]; exact wakes⟩

/-- A step of a thread that is not blocked keeps the excuses, if it keeps the locks or leaves a
wake to come. -/
theorem LockSys.excused_of_frame {a : T} {next : Pc}
    (excused : ∀ t, st.blocked t = true → st.Excused t) (notBlocked : st.blocked a = false)
    (blocked : st'.blocked = st.blocked) (pcs : st'.pc = update st.pc a next)
    (owes : ¬ (st.pc a).WakePending) (locks : st'.tbl.lk = st.tbl.lk ∨ next.WakePending) (t : T)
    (stillBlocked : st'.blocked t = true) : st'.Excused t := by
  rw [blocked] at stillBlocked
  have other : t ≠ a := by
    rintro rfl
    rw [notBlocked] at stillBlocked
    cases stillBlocked
  exact (excused t stillBlocked).frame other pcs owes locks

theorem LockSys.Wakes.all_of_few {woken : Finset T} (wakes : st.Wakes woken)
    (few : ∀ s : Finset T, (∀ t ∈ s, st.blocked t = true) → s.card ≤ gjFlockSoftWakeMax) (t : T)
    (blocked : st.blocked t = true) : t ∈ woken := by
  by_contra missed
  have most := few (insert t woken) (by
    intro x member
    rcases Finset.mem_insert.mp member with rfl | inside
    · exact blocked
    · exact wakes.blocked x inside)
  rw [Finset.card_insert_of_notMem missed] at most
  exact missed (wakes.all (by omega) t blocked)

/-- A pass that leaves no wake behind has kept the locks. -/
theorem PassStep.lk {tbl : LockTable} {emptyAtEnd : Prop} {req : LockReq} {block : Bool}
    {nWait : Option (Fin gjFlockMaxWaiters)} {result : SetPass × LockTable}
    (step : PassStep tbl req block nWait result) (ok : tbl.Ok emptyAtEnd)
    (range : RangeOk emptyAtEnd req.start req.stop) (keeps : ¬ LosesLock tbl req) :
    result.1 = .granted ∨ result.2.lk = tbl.lk := by
  cases step with
  | eagain | edeadlk => exact .inr (waiterUnregister_lk ..)
  | registers hit => exact .inr (waiterRegister_lk ..).1
  | updates hit _ _ i => exact .inr (waiterUpdateBlocker_lk ..).1
  | uncarved free err carved failed =>
    obtain rfl := carvePidRange_error ok range.weaken failed
    exact .inr (waiterUnregister_lk ..)
  | full free carved done noSlot =>
    refine .inr ((waiterUnregister_lk ..).trans ?_)
    by_contra cut
    refine keeps ⟨?_, carved, done, ?_, cut⟩
    · cases found : conflict tbl req with
      | none => rfl
      | some hit => exact absurd (conflict_eq_some found).1 (free hit)
    · rcases slotAlloc_cases carved with ⟨none, -⟩ | ⟨i, taken, -, unused, -⟩
      · exact none
      · rw [noSlot i] at unused
        cases unused
  | granted => exact .inl rfl

/-! ### The excuse of a sleeper over a run -/

/-- After a wake that finds few enough sleepers nobody is blocked. -/
theorem woken_all {a : T} {woken : Finset T}
    (choice : ∀ t woken', LockAct.wake a woken = .wake t woken' → st.Wakes woken')
    (few : ∀ s : Finset T, (∀ t ∈ s, st.blocked t = true) → s.card ≤ gjFlockSoftWakeMax) (t : T) :
    ¬ (st.blocked t && decide (t ∉ woken)) = true := by
  intro still
  obtain ⟨blocked, missed⟩ := Bool.and_eq_true_iff.mp still
  exact of_decide_eq_true missed ((choice a woken rfl).all_of_few few t blocked)

theorem LockStep.excused {act : LockAct T} (step : LockStep st act st') (ok : st.Ok True)
    (admitted : WakesAll st act) (excused : ∀ t, st.blocked t = true → st.Excused t) (t : T)
    (blocked : st'.blocked t = true) : st'.Excused t := by
  -- A thread outside of its wait is not blocked and owes no wake.
  have goes {a : T} {pc next : Pc} (at_ : st.pc a = pc)
      (outside : pc = .idle ∨ ∃ call, pc = .test call) (same : st'.blocked = st.blocked)
      (pcs : st'.pc = update st.pc a next)
      (locks : st'.tbl.lk = st.tbl.lk ∨ next.WakePending) : st'.Excused t := by
    refine excused_of_frame excused (LockSys.Excused.not_blocked excused ?_) same pcs ?_
      locks t blocked
    · unfold LockSys.Excused
      rcases outside with rfl | ⟨call, rfl⟩ <;> rw [at_] <;> exact id
    · rcases outside with rfl | ⟨call, rfl⟩ <;> rw [at_] <;> exact id
  cases step.moves with
  | refused | got => exact excused t blocked
  | unlocked a fd fl block hasThread idle => exact goes idle (.inl rfl) rfl rfl (.inr trivial)
  | unlockFails a fd fl block hasThread idle start stop pid valid tbl err failed =>
    have unchanged := (fileLockUnlock_ok ok.tbl (flockValidate_range valid).2.1 fd pid).2.2
    rw [failed] at unchanged
    obtain rfl := unchanged err rfl
    exact excused t blocked
  | entered a fd fl block hasThread idle => exact goes idle (.inl rfl) rfl rfl (.inl rfl)
  | releasedFd a fd idle =>
    apply goes idle (.inl rfl) rfl rfl
    cases wakes : (fileLockReleaseFd st.tbl fd).2.1 with
    | true => exact .inr trivial
    | false => exact .inl ((fileLockReleaseFd_ok ok.tbl fd).2.2 wakes)
  | releasedPid a pid idle =>
    apply goes idle (.inl rfl) rfl rfl
    cases wakes : (fileLockReleasePid st.tbl pid).2.1 with
    | true => exact .inr trivial
    | false => exact .inl ((fileLockReleasePid_ok ok.tbl pid).2.2 wakes)
  | passed a call at_ =>
    obtain ⟨pc, pcs, same, -, -, wakes⟩ := st.pass_moves a call
    apply goes at_ (.inr ⟨call, rfl⟩) same pcs
    rcases (fileLockSetPass_step st.tbl call.req call.block call.nWait).lk ok.tbl
      (ok.calls a call (by rw [at_]; rfl)) (admitted call at_) with granted | kept
    · rw [wakes granted]
      exact .inr trivial
    · rw [pass_tbl]
      exact .inl kept
  | blocks a call at_ =>
    by_cases own : t = a
    · subst own
      unfold LockSys.Excused
      rw [goto_pc, if_pos rfl]
      trivial
    · have before : st.blocked t = true := by
        rw [← blocked]
        exact (update_of_ne own ..).symm
      exact (excused t before).frame own rfl (by rw [at_]; exact id) (.inl rfl)
  | rechecked a call at_ =>
    by_cases own : t = a
    · subst own
      unfold LockSys.Excused
      rw [goto_pc, if_pos rfl]
      cases found : (conflict st.tbl call.req).isSome with
      | true => exact .inl ((conflict_isSome_iff st.tbl call.req).mp found)
      | false => trivial
    · exact (excused t blocked).frame own rfl (by rw [at_]; exact id) (.inl rfl)
  | selfWoke | woke =>
    exact absurd blocked (woken_all step.1 admitted t)
  | resumed a call at_ ready =>
    exact excused_of_frame excused ready (by rfl) (by rfl) (by rw [at_]; exact id)
      (.inl (by rfl)) t blocked

theorem LockRuns.excused (runs : LockRuns WakesAll init st) :
    st.Ok True ∧ ∀ t, st.blocked t = true → st.Excused t := by
  induction runs with
  | refl => exact ⟨init_ok True, nofun⟩
  | tail _ step ih =>
    obtain ⟨act, admitted, step⟩ := step
    obtain ⟨ok, excused⟩ := ih
    exact ⟨ok.step step (.inl trivial), step.excused ok admitted excused⟩

/-- In every run in which each wake reaches all sleepers and no refused request gives up ranges,
a thread that is still blocked when no call is under way has a lock in its way. -/
theorem lockRuns_sleeper_obstructed (runs : LockRuns WakesAll init st) (quiet : st.Quiet)
    (t : T) (blocked : st.blocked t = true) :
    ∃ call, st.pc t = .asleep call ∧ ∃ i, (st.tbl.lk i).Blocks call.req := by
  have excused := runs.excused.2 t blocked
  unfold LockSys.Excused at excused
  rcases quiet t with idle | ⟨call, test⟩ | ⟨call, asleep⟩
  · rw [idle] at excused
    exact excused.elim
  · rw [test] at excused
    exact excused.elim
  · rw [asleep] at excused
    refine ⟨call, asleep, excused.resolve_right ?_⟩
    rintro ⟨w, pending⟩
    rcases quiet w with idle | ⟨call, test⟩ | ⟨call, asleep⟩
    · rw [idle] at pending
      exact pending
    · rw [test] at pending
      exact pending
    · rw [asleep] at pending
      exact pending

/-! ### Five sleepers and one -/

def sampleSleep (t : Fin 6) (pid : U32) : List (LockAct (Fin 6)) :=
  [.set t 3 (sampleFlock (.lock .wrlck) 0 10 pid) true true, .pass t, .block t, .recheck t]

def sampleCall (pid : U32) (nWait : Fin gjFlockMaxWaiters) : SetCall where
  req := { fd := 3, type := .wrlck, start := 0, stop := 10, pid }
  block := true
  hasThread := true
  nWait := some nWait

/-- A woken sleeper finds the lock still held and goes back to sleep. -/
def sampleRetry (t : Fin 6) : List (LockAct (Fin 6)) := [.resume t, .pass t, .block t, .recheck t]

/-- A thread is about to block when the range it asks for is unlocked. It finds the range free
afterwards, and its own wake goes to the four threads that sleep for another range. -/
def sampleCrowd : List (LockAct (Fin 6)) :=
  sampleSet 0 (.lock .wrlck) 0 10 1 ++ [.wake 0 ∅] ++ sampleSet 0 (.lock .wrlck) 20 10 1 ++
    [.wake 0 ∅] ++ sampleSleep 1 2 ++ sampleSleep 2 3 ++ sampleSleep 3 4 ++ sampleSleep 4 5 ++
    [.set 5 3 (sampleFlock (.lock .wrlck) 20 10 6) true true, .pass 5,
      .set 0 3 (sampleFlock .unlck 20 10 1) false true, .wake 0 {1, 2, 3, 4}] ++
    sampleRetry 1 ++ sampleRetry 2 ++ sampleRetry 3 ++ sampleRetry 4 ++
    [.block 5, .recheck 5, .wake 5 {1, 2, 3, 4}]

def sampleForgotten : SetCall where
  req := { fd := 3, type := .wrlck, start := 20, stop := 30, pid := 6 }
  block := true
  hasThread := true
  nWait := some 4

theorem lockRuns_sleeper_forgotten :
    ∃ st, LockRuns (fun _ _ => True) (init : LockSys (Fin 6)) st ∧ st.Quiet ∧
      st.blocked 5 = true ∧ st.pc 5 = .asleep sampleForgotten ∧
      ∀ i, ¬ (st.tbl.lk i).Blocks sampleForgotten.req := by
  have left : ((init : LockSys (Fin 6)).after (fun _ _ => true) sampleCrowd).map
      (fun st => (st.pc, st.blocked 5, decide (∀ i, ¬ (st.tbl.lk i).Blocks sampleForgotten.req))) =
      some (![.idle, .asleep (sampleCall 2 0), .asleep (sampleCall 3 1), .asleep (sampleCall 4 2),
        .asleep (sampleCall 5 3), .asleep sampleForgotten], true, true) := by
    decide +kernel
  obtain ⟨st, runs, values⟩ := LockRuns.of_after left
  obtain ⟨pc, values⟩ := Prod.mk.inj values
  obtain ⟨blocked, free⟩ := Prod.mk.inj values
  refine ⟨st, runs, ?_, blocked, by rw [pc]; rfl, of_decide_eq_true free⟩
  intro t
  rw [pc]
  fin_cases t
  · exact .inl rfl
  all_goals exact .inr (.inr ⟨_, rfl⟩)

def sampleCheck (st : LockSys (Fin 6)) : LockAct (Fin 6) → Bool
  | .wake _ _ =>
    decide ((Finset.univ.filter fun t => st.blocked t = true).card ≤ gjFlockSoftWakeMax)
  | .pass t =>
    match st.pc t with
    | .test call => (conflict st.tbl call.req).isSome || (slotAlloc
        (carvePidRange st.tbl call.req.fd call.req.pid call.req.start call.req.stop).2).isSome
    | _ => true
  | _ => true

theorem sampleCheck_sound (st : LockSys (Fin 6)) (act : LockAct (Fin 6))
    (checked : sampleCheck st act = true) : WakesAll st act := by
  cases act with
  | wake t woken =>
    intro s blocked
    refine (Finset.card_le_card fun t member => ?_).trans (of_decide_eq_true checked)
    exact Finset.mem_filter.mpr ⟨Finset.mem_univ t, blocked t member⟩
  | pass t =>
    rintro call at_ ⟨free, carved, done, none, -⟩
    simp only [sampleCheck, at_, free, done, none] at checked
    cases checked
  | set | get | releaseFd | releasePid | block | recheck | resume => trivial

theorem lockRuns_sleeper_obstructed_one :
    ∃ st, LockRuns WakesAll (init : LockSys (Fin 6)) st ∧ st.blocked 1 = true ∧
      ∃ call, st.pc 1 = .asleep call ∧ ∃ i, (st.tbl.lk i).Blocks call.req := by
  have left : ((init : LockSys (Fin 6)).after sampleCheck
      (sampleSet 0 (.lock .wrlck) 0 10 1 ++ [.wake 0 ∅] ++ sampleSleep 1 2)).map
      (fun st => (st.pc, st.blocked 1)) =
      some (![.idle, .asleep (sampleCall 2 0), .idle, .idle, .idle, .idle], true) := by
    decide +kernel
  obtain ⟨st, ends, values⟩ := Option.map_eq_some_iff.mp left
  obtain ⟨pc, blocked⟩ := Prod.mk.inj values
  have runs : LockRuns WakesAll (init : LockSys (Fin 6)) st :=
    after_runs ends fun act _ st => sampleCheck_sound st act
  have quiet : st.Quiet := by
    intro t
    rw [pc]
    fin_cases t
    · exact .inl rfl
    · exact .inr (.inr ⟨_, rfl⟩)
    all_goals exact .inl rfl
  exact ⟨st, runs, blocked, lockRuns_sleeper_obstructed runs quiet 1 blocked⟩

end GreenJade.Fs

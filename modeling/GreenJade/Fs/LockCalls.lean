import GreenJade.Fs.LockTable

/-! Owns what each critical section of the file-lock calls does: the conflict test is exact, a
pass of `file_lock_set` has the outcomes listed here, and every call keeps the invariant of the
lock table. -/

namespace GreenJade.Fs

open RangeTable List

variable {emptyAtEnd : Prop} {tbl : LockTable}

/-! ### The conflict test -/

/-- A slot that `conflict` prefers: it starts before, or where the other starts, and then it is a
write lock if the other is one. -/
def FlockSlot.Ahead (a b : FlockSlot) : Prop :=
  a.start ≤ b.start ∧ (a.start = b.start → b.type = .wrlck → a.type = .wrlck)

theorem FlockSlot.Ahead.refl (a : FlockSlot) : a.Ahead a := ⟨le_rfl, fun _ => id⟩

theorem FlockSlot.Ahead.trans {a b c : FlockSlot} (first : a.Ahead b) (second : b.Ahead c) :
    a.Ahead c := by
  refine ⟨first.1.trans second.1, fun same write => ?_⟩
  have le := second.1
  have le' := first.1
  exact first.2 (by omega) (second.2 (by omega) write)

theorem betterHit_spec (tbl : LockTable) (best : Option (Fin gjFlockMax)) (i : Fin gjFlockMax) :
    ∃ hit, betterHit tbl best i = some hit ∧ (hit = i ∨ best = some hit) ∧
      (tbl.lk hit).Ahead (tbl.lk i) ∧ ∀ old, best = some old → (tbl.lk hit).Ahead (tbl.lk old) := by
  cases best with
  | none => exact ⟨i, rfl, .inl rfl, .refl _, nofun⟩
  | some old =>
    simp only [betterHit, Option.some.injEq, forall_eq']
    split_ifs with before write
    · exact ⟨i, rfl, .inl rfl, .refl _, before.le, fun same => absurd same before.ne⟩
    · exact ⟨i, rfl, .inl rfl, .refl _, write.1.le, fun _ _ => write.2.1⟩
    · refine ⟨old, rfl, .inr rfl, ⟨not_lt.mp before, fun same wrlck => ?_⟩, .refl _⟩
      by_contra read
      exact write ⟨same.symm, wrlck, read⟩

/-- The best of what has been found blocks the request and is ahead of all that do. -/
theorem conflict_foldl (tbl : LockTable) (req : LockReq) (slots : List (Fin gjFlockMax))
    (best : Option (Fin gjFlockMax)) (blocks : ∀ hit, best = some hit → (tbl.lk hit).Blocks req) :
    match slots.foldl (fun best i => if (tbl.lk i).Blocks req then betterHit tbl best i else best)
      best with
    | none => best = none ∧ ∀ i ∈ slots, ¬ (tbl.lk i).Blocks req
    | some hit => (tbl.lk hit).Blocks req ∧ ∀ k, k ∈ slots ∧ (tbl.lk k).Blocks req ∨
        best = some k → (tbl.lk hit).Ahead (tbl.lk k) := by
  induction slots generalizing best with
  | nil =>
    cases best with
    | none => exact ⟨rfl, nofun⟩
    | some hit => exact ⟨blocks hit rfl, by simp [FlockSlot.Ahead.refl]⟩
  | cons i rest ih =>
    simp only [foldl_cons]
    split_ifs with here
    · obtain ⟨better, found, source, aheadI, aheadBest⟩ := betterHit_spec tbl best i
      have later := ih (betterHit tbl best i) fun hit same => by
        cases found.symm.trans same
        rcases source with rfl | old
        · exact here
        · exact blocks better old
      split at later
      · exact nomatch found.symm.trans later.1
      · refine ⟨later.1, fun k seen => ?_⟩
        have ahead := later.2 better (.inr found)
        rcases seen with ⟨member, blocksK⟩ | old
        · rcases mem_cons.mp member with rfl | inRest
          · exact ahead.trans aheadI
          · exact later.2 k (.inl ⟨inRest, blocksK⟩)
        · exact ahead.trans (aheadBest k old)
    · have later := ih best blocks
      split at later
      · exact ⟨later.1, forall_mem_cons.mpr ⟨here, later.2⟩⟩
      · refine ⟨later.1, fun k seen => later.2 k (seen.imp_left fun ⟨member, blocksK⟩ => ?_)⟩
        refine ⟨(mem_cons.mp member).resolve_left ?_, blocksK⟩
        rintro rfl
        exact here blocksK

variable {start stop : Int} {req : LockReq} {carved : LockTable} {pid : U32} {fd : I64}

theorem conflict_eq_some {hit : Fin gjFlockMax} (found : conflict tbl req = some hit) :
    (tbl.lk hit).Blocks req ∧ ∀ k, (tbl.lk k).Blocks req → (tbl.lk hit).Ahead (tbl.lk k) := by
  have spec := conflict_foldl tbl req (List.finRange gjFlockMax) none nofun
  unfold conflict at found
  rw [found] at spec
  exact ⟨spec.1, fun k blocks => spec.2 k (.inl ⟨mem_finRange k, blocks⟩)⟩

theorem conflict_eq_none (none : conflict tbl req = none) (i : Fin gjFlockMax) :
    ¬ (tbl.lk i).Blocks req := by
  have spec := conflict_foldl tbl req (List.finRange gjFlockMax) .none nofun
  unfold conflict at none
  rw [none] at spec
  exact spec.2 i (mem_finRange i)

variable (tbl)

/-- The test finds a lock exactly if one stands in the way. -/
theorem conflict_isSome_iff (req : LockReq) :
    (conflict tbl req).isSome = true ↔ ∃ i, (tbl.lk i).Blocks req := by
  cases found : conflict tbl req with
  | none => simpa using conflict_eq_none found
  | some hit => simpa using ⟨hit, (conflict_eq_some found).1⟩

/-! ### Validation -/

theorem clampedStart_bounds (start : I64) : 0 ≤ (if start.toInt < 0 then 0 else start.toInt) ∧
      (if start.toInt < 0 then 0 else start.toInt) ≤ i64Max := by
  have upper : start.toInt ≤ i64Max := by
    have bound := BitVec.toInt_lt (x := start)
    unfold i64Max
    omega
  split_ifs
  · exact ⟨le_rfl, by decide⟩
  · exact ⟨by omega, upper⟩

theorem rangeEnd_ok {len : Int} (nonneg : 0 ≤ start) (bound : start ≤ i64Max)
    (lenNonneg : 0 ≤ len) (fits : rangeOverflow start len = false) :
    RangeOk True start (rangeEnd start len) ∧
      (¬ (start = i64Max ∧ len = 0) → RangeOk False start (rangeEnd start len)) := by
  by_cases eof : len = 0
  · have stop : rangeEnd start len = gjFlockEof := if_pos eof
    have normal : rangeNormEnd gjFlockEof = i64Max := rfl
    rw [stop]
    refine ⟨⟨nonneg, by decide, ?_⟩, fun inside => ⟨nonneg, by decide, .inl ?_⟩⟩
    · rcases bound.lt_or_eq with below | atEnd
      · exact .inl below
      · exact .inr ⟨trivial, atEnd, by decide⟩
    · exact lt_of_le_of_ne bound fun atEnd => inside ⟨atEnd, eof⟩
  · have within : start ≤ i64Max - len := by
      simpa [rangeOverflow, eof] using fits
    have stop : rangeEnd start len = start + len := by
      rw [rangeEnd, if_neg eof, if_neg (by omega)]
    have normal := rangeNormEnd_of_nonneg (by omega : 0 ≤ start + len)
    have strict : RangeOk False start (start + len) := ⟨nonneg, by omega, .inl (by omega)⟩
    rw [stop]
    exact ⟨strict.weaken, fun _ => strict⟩

/-- A validated range is empty only if it is asked for from the greatest offset to the end of
the file. -/
theorem flockValidate_range {fl : GjFlock} (valid : flockValidate fd fl = .ok (start, stop, pid)) :
    pid ≠ 0 ∧ RangeOk True start stop ∧
      (¬ (fl.start.toInt = i64Max ∧ fl.len.toInt = 0) → RangeOk False start stop) := by
  obtain ⟨nonneg, bound⟩ := clampedStart_bounds fl.start
  have atEnd : (if fl.start.toInt < 0 then 0 else fl.start.toInt) = i64Max →
      fl.start.toInt = i64Max := by
    split_ifs
    · intro zero
      exact absurd zero (by decide)
    · exact id
  unfold flockValidate at valid
  simp only at valid
  generalize (if fl.start.toInt < 0 then 0 else fl.start.toInt) = first at *
  have pidNe : (if fl.pid ≠ 0 then fl.pid else 1) ≠ 0 := by
    split_ifs with given
    · exact given
    · decide
  generalize (if fl.pid ≠ 0 then fl.pid else 1) = owner at *
  split_ifs at valid with badFd whence negative overflow empty
  obtain ⟨rfl, rfl, rfl⟩ := Prod.mk.inj (Except.ok.inj valid) |>.imp_right Prod.mk.inj
  obtain ⟨weak, strict⟩ := rangeEnd_ok nonneg bound (not_lt.mp negative)
    (Bool.eq_false_iff.mpr overflow)
  exact ⟨pidNe, weak, fun inside => strict fun both => inside ⟨atEnd both.1, both.2⟩⟩

/-! ### The waiter table is not the lock table -/

@[simp]
theorem waiterUnregister_lk (nWait : Option (Fin gjFlockMaxWaiters)) :
    (waiterUnregister tbl nWait).lk = tbl.lk := by
  cases nWait with
  | none => rfl
  | some i =>
    simp only [waiterUnregister]
    split <;> rfl

@[simp]
theorem waiterUnregister_nLocks (nWait : Option (Fin gjFlockMaxWaiters)) :
    (waiterUnregister tbl nWait).nLocks = tbl.nLocks := by
  cases nWait with
  | none => rfl
  | some i =>
    simp only [waiterUnregister]
    split <;> rfl

theorem waiterUnregister_wait_of_ne {i k : Fin gjFlockMaxWaiters}
    (other : k ≠ i) : (waiterUnregister tbl (some i)).wait k = tbl.wait k := by
  simp only [waiterUnregister]
  split
  · rfl
  · exact Function.update_of_ne other ..

theorem waiterUnregister_wait (nWait : Option (Fin gjFlockMaxWaiters)) (k : Fin gjFlockMaxWaiters) :
    (waiterUnregister tbl nWait).wait k =
      if nWait = some k then { tbl.wait k with used := false } else tbl.wait k := by
  cases nWait with
  | none => rfl
  | some i =>
    by_cases here : k = i
    · subst here
      rw [if_pos rfl]
      simp only [waiterUnregister]
      split
      · rename_i free
        rw [← free]
      · exact Function.update_self ..
    · rw [if_neg (fun same => here (Option.some.inj same).symm)]
      exact waiterUnregister_wait_of_ne tbl here

theorem waiterRegister_lk (req : LockReq) (blocker : U32) :
    (waiterRegister tbl req blocker).2.lk = tbl.lk ∧
      (waiterRegister tbl req blocker).2.nLocks = tbl.nLocks := by
  unfold waiterRegister
  split
  all_goals exact ⟨rfl, rfl⟩

theorem waiterUpdateBlocker_lk (i : Fin gjFlockMaxWaiters) (blocker : U32) :
    (waiterUpdateBlocker tbl i blocker).lk = tbl.lk ∧
      (waiterUpdateBlocker tbl i blocker).nLocks = tbl.nLocks := by
  unfold waiterUpdateBlocker
  split_ifs
  all_goals exact ⟨rfl, rfl⟩

variable {tbl}

/-! ### Carving a whole range -/

theorem carvePidRange_ok (ok : tbl.Ok emptyAtEnd)
    (range : RangeOk True start stop) (fd : I64) (pid : U32) :
    (carvePidRange tbl fd pid start stop).2.Ok emptyAtEnd ∧
      (carvePidRange tbl fd pid start stop).2.wait = tbl.wait ∧
      ∃ source, Narrows tbl.view (carvePidRange tbl fd pid start stop).2.view source :=
  carveLoop_narrows (List.finRange gjFlockMax) ok range

theorem carvePidRange_clear (ok : tbl.Ok emptyAtEnd) (range : RangeOk True start stop)
    (done : carvePidRange tbl fd pid start stop = (.ok (), carved)) (k : Fin gjFlockMax) :
    (carved.lk k).Clear fd pid start stop :=
  carveLoop_clear ok range done k (.inl (mem_finRange k))

/-- A carve that fails has changed nothing. -/
theorem carvePidRange_error
    {err : FlockErr} (ok : tbl.Ok emptyAtEnd) (range : RangeOk True start stop)
    (failed : carvePidRange tbl fd pid start stop = (.error err, carved)) : carved = tbl :=
  (carveLoop_error ok range failed).1

/-! ### A pass of `file_lock_set` -/

/-- The table after a carve for a granted request, with the new lock in a free slot. -/
structure Inserts (carved : LockTable) (req : LockReq) (filled : LockTable) : Prop where
  lk : ∃ i, (carved.lk i).used = false ∧ filled.lk = Function.update carved.lk i
    { used := true, fd := req.fd, type := req.type, start := req.start, stop := req.stop
      pid := req.pid }
  nLocks : filled.nLocks = carved.nLocks + 1
  wait : filled.wait = carved.wait

inductive PassStep (tbl : LockTable) (req : LockReq) (block : Bool)
    (nWait : Option (Fin gjFlockMaxWaiters)) : SetPass × LockTable → Prop
  | eagain (hit : Fin gjFlockMax) (blocks : (tbl.lk hit).Blocks req) (nonblocking : block = false) :
      PassStep tbl req block nWait (.refused .eagain, waiterUnregister tbl nWait)
  | edeadlk (hit : Fin gjFlockMax) (blocks : (tbl.lk hit).Blocks req) (blocking : block = true)
      (cycle : softDeadlock tbl req.pid (tbl.lk hit).pid = true)
      (found : conflict tbl req = some hit) :
      PassStep tbl req block nWait (.refused .edeadlk, waiterUnregister tbl nWait)
  | registers (hit : Fin gjFlockMax) (blocks : (tbl.lk hit).Blocks req) (blocking : block = true)
      (unregistered : nWait = none) :
      PassStep tbl req block nWait (.waits (waiterRegister tbl req (tbl.lk hit).pid).1,
        (waiterRegister tbl req (tbl.lk hit).pid).2)
  | updates (hit : Fin gjFlockMax) (blocks : (tbl.lk hit).Blocks req) (blocking : block = true)
      (i : Fin gjFlockMaxWaiters) (registered : nWait = some i) :
      PassStep tbl req block nWait (.waits (some i), waiterUpdateBlocker tbl i (tbl.lk hit).pid)
  | uncarved (free : ∀ i, ¬ (tbl.lk i).Blocks req) (err : FlockErr) (carved : LockTable)
      (failed : carvePidRange tbl req.fd req.pid req.start req.stop = (.error err, carved)) :
      PassStep tbl req block nWait (.refused err, waiterUnregister carved nWait)
  | full (free : ∀ i, ¬ (tbl.lk i).Blocks req) (carved : LockTable)
      (done : carvePidRange tbl req.fd req.pid req.start req.stop = (.ok (), carved))
      (noSlot : ∀ i, (carved.lk i).used = true) :
      PassStep tbl req block nWait (.refused .enolck, waiterUnregister carved nWait)
  | granted (free : ∀ i, ¬ (tbl.lk i).Blocks req) (carved filled : LockTable)
      (done : carvePidRange tbl req.fd req.pid req.start req.stop = (.ok (), carved))
      (inserts : Inserts carved req filled) :
      PassStep tbl req block nWait
        (.granted, wakeGenBump (waiterUnregister (coalescePid filled req.fd req.pid) nWait))

theorem fileLockSetPass_step (tbl : LockTable) (req : LockReq) (block : Bool)
    (nWait : Option (Fin gjFlockMaxWaiters)) :
    PassStep tbl req block nWait (fileLockSetPass tbl req block nWait) := by
  unfold fileLockSetPass
  cases found : conflict tbl req with
  | some hit =>
    have blocks := (conflict_eq_some found).1
    simp only
    cases block with
    | false =>
      exact .eagain hit blocks rfl
    | true =>
      rw [if_neg (Bool.true_eq_false.mp)]
      split_ifs with cycle
      · exact .edeadlk hit blocks rfl cycle found
      · cases nWait with
        | none => exact .registers hit blocks rfl rfl
        | some i => exact .updates hit blocks rfl i rfl
  | none =>
    have free := conflict_eq_none found
    rcases carve : carvePidRange tbl req.fd req.pid req.start req.stop with ⟨err | ⟨⟩, carved⟩
    · exact .uncarved free err carved carve
    · rcases slotAlloc_cases carved with ⟨none, noSlot⟩ | ⟨i, taken, some, unused, rfl⟩
      · simp only [none]
        exact .full free carved carve noSlot
      · simp only [some]
        refine .granted free carved _ carve ⟨⟨i, unused, ?_⟩, rfl, rfl⟩
        simp [slotFill, LockTable.setLk]

/-- The new lock meets no other of its pid, as these have been carved, and clashes with none of
another pid, as the test has found none. -/
theorem Inserts.ok {filled : LockTable} (inserts : Inserts carved req filled)
    (ok : tbl.Ok emptyAtEnd) (range : RangeOk emptyAtEnd req.start req.stop)
    (free : ∀ i, ¬ (tbl.lk i).Blocks req)
    (done : carvePidRange tbl req.fd req.pid req.start req.stop = (.ok (), carved)) :
    filled.Ok emptyAtEnd := by
  have clear := carvePidRange_clear ok range.weaken done
  obtain ⟨carvedOk, -, source, narrows⟩ := carvePidRange_ok ok range.weaken req.fd req.pid
  rw [done] at carvedOk narrows
  obtain ⟨i, unused, lk⟩ := inserts.lk
  refine carvedOk.insert unused rfl range ?_ ?_ lk inserts.nLocks
  · intro k held entry resource owner
    obtain ⟨used, rfl⟩ := LockTable.used_of_view entry
    exact clear k ⟨used, resource, owner⟩
  · intro k held entry resource owner clash
    obtain ⟨before, root, within⟩ := narrows.within k held entry
    obtain ⟨used, rfl⟩ := LockTable.used_of_view root
    have apart : rangesOverlap req.start req.stop (tbl.lk (source k)).start
        (tbl.lk (source k)).stop = false := by
      rw [Bool.eq_false_iff]
      intro meets
      refine free (source k) ⟨used, within.resource.symm.trans resource, ?_, meets, ?_⟩
      · intro same
        exact owner (within.owner.trans same)
      · rw [within.mode] at clash
        exact clash
    exact (disjoint_of_not_overlap apart).mono_right within.extent

theorem PassStep.ok {block : Bool} {nWait : Option (Fin gjFlockMaxWaiters)}
    {result : SetPass × LockTable} (step : PassStep tbl req block nWait result)
    (ok : tbl.Ok emptyAtEnd) (range : RangeOk emptyAtEnd req.start req.stop) :
    result.2.Ok emptyAtEnd := by
  cases step with
  | eagain | edeadlk => exact ok.congr (waiterUnregister_lk ..) (waiterUnregister_nLocks ..)
  | registers hit =>
    have same := waiterRegister_lk tbl req (tbl.lk hit).pid
    exact ok.congr same.1 same.2
  | updates hit _ _ i =>
    have same := waiterUpdateBlocker_lk tbl i (tbl.lk hit).pid
    exact ok.congr same.1 same.2
  | uncarved free err carved done | full free carved done =>
    have carvedOk := (carvePidRange_ok ok range.weaken req.fd req.pid).1
    rw [done] at carvedOk
    exact carvedOk.congr (waiterUnregister_lk ..) (waiterUnregister_nLocks ..)
  | granted free carved filled done inserts =>
    have filledOk := inserts.ok ok range free done
    have merged := (coalescePid_merges filledOk req.fd req.pid).ok
    exact merged.congr (waiterUnregister_lk ..) (waiterUnregister_nLocks ..)

/-! ### Unlocking and releasing -/

theorem fileLockUnlock_ok (ok : tbl.Ok emptyAtEnd)
    (range : RangeOk True start stop) (fd : I64) (pid : U32) :
    (fileLockUnlock tbl fd pid start stop).2.Ok emptyAtEnd ∧
      (fileLockUnlock tbl fd pid start stop).2.wait = tbl.wait ∧
      ∀ err, (fileLockUnlock tbl fd pid start stop).1 = .error err →
        (fileLockUnlock tbl fd pid start stop).2 = tbl := by
  have carve := carvePidRange_ok ok range fd pid
  unfold fileLockUnlock
  rcases done : carvePidRange tbl fd pid start stop with ⟨err | ⟨⟩, carved⟩ <;> rw [done] at carve
  · exact ⟨carve.1, carve.2.1, fun _ _ => carvePidRange_error ok range done⟩
  · exact ⟨carve.1.congr rfl rfl, carve.2.1, nofun⟩

/-- A release frees slots, and has a count of none only if it changes nothing. -/
theorem releaseSlots_foldl (picked : FlockSlot → Bool) (slots : List (Fin gjFlockMax))
    (state : U32 × LockTable) (ok : state.2.Ok emptyAtEnd)
    (room : state.1.toNat + slots.length < 2 ^ 32) :
    let after := slots.foldl (fun state i =>
      if (state.2.lk i).used && picked (state.2.lk i) then (state.1 + 1, slotFree state.2 i)
      else state) state
    after.2.Ok emptyAtEnd ∧ after.2.wait = state.2.wait ∧ state.1.toNat ≤ after.1.toNat ∧
      (after.1 = state.1 → after.2 = state.2) := by
  induction slots generalizing state with
  | nil => exact ⟨ok, rfl, le_rfl, fun _ => rfl⟩
  | cons i rest ih =>
    simp only [length_cons] at room
    simp only [foldl_cons]
    split_ifs with here
    · have counted : (state.1 + 1).toNat = state.1.toNat + 1 := by
        exact Nat.mod_eq_of_lt (by omega : state.1.toNat + 1 < 2 ^ 32)
      obtain ⟨laterOk, wait, grows, -⟩ := ih (state.1 + 1, slotFree state.2 i)
        (ok.slotFree i) (by simp only [counted]; omega)
      simp only [counted] at grows
      refine ⟨laterOk, wait.trans (slotFree_wait state.2 i), by omega, fun same => ?_⟩
      rw [same] at grows
      omega
    · exact ih state ok (by omega)

theorem releaseSlots_ok (picked : FlockSlot → Bool) (ok : tbl.Ok emptyAtEnd) :
    (releaseSlots picked tbl).2.Ok emptyAtEnd ∧ (releaseSlots picked tbl).2.wait = tbl.wait ∧
      (¬ 0 < (releaseSlots picked tbl).1 → (releaseSlots picked tbl).2 = tbl) := by
  obtain ⟨after, wait, -, unchanged⟩ := releaseSlots_foldl picked (List.finRange gjFlockMax)
    (0, tbl) ok (by rw [length_finRange]; exact (by decide : 0 + gjFlockMax < 2 ^ 32))
  unfold releaseSlots
  exact ⟨after, wait, fun none => unchanged (BitVec.le_zero_iff.mp (BitVec.not_lt.mp none))⟩

theorem dropWaiters_foldl (pid : U32) (entries : List (Fin gjFlockMaxWaiters))
    (state : U32 × LockTable) :
    let after := entries.foldl (fun state i =>
      if (state.2.wait i).used ∧ (state.2.wait i).pid = pid then
        (state.1 + 1, waiterUnregister state.2 (some i))
      else state) state
    after.2.lk = state.2.lk ∧ after.2.nLocks = state.2.nLocks ∧
      ∀ k, after.2.wait k = state.2.wait k ∨ (state.2.wait k).used = true ∧
        (state.2.wait k).pid = pid ∧ (after.2.wait k).used = false := by
  induction entries generalizing state with
  | nil => exact ⟨rfl, rfl, fun _ => .inl rfl⟩
  | cons i rest ih =>
    simp only [foldl_cons]
    split_ifs with here
    · obtain ⟨lk, nLocks, waits⟩ := ih (state.1 + 1, waiterUnregister state.2 (some i))
      refine ⟨lk.trans (waiterUnregister_lk ..), nLocks.trans (waiterUnregister_nLocks ..), ?_⟩
      intro k
      by_cases same : k = i
      · subst same
        have dropped : ((waiterUnregister state.2 (some k)).wait k).used = false := by
          rw [waiterUnregister_wait, if_pos rfl]
        refine .inr ⟨here.1, here.2, ?_⟩
        rcases waits k with kept | ⟨used, -⟩
        · rw [kept]
          exact dropped
        · exact nomatch used.symm.trans dropped
      · have other : (waiterUnregister state.2 (some i)).wait k = state.2.wait k :=
          waiterUnregister_wait_of_ne state.2 same
        have later := waits k
        simp only [other] at later
        exact later
    · exact ih state

/-- `file_lock_release_fd` leaves the waiters alone, and the locks too unless a wake follows. -/
theorem fileLockReleaseFd_ok (ok : tbl.Ok emptyAtEnd) (fd : I64) :
    (fileLockReleaseFd tbl fd).2.2.Ok emptyAtEnd ∧ (fileLockReleaseFd tbl fd).2.2.wait = tbl.wait ∧
      ((fileLockReleaseFd tbl fd).2.1 = false → (fileLockReleaseFd tbl fd).2.2.lk = tbl.lk) := by
  have release := releaseSlots_ok (fun slot => slot.fd = fd) ok
  unfold fileLockReleaseFd
  split_ifs with bad
  · exact ⟨ok, rfl, fun _ => rfl⟩
  · rcases freed : releaseSlots (fun slot => slot.fd = fd) tbl with ⟨cleared, released⟩
    rw [freed] at release
    obtain ⟨releasedOk, wait, unchanged⟩ := release
    simp only
    split_ifs with some observed
    · exact ⟨releasedOk.congr rfl rfl, wait, nofun⟩
    · exact ⟨releasedOk.congr rfl rfl, wait, nofun⟩
    · exact ⟨releasedOk, wait, fun _ => congrArg LockTable.lk (unchanged some)⟩

theorem dropWaiters_spec (pid : U32) (tbl : LockTable) :
    (dropWaiters pid tbl).2.lk = tbl.lk ∧ (dropWaiters pid tbl).2.nLocks = tbl.nLocks ∧
      ∀ k, (dropWaiters pid tbl).2.wait k = tbl.wait k ∨ (tbl.wait k).used = true ∧
        (tbl.wait k).pid = pid ∧ ((dropWaiters pid tbl).2.wait k).used = false := by
  exact dropWaiters_foldl pid (List.finRange gjFlockMaxWaiters) (0, tbl)

/-- `file_lock_release_pid` drops waiters of its pid only, and leaves the locks alone unless a wake
follows. -/
theorem fileLockReleasePid_ok (ok : tbl.Ok emptyAtEnd) (pid : U32) :
    (fileLockReleasePid tbl pid).2.2.Ok emptyAtEnd ∧
      (∀ k, (fileLockReleasePid tbl pid).2.2.wait k = tbl.wait k ∨ (tbl.wait k).used = true ∧
        (tbl.wait k).pid = pid ∧ ((fileLockReleasePid tbl pid).2.2.wait k).used = false) ∧
      ((fileLockReleasePid tbl pid).2.1 = false →
        (fileLockReleasePid tbl pid).2.2.lk = tbl.lk) := by
  have release := releaseSlots_ok (fun slot => slot.pid = pid) ok
  unfold fileLockReleasePid
  split_ifs with null
  · exact ⟨ok, fun _ => .inl rfl, fun _ => rfl⟩
  · rcases freed : releaseSlots (fun slot => slot.pid = pid) tbl with ⟨cleared, released⟩
    rw [freed] at release
    obtain ⟨releasedOk, wait, unchanged⟩ := release
    have drop := dropWaiters_spec pid released
    rcases dropped : dropWaiters pid released with ⟨count, left⟩
    simp only [dropped] at drop ⊢
    obtain ⟨lk, nLocks, drops⟩ := drop
    have leftOk := releasedOk.congr lk nLocks
    have waits : ∀ k, left.wait k = tbl.wait k ∨ (tbl.wait k).used = true ∧
        (tbl.wait k).pid = pid ∧ (left.wait k).used = false := by
      have before : released.wait = tbl.wait := wait
      rw [← before]
      exact drops
    split_ifs with some observed
    · exact ⟨leftOk.congr rfl rfl, waits, nofun⟩
    · exact ⟨leftOk.congr rfl rfl, waits, nofun⟩
    · exact ⟨leftOk, waits, fun _ => lk.trans (congrArg LockTable.lk (unchanged some))⟩

end GreenJade.Fs

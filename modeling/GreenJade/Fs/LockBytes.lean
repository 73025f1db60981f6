import GreenJade.Fs.LockRuns
import Mathlib.Algebra.BigOperators.Group.Finset.Piecewise
import Mathlib.Algebra.Order.BigOperators.Group.Finset

/-! Owns the byte map of the lock table, which says who holds which byte of a descriptor in which
mode: what `file_lock_set` makes of the map, when it fails and has changed it, and what
`file_lock_get` reports of it. -/

namespace GreenJade.Fs

open Function RangeTable Finset LockTable FlockSlot LockSys

universe u

instance (slot : FlockSlot) (b : Int) : Decidable (slot.Covers b) :=
  inferInstanceAs (Decidable (_ ∧ _))

/-- The mode in which a pid holds a byte of a descriptor. -/
def LockTable.lockAt (tbl : LockTable) (fd : I64) (pid : U32) (b : Int) : Option LockType :=
  ((List.finRange gjFlockMax).find? fun i => (tbl.lk i).Own fd pid ∧ (tbl.lk i).Covers b).map
    fun i => (tbl.lk i).type

/-- `file_lock_set` up to the end of the critical section that comes after its entry or after a
wait. A grant is status 0. -/
def fileLockSet (tbl : LockTable) (fd : I64) (fl : GjFlock) (block : Bool)
    (nWait : Option (Fin gjFlockMaxWaiters)) : SetPass × LockTable :=
  match flockValidate fd fl with
  | .error err => (.refused err, tbl)
  | .ok (start, stop, pid) =>
    match fl.type with
    | .unlck =>
      match fileLockUnlock tbl fd pid start stop with
      | (.ok (), tbl) => (.granted, tbl)
      | (.error err, tbl) => (.refused err, tbl)
    | .other => (.refused .einval, tbl)
    | .lock type => fileLockSetPass tbl { fd, type, start, stop, pid } block nWait

/-! ### Requests -/

def GjFlock.owner (fl : GjFlock) : U32 := if fl.pid ≠ 0 then fl.pid else 1

/-- A byte that a request is for: a negative start is 0, and length 0 goes to the end of the
file. -/
def GjFlock.Asks (fl : GjFlock) (b : Int) : Prop :=
  max fl.start.toInt 0 ≤ b ∧ (fl.len.toInt = 0 ∨ b < max fl.start.toInt 0 + fl.len.toInt)

instance (fl : GjFlock) (b : Int) : Decidable (fl.Asks b) := inferInstanceAs (Decidable (_ ∧ _))

def FlockType.mode : FlockType → Option LockType
  | .lock type => some type
  | _ => none

variable {emptyAtEnd : Prop} {tbl tbl' : LockTable} {fd fd' : I64} {pid pid' : U32}
  {type : LockType} {start stop b : Int} {i : Fin gjFlockMax} {fl : GjFlock}

theorem flockValidate_asks (valid : flockValidate fd fl = .ok (start, stop, pid)) :
    pid = fl.owner ∧ (b < i64Max → (b ∈ rangeBytes start stop ↔ fl.Asks b)) := by
  have owner : (if fl.pid ≠ 0 then fl.pid else 1) = fl.owner := rfl
  have first : (if fl.start.toInt < 0 then 0 else fl.start.toInt) = max fl.start.toInt 0 := by
    split_ifs <;> omega
  simp only [flockValidate, owner, first] at valid
  split_ifs at valid with badFd whence negative overflow empty
  obtain ⟨rfl, rfl, rfl⟩ := Prod.mk.inj (Except.ok.inj valid) |>.imp_right Prod.mk.inj
  refine ⟨rfl, fun below => ?_⟩
  rw [rangeOverflow] at overflow
  rw [rangeBytes, GjFlock.Asks, rangeEnd]
  by_cases eof : fl.len.toInt = 0
  · simp [eof, below, rangeNormEnd, gjFlockEof]
  · have fits : ¬ max fl.start.toInt 0 > i64Max - fl.len.toInt := by simpa [eof] using overflow
    rw [if_neg fits, rangeNormEnd_of_nonneg (by omega)]
    simp [eof]

/-! ### The map of a table -/

theorem lockAt_eq_some (ok : tbl.Ok emptyAtEnd) (below : b < i64Max) :
    tbl.lockAt fd pid b = some type ↔ tbl.Holds fd pid type b := by
  unfold LockTable.lockAt
  constructor
  · intro found
    obtain ⟨i, hit, rfl⟩ := Option.map_eq_some_iff.mp found
    have given : (tbl.lk i).Own fd pid ∧ (tbl.lk i).Covers b := by simpa using List.find?_some hit
    exact ⟨i, given.1, rfl, (covers_iff below).mp given.2⟩
  · rintro ⟨i, own, rfl, inside⟩
    have here := And.intro own ((covers_iff below).mpr inside)
    cases hit : (List.finRange gjFlockMax).find? fun i =>
        (tbl.lk i).Own fd pid ∧ (tbl.lk i).Covers b with
    | none => exact absurd (decide_eq_true here) (List.find?_eq_none.mp hit i (List.mem_finRange i))
    | some k =>
      obtain ⟨ownK, coversK⟩ : (tbl.lk k).Own fd pid ∧ (tbl.lk k).Covers b := by
        simpa using List.find?_some hit
      by_cases same : k = i
      · rw [same]
        rfl
      · have apart := ok.compatible.own k i _ _ (view_of_used ownK.1)
          (view_of_used own.1) same (ownK.2.1.trans own.2.1.symm)
          (ownK.2.2.trans own.2.2.symm)
        exact absurd inside (Set.disjoint_left.mp apart ((covers_iff below).mp coversK))

theorem LockTable.lockAt_congr (lk : tbl'.lk = tbl.lk) :
    tbl'.lockAt fd pid b = tbl.lockAt fd pid b := by
  rw [LockTable.lockAt, LockTable.lockAt, lk]

/-! ### Carving the map -/

theorem LockTable.holds_of_narrows {source : Fin gjFlockMax → Fin gjFlockMax}
    (narrows : Narrows tbl.view tbl'.view source) (holds : tbl'.Holds fd pid type b) :
    tbl.Holds fd pid type b := by
  obtain ⟨i, ⟨used, resource, owner⟩, mode, inside⟩ := holds
  obtain ⟨whole, root, within⟩ := narrows.within i _ (view_of_used used)
  obtain ⟨usedBefore, rfl⟩ := used_of_view root
  exact ⟨source i, ⟨usedBefore, within.resource.symm.trans resource,
    within.owner.symm.trans owner⟩, within.mode.symm.trans mode, within.extent inside⟩

/-- A byte that is not to be carved stays with its holder. -/
theorem CarveStep.keeps (step : CarveStep fd pid start stop tbl i (.ok (), tbl'))
    (ok : tbl.Ok emptyAtEnd) (carved : RangeOk True start stop)
    (holds : tbl.Holds fd' pid' type b)
    (outside : ¬ (fd' = fd ∧ pid' = pid ∧ b ∈ rangeBytes start stop)) :
    tbl'.Holds fd' pid' type b := by
  obtain ⟨k, gives⟩ := holds
  have normal := rangeNormEnd_of_nonneg carved.nonneg
  cases step with
  | skip => exact ⟨k, gives⟩
  | drop own meets left right => exact ⟨k, by rw [slotFree_lk own.1]; grind⟩
  | cutEnd own meets left right => exact ⟨k, by simp only [setLk]; grind⟩
  | cutStart own meets left right =>
    have after := (cut_after (ok.range i own.1) meets right).2.2.1
    exact ⟨k, by simp only [setLk]; grind⟩
  | split own meets left right j free tbl' lk =>
    have after := (cut_after (ok.range i own.1) meets right).2.2.1
    by_cases behind : k = i ∧ stop ≤ b
    · exact ⟨j, by rw [lk]; grind⟩
    · exact ⟨k, by rw [lk]; grind⟩

theorem carveLoop_keeps {slots : List (Fin gjFlockMax)} (ok : tbl.Ok emptyAtEnd)
    (carved : RangeOk True start stop)
    (done : carveLoop fd pid start stop slots tbl = (.ok (), tbl'))
    (holds : tbl.Holds fd' pid' type b)
    (outside : ¬ (fd' = fd ∧ pid' = pid ∧ b ∈ rangeBytes start stop)) :
    tbl'.Holds fd' pid' type b := by
  induction slots generalizing tbl with
  | nil =>
    cases done
    exact holds
  | cons i rest ih =>
    have step := carveSlot_step fd pid start stop tbl i
    have stepOk := step.ok ok carved
    rcases outcome : carveSlot fd pid start stop tbl i with ⟨err | ⟨⟩, mid⟩ <;>
      rw [outcome] at step stepOk <;> simp only [carveLoop, outcome] at done
    · cases done
    · exact ih stepOk done (step.keeps ok carved holds outside)

/-- A carve takes the range from the pid, and nothing else from anyone. -/
theorem carvePidRange_holds (ok : tbl.Ok emptyAtEnd) (range : RangeOk True start stop)
    (done : carvePidRange tbl fd pid start stop = (.ok (), tbl')) :
    tbl'.Holds fd' pid' type b ↔
      tbl.Holds fd' pid' type b ∧ ¬ (fd' = fd ∧ pid' = pid ∧ b ∈ rangeBytes start stop) := by
  obtain ⟨-, -, source, narrows⟩ := carvePidRange_ok ok range fd pid
  rw [done] at narrows
  refine ⟨fun holds => ⟨holds_of_narrows narrows holds, ?_⟩, fun holds => ?_⟩
  · rintro ⟨rfl, rfl, asked⟩
    obtain ⟨k, own, -, inside⟩ := holds
    exact Set.disjoint_left.mp (carvePidRange_clear ok range done k own) asked inside
  · exact carveLoop_keeps ok range done holds.1 holds.2

theorem Inserts.holds {req : LockReq} {carved filled : LockTable}
    (inserts : Inserts carved req filled) :
    filled.Holds fd pid type b ↔ (fd = req.fd ∧ pid = req.pid ∧ b ∈ rangeBytes req.start req.stop) ∧
      type = req.type ∨ carved.Holds fd pid type b := by
  obtain ⟨i, free, lk⟩ := inserts.lk
  rw [Holds, lk]
  constructor
  · rintro ⟨k, gives⟩
    by_cases here : k = i
    · exact .inl (by grind)
    · exact .inr ⟨k, by grind⟩
  · rintro (asked | ⟨k, gives⟩)
    · exact ⟨i, by grind⟩
    · exact ⟨k, by grind⟩

/-! ### The slots that a carve needs -/

/-- How many slots a carve leaves of a slot. -/
def FlockSlot.pieces (fd : I64) (pid : U32) (start stop : Int) (slot : FlockSlot) : Nat :=
  if slot.used = false then 0
  else if slot.Own fd pid ∧ rangesOverlap start stop slot.start slot.stop = true then
    (if slot.start < start then 1 else 0) +
      if rangeNormEnd stop < rangeNormEnd slot.stop then 1 else 0
  else 1

def LockTable.pieces (tbl : LockTable) (fd : I64) (pid : U32) (start stop : Int) : Nat :=
  ∑ i, (tbl.lk i).pieces fd pid start stop

variable {slot : FlockSlot}

theorem FlockSlot.pieces_of_meets (own : slot.Own fd pid)
    (meets : rangesOverlap start stop slot.start slot.stop = true) :
    slot.pieces fd pid start stop = (if slot.start < start then 1 else 0) +
      if rangeNormEnd stop < rangeNormEnd slot.stop then 1 else 0 := by
  simp [FlockSlot.pieces, own, own.1, meets]

theorem FlockSlot.pieces_of_clear (clear : slot.Clear fd pid start stop)
    (carved : RangeOk True start stop)
    (range : slot.used = true → RangeOk emptyAtEnd slot.start slot.stop) :
    slot.pieces fd pid start stop = if slot.used = true then 1 else 0 := by
  unfold FlockSlot.pieces
  cases used : slot.used with
  | false => rfl
  | true =>
    rw [if_neg (by decide), if_neg, if_pos rfl]
    rintro ⟨own, meets⟩
    rw [not_overlap_of_disjoint carved (range used).weaken (clear own)] at meets
    cases meets

theorem LockTable.pieces_update (lk : tbl'.lk = update tbl.lk i slot)
    (fd : I64) (pid : U32) (start stop : Int) :
    tbl'.pieces fd pid start stop + (tbl.lk i).pieces fd pid start stop =
      tbl.pieces fd pid start stop + (tbl'.lk i).pieces fd pid start stop := by
  have rest : ∑ k ∈ univ.erase i, (tbl'.lk k).pieces fd pid start stop =
      ∑ k ∈ univ.erase i, (tbl.lk k).pieces fd pid start stop := by
    refine sum_congr rfl fun k other => ?_
    rw [lk, update_of_ne (ne_of_mem_erase other)]
  unfold LockTable.pieces
  rw [← add_sum_erase _ _ (mem_univ i),
    ← add_sum_erase univ (fun k => (tbl.lk k).pieces _ _ _ _) (mem_univ i)]
  omega

/-- A carved slot leaves one slot for each side that it has beyond the range. -/
theorem CarveStep.pieces (step : CarveStep fd pid start stop tbl i (.ok (), tbl'))
    (ok : tbl.Ok emptyAtEnd) (carved : RangeOk True start stop) :
    tbl'.pieces fd pid start stop = tbl.pieces fd pid start stop := by
  have after (k : Fin gjFlockMax) (touched : k = i ∨ (tbl.lk k).used = false)
      (used : (tbl'.lk k).used = true) : (tbl'.lk k).pieces fd pid start stop = 1 := by
    rw [pieces_of_clear _ carved ((step.ok ok carved).range k), if_pos used]
    rcases step.clear ok carved k with ⟨other, same⟩ | clear
    · rw [same, touched.resolve_left other] at used
      cases used
    · exact clear
  have here := after i (.inl rfl)
  have rewritten {slot : FlockSlot} (lk : tbl'.lk = update tbl.lk i slot)
      (same : (tbl.lk i).pieces fd pid start stop = (tbl'.lk i).pieces fd pid start stop) :
      tbl'.pieces fd pid start stop = tbl.pieces fd pid start stop := by
    have change := pieces_update lk fd pid start stop
    omega
  cases step with
  | skip => rfl
  | drop own meets left right =>
    apply rewritten (slotFree_lk own.1)
    rw [pieces_of_meets own meets, if_neg left.not_gt, if_neg right.not_gt,
      slotFree_lk own.1, update_self]
    rfl
  | cutEnd own meets left right =>
    apply rewritten rfl
    rw [pieces_of_meets own meets, if_pos left, if_neg right.not_gt, here]
    simpa [setLk] using own.1
  | cutStart own meets left right =>
    apply rewritten rfl
    rw [pieces_of_meets own meets, if_neg left.not_gt, if_pos right, here]
    simpa [setLk] using own.1
  | split own meets left right j free tbl' lk =>
    have different : j ≠ i := by
      rintro rfl
      exact absurd (own.1.symm.trans free) (by decide)
    have filled := after j (.inr free) (by rw [lk, update_self])
    have first := here (by rw [lk, update_of_ne different.symm, update_self]; exact own.1)
    have lkLeft : (tbl.setLk i { tbl.lk i with stop := start }).lk =
      update tbl.lk i { tbl.lk i with stop := start } := rfl
    rw [← lkLeft] at lk
    have cut := pieces_update lkLeft fd pid start stop
    have grown := pieces_update lk fd pid start stop
    have unused : (tbl.lk j).pieces fd pid start stop = 0 := if_pos free
    rw [pieces_of_meets own meets, if_pos left, if_pos right,
      ← update_of_ne different.symm _ (tbl.setLk i _).lk, ← lk] at cut
    rw [lkLeft, update_of_ne different] at grown
    omega

/-- A range goes beyond the carved one on both sides, and there is no slot for its other half. -/
theorem pieces_of_full (ok : tbl.Ok emptyAtEnd) (carved : RangeOk True start stop)
    (own : (tbl.lk i).Own fd pid)
    (meets : rangesOverlap start stop (tbl.lk i).start (tbl.lk i).stop = true)
    (left : (tbl.lk i).start < start) (right : rangeNormEnd stop < rangeNormEnd (tbl.lk i).stop)
    (noSlot : ∀ k, (tbl.lk k).used = true) : gjFlockMax < tbl.pieces fd pid start stop := by
  have alone (k : Fin gjFlockMax) (other : k ≠ i) : (tbl.lk k).pieces fd pid start stop = 1 := by
    rw [pieces_of_clear (fun ownK => ?_) carved (ok.range k), if_pos (noSlot k)]
    have apart := ok.compatible.own k i _ _ (view_of_used ownK.1)
      (view_of_used own.1) other (ownK.2.1.trans own.2.1.symm)
      (ownK.2.2.trans own.2.2.symm)
    exact (apart.mono_right (Set.Ico_subset_Ico left.le right.le)).symm
  have both : (tbl.lk i).pieces fd pid start stop = 2 := by
    rw [pieces_of_meets own meets, if_pos left, if_pos right]
  have one : gjFlockMax = ∑ _k : Fin gjFlockMax, 1 := by simp
  rw [one]
  refine sum_lt_sum (fun k _ => ?_) ⟨i, mem_univ i, by omega⟩
  by_cases here : k = i
  · rw [here, both]
    decide
  · exact (alone k here).ge

theorem carveLoop_pieces {slots : List (Fin gjFlockMax)} {result : Except FlockErr Unit}
    (ok : tbl.Ok emptyAtEnd) (carved : RangeOk True start stop)
    (done : carveLoop fd pid start stop slots tbl = (result, tbl')) :
    (result = .ok () → tbl'.pieces fd pid start stop = tbl.pieces fd pid start stop) ∧
      (result ≠ .ok () → gjFlockMax < tbl.pieces fd pid start stop) := by
  induction slots generalizing tbl with
  | nil =>
    cases done
    exact ⟨fun _ => rfl, fun failed => absurd rfl failed⟩
  | cons i rest ih =>
    have step := carveSlot_step fd pid start stop tbl i
    have stepOk := step.ok ok carved
    rcases outcome : carveSlot fd pid start stop tbl i with ⟨err | ⟨⟩, mid⟩ <;>
      rw [outcome] at step stepOk <;> simp only [carveLoop, outcome] at done
    · cases step with
      | full own meets left right noSlot =>
        cases done
        exact ⟨by rintro ⟨⟩, fun _ => pieces_of_full ok carved own meets left right noSlot⟩
    · rw [← step.pieces ok carved]
      exact ih stepOk done

/-- A carve leaves no slot free exactly if its pieces take all of them. -/
theorem carvePidRange_full_iff (ok : tbl.Ok emptyAtEnd) (range : RangeOk True start stop)
    (done : carvePidRange tbl fd pid start stop = (.ok (), tbl')) :
    (∀ i, (tbl'.lk i).used = true) ↔ tbl.pieces fd pid start stop = gjFlockMax := by
  have carvedOk := (carvePidRange_ok ok range fd pid).1
  rw [done] at carvedOk
  have used : tbl'.pieces fd pid start stop = tbl'.usedSlots.card := by
    rw [usedSlots, card_filter]
    refine sum_congr rfl fun k _ => ?_
    exact pieces_of_clear (carvePidRange_clear ok range done k) range (carvedOk.range k)
  have all : tbl'.usedSlots.card = gjFlockMax ↔ tbl'.usedSlots = univ := by
    rw [← card_eq_iff_eq_univ, Fintype.card_fin]
  rw [← (carveLoop_pieces ok range done).1 rfl, used, all]
  simp [usedSlots]

/-! ### What a call makes of the map -/

/-- A request for a lock that nothing stands in the way of, on a byte that the caller holds, while
the pieces that a carve leaves take every slot. -/
def LockTable.Starves (tbl : LockTable) (fd : I64) (fl : GjFlock) : Prop :=
  ∃ start stop type, flockValidate fd fl = .ok (start, stop, fl.owner) ∧ fl.type = .lock type ∧
    (∀ i, ¬ (tbl.lk i).Blocks ⟨fd, type, start, stop, fl.owner⟩) ∧
    (∃ b < i64Max, fl.Asks b ∧ tbl.lockAt fd fl.owner b ≠ none) ∧
    tbl.pieces fd fl.owner start stop = gjFlockMax

/-- What a call comes to: it fails or waits and changes nothing, it does what it was asked, or it
finds no slot after its carve. -/
inductive SetEffect (tbl : LockTable) (fd : I64) (fl : GjFlock) : SetPass × LockTable → Prop
  | kept (outcome : SetPass) (after : LockTable) (notGranted : outcome ≠ .granted)
      (lk : after.lk = tbl.lk) (fine : ¬ tbl.Starves fd fl) : SetEffect tbl fd fl (outcome, after)
  | granted (after : LockTable) (ok : after.Ok True)
      (holds : ∀ fd' pid' type b, b < i64Max → (after.Holds fd' pid' type b ↔
        (fd' = fd ∧ pid' = fl.owner ∧ fl.Asks b) ∧ fl.type.mode = some type ∨
          ¬ (fd' = fd ∧ pid' = fl.owner ∧ fl.Asks b) ∧ tbl.Holds fd' pid' type b))
      (fine : ¬ tbl.Starves fd fl) : SetEffect tbl fd fl (.granted, after)
  | full (after : LockTable) (ok : after.Ok True)
      (holds : ∀ fd' pid' type b, b < i64Max → (after.Holds fd' pid' type b ↔
        tbl.Holds fd' pid' type b ∧ ¬ (fd' = fd ∧ pid' = fl.owner ∧ fl.Asks b)))
      (starves : (∃ b < i64Max, fl.Asks b ∧ tbl.lockAt fd fl.owner b ≠ none) →
        tbl.Starves fd fl) : SetEffect tbl fd fl (.refused .enolck, after)

theorem LockTable.holds_congr (lk : tbl'.lk = tbl.lk) :
    tbl'.Holds fd pid type b ↔ tbl.Holds fd pid type b := by
  rw [Holds, Holds, lk]

theorem PassStep.effect {block : Bool} {nWait : Option (Fin gjFlockMaxWaiters)}
    {result : SetPass × LockTable} (ok : tbl.Ok True)
    (valid : flockValidate fd fl = .ok (start, stop, fl.owner)) (kind : fl.type = .lock type)
    (step : PassStep tbl ⟨fd, type, start, stop, fl.owner⟩ block nWait result) :
    SetEffect tbl fd fl result := by
  have range := (flockValidate_range valid).2.1
  have afterOk := step.ok ok range
  have fine (enough : (∀ i, ¬ (tbl.lk i).Blocks ⟨fd, type, start, stop, fl.owner⟩) →
      tbl.pieces fd fl.owner start stop ≠ gjFlockMax) : ¬ tbl.Starves fd fl := by
    rintro ⟨start', stop', type', valid', kind', free, -, pieces⟩
    cases valid.symm.trans valid'
    cases kind.symm.trans kind'
    exact enough free pieces
  cases step with
  | eagain hit blocks | edeadlk hit blocks =>
    exact .kept _ _ nofun (waiterUnregister_lk ..) (fine fun free => absurd blocks (free hit))
  | registers hit blocks =>
    exact .kept _ _ nofun (waiterRegister_lk ..).1 (fine fun free => absurd blocks (free hit))
  | updates hit blocks =>
    exact .kept _ _ nofun (waiterUpdateBlocker_lk ..).1 (fine fun free => absurd blocks (free hit))
  | uncarved free err carved failed =>
    obtain rfl := carvePidRange_error ok range failed
    exact .kept _ _ nofun (waiterUnregister_lk ..)
      (fine fun _ => ((carveLoop_pieces ok range failed).2 nofun).ne')
  | full free carved done noSlot =>
    refine .full _ afterOk (fun fd' pid' type b below => ?_) fun held =>
      ⟨start, stop, type, valid, kind, free, held, (carvePidRange_full_iff ok range done).mp noSlot⟩
    rw [holds_congr (waiterUnregister_lk ..), carvePidRange_holds ok range done,
      (flockValidate_asks valid).2 below]
  | granted free carved filled done inserts =>
    have merges := coalescePid_merges (inserts.ok ok range free done) fd fl.owner
    refine .granted _ afterOk (fun fd' pid' type b below => ?_) (fine fun _ => ?_)
    · apply (holds_congr (waiterUnregister_lk ..)).trans
      rw [merges.holds, inserts.holds, carvePidRange_holds ok range done,
        (flockValidate_asks valid).2 below, kind]
      by_cases asked : fd' = fd ∧ pid' = fl.owner ∧ fl.Asks b
      · simp [asked, FlockType.mode, eq_comm]
      · simp [asked]
    · obtain ⟨k, unused, -⟩ := inserts.lk
      rw [ne_eq, ← carvePidRange_full_iff ok range done]
      exact fun noSlot => nomatch (noSlot k).symm.trans unused

theorem fileLockSet_effect (ok : tbl.Ok True) (fd : I64) (fl : GjFlock) (block : Bool)
    (nWait : Option (Fin gjFlockMaxWaiters)) :
    SetEffect tbl fd fl (fileLockSet tbl fd fl block nWait) := by
  unfold fileLockSet
  rcases valid : flockValidate fd fl with err | ⟨start, stop, owner⟩
  · exact .kept _ _ nofun rfl fun ⟨_, _, _, valid', _⟩ => nomatch valid.symm.trans valid'
  · obtain rfl := (flockValidate_asks (b := 0) valid).1
    have range := (flockValidate_range valid).2.1
    have fine (other : ∀ type, fl.type ≠ .lock type) : ¬ tbl.Starves fd fl :=
      fun ⟨_, _, type, _, kind, _⟩ => other type kind
    cases kind : fl.type with
    | other => exact .kept _ _ nofun rfl (fine (by simp [kind]))
    | unlck =>
      have carvedOk := (carvePidRange_ok ok range fd fl.owner).1
      simp only [fileLockUnlock]
      rcases carve : carvePidRange tbl fd fl.owner start stop with ⟨err | ⟨⟩, carved⟩
      · obtain rfl := carvePidRange_error ok range carve
        exact .kept _ _ nofun rfl (fine (by simp [kind]))
      · rw [carve] at carvedOk
        refine .granted _ (carvedOk.congr rfl rfl) (fun fd' pid' type b below => ?_)
          (fine (by simp [kind]))
        apply (carvePidRange_holds ok range carve).trans
        rw [(flockValidate_asks valid).2 below]
        simp [kind, FlockType.mode, and_comm]
    | lock type => exact (fileLockSetPass_step ..).effect ok valid kind

/-! ### What is reported of a range -/

theorem toInt_ofInt_of_le {n : Int} (nonneg : 0 ≤ n) (le : n ≤ i64Max) :
    (BitVec.ofInt 64 n).toInt = n := by
  unfold i64Max at le
  exact BitVec.toInt_ofInt_eq_self (by decide) (by omega) (by omega)

theorem reported_range (range : RangeOk True slot.start slot.stop) {kind : FlockType} :
    let got : GjFlock :=
      { type := kind, whence := 0, start := BitVec.ofInt 64 slot.start
        len := if slot.stop < 0 then 0 else BitVec.ofInt 64 (slot.stop - slot.start)
        pid := slot.pid }
    got.start.toInt = slot.start ∧ ∀ b, got.Asks b ↔ slot.Covers b := by
  have nonneg := range.nonneg
  have le := range.start_le
  have top := rangeNormEnd_le range.stop_le
  have first := toInt_ofInt_of_le nonneg (le.trans top)
  refine ⟨first, fun b => ?_⟩
  simp only [GjFlock.Asks, Covers, first, max_eq_left nonneg]
  split_ifs with eof
  · simp [eof]
  · have finite := rangeNormEnd_of_nonneg (not_lt.mp eof)
    have nonempty := range.nonempty
    rw [toInt_ofInt_of_le (by omega) (by omega)]
    refine and_congr_right fun _ => ?_
    omega

section Runs

variable {T : Type u} [DecidableEq T] {st : LockSys T}

/-- Whenever `file_lock_set` returns 0, the bytes that it was asked for are held as asked, or by
nobody after an unlock, and every other byte is held as before. -/
theorem fileLockSet_lockAt (runs : LockRuns (fun _ _ => True) init st) {block : Bool}
    {nWait : Option (Fin gjFlockMaxWaiters)}
    (done : (fileLockSet st.tbl fd fl block nWait).1 = .granted) (fd' : I64) (pid' : U32)
    (below : b < i64Max) :
    (fileLockSet st.tbl fd fl block nWait).2.lockAt fd' pid' b =
      if fd' = fd ∧ pid' = fl.owner ∧ fl.Asks b then fl.type.mode
      else st.tbl.lockAt fd' pid' b := by
  have ok := (runs.ok (init_ok True) fun _ _ _ => .inl trivial).tbl
  have effect := fileLockSet_effect ok fd fl block nWait
  generalize fileLockSet st.tbl fd fl block nWait = result at *
  cases effect with
  | kept outcome after notGranted => exact absurd done notGranted
  | full => cases done
  | granted after afterOk holds =>
    ext type
    rw [lockAt_eq_some afterOk below, holds fd' pid' type b below, ← lockAt_eq_some ok below]
    split_ifs with asked <;> simp [asked]

theorem fileLockSet_lockAt_upgraded :
    ∃ st, LockRuns (fun _ _ => True) (init : LockSys (Fin 6)) st ∧
      st.tbl.lockAt 3 1 65 = some .rdlck ∧ ∀ b < i64Max,
        (fileLockSet st.tbl 3 (sampleFlock (.lock .wrlck) 50 20 1) false none).2.lockAt 3 1 b =
          if 50 ≤ b ∧ b < 70 then some .wrlck else st.tbl.lockAt 3 1 b := by
  have taken : ((init : LockSys (Fin 6)).after (fun _ _ => true) sampleShared).map
      (fun st => ((fileLockSet st.tbl 3 (sampleFlock (.lock .wrlck) 50 20 1) false none).1,
        st.tbl.lockAt 3 1 65)) = some (.granted, some .rdlck) := by
    decide +kernel
  obtain ⟨st, runs, values⟩ := LockRuns.of_after taken
  obtain ⟨done, held⟩ := Prod.mk.inj values
  refine ⟨st, runs, held, fun b below => ?_⟩
  rw [fileLockSet_lockAt runs done 3 1 below]
  simp [sampleFlock, GjFlock.owner, GjFlock.Asks, FlockType.mode]

/-- A call that fails leaves the byte map alone, unless the request starves. -/
theorem fileLockSet_failure_keeps_iff (runs : LockRuns (fun _ _ => True) init st)
    (fd : I64) (fl : GjFlock) (block : Bool) (nWait : Option (Fin gjFlockMaxWaiters)) :
    (∀ err, (fileLockSet st.tbl fd fl block nWait).1 = .refused err → ∀ fd' pid' b, b < i64Max →
        (fileLockSet st.tbl fd fl block nWait).2.lockAt fd' pid' b = st.tbl.lockAt fd' pid' b) ↔
      ¬ st.tbl.Starves fd fl := by
  have ok := (runs.ok (init_ok True) fun _ _ _ => .inl trivial).tbl
  have effect := fileLockSet_effect ok fd fl block nWait
  generalize fileLockSet st.tbl fd fl block nWait = result at *
  cases effect with
  | kept outcome after notGranted lk fine =>
    exact iff_of_true (fun _ _ _ _ _ _ => lockAt_congr lk) fine
  | granted after afterOk holds fine => exact iff_of_true nofun fine
  | full after afterOk holds starves =>
    constructor
    · rintro keeps ⟨-, -, -, -, -, -, ⟨b, below, asked, held⟩, -⟩
      obtain ⟨type, held⟩ := Option.ne_none_iff_exists'.mp held
      have lost := (lockAt_eq_some afterOk below).mp ((keeps _ rfl fd fl.owner b below).trans held)
      exact ((holds _ _ _ _ below).mp lost).2 ⟨rfl, rfl, asked⟩
    · intro fine err _ fd' pid' b below
      ext type
      rw [lockAt_eq_some afterOk below, holds fd' pid' type b below, ← lockAt_eq_some ok below]
      apply and_iff_left_of_imp
      rintro held ⟨rfl, rfl, asked⟩
      exact fine (starves ⟨b, below, asked, by simp [held]⟩)

/-- As many processes as the table has slots, each with ten bytes of its own. -/
def sampleFull : List (LockAct (Fin 6)) :=
  (List.range gjFlockMax).flatMap fun k =>
    sampleSet 0 (.lock .wrlck) (.ofNat 64 (10 * k)) 10 (.ofNat 32 (k + 1)) ++ [.wake 0 ∅]

def sampleDowngrade : GjFlock := sampleFlock (.lock .rdlck) 5 5 1

theorem sampleFull_loses : ((init : LockSys (Fin 6)).after (fun _ _ => true) sampleFull).map
    (fun st => ((fileLockSet st.tbl 3 sampleDowngrade false none).1, st.tbl.lockAt 3 1 7,
      (fileLockSet st.tbl 3 sampleDowngrade false none).2.lockAt 3 1 7)) =
    some (.refused .enolck, some .wrlck, none) := by
  decide +kernel

theorem fileLockSet_failure_loses :
    ∃ st, LockRuns (fun _ _ => True) (init : LockSys (Fin 6)) st ∧
      (fileLockSet st.tbl 3 sampleDowngrade false none).1 = .refused .enolck ∧
      st.tbl.lockAt 3 1 7 = some .wrlck ∧
      (fileLockSet st.tbl 3 sampleDowngrade false none).2.lockAt 3 1 7 = none := by
  obtain ⟨st, runs, values⟩ := LockRuns.of_after sampleFull_loses
  exact ⟨st, runs, (Prod.mk.inj values).imp_right Prod.mk.inj⟩

theorem fileLockSet_failure_keeps_iff_full :
    ∃ st, LockRuns (fun _ _ => True) (init : LockSys (Fin 6)) st ∧
      st.tbl.Starves 3 sampleDowngrade := by
  obtain ⟨st, runs, values⟩ := LockRuns.of_after sampleFull_loses
  obtain ⟨refused, held, lost⟩ := (Prod.mk.inj values).imp_right Prod.mk.inj
  refine ⟨st, runs, by_contra fun fine => ?_⟩
  have keeps := (fileLockSet_failure_keeps_iff runs 3 sampleDowngrade false none).mpr fine _ refused
    3 1 7 (by decide)
  cases lost.symm.trans (keeps.trans held)

/-- `file_lock_get` reports no lock exactly if `file_lock_set` would not return `-EAGAIN`, and
otherwise the first range in the way, a write lock if one starts there, byte for byte. -/
theorem fileLockGet_agrees (runs : LockRuns (fun _ _ => True) init st)
    (valid : flockValidate fd fl = .ok (start, stop, pid)) (kind : fl.type = .lock type) :
    ∃ got, fileLockGet st.tbl fd fl = .ok got ∧
      (got.type = .unlck ↔ (fileLockSet st.tbl fd fl false none).1 ≠ .refused .eagain) ∧
      (got.type ≠ .unlck → ∃ i, (st.tbl.lk i).Blocks ⟨fd, type, start, stop, pid⟩ ∧
        (∀ k, (st.tbl.lk k).Blocks ⟨fd, type, start, stop, pid⟩ →
          (st.tbl.lk i).Ahead (st.tbl.lk k)) ∧
        got.type = .lock (st.tbl.lk i).type ∧ got.pid = (st.tbl.lk i).pid ∧
        got.start.toInt = (st.tbl.lk i).start ∧ ∀ b, got.Asks b ↔ (st.tbl.lk i).Covers b) := by
  have ok := (runs.ok (init_ok True) fun _ _ _ => .inl trivial).tbl
  have range := (flockValidate_range valid).2.1
  simp only [fileLockGet, fileLockSet, valid, kind]
  cases found : conflict st.tbl ⟨fd, type, start, stop, pid⟩ with
  | none =>
    refine ⟨_, rfl, iff_of_true rfl fun refused => ?_, fun locked => absurd rfl locked⟩
    have step := fileLockSetPass_step st.tbl ⟨fd, type, start, stop, pid⟩ false none
    generalize fileLockSetPass st.tbl ⟨fd, type, start, stop, pid⟩ false none = result at *
    cases step with
    | eagain hit blocks => exact conflict_eq_none found hit blocks
    | uncarved _ err carved failed =>
      rw [(carveLoop_error ok range failed).2.1] at refused
      cases refused
    | _ => cases refused
  | some hit =>
    obtain ⟨blocks, ahead⟩ := conflict_eq_some found
    refine ⟨_, rfl, iff_of_false nofun fun granted => granted ?_, fun _ =>
      ⟨hit, blocks, ahead, rfl, rfl, ?_⟩⟩
    · simp [fileLockSetPass, found]
    · exact reported_range (ok.range hit blocks.1)

theorem fileLockGet_agrees_shared :
    ∃ st, LockRuns (fun _ _ => True) (init : LockSys (Fin 6)) st ∧
      (fileLockSet st.tbl 3 (sampleFlock (.lock .rdlck) 150 90 1) false none).1 =
        .refused .eagain ∧
      ∃ got, fileLockGet st.tbl 3 (sampleFlock (.lock .rdlck) 150 90 1) = .ok got ∧
        got.type ≠ .unlck := by
  have refused : ((init : LockSys (Fin 6)).after (fun _ _ => true) sampleShared).map
      (fun st => (fileLockSet st.tbl 3 (sampleFlock (.lock .rdlck) 150 90 1) false none).1) =
      some (.refused .eagain) := by
    decide +kernel
  obtain ⟨st, runs, refused⟩ := LockRuns.of_after refused
  have valid : flockValidate 3 (sampleFlock (.lock .rdlck) 150 90 1) = .ok (150, 240, 1) := by
    decide
  obtain ⟨got, reported, agrees, -⟩ := fileLockGet_agrees runs valid rfl
  exact ⟨st, runs, refused, got, reported, fun free => agrees.mp free refused⟩

end Runs

end GreenJade.Fs

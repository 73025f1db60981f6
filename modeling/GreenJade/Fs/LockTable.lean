import GreenJade.Fs.FileLock
import GreenJade.Lib.RangeTable
import Mathlib.Data.Finset.Card
import Mathlib.Data.Fintype.Basic

/-! Owns the invariant of the lock table: ranges of one pid are disjoint, ranges of different
pids that meet are both read locks, and the counter counts the slots in use. Every function that
runs under the spinlock keeps it. A range is empty only if it starts at the greatest offset, which
a request to the end of the file may ask for. -/

namespace GreenJade.Fs

open Function RangeTable List BitVec Bool Finset LockTable FlockSlot

/-! ### Ranges -/

/-- A range as it may be requested and stored. -/
structure RangeOk (emptyAtEnd : Prop) (start stop : Int) : Prop where
  nonneg : 0 ≤ start
  stop_le : stop ≤ i64Max
  nonempty : start < rangeNormEnd stop ∨ (emptyAtEnd ∧ start = i64Max ∧ stop < 0)

def rangeBytes (start stop : Int) : Set Int := Set.Ico start (rangeNormEnd stop)

section Ranges

variable {emptyAtEnd : Prop} {start stop start' stop' : Int}

theorem rangeNormEnd_of_nonneg (nonneg : 0 ≤ stop) : rangeNormEnd stop = stop := if_neg (by omega)

theorem rangeNormEnd_le (bound : stop ≤ i64Max) : rangeNormEnd stop ≤ i64Max := by
  unfold rangeNormEnd
  split_ifs
  · exact le_rfl
  · exact bound

theorem rangeNormEnd_nonneg (stop : Int) : 0 ≤ rangeNormEnd stop := by
  unfold rangeNormEnd i64Max
  split_ifs <;> omega

/-- A normalised end below the greatest offset is the end itself. -/
theorem rangeNormEnd_of_lt (below : rangeNormEnd stop < i64Max) : 0 ≤ stop := by
  unfold rangeNormEnd at below
  split_ifs at below
  · exact absurd below (lt_irrefl _)
  · omega

theorem RangeOk.imp {emptyAtEnd' : Prop} (implies : emptyAtEnd → emptyAtEnd')
    (range : RangeOk emptyAtEnd start stop) : RangeOk emptyAtEnd' start stop :=
  ⟨range.nonneg, range.stop_le, range.nonempty.imp_right fun atEnd => ⟨implies atEnd.1, atEnd.2⟩⟩

theorem RangeOk.weaken (range : RangeOk emptyAtEnd start stop) : RangeOk True start stop :=
  range.imp fun _ => trivial

theorem RangeOk.start_le (range : RangeOk emptyAtEnd start stop) : start ≤ rangeNormEnd stop := by
  rcases range.nonempty with nonempty | ⟨-, atEnd, eof⟩
  · exact nonempty.le
  · rw [rangeNormEnd, if_pos eof]
    exact atEnd.le

theorem disjoint_of_le (before : rangeNormEnd stop ≤ start') :
    Disjoint (rangeBytes start stop) (rangeBytes start' stop') := by
  rw [Set.disjoint_left]
  rintro b ⟨-, below⟩ ⟨above, -⟩
  omega

theorem disjoint_of_not_overlap (apart : rangesOverlap start stop start' stop' = false) :
    Disjoint (rangeBytes start stop) (rangeBytes start' stop') := by
  rw [Set.disjoint_left]
  rintro b ⟨first, second⟩ ⟨third, fourth⟩
  simp only [rangesOverlap, decide_eq_false_iff_not] at apart
  omega

theorem not_overlap_of_disjoint (range : RangeOk emptyAtEnd start stop)
    (range' : RangeOk emptyAtEnd start' stop')
    (disjoint : Disjoint (rangeBytes start stop) (rangeBytes start' stop')) :
    rangesOverlap start stop start' stop' = false := by
  have le := rangeNormEnd_le range.stop_le
  have le' := rangeNormEnd_le range'.stop_le
  have shape := range.nonempty
  have shape' := range'.nonempty
  rw [rangesOverlap, decide_eq_false_iff_not]
  rintro ⟨first, second⟩
  have member : max start start' ∈ rangeBytes start stop := ⟨le_max_left _ _, by omega⟩
  have member' : max start start' ∈ rangeBytes start' stop' := ⟨le_max_right _ _, by omega⟩
  exact Set.disjoint_left.mp disjoint member member'

end Ranges

theorem typesConflict_comm (a b : LockType) : typesConflict a b = typesConflict b a := by
  cases a <;> cases b <;> rfl

/-! ### The table as a table of ranges -/

def FlockSlot.held (slot : FlockSlot) : Held I64 U32 LockType Int where
  resource := slot.fd
  owner := slot.pid
  mode := slot.type
  extent := rangeBytes slot.start slot.stop

/-- The ranges that are held, by slot. -/
def LockTable.view (tbl : LockTable) (i : Fin gjFlockMax) : Option (Held I64 U32 LockType Int) :=
  if (tbl.lk i).used then some (tbl.lk i).held else none

def LockTable.usedSlots (tbl : LockTable) : Finset (Fin gjFlockMax) :=
  univ.filter fun i => (tbl.lk i).used = true

/-- A slot that gives a pid the byte of a descriptor in a mode. -/
def FlockSlot.Gives (slot : FlockSlot) (fd : I64) (pid : U32) (type : LockType) (b : Int) : Prop :=
  slot.Own fd pid ∧ slot.type = type ∧ b ∈ rangeBytes slot.start slot.stop

def LockTable.Holds (tbl : LockTable) (fd : I64) (pid : U32) (type : LockType) (b : Int) : Prop :=
  ∃ i, (tbl.lk i).Gives fd pid type b

attribute [grind] rangeBytes Own FlockSlot.Gives

/-- What holds of the lock table between any two critical sections. -/
structure LockTable.Ok (emptyAtEnd : Prop) (tbl : LockTable) : Prop where
  range : ∀ i, (tbl.lk i).used = true → RangeOk emptyAtEnd (tbl.lk i).start (tbl.lk i).stop
  compatible : Compatible (fun a b => typesConflict a b = true) tbl.view
  count : tbl.nLocks = BitVec.ofNat 32 tbl.usedSlots.card

section View

variable {tbl tbl' : LockTable} {i : Fin gjFlockMax}

theorem LockTable.view_of_used (used : (tbl.lk i).used = true) :
    tbl.view i = some (tbl.lk i).held :=
  if_pos used

theorem LockTable.view_of_free (free : (tbl.lk i).used = false) : tbl.view i = none :=
  if_neg (by rw [free]; exact false_ne_true)

theorem LockTable.used_of_view {held : Held I64 U32 LockType Int} (entry : tbl.view i = some held) :
    (tbl.lk i).used = true ∧ (tbl.lk i).held = held := by
  unfold LockTable.view at entry
  split_ifs at entry with used
  exact ⟨used, Option.some.inj entry⟩

theorem LockTable.view_congr (lk : tbl'.lk = tbl.lk) : tbl'.view = tbl.view := by
  funext k
  rw [LockTable.view, LockTable.view, lk]

theorem LockTable.usedSlots_congr (lk : tbl'.lk = tbl.lk) : tbl'.usedSlots = tbl.usedSlots := by
  rw [LockTable.usedSlots, LockTable.usedSlots, lk]

variable {slot : FlockSlot}

theorem LockTable.view_update (lk : tbl'.lk = update tbl.lk i slot) :
    tbl'.view = update tbl.view i (if slot.used then some slot.held else none) := by
  funext k
  rw [update_apply]
  split_ifs <;> simp_all [LockTable.view]

/-- The waiters and the generation do not matter. -/
theorem LockTable.Ok.congr {emptyAtEnd : Prop} (ok : tbl.Ok emptyAtEnd) (lk : tbl'.lk = tbl.lk)
    (nLocks : tbl'.nLocks = tbl.nLocks) : tbl'.Ok emptyAtEnd where
  range k used := by
    rw [lk] at used ⊢
    exact ok.range k used
  compatible := by
    rw [view_congr lk]
    exact ok.compatible
  count := by
    rw [nLocks, usedSlots_congr lk]
    exact ok.count

theorem usedSlots_card_le (tbl : LockTable) : tbl.usedSlots.card ≤ 32 :=
  (card_filter_le _ _).trans (by simp)

section

variable (lk : tbl'.lk = update tbl.lk i slot)
include lk

theorem LockTable.usedSlots_same (same : slot.used = (tbl.lk i).used) :
    tbl'.usedSlots = tbl.usedSlots := by
  ext k
  simp only [LockTable.usedSlots, Finset.mem_filter, lk, update_apply]
  split_ifs with here
  · rw [here, same]
  · rfl

theorem LockTable.card_gain (free : (tbl.lk i).used = false) (used : slot.used = true) :
    tbl'.usedSlots.card = tbl.usedSlots.card + 1 := by
  have grown : tbl'.usedSlots = insert i tbl.usedSlots := by
    ext k
    simp only [LockTable.usedSlots, Finset.mem_filter, lk, update_apply, mem_insert]
    split_ifs with here
    · simp [here, used]
    · simp [here]
  rw [grown, card_insert_of_notMem (by simp [LockTable.usedSlots, free])]

theorem LockTable.card_loss (used : (tbl.lk i).used = true) (free : slot.used = false) :
    tbl'.usedSlots.card + 1 = tbl.usedSlots.card := by
  have shrunk : tbl'.usedSlots = tbl.usedSlots.erase i := by
    ext k
    simp only [LockTable.usedSlots, Finset.mem_filter, lk, update_apply, mem_erase]
    split_ifs with here
    · simp [here, free]
    · simp [here]
  rw [shrunk]
  exact card_erase_add_one (by simp [LockTable.usedSlots, used])

end

end View

/-! ### Slots -/

section Slots

variable {emptyAtEnd : Prop} {tbl : LockTable} {i j : Fin gjFlockMax}

theorem LockTable.Ok.rewrite (ok : tbl.Ok emptyAtEnd) {slot : FlockSlot}
    (same : slot.used = (tbl.lk i).used) (range : RangeOk emptyAtEnd slot.start slot.stop)
    (compatible : Compatible (fun a b => typesConflict a b = true) (tbl.setLk i slot).view) :
    (tbl.setLk i slot).Ok emptyAtEnd := by
  have lk : (tbl.setLk i slot).lk = update tbl.lk i slot := rfl
  refine ⟨?_, compatible, ?_⟩
  · intro k used
    rw [lk, update_apply] at used ⊢
    split_ifs at used ⊢
    · exact range
    · exact ok.range k used
  · rw [usedSlots_same lk same]
    exact ok.count

theorem slotFree_lk (used : (tbl.lk i).used = true) :
    (slotFree tbl i).lk = update tbl.lk i { tbl.lk i with used := false } := by
  unfold slotFree
  rw [if_neg (by rw [used]; exact true_eq_false.mp)]
  rfl

theorem slotFree_wait (tbl : LockTable) (i : Fin gjFlockMax) :
    (slotFree tbl i).wait = tbl.wait := by
  unfold slotFree
  split_ifs <;> rfl

theorem slotFree_view (tbl : LockTable) (i : Fin gjFlockMax) :
    (slotFree tbl i).view = update tbl.view i none := by
  cases used : (tbl.lk i).used with
  | true => exact (view_update (slotFree_lk used)).trans rfl
  | false =>
    unfold slotFree
    rw [if_pos used, ← view_of_free used, update_eq_self]

theorem slotFree_count (count : tbl.nLocks = BitVec.ofNat 32 tbl.usedSlots.card)
    (i : Fin gjFlockMax) :
    (slotFree tbl i).nLocks = BitVec.ofNat 32 (slotFree tbl i).usedSlots.card := by
  cases used : (tbl.lk i).used with
  | false =>
    unfold slotFree
    rw [if_pos used]
    exact count
  | true =>
    have loss := card_loss (slotFree_lk used) used rfl
    have bound := usedSlots_card_le tbl
    have nLocks : (slotFree tbl i).nLocks =
        if 0 < tbl.nLocks then tbl.nLocks - 1 else tbl.nLocks := by
      unfold slotFree
      rw [if_neg (by rw [used]; exact true_eq_false.mp)]
    rw [nLocks, count, ← loss]
    generalize (slotFree tbl i).usedSlots.card = n at loss
    have positive : (0 : U32) < BitVec.ofNat 32 (n + 1) := by
      rw [lt_def, toNat_ofNat, Nat.mod_eq_of_lt (by omega : n + 1 < 2 ^ 32)]
      exact Nat.succ_pos n
    rw [if_pos positive, ofNat_add]
    exact add_sub_cancel _ _

theorem slotFree_lk_of_used {k : Fin gjFlockMax} (used : ((slotFree tbl i).lk k).used = true) :
    (slotFree tbl i).lk k = tbl.lk k := by
  cases before : (tbl.lk i).used with
  | false =>
    unfold slotFree
    rw [if_pos before]
  | true =>
    rw [slotFree_lk before, update_apply] at used ⊢
    split_ifs at used ⊢
    rfl

theorem slotFree_range (range : ∀ k, (tbl.lk k).used = true →
      RangeOk emptyAtEnd (tbl.lk k).start (tbl.lk k).stop) (i k : Fin gjFlockMax)
    (used : ((slotFree tbl i).lk k).used = true) :
    RangeOk emptyAtEnd ((slotFree tbl i).lk k).start ((slotFree tbl i).lk k).stop := by
  have same := slotFree_lk_of_used used
  rw [same] at used ⊢
  exact range k used

theorem LockTable.Ok.slotFree (ok : tbl.Ok emptyAtEnd) (i : Fin gjFlockMax) :
    (slotFree tbl i).Ok emptyAtEnd where
  range := slotFree_range ok.range i
  compatible := by
    rw [slotFree_view]
    exact (Narrows.erase tbl.view i).compatible ok.compatible
  count := slotFree_count ok.count i

/-- What `slot_alloc` and the `slot_fill` after it come to. -/
theorem slotAlloc_cases (tbl : LockTable) : (slotAlloc tbl = none ∧ ∀ i, (tbl.lk i).used = true) ∨
    ∃ i taken, slotAlloc tbl = some (i, taken) ∧ (tbl.lk i).used = false ∧
      taken = { tbl.setLk i { tbl.lk i with used := true } with nLocks := tbl.nLocks + 1 } := by
  unfold slotAlloc
  cases found : (List.finRange gjFlockMax).find? fun i => !(tbl.lk i).used with
  | none =>
    refine .inl ⟨rfl, fun i => ?_⟩
    simpa using find?_eq_none.mp found i (mem_finRange i)
  | some i =>
    have free : (tbl.lk i).used = false := by simpa using find?_some found
    exact .inr ⟨i, _, rfl, free, rfl⟩

/-- A free slot takes a range that meets no other of its pid and none of another pid that it
conflicts with. -/
theorem LockTable.Ok.insert (ok : tbl.Ok emptyAtEnd) {tbl' : LockTable} {slot : FlockSlot}
    (free : (tbl.lk i).used = false) (used : slot.used = true)
    (range : RangeOk emptyAtEnd slot.start slot.stop)
    (own : ∀ k a, tbl.view k = some a → a.resource = slot.fd → a.owner = slot.pid →
      Disjoint (rangeBytes slot.start slot.stop) a.extent)
    (others : ∀ k a, tbl.view k = some a → a.resource = slot.fd → a.owner ≠ slot.pid →
      typesConflict slot.type a.mode = true → Disjoint (rangeBytes slot.start slot.stop) a.extent)
    (lk : tbl'.lk = update tbl.lk i slot) (nLocks : tbl'.nLocks = tbl.nLocks + 1) :
    tbl'.Ok emptyAtEnd := by
  refine ⟨?_, ?_, ?_⟩
  · intro k usedAfter
    rw [lk, update_apply] at usedAfter ⊢
    split_ifs at usedAfter ⊢
    · exact range
    · exact ok.range k usedAfter
  · rw [view_update lk, if_pos used]
    refine ok.compatible.insert (fun m n clash => ?_) i slot.held own others
    rw [typesConflict_comm]
    exact clash
  · rw [nLocks, ok.count, card_gain lk free used, ofNat_add]
    rfl

end Slots

/-! ### Carving -/

section Carve

variable {emptyAtEnd : Prop} {fd : I64} {pid : U32} {start stop : Int}
  {tbl tbl' : LockTable} {i : Fin gjFlockMax}

/-- A slot that holds nothing of the range for the pid. -/
def FlockSlot.Clear (slot : FlockSlot) (fd : I64) (pid : U32) (start stop : Int) : Prop :=
  slot.Own fd pid → Disjoint (rangeBytes start stop) (rangeBytes slot.start slot.stop)

inductive CarveStep (fd : I64) (pid : U32) (start stop : Int) (tbl : LockTable)
    (i : Fin gjFlockMax) : Except FlockErr Unit × LockTable → Prop
  | skip (clear : (tbl.lk i).Clear fd pid start stop) :
      CarveStep fd pid start stop tbl i (.ok (), tbl)
  | drop (own : (tbl.lk i).Own fd pid)
      (meets : rangesOverlap start stop (tbl.lk i).start (tbl.lk i).stop = true)
      (left : start ≤ (tbl.lk i).start) (right : rangeNormEnd (tbl.lk i).stop ≤ rangeNormEnd stop) :
      CarveStep fd pid start stop tbl i (.ok (), slotFree tbl i)
  | full (own : (tbl.lk i).Own fd pid)
      (meets : rangesOverlap start stop (tbl.lk i).start (tbl.lk i).stop = true)
      (left : (tbl.lk i).start < start)
      (right : rangeNormEnd stop < rangeNormEnd (tbl.lk i).stop)
      (noSlot : ∀ k, (tbl.lk k).used = true) :
      CarveStep fd pid start stop tbl i (.error .enolck, tbl)
  | split (own : (tbl.lk i).Own fd pid)
      (meets : rangesOverlap start stop (tbl.lk i).start (tbl.lk i).stop = true)
      (left : (tbl.lk i).start < start)
      (right : rangeNormEnd stop < rangeNormEnd (tbl.lk i).stop) (j : Fin gjFlockMax)
      (free : (tbl.lk j).used = false) (tbl' : LockTable)
      (lk : tbl'.lk = update (update tbl.lk i { tbl.lk i with stop := start }) j
        { used := true, fd, type := (tbl.lk i).type, start := stop, stop := (tbl.lk i).stop, pid })
      (nLocks : tbl'.nLocks = tbl.nLocks + 1) (wait : tbl'.wait = tbl.wait) :
      CarveStep fd pid start stop tbl i (.ok (), tbl')
  | cutEnd (own : (tbl.lk i).Own fd pid)
      (meets : rangesOverlap start stop (tbl.lk i).start (tbl.lk i).stop = true)
      (left : (tbl.lk i).start < start) (right : rangeNormEnd (tbl.lk i).stop ≤ rangeNormEnd stop) :
      CarveStep fd pid start stop tbl i (.ok (), tbl.setLk i { tbl.lk i with stop := start })
  | cutStart (own : (tbl.lk i).Own fd pid)
      (meets : rangesOverlap start stop (tbl.lk i).start (tbl.lk i).stop = true)
      (left : start ≤ (tbl.lk i).start) (right : rangeNormEnd stop < rangeNormEnd (tbl.lk i).stop) :
      CarveStep fd pid start stop tbl i (.ok (), tbl.setLk i { tbl.lk i with start := stop })

theorem carveSlot_step (fd : I64) (pid : U32) (start stop : Int) (tbl : LockTable)
    (i : Fin gjFlockMax) :
    CarveStep fd pid start stop tbl i (carveSlot fd pid start stop tbl i) := by
  unfold carveSlot
  by_cases own : (tbl.lk i).Own fd pid
  · rw [if_neg (not_not_intro own)]
    cases meets : rangesOverlap start stop (tbl.lk i).start (tbl.lk i).stop with
    | false =>
      exact .skip fun _ => disjoint_of_not_overlap meets
    | true =>
      rw [if_neg (true_eq_false.mp)]
      by_cases left : (tbl.lk i).start < start <;>
        by_cases right : rangeNormEnd stop < rangeNormEnd (tbl.lk i).stop
      · simp only [left, right, decide_true, Bool.not_true, Bool.and_self, false_eq_true,
          if_false, if_true]
        split_ifs with room
        · refine .full own meets left right fun k => ?_
          simpa using countP_eq_zero.mp (Nat.lt_one_iff.mp room) k (mem_finRange k)
        · rcases slotAlloc_cases (tbl.setLk i { tbl.lk i with stop := start }) with
            ⟨none, noSlot⟩ | ⟨j, taken, some, free, rfl⟩
          · rw [none]
            refine .full own meets left right fun k => ?_
            have used := noSlot k
            simp only [setLk, update_apply] at used
            split_ifs at used with here
            · exact here ▸ used
            · exact used
          · rw [some]
            have different : j ≠ i := by
              rintro rfl
              have used := own.1
              simp only [setLk, update_self] at free
              rw [used] at free
              cases free
            refine .split own meets left right j ?_ _ ?_ rfl rfl
            · simpa [setLk, different] using free
            · simp [slotFill, setLk]
      · simp only [left, right, decide_true, decide_false, Bool.not_true, Bool.and_false,
        false_eq_true, if_false, if_true]
        exact .cutEnd own meets left (not_lt.mp right)
      · simp only [left, right, decide_true, decide_false, Bool.not_true, Bool.and_false,
        false_eq_true, if_false]
        exact .cutStart own meets (not_lt.mp left) right
      · simp only [left, right]
        exact .drop own meets (not_lt.mp left) (not_lt.mp right)
  · rw [if_pos own]
    exact .skip fun here => absurd here own

theorem FlockSlot.held_within {slot part : FlockSlot} (fd : part.fd = slot.fd)
    (pid : part.pid = slot.pid) (type : part.type = slot.type) (start : slot.start ≤ part.start)
    (stop : rangeNormEnd part.stop ≤ rangeNormEnd slot.stop) : part.held.Within slot.held :=
  ⟨fd, pid, type, Set.Ico_subset_Ico start stop⟩

theorem overlap_lt (meets : rangesOverlap start stop (tbl.lk i).start (tbl.lk i).stop = true) :
    start < rangeNormEnd (tbl.lk i).stop ∧ (tbl.lk i).start < rangeNormEnd stop := by
  simpa [rangesOverlap] using meets

/-- What is left of a range before the carved one. -/
theorem cut_before (range : RangeOk emptyAtEnd (tbl.lk i).start (tbl.lk i).stop)
    (carved : RangeOk True start stop)
    (meets : rangesOverlap start stop (tbl.lk i).start (tbl.lk i).stop = true)
    (left : (tbl.lk i).start < start) :
    RangeOk emptyAtEnd (tbl.lk i).start start ∧ rangeNormEnd start ≤ rangeNormEnd (tbl.lk i).stop ∧
      Disjoint (rangeBytes start stop) (rangeBytes (tbl.lk i).start start) := by
  have meeting := overlap_lt meets
  have normal := rangeNormEnd_of_nonneg carved.nonneg
  have bound := rangeNormEnd_le range.stop_le
  refine ⟨⟨range.nonneg, by omega, .inl (by omega)⟩, by omega, ?_⟩
  exact (disjoint_of_le normal.le).symm

/-- What is left of a range after the carved one. -/
theorem cut_after (range : RangeOk emptyAtEnd (tbl.lk i).start (tbl.lk i).stop)
    (meets : rangesOverlap start stop (tbl.lk i).start (tbl.lk i).stop = true)
    (right : rangeNormEnd stop < rangeNormEnd (tbl.lk i).stop) :
    RangeOk emptyAtEnd stop (tbl.lk i).stop ∧ (tbl.lk i).start ≤ stop ∧ rangeNormEnd stop = stop ∧
      Disjoint (rangeBytes start stop) (rangeBytes stop (tbl.lk i).stop) := by
  have meeting := overlap_lt meets
  have bound := rangeNormEnd_le range.stop_le
  have finite := rangeNormEnd_of_lt (right.trans_le bound)
  have normal := rangeNormEnd_of_nonneg finite
  refine ⟨⟨finite, range.stop_le, .inl (by omega)⟩, by omega, normal, ?_⟩
  exact disjoint_of_le normal.le

variable {result : Except FlockErr Unit × LockTable}

theorem CarveStep.narrows (step : CarveStep fd pid start stop tbl i result)
    (ok : tbl.Ok emptyAtEnd) (carved : RangeOk True start stop) :
    ∃ source, Narrows tbl.view result.2.view source := by
  cases step with
  | skip | full => exact ⟨_, .refl tbl.view⟩
  | drop =>
    rw [slotFree_view]
    exact ⟨_, .erase tbl.view i⟩
  | cutEnd own meets left _ =>
    obtain ⟨-, inside, -⟩ := cut_before (ok.range i own.1) carved meets left
    have lk : (tbl.setLk i { tbl.lk i with stop := start }).lk =
      update tbl.lk i { tbl.lk i with stop := start } := rfl
    rw [view_update lk, if_pos own.1]
    exact ⟨_, .shrink (view_of_used own.1)
      (held_within rfl rfl rfl le_rfl inside)⟩
  | cutStart own meets _ right =>
    obtain ⟨-, inside, -, -⟩ := cut_after (ok.range i own.1) meets right
    have lk : (tbl.setLk i { tbl.lk i with start := stop }).lk =
      update tbl.lk i { tbl.lk i with start := stop } := rfl
    rw [view_update lk, if_pos own.1]
    exact ⟨_, .shrink (view_of_used own.1)
      (held_within rfl rfl rfl inside le_rfl)⟩
  | split own meets left right j free tbl' lk nLocks wait =>
    obtain ⟨-, insideLeft, -⟩ := cut_before (ok.range i own.1) carved meets left
    obtain ⟨-, insideRight, normal, -⟩ := cut_after (ok.range i own.1) meets right
    have lkLeft : (tbl.setLk i { tbl.lk i with stop := start }).lk =
      update tbl.lk i { tbl.lk i with stop := start } := rfl
    rw [← lkLeft] at lk
    rw [view_update lk, view_update lkLeft, if_pos own.1]
    refine ⟨_, .split (view_of_used own.1) (view_of_free free)
      (held_within rfl rfl rfl le_rfl insideLeft)
      (held_within own.2.1.symm own.2.2.symm rfl insideRight le_rfl) ?_⟩
    apply disjoint_of_le
    show rangeNormEnd start ≤ stop
    rw [rangeNormEnd_of_nonneg carved.nonneg, ← normal]
    exact carved.start_le

theorem clear_of_update {slot : FlockSlot} (lk : tbl'.lk = update tbl.lk i slot)
    (clear : slot.Clear fd pid start stop) (k : Fin gjFlockMax) :
    (k ≠ i ∧ tbl'.lk k = tbl.lk k) ∨ (tbl'.lk k).Clear fd pid start stop := by
  rw [lk]
  by_cases here : k = i
  · rw [here, update_self]
    exact .inr clear
  · rw [update_of_ne here]
    exact .inl ⟨here, rfl⟩

/-- No slot but the visited one and the one that a split fills is touched, and these are clear of
the carved range. -/
theorem CarveStep.clear (step : CarveStep fd pid start stop tbl i (.ok (), tbl'))
    (ok : tbl.Ok emptyAtEnd) (carved : RangeOk True start stop) (k : Fin gjFlockMax) :
    (k ≠ i ∧ tbl'.lk k = tbl.lk k) ∨ (tbl'.lk k).Clear fd pid start stop := by
  cases step with
  | skip clear =>
    by_cases here : k = i
    · rw [here]
      exact .inr clear
    · exact .inl ⟨here, rfl⟩
  | drop own meets => exact clear_of_update (slotFree_lk own.1) (fun here => nomatch here.1) k
  | cutEnd own meets left _ =>
    exact clear_of_update rfl (fun _ => (cut_before (ok.range i own.1) carved meets left).2.2) k
  | cutStart own meets _ right =>
    exact clear_of_update rfl (fun _ => (cut_after (ok.range i own.1) meets right).2.2.2) k
  | split own meets left right j free tbl' lk nLocks wait =>
    have lkLeft : (tbl.setLk i { tbl.lk i with stop := start }).lk =
      update tbl.lk i { tbl.lk i with stop := start } := rfl
    rw [← lkLeft] at lk
    rcases clear_of_update lk (fun _ => (cut_after (ok.range i own.1) meets right).2.2.2) k with
      ⟨-, same⟩ | clear
    · rw [same]
      exact clear_of_update lkLeft
        (fun _ => (cut_before (ok.range i own.1) carved meets left).2.2) k
    · exact .inr clear

theorem CarveStep.ok (step : CarveStep fd pid start stop tbl i result)
    (ok : tbl.Ok emptyAtEnd) (carved : RangeOk True start stop) : result.2.Ok emptyAtEnd := by
  obtain ⟨source, narrows⟩ := step.narrows ok carved
  have compatible := narrows.compatible ok.compatible
  cases step with
  | skip | full => exact ok
  | drop => exact ok.slotFree i
  | cutEnd own meets left _ =>
    exact ok.rewrite rfl (cut_before (ok.range i own.1) carved meets left).1 compatible
  | cutStart own meets _ right =>
    exact ok.rewrite rfl (cut_after (ok.range i own.1) meets right).1 compatible
  | split own meets left right j free tbl' lk nLocks wait =>
    have rangeLeft := (cut_before (ok.range i own.1) carved meets left).1
    have rangeRight := (cut_after (ok.range i own.1) meets right).1
    have different : j ≠ i := by
      rintro rfl
      exact absurd (own.1.symm.trans free) (by decide)
    have lkLeft : (tbl.setLk i { tbl.lk i with stop := start }).lk =
      update tbl.lk i { tbl.lk i with stop := start } := rfl
    refine ⟨fun k used => ?_, compatible, ?_⟩
    · simp only [lk, update_apply] at used ⊢
      split_ifs at used ⊢
      · exact rangeRight
      · exact rangeLeft
      · exact ok.range k used
    · have stillFree : ((tbl.setLk i { tbl.lk i with stop := start }).lk j).used = false := by
        rw [lkLeft, update_of_ne different]
        exact free
      rw [nLocks, ok.count, card_gain lk stillFree rfl,
        usedSlots_same lkLeft rfl, ofNat_add]
      rfl

theorem CarveStep.wait (step : CarveStep fd pid start stop tbl i result) :
    result.2.wait = tbl.wait := by
  cases step with
  | skip | full | cutEnd | cutStart => rfl
  | drop => exact slotFree_wait tbl i
  | split _ _ _ _ _ _ _ _ _ wait => exact wait

theorem CarveStep.touched (step : CarveStep fd pid start stop tbl i (.ok (), tbl')) :
    tbl' = tbl ∨ (tbl.lk i).Own fd pid ∧
      rangesOverlap start stop (tbl.lk i).start (tbl.lk i).stop = true := by
  cases step with
  | skip => exact .inl rfl
  | drop own meets | cutEnd own meets | cutStart own meets | split own meets =>
    exact .inr ⟨own, meets⟩

/-- A carve leaves a part of what was held. -/
theorem carveLoop_narrows (slots : List (Fin gjFlockMax)) (ok : tbl.Ok emptyAtEnd)
    (carved : RangeOk True start stop) :
    (carveLoop fd pid start stop slots tbl).2.Ok emptyAtEnd ∧
      (carveLoop fd pid start stop slots tbl).2.wait = tbl.wait ∧
      ∃ source, Narrows tbl.view (carveLoop fd pid start stop slots tbl).2.view source := by
  induction slots generalizing tbl with
  | nil => exact ⟨ok, rfl, _, .refl tbl.view⟩
  | cons i rest ih =>
    have step := carveSlot_step fd pid start stop tbl i
    have stepOk := step.ok ok carved
    have wait := step.wait
    obtain ⟨source, narrows⟩ := step.narrows ok carved
    rcases outcome : carveSlot fd pid start stop tbl i with ⟨err | ⟨⟩, mid⟩ <;>
      rw [outcome] at stepOk wait narrows <;> simp only [carveLoop, outcome]
    · exact ⟨stepOk, wait, source, narrows⟩
    · obtain ⟨restOk, restWait, source', narrows'⟩ := ih stepOk
      exact ⟨restOk, restWait.trans wait, _, narrows.trans narrows'⟩

/-- A carve that succeeds has cleared the slots that it visited, and every slot that was clear
still is. -/
theorem carveLoop_clear {slots : List (Fin gjFlockMax)} (ok : tbl.Ok emptyAtEnd)
    (carved : RangeOk True start stop)
    (done : carveLoop fd pid start stop slots tbl = (.ok (), tbl')) (k : Fin gjFlockMax)
    (visited : k ∈ slots ∨ (tbl.lk k).Clear fd pid start stop) :
    (tbl'.lk k).Clear fd pid start stop := by
  induction slots generalizing tbl with
  | nil =>
    cases done
    rcases visited with visited | clear
    · cases visited
    · exact clear
  | cons i rest ih =>
    have step := carveSlot_step fd pid start stop tbl i
    have stepOk := step.ok ok carved
    rcases outcome : carveSlot fd pid start stop tbl i with ⟨err | ⟨⟩, mid⟩ <;>
      rw [outcome] at step stepOk <;> simp only [carveLoop, outcome] at done
    · cases done
    · apply ih stepOk done
      rcases step.clear ok carved k with ⟨other, same⟩ | clear
      · rw [same]
        rcases visited with visited | clear
        · exact .inl ((mem_cons.mp visited).resolve_left other)
        · exact .inr clear
      · exact .inr clear

/-- A carve fails only at a range that goes beyond the carved one on both sides. Such a range is
the only one of its pid there, so nothing has been carved before. -/
theorem carveLoop_error {slots : List (Fin gjFlockMax)} {err : FlockErr}
    (ok : tbl.Ok emptyAtEnd) (carved : RangeOk True start stop)
    (failed : carveLoop fd pid start stop slots tbl = (.error err, tbl')) :
    tbl' = tbl ∧ err = .enolck ∧ ∃ k, (tbl.lk k).Own fd pid ∧ rangeBytes start stop ⊆
      rangeBytes (tbl.lk k).start (tbl.lk k).stop ∧ (rangeBytes start stop).Nonempty := by
  induction slots generalizing tbl with
  | nil => cases failed
  | cons i rest ih =>
    have step := carveSlot_step fd pid start stop tbl i
    have stepOk := step.ok ok carved
    rcases outcome : carveSlot fd pid start stop tbl i with ⟨err | ⟨⟩, mid⟩ <;>
      rw [outcome] at step stepOk <;> simp only [carveLoop, outcome] at failed
    · cases failed
      cases step with
      | full own meets left right noSlot =>
        have ordered := carved.start_le
        have nonempty : start < rangeNormEnd stop := by
          rcases carved.nonempty with nonempty | ⟨-, atEnd, -⟩
          · exact nonempty
          · have bound := rangeNormEnd_le (ok.range i own.1).stop_le
            omega
        exact ⟨rfl, rfl, i, own, Set.Ico_subset_Ico left.le right.le, start, le_rfl, nonempty⟩
    · obtain ⟨rfl, rfl, k, own, inside, byte, member⟩ := ih stepOk failed
      rcases step.touched with rfl | ⟨ownI, meets⟩
      · exact ⟨rfl, rfl, k, own, inside, byte, member⟩
      · exfalso
        rcases step.clear ok carved k with ⟨other, same⟩ | clear
        · rw [same] at own inside
          have disjoint := ok.compatible.own k i _ _ (view_of_used own.1)
            (view_of_used ownI.1) other (own.2.1.trans ownI.2.1.symm)
            (own.2.2.trans ownI.2.2.symm)
          have apart := not_overlap_of_disjoint carved (ok.range i ownI.1).weaken
            (disjoint.mono_left inside)
          rw [meets] at apart
          cases apart
        · exact Set.disjoint_left.mp (clear own) member (inside member)

end Carve

/-! ### Coalescing -/

section Coalesce

variable {emptyAtEnd : Prop} {fd : I64} {pid : U32}

theorem rangeNormEnd_mergedStop {a1 b1 : Int} (boundA : a1 ≤ i64Max) (boundB : b1 ≤ i64Max) :
    rangeNormEnd (mergedStop a1 b1) = max (rangeNormEnd a1) (rangeNormEnd b1) := by
  have normA := rangeNormEnd_le boundA
  have normB := rangeNormEnd_le boundB
  unfold mergedStop
  split_ifs with eof
  · show i64Max = _
    rcases eof with eof | eof
    · rw [rangeNormEnd, if_pos eof] at normA ⊢
      exact (max_eq_left normB).symm
    · have last : rangeNormEnd b1 = i64Max := if_pos eof
      rw [last]
      exact (max_eq_right normA).symm
  · rw [rangeNormEnd_of_nonneg]
    exact (rangeNormEnd_nonneg a1).trans (le_max_left _ _)

/-- Two ranges that meet or touch are merged to their union. -/
theorem merged_range {a0 a1 b0 b1 : Int} (rangeA : RangeOk emptyAtEnd a0 a1)
    (rangeB : RangeOk emptyAtEnd b0 b1)
    (touch : ¬ (rangeNormEnd a1 < b0 ∨ rangeNormEnd b1 < a0)) :
    RangeOk emptyAtEnd (min a0 b0) (mergedStop a1 b1) ∧
      rangeBytes (min a0 b0) (mergedStop a1 b1) = rangeBytes a0 a1 ∪ rangeBytes b0 b1 := by
  have normal := rangeNormEnd_mergedStop rangeA.stop_le rangeB.stop_le
  have normA := rangeNormEnd_le rangeA.stop_le
  have normB := rangeNormEnd_le rangeB.stop_le
  refine ⟨⟨le_min rangeA.nonneg rangeB.nonneg, ?_, ?_⟩, ?_⟩
  · unfold mergedStop
    split_ifs
    · decide
    · exact max_le normA normB
  · rcases rangeA.nonempty with nonempty | ⟨empty, atEnd, eof⟩
    · exact .inl (by omega)
    · rcases rangeB.nonempty with nonempty | ⟨-, atEnd', -⟩
      · exact .inl (by omega)
      · refine .inr ⟨empty, by omega, ?_⟩
        rw [mergedStop, if_pos (.inl eof)]
        decide
  · rw [rangeBytes, normal]
    exact (Set.Ico_union_Ico' (by omega) (by omega)).symm

/-- Ranges have been merged: who holds which byte is the same as before. -/
structure LockTable.Merges (emptyAtEnd : Prop) (tbl tbl' : LockTable) : Prop where
  ok : tbl'.Ok emptyAtEnd
  wait : tbl'.wait = tbl.wait
  holds : ∀ fd pid type b, tbl'.Holds fd pid type b ↔ tbl.Holds fd pid type b

variable {tbl : LockTable}

theorem LockTable.Merges.refl (ok : tbl.Ok emptyAtEnd) : tbl.Merges emptyAtEnd tbl :=
  ⟨ok, rfl, fun _ _ _ _ => .rfl⟩

theorem LockTable.Merges.trans {tbl' tbl'' : LockTable} (first : tbl.Merges emptyAtEnd tbl')
    (second : tbl'.Merges emptyAtEnd tbl'') : tbl.Merges emptyAtEnd tbl'' :=
  ⟨second.ok, second.wait.trans first.wait, fun fd pid type b =>
    (second.holds fd pid type b).trans (first.holds fd pid type b)⟩

/-- Slot `j` is merged into slot `i`. -/
theorem merge_merges {i j : Fin gjFlockMax} (ok : tbl.Ok emptyAtEnd)
    (own : (tbl.lk i).Own fd pid) (ownB : (tbl.lk j).Own fd pid) (different : i ≠ j)
    (type : (tbl.lk i).type = (tbl.lk j).type)
    (touch : ¬ (rangeNormEnd (tbl.lk i).stop < (tbl.lk j).start ∨
      rangeNormEnd (tbl.lk j).stop < (tbl.lk i).start)) :
    tbl.Merges emptyAtEnd (slotFree (tbl.setLk i ((tbl.lk i).merge (tbl.lk j))) j) ∧
      ((slotFree (tbl.setLk i ((tbl.lk i).merge (tbl.lk j))) j).lk i).Own fd pid := by
  obtain ⟨range, bytes⟩ := merged_range (ok.range i own.1) (ok.range j ownB.1) touch
  have lk : (tbl.setLk i ((tbl.lk i).merge (tbl.lk j))).lk =
    update tbl.lk i ((tbl.lk i).merge (tbl.lk j)) := rfl
  have usedB : ((tbl.setLk i ((tbl.lk i).merge (tbl.lk j))).lk j).used = true := by
    rw [lk, update_of_ne different.symm]
    exact ownB.1
  have used : ((tbl.lk i).merge (tbl.lk j)).used = true := own.1
  refine ⟨⟨⟨slotFree_range ?_ j, ?_, slotFree_count ?_ j⟩, slotFree_wait _ j, ?_⟩, ?_⟩
  · intro k used
    rw [lk, update_apply] at used ⊢
    split_ifs at used ⊢
    · exact range
    · exact ok.range k used
  · rw [slotFree_view, view_update lk, if_pos used]
    have merged := ok.compatible.merge (view_of_used own.1)
      (view_of_used ownB.1) (own.2.1.trans ownB.2.1.symm)
      (own.2.2.trans ownB.2.2.symm) type
    have held : ((tbl.lk i).merge (tbl.lk j)).held =
        { (tbl.lk i).held with extent := (tbl.lk i).held.extent ∪ (tbl.lk j).held.extent } := by
      simp [FlockSlot.held, FlockSlot.merge, bytes]
    rw [held]
    exact merged
  · rw [usedSlots_same lk rfl]
    exact ok.count
  · intro fd' pid' type' b
    have freed := slotFree_lk usedB
    rw [lk] at freed
    constructor
    · rintro ⟨k, gives⟩
      rw [freed] at gives
      by_cases taken : k = i ∧ b ∈ rangeBytes (tbl.lk j).start (tbl.lk j).stop
      · exact ⟨j, by grind [FlockSlot.merge]⟩
      · exact ⟨k, by grind [FlockSlot.merge]⟩
    · rintro ⟨k, gives⟩
      rw [LockTable.Holds, freed]
      by_cases taken : k = j
      · exact ⟨i, by grind [FlockSlot.merge]⟩
      · exact ⟨k, by grind [FlockSlot.merge]⟩
  · rw [slotFree_lk usedB, update_of_ne different, lk, update_self]
    exact own

variable {state : Bool × LockTable}

theorem coalescePair_merges {i j : Fin gjFlockMax}
    (ok : state.2.Ok emptyAtEnd) (own : (state.2.lk i).Own fd pid) (different : i ≠ j) :
    state.2.Merges emptyAtEnd (coalescePair fd pid i state j).2 ∧
      ((coalescePair fd pid i state j).2.lk i).Own fd pid := by
  unfold coalescePair
  simp only
  split_ifs with ownB type apart
  · exact ⟨.refl ok, own⟩
  · exact ⟨.refl ok, own⟩
  · exact merge_merges ok own ownB different (not_ne_iff.mp type) apart
  · exact ⟨.refl ok, own⟩

theorem coalesceSlot_merges (ok : state.2.Ok emptyAtEnd) (i : Fin gjFlockMax) :
    state.2.Merges emptyAtEnd (coalesceSlot fd pid state i).2 := by
  unfold coalesceSlot
  by_cases own : (state.2.lk i).Own fd pid
  · rw [if_neg (not_not_intro own)]
    refine (List.foldlRecOn (motive := fun after : Bool × LockTable =>
      state.2.Merges emptyAtEnd after.2 ∧ (after.2.lk i).Own fd pid) _ _ ⟨.refl ok, own⟩ ?_).1
    rintro mid ⟨merges, stillOwn⟩ j member
    have later : i < j := by simpa using (mem_filter.mp member).2
    obtain ⟨next, nextOwn⟩ := coalescePair_merges merges.ok stillOwn later.ne
    exact ⟨merges.trans next, nextOwn⟩
  · rw [if_pos own]
    exact .refl ok

theorem coalescePasses_merges (n : Nat) (ok : tbl.Ok emptyAtEnd) :
    tbl.Merges emptyAtEnd (coalescePasses fd pid n tbl) := by
  induction n generalizing tbl with
  | zero => exact .refl ok
  | succ n ih =>
    have pass : tbl.Merges emptyAtEnd
        ((List.finRange gjFlockMax).foldl (coalesceSlot fd pid) (false, tbl)).2 := by
      refine List.foldlRecOn (motive := fun after : Bool × LockTable =>
        tbl.Merges emptyAtEnd after.2) _ _ (.refl ok) fun mid merges i _ => ?_
      exact merges.trans (coalesceSlot_merges merges.ok i)
    simp only [coalescePasses]
    split_ifs
    · exact pass.trans (ih pass.ok)
    · exact pass

theorem coalescePid_merges (ok : tbl.Ok emptyAtEnd) (fd : I64) (pid : U32) :
    tbl.Merges emptyAtEnd (coalescePid tbl fd pid) :=
  coalescePasses_merges gjFlockMax ok

end Coalesce

end GreenJade.Fs

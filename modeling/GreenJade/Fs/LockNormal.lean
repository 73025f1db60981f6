import GreenJade.Fs.LockRuns

/-! Owns two results about ranges alone: for which accepted ranges `ranges_overlap` is exact, and
that `coalesce_pid` reaches a normal form within its passes. -/

namespace GreenJade.Fs

open Function Finset FlockSlot

/-! ### The overlap test -/

/-- An offset of a range; a negative end is the greatest offset, inclusive. -/
def RangeHas (start stop b : Int) : Prop :=
  start ≤ b ∧ b ≤ i64Max ∧ (stop < 0 ∨ b < stop)

/-- What `range_end` and `range_overflow` compute stays in 64 bits. -/
structure RangeEndFits (start len : Int) : Prop where
  room : len ≠ 0 → -i64Max - 1 ≤ i64Max - len ∧ i64Max - len ≤ i64Max
  stop : len ≠ 0 → start ≤ i64Max - len → -i64Max - 1 ≤ start + len ∧ start + len ≤ i64Max

theorem flockValidate_fits {fd : I64} {fl : GjFlock} {start stop : Int} {pid : U32}
    (valid : flockValidate fd fl = .ok (start, stop, pid)) :
    start ≤ i64Max ∧ RangeEndFits start fl.len.toInt := by
  have range := (flockValidate_range valid).2.1
  have nonneg := range.nonneg
  have wide := fl.len.toInt_lt
  have forward : 0 ≤ fl.len.toInt := by
    unfold flockValidate at valid
    dsimp only at valid
    split_ifs at valid <;> omega
  refine ⟨range.start_le.trans (rangeNormEnd_le range.stop_le), ?_, ?_⟩ <;> unfold i64Max <;> omega

/-- The test is exact unless both ranges go to the end of the file and one starts at the greatest
offset. -/
theorem rangesOverlap_exact_iff {fdA fdB : I64} {flA flB : GjFlock} {a0 a1 b0 b1 : Int}
    {pidA pidB : U32} (validA : flockValidate fdA flA = .ok (a0, a1, pidA))
    (validB : flockValidate fdB flB = .ok (b0, b1, pidB)) :
    ((rangesOverlap a0 a1 b0 b1 = true ↔ ∃ b, RangeHas a0 a1 b ∧ RangeHas b0 b1 b) ∧
        RangeEndFits a0 flA.len.toInt ∧ RangeEndFits b0 flB.len.toInt) ↔
      ¬(a1 < 0 ∧ b1 < 0 ∧ (a0 = i64Max ∨ b0 = i64Max)) := by
  obtain ⟨lastA, fitsA⟩ := flockValidate_fits validA
  obtain ⟨lastB, fitsB⟩ := flockValidate_fits validB
  have rangeA := (flockValidate_range validA).2.1
  have rangeB := (flockValidate_range validB).2.1
  have stopA := rangeA.stop_le
  have stopB := rangeB.stop_le
  have shapeA := rangeA.nonempty
  have shapeB := rangeB.nonempty
  have common : (∃ b, RangeHas a0 a1 b ∧ RangeHas b0 b1 b) ↔
      RangeHas a0 a1 (max a0 b0) ∧ RangeHas b0 b1 (max a0 b0) := by
    refine ⟨?_, fun both => ⟨_, both⟩⟩
    rintro ⟨b, ⟨above, last, inside⟩, ⟨above', -, inside'⟩⟩
    unfold RangeHas
    omega
  rw [common, rangesOverlap, decide_eq_true_iff]
  simp only [fitsA, fitsB, and_true]
  unfold RangeHas
  unfold rangeNormEnd at *
  split_ifs at * <;> omega

/-- A request from an offset to the end of the file. -/
def toEndFlock (start : I64) : GjFlock :=
  { type := .lock .wrlck, whence := 0, start, len := 0, pid := 0 }

theorem rangesOverlap_exact_sample : flockValidate 3 (toEndFlock 7) = .ok (7, -1, 1) ∧
      (((rangesOverlap 7 (-1) 7 (-1) = true ↔ ∃ b, RangeHas 7 (-1) b ∧ RangeHas 7 (-1) b) ∧
        RangeEndFits 7 0 ∧ RangeEndFits 7 0) ↔ ¬((-1 : Int) < 0 ∧ (-1 : Int) < 0 ∧
          ((7 : Int) = i64Max ∨ (7 : Int) = i64Max))) := by
  have valid : flockValidate 3 (toEndFlock 7) = .ok (7, -1, 1) := by decide
  exact ⟨valid, rangesOverlap_exact_iff valid valid⟩

/-- Two locks from the greatest offset to the end of the file share it and pass for disjoint. -/
theorem rangesOverlap_misses_last :
    flockValidate 3 (toEndFlock (BitVec.ofInt 64 i64Max)) = .ok (i64Max, -1, 1) ∧
      rangesOverlap i64Max (-1) i64Max (-1) = false ∧ RangeHas i64Max (-1) i64Max := by
  refine ⟨by decide, by decide, ?_⟩
  unfold RangeHas
  decide

/-! ### Coalescing -/

/-- An offset that a pid holds in a mode. -/
def LockTable.Covered (tbl : LockTable) (fd : I64) (pid : U32) (type : LockType) (b : Int) : Prop :=
  ∃ i, (tbl.lk i).Own fd pid ∧ (tbl.lk i).type = type ∧ (tbl.lk i).Covers b

/-- There is an offset between two ranges. -/
def FlockSlot.Apart (a b : FlockSlot) : Prop :=
  0 ≤ a.stop ∧ a.stop < b.start ∨ 0 ≤ b.stop ∧ b.stop < a.start

/-- No two ranges of one mode overlap or touch. -/
def LockTable.Normal (tbl : LockTable) (fd : I64) (pid : U32) : Prop :=
  ∀ i j, i ≠ j → (tbl.lk i).Own fd pid → (tbl.lk j).Own fd pid →
    (tbl.lk i).type = (tbl.lk j).type → (tbl.lk i).Apart (tbl.lk j)

def LockTable.ownSlots (tbl : LockTable) (fd : I64) (pid : U32) : Finset (Fin gjFlockMax) :=
  univ.filter fun i => (tbl.lk i).Own fd pid

/-- What merging the ranges of a pid keeps. -/
structure LockTable.Coalesces (fd : I64) (pid : U32) (tbl tbl' : LockTable) : Prop where
  covered : ∀ type b, tbl'.Covered fd pid type b ↔ tbl.Covered fd pid type b
  others : ∀ k, ¬(tbl.lk k).Own fd pid → tbl'.lk k = tbl.lk k
  start : (∀ k, (tbl.lk k).start ≤ i64Max) → ∀ k, (tbl'.lk k).start ≤ i64Max

/-- The loops go on: without a merge nothing has changed, and a merge takes a slot away. -/
structure Goes (fd : I64) (pid : U32) (state state' : Bool × LockTable) : Prop where
  coalesces : state.2.Coalesces fd pid state'.2
  idle : state'.1 = false → state' = state
  fewer : state' = state ∨ (state'.2.ownSlots fd pid).card < (state.2.ownSlots fd pid).card

section Coalesce

variable {fd : I64} {pid : U32} {state state' state'' : Bool × LockTable}

theorem Goes.refl (state : Bool × LockTable) : Goes fd pid state state :=
  ⟨⟨fun _ _ => .rfl, fun _ _ => rfl, id⟩, fun _ => rfl, .inl rfl⟩

theorem LockTable.Coalesces.trans {tbl tbl' tbl'' : LockTable}
    (first : tbl.Coalesces fd pid tbl') (second : tbl'.Coalesces fd pid tbl'') :
    tbl.Coalesces fd pid tbl'' where
  covered := fun type b => (second.covered type b).trans (first.covered type b)
  others := fun k other => by
    have same := first.others k other
    rw [← same] at other
    exact (second.others k other).trans same
  start := fun bound => second.start (first.start bound)

theorem Goes.trans (first : Goes fd pid state state') (second : Goes fd pid state' state'') :
    Goes fd pid state state'' where
  coalesces := first.coalesces.trans second.coalesces
  idle := fun still => by
    obtain rfl := second.idle still
    exact first.idle still
  fewer := by
    rcases second.fewer with rfl | less
    · exact first.fewer
    · rcases first.fewer with rfl | less'
      · exact .inr less
      · exact .inr (less.trans less')

/-- A fold of such steps that ends without a merge has not changed anything at any step. -/
theorem idle_of_foldl {α : Type} {f : Bool × LockTable → α → Bool × LockTable}
    (idle : ∀ state x, (f state x).1 = false → f state x = state) (list : List α)
    (still : (list.foldl f state).1 = false) :
    list.foldl f state = state ∧ ∀ x ∈ list, f state x = state := by
  induction list generalizing state with
  | nil => exact ⟨rfl, List.forall_mem_nil _⟩
  | cons x rest ih =>
    obtain ⟨same, each⟩ := ih still
    rw [List.foldl_cons] at still ⊢
    rw [same] at still ⊢
    have here := idle state x still
    rw [here] at each ⊢
    exact ⟨rfl, List.forall_mem_cons.mpr ⟨here, each⟩⟩

theorem merge_covers {a b : FlockSlot}
    (touch : ¬(rangeNormEnd a.stop < b.start ∨ rangeNormEnd b.stop < a.start)) (x : Int) :
    (a.merge b).Covers x ↔ a.Covers x ∨ b.Covers x := by
  unfold Covers merge mergedStop gjFlockEof
  unfold rangeNormEnd at *
  dsimp only
  split_ifs at * <;> omega

theorem coalescePair_goes {i j : Fin gjFlockMax} (own : (state.2.lk i).Own fd pid)
    (different : i ≠ j) :
    Goes fd pid state (coalescePair fd pid i state j) ∧
      ((coalescePair fd pid i state j).2.lk i).Own fd pid := by
  unfold coalescePair
  dsimp only
  split_ifs with ownB type touch
  · exact ⟨.refl state, own⟩
  · exact ⟨.refl state, own⟩
  · rw [not_ne_iff] at type
    have covers := merge_covers touch
    have lk : (slotFree (state.2.setLk i ((state.2.lk i).merge (state.2.lk j))) j).lk =
        update (update state.2.lk i ((state.2.lk i).merge (state.2.lk j))) j
          { state.2.lk j with used := false } := by
      have other : (state.2.setLk i ((state.2.lk i).merge (state.2.lk j))).lk j = state.2.lk j :=
        update_of_ne different.symm ..
      rw [slotFree_lk (by rw [other]; exact ownB.1), other]
      rfl
    have mergedOwn : ((state.2.lk i).merge (state.2.lk j)).Own fd pid := own
    have less : LockTable.ownSlots (slotFree
        (state.2.setLk i ((state.2.lk i).merge (state.2.lk j))) j) fd pid =
        (state.2.ownSlots fd pid).erase j := by
      ext k
      simp only [LockTable.ownSlots, mem_filter, mem_erase, mem_univ, lk]
      grind
    refine ⟨⟨⟨?_, ?_, ?_⟩, nofun, .inr ?_⟩, ?_⟩
    · intro kind b
      unfold LockTable.Covered
      rw [lk]
      constructor
      · rintro ⟨k, given⟩
        by_cases taken : k = i ∧ (state.2.lk j).Covers b
        · exact ⟨j, by grind [merge]⟩
        · exact ⟨k, by grind [merge]⟩
      · rintro ⟨k, given⟩
        by_cases taken : k = j
        · exact ⟨i, by grind [merge]⟩
        · exact ⟨k, by grind [merge]⟩
    · intro k other
      rw [lk]
      grind
    · intro bound k
      rw [lk]
      grind [merge]
    · rw [less]
      exact card_erase_lt_of_mem (mem_filter.mpr ⟨mem_univ j, ownB⟩)
    · rw [lk, update_of_ne different, update_self]
      exact own
  · exact ⟨.refl state, own⟩

theorem coalesceSlot_goes (state : Bool × LockTable) (i : Fin gjFlockMax) :
    Goes fd pid state (coalesceSlot fd pid state i) := by
  unfold coalesceSlot
  split_ifs with own
  · refine (List.foldlRecOn (motive := fun after : Bool × LockTable =>
      Goes fd pid state after ∧ (after.2.lk i).Own fd pid) _ _ ⟨.refl state, own⟩ ?_).1
    rintro mid ⟨goes, stillOwn⟩ j member
    have later : i < j := by simpa using (List.mem_filter.mp member).2
    obtain ⟨next, nextOwn⟩ := coalescePair_goes stillOwn later.ne
    exact ⟨goes.trans next, nextOwn⟩
  · exact .refl state

/-- A pass without a merge has looked at every pair and found it apart. -/
theorem normal_of_idle {tbl : LockTable} (bound : ∀ k, (tbl.lk k).start ≤ i64Max)
    (still : ((List.finRange gjFlockMax).foldl (coalesceSlot fd pid) (false, tbl)).1 = false) :
    tbl.Normal fd pid := by
  have pairIdle (i : Fin gjFlockMax) (state : Bool × LockTable) (j : Fin gjFlockMax)
      (still : (coalescePair fd pid i state j).1 = false) :
      coalescePair fd pid i state j = state := by
    unfold coalescePair at still ⊢
    dsimp only at still ⊢
    split_ifs at still ⊢ <;> rfl
  have ordered (i j : Fin gjFlockMax) (less : i < j) (own : (tbl.lk i).Own fd pid)
      (ownB : (tbl.lk j).Own fd pid) (type : (tbl.lk i).type = (tbl.lk j).type) :
      (tbl.lk i).Apart (tbl.lk j) := by
    have slot := (idle_of_foldl (fun state i => (coalesceSlot_goes state i).idle) _ still).2 i
      (List.mem_finRange i)
    rw [coalesceSlot, if_neg (not_not_intro own)] at slot
    have pair := (idle_of_foldl (pairIdle i) _ (congrArg Prod.fst slot)).2 j (by simpa using less)
    have boundA := bound i
    have boundB := bound j
    unfold coalescePair at pair
    dsimp only at pair
    rw [if_neg (not_not_intro ownB), if_neg (not_not_intro type)] at pair
    split_ifs at pair with apart
    · unfold rangeNormEnd at apart
      unfold FlockSlot.Apart
      split_ifs at apart <;> omega
    · cases pair
  intro i j different own ownB type
  rcases lt_or_gt_of_ne different with less | less
  · exact ordered i j less own ownB type
  · exact (ordered j i less ownB own type.symm).symm

/-- As many passes as there are slots of the pid are enough. -/
theorem coalescePasses_normal (passes : Nat) {tbl : LockTable}
    (bound : ∀ k, (tbl.lk k).start ≤ i64Max) (enough : (tbl.ownSlots fd pid).card ≤ passes) :
    (coalescePasses fd pid passes tbl).Normal fd pid ∧
      tbl.Coalesces fd pid (coalescePasses fd pid passes tbl) := by
  induction passes generalizing tbl with
  | zero =>
    refine ⟨fun i _ _ own => ?_, (Goes.refl (false, tbl)).coalesces⟩
    have none := card_eq_zero.mp (Nat.le_zero.mp enough)
    have member : i ∈ tbl.ownSlots fd pid := mem_filter.mpr ⟨mem_univ i, own⟩
    rw [none] at member
    cases member
  | succ passes ih =>
    have goes : Goes fd pid (false, tbl)
        ((List.finRange gjFlockMax).foldl (coalesceSlot fd pid) (false, tbl)) :=
      List.foldlRecOn (motive := fun after => Goes fd pid (false, tbl) after) _ _ (.refl _)
        fun mid goes i _ => goes.trans (coalesceSlot_goes mid i)
    have normal (still : ((List.finRange gjFlockMax).foldl (coalesceSlot fd pid)
        (false, tbl)).1 = false) := normal_of_idle bound still
    unfold coalescePasses
    generalize (List.finRange gjFlockMax).foldl (coalesceSlot fd pid) (false, tbl) = result
      at goes normal ⊢
    obtain ⟨progress, merged⟩ := result
    cases progress with
    | false =>
      obtain rfl : merged = tbl := congrArg Prod.snd (goes.idle rfl)
      exact ⟨normal rfl, goes.coalesces⟩
    | true =>
      have less : (merged.ownSlots fd pid).card < (tbl.ownSlots fd pid).card :=
        goes.fewer.resolve_left fun same => Bool.noConfusion (congrArg Prod.fst same)
      obtain ⟨normal, later⟩ := ih (goes.coalesces.start bound)
        (Nat.le_of_lt_succ (less.trans_le enough))
      exact ⟨normal, goes.coalesces.trans later⟩

/-- Coalescing reaches a normal form: no two ranges of the pid in one mode overlap or touch, the
pid holds the same offsets in the same modes, and every slot of another is as it was. -/
theorem coalescePid_normal (tbl : LockTable) (fd : I64) (pid : U32)
    (bound : ∀ k, (tbl.lk k).start ≤ i64Max) :
    (coalescePid tbl fd pid).Normal fd pid ∧
      (∀ type b, (coalescePid tbl fd pid).Covered fd pid type b ↔ tbl.Covered fd pid type b) ∧
      ∀ k, ¬(tbl.lk k).Own fd pid → (coalescePid tbl fd pid).lk k = tbl.lk k := by
  unfold coalescePid
  have all := card_le_univ (tbl.ownSlots fd pid)
  rw [Fintype.card_fin] at all
  obtain ⟨normal, coalesces⟩ := coalescePasses_normal gjFlockMax bound all
  exact ⟨normal, coalesces.covered, coalesces.others⟩

/-- A pid with two write locks that touch. -/
def touchingLocks : LockTable :=
  let lock : FlockSlot :=
    { used := true, fd := 3, type := .wrlck, start := 0, stop := 10, pid := 1 }
  { fileLockInit with
    lk := fun k =>
      if k = 4 then lock
      else if k = 7 then { lock with start := 10, stop := 20 }
      else fileLockInit.lk k }

theorem coalescePid_touching : (touchingLocks.lk 4).stop = (touchingLocks.lk 7).start ∧
    (coalescePid touchingLocks 3 1).Normal 3 1 ∧
    (coalescePid touchingLocks 3 1).Covered 3 1 .wrlck 15 := by
  obtain ⟨normal, covered, -⟩ := coalescePid_normal touchingLocks 3 1 (by decide)
  exact ⟨rfl, normal, (covered .wrlck 15).mpr ⟨7, by decide, rfl, by unfold Covers; decide⟩⟩

end Coalesce

end GreenJade.Fs

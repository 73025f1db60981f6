import GreenJade.Fs.Descriptors
import GreenJade.Lib.References
import GreenJade.Lib.StepRuns

/-! Owns how long the objects behind descriptors live. A slot of a pipe, eventfd, timerfd or epoll
carries a flag and no count, and the first descriptor that is closed frees it; where each
descriptor that is closed is the last of its object, slots live as long as their descriptors. -/

namespace GreenJade.Fs

open Function Vfs
open References (Exact)

variable {st : Vfs} {fd : Fin vfsMaxFds}

/-! ### What descriptors refer to -/

/-- The kinds whose slots are looked at here. -/
def VfsKind.counted : VfsKind → Bool
  | .pipe | .eventfd | .timerfd | .epoll => true
  | _ => false

/-- A column of a table as a function of any index. -/
def columnAt {α : Type} {n : Nat} (default : α) (column : Fin n → α) (k : Nat) : α :=
  if valid : k < n then column ⟨k, valid⟩ else default

namespace Vfs

structure RefersTo (st : Vfs) (fd : Fin vfsMaxFds) (kind : VfsKind) (k : Nat) : Prop where
  isOpen : st.Open fd
  kind : (st.fds fd).kind = kind
  file : (st.fds fd).file.toNat = k

def slotUsed (st : Vfs) : VfsKind × Nat → Bool
  | (.pipe, k) => columnAt false (fun i => (st.pipes i).used) k
  | (.eventfd, k) => columnAt false (fun i => (st.events i).used) k
  | (.timerfd, k) => columnAt false (fun i => (st.timers i).used) k
  | (.epoll, k) => columnAt false (fun i => (st.epolls i).used) k
  | _ => false

def slotSerial (st : Vfs) : VfsKind × Nat → Nat
  | (.pipe, k) => columnAt 0 (fun i => (st.pipes i).serial) k
  | (.eventfd, k) => columnAt 0 (fun i => (st.events i).serial) k
  | (.timerfd, k) => columnAt 0 (fun i => (st.timers i).serial) k
  | (.epoll, k) => columnAt 0 (fun i => (st.epolls i).serial) k
  | _ => 0

/-- Ends of pipes are marked open and slots are in use exactly while a descriptor refers to them,
and what a descriptor refers to is what it was opened on. -/
structure Live (st : Vfs) : Prop where
  ends : ∀ k e, (st.pipes k).isOpen e = true ↔
    ∃ fd, st.RefersTo fd .pipe k.val ∧ (st.fds fd).fdEnd = e
  slots : ∀ kind k, kind.counted = true →
    (st.slotUsed (kind, k) = true ↔ ∃ fd, st.RefersTo fd kind k)
  serials : ∀ fd kind k, kind.counted = true → st.RefersTo fd kind k →
    st.slotSerial (kind, k) = (st.fds fd).serial

/-! ### Marks and references -/

/-- An end of a pipe, or the one end of another object. -/
abbrev Place := (VfsKind × Nat) × Fin 2

def marked (st : Vfs) : Place → Bool
  | ((.pipe, k), e) => columnAt false (fun i => (st.pipes i).isOpen e) k
  | (slot, e) => st.slotUsed slot && decide (e = 0)

def placeOf (fd : Fin vfsMaxFds) (entry : VfsFd) : Option Place :=
  if 3 ≤ fd.val ∧ entry.used = true ∧ entry.kind.counted = true then
    some ((entry.kind, entry.file.toNat), if entry.kind = .pipe then entry.fdEnd else 0)
  else none

def place (st : Vfs) (fd : Fin vfsMaxFds) : Option Place := placeOf fd (st.fds fd)

def PipesUsed (st : Vfs) : Prop :=
  ∀ k, (st.pipes k).used = ((st.pipes k).isOpen 0 || (st.pipes k).isOpen 1)

/-- Descriptors refer to what they were opened on. -/
def Stamped (st : Vfs) : Prop :=
  ∀ fd p, st.place fd = some p → st.slotSerial p.1 = (st.fds fd).serial

end Vfs

open Vfs

variable {p : Place} {st' : Vfs} {slot : VfsKind × Nat} {i : Fin vfsMaxFds}

theorem place_eq_some : st.place fd = some p ↔ st.RefersTo fd p.1.1 p.1.2 ∧ p.1.1.counted = true ∧
        p.2 = if p.1.1 = .pipe then (st.fds fd).fdEnd else 0 := by
  obtain ⟨⟨kind, k⟩, e⟩ := p
  unfold Vfs.place placeOf
  constructor
  · intro found
    obtain ⟨valid, found⟩ := Option.ite_none_right_eq_some.mp found
    obtain ⟨low, isUsed, counted⟩ := valid
    obtain ⟨slot, rfl⟩ := Prod.mk.inj (Option.some.inj found)
    cases slot
    exact ⟨⟨⟨low, isUsed⟩, rfl, rfl⟩, counted, rfl⟩
  · rintro ⟨⟨⟨low, isUsed⟩, rfl, rfl⟩, counted, same⟩
    rw [if_pos ⟨low, isUsed, counted⟩]
    exact congrArg (fun e => some (((st.fds fd).kind, (st.fds fd).file.toNat), e)) same.symm

variable {kind : VfsKind} {n serial k : Nat} {e : Fin 2}

theorem marked_of_ne_pipe (other : kind ≠ .pipe) :
    st.marked ((kind, k), e) = (st.slotUsed (kind, k) && decide (e = 0)) := by
  cases kind <;> first | exact absurd rfl other | rfl

theorem slotUsed_pipe (pipesUsed : st.PipesUsed) (k : Nat) :
    st.slotUsed (.pipe, k) = (st.marked ((.pipe, k), 0) || st.marked ((.pipe, k), 1)) := by
  simp only [slotUsed, Vfs.marked, columnAt]
  split_ifs with valid
  · exact pipesUsed _
  · rfl

theorem exists_place_pipe : (∃ fd, st.place fd = some ((.pipe, k), e)) ↔
      ∃ fd, st.RefersTo fd .pipe k ∧ (st.fds fd).fdEnd = e := by
  simp only [place_eq_some]
  exact exists_congr fun fd => ⟨fun ⟨refers, _, same⟩ => ⟨refers, same.symm⟩,
    fun ⟨refers, same⟩ => ⟨refers, rfl, same.symm⟩⟩

theorem exists_place_single (other : kind ≠ .pipe) : (∃ fd, st.place fd = some ((kind, k), e)) ↔
      (kind.counted = true ∧ ∃ fd, st.RefersTo fd kind k) ∧ e = 0 := by
  simp only [place_eq_some, if_neg other]
  exact ⟨fun ⟨fd, refers, counted, zero⟩ => ⟨⟨counted, fd, refers⟩, zero⟩,
    fun ⟨⟨counted, fd, refers⟩, zero⟩ => ⟨fd, refers, counted, zero⟩⟩

/-- A descriptor of a pipe is one of its two ends. -/
theorem refersTo_pipe_iff : (∃ fd, st.RefersTo fd .pipe k) ↔
    (∃ fd, st.RefersTo fd .pipe k ∧ (st.fds fd).fdEnd = 0) ∨
      ∃ fd, st.RefersTo fd .pipe k ∧ (st.fds fd).fdEnd = 1 := by
  rw [← exists_or]
  refine exists_congr fun fd => ?_
  rw [← and_or_left, and_iff_left (Fin.exists_fin_two.mp ⟨_, rfl⟩)]

theorem counted_of_slotUsed (used : st.slotUsed (kind, k) = true) : kind.counted = true := by
  cases kind <;> first | rfl | exact absurd used Bool.false_eq_true.mp

/-- The property in terms of marks. -/
theorem live_iff : st.Live ↔ Exact st.marked st.place ∧ st.PipesUsed ∧ st.Stamped := by
  constructor
  · intro live
    refine ⟨?_, fun k => ?_, fun fd p refers => ?_⟩
    · rintro ⟨⟨kind, k⟩, e⟩
      by_cases isPipe : kind = .pipe
      · subst isPipe
        rw [exists_place_pipe]
        by_cases valid : k < vfsMaxPipes
        · simp only [Vfs.marked, columnAt, dif_pos valid]
          exact live.ends ⟨k, valid⟩ e
        · have unused := live.slots .pipe k rfl
          simp only [slotUsed, columnAt, dif_neg valid, Bool.false_eq_true, false_iff] at unused
          simp only [Vfs.marked, columnAt, dif_neg valid]
          exact iff_of_false nofun fun ⟨fd, refers, _⟩ => unused ⟨fd, refers⟩
      · rw [marked_of_ne_pipe isPipe, Bool.and_eq_true, decide_eq_true_iff,
          exists_place_single isPipe]
        refine and_congr_left fun _ => ⟨fun used => ?_, fun ⟨counted, refers⟩ => ?_⟩
        · have counted := counted_of_slotUsed used
          exact ⟨counted, (live.slots kind k counted).mp used⟩
        · exact (live.slots kind k counted).mpr refers
    · have slots := live.slots .pipe k.val rfl
      simp only [slotUsed, columnAt, dif_pos k.isLt] at slots
      rw [Bool.eq_iff_iff, Bool.or_eq_true, live.ends k 0, live.ends k 1, slots]
      exact refersTo_pipe_iff
    · obtain ⟨refers, counted, -⟩ := place_eq_some.mp refers
      exact live.serials fd _ _ counted refers
  · rintro ⟨exactly, pipesUsed, stamped⟩
    refine ⟨fun k e => ?_, fun kind k counted => ?_, fun fd kind k counted refers => ?_⟩
    · have ends := exactly ((.pipe, k.val), e)
      simp only [Vfs.marked, columnAt, dif_pos k.isLt, exists_place_pipe] at ends
      exact ends
    · by_cases isPipe : kind = .pipe
      · subst isPipe
        rw [slotUsed_pipe pipesUsed, Bool.or_eq_true, exactly, exactly, exists_place_pipe,
          exists_place_pipe]
        exact refersTo_pipe_iff.symm
      · have single := exactly ((kind, k), 0)
        rw [marked_of_ne_pipe isPipe, decide_eq_true rfl, Bool.and_true,
          exists_place_single isPipe] at single
        rw [single, and_iff_left rfl, and_iff_right counted]
    · apply stamped fd ((kind, k), if kind = .pipe then (st.fds fd).fdEnd else 0)
      exact place_eq_some.mpr ⟨refers, counted, rfl⟩

/-! ### Updates -/

theorem columnAt_update {α : Type} {default : α} {column : Fin n → α} {i : Fin n}
    {value : α} (k : Nat) :
    columnAt default (update column i value) k =
      if k = i.val then value else columnAt default column k := by
  unfold columnAt
  by_cases valid : k < n
  · rw [dif_pos valid, dif_pos valid, update_apply]
    by_cases here : k = i.val
    · subst here
      rw [if_pos rfl, if_pos rfl]
    · rw [if_neg here, if_neg fun same => here (congrArg Fin.val same)]
  · rw [dif_neg valid, dif_neg valid, if_neg]
    rintro rfl
    exact valid i.isLt

/-- A column of a table in which a row has been replaced. -/
theorem columnAt_row {α β : Type} {default : α} {rows : Fin n → β} {i : Fin n} {row : β}
    (field : β → α) (k : Nat) :
    columnAt default (fun j => field (update rows i row j)) k =
      if k = i.val then field row else columnAt default (fun j => field (rows j)) k := by
  rw [← columnAt_update]
  congr 1
  funext j
  rw [Function.apply_update fun _ => field]

/-- A row of one of the tables with one end has been replaced. -/
structure SetsRow (st st' : Vfs) (slot : VfsKind × Nat) (used : Bool) (serial : Nat) : Prop where
  other : slot.1 ≠ .pipe
  fds : st'.fds = st.fds
  pipes : st'.pipes = st.pipes
  used : ∀ s, st'.slotUsed s = if s = slot then used else st.slotUsed s
  serial : ∀ s, st'.slotSerial s = if s = slot then serial else st.slotSerial s

theorem setEvent_row (k : Fin vfsMaxEventfd) (event : VfsEvent) :
    SetsRow st (st.setEvent k event) (.eventfd, k.val) event.used event.serial := by
  refine ⟨nofun, rfl, rfl, ?_, ?_⟩ <;> rintro ⟨kind, j⟩ <;> cases kind <;>
    simp only [slotUsed, slotSerial, setEvent, columnAt_row, Prod.mk.injEq, reduceCtorEq,
      false_and, true_and, if_false]

theorem setTimer_row (k : Fin vfsMaxTimerfd) (timer : VfsTimer) :
    SetsRow st (st.setTimer k timer) (.timerfd, k.val) timer.used timer.serial := by
  refine ⟨nofun, rfl, rfl, ?_, ?_⟩ <;> rintro ⟨kind, j⟩ <;> cases kind <;>
    simp only [slotUsed, slotSerial, setTimer, columnAt_row, Prod.mk.injEq, reduceCtorEq,
      false_and, true_and, if_false]

theorem setEpoll_row (k : Fin vfsMaxEpoll) (epoll : VfsEpoll) :
    SetsRow st (st.setEpoll k epoll) (.epoll, k.val) epoll.used epoll.serial := by
  refine ⟨nofun, rfl, rfl, ?_, ?_⟩ <;> rintro ⟨kind, j⟩ <;> cases kind <;>
    simp only [slotUsed, slotSerial, setEpoll, columnAt_row, Prod.mk.injEq, reduceCtorEq,
      false_and, true_and, if_false]

theorem SetsRow.marked {used : Bool} (row : SetsRow st st' slot used serial) :
    st'.marked = update st.marked (slot, 0) used := by
  funext ⟨⟨kind, k⟩, e⟩
  by_cases isPipe : kind = .pipe
  · subst isPipe
    have apart : ((VfsKind.pipe, k), e) ≠ (slot, 0) := by
      intro same
      exact row.other (congrArg (fun p : Place => p.1.1) same).symm
    rw [update_of_ne apart]
    simp [Vfs.marked, row.pipes]
  · rw [update_apply, marked_of_ne_pipe isPipe, marked_of_ne_pipe isPipe, row.used]
    by_cases zero : e = 0
    · subst zero
      simp [Prod.mk.injEq, and_true, decide_true, Bool.and_true]
    · simp only [zero, Prod.mk.injEq, and_false, decide_false, Bool.and_false, if_false]

theorem setFd_marked (entry : VfsFd) : (st.setFd fd entry).marked = st.marked := rfl

theorem setFd_place (entry : VfsFd) :
    (st.setFd fd entry).place = update st.place fd (placeOf fd entry) := by
  funext other
  simp only [Vfs.place, setFd, update_apply]
  split_ifs with here
  · rw [here]
  · rfl

theorem place_unused (unused : (st.fds fd).used = false) : st.place fd = none := by
  unfold Vfs.place placeOf
  rw [if_neg]
  rintro ⟨-, isUsed, -⟩
  rw [unused] at isUsed
  cases isUsed

/-- The marks of a pipe are replaced. -/
theorem setPipe_marked (k : Fin vfsMaxPipes) (pair : PipePair) : (st.setPipe k pair).marked =
      update (update st.marked ((.pipe, k.val), 0) (pair.isOpen 0))
        ((.pipe, k.val), 1) (pair.isOpen 1) := by
  funext ⟨⟨kind, j⟩, e⟩
  by_cases isPipe : kind = .pipe
  · subst isPipe
    have column : (st.setPipe k pair).marked ((.pipe, j), e) =
        if j = k.val then pair.isOpen e else st.marked ((.pipe, j), e) := by
      exact columnAt_row (fun pair : PipePair => pair.isOpen e) j
    rw [column]
    rcases Fin.exists_fin_two.mp ⟨e, rfl⟩ with rfl | rfl <;> simp [update_apply]
  · cases kind <;> first | exact absurd rfl isPipe | rfl

theorem setPipe_serial (k : Fin vfsMaxPipes) (pair : PipePair) (slot : VfsKind × Nat) :
    (st.setPipe k pair).slotSerial slot =
      if slot = (.pipe, k.val) then pair.serial else st.slotSerial slot := by
  obtain ⟨kind, j⟩ := slot
  cases kind <;>
    simp only [slotSerial, setPipe, columnAt_row, Prod.mk.injEq, reduceCtorEq, false_and,
      true_and, if_false]

/-! ### Making objects -/

/-- A slot that is not in use has no descriptor. -/
theorem Vfs.Live.unused_slot (live : st.Live) (unused : st.slotUsed slot = false)
    (refers : st.place fd = some p) : p.1 ≠ slot := by
  rintro rfl
  obtain ⟨refersTo, counted, -⟩ := place_eq_some.mp refers
  have used := (live.slots p.1.1 p.1.2 counted).mpr ⟨fd, refersTo⟩
  rw [unused] at used
  cases used

/-- New descriptors get the number of the slot that they are for; no other refers to it. -/
theorem Vfs.Live.stamped_new (live : st.Live)
    (isNew : Fin vfsMaxFds → Prop) (unused : st.slotUsed slot = false)
    (serial : ∀ s, st'.slotSerial s = if s = slot then st.made else st.slotSerial s)
    (new : ∀ fd p, isNew fd → st'.place fd = some p → p.1 = slot ∧ (st'.fds fd).serial = st.made)
    (old : ∀ fd, ¬ isNew fd → st'.fds fd = st.fds fd) : st'.Stamped := by
  intro fd p refers
  rw [serial]
  by_cases isNewFd : isNew fd
  · obtain ⟨same, number⟩ := new fd p isNewFd refers
    rw [if_pos same, number]
  · have before : st.place fd = some p := by
      rw [Vfs.place, ← old fd isNewFd]
      exact refers
    rw [if_neg (live.unused_slot unused before), old fd isNewFd]
    exact (live_iff.mp live).2.2 fd p before

/-- The place of a new descriptor. -/
theorem placeOf_new {fdEnd : Fin 2} {k : Fin n} {off : U64}
    (low : 3 ≤ fd.val) (counted : kind.counted = true) (small : n ≤ 2 ^ 32) :
    placeOf fd { used := true, kind, fdEnd, file := BitVec.ofNat 32 k.val, off, serial } =
      some ((kind, k.val), if kind = .pipe then fdEnd else 0) := by
  unfold placeOf
  rw [if_pos ⟨low, rfl, counted⟩, BitVec.toNat_ofNat, Nat.mod_eq_of_lt (k.isLt.trans_le small)]

theorem Vfs.Live.makeObject {taken : Fin n → Bool} {fill : Fin n → Vfs → Vfs}
    (live : st.Live) (counted : kind.counted = true) (small : n ≤ 2 ^ 32)
    (rows : ∀ k, SetsRow st (fill k st) (kind, k.val) true st.made)
    (flags : ∀ k, st.slotUsed (kind, k.val) = taken k)
    (number : ∀ k, (fill k st).made = st.made) : (st.makeObject taken fill kind).2.Live := by
  unfold Vfs.makeObject
  rcases found : firstFree taken with _ | k
  · exact live
  rcases free : st.freeFd with _ | fd
  · exact live
  show (((fill k st).openFd fd kind 0 (BitVec.ofNat 32 k.val) 0).make).Live
  obtain ⟨unused, low⟩ := freeFdFrom_eq_some free
  have row := rows k
  have newPlace : placeOf fd { used := true, kind, fdEnd := 0, file := BitVec.ofNat 32 k.val
                               off := 0, serial := (fill k st).made } =
      some ((kind, k.val), 0) := by
    rw [placeOf_new low counted small, if_neg row.other]
  have places : ((fill k st).openFd fd kind 0 (BitVec.ofNat 32 k.val) 0).place =
      update st.place fd (some ((kind, k.val), 0)) := by
    rw [openFd, setFd_place]
    congr 1
    funext other
    rw [Vfs.place, row.fds, Vfs.place]
  obtain ⟨exactly, pipesUsed, -⟩ := live_iff.mp live
  refine live_iff.mpr ⟨?_, ?_, ?_⟩
  · have added := exactly.add (place_unused unused) (p := ((kind, k.val), 0))
    rw [← row.marked, ← places] at added
    exact added
  · intro j
    have used := pipesUsed j
    rw [← row.pipes] at used
    exact used
  · have slotFree : st.slotUsed (kind, k.val) = false := by
      rw [flags k]
      exact firstFree_eq_some found
    refine live.stamped_new (fun other => other = fd) slotFree row.serial ?_ ?_
    · intro other p same refers
      rw [same] at refers ⊢
      have refers : update st.place fd (some ((kind, k.val), 0)) fd = some p := by
        rw [← places]
        exact refers
      rw [update_self] at refers
      rw [← Option.some.inj refers]
      refine ⟨rfl, ?_⟩
      show (update (fill k st).fds fd _ fd).serial = st.made
      rw [update_self, ← number k]
    · intro other different
      show update (fill k st).fds fd _ other = st.fds other
      rw [update_of_ne different, row.fds]

theorem Vfs.Live.pipeAllocPair (live : st.Live) : st.pipeAllocPair.2.Live := by
  unfold Vfs.pipeAllocPair
  rcases found : firstFree fun k => (st.pipes k).used with _ | k
  · exact live
  rcases free : st.freeFd with _ | fd0
  · exact live
  dsimp only
  rcases free' : st.freeFdFrom (fd0.val + 1) with _ | fd1
  · exact live
  let pair : PipePair :=
    { PipePair.zero with used := true, isOpen := fun _ => true, serial := st.made }
  let file := BitVec.ofNat 32 k.val
  show ((((st.setPipe k pair).openFd fd0 .pipe 0 file 0).openFd fd1 .pipe 1 file 0).make).Live
  obtain ⟨unused0, low0⟩ := freeFdFrom_eq_some free
  obtain ⟨unused1, above⟩ := freeFdFrom_eq_some free'
  have apart : fd1 ≠ fd0 := fun same => by
    omega
  have places : (((st.setPipe k pair).openFd fd0 .pipe 0 file 0).openFd fd1 .pipe 1 file 0).place =
      update (update st.place fd0 (some ((.pipe, k.val), 0))) fd1 (some ((.pipe, k.val), 1)) := by
    rw [openFd, setFd_place, openFd, setFd_place, placeOf_new low0 rfl (by decide),
      placeOf_new (by omega) rfl (by decide)]
    rfl
  obtain ⟨exactly, pipesUsed, -⟩ := live_iff.mp live
  refine live_iff.mpr ⟨?_, ?_, ?_⟩
  · have first := exactly.add (place_unused unused0) (p := ((.pipe, k.val), 0))
    have second := first.add (d := fd1) (by rw [update_of_ne apart, place_unused unused1])
      (p := ((.pipe, k.val), 1))
    have marks : (st.setPipe k pair).marked =
        update (update st.marked ((.pipe, k.val), 0) (pair.isOpen 0))
          ((.pipe, k.val), 1) (pair.isOpen 1) := setPipe_marked k pair
    rw [← places] at second
    exact marks ▸ second
  · intro j
    show (update st.pipes k pair j).used = _
    by_cases here : j = k
    · subst here
      simp [make, openFd, setFd, setPipe, pair]
    · simpa [make, openFd, setFd, setPipe, here] using pipesUsed j
  · have slotFree : st.slotUsed (.pipe, k.val) = false := by
      simp only [slotUsed, columnAt, dif_pos k.isLt]
      exact firstFree_eq_some found
    refine live.stamped_new (fun other => other = fd0 ∨ other = fd1) slotFree
      (setPipe_serial k pair) ?_ ?_
    · intro other p isNew refers
      have refers : update (update st.place fd0 (some ((.pipe, k.val), 0))) fd1
          (some ((.pipe, k.val), 1)) other = some p := by
        rw [← places]
        exact refers
      rcases isNew with rfl | rfl
      · rw [update_of_ne apart.symm, update_self] at refers
        refine ⟨by rw [← Option.some.inj refers], ?_⟩
        simp [make, openFd, setFd, setPipe, apart.symm]
      · rw [update_self] at refers
        refine ⟨by rw [← Option.some.inj refers], ?_⟩
        simp [make, openFd, setFd, setPipe]
    · intro other different
      rw [not_or] at different
      simp [make, openFd, setFd, setPipe, different.1, different.2]

/-! ### Duplicating -/

theorem Vfs.Live.copyFd {j : Fin vfsMaxFds} (live : st.Live) (isOpen : st.Open i)
    (unused : (st.fds j).used = false) (low : 3 ≤ j.val) :
    (st.setFd j { st.fds i with used := true }).Live := by
  have same : { st.fds i with used := true } = st.fds i := by
    rw [← isOpen.2]
  have samePlace : placeOf j (st.fds i) = st.place i := by
    simp [Vfs.place, placeOf, low, isOpen.1]
  rw [same]
  obtain ⟨exactly, pipesUsed, stamped⟩ := live_iff.mp live
  refine live_iff.mpr ⟨?_, pipesUsed, ?_⟩
  · rw [setFd_place, samePlace]
    cases refers : st.place i with
    | none =>
      rw [← place_unused unused, update_eq_self]
      exact exactly
    | some p => exact exactly.dup (place_unused unused) refers
  · intro fd p refers
    rw [setFd_place, samePlace] at refers
    show st.slotSerial p.1 = (update st.fds j (st.fds i) fd).serial
    by_cases here : fd = j
    · rw [here, update_self] at refers ⊢
      exact stamped i p refers
    · rw [update_of_ne here] at refers ⊢
      exact stamped fd p refers

/-! ### Closing -/

structure SameSlots (st st' : Vfs) : Prop where
  fds : st'.fds = st.fds
  pipes : st'.pipes = st.pipes
  marked : st'.marked = st.marked
  serial : ∀ s, st'.slotSerial s = st.slotSerial s

theorem epollDetachFd_same (fd : Int) : SameSlots st (st.epollDetachFd fd) := by
  have used (k : Fin vfsMaxEpoll) : ((st.epollDetachFd fd).epolls k).used = (st.epolls k).used := by
    simp only [epollDetachFd]
    split_ifs <;> rfl
  have serial (k : Fin vfsMaxEpoll) :
      ((st.epollDetachFd fd).epolls k).serial = (st.epolls k).serial := by
    simp only [epollDetachFd]
    split_ifs <;> rfl
  refine ⟨rfl, rfl, ?_, ?_⟩
  · funext entry
    obtain ⟨⟨kind, k⟩, e⟩ := entry
    cases kind <;> first | rfl | simp only [Vfs.marked, slotUsed, used]
  · rintro ⟨kind, k⟩
    cases kind <;> first | rfl | simp only [slotSerial, serial]

structure Unmarks (st st' : Vfs) (p : Place) : Prop where
  fds : st'.fds = st.fds
  marked : st'.marked = update st.marked p false
  pipesUsed : st'.PipesUsed
  serial : ∀ s, s ≠ p.1 ∨ p.1.1 = .pipe → st'.slotSerial s = st.slotSerial s

theorem SetsRow.unmarks (row : SetsRow st st' slot false serial) (pipesUsed : st.PipesUsed) :
    Unmarks st st' (slot, 0) where
  fds := row.fds
  marked := row.marked
  pipesUsed k := by
    rw [row.pipes]
    exact pipesUsed k
  serial s apart := by
    rw [row.serial, if_neg (apart.resolve_right row.other)]

theorem setPipe_unmarks (k : Fin vfsMaxPipes) (fdEnd : Fin 2) (isUsed : (st.pipes k).used = true)
    (pipesUsed : st.PipesUsed) :
    Unmarks st (st.setPipe k (closeEnd (st.pipes k) fdEnd)) ((.pipe, k.val), fdEnd) where
  fds := rfl
  marked := by
    have here (e : Fin 2) : st.marked ((.pipe, k.val), e) = (st.pipes k).isOpen e := by
      simp only [Vfs.marked, columnAt, dif_pos k.isLt]
    rw [setPipe_marked]
    funext p
    rcases Fin.exists_fin_two.mp ⟨fdEnd, rfl⟩ with rfl | rfl <;>
      simp only [closeEnd, update_apply] <;> split_ifs <;> simp_all
  pipesUsed j := by
    simp only [setPipe]
    by_cases same : j = k
    · subst same
      rw [update_self, closeEnd, isUsed, Bool.true_and]
    · rw [update_of_ne same]
      exact pipesUsed j
  serial s _ := by
    rw [setPipe_serial]
    split_ifs with same
    · rw [same]
      simp only [closeEnd, slotSerial, columnAt, dif_pos k.isLt]
    · rfl

theorem SameSlots.place (same : SameSlots st st') : st'.place = st.place := by
  funext fd
  rw [Vfs.place, same.fds, Vfs.place]

theorem SameSlots.live (same : SameSlots st st') (live : st.Live) : st'.Live := by
  obtain ⟨exactly, pipesUsed, stamped⟩ := live_iff.mp live
  refine live_iff.mpr ⟨?_, fun k => ?_, fun fd p refers => ?_⟩
  · rw [same.marked, same.place]
    exact exactly
  · rw [same.pipes]
    exact pipesUsed k
  · rw [same.place] at refers
    rw [same.serial, same.fds]
    exact stamped fd p refers

/-- A slot in use is one of its table. -/
theorem columnAt_true {column : Fin n → Bool} {index : U32}
    (isTrue : columnAt false column index.toNat = true) :
    ∃ k, slotOf n index = some k ∧ index.toNat = k.val ∧ column k = true := by
  unfold columnAt at isTrue
  split_ifs at isTrue with valid
  exact ⟨⟨index.toNat, valid⟩, slotOf_eq_some.mpr rfl, rfl, isTrue⟩

theorem Vfs.Live.releaseObject (live : st.Live) (refers : st.place fd = some p) :
    Unmarks st (st.releaseObject (st.fds fd)) p := by
  obtain ⟨⟨kind, k⟩, e⟩ := p
  obtain ⟨refersTo, counted, sameEnd⟩ := place_eq_some.mp refers
  have isUsed := (live.slots kind k counted).mpr ⟨fd, refersTo⟩
  have pipesUsed := (live_iff.mp live).2.1
  obtain ⟨-, sameKind, sameFile⟩ := refersTo
  simp only at sameKind sameFile sameEnd
  subst sameFile
  unfold releaseObject
  cases kind with
  | pipe =>
    rw [slotUsed] at isUsed
    obtain ⟨j, found, index, flag⟩ := columnAt_true isUsed
    rw [if_pos rfl] at sameEnd
    subst sameEnd
    simp only [sameKind, found, flag, index]
    exact setPipe_unmarks j _ flag pipesUsed
  | eventfd | timerfd | epoll =>
    rw [slotUsed] at isUsed
    obtain ⟨j, found, index, flag⟩ := columnAt_true isUsed
    simp only [sameKind, found, index, sameEnd]
    first
      | exact (setEvent_row j _).unmarks pipesUsed
      | exact (setTimer_row j _).unmarks pipesUsed
      | exact (setEpoll_row j _).unmarks pipesUsed
  | ram | blk | scsi | signalfd | pidfd | inotify | iouring => cases counted

/-- The other objects have other tables. -/
theorem releaseObject_same {entry : VfsFd} (other : entry.kind.counted = false) :
    SameSlots st (st.releaseObject entry) := by
  unfold releaseObject
  cases kind : entry.kind with
  | signalfd => cases slotOf vfsMaxSignalfd entry.file <;> exact ⟨rfl, rfl, rfl, fun _ => rfl⟩
  | inotify => cases slotOf vfsMaxInotify entry.file <;> exact ⟨rfl, rfl, rfl, fun _ => rfl⟩
  | ram | blk | scsi | pidfd | iouring => exact ⟨rfl, rfl, rfl, fun _ => rfl⟩
  | pipe | eventfd | timerfd | epoll =>
    rw [kind] at other
    cases other

/-- A descriptor, if it is open, is the last one for its end of a pipe or its object. -/
def Vfs.LastOf (st : Vfs) (fd : Int) : Prop :=
  ∀ i p, st.fdOk fd = some i → st.place i = some p → ∀ j, st.place j = some p → j = i

/-- A descriptor for a place has been closed, and the mark of the place is gone. -/
structure Closes (st st' : Vfs) (i : Fin vfsMaxFds) (p : Place) : Prop where
  fds : st'.fds = update st.fds i { st.fds i with used := false }
  place : st'.place = update st.place i none
  marked : st'.marked = update st.marked p false
  pipesUsed : st'.PipesUsed
  serial : ∀ s, s ≠ p.1 ∨ p.1.1 = .pipe → st'.slotSerial s = st.slotSerial s

theorem placeOf_closed (entry : VfsFd) : placeOf fd { entry with used := false } = none := by
  unfold placeOf
  rw [if_neg nofun]

theorem Vfs.Live.closes (live : st.Live) {fd : Int}
    (found : st.fdOk fd = some i) (refers : st.place i = some p) :
    Closes st (st.vfsRamClose fd).2 i p := by
  have detached : SameSlots st (st.epollDetachFd fd) := epollDetachFd_same fd
  have refersMid : (st.epollDetachFd fd).place i = some p := by
    exact refers
  have unmarks : Unmarks (st.epollDetachFd fd) ((st.epollDetachFd fd).releaseObject (st.fds i)) p :=
    (detached.live live).releaseObject refersMid
  simp only [vfsRamClose, found]
  constructor
  · simp [setFd, unmarks.fds, detached.fds]
  · rw [setFd_place, placeOf_closed]
    congr 1
    funext j
    rw [Vfs.place, unmarks.fds, ← Vfs.place, detached.place]
  · rw [setFd_marked, unmarks.marked, detached.marked]
  · exact unmarks.pipesUsed
  · intro s apart
    rw [← detached.serial]
    exact unmarks.serial s apart

/-- A descriptor of another kind is closed. -/
theorem Vfs.Live.close_other (live : st.Live) {fd : Int}
    (found : st.fdOk fd = some i) (refers : st.place i = none) : (st.vfsRamClose fd).2.Live := by
  obtain ⟨index, low, isUsed⟩ := fdOk_eq_some.mp found
  have other : (st.fds i).kind.counted = false := by
    by_contra counted
    rw [Bool.not_eq_false] at counted
    rw [Vfs.place, placeOf, if_pos ⟨by omega, isUsed, counted⟩] at refers
    cases refers
  have detached : SameSlots st (st.epollDetachFd fd) := epollDetachFd_same fd
  have released : SameSlots (st.epollDetachFd fd)
      ((st.epollDetachFd fd).releaseObject (st.fds i)) := releaseObject_same other
  have places : (((st.epollDetachFd fd).releaseObject (st.fds i)).setFd i
      { st.fds i with used := false }).place =
        ((st.epollDetachFd fd).releaseObject (st.fds i)).place := by
    rw [setFd_place, placeOf_closed, released.place, detached.place, ← refers, update_eq_self]
  obtain ⟨exactly, pipesUsed, stamped⟩ := live_iff.mp (released.live (detached.live live))
  simp only [vfsRamClose, found]
  refine live_iff.mpr ⟨by rw [places]; exact exactly, pipesUsed, fun j p place => ?_⟩
  rw [places] at place
  have different : j ≠ i := by
    rintro rfl
    rw [released.place, detached.place, refers] at place
    cases place
  have same := stamped j p place
  simp only [setFd, update_of_ne different]
  exact same

theorem Closes.live (closes : Closes st st' i p)
    (live : st.Live) (refers : st.place i = some p) (last : ∀ j, st.place j = some p → j = i) :
    st'.Live := by
  obtain ⟨exactly, -, stamped⟩ := live_iff.mp live
  refine live_iff.mpr ⟨?_, closes.pipesUsed, fun j q place => ?_⟩
  · rw [closes.marked, closes.place]
    exact (exactly.drop_iff refers).mpr last
  · rw [closes.place] at place
    have different : j ≠ i := by
      rintro rfl
      rw [update_self] at place
      cases place
    rw [update_of_ne different] at place
    have apart : q.1 ≠ p.1 ∨ p.1.1 = .pipe := by
      by_contra both
      rw [not_or, not_not] at both
      obtain ⟨-, -, sameEnd⟩ := place_eq_some.mp place
      obtain ⟨-, -, sameEnd'⟩ := place_eq_some.mp refers
      rw [both.1, if_neg both.2] at sameEnd
      rw [if_neg both.2] at sameEnd'
      exact different (last j (by rw [place, Prod.ext both.1 (sameEnd.trans sameEnd'.symm)]))
    rw [closes.serial q.1 apart, closes.fds, update_of_ne different]
    exact stamped j q place

/-- A place that has lost its mark has no other descriptor, also after one more is opened. -/
theorem Closes.last {st'' : Vfs} (closes : Closes st st' i p)
    (live : st''.Live) (marked : st''.marked = st'.marked)
    (places : ∀ j, j ≠ i → st''.place j = st'.place j) (j : Fin vfsMaxFds)
    (other : st.place j = some p) : j = i := by
  by_contra different
  have isMarked := ((live_iff.mp live).1 p).mpr
    ⟨j, by rw [places j different, closes.place, update_of_ne different]; exact other⟩
  rw [marked, closes.marked, update_self] at isMarked
  cases isMarked

/-- The first descriptor that is closed takes the object away. -/
theorem Vfs.Live.close_iff (live : st.Live) (fd : Int) :
    (st.vfsRamClose fd).2.Live ↔ st.LastOf fd := by
  constructor
  · intro after i p found refers
    exact (live.closes found refers).last after rfl fun _ _ => rfl
  · intro last
    cases found : st.fdOk fd with
    | none =>
      simp only [vfsRamClose, found]
      exact live
    | some i =>
      cases refers : st.place i with
      | none => exact live.close_other found refers
      | some p => exact (live.closes found refers).live live refers (last i p found refers)

/-- The condition under which `vfs_ram_dup2` keeps objects alive. -/
def Vfs.Dup2Last (st : Vfs) (old new : Int) : Prop :=
  (st.fdOk old).isSome = true → old ≠ new → st.LastOf new

theorem Vfs.Live.dup2_iff (live : st.Live) (old new : Int) :
    (st.vfsRamDup2 old new).2.Live ↔ st.Dup2Last old new := by
  unfold vfsRamDup2 Vfs.Dup2Last
  rcases found : st.fdOk old with _ | i
  · exact iff_of_true live nofun
  obtain ⟨index, low, isUsed⟩ := fdOk_eq_some.mp found
  by_cases target : 3 ≤ new ∧ new < vfsMaxFds
  swap
  · simp only [dif_neg target]
    refine iff_of_true live fun _ _ j p isOpen => ?_
    obtain ⟨same, low', -⟩ := fdOk_eq_some.mp isOpen
    exact absurd ⟨low', same ▸ (by exact_mod_cast j.isLt)⟩ target
  simp only [dif_pos target]
  by_cases same : old = new
  · rw [if_pos same]
    exact iff_of_true live fun _ different => absurd same different
  rw [if_neg same]
  let j : Fin vfsMaxFds := ⟨new.toNat, by omega⟩
  have indexNew : (j.val : Int) = new := Int.toNat_of_nonneg (by omega)
  have apart : i ≠ j := fun equal => same (by rw [← index, equal, indexNew])
  have isOpen : st.Open i := ⟨by omega, isUsed⟩
  by_cases inUse : (st.fds j).used = true
  · have foundNew : st.fdOk new = some j := fdOk_eq_some.mpr ⟨indexNew, by omega, inUse⟩
    rw [if_pos inUse]
    have closedFds := FdCall.vfsRamClose_fds foundNew
    constructor
    · intro after _ _ j' p isNew refers
      cases foundNew.symm.trans isNew
      refine (live.closes foundNew refers).last after (setFd_marked _) fun m different => ?_
      rw [setFd_place, update_of_ne different]
    · intro last
      have closed := (live.close_iff new).mpr (last rfl same)
      exact closed.copyFd ⟨isOpen.1, by rw [closedFds, update_of_ne apart]; exact isUsed⟩
        (by rw [closedFds, update_self]) (by omega)
  · rw [if_neg inUse]
    rw [Bool.not_eq_true] at inUse
    refine iff_of_true (live.copyFd isOpen inUse (by omega)) fun _ _ j' p isNew => ?_
    obtain ⟨index', -, isUsed'⟩ := fdOk_eq_some.mp isNew
    have equal : j' = j := Fin.ext (by omega)
    rw [equal, inUse] at isUsed'
    cases isUsed'

/-! ### Runs -/

inductive ObjectCall
  | pipe2
  | socketpair (nType : Int)
  | eventfd2 (init : U32)
  | timerfdCreate
  | epollCreate1
  | dup (fd : Int)
  | dup2 (old new : Int)
  | dupFrom (fd min : Int)
  | close (fd : Int)

def ObjectCall.run (st : Vfs) : ObjectCall → Vfs
  | .pipe2 => st.vfsRamPipe2.2
  | .socketpair nType => (st.vfsRamSocketpair nType).2
  | .eventfd2 init => (st.vfsRamEventfd2 init).2
  | .timerfdCreate => st.vfsRamTimerfdCreate.2
  | .epollCreate1 => st.vfsRamEpollCreate1.2
  | .dup fd => (st.vfsRamDup fd).2
  | .dup2 old new => (st.vfsRamDup2 old new).2
  | .dupFrom fd min => (st.vfsRamDupFrom fd min).2
  | .close fd => (st.vfsRamClose fd).2

/-- A call closes no descriptor that has a duplicate. -/
def ObjectCall.ClosesLast (st : Vfs) : ObjectCall → Prop
  | .close fd => st.LastOf fd
  | .dup2 old new => st.Dup2Last old new
  | _ => True

theorem Vfs.Live.dup (live : st.Live) (fd : Int) : (st.vfsRamDup fd).2.Live := by
  rcases FdCall.vfsRamDup_cases st fd with same | ⟨i, j, isOpen, free, same⟩
  · rw [same]
    exact live
  · rw [same]
    exact live.copyFd isOpen (freeFdFrom_eq_some free).1 (freeFdFrom_eq_some free).2

theorem Vfs.Live.dupFrom (live : st.Live) (fd min : Int) : (st.vfsRamDupFrom fd min).2.Live := by
  rcases FdCall.vfsRamDupFrom_cases st fd min with same | ⟨i, j, isOpen, free, same⟩
  · rw [same]
    exact live
  · rw [same]
    obtain ⟨unused, above⟩ := freeFdFrom_eq_some free
    refine live.copyFd isOpen unused (le_trans ?_ above)
    split_ifs <;> omega

theorem columnAt_val {column : Fin n → Bool} (k : Fin n) :
    columnAt false column k.val = column k := dif_pos k.isLt

/-- A call keeps objects alive exactly if it closes no descriptor that has a duplicate. -/
theorem ObjectCall.live_iff (live : st.Live) (call : ObjectCall) :
    (ObjectCall.run st call).Live ↔ call.ClosesLast st := by
  cases call with
  | pipe2 => exact iff_of_true live.pipeAllocPair trivial
  | socketpair nType =>
    refine iff_of_true ?_ trivial
    show (st.vfsRamSocketpair nType).2.Live
    unfold vfsRamSocketpair
    split_ifs
    · exact live
    · exact live.pipeAllocPair
  | eventfd2 init =>
    exact iff_of_true (live.makeObject rfl (by decide) (fun k => setEvent_row k _)
      (fun k => by rw [slotUsed, columnAt_val]) fun _ => rfl) trivial
  | timerfdCreate =>
    exact iff_of_true (live.makeObject rfl (by decide) (fun k => setTimer_row k _)
      (fun k => by rw [slotUsed, columnAt_val]) fun _ => rfl) trivial
  | epollCreate1 =>
    exact iff_of_true (live.makeObject rfl (by decide) (fun k => setEpoll_row k _)
      (fun k => by rw [slotUsed, columnAt_val]) fun _ => rfl) trivial
  | dup fd => exact iff_of_true (live.dup fd) trivial
  | dup2 old new => exact live.dup2_iff old new
  | dupFrom fd min => exact iff_of_true (live.dupFrom fd min) trivial
  | close fd => exact live.close_iff fd

theorem cleared_live (blk scsi : Disk) : (cleared blk scsi).Live := by
  have nothing (fd : Fin vfsMaxFds) : (cleared blk scsi).place fd = none := place_unused rfl
  refine live_iff.mpr ⟨fun p => iff_of_false ?_ ?_, fun _ => rfl, fun fd p refers => ?_⟩
  · obtain ⟨⟨kind, k⟩, e⟩ := p
    cases kind <;> simp [Vfs.marked, slotUsed, columnAt, cleared, PipePair.zero,
      VfsEpoll.zero]
  · rintro ⟨fd, refers⟩
    rw [nothing] at refers
    cases refers
  · rw [nothing] at refers
    cases refers

theorem seedFile_same (path text : Path) : SameSlots st (st.seedFile path text) := by
  unfold seedFile
  split_ifs
  · exact ⟨rfl, rfl, rfl, fun _ => rfl⟩
  · cases st.freeFile <;> exact ⟨rfl, rfl, rfl, fun _ => rfl⟩

theorem vfsRamInit_live (blk scsi : Disk) : (vfsRamInit blk scsi).Live :=
  List.foldlRecOn _ _ (cleared_live blk scsi) fun _ live _ _ => (seedFile_same _ _).live live

/-- The runs along which pipes, eventfd, timerfd and epoll objects live as long as their
descriptors are those that close no descriptor while it has a duplicate. -/
theorem objectCalls_live_iff (blk scsi : Disk) (calls : List ObjectCall) :
    (∀ front, front <+: calls → (front.foldl ObjectCall.run (vfsRamInit blk scsi)).Live) ↔
      StepRuns.Meets ObjectCall.run (fun st call => call.ClosesLast st)
        (vfsRamInit blk scsi) calls :=
  (StepRuns.meets_iff_prefixes (fun _ call live => call.live_iff live)
    (vfsRamInit_live blk scsi)).symm

theorem Vfs.RefersTo.of_entry {st : Vfs} {fd : Fin vfsMaxFds} {entry : VfsFd} (low : 3 ≤ fd.val)
    (is : st.fds fd = entry) (used : entry.used = true) :
    st.RefersTo fd entry.kind entry.file.toNat := by
  subst is
  exact ⟨⟨low, used⟩, rfl, rfl⟩

def sampleObjects (calls : List ObjectCall) : Vfs :=
  calls.foldl ObjectCall.run (vfsRamInit sampleDisk sampleDisk)

/-- The write end of a pipe is duplicated and the duplicate closed: the end is closed for the
descriptor that is left. An eventfd is duplicated and closed: the next eventfd gets the slot that
the duplicate still stands for. -/
theorem objectCalls_dup_closed : ((sampleObjects [.pipe2, .dup 4, .close 5]).fds 4 =
        { used := true, kind := .pipe, fdEnd := 1, file := 0, off := 0, serial := 24 } ∧
      ((sampleObjects [.pipe2, .dup 4, .close 5]).pipes 0).isOpen 1 = false ∧
      ¬ (sampleObjects [.pipe2, .dup 4, .close 5]).Live) ∧
    (sampleObjects [.eventfd2 5, .dup 3, .close 3, .eventfd2 7]).fds 4 =
        { used := true, kind := .eventfd, fdEnd := 0, file := 0, off := 0, serial := 24 } ∧
      (sampleObjects [.eventfd2 5, .dup 3, .close 3, .eventfd2 7]).events 0 =
        { used := true, cnt := 7, serial := 25 } ∧
      ¬ (sampleObjects [.eventfd2 5, .dup 3, .close 3, .eventfd2 7]).Live := by
  have pipe : (sampleObjects [.pipe2, .dup 4, .close 5]).fds 4 =
        { used := true, kind := .pipe, fdEnd := 1, file := 0, off := 0, serial := 24 } ∧
      ((sampleObjects [.pipe2, .dup 4, .close 5]).pipes 0).isOpen 1 = false := by decide +kernel
  have event : (sampleObjects [.eventfd2 5, .dup 3, .close 3, .eventfd2 7]).fds 4 =
        { used := true, kind := .eventfd, fdEnd := 0, file := 0, off := 0, serial := 24 } ∧
      (sampleObjects [.eventfd2 5, .dup 3, .close 3, .eventfd2 7]).events 0 =
        { used := true, cnt := 7, serial := 25 } ∧
      (sampleObjects [.eventfd2 5, .dup 3, .close 3, .eventfd2 7]).slotSerial (.eventfd, 0) =
        25 := by decide +kernel
  refine ⟨⟨pipe.1, pipe.2, fun live => ?_⟩, event.1, event.2.1, fun live => ?_⟩
  · have refers := RefersTo.of_entry (by decide) pipe.1 (by rfl)
    have isOpen := (live.ends 0 1).mpr ⟨4, refers, congrArg VfsFd.fdEnd pipe.1⟩
    exact nomatch pipe.2.symm.trans isOpen
  · have refers := RefersTo.of_entry (by decide) event.1 (by rfl)
    have same := live.serials 4 .eventfd 0 rfl refers
    rw [event.1, event.2.2] at same
    exact absurd same (by decide)

end GreenJade.Fs

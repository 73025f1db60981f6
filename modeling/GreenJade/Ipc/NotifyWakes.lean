import GreenJade.Ipc.Notify
import GreenJade.Lib.StepRuns
import Mathlib.Algebra.Order.BigOperators.Group.Finset
import Mathlib.Data.Fintype.Sum

/-! Owns the sleepers of a notification object: who is registered, and in which runs no thread
sleeps on a bit of its mask that is pending. A thread is missed where a wake stops at its budget,
and where its entry of the thread table is written by `thread_block` and a wake at once. -/

namespace GreenJade.Ipc

open GreenJade.Sched Finset NotifySys

universe u

variable {κ : Type u}

/-! ### Waits that are registered -/

namespace NotifyPc

/-- The variables of the wait that a place belongs to. -/
def wait? : NotifyPc → Option Wait
  | .enter w | .check w | .load w | .swap w _ | .leave w _ | .leaveHint w _ | .uncount w _
  | .register w | .hint w | .blockObj w | .blockTag w | .blockState w | .sample w | .sampleLive w
  | .selfWake w _ | .sched w | .unhint w | .clearHint w => some w
  | _ => none

/-- The loop of `thread_wake` that a place belongs to. -/
def scan? : NotifyPc → Option Scan
  | .selfWake _ s | .scan _ s => some s
  | _ => none

def mask (pc : NotifyPc) : U64 := (pc.wait?.map Wait.mask).getD 0

/-- How often a wait is counted in `u32Waiters`. -/
def counts (pc : NotifyPc) : Nat := if pc.wait?.any Wait.fRegistered then 1 else 0

/-- A wait is registered from before it blocks to its end; only threads register. -/
def Sane (a : Agent κ) : NotifyPc → Prop
  | .hint w | .blockObj w | .blockTag w | .blockState w | .sample w | .sampleLive w | .selfWake w _
  | .sched w | .unhint w | .clearHint w | .leaveHint w _ | .uncount w _ =>
    w.fRegistered = true ∧ threadCurrent a ≠ none
  | .check w | .load w | .swap w _ | .leave w _ =>
    w.fRegistered = true → threadCurrent a ≠ none
  | .register w => w.fRegistered = false ∧ threadCurrent a ≠ none
  | .enter w => w.fRegistered = false
  | _ => True

/-- The places in which a thread may be blocked. -/
def Parks : NotifyPc → Prop
  | .sample _ | .sampleLive _ | .selfWake _ _ | .sched _ => True
  | _ => False

def isSched : NotifyPc → Bool
  | .sched _ => true
  | _ => false

end NotifyPc

/-- A wake that has tested the state of a thread and not yet made its last store to the entry. -/
def Scan.mid (s : Scan) (t : Thr) : Bool := s.phase ≠ .state && s.iThr = t.val

/-- A wake that has begun to clear the entry of a thread. -/
def Scan.clears (s : Scan) (t : Thr) : Bool :=
  (s.phase = .clearTag || s.phase = .ready) && s.iThr = t.val

/-- Where the loop ends no entry is being cleared. -/
theorem Scan.not_clears_of_end {s : Scan} {max : Nat}
    (ends : ¬ (s.iThr < gjMaxThreads ∧ (s.phase = .state → s.n < max))) (t : Thr) :
    s.clears t = false := by
  refine Bool.eq_false_iff.mpr fun clears => ends ?_
  obtain ⟨late, same⟩ := Bool.and_eq_true_iff.mp clears
  refine ⟨lt_of_eq_of_lt (of_decide_eq_true same) t.isLt, fun state => ?_⟩
  rw [state] at late
  exact Bool.noConfusion late

namespace NotifyPc

def mid (t : Thr) (pc : NotifyPc) : Bool := pc.scan?.any (·.mid t)

def clears (t : Thr) (pc : NotifyPc) : Bool := pc.scan?.any (·.clears t)

/-- Wakes that come to all threads, if their budget lasts. -/
def serves : NotifyPc → Bool
  | .hasHint .pulse | .hasCount .pulse | .scan .pulse _ | .selfWake _ _ => true
  | _ => false

/-- Places in a wait or a pulse, or between the stores of another wake to an entry. -/
def working (pc : NotifyPc) : Bool :=
  match pc with
  | .idle | .kill => false
  | .hasHint _ | .hasCount _ | .scan _ _ => pc.serves || decide (∃ t, pc.clears t = true)
  | _ => true

/-- The loop of a wake does not stop at its budget while a thread further up is blocked. -/
def Ample (blocked : Thr → Bool) (pc : NotifyPc) : Prop :=
  pc.serves = true → ∀ s ∈ pc.scan?, s.phase = .state → notifySoftMultiMax ≤ s.n →
    ∀ t : Thr, s.iThr ≤ t.val → blocked t = false

/-- A wake in progress that will come to a thread. -/
def Covers (t : Thr) (pc : NotifyPc) : Prop :=
  pc.clears t = true ∨ pc.serves = true ∧ ∀ s ∈ pc.scan?, s.iThr ≤ t.val

/-- The places between the stores of `thread_block`, with what was stored before. -/
def Stored (obj tag : Bool) : NotifyPc → Prop
  | .blockTag _ => obj = true
  | .blockState _ => obj = true ∧ tag = true
  | _ => True

def blocks : NotifyPc → Bool
  | .blockTag _ | .blockState _ => true
  | _ => false

/-- The first store of `thread_block` is next. -/
def entersBlock : NotifyPc → Bool
  | .blockObj _ => true
  | _ => false

section Covers

variable {pc : NotifyPc} {t : Thr} {waker : Waker}

theorem not_covers (scan : pc.scan? = none) (idle : pc.serves = false) : ¬ pc.Covers t := by
  rintro (clears | ⟨serves, -⟩)
  · rw [NotifyPc.clears, scan] at clears
    exact Bool.noConfusion clears
  · exact Bool.noConfusion (idle.symm.trans serves)

theorem covers_iff {s : Scan} (scan : pc.scan? = some s) :
    pc.Covers t ↔ s.clears t = true ∨ pc.serves = true ∧ s.iThr ≤ t.val := by
  simp [Covers, clears, scan]

theorem covers_start (w : Wait) : (selfWake w .start).Covers t :=
  (covers_iff rfl).mpr (.inr ⟨rfl, Nat.zero_le _⟩)

theorem pulse_of_covers (covers : (hasHint waker).Covers t ∨ (hasCount waker).Covers t) :
    waker = .pulse := by
  cases waker with
  | pulse => rfl
  | kick | abort | drain => exact (covers.elim (not_covers rfl rfl) (not_covers rfl rfl)).elim

theorem wakePc_covers (covers : (hasHint waker).Covers t ∨ (hasCount waker).Covers t) :
    (wakePc waker).Covers t := by
  obtain rfl := pulse_of_covers covers
  exact (covers_iff rfl).mpr (.inr ⟨rfl, Nat.zero_le _⟩)

end Covers

theorem Parks.working {pc : NotifyPc} (parks : pc.Parks) : pc.working = true := by
  cases pc <;> first | rfl | exact parks.elim

theorem Covers.working {pc : NotifyPc} {t : Thr} (covers : pc.Covers t) : pc.working = true := by
  cases pc with
  | hasHint | hasCount | scan =>
    rw [NotifyPc.working, Bool.or_eq_true, decide_eq_true_iff]
    exact covers.symm.imp And.left fun clears => ⟨t, clears⟩
  | idle | kill => exact (covers.elim Bool.noConfusion fun serves => Bool.noConfusion serves.1)
  | _ => rfl

instance (blocked : Thr → Bool) : DecidablePred (NotifyPc.Ample blocked) :=
  fun _ => inferInstanceAs (Decidable (_ → ∀ s ∈ _, _ → _ → ∀ _ : Thr, _ → _))

end NotifyPc

namespace NotifySys

section Registered

variable {st : NotifySys κ} {pc : NotifyPc}

/-- A thread is blocked only in a wait, and the waits that are registered are counted. -/
structure Registered (st : NotifySys κ) : Prop where
  sane : ∀ a, (st.pc a).Sane a
  parked : ∀ t, st.blocked t = true → (st.pc (.inl t)).Parks
  counted : st.waiters = ∑ t, (st.pc (.inl t)).counts

/-- A thread will be woken: it looks at the bits itself, or a wake comes to it. -/
def Awaited (st : NotifySys κ) (t : Thr) : Prop :=
  (∃ w, st.pc (.inl t) = .sample w) ∨ ∃ a, (st.pc a).Covers t

/-- No thread sleeps on a bit of its mask unless it will be woken. -/
def Heard (st : NotifySys κ) : Prop :=
  ∀ t, st.blocked t = true → st.pending &&& (st.pc (.inl t)).mask ≠ 0 → st.Awaited t

theorem counts_eq_zero {k : κ} (sane : pc.Sane (.inr k : Agent κ)) : pc.counts = 0 := by
  cases pc with
  | hint | blockObj | blockTag | blockState | sample | sampleLive | selfWake | sched | unhint
  | clearHint | leaveHint | uncount | register => exact absurd rfl sane.2
  | check | load | swap | leave => exact if_neg fun registered => sane registered rfl
  | enter w => exact if_neg fun registered => Bool.false_ne_true (sane.symm.trans registered)
  | idle | pulse | post | hasHint | hasCount | scan | kill => rfl

theorem Registered.counts_le (registered : st.Registered) (t : Thr) :
    (st.pc (.inl t)).counts ≤ st.waiters := by
  rw [registered.counted]
  exact single_le_sum (f := fun u => (st.pc (.inl u)).counts)
    (fun _ _ => Nat.zero_le _) (mem_univ t)

/-- While a thread is blocked somebody is counted. -/
theorem Registered.waiters_pos (registered : st.Registered) {t : Thr}
    (asleep : st.blocked t = true) : 0 < st.waiters := by
  have parks := registered.parked t asleep
  have sane := registered.sane (.inl t)
  have counted := registered.counts_le t
  suffices one : (st.pc (.inl t)).counts = 1 by omega
  cases here : st.pc (.inl t) with
  | sample | sampleLive | selfWake | sched =>
    rw [here] at sane
    exact if_pos sane.1
  | idle | enter | check | load | swap | leave | leaveHint | uncount | register | hint | blockObj
  | blockTag | blockState | unhint | clearHint | pulse | post | hasHint | hasCount | scan | kill =>
    rw [here] at parks
    exact parks.elim

theorem Registered.init : (init : NotifySys κ).Registered where
  sane _ := trivial
  parked _ blocked := absurd blocked Bool.false_ne_true
  counted := (sum_eq_zero fun _ _ => rfl).symm

theorem wakePc_sane (a : Agent κ) (waker : Waker) :
    (wakePc waker).Sane a ∧ (wakePc waker).counts = 0 := by
  rcases wakePc_eq waker with next | next <;> rw [next] <;> exact ⟨trivial, rfl⟩

theorem afterScan_sane (a : Agent κ) (waker : Waker) (n : Nat) :
    (afterScan waker n).Sane a ∧ (afterScan waker n).counts = 0 := by
  rcases afterScan_eq waker n with next | ⟨iRound, next⟩ <;> rw [next] <;> exact ⟨trivial, rfl⟩

/-- A thread sleeps in `schedule`. -/
def Asleep (st : NotifySys κ) (a : Agent κ) : Prop :=
  (st.pc a).isSched = true ∧ (threadCurrent a).any st.blocked = true

instance (st : NotifySys κ) : DecidablePred st.Asleep :=
  fun _ => inferInstanceAs (Decidable (_ ∧ _))

/-- Nobody is runnable in a wait or a pulse, or between the stores of another wake to an entry. -/
def Quiet (st : NotifySys κ) : Prop := ∀ a, (st.pc a).working = true → st.Asleep a

instance [Fintype κ] (st : NotifySys κ) : Decidable st.Quiet :=
  inferInstanceAs (Decidable (∀ a, (st.pc a).working = true → st.Asleep a))

theorem Asleep.sched {a : Agent κ} (asleep : st.Asleep a) : ∃ w, st.pc a = .sched w := by
  cases here : st.pc a with
  | sched w => exact ⟨w, rfl⟩
  | _ => exact absurd asleep.1 (by rw [here]; exact Bool.false_ne_true)

/-- Nobody sleeps on a bit when nobody is runnable. -/
theorem Heard.quiet (heard : st.Heard) (registered : st.Registered) (quiet : st.Quiet) {t : Thr}
    (asleep : st.blocked t = true) :
    ∃ w, st.pc (.inl t) = .sched w ∧ st.pending &&& w.mask = 0 := by
  obtain ⟨w, here⟩ := (quiet _ (registered.parked t asleep).working).sched
  refine ⟨w, here, not_not.mp fun bits => ?_⟩
  have bits : st.pending &&& (st.pc (.inl t)).mask ≠ 0 := by
    rw [here]
    exact bits
  rcases heard t asleep bits with ⟨w', samples⟩ | ⟨a, covers⟩
  · rw [here] at samples
    cases samples
  · obtain ⟨w', sleeps⟩ := (quiet a covers.working).sched
    rw [sleeps] at covers
    exact covers.elim Bool.noConfusion fun serves => Bool.noConfusion serves.1

/-! ### Entries of the thread table -/

/-- A blocked thread is in the table as a waiter, or somebody clears its entry to wake it; and
between the stores of `thread_block` no wake is at work on the entry. -/
structure Linked (st : NotifySys κ) : Prop where
  held : ∀ t, st.blocked t = true →
    st.blockObj t = true ∧ st.blockTag t = true ∨ ∃ a, (st.pc a).clears t = true
  stored : ∀ t, (st.pc (.inl t)).Stored (st.blockObj t) (st.blockTag t)
  alone : ∀ t, (st.pc (.inl t)).blocks = true → ∀ a, (st.pc a).mid t = false

/-- `thread_block` is entered while no wake is at work on the thread's entry. -/
def Unraced (st : NotifySys κ) : NotifyAct κ → Prop
  | .call _ _ => True
  | .step a => (st.pc a).entersBlock = true → ∀ t ∈ threadCurrent a, ∀ b, (st.pc b).mid t = false

instance [Fintype κ] (st : NotifySys κ) : DecidablePred st.Unraced
  | .call _ _ => inferInstanceAs (Decidable True)
  | .step _ => inferInstanceAs (Decidable (_ → ∀ t ∈ _, ∀ b : Agent κ, (st.pc b).mid t = false))

theorem Linked.init : (init : NotifySys κ).Linked where
  held _ blocked := absurd blocked Bool.false_ne_true
  stored _ := trivial
  alone _ blocks := absurd blocks Bool.false_ne_true

/-- A wake that clears the entry of a thread goes on to wake it. -/
theorem clears_wakeEntry {s : Scan} {u t : Thr} (entry : s.iThr = u.val)
    (asleep : (st.wakeEntry u s).1.blocked t = true) (clears : s.clears t = true) :
    (st.wakeEntry u s).2.clears t = true := by
  obtain ⟨iThr, n, phase⟩ := s
  cases phase with
  | clearTag => exact clears
  | ready =>
    have same : t = u := Fin.ext ((of_decide_eq_true clears).symm.trans entry)
    simp [wakeEntry, setBlocked_apply, same] at asleep
  | state | obj | tag | clearObj => exact Bool.noConfusion clears

section Scan

variable {a : Agent κ} {s : Scan} (linked : st.Linked) (here : (st.pc a).scan? = some s) {u : Thr}
  (entry : s.iThr = u.val)
include linked here entry

/-- After an access of a wake, a thread that is still blocked is in the table, or it is being
woken. -/
theorem Linked.held_wakeEntry {t : Thr} (asleep : (st.wakeEntry u s).1.blocked t = true) :
    (st.wakeEntry u s).1.blockObj t = true ∧ (st.wakeEntry u s).1.blockTag t = true ∨
      (st.wakeEntry u s).2.clears t = true ∨ ∃ b, b ≠ a ∧ (st.pc b).clears t = true := by
  have before := linked.held t ((st.wakes_wakeEntry u s).blocked t asleep)
  rcases before with linked | ⟨b, clears⟩
  · obtain ⟨iThr, n, phase⟩ := s
    subst entry
    cases phase with
    | state | obj | tag | ready => exact .inl linked
    | clearObj | clearTag =>
      by_cases same : t = u
      · exact .inr (.inl (by simp [wakeEntry, Scan.clears, same]))
      · refine .inl ?_
        simpa [wakeEntry, Function.update_of_ne same] using linked
  · by_cases self : b = a
    · rw [self, NotifyPc.clears, here] at clears
      exact .inr (.inl (clears_wakeEntry entry asleep clears))
    · exact .inr (.inr ⟨b, self, clears⟩)

/-- An access of a wake leaves the entry of a thread in `thread_block` alone. -/
theorem Linked.kept_wakeEntry (registered : st.Registered) {t : Thr}
    (blocks : (st.pc (.inl t)).blocks = true) :
    (st.wakeEntry u s).1.blockObj t = st.blockObj t ∧
      (st.wakeEntry u s).1.blockTag t = st.blockTag t ∧ (st.wakeEntry u s).2.mid t = false := by
  have away := linked.alone t blocks a
  rw [NotifyPc.mid, here] at away
  replace away : s.mid t = false := away
  have runs : st.blocked t = false := by
    by_contra blocked
    have parks := registered.parked t (Bool.eq_true_of_not_eq_false blocked)
    cases place : st.pc (.inl t) with
    | blockTag | blockState =>
      rw [place] at parks
      exact parks
    | _ =>
      rw [place] at blocks
      exact Bool.noConfusion blocks
  obtain ⟨iThr, n, phase⟩ := s
  subst entry
  cases phase with
  | state =>
    refine ⟨rfl, rfl, ?_⟩
    dsimp only [wakeEntry]
    split_ifs with blocked
    · refine decide_eq_false fun same => ?_
      rw [Fin.ext same, runs] at blocked
      exact Bool.noConfusion blocked
    · rfl
  | obj | tag =>
    refine ⟨rfl, rfl, ?_⟩
    dsimp only [wakeEntry]
    split_ifs
    · exact away
    · rfl
  | clearObj | clearTag | ready =>
    have other : t ≠ u := fun same => of_decide_eq_false away (congrArg Fin.val same.symm)
    simp [wakeEntry, Function.update_of_ne other, Scan.mid, Scan.next, Fin.val_ne_of_ne other.symm]

/-- A wake that comes to a blocked thread goes on to it, unless another one clears the entry. -/
theorem Linked.reaches_wakeEntry {t : Thr} (asleep : (st.wakeEntry u s).1.blocked t = true)
    (reaches : s.iThr ≤ t.val) : (st.wakeEntry u s).2.iThr ≤ t.val ∨
      ∃ b, b ≠ a ∧ (st.pc b).clears t = true := by
  have before := linked.held t ((st.wakes_wakeEntry u s).blocked t asleep)
  have past (other : t ≠ u) : s.iThr + 1 ≤ t.val := by
    have := Fin.val_ne_of_ne other
    omega
  have missed (idle : s.clears t = false) (gone : ¬ (st.blockObj t = true ∧ st.blockTag t = true)) :
      ∃ b, b ≠ a ∧ (st.pc b).clears t = true := by
    obtain ⟨b, clears⟩ := before.resolve_left gone
    refine ⟨b, ?_, clears⟩
    rintro rfl
    rw [NotifyPc.clears, here] at clears
    exact Bool.noConfusion (idle.symm.trans clears)
  obtain ⟨iThr, n, phase⟩ := s
  cases phase with
  | state =>
    dsimp only [wakeEntry] at asleep ⊢
    split_ifs with blocked
    · exact .inl reaches
    · exact .inl (past fun same => blocked (same ▸ asleep))
  | obj =>
    dsimp only [wakeEntry]
    split_ifs with obj
    · exact .inl reaches
    · by_cases same : t = u
      · exact .inr (missed rfl fun linked => obj (same ▸ linked.1))
      · exact .inl (past same)
  | tag =>
    dsimp only [wakeEntry]
    split_ifs with tag
    · exact .inl reaches
    · by_cases same : t = u
      · exact .inr (missed rfl fun linked => tag (same ▸ linked.2))
      · exact .inl (past same)
  | clearObj | clearTag => exact .inl reaches
  | ready =>
    refine .inl (past ?_)
    rintro rfl
    simp [wakeEntry, setBlocked_apply] at asleep

end Scan

end Registered

variable [DecidableEq κ] {st base : NotifySys κ} {a : Agent κ} {old pc : NotifyPc}

/-! ### Steps that keep the registered waits -/

theorem sum_counts_goto (st : NotifySys κ) (t : Thr) (pc : NotifyPc) :
    ∑ u, ((st.goto (.inl t) pc).pc (.inl u)).counts + (st.pc (.inl t)).counts =
      ∑ u, (st.pc (.inl u)).counts + pc.counts := by
  have others : ∀ u ∈ univ.erase t,
      ((st.goto (.inl t) pc).pc (.inl u)).counts = (st.pc (.inl u)).counts := by
    intro u other
    rw [goto_pc, if_neg fun same => ne_of_mem_erase other (Sum.inl.inj same)]
  have after := add_sum_erase univ
    (fun u => ((st.goto (.inl t) pc).pc (.inl u)).counts) (mem_univ t)
  have before := add_sum_erase univ (fun u => (st.pc (.inl u)).counts)
    (mem_univ t)
  rw [sum_congr rfl others, goto_pc, if_pos rfl] at after
  omega

theorem sum_counts_other (st : NotifySys κ) (k : κ) (pc : NotifyPc) :
    ∑ u, ((st.goto (.inr k) pc).pc (.inl u)).counts = ∑ u, (st.pc (.inl u)).counts :=
  sum_congr rfl fun u _ => by rw [goto_pc, if_neg Sum.inl_ne_inr]

namespace Registered

/-- Somebody moves on in a call. -/
theorem goto (registered : st.Registered) (here : st.pc a = old) (others : base.pc = st.pc)
    (blocked : ∀ t, base.blocked t = true → st.blocked t = true ∨ a = .inl t)
    (sane : pc.Sane a) (parks : ∀ t, a = .inl t → base.blocked t = true → pc.Parks)
    (counted : base.waiters + old.counts = st.waiters + pc.counts) :
    (base.goto a pc).Registered where
  sane b := by
    rw [goto_pc, others]
    split_ifs with same
    · exact same ▸ sane
    · exact registered.sane b
  parked t asleep := by
    rw [goto_pc, others]
    split_ifs with same
    · exact parks t same.symm asleep
    · exact registered.parked t ((blocked t asleep).resolve_right fun own => same own.symm)
  counted := by
    show base.waiters = _
    have before := registered.counted
    rw [← here] at counted
    cases a with
    | inl t =>
      have change := sum_counts_goto base t pc
      rw [others] at change
      omega
    | inr k =>
      rw [sum_counts_other, others]
      have out := counts_eq_zero (registered.sane (.inr k))
      have stays := counts_eq_zero sane
      omega

theorem scanStep {max : Nat} {s : Scan} {again : Scan → NotifyPc} {done : NotifyPc}
    (registered : st.Registered) (here : st.pc a = old) (sane : ∀ s, (again s).Sane a)
    (saneDone : done.Sane a) (parks : old.Parks → ∀ s, (again s).Parks)
    (parksDone : old.Parks → done.Parks) (counts : ∀ s, (again s).counts = old.counts)
    (countsDone : done.counts = old.counts) :
    (st.scanStep a max s again done).Registered := by
  have own (t : Thr) (self : a = .inl t) (blocked : st.blocked t = true) : old.Parks :=
    here ▸ self ▸ registered.parked t blocked
  unfold NotifySys.scanStep
  split_ifs with inside
  · have wakes := st.wakes_wakeEntry ⟨s.iThr, inside.1⟩ s
    exact registered.goto here wakes.pc (fun t asleep => .inl (wakes.blocked t asleep)) (sane _)
      (fun t self asleep => parks (own t self (wakes.blocked t asleep)) _)
      (by rw [counts, wakes.waiters])
  · exact registered.goto here rfl (fun _ => .inl) saneDone
      (fun t self blocked => parksDone (own t self blocked)) (by rw [countsDone])

/-- A thread that is not blocked moves on to a place where it need not park. -/
theorem plain (registered : st.Registered) (here : st.pc a = old) (sane : pc.Sane a)
    (counted : base.waiters + old.counts = st.waiters + pc.counts := by rfl)
    (others : base.pc = st.pc := by rfl) (blocked : base.blocked = st.blocked := by rfl)
    (runs : ¬old.Parks := by exact id) : (base.goto a pc).Registered :=
  registered.goto here others (fun _ asleep => .inl (blocked ▸ asleep)) sane
    (fun _ own asleep => absurd (here ▸ own ▸ registered.parked _ (blocked ▸ asleep)) runs) counted

theorem step (registered : st.Registered) (a : Agent κ) : (st.step a).Registered := by
  have sane := registered.sane a
  unfold NotifySys.step
  generalize here : st.pc a = old at sane
  cases old with
  | idle => exact registered
  | enter w =>
    have unregistered (set : w.fRegistered = true) : threadCurrent a ≠ none :=
      nomatch sane.symm.trans set
    split_ifs <;> exact registered.plain here unregistered
  | check w | swap w pend =>
    dsimp only
    split_ifs <;> exact registered.plain here sane
  | load w =>
    dsimp only
    split_ifs with some ends set
    · exact registered.plain here sane
    · exact registered.plain here sane
    · exact registered.plain here ⟨set, sane set⟩
    · exact registered.plain here ⟨Bool.eq_false_iff.mpr set, fun none => ends (.inr none)⟩
  | leave w got =>
    dsimp only
    split_ifs with set hinted
    · exact registered.plain here ⟨set, sane set⟩
    · exact registered.plain here ⟨set, sane set⟩
    · refine registered.plain here trivial ?_
      exact congrArg (st.waiters + ·) (if_neg set)
  | uncount w got =>
    have one : (NotifyPc.uncount w got).counts = 1 := if_pos sane.1
    refine registered.plain here trivial ?_
    cases a with
    | inr k => exact absurd rfl sane.2
    | inl t =>
      have counted := registered.counts_le t
      rw [here] at counted
      rw [one] at counted ⊢
      exact Nat.sub_add_cancel counted
  | register w =>
    refine registered.plain here ⟨rfl, sane.2⟩ ?_
    rw [show (NotifyPc.register w).counts = 0 from
      if_neg fun set => Bool.false_ne_true (sane.1.symm.trans set)]
    rfl
  | hint w | leaveHint w got => exact registered.plain here sane
  | blockObj w | blockTag w =>
    cases a with
    | inl t | inr k => exact registered.plain here sane
  | blockState w =>
    cases a with
    | inr k => exact absurd rfl sane.2
    | inl t =>
      refine registered.goto here rfl (fun u blocked => ?_) sane (fun _ _ _ => trivial) rfl
      dsimp only [threadStore, threadCurrent, Option.elim] at blocked
      rw [setBlocked_apply] at blocked
      split_ifs at blocked with same
      · exact .inr (congrArg Sum.inl same.symm)
      · exact .inl blocked
  | sample w | sampleLive w =>
    dsimp only
    split_ifs <;>
      exact registered.goto here rfl (fun _ => .inl) sane (fun _ _ _ => trivial) rfl
  | selfWake w s =>
    exact registered.scanStep here (fun _ => sane) sane (fun _ _ => trivial) (fun _ => trivial)
      (fun _ => rfl) rfl
  | sched w =>
    dsimp only
    split_ifs with asleep
    · exact registered
    · refine registered.goto here rfl (fun _ => .inl) sane (fun t own blocked => ?_) rfl
      subst own
      exact absurd blocked asleep
  | unhint w =>
    dsimp only
    split_ifs
    · exact registered.plain here sane
    · exact registered.plain here (fun _ => sane.2)
  | clearHint w => exact registered.plain here (fun _ => sane.2)
  | pulse badge =>
    split_ifs <;> exact registered.plain here trivial
  | post badge | kill => exact registered.plain here trivial
  | hasHint waker | hasCount waker =>
    dsimp only
    split_ifs
    · exact registered.plain here (wakePc_sane a waker).1
        (by rw [(wakePc_sane a waker).2]; rfl)
    · exact registered.plain here trivial
  | scan waker s =>
    exact registered.scanStep here (fun _ => trivial) (afterScan_sane a waker s.n).1
      (fun parks => parks.elim) (fun parks => parks.elim) (fun _ => rfl)
      (afterScan_sane a waker s.n).2

theorem next (registered : st.Registered) (act : NotifyAct κ) : (st.next act).Registered := by
  cases act with
  | step a => exact registered.step a
  | call a call =>
    unfold NotifySys.next
    dsimp only
    split_ifs with idle
    · cases call <;> exact registered.plain idle (by trivial)
    · exact registered

end Registered

/-! ### Steps that leave nobody asleep -/

namespace Linked

/-- Somebody moves on in a call. -/
theorem goto (linked : st.Linked) (others : base.pc = st.pc)
    (held : ∀ t, base.blocked t = true → base.blockObj t = true ∧ base.blockTag t = true ∨
      pc.clears t = true ∨ ∃ b, b ≠ a ∧ (st.pc b).clears t = true)
    (own : ∀ t, a = .inl t → pc.Stored (base.blockObj t) (base.blockTag t) ∧
      (pc.blocks = true → ∀ b, b ≠ a → (st.pc b).mid t = false))
    (kept : ∀ t, (st.pc (.inl t)).blocks = true → a ≠ .inl t →
      base.blockObj t = st.blockObj t ∧ base.blockTag t = st.blockTag t ∧ pc.mid t = false) :
    (base.goto a pc).Linked where
  held t asleep := by
    refine (held t asleep).imp_right fun clears => ?_
    rcases clears with clears | ⟨b, other, clears⟩
    · exact ⟨a, by rw [goto_pc, if_pos rfl]; exact clears⟩
    · exact ⟨b, by rw [goto_pc, if_neg other, others]; exact clears⟩
  stored t := by
    rw [goto_pc, others]
    split_ifs with same
    · exact (own t same.symm).1
    · have stored := linked.stored t
      have kept := kept t
      cases here : st.pc (.inl t) with
      | blockTag w | blockState w =>
        rw [here] at stored kept
        obtain ⟨obj, tag, -⟩ := kept rfl (Ne.symm same)
        show NotifyPc.Stored (base.blockObj t) (base.blockTag t) _
        rw [obj, tag]
        exact stored
      | _ => trivial
  alone t blocks b := by
    rw [goto_pc, others] at blocks ⊢
    by_cases same : (.inl t : Agent κ) = a
    · rw [if_pos same] at blocks
      split_ifs with self
      · cases pc with
        | blockTag | blockState => rfl
        | _ => exact absurd blocks Bool.false_ne_true
      · exact (own t same.symm).2 blocks b self
    · rw [if_neg same] at blocks
      split_ifs
      · exact (kept t blocks (Ne.symm same)).2.2
      · exact linked.alone t blocks b

/-- Somebody who is in no wake moves on to a place outside `thread_block`. -/
theorem plain (linked : st.Linked) (here : st.pc a = old) (others : base.pc = st.pc := by rfl)
    (blocked : base.blocked = st.blocked := by rfl) (obj : base.blockObj = st.blockObj := by rfl)
    (tag : base.blockTag = st.blockTag := by rfl)
    (before : ∀ t, old.clears t = false := by exact fun _ => rfl)
    (after : ∀ t, pc.mid t = false := by exact fun _ => rfl)
    (outside : pc.blocks = false := by rfl) :
    (base.goto a pc).Linked := by
  refine linked.goto others (fun t asleep => ?_) (fun t _ => ⟨?_, fun blocks => ?_⟩)
    fun t _ _ => ⟨congrFun obj t, congrFun tag t, after t⟩
  · rw [obj, tag]
    refine (linked.held t (blocked ▸ asleep)).imp_right fun ⟨b, clears⟩ => .inr ⟨b, ?_, clears⟩
    rintro rfl
    rw [here, before] at clears
    exact Bool.noConfusion clears
  · cases pc with
    | blockTag | blockState => exact Bool.noConfusion outside
    | _ => trivial
  · exact Bool.noConfusion (outside.symm.trans blocks)

/-- A thread makes a store of `thread_block`. -/
theorem blockStep {t : Thr} (linked : st.Linked) (here : st.pc (.inl t) = old)
    (before : old.scan? = none := by rfl) (others : base.pc = st.pc := by rfl)
    (held : ∀ u, base.blocked u = true → base.blockObj u = true ∧ base.blockTag u = true ∨
      st.blocked u = true ∧ (st.blockObj u = true ∧ st.blockTag u = true →
        base.blockObj u = true ∧ base.blockTag u = true))
    (kept : ∀ u, u ≠ t → base.blockObj u = st.blockObj u ∧ base.blockTag u = st.blockTag u)
    (stored : pc.Stored (base.blockObj t) (base.blockTag t))
    (alone : pc.blocks = true → ∀ b, (st.pc b).mid t = false)
    (after : pc.scan? = none := by rfl) : (base.goto (.inl t) pc).Linked := by
  refine linked.goto others (fun u asleep => ?_) (fun u own => ?_) fun u _ other => ?_
  · rcases held u asleep with linked' | ⟨asleep, keeps⟩
    · exact .inl linked'
    · refine (linked.held u asleep).imp keeps fun ⟨b, clears⟩ => .inr ⟨b, ?_, clears⟩
      rintro rfl
      rw [here, NotifyPc.clears, before] at clears
      exact Bool.noConfusion clears
  · cases own
    exact ⟨stored, fun blocks b _ => alone blocks b⟩
  · obtain ⟨obj, tag⟩ := kept u fun same => other (congrArg Sum.inl same.symm)
    refine ⟨obj, tag, ?_⟩
    rw [NotifyPc.mid, after]
    rfl

theorem scanStep {max : Nat} {s : Scan} {again : Scan → NotifyPc} {done : NotifyPc}
    (linked : st.Linked) (registered : st.Registered) (here : st.pc a = old)
    (scans : old.scan? = some s) (goesOn : ∀ s, (again s).scan? = some s)
    (ends : done.scan? = none) (outside : done.blocks = false) :
    (st.scanStep a max s again done).Linked := by
  have now : (st.pc a).scan? = some s := by rw [here, scans]
  unfold NotifySys.scanStep
  split_ifs with inside
  · refine linked.goto (st.wakes_wakeEntry _ s).pc (fun t asleep => ?_) (fun t _ => ?_)
      fun t blocks _ => ?_
    · rw [NotifyPc.clears, goesOn]
      exact linked.held_wakeEntry now rfl asleep
    · have scanning := goesOn (st.wakeEntry ⟨s.iThr, inside.1⟩ s).2
      cases place : again (st.wakeEntry ⟨s.iThr, inside.1⟩ s).2 with
      | scan | selfWake => exact ⟨trivial, Bool.noConfusion⟩
      | _ =>
        rw [place] at scanning
        cases scanning
    · rw [NotifyPc.mid, goesOn]
      exact linked.kept_wakeEntry now rfl registered blocks
  · refine linked.plain here rfl rfl rfl rfl (fun t => ?_) (fun t => ?_) outside
    · rw [NotifyPc.clears, scans]
      exact Scan.not_clears_of_end inside t
    · rw [NotifyPc.mid, ends]
      rfl

theorem step (linked : st.Linked) (registered : st.Registered) (a : Agent κ)
    (unraced : st.Unraced (.step a)) : (st.step a).Linked := by
  have sane := registered.sane a
  unfold NotifySys.step
  generalize here : st.pc a = old at sane
  cases old with
  | idle => exact linked
  | enter w | check w | load w | swap w pend | leave w got | sample w | sampleLive w | unhint w
  | pulse badge =>
    dsimp only
    split_ifs <;> exact linked.plain here
  | leaveHint | uncount | register | hint | clearHint | post | kill => exact linked.plain here
  | blockObj w =>
    cases a with
    | inr k => exact absurd rfl sane.2
    | inl t =>
      refine linked.blockStep here rfl rfl (fun u asleep => .inr ⟨asleep, fun linked => ?_⟩)
        (fun u other => ⟨Function.update_of_ne other _ _, rfl⟩) (Function.update_self ..)
        fun _ b => unraced (by rw [here]; rfl) t rfl b
      refine ⟨?_, linked.2⟩
      by_cases same : u = t
      · subst same
        exact Function.update_self ..
      · exact (Function.update_of_ne same _ _).trans linked.1
  | blockTag w =>
    cases a with
    | inr k => exact absurd rfl sane.2
    | inl t =>
      have obj := linked.stored t
      rw [here] at obj
      refine linked.blockStep here rfl rfl (fun u asleep => .inr ⟨asleep, fun linked => ?_⟩)
        (fun u other => ⟨rfl, Function.update_of_ne other _ _⟩) ⟨obj, Function.update_self ..⟩
        fun _ b => linked.alone t (by rw [here]; rfl) b
      refine ⟨linked.1, ?_⟩
      by_cases same : u = t
      · subst same
        exact Function.update_self ..
      · exact (Function.update_of_ne same _ _).trans linked.2
  | blockState w =>
    cases a with
    | inr k => exact absurd rfl sane.2
    | inl t =>
      have stored := linked.stored t
      rw [here] at stored
      refine linked.blockStep here rfl rfl (fun u asleep => ?_) (fun _ _ => ⟨rfl, rfl⟩) trivial
        nofun
      dsimp only [threadStore, threadCurrent, Option.elim] at asleep
      rw [setBlocked_apply] at asleep
      split_ifs at asleep with same
      · exact .inl (same ▸ stored)
      · exact .inr ⟨asleep, id⟩
  | sched w =>
    dsimp only
    split_ifs
    · exact linked
    · exact linked.plain here
  | selfWake w s => exact linked.scanStep registered here rfl (fun _ => rfl) rfl rfl
  | hasHint waker | hasCount waker =>
    dsimp only
    split_ifs
    · rcases wakePc_eq waker with next | next <;> rw [next] <;> exact linked.plain here
    · exact linked.plain here
  | scan waker s =>
    refine linked.scanStep registered here rfl (fun _ => rfl) ?_ ?_
    all_goals rcases afterScan_eq waker s.n with next | ⟨iRound, next⟩ <;> rw [next] <;> rfl

theorem next (linked : st.Linked) (registered : st.Registered) (act : NotifyAct κ)
    (unraced : st.Unraced act) : (st.next act).Linked := by
  cases act with
  | step a => exact linked.step registered a unraced
  | call a call =>
    unfold NotifySys.next
    dsimp only
    split_ifs with idle
    · cases call <;> exact linked.plain idle
    · exact linked

end Linked

/-- A wake by a pulse or by a thread that just blocked does not stop at its budget while a thread
further up in the table is blocked on the object. -/
def Ample (st : NotifySys κ) : NotifyAct κ → Prop
  | .call _ _ => True
  | .step a => (st.pc a).Ample st.blocked

instance (st : NotifySys κ) : DecidablePred st.Ample
  | .call _ _ => inferInstanceAs (Decidable True)
  | .step a => inferInstanceAs (Decidable ((st.pc a).Ample st.blocked))

namespace Heard

/-- Somebody moves on in a call: the threads that it was to wake somebody still comes to, and it
does not fall asleep on a bit itself. -/
theorem goto (heard : st.Heard) (here : st.pc a = old) (others : base.pc = st.pc)
    (blocked : ∀ t, base.blocked t = true → st.blocked t = true ∨ a = .inl t)
    (fewer : ∀ mask, base.pending &&& mask ≠ 0 → st.pending &&& mask ≠ 0)
    (covers : ∀ t, base.blocked t = true → old.Covers t →
      pc.Covers t ∨ ∃ b, b ≠ a ∧ (st.pc b).Covers t)
    (own : ∀ t, a = .inl t → base.blocked t = true → base.pending &&& pc.mask ≠ 0 →
      pc.Covers t ∨ (∃ w, pc = .sample w) ∨
        st.blocked t = true ∧ pc.mask = old.mask ∧ ∀ w, old ≠ .sample w) :
    (base.goto a pc).Heard := by
  subst here
  intro t asleep bits
  have still (awaited : ∃ b, (st.pc b).Covers t) : (base.goto a pc).Awaited t := by
    have moved : pc.Covers t ∨ ∃ b, b ≠ a ∧ (st.pc b).Covers t := by
      obtain ⟨b, comes⟩ := awaited
      by_cases same : b = a
      · exact covers t asleep (same ▸ comes)
      · exact .inr ⟨b, same, comes⟩
    rcases moved with comes | ⟨b, other, comes⟩
    · exact .inr ⟨a, by rw [goto_pc, if_pos rfl]; exact comes⟩
    · exact .inr ⟨b, by rw [goto_pc, if_neg other, others]; exact comes⟩
  rw [goto_pc, others] at bits
  split_ifs at bits with same
  · rcases own t same.symm asleep bits with comes | ⟨w, samples⟩ | ⟨before, mask, late⟩
    · refine .inr ⟨a, ?_⟩
      rw [goto_pc, if_pos rfl]
      exact comes
    · refine .inl ⟨w, ?_⟩
      rw [goto_pc, if_pos same]
      exact samples
    · rcases heard t before (by rw [same, ← mask]; exact fewer _ bits) with ⟨w, samples⟩ | comes
      · exact absurd (same ▸ samples) (late w)
      · exact still comes
  · have before := (blocked t asleep).resolve_right fun here => same here.symm
    rcases heard t before (fewer _ bits) with ⟨w, samples⟩ | comes
    · refine .inl ⟨w, ?_⟩
      rw [goto_pc, others, if_neg same]
      exact samples
    · exact still comes

/-- A thread that is not blocked moves on. -/
theorem plain (heard : st.Heard) (registered : st.Registered) (here : st.pc a = old)
    (covers : ∀ t, st.blocked t = true → old.Covers t → pc.Covers t := by
      exact fun _ _ covers => (NotifyPc.not_covers rfl rfl covers).elim)
    (fewer : ∀ mask, base.pending &&& mask ≠ 0 → st.pending &&& mask ≠ 0 := by exact fun _ => id)
    (others : base.pc = st.pc := by rfl) (blocked : base.blocked = st.blocked := by rfl)
    (runs : ¬old.Parks := by exact id) : (base.goto a pc).Heard :=
  heard.goto here others (fun _ asleep => .inl (blocked ▸ asleep)) fewer
    (fun t asleep => .inl ∘ covers t (blocked ▸ asleep))
    fun _ own asleep => absurd (here ▸ own ▸ registered.parked _ (blocked ▸ asleep)) runs

/-- A thread that is blocked moves on, and its call wakes nobody by now. -/
theorem parks (heard : st.Heard) (here : st.pc a = old)
    (own : ∀ t, st.blocked t = true → st.pending &&& pc.mask ≠ 0 → pc.Covers t ∨
      pc.mask = old.mask ∧ ∀ w, old ≠ .sample w)
    (before : ∀ t, ¬ old.Covers t := by exact fun _ => NotifyPc.not_covers rfl rfl) :
    (st.goto a pc).Heard :=
  heard.goto here rfl (fun _ => .inl) (fun _ => id) (fun t _ covers => (before t covers).elim)
    fun t _ asleep bits => (own t asleep bits).imp_right fun late => .inr ⟨asleep, late⟩

theorem scanStep {max : Nat} {s : Scan} {again : Scan → NotifyPc} {done : NotifyPc}
    (heard : st.Heard) (linked : st.Linked) (here : st.pc a = old) (scans : old.scan? = some s)
    (goesOn : ∀ s, (again s).scan? = some s) (serves : ∀ s, (again s).serves = old.serves)
    (ample : old.serves = true → s.phase = .state → max ≤ s.n →
      ∀ t : Thr, s.iThr ≤ t.val → st.blocked t = false)
    (late : ∀ w, old ≠ .sample w) (mask : ∀ s, (again s).mask = old.mask)
    (maskDone : done.mask = old.mask) : (st.scanStep a max s again done).Heard := by
  unfold NotifySys.scanStep
  split_ifs with inside
  · have wakes := st.wakes_wakeEntry ⟨s.iThr, inside.1⟩ s
    refine heard.goto here wakes.pc (fun t asleep => .inl (wakes.blocked t asleep))
      (fun _ bits => wakes.pending ▸ bits) (fun t asleep covers => ?_)
      fun t _ asleep _ => .inr (.inr ⟨wakes.blocked t asleep, mask _, late⟩)
    rw [NotifyPc.covers_iff (goesOn _), serves]
    rw [NotifyPc.covers_iff scans] at covers
    rcases covers with clears | ⟨serves, reaches⟩
    · exact .inl (.inl (clears_wakeEntry rfl asleep clears))
    · rcases linked.reaches_wakeEntry (by rw [here, scans]) rfl asleep reaches with
        on | ⟨b, other, clears⟩
      · exact .inl (.inr ⟨serves, on⟩)
      · exact .inr ⟨b, other, .inl clears⟩
  · refine heard.goto here rfl (fun _ => .inl) (fun _ => id) (fun t asleep covers => ?_)
      fun _ _ asleep _ => .inr (.inr ⟨asleep, maskDone, late⟩)
    rw [NotifyPc.covers_iff scans, Scan.not_clears_of_end inside] at covers
    obtain ⟨serves, reaches⟩ := covers.resolve_left Bool.noConfusion
    have ended : s.phase = .state ∧ max ≤ s.n := by
      simpa [lt_of_le_of_lt reaches t.isLt] using inside
    exact Bool.noConfusion ((ample serves ended.1 ended.2 t reaches).symm.trans asleep)

theorem step (heard : st.Heard) (registered : st.Registered) (linked : st.Linked) (a : Agent κ)
    (ample : st.Ample (.step a)) : (st.step a).Heard := by
  unfold NotifySys.step
  replace ample : (st.pc a).Ample st.blocked := ample
  generalize here : st.pc a = old at ample
  cases old with
  | idle => exact heard
  | enter w | check w | load w | leave w got | unhint w | pulse badge =>
    dsimp only
    split_ifs <;> exact heard.plain registered here
  | swap w pend =>
    dsimp only
    split_ifs with same
    · refine heard.plain registered here
        (fun _ _ covers => (NotifyPc.not_covers rfl rfl covers).elim) fun mask bits none => bits ?_
      show pend &&& ~~~(pend &&& w.mask) &&& mask = 0
      rw [BitVec.and_assoc, BitVec.and_comm _ mask, ← BitVec.and_assoc, ← same, none]
      exact BitVec.zero_and
    · exact heard.plain registered here
  | leaveHint | uncount | register | hint | clearHint | kill =>
    exact heard.plain registered here
  | blockObj w | blockTag w =>
    cases a with
    | inl t | inr k => exact heard.plain registered here
  | blockState w =>
    cases a with
    | inr k => exact heard.plain registered here
    | inl t =>
      refine heard.goto here rfl (fun u asleep => ?_) (fun _ => id)
        (fun _ _ covers => (NotifyPc.not_covers rfl rfl covers).elim)
        fun _ _ _ _ => .inr (.inl ⟨w, rfl⟩)
      dsimp only [threadStore, threadCurrent, Option.elim] at asleep
      rw [setBlocked_apply] at asleep
      split_ifs at asleep with same
      · exact .inr (congrArg Sum.inl same.symm)
      · exact .inl asleep
  | sample w =>
    dsimp only
    split_ifs with some
    · exact heard.parks here fun _ _ _ => .inl (NotifyPc.covers_start w)
    · exact heard.parks here fun _ _ bits => absurd bits some
  | sampleLive w =>
    dsimp only
    split_ifs
    · exact heard.parks here fun _ _ _ => .inr ⟨rfl, nofun⟩
    · exact heard.parks here fun _ _ _ => .inl (NotifyPc.covers_start w)
  | selfWake w s =>
    exact heard.scanStep linked here rfl (fun _ => rfl) (fun _ => rfl)
      (fun serves => ample serves s rfl) nofun (fun _ => rfl) rfl
  | sched w =>
    dsimp only
    split_ifs with asleep
    · exact heard
    · refine heard.goto here rfl (fun _ => .inl) (fun _ => id)
        (fun _ _ covers => (NotifyPc.not_covers rfl rfl covers).elim)
        fun t own blocked => absurd ?_ asleep
      subst own
      exact blocked
  | post badge =>
    refine fun t _ _ => .inr ⟨a, ?_⟩
    rw [goto_pc, if_pos rfl]
    exact .inr ⟨rfl, nofun⟩
  | hasHint waker =>
    dsimp only
    split_ifs
    · exact heard.plain registered here fun t _ covers => NotifyPc.wakePc_covers (.inl covers)
    · exact heard.plain registered here fun t _ covers => by
        obtain rfl := NotifyPc.pulse_of_covers (.inl covers)
        exact .inr ⟨rfl, nofun⟩
  | hasCount waker =>
    dsimp only
    split_ifs with some
    · exact heard.plain registered here fun t _ covers => NotifyPc.wakePc_covers (.inr covers)
    · exact heard.plain registered here
        fun t asleep _ => absurd (registered.waiters_pos asleep) some
  | scan waker s =>
    have maskDone : (afterScan waker s.n).mask = 0 := by
      rcases afterScan_eq waker s.n with next | ⟨iRound, next⟩ <;> rw [next] <;> rfl
    refine heard.scanStep linked here rfl (fun _ => rfl) ?_ ?_ nofun (fun _ => rfl) maskDone
    · cases waker with
      | pulse | kick | abort | drain => exact fun _ => rfl
    · cases waker with
      | pulse => exact fun serves => ample serves s rfl
      | kick | abort | drain => exact Bool.noConfusion

theorem next (heard : st.Heard) (registered : st.Registered) (linked : st.Linked)
    (act : NotifyAct κ) (ample : st.Ample act) : (st.next act).Heard := by
  cases act with
  | step a => exact heard.step registered linked a ample
  | call a call =>
    unfold NotifySys.next
    dsimp only
    split_ifs with idle
    · cases call <;> exact heard.plain registered idle
    · exact heard

end Heard

end NotifySys

/-- In every run a blocked thread is inside a wait, and the waiters that are counted are the waits
that are registered: none is lost and none is counted twice, however the steps interleave. -/
theorem notifyRuns_registered [DecidableEq κ] (run : List (NotifyAct κ)) :
    (run.foldl NotifySys.next (init : NotifySys κ)).Registered :=
  List.foldlRecOn _ _ Registered.init fun _ registered act _ => registered.next act

/-- In every run whose wakes are ample and in which no thread enters `thread_block` while a wake is
at work on its entry, no thread sleeps on a bit of its mask once nobody is runnable in a wait or a
pulse. -/
theorem notifyRuns_heard [DecidableEq κ] (run : List (NotifyAct κ))
    (meets : StepRuns.Meets NotifySys.next (fun st act => st.Ample act ∧ st.Unraced act)
      (init : NotifySys κ) run)
    (quiet : (run.foldl NotifySys.next (init : NotifySys κ)).Quiet) (t : Thr)
    (asleep : (run.foldl NotifySys.next (init : NotifySys κ)).blocked t = true) :
    ∃ w, (run.foldl NotifySys.next (init : NotifySys κ)).pc (.inl t) = .sched w ∧
      (run.foldl NotifySys.next (init : NotifySys κ)).pending &&& w.mask = 0 := by
  have all := meets.invariant
    (fun (st : NotifySys κ) act (holds : st.Registered ∧ st.Linked ∧ st.Heard) meets =>
      ⟨holds.1.next act, holds.2.1.next holds.1 act meets.2,
        holds.2.2.next holds.1 holds.2.1 act meets.1⟩)
    ⟨Registered.init, Linked.init, fun _ blocked => absurd blocked Bool.false_ne_true⟩
  exact all.2.2.quiet all.1 quiet asleep

def sampleWait (t : Thr) (mask : U64) : List (NotifyAct Unit) :=
  .call (.inl t) (.wait mask true) :: List.replicate 10 (.step (.inl t))

def samplePulse (badge : U64) : List (NotifyAct Unit) :=
  .call (.inr ()) (.pulse badge) :: List.replicate 52 (.step (.inr ()))

/-- Eight threads wait for bit 1 and one for bit 0; bit 0 is posted, and the eight that it wakes go
back to sleep. -/
def sampleCrowded : List (NotifyAct Unit) :=
  ((List.finRange gjMaxThreads).take 8).flatMap (fun t => sampleWait t 2) ++ sampleWait 8 1 ++
    samplePulse 1 ++
    ((List.finRange gjMaxThreads).take 8).flatMap fun t => List.replicate 10 (.step (.inl t))

theorem notifyRuns_budget :
    (sampleCrowded.foldl NotifySys.next init).Quiet ∧
      (sampleCrowded.foldl NotifySys.next init).blocked 8 = true ∧
      (sampleCrowded.foldl NotifySys.next init).pc (.inl 8) =
        .sched { mask := 1, fBlock := true, fRegistered := true } ∧
      (sampleCrowded.foldl NotifySys.next init).pending &&& 1 ≠ 0 := by
  decide +kernel

/-- One thread waits for bit 0, and bit 1 is posted. -/
def sampleOther : List (NotifyAct Unit) := sampleWait 0 1 ++ samplePulse 2 ++
  List.replicate 11 (.step (.inl 0))

theorem notifyRuns_heard_other :
    StepRuns.Meets NotifySys.next (fun st act => st.Ample act ∧ st.Unraced act) init sampleOther ∧
      (sampleOther.foldl NotifySys.next init).Quiet ∧
      (sampleOther.foldl NotifySys.next init).blocked 0 = true ∧
      (∃ w, (sampleOther.foldl NotifySys.next init).pc (.inl 0) = .sched w ∧
        (sampleOther.foldl NotifySys.next init).pending &&& w.mask = 0) :=
  ⟨by decide +kernel, by decide +kernel, by decide +kernel,
    notifyRuns_heard sampleOther (by decide +kernel) (by decide +kernel) 0 (by decide +kernel)⟩

end GreenJade.Ipc

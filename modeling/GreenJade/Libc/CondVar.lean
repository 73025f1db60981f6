import GreenJade.Libc.Semaphore

/-! Owns the condition variables of libcgj in `pthread.c`: threads inside `pthread_cond_wait`,
`pthread_cond_timedwait`, `pthread_cond_signal` and `pthread_cond_broadcast` of one condition
variable, step by atomic step. The wake of a signal may take a thread that fell asleep after the
signal began, and then those that it was for sleep on.
It does not own the mutex: its unlock and lock are one step each, taken in any order. -/

namespace GreenJade.Libc

open FutexThreads StepRuns Function

universe u

/-- What a thread does next. Along with the sequence number that it has read, a waiter carries the
number of increments up to then, a history value. -/
inductive CondPc
  | outside
  | load (pAbs : Option Timespec)
  | unlock (uSeq : U32) (seen : Nat) (pAbs : Option Timespec)
  | clock (uSeq : U32) (seen : Nat) (pAbs : Timespec)
  | futexWait (uSeq : U32) (seen : Nat) (pAbs : Option Timespec)
  | asleep (pAbs : Option Timespec)
  | relock
  | signalAdd (all : Bool)
  | signalWake (all : Bool)
  deriving DecidableEq

namespace CondPc

def isAsleep : CondPc → Bool
  | .asleep _ => true
  | _ => false

/-- Inside a wait with the mutex released. -/
def waiting : CondPc → Bool
  | .clock .. | .futexWait .. | .asleep _ | .relock => true
  | _ => false

/-- The mutex is not held on to any more for a wait. -/
def released : CondPc → Bool
  | .load _ | .unlock .. => false
  | _ => true

/-- What a waiter has read and not compared yet. -/
def seen? : CondPc → Option (U32 × Nat)
  | .unlock u seen _ | .clock u seen _ | .futexWait u seen _ => some (u, seen)
  | _ => none

def signalling : CondPc → Bool
  | .signalAdd _ | .signalWake _ => true
  | _ => false

def isWake : CondPc → Bool
  | .signalWake _ => true
  | _ => false

/-- Inside a signal to one thread. -/
def signalsOne : CondPc → Bool
  | .signalAdd false | .signalWake false => true
  | _ => false

theorem signalling_of_one {pc : CondPc} (one : pc.signalsOne = true) : pc.signalling = true := by
  cases pc <;> first | rfl | cases one

end CondPc

/-- The condition variable and its threads. The history variables are the number of increments, the
number of waits of each thread, and for a thread that signals, the waits that had released the mutex
when its call began. -/
structure Cond (T : Type u) where
  uSeq : U32
  pc : T → CondPc
  adds : Nat
  round : T → Nat
  began : T → T → Option Nat

inductive CondEvent (T : Type u)
  | waits (t : T) (pAbs : Option Timespec)
  | signals (t : T) (all : Bool)
  /-- The next step of a thread, with what the clock says and whom a wake of one thread chooses. -/
  | runs (t : T) (now : Option Timespec) (choice : Option T)
  | interrupted (t : T)
  | timedOut (t : T)

variable {T : Type u}

namespace Cond

def init (uSeq : U32) : Cond T :=
  { uSeq, pc := fun _ => .outside, adds := 0, round := fun _ => 0, began := fun _ _ => none }

def asleep (st : Cond T) (t : T) : Bool := (st.pc t).isAsleep

/-- The waits that have released the mutex. -/
def waits (st : Cond T) (w : T) : Option Nat :=
  if (st.pc w).waiting then some (st.round w) else none

/-- The futex waits of some of the sleepers return. -/
def rouse (st : Cond T) (some : T → Bool) : Cond T :=
  { st with pc := fun t => if some t && st.asleep t then .relock else st.pc t }

section

variable [DecidableEq T]

def goto (st : Cond T) (t : T) (pc : CondPc) : Cond T := { st with pc := update st.pc t pc }

variable [Fintype T]

/-- The next atomic step of a thread. -/
def run (st : Cond T) (t : T) (now : Option Timespec) (choice : Option T) : Cond T :=
  match st.pc t with
  | .outside | .asleep _ => st
  | .load pAbs => st.goto t (.unlock st.uSeq st.adds pAbs)
  | .unlock u seen none => st.goto t (.futexWait u seen none)
  | .unlock u seen (some pAbs) => st.goto t (.clock u seen pAbs)
  | .clock u seen pAbs =>
    st.goto t (if pAbs.remains now then .futexWait u seen (some pAbs) else .relock)
  | .futexWait u _ pAbs => st.goto t (if st.uSeq = u then .asleep pAbs else .relock)
  | .relock => st.goto t .outside
  | .signalAdd all =>
    { st with uSeq := st.uSeq + 1, adds := st.adds + 1 }.goto t (.signalWake all)
  | .signalWake false =>
    if MayWake st.asleep choice then (st.rouse (some · == choice)).goto t .outside else st
  | .signalWake true => (st.rouse fun _ => true).goto t .outside

def step (st : Cond T) : CondEvent T → Cond T
  | .waits t pAbs =>
    if st.pc t = .outside then
      { st with round := update st.round t (st.round t + 1) }.goto t (.load pAbs)
    else st
  | .signals t all =>
    if st.pc t = .outside then
      { st with began := update st.began t st.waits }.goto t (.signalAdd all)
    else st
  | .runs t now choice => st.run t now choice
  | .interrupted t => st.rouse (· == t)
  | .timedOut t =>
    match st.pc t with
    | .asleep (some _) => st.goto t .relock
    | _ => st

end

/-! ### What a step does -/

/-- Whom a step lets fall asleep. -/
def falls (st : Cond T) : CondEvent T → Option T
  | .runs w _ _ =>
    match st.pc w with
    | .futexWait u _ _ => if st.uSeq = u then some w else none
    | _ => none
  | _ => none

/-- A thread goes on in a wait after its unlock, or returns. -/
structure Walk (st : Cond T) (event : CondEvent T) (w : T) (next : CondPc) : Prop where
  released : next.released = true
  silent : next.signalling = false
  seen : next.seen? = none ∨ next.seen? = (st.pc w).seen?
  falls : next.isAsleep = true → st.falls event = some w

/-- What a step can do to a thread. -/
inductive Effect (st : Cond T) (event : CondEvent T) (st' : Cond T) (w : T) : Prop
  | keeps (pc : st'.pc w = st.pc w) (round : st'.round w = st.round w)
      (began : st'.began w = st.began w)
  | walks (round : st'.round w = st.round w) (walk : st.Walk event w (st'.pc w))
  | enters {pAbs} (round : st'.round w = st.round w + 1) (pc : st'.pc w = .load pAbs)
  | loads {pAbs} (round : st'.round w = st.round w) (here : st.pc w = .load pAbs)
      (pc : st'.pc w = .unlock st.uSeq st.adds pAbs)
  | signals {all} (calls : event = .signals w all) (round : st'.round w = st.round w)
      (pc : st'.pc w = .signalAdd all) (began : st'.began w = st.waits)
  | adds {all} (round : st'.round w = st.round w) (here : st.pc w = .signalAdd all)
      (pc : st'.pc w = .signalWake all) (began : st'.began w = st.began w)
      (counted : st'.adds = st.adds + 1)

/-- What a step can do. -/
structure Moves (st : Cond T) (event : CondEvent T) (st' : Cond T) : Prop where
  effect : ∀ w, Effect st event st' w
  counted : st'.uSeq = st.uSeq ∧ st'.adds = st.adds ∨
    st'.uSeq = st.uSeq + 1 ∧ st'.adds = st.adds + 1

variable {st st' : Cond T} {event : CondEvent T} {t w : T} {r : Nat} {next : CondPc} {start : U32}

theorem Moves.stays : st.Moves event st := ⟨fun _ => .keeps rfl rfl rfl, .inl ⟨rfl, rfl⟩⟩

/-- The threads that move go on in a wait or return. -/
theorem Moves.of_walks {pc : T → CondPc} (each : ∀ w, pc w = st.pc w ∨ st.Walk event w (pc w)) :
    st.Moves event { st with pc } := by
  refine ⟨fun w => ?_, .inl ⟨rfl, rfl⟩⟩
  rcases each w with same | walk
  · exact .keeps same rfl rfl
  · exact .walks rfl walk

theorem walk_relock (st : Cond T) (event : CondEvent T) (w : T) : st.Walk event w .relock :=
  ⟨rfl, rfl, .inl rfl, nofun⟩

theorem rouse_pc (st : Cond T) (event : CondEvent T) (some : T → Bool) (w : T) :
    (st.rouse some).pc w = st.pc w ∨ st.Walk event w ((st.rouse some).pc w) := by
  unfold rouse
  dsimp only
  split_ifs
  · exact .inr (st.walk_relock event w)
  · exact .inl rfl

section

variable [DecidableEq T]

/-- Only one thread moves. -/
theorem Moves.of_goto {base : Cond T} (own : Effect st event (base.goto t next) t)
    (pc : base.pc = st.pc) (round : ∀ w, w ≠ t → base.round w = st.round w)
    (began : ∀ w, w ≠ t → base.began w = st.began w)
    (counted : base.uSeq = st.uSeq ∧ base.adds = st.adds ∨
      base.uSeq = st.uSeq + 1 ∧ base.adds = st.adds + 1) :
    st.Moves event (base.goto t next) := by
  refine ⟨fun w => ?_, counted⟩
  by_cases same : w = t
  · exact same ▸ own
  · exact .keeps ((update_of_ne same ..).trans (congrFun pc w)) (round w same) (began w same)

theorem Walk.move (walk : st.Walk event t next) : st.Moves event (st.goto t next) := by
  refine .of_walks fun w => ?_
  rw [update_apply]
  split_ifs with same
  · exact .inr (same ▸ walk)
  · exact .inl rfl

/-- Some of the sleepers and the signaller move on. -/
theorem moves_wake (st : Cond T) (event : CondEvent T) (some : T → Bool) (t : T) :
    st.Moves event ((st.rouse some).goto t .outside) := by
  refine .of_walks fun w => ?_
  rw [update_apply]
  split_ifs
  · exact .inr ⟨rfl, rfl, .inl rfl, nofun⟩
  · exact st.rouse_pc event some w

variable [Fintype T]

theorem moves_run (st : Cond T) (t : T) (now : Option Timespec) (choice : Option T) :
    st.Moves (.runs t now choice) (st.run t now choice) := by
  unfold run
  cases here : st.pc t with
  | outside | asleep => exact .stays
  | load pAbs =>
    exact .of_goto (.loads rfl here (update_self ..)) rfl (fun _ _ => rfl) (fun _ _ => rfl)
      (.inl ⟨rfl, rfl⟩)
  | unlock u seen pAbs => cases pAbs <;> exact Walk.move ⟨rfl, rfl, .inr (by rw [here]; rfl), nofun⟩
  | clock u seen pAbs =>
    dsimp only
    split_ifs
    · exact Walk.move ⟨rfl, rfl, .inr (by rw [here]; rfl), nofun⟩
    · exact (st.walk_relock _ t).move
  | futexWait u seen pAbs =>
    dsimp only
    split_ifs with same
    · subst same
      exact Walk.move ⟨rfl, rfl, .inl rfl, fun _ => by rw [falls, here]; exact if_pos rfl⟩
    · exact (st.walk_relock _ t).move
  | relock => exact Walk.move ⟨rfl, rfl, .inl rfl, nofun⟩
  | signalAdd all =>
    exact .of_goto (.adds rfl here (update_self ..) rfl rfl) rfl (fun _ _ => rfl) (fun _ _ => rfl)
      (.inr ⟨rfl, rfl⟩)
  | signalWake all =>
    cases all with
    | true => exact st.moves_wake _ _ t
    | false =>
      dsimp only
      split_ifs
      · exact st.moves_wake _ _ t
      · exact .stays

theorem moves_step (st : Cond T) (event : CondEvent T) : st.Moves event (st.step event) := by
  cases event with
  | waits t pAbs =>
    dsimp only [step]
    split_ifs
    · exact .of_goto (.enters (update_self ..) (update_self ..)) rfl
        (fun _ other => update_of_ne other ..) (fun _ _ => rfl) (.inl ⟨rfl, rfl⟩)
    · exact .stays
  | signals t all =>
    dsimp only [step]
    split_ifs
    · exact .of_goto (.signals rfl rfl (update_self ..) (update_self ..)) rfl
        (fun _ _ => rfl) (fun _ other => update_of_ne other ..) (.inl ⟨rfl, rfl⟩)
    · exact .stays
  | runs t now choice => exact st.moves_run t now choice
  | interrupted t => exact .of_walks (st.rouse_pc _ _)
  | timedOut t =>
    dsimp only [step]
    split
    · exact (st.walk_relock _ t).move
    · exact .stays

end

theorem Moves.adds_le (moves : st.Moves event st') : st.adds ≤ st'.adds := by
  rcases moves.counted with ⟨-, same⟩ | ⟨-, next⟩ <;> omega

/-! ### The waits that a signal is for -/

/-- A wait of a thread, its round `r`, had released the mutex. If it is still going on and `older`
holds, what it has read is older than the last increment. -/
structure Since (older : Prop) (st : Cond T) (w : T) (r : Nat) : Prop where
  le : r ≤ st.round w
  released : st.round w = r → (st.pc w).released = true
  read : older → st.round w = r → ∀ u seen, (st.pc w).seen? = some (u, seen) → seen < st.adds

theorem Moves.since {older : Prop} (moves : st.Moves event st') (since : Since older st w r) :
    Since older st' w r := by
  obtain ⟨le, released, read⟩ := since
  have grows := moves.adds_le
  cases moves.effect w with
  | keeps pc round =>
    rw [← round] at le released read
    rw [← pc] at released read
    exact ⟨le, released, fun old now u seen has => (read old now u seen has).trans_le grows⟩
  | walks round walk =>
    rw [← round] at le read
    refine ⟨le, fun _ => walk.released, fun old now u seen has => ?_⟩
    rcases walk.seen with none | same
    · exact absurd (none.symm.trans has) nofun
    · exact (read old now u seen (same ▸ has)).trans_le grows
  | enters round => exact ⟨by omega, fun now => by omega, fun _ now => by omega⟩
  | loads round here =>
    -- A wait that reads the sequence number now has not released the mutex.
    have past : st.round w ≠ r := fun now => absurd (released now) (by rw [here]; nofun)
    exact ⟨by omega, fun now => by omega, fun _ now => by omega⟩
  | signals _ round pc | adds round _ pc =>
    exact ⟨by omega, fun _ => by rw [pc]; rfl, fun _ _ _ _ has => by rw [pc] at has; cases has⟩

/-- What holds in every state: the numbers that waiters have read, and the waits that a signal is
for. -/
structure Sound (start : U32) (st : Cond T) : Prop where
  seq : st.uSeq = start + BitVec.ofNat 32 st.adds
  read : ∀ t u seen, (st.pc t).seen? = some (u, seen) →
    u = start + BitVec.ofNat 32 seen ∧ seen ≤ st.adds
  began : ∀ t w r, (st.pc t).signalling = true → st.began t w = some r →
    Since ((st.pc t).isWake = true) st w r

theorem Moves.seq (moves : st.Moves event st') (seq : st.uSeq = start + BitVec.ofNat 32 st.adds) :
    st'.uSeq = start + BitVec.ofNat 32 st'.adds := by
  rcases moves.counted with ⟨uSeq, adds⟩ | ⟨uSeq, adds⟩
  · rw [uSeq, adds, seq]
  · rw [uSeq, adds, seq, BitVec.add_assoc, BitVec.ofNat_add]
    rfl

theorem waits_of_asleep (asleep : st.asleep w = true) : st.waits w = some (st.round w) := by
  refine if_pos ?_
  unfold Cond.asleep at asleep
  cases here : st.pc w with
  | asleep => rfl
  | _ =>
    rw [here] at asleep
    cases asleep

theorem since_waits (begun : st.waits w = some r) : Since False st w r := by
  rw [waits, Option.ite_none_right_eq_some] at begun
  obtain ⟨waiting, round⟩ := begun
  refine ⟨(Option.some.inj round).ge, fun _ => ?_, False.elim⟩
  cases here : st.pc w with
  | load | unlock =>
    rw [here] at waiting
    cases waiting
  | _ => rfl

/-- What a waiter has read is not younger than the state before the step. -/
theorem Moves.read {u : U32} {seen : Nat} (moves : st.Moves event st') (sound : st.Sound start)
    (has : (st'.pc t).seen? = some (u, seen)) :
    u = start + BitVec.ofNat 32 seen ∧ seen ≤ st.adds := by
  cases moves.effect t with
  | keeps pc => exact sound.read t u seen (pc ▸ has)
  | walks _ walk =>
    rcases walk.seen with none | same
    · exact absurd (none.symm.trans has) nofun
    · exact sound.read t u seen (same ▸ has)
  | loads _ _ pc =>
    rw [pc] at has
    obtain ⟨rfl, rfl⟩ := Prod.mk.inj (Option.some.inj has)
    exact ⟨sound.seq, le_rfl⟩
  | enters _ pc | signals _ _ pc | adds _ _ pc =>
    rw [pc] at has
    cases has

theorem Moves.sound (moves : st.Moves event st') (sound : st.Sound start) : st'.Sound start where
  seq := moves.seq sound.seq
  read t u seen has := (moves.read sound has).imp_right fun le => le.trans moves.adds_le
  began t w r signals begun := by
    cases moves.effect t with
    | keeps pc _ began =>
      rw [pc] at signals ⊢
      rw [began] at begun
      exact moves.since (sound.began t w r signals begun)
    | walks _ walk => exact absurd (walk.silent.symm.trans signals) nofun
    | enters _ pc | loads _ _ pc =>
      rw [pc] at signals
      cases signals
    | signals _ _ pc began =>
      rw [began] at begun
      obtain ⟨le, released, -⟩ := moves.since (since_waits begun)
      exact ⟨le, released, fun wakes => by rw [pc] at wakes; cases wakes⟩
    | adds _ here pc began counted =>
      -- From the increment on, whatever was read before it is older.
      rw [began] at begun
      have before := sound.began t w r (by rw [here]; rfl) begun
      obtain ⟨le, released, -⟩ := moves.since before
      refine ⟨le, released, fun _ _ u seen has => ?_⟩
      rw [counted]
      exact Nat.lt_succ_of_le (moves.read sound has).2

/-! ### Who sleeps during a signal -/

/-- The condition of a step: a thread that falls asleep was inside that wait, with the mutex
released, when each of the signals to one thread that are under way began. -/
def JoinsEarly (st : Cond T) (event : CondEvent T) : Prop :=
  ∀ w, st.falls event = some w → ∀ t, (st.pc t).signalsOne = true →
    st.began t w = some (st.round w)

/-- Whoever sleeps during a signal is one of those that it is for. -/
def Apart (st : Cond T) : Prop :=
  ∀ t w, (st.pc t).signalsOne = true → st.asleep w = true → st.began t w = some (st.round w)

theorem Moves.apart (moves : st.Moves event st') (early : st.JoinsEarly event) (apart : st.Apart) :
    st'.Apart := by
  intro t w one asleep
  have slept : (st.asleep w = true ∨ st.falls event = some w) ∧ st'.round w = st.round w := by
    unfold Cond.asleep at asleep ⊢
    cases moves.effect w with
    | keeps pc round => exact ⟨.inl (pc ▸ asleep), round⟩
    | walks round walk => exact ⟨.inr (walk.falls asleep), round⟩
    | enters _ pc | loads _ _ pc | signals _ _ pc | adds _ _ pc =>
      rw [pc] at asleep
      cases asleep
  have before (signals : (st.pc t).signalsOne = true) : st.began t w = some (st'.round w) := by
    rw [slept.2]
    exact slept.1.elim (apart t w signals) fun falls => early w falls t signals
  cases moves.effect t with
  | keeps pc _ began =>
    rw [began]
    exact before (pc ▸ one)
  | walks _ walk => exact absurd (walk.silent.symm.trans (CondPc.signalling_of_one one)) nofun
  | enters _ pc | loads _ _ pc =>
    rw [pc] at one
    cases one
  | signals calls _ _ began =>
    rw [began, slept.2]
    subst calls
    exact waits_of_asleep (slept.1.resolve_right nofun)
  | @adds all _ here pc began =>
    rw [began]
    rw [pc] at one
    cases all with
    | false => exact before (by rw [here]; rfl)
    | true => cases one

/-! ### What a wake leaves behind -/

theorem futexWait_of_falls (falls : st.falls event = some w) :
    ∃ seen pAbs, st.pc w = .futexWait st.uSeq seen pAbs := by
  unfold Cond.falls at falls
  split at falls
  · split at falls
    · obtain ⟨rfl, same⟩ := Option.ite_none_right_eq_some.mp falls
      cases same
      exact ⟨_, _, ‹_›⟩
    · cases falls
  · cases falls

/-- A wait that has ended, or will end without a sleep. -/
structure Settled (st : Cond T) (w : T) (r : Nat) : Prop where
  since : Since True st w r
  awake : st.round w = r → st.asleep w = false

theorem Moves.settled (moves : st.Moves event st') (sound : st.Sound start)
    (few : st.adds < 2 ^ 32) (settled : st.Settled w r) : st'.Settled w r := by
  refine ⟨moves.since settled.since, fun now => ?_⟩
  have past := settled.since.read trivial
  have awake := settled.awake
  unfold Cond.asleep at awake ⊢
  cases moves.effect w with
  | keeps pc round => rw [pc, awake (round.symm.trans now)]
  | walks round walk =>
    -- The number that it compares is older, so it is not the current one.
    refine Bool.eq_false_iff.mpr fun asleep => ?_
    obtain ⟨seen, pAbs, here⟩ := futexWait_of_falls (walk.falls asleep)
    have has : (st.pc w).seen? = some (st.uSeq, seen) := by rw [here]; rfl
    have older := past (round.symm.trans now) _ _ has
    have same := (sound.read w _ _ has).1
    rw [sound.seq] at same
    bv_omega
  | enters _ pc | loads _ _ pc | signals _ _ pc | adds _ _ pc => rw [pc]; rfl

/-- Those that a signal is for and that its wake does not leave asleep. -/
theorem settled_of_awake {all : Bool} (moves : st.Moves event st') (sound : st.Sound start)
    (wakes : st.pc t = .signalWake all) (begun : st.began t w = some r)
    (awake : st'.asleep w = false) : st'.Settled w r := by
  have since := sound.began t w r (by rw [wakes]; rfl) begun
  have read := since.read (by rw [wakes]; rfl)
  exact ⟨moves.since ⟨since.le, since.released, fun _ => read⟩, fun _ => awake⟩

variable [DecidableEq T]

theorem awake_wake (st : Cond T) (some : T → Bool) (t : T)
    (woken : some w = true ∨ st.asleep w = false) :
    ((st.rouse some).goto t .outside).asleep w = false := by
  show (update (st.rouse some).pc t .outside w).isAsleep = false
  rw [update_apply]
  split_ifs
  · rfl
  · show (if some w && st.asleep w then _ else _ : CondPc).isAsleep = false
    split_ifs with roused
    · rfl
    · refine woken.elim (fun chosen => ?_) id
      show st.asleep w = false
      simpa [chosen] using roused

variable [Fintype T]

instance (st : Cond T) (event : CondEvent T) : Decidable (st.JoinsEarly event) :=
  inferInstanceAs (Decidable (∀ _, _ → ∀ _, _ → _ = _))

/-- The wake of a signal leaves one of those awake that it is for. -/
theorem exists_awake {now : Option Timespec} {choice : Option T} (apart : st.Apart)
    (wakes : st.pc t = .signalWake false) (returns : (st.run t now choice).pc t = .outside)
    (waiting : ∃ w r, st.began t w = some r) :
    ∃ w r, st.began t w = some r ∧ (st.run t now choice).asleep w = false := by
  rw [run, wakes] at returns ⊢
  dsimp only at returns ⊢
  split_ifs at returns ⊢ with may
  · cases choice with
    | none =>
      obtain ⟨w, r, begun⟩ := waiting
      exact ⟨w, r, begun, awake_wake st _ t (.inr (may w))⟩
    | some sleeper =>
      refine ⟨sleeper, _, apart t sleeper (by rw [wakes]; rfl) may, ?_⟩
      exact awake_wake st _ t (.inl (beq_self_eq_true _))
  · rw [wakes] at returns
    cases returns

/-! ### Runs -/

theorem adds_le_foldl (events : List (CondEvent T)) (st : Cond T) :
    st.adds ≤ (events.foldl step st).adds := by
  induction events generalizing st with
  | nil => exact le_rfl
  | cons event rest ih => exact (st.moves_step event).adds_le.trans (ih _)

theorem Settled.foldl (events : List (CondEvent T)) (sound : st.Sound start)
    (settled : st.Settled w r) (few : (events.foldl step st).adds < 2 ^ 32) :
    (events.foldl step st).Settled w r := by
  induction events generalizing st with
  | nil => exact settled
  | cons event rest ih =>
    have moves := st.moves_step event
    have now : st.adds < 2 ^ 32 := (adds_le_foldl (event :: rest) st).trans_lt few
    exact ih (moves.sound sound) (moves.settled sound now settled) few

/-- The condition variable after a run. -/
def after (uSeq : U32) (run : List (CondEvent T)) : Cond T := run.foldl step (init uSeq)

theorem sound_after (uSeq : U32) (run : List (CondEvent T)) : (after uSeq run).Sound uSeq :=
  List.foldlRecOn run step ⟨(BitVec.add_zero uSeq).symm, nofun, nofun⟩
    fun st sound event _ => (st.moves_step event).sound sound

/-- From the end of a run on, with fewer than 2^32 signals in all, a thread does not sleep in one of
its waits. -/
def Unblocked (uSeq : U32) (run : List (CondEvent T)) (w : T) (r : Nat) : Prop :=
  ∀ later, (after uSeq (run ++ later)).adds < 2 ^ 32 → (after uSeq (run ++ later)).round w = r →
    (after uSeq (run ++ later)).asleep w = false

/-- A broadcast that returns has unblocked every thread that was inside a wait with the mutex
released when it began. A signal has unblocked one of them, if nobody else fell asleep meanwhile. -/
theorem cond_signal_unblocks_waiter (uSeq : U32) (run : List (CondEvent T)) (t : T) (all : Bool)
    (now : Option Timespec) (choice : Option T) (wakes : (after uSeq run).pc t = .signalWake all)
    (returns : (after uSeq (run ++ [.runs t now choice])).pc t = .outside) :
    (all = true → ∀ w r, (after uSeq run).began t w = some r →
      Unblocked uSeq (run ++ [.runs t now choice]) w r) ∧
    (all = false → Meets step JoinsEarly (init uSeq) run →
      (∃ w r, (after uSeq run).began t w = some r) →
      ∃ w r, (after uSeq run).began t w = some r ∧
        Unblocked uSeq (run ++ [.runs t now choice]) w r) := by
  have sound := sound_after uSeq run
  have moves := (after uSeq run).moves_run t now choice
  have next : after uSeq (run ++ [.runs t now choice]) = (after uSeq run).run t now choice :=
    List.foldl_concat ..
  have unblocked (w r) (begun : (after uSeq run).began t w = some r)
      (awake : ((after uSeq run).run t now choice).asleep w = false) :
      Unblocked uSeq (run ++ [.runs t now choice]) w r := by
    intro later few current
    have settled := settled_of_awake moves sound wakes begun awake
    rw [after, List.foldl_append] at few current ⊢
    rw [← next] at settled
    exact (settled.foldl later (sound_after ..) few).awake current
  refine ⟨?_, ?_⟩
  · rintro rfl w r begun
    refine unblocked w r begun ?_
    rw [Cond.run, wakes]
    exact awake_wake _ _ t (.inl rfl)
  · rintro rfl early waiting
    have apart : (after uSeq run).Apart := early.invariant
      (fun st event (apart : st.Apart) early => (st.moves_step event).apart early apart) nofun
    rw [next] at returns
    obtain ⟨w, r, begun, awake⟩ := exists_awake apart wakes returns waiting
    exact ⟨w, r, begun, unblocked w r begun awake⟩

/-- The steps of a thread up to its sleep. -/
def sleeps (t : T) : List (CondEvent T) :=
  .waits t none :: List.replicate 3 (.runs t none none)

/-- The steps of a signal up to its wake. -/
def raises (t : T) : List (CondEvent T) := [.signals t false, .runs t none none]

theorem cond_signal_unblocks_waiter_sample :
    ∃ w r, (after 0 (sleeps 0 ++ raises 1)).began 1 w = some r ∧
      Unblocked 0 ((sleeps 0 ++ raises 1) ++ [.runs (1 : Fin 2) none (some 0)]) w r :=
  (cond_signal_unblocks_waiter 0 (sleeps 0 ++ raises 1) 1 false none (some 0) (by decide +kernel)
    (by decide +kernel)).2 rfl (by decide +kernel) ⟨0, 1, by decide +kernel⟩

/-- The third thread starts to wait after the signal has counted, and takes its wake. -/
def stolenRun : List (CondEvent (Fin 3)) :=
  sleeps 0 ++ raises 1 ++ sleeps 2 ++ [.runs 1 none (some 2)]

theorem cond_signal_unblocks_waiter_stolen :
    (after 0 (sleeps 0 ++ raises 1)).began = update (fun _ _ => none) 1
        (update (fun _ => none) (0 : Fin 3) (some 1)) ∧
      (after 0 stolenRun).pc 1 = .outside ∧ (after 0 stolenRun).round 0 = 1 ∧
      (after 0 stolenRun).asleep 0 = true := by
  decide +kernel

end Cond

end GreenJade.Libc

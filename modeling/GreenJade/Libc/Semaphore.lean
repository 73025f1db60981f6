import GreenJade.Base
import GreenJade.Lib.FutexThreads
import GreenJade.Lib.StepRuns

/-! Owns the semaphores of libcgj, `semaphore.c`: threads inside `sem_wait`, `sem_trywait`,
`sem_timedwait` and `sem_post` of one live semaphore, step by atomic step. A unit that is posted
to a semaphore with units wakes nobody, so of two sleepers the second one may sleep on.
It does not own `sem_init` and `sem_destroy`: the magic word stays as it is. -/

namespace GreenJade.Libc

open FutexThreads StepRuns Function

universe u

structure Timespec where
  sec : Int
  nsec : Int
  deriving DecidableEq

/-- Whether the time from now to the deadline `pAbs` is positive, as every timed wait computes it.
The clock may fail. -/
def Timespec.remains (pAbs : Timespec) : Option Timespec → Bool
  | none => false
  | some now =>
    let rel : Timespec := ⟨pAbs.sec - now.sec, pAbs.nsec - now.nsec⟩
    let rel : Timespec := if rel.nsec < 0 then ⟨rel.sec - 1, rel.nsec + 1000000000⟩ else rel
    !(rel.sec < 0 || rel.sec == 0 && rel.nsec ≤ 0)

def cgjSemMax : Int := 0x7fffffff

inductive SemWait
  | trywait
  | wait
  | timedwait (pAbs : Timespec)
  deriving DecidableEq

/-- What a thread does next. -/
inductive SemPc
  | outside
  | load (call : SemWait)
  | swap (call : SemWait) (nCur : Int)
  | clock (pAbs : Timespec)
  | futexWait (call : SemWait)
  | asleep (call : SemWait)
  | postLoad
  | postSwap (nCur : Int)
  | postWake
  deriving DecidableEq

def SemPc.isAsleep : SemPc → Bool
  | .asleep _ => true
  | _ => false

/-- The semaphore and its threads. `posts` and `waits` are history variables that count the calls
whose compare-and-swap went through. -/
structure Sem (T : Type u) where
  nValue : Int
  pc : T → SemPc
  posts : Nat
  waits : Nat

inductive SemEvent (T : Type u)
  | waits (t : T) (call : SemWait)
  | posts (t : T)
  /-- The next step of a thread, with what the clock says and whom a wake chooses. -/
  | runs (t : T) (now : Option Timespec) (choice : Option T)
  | interrupted (t : T)
  | timedOut (t : T)

variable {T : Type u}

namespace Sem

variable [DecidableEq T]

def init (uValue : Int) : Sem T :=
  { nValue := uValue, pc := fun _ => .outside, posts := 0, waits := 0 }

def goto (st : Sem T) (t : T) (pc : SemPc) : Sem T :=
  { st with pc := update st.pc t pc }

def asleep (st : Sem T) (t : T) : Bool := (st.pc t).isAsleep

/-- The futex wait of a sleeper returns, and the loop reads the value again. -/
def rouse (st : Sem T) (t : T) : Sem T :=
  match st.pc t with
  | .asleep call => st.goto t (.load call)
  | _ => st

variable [Fintype T]

/-- The next atomic step of a thread. -/
def run (st : Sem T) (t : T) (now : Option Timespec) (choice : Option T) : Sem T :=
  match st.pc t with
  | .outside | .asleep _ => st
  | .load call =>
    if 0 < st.nValue then st.goto t (.swap call st.nValue)
    else
      match call with
      | .trywait => st.goto t .outside
      | .wait => st.goto t (.futexWait .wait)
      | .timedwait pAbs => st.goto t (.clock pAbs)
  | .swap call nCur =>
    if st.nValue = nCur then
      { st with nValue := nCur - 1, waits := st.waits + 1 }.goto t .outside
    else st.goto t (.load call)
  | .clock pAbs =>
    if pAbs.remains now then st.goto t (.futexWait (.timedwait pAbs)) else st.goto t .outside
  | .futexWait call => st.goto t (if st.nValue = 0 then .asleep call else .load call)
  | .postLoad => st.goto t (if cgjSemMax ≤ st.nValue then .outside else .postSwap st.nValue)
  | .postSwap nCur =>
    if st.nValue = nCur then
      { st with nValue := nCur + 1, posts := st.posts + 1 }.goto t
        (if nCur ≤ 0 then .postWake else .outside)
    else st.goto t .postLoad
  | .postWake =>
    if MayWake st.asleep choice then (choice.elim st st.rouse).goto t .outside else st

def step (st : Sem T) : SemEvent T → Sem T
  | .waits t call => if st.pc t = .outside then st.goto t (.load call) else st
  | .posts t => if st.pc t = .outside then st.goto t .postLoad else st
  | .runs t now choice => st.run t now choice
  | .interrupted t => st.rouse t
  | .timedOut t =>
    match st.pc t with
    | .asleep (.timedwait _) => st.goto t .outside
    | _ => st

end Sem

/-! ### What a step does -/

/-- A swap that goes through keeps the value in its range. -/
def SemPc.InRange : SemPc → Prop
  | .swap _ nCur => 0 < nCur
  | .postSwap nCur => nCur < cgjSemMax
  | _ => True

/-- Whether a thread is about to take a unit, or to wake somebody who is. -/
def SemPc.taker : SemPc → Nat
  | .load _ | .swap .. | .postWake => 1
  | _ => 0

namespace Sem

/-- The steps by what they change: only a thread's place, the value, or whether somebody sleeps. -/
inductive Moves [DecidableEq T] (st : Sem T) : SemEvent T → Sem T → Prop
  | stays {event} : Moves st event st
  | walks {event t pc} (range : pc.InRange) (sleeps : pc.isAsleep = true → st.nValue ≤ 0)
      (takes : st.nValue ≤ 0 ∨ (st.pc t).taker ≤ pc.taker) : Moves st event (st.goto t pc)
  | takes {t call now choice} (here : st.pc t = .swap call st.nValue) :
      Moves st (.runs t now choice)
        ({ st with nValue := st.nValue - 1, waits := st.waits + 1 }.goto t .outside)
  | posts {t now choice} (here : st.pc t = .postSwap st.nValue) :
      Moves st (.runs t now choice)
        ({ st with nValue := st.nValue + 1, posts := st.posts + 1 }.goto t
          (if st.nValue ≤ 0 then .postWake else .outside))
  | wakes {t sleeper call now choice} (here : st.pc t = .postWake)
      (asleep : st.pc sleeper = .asleep call) :
      Moves st (.runs t now choice) ((st.goto sleeper (.load call)).goto t .outside)
  | wakesNobody {t now choice} (nobody : ∀ u, st.asleep u = false) :
      Moves st (.runs t now choice) (st.goto t .outside)

variable {st st' : Sem T} {t : T} {pc : SemPc} {uValue : Int} {event : SemEvent T}

section

variable [Fintype T]

/-- How many threads are about to take a unit or to wake a sleeper. -/
def takers (st : Sem T) : Nat := ∑ t, (st.pc t).taker

/-- While somebody sleeps, every unit has somebody who is about to take it. -/
def Heard (st : Sem T) : Prop := ∀ t, st.asleep t = true → st.nValue ≤ st.takers

/-- Every thread inside the functions is asleep. -/
def Quiet (st : Sem T) : Prop := ∀ t, st.pc t = .outside ∨ st.asleep t = true

instance (st : Sem T) : Decidable st.Quiet := inferInstanceAs (Decidable (∀ _, _ ∨ _))

theorem Quiet.takers (quiet : st.Quiet) : st.takers = 0 := by
  refine Finset.sum_eq_zero fun t _ => ?_
  rcases quiet t with outside | asleep
  · rw [outside]
    rfl
  · rw [Sem.asleep] at asleep
    cases here : st.pc t with
    | asleep => rfl
    | _ =>
      rw [here] at asleep
      cases asleep

end

variable [DecidableEq T]

theorem rouse_asleep {call : SemWait} (here : st.pc t = .asleep call) :
    st.rouse t = st.goto t (.load call) := by
  rw [rouse, here]

theorem moves_rouse (st : Sem T) (t : T) (event : SemEvent T) : st.Moves event (st.rouse t) := by
  unfold rouse
  split
  · exact .walks trivial nofun (.inr (by simp_all [SemPc.taker]))
  · exact .stays

section

variable [Fintype T]

theorem moves_run (st : Sem T) (t : T) (now : Option Timespec) (choice : Option T) :
    st.Moves (.runs t now choice) (st.run t now choice) := by
  unfold run
  cases here : st.pc t with
  | outside | asleep => exact .stays
  | load call =>
    simp only
    split_ifs with units
    · exact .walks units nofun (.inr (by rw [here]; exact le_rfl))
    · cases call <;> exact .walks trivial nofun (.inl (le_of_not_gt units))
  | swap call nCur =>
    simp only
    split_ifs with same
    · subst same
      exact .takes here
    · exact .walks trivial nofun (.inr (by rw [here]; exact le_rfl))
  | clock pAbs =>
    simp only
    split_ifs <;> exact .walks trivial nofun (.inr (by rw [here]; exact le_rfl))
  | futexWait call =>
    simp only
    split_ifs with empty
    · exact .walks trivial (fun _ => empty.le) (.inl empty.le)
    · exact .walks trivial nofun (.inr (by rw [here]; exact Nat.zero_le _))
  | postLoad =>
    simp only
    split_ifs with full
    · exact .walks trivial nofun (.inr (by rw [here]; exact le_rfl))
    · exact .walks (lt_of_not_ge full) nofun (.inr (by rw [here]; exact le_rfl))
  | postSwap nCur =>
    by_cases same : st.nValue = nCur
    · subst same
      simp only [if_true]
      exact .posts here
    · simp only [if_neg same]
      exact .walks trivial nofun (.inr (by rw [here]; exact le_rfl))
  | postWake =>
    simp only
    split_ifs with may
    · cases choice with
      | none => exact .wakesNobody may
      | some sleeper =>
        have asleep : (st.pc sleeper).isAsleep = true := may
        cases there : st.pc sleeper with
        | asleep call =>
          rw [Option.elim_some, rouse_asleep there]
          exact .wakes here there
        | _ =>
          rw [there] at asleep
          cases asleep
    · exact .stays

theorem moves_step (st : Sem T) (event : SemEvent T) : st.Moves event (st.step event) := by
  cases event with
  | waits t call | posts t =>
    simp only [step]
    split_ifs with outside
    · exact .walks trivial nofun (.inr (by rw [outside]; exact Nat.zero_le _))
    · exact .stays
  | runs t now choice => exact st.moves_run t now choice
  | interrupted t => exact st.moves_rouse t _
  | timedOut t =>
    simp only [step]
    split
    · exact .walks trivial nofun (.inr (by simp_all [SemPc.taker]))
    · exact .stays

end

/-! ### The value -/

/-- The books of the semaphore, and a value that fits its word. -/
structure Sound (uValue : Int) (st : Sem T) : Prop where
  counted : st.nValue = uValue + st.posts - st.waits
  range : 0 ≤ st.nValue ∧ st.nValue ≤ cgjSemMax
  swaps : ∀ t, (st.pc t).InRange

theorem Sound.goto (sound : st.Sound uValue) (range : pc.InRange) :
    (st.goto t pc).Sound uValue where
  counted := sound.counted
  range := sound.range
  swaps u := by
    show (update st.pc t pc u).InRange
    rw [update_apply]
    split_ifs
    · exact range
    · exact sound.swaps u

theorem Moves.sound (moves : st.Moves event st') (sound : st.Sound uValue) : st'.Sound uValue := by
  obtain ⟨counted, range, swaps⟩ := sound
  cases moves with
  | stays => exact ⟨counted, range, swaps⟩
  | walks inRange => exact Sound.goto ⟨counted, range, swaps⟩ inRange
  | @takes t _ _ _ here =>
    have positive : (st.pc t).InRange := swaps t
    rw [here] at positive
    have positive : 0 < st.nValue := positive
    refine Sound.goto ⟨?_, ?_, swaps⟩ trivial <;> simp only <;> omega
  | @posts t _ _ here =>
    have room : (st.pc t).InRange := swaps t
    rw [here] at room
    have room : st.nValue < cgjSemMax := room
    refine Sound.goto ⟨?_, ?_, swaps⟩ (by split_ifs <;> trivial) <;> simp only <;> omega
  | @wakes _ sleeper call =>
    have woken : (st.goto sleeper (.load call)).Sound uValue :=
      Sound.goto ⟨counted, range, swaps⟩ trivial
    exact woken.goto trivial
  | wakesNobody => exact Sound.goto ⟨counted, range, swaps⟩ trivial

/-! ### The sleepers -/

theorem goto_pc (st : Sem T) (t u : T) (pc : SemPc) :
    (st.goto t pc).pc u = if u = t then pc else st.pc u := update_apply ..

/-- Who sleeps after a thread has moved is that thread or has slept before. -/
theorem asleep_goto {u : T} (asleep : (st.goto t pc).asleep u = true) :
    pc.isAsleep = true ∨ st.asleep u = true := by
  rw [Sem.asleep, goto_pc] at asleep
  split_ifs at asleep
  · exact .inl asleep
  · exact .inr asleep

variable [Fintype T]

theorem takers_goto (st : Sem T) (t : T) (pc : SemPc) :
    (st.goto t pc).takers + (st.pc t).taker = st.takers + pc.taker :=
  sum_update SemPc.taker st.pc t pc

/-- The condition of a step: no post raises a positive value while a thread sleeps. -/
def PostsAwake (st : Sem T) : SemEvent T → Prop
  | .runs t _ _ => st.pc t = .postSwap st.nValue → 0 < st.nValue → ∀ u, st.asleep u = false
  | _ => True

instance (st : Sem T) : DecidablePred st.PostsAwake
  | .runs .. => inferInstanceAs (Decidable (_ → _ → ∀ _, _ = false))
  | .waits .. | .posts .. | .interrupted .. | .timedOut .. => inferInstanceAs (Decidable True)

theorem Moves.heard (moves : st.Moves event st') (awake : st.PostsAwake event) (heard : st.Heard) :
    st'.Heard := by
  intro u asleep
  cases moves with
  | stays => exact heard u asleep
  | @walks _ t pc _ sleeps takes =>
    have count := st.takers_goto t pc
    show st.nValue ≤ _
    by_cases empty : st.nValue ≤ 0
    · omega
    · have before := heard u ((asleep_goto asleep).resolve_left fun now => empty (sleeps now))
      omega
  | @takes t _ _ _ here =>
    have count := st.takers_goto t .outside
    rw [here] at count
    have before := heard u ((asleep_goto asleep).resolve_left nofun)
    show st.nValue - 1 ≤ ((st.goto t .outside).takers : Int)
    simp only [SemPc.taker] at count
    omega
  | @posts t _ _ here =>
    have slept : st.asleep u = true := (asleep_goto asleep).resolve_left (by split_ifs <;> nofun)
    by_cases empty : st.nValue ≤ 0
    · have count := st.takers_goto t .postWake
      rw [here] at count
      rw [if_pos empty]
      show st.nValue + 1 ≤ ((st.goto t .postWake).takers : Int)
      simp only [SemPc.taker] at count
      omega
    · have none := awake here (lt_of_not_ge empty) u
      rw [slept] at none
      cases none
  | @wakes t sleeper call _ _ here there =>
    have woken := st.takers_goto sleeper (.load call)
    have count := (st.goto sleeper (.load call)).takers_goto t .outside
    have other : t ≠ sleeper := by
      rintro rfl
      rw [here] at there
      cases there
    rw [goto_pc, if_neg other, here] at count
    rw [there] at woken
    have before := heard u
      ((asleep_goto ((asleep_goto asleep).resolve_left nofun)).resolve_left nofun)
    show st.nValue ≤ _
    simp only [SemPc.taker] at count woken
    omega
  | wakesNobody nobody =>
    have slept := (asleep_goto asleep).resolve_left nofun
    rw [nobody u] at slept
    cases slept

def after (uValue : Int) (run : List (SemEvent T)) : Sem T := run.foldl step (init uValue)

theorem sound_after (range : 0 ≤ uValue ∧ uValue ≤ cgjSemMax) (run : List (SemEvent T)) :
    (after uValue run).Sound uValue :=
  List.foldlRecOn run step ⟨by simp [init], range, fun _ => trivial⟩
    fun st sound event _ => (st.moves_step event).sound sound

/-- The value is the initial value with the posts and without the waits. In a run in which no post
raises a positive value over a sleeper, nobody sleeps on a unit once all others are outside. -/
theorem sem_units_meet_sleepers (uValue : Int) (range : 0 ≤ uValue ∧ uValue ≤ cgjSemMax)
    (run : List (SemEvent T)) :
    (after uValue run).nValue = uValue + (after uValue run).posts - (after uValue run).waits ∧
      (Meets step PostsAwake (init uValue) run → (after uValue run).Quiet →
        ∀ t, (after uValue run).asleep t = true → (after uValue run).nValue = 0) := by
  have sound := sound_after range run
  refine ⟨sound.counted, fun awake quiet t asleep => ?_⟩
  have heard : (after uValue run).Heard := awake.invariant
    (fun st event (heard : st.Heard) awake => (st.moves_step event).heard awake heard) nofun
  have few := heard t asleep
  rw [quiet.takers] at few
  exact le_antisymm few sound.range.1

/-- The steps of a thread up to its sleep on an empty semaphore. -/
def sleeps (t : T) : List (SemEvent T) := [.waits t .wait, .runs t none none, .runs t none none]

/-- The steps of a post up to its swap. -/
def raises (t : T) : List (SemEvent T) := [.posts t, .runs t none none, .runs t none none]

/-- Of two sleepers the first is woken and takes the unit that was posted. -/
def sampleRun : List (SemEvent (Fin 3)) :=
  sleeps 0 ++ sleeps 1 ++ raises 2 ++ [.runs 2 none (some 0), .runs 0 none none, .runs 0 none none]

theorem sem_units_meet_sleepers_sample :
    (after 0 sampleRun).asleep 1 = true ∧ (after 0 sampleRun).nValue = 0 := by
  have meets : Meets step PostsAwake (init 0) sampleRun := by decide +kernel
  have quiet : (after 0 sampleRun).Quiet := by decide +kernel
  have asleep : (after 0 sampleRun).asleep 1 = true := by decide +kernel
  exact ⟨asleep, (sem_units_meet_sleepers 0 (by decide) sampleRun).2 meets quiet 1 asleep⟩

/-- Two posts one after the other, of which only the first wakes somebody. -/
def burstRun : List (SemEvent (Fin 4)) :=
  sleeps 0 ++ sleeps 1 ++ raises 2 ++ raises 3 ++
    [.runs 2 none (some 0), .runs 0 none none, .runs 0 none none]

theorem sem_units_meet_sleepers_burst :
    (after 0 burstRun).Quiet ∧ (after 0 burstRun).asleep 1 = true ∧
      (after 0 burstRun).nValue = 1 := by
  decide +kernel

end Sem

end GreenJade.Libc

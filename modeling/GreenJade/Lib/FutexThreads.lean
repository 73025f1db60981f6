import Mathlib.Algebra.BigOperators.Group.Finset.Basic
import Mathlib.Data.Fintype.Basic

/-! Owns threads around a futex word: whom a wake of one thread may choose, and how a sum over the
threads changes when one of them moves. -/

namespace FutexThreads

open Function Finset

universe u v

variable {T : Type u} {P : Type v}

/-- A wake of one thread takes any sleeper, and nobody only if nobody sleeps. -/
def MayWake (asleep : T → Bool) : Option T → Prop
  | some sleeper => asleep sleeper = true
  | none => ∀ t, asleep t = false

instance MayWake.decidable [Fintype T] (asleep : T → Bool) :
    ∀ choice, Decidable (MayWake asleep choice)
  | some sleeper => inferInstanceAs (Decidable (asleep sleeper = true))
  | none => inferInstanceAs (Decidable (∀ t, asleep t = false))

theorem sum_update [Fintype T] [DecidableEq T] (weigh : P → Nat) (pc : T → P) (t : T) (next : P) :
    ∑ u, weigh (update pc t next u) + weigh (pc t) = ∑ u, weigh (pc u) + weigh next := by
  have others : ∀ u ∈ univ.erase t, weigh (update pc t next u) = weigh (pc u) := by
    intro u other
    rw [update_of_ne (ne_of_mem_erase other)]
  have after := add_sum_erase univ (fun u => weigh (update pc t next u))
    (mem_univ t)
  have before := add_sum_erase univ (fun u => weigh (pc u)) (mem_univ t)
  rw [sum_congr rfl others, update_self] at after
  omega

end FutexThreads

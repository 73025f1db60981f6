import GreenJade.Base
import Mathlib.Data.Fintype.Basic

/-! Owns the thread table as the wait queues see it: which threads are blocked. It does not own
the scheduler: which runnable thread runs next is left open. -/

namespace GreenJade.Sched

def gjMaxThreads : Nat := 32

instance : NeZero gjMaxThreads := ⟨by decide⟩

abbrev Thr := Fin gjMaxThreads

/-- `thread_block` and the wake of one thread: whether it is blocked. -/
def setBlocked (blocked : Thr → Bool) (t : Thr) (value : Bool) : Thr → Bool :=
  Function.update blocked t value

theorem setBlocked_apply (blocked : Thr → Bool) (t u : Thr) (value : Bool) :
    setBlocked blocked t value u = if u = t then value else blocked u :=
  Function.update_apply ..

end GreenJade.Sched

import Mathlib.Data.BitVec

/-! Owns the machine words and the status codes that the modelled kernel functions
share. Only the codes of `gj/error.h` that a modelled function returns are listed. -/

namespace GreenJade

abbrev U8 := BitVec 8
abbrev U16 := BitVec 16
abbrev U32 := BitVec 32
abbrev U64 := BitVec 64

inductive GjStatus
  | ok
  | errInval
  | errNomem
  | errNoent
  | errPerm
  | errAgain
  | errBusy
  | errFault
  | errDead
  | errStaleCap
  | errQuota
  deriving DecidableEq, Repr

/-- A chain of early returns succeeds exactly when no check fires. -/
theorem ite_code_eq_ok {p : Prop} [Decidable p] {rest : GjStatus} (code : GjStatus)
    (fails : code ≠ .ok) :
    (if p then code else rest) = .ok ↔ ¬ p ∧ rest = .ok := by
  by_cases fired : p <;> simp [fired, fails]

theorem ite_error_eq_ok {α : Type*} {p : Prop} [Decidable p] {code : GjStatus}
    {rest : Except GjStatus α} {value : α} :
    (if p then .error code else rest) = .ok value ↔ ¬ p ∧ rest = .ok value := by
  by_cases fired : p <;> simp [fired]

/-- `cdt_soft_inc`: a counter that stops at its maximum. -/
def saturatingInc (counter : U32) : U32 :=
  if counter < 0xffffffff then counter + 1 else counter

/-! The sizes of the small index types, for their literals. -/

instance neZeroTwo : NeZero 2 := ⟨by decide⟩

instance neZeroThree : NeZero 3 := ⟨by decide⟩

instance neZeroSix : NeZero 6 := ⟨by decide⟩

instance neZeroSixteen : NeZero 16 := ⟨by decide⟩

instance neZeroPipe : NeZero 2048 := ⟨by decide⟩

end GreenJade

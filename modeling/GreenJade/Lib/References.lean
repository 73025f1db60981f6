import Mathlib.Logic.Function.Basic

/-! Owns marks that stand for references: a place is to be marked exactly if something refers to it.
A mark is no count, so dropping one of two references to a place leaves a reference without a
mark; the rule for a drop says that this is the only way to go wrong. -/

namespace References

open Function

universe u v w

variable {D : Type u} {P : Type v} [DecidableEq D] [DecidableEq P] {marked : P → Bool}
  {refs : D → Option P} {d : D} {p : P}

/-- A place is marked exactly if something refers to it. -/
def Exact (marked : P → Bool) (refs : D → Option P) : Prop :=
  ∀ p, marked p = true ↔ ∃ d, refs d = some p

/-- A new reference comes with a mark. -/
theorem Exact.add (exactly : Exact marked refs) (unused : refs d = none) :
    Exact (update marked p true) (update refs d (some p)) := by
  intro q
  by_cases here : q = p
  · subst here
    rw [update_self]
    exact iff_of_true rfl ⟨d, update_self ..⟩
  · rw [update_of_ne here, exactly q]
    constructor
    · rintro ⟨e, refers⟩
      have other : e ≠ d := by
        rintro rfl
        rw [unused] at refers
        cases refers
      exact ⟨e, by rw [update_of_ne other]; exact refers⟩
    · rintro ⟨e, refers⟩
      by_cases same : e = d
      · subst same
        rw [update_self] at refers
        exact absurd (Option.some.inj refers).symm here
      · rw [update_of_ne same] at refers
        exact ⟨e, refers⟩

/-- A further reference to what something refers to. -/
theorem Exact.dup (exactly : Exact marked refs) (unused : refs d = none) {e : D}
    (refers : refs e = some p) : Exact marked (update refs d (some p)) := by
  have added := exactly.add unused (p := p)
  have isMarked := (exactly p).mpr ⟨e, refers⟩
  rwa [← isMarked, update_eq_self] at added

/-- A reference goes, and with it the mark: this is right if it was the last. -/
theorem Exact.drop_iff (exactly : Exact marked refs) (refers : refs d = some p) :
    Exact (update marked p false) (update refs d none) ↔ ∀ e, refs e = some p → e = d := by
  constructor
  · intro after e other
    by_contra different
    have isMarked := (after p).mpr ⟨e, by rw [update_of_ne different]; exact other⟩
    rw [update_self] at isMarked
    cases isMarked
  · intro last q
    by_cases here : q = p
    · subst here
      rw [update_self]
      apply iff_of_false nofun
      rintro ⟨e, other⟩
      by_cases same : e = d
      · subst same
        rw [update_self] at other
        cases other
      · rw [update_of_ne same] at other
        exact same (last e other)
    · rw [update_of_ne here, exactly q]
      refine exists_congr fun e => ?_
      by_cases same : e = d
      · subst same
        rw [update_self, refers]
        exact iff_of_false (fun equal => here (Option.some.inj equal).symm) nofun
      · rw [update_of_ne same]

end References

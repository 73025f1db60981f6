import Mathlib.Data.List.Infix

/-! Owns runs of a step function under a condition on each step: what holds at the start and is kept
by every step that meets the condition holds along the run; where the condition is exactly what
keeps it, the runs that meet the condition are the runs along which it holds. -/

namespace StepRuns

universe u v

variable {S : Type u} {A : Type v} {step : S → A → S} {meets : S → A → Prop} {holds : S → Prop}

/-- All steps of a run meet a condition on the state before them. -/
def Meets (step : S → A → S) (meets : S → A → Prop) : S → List A → Prop
  | _, [] => True
  | s, a :: rest => meets s a ∧ Meets step meets (step s a) rest

instance Meets.decidable [∀ s a, Decidable (meets s a)] :
    ∀ (s : S) (run : List A), Decidable (Meets step meets s run)
  | _, [] => inferInstanceAs (Decidable True)
  | s, a :: rest => @instDecidableAnd _ _ _ (Meets.decidable (step s a) rest)

variable {s : S} {run : List A}

theorem Meets.append {front back : List A} : Meets step meets s (front ++ back) ↔
      Meets step meets s front ∧ Meets step meets (front.foldl step s) back := by
  induction front generalizing s with
  | nil => exact (iff_of_eq (true_and _)).symm
  | cons a rest ih =>
    rw [List.cons_append, Meets, Meets, ih, and_assoc]
    rfl

/-- What the steps keep holds at the end of a run. -/
theorem Meets.invariant (keeps : ∀ s a, holds s → meets s a → holds (step s a))
    (all : Meets step meets s run) (start : holds s) : holds (run.foldl step s) := by
  induction run generalizing s with
  | nil => exact start
  | cons a rest ih => exact ih all.2 (keeps s a start all.1)

/-- A condition that is exactly what keeps a property. -/
theorem meets_iff_prefixes (exactly : ∀ s a, holds s → (holds (step s a) ↔ meets s a))
    (start : holds s) :
    Meets step meets s run ↔ ∀ front, front <+: run → holds (front.foldl step s) := by
  induction run generalizing s with
  | nil =>
    refine ⟨fun _ front inside => ?_, fun _ => trivial⟩
    rw [List.prefix_nil.mp inside]
    exact start
  | cons a rest ih =>
    constructor
    · rintro ⟨first, others⟩ front inside
      have next := (exactly s a start).mpr first
      cases front with
      | nil => exact start
      | cons b front =>
        obtain ⟨rfl, shorter⟩ := List.cons_prefix_cons.mp inside
        exact (ih next).mp others front shorter
    · intro all
      have next : holds (step s a) := all [a] (List.cons_prefix_cons.mpr ⟨rfl, List.nil_prefix⟩)
      refine ⟨(exactly s a start).mp next, (ih next).mpr fun front inside => ?_⟩
      exact all (a :: front) (List.cons_prefix_cons.mpr ⟨rfl, inside⟩)

/-- A condition that is exactly what makes a step good, where good steps keep an invariant. -/
theorem meets_iff_steps {good : S → A → Prop}
    (keeps : ∀ s a, holds s → meets s a → holds (step s a))
    (exactly : ∀ s a, holds s → (good s a ↔ meets s a)) (start : holds s) :
    Meets step meets s run ↔
      ∀ front a back, run = front ++ a :: back → good (front.foldl step s) a := by
  induction run generalizing s with
  | nil =>
    refine ⟨fun _ front a back split => ?_, fun _ => trivial⟩
    exact absurd split (by simp)
  | cons first rest ih =>
    constructor
    · rintro ⟨met, others⟩ front a back split
      cases front with
      | nil =>
        cases split
        exact (exactly s first start).mpr met
      | cons b front =>
        obtain ⟨rfl, shorter⟩ := List.cons.inj split
        exact (ih (keeps s first start met)).mp others front a back shorter
    · intro all
      have met := (exactly s first start).mp (all [] first rest rfl)
      refine ⟨met, (ih (keeps s first start met)).mpr fun front a back split => ?_⟩
      exact all (first :: front) a back (congrArg (List.cons first) split)

end StepRuns

import GreenJade.Lib.LinkedChain

/-! Owns bounded walks along a parent map that may contain cycles: climbing `k` parents,
maps with no cycle up to a given length, the guard under which re-parenting keeps that,
and updating every node met by a bounded walk. It does not own what the nodes carry. -/

namespace ParentWalk

open Function LinkedChain List

universe u v

variable {Q : Type u} {parent : Q → Option Q}

/-- The ancestor `count` links up. -/
def climb (parent : Q → Option Q) : Nat → Q → Option Q
  | 0, node => some node
  | count + 1, node => (parent node).bind (climb parent count)

theorem climb_add (first second : Nat) (node : Q) :
    climb parent (first + second) node = (climb parent first node).bind (climb parent second) := by
  induction first generalizing node with
  | zero => simp [climb]
  | succ first ih =>
    rw [Nat.succ_add, climb, climb]
    cases parent node with
    | none => rfl
    | some above => exact ih above

/-- A walk of `count` nodes meets exactly the ancestors fewer than `count` links up. -/
theorem mem_walk_iff {count : Nat} {start node : Q} :
    node ∈ walk parent count (some start) ↔ ∃ k < count, climb parent k start = some node := by
  induction count generalizing start with
  | zero => simp [walk]
  | succ count ih =>
    rw [walk, mem_cons]
    constructor
    · rintro (rfl | member)
      · exact ⟨0, Nat.succ_pos count, rfl⟩
      · cases above : parent start with
        | none => cases count <;> simp [above, walk] at member
        | some next =>
          obtain ⟨k, bound, reached⟩ := ih.mp (above ▸ member)
          exact ⟨k + 1, Nat.succ_lt_succ bound, by simp [climb, above, reached]⟩
    · rintro ⟨k, bound, reached⟩
      cases k with
      | zero =>
        left
        simpa [climb] using reached.symm
      | succ k =>
        right
        cases above : parent start with
        | none => simp [climb, above] at reached
        | some next =>
          exact ih.mpr ⟨k, Nat.lt_of_succ_lt_succ bound, by simpa [climb, above] using reached⟩

/-- A node that is nobody's parent is met only where the walk starts. -/
theorem mem_walk_of_childless {node : Q} (childless : ∀ other, parent other ≠ some node)
    {count : Nat} {start : Option Q} (met : node ∈ walk parent count start) :
    start = some node := by
  induction count generalizing start with
  | zero => simp [walk] at met
  | succ count ih =>
    cases start with
    | none => simp [walk] at met
    | some first =>
      rw [walk, mem_cons] at met
      rcases met with rfl | above
      · rfl
      · exact absurd (ih above) (childless first)

/-- Two maps that agree on a set closed under parents give the same walks inside it. -/
theorem walk_congr_of_closed {other : Q → Option Q} (known : Q → Prop)
    (closed : ∀ node, known node → ∀ above ∈ parent node, known above)
    (agree : ∀ node, known node → other node = parent node) :
    ∀ (count : Nat) (start : Option Q), (∀ node ∈ start, known node) →
      walk other count start = walk parent count start
  | 0, _, _ => rfl
  | _ + 1, none, _ => rfl
  | count + 1, some node, starts => by
    have here := starts node rfl
    rw [walk, walk, agree node here,
      walk_congr_of_closed known closed agree count (parent node) (closed node here)]

/-- No node is its own ancestor within `length` links. -/
def NoShortCycle (parent : Q → Option Q) (length : Nat) : Prop :=
  ∀ node count, 0 < count → count ≤ length → climb parent count node ≠ some node

theorem NoShortCycle.walk_nodup {length : Nat} (free : NoShortCycle parent length) :
    ∀ (count : Nat) (start : Option Q), count ≤ length → (walk parent count start).Nodup
  | 0, _, _ => nodup_nil
  | _ + 1, none, _ => nodup_nil
  | count + 1, some node, bound => by
    refine nodup_cons.mpr ⟨fun again => ?_, free.walk_nodup count _ (by omega)⟩
    cases above : parent node with
    | none => cases count <;> simp [above, walk] at again
    | some next =>
      obtain ⟨k, short, reached⟩ := mem_walk_iff.mp (above ▸ again)
      exact free node (k + 1) (Nat.succ_pos k) (by omega) (by simp [climb, above, reached])

/-! ### Re-parenting -/

section Reparent

variable [DecidableEq Q] {child : Q} {above : Option Q}

/-- A climb that does not pass the re-parented node is unchanged. -/
theorem climb_update_of_avoids (count : Nat) (start : Q)
    (avoids : ∀ k < count, climb (update parent child above) k start ≠ some child) :
    climb (update parent child above) count start = climb parent count start := by
  induction count generalizing start with
  | zero => rfl
  | succ count ih =>
    have different : start ≠ child := by
      rintro rfl
      exact avoids 0 (Nat.succ_pos count) rfl
    have same : update parent child above start = parent start := update_of_ne different _ _
    rw [climb, climb, same]
    cases next : parent start with
    | none => rfl
    | some node =>
      refine ih node fun k bound => ?_
      have step := avoids (k + 1) (Nat.succ_lt_succ bound)
      rwa [climb, same, next] at step

/-- Detaching a node closes no cycle. -/
theorem NoShortCycle.detach {length : Nat} (free : NoShortCycle parent length) :
    NoShortCycle (update parent child none) length := by
  intro node count positive bound closed
  by_cases avoids : ∀ k < count, climb (update parent child none) k node ≠ some child
  · exact free node count positive bound (climb_update_of_avoids count node avoids ▸ closed)
  · push Not at avoids
    obtain ⟨k, before, met⟩ := avoids
    obtain ⟨rest, rfl⟩ := Nat.exists_eq_add_of_lt before
    rw [Nat.add_assoc, climb_add, met] at closed
    simp [climb] at closed

/-- Attaching `child` under a node whose first `length` ancestors (itself included) do
not hold `child` closes only cycles longer than `length`. -/
theorem NoShortCycle.attach {length : Nat} {newParent : Q} (free : NoShortCycle parent length)
    (guard : child ∉ walk parent length (some newParent)) :
    NoShortCycle (update parent child (some newParent)) length := by
  -- The new parent does not climb back to `child`: take the first return, before which
  -- the climb never uses the new link, so the guard has already seen it.
  have noReturn : ∀ k < length,
      climb (update parent child (some newParent)) k newParent ≠ some child := by
    intro k
    induction k using Nat.strongRecOn with
    | ind k earlier =>
      intro bound returned
      have avoids : ∀ j < k,
          climb (update parent child (some newParent)) j newParent ≠ some child :=
        fun j before => earlier j before (Nat.lt_trans before bound)
      rw [climb_update_of_avoids k newParent avoids] at returned
      exact guard (mem_walk_iff.mpr ⟨k, bound, returned⟩)
  intro node count positive bound closed
  by_cases avoids : ∀ k < count, climb (update parent child (some newParent)) k node ≠ some child
  · exact free node count positive bound (climb_update_of_avoids count node avoids ▸ closed)
  · -- A cycle through `child` can be read from `child` itself.
    push Not at avoids
    obtain ⟨k, before, met⟩ := avoids
    have fromChild : climb (update parent child (some newParent)) count child = some child := by
      calc climb (update parent child (some newParent)) count child
          = climb (update parent child (some newParent)) (k + count) node := by
            rw [climb_add, met, Option.bind_some]
        _ = climb (update parent child (some newParent)) k node := by
            rw [Nat.add_comm, climb_add, closed, Option.bind_some]
        _ = some child := met
    cases count with
    | zero => exact absurd positive (Nat.lt_irrefl 0)
    | succ rest =>
      apply noReturn rest (by omega)
      simpa [climb] using fromChild

end Reparent

/-! ### Updating every node of a bounded walk -/

section Visit

variable {N : Type v} [DecidableEq Q] (parentOf : N → Option Q) (change : N → N)

/-- Applies `change` to at most `count` nodes, from `start` up the parent links. -/
def visit : Nat → Option Q → (Q → N) → Q → N
  | 0, _, table => table
  | _ + 1, none, table => table
  | count + 1, some node, table =>
    visit count (parentOf (table node)) (update table node (change (table node)))

variable {parentOf change}

/-- When `change` keeps the parent link and no node repeats, each node met is changed
exactly once and no other node is touched. -/
theorem visit_apply (keeps : ∀ entry, parentOf (change entry) = parentOf entry)
    (count : Nat) (start : Option Q) (table : Q → N)
    (distinct : (walk (fun node => parentOf (table node)) count start).Nodup) (node : Q) :
    visit parentOf change count start table node =
      if node ∈ walk (fun node => parentOf (table node)) count start then change (table node)
      else table node := by
  induction count generalizing start table with
  | zero => simp [visit, walk]
  | succ count ih =>
    cases start with
    | none => simp [visit, walk]
    | some first =>
      have sameLinks : (fun other => parentOf (update table first (change (table first)) other)) =
          fun other => parentOf (table other) := by
        funext other
        by_cases here : other = first
        · subst here
          simp [keeps]
        · simp [update_of_ne here]
      rw [walk, nodup_cons] at distinct
      rw [visit, ih _ _ (sameLinks ▸ distinct.2), sameLinks, walk]
      by_cases here : node = first
      · subst here
        simp [distinct.1]
      · simp [here]

end Visit

end ParentWalk

import Mathlib.Data.List.Nodup
import Mathlib.Logic.Function.Basic

/-! Owns null-terminated singly linked chains over a `next` map: the list of nodes a
chain visits, pushing at the head, splicing a node out, and the bounded walks that read
a chain. It does not own where the nodes live or what they carry. -/

namespace LinkedChain

open List

universe u

variable {P : Type u} {next next' : P → Option P} {head : Option P} {nodes : List P}

/-- Following `next` from `head` visits exactly `nodes` and then reaches null. -/
inductive IsChain (next : P → Option P) : Option P → List P → Prop
  | nil : IsChain next none []
  | cons {node : P} {rest : List P} (tail : IsChain next (next node) rest) :
      IsChain next (some node) (node :: rest)

namespace IsChain

theorem head_eq (chain : IsChain next head nodes) : head = nodes.head? := by
  cases chain <;> rfl

theorem tail {node : P} {rest : List P} (chain : IsChain next head (node :: rest)) :
    IsChain next (next node) rest := by
  cases chain with
  | cons tail => exact tail

theorem next_eq {node : P} {rest : List P} (chain : IsChain next head (node :: rest)) :
    next node = rest.head? :=
  chain.tail.head_eq

theorem unique {others : List P} (chain : IsChain next head nodes)
    (other : IsChain next head others) : nodes = others := by
  induction chain generalizing others with
  | nil =>
    cases other
    rfl
  | cons tail ih =>
    cases other with
    | cons otherTail => rw [ih otherTail]

/-- The part of a chain from any of its splits on is itself a chain. -/
theorem suffix {front back : List P} (chain : IsChain next head (front ++ back)) :
    IsChain next back.head? back := by
  induction front generalizing head with
  | nil =>
    have start := chain.head_eq
    exact start ▸ chain
  | cons node front ih =>
    cases chain with
    | cons tail => exact ih tail

/-- A finite chain never revisits a node: the walk from a repeated node would have
two different lengths. -/
theorem nodup (chain : IsChain next head nodes) : nodes.Nodup := by
  induction chain with
  | nil => exact nodup_nil
  | @cons node rest tail ih =>
    refine nodup_cons.mpr ⟨fun member => ?_, ih⟩
    obtain ⟨front, back, split⟩ := append_of_mem member
    have again : IsChain next (some node) (node :: back) := (split ▸ tail).suffix
    have same : node :: rest = node :: back := (IsChain.cons tail).unique again
    have length := congrArg List.length (List.cons.inj same).2
    rw [split, length_append, length_cons] at length
    omega

/-- A chain depends only on the `next` fields of its own nodes. -/
theorem congr (chain : IsChain next head nodes)
    (agree : ∀ node ∈ nodes, next' node = next node) : IsChain next' head nodes := by
  induction chain with
  | nil => exact .nil
  | @cons node rest tail ih =>
    refine .cons ?_
    rw [agree node mem_cons_self]
    exact ih fun other member => agree other (mem_cons_of_mem _ member)

/-- Linking a node that is not on the chain in front of it. -/
theorem push {node : P} (chain : IsChain next head nodes) (linked : next' node = head)
    (agree : ∀ other ∈ nodes, next' other = next other) :
    IsChain next' (some node) (node :: nodes) := by
  refine .cons ?_
  rw [linked]
  exact chain.congr agree

/-- Splicing out the node after `previous`. -/
theorem splice {front back : List P} {previous target : P}
    (chain : IsChain next head (front ++ previous :: target :: back))
    (relinked : next' previous = next target)
    (agree : ∀ node ∈ front ++ previous :: back, node ≠ previous → next' node = next node) :
    IsChain next' head (front ++ previous :: back) := by
  have unrepeated := chain.nodup
  induction front generalizing head with
  | nil =>
    cases chain with
    | cons tail =>
      refine .cons ?_
      rw [relinked]
      refine tail.tail.congr fun node member => agree node (by simp [member]) ?_
      rintro rfl
      simp [member] at unrepeated
  | cons node front ih =>
    cases chain with
    | cons tail =>
      have different : node ≠ previous := by
        rintro rfl
        simp at unrepeated
      refine .cons ?_
      rw [agree node (by simp) different]
      exact ih tail (fun other member => agree other (by simp_all)) (nodup_cons.mp unrepeated).2

end IsChain

/-! ### Bounded walks -/

/-- The nodes met by following `next` for at most `fuel` links. -/
def walk (next : P → Option P) : Nat → Option P → List P
  | 0, _ => []
  | _ + 1, none => []
  | fuel + 1, some node => node :: walk next fuel (next node)

theorem length_walk_le (next : P → Option P) :
    ∀ (fuel : Nat) (head : Option P), (walk next fuel head).length ≤ fuel
  | 0, _ => Nat.le_refl 0
  | _ + 1, none => Nat.zero_le _
  | fuel + 1, some node => Nat.succ_le_succ (length_walk_le next fuel (next node))

theorem walk_eq_of_isChain (chain : IsChain next head nodes) {fuel : Nat}
    (enough : nodes.length ≤ fuel) : walk next fuel head = nodes := by
  induction chain generalizing fuel with
  | nil => cases fuel <;> rfl
  | cons tail ih =>
    cases fuel with
    | zero => simp at enough
    | succ fuel =>
      rw [walk, ih (by simpa using enough)]

/-- Searches for `target` and returns the node before it: `some none` when it is the
first node, `none` when it is not met. -/
def findPrevious [DecidableEq P] (next : P → Option P) (target : P) :
    Nat → Option P → Option P → Option (Option P)
  | 0, _, _ => none
  | _ + 1, none, _ => none
  | fuel + 1, some node, previous =>
    if node = target then some previous
    else findPrevious next target fuel (next node) (some node)

theorem findPrevious_of_not_mem [DecidableEq P] {target : P} (chain : IsChain next head nodes)
    (absent : target ∉ nodes) (fuel : Nat) (previous : Option P) :
    findPrevious next target fuel head previous = none := by
  induction chain generalizing fuel previous with
  | nil => cases fuel <;> rfl
  | cons tail ih =>
    cases fuel with
    | zero => rfl
    | succ fuel =>
      simp only [mem_cons, not_or] at absent
      rw [findPrevious, if_neg (Ne.symm absent.1)]
      exact ih absent.2 fuel _

/-- On a chain that holds `target` the search returns the node in front of it, or
`previous` when the target comes first. -/
theorem findPrevious_of_split [DecidableEq P] {target : P} {front back : List P}
    (chain : IsChain next head (front ++ target :: back)) {fuel : Nat}
    (enough : front.length < fuel) (previous : Option P) :
    findPrevious next target fuel head previous = some (front.getLast?.or previous) := by
  have unrepeated := chain.nodup
  induction front generalizing head fuel previous with
  | nil =>
    cases fuel with
    | zero => simp at enough
    | succ fuel =>
      cases chain with
      | cons tail => simp [findPrevious]
  | cons node front ih =>
    cases fuel with
    | zero => simp at enough
    | succ fuel =>
      cases chain with
      | cons tail =>
        have different : node ≠ target := by
          rintro rfl
          simp at unrepeated
        rw [findPrevious, if_neg different, ih tail
          (by simpa using enough) (some node) (nodup_cons.mp unrepeated).2]
        cases front <;> simp [getLast?_cons]

end LinkedChain

import Mathlib

/-! Owns rings: an array of cells, the index of the oldest entry and the number of entries. What a
ring holds is a list; taking the oldest entry and adding one are the operations on its ends. -/

namespace RingBuffer

open List

universe u

variable {α : Type u} {n : Nat} [NeZero n] {cells : Fin n → α} {head len : Nat}

/-- What a ring holds, the oldest first. -/
def content (cells : Fin n → α) (head len : Nat) : List α :=
  (List.range len).map fun j => cells (Fin.ofNat n (head + j))

@[simp] theorem content_zero : content cells head 0 = [] := rfl

@[simp] theorem length_content : (content cells head len).length = len := by
  simp [content]

/-- Heads count modulo the size. -/
theorem content_mod : content cells (head % n) len = content cells head len := by
  refine map_congr_left fun j _ => ?_
  congr 1
  exact Fin.ext (Nat.mod_add_mod head n j)

theorem content_pop : content cells head (len + 1) =
      cells (Fin.ofNat n head) :: content cells ((head + 1) % n) len := by
  rw [content_mod]
  unfold content
  rw [range_succ_eq_map, map_cons, map_map]
  refine congrArg₂ List.cons rfl (map_congr_left fun j _ => ?_)
  simp only [Function.comp_apply]
  congr 2
  omega

/-- Positions of entries that are fewer than the size apart differ. -/
theorem position_ne {i j : Nat} (before : i < j) (near : j < n) :
    Fin.ofNat n (head + i) ≠ Fin.ofNat n (head + j) := by
  intro same
  have values : (head + i) % n = (head + j) % n := congrArg Fin.val same
  have gap : (j - i) % n = 0 := by
    have spread : head + j - (head + i) = j - i := by omega
    rw [← spread]
    exact Nat.sub_mod_eq_zero_of_mod_eq values.symm
  rw [Nat.mod_eq_of_lt (by omega)] at gap
  omega

theorem content_push (room : len < n) (x : α) :
    content (Function.update cells (Fin.ofNat n (head + len)) x) head (len + 1) =
      content cells head len ++ [x] := by
  unfold content
  rw [range_succ, map_append, map_singleton, Function.update_self]
  refine congrArg (· ++ [x]) (map_congr_left fun j inside => ?_)
  rw [Function.update_of_ne (position_ne (mem_range.mp inside) room)]

end RingBuffer

import Mathlib.Data.BitVec

/-! Owns copies inside one memory with machine addresses: the memory after a range was
copied, entry by entry, and that copying two adjacent ranges one after the other is copying
them as one. It does not own who may access which address. -/

namespace ByteCopy

open BitVec

universe u

variable {w : Nat} {β : Type u} {memory : BitVec w → β} {dest source : BitVec w} {count : Nat}

/-- The memory after `count` entries were copied from `source` to `dest`. -/
def copy (memory : BitVec w → β) (dest source : BitVec w) (count : Nat) : BitVec w → β :=
  fun address =>
    if (address - dest).toNat < count then memory (source + (address - dest)) else memory address

/-- The two ranges of `count` addresses share no address. -/
def Apart (first second : BitVec w) (count : Nat) : Prop :=
  ∀ i < count, ∀ j < count, first + BitVec.ofNat w i ≠ second + BitVec.ofNat w j

theorem Apart.symm {first second : BitVec w} (apart : Apart first second count) :
    Apart second first count :=
  fun i iBound j jBound same => apart j jBound i iBound same.symm

/-- The end of two ranges that are apart is apart. -/
theorem Apart.tail {first second : BitVec w} {front back : Nat}
    (apart : Apart first second (front + back)) :
    Apart (first + BitVec.ofNat w front) (second + BitVec.ofNat w front) back := by
  intro i iBound j jBound same
  apply apart (front + i) (by omega) (front + j) (by omega)
  rw [ofNat_add, ofNat_add, ← add_assoc, ← add_assoc]
  exact same

theorem copy_zero : copy memory dest source 0 = memory := by
  funext address
  simp [copy]

/-- An entry of the destination is the entry of the source at the same offset. -/
theorem copy_inside (fits : count ≤ 2 ^ w) {offset : Nat} (inside : offset < count) :
    copy memory dest source count (dest + BitVec.ofNat w offset) =
      memory (source + BitVec.ofNat w offset) := by
  have back : dest + BitVec.ofNat w offset - dest = BitVec.ofNat w offset := by
    rw [add_comm, add_sub_cancel]
  have small : (BitVec.ofNat w offset).toNat = offset := by
    rw [toNat_ofNat, Nat.mod_eq_of_lt]
    omega
  rw [copy, back, small, if_pos inside]

/-- Outside the destination nothing changes. -/
theorem copy_outside {address : BitVec w}
    (outside : ∀ offset < count, address ≠ dest + BitVec.ofNat w offset) :
    copy memory dest source count address = memory address := by
  rw [copy, if_neg]
  intro inside
  apply outside (address - dest).toNat inside
  rw [ofNat_toNat, setWidth_eq, add_comm, sub_add_cancel]

/-- Two adjacent copies are one, since the first does not write what the second reads. -/
theorem copy_append {front back : Nat} (fits : front + back ≤ 2 ^ w)
    (apart : Apart source dest (front + back)) :
    copy (copy memory dest source front) (dest + BitVec.ofNat w front)
        (source + BitVec.ofNat w front) back =
      copy memory dest source (front + back) := by
  funext address
  by_cases inBack : ∃ offset < back, address = dest + BitVec.ofNat w front + BitVec.ofNat w offset
  · obtain ⟨offset, bound, rfl⟩ := inBack
    have unread : ∀ j < front,
        source + BitVec.ofNat w front + BitVec.ofNat w offset ≠ dest + BitVec.ofNat w j := by
      intro j jBound
      rw [add_assoc, ← ofNat_add]
      exact apart (front + offset) (by omega) j (by omega)
    rw [copy_inside (by omega) bound, copy_outside unread, add_assoc, add_assoc,
      ← ofNat_add, copy_inside fits (by omega)]
  · have outsideBack : ∀ offset < back,
        address ≠ dest + BitVec.ofNat w front + BitVec.ofNat w offset :=
      fun offset bound same => inBack ⟨offset, bound, same⟩
    rw [copy_outside outsideBack]
    by_cases inFront : ∃ offset < front, address = dest + BitVec.ofNat w offset
    · obtain ⟨offset, bound, rfl⟩ := inFront
      rw [copy_inside (by omega) bound, copy_inside fits (by omega)]
    · have outsideFront : ∀ offset < front, address ≠ dest + BitVec.ofNat w offset :=
        fun offset bound same => inFront ⟨offset, bound, same⟩
      have outside : ∀ offset < front + back, address ≠ dest + BitVec.ofNat w offset := by
        intro offset bound
        by_cases early : offset < front
        · exact outsideFront offset early
        · have split : offset = front + (offset - front) := by omega
          rw [split, ofNat_add, ← add_assoc]
          exact outsideBack (offset - front) (by omega)
      rw [copy_outside outsideFront, copy_outside outside]

end ByteCopy

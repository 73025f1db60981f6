import GreenJade.Cap.Cdt
import GreenJade.Cap.Quota

/-! Owns the state of the capability layer: the slot tables of all CNodes, the object
headers, the derivation tree, the quota accounts, the soft locks and the deferred revoke
queue. It owns the writes to one slot and one header. CNodes, objects and accounts are
values of arbitrary types `C`, `O` and `Q`, so any number of each is covered. -/

namespace GreenJade.Cap

open Function

universe u v w

abbrev revokeQMax : Nat := 64

structure RevokeEntry (O : Type v) where
  active : Bool
  obj : Option O
  deriving DecidableEq

structure RevokeQueue (O : Type v) where
  entry : Fin revokeQMax → RevokeEntry O
  len : Nat
  cursor : Nat

def RevokeQueue.boot {O : Type v} : RevokeQueue O :=
  { entry := fun _ => { active := false, obj := none }, len := 0, cursor := 0 }

/-- The state of the capability layer. `invalidations` is a history variable that no
function reads: how often a slot has been through `gj_cap_slot_invalidate`. -/
structure CapState (C : Type u) (O : Type v) (Q : Type w) where
  cSlots : C → Nat
  slot : C → Nat → CapSlot O
  obj : O → ObjHdr
  cdt : Cdt C O
  quota : QuotaTable Q
  quotaAccount : C → Option Q
  softLock : C → Bool
  revokeQ : RevokeQueue O
  invalidations : C → Nat → Nat

variable {C : Type u} {O : Type v} {Q : Type w}

namespace CapState

/-- Freshly initialised CNodes of the given sizes, objects and accounts. -/
def boot (cSlots : C → Nat) (limit : Q → U32) : CapState C O Q :=
  { cSlots
    slot := fun _ _ => .fresh
    obj := fun _ => gjObjHdrInit
    cdt := .boot
    quota := fun account => .init (limit account)
    quotaAccount := fun _ => none
    softLock := fun _ => false
    revokeQ := .boot
    invalidations := fun _ _ => 0 }

def Holds (s : CapState C O Q) (c : C) (i : Nat) (o : O) : Prop :=
  i < s.cSlots c ∧ (s.slot c i).Names o

def setSlot [DecidableEq C] (s : CapState C O Q) (c : C) (i : Nat) (value : CapSlot O) :
    CapState C O Q :=
  { s with slot := update s.slot c (update (s.slot c) i value) }

def setObj [DecidableEq O] (s : CapState C O Q) (o : O) (hdr : ObjHdr) : CapState C O Q :=
  { s with obj := update s.obj o hdr }

def countInvalidation [DecidableEq C] (s : CapState C O Q) (c : C) (i : Nat) : CapState C O Q :=
  { s with
    invalidations := update s.invalidations c
      (update (s.invalidations c) i (s.invalidations c i + 1)) }

end CapState

/-- A two-level table after one entry was written. -/
theorem update_update_apply {β : Type*} [DecidableEq C] (table : C → Nat → β) (c c' : C)
    (i i' : Nat) (value : β) :
    update table c (update (table c) i value) c' i' =
      if c' = c ∧ i' = i then value else table c' i' := by
  by_cases here : c' = c
  · subst here
    by_cases there : i' = i
    · subst there
      simp
    · simp [there]
  · simp [here]

end GreenJade.Cap

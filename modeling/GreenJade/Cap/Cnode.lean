import Mathlib.Tactic.Simps.Basic
import GreenJade.Cap.State

/-! Owns the slot operations of `cnode.c` and the structured invalidate of `revoke.c`:
resolve, install, allocate, invalidate, the known-CNode scan and the soft lock. Pointer
arguments are non-null, and out-parameters are returned values. -/

namespace GreenJade.Cap

universe u v w

variable {C : Type u} {O : Type v} {Q : Type w}

abbrev slotRootMeta : Nat := 0

/-- What `gj_cap_resolve` reports about a live slot. -/
structure CapResolved (O : Type v) where
  obj : O
  capType : CapType
  rights : U16
  deriving DecidableEq

def gjCapResolve (s : CapState C O Q) (c : C) (slot : Nat) (slotGen : U32) :
    Except GjStatus (CapResolved O) :=
  if s.cSlots c = 0 then .error .errInval
  else if slotGen = 0 then .error .errInval
  else if s.cSlots c ≤ slot then .error .errInval
  else if (s.slot c slot).capType = .invalid then .error .errNoent
  else if (s.slot c slot).gen ≠ slotGen then .error .errStaleCap
  else match (s.slot c slot).obj with
    | none => .error .errStaleCap
    | some o =>
      match gjObjCheckLive (s.obj o) (s.slot c slot).objGen with
      | .ok => .ok
          { obj := o, capType := (s.slot c slot).capType, rights := (s.slot c slot).rights }
      | status => .error status

section

variable [DecidableEq C] [DecidableEq O] [DecidableEq Q] (s : CapState C O Q)

/-- The writes of a successful install, after the charge. -/
@[simps! -fullyApplied cSlots cdt quota revokeQ quotaAccount invalidations]
def installSlot (c : C) (slot : Nat) (capType : CapType) (rights : U16) (o : O) : CapState C O Q :=
  (s.setSlot c slot
    { s.slot c slot with capType, rights, objGen := (s.obj o).gen, obj := some o }).setObj o
    { s.obj o with slotsLeft := (s.obj o).slotsLeft + 1 }

/-- The checks of `gj_cap_slot_install` before the charge, in their order. The second
liveness check is the one made again after the busy test; with no other CPU in between it
repeats the first. -/
def installCheck (c : C) (slot : Nat) (capType : CapType) (o : O) : GjStatus :=
  let objGen := (s.obj o).gen
  if s.cSlots c = 0 ∨ s.cSlots c ≤ slot then .errInval
  else if capType = .invalid then .errInval
  else if (s.obj o).state ≠ .live then .errDead
  else if objGen = 0 then .errInval
  else if slot = slotRootMeta ∧ capType ≠ .rootMeta then .errPerm
  else if slot ≠ slotRootMeta ∧ capType = .rootMeta then .errPerm
  else if (s.slot c slot).capType ≠ .invalid then .errBusy
  else if (s.obj o).state ≠ .live ∨ (s.obj o).gen ≠ objGen then .errDead
  else if (s.obj o).slotsLeft = 0xffffffff then .errQuota
  else .ok

def gjCapSlotInstall (c : C) (slot : Nat) (capType : CapType)
    (rights : U16) (o : O) : Except GjStatus CapRef × CapState C O Q :=
  match installCheck s c slot capType o with
  | .ok =>
    match gjCapQuotaSlotCharge s.quota (s.quotaAccount c) with
    | (.ok, charged) =>
      let installed := installSlot { s with quota := charged } c slot capType rights o
      (.ok { slot, gen := (installed.slot c slot).gen }, installed)
    | (code, failed) => (.error code, { s with quota := failed })
  | code => (.error code, s)

/-- The first INVALID slot from 1 up. -/
def firstFreeSlot (c : C) : Option Nat :=
  (List.range' 1 (s.cSlots c - 1)).find? fun i => (s.slot c i).capType = .invalid

/-- `gj_cap_alloc_install`: ROOT_META goes to slot 0, everything else to the first free
slot from 1 up. -/
def gjCapAllocInstall (c : C) (capType : CapType) (rights : U16) (o : O) :
    Except GjStatus CapRef × CapState C O Q :=
  if s.cSlots c = 0 then (.error .errInval, s)
  else if capType = .invalid then (.error .errInval, s)
  else if capType = .rootMeta then gjCapSlotInstall s c slotRootMeta capType rights o
  else match firstFreeSlot s c with
    | some i => gjCapSlotInstall s c i capType rights o
    | none => (.error .errQuota, s)

/-- One derived slot less; the counter stops at zero. -/
def ObjHdr.slotGone (hdr : ObjHdr) : ObjHdr :=
  if 0 < hdr.slotsLeft then { hdr with slotsLeft := hdr.slotsLeft - 1 } else hdr

def invalidateSlot (c : C) (i : Nat) : CapState C O Q :=
  (s.setSlot c i (gjCapSlotInvalidate (s.slot c i))).countInvalidation c i

/-- `gj_cap_slot_invalidate_locked`. Its own refund goes to a NULL account and does
nothing; callers refund the account of the CNode. -/
def gjCapSlotInvalidateLocked (c : C) (i : Nat) (obj : Option O) : CapState C O Q :=
  if (s.slot c i).capType = .invalid then s
  else match obj with
    | some o =>
      if (s.slot c i).obj ≠ some o then s
      else invalidateSlot (s.setObj o (s.obj o).slotGone) c i
    | none =>
      match (s.slot c i).obj with
      | some o => invalidateSlot (s.setObj o (s.obj o).slotGone) c i
      | none => invalidateSlot s c i

def refundSlot (c : C) : CapState C O Q :=
  { s with quota := gjCapQuotaSlotRefund s.quota (s.quotaAccount c) }

def unlinkSlot (o : O) (c : C) (i : Nat) : CapState C O Q :=
  { s with cdt := gjCdtUnlinkSlot s.cdt o c i }

def tryWire (o : O) (c : C) (i : Nat) : CapState C O Q :=
  { s with cdt := cdtEdgeTryWire s.cdt o c i (s.cSlots c) }

/-- `gj_cnode_trylock`: `none` when the lock is held. -/
def gjCnodeTrylock (c : C) : Option (CapState C O Q) :=
  if s.softLock c then none
  else some { s with softLock := Function.update s.softLock c true }

def gjCnodeUnlock (c : C) : CapState C O Q :=
  { s with softLock := Function.update s.softLock c false }

def invalidateObjLoop (c : C) (o : O) (maxSlots : U32) :
    List Nat → U32 → CapState C O Q → U32 × CapState C O Q
  | [], cleared, s => (cleared, s)
  | i :: rest, cleared, s =>
    if maxSlots ≤ cleared then (cleared, s)
    else if (s.slot c i).capType = .invalid ∨ (s.slot c i).obj ≠ some o then
      invalidateObjLoop c o maxSlots rest cleared s
    else
      invalidateObjLoop c o maxSlots rest (cleared + 1)
        (unlinkSlot (gjCapSlotInvalidateLocked (refundSlot s c) c i (some o)) o c i)

def gjCnodeInvalidateObjSlots (c : C) (o : O) (maxSlots : U32) : U32 × CapState C O Q :=
  if maxSlots = 0 then (0, s)
  else match gjCnodeTrylock s c with
    | none => (0, s)
    | some locked =>
      let (cleared, scanned) :=
        invalidateObjLoop c o maxSlots (List.range (locked.cSlots c)) 0 locked
      (cleared, gjCnodeUnlock scanned c)

end

end GreenJade.Cap

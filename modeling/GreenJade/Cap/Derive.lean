import GreenJade.Cap.Cnode

/-! Owns the operations on handles in `cnode.c`: mint, copy, move and delete, and the wipe
of a dead process's CNode in `process.c`. -/

namespace GreenJade.Cap

universe u v w

variable {C : Type u} {O : Type v} {Q : Type w}

def rightsWeaker (source want : U16) : U16 := source &&& want

/-- The rights of a copy: asking for none asks for all rights of the source. -/
def copyRights (source want : U16) : U16 :=
  rightsWeaker source (if want ≠ 0 then want else source)

section

variable [DecidableEq C] [DecidableEq O] [DecidableEq Q] (s : CapState C O Q)

/-- The common tail of mint and copy: install the derived slot, then try to wire its edge. -/
def installDerived (c : C) (res : CapResolved O) (rights : U16) :
    Except GjStatus CapRef × CapState C O Q :=
  match gjCapAllocInstall s c res.capType rights res.obj with
  | (.error status, failed) => (.error status, failed)
  | (.ok ref, installed) => (.ok ref, tryWire installed res.obj c ref.slot)

/-- `gj_cap_mint`; a null destination is the source CNode. -/
def gjCapMint (srcCnode : C) (srcSlot : Nat) (srcGen : U32) (rights : U16)
    (dstCnode : Option C) : Except GjStatus CapRef × CapState C O Q :=
  match gjCapResolve s srcCnode srcSlot srcGen with
  | .error status => (.error status, s)
  | .ok res =>
    if res.rights &&& GjRight.mint = 0 then (.error .errPerm, s)
    else if rightsWeaker res.rights rights = 0 then (.error .errPerm, s)
    else installDerived s (dstCnode.getD srcCnode) res (rightsWeaker res.rights rights)

def gjCapCopy (c : C) (srcSlot : Nat) (srcGen : U32) (rights : U16) :
    Except GjStatus CapRef × CapState C O Q :=
  match gjCapResolve s c srcSlot srcGen with
  | .error status => (.error status, s)
  | .ok res =>
    if res.rights &&& GjRight.grant = 0 then (.error .errPerm, s)
    else installDerived s c res (copyRights res.rights rights)

/-- `gj_cap_move`: the new slot is installed and wired before the source is invalidated. -/
def gjCapMove (c : C) (srcSlot : Nat) (srcGen : U32) : Except GjStatus CapRef × CapState C O Q :=
  match gjCapResolve s c srcSlot srcGen with
  | .error status => (.error status, s)
  | .ok res =>
    if res.rights &&& GjRight.grant = 0 then (.error .errPerm, s)
    else if srcSlot = slotRootMeta then (.error .errPerm, s)
    else match gjCapAllocInstall s c res.capType res.rights res.obj with
      | (.error status, failed) => (.error status, failed)
      | (.ok ref, installed) =>
        let wired := tryWire (unlinkSlot installed res.obj c srcSlot) res.obj c ref.slot
        (.ok ref, gjCapSlotInvalidateLocked (refundSlot wired c) c srcSlot (some res.obj))

def gjCapDelete (c : C) (slot : Nat) (slotGen : U32) : GjStatus × CapState C O Q :=
  match gjCapResolve s c slot slotGen with
  | .error status => (status, s)
  | .ok res =>
    if slot = slotRootMeta then (.errPerm, s)
    else if res.rights &&& GjRight.destroy = 0 ∧ res.rights &&& GjRight.grant = 0 then
      (.errPerm, s)
    else
      (.ok, gjCapSlotInvalidateLocked (refundSlot (unlinkSlot s res.obj c slot) c) c slot
        (some res.obj))

def wipeSlot (c : C) (i : Nat) : CapState C O Q :=
  if (s.slot c i).capType = .invalid then s
  else match (s.slot c i).obj with
    | some o => gjCapSlotInvalidateLocked (unlinkSlot (refundSlot s c) o c i) c i (some o)
    | none => gjCapSlotInvalidateLocked (refundSlot s c) c i none

/-- `process_death_cnode_wipe` on the CNode of the dead process. The wipe goes on when the
lock is held by someone else, and then leaves it held. -/
def processDeathCnodeWipe (c : C) : CapState C O Q :=
  let locked := (gjCnodeTrylock s c).getD s
  let wiped := (List.range (locked.cSlots c)).foldl (fun s i => wipeSlot s c i) locked
  let unlocked := if s.softLock c then wiped else gjCnodeUnlock wiped c
  { unlocked with quotaAccount := Function.update unlocked.quotaAccount c none }

end

end GreenJade.Cap

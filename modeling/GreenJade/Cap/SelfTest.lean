import GreenJade.Cap.Calls

/-! Owns the two self-tests that run once inside the first successful calls:
`cdt_soft_residual_lean_once` and `soft_revoke_residual_lean_once`. Both drive the public
calls on stack memory. A self-test is written as a script of guarded calls over the handle
variables of the C function; calls that only feed printed counters are left out. -/

namespace GreenJade.Cap

open GjRight

open Function

universe u v w

variable {C : Type u} {O : Type v} {Q : Type w}

/-- The stack memory of the two self-tests; no header of the second is an object of the
first. -/
structure LeanFrame (C : Type u) (O : Type v) (Q : Type w) where
  cnSrc : C
  cnDst : C
  aObj : Fin 3 → O
  objNoMint : O
  objQuota : O
  qLean : Q
  aHdr : Fin 3 → O
  apart_obj : ∀ i j, aObj i ≠ aHdr j
  apart_noMint : ∀ j, objNoMint ≠ aHdr j
  apart_quota : ∀ j, objQuota ≠ aHdr j

namespace LeanFrame

variable (frame : LeanFrame C O Q)

def cnodes : Set C := {frame.cnSrc, frame.cnDst}

def testObjects : Set O := Set.range frame.aObj ∪ {frame.objNoMint, frame.objQuota}

def objects : Set O := frame.testObjects ∪ Set.range frame.aHdr

end LeanFrame

inductive LeanVar
  | aRef (i : Fin 3)
  | aRefHost (i : Fin 3)
  | refTmp
  | refCopy
  | refMove
  | refNoMint
  | refQuota
  deriving DecidableEq

/-- Which field of a header the reclaim gate check pokes. -/
inductive GateField
  | pin
  | slotsLeft
  | ref

/-- A step of a self-test: a public call, or a write to its own stack memory. -/
inductive LeanCall (C : Type u) (O : Type v) (Q : Type w)
  | api (op : CapOp C O Q)
  | cnodeInit (c : C) (cSlots : Nat)
  | objHdrInit (o : O)
  | quotaSeed (account : Q) (c : C)
  | pokeDead (o : O)
  | reclaimGate (o : O) (field : GateField)

/-- The handles and the last status of the running C function. -/
structure LeanVars where
  handle : LeanVar → CapRef
  st : GjStatus

def gjCapRefNull : CapRef := { slot := 0, gen := 0 }

def CapRef.isNull (ref : CapRef) : Bool := ref.gen = 0

/-- A guarded call; `out` is the handle variable its handle is stored in. -/
structure LeanLine (C : Type u) (O : Type v) (Q : Type w) where
  guard : LeanVars → Bool
  call : LeanVars → LeanCall C O Q
  out : Option LeanVar

section Exec

variable [DecidableEq C] [DecidableEq O] [DecidableEq Q] (s : CapState C O Q)

def gjCnodeInit (c : C) (cSlots : Nat) : CapState C O Q :=
  { s with
    cSlots := update s.cSlots c cSlots
    slot := update s.slot c fun _ => .fresh
    quotaAccount := update s.quotaAccount c none
    softLock := update s.softLock c false }

def initObj (o : O) : CapState C O Q :=
  { s with
    obj := update s.obj o gjObjHdrInit
    cdt := { s.cdt with head := update s.cdt.head o none } }

def occupiedAboveRoot (c : C) : Nat :=
  ((List.range' 1 (s.cSlots c - 1)).filter fun i => (s.slot c i).capType ≠ .invalid).length

/-- `gj_cap_quota_init` with room for one more charge than the occupied slots, and `u32Used`
and `u32HighWater` poked to their number. -/
def seedQuota (account : Q) (c : C) : CapState C O Q :=
  let used := BitVec.ofNat 32 (occupiedAboveRoot s c)
  let seeded : CapQuota Q := { CapQuota.init (used + 1) with used := used, highWater := used }
  { s with quota := update s.quota account seeded }

/-- The object is poked DEAD with the next non-zero generation. -/
def pokeObjDead (o : O) : CapState C O Q :=
  s.setObj o { s.obj o with state := .dead, gen := nextGen (s.obj o).gen }

def GateField.set (value : U32) (hdr : ObjHdr) : GateField → ObjHdr
  | .pin => { hdr with pin := value }
  | .slotsLeft => { hdr with slotsLeft := value }
  | .ref => { hdr with ref := value }

/-- A field is poked to 1, reclaim is called, and the field is reset to 0. -/
def checkReclaimGate (o : O) (field : GateField) : CapState C O Q :=
  let (_, checked) := gjObjReclaim (s.setObj o (field.set 1 (s.obj o))) o
  checked.setObj o (field.set 0 (checked.obj o))

def LeanCall.exec (s : CapState C O Q) : LeanCall C O Q → CapReply × CapState C O Q
  | .api op => op.exec s
  | .cnodeInit c cSlots => (.done, gjCnodeInit s c cSlots)
  | .objHdrInit o => (.done, initObj s o)
  | .quotaSeed account c => (.done, seedQuota s account c)
  | .pokeDead o => (.done, pokeObjDead s o)
  | .reclaimGate o field => (.done, checkReclaimGate s o field)

/-- Stores the outcome of a call: a handle only on success, a status when there is one. -/
def LeanVars.store (vars : LeanVars) (out : Option LeanVar) : CapReply → LeanVars
  | .handle ref =>
    { handle := fun v => if some v = out then ref else vars.handle v, st := .ok }
  | .status code => { vars with st := code }
  | .count _ => vars
  | .done => vars

def LeanLine.run (line : LeanLine C O Q) (vars : LeanVars) (s : CapState C O Q) :
    LeanVars × CapState C O Q :=
  if line.guard vars then
    let (reply, after) := (line.call vars).exec s
    (vars.store line.out reply, after)
  else (vars, s)

def runScript (script : List (LeanLine C O Q)) (start : LeanVars × CapState C O Q) :
    LeanVars × CapState C O Q :=
  script.foldl (fun now line => line.run now.1 now.2) start

end Exec

/-! ### The script of `cdt_soft_residual_lean_once` -/

/-- `gj_cap_rights_ddi_host_default` at the types the self-test uses. -/
def ddiHostDefault : CapType → U16
  | .frame => read ||| write ||| map ||| identify
  | .irq => read ||| wait ||| identify
  | .notification => read ||| wait ||| identify
  | .untyped => mint ||| identify ||| destroy ||| grant
  | _ => 0

def leanTypes : Fin 3 → CapType
  | 0 => .frame
  | 1 => .irq
  | 2 => .notification

def leanRights (i : Fin 3) : U16 :=
  ddiHostDefault (leanTypes i) ||| mint ||| grant ||| destroy

def leanSlots : Nat := 12

def LeanLine.always (call : LeanVars → LeanCall C O Q) (out : Option LeanVar) : LeanLine C O Q :=
  { guard := fun _ => true, call, out }

def cdtLeanInit (frame : LeanFrame C O Q) : List (LeanLine C O Q) :=
  [ .always (fun _ => .cnodeInit frame.cnSrc leanSlots) none,
    .always (fun _ => .cnodeInit frame.cnDst leanSlots) none,
    .always (fun _ => .objHdrInit (frame.aObj 0)) none,
    .always (fun _ => .objHdrInit (frame.aObj 1)) none,
    .always (fun _ => .objHdrInit (frame.aObj 2)) none,
    .always (fun _ => .objHdrInit frame.objNoMint) none,
    .always (fun _ => .objHdrInit frame.objQuota) none ]

def cdtLeanChecks (frame : LeanFrame C O Q) : List (LeanLine C O Q) :=
  [ -- 1, 1b: FRAME at slot 0 and ROOT_META at slot 1
    .always (fun _ => .api (.slotInstall frame.cnSrc 0 .frame (leanRights 0) (frame.aObj 0)))
      (some .refTmp),
    .always (fun _ => .api (.slotInstall frame.cnSrc 1 .rootMeta (leanRights 0) (frame.aObj 0)))
      (some .refTmp),
    -- 2: the three stand-ins
    .always (fun _ => .api (.allocInstall frame.cnSrc .frame (leanRights 0) (frame.aObj 0)))
      (some (.aRef 0)),
    .always (fun _ => .api (.allocInstall frame.cnSrc .irq (leanRights 1) (frame.aObj 1)))
      (some (.aRef 1)),
    .always (fun _ => .api (.allocInstall frame.cnSrc .notification (leanRights 2) (frame.aObj 2)))
      (some (.aRef 2)),
    -- 3e: reinstall into the occupied slot
    { guard := fun v => !(v.handle (.aRef 0)).isNull
      call := fun v => .api (.slotInstall frame.cnSrc (v.handle (.aRef 0)).slot .frame
        (leanRights 0) (frame.aObj 0))
      out := some .refTmp } ] ++
  -- 4: mint the package into the other CNode
  (List.finRange 3).map (fun i => .always (fun v =>
    .api (.mint frame.cnSrc (v.handle (.aRef i)).slot (v.handle (.aRef i)).gen
      (ddiHostDefault (leanTypes i) ||| destroy) (some frame.cnDst)))
    (some (.aRefHost i))) ++
  [ -- 5: ask for SPAWN, which the source lacks, and delete what comes back
    .always (fun v => .api (.mint frame.cnSrc (v.handle (.aRef 0)).slot (v.handle (.aRef 0)).gen
      (ddiHostDefault .frame ||| spawn ||| destroy) (some frame.cnDst)))
      (some .refTmp),
    { guard := fun v => v.st = .ok && !(v.handle .refTmp).isNull
      call := fun v => .api (.delete frame.cnDst (v.handle .refTmp).slot (v.handle .refTmp).gen)
      out := none },
    -- 5b: mint from a source without MINT
    .always (fun _ => .api (.allocInstall frame.cnSrc .frame
      (ddiHostDefault .frame ||| grant ||| destroy) frame.objNoMint))
      (some .refNoMint),
    { guard := fun v => v.st = .ok && !(v.handle .refNoMint).isNull
      call := fun v => .api (.mint frame.cnSrc (v.handle .refNoMint).slot
        (v.handle .refNoMint).gen (ddiHostDefault .frame) (some frame.cnDst))
      out := some .refTmp },
    -- 6a, 6b: copy, then move the copy
    { guard := fun v => !(v.handle (.aRef 0)).isNull
      call := fun v => .api (.copy frame.cnSrc (v.handle (.aRef 0)).slot
        (v.handle (.aRef 0)).gen (ddiHostDefault .frame))
      out := some .refCopy },
    { guard := fun v => !(v.handle .refCopy).isNull
      call := fun v => .api (.move frame.cnSrc (v.handle .refCopy).slot (v.handle .refCopy).gen)
      out := some .refMove },
    -- 7: quota charge, exhaustion and refund
    .always (fun _ => .quotaSeed frame.qLean frame.cnSrc) none,
    .always (fun _ => .api (.quotaAttach frame.cnSrc (some frame.qLean))) none,
    .always (fun _ => .api (.allocInstall frame.cnSrc .frame
      (ddiHostDefault .frame ||| destroy) frame.objQuota)) (some .refQuota),
    { guard := fun v => v.st = .ok && !(v.handle .refQuota).isNull
      call := fun _ => .api (.allocInstall frame.cnSrc .frame
        (ddiHostDefault .frame) frame.objQuota)
      out := some .refTmp },
    { guard := fun v => !(v.handle .refQuota).isNull && v.st = .errQuota
      call := fun v => .api (.delete frame.cnSrc (v.handle .refQuota).slot (v.handle .refQuota).gen)
      out := none },
    .always (fun _ => .api (.quotaAttach frame.cnSrc none)) none,
    -- 8: delete the first host mint, the second one and its source
    { guard := fun v => !(v.handle (.aRefHost 0)).isNull
      call := fun v => .api (.delete frame.cnDst (v.handle (.aRefHost 0)).slot
        (v.handle (.aRefHost 0)).gen)
      out := none },
    { guard := fun v => !(v.handle (.aRefHost 0)).isNull && v.st = .ok &&
        !(v.handle (.aRefHost 1)).isNull
      call := fun v => .api (.delete frame.cnDst (v.handle (.aRefHost 1)).slot
        (v.handle (.aRefHost 1)).gen)
      out := none },
    { guard := fun v => !(v.handle (.aRefHost 0)).isNull && v.st = .ok &&
        !(v.handle (.aRef 1)).isNull
      call := fun v => .api (.delete frame.cnSrc (v.handle (.aRef 1)).slot (v.handle (.aRef 1)).gen)
      out := none },
    -- 9: poke an object DEAD
    { guard := fun v => !(v.handle (.aRef 2)).isNull
      call := fun _ => .pokeDead (frame.aObj 2)
      out := none } ]

/-! ### The script of `soft_revoke_residual_lean_once` -/

/-- Every header is revoked twice, the queue is drained once, each reclaim gate is checked
and every header is reclaimed. The gates are always checked: begin on a fresh header
returns `GJ_OK` or `GJ_ERR_AGAIN`. -/
def revokeLeanScript (frame : LeanFrame C O Q) : List (LeanLine C O Q) :=
  (List.finRange 3).flatMap (fun i =>
    [ .always (fun _ => .objHdrInit (frame.aHdr i)) none,
      .always (fun _ => .api (.revokeBegin (frame.aHdr i))) none,
      { guard := fun v => v.st = .ok || v.st = .errAgain
        call := fun _ => .api (.revokeBegin (frame.aHdr i))
        out := none } ]) ++
  [ .always (fun _ => .api (.processDeferred 12)) none,
    .always (fun _ => .reclaimGate (frame.aHdr 0) .pin) none,
    .always (fun _ => .reclaimGate (frame.aHdr 1) .slotsLeft) none,
    .always (fun _ => .reclaimGate (frame.aHdr 2) .ref) none ] ++
  (List.finRange 3).map fun i => .always (fun _ => .api (.reclaim (frame.aHdr i))) none

/-! ### Running once -/

def LeanVars.start : LeanVars := { handle := fun _ => gjCapRefNull, st := .ok }

/-- The capability layer with the once-markers of its two self-tests. -/
structure Machine (C : Type u) (O : Type v) (Q : Type w) where
  caps : CapState C O Q
  cdtSoftInvLogged : Bool
  revokeSoftInvLogged : Bool

def Machine.boot (cSlots : C → Nat) (limit : Q → U32) : Machine C O Q :=
  { caps := .boot cSlots limit, cdtSoftInvLogged := false, revokeSoftInvLogged := false }

section Once

variable [DecidableEq C] [DecidableEq O] [DecidableEq Q]

/-- `cdt_soft_inventory_maybe_once`: the first time it runs the self-test. -/
def cdtSoftInventoryMaybeOnce (frame : LeanFrame C O Q) (m : Machine C O Q) : Machine C O Q :=
  if m.cdtSoftInvLogged then m
  else
    { m with
      caps := (runScript (cdtLeanInit frame ++ cdtLeanChecks frame) (.start, m.caps)).2
      cdtSoftInvLogged := true }

def softRevokeInventoryMaybeOnce (frame : LeanFrame C O Q) (m : Machine C O Q) : Machine C O Q :=
  if m.revokeSoftInvLogged then m
  else
    { m with
      caps := (runScript (revokeLeanScript frame) (.start, m.caps)).2
      revokeSoftInvLogged := true }

end Once

end GreenJade.Cap

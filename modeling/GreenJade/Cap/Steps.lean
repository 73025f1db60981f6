import GreenJade.Cap.Calls
import GreenJade.Lib.Interleave

/-! Owns the calls of the capability layer as programs of single accesses to shared memory:
one field of a slot or header, the lock, one queue entry, one operation on the edge pool or
the quota chain at a time, in the order of the source. Run alone, a program does what the
call does in one piece. Loops that follow pointers take a bound on their iterations, since
under interference the length of a chain is not known in advance. -/

namespace GreenJade.Cap

open Interleave

universe u v w x

variable {C : Type u} {O : Type v} {Q : Type w} {R : Type x}

/-- A program over the state of the capability layer. -/
abbrev CapProg (C : Type u) (O : Type v) (Q : Type w) (R : Type x) := Prog (CapState C O Q) R

/-! ### Resolve -/

def checkLiveSteps (o : O) (expected : U32) : CapProg C O Q GjStatus :=
  .read (fun s => (s.obj o).state) fun state =>
  if state ≠ .live then .done .errDead
  else .read (fun s => (s.obj o).gen) fun gen =>
  if gen ≠ expected then .done .errStaleCap
  else .done .ok

def resolveSteps (c : C) (slot : Nat) (slotGen : U32) :
    CapProg C O Q (Except GjStatus (CapResolved O)) :=
  .read (fun s => s.cSlots c) fun cSlots =>
  if cSlots = 0 then .done (.error .errInval)
  else if slotGen = 0 then .done (.error .errInval)
  else if cSlots ≤ slot then .done (.error .errInval)
  else .read (fun s => (s.slot c slot).capType) fun capType =>
  if capType = .invalid then .done (.error .errNoent)
  else .read (fun s => (s.slot c slot).gen) fun gen =>
  if gen ≠ slotGen then .done (.error .errStaleCap)
  else .read (fun s => (s.slot c slot).obj) fun
    | none => .done (.error .errStaleCap)
    | some o =>
      .read (fun s => (s.slot c slot).objGen) fun objGen =>
      (checkLiveSteps o objGen).bind fun
        | .ok =>
          .read (fun s => (s.slot c slot).capType) fun capType =>
          .read (fun s => (s.slot c slot).rights) fun rights =>
          .done (.ok { obj := o, capType, rights })
        | status => .done (.error status)

section

variable [DecidableEq C] [DecidableEq O] [DecidableEq Q]

def storeSlot (c : C) (i : Nat) (change : CapSlot O → CapSlot O) (next : CapProg C O Q R) :
    CapProg C O Q R :=
  .write (fun s => s.setSlot c i (change (s.slot c i))) next

def storeObj (o : O) (change : ObjHdr → ObjHdr) (next : CapProg C O Q R) : CapProg C O Q R :=
  .write (fun s => s.setObj o (change (s.obj o))) next

/-! ### Install -/

/-- The writes of `gj_cap_slot_install`; the increment of `u32SlotsLeft` is a load and a
store. -/
def commitSteps (c : C) (slot : Nat) (capType : CapType) (rights : U16) (objGen : U32) (o : O) :
    CapProg C O Q (Except GjStatus CapRef) :=
  storeSlot c slot (fun old => { old with capType }) <|
  storeSlot c slot (fun old => { old with rights }) <|
  storeSlot c slot (fun old => { old with objGen }) <|
  storeSlot c slot (fun old => { old with obj := some o }) <|
  .read (fun s => (s.obj o).slotsLeft) fun left =>
  storeObj o (fun hdr => { hdr with slotsLeft := left + 1 }) <|
  .read (fun s => (s.slot c slot).gen) fun gen =>
  .done (.ok { slot, gen })

def slotInstallSteps (c : C) (slot : Nat) (capType : CapType) (rights : U16) (o : O) :
    CapProg C O Q (Except GjStatus CapRef) :=
  .read (fun s => s.cSlots c) fun cSlots =>
  if cSlots = 0 ∨ cSlots ≤ slot then .done (.error .errInval)
  else if capType = .invalid then .done (.error .errInval)
  else .read (fun s => (s.obj o).state) fun state =>
  if state ≠ .live then .done (.error .errDead)
  else .read (fun s => (s.obj o).gen) fun objGen =>
  if objGen = 0 then .done (.error .errInval)
  else if slot = slotRootMeta ∧ capType ≠ .rootMeta then .done (.error .errPerm)
  else if slot ≠ slotRootMeta ∧ capType = .rootMeta then .done (.error .errPerm)
  else .read (fun s => (s.slot c slot).capType) fun occupant =>
  if occupant ≠ .invalid then .done (.error .errBusy)
  -- the second check of the object
  else .read (fun s => (s.obj o).state) fun state =>
  .read (fun s => (s.obj o).gen) fun gen =>
  if state ≠ .live ∨ gen ≠ objGen then .done (.error .errDead)
  else .read (fun s => (s.obj o).slotsLeft) fun left =>
  if left = 0xffffffff then .done (.error .errQuota)
  else .read (fun s => s.quotaAccount c) fun account =>
  .update (fun s => (gjCapQuotaSlotCharge s.quota account).1)
    (fun s => { s with quota := (gjCapQuotaSlotCharge s.quota account).2 }) fun
    | .ok => commitSteps c slot capType rights objGen o
    | code => .done (.error code)

def scanSteps (c : C) (capType : CapType) (rights : U16) (o : O) :
    List Nat → CapProg C O Q (Except GjStatus CapRef)
  | [] => .done (.error .errQuota)
  | i :: rest => .read (fun s => (s.slot c i).capType) fun occupant =>
    if occupant = .invalid then slotInstallSteps c i capType rights o
    else scanSteps c capType rights o rest

def allocInstallSteps (c : C) (capType : CapType) (rights : U16) (o : O) :
    CapProg C O Q (Except GjStatus CapRef) :=
  .read (fun s => s.cSlots c) fun cSlots =>
  if cSlots = 0 then .done (.error .errInval)
  else if capType = .invalid then .done (.error .errInval)
  else if capType = .rootMeta then slotInstallSteps c slotRootMeta capType rights o
  else scanSteps c capType rights o (List.range' 1 (cSlots - 1))

/-! ### Edges, refunds and clearing -/

/-- `cdt_edge_try_wire`: take an edge, link it, and give it back when the link is refused. -/
def tryWireSteps (o : O) (c : C) (i : Nat) : CapProg C O Q Unit :=
  .update (fun s => (cdtEdgeAlloc s.cdt).map Prod.fst)
    (fun s => { s with cdt := ((cdtEdgeAlloc s.cdt).map Prod.snd).getD s.cdt }) fun
    | none => .done ()
    | some edge =>
      .read (fun s => s.cSlots c) fun cSlots =>
      .update (fun s => (gjCdtEdgeLink s.cdt o edge c i cSlots).1)
        (fun s => { s with cdt := (gjCdtEdgeLink s.cdt o edge c i cSlots).2 }) fun
        | .ok => .done ()
        | _ => .write (fun s => { s with cdt := cdtEdgeFree s.cdt edge }) (.done ())

def unlinkSlotLoopSteps (o : O) (c : C) (i : Nat) : Nat → Option EdgePtr → CapProg C O Q Unit
  | 0, _ => .done ()
  | _ + 1, none => .done ()
  | bound + 1, some edge =>
    .read (fun s => s.cdt.next edge) fun saved =>
    .read (fun s => s.cdt.place edge) fun place =>
    if place = (some c, i) then
      .write (fun s => unlinkEdge s o edge) (unlinkSlotLoopSteps o c i bound saved)
    else unlinkSlotLoopSteps o c i bound saved

def unlinkSlotSteps (bound : Nat) (o : O) (c : C) (i : Nat) : CapProg C O Q Unit :=
  .read (fun s => s.cdt.head o) fun head => unlinkSlotLoopSteps o c i bound head

def refundSteps (c : C) (next : CapProg C O Q R) : CapProg C O Q R :=
  .read (fun s => s.quotaAccount c) fun account =>
  .write (fun s => { s with quota := gjCapQuotaSlotRefund s.quota account }) next

/-- The decrement of `u32SlotsLeft`: test, load, store. -/
def slotGoneSteps (o : O) (next : CapProg C O Q R) : CapProg C O Q R :=
  .read (fun s => (s.obj o).slotsLeft) fun left =>
  if 0 < left then
    .read (fun s => (s.obj o).slotsLeft) fun left =>
    storeObj o (fun hdr => { hdr with slotsLeft := left - 1 }) next
  else next

/-- `gj_cap_slot_invalidate`; between two stores the generation may be 0. -/
def invalidateSteps (c : C) (i : Nat) : CapProg C O Q Unit :=
  storeSlot c i (fun old => { old with capType := .invalid }) <|
  storeSlot c i (fun old => { old with rights := 0 }) <|
  .read (fun s => (s.slot c i).gen) fun gen =>
  storeSlot c i (fun old => { old with gen := gen + 1 }) <|
  .read (fun s => (s.slot c i).gen) fun gen =>
  (if gen = 0 then storeSlot c i (fun old => { old with gen := 1 }) (.done ()) else .done ()).bind
    fun _ =>
  storeSlot c i (fun old => { old with objGen := 0 }) <|
  .write (fun s => (s.setSlot c i { s.slot c i with obj := none }).countInvalidation c i) (.done ())

def invalidateLockedSteps (c : C) (i : Nat) (obj : Option O) : CapProg C O Q Unit :=
  .read (fun s => (s.slot c i).capType) fun capType =>
  if capType = .invalid then .done ()
  else .read (fun s => (s.slot c i).obj) fun pointer =>
  match obj, pointer with
  | some o, _ => if pointer ≠ some o then .done () else slotGoneSteps o (invalidateSteps c i)
  | none, some o => slotGoneSteps o (invalidateSteps c i)
  | none, none => invalidateSteps c i

/-! ### Mint, copy, move and delete -/

def installDerivedSteps (c : C) (res : CapResolved O) (rights : U16) :
    CapProg C O Q (Except GjStatus CapRef) :=
  (allocInstallSteps c res.capType rights res.obj).bind fun
    | .error status => .done (.error status)
    | .ok ref => (tryWireSteps res.obj c ref.slot).bind fun _ => .done (.ok ref)

def mintSteps (src : C) (slot : Nat) (gen : U32) (rights : U16) (dst : Option C) :
    CapProg C O Q (Except GjStatus CapRef) :=
  (resolveSteps src slot gen).bind fun
    | .error status => .done (.error status)
    | .ok res =>
      if res.rights &&& GjRight.mint = 0 then .done (.error .errPerm)
      else if rightsWeaker res.rights rights = 0 then .done (.error .errPerm)
      else installDerivedSteps (dst.getD src) res (rightsWeaker res.rights rights)

def copySteps (c : C) (slot : Nat) (gen : U32) (rights : U16) :
    CapProg C O Q (Except GjStatus CapRef) :=
  (resolveSteps c slot gen).bind fun
    | .error status => .done (.error status)
    | .ok res =>
      if res.rights &&& GjRight.grant = 0 then .done (.error .errPerm)
      else installDerivedSteps c res (copyRights res.rights rights)

def moveSteps (bound : Nat) (c : C) (slot : Nat) (gen : U32) :
    CapProg C O Q (Except GjStatus CapRef) :=
  (resolveSteps c slot gen).bind fun
    | .error status => .done (.error status)
    | .ok res =>
      if res.rights &&& GjRight.grant = 0 then .done (.error .errPerm)
      else if slot = slotRootMeta then .done (.error .errPerm)
      else (allocInstallSteps c res.capType res.rights res.obj).bind fun
        | .error status => .done (.error status)
        | .ok ref =>
          (unlinkSlotSteps bound res.obj c slot).bind fun _ =>
          (tryWireSteps res.obj c ref.slot).bind fun _ =>
          refundSteps c <|
          (invalidateLockedSteps c slot (some res.obj)).bind fun _ => .done (.ok ref)

def deleteSteps (bound : Nat) (c : C) (slot : Nat) (gen : U32) : CapProg C O Q GjStatus :=
  (resolveSteps c slot gen).bind fun
    | .error status => .done status
    | .ok res =>
      if slot = slotRootMeta then .done .errPerm
      else if res.rights &&& GjRight.destroy = 0 ∧ res.rights &&& GjRight.grant = 0 then
        .done .errPerm
      else
        (unlinkSlotSteps bound res.obj c slot).bind fun _ =>
        refundSteps c <|
        (invalidateLockedSteps c slot (some res.obj)).bind fun _ => .done .ok

/-! ### Revoke -/

/-- `gj_obj_revoke_begin`: the compare-and-swap, the DEAD store, the generation, the queue. -/
def revokeBeginSteps (o : O) : CapProg C O Q GjStatus :=
  .update (fun s => (s.obj o).state)
    (fun s => if (s.obj o).state = .live then
      s.setObj o { s.obj o with state := .revoking } else s) fun state =>
  if state ≠ .live then
    .read (fun s => (s.obj o).state) fun current =>
    if current = .dead ∨ current = .revoking then .done .errDead else .done .errBusy
  else
    storeObj o (fun hdr => { hdr with state := .dead }) <|
    storeObj o (fun hdr => { hdr with gen := hdr.gen + 1 }) <|
    .update (fun s => (s.revokeQ.push o).isSome)
      (fun s => { s with revokeQ := (s.revokeQ.push o).getD s.revokeQ }) fun queued =>
    if queued then .done .ok else .done .errAgain

def visitEdgeSteps (o : O) (edge : EdgePtr) : CapProg C O Q EdgeVisit :=
  .read (fun s => (s.cdt.edge edge).cnode) fun cnode =>
  .read (fun s => (s.cdt.edge edge).slot) fun i =>
  match cnode with
  | none => .write (fun s => unlinkEdge s o edge) (.done .stale)
  | some c =>
    .read (fun s => s.cSlots c) fun cSlots =>
    if cSlots ≤ i then .write (fun s => unlinkEdge s o edge) (.done .stale)
    else .update (fun s => (gjCnodeTrylock s c).isSome) (fun s => (gjCnodeTrylock s c).getD s)
      fun taken =>
    if taken = false then .done .busy
    else .read (fun s => (s.slot c i).capType) fun capType =>
    .read (fun s => (s.slot c i).obj) fun pointer =>
    if capType ≠ .invalid ∧ pointer = some o then
      refundSteps c <|
      (invalidateLockedSteps c i (some o)).bind fun _ =>
      .write (fun s => gjCnodeUnlock s c) <|
      .write (fun s => unlinkEdge s o edge) (.done .cleared)
    else
      .write (fun s => gjCnodeUnlock s c) <|
      .write (fun s => unlinkEdge s o edge) (.done .stale)

def walkPassSteps (o : O) (limit : WalkBound) :
    Nat → Option EdgePtr → WalkCount → CapProg C O Q WalkCount
  | 0, _, count => .done count
  | _ + 1, none, count => .done count
  | bound + 1, some edge, count =>
    if limit.Allows count then
      .read (fun s => s.cdt.next edge) fun saved =>
      (visitEdgeSteps o edge).bind fun visit =>
      walkPassSteps o limit bound saved (count.after visit)
    else .done count

def walkPassesSteps (bound : Nat) (o : O) (limit : WalkBound) :
    Nat → WalkCount → CapProg C O Q WalkCount
  | 0, count => .done count
  | passes + 1, count =>
    .read (fun s => s.cdt.head o) fun head =>
    if ¬ limit.Allows count ∨ head = none then .done count
    else .read (fun s => s.cdt.head o) fun head =>
    (walkPassSteps o limit bound head { count with busy := 0 }).bind fun after =>
    if after.busy = 0 then .done after else walkPassesSteps bound o limit passes after

def walkBatchSteps (bound : Nat) (o : O) (maxSlots : U32) : CapProg C O Q U32 :=
  if maxSlots = 0 then .done 0
  else (walkPassesSteps bound o { maxSlots, visitCap := maxSlots * 4 + 8 } (softRetryMax + 1)
    { cleared := 0, visited := 0, busy := 0 }).map WalkCount.cleared

def drainObjectSteps (bound : Nat) (o : O) (maxSlots cleared : U32) : CapProg C O Q U32 :=
  (walkBatchSteps bound o (maxSlots - cleared)).bind fun batch =>
  .read (fun s => s.cdt.head o) fun head =>
  if head ≠ none ∧ cleared + batch < maxSlots then
    (walkBatchSteps bound o (maxSlots - (cleared + batch))).map fun again =>
      cleared + batch + again
  else .done (cleared + batch)

/-- The last test of an entry: slots are counted but no edge is left to walk. -/
def emptyEdgeSteps (o : O) (cursor : Nat) (total : U32) : CapProg C O Q U32 :=
  .read (fun s => (s.obj o).slotsLeft) fun left =>
  .read (fun s => s.cdt.head o) fun head =>
  if 0 < left ∧ head = none then .write (fun s => setCursor s cursor) (.done total)
  else .done total

def drainEntrySteps (bound : Nat) (i : Fin revokeQMax) (limit : Nat) (maxSlots cleared : U32) :
    CapProg C O Q U32 :=
  .read (fun s => (s.revokeQ.entry i).active) fun active =>
  if active = false then .done cleared
  else .read (fun s => (s.revokeQ.entry i).obj) fun
    | none => .write (fun s => dropEntry s i) (.done cleared)
    | some o =>
      .read (fun s => (s.obj o).state) fun state =>
      if state ≠ .dead then .write (fun s => dropEntry s i) (.done cleared)
      else .read (fun s => (s.obj o).slotsLeft) fun left =>
      .read (fun s => s.cdt.head o) fun head =>
      if left = 0 ∧ head = none then .done cleared
      else .read (fun s => s.cdt.head o) fun head =>
      if head ≠ none then
        (drainObjectSteps bound o maxSlots cleared).bind fun total =>
        .write (fun s => setCursor s ((i + 1) % limit)) <|
        emptyEdgeSteps o ((i + 1) % limit) total
      else emptyEdgeSteps o ((i + 1) % limit) cleared

def drainLoopSteps (bound limit start : Nat) (maxSlots : U32) : List Nat → U32 → CapProg C O Q U32
  | [], cleared => .done cleared
  | scanned :: rest, cleared =>
    if maxSlots ≤ cleared then .done cleared
    else (drainEntrySteps bound (Fin.ofNat revokeQMax ((start + scanned) % limit)) limit
      maxSlots cleared).bind fun total => drainLoopSteps bound limit start maxSlots rest total

def processDeferredSteps (bound : Nat) (maxSlots : U32) : CapProg C O Q U32 :=
  .read (fun s => min s.revokeQ.len revokeQMax) fun limit =>
  if maxSlots = 0 ∨ limit = 0 then .done 0
  else .read (fun s => s.revokeQ.cursor) fun cursor =>
  drainLoopSteps bound limit (cursor % limit) maxSlots (List.range limit) 0

def CapOp.steps (bound : Nat) : CapOp C O Q → Option (CapProg C O Q CapReply)
  | .resolve c slot gen => some ((resolveSteps c slot gen).map fun
      | .ok _ => .status .ok
      | .error code => .status code)
  | .slotInstall c slot capType rights o =>
    some ((slotInstallSteps c slot capType rights o).map .ofHandle)
  | .allocInstall c capType rights o => some ((allocInstallSteps c capType rights o).map .ofHandle)
  | .mint src slot gen rights dst => some ((mintSteps src slot gen rights dst).map .ofHandle)
  | .copy c slot gen rights => some ((copySteps c slot gen rights).map .ofHandle)
  | .move c slot gen => some ((moveSteps bound c slot gen).map .ofHandle)
  | .delete c slot gen => some ((deleteSteps bound c slot gen).map .status)
  | .revokeBegin o => some ((revokeBeginSteps o).map .status)
  | .walkBatch o maxSlots => some ((walkBatchSteps bound o maxSlots).map .count)
  | .processDeferred maxSlots => some ((processDeferredSteps bound maxSlots).map .count)
  | _ => none

end

end GreenJade.Cap

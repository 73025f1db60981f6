import GreenJade.Cap.Cnode

/-! Owns the revoke operations of `revoke.c`: the deferred queue, the begin of a revoke,
the bounded walk over an object's edges, the deferred drain and the reclaim. -/

namespace GreenJade.Cap

universe u v w

variable {C : Type u} {O : Type v} {Q : Type w}

/-! ### The deferred queue -/

namespace RevokeQueue

def Queued (queue : RevokeQueue O) (o : O) : Prop :=
  ∃ i, queue.entry i = { active := true, obj := some o }

/-- The entry in front of `len`, when it is inside the array, is active. -/
def activeAt (entry : Fin revokeQMax → RevokeEntry O) (i : Nat) : Bool :=
  if inside : i < revokeQMax then (entry ⟨i, inside⟩).active else false

def shrinkLen (entry : Fin revokeQMax → RevokeEntry O) : Nat → Nat
  | 0 => 0
  | len + 1 => if activeAt entry len then len + 1 else shrinkLen entry len

def drop (queue : RevokeQueue O) (i : Fin revokeQMax) : RevokeQueue O :=
  let entry := Function.update queue.entry i { active := false, obj := none }
  { queue with entry, len := shrinkLen entry queue.len }

/-- `revoke_q_push`: `none` when the object is not queued and no entry is free. -/
def push [DecidableEq O] (queue : RevokeQueue O) (o : O) : Option (RevokeQueue O) :=
  if (List.finRange revokeQMax).any fun i => queue.entry i = { active := true, obj := some o } then
    some queue
  else match (List.finRange revokeQMax).find? fun i => !(queue.entry i).active with
    | none => none
    | some i => some { queue with
        entry := Function.update queue.entry i { active := true, obj := some o }
        len := if queue.len ≤ i then i + 1 else queue.len }

end RevokeQueue

section

variable [DecidableEq C] [DecidableEq O] [DecidableEq Q] (s : CapState C O Q)

/-- `gj_obj_revoke_begin`. The compare-and-swap fails on DEAD and on REVOKING alike. -/
def gjObjRevokeBegin (o : O) : GjStatus × CapState C O Q :=
  if (s.obj o).state ≠ .live then (.errDead, s)
  else
    let dead := s.setObj o { s.obj o with state := .dead, gen := (s.obj o).gen + 1 }
    match dead.revokeQ.push o with
    | none => (.errAgain, dead)
    | some queue => (.ok, { dead with revokeQ := queue })

/-! ### The walk over an object's edges -/

def unlinkEdge (o : O) (edge : EdgePtr) : CapState C O Q :=
  { s with cdt := gjCdtEdgeUnlink s.cdt o edge }

inductive EdgeVisit
  | stale
  | busy
  | cleared
  deriving DecidableEq

/-- One iteration of the walk: an edge that names no slot, or a slot that no longer names
the object, is dropped; a busy CNode is left for later; otherwise the slot is cleared. -/
def visitEdge (o : O) (edge : EdgePtr) : EdgeVisit × CapState C O Q :=
  match (s.cdt.edge edge).cnode with
  | none => (.stale, unlinkEdge s o edge)
  | some c =>
    let i := (s.cdt.edge edge).slot
    if s.cSlots c ≤ i then (.stale, unlinkEdge s o edge)
    else match gjCnodeTrylock s c with
      | none => (.busy, s)
      | some locked =>
        if (locked.slot c i).capType ≠ .invalid ∧ (locked.slot c i).obj = some o then
          (.cleared, unlinkEdge (gjCnodeUnlock
            (gjCapSlotInvalidateLocked (refundSlot locked c) c i (some o)) c) o edge)
        else (.stale, unlinkEdge (gjCnodeUnlock locked c) o edge)

structure WalkCount where
  cleared : U32
  visited : U32
  busy : U32

def WalkCount.after (count : WalkCount) : EdgeVisit → WalkCount
  | .stale => { count with visited := count.visited + 1 }
  | .busy => { count with visited := count.visited + 1, busy := count.busy + 1 }
  | .cleared => { count with visited := count.visited + 1, cleared := count.cleared + 1 }

structure WalkBound where
  maxSlots : U32
  visitCap : U32

def WalkBound.Allows (bound : WalkBound) (count : WalkCount) : Prop :=
  count.cleared < bound.maxSlots ∧ count.visited < bound.visitCap

instance (bound : WalkBound) (count : WalkCount) : Decidable (bound.Allows count) :=
  inferInstanceAs (Decidable (_ ∧ _))

/-- One pass over the chain; the next pointer is read before the edge can be freed. -/
def walkPass (o : O) (bound : WalkBound) :
    Nat → Option EdgePtr → WalkCount → CapState C O Q → WalkCount × CapState C O Q
  | 0, _, count, s => (count, s)
  | _ + 1, none, count, s => (count, s)
  | fuel + 1, some edge, count, s =>
    if bound.Allows count then
      let saved := s.cdt.next edge
      let (visit, visited) := visitEdge s o edge
      walkPass o bound fuel saved (count.after visit) visited
    else (count, s)

/-- The passes: the first one and at most `GJ_REVOKE_R2_SOFT_RETRY_MAX` retries, each only
after a pass that met a busy CNode. -/
def walkPasses (o : O) (bound : WalkBound) :
    Nat → WalkCount → CapState C O Q → WalkCount × CapState C O Q
  | 0, count, s => (count, s)
  | passes + 1, count, s =>
    if ¬ bound.Allows count ∨ s.cdt.head o = none then (count, s)
    else
      let (after, walked) := walkPass o bound cdtEdgePool (s.cdt.head o) { count with busy := 0 } s
      if after.busy = 0 then (after, walked) else walkPasses o bound passes after walked

def softRetryMax : Nat := 3

/-- `gj_revoke_cdt_walk_batch`; the visit bound is computed in 32 bits. -/
def gjRevokeCdtWalkBatch (o : O) (maxSlots : U32) : U32 × CapState C O Q :=
  if maxSlots = 0 then (0, s)
  else
    let (count, walked) := walkPasses o { maxSlots, visitCap := maxSlots * 4 + 8 }
      (softRetryMax + 1) { cleared := 0, visited := 0, busy := 0 } s
    (count.cleared, walked)

/-! ### The deferred drain -/

def setCursor (cursor : Nat) : CapState C O Q :=
  { s with revokeQ := { s.revokeQ with cursor } }

def dropEntry (i : Fin revokeQMax) : CapState C O Q :=
  { s with revokeQ := s.revokeQ.drop i }

/-- The hygiene of an object is finished: nothing names it and it has no edge. -/
def HygieneDone (o : O) : Prop :=
  (s.obj o).slotsLeft = 0 ∧ s.cdt.head o = none

instance (s : CapState C O Q) (o : O) : Decidable (HygieneDone s o) :=
  inferInstanceAs (Decidable (_ ∧ _))

def drainObject (s : CapState C O Q) (o : O) (maxSlots cleared : U32) : U32 × CapState C O Q :=
  let (batch, walked) := gjRevokeCdtWalkBatch s o (maxSlots - cleared)
  if walked.cdt.head o ≠ none ∧ cleared + batch < maxSlots then
    let (again, pushed) := gjRevokeCdtWalkBatch walked o (maxSlots - (cleared + batch))
    (cleared + batch + again, pushed)
  else (cleared + batch, walked)

def drainEntry (s : CapState C O Q) (i : Fin revokeQMax) (limit : Nat) (maxSlots cleared : U32) :
    U32 × CapState C O Q :=
  if (s.revokeQ.entry i).active = false then (cleared, s)
  else match (s.revokeQ.entry i).obj with
    | none => (cleared, dropEntry s i)
    | some o =>
      if (s.obj o).state ≠ .dead then (cleared, dropEntry s i)
      else if HygieneDone s o then (cleared, s)
      else if s.cdt.head o ≠ none then
        let (total, drained) := drainObject s o maxSlots cleared
        (total, setCursor drained ((i + 1) % limit))
      else (cleared, setCursor s ((i + 1) % limit))

/-- The scan over at most `limit` entries, starting behind the cursor. -/
def drainLoop (limit start : Nat) (maxSlots : U32) :
    List Nat → U32 → CapState C O Q → U32 × CapState C O Q
  | [], cleared, s => (cleared, s)
  | scanned :: rest, cleared, s =>
    if maxSlots ≤ cleared then (cleared, s)
    else
      let (total, drained) :=
        drainEntry s (Fin.ofNat revokeQMax ((start + scanned) % limit)) limit maxSlots cleared
      drainLoop limit start maxSlots rest total drained

def gjRevokeProcessDeferred (maxSlots : U32) : U32 × CapState C O Q :=
  let limit := min s.revokeQ.len revokeQMax
  if maxSlots = 0 ∨ limit = 0 then (0, s)
  else drainLoop limit (s.revokeQ.cursor % limit) maxSlots (List.range limit) 0 s

/-! ### Reclaim -/

def gjObjReclaimReady (o : O) : Bool :=
  (s.obj o).state = .dead ∧ (s.obj o).slotsLeft = 0 ∧ s.cdt.head o = none ∧
    (s.obj o).ref = 0 ∧ (s.obj o).pin = 0

def dropObject (o : O) (entries : List (Fin revokeQMax)) : CapState C O Q :=
  entries.foldl (fun s i =>
    if s.revokeQ.entry i = { active := true, obj := some o } then dropEntry s i else s) s

/-- `gj_obj_reclaim`: drops every queue entry of a ready object. -/
def gjObjReclaim (o : O) : GjStatus × CapState C O Q :=
  if gjObjReclaimReady s o then (.ok, dropObject s o (List.finRange revokeQMax))
  else (.errBusy, s)

end

end GreenJade.Cap

import GreenJade.Cap.Derive
import GreenJade.Cap.Revoke

/-! Owns the calls a client of the capability layer can make, as one type, and their
effect on the state. It does not own the self-tests that the first calls trigger. -/

namespace GreenJade.Cap

universe u v w

inductive CapOp (C : Type u) (O : Type v) (Q : Type w)
  | resolve (c : C) (slot : Nat) (gen : U32)
  | slotInstall (c : C) (slot : Nat) (capType : CapType) (rights : U16) (o : O)
  | allocInstall (c : C) (capType : CapType) (rights : U16) (o : O)
  | mint (src : C) (slot : Nat) (gen : U32) (rights : U16) (dst : Option C)
  | copy (c : C) (slot : Nat) (gen : U32) (rights : U16)
  | move (c : C) (slot : Nat) (gen : U32)
  | delete (c : C) (slot : Nat) (gen : U32)
  | invalidateObjSlots (c : C) (o : O) (maxSlots : U32)
  | deathWipe (c : C)
  | trylock (c : C)
  | unlock (c : C)
  | quotaAttach (c : C) (account : Option Q)
  | quotaSetParent (account parent : Option Q)
  | revokeBegin (o : O)
  | walkBatch (o : O) (maxSlots : U32)
  | processDeferred (maxSlots : U32)
  | reclaim (o : O)

inductive CapReply
  | handle (ref : CapRef)
  | status (code : GjStatus)
  | count (cleared : U32)
  | done
  deriving DecidableEq

def CapReply.ofHandle : Except GjStatus CapRef → CapReply
  | .ok ref => .handle ref
  | .error code => .status code

variable {C : Type u} {O : Type v} {Q : Type w} [DecidableEq C] [DecidableEq O] [DecidableEq Q]

def gjCapQuotaAttach (s : CapState C O Q) (c : C) (account : Option Q) : CapState C O Q :=
  { s with quotaAccount := Function.update s.quotaAccount c account }

/-- The call itself, without the self-tests. -/
def CapOp.exec (s : CapState C O Q) : CapOp C O Q → CapReply × CapState C O Q
  | .resolve c slot gen =>
    match gjCapResolve s c slot gen with
    | .ok _ => (.status .ok, s)
    | .error code => (.status code, s)
  | .slotInstall c slot capType rights o =>
    (gjCapSlotInstall s c slot capType rights o).map .ofHandle id
  | .allocInstall c capType rights o =>
    (gjCapAllocInstall s c capType rights o).map .ofHandle id
  | .mint src slot gen rights dst => (gjCapMint s src slot gen rights dst).map .ofHandle id
  | .copy c slot gen rights => (gjCapCopy s c slot gen rights).map .ofHandle id
  | .move c slot gen => (gjCapMove s c slot gen).map .ofHandle id
  | .delete c slot gen => (gjCapDelete s c slot gen).map .status id
  | .invalidateObjSlots c o maxSlots => (gjCnodeInvalidateObjSlots s c o maxSlots).map .count id
  | .deathWipe c => (.done, processDeathCnodeWipe s c)
  | .trylock c => (.done, (gjCnodeTrylock s c).getD s)
  | .unlock c => (.done, gjCnodeUnlock s c)
  | .quotaAttach c account => (.done, gjCapQuotaAttach s c account)
  | .quotaSetParent account parent =>
    (.done, { s with quota := gjCapQuotaSetParent s.quota account parent })
  | .revokeBegin o => (gjObjRevokeBegin s o).map .status id
  | .walkBatch o maxSlots => (gjRevokeCdtWalkBatch s o maxSlots).map .count id
  | .processDeferred maxSlots => (gjRevokeProcessDeferred s maxSlots).map .count id
  | .reclaim o => (gjObjReclaim s o).map .status id

end GreenJade.Cap

import GreenJade.Cap.Calls
import GreenJade.Cap.SelfTest
import Mathlib.Logic.Relation

/-! Owns the life of the spawn table's children in `spawn.c` and `process.c`: spawn, kill, death
and the wait on a task handle, over the capability layer and the table of waitable processes.
It does not own threads and address spaces, whose verdicts are arguments of a spawn, nor the
one-time self-tests of the capability layer, which have run by then. -/

namespace GreenJade.Proc

open Cap Function GjRight

universe u v w x

abbrev gjSpawnMax : Nat := 8

def gjSpawnCnodeSlots : Nat := 64

abbrev gjWaitSlots : Nat := 64

def gjWaitPidBase : U32 := 100

def gjRightVm : U16 := 0x0100
def gjRightJit : U16 := 0x0800

def gjSpawnProcessRightsBase : U16 :=
  read ||| identify ||| destroy ||| wait ||| gjRightVm |||
    spawn

def gjSpawnProcessRightsCore : U16 := destroy ||| wait ||| gjRightVm

/-- An entry of `g_aSpawn` or a process outside of it. -/
inductive GjProcess (X : Type x)
  | spawned (e : Fin gjSpawnMax)
  | other (p : X)
  deriving DecidableEq

/-- Where the parts of the spawn entries lie among the objects and CNodes, and the CNodes of
the other processes. Different entries share no storage, with each other or with a process
outside of the table. -/
structure SpawnLayout (C : Type u) (O : Type v) (X : Type x) where
  hdr : Fin gjSpawnMax → O
  rootMeta : Fin gjSpawnMax → O
  cnode : Fin gjSpawnMax → C
  otherCnode : X → Option C
  hdr_injective : Injective hdr
  cnode_injective : Injective cnode
  hdr_ne_rootMeta : ∀ e e', hdr e ≠ rootMeta e'
  otherCnode_ne : ∀ p e, otherCnode p ≠ some (cnode e)

/-- The fields of `struct spawn_slot` and its process that the calls use. -/
structure SpawnEntry where
  used : Bool
  hasCnode : Bool
  alive : Bool
  exitCode : U32
  deriving DecidableEq

structure WaitSlot (X : Type x) where
  used : Bool
  zombie : Bool
  reaped : Bool
  pid : U32
  ppid : U32
  exit : U32
  proc : Option (GjProcess X)
  deriving DecidableEq

def WaitSlot.clear {X : Type x} : WaitSlot X :=
  { used := false, zombie := false, reaped := false, pid := 0, ppid := 0, exit := 0, proc := none }

/-- The state of the process layer. `tenant` and `issued` are history variables that no function
reads: how many children an entry has had, and for which entry and which of its children the
capability in a slot was installed or derived. -/
structure ProcState (C : Type u) (O : Type v) (Q : Type w) (X : Type x) where
  caps : CapState C O Q
  entry : Fin gjSpawnMax → SpawnEntry
  wait : Fin gjWaitSlots → WaitSlot X
  nextPid : U32
  tenant : Fin gjSpawnMax → Nat
  issued : C → Nat → Option (Fin gjSpawnMax × Nat)

variable {C : Type u} {O : Type v} {Q : Type w} {X : Type x}

def ProcState.pCnode (layout : SpawnLayout C O X) (st : ProcState C O Q X) : GjProcess X → Option C
  | .spawned e => if (st.entry e).hasCnode then some (layout.cnode e) else none
  | .other p => layout.otherCnode p

def ProcState.setEntry (st : ProcState C O Q X) (e : Fin gjSpawnMax) (entry : SpawnEntry) :
    ProcState C O Q X :=
  { st with entry := update st.entry e entry }

@[simp]
theorem ProcState.setEntry_self (st : ProcState C O Q X) (e : Fin gjSpawnMax)
    (entry : SpawnEntry) : (st.setEntry e entry).entry e = entry :=
  update_self ..

theorem ProcState.setEntry_of_ne (st : ProcState C O Q X) {e e' : Fin gjSpawnMax}
    (different : e' ≠ e) (entry : SpawnEntry) : (st.setEntry e entry).entry e' = st.entry e' :=
  update_of_ne different ..

section

variable [DecidableEq C] [DecidableEq O] [DecidableEq Q] [DecidableEq X]

/-! ### The wait table -/

def WaitSlot.Of (slot : WaitSlot X) (proc : GjProcess X) : Prop :=
  slot.used = true ∧ slot.proc = some proc

instance (slot : WaitSlot X) (proc : GjProcess X) : Decidable (slot.Of proc) :=
  inferInstanceAs (Decidable (_ ∧ _))

variable (layout : SpawnLayout C O X) (st : ProcState C O Q X)

def ProcState.waitFind (proc : GjProcess X) : Option (Fin gjWaitSlots) :=
  (List.finRange gjWaitSlots).find? fun k => (st.wait k).Of proc

def processWaitPidOf (proc : GjProcess X) : U32 :=
  match st.waitFind proc with
  | some k => (st.wait k).pid
  | none => 0

def processIsWaitChild (proc : GjProcess X) : Bool :=
  (st.waitFind proc).isSome

def ProcState.setWait (k : Fin gjWaitSlots) (slot : WaitSlot X) :
    ProcState C O Q X :=
  { st with wait := update st.wait k slot }

/-- `process_wait_register` of a child of the spawn table. -/
def processWaitRegister (e : Fin gjSpawnMax) (ppid : U32) :
    ProcState C O Q X :=
  if processIsWaitChild st (.spawned e) then st
  else
    match (List.finRange gjWaitSlots).find? fun k => !(st.wait k).used with
    | none => st
    | some k =>
      let next := if st.nextPid + 1 < gjWaitPidBase then gjWaitPidBase else st.nextPid + 1
      let registered : WaitSlot X :=
        { used := true, zombie := false, reaped := false, pid := st.nextPid
          ppid := if ppid ≠ 0 then ppid else 1, exit := 0, proc := some (.spawned e) }
      { (st.setWait k registered).setEntry e { st.entry e with alive := true } with
        nextPid := next }

/-- `process_wait_note_exit` of a child of the spawn table. -/
def processWaitNoteExit (e : Fin gjSpawnMax) (code : U32) :
    ProcState C O Q X :=
  let noted := st.setEntry e { st.entry e with exitCode := code, alive := false }
  match noted.waitFind (.spawned e) with
  | some k => noted.setWait k { noted.wait k with zombie := true, exit := code }
  | none => noted

def processWaitForget (proc : GjProcess X) : ProcState C O Q X :=
  match st.waitFind proc with
  | some k => st.setWait k .clear
  | none => st

def processWaitReparent (old new : U32) : ProcState C O Q X :=
  if old = 0 ∨ new = 0 ∨ old = new then st
  else
    { st with
      wait := fun k =>
        if (st.wait k).used = true ∧ (st.wait k).reaped = false ∧ (st.wait k).ppid = old then
          { st.wait k with ppid := new }
        else st.wait k }

/-! ### Spawn -/

/-- The arguments of a spawn, and what the address-space and thread layers answer to it. -/
structure SpawnArgs where
  pfnEntry : Bool
  jit : Bool
  processAsEnsure : GjStatus
  threadCreate : U32
  deriving DecidableEq

def spawnProcessRights (jit : Bool) : U16 :=
  if jit then gjSpawnProcessRightsBase ||| gjRightJit else gjSpawnProcessRightsBase

def spawnProcessCapMintSoftVerify (caps : CapState C O Q) (c : C) (ref : CapRef) (child : O)
    (want : U16) : GjStatus :=
  match gjCapResolve caps c ref.slot ref.gen with
  | .error status => status
  | .ok res =>
    if res.capType ≠ .process then .errPerm
    else if res.obj ≠ child then .errInval
    else if (caps.slot c ref.slot).gen ≠ ref.gen then .errInval
    else if res.rights &&& gjSpawnProcessRightsCore ≠ gjSpawnProcessRightsCore then .errPerm
    else if res.rights &&& want ≠ want then .errPerm
    else .ok

/-- The slot behind a handle is invalidated, if the handle resolves. -/
def invalidateRef (caps : CapState C O Q) (c : C) (ref : CapRef) : CapState C O Q :=
  match gjCapResolve caps c ref.slot ref.gen with
  | .ok _ => invalidateSlot caps c ref.slot
  | .error _ => caps

def spawnProcessCapMint (caps : CapState C O Q) (c : C) (child : O) (jit : Bool) :
    Except GjStatus CapRef × CapState C O Q :=
  match gjCapAllocInstall caps c .process (spawnProcessRights jit) child with
  | (.error status, failed) => (.error status, failed)
  | (.ok ref, installed) =>
    match spawnProcessCapMintSoftVerify installed c ref child (spawnProcessRights jit) with
    | .ok => (.ok ref, installed)
    | status => (.error status, invalidateRef installed c ref)

/-- `gj_process_bootstrap_root_meta` of a fresh child. -/
def gjProcessBootstrapRootMeta (caps : CapState C O Q)
    (e : Fin gjSpawnMax) : Except GjStatus CapRef × CapState C O Q :=
  gjCapSlotInstall (initObj caps (layout.rootMeta e)) (layout.cnode e) slotRootMeta .rootMeta
    (read ||| identify) (layout.rootMeta e)

/-- The entry is wiped and taken: `memset`, `u8Used` and `gj_process_init`. -/
def spawnInit (e : Fin gjSpawnMax) :
    ProcState C O Q X :=
  { st.setEntry e { used := true, hasCnode := true, alive := true, exitCode := 0 } with
    caps := gjCnodeInit (initObj st.caps (layout.hdr e)) (layout.cnode e) gjSpawnCnodeSlots
    tenant := update st.tenant e (st.tenant e + 1) }

/-- The entry goes back to the free set, with the capability state it failed in. -/
def spawnGiveUp (e : Fin gjSpawnMax) (caps : CapState C O Q) :
    ProcState C O Q X :=
  { st.setEntry e { st.entry e with used := false } with caps }

/-- The capability in a slot stands for the labelled child. -/
def ProcState.issue (c : C) (i : Nat)
    (label : Option (Fin gjSpawnMax × Nat)) :
    ProcState C O Q X :=
  { st with issued := update st.issued c (update (st.issued c) i label) }

/-- `process_spawn` from the wiped entry on; `c` is the parent's CNode. -/
def spawnInto (parent : GjProcess X)
    (c : C) (args : SpawnArgs) (e : Fin gjSpawnMax) :
    Except GjStatus (Fin gjSpawnMax × CapRef) × ProcState C O Q X :=
  match gjProcessBootstrapRootMeta layout st.caps e with
  | (.error status, failed) => (.error status, spawnGiveUp st e failed)
  | (.ok _, booted) =>
    if args.processAsEnsure ≠ .ok then
      (.error args.processAsEnsure, spawnGiveUp st e booted)
    else
      match spawnProcessCapMint booted c (layout.hdr e) args.jit with
      | (.error status, failed) => (.error status, spawnGiveUp st e failed)
      | (.ok ref, minted) =>
        if args.threadCreate = 0 then
          (.error .errNomem, spawnGiveUp st e (invalidateRef minted c ref))
        else
          let started := ({ st with caps := minted }).issue c ref.slot (some (e, st.tenant e))
          (.ok (e, ref), processWaitRegister started e
            (if processWaitPidOf started parent ≠ 0 then processWaitPidOf started parent else 1))

/-- `process_spawn` with a parent and arguments that are there. -/
def processSpawn (parent : GjProcess X)
    (args : SpawnArgs) : Except GjStatus (Fin gjSpawnMax × CapRef) × ProcState C O Q X :=
  if args.pfnEntry = false then (.error .errInval, st)
  else
    match st.pCnode layout parent with
    | none => (.error .errInval, st)
    | some c =>
      match (List.finRange gjSpawnMax).find? fun e => !(st.entry e).used with
      | none => (.error .errNomem, st)
      | some e => spawnInto layout (spawnInit layout st e) parent c args e

/-! ### Kill and wait -/

/-- The child behind the object of a PROCESS capability. Only `process_spawn` installs such
capabilities, so there is one. -/
def SpawnLayout.childOf (o : O) : Option (Fin gjSpawnMax) :=
  (List.finRange gjSpawnMax).find? fun e => layout.hdr e = o

/-- What `process_death` does to the capabilities of a child that is in the wait table. -/
def deathRevoke (caps : CapState C O Q) (e : Fin gjSpawnMax) :
    CapState C O Q :=
  let wiped := processDeathCnodeWipe caps (layout.cnode e)
  let revoked := (gjObjRevokeBegin wiped (layout.hdr e)).2
  let walked := (gjRevokeCdtWalkBatch revoked (layout.hdr e) 16).2
  (gjRevokeProcessDeferred walked 16).2

/-- `process_death` of a child that is alive. -/
def processDeath (e : Fin gjSpawnMax)
    (code : U32) : ProcState C O Q X :=
  let pid := processWaitPidOf st (.spawned e)
  let dying := st.setEntry e { st.entry e with exitCode := code, alive := false }
  let orphaned := if pid ≠ 0 then processWaitReparent dying pid 1 else dying
  let buried :=
    if processIsWaitChild orphaned (.spawned e) then
      { orphaned with caps := deathRevoke layout orphaned.caps e }
    else orphaned
  processWaitNoteExit buried e code

/-- The common checks of kill and wait, in their order: the CNode of the handle and the child. -/
def taskOf (parent : GjProcess X)
    (ref : CapRef) (right : U16) : Except GjStatus (C × Fin gjSpawnMax) :=
  match st.pCnode layout parent with
  | none => .error .errInval
  | some c =>
    match gjCapResolve st.caps c ref.slot ref.gen with
    | .error status => .error status
    | .ok res =>
      if res.capType ≠ .process then .error .errPerm
      else if res.rights &&& right = 0 then .error .errPerm
      else
        match layout.childOf res.obj with
        | none => .error .errNoent
        | some e => .ok (c, e)

def processKill (parent : GjProcess X)
    (ref : CapRef) (code : U32) : GjStatus × ProcState C O Q X :=
  match taskOf layout st parent ref destroy with
  | .error status => (status, st)
  | .ok (_, e) =>
    if (st.entry e).alive = false then (.ok, st)
    else (.ok, processDeath layout st e code)

/-- The reaping in `process_wait`: the wait entry, the handle and the spawn entry go. -/
def reap (c : C) (ref : CapRef) (e : Fin gjSpawnMax) : ProcState C O Q X :=
  let forgotten := processWaitForget st (.spawned e)
  let dropped := { forgotten with caps := invalidateSlot forgotten.caps c ref.slot }
  if (dropped.entry e).used then dropped.setEntry e { dropped.entry e with used := false }
  else dropped

/-- `process_wait`, with `*pOutExit`. -/
def processWait (parent : GjProcess X)
    (ref : CapRef) : GjStatus × Option U32 × ProcState C O Q X :=
  match taskOf layout st parent ref wait with
  | .error status => (status, none, st)
  | .ok (c, e) =>
    if (st.entry e).alive then (.errAgain, none, st)
    else (.ok, some (st.entry e).exitCode, reap st c ref e)

/-! ### Runs -/

inductive ProcOp (C : Type u) (X : Type x)
  | spawn (parent : GjProcess X) (args : SpawnArgs)
  | kill (parent : GjProcess X) (ref : CapRef) (code : U32)
  | wait (parent : GjProcess X) (ref : CapRef)
  | copy (c : C) (slot : Nat) (gen : U32) (rights : U16)
  | mint (src : C) (slot : Nat) (gen : U32) (rights : U16) (dst : Option C)
  | delete (c : C) (slot : Nat) (gen : U32)

/-- The state after a derive into `c`: the new handle stands for what its source stands for. -/
def ProcState.derived (c : C) (label : Option (Fin gjSpawnMax × Nat)) :
    Except GjStatus CapRef × CapState C O Q → ProcState C O Q X
  | (.ok ref, caps) => ({ st with caps }).issue c ref.slot label
  | (.error _, caps) => { st with caps }

def ProcOp.exec :
    ProcOp C X → ProcState C O Q X
  | .spawn parent args => (processSpawn layout st parent args).2
  | .kill parent ref code => (processKill layout st parent ref code).2
  | .wait parent ref => (processWait layout st parent ref).2.2
  | .copy c slot gen rights =>
    st.derived c (st.issued c slot) (gjCapCopy st.caps c slot gen rights)
  | .mint src slot gen rights dst =>
    st.derived (dst.getD src) (st.issued src slot) (gjCapMint st.caps src slot gen rights dst)
  | .delete c slot gen => { st with caps := (gjCapDelete st.caps c slot gen).2 }

def ProcRuns (admits : ProcState C O Q X → ProcOp C X → Prop) :
    ProcState C O Q X → ProcState C O Q X → Prop :=
  Relation.ReflTransGen fun st st' => ∃ op, admits st op ∧ op.exec layout st = st'

end

end GreenJade.Proc

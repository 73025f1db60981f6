import GreenJade.Base

/-! Owns the records of `gj/cap.h`: capability types and rights, slots, object headers and
handles, with the header-only helpers on a single record. It does not own the tables the
records live in. Pointers are values of abstract types, null is `none`. -/

namespace GreenJade.Cap

universe u

/-- `GJ_OBJ_LIVE`, `GJ_OBJ_REVOKING`, `GJ_OBJ_DEAD`. -/
inductive ObjState
  | live
  | revoking
  | dead
  deriving DecidableEq, Repr

/-- The 16-bit capability type: the named codes `0 .. 14`, then every other code. -/
inductive CapType
  | invalid
  | cnode
  | thread
  | space
  | process
  | endpoint
  | notification
  | reply
  | irq
  | frame
  | untyped
  | pageTable
  | schedContext
  | memoryObject
  | rootMeta
  | unnamed (excess : Fin (2 ^ 16 - 15))
  deriving DecidableEq, Repr

namespace GjRight

def read : U16 := 0x0001
def write : U16 := 0x0002
def grant : U16 := 0x0004
def mint : U16 := 0x0008
def destroy : U16 := 0x0010
def map : U16 := 0x0020
def identify : U16 := 0x0040
def wait : U16 := 0x0080
def spawn : U16 := 0x0200

end GjRight

structure CapSlot (O : Type u) where
  capType : CapType
  rights : U16
  gen : U32
  objGen : U32
  obj : Option O
  deriving DecidableEq, Repr

def CapSlot.fresh {O : Type u} : CapSlot O :=
  { capType := .invalid, rights := 0, gen := 1, objGen := 0, obj := none }

def CapSlot.Names {O : Type u} (slot : CapSlot O) (o : O) : Prop :=
  slot.capType ≠ .invalid ∧ slot.obj = some o

instance {O : Type u} [DecidableEq O] (slot : CapSlot O) (o : O) : Decidable (slot.Names o) :=
  inferInstanceAs (Decidable (_ ∧ _))

/-- `struct gj_obj_hdr` without `pCdtHead`, which is kept with the edge pool. -/
structure ObjHdr where
  state : ObjState
  gen : U32
  ref : U32
  pin : U32
  slotsLeft : U32
  deriving DecidableEq, Repr

def gjObjHdrInit : ObjHdr :=
  { state := .live, gen := 1, ref := 0, pin := 0, slotsLeft := 0 }

/-- `struct gj_cap_ref`: a handle names a slot and the slot generation it was issued at. -/
structure CapRef where
  slot : Nat
  gen : U32
  deriving DecidableEq, Repr

def gjObjCheckLive (hdr : ObjHdr) (objGenExpected : U32) : GjStatus :=
  if hdr.state ≠ .live then .errDead
  else if hdr.gen ≠ objGenExpected then .errStaleCap
  else .ok

theorem gjObjCheckLive_eq_ok {hdr : ObjHdr} {expected : U32} :
    gjObjCheckLive hdr expected = .ok ↔ hdr.state = .live ∧ hdr.gen = expected := by
  unfold gjObjCheckLive
  split_ifs <;> simp_all

/-- The generation after a structured invalidate: it skips 0, the null handle. -/
def nextGen (gen : U32) : U32 :=
  if gen + 1 = 0 then 1 else gen + 1

theorem nextGen_ne_zero (gen : U32) : nextGen gen ≠ 0 := by
  unfold nextGen
  split_ifs with wraps
  · decide
  · exact wraps

def gjCapSlotInvalidate {O : Type u} (slot : CapSlot O) : CapSlot O :=
  { capType := .invalid, rights := 0, gen := nextGen slot.gen, objGen := 0, obj := none }

@[simp]
theorem gjCapSlotInvalidate_gen {O : Type u} (slot : CapSlot O) :
    (gjCapSlotInvalidate slot).gen = nextGen slot.gen := rfl

end GreenJade.Cap

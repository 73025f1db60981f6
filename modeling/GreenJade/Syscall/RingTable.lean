import GreenJade.Fs.Descriptors

/-! Owns the table of rings of `io_uring_min.c` and how descriptors lead to rings:
`gj_io_uring_setup`, `ring_from_fd` and `gj_io_uring_fd_ok`. It does not own what is in a ring, and
knows of the user's memory only whether a copy to it succeeds. -/

namespace GreenJade.Syscall

open GreenJade.Fs Function

abbrev gjIoringMax : Nat := 4

def gjIoringEntries : Nat := 64

abbrev RingSlot := Fin gjIoringMax

/-- What `gj_io_uring_setup` fixes of a ring. The serial number tells rings of one slot apart. -/
structure IoRing where
  used : Bool
  sqEntries : Nat
  cqEntries : Nat
  serial : Nat
deriving DecidableEq

/-- The rings, the descriptor that each was last found by, and the descriptor table. -/
structure Rings where
  vfs : Vfs
  rings : RingSlot → IoRing
  /-- `g_aRingFd`. -/
  ringFd : RingSlot → Int

namespace Rings

variable (st : Rings)

def set (r : RingSlot) (ring : IoRing) : Rings :=
  { st with rings := update st.rings r ring }

def setFd (r : RingSlot) (fd : Int) : Rings :=
  { st with ringFd := update st.ringFd r fd }

@[simp] theorem set_rings (r k : RingSlot) (ring : IoRing) :
    (st.set r ring).rings k = if k = r then ring else st.rings k := update_apply ..

theorem set_set (r : RingSlot) (first second : IoRing) :
    (st.set r first).set r second = st.set r second := by
  simp [set, update_idem]

@[simp] theorem set_ringFd (r : RingSlot) (ring : IoRing) :
    (st.set r ring).ringFd = st.ringFd := rfl

@[simp] theorem set_vfs (r : RingSlot) (ring : IoRing) : (st.set r ring).vfs = st.vfs := rfl

@[simp] theorem setFd_ringFd (r k : RingSlot) (fd : Int) :
    (st.setFd r fd).ringFd k = if k = r then fd else st.ringFd k := update_apply ..

@[simp] theorem setFd_rings (r : RingSlot) (fd : Int) : (st.setFd r fd).rings = st.rings := rfl

@[simp] theorem setFd_vfs (r : RingSlot) (fd : Int) : (st.setFd r fd).vfs = st.vfs := rfl

/-- `vfs_ram_io_uring_fd`, with an index that is a slot. -/
def vfsRamIoUringFd (vfs : Vfs) (fd : Int) : Option RingSlot :=
  match vfs.fdOk fd with
  | none => none
  | some i => if (vfs.fds i).kind = .iouring then Vfs.slotOf gjIoringMax (vfs.fds i).file else none

/-- `ring_from_fd`: the ring, and the table with the descriptor noted. -/
def ringFromFd (fd : Int) : Option RingSlot × Rings :=
  if fd < 0 then (none, st)
  else
    match (List.finRange gjIoringMax).find? fun r =>
        (st.rings r).used && decide (st.ringFd r = fd) with
    | some r => (some r, st)
    | none =>
      match vfsRamIoUringFd st.vfs fd with
      | none => (none, st)
      | some r => if (st.rings r).used then (some r, st.setFd r fd) else (none, st)

def gjIoUringFdOk (fd : Int) : Bool := (st.ringFromFd fd).1.isSome

/-- The loop of `pow2_clamp`, with its turns; a word is doubled at most 32 times. -/
def pow2From (n : Nat) : Nat → Nat → Nat
  | 0, p => p
  | turns + 1, p => if p < n then pow2From n turns (2 * p) else p

/-- `pow2_clamp`: the first power of two that is large enough. -/
def pow2Clamp (n max : Nat) : Nat := pow2From (min (if n < 1 then 1 else n) max) 32 1

def freshRing (entries : U32) (serial : Nat) : IoRing :=
  let nSq := pow2Clamp (if entries = 0 then 8 else entries.toNat) gjIoringEntries
  { used := true, sqEntries := nSq, cqEntries := min (nSq * 2) (gjIoringEntries * 2), serial }

/-- `gj_io_uring_setup`; the copy of the parameters to the user succeeds or not. -/
def gjIoUringSetup (entries : U32) (copied : Bool) : Int × Rings :=
  match (List.finRange gjIoringMax).find? fun r => !(st.rings r).used with
  | none => (-12, st)
  | some r =>
    let made := st.set r (freshRing entries st.vfs.made)
    let opened := st.vfs.vfsRamIoUringOpen (BitVec.ofNat 32 r.val)
    if opened.1 < 0 then
      (opened.1, (made.set r { made.rings r with used := false }).setFd r (-1))
    else
      let st := { made with vfs := opened.2 }.setFd r opened.1
      if copied then (opened.1, st)
      else
        (-14, { st with vfs := (st.vfs.vfsRamClose opened.1).2 }.set r
          { st.rings r with used := false })

def init (vfs : Vfs) : Rings where
  vfs := vfs
  rings := fun _ => { used := false, sqEntries := 0, cqEntries := 0, serial := 0 }
  ringFd := fun _ => -1

end Rings

/-! ### Calls -/

abbrev PlainFdCall := { call : FdCall // ∀ ringSlot, call ≠ .ioUringOpen ringSlot }

/-- Setups, calls on descriptors, and calls that look a ring up. -/
inductive RingCall
  | setup (entries : U32) (copied : Bool)
  | look (fd : Int)
  | file (call : PlainFdCall)

namespace Rings

def step (st : Rings) : RingCall → Rings
  | .setup entries copied => (st.gjIoUringSetup entries copied).2
  | .look fd => (st.ringFromFd fd).2
  | .file call => { st with vfs := call.val.run st.vfs }

structure Shows (st : Rings) (i : Fin vfsMaxFds) (r : RingSlot) : Prop where
  isOpen : st.vfs.Open i
  kind : (st.vfs.fds i).kind = .iouring
  file : Vfs.slotOf gjIoringMax (st.vfs.fds i).file = some r

instance (st : Rings) (i : Fin vfsMaxFds) (r : RingSlot) : Decidable (st.Shows i r) :=
  decidable_of_iff ((3 ≤ i.val ∧ (st.vfs.fds i).used = true) ∧ (st.vfs.fds i).kind = .iouring ∧
      Vfs.slotOf gjIoringMax (st.vfs.fds i).file = some r)
    ⟨fun ⟨isOpen, kind, file⟩ => ⟨isOpen, kind, file⟩, fun ⟨isOpen, kind, file⟩ =>
      ⟨isOpen, kind, file⟩⟩

/-- Rings live exactly as long as their descriptors: a descriptor is accepted exactly if it is an
open descriptor of a ring, it stands for the ring that it was made for, and exactly the rings with
an open descriptor are in use. -/
structure Living (st : Rings) : Prop where
  accepted : ∀ fd, st.gjIoUringFdOk fd = true ↔
    ∃ i : Fin vfsMaxFds, fd = i.val ∧ st.vfs.Open i ∧ (st.vfs.fds i).kind = .iouring
  denotes : ∀ (i : Fin vfsMaxFds) r, (st.ringFromFd i.val).1 = some r →
    st.Shows i r ∧ (st.rings r).serial = (st.vfs.fds i).serial
  used : ∀ r, (st.rings r).used = true ↔ ∃ i, st.Shows i r
  full : ∀ entries copied, (st.gjIoUringSetup entries copied).1 = -12 → ∀ r, ∃ i, st.Shows i r

/-- The descriptor of a ring that a call closes is not the one that the ring was last found by. -/
def Spares (st : Rings) : RingCall → Prop
  | .file call => ∀ i ∈ call.val.closes st.vfs, ∀ r, st.Shows i r → st.ringFd r ≠ i.val
  | _ => True

instance (st : Rings) : ∀ call, Decidable (st.Spares call)
  | .setup .. => inferInstanceAs (Decidable True)
  | .look _ => inferInstanceAs (Decidable True)
  | .file call => inferInstanceAs (Decidable
      (∀ i ∈ call.val.closes st.vfs, ∀ r, st.Shows i r → st.ringFd r ≠ i.val))

end Rings

end GreenJade.Syscall

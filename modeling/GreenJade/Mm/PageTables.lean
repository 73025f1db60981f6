import GreenJade.Proc.ElfLoad
import Mathlib.Data.Finset.Insert
import Mathlib.Data.List.FinRange

/-! Owns the page tables of `vmm.c` in physical memory: the walk with its copying of shared tables
and its splitting of large pages, the calls that map, unmap and protect pages, and the reference
table of shared frames. Physical memory is reached directly, as it is through the direct map once
`vmm_hhdm_init` has run. Of the frame allocator it keeps which frames are listed; which of them
`pmm_alloc` hands out, and what it writes into others on its lists, is left open. It does not own
TLB flushes, counters and log lines. -/

namespace GreenJade.Mm

open Proc Function GjUserPte

/-! ### Entries and addresses -/

/-- Number of a page frame: bits 12 to 51 of a physical address. -/
abbrev Frame := BitVec 40

/-- Place in a table, or of a word in a page. -/
abbrev Index := BitVec 9

abbrev Page := Index → U64

/-- A virtual page, by the indices of the walk. -/
@[ext]
structure VPage where
  i4 : Index
  i3 : Index
  i2 : Index
  i1 : Index
  deriving DecidableEq

def pageOf (va : U64) : VPage where
  i4 := (va >>> 39).setWidth 9
  i3 := (va >>> 30).setWidth 9
  i2 := (va >>> 21).setWidth 9
  i1 := (va >>> 12).setWidth 9

/-- The address that the loops over all tables compute. -/
def vaOf (page : VPage) : U64 :=
  (page.i4.setWidth 64 <<< 39) ||| (page.i3.setWidth 64 <<< 30) |||
    (page.i2.setWidth 64 <<< 21) ||| (page.i1.setWidth 64 <<< 12)

def present (e : U64) : Bool := e.getLsbD 0
def writable (e : U64) : Bool := e.getLsbD 1
def user (e : U64) : Bool := e.getLsbD 2
def large (e : U64) : Bool := e.getLsbD 7
def cowBit (e : U64) : Bool := e.getLsbD 9
def noExec (e : U64) : Bool := e.getLsbD 63

def frameOf (e : U64) : Frame := e.extractLsb' 12 40

def framePa (f : Frame) : U64 := f.setWidth 64 <<< 12

/-- An entry for a new table. -/
def tablePte (f : Frame) : U64 := framePa f ||| p ||| w ||| u

/-- The 4 KiB entry for one piece of a large page. -/
def piece (e : U64) (i : Index) : U64 :=
  (framePa (frameOf e) + (i.setWidth 64 <<< 12)) ||| p |||
    (e &&& (w ||| u ||| pteNx))

/-! ### State -/

def gjCowRefMax : Nat := 256

/-- `struct gj_cow_ref`, of a used entry. -/
structure CowRef where
  pa : Frame
  refs : Nat
  deriving DecidableEq

/-- The kernel's memory management. `spaces` are the address spaces that `vmm_as_create` has made
and `vmm_as_destroy` not ended, by their CR3; `cursor` is the anonymous cursor of each. Of the
frame allocator there are the frames on its lists, whether one has been put there twice, the frames
that may be given back to it, the order in which it will hand frames out, the link that it keeps in
a free frame, and the frames that it has been given back so far. -/
structure Vmm where
  mem : Frame → Page
  cr3 : Frame
  kernelCr3 : Frame
  kernelStart : U64
  kernelEnd : U64
  spaces : Finset Frame
  cursor : Frame → U64
  cow : Fin gjCowRefMax → Option CowRef
  listed : Frame → Bool
  torn : Bool
  listable : Frame → Bool
  picks : List Frame
  link : U64
  given : List Frame

structure Slot where
  table : Frame
  index : Index

namespace Vmm

variable (st : Vmm)

def entry (slot : Slot) : U64 := st.mem slot.table slot.index

def setPage (f : Frame) (page : Page) : Vmm :=
  { st with mem := update st.mem f page }

def setEntry (slot : Slot) (e : U64) : Vmm :=
  st.setPage slot.table (update (st.mem slot.table) slot.index e)

def loadCr3 (cr3 : Frame) : Vmm := { st with cr3 }

/-! ### Frames -/

/-- The frames that the allocator may hand out. When a listed frame has been linked once more, the
list has a cycle or has lost its tail, and goes on by a link that the owner of the frame has
overwritten: it may lead anywhere. -/
def free (f : Frame) : Bool := st.torn || st.listed f

/-- `pmm_alloc`: some free frame, or none. -/
def pmmAlloc : Option Frame × Vmm :=
  match st.picks with
  | [] => (none, st)
  | f :: rest =>
    if f ≠ 0 ∧ st.free f = true then
      (some f, { st.setEntry ⟨f, 0⟩ 0 with
        listed := update st.listed f false
        link := st.mem f 0
        picks := rest })
    else (none, { st with picks := rest })

/-- `pmm_free`, which keeps its link in the frame. It does not look whether the frame is listed. -/
def pmmFree (f : Frame) : Vmm :=
  if f = 0 ∨ st.listable f = false then st
  else
    { st.setEntry ⟨f, 0⟩ st.link with
      listed := update st.listed f true
      torn := st.free f
      link := framePa f
      given := f :: st.given }

def allocTable : Option Frame × Vmm :=
  match st.pmmAlloc with
  | (none, st) => (none, st)
  | (some f, st) => (some f, st.setPage f fun _ => 0)

/-! ### References to shared frames -/

def cowRefFind (f : Frame) : Option (Fin gjCowRefMax) :=
  (List.finRange gjCowRefMax).find? fun i => (st.cow i).any fun ref => ref.pa = f

def setCow (i : Fin gjCowRefMax) (ref : Option CowRef) : Vmm :=
  { st with cow := update st.cow i ref }

/-- `cow_ref_drop`; the answer is how many references are left. -/
def cowRefDrop (f : Frame) : Nat × Vmm :=
  if f = 0 then (1, st)
  else
    match st.cowRefFind f with
    | none => (0, st)
    | some i =>
      let refs := ((st.cow i).map CowRef.refs).getD 0
      if 1 < refs then (refs - 1, st.setCow i (some { pa := f, refs := refs - 1 }))
      else (0, st.setCow i none)

def releaseLeafFrame (f : Frame) : Vmm :=
  if f = 0 then st
  else
    match st.cowRefDrop f with
    | (0, st) => st.pmmFree f
    | (_ + 1, st) => st

/-! ### The walk -/

def asCreate : Option Frame × Vmm :=
  match st.allocTable with
  | (none, st) => (none, st)
  | (some root, st) =>
    (some root, { st.setPage root (st.mem st.kernelCr3) with spaces := insert root st.spaces })

def asIsPrivate : Bool := st.cr3 ≠ st.kernelCr3

/-- `cow_table_entry`; the answer is false without memory. -/
def cowTableEntry (slot : Slot) (template : U64) : Bool × Vmm :=
  let e := st.entry slot
  if present e = false ∨ large e = true ∨ e ≠ template then (true, st)
  else
    match st.allocTable with
    | (none, st) => (false, st)
    | (some f, st) =>
      (true, (st.setPage f (st.mem (frameOf e))).setEntry slot
        (framePa f ||| (e &&& ~~~pteAddrMask)))

def ensureUserFlag (slot : Slot) : Vmm :=
  if present (st.entry slot) then
    st.setEntry slot (st.entry slot ||| (u ||| w))
  else st

/-- The part of the walk that each level has in common: the entry gets a table if there is none,
and a table of its own if it shares the template's. There is no template entry for a lookup. -/
def nextTable (slot : Slot) (create : Bool) (template : Option U64) : Bool × Vmm :=
  if present (st.entry slot) = false then
    if create = false then (false, st)
    else
      match st.allocTable with
      | (none, st) => (false, st)
      | (some f, st) => (true, (st.setEntry slot (tablePte f)).ensureUserFlag slot)
  else
    match (match template with
      | some template => st.cowTableEntry slot template
      | none => (true, st)) with
    | (false, st) => (false, st)
    | (true, st) => (true, if create then st.ensureUserFlag slot else st)

def templatePdpte (page : VPage) : Option U64 :=
  let e4 := st.mem st.kernelCr3 page.i4
  if present e4 then some (st.mem (frameOf e4) page.i3) else none

def templatePde (page : VPage) : Option U64 :=
  match st.templatePdpte page with
  | none => none
  | some e3 => if present e3 && !large e3 then some (st.mem (frameOf e3) page.i2) else none

/-- `walk_pd_entry` from the second level on. -/
def walkPdpt (pdpte : Slot) (page : VPage) (create cow : Bool) : Option Slot × Vmm :=
  match st.nextTable pdpte create (if cow then st.templatePdpte page else none) with
  | (false, st) => (none, st)
  | (true, st) =>
    if large (st.entry pdpte) then (none, st)
    else (some ⟨frameOf (st.entry pdpte), page.i2⟩, st)

def walkPdEntry (page : VPage) (create : Bool) : Option Slot × Vmm :=
  let cow := create && st.asIsPrivate
  let pml4e : Slot := ⟨st.cr3, page.i4⟩
  match st.nextTable pml4e create
      (if cow then some (st.mem st.kernelCr3 page.i4) else none) with
  | (false, st) => (none, st)
  | (true, st) => st.walkPdpt ⟨frameOf (st.entry pml4e), page.i3⟩ page create cow

/-- `split_large_pde`; the answer is false without an entry or memory. -/
def splitLargePde (slot : Slot) : Bool × Vmm :=
  let e := st.entry slot
  if present e = false then (false, st)
  else if large e = false then (true, st)
  else
    match st.allocTable with
    | (none, st) => (false, st)
    | (some f, st) => (true, (st.setPage f (piece e)).setEntry slot (tablePte f))

/-- The first test of `walk_pte`: an entry that is the template's is split or copied. -/
def ownPde (slot : Slot) (template : Option U64) : Bool × Vmm :=
  match template with
  | none => (true, st)
  | some template =>
    if present (st.entry slot) = true ∧ st.entry slot = template then
      if large template then st.splitLargePde slot else st.cowTableEntry slot template
    else (true, st)

/-- The end of `walk_pte`, when the entry of the third level is no large page. -/
def walkPt (pde : Slot) (page : VPage) (create cow : Bool) : Option Slot × Vmm :=
  match st.nextTable pde create (if cow then st.templatePde page else none) with
  | (false, st) => (none, st)
  | (true, st) => (some ⟨frameOf (st.entry pde), page.i1⟩, st)

/-- `walk_pte` from the third level on. -/
def walkPde (pde : Slot) (page : VPage) (create cow : Bool) : Option Slot × Vmm :=
  match st.ownPde pde (if cow then st.templatePde page else none) with
  | (false, st) => (none, st)
  | (true, st) =>
    match (if present (st.entry pde) && large (st.entry pde) then st.splitLargePde pde
      else (true, st)) with
    | (false, st) => (none, st)
    | (true, st) => st.walkPt pde page create cow

def walkPte (page : VPage) (create : Bool) : Option Slot × Vmm :=
  match st.walkPdEntry page create with
  | (none, st) => (none, st)
  | (some pde, st) => st.walkPde pde page create (create && st.asIsPrivate)

/-! ### Pages -/

def vaInKernelIdentity (va : U64) : Bool :=
  decide (pageBase st.kernelStart ≤ va ∧ va < pageBase (st.kernelEnd + 0xfff))

def vmmMapPage (va pa : U64) (prot : U32) : GjStatus × Vmm :=
  if va &&& 0xfff ≠ 0 ∨ pa &&& 0xfff ≠ 0 then (.errInval, st)
  else if st.vaInKernelIdentity va = true ∧ (prot &&& GjVmmProt.user ≠ 0 ∨ pa ≠ va) then
    (.errPerm, st)
  else
    let prot :=
      if st.vaInKernelIdentity va then GjVmmProt.read ||| GjVmmProt.write ||| GjVmmProt.exec
      else prot
    match st.walkPte (pageOf va) true with
    | (none, st) => (.errNomem, st)
    | (some pte, st) =>
      (.ok, st.setEntry pte ((framePa (frameOf pa) ||| protToFlags prot) &&& ~~~GjUserPte.cow))

def vmmUnmapPage (va : U64) : GjStatus × Vmm :=
  match st.walkPte (pageOf va) false with
  | (none, st) => (.errNoent, st)
  | (some pte, st) =>
    let e := st.entry pte
    if present e = false then (.errNoent, st)
    else
      let st := st.setEntry pte 0
      if user e = true ∧ cowBit e = true ∧ frameOf e ≠ 0 ∧ framePa (frameOf e) ≠ va then
        (.ok, st.releaseLeafFrame (frameOf e))
      else (.ok, st)

def vmmProtectPage (va : U64) (prot : U32) : GjStatus × Vmm :=
  match st.walkPte (pageOf va) false with
  | (none, st) => (.errNoent, st)
  | (some pte, st) =>
    let e := st.entry pte
    if present e = false then (.errNoent, st)
    else if st.vaInKernelIdentity va then
      if framePa (frameOf e) = va ∨ frameOf e = 0 then
        (.ok, st.setEntry pte (framePa (frameOf va) ||| p ||| w))
      else (.errPerm, st)
    else (.ok, st.setEntry pte (framePa (frameOf e) ||| protToFlags prot))

/-- `vmm_virt_to_phys`, zero if there is no page. -/
def vmmVirtToPhys (va : U64) : U64 × Vmm :=
  match st.walkPte (pageOf va) false with
  | (none, st) => (0, st)
  | (some pte, st) =>
    if present (st.entry pte) then (framePa (frameOf (st.entry pte)) ||| (va &&& 0xfff), st)
    else (0, st)

def vmmReadPte (va : U64) : U64 × Vmm :=
  match st.walkPte (pageOf va) false with
  | (none, st) => (0, st)
  | (some pte, st) => (st.entry pte, st)

/-! ### Anonymous memory -/

def gjVmmAnonBase : U64 := 0x40000000
def gjVmmAnonEnd : U64 := 0x80000000

def pageAfter (base : U64) (i : Nat) : U64 := base + BitVec.ofNat 64 i * 0x1000

/-- The way back of `vmm_mmap_anon` over the pages that it has mapped. -/
def anonUnwind (st : Vmm) (base : U64) : Nat → Vmm
  | 0 => st
  | i + 1 =>
    let (pa, st) := st.vmmVirtToPhys (pageAfter base i)
    let (_, st) := st.vmmUnmapPage (pageAfter base i)
    anonUnwind (if pa ≠ 0 then st.pmmFree (frameOf pa) else st) base i

/-- The page loop of `vmm_mmap_anon`, with the pages to go and those done. The new page is cleared
through its address. -/
def anonPages (st : Vmm) (base : U64) (prot : U32) : Nat → Nat → Bool × Vmm
  | 0, _ => (true, st)
  | left + 1, i =>
    match st.pmmAlloc with
    | (none, st) => (false, st.anonUnwind base i)
    | (some f, st) =>
      match st.vmmMapPage (pageAfter base i) (framePa f) (prot ||| GjVmmProt.user) with
      | (.ok, st) => anonPages (st.setPage f fun _ => 0) base prot left (i + 1)
      | (_, st) => (false, (st.pmmFree f).anonUnwind base i)

/-- Where `vmm_mmap_anon` puts a mapping of a given size, and the cursor then. -/
def anonPlace (cursor hint size : U64) (fixed : Bool) : Option (U64 × U64) :=
  if fixed then
    if hint &&& 0xfff ≠ 0 then none else some (hint, cursor)
  else
    let base :=
      if hint ≠ 0 ∧ gjVmmAnonBase ≤ hint ∧ hint + size ≤ gjVmmAnonEnd then hint else cursor
    if gjVmmAnonEnd < base + size then none
    else if base = cursor then some (base, cursor + size)
    else if cursor < base + size then some (base, base + size)
    else some (base, cursor)

def pageAlign (len : U64) : U64 := (len + 0xfff) &&& ~~~(0xfff : U64)

def pageCount (len : U64) : Nat := (pageAlign len >>> 12).toNat

/-- `vmm_mmap_anon`, zero on failure. -/
def vmmMmapAnon (hint len : U64) (prot : U32) (fixed : Bool) : U64 × Vmm :=
  if len = 0 then (0, st)
  else
    match anonPlace (st.cursor st.cr3) hint (pageAlign len) fixed with
    | none => (0, st)
    | some (base, cursor) =>
      let st := { st with cursor := update st.cursor st.cr3 cursor }
      match st.anonPages base prot (pageCount len) 0 with
      | (true, st) => (base, st)
      | (false, st) => (0, st)

def munmapPage (va : U64) : Vmm :=
  let (e, st) := st.vmmReadPte va
  let (pa, st) := st.vmmVirtToPhys va
  let (_, st) := st.vmmUnmapPage va
  if pa ≠ 0 ∧ cowBit e = false then st.pmmFree (frameOf pa) else st

def munmapPages (st : Vmm) (va : U64) : Nat → Nat → Vmm
  | 0, _ => st
  | left + 1, i => munmapPages (st.munmapPage (pageAfter va i)) va left (i + 1)

def vmmMunmap (va len : U64) : GjStatus × Vmm :=
  if va &&& 0xfff ≠ 0 ∨ len = 0 then (.errInval, st)
  else (.ok, st.munmapPages va (pageCount len) 0)

end Vmm

end GreenJade.Mm

import GreenJade.Base
import GreenJade.Lib.ByteCopy

/-! Owns the copies between kernel and user memory of `user_copy.c`: the window check, the
page scan, the chunk loop and the two entry points. Memory and leaf entries are those of the
active address space, by virtual address. A write to a copy-on-write leaf goes through like
any other write: the fault handler gives the page its own frame. -/

namespace GreenJade.Mm

open ByteCopy

def gjPageSize : Nat := 4096

def gjUserVaBase : U64 := 0x800000

def gjUserVaEnd : U64 := 0x80000000

def gjUserCopyMax : U64 := gjUserVaEnd - gjUserVaBase

namespace GjUserPte

def p : U64 := 0x1
def w : U64 := 0x2
def u : U64 := 0x4
def cow : U64 := 0x200

end GjUserPte

namespace GjUserAccess

def read : U32 := 0x1
def write : U32 := 0x2

end GjUserAccess

/-- The active address space: the leaf word that `vmm_read_pte` finds for an address, and
the byte behind each address. Memory is by virtual address: two leaves that name one frame are not
modelled. -/
structure UserSpace where
  readPte : U64 → U64
  mem : U64 → U8

/-- One `memcpy` between `user_access_begin` and `user_access_end`. -/
structure AccessWindow where
  dst : U64
  src : U64
  len : U64
  deriving DecidableEq

def userCopyChunkLen (dst src left : U64) : U64 :=
  if left = 0 then 0
  else
    let chunkS : U64 := 0x1000 - (src &&& 0xfff)
    let chunkD : U64 := 0x1000 - (dst &&& 0xfff)
    let chunk := if chunkS < chunkD then chunkS else chunkD
    let chunk := if left < chunk then left else chunk
    if 0x1000 < chunk then 0x1000 else chunk

/-- How a chunk loop ended, the memory it left, and the windows it opened in their order. -/
structure Transfer where
  complete : Bool
  mem : U64 → U8
  windows : List AccessWindow

def copyRawChunkedLoop : Nat → U64 → U64 → U64 → (U64 → U8) → Transfer
  | 0, _, _, _, mem => { complete := false, mem, windows := [] }
  | fuel + 1, dst, src, left, mem =>
    if left = 0 then { complete := true, mem, windows := [] }
    else
      let chunk := userCopyChunkLen dst src left
      if chunk = 0 then { complete := false, mem, windows := [] }
      else
        let rest := copyRawChunkedLoop fuel (dst + chunk) (src + chunk) (left - chunk)
          (copy mem dst src chunk.toNat)
        { rest with windows := { dst, src, len := chunk } :: rest.windows }

/-- `copy_raw_chunked`. A chunk is at least one byte, so the loop runs at most `cb` times. -/
def copyRawChunked (mem : U64 → U8) (dst src cb : U64) : Transfer :=
  copyRawChunkedLoop (cb.toNat + 1) dst src cb mem

def userRangeOk (va cb : U64) : Bool :=
  if cb = 0 then true
  else if gjUserCopyMax < cb then false
  else if va < gjUserVaBase then false
  else if gjUserVaEnd ≤ va then false
  else if va + cb < va then false
  else if gjUserVaEnd < va + cb then false
  else true

/-- The tests on one leaf word in `user_range_mapped_access`. -/
def leafAllows (pte : U64) (write : Bool) : Bool :=
  if pte &&& GjUserPte.p = 0 then false
  else if pte &&& GjUserPte.u = 0 then false
  else if write = true ∧ pte &&& GjUserPte.w = 0 ∧ pte &&& GjUserPte.cow = 0 then false
  else true

def mappedLoop (space : UserSpace) (write : Bool) (stop : U64) : Nat → U64 → Bool
  | 0, _ => false
  | fuel + 1, page =>
    if leafAllows (space.readPte page) write = false then false
    else if stop ≤ page + 0x1000 then true
    else mappedLoop space write stop fuel (page + 0x1000)

/-- The write intent of `user_range_mapped_access`, which takes no flags for a read. -/
def accessWrites (access : U32) : Bool :=
  let access := if access = 0 then GjUserAccess.read else access
  decide (access &&& GjUserAccess.write ≠ 0)

/-- `user_range_mapped_access`. The range meets at most `cb / 4096 + 2` pages. -/
def userRangeMappedAccess (space : UserSpace) (va cb : U64) (access : U32) : Bool :=
  if userRangeOk va cb = false then false
  else if cb = 0 then true
  else
    mappedLoop space (accessWrites access) (va + cb) (cb.toNat / gjPageSize + 2)
      (va &&& ~~~(0xfff : U64))

/-- The status of a copy, the memory after it, and the windows it opened. -/
structure CopyOutcome where
  status : GjStatus
  mem : U64 → U8
  windows : List AccessWindow

/-- The common body of the two entry points; `kernel` is their kernel pointer. -/
def copyUser (space : UserSpace) (access : U32) (kernel user dst src cb : U64) : CopyOutcome :=
  if kernel = 0 then { status := .errInval, mem := space.mem, windows := [] }
  else if cb = 0 then { status := .ok, mem := space.mem, windows := [] }
  else if userRangeMappedAccess space user cb access = false then
    { status := .errFault, mem := space.mem, windows := [] }
  else
    let moved := copyRawChunked space.mem dst src cb
    { status := if moved.complete then .ok else .errFault
      mem := moved.mem
      windows := moved.windows }

def copyFromUser (space : UserSpace) (kdst usrc cb : U64) : CopyOutcome :=
  copyUser space GjUserAccess.read kdst usrc kdst usrc cb

def copyToUser (space : UserSpace) (udst ksrc cb : U64) : CopyOutcome :=
  copyUser space GjUserAccess.write ksrc udst udst ksrc cb

end GreenJade.Mm

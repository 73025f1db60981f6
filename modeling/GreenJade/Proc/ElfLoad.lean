import GreenJade.Mm.UserCopy

/-! Owns the program loader of `elf_load.c`: the header probe, the segment loop with its page
mapping, the dynamic tags and the relocations, over the active address space of the target
process. An image is read by distance from its start, modulo `2^64`; past its size that reads
whatever the kernel has there. It does not own the registry of shared objects, whose lookup is
a parameter, nor the page tables, of which it keeps the leaf of each address. -/

namespace GreenJade.Proc

open Mm

/-! ### The image -/

/-- An offered image: the byte at each distance from `pImage`, and `cb`. -/
structure Image where
  bytes : U64 → U8
  cb : U64

variable (image : Image)

def Image.u16 (off : U64) : U16 := image.bytes (off + 1) ++ image.bytes off

def Image.u32 (off : U64) : U32 := image.u16 (off + 2) ++ image.u16 off

def Image.u64 (off : U64) : U64 := image.u32 (off + 4) ++ image.u32 off

/-- The fields of `struct elf64_ehdr` that the loader reads. -/
structure Elf64Ehdr where
  type : U16
  machine : U16
  entry : U64
  phoff : U64
  phentsize : U16
  phnum : U16
  deriving DecidableEq

/-- The fields of `struct elf64_phdr` that the loader reads. -/
structure Elf64Phdr where
  type : U32
  flags : U32
  offset : U64
  vaddr : U64
  filesz : U64
  memsz : U64
  deriving DecidableEq

structure Elf64Rela where
  offset : U64
  info : U64
  addend : U64
  deriving DecidableEq

/-- The fields of `struct elf64_sym` that the loader reads. -/
structure Elf64Sym where
  name : U32
  info : U8
  shndx : U16
  value : U64
  deriving DecidableEq

def Image.ehdr : Elf64Ehdr where
  type := image.u16 16
  machine := image.u16 18
  entry := image.u64 24
  phoff := image.u64 32
  phentsize := image.u16 54
  phnum := image.u16 56

def Image.phdrAt (off : U64) : Elf64Phdr where
  type := image.u32 off
  flags := image.u32 (off + 4)
  offset := image.u64 (off + 8)
  vaddr := image.u64 (off + 16)
  filesz := image.u64 (off + 32)
  memsz := image.u64 (off + 40)

def Image.relaAt (off : U64) : Elf64Rela where
  offset := image.u64 off
  info := image.u64 (off + 8)
  addend := image.u64 (off + 16)

def Image.symAt (off : U64) : Elf64Sym where
  name := image.u32 off
  info := image.bytes (off + 4)
  shndx := image.u16 (off + 6)
  value := image.u64 (off + 8)

/-- The program headers in the order of the loops over `u16Phnum`. -/
def Image.phdrs : List Elf64Phdr :=
  (List.range image.ehdr.phnum.toNat).map fun i =>
    image.phdrAt (image.ehdr.phoff + BitVec.ofNat 64 i * image.ehdr.phentsize.setWidth 64)

def etExec : U16 := 2
def etDyn : U16 := 3
def emX8664 : U16 := 62
def ptLoad : U32 := 1
def ptDynamic : U32 := 2
def ptInterp : U32 := 3
def pfX : U32 := 1
def pfW : U32 := 2

def elfMagicOk : Bool :=
  image.bytes 0 == 0x7f && image.bytes 1 == 0x45 && image.bytes 2 == 0x4c &&
    image.bytes 3 == 0x46 && image.bytes 4 == 2 && image.bytes 5 == 1

/-- The fields of `struct gj_elf_info` that placing the image reads or sets. -/
structure GjElfInfo where
  type : U16
  entry : U64
  loadMin : U64
  loadMax : U64
  phdrs : Nat
  bias : U64
  base : U64
  deriving DecidableEq

/-- A `PT_LOAD` header that takes memory; the loops over segments skip the others. -/
def Elf64Phdr.loads (ph : Elf64Phdr) : Bool := ph.type == ptLoad && ph.memsz != 0

/-- The header loop of `elf_fill_probe`, from the bounds and the count gathered so far. -/
def probeLoop (cb : U64) : List Elf64Phdr → U64 → U64 → Nat → Except GjStatus (U64 × U64 × Nat)
  | [], low, high, count => .ok (low, high, count)
  | ph :: rest, low, high, count =>
    if ph.type = ptInterp ∧ 0 < ph.filesz then
      if cb < ph.offset + ph.filesz then .error .errInval
      else probeLoop cb rest low high count
    else if ph.loads = false then probeLoop cb rest low high count
    else if ph.memsz < ph.filesz then .error .errInval
    else if ph.offset + ph.filesz < ph.offset then .error .errInval
    else if ph.vaddr + ph.memsz < ph.vaddr then .error .errInval
    else if cb < ph.offset + ph.filesz then .error .errInval
    else
      probeLoop cb rest (if ph.vaddr < low then ph.vaddr else low)
        (if high < ph.vaddr + ph.memsz then ph.vaddr + ph.memsz else high) (count + 1)

/-- `elf_fill_probe`, which also hands out the header behind `ppEh`. -/
def elfFillProbe : Option Image → Except GjStatus (Image × GjElfInfo)
  | none => .error .errInval
  | some image =>
    if image.cb < 64 then .error .errInval
    else if elfMagicOk image = false then .error .errInval
    else if image.ehdr.type ≠ etExec ∧ image.ehdr.type ≠ etDyn then .error .errInval
    else if image.ehdr.machine ≠ emX8664 then .error .errInval
    else if image.cb < image.ehdr.phoff +
        image.ehdr.phnum.setWidth 64 * image.ehdr.phentsize.setWidth 64 then .error .errInval
    else if image.ehdr.phentsize < 56 then .error .errInval
    else
      match probeLoop image.cb image.phdrs (~~~0) 0 0 with
      | .error status => .error status
      | .ok (low, high, count) =>
        if count = 0 then .error .errInval
        else .ok (image,
          { type := image.ehdr.type, entry := image.ehdr.entry, loadMin := low
            loadMax := high, phdrs := count, bias := 0, base := 0 })

/-! ### Mapping the segments -/

namespace GjVmmProt

def read : U32 := 0x1
def write : U32 := 0x2
def exec : U32 := 0x4
def user : U32 := 0x8

end GjVmmProt

def pteNx : U64 := 0x8000000000000000
def pteAddrMask : U64 := 0x000ffffffffff000

def gjElfDynBias : U64 := 0x70000000
def gjLdHandoffVa : U64 := 0x6ff00000
def gjLdStackVa : U64 := 0x6ff01000

def pageBase (address : U64) : U64 := address &&& ~~~(0xfff : U64)

/-- What the loader meets in the kernel: the linker's bounds of the kernel image, the answers of
`pmm_alloc` and of the table walk for each mapping in turn, the address of the word that a
relocation copies out, and `elf_lookup_in_sos` by the place of the name in the image. -/
structure LoadEnv where
  kernelStart : U64
  kernelEnd : U64
  pmmAlloc : Nat → U64
  walkPte : Nat → Bool
  bounce : U64
  elfLookupInSos : U64 → Option U64

/-- Eight bytes that a relocation stored, and whether `copy_to_user` did it. -/
structure WordStore where
  dst : U64
  word : U64
  checked : Bool
  deriving DecidableEq

/-- The active address space during a load, the pages mapped so far, the words stored so far
and `u32Loaded`. -/
structure LoadRun where
  space : UserSpace
  mapped : List U64
  stores : List WordStore
  loaded : Nat

variable (env : LoadEnv)

def vaInKernelIdentity (va : U64) : Bool :=
  decide (pageBase env.kernelStart ≤ va ∧ va < pageBase (env.kernelEnd + 0xfff))

def protToFlags (prot : U32) : U64 :=
  GjUserPte.p ||| (if prot &&& GjVmmProt.write ≠ 0 then GjUserPte.w else 0) |||
    (if prot &&& GjVmmProt.user ≠ 0 then GjUserPte.u else 0) |||
    (if prot &&& GjVmmProt.exec = 0 then pteNx else 0)

/-- `vmm_map_page`, with the leaf that it installs. -/
def vmmMapPage (nth : Nat) (va pa : U64) (prot : U32) : Except GjStatus U64 :=
  if va &&& 0xfff ≠ 0 ∨ pa &&& 0xfff ≠ 0 then .error .errInval
  else if vaInKernelIdentity env va = true ∧ (prot &&& GjVmmProt.user ≠ 0 ∨ pa ≠ va) then
    .error .errPerm
  else
    let prot :=
      if vaInKernelIdentity env va then GjVmmProt.read ||| GjVmmProt.write ||| GjVmmProt.exec
      else prot
    if env.walkPte nth = false then .error .errNomem
    else .ok (((pa &&& pteAddrMask) ||| protToFlags prot) &&& ~~~GjUserPte.cow)

/-- The space in which a page has the given leaf and content. -/
def withPage (space : UserSpace) (page leaf : U64) (content : U64 → U8) : UserSpace where
  readPte address := if pageBase address = page then leaf else space.readPte address
  mem address := if pageBase address = page then content address else space.mem address

/-- `map_page_copy`: a fresh frame with the page's content, mapped for the user. -/
def mapPageCopy (run : LoadRun) (va : U64) (content : U64 → U8) (prot : U32) :
    Except GjStatus LoadRun :=
  let pa := env.pmmAlloc run.mapped.length
  if pa = 0 then .error .errNomem
  else
    match vmmMapPage env run.mapped.length va pa (prot ||| GjVmmProt.user) with
    | .error status => .error status
    | .ok leaf =>
      .ok { run with space := withPage run.space va leaf content, mapped := run.mapped ++ [va] }

def elfPtLoadHandoffCollide (segVa memsz : U64) : Bool :=
  if memsz = 0 then false
  else if segVa + memsz < segVa then true
  else decide (segVa < gjLdStackVa + 0x1000 ∧ gjLdHandoffVa < segVa + memsz)

/-- The checks that the segment loop makes before it maps. -/
def segmentOk (bias : U64) (ph : Elf64Phdr) : Bool :=
  if ph.memsz < ph.filesz ∨ ph.vaddr + ph.memsz < ph.vaddr then false
  else if ph.vaddr + bias < ph.vaddr ∧ bias ≠ 0 then false
  else !elfPtLoadHandoffCollide (ph.vaddr + bias) ph.memsz

/-- The pages of the page loop, in order. The loop's end is a page start, so its counter does
not wrap. -/
def segmentPages (bias : U64) (ph : Elf64Phdr) : List U64 :=
  let first := pageBase (ph.vaddr + bias)
  let stop := pageBase (ph.vaddr + bias + ph.memsz + 0xfff)
  if first < stop then
    (List.range ((stop.toNat - first.toNat) / gjPageSize)).map fun k =>
      first + BitVec.ofNat 64 (k * gjPageSize)
  else []

/-- `aTmp`: the part of the file that falls on a page, and zeros around it. -/
def pageContent (bias : U64) (ph : Elf64Phdr) (page : U64) : U64 → U8 :=
  let segVa := ph.vaddr + bias
  let start := if page < segVa then segVa else page
  let stop := if page + 0x1000 < segVa + ph.filesz then page + 0x1000 else segVa + ph.filesz
  fun address =>
    if segVa < page + 0x1000 ∧ page < segVa + ph.filesz ∧ address - start < stop - start then
      image.bytes (start - segVa + ph.offset + (address - start))
    else 0

def segmentProt (ph : Elf64Phdr) : U32 :=
  GjVmmProt.read ||| (if ph.flags &&& pfW ≠ 0 then GjVmmProt.write else 0) |||
    (if ph.flags &&& pfX ≠ 0 then GjVmmProt.exec else 0)

/-- The page loop of one segment, with the verdict it leaves the loader with. -/
def mapPages (env : LoadEnv) (image : Image) (bias : U64) (ph : Elf64Phdr) :
    List U64 → LoadRun → GjStatus × LoadRun
  | [], run => (.ok, run)
  | page :: rest, run =>
    match mapPageCopy env run page (pageContent image bias ph page) (segmentProt ph) with
    | .error _ => (.errNomem, run)
    | .ok run => mapPages env image bias ph rest run

def loadSegments (env : LoadEnv) (image : Image) (bias : U64) :
    List Elf64Phdr → LoadRun → GjStatus × LoadRun
  | [], run => (.ok, run)
  | ph :: rest, run =>
    if ph.loads = false then loadSegments env image bias rest run
    else if segmentOk bias ph = false then (.errInval, run)
    else
      match mapPages env image bias ph (segmentPages bias ph) run with
      | (.ok, run) => loadSegments env image bias rest { run with loaded := run.loaded + 1 }
      | failed => failed

/-! ### Relocations -/

def dtNull : U64 := 0
def dtPltrelsz : U64 := 2
def dtStrtab : U64 := 5
def dtSymtab : U64 := 6
def dtRela : U64 := 7
def dtRelasz : U64 := 8
def dtRelaent : U64 := 9
def dtSyment : U64 := 11
def dtJmprel : U64 := 23

def rX866464 : U32 := 1
def rX8664Copy : U32 := 5
def rX8664GlobDat : U32 := 6
def rX8664JumpSlot : U32 := 7
def rX8664Relative : U32 := 8
def rX8664Dtpmod64 : U32 := 16
def rX8664Dtpoff64 : U32 := 17
def rX8664Tpoff64 : U32 := 18
def rX8664Irelative : U32 := 37

def shnUndef : U16 := 0
def shnAbs : U16 := 0xfff1

def vaToFileOffLoop (va : U64) : List Elf64Phdr → Option U64
  | [] => none
  | ph :: rest =>
    if ph.type ≠ ptLoad then vaToFileOffLoop va rest
    else if ph.vaddr ≤ va ∧ va < ph.vaddr + ph.filesz then some (ph.offset + (va - ph.vaddr))
    else if ph.offset ≤ va ∧ va < ph.offset + ph.filesz ∧ ph.vaddr = 0 then some va
    else vaToFileOffLoop va rest

/-- `va_to_file_off`, with `~0` for an address that has no place in the file. -/
def vaToFileOff (va : U64) : U64 :=
  match vaToFileOffLoop va image.phdrs with
  | some off => off
  | none => if va < image.cb then va else ~~~0

/-- `sym_name_eq` of the name at a place of the image with a name of the kernel's own. -/
def symNameEq (image : Image) : U64 → List U8 → Bool
  | off, [] => image.bytes off == 0
  | off, char :: rest => image.bytes off == char && symNameEq image (off + 1) rest

def gALdExports : List (List U8 × U64) :=
  [("gj_ld_marker".toList.map fun c => BitVec.ofNat 8 c.toNat, 0x00474a4c444d4b52),
    ("gj_abs_val".toList.map fun c => BitVec.ofNat 8 c.toNat, 0x00000000c0ffee42),
    ("puts".toList.map fun c => BitVec.ofNat 8 c.toNat, 0x0000000060001000)]

def elfLookupExport (name : U64) : U64 :=
  if image.bytes name = 0 then 0
  else
    match gALdExports.find? fun entry => symNameEq image name entry.1 with
    | some entry => entry.2
    | none => 0

/-- What `elf_apply_relocs` takes from the dynamic section. -/
structure DynTags where
  rela : U64 := 0
  relaSz : U64 := 0
  relaEnt : U64 := 24
  jmprel : U64 := 0
  pltrelsz : U64 := 0
  symtab : U64 := 0
  strtab : U64 := 0
  syment : U64 := 24
  deriving DecidableEq

def DynTags.set (tags : DynTags) (tag val : U64) : DynTags :=
  if tag = dtRela then { tags with rela := val }
  else if tag = dtRelasz then { tags with relaSz := val }
  else if tag = dtRelaent then { tags with relaEnt := val }
  else if tag = dtJmprel then { tags with jmprel := val }
  else if tag = dtPltrelsz then { tags with pltrelsz := val }
  else if tag = dtSymtab then { tags with symtab := val }
  else if tag = dtStrtab then { tags with strtab := val }
  else if tag = dtSyment then { tags with syment := val }
  else tags

def dynLoop (image : Image) (stop : U64) : Nat → U64 → DynTags → DynTags
  | 0, _, tags => tags
  | fuel + 1, off, tags =>
    if stop < off + 16 then tags
    else if image.u64 off = dtNull then tags
    else dynLoop image stop fuel (off + 16) (tags.set (image.u64 off) (image.u64 (off + 8)))

/-- The dynamic section that the loader uses: offset and size of the first that has any. -/
def dynSection : U64 × U64 :=
  match image.phdrs.find? fun ph => ph.type == ptDynamic && decide (0 < ph.filesz) with
  | some ph => (ph.offset, ph.filesz)
  | none => (0, 0)

/-- The tags of the image, or `none` where `elf_apply_relocs` returns before it reads one. The
loop runs over at most one tag for each sixteen bytes of the file and one that wraps. -/
def dynTags : Option DynTags :=
  let (off, size) := dynSection image
  if off = 0 ∨ image.cb < off + size then none
  else some (dynLoop image (off + size) ((off + size).toNat / 16 + 2) off {})

def elfResolveSym (image : Image) (bias : U64) (tags : DynTags) (index : U32) : Option U64 :=
  if tags.syment < 24 then none
  else if vaToFileOff image tags.symtab = ~~~0 then none
  else
    let file := vaToFileOff image tags.symtab + index.setWidth 64 * tags.syment
    if image.cb < file + 24 then none
    else
      let sym := image.symAt file
      if sym.shndx ≠ shnUndef ∧ sym.shndx ≠ shnAbs then some (sym.value + bias)
      else if sym.shndx = shnAbs then some sym.value
      else if tags.strtab = 0 then none
      else
        let name := vaToFileOff image (tags.strtab + sym.name.setWidth 64)
        if name = ~~~0 ∨ image.cb ≤ name then none
        else
          match env.elfLookupInSos name with
          | some value => some value
          | none =>
            if elfLookupExport image name ≠ 0 then some (elfLookupExport image name)
            else if (sym.info >>> 4) &&& 0xf = 2 then some 0
            else none

def Elf64Rela.type (rela : Elf64Rela) : U32 := rela.info.setWidth 32

def Elf64Rela.sym (rela : Elf64Rela) : U32 := (rela.info >>> 32).setWidth 32

/-- The word that an entry puts at its place, or `none` for an entry that is passed over. -/
def relaWord (image : Image) (bias : U64) (tags : DynTags) (rela : Elf64Rela) : Option U64 :=
  if rela.type = rX8664Relative then some (rela.addend + bias)
  else if rela.type = rX8664Dtpmod64 then some 1
  else if rela.type = rX8664Dtpoff64 ∨ rela.type = rX8664Tpoff64 then some rela.addend
  else if rela.type = rX8664Irelative then some (rela.addend + bias)
  else if rela.type = rX8664GlobDat ∨ rela.type = rX8664JumpSlot ∨ rela.type = rX866464 then
    if tags.symtab = 0 then none
    else (elfResolveSym env image bias tags rela.sym).map (· + rela.addend)
  else if rela.type = rX8664Copy then
    if tags.symtab = 0 then none else elfResolveSym env image bias tags rela.sym
  else none

/-- The entries of one table: those of `aTabs[t]`, unless the loader skips the table. -/
def relaTable (ent tab size : U64) : List Elf64Rela :=
  if tab = 0 ∨ size = 0 ∨ ent < 24 then []
  else if vaToFileOff image tab = ~~~0 ∨ image.cb < vaToFileOff image tab + size then []
  else
    (List.range (size / ent).toNat).map fun j =>
      image.relaAt (vaToFileOff image tab + BitVec.ofNat 64 j * ent)

/-- The entries of both tables in the order in which they are applied. -/
def relaEntries (tags : DynTags) : List Elf64Rela :=
  relaTable image tags.relaEnt tags.rela tags.relaSz ++
    relaTable image tags.relaEnt tags.jmprel tags.pltrelsz

def wordBytes (word : U64) (index : Nat) : U8 := (word >>> (8 * index)).setWidth 8

def store (mem : U64 → U8) (addr cb : U64) (bytes : Nat → U8) : U64 → U8 :=
  fun address => if address - addr < cb then bytes (address - addr).toNat else mem address

def LoadRun.put (run : LoadRun) (dst word : U64) (checked : Bool) : LoadRun :=
  { run with
    space := { run.space with mem := store run.space.mem dst 8 (wordBytes word) }
    stores := run.stores ++ [{ dst, word, checked }] }

/-- `user_range_ok` sends a copy to the checked one, and a range that it rejects to `memcpy`. -/
def copyOutGranted (space : UserSpace) (bounce addr cb : U64) : Bool :=
  if userRangeOk addr cb then decide ((copyToUser space addr bounce cb).status = .ok)
  else true

/-- `elf_write_u64_user`: outside the window, and where the checked copy fails, the word is
stored through the plain pointer. -/
def elfWriteU64User (run : LoadRun) (dst word : U64) : LoadRun :=
  if userRangeOk dst 8 then
    if copyOutGranted run.space env.bounce dst 8 then run.put dst word true
    else run.put dst word false
  else run.put dst word false

def applyRela (image : Image) (bias : U64) (tags : DynTags) (run : LoadRun)
    (rela : Elf64Rela) : LoadRun :=
  match relaWord env image bias tags rela with
  | some word => elfWriteU64User env run (rela.offset + bias) word
  | none => run

def elfApplyRelocs (image : Image) (bias : U64) (run : LoadRun) : LoadRun :=
  match dynTags image with
  | none => run
  | some tags => (relaEntries image tags).foldl (applyRela env image bias tags) run

/-! ### The load -/

/-- The target process: its address space and whether `process_as_ensure` could give it one. -/
structure LoadTarget where
  asEnsure : Bool
  space : UserSpace

/-- The bias that the loader settles on. -/
def chosenBias (biasReq : U64) (info : GjElfInfo) : U64 :=
  if biasReq ≠ 0 then biasReq
  else if info.type = etDyn ∧ info.loadMin < 0x100000 then gjElfDynBias
  else 0

/-- `info` after the bias is settled. -/
def GjElfInfo.place (info : GjElfInfo) (bias : U64) : GjElfInfo :=
  { info with
    bias
    entry := info.entry + bias
    loadMin := info.loadMin + bias
    loadMax := info.loadMax + bias
    base := if info.type = etDyn then bias else info.loadMin + bias }

/-- The status of a load, the run it made in the target's space, and `*pInfo` on success. -/
structure LoadOutcome where
  status : GjStatus
  run : LoadRun
  info : Option GjElfInfo

def LoadRun.start (space : UserSpace) : LoadRun :=
  { space, mapped := [], stores := [], loaded := 0 }

/-- The part of `elf_load_image_bias` after the probe has accepted. -/
def elfLoadProbed (target : LoadTarget) (image : Image) (info : GjElfInfo)
    (bias : U64) : LoadOutcome :=
  let run := LoadRun.start target.space
  if target.asEnsure = false then { status := .errNomem, run, info := none }
  else
    match loadSegments env image bias image.phdrs run with
    | (.ok, run) =>
      if run.loaded = 0 then { status := .errInval, run, info := none }
      else
        { status := .ok
          run := elfApplyRelocs env image bias run
          info := some { info.place bias with phdrs := run.loaded } }
    | (status, run) => { status, run, info := none }

/-- `elf_load_image_bias` for a process that is there. -/
def elfLoadImageBias (target : LoadTarget) (pImage : Option Image) (biasReq : U64) : LoadOutcome :=
  match elfFillProbe pImage with
  | .error status => { status, run := .start target.space, info := none }
  | .ok (image, info) => elfLoadProbed env target image info (chosenBias biasReq info)

end GreenJade.Proc

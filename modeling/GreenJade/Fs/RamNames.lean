import GreenJade.Fs.RamObjects

/-! Owns the calls of `vfs_ram.c` that work on names: the files that are there at the start, mounts,
opening and making files and directories, links, removal and renaming. It does not own what is in
the files. -/

namespace GreenJade.Fs

namespace Vfs

/-! ### Slots of files -/

variable (st : Vfs)

/-- A slot is filled with a new file or directory; its data stay as they are. -/
def newFile (k : Fin vfsMaxFiles) (kind : VfsKind) (isDir : Bool) (mode nlink : U32)
    (path : Path) : Vfs :=
  (st.setFile k
    { st.files k with
      used := true, kind, isDir, mode, nlink, path := pathCopy path, cbData := 0
      serial := st.made }).make

def seedData (old : Fin vfsMaxData → U8) (text : Path) : Fin vfsMaxData → U8 :=
  fun j => if j.val + 1 < vfsMaxData then (text[j.val]?).getD (old j) else old j

def seedFile (path text : Path) : Vfs :=
  if path = [] then st
  else
    match st.freeFile with
    | none => st
    | some k =>
      (st.setFile k
        { st.files k with
          used := true, kind := .ram, isDir := false, mode := 0o100644, nlink := 1
          path := pathCopy (normOrCopy path), data := seedData (st.files k).data text
          cbData := BitVec.ofNat 32 (min text.length (vfsMaxData - 1)), serial := st.made }).make

def seeds : List (String × String) :=
  [("/etc/hostname", "greenjade\n"),
   ("/etc/os-release",
    "NAME=\"GreenJade\"\nID=greenjade\nVERSION_ID=\"0.1\"\nPRETTY_NAME=\"GreenJade 0.1\"\n" ++
    "HOME_URL=\"https://greenjade.local\"\n"),
   ("/etc/issue", "GreenJade \\n \\l\n"),
   ("/etc/passwd", "root:x:0:0:root:/root:/bin/sh\n"),
   ("/proc/version", "Linux version 6.0.0-greenjade\n"),
   ("/proc/self/maps", ""),
   ("/proc/self/cmdline", "init"),
   ("/proc/cpuinfo", "processor\t: 0\nvendor_id\t: GreenJade\n"),
   ("/proc/meminfo", "MemTotal:        1048576 kB\n"),
   ("/bin/greenjade", "#!/bin/sh\necho GreenJade\n"),
   ("/bin/sh", "#!/bin/sh\n# GreenJade shell placeholder\n"),
   ("/lib/ld-gj.so.1", "# ld-gj scaffold placeholder (ELF staged by smoke)\n"),
   ("/lib/libc.so.6", "# GreenJade libc placeholder (not glibc)\n"),
   ("/usr/lib/libc.so.6", "# GreenJade libc placeholder\n"),
   ("/lib/libgj-so.so.1", "# SO map placeholder (ELF staged by smoke)\n"),
   ("/lib/libgj-gnu.so.1", "# GNU-hash SO placeholder (ELF staged by smoke)\n"),
   ("/usr/lib/libgj-so.so.1", "# SO map placeholder\n"),
   ("/usr/lib/libgj-gnu.so.1", "# GNU-hash SO placeholder\n"),
   ("/tmp/fanotify", ""),
   ("/proc/self/auxv", ""),
   ("/proc/self/execfn", "/bin/greenjade"),
   ("/tmp/.keep", ""),
   ("/var/tmp/.keep", ""),
   ("/usr/lib/os-release", "NAME=\"GreenJade\"\nID=greenjade\nVERSION_ID=\"0.1\"\n")]

def vfsRamInit (blk scsi : Disk) : Vfs :=
  seeds.foldl (fun st seed => st.seedFile (bytesOf seed.1) (bytesOf seed.2)) (cleared blk scsi)

/-- A device gets a file: its other fields stay as they are. -/
def mountFile (k : Fin vfsMaxFiles) (kind : VfsKind) (path : Path) : Vfs :=
  (st.setFile k
    { st.files k with
      used := true, kind, path := pathCopy path, cbData := 0, serial := st.made }).make

def vfsRamMountBlk : Vfs :=
  if st.blkMounted ∨ st.blk.ready = false then st
  else
    match st.freeFile with
    | none => st
    | some k => { st.mountFile k .blk (bytesOf "/dev/vda") with blkMounted := true }

/-- `vfs_ram_mount_scsi`, with what the device says of its last block and its block length. -/
def vfsRamMountScsi (capacity : Option (U32 × U32)) : Vfs :=
  if st.scsiMounted ∨ st.scsi.ready = false then st
  else
    match capacity with
    | none => st
    | some (last, blockLen) =>
      if blockLen.toNat ≠ vfsSector then st
      else
        let st := { st with scsiCapBytes := (last.setWidth 64 + 1) * BitVec.ofNat 64 vfsSector }
        match st.freeFile with
        | none => st
        | some k => { st.mountFile k .scsi (bytesOf "/dev/sda") with scsiMounted := true }

/-! ### Opening and making -/

/-- The directories that have a name without having been made. -/
def markerDirs : List Path :=
  ["/", "/tmp", "/proc", "/dev", "/bin", "/etc", "/lib", "/usr", "/var", "/var/tmp"].map bytesOf

/-- A descriptor for a file. The end of a pipe that it may have been stays as it is. -/
def openFile (k : Fin vfsMaxFiles) : Int × Vfs :=
  match st.freeFd with
  | none => (-24, st)
  | some fd =>
    (fd.val, st.setFd fd
      { st.fds fd with
        used := true, kind := (st.files k).kind, file := BitVec.ofNat 32 k.val, off := 0
        serial := (st.files k).serial })

def vfsRamOpen (path : Path) (create : Bool) : Int × Vfs :=
  if path = [] then (-14, st)
  else
    let resolved := st.resolveOrNorm path
    match st.findFile resolved with
    | some k => st.openFile k
    | none =>
      if markerDirs.any fun dir => pathEq resolved dir then
        match st.freeFile with
        | none => (-28, st)
        | some k => (st.newFile k .ram true 0o040755 2 resolved).openFile k
      else if create = false then (-2, st)
      else
        match st.freeFile with
        | none => (-28, st)
        | some k => (st.newFile k .ram false 0o100644 1 resolved).openFile k

def vfsRamMkdir (path : Path) (mode : U32) : Int × Vfs :=
  if path = [] then (-14, st)
  else
    let norm := normOrCopy path
    if (st.findFile norm).isSome || (st.findSymlink norm).isSome then (-17, st)
    else
      let perm := if mode &&& 0o7777 = 0 then 0o755 else mode &&& 0o7777
      match st.freeFile with
      | none => (-28, st)
      | some k => (0, st.newFile k .ram true (0o040000 ||| perm) 2 norm)

def vfsRamSymlink (target link : Path) : Int × Vfs :=
  if link = [] ∨ target = [] then (-14, st)
  else
    let norm := normOrCopy link
    if (st.findFile norm).isSome then (-17, st)
    else
      match st.findSymlink norm with
      | some s => (0, st.setSym s { st.syms s with target := pathCopy target })
      | none =>
        match firstFree fun s => (st.syms s).used with
        | none => (-28, st)
        | some s =>
          (0, st.setSym s { used := true, link := pathCopy norm, target := pathCopy target })

/-- `vfs_ram_utimens`: a file that is not there is made. -/
def vfsRamUtimens (path : Path) : Int × Vfs :=
  if path = [] then (-14, st)
  else
    let resolved := st.resolveOrNorm path
    if pathEq resolved (bytesOf "/") || pathEq resolved (bytesOf "/tmp") ||
        pathEq resolved (bytesOf "/proc/self/exe") then (0, st)
    else if (st.findSymlink resolved).isSome || (st.findFile resolved).isSome then (0, st)
    else
      match st.vfsRamOpen resolved true with
      | (fd, st) => if fd < 0 then (fd, st) else (0, (st.vfsRamClose fd).2)

/-- `vfs_ram_link`: the new name gets a copy. -/
def vfsRamLink (old new : Path) : Int × Vfs :=
  if old = [] ∨ new = [] then (-14, st)
  else
    let newNorm := normOrCopy new
    match st.findFile (st.resolveOrNorm old) with
    | none => (-2, st)
    | some iOld =>
      if (st.files iOld).kind ≠ .ram then (-1, st)
      else if (st.files iOld).isDir then (-21, st)
      else if (st.findFile newNorm).isSome || (st.findSymlink newNorm).isSome then (-17, st)
      else
        match st.freeFile with
        | none => (-28, st)
        | some iNew =>
          let nlink := (st.files iOld).nlink + 1
          let copy := { st.files iOld with
            path := pathCopy newNorm, nlink, serial := st.made }
          (0, ((st.setFile iNew copy).setFile iOld { st.files iOld with nlink }).make)

/-! ### Removing and renaming -/

def vfsRamUnlink (path : Path) : Int × Vfs :=
  if path = [] then (-14, st)
  else
    let norm := normOrCopy path
    match st.findSymlink norm with
    | some s => (0, st.setSym s .zero)
    | none =>
      match st.findFile norm with
      | none => (-2, st)
      | some k =>
        if (st.files k).kind ≠ .ram then (-1, st)
        else if (st.files k).isDir then (-21, st)
        else (0, st.setFile k .zero)

/-- A file or, with links, a symlink is right below a directory. -/
def hasChild (dir : Path) (links : Bool) : Bool :=
  ((List.finRange vfsMaxFiles).any fun k =>
    (st.files k).used && pathIsChildOf dir (st.files k).path) ||
  (links && (List.finRange vfsMaxSymlinks).any fun s =>
    (st.syms s).used && pathIsChildOf dir (st.syms s).link)

def vfsRamRmdir (path : Path) : Int × Vfs :=
  if path = [] then (-14, st)
  else
    let norm := normOrCopy path
    if ["/", "/tmp", "/proc", "/dev"].any fun dir => pathEq norm (bytesOf dir) then (-16, st)
    else
      match st.findFile norm with
      | none => (-2, st)
      | some k =>
        if (st.files k).kind ≠ .ram ∨ (st.files k).isDir = false then (-20, st)
        else if (st.files k).cbData ≠ 0 then (-39, st)
        else if st.hasChild norm true then (-39, st)
        else (0, st.setFile k .zero)

/-- A symlink at a name goes. -/
def dropSymlink (path : Path) : Vfs :=
  match st.findSymlink path with
  | none => st
  | some s => st.setSym s .zero

/-- Another symlink at the new name goes. -/
def dropClash (s : Fin vfsMaxSymlinks) (new : Path) : Vfs :=
  match st.findSymlink new with
  | some clash => if clash ≠ s then st.setSym clash .zero else st
  | none => st

def renameSymlink (s : Fin vfsMaxSymlinks) (new : Path) : Int × Vfs :=
  let st := st.dropClash s new
  match st.findFile new with
  | some k =>
    if (st.files k).isDir then (-21, st)
    else
      let st := st.setFile k .zero
      (0, st.setSym s { st.syms s with link := pathCopy new })
  | none => (0, st.setSym s { st.syms s with link := pathCopy new })

/-- The end of `vfs_ram_rename`: a symlink at the new name goes, and the file gets the name. -/
def renameFile (k : Fin vfsMaxFiles) (new : Path) : Vfs :=
  let st := st.dropSymlink new
  st.setFile k { st.files k with path := pathCopy new }

def vfsRamRename (old new : Path) : Int × Vfs :=
  if old = [] ∨ new = [] then (-14, st)
  else
    let oldNorm := normOrCopy old
    let newNorm := normOrCopy new
    if pathEq oldNorm newNorm then (0, st)
    else
      match st.findSymlink oldNorm with
      | some s => st.renameSymlink s newNorm
      | none =>
        match st.findFile oldNorm with
        | none => (-2, st)
        | some k =>
          if (st.files k).kind ≠ .ram then (-1, st)
          else
            match st.findFile newNorm with
            | none => (0, st.renameFile k newNorm)
            | some clash =>
              if clash = k then (0, st.renameFile k newNorm)
              else if (st.files clash).isDir && !(st.files k).isDir then (-21, st)
              else if !(st.files clash).isDir && (st.files k).isDir then (-20, st)
              else if (st.files clash).isDir && st.hasChild (st.files clash).path false then
                (-39, st)
              else (0, (st.setFile clash .zero).renameFile k newNorm)

/-! ### Modes -/

def newPerm (old mode : U32) : U32 := (old &&& ~~~0o7777) ||| (mode &&& 0o7777)

def vfsRamChmod (path : Path) (mode : U32) : Int × Vfs :=
  if path = [] then (-14, st)
  else
    match st.findFile (st.resolveOrNorm path) with
    | none => (-2, st)
    | some k =>
      if (st.files k).kind ≠ .ram then (-1, st)
      else
        let changed := newPerm (st.files k).mode mode
        let mode :=
          if (st.files k).isDir then (changed &&& 0o7777) ||| 0o040000
          else if changed &&& 0o170000 = 0 then changed ||| 0o100000
          else changed
        (0, st.setFile k { st.files k with mode })

def vfsRamFchmod (fd : Int) (mode : U32) : Int × Vfs :=
  match st.fdOk fd with
  | none => (-9, st)
  | some i =>
    match slotOf vfsMaxFiles (st.fds i).file with
    | none => (-22, st)
    | some k =>
      if (st.fds i).kind ≠ .ram then (-22, st)
      else
        (0, st.setFile k
          { st.files k with
            mode := newPerm (st.files k).mode mode
            isDir := (st.files k).isDir || decide (mode &&& 0o040000 ≠ 0) })

def vfsRamMarkDir (fd : Int) : Int × Vfs :=
  match st.fdOk fd with
  | none => (-9, st)
  | some i =>
    match slotOf vfsMaxFiles (st.fds i).file with
    | none => (-22, st)
    | some k =>
      if (st.fds i).kind ≠ .ram then (-22, st)
      else (0, st.setFile k { st.files k with isDir := true, mode := 0o040755, cbData := 0 })

end Vfs

end GreenJade.Fs

import GreenJade.Base
import Mathlib.Data.List.FinRange
import Mathlib.Logic.Function.Basic

/-! Owns the tables of `vfs_ram.c`: files, descriptors, pipes and the other objects that a
descriptor can stand for, and the searches for a free place in them. The functions of the file work
on one value of `Vfs`. It does not own the soft counters and logs, which no result depends on. -/

namespace GreenJade.Fs

open Function

/-! ### Sizes -/

abbrev vfsMaxFiles : Nat := 64
abbrev vfsMaxFds : Nat := 96
abbrev vfsMaxPath : Nat := 128
abbrev vfsMaxData : Nat := 32768
abbrev vfsMaxPipes : Nat := 16
abbrev vfsPipeBuf : Nat := 2048
abbrev vfsMaxSymlinks : Nat := 8
abbrev vfsMaxEventfd : Nat := 8
abbrev vfsMaxEpoll : Nat := 4
abbrev vfsMaxTimerfd : Nat := 4
abbrev vfsMaxSignalfd : Nat := 4
abbrev vfsMaxInotify : Nat := 4
abbrev vfsInotifyWatch : Nat := 8
abbrev vfsInotifyQ : Nat := 8

/-- `GJ_VIRTIO_BLK_SECTOR` and `VFS_SCSI_SEC`. -/
abbrev vfsSector : Nat := 512

/-! ### Records -/

/-- A C string, without its NUL. -/
abbrev Path := List U8

inductive VfsKind
  | ram
  | blk
  | scsi
  | pipe
  | eventfd
  | epoll
  | timerfd
  | signalfd
  | pidfd
  | inotify
  | iouring
  deriving DecidableEq, Repr

/-- `struct vfs_file`. The last field is no field of the source: it numbers what the slot has been
given to. -/
structure VfsFile where
  used : Bool
  kind : VfsKind
  isDir : Bool
  cbData : U32
  mode : U32
  nlink : U32
  path : Path
  data : Fin vfsMaxData → U8
  serial : Nat

/-- `struct vfs_fd`, with the number of what it was opened on. -/
structure VfsFd where
  used : Bool
  kind : VfsKind
  fdEnd : Fin 2
  file : U32
  off : U64
  serial : Nat
  deriving DecidableEq

/-- `struct vfs_pipe_pair`: a ring is written by its end and read by the other. -/
structure PipePair where
  used : Bool
  isOpen : Fin 2 → Bool
  len : Fin 2 → U32
  head : Fin 2 → U32
  ring : Fin 2 → Fin vfsPipeBuf → U8
  serial : Nat

structure VfsSymlink where
  used : Bool
  link : Path
  target : Path
  deriving DecidableEq

structure VfsEvent where
  used : Bool
  cnt : U64
  serial : Nat
  deriving DecidableEq

structure EpollWatch where
  fd : Int
  events : U32
  data : U64
  deriving DecidableEq

/-- `struct vfs_epoll`, with the first `u8N` entries of its list. -/
structure VfsEpoll where
  used : Bool
  watch : List EpollWatch
  serial : Nat
  deriving DecidableEq

structure VfsTimer where
  used : Bool
  ticks : U64
  interval : U64
  serial : Nat
  deriving DecidableEq

structure VfsSig where
  used : Bool
  mask : U64
  pending : U64
  serial : Nat
  deriving DecidableEq

structure InotifyWatch where
  wd : U32
  mask : U32
  path : Path
  deriving DecidableEq

structure InotifyEvent where
  wd : U32
  mask : U32
  cookie : U32
  len : U32
  deriving DecidableEq

/-- `struct vfs_inotify`, with the entries in use of its lists. -/
structure VfsInotify where
  used : Bool
  nextWd : U32
  watch : List InotifyWatch
  queue : List InotifyEvent
  serial : Nat
  deriving DecidableEq

/-- A block device as the functions see it: a request for a broken sector fails. -/
structure Disk where
  ready : Bool
  sectors : U64
  data : U64 → Fin vfsSector → U8
  broken : U64 → Bool

def sampleDisk : Disk where
  ready := true
  sectors := 4
  data _ _ := 0
  broken _ := false

/-! ### The state -/

/-- The tables. The last two fields are no part of the source: the objects made so far, and whether
a byte outside of the file table or beyond the data of a file has been read or written. -/
structure Vfs where
  files : Fin vfsMaxFiles → VfsFile
  fds : Fin vfsMaxFds → VfsFd
  pipes : Fin vfsMaxPipes → PipePair
  syms : Fin vfsMaxSymlinks → VfsSymlink
  events : Fin vfsMaxEventfd → VfsEvent
  epolls : Fin vfsMaxEpoll → VfsEpoll
  timers : Fin vfsMaxTimerfd → VfsTimer
  sigs : Fin vfsMaxSignalfd → VfsSig
  inotifys : Fin vfsMaxInotify → VfsInotify
  blkMounted : Bool
  scsiMounted : Bool
  scsiCapBytes : U64
  blk : Disk
  scsi : Disk
  made : Nat
  outside : Bool

/-! ### Cleared records -/

def VfsFile.zero : VfsFile :=
  { used := false, kind := .ram, isDir := false, cbData := 0, mode := 0, nlink := 0, path := []
    data := fun _ => 0, serial := 0 }

def VfsFd.zero : VfsFd :=
  { used := false, kind := .ram, fdEnd := 0, file := 0, off := 0, serial := 0 }

def PipePair.zero : PipePair :=
  { used := false, isOpen := fun _ => false, len := fun _ => 0, head := fun _ => 0
    ring := fun _ _ => 0, serial := 0 }

def VfsSymlink.zero : VfsSymlink := { used := false, link := [], target := [] }

def VfsEpoll.zero : VfsEpoll := { used := false, watch := [], serial := 0 }

def VfsInotify.zero : VfsInotify :=
  { used := false, nextWd := 0, watch := [], queue := [], serial := 0 }

/-- The tables as `vfs_ram_init` clears them, before the files are seeded. -/
def Vfs.cleared (blk scsi : Disk) : Vfs where
  files _ := .zero
  fds _ := .zero
  pipes _ := .zero
  syms _ := .zero
  events _ := { used := false, cnt := 0, serial := 0 }
  epolls _ := .zero
  timers _ := { used := false, ticks := 0, interval := 0, serial := 0 }
  sigs _ := { used := false, mask := 0, pending := 0, serial := 0 }
  inotifys _ := .zero
  blkMounted := false
  scsiMounted := false
  scsiCapBytes := 0
  blk := blk
  scsi := scsi
  made := 0
  outside := false

/-! ### Updates -/

namespace Vfs

variable (st : Vfs)

def setFile (k : Fin vfsMaxFiles) (file : VfsFile) : Vfs :=
  { st with files := update st.files k file }

def setFd (fd : Fin vfsMaxFds) (entry : VfsFd) : Vfs :=
  { st with fds := update st.fds fd entry }

def setPipe (k : Fin vfsMaxPipes) (pair : PipePair) : Vfs :=
  { st with pipes := update st.pipes k pair }

def setSym (k : Fin vfsMaxSymlinks) (sym : VfsSymlink) : Vfs :=
  { st with syms := update st.syms k sym }

def setEvent (k : Fin vfsMaxEventfd) (event : VfsEvent) : Vfs :=
  { st with events := update st.events k event }

def setEpoll (k : Fin vfsMaxEpoll) (epoll : VfsEpoll) : Vfs :=
  { st with epolls := update st.epolls k epoll }

def setTimer (k : Fin vfsMaxTimerfd) (timer : VfsTimer) : Vfs :=
  { st with timers := update st.timers k timer }

def setSig (k : Fin vfsMaxSignalfd) (sig : VfsSig) : Vfs :=
  { st with sigs := update st.sigs k sig }

def setInotify (k : Fin vfsMaxInotify) (inotify : VfsInotify) : Vfs :=
  { st with inotifys := update st.inotifys k inotify }

/-- A new object: the number is taken. -/
def make : Vfs := { st with made := st.made + 1 }

/-! ### Searches -/

def firstFree {n : Nat} (taken : Fin n → Bool) : Option (Fin n) :=
  (List.finRange n).find? fun i => !taken i

def freeFile : Option (Fin vfsMaxFiles) := firstFree fun k => (st.files k).used

def freeFdFrom (start : Nat) : Option (Fin vfsMaxFds) :=
  firstFree fun fd => (st.fds fd).used || decide (fd.val < start)

def freeFd : Option (Fin vfsMaxFds) := st.freeFdFrom 3

theorem toNat_lt_maxFds {fd : Int} (valid : 3 ≤ fd ∧ fd < vfsMaxFds) : fd.toNat < vfsMaxFds := by
  omega

/-- `vfs_ram_fd_ok`, with the descriptor as an index. -/
def fdOk (fd : Int) : Option (Fin vfsMaxFds) :=
  if valid : 3 ≤ fd ∧ fd < vfsMaxFds then
    if (st.fds ⟨fd.toNat, toNat_lt_maxFds valid⟩).used then some ⟨fd.toNat, toNat_lt_maxFds valid⟩
    else none
  else none

def slotOf (n : Nat) (index : U32) : Option (Fin n) :=
  if valid : index.toNat < n then some ⟨index.toNat, valid⟩ else none

end Vfs

theorem Vfs.setFile_files (st : Vfs) (k j : Fin vfsMaxFiles) (file : VfsFile) :
    (st.setFile k file).files j = if j = k then file else st.files j :=
  update_apply ..

theorem Vfs.setFd_fds (st : Vfs) (i j : Fin vfsMaxFds) (entry : VfsFd) :
    (st.setFd i entry).fds j = if j = i then entry else st.fds j :=
  update_apply ..

theorem Vfs.setSym_syms (st : Vfs) (s j : Fin vfsMaxSymlinks) (sym : VfsSymlink) :
    (st.setSym s sym).syms j = if j = s then sym else st.syms j :=
  update_apply ..

theorem Vfs.firstFree_eq_some {n : Nat} {taken : Fin n → Bool} {i : Fin n}
    (found : Vfs.firstFree taken = some i) : taken i = false := by
  have free := List.find?_some found
  rwa [Bool.not_eq_true'] at free

theorem Vfs.freeFdFrom_eq_some {st : Vfs} {start : Nat} {fd : Fin vfsMaxFds}
    (found : st.freeFdFrom start = some fd) : (st.fds fd).used = false ∧ start ≤ fd.val := by
  have free := Vfs.firstFree_eq_some found
  rw [Bool.or_eq_false_iff, decide_eq_false_iff_not, Nat.not_lt] at free
  exact free

theorem Vfs.fdOk_eq_some {st : Vfs} {fd : Int} {i : Fin vfsMaxFds} :
    st.fdOk fd = some i ↔ (i.val : Int) = fd ∧ 3 ≤ fd ∧ (st.fds i).used = true := by
  unfold Vfs.fdOk
  constructor
  · intro found
    split_ifs at found with valid isUsed
    cases found
    exact ⟨by rw [Int.toNat_of_nonneg (by omega)], valid.1, isUsed⟩
  · rintro ⟨rfl, low, isUsed⟩
    have bound : (i.val : Int) < vfsMaxFds := by exact_mod_cast i.isLt
    rw [dif_pos ⟨low, bound⟩]
    have same : (⟨(i.val : Int).toNat, by omega⟩ : Fin vfsMaxFds) = i := by simp
    rw [same, if_pos isUsed]

theorem Vfs.slotOf_eq_some {n : Nat} {index : U32} {k : Fin n} :
    Vfs.slotOf n index = some k ↔ index.toNat = k.val := by
  unfold Vfs.slotOf
  constructor
  · intro found
    split_ifs at found with valid
    rw [← Option.some.inj found]
  · intro same
    simp [same]

end GreenJade.Fs

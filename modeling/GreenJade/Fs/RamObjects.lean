import GreenJade.Fs.RamPaths

/-! Owns the objects of `vfs_ram.c` that are no files, and the life of descriptors: pipes, eventfd,
epoll, timerfd, signalfd, inotify, pidfd and ring descriptors are made here, and descriptors are
duplicated and closed. It does not own reading and writing. -/

namespace GreenJade.Fs

namespace Vfs

variable (st : Vfs)

def openFd (fd : Fin vfsMaxFds) (kind : VfsKind) (fdEnd : Fin 2) (file : U32) (off : U64) : Vfs :=
  st.setFd fd { used := true, kind, fdEnd, file, off, serial := st.made }

/-! ### Pipes -/

/-- `pipe_alloc_pair`, with the two descriptors. -/
def pipeAllocPair : Except Int (Fin vfsMaxFds × Fin vfsMaxFds) × Vfs :=
  match firstFree fun k => (st.pipes k).used with
  | none => (.error (-24), st)
  | some k =>
    match st.freeFd with
    | none => (.error (-24), st)
    | some fd0 =>
      match st.freeFdFrom (fd0.val + 1) with
      | none => (.error (-24), st)
      | some fd1 =>
        let st := st.setPipe k
          { PipePair.zero with used := true, isOpen := fun _ => true, serial := st.made }
        let st := st.openFd fd0 .pipe 0 (BitVec.ofNat 32 k.val) 0
        let st := st.openFd fd1 .pipe 1 (BitVec.ofNat 32 k.val) 0
        (.ok (fd0, fd1), st.make)

def vfsRamPipe2 : Except Int (Fin vfsMaxFds × Fin vfsMaxFds) × Vfs := st.pipeAllocPair

def vfsRamSocketpair (nType : Int) : Except Int (Fin vfsMaxFds × Fin vfsMaxFds) × Vfs :=
  if nType ≠ 1 ∧ nType ≠ 2 then (.error (-22), st) else st.pipeAllocPair

/-! ### Objects with one descriptor -/

/-- An object is made in a slot of its table, and a descriptor for it. -/
def makeObject {n : Nat} (st : Vfs) (taken : Fin n → Bool) (fill : Fin n → Vfs → Vfs)
    (kind : VfsKind) : Int × Vfs :=
  match firstFree taken with
  | none => (-24, st)
  | some k =>
    match st.freeFd with
    | none => (-24, st)
    | some fd => (fd.val, ((fill k st).openFd fd kind 0 (BitVec.ofNat 32 k.val) 0).make)

def vfsRamEventfd2 (init : U32) : Int × Vfs :=
  st.makeObject (fun k => (st.events k).used)
    (fun k st => st.setEvent k { used := true, cnt := init.setWidth 64, serial := st.made })
    .eventfd

def vfsRamEpollCreate1 : Int × Vfs :=
  st.makeObject (fun k => (st.epolls k).used)
    (fun k st => st.setEpoll k { VfsEpoll.zero with used := true, serial := st.made }) .epoll

def vfsRamTimerfdCreate : Int × Vfs :=
  st.makeObject (fun k => (st.timers k).used)
    (fun k st => st.setTimer k { used := true, ticks := 0, interval := 0, serial := st.made })
    .timerfd

def vfsRamInotifyInit1 : Int × Vfs :=
  st.makeObject (fun k => (st.inotifys k).used)
    (fun k st =>
      st.setInotify k { VfsInotify.zero with used := true, nextWd := 1, serial := st.made })
    .inotify

/-- `vfs_ram_signalfd4`: a descriptor that is given gets a new mask. -/
def vfsRamSignalfd4 (fd : Int) (mask : U64) : Int × Vfs :=
  if 0 ≤ fd then
    match st.fdOk fd with
    | none => (-9, st)
    | some i =>
      match slotOf vfsMaxSignalfd (st.fds i).file with
      | none => (-22, st)
      | some k =>
        if (st.fds i).kind ≠ .signalfd then (-22, st)
        else (fd, st.setSig k { st.sigs k with mask })
  else
    st.makeObject (fun k => (st.sigs k).used)
      (fun k st => st.setSig k { used := true, mask, pending := 0, serial := st.made }) .signalfd

/-- `vfs_ram_pidfd_open`: the pid is kept where others keep their offset. -/
def vfsRamPidfdOpen (pid : U32) : Int × Vfs :=
  if pid = 0 then (-22, st)
  else
    match st.freeFd with
    | none => (-24, st)
    | some fd => (fd.val, (st.openFd fd .pidfd 0 0 (pid.setWidth 64)).make)

def vfsRamIoUringOpen (ringSlot : U32) : Int × Vfs :=
  match st.freeFd with
  | none => (-24, st)
  | some fd => (fd.val, (st.openFd fd .iouring 0 ringSlot 0).make)

/-! ### State of objects -/

def vfsRamTimerfdSettime (fd : Int) (value interval : U64) : Int × Vfs :=
  match st.fdOk fd with
  | none => (-9, st)
  | some i =>
    match slotOf vfsMaxTimerfd (st.fds i).file with
    | none => (-22, st)
    | some k =>
      if (st.fds i).kind ≠ .timerfd then (-22, st)
      else
        let ticks := if value ≠ 0 then (st.timers k).ticks + 1 else 0
        (0, st.setTimer k { st.timers k with ticks, interval })

def vfsRamSignalfdInject (signo : U32) : Vfs :=
  if signo = 0 ∨ 64 ≤ signo.toNat then st
  else
    let bit : U64 := 1 <<< signo.toNat
    { st with
      sigs := fun k =>
        if (st.sigs k).used && decide ((st.sigs k).mask &&& bit ≠ 0) then
          { st.sigs k with pending := (st.sigs k).pending ||| bit }
        else st.sigs k }

def inotifyQueue (inotify : VfsInotify) (wd mask : U32) : VfsInotify :=
  if vfsInotifyQ ≤ inotify.queue.length then inotify
  else { inotify with queue := inotify.queue ++ [{ wd, mask, cookie := 0, len := 0 }] }

def firstEvent (mask : U32) : U32 := if mask &&& 1 ≠ 0 then 1 else mask &&& 0x3ff

def vfsRamInotifyAddWatch (fd : Int) (path : Path) (mask : U32) : Int × Vfs :=
  match st.fdOk fd with
  | none => (-9, st)
  | some i =>
    if path = [] then (-9, st)
    else
      match slotOf vfsMaxInotify (st.fds i).file with
      | none => (-22, st)
      | some k =>
        if (st.fds i).kind ≠ .inotify then (-22, st)
        else
          let mask := if mask = 0 then 0x300 else mask
          let inotify := st.inotifys k
          match inotify.watch.findIdx? fun entry => pathEq entry.path path with
          | some at_ =>
            let watch := inotify.watch.modify at_ fun entry => { entry with mask }
            (((inotify.watch.map (·.wd.toInt))[at_]?).getD 0,
              st.setInotify k { inotify with watch })
          | none =>
            if vfsInotifyWatch ≤ inotify.watch.length then (-28, st)
            else
              let wd := inotify.nextWd
              let nextWd := if wd + 1 = 0 then 1 else wd + 1
              let watch := inotify.watch ++ [{ wd, mask, path := pathCopy path }]
              (wd.toInt,
                st.setInotify k (inotifyQueue { inotify with nextWd, watch } wd (firstEvent mask)))

def vfsRamInotifyRmWatch (fd : Int) (wd : U32) : Int × Vfs :=
  match st.fdOk fd with
  | none => (-9, st)
  | some i =>
    match slotOf vfsMaxInotify (st.fds i).file with
    | none => (-22, st)
    | some k =>
      if (st.fds i).kind ≠ .inotify then (-22, st)
      else
        let watch := (st.inotifys k).watch
        match watch.findIdx? fun entry => entry.wd = wd, watch.getLast? with
        | some at_, some last =>
          (0, st.setInotify k { st.inotifys k with watch := (watch.set at_ last).dropLast })
        | _, _ => (-22, st)

/-! ### Descriptors -/

def vfsRamDup (fd : Int) : Int × Vfs :=
  match st.fdOk fd with
  | none => (-9, st)
  | some i =>
    match st.freeFd with
    | none => (-24, st)
    | some j => (j.val, st.setFd j { st.fds i with used := true })

def vfsRamDupFrom (fd min : Int) : Int × Vfs :=
  match st.fdOk fd with
  | none => (-9, st)
  | some i =>
    let min := if min < 3 then 3 else min
    if vfsMaxFds ≤ min then (-9, st)
    else
      match st.freeFdFrom min.toNat with
      | none => (-24, st)
      | some j => (j.val, st.setFd j { st.fds i with used := true })

/-- The last entry is put in the place of one that is taken out. -/
def swapRemove (watch : List EpollWatch) (i : Nat) : List EpollWatch :=
  match watch.getLast? with
  | none => watch
  | some last => (watch.set i last).dropLast

/-- The loop of `epoll_detach_fd` over one list; each turn takes an entry out or goes past it. -/
def detachLoop (fd : Int) : Nat → Nat → List EpollWatch → List EpollWatch
  | 0, _, watch => watch
  | turns + 1, i, watch =>
    match watch[i]? with
    | none => watch
    | some entry =>
      if entry.fd = fd then detachLoop fd turns i (swapRemove watch i)
      else detachLoop fd turns (i + 1) watch

def epollDetachFd (fd : Int) : Vfs :=
  { st with
    epolls := fun k =>
      if (st.epolls k).used then
        { st.epolls k with
          watch := detachLoop fd (st.epolls k).watch.length 0 (st.epolls k).watch }
      else st.epolls k }

/-- An end of a pipe is closed; with the second end the pipe goes. -/
def closeEnd (pair : PipePair) (fdEnd : Fin 2) : PipePair :=
  let isOpen := Function.update pair.isOpen fdEnd false
  { pair with isOpen, used := pair.used && (isOpen 0 || isOpen 1) }

/-- What `vfs_ram_close` does with the object of a descriptor. -/
def releaseObject (entry : VfsFd) : Vfs :=
  match entry.kind with
  | .pipe =>
    match slotOf vfsMaxPipes entry.file with
    | none => st
    | some k =>
      if (st.pipes k).used then st.setPipe k (closeEnd (st.pipes k) entry.fdEnd) else st
  | .eventfd =>
    match slotOf vfsMaxEventfd entry.file with
    | none => st
    | some k => st.setEvent k { st.events k with used := false, cnt := 0 }
  | .epoll =>
    match slotOf vfsMaxEpoll entry.file with
    | none => st
    | some k => st.setEpoll k .zero
  | .timerfd =>
    match slotOf vfsMaxTimerfd entry.file with
    | none => st
    | some k => st.setTimer k { st.timers k with used := false, ticks := 0, interval := 0 }
  | .signalfd =>
    match slotOf vfsMaxSignalfd entry.file with
    | none => st
    | some k => st.setSig k { st.sigs k with used := false, mask := 0, pending := 0 }
  | .inotify =>
    match slotOf vfsMaxInotify entry.file with
    | none => st
    | some k => st.setInotify k .zero
  | _ => st

def vfsRamClose (fd : Int) : Int × Vfs :=
  match st.fdOk fd with
  | none => (-9, st)
  | some i =>
    let entry := st.fds i
    (0, ((st.epollDetachFd fd).releaseObject entry).setFd i { entry with used := false })

def vfsRamDup2 (old new : Int) : Int × Vfs :=
  match st.fdOk old with
  | none => (-9, st)
  | some i =>
    if target : 3 ≤ new ∧ new < vfsMaxFds then
      if old = new then (new, st)
      else
        let j : Fin vfsMaxFds := ⟨new.toNat, toNat_lt_maxFds target⟩
        let st := if (st.fds j).used then (st.vfsRamClose new).2 else st
        (new, st.setFd j { st.fds i with used := true })
    else (-9, st)

end Vfs

end GreenJade.Fs

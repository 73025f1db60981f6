import GreenJade.Fs.RamNames

/-! Owns reading and writing in `vfs_ram.c`. `vfs_ram_read` and `vfs_ram_write` each test for some
kinds of descriptors, and treat what is left as a file. It does not own the user's memory: a read
gives the bytes for the caller's buffer, a write is given the buffer as a function. -/

namespace GreenJade.Fs

open Function

/-- The bytes of a number in memory. -/
def leBytes (count : Nat) (value : U64) : List U8 :=
  (List.range count).map fun i => (value >>> (8 * i)).setWidth 8

/-- The number that eight bytes of memory make. -/
def leValue (buf : Nat → U8) : U64 :=
  (List.range 8).foldl (fun value i => value ||| ((buf i).setWidth 64 <<< (8 * i))) 0

namespace Vfs

/-- What a read returns: the result, the bytes in the caller's buffer, the new tables. -/
abbrev ReadResult := Int × List U8 × Vfs

/-! ### Reading objects -/

variable (st : Vfs)

def readEvent (index : U32) (cb : U64) : ReadResult :=
  match slotOf vfsMaxEventfd index with
  | none => (-22, [], st)
  | some k =>
    if (st.events k).used = false ∨ cb < 8 then (-22, [], st)
    else if (st.events k).cnt = 0 then (-11, [], st)
    else (8, leBytes 8 (st.events k).cnt, st.setEvent k { st.events k with cnt := 0 })

def readTimer (index : U32) (cb : U64) : ReadResult :=
  match slotOf vfsMaxTimerfd index with
  | none => (-22, [], st)
  | some k =>
    if (st.timers k).used = false ∨ cb < 8 then (-22, [], st)
    else if (st.timers k).ticks = 0 then (-11, [], st)
    else (8, leBytes 8 (st.timers k).ticks, st.setTimer k { st.timers k with ticks := 0 })

def lowestSignal (pending : U64) : Option Nat :=
  (List.range' 1 63).find? fun sig => decide (pending &&& (1 <<< sig) ≠ 0)

def readSignal (index : U32) (cb : U64) : ReadResult :=
  match slotOf vfsMaxSignalfd index with
  | none => (-22, [], st)
  | some k =>
    if (st.sigs k).used = false ∨ cb < 128 then (-22, [], st)
    else if (st.sigs k).pending = 0 then (-11, [], st)
    else
      match lowestSignal (st.sigs k).pending with
      | none => (128, List.replicate 128 0, st)
      | some sig =>
        let pending := (st.sigs k).pending &&& ~~~((1 : U64) <<< sig)
        (128, leBytes 4 (BitVec.ofNat 64 sig) ++ List.replicate 124 0,
          st.setSig k { st.sigs k with pending })

def eventBytes (event : InotifyEvent) : List U8 :=
  leBytes 4 (event.wd.setWidth 64) ++ leBytes 4 (event.mask.setWidth 64) ++
    leBytes 4 (event.cookie.setWidth 64) ++ leBytes 4 (event.len.setWidth 64)

def readInotify (index : U32) (cb : U64) : ReadResult :=
  match slotOf vfsMaxInotify index with
  | none => (-9, [], st)
  | some k =>
    if (st.inotifys k).used = false then (-9, [], st)
    else if cb < 16 then (-22, [], st)
    else
      let queue := (st.inotifys k).queue
      let count := min queue.length ((cb.setWidth 32 : U32).toNat / 16)
      if count = 0 then (-11, [], st)
      else
        (16 * count, (queue.take count).flatMap eventBytes,
          st.setInotify k { st.inotifys k with queue := queue.drop count })

def drain (ring : Fin 2) : Nat → PipePair → List U8 × PipePair
  | 0, pair => ([], pair)
  | count + 1, pair =>
    let head := pair.head ring
    let byte := pair.ring ring (Fin.ofNat vfsPipeBuf head.toNat)
    let pair := { pair with
      head := update pair.head ring (BitVec.ofNat 32 ((head.toNat + 1) % vfsPipeBuf))
      len := update pair.len ring (pair.len ring - 1) }
    let (bytes, pair) := drain ring count pair
    (byte :: bytes, pair)

def readPipe (entry : VfsFd) (cb : U64) : ReadResult :=
  match slotOf vfsMaxPipes entry.file with
  | none => (-9, [], st)
  | some k =>
    if (st.pipes k).used = false then (-9, [], st)
    else
      let peer := 1 - entry.fdEnd
      let len := (st.pipes k).len peer
      if len = 0 then (if (st.pipes k).isOpen peer then -11 else 0, [], st)
      else
        let want := min (cb.setWidth 32 : U32).toNat len.toNat
        let (bytes, pair) := drain peer want (st.pipes k)
        (want, bytes, st.setPipe k pair)

/-! ### Devices -/

/-- The loop over sectors of a read; a turn copies one byte at least. -/
def diskRead (disk : Disk) (place : U64 → U64) (want : Nat) :
    Nat → Nat → U64 → List U8 → Int × List U8 × U64
  | 0, done, off, bytes => (done, bytes, off)
  | turns + 1, done, off, bytes =>
    if done < want then
      let sector := place (off / BitVec.ofNat 64 vfsSector)
      let start := off.toNat % vfsSector
      if disk.broken sector then (if 0 < done then done else -5, bytes, off)
      else
        let copy := min (vfsSector - start) (want - done)
        let read := (List.range copy).map fun i =>
          disk.data sector (Fin.ofNat vfsSector (start + i))
        diskRead disk place want turns (done + copy) (off + BitVec.ofNat 64 copy) (bytes ++ read)
    else (done, bytes, off)

/-- How much of a request is below the capacity. -/
def diskWant (cap off cb : U64) : Nat :=
  let want := (cb.setWidth 32 : U32)
  if cap - off < want.setWidth 64 then ((cap - off).setWidth 32 : U32).toNat else want.toNat

def readDisk (i : Fin vfsMaxFds) (disk : Disk) (cap : U64) (place : U64 → U64)
    (cb : U64) : ReadResult :=
  if disk.ready = false then (-5, [], st)
  else if cap ≤ (st.fds i).off then (0, [], st)
  else
    let want := diskWant cap (st.fds i).off cb
    let (result, bytes, off) := diskRead disk place want want 0 (st.fds i).off []
    (result, bytes, st.setFd i { st.fds i with off })

def blkCapacity : U64 := st.blk.sectors * BitVec.ofNat 64 vfsSector

/-- The loop over sectors of a write, each read before if it is written in part. -/
def diskWrite (want : Nat) (buf : Nat → U8) : Nat → Nat → U64 → Disk → Int × U64 × Disk
  | 0, done, off, disk => (done, off, disk)
  | turns + 1, done, off, disk =>
    if done < want then
      let sector := off / BitVec.ofNat 64 vfsSector
      let start := off.toNat % vfsSector
      if disk.broken sector then (if 0 < done then done else -5, off, disk)
      else
        let copy := min (vfsSector - start) (want - done)
        let old := if start ≠ 0 ∨ want - done < vfsSector then disk.data sector else fun _ => 0
        let new (j : Fin vfsSector) :=
          if start ≤ j.val ∧ j.val < start + copy then buf (done + (j.val - start)) else old j
        diskWrite want buf turns (done + copy) (off + BitVec.ofNat 64 copy)
          { disk with data := update disk.data sector new }
    else (done, off, disk)

def writeBlk (i : Fin vfsMaxFds) (buf : Nat → U8) (cb : U64) : Int × Vfs :=
  if st.blk.ready = false then (-5, st)
  else if st.blkCapacity ≤ (st.fds i).off then (-28, st)
  else
    let want := diskWant st.blkCapacity (st.fds i).off cb
    let (result, off, blk) := diskWrite want buf want 0 (st.fds i).off st.blk
    (result, { st with blk }.setFd i { st.fds i with off })

/-! ### Files -/

/-- The byte of a file at an index, if it is one of its data. -/
def byteAt (data : Fin vfsMaxData → U8) (index : U32) : Option U8 :=
  (slotOf vfsMaxData index).map data

/-- The loop that copies from a file, and whether it stays within the data. -/
def copyOut (data : Fin vfsMaxData → U8) (start : U32) : Nat → List U8 × Bool
  | 0 => ([], true)
  | count + 1 =>
    let (bytes, inside) := copyOut data start count
    match byteAt data (start + BitVec.ofNat 32 count) with
    | some byte => (bytes ++ [byte], inside)
    | none => (bytes ++ [0], false)

/-- The loop that copies to a file, and whether it stays within the data. -/
def copyIn (start : U32) (buf : Nat → U8) :
    Nat → (Fin vfsMaxData → U8) → (Fin vfsMaxData → U8) × Bool
  | 0, data => (data, true)
  | count + 1, data =>
    let (data, inside) := copyIn start buf count data
    match slotOf vfsMaxData (start + BitVec.ofNat 32 count) with
    | some j => (update data j (buf count), inside)
    | none => (data, false)

/-- The end of `vfs_ram_read`: what no test has caught is read as a file. -/
def readFile (i : Fin vfsMaxFds) (cb : U64) : ReadResult :=
  match slotOf vfsMaxFiles (st.fds i).file with
  | none => (0, [], { st with outside := true })
  | some k =>
    let off := (st.fds i).off
    if (st.files k).cbData.setWidth 64 ≤ off then (0, [], st)
    else
      let avail := (st.files k).cbData - off.setWidth 32
      let count := min (cb.setWidth 32 : U32).toNat avail.toNat
      let (bytes, inside) := copyOut (st.files k).data (off.setWidth 32) count
      let st := st.setFd i { st.fds i with off := off + BitVec.ofNat 64 count }
      (count, bytes, { st with outside := st.outside || !inside })

/-- How many bytes go to a file: the sum is one of 32 bits. -/
def writeCount (off cb : U64) : Option U32 :=
  let start : U32 := off.setWidth 32
  let count : U32 := cb.setWidth 32
  if vfsMaxData < (start + count).toNat then
    if vfsMaxData ≤ start.toNat then none else some (BitVec.ofNat 32 vfsMaxData - start)
  else some count

/-- The end of `vfs_ram_write`. -/
def writeFile (i : Fin vfsMaxFds) (buf : Nat → U8) (cb : U64) : Int × Vfs :=
  match slotOf vfsMaxFiles (st.fds i).file with
  | none => (0, { st with outside := true })
  | some k =>
    let off := (st.fds i).off
    match writeCount off cb with
    | none => (-28, st)
    | some count =>
      let (data, inside) := copyIn (off.setWidth 32) buf count.toNat (st.files k).data
      let off := off + count.setWidth 64
      let cbData := if (st.files k).cbData < (off.setWidth 32 : U32) then off.setWidth 32
        else (st.files k).cbData
      let st := (st.setFile k { st.files k with data, cbData }).setFd i { st.fds i with off }
      (count.toNat, { st with outside := st.outside || !inside })

/-! ### The calls -/

def vfsRamRead (fd : Int) (cb : U64) : ReadResult :=
  match st.fdOk fd with
  | none => (-9, [], st)
  | some i =>
    match (st.fds i).kind with
    | .eventfd => st.readEvent (st.fds i).file cb
    | .timerfd => st.readTimer (st.fds i).file cb
    | .signalfd => st.readSignal (st.fds i).file cb
    | .inotify => st.readInotify (st.fds i).file cb
    | .pipe => st.readPipe (st.fds i) cb
    | .blk => st.readDisk i st.blk st.blkCapacity id cb
    | .scsi => st.readDisk i st.scsi st.scsiCapBytes (fun s => (s.setWidth 32).setWidth 64) cb
    | .ram | .epoll | .pidfd | .iouring => st.readFile i cb

def writeEvent (index : U32) (buf : Nat → U8) (cb : U64) : Int × Vfs :=
  match slotOf vfsMaxEventfd index with
  | none => (-22, st)
  | some k =>
    if (st.events k).used = false ∨ cb < 8 then (-22, st)
    else (8, st.setEvent k { st.events k with cnt := (st.events k).cnt + leValue buf })

def fill (ring : Fin 2) (buf : Nat → U8) : Nat → Nat → PipePair → PipePair
  | 0, _, pair => pair
  | count + 1, done, pair =>
    let pos := Fin.ofNat vfsPipeBuf ((pair.head ring).toNat + (pair.len ring).toNat)
    let pair := { pair with
      ring := update pair.ring ring (update (pair.ring ring) pos (buf done))
      len := update pair.len ring (pair.len ring + 1) }
    fill ring buf count (done + 1) pair

def writePipe (entry : VfsFd) (buf : Nat → U8) (cb : U64) : Int × Vfs :=
  match slotOf vfsMaxPipes entry.file with
  | none => (-9, st)
  | some k =>
    let pair := st.pipes k
    if pair.used = false then (-9, st)
    else if pair.isOpen (1 - entry.fdEnd) = false then (-32, st)
    else
      let space := BitVec.ofNat 32 vfsPipeBuf - pair.len entry.fdEnd
      if space = 0 then (-11, st)
      else
        let want := min (cb.setWidth 32 : U32).toNat space.toNat
        (want, st.setPipe k (fill entry.fdEnd buf want 0 pair))

def vfsRamWrite (fd : Int) (buf : Nat → U8) (cb : U64) : Int × Vfs :=
  match st.fdOk fd with
  | none => (-9, st)
  | some i =>
    match (st.fds i).kind with
    | .eventfd => st.writeEvent (st.fds i).file buf cb
    | .pipe => st.writePipe (st.fds i) buf cb
    | .blk => st.writeBlk i buf cb
    | .ram | .scsi | .epoll | .timerfd | .signalfd | .pidfd | .inotify | .iouring =>
      st.writeFile i buf cb

/-- An offset is put in a descriptor for the time of a call. -/
def setOff (i : Fin vfsMaxFds) (off : U64) : Vfs := st.setFd i { st.fds i with off }

def vfsRamPread (fd : Int) (cb off : U64) : ReadResult :=
  match st.fdOk fd with
  | none => (-9, [], st)
  | some i =>
    let (result, bytes, after) := (st.setOff i off).vfsRamRead fd cb
    (result, bytes, after.setOff i (st.fds i).off)

def vfsRamPwrite (fd : Int) (buf : Nat → U8) (cb off : U64) : Int × Vfs :=
  match st.fdOk fd with
  | none => (-9, st)
  | some i =>
    let (result, after) := (st.setOff i off).vfsRamWrite fd buf cb
    (result, after.setOff i (st.fds i).off)

/-- `vfs_ram_lseek`, with the signed offset. -/
def vfsRamLseek (fd : Int) (off : U64) (whence : Int) : Int × Vfs :=
  match st.fdOk fd with
  | none => (-9, st)
  | some i =>
    let size : U64 :=
      match (st.fds i).kind with
      | .blk => st.blkCapacity
      | .scsi => st.scsiCapBytes
      | _ =>
        match slotOf vfsMaxFiles (st.fds i).file with
        | some k => (st.files k).cbData.setWidth 64
        | none => 0
    let seek (new : U64) : Int × Vfs :=
      if new.toInt < 0 then (-22, st) else (new.toInt, st.setOff i new)
    if whence = 0 then seek off
    else if whence = 1 then seek ((st.fds i).off + off)
    else if whence = 2 then seek (size + off)
    else (-22, st)

/-! ### Lengths -/

/-- The data of a file with a range cleared. -/
def clearRange (data : Fin vfsMaxData → U8) (start stop : Nat) : Fin vfsMaxData → U8 :=
  fun j => if start ≤ j.val ∧ j.val < stop then 0 else data j

def vfsRamFtruncate (fd len : Int) : Int × Vfs :=
  match st.fdOk fd with
  | none => (-9, st)
  | some i =>
    if len < 0 then (-22, st)
    else
      match slotOf vfsMaxFiles (st.fds i).file with
      | none => (-22, st)
      | some k =>
        let file := st.files k
        if (st.fds i).kind ≠ .ram then (-22, st)
        else if file.used = false then (-9, st)
        else if file.isDir then (-21, st)
        else if 2 ^ 32 ≤ len then (-75, st)
        else if vfsMaxData < len then (-28, st)
        else
          let file := { file with
            data := clearRange file.data file.cbData.toNat len.toNat
            cbData := BitVec.ofNat 32 len.toNat }
          let off := if len.toNat < (st.fds i).off.toNat then BitVec.ofNat 64 len.toNat
            else (st.fds i).off
          (0, (st.setFile k file).setFd i { st.fds i with off })

/-- `vfs_ram_fallocate`, which only grows a file. -/
def vfsRamFallocate (fd off len : Int) : Int × Vfs :=
  match st.fdOk fd with
  | none => (-22, st)
  | some i =>
    if off < 0 ∨ len < 0 then (-22, st)
    else if len = 0 then (0, st)
    else
      match slotOf vfsMaxFiles (st.fds i).file with
      | none => (-22, st)
      | some k =>
        let file := st.files k
        if (st.fds i).kind ≠ .ram then (-22, st)
        else if file.used = false then (-9, st)
        else if file.isDir then (-21, st)
        else if 2 ^ 63 ≤ off + len then (-75, st)
        else if off + len ≤ file.cbData.toNat then (0, st)
        else if vfsMaxData < off + len then (-28, st)
        else
          (0, st.setFile k
            { file with
              data := clearRange file.data file.cbData.toNat (off + len).toNat
              cbData := BitVec.ofNat 32 (off + len).toNat })

def vfsRamFallocatePunch (fd off len : Int) : Int × Vfs :=
  match st.fdOk fd with
  | none => (-22, st)
  | some i =>
    if off < 0 ∨ len < 0 then (-22, st)
    else if len = 0 then (0, st)
    else
      match slotOf vfsMaxFiles (st.fds i).file with
      | none => (-22, st)
      | some k =>
        let file := st.files k
        if (st.fds i).kind ≠ .ram then (-22, st)
        else if file.used = false ∨ file.isDir then (if file.isDir then -21 else -9, st)
        else if 2 ^ 63 ≤ off + len then (-75, st)
        else if file.cbData.toNat ≤ off then (0, st)
        else
          let stop := min file.cbData.toNat (off + len).toNat
          (0, st.setFile k { file with data := clearRange file.data off.toNat stop })

def vfsRamTruncate (path : Path) (len : Int) : Int × Vfs :=
  if path = [] then (-14, st)
  else if len < 0 then (-22, st)
  else
    let resolved := st.resolveOrNorm path
    match st.findFile resolved with
    | none => (-2, st)
    | some k =>
      if (st.files k).isDir then (-21, st)
      else
        match st.vfsRamOpen resolved false with
        | (fd, st) =>
          if fd < 0 then (fd, st)
          else
            let (result, st) := st.vfsRamFtruncate fd len
            (result, (st.vfsRamClose fd).2)

/-! ### Transfers -/

def bufOf (bytes : List U8) : Nat → U8 := fun i => (bytes[i]?).getD 0

/-- The loop of `vfs_ram_sendfile`, with the offset reached. -/
def sendLoop (out src : Int) (cb : Nat) : Nat → Nat → U64 → Vfs → Int × U64 × Vfs
  | 0, done, off, st => (done, off, st)
  | turns + 1, done, off, st =>
    if done < cb then
      let (n, bytes, st) := st.vfsRamPread src (BitVec.ofNat 64 (min (cb - done) 512)) off
      if n < 0 then (if done ≠ 0 then done else n, off, st)
      else if n = 0 then (done, off, st)
      else
        let (w, st) := st.vfsRamWrite out (bufOf bytes) (BitVec.ofInt 64 n)
        if w < 0 then (if done ≠ 0 then done else w, off, st)
        else if w < n then (done + w.toNat, off + BitVec.ofInt 64 w, st)
        else sendLoop out src cb turns (done + w.toNat) (off + BitVec.ofInt 64 w) st
    else (done, off, st)

def vfsRamSendfile (out src : Int) (off cb : U64) : Int × U64 × Vfs :=
  if (st.fdOk out).isNone ∨ (st.fdOk src).isNone ∨ cb = 0 then (-9, off, st)
  else sendLoop out src cb.toNat cb.toNat 0 off st

/-- The loop of `vfs_ram_copy_file_range`, with the two offsets reached. -/
def copyLoop (src out : Int) (cb : Nat) : Nat → Nat → U64 → U64 → Vfs → Int × U64 × U64 × Vfs
  | 0, done, offIn, offOut, st => (done, offIn, offOut, st)
  | turns + 1, done, offIn, offOut, st =>
    if done < cb then
      let (n, bytes, st) := st.vfsRamPread src (BitVec.ofNat 64 (min (cb - done) 512)) offIn
      if n < 0 then (if done ≠ 0 then done else n, offIn, offOut, st)
      else if n = 0 then (done, offIn, offOut, st)
      else
        let (w, st) := st.vfsRamPwrite out (bufOf bytes) (BitVec.ofInt 64 n) offOut
        let step := BitVec.ofInt 64 w
        if w < 0 then (if done ≠ 0 then done else w, offIn, offOut, st)
        else if w < n then (done + w.toNat, offIn + step, offOut + step, st)
        else copyLoop src out cb turns (done + w.toNat) (offIn + step) (offOut + step) st
    else (done, offIn, offOut, st)

def vfsRamCopyFileRange (src out : Int) (offIn offOut cb : U64) : Int × U64 × U64 × Vfs :=
  if (st.fdOk out).isNone ∨ (st.fdOk src).isNone ∨ cb = 0 then (-9, offIn, offOut, st)
  else copyLoop src out cb.toNat cb.toNat 0 offIn offOut st

end Vfs

end GreenJade.Fs

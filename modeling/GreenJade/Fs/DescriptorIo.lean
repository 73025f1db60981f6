import GreenJade.Fs.RamRuns

/-! Owns what reading and writing through a descriptor touch. A call is confined if it changes no
file but the one that the descriptor was opened on, if what it returns does not depend on another
file, and if it stays within the tables. Pipes, eventfds and the block device are confined;
`vfs_ram_read` and `vfs_ram_write` test for different kinds, and what they do not test for indexes
the file table with an index of another table. -/

namespace GreenJade.Fs

open Function BitVec

inductive IoCall
  | read (cb : U64)
  | write (cb : U64)
  | pread (cb off : U64)
  | pwrite (cb off : U64)

/-- A write gives the caller no bytes. -/
def Vfs.noBytes (written : Int × Vfs) : Vfs.ReadResult := (written.1, [], written.2)

namespace IoCall

def run (st : Vfs) (fd : Int) (buf : Nat → U8) : IoCall → Vfs.ReadResult
  | read cb => st.vfsRamRead fd cb
  | write cb => Vfs.noBytes (st.vfsRamWrite fd buf cb)
  | pread cb off => st.vfsRamPread fd cb off
  | pwrite cb off => Vfs.noBytes (st.vfsRamPwrite fd buf cb off)

def writes : IoCall → Bool
  | read _ | pread _ _ => false
  | write _ | pwrite _ _ => true

def cb : IoCall → U64
  | read cb | write cb | pread cb _ | pwrite cb _ => cb

/-- The bytes that are asked for, in the 32 bits that the source keeps of them. -/
def count (io : IoCall) : U32 := io.cb.setWidth 32

def start (st : Vfs) (i : Fin vfsMaxFds) : IoCall → U64
  | read _ | write _ => (st.fds i).off
  | pread _ off | pwrite _ off => off

end IoCall

/-- The kinds that `vfs_ram_read` or `vfs_ram_write` tests for. -/
def VfsKind.testedBy (kind : VfsKind) (writes : Bool) : Bool :=
  match kind with
  | .eventfd | .pipe | .blk => true
  | .timerfd | .signalfd | .inotify | .scsi => !writes
  | .ram | .epoll | .pidfd | .iouring => false

namespace Vfs

/-- The file that a descriptor was opened on, if it is one of a RAM file. -/
def OpenedOn (st : Vfs) (i : Fin vfsMaxFds) (k : Fin vfsMaxFiles) : Prop :=
  (st.fds i).kind = .ram ∧ slotOf vfsMaxFiles (st.fds i).file = some k ∧
    (st.files k).serial = (st.fds i).serial

instance (st : Vfs) (i : Fin vfsMaxFds) (k : Fin vfsMaxFiles) : Decidable (st.OpenedOn i k) :=
  inferInstanceAs (Decidable (_ ∧ _ ∧ _))

/-- The tables with other files, and nothing or something reached outside of them. -/
def withFiles (st : Vfs) (files : Fin vfsMaxFiles → VfsFile) (outside : Bool) : Vfs :=
  { st with files, outside }

/-- Files that differ only where a file of the table is that the descriptor was not opened on. -/
structure OtherFiles (st : Vfs) (i : Fin vfsMaxFds) (files : Fin vfsMaxFiles → VfsFile) : Prop where
  own : ∀ k, (st.files k).used = false ∨ st.OpenedOn i k → files k = st.files k
  short : ∀ k, (files k).cbData.toNat ≤ vfsMaxData

/-- A call through a descriptor touches no file but the one that it was opened on. -/
structure Confined (st : Vfs) (fd : Int) (i : Fin vfsMaxFds) (io : IoCall) : Prop where
  kept : ∀ buf k, (st.files k).used = true → ¬st.OpenedOn i k →
    (io.run st fd buf).2.2.files k = st.files k
  blind : ∀ buf files, st.OtherFiles i files →
    (io.run (st.withFiles files st.outside) fd buf).1 = (io.run st fd buf).1 ∧
      (io.run (st.withFiles files st.outside) fd buf).2.1 = (io.run st fd buf).2.1
  inside : ∀ buf, (io.run (st.withFiles st.files false) fd buf).2.2.outside = false

/-- A call on a file of the table moves no byte: a read asks for none or begins where no file has
bytes; a write is refused, or asks for none and begins within the file. -/
def Silent (st : Vfs) (i : Fin vfsMaxFds) (io : IoCall) (k : Fin vfsMaxFiles) : Prop :=
  let start := io.start st i
  let start32 : U32 := start.setWidth 32
  if io.writes then
    (vfsMaxData ≤ start32.toNat ∧ vfsMaxData < (start32 + io.count).toNat) ∨
      (io.count = 0 ∧ start32 ≤ (st.files k).cbData)
  else io.count = 0 ∨ vfsMaxData ≤ start.toNat

/-- A write does not wrap around in the sum of 32 bits that is compared with the size of a file. -/
def NoWrap (st : Vfs) (i : Fin vfsMaxFds) (io : IoCall) : Prop :=
  let start32 : U32 := (io.start st i).setWidth 32
  start32.toNat + io.count.toNat < 2 ^ 32 ∨ vfsMaxData < (start32 + io.count).toNat

/-- The kind is tested for; or the index is one of the file table, a write does not wrap, and a file
in the slot is the one that the descriptor was opened on, or the call moves no byte. -/
def IoProper (st : Vfs) (i : Fin vfsMaxFds) (io : IoCall) : Prop :=
  (st.fds i).kind.testedBy io.writes = true ∨
    ∃ k, slotOf vfsMaxFiles (st.fds i).file = some k ∧
      (io.writes = true → st.NoWrap i io) ∧
      ((st.files k).used = false ∨ st.OpenedOn i k ∨ st.Silent i io k)

/-! ### Objects -/

/-- A call that neither reads nor changes the files. -/
def Apart (call : Vfs → ReadResult) (st : Vfs) : Prop :=
  ∀ files outside, call (st.withFiles files outside) =
    ((call st).1, (call st).2.1, (call st).2.2.withFiles files outside)

variable {st : Vfs} {fd : Int} {i : Fin vfsMaxFds}

theorem readEvent_apart (index : U32) (cb : U64) : Apart (fun st => st.readEvent index cb) st := by
  intro files outside
  unfold readEvent
  dsimp only [withFiles]
  split
  · rfl
  · split_ifs <;> rfl

theorem readTimer_apart (index : U32) (cb : U64) : Apart (fun st => st.readTimer index cb) st := by
  intro files outside
  unfold readTimer
  dsimp only [withFiles]
  split
  · rfl
  · split_ifs <;> rfl

theorem readSignal_apart (index : U32) (cb : U64) :
    Apart (fun st => st.readSignal index cb) st := by
  intro files outside
  unfold readSignal
  dsimp only [withFiles]
  split
  · rfl
  · split_ifs
    · rfl
    · rfl
    · split <;> rfl

theorem readInotify_apart (index : U32) (cb : U64) :
    Apart (fun st => st.readInotify index cb) st := by
  intro files outside
  unfold readInotify
  dsimp only [withFiles]
  split
  · rfl
  · split_ifs <;> rfl

theorem readPipe_apart (entry : VfsFd) (cb : U64) : Apart (fun st => st.readPipe entry cb) st := by
  intro files outside
  unfold readPipe
  dsimp only [withFiles]
  split
  · rfl
  · split_ifs <;> rfl

theorem readDisk_apart (disk : Disk) (cap : U64) (place : U64 → U64) (cb : U64) :
    Apart (fun st => st.readDisk i disk cap place cb) st := by
  intro files outside
  unfold readDisk
  dsimp only [withFiles]
  split_ifs <;> rfl

theorem writeEvent_apart (index : U32) (buf : Nat → U8) (cb : U64) :
    Apart (fun st => noBytes (st.writeEvent index buf cb)) st := by
  intro files outside
  unfold writeEvent noBytes
  dsimp only [withFiles]
  split
  · rfl
  · split_ifs <;> rfl

theorem writePipe_apart (entry : VfsFd) (buf : Nat → U8) (cb : U64) :
    Apart (fun st => noBytes (st.writePipe entry buf cb)) st := by
  intro files outside
  unfold writePipe noBytes
  dsimp only [withFiles]
  split
  · rfl
  · split_ifs <;> rfl

theorem writeBlk_apart (buf : Nat → U8) (cb : U64) :
    Apart (fun st => noBytes (st.writeBlk i buf cb)) st := by
  intro files outside
  have sameBlk : (st.withFiles files outside).blk = st.blk := rfl
  have sameCapacity : (st.withFiles files outside).blkCapacity = st.blkCapacity := rfl
  have sameFds : (st.withFiles files outside).fds = st.fds := rfl
  unfold writeBlk noBytes
  dsimp only
  rw [sameBlk, sameCapacity, sameFds]
  split
  · rfl
  · split <;> rfl

/-! ### The dispatch -/

def move (st : Vfs) (fd : Int) (buf : Nat → U8) (writes : Bool) (cb : U64) : ReadResult :=
  if writes then noBytes (st.vfsRamWrite fd buf cb) else st.vfsRamRead fd cb

/-- What no test has caught. -/
def moveFile (st : Vfs) (i : Fin vfsMaxFds) (buf : Nat → U8) (writes : Bool) (cb : U64) :
    ReadResult :=
  if writes then noBytes (st.writeFile i buf cb) else st.readFile i cb

theorem move_untested {writes : Bool} (isOpen : st.fdOk fd = some i) (buf : Nat → U8) (cb : U64)
    (untested : (st.fds i).kind.testedBy writes = false) :
    st.move fd buf writes cb = st.moveFile i buf writes cb := by
  unfold move moveFile vfsRamRead vfsRamWrite
  rw [isOpen]
  dsimp only
  cases kind : (st.fds i).kind <;> cases writes <;>
    first | rfl | (rw [kind] at untested; cases untested)

theorem move_apart (writes : Bool) (isOpen : st.fdOk fd = some i) (buf : Nat → U8) (cb : U64)
    (tested : (st.fds i).kind.testedBy writes = true) :
    Apart (fun st => st.move fd buf writes cb) st := by
  intro files outside
  have sameOpen : (st.withFiles files outside).fdOk fd = some i := isOpen
  have sameFds : (st.withFiles files outside).fds = st.fds := rfl
  unfold move vfsRamRead vfsRamWrite
  dsimp only
  rw [isOpen, sameOpen]
  dsimp only
  rw [sameFds]
  cases kind : (st.fds i).kind <;> cases writes <;> first
      | (rw [kind] at tested; cases tested; done)
      | exact readEvent_apart _ _ files outside
      | exact readTimer_apart _ _ files outside
      | exact readSignal_apart _ _ files outside
      | exact readInotify_apart _ _ files outside
      | exact readPipe_apart _ _ files outside
      | exact readDisk_apart _ _ _ _ files outside
      | exact writeEvent_apart _ _ _ files outside
      | exact writePipe_apart _ _ _ files outside
      | exact writeBlk_apart _ _ files outside

/-! ### Files -/

theorem copyOut_inside {start : U32} (data : Fin vfsMaxData → U8) :
    ∀ {count : Nat}, start.toNat + count ≤ vfsMaxData → (copyOut data start count).2 = true
  | 0, _ => rfl
  | count + 1, fits => by
    have position : (start + BitVec.ofNat 32 count).toNat < vfsMaxData := by
      rw [toNat_add, toNat_ofNat]
      unfold vfsMaxData at *
      omega
    have before : (copyOut data start count).2 = true := copyOut_inside data (by omega)
    unfold copyOut byteAt slotOf
    rw [dif_pos position]
    exact before

/-- The loop that copies to a file stays within the data exactly if all its positions do. -/
theorem copyIn_inside_iff (start : U32) (buf : Nat → U8) (data : Fin vfsMaxData → U8) :
    ∀ count, (copyIn start buf count data).2 = true ↔
      ∀ j < count, (start + BitVec.ofNat 32 j).toNat < vfsMaxData
  | 0 => by simp [copyIn]
  | count + 1 => by
    have before := copyIn_inside_iff start buf data count
    unfold copyIn slotOf
    by_cases position : (start + BitVec.ofNat 32 count).toNat < vfsMaxData
    · rw [dif_pos position]
      refine before.trans ⟨fun all j below => ?_, fun all j below => all j (by omega)⟩
      rcases Nat.lt_succ_iff_lt_or_eq.mp below with below | rfl
      · exact all j below
      · exact position
    · rw [dif_neg position]
      exact ⟨fun impossible => absurd impossible Bool.false_ne_true,
        fun all => absurd (all count (by omega)) position⟩

/-- What the loop leaves where it does not wrap around. -/
theorem copyIn_data {start : U32} (buf : Nat → U8) (data : Fin vfsMaxData → U8)
    (j : Fin vfsMaxData) : ∀ {count : Nat}, start.toNat + count ≤ vfsMaxData →
      (copyIn start buf count data).1 j =
        if start.toNat ≤ j.val ∧ j.val < start.toNat + count then buf (j.val - start.toNat)
        else data j
  | 0, _ => by
    rw [if_neg (by omega)]
    rfl
  | count + 1, fits => by
    have value : (start + BitVec.ofNat 32 count).toNat = start.toNat + count := by
      rw [toNat_add, toNat_ofNat]
      unfold vfsMaxData at *
      omega
    have position : (start + BitVec.ofNat 32 count).toNat < vfsMaxData := by omega
    have before := copyIn_data buf data j (by omega : start.toNat + count ≤ vfsMaxData)
    unfold copyIn slotOf
    rw [dif_pos position]
    dsimp only
    rw [update_apply, before]
    by_cases here : j.val = start.toNat + count
    · rw [if_pos (Fin.ext (here.trans value.symm)), if_pos (by omega)]
      congr 1
      omega
    · rw [if_neg fun same => here ((congrArg Fin.val same).trans value)]
      congr 1
      exact propext (by omega)

theorem setOff_self (st : Vfs) (i : Fin vfsMaxFds) : st.setOff i (st.fds i).off = st := by
  unfold setOff setFd
  rw [update_eq_self]

def fileCount (cbData : U32) (off cb : U64) : Nat :=
  min (cb.setWidth 32 : U32).toNat (cbData.toNat - off.toNat)

/-- A read of a file that is no longer than its data. -/
theorem readFile_eq {k : Fin vfsMaxFiles} (slot : slotOf vfsMaxFiles (st.fds i).file = some k)
    (short : (st.files k).cbData.toNat ≤ vfsMaxData) (cb : U64) :
    st.readFile i cb = (((fileCount (st.files k).cbData (st.fds i).off cb : Nat) : Int),
        (copyOut (st.files k).data ((st.fds i).off.setWidth 32)
          (fileCount (st.files k).cbData (st.fds i).off cb)).1,
        st.setOff i ((st.fds i).off +
          BitVec.ofNat 64 (fileCount (st.files k).cbData (st.fds i).off cb))) := by
  have wide : ((st.files k).cbData.setWidth 64 : U64).toNat = (st.files k).cbData.toNat := by
    rw [toNat_setWidth]
    exact Nat.mod_eq_of_lt (by omega)
  unfold readFile
  rw [slot]
  dsimp only
  by_cases past : (st.files k).cbData.setWidth 64 ≤ (st.fds i).off
  · have none : fileCount (st.files k).cbData (st.fds i).off cb = 0 := by
      rw [le_def] at past
      unfold fileCount
      omega
    rw [if_pos past, none, BitVec.add_zero, setOff_self]
    rfl
  · rw [le_def] at past
    have low : ((st.fds i).off.setWidth 32 : U32).toNat = (st.fds i).off.toNat := by
      exact Nat.mod_eq_of_lt (by omega)
    have available : ((st.files k).cbData - (st.fds i).off.setWidth 32).toNat =
        (st.files k).cbData.toNat - (st.fds i).off.toNat := by
      rw [toNat_sub_of_le (by rw [le_def]; omega), low]
    have inside : (copyOut (st.files k).data ((st.fds i).off.setWidth 32)
        (fileCount (st.files k).cbData (st.fds i).off cb)).2 = true := by
      apply copyOut_inside _
      unfold fileCount
      omega
    rw [if_neg (by rw [le_def]; exact past), available]
    unfold fileCount at inside ⊢
    rw [inside, Bool.not_true, Bool.or_false]
    rfl

/-- A write that is accepted stays within the data exactly if it does not wrap around. -/
theorem writeCount_inside {off cb : U64} {count : U32} (accepted : writeCount off cb = some count) :
    ((off.setWidth 32 : U32).toNat + (cb.setWidth 32 : U32).toNat < 2 ^ 32 ∨
        vfsMaxData < ((off.setWidth 32 : U32) + cb.setWidth 32).toNat) ↔
      (off.setWidth 32 : U32).toNat + count.toNat ≤ vfsMaxData := by
  rw [toNat_add]
  rcases writeCount_eq_some accepted with ⟨beyond, cut, -⟩ | ⟨short, rfl⟩
  · exact iff_of_true (.inr beyond) cut.le
  · simp only [vfsMaxData] at *
    omega

/-- Where the positions of a copy pass the end of the data, one of them is outside. -/
theorem copyIn_inside_iff_fits (start : U32) (buf : Nat → U8) (data : Fin vfsMaxData → U8)
    (count : U32) : (copyIn start buf count.toNat data).2 = true ↔
      count = 0 ∨ start.toNat + count.toNat ≤ vfsMaxData := by
  rw [copyIn_inside_iff]
  constructor
  · intro all
    by_contra outside
    push Not at outside
    obtain ⟨some, beyond⟩ := outside
    have positive : 0 < count.toNat := by
      rcases Nat.eq_zero_or_pos count.toNat with none | positive
      · exact absurd (eq_of_toNat_eq none) some
      · exact positive
    have first := all 0 positive
    have last := all (vfsMaxData - start.toNat) (by simp at first; omega)
    rw [toNat_add, toNat_ofNat] at last
    simp only [vfsMaxData] at *
    omega
  · rintro (rfl | fits) j below
    · exact absurd below (Nat.not_lt_zero j)
    · rw [toNat_add, toNat_ofNat]
      omega

theorem writeCount_zero {off cb : U64} (accepted : writeCount off cb = some 0) :
    (cb.setWidth 32 : U32) = 0 ∧ (off.setWidth 32 : U32).toNat ≤ vfsMaxData := by
  rcases writeCount_eq_some accepted with ⟨-, -, impossible⟩ | ⟨short, none⟩
  · exact absurd impossible (Nat.lt_irrefl 0)
  · rw [← none] at short
    exact ⟨none.symm, (Nat.mod_eq_of_lt (BitVec.isLt _)).symm.trans_le short⟩

theorem writeCount_asked_zero {off cb : U64} {count : U32}
    (accepted : writeCount off cb = some count) (none : (cb.setWidth 32 : U32) = 0) :
    count = 0 := by
  rcases writeCount_eq_some accepted with ⟨beyond, cut, _⟩ | ⟨-, same⟩
  · rw [none] at beyond
    have past : vfsMaxData < (off.setWidth 32 : U32).toNat :=
      beyond.trans_eq (Nat.mod_eq_of_lt (BitVec.isLt _))
    omega
  · exact same.trans none

theorem writeCount_none_iff (off cb : U64) : writeCount off cb = none ↔
    vfsMaxData ≤ (off.setWidth 32 : U32).toNat ∧
      vfsMaxData < ((off.setWidth 32 : U32) + cb.setWidth 32).toNat := by
  unfold writeCount
  dsimp only
  split_ifs with beyond refused
  · exact ⟨fun _ => ⟨refused, beyond⟩, fun _ => rfl⟩
  · exact ⟨fun impossible => impossible.elim, fun both => absurd both.1 refused⟩
  · exact ⟨fun impossible => impossible.elim, fun both => absurd both.2 beyond⟩

/-! ### Calls as moves -/

/-- What a call gives the caller, and the files and the mark that it leaves. -/
def seen (r : ReadResult) : Int × List U8 × (Fin vfsMaxFiles → VfsFile) × Bool :=
  (r.1, r.2.1, r.2.2.files, r.2.2.outside)

variable {io : IoCall}

theorem fdOk_setOff (off : U64) : (st.setOff i off).fdOk fd = st.fdOk fd := by
  have used (j : Fin vfsMaxFds) : ((st.setOff i off).fds j).used = (st.fds j).used := by
    unfold setOff setFd
    dsimp only
    rw [update_apply]
    split_ifs with same
    · rw [same]
    · rfl
  unfold fdOk
  simp [used]

theorem setOff_entry (off : U64) : (st.setOff i off).fds i = { st.fds i with off } := update_self ..

/-- A call is a move from where it begins, but for the offset that is left. -/
theorem seen_run (isOpen : st.fdOk fd = some i) (files : Fin vfsMaxFiles → VfsFile)
    (outside : Bool) (buf : Nat → U8) :
    seen (io.run (st.withFiles files outside) fd buf) =
      seen (((st.setOff i (io.start st i)).withFiles files outside).move fd buf io.writes
        io.cb) := by
  have overOpen : (st.withFiles files outside).fdOk fd = some i := isOpen
  cases io with
  | read cb =>
    exact congrArg (fun st => seen ((withFiles st files outside).move fd buf false cb))
      (st.setOff_self i).symm
  | write cb =>
    exact congrArg (fun st => seen ((withFiles st files outside).move fd buf true cb))
      (st.setOff_self i).symm
  | pread cb off =>
    rw [IoCall.run, vfsRamPread, overOpen]
    rfl
  | pwrite cb off =>
    rw [IoCall.run, vfsRamPwrite, overOpen]
    rfl

theorem seen_tested (isOpen : st.fdOk fd = some i)
    (tested : (st.fds i).kind.testedBy io.writes = true) (files : Fin vfsMaxFiles → VfsFile)
    (outside : Bool) (buf : Nat → U8) :
    seen (io.run (st.withFiles files outside) fd buf) =
      ((seen (io.run st fd buf)).1, (seen (io.run st fd buf)).2.1, files, outside) := by
  have now : seen (io.run st fd buf) = _ := seen_run isOpen st.files st.outside buf
  have apart := move_apart io.writes ((fdOk_setOff (io.start st i)).trans isOpen) buf
    io.cb (by rw [setOff_entry]; exact tested)
  rw [seen_run isOpen, now]
  exact congrArg seen (apart files outside)

theorem confined_iff_seen : st.Confined fd i io ↔
    (∀ buf k, (st.files k).used = true → ¬st.OpenedOn i k →
      (seen (io.run st fd buf)).2.2.1 k = st.files k) ∧
    (∀ buf files, st.OtherFiles i files →
      (seen (io.run (st.withFiles files st.outside) fd buf)).1 = (seen (io.run st fd buf)).1 ∧
        (seen (io.run (st.withFiles files st.outside) fd buf)).2.1 =
          (seen (io.run st fd buf)).2.1) ∧
    ∀ buf, (seen (io.run (st.withFiles st.files false) fd buf)).2.2.2 = false :=
  ⟨fun confined => ⟨confined.kept, confined.blind, confined.inside⟩,
    fun ⟨kept, blind, inside⟩ => ⟨kept, blind, inside⟩⟩

theorem confined_of_tested (isOpen : st.fdOk fd = some i)
    (tested : (st.fds i).kind.testedBy io.writes = true) : st.Confined fd i io := by
  have apart := seen_tested isOpen tested
  refine confined_iff_seen.mpr ⟨fun buf k _ _ => ?_, fun buf files _ => ?_, fun buf => ?_⟩
  · exact congrArg (fun seen => seen.2.2.1 k) (apart st.files st.outside buf)
  · rw [apart files]
    exact ⟨rfl, rfl⟩
  · rw [apart]

/-! ### Moves of files -/

theorem seen_untested (isOpen : st.fdOk fd = some i)
    (untested : (st.fds i).kind.testedBy io.writes = false) (files : Fin vfsMaxFiles → VfsFile)
    (outside : Bool) (buf : Nat → U8) :
    seen (io.run (st.withFiles files outside) fd buf) =
      seen (((st.setOff i (io.start st i)).withFiles files outside).moveFile i buf io.writes
        io.cb) := by
  have overOpen : ((st.setOff i (io.start st i)).withFiles files outside).fdOk fd = some i :=
    (fdOk_setOff (io.start st i)).trans isOpen
  refine (seen_run isOpen files outside buf).trans (congrArg seen (move_untested overOpen buf _ ?_))
  show ((st.setOff i (io.start st i)).fds i).kind.testedBy io.writes = false
  rw [setOff_entry]
  exact untested

/-- A read or write of what no test has caught, with an index beyond the file table. -/
theorem not_confined_of_index (isOpen : st.fdOk fd = some i)
    (untested : (st.fds i).kind.testedBy io.writes = false)
    (beyond : slotOf vfsMaxFiles (st.fds i).file = none) : ¬st.Confined fd i io := by
  intro confined
  have inside := (confined_iff_seen.mp confined).2.2 fun _ => 0
  have entry : ((st.setOff i (io.start st i)).withFiles st.files false).fds i =
    { st.fds i with off := io.start st i } := setOff_entry _
  rw [seen_untested isOpen untested] at inside
  unfold moveFile readFile writeFile noBytes at inside
  rw [entry] at inside
  rw [beyond] at inside
  cases writes : io.writes <;> rw [writes] at inside <;> cases inside

/-- The descriptor is open, no test of the call catches its kind, and its index is a slot of the
file table. -/
structure Uncaught (st : Vfs) (fd : Int) (i : Fin vfsMaxFds) (io : IoCall)
    (k : Fin vfsMaxFiles) : Prop where
  isOpen : st.fdOk fd = some i
  untested : (st.fds i).kind.testedBy io.writes = false
  slot : slotOf vfsMaxFiles (st.fds i).file = some k

section Read

variable {k : Fin vfsMaxFiles}

theorem Uncaught.seen_read (at_ : st.Uncaught fd i io k) (reads : io.writes = false)
    (files : Fin vfsMaxFiles → VfsFile) (short : (files k).cbData.toNat ≤ vfsMaxData)
    (outside : Bool) (buf : Nat → U8) :
    seen (io.run (st.withFiles files outside) fd buf) =
      (((fileCount (files k).cbData (io.start st i) io.cb : Nat) : Int),
        (copyOut (files k).data ((io.start st i).setWidth 32)
          (fileCount (files k).cbData (io.start st i) io.cb)).1, files, outside) := by
  have entry : ((st.setOff i (io.start st i)).withFiles files outside).fds i =
    { st.fds i with off := io.start st i } := setOff_entry _
  rw [seen_untested at_.isOpen at_.untested, moveFile, reads,
    readFile_eq (k := k) (by rw [entry]; exact at_.slot) short, entry]
  rfl

theorem silent_read_iff (reads : io.writes = false) :
    st.Silent i io k ↔ io.count = 0 ∨ vfsMaxData ≤ (io.start st i).toNat := by
  unfold Silent
  rw [reads, if_neg Bool.false_ne_true]

/-- A file that the descriptor was not opened on may be of any length. -/
theorem otherFiles_resize (sound : st.Sound) (used : (st.files k).used ≠ false)
    (notOwn : ¬st.OpenedOn i k) {size : U32} (short : size.toNat ≤ vfsMaxData) :
    st.OtherFiles i (update st.files k { st.files k with cbData := size }) := by
  refine ⟨fun j apart => ?_, fun j => ?_⟩
  · rw [update_apply, if_neg]
    rintro rfl
    exact apart.elim used notOwn
  · rw [update_apply]
    split_ifs
    · exact short
    · exact sound.files j

/-- A read of what no test has caught is confined exactly if the file in the slot is the one that
the descriptor was opened on, or no byte can be read. -/
theorem confined_read_iff (sound : st.Sound) (at_ : st.Uncaught fd i io k)
    (reads : io.writes = false) :
    st.Confined fd i io ↔ (st.files k).used = false ∨ st.OpenedOn i k ∨ st.Silent i io k := by
  have now (buf : Nat → U8) : seen (io.run st fd buf) = _ :=
    at_.seen_read reads st.files (sound.files k) st.outside buf
  rw [confined_iff_seen, silent_read_iff reads]
  constructor
  · rintro ⟨-, blind, -⟩
    by_contra foreign
    push Not at foreign
    obtain ⟨used, notOwn, some, early⟩ := foreign
    -- a file of no length in the slot, and one of full length, are read differently
    have readOf (size : U32) (short : size.toNat ≤ vfsMaxData) :
        (fileCount size (io.start st i) io.cb : Int) =
          fileCount (st.files k).cbData (io.start st i) io.cb := by
      have other := otherFiles_resize sound used notOwn short
      have same := (blind (fun _ => 0) _ other).1
      rw [at_.seen_read reads _ (other.short k), now, update_self] at same
      exact same
    have same := (readOf 0 (Nat.zero_le _)).trans
      (readOf (BitVec.ofNat 32 vfsMaxData) (Nat.le_refl _)).symm
    have size : (BitVec.ofNat 32 vfsMaxData : U32).toNat = vfsMaxData := rfl
    unfold fileCount at same
    rw [show (0 : U32).toNat = 0 from rfl] at same
    refine some (eq_of_toNat_eq ?_)
    change (io.cb.setWidth 32 : U32).toNat = 0
    omega
  · intro proper
    have sameRead (files : Fin vfsMaxFiles → VfsFile) (other : st.OtherFiles i files) :
        files k = st.files k ∨ (fileCount (files k).cbData (io.start st i) io.cb = 0 ∧
          fileCount (st.files k).cbData (io.start st i) io.cb = 0) := by
      rcases proper with unused | own | silent
      · exact Or.inl (other.own k (Or.inl unused))
      · exact Or.inl (other.own k (Or.inr own))
      · have asked : io.count.toNat = (io.cb.setWidth 32 : U32).toNat := rfl
        have short := other.short k
        have shortNow := sound.files k
        unfold fileCount
        rcases silent with none | late
        · rw [none] at asked
          change 0 = _ at asked
          omega
        · omega
    refine ⟨fun buf j _ _ => by rw [now], fun buf files other => ?_, fun buf => ?_⟩
    · rw [at_.seen_read reads _ (other.short k), now]
      rcases sameRead files other with same | ⟨none, noneNow⟩
      · rw [same]
        exact ⟨rfl, rfl⟩
      · rw [none, noneNow]
        exact ⟨rfl, rfl⟩
    · rw [at_.seen_read reads _ (sound.files k)]

end Read

section Write

variable {k : Fin vfsMaxFiles} {count : U32}

def writtenFile (file : VfsFile) (start : U64) (buf : Nat → U8) (count : U32) : VfsFile :=
  { file with
    data := (copyIn (start.setWidth 32) buf count.toNat file.data).1
    cbData := if file.cbData < ((start + count.setWidth 64).setWidth 32 : U32) then
        (start + count.setWidth 64).setWidth 32
      else file.cbData }

theorem Uncaught.seen_write (at_ : st.Uncaught fd i io k) (writes : io.writes = true)
    (files : Fin vfsMaxFiles → VfsFile) (outside : Bool) (buf : Nat → U8) :
    seen (io.run (st.withFiles files outside) fd buf) = match writeCount (io.start st i) io.cb with
      | none => (-28, [], files, outside)
      | some count => ((count.toNat : Int), [],
          update files k (writtenFile (files k) (io.start st i) buf count),
          outside || !(copyIn ((io.start st i).setWidth 32) buf count.toNat (files k).data).2) := by
  have entry : ((st.setOff i (io.start st i)).withFiles files outside).fds i =
    { st.fds i with off := io.start st i } := setOff_entry _
  rw [seen_untested at_.isOpen at_.untested, moveFile, writes, writeFile, entry]
  rw [at_.slot]
  dsimp only
  cases writeCount (io.start st i) io.cb <;> rfl

/-- The loop of a write that was accepted stays within the data exactly if the sum that was compared
with the size did not wrap around. -/
theorem copyIn_inside_iff_noWrap (accepted : writeCount (io.start st i) io.cb = some count)
    (buf : Nat → U8) (data : Fin vfsMaxData → U8) :
    (copyIn ((io.start st i).setWidth 32) buf count.toNat data).2 = true ↔ st.NoWrap i io := by
  have fits := writeCount_inside accepted
  rw [copyIn_inside_iff_fits]
  refine Iff.trans ⟨?_, Or.inr⟩ fits.symm
  rintro (rfl | fits)
  · exact (writeCount_zero accepted).2
  · exact fits

/-- A file is as before, for every content of the caller's buffer, exactly if the write asks for
nothing and begins within the file. -/
theorem writtenFile_eq_iff {file : VfsFile} {start cb : U64}
    (accepted : writeCount start cb = some count)
    (fits : (start.setWidth 32 : U32).toNat + count.toNat ≤ vfsMaxData) :
    (∀ buf, writtenFile file start buf count = file) ↔
      (cb.setWidth 32 : U32) = 0 ∧ (start.setWidth 32 : U32) ≤ file.cbData := by
  constructor
  · intro same
    have none : count = 0 := by
      by_contra some
      have positive : 0 < count.toNat := Nat.pos_of_ne_zero fun zero =>
        some (eq_of_toNat_eq zero)
      have first : (start.setWidth 32 : U32).toNat < vfsMaxData := by omega
      -- a byte that differs from the one there
      have kept := congrArg (fun file : VfsFile => file.data ⟨_, first⟩)
        (same fun _ => file.data ⟨_, first⟩ + 1)
      change (copyIn _ _ _ _).1 _ = _ at kept
      rw [copyIn_data _ _ _ fits, if_pos ⟨Nat.le_refl _, by dsimp only; omega⟩] at kept
      have differs (b : U8) : b + 1 ≠ b := by
        intro equal
        exact absurd (BitVec.add_right_eq_self.mp equal) (by decide)
      exact differs _ kept
    subst none
    refine ⟨(writeCount_zero accepted).1, ?_⟩
    by_contra beyond
    have kept := congrArg VfsFile.cbData (same fun _ => 0)
    change (if _ then _ else _) = _ at kept
    rw [setWidth_end, show (start.setWidth 32 : U32) + 0 = start.setWidth 32 from
      BitVec.add_zero _, if_pos (BitVec.not_le.mp beyond)] at kept
    exact beyond (by rw [kept]; exact BitVec.le_refl _)
  · rintro ⟨none, within⟩ buf
    obtain rfl := writeCount_asked_zero accepted none
    unfold writtenFile
    rw [setWidth_end, show (start.setWidth 32 : U32) + 0 = start.setWidth 32 from
      BitVec.add_zero _, if_neg (BitVec.not_lt.mpr within)]
    rfl

theorem silent_write_iff (writes : io.writes = true) : st.Silent i io k ↔
    writeCount (io.start st i) io.cb = none ∨ ((io.cb.setWidth 32 : U32) = 0 ∧
      ((io.start st i).setWidth 32 : U32) ≤ (st.files k).cbData) := by
  unfold Silent
  rw [writes, writeCount_none_iff]
  rfl

theorem Uncaught.confined_of_refused (at_ : st.Uncaught fd i io k) (writes : io.writes = true)
    (refused : writeCount (io.start st i) io.cb = none) : st.Confined fd i io := by
  have sees := at_.seen_write writes
  simp only [refused] at sees
  refine confined_iff_seen.mpr ⟨fun buf j _ _ => ?_, fun buf files _ => ?_, fun buf => ?_⟩
  · exact congrArg (fun seen => seen.2.2.1 j) (sees st.files st.outside buf)
  · have now : seen (io.run st fd buf) = _ := sees st.files st.outside buf
    rw [sees, now]
    exact ⟨rfl, rfl⟩
  · rw [sees]

/-- A write that is accepted is confined exactly if it does not wrap around and leaves a file that
the descriptor was not opened on as it is. -/
theorem Uncaught.confined_accepted_iff (at_ : st.Uncaught fd i io k) (writes : io.writes = true)
    (accepted : writeCount (io.start st i) io.cb = some count) :
    st.Confined fd i io ↔ st.NoWrap i io ∧ ((st.files k).used = true → ¬st.OpenedOn i k →
      ∀ buf, writtenFile (st.files k) (io.start st i) buf count = st.files k) := by
  have sees := at_.seen_write writes
  simp only [accepted] at sees
  have now (buf : Nat → U8) : seen (io.run st fd buf) = _ := sees st.files st.outside buf
  have insideIff (buf : Nat → U8) :
      (seen (io.run (st.withFiles st.files false) fd buf)).2.2.2 = false ↔ st.NoWrap i io := by
    rw [sees, ← copyIn_inside_iff_noWrap accepted buf (st.files k).data, Bool.false_or,
      Bool.not_eq_false']
  rw [confined_iff_seen]
  constructor
  · rintro ⟨kept, -, inside⟩
    refine ⟨(insideIff fun _ => 0).mp (inside _), fun used notOwn buf => ?_⟩
    have kept := kept buf k used notOwn
    simp only [now, update_self] at kept
    exact kept
  · rintro ⟨noWrap, kept⟩
    refine ⟨fun buf j used notOwn => ?_, fun buf files _ => ?_,
      fun buf => (insideIff buf).mpr noWrap⟩
    · simp only [now, update_apply]
      split_ifs with same
      · rw [same] at used notOwn ⊢
        exact kept used notOwn buf
      · rfl
    · rw [sees, now]
      exact ⟨rfl, rfl⟩

/-- A write of what no test has caught is confined exactly if it does not wrap around and the file
in the slot is the one that the descriptor was opened on, or no byte is written. -/
theorem Uncaught.confined_write_iff (at_ : st.Uncaught fd i io k) (writes : io.writes = true) :
    st.Confined fd i io ↔ st.NoWrap i io ∧
      ((st.files k).used = false ∨ st.OpenedOn i k ∨ st.Silent i io k) := by
  rw [silent_write_iff writes]
  cases taken : writeCount (io.start st i) io.cb with
  | none =>
    have noWrap : st.NoWrap i io := Or.inr ((writeCount_none_iff _ _).mp taken).2
    exact iff_of_true (at_.confined_of_refused writes taken) ⟨noWrap, Or.inr (Or.inr (Or.inl rfl))⟩
  | some count =>
    rw [at_.confined_accepted_iff writes taken]
    refine and_congr_right fun noWrap => ?_
    rw [writtenFile_eq_iff taken ((writeCount_inside taken).mp noWrap)]
    cases (st.files k).used <;> simp [or_iff_not_imp_left]

end Write

end Vfs

/-- In every state that calls reach, a read or write through an open descriptor touches no file but
the one that the descriptor was opened on exactly if the kind of the descriptor is tested for, or
the index is one of the file table, a write does not wrap around, and the slot has the file that the
descriptor was opened on, or the call moves no byte. -/
theorem descriptorIo_confined_iff {st : Vfs} (reachable : st.Reachable) {fd : Int}
    {i : Fin vfsMaxFds} (isOpen : st.fdOk fd = some i) (io : IoCall) :
    st.Confined fd i io ↔ st.IoProper i io := by
  unfold Vfs.IoProper
  cases tested : (st.fds i).kind.testedBy io.writes with
  | true => exact iff_of_true (Vfs.confined_of_tested isOpen tested) (Or.inl rfl)
  | false =>
    cases slot : Vfs.slotOf vfsMaxFiles (st.fds i).file with
    | none => simp [Vfs.not_confined_of_index isOpen tested slot]
    | some k =>
      cases writes : io.writes with
      | false => simp [Vfs.confined_read_iff reachable.sound ⟨isOpen, tested, slot⟩ writes]
      | true => simp [Vfs.Uncaught.confined_write_iff ⟨isOpen, tested, slot⟩ writes]

theorem Vfs.Confined.write_kept {st : Vfs} {fd : Int} {i : Fin vfsMaxFds} {cb : U64}
    {k : Fin vfsMaxFiles} (confined : st.Confined fd i (.write cb)) (buf : Nat → U8)
    (used : (st.files k).used = true) (foreign : ¬st.OpenedOn i k) :
    (st.vfsRamWrite fd buf cb).2.files k = st.files k :=
  confined.kept buf k used foreign

def sampleVfs (calls : List VfsCall) : Vfs :=
  calls.foldl VfsCall.run (Vfs.vfsRamInit sampleDisk sampleDisk)

theorem sampleVfs_reachable (calls : List VfsCall) : (sampleVfs calls).Reachable := by
  have extends_ (rest : List VfsCall) : ∀ st : Vfs, st.Reachable →
      (rest.foldl VfsCall.run st).Reachable := by
    induction rest with
    | nil => exact fun _ reachable => reachable
    | cons call rest ih =>
      exact fun _ reachable => ih _ (reachable.step call)
  exact extends_ calls _ (.init sampleDisk sampleDisk)

/-- A read of an epoll descriptor gives the text of the file in the slot with its index, and a write
to a timer descriptor changes that file. -/
theorem descriptorIo_other_tables : (sampleVfs [.epollCreate1]).fdOk 3 = some 3 ∧
      ((sampleVfs [.epollCreate1]).fds 3).kind = .epoll ∧
      ((sampleVfs [.epollCreate1]).vfsRamRead 3 16).2.1 = bytesOf "greenjade\n" ∧
      ¬(sampleVfs [.epollCreate1]).Confined 3 3 (.read 16) ∧
      (sampleVfs [.timerfdCreate]).fdOk 3 = some 3 ∧
      ((sampleVfs [.timerfdCreate]).fds 3).kind = .timerfd ∧
      ((sampleVfs [.timerfdCreate]).files 0).data 0 = 103 ∧
      (((sampleVfs [.timerfdCreate]).vfsRamWrite 3 (fun _ => 120) 1).2.files 0).data 0 = 120 ∧
      ¬(sampleVfs [.timerfdCreate]).Confined 3 3 (.write 1) := by
  have epoll : (sampleVfs [.epollCreate1]).fdOk 3 = some 3 ∧ (sampleVfs [.epollCreate1]).fds 3 =
        { used := true, kind := .epoll, fdEnd := 0, file := 0, off := 0, serial := 24 } ∧
      ((sampleVfs [.epollCreate1]).vfsRamRead 3 16).2.1 = bytesOf "greenjade\n" ∧
      ((sampleVfs [.epollCreate1]).files 0).used = true := by decide +kernel
  have timer : (sampleVfs [.timerfdCreate]).fdOk 3 = some 3 ∧ (sampleVfs [.timerfdCreate]).fds 3 =
        { used := true, kind := .timerfd, fdEnd := 0, file := 0, off := 0, serial := 24 } ∧
      ((sampleVfs [.timerfdCreate]).files 0).data 0 = 103 ∧
      (((sampleVfs [.timerfdCreate]).vfsRamWrite 3 (fun _ => 120) 1).2.files 0).data 0 = 120 ∧
      ((sampleVfs [.timerfdCreate]).files 0).used = true := by decide +kernel
  obtain ⟨isOpen, entry, text, used⟩ := epoll
  obtain ⟨isOpen', entry', before, after, used'⟩ := timer
  refine ⟨isOpen, congrArg VfsFd.kind entry, text, fun confined => ?_, isOpen',
    congrArg VfsFd.kind entry', before, after, fun confined => ?_⟩
  · have slot : Vfs.slotOf vfsMaxFiles ((sampleVfs [.epollCreate1]).fds 3).file = some 0 := by
      rw [entry]
      rfl
    have untested : ((sampleVfs [.epollCreate1]).fds 3).kind.testedBy
        (IoCall.read 16).writes = false := by
      rw [entry]
      rfl
    have proper := (Vfs.confined_read_iff (sampleVfs_reachable _).sound
      ⟨isOpen, untested, slot⟩ (by rfl)).mp confined
    rw [used] at proper
    rcases proper with unused | own | silent
    · cases unused
    · exact absurd own.1 (by rw [entry]; decide)
    · rcases silent with none | late
      · exact absurd none (by decide)
      · change vfsMaxData ≤ ((sampleVfs [.epollCreate1]).fds 3).off.toNat at late
        rw [entry] at late
        exact absurd late (by decide)
  · have foreign : ¬(sampleVfs [.timerfdCreate]).OpenedOn 3 0 := fun own =>
      absurd own.1 (by rw [entry']; decide)
    rw [confined.write_kept (fun _ => 120) used' foreign, before] at after
    exact absurd after (by decide)

/-- A file is opened and read. -/
theorem descriptorIo_confined_hostname :
    (sampleVfs [.open (bytesOf "/etc/hostname") false]).Confined 3 3 (.read 16) := by
  have opened : (sampleVfs [.open (bytesOf "/etc/hostname") false]).fdOk 3 = some 3 ∧
      Vfs.slotOf vfsMaxFiles ((sampleVfs [.open (bytesOf "/etc/hostname") false]).fds 3).file =
        some 0 ∧
      (sampleVfs [.open (bytesOf "/etc/hostname") false]).OpenedOn 3 0 := by decide +kernel
  exact (descriptorIo_confined_iff (sampleVfs_reachable _) opened.1 _).mpr
    (Or.inr ⟨0, opened.2.1, fun writes => (by cases writes), Or.inr (Or.inl opened.2.2)⟩)

end GreenJade.Fs

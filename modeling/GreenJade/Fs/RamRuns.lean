import GreenJade.Fs.Descriptors
import GreenJade.Fs.RamIo

/-! Owns the runs of the RAM vfs: all its calls as one type, the states that they reach from
`vfs_ram_init`, and the bounds that hold in these states. -/

namespace GreenJade.Fs

open Function BitVec Vfs

inductive VfsCall
  | mountBlk
  | mountScsi (capacity : Option (U32 × U32))
  | open (path : Path) (create : Bool)
  | mkdir (path : Path) (mode : U32)
  | symlink (target name : Path)
  | utimens (path : Path)
  | link (old new : Path)
  | unlink (path : Path)
  | rmdir (path : Path)
  | rename (old new : Path)
  | chmod (path : Path) (mode : U32)
  | fchmod (fd : Int) (mode : U32)
  | markDir (fd : Int)
  | truncate (path : Path) (len : Int)
  | ftruncate (fd len : Int)
  | fallocate (fd off len : Int)
  | fallocatePunch (fd off len : Int)
  | lseek (fd : Int) (off : U64) (whence : Int)
  | read (fd : Int) (cb : U64)
  | write (fd : Int) (buf : Nat → U8) (cb : U64)
  | pread (fd : Int) (cb off : U64)
  | pwrite (fd : Int) (buf : Nat → U8) (cb off : U64)
  | sendfile (out src : Int) (off cb : U64)
  | copyFileRange (src out : Int) (offIn offOut cb : U64)
  | pipe2
  | socketpair (nType : Int)
  | eventfd2 (init : U32)
  | epollCreate1
  | timerfdCreate
  | timerfdSettime (fd : Int) (value interval : U64)
  | inotifyInit1
  | inotifyAddWatch (fd : Int) (path : Path) (mask : U32)
  | inotifyRmWatch (fd : Int) (wd : U32)
  | signalfd4 (fd : Int) (mask : U64)
  | signalfdInject (signo : U32)
  | pidfdOpen (pid : U32)
  | ioUringOpen (ringSlot : U32)
  | dup (fd : Int)
  | dup2 (old new : Int)
  | dupFrom (fd min : Int)
  | close (fd : Int)

def VfsCall.run (st : Vfs) : VfsCall → Vfs
  | .mountBlk => st.vfsRamMountBlk
  | .mountScsi capacity => st.vfsRamMountScsi capacity
  | .open path create => (st.vfsRamOpen path create).2
  | .mkdir path mode => (st.vfsRamMkdir path mode).2
  | .symlink target name => (st.vfsRamSymlink target name).2
  | .utimens path => (st.vfsRamUtimens path).2
  | .link old new => (st.vfsRamLink old new).2
  | .unlink path => (st.vfsRamUnlink path).2
  | .rmdir path => (st.vfsRamRmdir path).2
  | .rename old new => (st.vfsRamRename old new).2
  | .chmod path mode => (st.vfsRamChmod path mode).2
  | .fchmod fd mode => (st.vfsRamFchmod fd mode).2
  | .markDir fd => (st.vfsRamMarkDir fd).2
  | .truncate path len => (st.vfsRamTruncate path len).2
  | .ftruncate fd len => (st.vfsRamFtruncate fd len).2
  | .fallocate fd off len => (st.vfsRamFallocate fd off len).2
  | .fallocatePunch fd off len => (st.vfsRamFallocatePunch fd off len).2
  | .lseek fd off whence => (st.vfsRamLseek fd off whence).2
  | .read fd cb => (st.vfsRamRead fd cb).2.2
  | .write fd buf cb => (st.vfsRamWrite fd buf cb).2
  | .pread fd cb off => (st.vfsRamPread fd cb off).2.2
  | .pwrite fd buf cb off => (st.vfsRamPwrite fd buf cb off).2
  | .sendfile out src off cb => (st.vfsRamSendfile out src off cb).2.2
  | .copyFileRange src out offIn offOut cb =>
    (st.vfsRamCopyFileRange src out offIn offOut cb).2.2.2
  | .pipe2 => st.vfsRamPipe2.2
  | .socketpair nType => (st.vfsRamSocketpair nType).2
  | .eventfd2 init => (st.vfsRamEventfd2 init).2
  | .epollCreate1 => st.vfsRamEpollCreate1.2
  | .timerfdCreate => st.vfsRamTimerfdCreate.2
  | .timerfdSettime fd value interval => (st.vfsRamTimerfdSettime fd value interval).2
  | .inotifyInit1 => st.vfsRamInotifyInit1.2
  | .inotifyAddWatch fd path mask => (st.vfsRamInotifyAddWatch fd path mask).2
  | .inotifyRmWatch fd wd => (st.vfsRamInotifyRmWatch fd wd).2
  | .signalfd4 fd mask => (st.vfsRamSignalfd4 fd mask).2
  | .signalfdInject signo => st.vfsRamSignalfdInject signo
  | .pidfdOpen pid => (st.vfsRamPidfdOpen pid).2
  | .ioUringOpen ringSlot => (st.vfsRamIoUringOpen ringSlot).2
  | .dup fd => (st.vfsRamDup fd).2
  | .dup2 old new => (st.vfsRamDup2 old new).2
  | .dupFrom fd min => (st.vfsRamDupFrom fd min).2
  | .close fd => (st.vfsRamClose fd).2

inductive Vfs.Reachable : Vfs → Prop
  | init (blk scsi : Disk) : Reachable (vfsRamInit blk scsi)
  | step {st : Vfs} (before : Reachable st) (call : VfsCall) : Reachable (VfsCall.run st call)

/-! ### Bounds -/

/-- No file is longer than its data, and descriptors of files have a slot of the file table. -/
structure Vfs.Sound (st : Vfs) : Prop where
  files : ∀ k, (st.files k).cbData.toNat ≤ vfsMaxData
  fds : ∀ i, (st.fds i).kind = .ram → (st.fds i).file.toNat < vfsMaxFiles

namespace Vfs

variable {st : Vfs} {k : Fin vfsMaxFiles} {i : Fin vfsMaxFds}

theorem Sound.setFile (sound : st.Sound) {file : VfsFile}
    (short : file.cbData.toNat ≤ vfsMaxData) : (st.setFile k file).Sound where
  files j := by
    simp only [Vfs.setFile, Function.update_apply]
    split_ifs
    · exact short
    · exact sound.files j
  fds := sound.fds

section

variable (sound : st.Sound)
include sound

theorem Sound.keep {st' : Vfs} (files : st'.files = st.files)
    (fds : st'.fds = st.fds) : st'.Sound :=
  ⟨by rw [files]; exact sound.files, by rw [fds]; exact sound.fds⟩

theorem Sound.make : st.make.Sound := sound.keep rfl rfl

theorem Sound.newFile {kind : VfsKind} {isDir : Bool}
    {mode nlink : U32} {path : Path} : (st.newFile k kind isDir mode nlink path).Sound :=
  (sound.setFile (Nat.zero_le _)).make

theorem Sound.zeroFile : (st.setFile k .zero).Sound :=
  sound.setFile (Nat.zero_le _)

/-! ### Calls on descriptors -/

theorem Sound.fdCall (call : FdCall) : (call.run st).Sound where
  files k := by
    rcases (call.effect st).files k with same | ⟨-, -, empty⟩
    · rw [same]
      exact sound.files k
    · rw [empty]
      exact Nat.zero_le _
  fds i isRam := by
    have entry := (call.effect st).entry i
    generalize (call.run st).fds i = now at *
    cases entry with
    | kept | closed => exact sound.fds i isRam
    | copied j => exact sound.fds j isRam
    | opened _ _ _ _ _ inTable => exact inTable isRam

end

theorem Sound.open (sound : st.Sound) (path : Path) (create : Bool) :
    (st.vfsRamOpen path create).2.Sound := sound.fdCall (.open path create)

theorem Sound.close (sound : st.Sound) (fd : Int) : (st.vfsRamClose fd).2.Sound :=
  sound.fdCall (.close fd)

/-! ### Calls on names -/

theorem Sound.link (sound : st.Sound) (old new : Path) : (st.vfsRamLink old new).2.Sound := by
  unfold vfsRamLink
  dsimp only
  repeat' split
  all_goals first
    | exact sound
    | (refine ((sound.setFile ?_).setFile ?_).make <;> exact sound.files _)

theorem dropSymlink_tables (path : Path) :
    (st.dropSymlink path).files = st.files ∧ (st.dropSymlink path).fds = st.fds := by
  unfold dropSymlink
  split <;> exact ⟨rfl, rfl⟩

theorem dropClash_tables (s : Fin vfsMaxSymlinks) (new : Path) :
    (st.dropClash s new).files = st.files ∧ (st.dropClash s new).fds = st.fds := by
  unfold dropClash
  repeat' split
  all_goals exact ⟨rfl, rfl⟩

theorem Sound.renameSymlink (sound : st.Sound) (s : Fin vfsMaxSymlinks) (new : Path) :
    (st.renameSymlink s new).2.Sound := by
  have cleared : (st.dropClash s new).Sound :=
    sound.keep (dropClash_tables s new).1 (dropClash_tables s new).2
  unfold Vfs.renameSymlink
  dsimp only
  repeat' split
  · exact cleared
  · exact cleared.zeroFile.keep rfl rfl
  · exact cleared.keep rfl rfl

theorem Sound.renameFile (sound : st.Sound) (k : Fin vfsMaxFiles) (new : Path) :
    (st.renameFile k new).Sound := by
  have cleared : (st.dropSymlink new).Sound :=
    sound.keep (dropSymlink_tables new).1 (dropSymlink_tables new).2
  exact cleared.setFile (cleared.files k)

theorem Sound.rename (sound : st.Sound) (old new : Path) : (st.vfsRamRename old new).2.Sound := by
  unfold vfsRamRename
  dsimp only
  repeat' split
  all_goals first
    | exact sound
    | exact sound.renameSymlink _ _
    | exact sound.renameFile _ _
    | exact sound.zeroFile.renameFile _ _

theorem Sound.utimens (sound : st.Sound) (path : Path) : (st.vfsRamUtimens path).2.Sound := by
  unfold vfsRamUtimens
  dsimp only
  repeat' split
  all_goals first
    | exact sound
    | exact sound.open _ true
    | exact (sound.open _ true).close _

/-! ### Reading and writing -/

/-- What reading and writing do to files and descriptors: a file gets other data within its bounds,
and a descriptor another offset. -/
structure Moves (st st' : Vfs) : Prop where
  files : ∀ k, ∃ data cbData, st'.files k = { st.files k with data, cbData } ∧
    (cbData = (st.files k).cbData ∨ cbData.toNat ≤ vfsMaxData)
  fds : ∀ i, ∃ off, st'.fds i = { st.fds i with off }

variable {st₁ st₂ : Vfs}

theorem Moves.keep (files : st₁.files = st.files)
    (fds : st₁.fds = st.fds) : st.Moves st₁ :=
  ⟨fun k => ⟨_, _, by rw [files], .inl rfl⟩, fun i => ⟨_, by rw [fds]⟩⟩

theorem Moves.trans (first : st.Moves st₁) (second : st₁.Moves st₂) : st.Moves st₂ where
  files k := by
    obtain ⟨_, _, same, bound⟩ := first.files k
    obtain ⟨data, cbData, same', bound'⟩ := second.files k
    rw [same] at same' bound'
    refine ⟨data, cbData, same', bound'.elim (fun kept => ?_) .inr⟩
    rw [kept]
    exact bound
  fds i := by
    obtain ⟨_, same⟩ := first.fds i
    obtain ⟨off, same'⟩ := second.fds i
    rw [same] at same'
    exact ⟨off, same'⟩

theorem Moves.setOff (st : Vfs) (i : Fin vfsMaxFds) (off : U64) : st.Moves (st.setOff i off) := by
  refine ⟨fun k => ⟨_, _, rfl, .inl rfl⟩, fun j => ?_⟩
  unfold Vfs.setOff
  rw [setFd_fds]
  split_ifs with here
  · exact ⟨off, by rw [here]⟩
  · exact ⟨_, rfl⟩

theorem Moves.sound (moves : st.Moves st₁) (sound : st.Sound) : st₁.Sound where
  files k := by
    obtain ⟨_, _, same, bound⟩ := moves.files k
    rw [same]
    rcases bound with kept | short
    · rw [kept]
      exact sound.files k
    · exact short
  fds i := by
    obtain ⟨_, same⟩ := moves.fds i
    rw [same]
    exact sound.fds i

theorem Moves.read (st : Vfs) (fd : Int) (cb : U64) : st.Moves (st.vfsRamRead fd cb).2.2 := by
  have moved (i : Fin vfsMaxFds) (off : U64) : st.Moves (st.setFd i { st.fds i with off }) :=
    .setOff st i off
  unfold vfsRamRead
  split
  · exact .keep rfl rfl
  · split
    all_goals
      first | unfold readEvent | unfold readTimer | unfold readSignal | unfold readInotify |
        unfold readPipe | unfold readDisk | unfold readFile
      dsimp only
      repeat' split
      all_goals first
        | exact .keep rfl rfl
        | exact moved _ _
        | exact (moved _ _).trans (.keep rfl rfl)

theorem setWidth_end (off : U64) (count : U32) :
    ((off + count.setWidth 64).setWidth 32 : U32) = off.setWidth 32 + count := by
  rw [setWidth_add _ _ (by decide), setWidth_setWidth_of_le _ (by decide),
    setWidth_eq]

/-- A write is cut at the end of the data, or goes through with all of its 32 bits. -/
theorem writeCount_eq_some {off cb : U64} {count : U32}
    (accepted : writeCount off cb = some count) :
    (vfsMaxData < ((off.setWidth 32 : U32).toNat + (cb.setWidth 32 : U32).toNat) % 2 ^ 32 ∧
        (off.setWidth 32 : U32).toNat + count.toNat = vfsMaxData ∧ 0 < count.toNat) ∨
      (((off.setWidth 32 : U32).toNat + (cb.setWidth 32 : U32).toNat) % 2 ^ 32 ≤ vfsMaxData ∧
        count = cb.setWidth 32) := by
  unfold writeCount at accepted
  dsimp only at accepted
  rw [← toNat_add]
  split_ifs at accepted with beyond refused
  · have size : (BitVec.ofNat 32 vfsMaxData : U32).toNat = vfsMaxData := rfl
    rw [← Option.some.inj accepted, toNat_sub_of_le (by rw [le_def, size]; omega)]
    omega
  · exact .inr ⟨Nat.le_of_not_lt beyond, (Option.some.inj accepted).symm⟩

/-- The end of what is written, in the 32 bits of the source, is within the data. -/
theorem writeCount_end {off cb : U64} {count : U32} (accepted : writeCount off cb = some count) :
    ((off + count.setWidth 64).setWidth 32 : U32).toNat ≤ vfsMaxData := by
  rw [setWidth_end]
  rcases writeCount_eq_some accepted with ⟨-, cut, -⟩ | ⟨short, rfl⟩
  · exact (Nat.mod_le ..).trans cut.le
  · exact short

theorem Moves.writeFile (st : Vfs) (i : Fin vfsMaxFds) (buf : Nat → U8) (cb : U64) :
    st.Moves (st.writeFile i buf cb).2 := by
  unfold Vfs.writeFile
  dsimp only
  split
  · exact .keep rfl rfl
  · next k _ =>
      split
      · exact .keep rfl rfl
      · next count fits =>
          refine ⟨fun j => ?_, (Moves.setOff st i _).fds⟩
          by_cases here : j = k
          · refine ⟨_, _, by rw [here]; exact update_self .., ?_⟩
            rw [here]
            split_ifs
            · exact .inr (writeCount_end fits)
            · exact .inl rfl
          · exact ⟨_, _, update_of_ne here .., .inl rfl⟩

theorem Moves.write (st : Vfs) (fd : Int) (buf : Nat → U8) (cb : U64) :
    st.Moves (st.vfsRamWrite fd buf cb).2 := by
  unfold vfsRamWrite
  repeat' split
  all_goals first | exact .keep rfl rfl | exact .writeFile st _ _ _ | skip
  all_goals
    first | unfold writeEvent | unfold writePipe | unfold writeBlk
    dsimp only
    repeat' split
    all_goals first
      | exact .keep rfl rfl
      | exact ⟨(Moves.keep rfl rfl).files, (Moves.setOff st _ _).fds⟩

theorem Moves.pread (st : Vfs) (fd : Int) (cb off : U64) :
    st.Moves (st.vfsRamPread fd cb off).2.2 := by
  unfold vfsRamPread
  split
  · exact .keep rfl rfl
  · exact ((Moves.setOff st _ off).trans (.read _ fd cb)).trans (.setOff _ _ _)

theorem Moves.pwrite (st : Vfs) (fd : Int) (buf : Nat → U8) (cb off : U64) :
    st.Moves (st.vfsRamPwrite fd buf cb off).2 := by
  unfold vfsRamPwrite
  split
  · exact .keep rfl rfl
  · exact ((Moves.setOff st _ off).trans (.write _ fd buf cb)).trans (.setOff _ _ _)

theorem Sound.setOff (sound : st.Sound) (i : Fin vfsMaxFds) (off : U64) : (st.setOff i off).Sound :=
  (Moves.setOff st i off).sound sound

theorem Sound.lseek (sound : st.Sound) (fd : Int) (off : U64) (whence : Int) :
    (st.vfsRamLseek fd off whence).2.Sound := by
  unfold vfsRamLseek
  dsimp only
  repeat' split
  all_goals first | exact sound | exact sound.setOff _ _

theorem Sound.ftruncate (sound : st.Sound) (fd len : Int) :
    (st.vfsRamFtruncate fd len).2.Sound := by
  unfold vfsRamFtruncate
  dsimp only
  repeat' split
  all_goals first
    | exact sound
    | exact ⟨(sound.setFile (by simp only [toNat_ofNat]; omega)).files,
        (sound.setOff _ _).fds⟩

theorem Sound.fallocate (sound : st.Sound) (fd off len : Int) :
    (st.vfsRamFallocate fd off len).2.Sound := by
  unfold vfsRamFallocate
  dsimp only
  repeat' split
  all_goals first
    | exact sound
    | exact sound.setFile (by simp only [toNat_ofNat]; omega)

theorem Sound.fallocatePunch (sound : st.Sound) (fd off len : Int) :
    (st.vfsRamFallocatePunch fd off len).2.Sound := by
  unfold vfsRamFallocatePunch
  dsimp only
  repeat' split
  all_goals first
    | exact sound
    | refine sound.setFile ?_
  all_goals exact sound.files _

theorem Sound.truncate (sound : st.Sound) (path : Path) (len : Int) :
    (st.vfsRamTruncate path len).2.Sound := by
  unfold vfsRamTruncate
  dsimp only
  repeat' split
  all_goals first
    | exact sound
    | exact sound.open _ _
    | exact ((sound.open _ _).ftruncate _ _).close _

theorem Moves.sendLoop (out src : Int) (cb turns : Nat) : ∀ (done : Nat) (off : U64) (st : Vfs),
    st.Moves (Vfs.sendLoop out src cb turns done off st).2.2 := by
  induction turns with
  | zero => exact fun _ _ _ => .keep rfl rfl
  | succ turns ih =>
    intro done off st
    have fetched := Moves.pread st src (BitVec.ofNat 64 (min (cb - done) 512)) off
    unfold Vfs.sendLoop
    dsimp only
    repeat' split
    all_goals first
      | exact .keep rfl rfl
      | exact fetched
      | exact fetched.trans (.write _ _ _ _)
      | exact (fetched.trans (.write _ _ _ _)).trans (ih _ _ _)

theorem Moves.copyLoop (src out : Int) (cb turns : Nat) :
    ∀ (done : Nat) (offIn offOut : U64) (st : Vfs),
      st.Moves (Vfs.copyLoop src out cb turns done offIn offOut st).2.2.2 := by
  induction turns with
  | zero => exact fun _ _ _ _ => .keep rfl rfl
  | succ turns ih =>
    intro done offIn offOut st
    have fetched := Moves.pread st src (BitVec.ofNat 64 (min (cb - done) 512)) offIn
    unfold Vfs.copyLoop
    dsimp only
    repeat' split
    all_goals first
      | exact .keep rfl rfl
      | exact fetched
      | exact fetched.trans (.pwrite _ _ _ _ _)
      | exact (fetched.trans (.pwrite _ _ _ _ _)).trans (ih _ _ _ _)

theorem Sound.sendfile (sound : st.Sound) (out src : Int) (off cb : U64) :
    (st.vfsRamSendfile out src off cb).2.2.Sound := by
  unfold vfsRamSendfile
  split_ifs
  · exact sound
  · exact (Moves.sendLoop ..).sound sound

theorem Sound.copyFileRange (sound : st.Sound) (src out : Int) (offIn offOut cb : U64) :
    (st.vfsRamCopyFileRange src out offIn offOut cb).2.2.2.Sound := by
  unfold vfsRamCopyFileRange
  split_ifs
  · exact sound
  · exact (Moves.copyLoop ..).sound sound

theorem Sound.mountFile (sound : st.Sound) (k : Fin vfsMaxFiles) (kind : VfsKind) (path : Path) :
    (st.mountFile k kind path).Sound :=
  (sound.setFile (Nat.zero_le _)).make

theorem Sound.mountBlk (sound : st.Sound) : st.vfsRamMountBlk.Sound := by
  unfold vfsRamMountBlk
  repeat' split
  all_goals first | exact sound | exact (sound.mountFile _ _ _).keep rfl rfl

theorem Sound.mountScsi (sound : st.Sound) (capacity : Option (U32 × U32)) :
    (st.vfsRamMountScsi capacity).Sound := by
  unfold vfsRamMountScsi
  dsimp only
  repeat' split
  all_goals first
    | exact sound
    | exact sound.keep rfl rfl
    | exact ((sound.keep rfl rfl : Sound { st with scsiCapBytes := _ }).mountFile _ _ _).keep
        rfl rfl

theorem Sound.seedFile (sound : st.Sound) (path text : Path) : (st.seedFile path text).Sound := by
  unfold Vfs.seedFile
  split_ifs
  · exact sound
  · split
    · exact sound
    · refine (sound.setFile ?_).make
      simp only [toNat_ofNat]
      omega

theorem vfsRamInit_sound (blk scsi : Disk) : (vfsRamInit blk scsi).Sound := by
  have cleared : (cleared blk scsi).Sound :=
    ⟨fun _ => Nat.zero_le _, fun _ _ => Nat.zero_lt_succ _⟩
  have seeded (list : List (String × String)) : ∀ st : Vfs, st.Sound →
      (list.foldl (fun st seed => st.seedFile (bytesOf seed.1) (bytesOf seed.2)) st).Sound := by
    induction list with
    | nil => exact fun _ sound => sound
    | cons seed rest ih =>
      exact fun st sound => ih _ (sound.seedFile _ _)
  exact seeded _ _ cleared

end Vfs

/-- Every call keeps the bounds. -/
theorem VfsCall.sound {st : Vfs} (sound : st.Sound) (call : VfsCall) : (call.run st).Sound := by
  cases call with
  | mountBlk => exact sound.mountBlk
  | mountScsi capacity => exact sound.mountScsi capacity
  | «open» path create => exact sound.open path create
  | utimens path => exact sound.utimens path
  | link old new => exact sound.link old new
  | rename old new => exact sound.rename old new
  | truncate path len => exact sound.truncate path len
  | ftruncate fd len => exact sound.ftruncate fd len
  | fallocate fd off len => exact sound.fallocate fd off len
  | fallocatePunch fd off len => exact sound.fallocatePunch fd off len
  | lseek fd off whence => exact sound.lseek fd off whence
  | read fd cb => exact (Moves.read st fd cb).sound sound
  | write fd buf cb => exact (Moves.write st fd buf cb).sound sound
  | pread fd cb off => exact (Moves.pread st fd cb off).sound sound
  | pwrite fd buf cb off => exact (Moves.pwrite st fd buf cb off).sound sound
  | sendfile out src off cb => exact sound.sendfile out src off cb
  | copyFileRange src out offIn offOut cb => exact sound.copyFileRange src out offIn offOut cb
  | pipe2 => exact sound.fdCall .pipe2
  | socketpair nType => exact sound.fdCall (.socketpair nType)
  | eventfd2 init => exact sound.fdCall (.eventfd2 init)
  | epollCreate1 => exact sound.fdCall .epollCreate1
  | timerfdCreate => exact sound.fdCall .timerfdCreate
  | inotifyInit1 => exact sound.fdCall .inotifyInit1
  | signalfd4 fd mask => exact sound.fdCall (.signalfd4 fd mask)
  | pidfdOpen pid => exact sound.fdCall (.pidfdOpen pid)
  | ioUringOpen ringSlot => exact sound.fdCall (.ioUringOpen ringSlot)
  | dup fd => exact sound.fdCall (.dup fd)
  | dup2 old new => exact sound.fdCall (.dup2 old new)
  | dupFrom fd min => exact sound.fdCall (.dupFrom fd min)
  | close fd => exact sound.close fd
  -- the others write one row, and leave a file as long as it was or empty
  | mkdir | symlink | unlink | rmdir | chmod | fchmod | markDir | timerfdSettime |
    inotifyAddWatch | inotifyRmWatch | signalfdInject =>
    dsimp only [VfsCall.run, vfsRamMkdir, vfsRamSymlink, vfsRamUnlink,
      vfsRamRmdir, vfsRamChmod, vfsRamFchmod, vfsRamMarkDir,
      vfsRamTimerfdSettime, vfsRamInotifyAddWatch, vfsRamInotifyRmWatch,
      vfsRamSignalfdInject]
    repeat' split
    all_goals first
      | exact sound
      | exact sound.keep rfl rfl
      | exact sound.newFile
      | exact sound.zeroFile
      | exact sound.setFile (sound.files _)
      | exact sound.setFile (Nat.zero_le _)

theorem Vfs.Reachable.sound {st : Vfs} (reachable : st.Reachable) : st.Sound := by
  induction reachable with
  | init blk scsi => exact vfsRamInit_sound blk scsi
  | step before call ih => exact call.sound ih

end GreenJade.Fs

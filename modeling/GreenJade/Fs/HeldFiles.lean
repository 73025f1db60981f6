import GreenJade.Fs.DescriptorIo
import GreenJade.Fs.ObjectLife

/-! Owns what an open descriptor of a RAM file keeps. A descriptor holds an index of the file table;
`vfs_ram_unlink`, `vfs_ram_rmdir` and `vfs_ram_rename` free the slot at once, and the next file
takes the first free slot. Where no file is taken out of the table that a descriptor is open on, a
descriptor keeps its file. -/

namespace GreenJade.Fs

inductive FileCall
  | open (path : Path) (create : Bool)
  | mkdir (path : Path) (mode : U32)
  | link (old new : Path)
  | unlink (path : Path)
  | rmdir (path : Path)
  | rename (old new : Path)
  | access (fd : Int) (buf : Nat → U8) (io : IoCall)

def IoCall.toVfsCall (fd : Int) (buf : Nat → U8) : IoCall → VfsCall
  | .read cb => .read fd cb
  | .write cb => .write fd buf cb
  | .pread cb off => .pread fd cb off
  | .pwrite cb off => .pwrite fd buf cb off

def FileCall.toVfsCall : FileCall → VfsCall
  | .open path create => .open path create
  | .mkdir path mode => .mkdir path mode
  | .link old new => .link old new
  | .unlink path => .unlink path
  | .rmdir path => .rmdir path
  | .rename old new => .rename old new
  | .access fd buf io => io.toVfsCall fd buf

variable (st : Vfs)

def FileCall.step (call : FileCall) : Vfs := VfsCall.run st call.toVfsCall

theorem IoCall.run_toVfsCall (fd : Int) (buf : Nat → U8) (io : IoCall) :
    VfsCall.run st (io.toVfsCall fd buf) = (io.run st fd buf).2.2 := by
  cases io <;> rfl

/-! ### The property -/

/-- The same object with the same bytes; its name and its mode may have changed. -/
structure VfsFile.SameFile (new old : VfsFile) : Prop where
  used : new.used = old.used
  serial : new.serial = old.serial
  cbData : new.cbData = old.cbData
  data : new.data = old.data

namespace Vfs

/-- The file that a descriptor was opened on is in the slot that the descriptor indexes. -/
def Holds (st : Vfs) (i : Fin vfsMaxFds) : Prop :=
  ∃ k, st.OpenedOn i k ∧ (st.files k).used = true

def Held (st : Vfs) : Prop := ∀ i, st.Open i → (st.fds i).kind = .ram → st.Holds i

end Vfs

/-- Reading and writing through a descriptor of a RAM file touch no other file, and fail if the file
is gone; a call on names leaves the files that descriptors are open on as they are. -/
def FileCall.Keeps : FileCall → Prop
  | .access fd buf io => ∀ i, st.fdOk fd = some i → (st.fds i).kind = .ram →
      st.Confined fd i io ∧ ((io.run st fd buf).1 < 0 ∨ st.Holds i)
  | call => ∀ i k, st.Open i → st.OpenedOn i k → (st.files k).used = true →
      ((call.step st).files k).SameFile (st.files k)

/-! ### The condition -/

def FileCall.takesOut : FileCall → Option (Fin vfsMaxFiles)
  | .unlink path =>
    if path = [] ∨ (st.findSymlink (normOrCopy path)).isSome then none
    else (st.findFile (normOrCopy path)).filter fun k =>
      (st.files k).kind = .ram && !(st.files k).isDir
  | .rmdir path =>
    if path = [] ∨ ["/", "/tmp", "/proc", "/dev"].any fun dir =>
        pathEq (normOrCopy path) (bytesOf dir) then none
    else (st.findFile (normOrCopy path)).filter fun k =>
      (st.files k).kind = .ram && (st.files k).isDir && (st.files k).cbData = 0 &&
        !st.hasChild (normOrCopy path) true
  | .rename old new =>
    if old = [] ∨ new = [] ∨ pathEq (normOrCopy old) (normOrCopy new) then none
    else
      match st.findFile (normOrCopy new), st.findSymlink (normOrCopy old),
        st.findFile (normOrCopy old) with
      | some clash, some _, _ => if (st.files clash).isDir then none else some clash
      | some clash, none, some k =>
        if (st.files k).kind ≠ .ram ∨ clash = k ∨ (st.files clash).isDir ≠ (st.files k).isDir ∨
            ((st.files clash).isDir = true ∧
              st.hasChild (st.files clash).path false = true) then none
        else some clash
      | _, _, _ => none
  | _ => none

/-- No descriptor is open on a file that is taken out, and writes do not wrap around. -/
def FileCall.Spares : FileCall → Prop
  | .access fd _ io => ∀ i, st.fdOk fd = some i → (st.fds i).kind = .ram → io.writes = true →
      st.NoWrap i io
  | call => ∀ k, call.takesOut st = some k → ∀ i, st.Open i → (st.fds i).kind = .ram →
      Vfs.slotOf vfsMaxFiles (st.fds i).file ≠ some k

/-! ### Calls on names -/

theorem VfsFile.SameFile.refl (file : VfsFile) : file.SameFile file := ⟨rfl, rfl, rfl, rfl⟩

theorem VfsFile.SameFile.trans {a b c : VfsFile} (left : a.SameFile b) (right : b.SameFile c) :
    a.SameFile c :=
  ⟨left.used.trans right.used, left.serial.trans right.serial, left.cbData.trans right.cbData,
    left.data.trans right.data⟩

namespace Vfs

/-- What a call on names does: it takes at most one file out, leaves the others that are in use, and
gives out descriptors of files that are in use. -/
structure NameStep (st : Vfs) (gone : Option (Fin vfsMaxFiles)) (st' : Vfs) : Prop where
  kept : ∀ k, gone ≠ some k → (st.files k).used = true → (st'.files k).SameFile (st.files k)
  taken : ∀ k, gone = some k → (st.files k).used = true ∧ (st'.files k).used = false
  fds : ∀ i, st'.Open i → (st'.fds i).kind = .ram → (st.Open i ∧ st'.fds i = st.fds i) ∨ st'.Holds i

variable {st st₁ st₂ : Vfs} {gone : Option (Fin vfsMaxFiles)}

theorem NameStep.refl (st : Vfs) : st.NameStep none st where
  kept _ _ _ := .refl _
  taken _ impossible := nomatch impossible
  fds _ isOpen _ := .inl ⟨isOpen, rfl⟩

variable {i : Fin vfsMaxFds} {k : Fin vfsMaxFiles}

theorem OpenedOn.of_same (opened : st.OpenedOn i k)
    (sameFd : st₁.fds i = st.fds i) (same : (st₁.files k).SameFile (st.files k)) :
    st₁.OpenedOn i k := by
  unfold OpenedOn
  rw [sameFd, same.serial]
  exact opened

theorem Holds.of_same (holds : st.Holds i) (sameFd : st₁.fds i = st.fds i)
    (kept : ∀ k, (st.files k).used = true → (st₁.files k).SameFile (st.files k)) :
    st₁.Holds i := by
  obtain ⟨k, opened, used⟩ := holds
  exact ⟨k, opened.of_same sameFd (kept k used), (kept k used).used.trans used⟩

theorem NameStep.trans (first : st.NameStep none st₁) (second : st₁.NameStep none st₂) :
    st.NameStep none st₂ where
  kept k other used :=
    have same := first.kept k other used
    (second.kept k other (same.used.trans used)).trans same
  taken _ impossible := nomatch impossible
  fds i isOpen isRam := by
    rcases second.fds i isOpen isRam with ⟨openBetween, same⟩ | holds
    · rw [same] at isRam
      rcases first.fds i openBetween isRam with ⟨openBefore, sameBefore⟩ | holds
      · exact .inl ⟨openBefore, same.trans sameBefore⟩
      · exact .inr (holds.of_same same fun k => second.kept k nofun)
    · exact .inr holds

/-- Names and modes change, and nothing else. -/
theorem NameStep.relabel (first : st.NameStep gone st₁) (sameFds : st₂.fds = st₁.fds)
    (sameFiles : ∀ k, (st₂.files k).SameFile (st₁.files k)) : st.NameStep gone st₂ where
  kept k other used := (sameFiles k).trans (first.kept k other used)
  taken k is := ⟨(first.taken k is).1, (sameFiles k).used.trans (first.taken k is).2⟩
  fds i isOpen isRam := by
    unfold Open at isOpen
    rw [sameFds] at isOpen isRam
    rcases first.fds i isOpen isRam with ⟨openBefore, same⟩ | holds
    · exact .inl ⟨openBefore, (congrFun sameFds i).trans same⟩
    · exact .inr (holds.of_same (congrFun sameFds i) fun k _ => sameFiles k)

theorem nameStep_fill (free : (st.files k).used = false) (file : VfsFile) :
    st.NameStep none (st.setFile k file) where
  kept j _ used := by
    have other : j ≠ k := by
      rintro rfl
      rw [free] at used
      cases used
    rw [setFile_files, if_neg other]
    exact .refl _
  taken _ impossible := nomatch impossible
  fds _ isOpen _ := .inl ⟨isOpen, rfl⟩

theorem nameStep_zero (used : (st.files k).used = true) :
    st.NameStep (some k) (st.setFile k .zero) where
  kept j other _ := by
    rw [setFile_files, if_neg fun same => other (congrArg some same.symm)]
    exact .refl _
  taken j is := by
    cases is
    refine ⟨used, ?_⟩
    rw [setFile_files, if_pos rfl]
    rfl
  fds _ isOpen _ := .inl ⟨isOpen, rfl⟩

/-- A file is replaced by the same with another name. -/
theorem sameFile_setFile {file : VfsFile} (same : file.SameFile (st.files k))
    (j : Fin vfsMaxFiles) : ((st.setFile k file).files j).SameFile (st.files j) := by
  rw [setFile_files]
  split_ifs with here
  · exact here ▸ same
  · exact .refl _

theorem nameStep_openFile (used : (st.files k).used = true) :
    st.NameStep none (st.openFile k).2 := by
  unfold openFile
  cases found : st.freeFd with
  | none => exact .refl st
  | some fd =>
    refine ⟨fun _ _ _ => .refl _, nofun, fun i isOpen isRam => ?_⟩
    by_cases here : i = fd
    · subst here
      refine .inr ⟨k, ⟨isRam, ?_, ?_⟩, used⟩
      · rw [setFd_fds, if_pos rfl, slotOf_eq_some]
        exact Nat.mod_eq_of_lt (k.isLt.trans (by decide))
      · rw [setFd_fds, if_pos rfl]
        rfl
    · have same : (st.setFd fd { st.fds fd with
          used := true, kind := (st.files k).kind, file := BitVec.ofNat 32 k.val, off := 0
          serial := (st.files k).serial }).fds i = st.fds i := by
        rw [setFd_fds, if_neg here]
      exact .inl ⟨⟨isOpen.1, same ▸ isOpen.2⟩, same⟩

theorem nameStep_newFile (free : st.freeFile = some k) (kind : VfsKind)
    (isDir : Bool) (mode nlink : U32) (path : Path) :
    st.NameStep none (st.newFile k kind isDir mode nlink path) :=
  (nameStep_fill (firstFree_eq_some free) _).relabel rfl fun _ => .refl _

theorem nameStep_newFile_openFile (free : st.freeFile = some k)
    (kind : VfsKind) (isDir : Bool) (mode nlink : U32) (path : Path) :
    st.NameStep none ((st.newFile k kind isDir mode nlink path).openFile k).2 := by
  refine (nameStep_newFile free kind isDir mode nlink path).trans (nameStep_openFile ?_)
  unfold newFile make
  rw [setFile_files, if_pos rfl]

theorem nameStep_open (path : Path) (create : Bool) :
    st.NameStep none (st.vfsRamOpen path create).2 := by
  unfold vfsRamOpen
  dsimp only
  split
  · exact .refl st
  · split
    · next k found => exact nameStep_openFile (findFile_eq_some found).1
    · repeat' split
      all_goals first
        | exact .refl st
        | exact nameStep_newFile_openFile (by assumption) _ _ _ _ _

theorem nameStep_mkdir (path : Path) (mode : U32) :
    st.NameStep none (st.vfsRamMkdir path mode).2 := by
  unfold vfsRamMkdir
  dsimp only
  repeat' split
  all_goals first
    | exact .refl st
    | exact nameStep_newFile (by assumption) _ _ _ _ _

theorem nameStep_link (old new : Path) : st.NameStep none (st.vfsRamLink old new).2 := by
  unfold vfsRamLink
  dsimp only
  split
  · exact .refl st
  · split
    · exact .refl st
    · next iOld found =>
        repeat' split
        any_goals exact .refl st
        next iNew free =>
          have filled := nameStep_fill (firstFree_eq_some free) { st.files iOld with
            path := pathCopy (normOrCopy new), nlink := (st.files iOld).nlink + 1
            serial := st.made }
          refine filled.relabel rfl fun k => sameFile_setFile ⟨?_, ?_, ?_, ?_⟩ k
          all_goals
            rw [setFile_files, if_neg]
            rintro rfl
            have used := (findFile_eq_some found).1
            rw [firstFree_eq_some free] at used
            cases used

theorem nameStep_unlink (path : Path) :
    st.NameStep (FileCall.takesOut st (.unlink path)) (st.vfsRamUnlink path).2 := by
  unfold vfsRamUnlink FileCall.takesOut
  dsimp only
  by_cases empty : path = []
  · rw [if_pos empty, if_pos (.inl empty)]
    exact .refl st
  · rw [if_neg empty]
    cases st.findSymlink (normOrCopy path) with
    | some s =>
      rw [if_pos (.inr rfl)]
      exact (NameStep.refl st).relabel rfl fun _ => .refl _
    | none =>
      rw [if_neg (by simp [empty])]
      cases found : st.findFile (normOrCopy path) with
      | none => exact .refl st
      | some k =>
        have used := (findFile_eq_some found).1
        rw [Option.filter_some]
        by_cases isRam : (st.files k).kind = .ram <;> cases isDir : (st.files k).isDir <;>
          simp [isRam, isDir] <;> first | exact .refl st | exact nameStep_zero used

theorem nameStep_rmdir (path : Path) :
    st.NameStep (FileCall.takesOut st (.rmdir path)) (st.vfsRamRmdir path).2 := by
  unfold vfsRamRmdir FileCall.takesOut
  dsimp only
  by_cases empty : path = []
  · rw [if_pos empty, if_pos (.inl empty)]
    exact .refl st
  rw [if_neg empty]
  by_cases busy : (["/", "/tmp", "/proc", "/dev"].any fun dir =>
      pathEq (normOrCopy path) (bytesOf dir)) = true
  · rw [if_pos busy, if_pos (.inr busy)]
    exact .refl st
  rw [if_neg busy, if_neg fun either => either.elim empty busy]
  cases found : st.findFile (normOrCopy path) with
  | none => exact .refl st
  | some k =>
    have used := (findFile_eq_some found).1
    rw [Option.filter_some]
    by_cases isRam : (st.files k).kind = .ram <;> cases isDir : (st.files k).isDir <;>
      by_cases short : (st.files k).cbData = 0#32 <;>
      cases st.hasChild (normOrCopy path) true <;>
      simp [isRam, isDir, short] <;> first | exact .refl st | exact nameStep_zero used

theorem NameStep.renameFile (first : st.NameStep gone st₁) (k : Fin vfsMaxFiles) (new : Path) :
    st.NameStep gone (st₁.renameFile k new) := by
  refine first.relabel (dropSymlink_tables new).2 fun j => ?_
  rw [← show (st₁.dropSymlink new).files j = st₁.files j from congrFun (dropSymlink_tables new).1 j]
  apply sameFile_setFile
  exact ⟨rfl, rfl, rfl, rfl⟩

theorem nameStep_renameSymlink (st : Vfs) (s : Fin vfsMaxSymlinks) (new : Path) :
    st.NameStep
      (match st.findFile new with
        | some clash => if (st.files clash).isDir then none else some clash
        | none => none)
      (st.renameSymlink s new).2 := by
  have dropped : st.NameStep none (st.dropClash s new) :=
    (NameStep.refl st).relabel (dropClash_tables s new).2 fun k => by
      rw [(dropClash_tables s new).1]
      exact .refl _
  have sameFound : (st.dropClash s new).findFile new = st.findFile new := by
    unfold findFile
    rw [(dropClash_tables s new).1]
  unfold Vfs.renameSymlink
  dsimp only
  rw [sameFound, (dropClash_tables s new).1]
  cases found : st.findFile new with
  | none => exact dropped.relabel rfl fun _ => .refl _
  | some clash =>
    dsimp only
    by_cases isDir : (st.files clash).isDir = true
    · rw [if_pos isDir, if_pos isDir]
      exact dropped
    · rw [if_neg isDir, if_neg isDir]
      refine (nameStep_zero (findFile_eq_some found).1).relabel (dropClash_tables s new).2
        fun k => ?_
      simp only [setFile, (dropClash_tables s new).1]
      exact .refl _

theorem nameStep_rename (old new : Path) :
    st.NameStep (FileCall.takesOut st (.rename old new)) (st.vfsRamRename old new).2 := by
  unfold vfsRamRename FileCall.takesOut
  dsimp only
  by_cases empty : old = [] ∨ new = []
  · rw [if_pos empty, if_pos (or_assoc.mp (.inl empty))]
    exact .refl st
  rw [if_neg empty]
  by_cases same : pathEq (normOrCopy old) (normOrCopy new) = true
  · rw [if_pos same, if_pos (.inr (.inr same))]
    exact .refl st
  rw [if_neg same, if_neg fun either => (or_assoc.mpr either).elim empty same]
  cases sym : st.findSymlink (normOrCopy old) with
  | some s =>
    have renamed := st.nameStep_renameSymlink s (normOrCopy new)
    cases found : st.findFile (normOrCopy new) <;> rw [found] at renamed <;> exact renamed
  | none =>
    cases source : st.findFile (normOrCopy old) with
    | none => cases st.findFile (normOrCopy new) <;> exact .refl st
    | some k =>
      cases found : st.findFile (normOrCopy new) with
      | none =>
        dsimp only
        split
        · exact .refl st
        · exact (NameStep.refl st).renameFile k _
      | some clash =>
        have removed := nameStep_zero (findFile_eq_some found).1
        by_cases isRam : (st.files k).kind = .ram <;> by_cases own : clash = k <;>
          cases clashDir : (st.files clash).isDir <;> cases isDir : (st.files k).isDir <;>
          cases child : st.hasChild (st.files clash).path false <;>
          simp [isRam, own, clashDir, isDir, child] <;>
          first
            | exact .refl st
            | exact (NameStep.refl st).renameFile k _
            | exact removed.renameFile k _

/-! ### Reading and writing -/

theorem moves_run (st : Vfs) (fd : Int) (buf : Nat → U8) (io : IoCall) :
    st.Moves (io.run st fd buf).2.2 := by
  cases io with
  | read cb => exact .read st fd cb
  | write cb => exact .write st fd buf cb
  | pread cb off => exact .pread st fd cb off
  | pwrite cb off => exact .pwrite st fd buf cb off

/-- Files stay where they are, and descriptors change in their offset only. -/
theorem Held.of_moves (held : st.Held) (moves : st.Moves st₁) : st₁.Held := by
  intro i isOpen isRam
  obtain ⟨off, entry⟩ := moves.fds i
  unfold Open at isOpen
  rw [entry] at isOpen isRam
  obtain ⟨k, opened, used⟩ := held i isOpen isRam
  obtain ⟨data, cbData, file, -⟩ := moves.files k
  refine ⟨k, ?_, by rw [file]; exact used⟩
  unfold OpenedOn
  rw [entry, file]
  exact opened

/-- A descriptor that holds its file reads and writes no other. -/
theorem Holds.confined_iff {fd : Int} (sound : st.Sound)
    (isOpen : st.fdOk fd = some i) (holds : st.Holds i) (io : IoCall) :
    st.Confined fd i io ↔ (io.writes = true → st.NoWrap i io) := by
  obtain ⟨k, opened, -⟩ := holds
  have at_ : st.Uncaught fd i io k := ⟨isOpen, by rw [opened.1]; rfl, opened.2.1⟩
  cases writes : io.writes with
  | false =>
    rw [confined_read_iff sound at_ writes]
    exact iff_of_true (.inr (.inl opened)) nofun
  | true =>
    rw [at_.confined_write_iff writes]
    exact ⟨fun both _ => both.1, fun noWrap => ⟨noWrap rfl, .inr (.inl opened)⟩⟩

/-! ### Steps -/

/-- No descriptor is open on what is taken out. -/
def Unopened (st : Vfs) (gone : Option (Fin vfsMaxFiles)) : Prop :=
  ∀ k, gone = some k → ∀ i, st.Open i → (st.fds i).kind = .ram →
    slotOf vfsMaxFiles (st.fds i).file ≠ some k

theorem NameStep.keeps_iff (step : st.NameStep gone st₁) (held : st.Held) :
    (∀ i k, st.Open i → st.OpenedOn i k → (st.files k).used = true →
      (st₁.files k).SameFile (st.files k)) ↔ st.Unopened gone := by
  constructor
  · intro keeps k is i isOpen isRam slot
    obtain ⟨used, freed⟩ := step.taken k is
    obtain ⟨j, opened, -⟩ := held i isOpen isRam
    cases slot.symm.trans opened.2.1
    rw [(keeps i k isOpen opened used).used, used] at freed
    cases freed
  · intro unopened i k isOpen opened used
    exact step.kept k (fun is => unopened k is i isOpen opened.1 opened.2.1) used

theorem NameStep.held (step : st.NameStep gone st₁) (held : st.Held) (unopened : st.Unopened gone) :
    st₁.Held := by
  intro i isOpen isRam
  rcases step.fds i isOpen isRam with ⟨openBefore, same⟩ | holds
  · rw [same] at isRam
    obtain ⟨k, opened, used⟩ := held i openBefore isRam
    have kept := step.kept k (fun is => unopened k is i openBefore isRam opened.2.1) used
    exact ⟨k, opened.of_same same kept, kept.used.trans used⟩
  · exact holds

end Vfs

namespace FileCall

open Vfs

variable {st : Vfs}

/-- All calls but reading and writing are calls on names. -/
theorem named_or_access (st : Vfs) (call : FileCall) :
    (st.NameStep (call.takesOut st) (call.step st) ∧
      (call.Spares st ↔ st.Unopened (call.takesOut st)) ∧
      (call.Keeps st ↔ ∀ i k, st.Open i → st.OpenedOn i k → (st.files k).used = true →
        ((call.step st).files k).SameFile (st.files k))) ∨
    ∃ fd buf io, call = .access fd buf io := by
  cases call with
  | «open» path create => exact .inl ⟨nameStep_open path create, .rfl, .rfl⟩
  | mkdir path mode => exact .inl ⟨nameStep_mkdir path mode, .rfl, .rfl⟩
  | link old new => exact .inl ⟨nameStep_link old new, .rfl, .rfl⟩
  | unlink path => exact .inl ⟨nameStep_unlink path, .rfl, .rfl⟩
  | rmdir path => exact .inl ⟨nameStep_rmdir path, .rfl, .rfl⟩
  | rename old new => exact .inl ⟨nameStep_rename old new, .rfl, .rfl⟩
  | access fd buf io => exact .inr ⟨fd, buf, io, rfl⟩

theorem held (held : st.Held) (call : FileCall) (spares : call.Spares st) :
    (call.step st).Held := by
  rcases call.named_or_access st with ⟨step, sparesIff, -⟩ | ⟨fd, buf, io, rfl⟩
  · exact step.held held (sparesIff.mp spares)
  · refine held.of_moves ?_
    rw [FileCall.step, FileCall.toVfsCall, IoCall.run_toVfsCall]
    exact st.moves_run fd buf io

theorem keeps_iff_spares (sound : st.Sound) (held : st.Held) (call : FileCall) :
    call.Keeps st ↔ call.Spares st := by
  rcases call.named_or_access st with ⟨step, sparesIff, keepsIff⟩ | ⟨fd, buf, io, rfl⟩
  · rw [keepsIff, sparesIff]
    exact step.keeps_iff held
  · refine forall_congr' fun i => forall_congr' fun isOpen => forall_congr' fun isRam => ?_
    have fields := fdOk_eq_some.mp isOpen
    have holds := held i ⟨by omega, fields.2.2⟩ isRam
    rw [← holds.confined_iff sound isOpen io]
    exact and_iff_left (.inr holds)

end FileCall

/-- Along a run, reading and writing through descriptors of RAM files stay with the files that these
were opened on, exactly if no step takes a file out of the table that a descriptor is open on and no
write wraps around. -/
theorem fileRuns_keep_iff {st : Vfs} (reachable : st.Reachable) (held : st.Held)
    (run : List FileCall) :
    (∀ front call back, run = front ++ call :: back →
      call.Keeps (front.foldl FileCall.step st)) ↔
      StepRuns.Meets FileCall.step FileCall.Spares st run := by
  have keeps (st : Vfs) (call : FileCall) (before : st.Reachable ∧ st.Held)
      (spares : call.Spares st) : (call.step st).Reachable ∧ (call.step st).Held :=
    ⟨before.1.step call.toVfsCall, call.held before.2 spares⟩
  have exactly (st : Vfs) (call : FileCall) (before : st.Reachable ∧ st.Held) :
      call.Keeps st ↔ call.Spares st :=
    call.keeps_iff_spares before.1.sound before.2
  exact (StepRuns.meets_iff_steps keeps exactly ⟨reachable, held⟩).symm

theorem Vfs.seedFile_fds (st : Vfs) (path text : Path) : (st.seedFile path text).fds = st.fds := by
  unfold Vfs.seedFile
  repeat' split
  all_goals rfl

theorem Vfs.vfsRamInit_held (blk scsi : Disk) : (Vfs.vfsRamInit blk scsi).Held := by
  have seeded (list : List (String × String)) : ∀ st : Vfs,
      (list.foldl (fun st seed => st.seedFile (bytesOf seed.1) (bytesOf seed.2)) st).fds =
        st.fds := by
    induction list with
    | nil => exact fun _ => rfl
    | cons seed rest ih =>
      exact fun st => (ih _).trans (st.seedFile_fds _ _)
  intro i isOpen
  have unused : ((Vfs.vfsRamInit blk scsi).fds i).used = false := by
    unfold Vfs.vfsRamInit
    rw [seeded]
    rfl
  exact absurd isOpen.2 (unused ▸ Bool.false_ne_true)

def sampleFiles (calls : List FileCall) : Vfs :=
  calls.foldl FileCall.step (Vfs.vfsRamInit sampleDisk sampleDisk)

/-- A file is opened as descriptor 3 and removed; the next file is made in its slot, and a byte is
written to it through descriptor 4. -/
def sampleReopened : List FileCall :=
  [.open (bytesOf "/tmp/a") true, .unlink (bytesOf "/tmp/a"), .open (bytesOf "/tmp/b") true,
    .access 4 (fun _ => 120) (.write 1)]

/-- The descriptor of the file that is gone reads the byte of the new one. -/
theorem fileRuns_reused_slot :
    ((sampleFiles sampleReopened).vfsRamRead 3 16).2.1 = [120] ∧
      ¬∀ front call back, sampleReopened ++ [.access 3 (fun _ => 0) (.read 16)] =
        front ++ call :: back → call.Keeps (sampleFiles front) := by
  have facts : (sampleFiles sampleReopened).fdOk 3 = some 3 ∧
      (sampleFiles sampleReopened).fds 3 =
        { used := true, kind := .ram, fdEnd := 0, file := 24, off := 0, serial := 24 } ∧
      ((sampleFiles sampleReopened).files 24).serial = 25 ∧
      ((sampleFiles sampleReopened).vfsRamRead 3 16).1 = 1 ∧
      ((sampleFiles sampleReopened).vfsRamRead 3 16).2.1 = [120] := by decide +kernel
  obtain ⟨isOpen, entry, number, result, bytes⟩ := facts
  refine ⟨bytes, fun keeps => ?_⟩
  rcases (keeps _ _ [] rfl 3 isOpen (congrArg VfsFd.kind entry)).2 with fails | ⟨k, opened, -⟩
  · change ((sampleFiles sampleReopened).vfsRamRead 3 16).1 < 0 at fails
    rw [result] at fails
    exact absurd fails (by decide)
  · obtain ⟨-, slot, serial⟩ := opened
    rw [entry] at slot serial
    have here : Vfs.slotOf vfsMaxFiles 24 = some 24 := by decide
    cases here.symm.trans slot
    rw [number] at serial
    exact absurd serial (by decide)

/-- A write at the start of a file does not wrap around. -/
theorem FileCall.spares_write {st : Vfs} {fd : Int} {i : Fin vfsMaxFds}
    (isOpen : st.fdOk fd = some i) (start : (st.fds i).off = 0) (buf : Nat → U8) (cb : U64) :
    (FileCall.access fd buf (.write cb)).Spares st := by
  intro j found _ _
  cases isOpen.symm.trans found
  refine .inl ?_
  change ((st.fds i).off.setWidth 32 : U32).toNat + (cb.setWidth 32 : U32).toNat < 2 ^ 32
  rw [start]
  simpa using (cb.setWidth 32 : U32).isLt

/-- A file is opened, written and read. -/
theorem fileRuns_keep_hostname :
    (sampleFiles [.open (bytesOf "/etc/hostname") false]).fdOk 3 = some 3 ∧
    ∀ front call back,
      [.open (bytesOf "/etc/hostname") false, .access 3 (fun _ => 120) (.write 3),
        .access 3 (fun _ => 0) (.pread 16 0)] = front ++ call :: back →
      FileCall.Keeps (front.foldl FileCall.step (Vfs.vfsRamInit sampleDisk sampleDisk)) call := by
  have opened : (sampleFiles [.open (bytesOf "/etc/hostname") false]).fdOk 3 = some 3 ∧
      ((sampleFiles [.open (bytesOf "/etc/hostname") false]).fds 3).off = 0 := by decide +kernel
  refine ⟨opened.1, (fileRuns_keep_iff (.init sampleDisk sampleDisk)
    (Vfs.vfsRamInit_held sampleDisk sampleDisk) _).mpr ⟨nofun, ?_, ?_, trivial⟩⟩
  · exact FileCall.spares_write opened.1 opened.2 _ _
  · exact fun _ _ _ writes => absurd writes Bool.false_ne_true

end GreenJade.Fs

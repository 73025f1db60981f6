import GreenJade.Fs.RamNames

/-! Owns what the calls that open, copy and close descriptors do to the tables: which numbers they
take, what an entry is after them, and what is left of the files. -/

namespace GreenJade.Fs

open Vfs

def Vfs.Open (st : Vfs) (fd : Fin vfsMaxFds) : Prop := 3 ≤ fd.val ∧ (st.fds fd).used = true

inductive FdCall
  | open (path : Path) (create : Bool)
  | pipe2
  | socketpair (nType : Int)
  | eventfd2 (init : U32)
  | epollCreate1
  | timerfdCreate
  | inotifyInit1
  | signalfd4 (fd : Int) (mask : U64)
  | pidfdOpen (pid : U32)
  | ioUringOpen (ringSlot : U32)
  | dup (fd : Int)
  | dup2 (old new : Int)
  | dupFrom (fd min : Int)
  | close (fd : Int)

namespace FdCall

def run (st : Vfs) : FdCall → Vfs
  | .open path create => (st.vfsRamOpen path create).2
  | .pipe2 => st.vfsRamPipe2.2
  | .socketpair nType => (st.vfsRamSocketpair nType).2
  | .eventfd2 init => (st.vfsRamEventfd2 init).2
  | .epollCreate1 => st.vfsRamEpollCreate1.2
  | .timerfdCreate => st.vfsRamTimerfdCreate.2
  | .inotifyInit1 => st.vfsRamInotifyInit1.2
  | .signalfd4 fd mask => (st.vfsRamSignalfd4 fd mask).2
  | .pidfdOpen pid => (st.vfsRamPidfdOpen pid).2
  | .ioUringOpen ringSlot => (st.vfsRamIoUringOpen ringSlot).2
  | .dup fd => (st.vfsRamDup fd).2
  | .dup2 old new => (st.vfsRamDup2 old new).2
  | .dupFrom fd min => (st.vfsRamDupFrom fd min).2
  | .close fd => (st.vfsRamClose fd).2

/-- The numbers that a call takes if it succeeds: the first free ones, or the one that it is
told. -/
def takes (st : Vfs) : FdCall → List (Fin vfsMaxFds)
  | .close _ => []
  | .dup2 _ new =>
    if target : 3 ≤ new ∧ new < vfsMaxFds then [⟨new.toNat, Vfs.toNat_lt_maxFds target⟩] else []
  | .dupFrom _ min => (st.freeFdFrom (if min < 3 then 3 else min).toNat).toList
  | .pipe2 | .socketpair _ =>
    match st.freeFd with
    | none => []
    | some fd => fd :: (st.freeFdFrom (fd.val + 1)).toList
  | _ => st.freeFd.toList

/-- The descriptor that a call closes: `dup2` closes the one whose number it is told. -/
def closes (st : Vfs) : FdCall → Option (Fin vfsMaxFds)
  | .close fd => st.fdOk fd
  | .dup2 old new => if (st.fdOk old).isSome ∧ old ≠ new then st.fdOk new else none
  | _ => none

/-- What an entry of the table is after a call. -/
inductive Entry (st : Vfs) (call : FdCall) (i : Fin vfsMaxFds) : VfsFd → Prop
  | kept (untouched : call.closes st ≠ some i) : Entry st call i (st.fds i)
  | closed (closes : call.closes st = some i) : Entry st call i { st.fds i with used := false }
  | copied (j : Fin vfsMaxFds) (isOpen : st.Open j) (takes : i ∈ call.takes st)
      (free : call.closes st ≠ some i → (st.fds i).used = false) :
      Entry st call i { st.fds j with used := true }
  | opened (entry : VfsFd) (used : entry.used = true) (takes : i ∈ call.takes st)
      (free : (st.fds i).used = false)
      (kind : (∃ k, entry.kind = (st.files k).kind) ∨ entry.kind ≠ .iouring ∨
        call = .ioUringOpen entry.file ∧ st.freeFd = some i)
      (inTable : entry.kind = .ram → entry.file.toNat < vfsMaxFiles) : Entry st call i entry

/-- Files and symlinks stay as they are, but for a file that `vfs_ram_open` makes. -/
structure Leaves (st : Vfs) (call : FdCall) (st' : Vfs) : Prop where
  files : ∀ k, st'.files k = st.files k ∨ (∃ path create, call = .open path create) ∧
    (st'.files k).kind = .ram ∧ (st'.files k).cbData = 0
  syms : st'.syms = st.syms

structure Effect (st : Vfs) (call : FdCall) (st' : Vfs) : Prop extends Leaves st call st' where
  entry : ∀ i, Entry st call i (st'.fds i)

section Effects

variable {st base : Vfs} {call : FdCall} {i fd : Fin vfsMaxFds} {k : Fin vfsMaxFiles}

theorem Effect.make (effect : Effect st call base) : Effect st call base.make :=
  ⟨⟨effect.files, effect.syms⟩, effect.entry⟩

section

variable (closes : call.closes st = none)
include closes

theorem Effect.refl (fds : base.fds = st.fds)
    (leaves : Leaves st call base) : Effect st call base := by
  refine ⟨leaves, fun i => ?_⟩
  rw [fds]
  exact .kept (closes ▸ nofun)

/-- A call that fails. -/
theorem Effect.fails : Effect st call st := .refl closes rfl ⟨fun _ => .inl rfl, rfl⟩

/-- A call that writes one free entry. -/
theorem Effect.setFd {entry : VfsFd} (fds : base.fds = st.fds)
    (leaves : Leaves st call base) (free : (st.fds fd).used = false) (takes : fd ∈ call.takes st)
    (used : entry.used = true)
    (kind : (∃ k, entry.kind = (st.files k).kind) ∨ entry.kind ≠ .iouring ∨
      call = .ioUringOpen entry.file ∧ st.freeFd = some fd)
    (inTable : entry.kind = .ram → entry.file.toNat < vfsMaxFiles) :
    Effect st call (base.setFd fd entry) := by
  refine ⟨⟨leaves.files, leaves.syms⟩, fun i => ?_⟩
  rw [setFd_fds, fds]
  split_ifs with here
  · subst here
    exact .opened entry used takes free kind inTable
  · exact .kept (closes ▸ nofun)

/-- A copy of an open descriptor at a free number. -/
theorem Effect.copy {j : Fin vfsMaxFds} (isOpen : st.Open j)
    (free : (st.fds fd).used = false) (takes : fd ∈ call.takes st) :
    Effect st call (st.setFd fd { st.fds j with used := true }) := by
  refine ⟨⟨fun _ => .inl rfl, rfl⟩, fun i => ?_⟩
  rw [setFd_fds]
  split_ifs with here
  · subst here
    exact .copied j isOpen takes fun _ => free
  · exact .kept (closes ▸ nofun)

end

theorem freeFd_free (found : st.freeFd = some fd) : (st.fds fd).used = false :=
  (freeFdFrom_eq_some found).1

theorem mem_takes (takes : call.takes st = st.freeFd.toList) (found : st.freeFd = some fd) :
    fd ∈ call.takes st := by
  rw [takes, found]
  exact List.mem_singleton_self fd

theorem isOpen_of_fdOk {n : Int} (found : st.fdOk n = some i) : st.Open i := by
  obtain ⟨same, low, used⟩ := fdOk_eq_some.mp found
  exact ⟨by omega, used⟩

theorem effect_makeObject {n : Nat} {taken : Fin n → Bool} {fill : Fin n → Vfs → Vfs}
    {kind : VfsKind} (closes : call.closes st = none) (takes : call.takes st = st.freeFd.toList)
    (fds : ∀ k, (fill k st).fds = st.fds) (leaves : ∀ k, Leaves st call (fill k st))
    (noRing : kind ≠ .iouring) (noFile : kind ≠ .ram) :
    Effect st call (st.makeObject taken fill kind).2 := by
  unfold makeObject
  cases firstFree taken with
  | none => exact .fails closes
  | some k =>
    cases found : st.freeFd with
    | none => exact .fails closes
    | some fd =>
      exact (Effect.setFd closes (fds k) (leaves k) (freeFd_free found) (mem_takes takes found) rfl
        (.inr (.inl noRing)) fun isFile => absurd isFile noFile).make

theorem effect_openFile (closes : call.closes st = none)
    (takes : call.takes st = st.freeFd.toList) (fds : base.fds = st.fds)
    (leaves : Leaves st call base)
    (kind : (∃ j, (base.files k).kind = (st.files j).kind) ∨ (base.files k).kind ≠ .iouring) :
    Effect st call (base.openFile k).2 := by
  have free : base.freeFd = st.freeFd := by
    unfold freeFd freeFdFrom
    rw [fds]
  unfold openFile
  rw [free]
  cases found : st.freeFd with
  | none => exact .refl closes fds leaves
  | some fd =>
    refine .setFd closes fds leaves (freeFd_free found) (mem_takes takes found) rfl
      (kind.imp_right .inl) fun _ => ?_
    exact (Nat.mod_le ..).trans_lt k.isLt

theorem effect_open (path : Path) (create : Bool) :
    Effect st (.open path create) (st.vfsRamOpen path create).2 := by
  have made {k : Fin vfsMaxFiles} {isDir : Bool} {mode nlink : U32} {resolved : Path} :
      Effect st (.open path create)
        ((st.newFile k .ram isDir mode nlink resolved).openFile k).2 := by
    have files (j : Fin vfsMaxFiles) : (st.newFile k .ram isDir mode nlink resolved).files j =
        if j = k then _ else st.files j := setFile_files ..
    refine effect_openFile rfl rfl rfl ⟨fun j => ?_, rfl⟩ (.inr ?_)
    · rw [files]
      split_ifs
      · exact .inr ⟨⟨path, create, rfl⟩, rfl, rfl⟩
      · exact .inl rfl
    · rw [files, if_pos rfl]
      exact nofun
  unfold vfsRamOpen
  split
  · exact .fails rfl
  dsimp only
  cases st.findFile (st.resolveOrNorm path) with
  | some k => exact effect_openFile rfl rfl rfl ⟨fun _ => .inl rfl, rfl⟩ (.inl ⟨k, rfl⟩)
  | none =>
    cases st.freeFile with
    | none => split_ifs <;> exact .fails rfl
    | some k =>
      split_ifs
      · exact made
      · exact .fails rfl
      · exact made

theorem effect_pipeAllocPair (closes : call.closes st = none)
    (takes : call.takes st = FdCall.pipe2.takes st) : Effect st call st.pipeAllocPair.2 := by
  unfold pipeAllocPair
  cases firstFree fun k => (st.pipes k).used with
  | none => exact .fails closes
  | some k =>
    cases found : st.freeFd with
    | none => exact .fails closes
    | some fd0 =>
      dsimp only
      cases second : st.freeFdFrom (fd0.val + 1) with
      | none => exact .fails closes
      | some fd1 =>
        have taken : call.takes st = [fd0, fd1] := by
          rw [takes]
          unfold FdCall.takes
          rw [found]
          dsimp only
          rw [second]
          rfl
        refine Effect.make ⟨⟨fun _ => .inl rfl, rfl⟩, fun i => ?_⟩
        simp only [openFd, setFd_fds]
        split_ifs with last first
        · subst last
          exact .opened _ rfl (by simp [taken]) (freeFdFrom_eq_some second).1
            (.inr (.inl nofun)) nofun
        · subst first
          exact .opened _ rfl (by simp [taken]) (freeFd_free found) (.inr (.inl nofun)) nofun
        · exact .kept (closes ▸ nofun)

/-! ### Closing and copying -/

/-- The tables of files, symlinks and descriptors are other tables than those of the objects. -/
theorem releaseObject_tables (entry : VfsFd) : (st.releaseObject entry).files = st.files ∧
    (st.releaseObject entry).syms = st.syms ∧ (st.releaseObject entry).fds = st.fds := by
  unfold releaseObject
  repeat' split
  all_goals exact ⟨rfl, rfl, rfl⟩

theorem vfsRamClose_tables (n : Int) : (st.vfsRamClose n).2.files = st.files ∧
    (st.vfsRamClose n).2.syms = st.syms := by
  unfold vfsRamClose
  cases st.fdOk n with
  | none => exact ⟨rfl, rfl⟩
  | some i => exact (releaseObject_tables _).imp_right And.left

theorem vfsRamClose_fds {n : Int} (found : st.fdOk n = some i) : (st.vfsRamClose n).2.fds =
    Function.update st.fds i { st.fds i with used := false } := by
  simp [vfsRamClose, found, setFd, (releaseObject_tables _).2.2, epollDetachFd]

theorem effect_close (n : Int) : Effect st (.close n) (st.vfsRamClose n).2 := by
  cases found : st.fdOk n with
  | none =>
    have closes : (FdCall.close n).closes st = none := found
    unfold vfsRamClose
    rw [found]
    exact .fails closes
  | some j =>
    have closes : (FdCall.close n).closes st = some j := found
    obtain ⟨files, syms⟩ : (st.vfsRamClose n).2.files = st.files ∧ _ := vfsRamClose_tables n
    refine ⟨⟨fun k => .inl (by rw [files]), syms⟩, fun i => ?_⟩
    rw [vfsRamClose_fds found, Function.update_apply]
    split_ifs with here
    · subst here
      exact .closed closes
    · exact .kept fun same => here (Option.some.inj (same.symm.trans closes))

/-- `dup2` writes a copy at the number that it is told, after closing what was there. -/
theorem effect_overwrite {old new : Int} {j : Fin vfsMaxFds} (found : st.fdOk old = some j)
    (target : 3 ≤ new ∧ new < vfsMaxFds) (different : old ≠ new) :
    let k : Fin vfsMaxFds := ⟨new.toNat, Vfs.toNat_lt_maxFds target⟩
    let closed := if (st.fds k).used then (st.vfsRamClose new).2 else st
    Effect st (.dup2 old new) (closed.setFd k { closed.fds j with used := true }) := by
  intro k closed
  have closes : (FdCall.dup2 old new).closes st = st.fdOk new := by
    simp [FdCall.closes, found, different]
  have takes : k ∈ (FdCall.dup2 old new).takes st := by
    show k ∈ dite _ _ _
    rw [dif_pos target]
    exact List.mem_singleton_self k
  have number : (k.val : Int) = new := Int.toNat_of_nonneg (by omega)
  have source : j ≠ k := by
    rintro rfl
    exact different ((fdOk_eq_some.mp found).1.symm.trans number)
  have tables : closed.files = st.files ∧ closed.syms = st.syms := by
    dsimp only [closed]
    split_ifs
    · exact vfsRamClose_tables new
    · exact ⟨rfl, rfl⟩
  have others (m : Fin vfsMaxFds) (other : m ≠ k) : closed.fds m = st.fds m := by
    dsimp only [closed]
    split_ifs with taken
    · rw [vfsRamClose_fds (fdOk_eq_some.mpr ⟨number, target.1, taken⟩),
        Function.update_of_ne other]
    · rfl
  refine ⟨⟨fun m => .inl (congrFun tables.1 m), tables.2⟩, fun i => ?_⟩
  rw [setFd_fds, others j source]
  split_ifs with here
  · subst here
    refine .copied j (isOpen_of_fdOk found) takes fun untouched => ?_
    by_contra taken
    rw [Bool.not_eq_false] at taken
    exact untouched (closes.trans (fdOk_eq_some.mpr ⟨number, target.1, taken⟩))
  · rw [others i here]
    refine .kept fun same => here (Fin.ext ?_)
    have value := (fdOk_eq_some.mp (closes.symm.trans same)).1
    omega

theorem effect_dup2 (old new : Int) : Effect st (.dup2 old new) (st.vfsRamDup2 old new).2 := by
  unfold vfsRamDup2
  cases found : st.fdOk old with
  | none =>
    have closes : (FdCall.dup2 old new).closes st = none := by simp [FdCall.closes, found]
    exact .fails closes
  | some j =>
    dsimp only
    by_cases target : 3 ≤ new ∧ new < vfsMaxFds
    · rw [dif_pos target]
      split
      · next same =>
            exact .fails (by simp [FdCall.closes, same])
      · next same =>
            exact effect_overwrite found target same
    · rw [dif_neg target]
      have none : st.fdOk new = none := dif_neg target
      exact .fails (by simp [FdCall.closes, none])

/-- `vfs_ram_dup` and `vfs_ram_dup_from` copy an open descriptor to a free number, if they find
one. -/
theorem vfsRamDup_cases (st : Vfs) (n : Int) : (st.vfsRamDup n).2 = st ∨ ∃ j fd, st.Open j ∧
    st.freeFd = some fd ∧ (st.vfsRamDup n).2 = st.setFd fd { st.fds j with used := true } := by
  unfold vfsRamDup
  cases found : st.fdOk n with
  | none => exact .inl rfl
  | some j =>
    cases free : st.freeFd with
    | none => exact .inl rfl
    | some fd => exact .inr ⟨j, fd, isOpen_of_fdOk found, rfl, rfl⟩

theorem vfsRamDupFrom_cases (st : Vfs) (n min : Int) : (st.vfsRamDupFrom n min).2 = st ∨
    ∃ j fd, st.Open j ∧ st.freeFdFrom (if min < 3 then 3 else min).toNat = some fd ∧
      (st.vfsRamDupFrom n min).2 = st.setFd fd { st.fds j with used := true } := by
  unfold vfsRamDupFrom
  cases found : st.fdOk n with
  | none => exact .inl rfl
  | some j =>
    dsimp only
    by_cases high : (vfsMaxFds : Int) ≤ if min < 3 then 3 else min
    · rw [if_pos high]
      exact .inl rfl
    · rw [if_neg high]
      cases free : st.freeFdFrom (if min < 3 then 3 else min).toNat with
      | none => exact .inl rfl
      | some fd => exact .inr ⟨j, fd, isOpen_of_fdOk found, rfl, rfl⟩

theorem effect_dup (n : Int) : Effect st (.dup n) (st.vfsRamDup n).2 := by
  rcases vfsRamDup_cases st n with same | ⟨j, fd, isOpen, free, same⟩
  · rw [same]
    exact .fails rfl
  · rw [same]
    exact .copy rfl isOpen (freeFd_free free) (mem_takes rfl free)

theorem effect_dupFrom (n min : Int) : Effect st (.dupFrom n min) (st.vfsRamDupFrom n min).2 := by
  rcases vfsRamDupFrom_cases st n min with same | ⟨j, fd, isOpen, free, same⟩
  · rw [same]
    exact .fails rfl
  · rw [same]
    refine .copy rfl isOpen (freeFdFrom_eq_some free).1 ?_
    show fd ∈ (st.freeFdFrom _).toList
    rw [free]
    exact List.mem_singleton_self fd

/-- What a call makes of the tables. -/
theorem effect (st : Vfs) (call : FdCall) : Effect st call (call.run st) := by
  have leaves {base : Vfs} (files : base.files = st.files) (syms : base.syms = st.syms) :
      Leaves st call base := ⟨fun k => .inl (congrFun files k), syms⟩
  cases call with
  | «open» path create => exact effect_open path create
  | pipe2 => exact effect_pipeAllocPair rfl rfl
  | socketpair nType =>
    show Effect st _ (st.vfsRamSocketpair nType).2
    unfold vfsRamSocketpair
    split_ifs
    · exact .fails rfl
    · exact effect_pipeAllocPair rfl rfl
  | eventfd2 | epollCreate1 | timerfdCreate | inotifyInit1 =>
    exact effect_makeObject rfl rfl (fun _ => rfl) (fun _ => leaves rfl rfl) nofun nofun
  | signalfd4 n mask =>
    show Effect st _ (st.vfsRamSignalfd4 n mask).2
    unfold vfsRamSignalfd4
    split_ifs with given
    · repeat' split
      all_goals exact .refl rfl rfl (leaves rfl rfl)
    · exact effect_makeObject rfl rfl (fun _ => rfl) (fun _ => leaves rfl rfl) nofun nofun
  | pidfdOpen pid =>
    show Effect st _ (st.vfsRamPidfdOpen pid).2
    unfold vfsRamPidfdOpen
    split_ifs with zero
    · exact .fails rfl
    · cases found : st.freeFd with
      | none => exact .fails rfl
      | some fd =>
        exact (Effect.setFd rfl rfl (leaves rfl rfl) (freeFd_free found) (mem_takes rfl found) rfl
          (.inr (.inl (by exact nofun))) (by exact nofun)).make
  | ioUringOpen ringSlot =>
    show Effect st _ (st.vfsRamIoUringOpen ringSlot).2
    unfold vfsRamIoUringOpen
    cases found : st.freeFd with
    | none => exact .fails rfl
    | some fd =>
      exact (Effect.setFd rfl rfl (leaves rfl rfl) (freeFd_free found) (mem_takes rfl found) rfl
        (.inr (.inr ⟨rfl, found⟩)) (by exact nofun)).make
  | dup n => exact effect_dup n
  | dup2 old new => exact effect_dup2 old new
  | dupFrom n min => exact effect_dupFrom n min
  | close n => exact effect_close n

end Effects

end FdCall

end GreenJade.Fs

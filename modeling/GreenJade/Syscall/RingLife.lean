import GreenJade.Lib.StepRuns
import GreenJade.Syscall.RingTable

/-! Owns how long rings live: in which runs a ring is in use exactly while a descriptor of it is
open. -/

namespace GreenJade.Syscall

open GreenJade.Fs Vfs Rings

namespace Rings

variable {st : Rings}

/-- What the calls keep: the descriptor that a ring was last found by is an open one of that ring,
and open descriptors of rings stand for the rings that they were made for. -/
structure Kept (st : Rings) : Prop where
  files : ∀ k, (st.vfs.files k).kind ≠ .iouring
  shown : ∀ i, st.vfs.Open i → (st.vfs.fds i).kind = .iouring →
    ∃ r, slotOf gjIoringMax (st.vfs.fds i).file = some r ∧ (st.rings r).used = true ∧
      (st.rings r).serial = (st.vfs.fds i).serial
  cached : ∀ r, (st.rings r).used = true → ∃ i : Fin vfsMaxFds, st.ringFd r = i.val ∧ st.Shows i r

/-! ### Lookups -/

variable {r : RingSlot}

theorem Shows.unique {i : Fin vfsMaxFds} {s : RingSlot} (first : st.Shows i r)
    (second : st.Shows i s) : r = s := Option.some.inj (first.file.symm.trans second.file)

theorem Kept.used_of_shows (kept : st.Kept) {i : Fin vfsMaxFds} (shows : st.Shows i r) :
    (st.rings r).used = true ∧ (st.rings r).serial = (st.vfs.fds i).serial := by
  obtain ⟨s, file, used, serial⟩ := kept.shown i shows.isOpen shows.kind
  cases shows.file.symm.trans file
  exact ⟨used, serial⟩

theorem vfsRamIoUringFd_eq_some {fd : Int} :
    vfsRamIoUringFd st.vfs fd = some r ↔ ∃ i : Fin vfsMaxFds, fd = i.val ∧ st.Shows i r := by
  unfold vfsRamIoUringFd
  constructor
  · intro found
    split at found
    · cases found
    next i number =>
    obtain ⟨kind, file⟩ := Option.ite_none_right_eq_some.mp found
    obtain ⟨value, -, -⟩ := fdOk_eq_some.mp number
    exact ⟨i, value.symm, FdCall.isOpen_of_fdOk number, kind, file⟩
  · rintro ⟨i, rfl, shows⟩
    have number : st.vfs.fdOk i.val = some i :=
      fdOk_eq_some.mpr ⟨rfl, by exact_mod_cast shows.isOpen.1, shows.isOpen.2⟩
    rw [number]
    exact Option.ite_none_right_eq_some.mpr ⟨shows.kind, shows.file⟩

/-- A lookup finds the ring of an open descriptor, and nothing else. -/
theorem Kept.ringFromFd_eq_some (kept : st.Kept) {fd : Int} :
    (st.ringFromFd fd).1 = some r ↔ ∃ i : Fin vfsMaxFds, fd = i.val ∧ st.Shows i r := by
  have cached {s : RingSlot} (found : (List.finRange gjIoringMax).find? (fun r =>
      (st.rings r).used && decide (st.ringFd r = fd)) = some s) :
      ∃ i : Fin vfsMaxFds, fd = i.val ∧ st.Shows i s := by
    have chosen := List.find?_some found
    rw [Bool.and_eq_true, decide_eq_true_eq] at chosen
    obtain ⟨i, number, shows⟩ := kept.cached s chosen.1
    exact ⟨i, chosen.2.symm.trans number, shows⟩
  unfold ringFromFd
  constructor
  · intro found
    split_ifs at found
    split at found
    · next cache =>
        cases found
        exact cached cache
    split at found
    · cases found
    next table =>
    split_ifs at found
    cases found
    exact vfsRamIoUringFd_eq_some.mp table
  · rintro ⟨i, rfl, shows⟩
    rw [if_neg (by omega)]
    cases cache : (List.finRange gjIoringMax).find? fun r =>
        (st.rings r).used && decide (st.ringFd r = (i.val : Int)) with
    | some s =>
      obtain ⟨j, number, other⟩ := cached cache
      have same : i = j := Fin.ext (by exact_mod_cast number)
      exact congrArg some ((same ▸ other).unique shows)
    | none =>
      rw [vfsRamIoUringFd_eq_some.mpr ⟨i, rfl, shows⟩]
      dsimp only
      rw [if_pos (kept.used_of_shows shows).1]

def opened (st : Rings) (r : RingSlot) (fd : Fin vfsMaxFds) (entries : U32) : Rings :=
  { st.set r (freshRing entries st.vfs.made) with
    vfs := (st.vfs.openFd fd .iouring 0 (BitVec.ofNat 32 r.val) 0).make }.setFd r fd.val

/-- The outcomes of a setup: there is no ring, no descriptor, the parameters cannot be copied, or
there is a new ring. -/
inductive Setup (st : Rings) (entries : U32) : Bool → Int × Rings → Prop
  | noRing {copied : Bool} (full : ∀ r, (st.rings r).used = true) :
      Setup st entries copied (-12, st)
  | noFd {copied : Bool} {r : RingSlot} (ring : IoRing) (unused : (st.rings r).used = false)
      (same : ring.used = false) : Setup st entries copied (-24, (st.set r ring).setFd r (-1))
  | notCopied {r : RingSlot} {fd : Fin vfsMaxFds} (ring : IoRing)
      (unused : (st.rings r).used = false) (free : st.vfs.freeFd = some fd)
      (same : ring.used = false) :
      Setup st entries false (-14, { st.opened r fd entries with
        vfs := ((st.opened r fd entries).vfs.vfsRamClose fd.val).2 }.set r ring)
  | made {r : RingSlot} {fd : Fin vfsMaxFds} (unused : (st.rings r).used = false)
      (free : st.vfs.freeFd = some fd) :
      Setup st entries true (fd.val, st.opened r fd entries)

theorem gjIoUringSetup_setup (st : Rings) (entries : U32) (copied : Bool) :
    Setup st entries copied (st.gjIoUringSetup entries copied) := by
  unfold gjIoUringSetup
  cases free : (List.finRange gjIoringMax).find? fun r => !(st.rings r).used with
  | none =>
    exact .noRing fun r => by simpa using List.find?_eq_none.mp free r (List.mem_finRange r)
  | some r =>
    have unused : (st.rings r).used = false := by simpa using List.find?_some free
    unfold vfsRamIoUringOpen
    cases found : st.vfs.freeFd with
    | none =>
      dsimp only
      rw [set_set]
      exact .noFd _ unused rfl
    | some fd =>
      cases copied with
      | false => exact .notCopied _ unused found rfl
      | true => exact .made unused found

theorem Kept.living (kept : st.Kept) : st.Living where
  accepted fd := by
    rw [gjIoUringFdOk, Option.isSome_iff_exists]
    constructor
    · rintro ⟨r, found⟩
      obtain ⟨i, number, shows⟩ := kept.ringFromFd_eq_some.mp found
      exact ⟨i, number, shows.isOpen, shows.kind⟩
    · rintro ⟨i, number, isOpen, kind⟩
      obtain ⟨r, file, -, -⟩ := kept.shown i isOpen kind
      exact ⟨r, kept.ringFromFd_eq_some.mpr ⟨i, number, isOpen, kind, file⟩⟩
  denotes i r found := by
    obtain ⟨j, number, shows⟩ := kept.ringFromFd_eq_some.mp found
    obtain rfl : i = j := Fin.ext (by exact_mod_cast number)
    exact ⟨shows, (kept.used_of_shows shows).2⟩
  used r := by
    refine ⟨fun used => ?_, fun ⟨i, shows⟩ => (kept.used_of_shows shows).1⟩
    obtain ⟨i, -, shows⟩ := kept.cached r used
    exact ⟨i, shows⟩
  full entries copied failed r := by
    have outcome := st.gjIoUringSetup_setup entries copied
    generalize st.gjIoUringSetup entries copied = result at outcome failed
    cases outcome with
    | noRing used =>
      obtain ⟨i, -, shows⟩ := kept.cached r (used r)
      exact ⟨i, shows⟩
    | noFd | notCopied | made => cases failed

/-! ### Steps -/

theorem Kept.look (kept : st.Kept) (fd : Int) : (st.ringFromFd fd).2.Kept := by
  unfold ringFromFd
  split_ifs
  · exact kept
  split
  · exact kept
  · cases table : vfsRamIoUringFd st.vfs fd with
    | none => exact kept
    | some r =>
      dsimp only
      split_ifs
      · obtain ⟨i, number, shows⟩ := vfsRamIoUringFd_eq_some.mp table
        refine ⟨kept.files, kept.shown, fun s used => ?_⟩
        rw [setFd_ringFd]
        split_ifs with here
        · subst here
          exact ⟨i, number, shows.isOpen, shows.kind, shows.file⟩
        · obtain ⟨j, cached, other⟩ := kept.cached s used
          exact ⟨j, cached, other.isOpen, other.kind, other.file⟩
      · exact kept

theorem Kept.file (kept : st.Kept) (call : PlainFdCall) (spares : st.Spares (.file call)) :
    (st.step (.file call)).Kept where
  files k := by
    rcases (FdCall.effect st.vfs call.val).files k with same | ⟨-, plain, -⟩
    · exact fun ring => kept.files k ((congrArg VfsFile.kind same).symm.trans ring)
    · exact fun ring => absurd (plain.symm.trans ring) (by decide)
  shown i isOpen kind := by
    obtain ⟨low, used⟩ := isOpen
    have entry := (FdCall.effect st.vfs call.val).entry i
    change ((call.val.run st.vfs).fds i).used = true at used
    change ((call.val.run st.vfs).fds i).kind = _ at kind
    show ∃ r, slotOf gjIoringMax ((call.val.run st.vfs).fds i).file = some r ∧
      (st.rings r).used = true ∧ (st.rings r).serial = ((call.val.run st.vfs).fds i).serial
    generalize (call.val.run st.vfs).fds i = now at entry used kind
    cases entry with
    | kept => exact kept.shown i ⟨low, used⟩ kind
    | closed => cases used
    | copied j source => exact kept.shown j source kind
    | opened _ _ _ _ origin =>
      rcases origin with ⟨k, same⟩ | other | ⟨ring, -⟩
      · exact absurd (same.symm.trans kind) (kept.files k)
      · exact absurd kind other
      · exact absurd ring (call.property _)
  cached r used := by
    obtain ⟨i, cached, shows⟩ := kept.cached r used
    have untouched : call.val.closes st.vfs ≠ some i := fun closes => spares i closes r shows cached
    refine ⟨i, cached, ?_⟩
    have entry := (FdCall.effect st.vfs call.val).entry i
    have same : (call.val.run st.vfs).fds i = st.vfs.fds i := by
      generalize (call.val.run st.vfs).fds i = now at entry
      cases entry with
      | kept => rfl
      | closed closes => exact absurd closes untouched
      | copied _ _ _ free =>
        exact absurd (free untouched) (by rw [shows.isOpen.2]; exact Bool.true_eq_false.mp)
      | opened _ _ _ free =>
        exact absurd free (by rw [shows.isOpen.2]; exact Bool.true_eq_false.mp)
    exact ⟨⟨shows.isOpen.1, (congrArg VfsFd.used same).trans shows.isOpen.2⟩,
      (congrArg VfsFd.kind same).trans shows.kind,
      (congrArg (fun entry => slotOf gjIoringMax entry.file) same).trans shows.file⟩

/-- A call that changes a ring not in use, and no open descriptor. -/
theorem Kept.replace (kept : st.Kept) {next : Rings}
    (unused : (st.rings r).used = false) (files : next.vfs.files = st.vfs.files)
    (fds : ∀ i, st.vfs.Open i → next.vfs.fds i = st.vfs.fds i)
    (rings : ∀ s, s ≠ r → next.rings s = st.rings s ∧ next.ringFd s = st.ringFd s)
    (shown : ∀ i, next.vfs.Open i → ¬ st.vfs.Open i → next.Shows i r ∧
      (next.rings r).used = true ∧ (next.rings r).serial = (next.vfs.fds i).serial)
    (cached : (next.rings r).used = true →
      ∃ i : Fin vfsMaxFds, next.ringFd r = i.val ∧ next.Shows i r) : next.Kept where
  files k := files ▸ kept.files k
  shown i isOpen kind := by
    by_cases before : st.vfs.Open i
    · rw [fds i before] at kind ⊢
      obtain ⟨s, file, used, serial⟩ := kept.shown i before kind
      have other : s ≠ r := by
        rintro rfl
        exact Bool.false_ne_true (unused.symm.trans used)
      exact ⟨s, file, (rings s other).1 ▸ used, (rings s other).1 ▸ serial⟩
    · obtain ⟨shows, used, serial⟩ := shown i isOpen before
      exact ⟨r, shows.file, used, serial⟩
  cached s used := by
    by_cases here : s = r
    · subst here
      exact cached used
    · obtain ⟨ring, number⟩ := rings s here
      obtain ⟨i, same, shows⟩ := kept.cached s (ring ▸ used)
      have entry := fds i shows.isOpen
      exact ⟨i, number.trans same, ⟨shows.isOpen.1, entry ▸ shows.isOpen.2⟩, entry ▸ shows.kind,
        entry ▸ shows.file⟩

theorem opened_fds (st : Rings) (r : RingSlot) (fd i : Fin vfsMaxFds) (entries : U32) :
    (st.opened r fd entries).vfs.fds i = if i = fd then
        { used := true, kind := .iouring, fdEnd := 0, file := BitVec.ofNat 32 r.val, off := 0,
          serial := st.vfs.made }
      else st.vfs.fds i := setFd_fds ..

theorem slotOf_ring (r : RingSlot) : slotOf gjIoringMax (BitVec.ofNat 32 r.val) = some r := by
  revert r
  decide

theorem Kept.setup (kept : st.Kept) (entries : U32) (copied : Bool) :
    (st.gjIoUringSetup entries copied).2.Kept := by
  have outcome := st.gjIoUringSetup_setup entries copied
  generalize st.gjIoUringSetup entries copied = result at outcome
  cases outcome with
  | noRing => exact kept
  | @noFd _ r ring unused same =>
    refine kept.replace unused rfl (fun i _ => rfl) (fun s other => ?_)
      (fun i isOpen before => absurd isOpen before) fun used => ?_
    · simp [other]
    · simp [same] at used
  | @notCopied r fd ring unused free same =>
    have number : (st.opened r fd entries).vfs.fdOk fd.val = some fd := by
      refine fdOk_eq_some.mpr ⟨rfl, ?_, ?_⟩
      · exact_mod_cast (freeFdFrom_eq_some free).2
      · rw [opened_fds, if_pos rfl]
    have taken := FdCall.freeFd_free free
    have closed := FdCall.vfsRamClose_fds number
    refine kept.replace unused ?_ (fun i isOpen => ?_) (fun s other => ?_)
      (fun i isOpen before => ?_) fun used => ?_
    · exact (FdCall.vfsRamClose_tables _).1
    · have other : i ≠ fd := fun here => absurd isOpen.2 (by simp [here, taken])
      exact (congrFun closed i).trans
        (by rw [Function.update_of_ne other, opened_fds, if_neg other])
    · simp [opened, other]
    · have used := (congrArg (fun fds => (fds i).used) closed).symm.trans isOpen.2
      by_cases here : i = fd
      · simp [here] at used
      · rw [Function.update_of_ne here, opened_fds, if_neg here] at used
        exact absurd ⟨isOpen.1, used⟩ before
    · simp [same] at used
  | @made r fd unused free =>
    obtain ⟨taken, low⟩ := freeFdFrom_eq_some free
    have new : (st.opened r fd entries).Shows fd r := by
      refine ⟨⟨low, ?_⟩, ?_, ?_⟩ <;> rw [opened_fds, if_pos rfl]
      exact slotOf_ring r
    refine kept.replace unused rfl (fun i isOpen => ?_) (fun s other => ?_)
      (fun i isOpen before => ?_) fun _ => ⟨fd, ?_, new⟩
    · have other : i ≠ fd := fun here => absurd isOpen.2 (by simp [here, taken])
      rw [opened_fds, if_neg other]
    · simp [opened, other]
    · by_cases here : i = fd
      · subst here
        refine ⟨new, ?_, ?_⟩
        · simp [opened, freshRing]
        · rw [opened_fds]
          simp [opened, freshRing]
      · refine absurd ⟨isOpen.1, ?_⟩ before
        have used := isOpen.2
        rwa [opened_fds, if_neg here] at used
    · simp [opened]

/-! ### Runs -/

/-- No descriptor is in use, and no file is a ring. -/
structure NoRings (vfs : Vfs) : Prop where
  unused : ∀ i, (vfs.fds i).used = false
  files : ∀ k, (vfs.files k).kind ≠ .iouring

theorem NoRings.seedFile {vfs : Vfs} (none : NoRings vfs) (path text : Path) :
    NoRings (vfs.seedFile path text) := by
  unfold Vfs.seedFile
  repeat' split
  · exact none
  · exact none
  · refine ⟨none.unused, fun k => ?_⟩
    change ((vfs.setFile _ _).files k).kind ≠ _
    rw [setFile_files]
    split_ifs
    · exact nofun
    · exact none.files k

theorem NoRings.kept {vfs : Vfs} (none : NoRings vfs) : (init vfs).Kept where
  files := none.files
  shown i isOpen _ := nomatch (none.unused i).symm.trans isOpen.2
  cached := nofun

theorem Kept.init (blk scsi : Disk) : (init (vfsRamInit blk scsi)).Kept := by
  have cleared : NoRings (cleared blk scsi) := ⟨fun _ => rfl, fun _ => nofun⟩
  have none : NoRings (vfsRamInit blk scsi) :=
    List.foldlRecOn _ _ cleared fun _ none _ _ => none.seedFile _ _
  exact none.kept

theorem Kept.step (kept : st.Kept) (call : RingCall) (spares : st.Spares call) :
    (st.step call).Kept := by
  cases call with
  | setup entries copied => exact kept.setup entries copied
  | look fd => exact kept.look fd
  | file call => exact kept.file call spares

end Rings

/-- While no descriptor is closed that a ring was last found by, rings live as long as their
descriptors. -/
theorem ringRuns_living (blk scsi : Disk) (run : List RingCall)
    (spares : StepRuns.Meets step Spares (init (vfsRamInit blk scsi)) run) :
    (run.foldl step (init (vfsRamInit blk scsi))).Living := by
  have kept := spares.invariant
    (fun (st : Rings) call (kept : st.Kept) spares => kept.step call spares)
    (Kept.init blk scsi)
  exact kept.living

def sampleRings (run : List RingCall) : Rings :=
  run.foldl step (init (vfsRamInit sampleDisk sampleDisk))

/-- A ring is made and its only descriptor closed, and the number is given to a file. -/
def sampleReused : List RingCall :=
  [.setup 8 true, .file ⟨.close 3, nofun⟩, .file ⟨.open (bytesOf "/etc/issue") false, nofun⟩]

/-- The descriptor of a file is accepted as a ring, and four rings that nobody has are in use. -/
theorem ringRuns_leak : (sampleRings sampleReused).gjIoUringFdOk 3 = true ∧
      ((sampleRings sampleReused).vfs.fds 3).kind = .ram ∧
      (let st := sampleRings ((List.replicate 4 [.setup 8 true, .file ⟨.close 3, nofun⟩]).flatten)
      (∀ i, (st.vfs.fds i).used = false) ∧ (st.gjIoUringSetup 8 true).1 = -12) := by
  decide +kernel

/-- A copy of the descriptor of a ring is used, and the first one closed. -/
def sampleCopied : List RingCall :=
  [.setup 8 true, .file ⟨.dup 3, nofun⟩, .look 4, .file ⟨.close 3, nofun⟩]

theorem ringRuns_living_copied : StepRuns.Meets step Spares
        (init (vfsRamInit sampleDisk sampleDisk)) sampleCopied ∧
      (sampleRings sampleCopied).Living := by
  have spares : StepRuns.Meets step Spares
      (init (vfsRamInit sampleDisk sampleDisk)) sampleCopied := by decide +kernel
  exact ⟨spares, ringRuns_living _ _ _ spares⟩

end GreenJade.Syscall

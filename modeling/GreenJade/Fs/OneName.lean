import GreenJade.Fs.PathForms
import GreenJade.Fs.RamRuns
import GreenJade.Lib.StepRuns

/-! Owns the names of the RAM vfs: the two tables of files and symlinks taken together, that no name
stands for two entries and every name is in normal form, and the calls that can break this. -/

namespace GreenJade.Fs

open Function List Option Sum

/-! ### Names -/

abbrev Entry := Fin vfsMaxFiles ⊕ Fin vfsMaxSymlinks

namespace Vfs

def nameOf (st : Vfs) : Entry → Option Path
  | .inl k => if (st.files k).used then some (st.files k).path else none
  | .inr s => if (st.syms s).used then some (st.syms s).link else none

/-- No two used entries have the same name, and all names are in normal form. -/
structure OneName (st : Vfs) : Prop where
  apart : ∀ a b path, st.nameOf a = some path → st.nameOf b = some path → a = b
  canonical : ∀ a path, st.nameOf a = some path → Canonical path

end Vfs

inductive NameCall
  | open (path : Path) (create : Bool)
  | utimens (path : Path)
  | mkdir (path : Path) (mode : U32)
  | symlink (target name : Path)
  | link (old new : Path)
  | rename (old new : Path)
  | unlink (path : Path)
  | rmdir (path : Path)

def NameCall.toVfsCall : NameCall → VfsCall
  | .open path create => .open path create
  | .utimens path => .utimens path
  | .mkdir path mode => .mkdir path mode
  | .symlink target name => .symlink target name
  | .link old new => .link old new
  | .rename old new => .rename old new
  | .unlink path => .unlink path
  | .rmdir path => .rmdir path

def NameCall.step (st : Vfs) (call : NameCall) : Vfs := VfsCall.run st call.toVfsCall

/-- `path_norm` takes the name that a call stores, and `path_resolve` the name of a file that
`vfs_ram_open` makes. -/
def NameCall.Resolves (st : Vfs) : NameCall → Prop
  | .open path create =>
    create = true ∨ (Vfs.markerDirs.any fun dir => pathEq (normOrCopy path) dir) = true →
      ∃ resolved, st.pathResolve path = .ok resolved
  | .utimens path => ∃ norm, pathNorm path = .ok norm
  | .mkdir path _ => ∃ norm, pathNorm path = .ok norm
  | .symlink _ name => ∃ norm, pathNorm name = .ok norm
  | .link _ new => ∃ norm, pathNorm new = .ok norm
  | .rename _ new => ∃ norm, pathNorm new = .ok norm
  | .unlink _ => True
  | .rmdir _ => True

namespace Vfs

variable {st st₁ : Vfs}

/-! ### Updates of the names -/

theorem nameOf_setFile (st : Vfs) (k : Fin vfsMaxFiles) (file : VfsFile) :
    (st.setFile k file).nameOf =
      update st.nameOf (.inl k) (if file.used then some file.path else none) := by
  funext a
  rcases a with j | s
  · by_cases same : j = k
    · subst same
      rw [update_self, nameOf, setFile_files, if_pos rfl]
    · rw [update_of_ne (fun eq => same (inl.inj eq)), nameOf, setFile_files, if_neg same]
      rfl
  · rfl

theorem nameOf_setSym (st : Vfs) (s : Fin vfsMaxSymlinks) (sym : VfsSymlink) :
    (st.setSym s sym).nameOf =
      update st.nameOf (.inr s) (if sym.used then some sym.link else none) := by
  funext a
  rcases a with k | j
  · rfl
  · by_cases same : j = s
    · subst same
      rw [update_self, nameOf, setSym_syms, if_pos rfl]
    · rw [update_of_ne (fun eq => same (inr.inj eq)), nameOf, setSym_syms, if_neg same]
      rfl

variable {k : Fin vfsMaxFiles} {s : Fin vfsMaxSymlinks} {path norm : Path}

theorem nameOf_setFile_same {file : VfsFile}
    (used : file.used = (st.files k).used) (path : file.path = (st.files k).path) :
    (st.setFile k file).nameOf = st.nameOf := by
  rw [nameOf_setFile, used, path]
  exact update_eq_self (inl k : Entry) st.nameOf

theorem nameOf_setSym_same {sym : VfsSymlink}
    (used : sym.used = (st.syms s).used) (link : sym.link = (st.syms s).link) :
    (st.setSym s sym).nameOf = st.nameOf := by
  rw [nameOf_setSym, used, link]
  exact update_eq_self (inr s : Entry) st.nameOf

theorem nameOf_congr (files : st₁.files = st.files) (syms : st₁.syms = st.syms) :
    st₁.nameOf = st.nameOf := by
  funext a
  cases a <;> simp only [nameOf, files, syms]

theorem OneName.keep (oneName : st.OneName) (names : st₁.nameOf = st.nameOf) : st₁.OneName where
  apart := names ▸ oneName.apart
  canonical := names ▸ oneName.canonical

variable {new : Path} {a : Entry}

/-- A name that is in normal form and free is given to an entry. -/
theorem OneName.give (oneName : st.OneName) (canonical : Canonical path)
    (fresh : ∀ b, b ≠ a → st.nameOf b ≠ some path)
    (names : st₁.nameOf = update st.nameOf a (some path)) : st₁.OneName := by
  have at_a : st₁.nameOf a = some path := by rw [names, update_self]
  have at_other {b : Entry} (other : b ≠ a) : st₁.nameOf b = st.nameOf b := by
    rw [names, update_of_ne other]
  refine ⟨fun b c name isB isC => ?_, fun b name isB => ?_⟩
  · by_cases hb : b = a <;> by_cases hc : c = a
    · rw [hb, hc]
    · rw [hb, at_a] at isB
      rw [at_other hc] at isC
      exact absurd (isC.trans isB.symm) (fresh c hc)
    · rw [hc, at_a] at isC
      rw [at_other hb] at isB
      exact absurd (isB.trans isC.symm) (fresh b hb)
    · rw [at_other hb] at isB
      rw [at_other hc] at isC
      exact oneName.apart b c name isB isC
  · by_cases hb : b = a
    · rw [hb, at_a] at isB
      exact some.inj isB ▸ canonical
    · rw [at_other hb] at isB
      exact oneName.canonical b name isB

/-- An entry that loses its name. -/
theorem OneName.clear (oneName : st.OneName)
    (names : st₁.nameOf = update st.nameOf a none) : st₁.OneName := by
  have before {b : Entry} {name : Path} (isB : st₁.nameOf b = some name) :
      st.nameOf b = some name := by
    rw [names] at isB
    by_cases hb : b = a
    · rw [hb, update_self] at isB
      cases isB
    · rwa [update_of_ne hb] at isB
  exact ⟨fun b c name isB isC => oneName.apart b c name (before isB) (before isC),
    fun b name isB => oneName.canonical b name (before isB)⟩

/-- The only entry with a name loses it. -/
theorem OneName.clear_frees (oneName : st.OneName)
    (named : st.nameOf a = some path) (names : st₁.nameOf = update st.nameOf a none)
    (b : Entry) : st₁.nameOf b ≠ some path := by
  rw [names]
  by_cases hb : b = a
  · rw [hb, update_self]
    exact nofun
  · rw [update_of_ne hb]
    exact fun isB => hb (oneName.apart b a path isB named)

/-! ### Lookups -/

theorem pathCopy_of_canonical (canonical : Canonical path) : pathCopy path = path :=
  take_of_length_le (Nat.le_pred_of_lt canonical.length_lt)

theorem nameOf_file (used : (st.files k).used = true) :
    st.nameOf (.inl k) = some (st.files k).path := if_pos used

theorem nameOf_symlink (used : (st.syms s).used = true) :
    st.nameOf (.inr s) = some (st.syms s).link := if_pos used

/-- A lookup in the file table that finds nothing. -/
theorem no_file_of_findFile (canonical : Canonical path)
    (missing : st.findFile path = none) (k : Fin vfsMaxFiles) : st.nameOf (.inl k) ≠ some path := by
  intro named
  have here := find?_eq_none.mp missing k (mem_finRange k)
  by_cases used : (st.files k).used = true
  · rw [nameOf_file used] at named
    apply here
    rw [used, some.inj named]
    simpa only [pathEq, decide_true, Bool.true_and, decide_eq_true_eq] using canonical.length_lt
  · rw [nameOf, if_neg used] at named
    cases named

/-- A lookup in the symlink table that finds nothing. -/
theorem no_symlink_of_findSymlink (canonical : Canonical path)
    (missing : st.findSymlink path = none) (s : Fin vfsMaxSymlinks) :
    st.nameOf (.inr s) ≠ some path := by
  intro named
  have here := find?_eq_none.mp missing s (mem_finRange s)
  by_cases used : (st.syms s).used = true
  · rw [nameOf_symlink used] at named
    apply here
    rw [used, some.inj named]
    simpa only [pathEq, decide_true, Bool.true_and, decide_eq_true_eq] using canonical.length_lt
  · rw [nameOf, if_neg used] at named
    cases named

/-- Lookups in both tables that find nothing. -/
theorem fresh_of_lookups (canonical : Canonical path)
    (noFile : st.findFile path = none) (noLink : st.findSymlink path = none) (a : Entry) :
    st.nameOf a ≠ some path := by
  rcases a with k | s
  · exact no_file_of_findFile canonical noFile k
  · exact no_symlink_of_findSymlink canonical noLink s

theorem canonical_followLink {cur target next : Path}
    (followed : followLink cur target = .ok next) : Canonical next := by
  unfold followLink at followed
  split_ifs at followed
  · exact canonical_pathNorm followed
  · split at followed
    · cases followed
    · exact canonical_pathNorm followed

/-- What a path resolves to is in normal form, and no symlink has this name. -/
theorem resolveFrom_eq_ok : ∀ {depth : Nat} {cur resolved : Path}, Canonical cur →
    st.resolveFrom depth cur = .ok resolved →
    Canonical resolved ∧ st.findSymlink resolved = none
  | 0, _, _, _, found => by cases found
  | depth + 1, cur, resolved, canonical, found => by
    rw [resolveFrom] at found
    split at found
    · next noLink =>
        cases found
        rw [pathCopy_of_canonical canonical]
        exact ⟨canonical, noLink⟩
    · split at found
      · cases found
      · next next followed =>
          have canonicalNext := canonical_followLink followed
          rw [pathCopy_of_canonical canonicalNext] at found
          exact resolveFrom_eq_ok canonicalNext found

theorem pathResolve_eq_ok {resolved : Path} (found : st.pathResolve path = .ok resolved) :
    Canonical resolved ∧ st.findSymlink resolved = none := by
  unfold pathResolve at found
  split at found
  · cases found
  · next normed => exact resolveFrom_eq_ok (canonical_pathNorm normed) found

/-- A name without a symlink resolves to itself. -/
theorem pathResolve_of_noLink (canonical : Canonical path)
    (noLink : st.findSymlink path = none) : st.pathResolve path = .ok path := by
  unfold pathResolve
  rw [show pathNorm path = .ok path from canonical]
  dsimp only
  rw [resolveFrom, noLink]
  exact congrArg Except.ok (pathCopy_of_canonical canonical)

theorem normOrCopy_of_ok (normed : pathNorm path = .ok norm) : normOrCopy path = norm := by
  rw [normOrCopy, normed]

theorem resolveOrNorm_of_ok {resolved : Path} (found : st.pathResolve path = .ok resolved) :
    st.resolveOrNorm path = resolved := by
  rw [resolveOrNorm, found]

theorem resolveOrNorm_of_error {code : Int}
    (failed : st.pathResolve path = .error code) : st.resolveOrNorm path = normOrCopy path := by
  rw [resolveOrNorm, failed]

/-! ### Opening and making -/

theorem nameOf_openFile (st : Vfs) (k : Fin vfsMaxFiles) :
    (st.openFile k).2.nameOf = st.nameOf := by
  unfold openFile
  split
  · rfl
  · exact nameOf_congr rfl rfl

theorem nameOf_newFile (st : Vfs) (k : Fin vfsMaxFiles) (kind : VfsKind) (isDir : Bool)
    (mode nlink : U32) (canonical : Canonical path) :
    (st.newFile k kind isDir mode nlink path).nameOf = update st.nameOf (.inl k) (some path) := by
  have same : (st.newFile k kind isDir mode nlink path).nameOf = (st.setFile k _).nameOf :=
    nameOf_congr rfl rfl
  rw [same, nameOf_setFile]
  exact congrArg (fun name => update st.nameOf (inl k) (some name))
    (pathCopy_of_canonical canonical)

section

variable (oneName : st.OneName)
include oneName

/-- A new file gets a name that no entry has. -/
theorem OneName.newFile (canonical : Canonical path)
    (noFile : st.findFile path = none) (noLink : st.findSymlink path = none)
    (k : Fin vfsMaxFiles) (kind : VfsKind) (isDir : Bool) (mode nlink : U32) :
    (st.newFile k kind isDir mode nlink path).OneName :=
  oneName.give canonical (fun b _ => fresh_of_lookups canonical noFile noLink b)
    (nameOf_newFile st k kind isDir mode nlink canonical)

theorem OneName.openFile (k : Fin vfsMaxFiles) : (st.openFile k).2.OneName :=
  oneName.keep (nameOf_openFile st k)

theorem OneName.open {create : Bool} (resolves : (NameCall.open path create).Resolves st) :
    (st.vfsRamOpen path create).2.OneName := by
  have made (asked : create = true ∨
      (markerDirs.any fun dir => pathEq (st.resolveOrNorm path) dir) = true)
      (noFile : st.findFile (st.resolveOrNorm path) = none) (k : Fin vfsMaxFiles) (isDir : Bool)
      (mode nlink : U32) :
      ((st.newFile k .ram isDir mode nlink (st.resolveOrNorm path)).openFile k).2.OneName := by
    have succeeds : ∃ resolved, st.pathResolve path = .ok resolved := by
      cases failed : st.pathResolve path with
      | ok resolved => exact ⟨resolved, rfl⟩
      | error code =>
        rw [resolveOrNorm_of_error failed] at asked
        obtain ⟨resolved, found⟩ := resolves asked
        exact nomatch found.symm.trans failed
    obtain ⟨resolved, found⟩ := succeeds
    rw [resolveOrNorm_of_ok found] at noFile ⊢
    obtain ⟨canonical, noLink⟩ := pathResolve_eq_ok found
    exact (oneName.newFile canonical noFile noLink k .ram isDir mode nlink).openFile k
  unfold vfsRamOpen
  split
  · exact oneName
  dsimp only
  split
  · exact oneName.openFile _
  · next noFile =>
      split
      · next marker =>
          split
          · exact oneName
          · exact made (.inr marker) noFile _ true _ _
      · split
        · exact oneName
        · next creates =>
            split
            · exact oneName
            · exact made (.inl (Bool.eq_true_of_not_eq_false creates)) noFile _ false _ _

theorem OneName.mkdir (normed : pathNorm path = .ok norm)
    (mode : U32) : (st.vfsRamMkdir path mode).2.OneName := by
  unfold vfsRamMkdir
  rw [normOrCopy_of_ok normed]
  split
  · exact oneName
  dsimp only
  split
  · exact oneName
  · next free =>
      rw [Bool.or_eq_true, not_or, not_isSome_iff_eq_none, not_isSome_iff_eq_none]
        at free
      split
      · exact oneName
      · exact oneName.newFile (canonical_pathNorm normed) free.1 free.2 _ _ _ _ _

theorem OneName.symlink {name : Path} (normed : pathNorm name = .ok norm) (target : Path) :
    (st.vfsRamSymlink target name).2.OneName := by
  have canonical := canonical_pathNorm normed
  unfold vfsRamSymlink
  rw [normOrCopy_of_ok normed]
  split
  · exact oneName
  dsimp only
  split
  · exact oneName
  · next noFile =>
      rw [not_isSome_iff_eq_none] at noFile
      split
      · exact oneName.keep (nameOf_setSym_same rfl rfl)
      · next noLink =>
          split
          · exact oneName
          · next s _ =>
              refine oneName.give canonical
                (fun b _ => fresh_of_lookups canonical noFile noLink b) (a := .inr s) ?_
              rw [nameOf_setSym]
              exact congrArg (fun path => update st.nameOf (inr s) (some path))
                (pathCopy_of_canonical canonical)

theorem OneName.link {new : Path} (normed : pathNorm new = .ok norm)
    (old : Path) : (st.vfsRamLink old new).2.OneName := by
  have canonical := canonical_pathNorm normed
  unfold vfsRamLink
  rw [normOrCopy_of_ok normed]
  split
  · exact oneName
  dsimp only
  split
  · exact oneName
  next iOld found =>
  split_ifs with _ _ taken
  · exact oneName
  · exact oneName
  · exact oneName
  rw [Bool.or_eq_true, not_or, not_isSome_iff_eq_none, not_isSome_iff_eq_none]
    at taken
  split
  · exact oneName
  next iNew free =>
  have used := (findFile_eq_some found).1
  have different : iOld ≠ iNew := by
    rintro rfl
    exact absurd used (firstFree_eq_some free ▸ Bool.false_ne_true)
  have copied : (st.setFile iNew { st.files iOld with
        path := pathCopy norm, nlink := (st.files iOld).nlink + 1
        serial := st.made }).OneName := by
    refine oneName.give canonical (a := .inl iNew)
      (fun b _ => fresh_of_lookups canonical taken.1 taken.2 b) ?_
    rw [nameOf_setFile, if_pos used]
    exact congrArg (fun path => update st.nameOf (inl iNew) (some path))
      (pathCopy_of_canonical canonical)
  apply copied.keep
  refine (nameOf_congr rfl rfl).trans (nameOf_setFile_same ?_ ?_) <;>
    rw [setFile_files, if_neg different]

end

/-! ### Removing and renaming -/

theorem nameOf_zeroFile (st : Vfs) (k : Fin vfsMaxFiles) :
    (st.setFile k .zero).nameOf = update st.nameOf (.inl k) none :=
  nameOf_setFile st k .zero

theorem nameOf_zeroSym (st : Vfs) (s : Fin vfsMaxSymlinks) :
    (st.setSym s .zero).nameOf = update st.nameOf (.inr s) none :=
  nameOf_setSym st s .zero

theorem OneName.zeroFile (oneName : st.OneName) (k : Fin vfsMaxFiles) :
    (st.setFile k .zero).OneName := oneName.clear (nameOf_zeroFile st k)

theorem OneName.zeroSym (oneName : st.OneName) (s : Fin vfsMaxSymlinks) :
    (st.setSym s .zero).OneName := oneName.clear (nameOf_zeroSym st s)

theorem OneName.unlink (oneName : st.OneName) (path : Path) : (st.vfsRamUnlink path).2.OneName := by
  unfold vfsRamUnlink
  dsimp only
  repeat' split
  all_goals first
    | exact oneName
    | exact oneName.zeroSym _
    | exact oneName.zeroFile _

theorem OneName.rmdir (oneName : st.OneName) (path : Path) : (st.vfsRamRmdir path).2.OneName := by
  unfold vfsRamRmdir
  dsimp only
  repeat' split
  all_goals first | exact oneName | exact oneName.zeroFile _

theorem nameOf_of_findFile (found : st.findFile path = some k) :
    st.nameOf (.inl k) = some path := by
  obtain ⟨used, same, -⟩ := findFile_eq_some found
  rw [nameOf_file used, same]

theorem nameOf_of_findSymlink
    (found : st.findSymlink path = some s) : st.nameOf (.inr s) = some path := by
  obtain ⟨used, same, -⟩ := findSymlink_eq_some found
  rw [nameOf_symlink used, same]

/-- A file gets a name that no other file has, after the symlink with this name has gone. -/
theorem OneName.renameFile (oneName : st.OneName)
    (canonical : Canonical new) (used : (st.files k).used = true)
    (others : ∀ j, j ≠ k → st.nameOf (.inl j) ≠ some new) : (st.renameFile k new).OneName := by
  have given {st₁ : Vfs} (oneName₁ : st₁.OneName) (used₁ : (st₁.files k).used = true)
      (fresh : ∀ b, b ≠ .inl k → st₁.nameOf b ≠ some new) :
      (st₁.setFile k { st₁.files k with path := pathCopy new }).OneName := by
    apply oneName₁.give canonical fresh
    rw [nameOf_setFile, if_pos used₁]
    exact congrArg (fun path => update st₁.nameOf (inl k) (some path))
      (pathCopy_of_canonical canonical)
  unfold Vfs.renameFile dropSymlink
  split
  · next noLink =>
      refine given oneName used fun b other => ?_
      rcases b with j | s
      · exact others j fun same => other (congrArg inl same)
      · exact no_symlink_of_findSymlink canonical noLink s
  · next s found =>
      exact given (oneName.zeroSym s) used fun b _ =>
        oneName.clear_frees (nameOf_of_findSymlink found) (nameOf_zeroSym st s) b

/-- No symlink but the one that is renamed has the new name. -/
theorem OneName.dropClash (oneName : st.OneName) (s : Fin vfsMaxSymlinks)
    (canonical : Canonical new) :
    (st.dropClash s new).OneName ∧
      ∀ j, j ≠ s → (st.dropClash s new).nameOf (.inr j) ≠ some new := by
  unfold Vfs.dropClash
  split
  · next clash found =>
      have named := nameOf_of_findSymlink found
      split
      · exact ⟨oneName.zeroSym clash, fun j _ =>
          oneName.clear_frees named (nameOf_zeroSym st clash) (.inr j)⟩
      · next same =>
          rw [not_not] at same
          subst same
          refine ⟨oneName, fun j other isNew => other ?_⟩
          exact inr.inj (oneName.apart _ _ new isNew named)
  · next noLink => exact ⟨oneName, fun j _ => no_symlink_of_findSymlink canonical noLink j⟩

theorem dropClash_used (used : (st.syms s).used = true) (new : Path) :
    ((st.dropClash s new).syms s).used = true := by
  unfold Vfs.dropClash
  split
  · split
    · next different =>
        rw [setSym_syms, if_neg (fun same => different same.symm)]
        exact used
    · exact used
  · exact used

theorem OneName.renameSymlink (oneName : st.OneName)
    (canonical : Canonical new) (used : (st.syms s).used = true) :
    (st.renameSymlink s new).2.OneName := by
  have given {st₁ : Vfs} (oneName₁ : st₁.OneName) (used₁ : (st₁.syms s).used = true)
      (fresh : ∀ b, b ≠ .inr s → st₁.nameOf b ≠ some new) :
      (st₁.setSym s { st₁.syms s with link := pathCopy new }).OneName := by
    apply oneName₁.give canonical fresh
    rw [nameOf_setSym, if_pos used₁]
    exact congrArg (fun path => update st₁.nameOf (inr s) (some path))
      (pathCopy_of_canonical canonical)
  obtain ⟨dropped, others⟩ := oneName.dropClash s canonical
  have used₁ := dropClash_used used new
  unfold Vfs.renameSymlink
  dsimp only
  split
  · next k found =>
      split
      · exact dropped
      · exact given (dropped.zeroFile k) used₁ fun b _ =>
          dropped.clear_frees (nameOf_of_findFile found) (nameOf_zeroFile _ k) b
  · next noFile =>
      refine given dropped used₁ fun b other => ?_
      rcases b with k | j
      · exact no_file_of_findFile canonical noFile k
      · exact others j fun same => other (congrArg inr same)

theorem OneName.rename (oneName : st.OneName) (normed : pathNorm new = .ok norm)
    (old : Path) : (st.vfsRamRename old new).2.OneName := by
  have canonical := canonical_pathNorm normed
  unfold vfsRamRename
  rw [normOrCopy_of_ok normed]
  split
  · exact oneName
  dsimp only
  split
  · exact oneName
  split
  · next s found => exact oneName.renameSymlink canonical (findSymlink_eq_some found).1
  split
  · exact oneName
  next k found =>
  have used := (findFile_eq_some found).1
  split
  · exact oneName
  split
  · next noFile =>
      exact oneName.renameFile canonical used fun j _ => no_file_of_findFile canonical noFile j
  next clash clashFound =>
  have named := nameOf_of_findFile clashFound
  split_ifs with same
  · subst same
    refine oneName.renameFile canonical used fun j other isNew => other ?_
    exact inl.inj (oneName.apart _ _ norm isNew named)
  · exact oneName
  · exact oneName
  · exact oneName
  · refine (oneName.zeroFile clash).renameFile canonical ?_ fun j _ =>
      oneName.clear_frees named (nameOf_zeroFile st clash) (.inl j)
    rw [setFile_files, if_neg (fun eq => same eq.symm)]
    exact used

/-! ### Times -/

theorem nameOf_close (st : Vfs) (fd : Int) : (st.vfsRamClose fd).2.nameOf = st.nameOf :=
  nameOf_congr (FdCall.vfsRamClose_tables fd).1 (FdCall.vfsRamClose_tables fd).2

theorem OneName.utimens (oneName : st.OneName)
    (normed : pathNorm path = .ok norm) : (st.vfsRamUtimens path).2.OneName := by
  unfold vfsRamUtimens
  split
  · exact oneName
  dsimp only
  split
  · exact oneName
  split
  · exact oneName
  next missing =>
  rw [Bool.or_eq_true, not_or, not_isSome_iff_eq_none] at missing
  -- a name that does not resolve is a symlink's, and those are not opened
  have canonical : Canonical (st.resolveOrNorm path) := by
    cases found : st.pathResolve path with
    | ok resolved => exact resolveOrNorm_of_ok found ▸ (pathResolve_eq_ok found).1
    | error code =>
      rw [resolveOrNorm_of_error found, normOrCopy_of_ok normed]
      exact canonical_pathNorm normed
  have opened : (st.vfsRamOpen (st.resolveOrNorm path) true).2.OneName :=
    oneName.open fun _ => ⟨_, pathResolve_of_noLink canonical missing.1⟩
  split
  · exact opened
  · exact opened.keep (nameOf_close _ _)

/-! ### The start -/

theorem cleared_oneName (blk scsi : Disk) : (cleared blk scsi).OneName := by
  have unnamed (a : Entry) : (cleared blk scsi).nameOf a = none := by
    cases a <;> rfl
  exact ⟨fun a b path isA _ => (nomatch (unnamed a).symm.trans isA),
    fun a path isA => nomatch (unnamed a).symm.trans isA⟩

theorem nameOf_seedFile (st : Vfs) (text : Path) (canonical : Canonical path) :
    (st.seedFile path text).nameOf = st.nameOf ∨ ∃ k, (st.seedFile path text).nameOf =
        update st.nameOf (.inl k) (some path) := by
  unfold seedFile
  split
  · exact .inl rfl
  split
  · exact .inl rfl
  next k _ =>
  refine .inr ⟨k, ?_⟩
  rw [normOrCopy_of_ok canonical, pathCopy_of_canonical canonical]
  exact (nameOf_congr rfl rfl).trans (nameOf_setFile st k _)

/-- Files with different names are seeded. -/
theorem OneName.seeds : ∀ (list : List (String × String)) {st : Vfs}, st.OneName →
    (∀ seed ∈ list, Canonical (bytesOf seed.1)) → (list.map fun seed => bytesOf seed.1).Nodup →
    (∀ seed ∈ list, ∀ a, st.nameOf a ≠ some (bytesOf seed.1)) →
    (list.foldl (fun st seed => st.seedFile (bytesOf seed.1) (bytesOf seed.2)) st).OneName
  | [], _, oneName, _, _, _ => oneName
  | seed :: rest, st, oneName, canonical, apart, fresh => by
    have here := canonical seed mem_cons_self
    have free := fresh seed mem_cons_self
    obtain ⟨others, apart⟩ := nodup_cons.mp apart
    refine OneName.seeds rest ?_
      (fun next inside => canonical next (mem_cons_of_mem _ inside)) apart
      fun next inside a isNext => ?_
    · rcases nameOf_seedFile st (bytesOf seed.2) here with same | ⟨k, names⟩
      · exact oneName.keep same
      · exact oneName.give here (fun b _ => free b) names
    · have old := fresh next (mem_cons_of_mem _ inside) a
      rcases nameOf_seedFile st (bytesOf seed.2) here with same | ⟨k, names⟩
      · exact old (same ▸ isNext)
      · rw [names] at isNext
        by_cases isK : a = .inl k
        · rw [isK, update_self] at isNext
          exact others (mem_map.mpr ⟨next, inside, (some.inj isNext).symm⟩)
        · rw [update_of_ne isK] at isNext
          exact old isNext

theorem vfsRamInit_oneName (blk scsi : Disk) : (vfsRamInit blk scsi).OneName := by
  have paths : (∀ seed ∈ seeds, Canonical (bytesOf seed.1)) ∧
      (seeds.map fun seed => bytesOf seed.1).Nodup := by decide +kernel
  exact OneName.seeds seeds (cleared_oneName blk scsi) paths.1 paths.2 fun seed _ a => by
    cases a <;> exact nofun

end Vfs

/-! ### Runs -/

theorem NameCall.oneName {st : Vfs} (oneName : st.OneName) (call : NameCall)
    (resolves : call.Resolves st) : (call.step st).OneName := by
  cases call with
  | «open» path create => exact oneName.open resolves
  | utimens path => exact resolves.elim fun _ normed => oneName.utimens normed
  | mkdir path mode => exact resolves.elim fun _ normed => oneName.mkdir normed mode
  | symlink target name => exact resolves.elim fun _ normed => oneName.symlink normed target
  | link old new => exact resolves.elim fun _ normed => oneName.link normed old
  | rename old new => exact resolves.elim fun _ normed => oneName.rename normed old
  | unlink path => exact oneName.unlink path
  | rmdir path => exact oneName.rmdir path

/-- In a run whose calls store only names that `path_norm` takes, and make files only where
`path_resolve` succeeds, no name ever stands for two entries and every name is in normal form. -/
theorem nameRuns_oneName (blk scsi : Disk) {run : List NameCall}
    (resolves : StepRuns.Meets NameCall.step NameCall.Resolves (Vfs.vfsRamInit blk scsi) run)
    {front : List NameCall} (inside : front <+: run) :
    (front.foldl NameCall.step (Vfs.vfsRamInit blk scsi)).OneName := by
  obtain ⟨back, rfl⟩ := inside
  exact (StepRuns.Meets.append.mp resolves).1.invariant
    (fun _ call oneName resolves => call.oneName oneName resolves) (Vfs.vfsRamInit_oneName blk scsi)

def sampleNames (calls : List NameCall) : Vfs :=
  calls.foldl NameCall.step (Vfs.vfsRamInit sampleDisk sampleDisk)

/-- A symlink that leads to itself is opened: the file that is made has its name. -/
def sampleSelfLink : List NameCall :=
  [.symlink (bytesOf "/a") (bytesOf "/a"), .open (bytesOf "/a") true]

/-- A directory with more components than `path_norm` takes, and a dot. -/
def sampleDeep : Path := bytesOf "/." ++ (List.replicate 33 (bytesOf "/a")).flatten

/-- A file and a symlink have one name; a name keeps its dot. -/
theorem nameRuns_self_link : ¬(sampleNames sampleSelfLink).OneName ∧
      (sampleNames [.mkdir sampleDeep 0]).nameOf (.inl 24) = some sampleDeep ∧
      [dot] ∈ components sampleDeep ∧ ¬Canonical sampleDeep := by
  have names : (sampleNames sampleSelfLink).nameOf (.inl 24) = some (bytesOf "/a") ∧
      (sampleNames sampleSelfLink).nameOf (.inr 0) = some (bytesOf "/a") ∧
      (sampleNames [.mkdir sampleDeep 0]).nameOf (.inl 24) = some sampleDeep := by decide +kernel
  obtain ⟨file, link, deep⟩ := names
  refine ⟨fun oneName => ?_, deep, by decide +kernel, by decide +kernel⟩
  exact absurd (oneName.apart _ _ _ file link) nofun

/-- A relative link is made, and what it leads to is opened through it. -/
def sampleFollowed : List NameCall :=
  [.symlink (bytesOf "b") (bytesOf "/tmp/./a"), .open (bytesOf "/tmp/a") true]

theorem nameRuns_oneName_followed : (sampleNames sampleFollowed).OneName ∧
      (sampleNames sampleFollowed).nameOf (.inl 24) = some (bytesOf "/tmp/b") := by
  have resolved : pathNorm (bytesOf "/tmp/./a") = .ok (bytesOf "/tmp/a") ∧
      (sampleNames (sampleFollowed.take 1)).pathResolve (bytesOf "/tmp/a") =
        .ok (bytesOf "/tmp/b") ∧
      (sampleNames sampleFollowed).nameOf (.inl 24) = some (bytesOf "/tmp/b") := by
    decide +kernel
  obtain ⟨normed, found, name⟩ := resolved
  have resolves : StepRuns.Meets NameCall.step NameCall.Resolves
      (Vfs.vfsRamInit sampleDisk sampleDisk) sampleFollowed :=
    ⟨⟨_, normed⟩, fun _ => ⟨_, found⟩, trivial⟩
  exact ⟨nameRuns_oneName sampleDisk sampleDisk resolves (prefix_refl _), name⟩

end GreenJade.Fs

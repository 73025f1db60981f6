import GreenJade.Fs.DescriptorIo
import GreenJade.Fs.OneName

/-! Owns what `vfs_ram_rename` does to the names below a directory. The tables hold full paths, and
the call writes the path of one entry: the subtree follows only where there is none. -/

namespace GreenJade.Fs

open Function List

/-! ### Below a directory -/

/-- What the paths below a directory start with. -/
def stem (dir : Path) : Path := if dir = [slash] then dir else dir ++ [slash]

def Below (dir path : Path) : Prop := stem dir <+: path ∧ path ≠ stem dir

instance (dir path : Path) : Decidable (Below dir path) := inferInstanceAs (Decidable (_ ∧ _))

theorem below_append (dir : Path) {rest : Path} (nonempty : rest ≠ []) :
    Below dir (stem dir ++ rest) :=
  ⟨prefix_append _ _, fun same => nonempty (append_right_eq_self.mp same)⟩

theorem Below.rest {dir path : Path} (below : Below dir path) :
    ∃ rest ≠ [], path = stem dir ++ rest := by
  obtain ⟨⟨rest, rfl⟩, other⟩ := below
  exact ⟨rest, fun none => other (none ▸ append_nil _), rfl⟩

theorem not_below_self (dir : Path) : ¬Below dir dir := by
  unfold Below stem
  split_ifs
  · exact fun below => below.2 rfl
  · intro below
    have longer := below.1.length_le
    rw [length_append, length_singleton] at longer
    omega

namespace Vfs

variable {st after : Vfs} {k : Fin vfsMaxFiles} {old new dest : Path} {entry : Entry}

/-! ### One entry moves -/

def entryOf (st : Vfs) : Entry → VfsFile ⊕ VfsSymlink
  | .inl k => .inl (st.files k)
  | .inr s => .inr (st.syms s)

theorem nameOf_of_same (same : after.entryOf entry = st.entryOf entry) :
    after.nameOf entry = st.nameOf entry := by
  rcases entry with j | s
  · exact congrArg (fun file : VfsFile => if file.used then some file.path else none)
      (Sum.inl.inj same)
  · exact congrArg (fun sym : VfsSymlink => if sym.used then some sym.link else none)
      (Sum.inr.inj same)

/-- An entry stays as it is, or it had the name and goes. -/
def Cleared (st after : Vfs) (dest : Path) (entry : Entry) : Prop :=
  after.entryOf entry = st.entryOf entry ∨
    (st.nameOf entry = some dest ∧ after.nameOf entry = none)

theorem Cleared.trans {mid : Vfs} (first : st.Cleared mid dest entry)
    (second : mid.Cleared after dest entry) : st.Cleared after dest entry := by
  rcases first with kept | ⟨named, gone⟩ <;> rcases second with same | ⟨there, left⟩
  · exact .inl (same.trans kept)
  · exact .inr ⟨(nameOf_of_same kept).symm.trans there, left⟩
  · exact .inr ⟨named, (nameOf_of_same same).trans gone⟩
  · exact .inr ⟨named, left⟩

theorem entryOf_setFile (other : entry ≠ .inl k) (file : VfsFile) :
    (st.setFile k file).entryOf entry = st.entryOf entry := by
  rcases entry with j | s
  · exact congrArg Sum.inl (update_of_ne (fun same => other (congrArg Sum.inl same)) _ _)
  · rfl

theorem cleared_zeroFile (named : st.nameOf (.inl k) = some dest) :
    st.Cleared (st.setFile k .zero) dest entry := by
  by_cases here : entry = .inl k
  · subst here
    exact .inr ⟨named, (congrFun (nameOf_zeroFile st k) _).trans (update_self _ _ _)⟩
  · exact .inl (entryOf_setFile here _)

theorem cleared_dropSymlink : st.Cleared (st.dropSymlink dest) dest entry := by
  unfold dropSymlink
  split
  · exact .inl rfl
  · next s found =>
      by_cases here : entry = .inr s
      · subst here
        exact .inr ⟨nameOf_of_findSymlink found,
          (congrFun (nameOf_zeroSym st s) _).trans (update_self _ _ _)⟩
      · refine .inl ?_
        rcases entry with j | t
        · rfl
        · exact congrArg Sum.inr (update_of_ne (fun same => here (congrArg Sum.inr same)) _ _)

theorem pathCopy_normOrCopy (path : Path) : pathCopy (normOrCopy path) = normOrCopy path := by
  unfold normOrCopy
  split
  · next norm normed => exact pathCopy_of_canonical (canonical_pathNorm normed)
  · exact take_take.trans (congrArg (List.take · path) (Nat.min_self _))

/-- The end of the call gives the file the name, and clears the name before. -/
theorem moves_renameFile (used : (st.files k).used = true) (new : Path) :
    (st.renameFile k (normOrCopy new)).nameOf (.inl k) = some (normOrCopy new) ∧
      ∀ entry, entry ≠ .inl k →
        st.Cleared (st.renameFile k (normOrCopy new)) (normOrCopy new) entry := by
  refine ⟨?_, fun entry other => cleared_dropSymlink.trans (.inl (entryOf_setFile other _))⟩
  rw [renameFile, nameOf_setFile, update_self,
    if_pos ((congrFun (dropSymlink_tables (normOrCopy new)).1 k).symm ▸ used)]
  exact congrArg some (pathCopy_normOrCopy new)

theorem moves_rename (noLink : st.findSymlink (normOrCopy old) = none)
    (found : st.findFile (normOrCopy old) = some k) (different : normOrCopy old ≠ normOrCopy new)
    (renamed : (st.vfsRamRename old new).1 = 0) :
    (st.vfsRamRename old new).2.nameOf (.inl k) = some (normOrCopy new) ∧
      ∀ entry, entry ≠ .inl k → st.Cleared (st.vfsRamRename old new).2 (normOrCopy new) entry := by
  have used := (findFile_eq_some found).1
  have absent : ¬pathEq (normOrCopy old) (normOrCopy new) = true := by
    simp [pathEq, different, decide_false, Bool.false_and, Bool.false_eq_true, not_false_eq_true]
  unfold vfsRamRename at renamed ⊢
  simp only [noLink, found, absent, Bool.false_eq_true, if_false] at renamed ⊢
  cases taken : st.findFile (normOrCopy new) with
  | none =>
    split_ifs at renamed ⊢
    · cases renamed
    · cases renamed
    · exact moves_renameFile used new
  | some clash =>
    simp only [taken] at renamed ⊢
    split_ifs at renamed ⊢ with _ _ same
    · cases renamed
    · cases renamed
    · exact moves_renameFile used new
    · cases renamed
    · cases renamed
    · cases renamed
    · have kept : ((st.setFile clash .zero).files k).used = true :=
        (congrArg VfsFile.used (update_of_ne (Ne.symm same) _ _)).trans used
      exact (moves_renameFile kept new).imp_right fun others entry other =>
        (cleared_zeroFile (nameOf_of_findFile taken)).trans (others entry other)

/-! ### The subtree -/

/-- A directory has gone from one path to another with everything below it. -/
structure SubtreeMoved (st after : Vfs) (k : Fin vfsMaxFiles) (dir dest : Path) : Prop where
  root : after.nameOf (.inl k) = some dest
  carried : ∀ rest ≠ [], ∀ entry,
    after.nameOf entry = some (stem dest ++ rest) ↔ st.nameOf entry = some (stem dir ++ rest)
  emptied : ∀ entry, ∀ name ∈ after.nameOf entry, ¬Below dir name
  kept : ∀ entry, (∀ name ∈ st.nameOf entry,
    name ≠ dir ∧ name ≠ dest ∧ ¬Below dir name ∧ ¬Below dest name) →
    after.entryOf entry = st.entryOf entry

/-- There is nothing below the directory to move, and nothing but itself below the new path. -/
def Childless (st : Vfs) (k : Fin vfsMaxFiles) (dir dest : Path) : Prop :=
  ∀ entry, ∀ name ∈ st.nameOf entry, ¬Below dir name ∧ (Below dest name → entry = .inl k)

/-- A rename of a file or directory that succeeds moves the subtree where there is none. -/
theorem rename_subtree_iff (noLink : st.findSymlink (normOrCopy old) = none)
    (found : st.findFile (normOrCopy old) = some k)
    (different : normOrCopy old ≠ normOrCopy new)
    (apart : ¬Below (normOrCopy old) (normOrCopy new))
    (renamed : (st.vfsRamRename old new).1 = 0) :
    st.SubtreeMoved (st.vfsRamRename old new).2 k (normOrCopy old) (normOrCopy new) ↔
      st.Childless k (normOrCopy old) (normOrCopy new) := by
  obtain ⟨moved, others⟩ := moves_rename noLink found different renamed
  have named := nameOf_of_findFile found
  generalize (st.vfsRamRename old new).2 = after at moved others
  generalize normOrCopy old = dir at *
  generalize normOrCopy new = dest at *
  have before {entry : Entry} {name : Path} (other : entry ≠ .inl k)
      (isName : after.nameOf entry = some name) : st.nameOf entry = some name := by
    rcases others entry other with same | ⟨-, gone⟩
    · exact (nameOf_of_same same).symm.trans isName
    · exact nomatch isName.symm.trans gone
  constructor
  · intro whole entry name isName
    refine ⟨fun below => ?_, fun below => ?_⟩
    · have other : entry ≠ .inl k := by
        rintro rfl
        exact not_below_self dir (Option.some.inj (isName.symm.trans named) ▸ below)
      obtain ⟨rest, nonempty, rfl⟩ := below.rest
      have there := (whole.carried rest nonempty entry).mpr isName
      have same := Option.some.inj (isName.symm.trans (before other there))
      exact whole.emptied entry _ there (same ▸ below)
    · by_contra other
      obtain ⟨rest, nonempty, rfl⟩ := below.rest
      rcases others entry other with same | ⟨clash, -⟩
      · have there := (nameOf_of_same same).trans isName
        have moved := (whole.carried rest nonempty entry).mp there
        rw [Option.some.inj (isName.symm.trans moved)] at there
        exact whole.emptied entry _ there (below_append dir nonempty)
      · rw [Option.some.inj (isName.symm.trans clash)] at below
        exact not_below_self dest below
  · intro childless
    refine ⟨moved, fun rest nonempty entry => ⟨fun there => ?_, fun here => ?_⟩,
      fun entry name there below => ?_, fun entry outside => ?_⟩
    · have below := below_append dest nonempty
      by_cases other : entry = .inl k
      · subst other
        rw [← Option.some.inj (moved.symm.trans there)] at below
        exact absurd below (not_below_self dest)
      · exact absurd ((childless entry _ (before other there)).2 below) other
    · exact absurd (below_append dir nonempty) (childless entry _ here).1
    · by_cases other : entry = .inl k
      · subst other
        exact apart (Option.some.inj (there.symm.trans moved) ▸ below)
      · exact (childless entry name (before other there)).1 below
    · refine (others entry ?_).resolve_right fun gone => (outside dest gone.1).2.1 rfl
      rintro rfl
      exact (outside dir named).1 rfl

end Vfs

def sampleDir : Vfs := sampleVfs [.mkdir (bytesOf "/a") 0]

/-- A directory with nothing below it. -/
theorem rename_subtree_empty : sampleDir.SubtreeMoved
    (sampleDir.vfsRamRename (bytesOf "/a") (bytesOf "/b")).2 24 (bytesOf "/a") (bytesOf "/b") :=
  (Vfs.rename_subtree_iff (by decide +kernel) (by decide +kernel) (by decide +kernel)
    (by decide +kernel) (by decide +kernel)).mpr
    (Sum.forall.mpr ⟨by decide +kernel, by decide +kernel⟩)

def sampleChild : Vfs := sampleVfs [.mkdir (bytesOf "/a") 0, .open (bytesOf "/a/x") true]

/-- The file in a directory keeps its path, and there is none with the new one. -/
theorem rename_leaves_child : sampleChild.Reachable ∧
    (sampleChild.findFile (bytesOf "/a") = some 24 ∧ (sampleChild.files 24).isDir = true ∧
      (sampleChild.vfsRamRename (bytesOf "/a") (bytesOf "/b")).1 = 0 ∧
      (sampleChild.vfsRamRename (bytesOf "/a") (bytesOf "/b")).2.findFile (bytesOf "/b/x") = none ∧
      (sampleChild.vfsRamRename (bytesOf "/a") (bytesOf "/b")).2.nameOf (.inl 25) =
        some (bytesOf "/a/x")) ∧
    ¬sampleChild.SubtreeMoved (sampleChild.vfsRamRename (bytesOf "/a") (bytesOf "/b")).2 24
      (bytesOf "/a") (bytesOf "/b") :=
  ⟨sampleVfs_reachable _, (and_iff_left_of_imp fun facts whole =>
    whole.emptied _ _ facts.2.2.2.2 (by decide)).mpr (by decide +kernel)⟩

end GreenJade.Fs

import GreenJade.Fs.RamVfs

/-! Owns the paths of `vfs_ram.c`: comparison, copy, normalisation and the walk through the symlink
table, with the lookups by path. It does not own what is done with the file that a path names. -/

namespace GreenJade.Fs

def slash : U8 := 0x2f
def dot : U8 := 0x2e

def bytesOf (text : String) : Path := text.toList.map fun c => BitVec.ofNat 8 c.toNat

def pathEq (a b : Path) : Bool := decide (a = b) && decide (a.length < vfsMaxPath)

def pathCopy (src : Path) : Path := src.take (vfsMaxPath - 1)

/-! ### Normalisation -/

def components (path : Path) : List Path := (path.splitOn slash).filter (· ≠ [])

/-- The output of `path_norm` so far, and where its components start, the latest first. -/
structure Norm where
  out : Path
  starts : List Nat
  deriving DecidableEq

/-- One component. -/
def Norm.push (norm : Norm) (comp : Path) : Except Int Norm :=
  if comp = [dot] then .ok norm
  else if comp = [dot, dot] then
    match norm.starts with
    | [] => .ok { norm with out := norm.out.take 1 }
    | top :: rest => .ok { out := norm.out.take (if 1 < top then top - 1 else top), starts := rest }
  else if 32 ≤ norm.starts.length then .error (-36)
  else if 1 < norm.out.length ∧ vfsMaxPath ≤ norm.out.length + 1 then .error (-36)
  else
    let out := if 1 < norm.out.length then norm.out ++ [slash] else norm.out
    if vfsMaxPath ≤ out.length + comp.length then .error (-36)
    else .ok { out := out ++ comp, starts := out.length :: norm.starts }

def pathNorm (path : Path) : Except Int Path :=
  match path with
  | [] => .error (-14)
  | first :: _ =>
    if first ≠ slash then .error (-22)
    else
      ((components path).foldlM Norm.push { out := [slash], starts := [] }).map fun norm => norm.out

/-- The name that a call works on when it does not follow links. -/
def normOrCopy (path : Path) : Path :=
  match pathNorm path with
  | .ok norm => norm
  | .error _ => pathCopy path

def pathDirname (path : Path) : Except Int Path :=
  if path = [] then .error (-14)
  else
    let upTo := ((path.take (vfsMaxPath - 1)).reverse.dropWhile (· ≠ slash)).reverse
    if upTo.length ≤ 1 then .ok [slash] else .ok upTo.dropLast

def pathIsChildOf (dir path : Path) : Bool :=
  if dir = [] then false
  else if dir = [slash] then
    decide (path.head? = some slash) && decide (path.tail ≠ []) && !path.tail.contains slash
  else
    match path.drop dir.length with
    | [] => false
    | first :: rest =>
      dir.isPrefixOf path && decide (first = slash) && decide (rest ≠ []) && !rest.contains slash

/-! ### Lookups -/

namespace Vfs

def findFile (st : Vfs) (path : Path) : Option (Fin vfsMaxFiles) :=
  (List.finRange vfsMaxFiles).find? fun k => (st.files k).used && pathEq (st.files k).path path

def findSymlink (st : Vfs) (path : Path) : Option (Fin vfsMaxSymlinks) :=
  (List.finRange vfsMaxSymlinks).find? fun s => (st.syms s).used && pathEq (st.syms s).link path

/-- Where a link leads from a path. -/
def followLink (cur target : Path) : Except Int Path :=
  if target.head? = some slash then pathNorm target
  else
    match pathDirname cur with
    | .error _ => .error (-22)
    | .ok dir =>
      let stem := if dir = [slash] then dir else dir.take (vfsMaxPath - 1) ++ [slash]
      pathNorm ((stem ++ target).take (vfsMaxPath - 1))

/-- The loop of `path_resolve`. -/
def resolveFrom (st : Vfs) : Nat → Path → Except Int Path
  | 0, _ => .error (-40)
  | depth + 1, cur =>
    match st.findSymlink cur with
    | none => .ok (pathCopy cur)
    | some s =>
      match followLink cur (st.syms s).target with
      | .error code => .error code
      | .ok next => st.resolveFrom depth (pathCopy next)

def pathResolve (st : Vfs) (path : Path) : Except Int Path :=
  match pathNorm path with
  | .error code => .error code
  | .ok cur => st.resolveFrom 8 cur

/-- The name that a call works on when it follows links. -/
def resolveOrNorm (st : Vfs) (path : Path) : Path :=
  match st.pathResolve path with
  | .ok resolved => resolved
  | .error _ => normOrCopy path

theorem findFile_eq_some {st : Vfs} {path : Path} {k : Fin vfsMaxFiles}
    (found : st.findFile path = some k) :
    (st.files k).used = true ∧ (st.files k).path = path ∧ path.length < vfsMaxPath := by
  have here := List.find?_some found
  simp only [pathEq, Bool.and_eq_true, decide_eq_true_eq] at here
  exact ⟨here.1, here.2.1, here.2.1 ▸ here.2.2⟩

theorem findSymlink_eq_some {st : Vfs} {path : Path} {s : Fin vfsMaxSymlinks}
    (found : st.findSymlink path = some s) :
    (st.syms s).used = true ∧ (st.syms s).link = path ∧ path.length < vfsMaxPath := by
  have here := List.find?_some found
  simp only [pathEq, Bool.and_eq_true, decide_eq_true_eq] at here
  exact ⟨here.1, here.2.1, here.2.1 ▸ here.2.2⟩

end Vfs

end GreenJade.Fs

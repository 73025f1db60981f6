import GreenJade.Mm.PageTables

/-! Owns how the processor reads the page tables, and the teardown of an address space by `vmm.c`, a
loop over the four levels of the tables. It does not own the clone of the user pages for a fork or
the break of a shared page on a write fault. -/

namespace GreenJade.Mm

open Proc

/-! ### The processor's walk -/

structure Translation where
  frame : Frame
  write : Bool
  user : Bool
  exec : Bool
  deriving DecidableEq

/-- The rights that all entries of a walk grant. -/
def grant (entries : List U64) (frame : Frame) : Translation where
  frame := frame
  write := entries.all writable
  user := entries.all user
  exec := entries.all fun e => !noExec e

namespace Vmm

variable (st : Vmm)

def translate (root : Frame) (page : VPage) : Option Translation :=
  let e4 := st.mem root page.i4
  -- in an entry of the first level the bit for a large page is reserved, and faults
  if present e4 = false ∨ large e4 = true then none
  else
    let e3 := st.mem (frameOf e4) page.i3
    if present e3 = false then none
    else if large e3 then
      some (grant [e4, e3] (frameOf e3 + (page.i2 ++ page.i1).setWidth 40))
    else
      let e2 := st.mem (frameOf e3) page.i2
      if present e2 = false then none
      else if large e2 then some (grant [e4, e3, e2] (frameOf e2 + page.i1.setWidth 40))
      else
        let e1 := st.mem (frameOf e2) page.i1
        if present e1 = false then none
        else some (grant [e4, e3, e2, e1] (frameOf e1))

/-! ### The teardown -/

def indices : List Index := (List.finRange 512).map BitVec.ofFin

/-- The template's entry beside one of the space, if the template has the table. -/
def beside (table : Option Frame) (i : Index) : Option U64 :=
  table.map fun t => st.mem t i

/-- The template's table behind its entry. -/
def besideNext : Option U64 → Option Frame
  | none => none
  | some e => if present e && !large e then some (frameOf e) else none

def destroyLeaf (pt : Frame) (kerPt : Option Frame) (page : VPage) (st : Vmm) : Vmm :=
  let e := st.mem pt page.i1
  let va := vaOf page
  if present e = false ∨ user e = false then st
  else if st.beside kerPt page.i1 = some e then st
  else if framePa (frameOf e) = va ∨ va < gjUserVaBase ∨ gjUserVaEnd ≤ va then st
  else
    let st := if cowBit e then st.releaseLeafFrame (frameOf e) else st.pmmFree (frameOf e)
    st.setEntry ⟨pt, page.i1⟩ 0

def destroyPt (i4 i3 : Index) (pd : Frame) (kerPd : Option Frame) (st : Vmm) (i2 : Index) : Vmm :=
  let e2 := st.mem pd i2
  let ker2 := st.beside kerPd i2
  if present e2 = false ∨ large e2 = true ∨ ker2 = some e2 then st
  else
    let st := indices.foldl
      (fun st i1 => destroyLeaf (frameOf e2) (besideNext ker2) ⟨i4, i3, i2, i1⟩ st) st
    st.pmmFree (frameOf (st.mem pd i2))

def destroyPd (i4 : Index) (pdpt : Frame) (kerPdpt : Option Frame) (st : Vmm) (i3 : Index) : Vmm :=
  let e3 := st.mem pdpt i3
  let ker3 := st.beside kerPdpt i3
  if present e3 = false ∨ large e3 = true ∨ ker3 = some e3 then st
  else
    let st := indices.foldl (destroyPt i4 i3 (frameOf e3) (besideNext ker3)) st
    st.pmmFree (frameOf (st.mem pdpt i3))

def destroyPdpt (root : Frame) (st : Vmm) (i4 : Index) : Vmm :=
  let e4 := st.mem root i4
  let ker4 := st.mem st.kernelCr3 i4
  if present e4 = false ∨ e4 = ker4 then st
  else
    let kerPdpt := if present ker4 then some (frameOf ker4) else none
    let st := indices.foldl (destroyPd i4 (frameOf e4) kerPdpt) st
    st.pmmFree (frameOf (st.mem root i4))

def vmmAsDestroy (root : Frame) : GjStatus × Vmm :=
  if root = 0 ∨ root = st.kernelCr3 then (.errInval, st)
  else
    let st := (indices.foldl (destroyPdpt root) st).pmmFree root
    (.ok, { st with spaces := st.spaces.erase root })

end Vmm

end GreenJade.Mm

import GreenJade.Proc.ElfConfined

/-! Owns what an accepted header probe says about the file: which of the sums of offsets and sizes
its checks bound as integers, and which only as words. -/

namespace GreenJade.Proc

open BitVec

variable {image : Image} {ph : Elf64Phdr} {cb : U64}

/-- The header for which `elf_collect_dyn_meta` and `elf_parse_dynamic` set
`GJ_ELF_INFO_HAS_DYNAMIC`. -/
def dynamicPhdr (image : Image) : Option Elf64Phdr :=
  match image.phdrs.find? fun ph => ph.type == ptDynamic && decide (0 < ph.filesz) with
  | none => none
  | some ph =>
    if ph.offset + ph.filesz ≤ image.cb ∧ ¬(image.cb < ph.offset + ph.filesz ∨ ph.filesz < 16) then
      some ph
    else none

/-- The header's file range ends inside a file of that size. -/
def Elf64Phdr.Inside (ph : Elf64Phdr) (cb : U64) : Prop :=
  ph.offset.toNat + ph.filesz.toNat ≤ cb.toNat

/-- The tables that the probe looks at lie in the file, over the integers. -/
structure TablesInside (image : Image) : Prop where
  headers : image.ehdr.phoff.toNat + image.ehdr.phnum.toNat * image.ehdr.phentsize.toNat ≤
    image.cb.toNat
  interp : ∀ ph ∈ image.phdrs, ph.type = ptInterp → 0 < ph.filesz → ph.Inside image.cb
  load : ∀ ph ∈ image.phdrs, ph.loads = true → ph.Inside image.cb
  dynamic : ∀ ph, dynamicPhdr image = some ph → ph.Inside image.cb
  sizes : ∀ ph ∈ image.phdrs, ph.type = ptLoad →
    ph.filesz ≤ ph.memsz ∧ ph.vaddr.toNat + ph.memsz.toNat < 2 ^ 64

/-- The header's file range does not wrap. -/
def Elf64Phdr.Unwrapped (ph : Elf64Phdr) : Prop :=
  ph.offset.toNat + ph.filesz.toNat < 2 ^ 64

/-- The sums that nothing tests for wrap-around do not wrap, and a segment without memory has no
bytes in the file. -/
structure SumsFit (image : Image) : Prop where
  headers : image.ehdr.phoff.toNat + image.ehdr.phnum.toNat * image.ehdr.phentsize.toNat < 2 ^ 64
  interp : ∀ ph ∈ image.phdrs, ph.type = ptInterp → 0 < ph.filesz → ph.Unwrapped
  dynamic : ∀ ph, dynamicPhdr image = some ph → ph.Unwrapped
  empty : ∀ ph ∈ image.phdrs, ph.type = ptLoad → ph.memsz = 0 → ph.filesz = 0

/-! ### What the probe checks -/

/-- The checks of the header loop on one header. -/
structure Elf64Phdr.Probed (ph : Elf64Phdr) (cb : U64) : Prop where
  interp : ph.type = ptInterp → 0 < ph.filesz → ph.offset + ph.filesz ≤ cb
  load : ph.loads = true → ph.filesz ≤ ph.memsz ∧ ph.offset ≤ ph.offset + ph.filesz ∧
    ph.vaddr ≤ ph.vaddr + ph.memsz ∧ ph.offset + ph.filesz ≤ cb

theorem probeLoop_probed {phdrs : List Elf64Phdr} {low high : U64} {count : Nat}
    {result : U64 × U64 × Nat} (accepted : probeLoop cb phdrs low high count = .ok result) :
    ∀ ph ∈ phdrs, ph.Probed cb := by
  induction phdrs generalizing low high count with
  | nil => exact List.forall_mem_nil _
  | cons ph rest ih =>
    rw [List.forall_mem_cons]
    rw [probeLoop] at accepted
    split at accepted
    · next interp =>
      rw [ite_error_eq_ok, BitVec.not_lt] at accepted
      refine ⟨⟨fun _ _ => accepted.1, fun loads => ?_⟩, ih accepted.2⟩
      rw [Elf64Phdr.loads, interp.1] at loads
      cases loads
    · next other =>
      have interp : ph.type = ptInterp → 0 < ph.filesz → ph.offset + ph.filesz ≤ cb :=
        fun named some => absurd ⟨named, some⟩ other
      split at accepted
      · next skipped =>
        refine ⟨⟨interp, fun loads => ?_⟩, ih accepted⟩
        rw [skipped] at loads
        cases loads
      · simp only [ite_error_eq_ok, BitVec.not_lt] at accepted
        obtain ⟨sizes, offset, vaddr, inside, accepted⟩ := accepted
        exact ⟨⟨interp, fun _ => ⟨sizes, offset, vaddr, inside⟩⟩, ih accepted⟩

/-! ### Sums of words -/

/-- A sum of words below a bound is a sum of numbers below it if and only if it does not wrap. -/
theorem sum_le_iff {a b bound : U64} (le : a + b ≤ bound) :
    a.toNat + b.toNat ≤ bound.toNat ↔ a.toNat + b.toNat < 2 ^ 64 := by
  rw [le_def, toNat_add] at le
  omega

/-- A sum of words is not below its first word if and only if it does not wrap. -/
theorem le_sum_iff {a b : U64} : a ≤ a + b ↔ a.toNat + b.toNat < 2 ^ 64 := by
  rw [le_def, toNat_add]
  omega

theorem dynamicPhdr_le (flagged : dynamicPhdr image = some ph) :
    ph.offset + ph.filesz ≤ image.cb := by
  unfold dynamicPhdr at flagged
  split at flagged
  · cases flagged
  · split at flagged
    · next checks =>
      cases flagged
      exact checks.1
    · cases flagged

theorem tableSize_toNat (phnum phentsize : U16) :
    (phnum.setWidth 64 * phentsize.setWidth 64 : U64).toNat = phnum.toNat * phentsize.toNat := by
  have bound : phnum.toNat * phentsize.toNat ≤ 65535 * 65535 :=
    Nat.mul_le_mul (Nat.le_of_lt_succ phnum.isLt) (Nat.le_of_lt_succ phentsize.isLt)
  rw [toNat_mul, toNat_setWidth_of_le (by decide), toNat_setWidth_of_le (by decide)]
  omega

/-- What an accepted image passed. -/
theorem elfFillProbe_checks (accepted : (elfFillProbe (some image)).isOk = true) :
    image.ehdr.phoff + image.ehdr.phnum.setWidth 64 * image.ehdr.phentsize.setWidth 64 ≤ image.cb ∧
      ∀ ph ∈ image.phdrs, ph.Probed image.cb := by
  cases probed : elfFillProbe (some image) with
  | error => rw [probed] at accepted; cases accepted
  | ok result =>
    simp only [elfFillProbe, ite_error_eq_ok, BitVec.not_lt] at probed
    obtain ⟨-, -, -, -, headers, -, loop⟩ := probed
    split at loop
    · cases loop
    · next probed => exact ⟨headers, probeLoop_probed probed⟩

/-- The tables of an accepted image lie inside the file exactly when the sums that nothing tests
for wrap-around fit. -/
theorem elfFillProbe_inside_iff (accepted : (elfFillProbe (some image)).isOk = true) :
    TablesInside image ↔ SumsFit image := by
  obtain ⟨headers, probed⟩ := elfFillProbe_checks accepted
  have table := sum_le_iff headers
  rw [tableSize_toNat] at table
  constructor
  · intro inside
    refine ⟨table.mp inside.headers, ?_, ?_, ?_⟩
    · intro ph mem named some
      exact (sum_le_iff ((probed ph mem).interp named some)).mp (inside.interp ph mem named some)
    · intro ph flagged
      exact (sum_le_iff (dynamicPhdr_le flagged)).mp (inside.dynamic ph flagged)
    · intro ph mem named none
      have fits := (inside.sizes ph mem named).1
      rw [none] at fits
      exact le_zero_iff.mp fits
  · intro fit
    refine ⟨table.mpr fit.headers, ?_, ?_, ?_, ?_⟩
    · intro ph mem named some
      exact (sum_le_iff ((probed ph mem).interp named some)).mpr (fit.interp ph mem named some)
    · intro ph mem loads
      obtain ⟨-, offset, -, bound⟩ := (probed ph mem).load loads
      exact (sum_le_iff bound).mpr (le_sum_iff.mp offset)
    · intro ph flagged
      exact (sum_le_iff (dynamicPhdr_le flagged)).mpr (fit.dynamic ph flagged)
    · intro ph mem named
      by_cases none : ph.memsz = 0
      · rw [fit.empty ph mem named none, none]
        exact ⟨BitVec.le_refl _, ph.vaddr.isLt⟩
      · have loads : ph.loads = true := by
          rw [Elf64Phdr.loads, named, bne_iff_ne.mpr none]
          rfl
        obtain ⟨sizes, -, vaddr, -⟩ := (probed ph mem).load loads
        exact ⟨sizes, le_sum_iff.mp vaddr⟩

theorem elfFillProbe_inside_sample : (elfFillProbe (some (oneRelaImage 8 8))).isOk = true ∧
      (TablesInside (oneRelaImage 8 8) ↔ SumsFit (oneRelaImage 8 8)) := by
  have accepted : (elfFillProbe (some (oneRelaImage 8 8))).isOk = true := by decide +kernel
  exact ⟨accepted, elfFillProbe_inside_iff accepted⟩

/-- An executable of one segment and a `PT_INTERP` of 32 bytes, the first 16 before the file. -/
def wrappedInterpImage : Image :=
  sparseImage 176
    ([(0, 0x7f), (1, 0x45), (2, 0x4c), (3, 0x46), (4, 2), (5, 1), (16, 2), (18, 62), (32, 64),
      (54, 56), (56, 2), (64, 1), (82, 0x80), (96, 176), (104, 176), (120, 3), (128, 0xf0),
      (152, 32)] ++ (List.range 7).map fun k => (129 + k, 0xff))

theorem elfFillProbe_interp_outside :
    (elfFillProbe (some wrappedInterpImage)).isOk = true ∧ ¬TablesInside wrappedInterpImage := by
  refine ⟨by decide +kernel, fun inside => ?_⟩
  have interp : wrappedInterpImage.phdrs[1]? = some
      { type := ptInterp, flags := 0, offset := -16, vaddr := 0, filesz := 32, memsz := 0 } := by
    decide +kernel
  have outside := inside.interp _ (List.mem_of_getElem? interp) rfl (by decide)
  exact absurd outside (by unfold Elf64Phdr.Inside; decide)

end GreenJade.Proc

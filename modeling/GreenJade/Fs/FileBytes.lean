import GreenJade.Fs.DescriptorIo

/-! Owns what the calls on a RAM file do to its bytes: where a write stores for every offset and
size of 64 bits. It does not own which file a descriptor stands for. -/

namespace GreenJade.Fs

namespace Vfs

open Function BitVec

/-! ### Offsets of 64 bits -/

/-- Bytes were to be stored from an offset on: an offset past the array is refused, and otherwise
as many are stored as the result says, with nothing else changed. -/
structure Stores (st : Vfs) (k : Fin vfsMaxFiles) (buf : Nat → U8) (cb off : U64)
    (after : Int × Vfs) : Prop where
  refused : vfsMaxData ≤ off.toNat → after.1 = -28 ∧ after.2.files = st.files
  stored : off.toNat < vfsMaxData → ∃ n : Nat, after.1 = n ∧ n ≤ cb.toNat ∧
    off.toNat + n ≤ vfsMaxData ∧
    (∀ j : Fin vfsMaxData, (after.2.files k).data j =
      if off.toNat ≤ j.val ∧ j.val < off.toNat + n then buf (j.val - off.toNat)
      else (st.files k).data j) ∧
    (after.2.files k).cbData.toNat = max (st.files k).cbData.toNat (off.toNat + n) ∧
    ∀ other, other ≠ k → after.2.files other = st.files other
  inside : after.2.outside = st.outside

/-- The 32 bits that the bound test works with say the same as the 64 bits of the caller. -/
def Honoured (off cb : U64) : Prop :=
  if off.toNat < vfsMaxData then off.toNat + cb.toNat % 2 ^ 32 < 2 ^ 32
  else vfsMaxData ≤ off.toNat % 2 ^ 32 ∧
    vfsMaxData < (off.toNat % 2 ^ 32 + cb.toNat % 2 ^ 32) % 2 ^ 32

theorem writeCount_le {off cb : U64} {count : U32} (accepted : writeCount off cb = some count)
    (whole : (off.setWidth 32 : U32).toNat + (cb.setWidth 32 : U32).toNat < 2 ^ 32) :
    count.toNat ≤ (cb.setWidth 32 : U32).toNat := by
  rcases writeCount_eq_some accepted with ⟨beyond, cut, -⟩ | ⟨-, same⟩
  · rw [Nat.mod_eq_of_lt whole] at beyond
    omega
  · exact same ▸ le_rfl

variable {st : Vfs} {fd : Int} {i : Fin vfsMaxFds} {k : Fin vfsMaxFiles} {io : IoCall}

/-- A write whose sum of 32 bits does not wrap around stores what it returns. -/
theorem stores_writtenFile {off cb : U64} {count : U32} (buf : Nat → U8)
    (accepted : writeCount off cb = some count) (small : off.toNat < vfsMaxData)
    (whole : off.toNat + cb.toNat % 2 ^ 32 < 2 ^ 32) {after : Int × Vfs}
    (result : after.1 = count.toNat)
    (files : after.2.files = update st.files k (writtenFile (st.files k) off buf count))
    (outside : after.2.outside =
      (st.outside || !(copyIn (off.setWidth 32) buf count.toNat (st.files k).data).2)) :
    st.Stores k buf cb off after := by
  have start : (off.setWidth 32 : U32).toNat = off.toNat := by
    exact Nat.mod_eq_of_lt (by omega)
  have asked : (cb.setWidth 32 : U32).toNat = cb.toNat % 2 ^ 32 := toNat_setWidth ..
  have bound := writeCount_le accepted (by omega)
  have fits := (writeCount_inside accepted).mp (Or.inl (by omega))
  rw [start] at fits
  have ends : ((off + count.setWidth 64).setWidth 32 : U32).toNat = off.toNat + count.toNat := by
    simp only [toNat_setWidth, toNat_add]
    omega
  have inside := (copyIn_inside_iff_fits (off.setWidth 32) buf (st.files k).data count).mpr
    (Or.inr (by omega))
  refine ⟨fun large => by omega, fun _ => ⟨count.toNat, result, by omega, fits, ?_, ?_, ?_⟩, ?_⟩
  · intro j
    have within : (off.setWidth 32 : U32).toNat + count.toNat ≤ vfsMaxData := by omega
    have written := copyIn_data buf (st.files k).data j within
    rw [start] at written
    rw [files, update_self]
    exact written
  · rw [files, update_self]
    simp only [writtenFile, lt_def]
    split_ifs <;> omega
  · intro other ne
    rw [files, update_of_ne ne]
  · rw [outside, inside, Bool.not_true, Bool.or_false]

/-- A write on a RAM file honours its offset and size exactly if the narrowed test does. -/
theorem Uncaught.stores_iff (at_ : st.Uncaught fd i io k) (writes : io.writes = true)
    (buf : Nat → U8) :
    st.Stores k buf io.cb (io.start st i) ((io.run st fd buf).1, (io.run st fd buf).2.2) ↔
      Honoured (io.start st i) io.cb := by
  have step : seen (io.run st fd buf) = _ := at_.seen_write writes st.files st.outside buf
  generalize io.run st fd buf = after at step ⊢
  generalize io.start st i = off at step ⊢
  generalize io.cb = cb at step ⊢
  have start : (off.setWidth 32 : U32).toNat = off.toNat % 2 ^ 32 := toNat_setWidth ..
  have asked : (cb.setWidth 32 : U32).toNat = cb.toNat % 2 ^ 32 := toNat_setWidth ..
  have refusal := writeCount_none_iff off cb
  unfold Honoured
  cases accepted : writeCount off cb with
  | none =>
    rw [accepted] at step
    obtain ⟨result, -, files, outside⟩ : after.1 = -28 ∧ _ ∧ after.2.2.files = _ ∧ _ := by
      simpa only [seen, Prod.mk.injEq] using step
    have late := refusal.mp accepted
    rw [if_neg (by omega)]
    exact ⟨fun _ => late, fun _ => ⟨fun _ => ⟨result, files⟩, fun small => by omega, outside⟩⟩
  | some count =>
    rw [accepted] at step
    obtain ⟨result, -, files, outside⟩ : after.1 = count.toNat ∧ _ ∧ after.2.2.files = _ ∧ _ := by
      simpa only [seen, Prod.mk.injEq] using step
    split_ifs with small
    · constructor
      · intro stores
        obtain ⟨n, same, -, bound, -⟩ := stores.stored small
        have fits := writeCount_inside accepted
        rw [toNat_add] at fits
        simp only [vfsMaxData] at *
        omega
      · intro whole
        exact stores_writtenFile buf accepted small whole result files outside
    · constructor
      · intro stores
        have refused : after.1 = -28 := (stores.refused (by omega)).1
        omega
      · intro late
        cases accepted.symm.trans (refusal.mpr late)

/-- `vfs_ram_pwrite`, and `vfs_ram_lseek` followed by `vfs_ram_write`, on a RAM file. -/
theorem offsets_honoured_iff (isOpen : st.fdOk fd = some i) (ram : (st.fds i).kind = .ram)
    (slot : slotOf vfsMaxFiles (st.fds i).file = some k) (buf : Nat → U8) (cb off : U64) :
    (st.Stores k buf cb off (st.vfsRamPwrite fd buf cb off) ∧ (0 ≤ off.toInt →
          st.Stores k buf cb off ((st.vfsRamLseek fd off 0).2.vfsRamWrite fd buf cb))) ↔
      Honoured off cb := by
  have at_ : st.Uncaught fd i (.pwrite cb off) k := ⟨isOpen, by rw [ram]; rfl, slot⟩
  have positioned : st.Stores k buf cb off (st.vfsRamPwrite fd buf cb off) ↔ Honoured off cb :=
    at_.stores_iff rfl buf
  refine ⟨fun both => positioned.mp both.1, fun honoured => ⟨positioned.mpr honoured, ?_⟩⟩
  intro nonneg
  have seeks : (st.vfsRamLseek fd off 0).2 = st.setOff i off := by
    simp only [vfsRamLseek, isOpen]
    rw [if_pos trivial, if_neg (by omega)]
  have entry : (st.setOff i off).fds i = { st.fds i with off } := setOff_entry off
  have sought : (st.setOff i off).Uncaught fd i (.write cb) k :=
    ⟨(fdOk_setOff off).trans isOpen, by rw [entry, ram]; rfl, by rw [entry]; exact slot⟩
  have at_off : IoCall.start (st.setOff i off) i (.write cb) = off := congrArg VfsFd.off entry
  have stores := sought.stores_iff rfl buf
  rw [at_off] at stores
  rw [seeks]
  exact ⟨(stores.mpr honoured).refused, (stores.mpr honoured).stored, (stores.mpr honoured).inside⟩

end Vfs

/-- The state after one file has been opened. -/
def sampleHost : Vfs := sampleVfs [.open (bytesOf "/etc/hostname") false]

theorem sampleHost_opened : sampleHost.fdOk 3 = some 3 ∧ (sampleHost.fds 3).kind = .ram ∧
    Vfs.slotOf vfsMaxFiles (sampleHost.fds 3).file = some 0 := by decide +kernel

/-- A byte in the middle of the file. -/
theorem offsets_honoured_middle : sampleHost.Stores 0 (fun _ => 120) 1 5
    (sampleHost.vfsRamPwrite 3 (fun _ => 120) 1 5) := by
  obtain ⟨isOpen, ram, slot⟩ := sampleHost_opened
  exact ((Vfs.offsets_honoured_iff isOpen ram slot _ _ _).mpr (by unfold Vfs.Honoured; decide)).1

/-- At 4 GiB a byte is stored at the beginning of the file. -/
theorem offsets_wrapped : ¬sampleHost.Stores 0 (fun _ => 120) 1 0x100000000
        (sampleHost.vfsRamPwrite 3 (fun _ => 120) 1 0x100000000) ∧
      (sampleHost.vfsRamPwrite 3 (fun _ => 120) 1 0x100000000).1 = 1 ∧
      (sampleHost.files 0).data 0 = 103 ∧
      ((sampleHost.vfsRamPwrite 3 (fun _ => 120) 1 0x100000000).2.files 0).data 0 = 120 := by
  have stored : (sampleHost.vfsRamPwrite 3 (fun _ => 120) 1 0x100000000).1 = 1 ∧
      (sampleHost.files 0).data 0 = 103 ∧
      ((sampleHost.vfsRamPwrite 3 (fun _ => 120) 1 0x100000000).2.files 0).data 0 = 120 := by
    decide +kernel
  refine ⟨?_, stored⟩
  intro stores
  have refused := (stores.refused (by decide)).1
  rw [stored.1] at refused
  cases refused

end GreenJade.Fs

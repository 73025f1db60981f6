import GreenJade.Mm.UserCopy
import Mathlib.Tactic.SplitIfs

/-! Owns what the user copies guarantee: the page scan accepts exactly the ranges whose pages
are user pages of the window, the chunk loop moves every byte of the range, and each of its
windows stays inside one page on both sides. -/

namespace GreenJade.Mm

open ByteCopy BitVec

/-! ### The chunk -/

def WithinPage (address len : U64) : Prop :=
  address.toNat % gjPageSize + len.toNat ≤ gjPageSize

theorem toNat_pageOffset (address : U64) :
    (address &&& 0xfff).toNat = address.toNat % gjPageSize := by
  show (address &&& 0xfff).toNat = address.toNat % 2 ^ 12
  rw [← Nat.and_two_pow_sub_one_eq_mod]
  rfl

theorem toNat_pageRest (address : U64) :
    (0x1000 - (address &&& 0xfff) : U64).toNat = gjPageSize - address.toNat % gjPageSize := by
  have offset := toNat_pageOffset address
  unfold gjPageSize at *
  bv_omega

variable {left dst src cb : U64} {space : UserSpace} {fuel : Nat} {mem : U64 → U8}

/-- A chunk takes at least one byte and at most what is left, and crosses no page end. -/
theorem userCopyChunkLen_spec (dst src : U64) (some : left ≠ 0) :
    userCopyChunkLen dst src left ≠ 0 ∧ (userCopyChunkLen dst src left).toNat ≤ left.toNat ∧
      WithinPage dst (userCopyChunkLen dst src left) ∧
      WithinPage src (userCopyChunkLen dst src left) := by
  have srcRest := toNat_pageRest src
  have dstRest := toNat_pageRest dst
  have srcSmall : src.toNat % gjPageSize < gjPageSize := Nat.mod_lt _ (by decide)
  have dstSmall : dst.toNat % gjPageSize < gjPageSize := Nat.mod_lt _ (by decide)
  simp only [userCopyChunkLen, WithinPage]
  generalize (0x1000 - (src &&& 0xfff) : U64) = chunkS at *
  generalize (0x1000 - (dst &&& 0xfff) : U64) = chunkD at *
  generalize src.toNat % gjPageSize = srcOffset at *
  generalize dst.toNat % gjPageSize = dstOffset at *
  split_ifs <;> bv_omega

/-! ### The chunk loop -/

/-- The window is a part of the transfer of `cb` bytes, at the same offset on both sides, and
stays inside one page of each. -/
structure AccessWindow.Within (window : AccessWindow) (dst src cb : U64) : Prop where
  placed : ∃ offset : Nat, offset + window.len.toNat ≤ cb.toNat ∧
    window.dst = dst + BitVec.ofNat 64 offset ∧ window.src = src + BitVec.ofNat 64 offset
  dstPage : WithinPage window.dst window.len
  srcPage : WithinPage window.src window.len

theorem toNat_sub_chunk {chunk : U64} (below : chunk.toNat ≤ left.toNat) :
    (left - chunk).toNat = left.toNat - chunk.toNat := by
  bv_omega

theorem AccessWindow.Within.shift {window : AccessWindow} {chunk : U64}
    (within : window.Within (dst + chunk) (src + chunk) (left - chunk))
    (below : chunk.toNat ≤ left.toNat) : window.Within dst src left := by
  obtain ⟨offset, bound, dstAt, srcAt⟩ := within.placed
  have shifted : BitVec.ofNat 64 (chunk.toNat + offset) = chunk + BitVec.ofNat 64 offset := by
    rw [ofNat_add, ofNat_toNat, setWidth_eq]
  refine { within with placed := ⟨chunk.toNat + offset, ?_, ?_, ?_⟩ }
  · rw [toNat_sub_chunk below] at bound
    omega
  · rw [dstAt, shifted, add_assoc]
  · rw [srcAt, shifted, add_assoc]

/-- The transfer ran to its end in windows of the range, and copied it if the two sides do not
overlap. -/
structure Transfer.Moves (transfer : Transfer) (mem : U64 → U8) (dst src cb : U64) : Prop where
  complete : transfer.complete = true
  mem_eq : Apart src dst cb.toNat → transfer.mem = copy mem dst src cb.toNat
  windows : ∀ window ∈ transfer.windows, window.Within dst src cb

theorem copyRawChunkedLoop_step (some : left ≠ 0) :
    copyRawChunkedLoop (fuel + 1) dst src left mem =
      let chunk := userCopyChunkLen dst src left
      let rest := copyRawChunkedLoop fuel (dst + chunk) (src + chunk) (left - chunk)
        (copy mem dst src chunk.toNat)
      { rest with windows := { dst, src, len := chunk } :: rest.windows } := by
  rw [copyRawChunkedLoop, if_neg some]
  exact if_neg (userCopyChunkLen_spec dst src some).1

/-- One chunk followed by the transfer of the rest is the whole transfer. -/
theorem Transfer.Moves.chunk {rest : Transfer} (some : left ≠ 0)
    (moves : rest.Moves (copy mem dst src (userCopyChunkLen dst src left).toNat)
      (dst + userCopyChunkLen dst src left) (src + userCopyChunkLen dst src left)
      (left - userCopyChunkLen dst src left)) :
    Transfer.Moves { rest with
        windows := { dst, src, len := userCopyChunkLen dst src left } :: rest.windows }
      mem dst src left := by
  obtain ⟨-, below, dstPage, srcPage⟩ := userCopyChunkLen_spec dst src some
  generalize userCopyChunkLen dst src left = chunk at *
  have total : chunk.toNat + (left - chunk).toNat = left.toNat := by
    rw [toNat_sub_chunk below]
    omega
  have asOffset : BitVec.ofNat 64 chunk.toNat = chunk := by
    rw [ofNat_toNat, setWidth_eq]
  refine { complete := moves.complete, mem_eq := ?_, windows := ?_ }
  · intro apart
    have apartBoth : Apart src dst (chunk.toNat + (left - chunk).toNat) := by rwa [total]
    have apartRest := apartBoth.tail
    rw [asOffset] at apartRest
    calc rest.mem
        = copy (copy mem dst src chunk.toNat) (dst + BitVec.ofNat 64 chunk.toNat)
            (src + BitVec.ofNat 64 chunk.toNat) (left - chunk).toNat := by
          rw [asOffset]
          exact moves.mem_eq apartRest
      _ = copy mem dst src (chunk.toNat + (left - chunk).toNat) :=
          copy_append (by omega) apartBoth
      _ = copy mem dst src left.toNat := by rw [total]
  · intro window member
    rcases List.mem_cons.mp member with rfl | later
    · exact { placed := ⟨0, by simpa using below, by simp, by simp⟩, dstPage, srcPage }
    · exact (moves.windows window later).shift below

theorem copyRawChunkedLoop_moves (enough : left.toNat < fuel) :
    (copyRawChunkedLoop fuel dst src left mem).Moves mem dst src left := by
  induction fuel generalizing dst src left mem with
  | zero => omega
  | succ fuel ih =>
    by_cases none : left = 0
    · subst none
      rw [copyRawChunkedLoop]
      exact { complete := rfl, mem_eq := fun _ => copy_zero.symm, windows := by simp }
    · rw [copyRawChunkedLoop_step none]
      apply Transfer.Moves.chunk none
      apply ih
      obtain ⟨progress, below, -, -⟩ := userCopyChunkLen_spec dst src none
      rw [toNat_sub_chunk below]
      have shorter : 0 < (userCopyChunkLen dst src left).toNat := by bv_omega
      omega

theorem copyRawChunked_moves (mem : U64 → U8) (dst src cb : U64) :
    (copyRawChunked mem dst src cb).Moves mem dst src cb :=
  copyRawChunkedLoop_moves (Nat.lt_succ_self _)

/-! ### The page scan -/

/-- The leaf is present, a user leaf, and for writes writable or copy-on-write. -/
def LeafGrants (pte : U64) (write : Bool) : Prop :=
  pte &&& GjUserPte.p ≠ 0 ∧ pte &&& GjUserPte.u ≠ 0 ∧
    (write = true → pte &&& GjUserPte.w ≠ 0 ∨ pte &&& GjUserPte.cow ≠ 0)

def Overlaps (va cb page : Nat) : Prop :=
  page * gjPageSize < va + cb ∧ va < (page + 1) * gjPageSize

/-- The page lies in the user window and its leaf grants the access. -/
def UserPage (space : UserSpace) (write : Bool) (page : Nat) : Prop :=
  gjUserVaBase.toNat ≤ page * gjPageSize ∧ (page + 1) * gjPageSize ≤ gjUserVaEnd.toNat ∧
    LeafGrants (space.readPte (BitVec.ofNat 64 (page * gjPageSize))) write

theorem leafAllows_iff {pte : U64} {write : Bool} :
    leafAllows pte write = true ↔ LeafGrants pte write := by
  unfold leafAllows LeafGrants
  split_ifs <;> grind

theorem userRangeOk_iff {va : U64} (some : cb ≠ 0) :
    userRangeOk va cb = true ↔
      gjUserVaBase.toNat ≤ va.toNat ∧ va.toNat + cb.toNat ≤ gjUserVaEnd.toNat := by
  unfold userRangeOk gjUserCopyMax gjUserVaBase gjUserVaEnd
  split_ifs <;> simp only [false_iff, true_iff] <;> bv_omega

/-- The scan from the page with number `first` checks the leaf of every page up to `stop`. -/
theorem mappedLoop_iff {write : Bool} {stop : U64} {first : Nat}
    (stopLow : stop.toNat ≤ gjUserVaEnd.toNat) (started : first * gjPageSize < stop.toNat)
    (enough : stop.toNat ≤ (first + fuel) * gjPageSize) :
    mappedLoop space write stop fuel (BitVec.ofNat 64 (first * gjPageSize)) = true ↔
      ∀ page, first ≤ page → page * gjPageSize < stop.toNat →
        LeafGrants (space.readPte (BitVec.ofNat 64 (page * gjPageSize))) write := by
  induction fuel generalizing first with
  | zero => exact absurd started (Nat.not_lt.mpr enough)
  | succ fuel ih =>
    have size : gjPageSize = 4096 := rfl
    have endLow : gjUserVaEnd.toNat < 2 ^ 32 := by decide
    have next : BitVec.ofNat 64 (first * gjPageSize) + 0x1000 =
        BitVec.ofNat 64 ((first + 1) * gjPageSize) := by
      rw [Nat.add_mul, ofNat_add]
      rfl
    have nextAt : (BitVec.ofNat 64 ((first + 1) * gjPageSize)).toNat =
        (first + 1) * gjPageSize := by
      rw [toNat_ofNat]
      rw [Nat.add_mul]
      omega
    rw [mappedLoop, next]
    by_cases granted : leafAllows (space.readPte (BitVec.ofNat 64 (first * gjPageSize))) write
    · rw [if_neg (by simp [granted])]
      split_ifs with last
      · rw [le_def] at last
        refine iff_of_true rfl fun page after before => ?_
        have only : page = first := by
          rw [size] at *
          omega
        rw [only]
        exact leafAllows_iff.mp granted
      · rw [le_def, nextAt, Nat.not_le] at last
        apply (ih last (by rwa [Nat.add_assoc, Nat.add_comm 1])).trans
        constructor
        · intro later page after before
          rcases Nat.eq_or_lt_of_le after with rfl | beyond
          · exact leafAllows_iff.mp granted
          · exact later page beyond before
        · intro every page after before
          exact every page (by omega) before
    · rw [if_pos (by simpa using granted)]
      refine iff_of_false (by simp) fun every => granted ?_
      exact leafAllows_iff.mpr (every first le_rfl started)

theorem and_not_add_and (word mask : U64) : (word &&& ~~~mask) + (word &&& mask) = word := by
  rw [add_eq_or_of_and_eq_zero]
  all_goals
    ext bit bound
    cases set : mask[bit] <;> simp [set]

/-- The scan starts at the page of the first byte. -/
theorem pageOf_eq (va : U64) :
    va &&& ~~~(0xfff : U64) = BitVec.ofNat 64 (va.toNat / gjPageSize * gjPageSize) := by
  have parts := and_not_add_and va 0xfff
  have offset := toNat_pageOffset va
  have division := Nat.div_add_mod va.toNat gjPageSize
  rw [Nat.mul_comm] at division
  generalize va.toNat / gjPageSize * gjPageSize = start at *
  generalize va &&& ~~~(0xfff : U64) = page at *
  bv_omega

/-- The range lies in the window if all pages that it overlaps do. -/
theorem window_of_pages {va cb : Nat} (some : cb ≠ 0)
    (pages : ∀ page, Overlaps va cb page →
      gjUserVaBase.toNat ≤ page * gjPageSize ∧ (page + 1) * gjPageSize ≤ gjUserVaEnd.toNat) :
    gjUserVaBase.toNat ≤ va ∧ va + cb ≤ gjUserVaEnd.toNat := by
  unfold Overlaps gjPageSize at pages
  have low := pages (va / 4096) (by omega)
  have high := pages ((va + cb - 1) / 4096) (by omega)
  omega

/-- The bounds of the window are page bounds. -/
theorem page_in_window {va cb page : Nat} (overlaps : Overlaps va cb page)
    (low : gjUserVaBase.toNat ≤ va) (high : va + cb ≤ gjUserVaEnd.toNat) :
    gjUserVaBase.toNat ≤ page * gjPageSize ∧ (page + 1) * gjPageSize ≤ gjUserVaEnd.toNat := by
  have base : gjUserVaBase.toNat = 2048 * 4096 := rfl
  have limit : gjUserVaEnd.toNat = 524288 * 4096 := rfl
  unfold Overlaps gjPageSize at *
  omega

theorem userRangeMappedAccess_iff {va : U64} {access : U32} (some : cb ≠ 0) :
    userRangeMappedAccess space va cb access = true ↔
      ∀ page, Overlaps va.toNat cb.toNat page → UserPage space (accessWrites access) page := by
  have positive : cb.toNat ≠ 0 := by bv_omega
  unfold userRangeMappedAccess
  by_cases inWindow : userRangeOk va cb = true
  · obtain ⟨low, high⟩ := (userRangeOk_iff some).mp inWindow
    have stopAt : (va + cb).toNat = va.toNat + cb.toNat := by
      bv_omega
    rw [if_neg (by simp [inWindow]), if_neg some, pageOf_eq,
      mappedLoop_iff (by omega) (by unfold gjPageSize; omega) (by unfold gjPageSize; omega),
      stopAt]
    constructor
    · intro every page overlaps
      obtain ⟨pageLow, pageHigh⟩ := page_in_window overlaps low high
      refine ⟨pageLow, pageHigh, every page ?_ overlaps.1⟩
      exact Nat.lt_succ_iff.mp (Nat.div_lt_of_lt_mul (by rw [Nat.mul_comm]; exact overlaps.2))
    · intro every page after before
      have meets : va.toNat < (page + 1) * gjPageSize := by
        unfold gjPageSize at *
        omega
      exact (every page ⟨before, meets⟩).2.2
  · rw [if_pos (by simpa using inWindow)]
    refine iff_of_false (by simp) fun every => inWindow ?_
    apply (userRangeOk_iff some).mpr
    apply window_of_pages positive
    intro page overlaps
    exact ⟨(every page overlaps).1, (every page overlaps).2.1⟩

/-! ### The entry points -/

/-- What a copy of `cb` bytes from `src` to `dst` guarantees, where `kernel` and `user` are
the two sides and `write` says whether the user side is the destination. -/
structure CopyOutcome.Exact (outcome : CopyOutcome) (space : UserSpace) (write : Bool)
    (kernel user dst src cb : U64) : Prop where
  ok_iff : outcome.status = .ok ↔ kernel ≠ 0 ∧
    (cb = 0 ∨ ∀ page, Overlaps user.toNat cb.toNat page → UserPage space write page)
  transferred : outcome.status = .ok → ∀ offset < cb.toNat,
    outcome.mem (dst + BitVec.ofNat 64 offset) = space.mem (src + BitVec.ofNat 64 offset)
  frame : ∀ address, (∀ offset < cb.toNat, address ≠ dst + BitVec.ofNat 64 offset) →
    outcome.mem address = space.mem address
  refused : outcome.status ≠ .ok → outcome.mem = space.mem ∧ outcome.windows = []
  windows : ∀ window ∈ outcome.windows, window.Within dst src cb

theorem copyUser_ok_iff (space : UserSpace) (access : U32) (kernel user dst src cb : U64) :
    (copyUser space access kernel user dst src cb).status = .ok ↔ kernel ≠ 0 ∧
      (cb = 0 ∨ ∀ page, Overlaps user.toNat cb.toNat page →
        UserPage space (accessWrites access) page) := by
  unfold copyUser
  by_cases null : kernel = 0
  · rw [if_pos null]
    exact iff_of_false nofun fun valid => valid.1 null
  rw [if_neg null]
  by_cases none : cb = 0
  · rw [if_pos none]
    exact iff_of_true rfl ⟨null, .inl none⟩
  rw [if_neg none, ← userRangeMappedAccess_iff none]
  by_cases mapped : userRangeMappedAccess space user cb access = true
  · rw [if_neg (by simp [mapped])]
    exact iff_of_true (if_pos (copyRawChunked_moves space.mem dst src cb).complete)
      ⟨null, .inr mapped⟩
  · rw [if_pos (by simpa using mapped)]
    exact iff_of_false nofun fun valid => mapped (valid.2.resolve_left none)

/-- A copy either stops before the chunk loop, with `ok` only for the empty range, or is what
the chunk loop makes of it. -/
theorem copyUser_cases (space : UserSpace) (access : U32) (kernel user dst src cb : U64) :
    (∃ status, copyUser space access kernel user dst src cb =
        { status, mem := space.mem, windows := [] } ∧ (status = .ok → cb = 0)) ∨
      copyUser space access kernel user dst src cb =
        { status := .ok
          mem := (copyRawChunked space.mem dst src cb).mem
          windows := (copyRawChunked space.mem dst src cb).windows } := by
  unfold copyUser
  split
  · exact .inl ⟨_, rfl, nofun⟩
  split
  · next none =>
        exact .inl ⟨_, rfl, fun _ => none⟩
  by_cases mapped : userRangeMappedAccess space user cb access = true
  · rw [if_neg (by simp [mapped])]
    refine .inr ?_
    simp only [(copyRawChunked_moves space.mem dst src cb).complete, if_true]
  · rw [if_pos (by simpa using mapped)]
    exact .inl ⟨_, rfl, nofun⟩

theorem copyUser_exact {access : U32} {kernel user : U64} (apart : Apart src dst cb.toNat) :
    (copyUser space access kernel user dst src cb).Exact space (accessWrites access)
      kernel user dst src cb := by
  have verdict := copyUser_ok_iff space access kernel user dst src cb
  rcases copyUser_cases space access kernel user dst src cb with ⟨status, stopped, empty⟩ | moved
  · rw [stopped] at verdict ⊢
    refine
      { ok_iff := verdict
        transferred := ?_
        frame := fun _ _ => rfl
        refused := fun _ => ⟨rfl, rfl⟩
        windows := by simp }
    intro ok offset bound
    simp [empty ok] at bound
  · rw [moved] at verdict ⊢
    have moves := copyRawChunked_moves space.mem dst src cb
    refine
      { ok_iff := verdict
        transferred := ?_
        frame := ?_
        refused := fun failed => absurd rfl failed
        windows := moves.windows }
    · intro _ offset bound
      exact (congrFun (moves.mem_eq apart) _).trans (copy_inside (by omega) bound)
    · intro address outside
      exact (congrFun (moves.mem_eq apart) _).trans (copy_outside outside)

/-- A user copy succeeds exactly when it is empty or every page it overlaps is a user page of
the window that grants the access. It then moves the whole range in order and nothing else,
otherwise it moves nothing, and no window crosses a page end on either side. -/
theorem userCopy_exact (space : UserSpace) (kernel user cb : U64)
    (apart : Apart user kernel cb.toNat) :
    (copyFromUser space kernel user cb).Exact space false kernel user kernel user cb ∧
      (copyToUser space user kernel cb).Exact space true kernel user user kernel cb :=
  ⟨copyUser_exact apart, copyUser_exact apart.symm⟩

/-- Two writable user pages at the base of the window, and nothing else. -/
def sampleSpace : UserSpace where
  readPte := fun page => if page = 0x800000 ∨ page = 0x801000 then 0x7 else 0
  mem := fun address => address.setWidth 8

/-- Thirty-two bytes over a page end go out to the user in two windows. -/
theorem userCopy_exact_twoPages :
    Apart (0x800ff0 : U64) 0x100000 32 ∧
      (copyToUser sampleSpace 0x800ff0 0x100000 32).status = .ok ∧
      (copyToUser sampleSpace 0x800ff0 0x100000 32).windows =
        [{ dst := 0x800ff0, src := 0x100000, len := 16 },
          { dst := 0x801000, src := 0x100010, len := 16 }] ∧
      (copyToUser sampleSpace 0x800ff0 0x100000 32).Exact sampleSpace true
        0x100000 0x800ff0 0x800ff0 0x100000 32 := by
  have apart : Apart (0x800ff0 : U64) 0x100000 32 := by
    intro i iBound j jBound
    bv_omega
  exact ⟨apart, by decide, by decide, (userCopy_exact sampleSpace 0x100000 0x800ff0 32 apart).2⟩

end GreenJade.Mm

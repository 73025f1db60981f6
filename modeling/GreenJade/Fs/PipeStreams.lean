import GreenJade.Fs.RamIo
import GreenJade.Lib.RingBuffer

/-! Owns pipes and socket pairs as streams. A pair has a ring for each direction, with a head that
wraps around; while both ends are open, what is read of a direction is what was written to it, in
order. -/

namespace GreenJade.Fs

open Function List Vfs

/-! ### Rings -/

/-- What the ring that an end writes holds. -/
def PipePair.content (pair : PipePair) (ring : Fin 2) : List U8 :=
  RingBuffer.content (pair.ring ring) (pair.head ring).toNat (pair.len ring).toNat

structure PipePair.Sound (pair : PipePair) : Prop where
  head : ∀ ring, (pair.head ring).toNat < vfsPipeBuf
  len : ∀ ring, (pair.len ring).toNat ≤ vfsPipeBuf

structure PipePair.OneRing (pair pair' : PipePair) (ring : Fin 2) : Prop where
  used : pair'.used = pair.used
  isOpen : pair'.isOpen = pair.isOpen
  head : ∀ other, other ≠ ring → pair'.head other = pair.head other
  len : ∀ other, other ≠ ring → pair'.len other = pair.len other
  cells : ∀ other, other ≠ ring → pair'.ring other = pair.ring other

namespace PipePair

variable {pair pair' pair'' : PipePair} {ring : Fin 2}

theorem length_content (pair : PipePair) (ring : Fin 2) :
    (pair.content ring).length = (pair.len ring).toNat :=
  RingBuffer.length_content

theorem OneRing.refl (pair : PipePair) (ring : Fin 2) : pair.OneRing pair ring :=
  ⟨rfl, rfl, fun _ _ => rfl, fun _ _ => rfl, fun _ _ => rfl⟩

theorem OneRing.trans (first : pair.OneRing pair' ring) (second : pair'.OneRing pair'' ring) :
    pair.OneRing pair'' ring where
  used := second.used.trans first.used
  isOpen := second.isOpen.trans first.isOpen
  head other ne := (second.head other ne).trans (first.head other ne)
  len other ne := (second.len other ne).trans (first.len other ne)
  cells other ne := (second.cells other ne).trans (first.cells other ne)

theorem OneRing.content (one : pair.OneRing pair' ring) {other : Fin 2} (ne : other ≠ ring) :
    pair'.content other = pair.content other := by
  unfold PipePair.content
  rw [one.head other ne, one.len other ne, one.cells other ne]

theorem OneRing.sound (one : pair.OneRing pair' ring) (sound : pair.Sound)
    (head : (pair'.head ring).toNat < vfsPipeBuf) (len : (pair'.len ring).toNat ≤ vfsPipeBuf) :
    pair'.Sound := by
  constructor <;> intro other <;> by_cases same : other = ring
  · rw [same]
    exact head
  · rw [one.head other same]
    exact sound.head other
  · rw [same]
    exact len
  · rw [one.len other same]
    exact sound.len other

def pop (pair : PipePair) (ring : Fin 2) : PipePair :=
  { pair with
    head := update pair.head ring (BitVec.ofNat 32 (((pair.head ring).toNat + 1) % vfsPipeBuf))
    len := update pair.len ring (pair.len ring - 1) }

def push (pair : PipePair) (ring : Fin 2) (byte : U8) : PipePair :=
  { pair with
    ring := update pair.ring ring
      (update (pair.ring ring)
        (Fin.ofNat vfsPipeBuf ((pair.head ring).toNat + (pair.len ring).toNat)) byte)
    len := update pair.len ring (pair.len ring + 1) }

theorem pop_oneRing (pair : PipePair) (ring : Fin 2) : pair.OneRing (pair.pop ring) ring where
  used := rfl
  isOpen := rfl
  head _ ne := update_of_ne ne ..
  len _ ne := update_of_ne ne ..
  cells _ _ := rfl

theorem push_oneRing (pair : PipePair) (ring : Fin 2) (byte : U8) :
    pair.OneRing (pair.push ring byte) ring where
  used := rfl
  isOpen := rfl
  head _ _ := rfl
  len _ ne := update_of_ne ne ..
  cells _ ne := update_of_ne ne ..

theorem pop_head (pair : PipePair) (ring : Fin 2) :
    ((pair.pop ring).head ring).toNat = ((pair.head ring).toNat + 1) % vfsPipeBuf := by
  unfold pop
  dsimp only
  rw [update_self]
  exact Nat.mod_eq_of_lt ((Nat.mod_lt _ (by decide)).trans (by decide))

theorem pop_len {count : Nat} (len : (pair.len ring).toNat = count + 1) :
    ((pair.pop ring).len ring).toNat = count := by
  unfold pop
  dsimp only
  rw [update_self]
  bv_omega

theorem push_len (room : (pair.len ring).toNat < vfsPipeBuf) (byte : U8) :
    ((pair.push ring byte).len ring).toNat = (pair.len ring).toNat + 1 := by
  unfold push vfsPipeBuf at *
  dsimp only
  rw [update_self]
  bv_omega

theorem pop_content {count : Nat} (len : (pair.len ring).toNat = count + 1) : pair.content ring =
      pair.ring ring (Fin.ofNat vfsPipeBuf (pair.head ring).toNat) ::
        (pair.pop ring).content ring := by
  unfold content
  rw [pop_head, pop_len len, len, RingBuffer.content_pop]
  rfl

theorem push_content (room : (pair.len ring).toNat < vfsPipeBuf) (byte : U8) :
    (pair.push ring byte).content ring = pair.content ring ++ [byte] := by
  have cells : (pair.push ring byte).ring ring = update (pair.ring ring)
      (Fin.ofNat vfsPipeBuf ((pair.head ring).toNat + (pair.len ring).toNat)) byte :=
    update_self ..
  unfold content
  rw [push_len room, cells]
  exact RingBuffer.content_push room byte

theorem pop_sound (sound : pair.Sound) {count : Nat} (len : (pair.len ring).toNat = count + 1) :
    (pair.pop ring).Sound := by
  refine (pair.pop_oneRing ring).sound sound ?_ ?_
  · rw [pop_head]
    exact Nat.mod_lt _ (by decide)
  · have before := sound.len ring
    rw [pop_len len]
    omega

theorem push_sound (sound : pair.Sound) (room : (pair.len ring).toNat < vfsPipeBuf) (byte : U8) :
    (pair.push ring byte).Sound := by
  apply (pair.push_oneRing ring byte).sound sound (sound.head ring)
  rw [push_len room]
  exact room

/-! ### The loops -/

/-- What the loop of `vfs_ram_read` does. -/
structure Drains (pair : PipePair) (ring : Fin 2) (count : Nat) (after : List U8 × PipePair) :
    Prop where
  split : pair.content ring = after.1 ++ after.2.content ring
  length : after.1.length = count
  oneRing : pair.OneRing after.2 ring
  sound : after.2.Sound

theorem drains (ring : Fin 2) (count : Nat) : ∀ {pair : PipePair}, pair.Sound →
    count ≤ (pair.len ring).toNat → pair.Drains ring count (drain ring count pair) := by
  induction count with
  | zero => exact fun {pair} sound _ => ⟨rfl, rfl, .refl pair ring, sound⟩
  | succ count ih =>
    intro pair sound enough
    obtain ⟨rest, len⟩ : ∃ rest, (pair.len ring).toNat = rest + 1 :=
      ⟨(pair.len ring).toNat - 1, by omega⟩
    have popped : ((pair.pop ring).len ring).toNat = rest := pop_len len
    have tail := ih (pop_sound sound len) (by omega)
    refine ⟨?_, congrArg (· + 1) tail.length, (pair.pop_oneRing ring).trans tail.oneRing,
      tail.sound⟩
    rw [pop_content len, tail.split]
    rfl

/-- What the loop of `vfs_ram_write` does. -/
structure Fills (pair : PipePair) (ring : Fin 2) (bytes : List U8) (after : PipePair) : Prop where
  append : after.content ring = pair.content ring ++ bytes
  oneRing : pair.OneRing after ring
  sound : after.Sound

theorem fills (ring : Fin 2) (buf : Nat → U8) (count : Nat) :
    ∀ {done : Nat} {pair : PipePair}, pair.Sound → (pair.len ring).toNat + count ≤ vfsPipeBuf →
      pair.Fills ring ((List.range' done count).map buf) (fill ring buf count done pair) := by
  induction count with
  | zero => exact fun {_ pair} sound _ => ⟨(append_nil _).symm, .refl pair ring, sound⟩
  | succ count ih =>
    intro done pair sound room
    have first : (pair.len ring).toNat < vfsPipeBuf := by omega
    have pushed : ((pair.push ring (buf done)).len ring).toNat = (pair.len ring).toNat + 1 :=
      push_len first (buf done)
    have tail : (pair.push ring (buf done)).Fills ring ((List.range' (done + 1) count).map buf)
        (fill ring buf count (done + 1) (pair.push ring (buf done))) :=
      ih (push_sound sound first (buf done)) (by omega)
    refine ⟨?_, (pair.push_oneRing ring (buf done)).trans tail.oneRing, tail.sound⟩
    change (fill ring buf count (done + 1) (pair.push ring (buf done))).content ring = _
    rw [tail.append, push_content first, append_assoc]
    rfl

end PipePair

/-! ### Runs -/

inductive PipeCall
  | read (fdEnd : Fin 2) (cb : U64)
  | write (fdEnd : Fin 2) (buf : Nat → U8) (cb : U64)

/-- The tables, with what each end has accepted and what has been returned of it at the other. -/
structure PipeRun where
  st : Vfs
  accepted : Fin 2 → List U8
  returned : Fin 2 → List U8

/-- The bytes of a buffer that a write has accepted by its result. -/
def acceptedBytes (buf : Nat → U8) (result : Int) : List U8 := (List.range result.toNat).map buf

def PipeCall.step (fds : Fin 2 → Fin vfsMaxFds) (run : PipeRun) : PipeCall → PipeRun
  | .read fdEnd cb =>
    let (_, bytes, st) := run.st.vfsRamRead (fds fdEnd).val cb
    { run with
      st, returned := update run.returned (1 - fdEnd) (run.returned (1 - fdEnd) ++ bytes) }
  | .write fdEnd buf cb =>
    let (result, st) := run.st.vfsRamWrite (fds fdEnd).val buf cb
    { run with
      st, accepted := update run.accepted fdEnd (run.accepted fdEnd ++ acceptedBytes buf result) }

namespace PipeRun

def fdOf (fd0 fd1 : Fin vfsMaxFds) (fdEnd : Fin 2) : Fin vfsMaxFds := if fdEnd = 0 then fd0 else fd1

def start (st : Vfs) : PipeRun := { st, accepted := fun _ => [], returned := fun _ => [] }

/-- The descriptors are the two open ends of a pair. -/
structure Ends (st : Vfs) (fds : Fin 2 → Fin vfsMaxFds) (k : Fin vfsMaxPipes) : Prop where
  low : ∀ e, 3 ≤ (fds e).val
  entry : ∀ e, (st.fds (fds e)).used = true ∧ (st.fds (fds e)).kind = .pipe ∧
    (st.fds (fds e)).fdEnd = e ∧ slotOf vfsMaxPipes (st.fds (fds e)).file = some k
  used : (st.pipes k).used = true
  isOpen : ∀ e, (st.pipes k).isOpen e = true
  sound : (st.pipes k).Sound

/-- What has been returned and what the ring holds make what has been accepted. -/
structure Streams (run : PipeRun) (fds : Fin 2 → Fin vfsMaxFds) (k : Fin vfsMaxPipes) : Prop where
  ends : Ends run.st fds k
  stream : ∀ e, run.accepted e = run.returned e ++ (run.st.pipes k).content e

variable {st : Vfs} {fds : Fin 2 → Fin vfsMaxFds} {k : Fin vfsMaxPipes}

theorem Ends.fdOk (ends : Ends st fds k) (e : Fin 2) : st.fdOk (fds e).val = some (fds e) :=
  fdOk_eq_some.mpr ⟨rfl, by exact_mod_cast ends.low e, (ends.entry e).1⟩

theorem Ends.setPipe (ends : Ends st fds k) {pair : PipePair} {ring : Fin 2}
    (one : (st.pipes k).OneRing pair ring) (sound : pair.Sound) :
    Ends (st.setPipe k pair) fds k := by
  have here : (st.setPipe k pair).pipes k = pair := update_self ..
  refine ⟨ends.low, ends.entry, ?_, fun e => ?_, ?_⟩
  · rw [here, one.used]
    exact ends.used
  · rw [here, one.isOpen]
    exact ends.isOpen e
  · rw [here]
    exact sound

def readCount (pair : PipePair) (ring : Fin 2) (cb : U64) : Nat :=
  min (cb.setWidth 32 : U32).toNat (pair.len ring).toNat

def writeCount (pair : PipePair) (ring : Fin 2) (cb : U64) : Nat :=
  min (cb.toNat % 2 ^ 32) (vfsPipeBuf - (pair.len ring).toNat)

theorem Ends.read (ends : Ends st fds k) (e : Fin 2) (cb : U64) :
    ∃ result after, st.vfsRamRead (fds e).val cb = (result, after.1, st.setPipe k after.2) ∧
      (st.pipes k).Drains (1 - e) (readCount (st.pipes k) (1 - e) cb) after := by
  obtain ⟨-, kind, side, slot⟩ := ends.entry e
  have drained := PipePair.drains (1 - e) (readCount (st.pipes k) (1 - e) cb) ends.sound
    (Nat.min_le_right _ _)
  unfold vfsRamRead
  rw [ends.fdOk e]
  dsimp only
  rw [kind]
  unfold readPipe
  rw [slot]
  dsimp only
  rw [if_neg (by rw [ends.used]; exact Bool.noConfusion), side]
  split
  · next empty =>
        rw [if_pos (ends.isOpen _)]
        have none : readCount (st.pipes k) (1 - e) cb = 0 := by
          unfold readCount
          rw [empty]
          exact Nat.min_zero _
        rw [none] at drained ⊢
        refine ⟨-11, ([], st.pipes k), ?_, drained⟩
        simp [Vfs.setPipe, update_eq_self]
  · exact ⟨_, _, rfl, drained⟩

theorem Ends.write (ends : Ends st fds k) (e : Fin 2) (buf : Nat → U8) (cb : U64) :
    ∃ result pair, st.vfsRamWrite (fds e).val buf cb = (result, st.setPipe k pair) ∧
      result.toNat = writeCount (st.pipes k) e cb ∧
      (st.pipes k).Fills e ((List.range (writeCount (st.pipes k) e cb)).map buf) pair := by
  obtain ⟨-, kind, side, slot⟩ := ends.entry e
  have bound := ends.sound.len e
  have space : (BitVec.ofNat 32 vfsPipeBuf - (st.pipes k).len e).toNat =
      vfsPipeBuf - ((st.pipes k).len e).toNat := by
    unfold vfsPipeBuf at *
    bv_omega
  have filled : (st.pipes k).Fills e ((List.range (writeCount (st.pipes k) e cb)).map buf)
      (fill e buf (writeCount (st.pipes k) e cb) 0 (st.pipes k)) := by
    rw [range_eq_range']
    apply PipePair.fills e buf _ ends.sound
    unfold writeCount
    omega
  unfold vfsRamWrite
  rw [ends.fdOk e]
  dsimp only
  rw [kind]
  unfold writePipe
  rw [slot]
  dsimp only
  rw [if_neg (by rw [ends.used]; exact Bool.noConfusion),
    if_neg (by rw [ends.isOpen]; exact Bool.noConfusion), side]
  split_ifs with full
  · have none : writeCount (st.pipes k) e cb = 0 := by
      unfold writeCount
      rw [← space, full]
      exact Nat.min_zero _
    rw [none] at filled ⊢
    refine ⟨-11, st.pipes k, ?_, rfl, filled⟩
    simp [Vfs.setPipe, update_eq_self]
  · rw [space]
    exact ⟨_, _, rfl, rfl, filled⟩

theorem setPipe_content (st : Vfs) (k : Fin vfsMaxPipes) (pair : PipePair) :
    ((st.setPipe k pair).pipes k) = pair :=
  update_self ..

/-- One call keeps the two streams. -/
theorem Streams.step {run : PipeRun} (streams : run.Streams fds k) (call : PipeCall) :
    (call.step fds run).Streams fds k := by
  cases call with
  | read fdEnd cb =>
    obtain ⟨result, after, value, drained⟩ := streams.ends.read fdEnd cb
    unfold PipeCall.step
    dsimp only
    rw [value]
    refine ⟨streams.ends.setPipe drained.oneRing drained.sound, fun e => ?_⟩
    dsimp only
    rw [setPipe_content, streams.stream e, update_apply]
    split_ifs with here
    · rw [here, drained.split, append_assoc]
    · rw [drained.oneRing.content here]
  | write fdEnd buf cb =>
    obtain ⟨result, pair, value, count, filled⟩ := streams.ends.write fdEnd buf cb
    unfold PipeCall.step
    dsimp only
    rw [value]
    refine ⟨streams.ends.setPipe filled.oneRing filled.sound, fun e => ?_⟩
    dsimp only
    rw [setPipe_content, update_apply]
    split_ifs with here
    · rw [here, filled.append, streams.stream fdEnd, acceptedBytes, count, append_assoc]
    · rw [filled.oneRing.content here, streams.stream e]

theorem Streams.run {run : PipeRun} (streams : run.Streams fds k) (calls : List PipeCall) :
    (calls.foldl (PipeCall.step fds) run).Streams fds k := by
  induction calls generalizing run with
  | nil => exact streams
  | cons call rest ih => exact ih (streams.step call)

/-- The descriptors of a new pair are its open ends, and its rings are empty. -/
theorem ends_of_made {st₀ : Vfs} {fd0 fd1 : Fin vfsMaxFds}
    (made : st.pipeAllocPair = (.ok (fd0, fd1), st₀)) :
    ∃ k, Ends st₀ (fdOf fd0 fd1) k ∧ ∀ e, (st₀.pipes k).content e = [] := by
  unfold pipeAllocPair at made
  split at made
  · cases made
  · next k free =>
      split at made
      · cases made
      · next first firstFree =>
          split at made
          · cases made
          · next second secondFree =>
              obtain ⟨same, rfl⟩ := Prod.mk.inj made
              obtain ⟨rfl, rfl⟩ := Prod.mk.inj (Except.ok.inj same)
              have low := (freeFdFrom_eq_some firstFree).2
              have above := (freeFdFrom_eq_some secondFree).2
              have apart : first ≠ second := by
                omega
              have slot : slotOf vfsMaxPipes (BitVec.ofNat 32 k.val) = some k := by
                rw [slotOf_eq_some]
                exact Nat.mod_eq_of_lt (k.isLt.trans (by decide))
              refine ⟨k, ⟨fun e => ?_, fun e => ?_, ?_, fun e => ?_, ?_⟩, fun e => ?_⟩
              · unfold fdOf
                split_ifs <;> omega
              · rcases Fin.exists_fin_two.mp ⟨e, rfl⟩ with rfl | rfl <;>
                  simp [fdOf, make, openFd, setFd, update_of_ne apart, slot]
              all_goals simp only [make, openFd, setFd, Vfs.setPipe, update_self]
              · exact ⟨fun _ => Nat.zero_lt_succ _, fun _ => Nat.zero_le _⟩
              · rfl

end PipeRun

/-- A direction of a pair is a queue of bytes: what has been returned is a prefix of what has been
accepted, the rest is as long as the ring says, and the next write accepts what it asks for as far
as it fits. -/
structure PipeRun.Fifo (run : PipeRun) (fds : Fin 2 → Fin vfsMaxFds) (k : Fin vfsMaxPipes)
    (fdEnd : Fin 2) : Prop where
  slot : slotOf vfsMaxPipes (run.st.fds (fds fdEnd)).file = some k
  stream : ∃ rest, run.accepted fdEnd = run.returned fdEnd ++ rest ∧
    rest.length = ((run.st.pipes k).len fdEnd).toNat ∧ rest.length ≤ vfsPipeBuf
  accepts : ∀ buf cb,
    (acceptedBytes buf (run.st.vfsRamWrite (fds fdEnd).val buf cb).1).length =
      min (cb.toNat % 2 ^ 32) (vfsPipeBuf - ((run.st.pipes k).len fdEnd).toNat)

theorem PipeRun.Streams.fifo {run : PipeRun} {fds : Fin 2 → Fin vfsMaxFds} {k : Fin vfsMaxPipes}
    (streams : run.Streams fds k) (fdEnd : Fin 2) : run.Fifo fds k fdEnd := by
  have length := (run.st.pipes k).length_content fdEnd
  refine ⟨(streams.ends.entry fdEnd).2.2.2, ⟨_, streams.stream fdEnd, length, ?_⟩, fun buf cb => ?_⟩
  · rw [length]
    exact streams.ends.sound.len fdEnd
  · obtain ⟨result, after, value, count, -⟩ := streams.ends.write fdEnd buf cb
    rw [value, acceptedBytes, length_map, length_range, count]
    rfl

/-- Pipes and socket pairs are streams, whatever reads and writes are made on their two ends. -/
theorem pipeRuns_fifo {st st₀ : Vfs} {fd0 fd1 : Fin vfsMaxFds}
    (made : st.vfsRamPipe2 = (.ok (fd0, fd1), st₀) ∨
      ∃ nType, st.vfsRamSocketpair nType = (.ok (fd0, fd1), st₀)) :
    ∃ k, ∀ (calls : List PipeCall) (fdEnd : Fin 2),
      (calls.foldl (PipeCall.step (PipeRun.fdOf fd0 fd1)) (PipeRun.start st₀)).Fifo
        (PipeRun.fdOf fd0 fd1) k fdEnd := by
  have pair : st.pipeAllocPair = (.ok (fd0, fd1), st₀) := by
    rcases made with made | ⟨nType, made⟩
    · exact made
    · unfold vfsRamSocketpair at made
      split at made
      · cases made
      · exact made
  obtain ⟨k, ends, empty⟩ := PipeRun.ends_of_made pair
  refine ⟨k, fun calls => PipeRun.Streams.fifo (PipeRun.Streams.run ⟨ends, fun e => ?_⟩ calls)⟩
  rw [PipeRun.start, empty e]
  rfl

/-- A pipe is made where nothing is open. -/
theorem pipeRuns_fifo_cleared : ∃ k, ∀ (calls : List PipeCall) (fdEnd : Fin 2),
      (calls.foldl (PipeCall.step (PipeRun.fdOf 3 4))
        (PipeRun.start (cleared sampleDisk sampleDisk).vfsRamPipe2.2)).Fifo
        (PipeRun.fdOf 3 4) k fdEnd :=
  pipeRuns_fifo (.inl (Prod.ext (by decide +kernel) rfl))

end GreenJade.Fs

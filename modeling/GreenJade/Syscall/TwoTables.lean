import GreenJade.Fs.Descriptors
import GreenJade.Net.LoTable
import GreenJade.Lib.StepRuns

/-! Owns the numbers of descriptors: files and loopback sockets have tables of their own, and the
ranges of their numbers overlap. -/

namespace GreenJade.Syscall

open GreenJade.Fs GreenJade.Net Lo

/-! ### Calls on sockets -/

inductive LoCall
  | socket (nDomain nType : Int)
  | bind (fd : Int) (port : U16)
  | listen (fd nBacklog : Int)
  | connect (fd : Int) (port : U16)
  | accept (fd : Int)
  | close (fd : Int)

namespace LoCall

def run (st : Lo) : LoCall → Lo
  | .socket nDomain nType => (st.netLoSocket nDomain nType).2
  | .bind fd port => (st.netLoBind fd port).2
  | .listen fd nBacklog => (st.netLoListen fd nBacklog).2
  | .connect fd port => (st.netLoConnect fd port).2
  | .accept fd => (st.netLoAccept fd).2
  | .close fd => (st.netLoClose fd).2

def takes (st : Lo) : LoCall → Option LoSlot
  | .socket _ _ | .connect _ _ => st.loAllocSlot
  | _ => none

end LoCall

/-- No slot comes into use but the given one. -/
def Uses (st : Lo) (new : Option LoSlot) (st' : Lo) : Prop :=
  ∀ s, (st'.socks s).used = true → (st.socks s).used = true ∨ new = some s

namespace Uses

variable {st st' st'' : Lo} {new : Option LoSlot} {s : LoSlot} {sock : LoSock}

theorem refl (st : Lo) : Uses st new st := fun _ used => .inl used

theorem trans (first : Uses st new st') (second : Uses st' none st'') : Uses st new st'' :=
  fun s used => (second s used).elim (first s) nofun

theorem set (changes : sock.used = true → (st.socks s).used = true ∨ new = some s) :
    Uses st new (st.set s sock) := by
  intro k used
  rw [set_socks] at used
  split_ifs at used with here
  · exact here ▸ changes used
  · exact .inl used

/-- An entry that is in use or not as before. -/
theorem keep (same : sock.used = (st.socks s).used) : Uses st new (st.set s sock) :=
  .set fun used => .inl (same ▸ used)

theorem unhint (child : LoSlot) : Uses st new (st.unhint child) := by
  intro s used
  dsimp only [Lo.unhint] at used
  split_ifs at used <;> exact .inl used

theorem loRehookAcceptq (port : U16) (type : LoType) (skip : LoSlot) :
    Uses st new (st.loRehookAcceptq port type skip) := by
  unfold Lo.loRehookAcceptq
  split
  · exact .refl st
  · intro s used
    dsimp only at used
    split_ifs at used <;> exact .inl used

theorem socket (nDomain nType : Int) : Uses st st.loAllocSlot (st.netLoSocket nDomain nType).2 := by
  unfold netLoSocket
  split_ifs
  · exact .refl st
  · exact .refl st
  all_goals cases found : st.loAllocSlot with
    | none => exact .refl st
    | some s => exact .set fun _ => .inr rfl

theorem bind (fd : Int) (port : U16) : Uses st none (st.netLoBind fd port).2 := by
  unfold netLoBind
  cases st.fdOk fd with
  | none => exact .refl st
  | some s =>
    dsimp only
    generalize (if port = 0 then _ else port) = chosen
    split_ifs
    · exact .refl st
    · exact .keep rfl

theorem listen (fd nBacklog : Int) : Uses st none (st.netLoListen fd nBacklog).2 := by
  unfold netLoListen
  cases st.fdOk fd with
  | none => exact .refl st
  | some s => exact .keep rfl

theorem giveBacklog_used (l s : LoSlot) :
    ((st.giveBacklog l).socks s).used = (st.socks s).used := by
  unfold giveBacklog
  split_ifs
  · rw [set_socks]
    split_ifs with here
    · rw [here]
    · rfl
  · rfl

theorem giveBacklog_alloc (l : LoSlot) : (st.giveBacklog l).loAllocSlot = st.loAllocSlot := by
  unfold loAllocSlot
  simp [giveBacklog_used]

theorem pairStream (st : Lo) {s : LoSlot} (l child : LoSlot) (port : U16)
    (live : (st.socks s).used = true) (listens : (st.socks l).used = true) :
    Uses st (some child) (st.pairStream s l child port) := by
  intro k used
  dsimp only [Lo.pairStream] at used
  simp only [set_socks] at used
  split_ifs at used with here <;> subst_vars
  all_goals first | exact .inl live | exact .inl listens | exact .inr rfl | exact .inl used

theorem pairDgram (l : LoSlot) (port : U16) : Uses st new (st.pairDgram s l port) := by
  have first : Uses st new (st.set l { st.socks l with
      peer := some s, pending := (st.socks l).pending + 1, connected := true }) := .keep rfl
  exact first.trans (.keep rfl)

theorem connect (fd : Int) (port : U16) : Uses st st.loAllocSlot (st.netLoConnect fd port).2 := by
  unfold netLoConnect
  cases found : st.fdOk fd with
  | none => exact .refl st
  | some s =>
    have live := (fdOk_eq_some.mp found).2
    dsimp only
    split
    · exact .refl st
    cases listener : st.listenerFor s port with
    | none =>
      split_ifs
      · exact .refl st
      · exact .keep rfl
    | some l =>
      have listens : (st.socks l).used = true := by
        have chosen := List.find?_some listener
        simp only [Bool.and_eq_true] at chosen
        exact chosen.1.1.1.2
      have given : Uses st st.loAllocSlot (st.giveBacklog l) :=
        fun k live => .inl (giveBacklog_used l k ▸ live)
      dsimp only
      rw [giveBacklog_alloc]
      cases free : st.loAllocSlot with
      | none =>
        rw [free] at given
        split_ifs
        · exact given
        · exact given
        · exact given.trans (pairDgram l port)
      | some child =>
        rw [free] at given
        split_ifs
        · exact given
        · intro k used
          have after := pairStream (st.giveBacklog l) l child port
            (by rw [giveBacklog_used]; exact live) (by rw [giveBacklog_used]; exact listens)
          exact (after k used).imp_left fun before => giveBacklog_used l k ▸ before
        · exact given.trans (pairDgram l port)

theorem countAccept (s child : LoSlot) : Uses st new (st.countAccept s child) := by
  unfold Lo.countAccept
  dsimp only
  split_ifs
  · exact (unhint child).trans (.keep rfl)
  · exact unhint child

theorem tellClient (client : Option LoSlot) (child : LoSlot) :
    Uses st new (st.tellClient client child) := by
  unfold Lo.tellClient
  split
  · exact .refl st
  · split_ifs
    · exact .keep rfl
    · exact .refl st

theorem accept (fd : Int) : Uses st none (st.netLoAccept fd).2 := by
  unfold netLoAccept
  cases st.fdOk fd with
  | none => exact .refl st
  | some s =>
    dsimp only
    split_ifs with passive
    · exact .refl st
    cases st.acceptChild s with
    | none => exact .refl st
    | some child =>
      have taken : Uses st none (st.set child { st.socks child with acceptQ := false }) := .keep rfl
      exact (((taken.trans (countAccept s child)).trans (loRehookAcceptq _ _ child)).trans
        (tellClient _ child)).trans (.keep rfl)

theorem partClose (peer : LoSlot) : Uses st new (st.partClose s peer) := by
  have unpointed : Uses st new (if (st.socks peer).peer = some s then
      st.set peer { st.socks peer with peer := none } else st) := by
    split_ifs
    · exact .keep rfl
    · exact .refl st
  unfold Lo.partClose
  split
  · dsimp only
    split_ifs at unpointed ⊢
    all_goals first | exact unpointed | exact unpointed.trans (.keep rfl)
  · exact .refl st

theorem leaveQueue (s : LoSlot) : Uses st new (st.leaveQueue s) := by
  unfold Lo.leaveQueue
  split_ifs
  · exact (unhint s).trans (loRehookAcceptq _ _ s)
  · exact .refl st

theorem close (fd : Int) : Uses st none (st.netLoClose fd).2 := by
  unfold netLoClose
  cases st.fdOk fd with
  | none => exact .refl st
  | some s =>
    dsimp only
    cases (st.socks s).peer with
    | none => exact (leaveQueue s).trans (.set nofun)
    | some peer => exact ((leaveQueue s).trans (partClose peer)).trans (.set nofun)

end Uses

theorem LoCall.uses (st : Lo) (call : LoCall) : Uses st (call.takes st) (call.run st) := by
  cases call with
  | socket nDomain nType => exact .socket nDomain nType
  | bind fd port => exact .bind fd port
  | listen fd nBacklog => exact .listen fd nBacklog
  | connect fd port => exact .connect fd port
  | accept fd => exact .accept fd
  | close fd => exact .close fd

/-! ### Both tables -/

structure Tables where
  vfs : Vfs
  lo : Lo

inductive TableCall
  | file (call : FdCall)
  | sock (call : LoCall)

namespace Tables

def step (st : Tables) : TableCall → Tables
  | .file call => { st with vfs := call.run st.vfs }
  | .sock call => { st with lo := call.run st.lo }

def init (blk scsi : Disk) : Tables := { vfs := Vfs.vfsRamInit blk scsi, lo := netLoInit }

/-- What a number stands for, as `gj_linux_hot_write` asks the tables. -/
inductive Target
  | file (i : Fin vfsMaxFds)
  | sock (s : LoSlot)
deriving DecidableEq

def target (st : Tables) (fd : Int) : Option Target :=
  match st.vfs.fdOk fd with
  | some i => some (.file i)
  | none => (st.lo.fdOk fd).map .sock

/-- No number is a descriptor of both tables. -/
def Apart (st : Tables) : Prop := ∀ fd i s, st.vfs.fdOk fd = some i → st.lo.fdOk fd ≠ some s

/-- The number that a call is about to take in one table is no descriptor of the other. -/
def Clear (st : Tables) : TableCall → Prop
  | .file call => ∀ i ∈ call.takes st.vfs, st.lo.fdOk i.val = none
  | .sock call => ∀ s ∈ call.takes st.lo, st.vfs.fdOk (slotToFd s) = none

instance (st : Tables) : DecidablePred st.Clear
  | .file _ => inferInstanceAs (Decidable (∀ _ ∈ FdCall.takes _ _, _))
  | .sock _ => inferInstanceAs (Decidable (∀ _ ∈ LoCall.takes _ _, _))

theorem Apart.file {st : Tables} (apart : st.Apart) {call : FdCall}
    (clear : ∀ i ∈ call.takes st.vfs, st.lo.fdOk i.val = none) :
    (st.step (.file call)).Apart := by
  intro fd i s file sock
  obtain ⟨number, low, used⟩ := Vfs.fdOk_eq_some.mp file
  have sock : st.lo.fdOk fd = some s := sock
  have live (j : Fin vfsMaxFds) (same : j = i) (isUsed : (st.vfs.fds j).used = true) : False :=
    apart fd i s (Vfs.fdOk_eq_some.mpr ⟨number, low, same ▸ isUsed⟩) sock
  have taken (takes : i ∈ call.takes st.vfs) : False := by
    have none := clear i takes
    rw [number, sock] at none
    cases none
  have entry := (FdCall.effect st.vfs call).entry i
  have used : ((call.run st.vfs).fds i).used = true := used
  generalize (call.run st.vfs).fds i = now at entry used
  cases entry with
  | kept => exact live i rfl used
  | closed => cases used
  | copied _ _ takes | opened _ _ takes => exact taken takes

theorem Apart.sock {st : Tables} (apart : st.Apart) {call : LoCall}
    (clear : ∀ s ∈ call.takes st.lo, st.vfs.fdOk (slotToFd s) = none) :
    (st.step (.sock call)).Apart := by
  intro fd i s file sock
  obtain ⟨number, used⟩ := fdOk_eq_some.mp sock
  have file : st.vfs.fdOk fd = some i := file
  rcases LoCall.uses st.lo call s used with before | takes
  · exact apart fd i s file (fdOk_eq_some.mpr ⟨number, before⟩)
  · have none := clear s takes
    rw [number, file] at none
    cases none

theorem Apart.target {st : Tables} (apart : st.Apart) (fd : Int) :
    (∀ i, st.vfs.fdOk fd = some i → st.target fd = some (.file i)) ∧
      ∀ s, st.lo.fdOk fd = some s → st.target fd = some (.sock s) := by
  unfold Tables.target
  constructor
  · intro i file
    rw [file]
  · intro s sock
    cases file : st.vfs.fdOk fd with
    | some i => exact absurd sock (apart fd i s file)
    | none =>
      rw [sock]
      rfl

end Tables

/-- In every run in which each number that is taken is no descriptor of the other table, no number
ever is two descriptors, and asking the tables in turn finds the one that has it. -/
theorem tableRuns_apart (blk scsi : Disk) (run : List TableCall)
    (clear : StepRuns.Meets Tables.step Tables.Clear (Tables.init blk scsi) run) :
    (run.foldl Tables.step (Tables.init blk scsi)).Apart ∧ ∀ fd,
        (∀ i, (run.foldl Tables.step (Tables.init blk scsi)).vfs.fdOk fd = some i →
          (run.foldl Tables.step (Tables.init blk scsi)).target fd = some (.file i)) ∧
        ∀ s, (run.foldl Tables.step (Tables.init blk scsi)).lo.fdOk fd = some s →
          (run.foldl Tables.step (Tables.init blk scsi)).target fd = some (.sock s) := by
  have apart := clear.invariant (fun (st : Tables) call (apart : st.Apart) clear => by
      cases call with
      | file call => exact apart.file clear
      | sock call => exact apart.sock clear)
    (fun fd i s _ sock => absurd (fdOk_eq_some.mp sock).2 Bool.false_ne_true)
  exact ⟨apart, apart.target⟩

def sampleTables (run : List TableCall) : Tables :=
  run.foldl Tables.step (Tables.init sampleDisk sampleDisk)

/-- A file is opened and its descriptor is copied to 64; the first socket gets 64 as well. -/
def sampleOverlap : List TableCall :=
  [.file (.open (bytesOf "/a") true), .file (.dup2 3 64), .sock (.socket 2 1)]

theorem tableRuns_overlap : (sampleTables sampleOverlap).vfs.fdOk 64 = some 64 ∧
      (sampleTables sampleOverlap).lo.fdOk 64 = some 0 ∧
      (sampleTables sampleOverlap).target 64 = some (.file 64) := by
  decide +kernel

/-- An eventfd, a socket, and a copy of the first descriptor from 65 on. -/
def sampleSeparate : List TableCall :=
  [.file (.eventfd2 0), .sock (.socket 2 1), .file (.dupFrom 3 65)]

theorem tableRuns_apart_separate :
    StepRuns.Meets Tables.step Tables.Clear (Tables.init sampleDisk sampleDisk) sampleSeparate ∧
      (sampleTables sampleSeparate).target 65 = some (.file 65) ∧
      (sampleTables sampleSeparate).target 64 = some (.sock 0) := by
  have clear : StepRuns.Meets Tables.step Tables.Clear (Tables.init sampleDisk sampleDisk)
      sampleSeparate := by decide +kernel
  have open_ : (sampleTables sampleSeparate).vfs.fdOk 65 = some 65 ∧
      (sampleTables sampleSeparate).lo.fdOk 64 = some 0 := by decide +kernel
  have targets := (tableRuns_apart sampleDisk sampleDisk sampleSeparate clear).2
  exact ⟨clear, (targets 65).1 65 open_.1, (targets 64).2 0 open_.2⟩

end GreenJade.Syscall

import GreenJade.Lib.StepRuns
import GreenJade.Net.TcpRefine

/-! Owns the descriptors that programs hold: in which runs a descriptor that `net_tcp_socket` or
`net_tcp_accept` returned stands for the same connection until it is closed. -/

namespace GreenJade.Net

open Tcp

/-! ### Descriptors and their connections -/

/-- The sockets, and for each slot whose descriptor a program holds the connection it was returned
for. -/
structure Holding where
  tcp : Tcp
  held : Slot → Option Nat

/-- Connections have numbers below that of the next one. -/
def View.Numbered (v : View) : Prop := ∀ k, (v.cores k).used = true → (v.cores k).serial < v.made

/-- A socket that a program opened or accepted. -/
structure Core.Settled (core : Core) : Prop where
  used : core.used = true
  accepted : core.acceptQ = false
  opened : core.softMint = false
  whole : core.state ≠ .synRcvd

section Moves

variable {v v' : View} {move : Move} {k : Slot}

theorem Move.made_le (makes : move.Makes v v') : v.made ≤ v'.made := by
  cases move <;> simp only [Move.Makes] at makes
  all_goals grind -ring -order

theorem Move.cleared (makes : move.Makes v v') (clears : move.Clears k) :
    (v'.cores k).used = false := by
  cases move <;> simp only [Move.Makes, Move.Clears] at makes clears
  all_goals grind -ring -order

/-- A slot that comes into use is given the next number. -/
theorem Move.starts (makes : move.Makes v v') (free : (v.cores k).used = false)
    (used : (v'.cores k).used = true) : (v'.cores k).serial < v'.made := by
  by_cases touched : move.Touches k
  · cases move <;> simp only [Move.Makes] at makes touched
    all_goals grind -ring -order [Core.afterFin, Core.pushed]
  · rw [Move.frame makes touched, free] at used
    cases used

theorem View.Numbered.of_makes (numbered : v.Numbered) (makes : move.Makes v v') : v'.Numbered := by
  intro k used
  by_cases before : (v.cores k).used = true
  · have stays : ¬move.Clears k := fun clears => by
      rw [Move.cleared makes clears] at used
      cases used
    rw [(Move.keeps makes stays before).2]
    exact (numbered k before).trans_le (Move.made_le makes)
  · exact Move.starts makes (Bool.eq_false_iff.mpr before) used

/-- The moves that could clear the slot of a settled socket. -/
def Move.Ends (k : Slot) : Move → Prop
  | .close s | .finalAck s _ | .reap s => s = k
  | _ => False

theorem Core.Settled.stays (settled : (v.cores k).Settled) (makes : move.Makes v v')
    (spared : ¬move.Ends k) : ¬move.Clears k := by
  obtain ⟨-, accepted, opened, whole⟩ := settled
  cases move <;> simp only [Move.Makes, Move.Ends, Move.Clears] at makes spared ⊢
  all_goals grind -ring -order

theorem Core.Settled.of_makes (settled : (v.cores k).Settled) (makes : move.Makes v v')
    (spared : ¬move.Ends k) : (v'.cores k).Settled := by
  have stays := settled.stays makes spared
  by_cases touched : move.Touches k
  · obtain ⟨used, accepted, opened, whole⟩ := settled
    cases move <;> simp only [Move.Makes, Move.Clears] at makes touched stays
    all_goals constructor
    all_goals grind -ring -order [Core.afterFin, Core.pushed, TcpState.afterFin_ne_synRcvd]
  · rw [Move.frame makes touched]
    exact settled

end Moves

/-- The held slots in the table: each is in use for its connection. -/
structure HeldIn (held : Slot → Option Nat) (v : View) : Prop where
  numbered : v.Numbered
  settled : ∀ s n, held s = some n → (v.cores s).Settled ∧ (v.cores s).serial = n

namespace HeldIn

variable {held fewer : Slot → Option Nat} {v v' : View}

theorem moves (holds : HeldIn held v) {kinds : Move → Prop}
    (spared : ∀ move s n, held s = some n → kinds move → ¬move.Ends s)
    (moves : Moves kinds v v') : HeldIn held v' := by
  refine moves.invariant (HeldIn held) (fun move w w' kind makes holds => ?_) holds
  refine ⟨holds.numbered.of_makes makes, fun s n here => ?_⟩
  obtain ⟨settled, serial⟩ := holds.settled s n here
  have spared := spared move s n here kind
  have same := (Move.keeps makes (settled.stays makes spared) settled.used).2
  exact ⟨settled.of_makes makes spared, same.trans serial⟩

theorem weaken (holds : HeldIn held v) (part : ∀ s n, fewer s = some n → held s = some n) :
    HeldIn fewer v := ⟨holds.numbered, fun s n here => holds.settled s n (part s n here)⟩

theorem note (holds : HeldIn held v) {s : Slot} (settled : (v.cores s).Settled) :
    HeldIn (Function.update held s (some (v.cores s).serial)) v := by
  refine ⟨holds.numbered, fun k n here => ?_⟩
  by_cases same : k = s
  · subst same
    rw [Function.update_self] at here
    exact ⟨settled, Option.some.inj here⟩
  · rw [Function.update_of_ne same] at here
    exact holds.settled k n here

end HeldIn

/-! ### Steps -/

namespace Holding

def note (held : Slot → Option Nat) (st : Tcp) (fd : Int) : Slot → Option Nat :=
  match st.fdToSlot fd with
  | none => held
  | some s => Function.update held s (some (st.socks s).serial)

/-- A call, a frame or a poll. A program holds what `net_tcp_socket` and `net_tcp_accept` return,
until it closes it. -/
def step (holding : Holding) (event : Link × TcpCall) : Holding where
  tcp := tcpStep holding.tcp event
  held :=
    match event.2 with
    | .socket => note holding.held (tcpStep holding.tcp event) holding.tcp.netTcpSocket.1
    | .accept fd =>
      note holding.held (tcpStep holding.tcp event) (holding.tcp.netTcpAccept event.1 fd).1
    | .close fd => fun s => if fd = slotToFd s then none else holding.held s
    | _ => holding.held

def init (link : Link) : Holding := { tcp := netTcpInit link, held := fun _ => none }

/-- No frame acknowledges the FIN of a held socket in LAST_ACK, and no poll finds a held socket that
has been in TIME_WAIT for a second. -/
def Spares (holding : Holding) (link : Link) : TcpCall → Prop
  | .input frame => ∀ seg ∈ parseSegment frame, ∀ s, holding.held s ≠ none →
      finishes (holding.tcp.socks s) seg = false
  | .poll => ∀ s, holding.held s ≠ none → reaps link (holding.tcp.socks s) = false
  | _ => True

instance (holding : Holding) (link : Link) : DecidablePred (holding.Spares link)
  | .input _ => inferInstanceAs (Decidable (∀ seg ∈ parseSegment _, ∀ _, _))
  | .poll => inferInstanceAs (Decidable (∀ _, _))
  | .socket | .bind _ _ | .listen _ _ | .connect _ _ | .accept _ | .send _ _ | .recv _ _
  | .close _ | .shutdown _ _ | .pollMask _ _ => inferInstanceAs (Decidable True)

/-- What a held descriptor stands for: the connection that it was returned for, whose slot is given
to nobody else. -/
def Kept (holding : Holding) : Prop :=
  ∀ s n, holding.held s = some n →
    holding.tcp.fdToSlot (slotToFd s) = some s ∧ (holding.tcp.socks s).serial = n ∧
      n < holding.tcp.made ∧ holding.tcp.netTcpSocket.1 ≠ slotToFd s ∧
      ∀ link fd, (holding.tcp.netTcpAccept link fd).1 ≠ slotToFd s

variable {holding : Holding} {link : Link}

theorem heldIn_note {held : Slot → Option Nat} {st : Tcp} (holds : HeldIn held st.view) {fd : Int}
    (settled : ∀ s, fd = slotToFd s → (st.view.cores s).Settled) :
    HeldIn (note held st fd) st.view := by
  unfold note
  split
  · exact holds
  · next s found => exact holds.note (settled s (fdToSlot_eq_some.mp found).1)

theorem slotToFd_inj {s k : Slot} (same : slotToFd s = slotToFd k) : s = k := by
  unfold slotToFd at same
  exact Fin.ext (by omega)

theorem slotToFd_nonneg (s : Slot) : 0 ≤ slotToFd s := by
  unfold slotToFd tcpFdBase
  omega

theorem not_ends_of_readies {move : Move} (readies : move.Readies) (s : Slot) : ¬move.Ends s := by
  cases move <;> first | exact not_false | exact readies.elim

section

variable (holds : HeldIn holding.held holding.tcp.view)
include holds

theorem heldIn_socket :
    HeldIn (holding.step (link, .socket)).held (holding.step (link, .socket)).tcp.view := by
  have kept : HeldIn holding.held (holding.tcp.netTcpSocket.2).view :=
    holds.moves (by rintro move s n - kind; cases kind; exact not_false)
      (moves_socket link holding.tcp)
  refine heldIn_note kept fun s returned => ?_
  have result : ∃ st, holding.tcp.allocSlot = some (s, st) := by
    unfold netTcpSocket at returned
    split at returned
    · have := slotToFd_nonneg s
      omega
    · next k st taken => exact ⟨st, slotToFd_inj returned ▸ taken⟩
  obtain ⟨st, taken⟩ := result
  have core : (holding.tcp.netTcpSocket.2.socks s).core = .fresh s holding.tcp.made := by
    unfold netTcpSocket
    rw [taken]
    rw [setSock_self, allocSlot_self taken]
    rfl
  change ((holding.tcp.netTcpSocket.2.socks s).core).Settled
  rw [core]
  exact ⟨rfl, rfl, rfl, (by decide : TcpState.closed ≠ .synRcvd)⟩

theorem heldIn_accept (fd : Int) :
    HeldIn (holding.step (link, .accept fd)).held (holding.step (link, .accept fd)).tcp.view := by
  have kept : HeldIn holding.held (holding.tcp.netTcpAccept link fd).2.view := by
    refine holds.moves (fun move s n here kind => ?_) (moves_accept link holding.tcp fd)
    cases kind with
    | acceptReady _ readies => exact not_ends_of_readies readies s
    | accept => exact not_false
  refine heldIn_note kept fun s returned => ?_
  change (holding.tcp.netTcpAccept link fd).1 = _ at returned
  have positive := slotToFd_nonneg s
  rcases accepts_netTcpAccept link holding.tcp fd with ⟨failed, -⟩ | ⟨ls, -, -, -, accepts⟩
  · omega
  rcases accepts with ⟨failed, -⟩ | ⟨child, v, given, -, ⟨used, -, established, view⟩, -⟩
  · omega
  obtain rfl := slotToFd_inj (given.symm.trans returned)
  change ((holding.tcp.netTcpAccept link fd).2.view.cores child).Settled
  rw [view, View.set_self]
  exact ⟨used, rfl, rfl, by change (v.cores child).state ≠ _; rw [established]; decide⟩

theorem heldIn_close (fd : Int) :
    HeldIn (holding.step (link, .close fd)).held (holding.step (link, .close fd)).tcp.view := by
  have fewer : HeldIn (fun s => if fd = slotToFd s then none else holding.held s)
      holding.tcp.view := by
    refine holds.weaken fun s n here => ?_
    split_ifs at here
    exact here
  refine fewer.moves (fun move s n here kind => ?_) (moves_close link holding.tcp fd)
  cases kind with
  | closeFin | closeName | part => exact not_false
  | close found =>
    rintro rfl
    rw [if_pos (fdToSlot_eq_some.mp found).1] at here
    exact absurd here nofun

theorem heldIn_step {event : Link × TcpCall} (spares : holding.Spares event.1 event.2) :
    HeldIn (holding.step event).held (holding.step event).tcp.view := by
  obtain ⟨link, call⟩ := event
  have easy (same : (holding.step (link, call)).held = holding.held)
      (spared : ∀ move s n, holding.held s = some n → call.Kinds link holding.tcp move →
        ¬move.Ends s) :
      HeldIn (holding.step (link, call)).held (holding.step (link, call)).tcp.view :=
    same ▸ holds.moves spared (call.moves link holding.tcp)
  cases call with
  | socket => exact heldIn_socket holds
  | accept fd => exact heldIn_accept holds fd
  | close fd => exact heldIn_close holds fd
  | input frame =>
    refine easy rfl fun move s n here kind => ?_
    cases kind with
    | inputReady _ readies => exact not_ends_of_readies readies s
    | input parsed kind =>
      cases kind with
      | finalAck k finishes =>
        rintro rfl
        have spared := spares _ parsed k (by rw [here]; exact nofun)
        exact nomatch spared.symm.trans finishes
      | _ => exact not_false
  | poll =>
    refine easy rfl fun move s n here kind => ?_
    cases kind with
    | pollReady readies => exact not_ends_of_readies readies s
    | pollDrop k => exact not_false
    | reap due =>
      rintro rfl
      have spared := spares _ (by rw [here]; exact nofun)
      exact nomatch spared.symm.trans due
  | pollMask fd want =>
    refine easy rfl fun move s n here kind => ?_
    cases kind with
    | maskReady _ _ readies => exact not_ends_of_readies readies s
  | _ =>
    refine easy rfl fun move s n here kind => ?_
    cases kind <;> exact not_false

theorem kept_of_heldIn : holding.Kept := by
  intro s n here
  obtain ⟨settled, serial⟩ := holds.settled s n here
  have positive := slotToFd_nonneg s
  refine ⟨fdToSlot_eq_some.mpr ⟨rfl, settled.used⟩, serial,
    serial ▸ holds.numbered s settled.used, fun given => ?_, fun link fd given => ?_⟩
  · unfold netTcpSocket at given
    split at given
    · omega
    · next k st taken =>
        obtain rfl := slotToFd_inj given
        exact absurd (settled.used.symm.trans (allocSlot_free taken)) (by decide)
  · rcases accepts_netTcpAccept link holding.tcp fd with ⟨failed, -⟩ | ⟨ls, -, -, -, accepts⟩
    · omega
    rcases accepts with ⟨failed, -⟩ | ⟨child, v, returned, readied, ⟨-, queued, -⟩, -⟩
    · omega
    obtain rfl := slotToFd_inj (returned.symm.trans given)
    have still := holds.moves (fun _ k _ _ readies => not_ends_of_readies readies k) readied
    exact absurd (queued.symm.trans (still.settled child n here).1.accepted) (by decide)

end

end Holding

/-- Runs of calls, frames and polls from the start: along a run in which no held socket is reaped
or acknowledged away, every held descriptor stands for the connection it was returned for. -/
theorem heldRuns_kept (link : Link) {run : List (Link × TcpCall)}
    (spares : StepRuns.Meets Holding.step (fun holding event => holding.Spares event.1 event.2)
      (Holding.init link) run) {front : List (Link × TcpCall)} (inside : front <+: run) :
    (front.foldl Holding.step (Holding.init link)).Kept := by
  obtain ⟨back, rfl⟩ := inside
  have cleared : HeldIn (fun _ => none) cleared.view :=
    ⟨fun _ used => absurd used Bool.false_ne_true, fun _ _ here => absurd here nofun⟩
  have start : HeldIn (Holding.init link).held (Holding.init link).tcp.view :=
    cleared.moves (fun _ s _ _ readies => Holding.not_ends_of_readies readies s)
      (moves_netTcpInit link)
  have holds := (StepRuns.Meets.append.mp spares).1.invariant
    (fun (holding : Holding) _ (holds : HeldIn holding.held holding.tcp.view) spares =>
      Holding.heldIn_step holds spares) start
  exact Holding.kept_of_heldIn holds

/-- A loopback connection whose two ends are shut for writing: the first one waits in TIME_WAIT. -/
def sampleShut : List (Link × TcpCall) :=
  [.socket, .bind (slotToFd 0) 80, .listen (slotToFd 0) 4, .socket,
    .connect (slotToFd 1) 80, .accept (slotToFd 0), .shutdown (slotToFd 1) 1,
    .shutdown (slotToFd 2) 1].map fun call => (idleLink 0, call)

/-- A second later a poll takes the slot of the held descriptor, and `net_tcp_socket` gives it to
somebody else. -/
theorem heldRuns_timeWait : ¬((sampleShut ++ [(idleLink 1000, TcpCall.poll)]).foldl Holding.step
        (Holding.init (idleLink 0))).Kept ∧
      ((sampleShut ++ [(idleLink 1000, TcpCall.poll)]).foldl Holding.step
        (Holding.init (idleLink 0))).tcp.netTcpSocket.1 = slotToFd 1 := by
  refine ⟨fun kept => ?_, by decide +kernel⟩
  have broken := kept 1 1 (by decide +kernel)
  exact absurd broken.1 (by decide +kernel)

theorem heldRuns_kept_shut : (sampleShut.foldl Holding.step (Holding.init (idleLink 0))).Kept ∧
      (sampleShut.foldl Holding.step (Holding.init (idleLink 0))).held 2 = some 2 :=
  ⟨heldRuns_kept (idleLink 0)
    (show StepRuns.Meets Holding.step (fun holding event => holding.Spares event.1 event.2)
      (Holding.init (idleLink 0)) sampleShut by decide +kernel) (List.prefix_refl _),
    by decide +kernel⟩

end GreenJade.Net

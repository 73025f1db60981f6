import GreenJade.Lib.StepRuns
import GreenJade.Net.TcpRings

/-! Owns the pairs of loopback sockets: in which runs the two ends of a connection point to each
other, and where the bytes go that are sent on one of them. -/

namespace GreenJade.Net

open Tcp

/-! ### Pairs in the table -/

/-- The partners of loopback sockets, where some sockets are about to be left alone. -/
structure Pairing (leaving : Option Slot) (v : View) : Prop where
  paired : ∀ a b, (v.cores a).used = true → (v.cores a).isLoop = true →
    (v.cores a).mate = some b → (v.cores b).used = true ∧ (v.cores b).isLoop = true ∧
      ((v.cores b).mate = some a ∨ leaving = some a)
  listeners : ∀ a, (v.cores a).listening = true →
    (v.cores a).isLoop = false ∧ (v.cores a).state = .listen
  named : ∀ a, v.soft = some a → (v.cores a).used = true ∧ (v.cores a).listening = true

/-- The moves that keep the pairs. -/
def Move.KeepsPairs (leaving : Option Slot) (v : View) : Move → Prop
  | .pair s _ _ =>
    (v.cores s).listening = false ∧ ((v.cores s).isLoop = true → (v.cores s).mate = none)
  | .listen s => (v.cores s).isLoop = false
  | .reap s =>
    ((v.cores s).isLoop = true → (v.cores s).mate = none) ∧ leaving = none
  | .part s _ | .close s => leaving = some s
  | _ => True

namespace Pairing

variable {leaving : Option Slot} {v v' : View} {move : Move} {s : Slot}

section

variable (pairing : Pairing leaving v)
include pairing

theorem of_like (like : ∀ k, (v.cores k).Like (v'.cores k))
    (soft : v'.soft = v.soft) : Pairing leaving v' where
  paired := fun a b => by
    rw [(like a).used, (like a).isLoop, (like a).mate, (like b).used, (like b).isLoop,
      (like b).mate]
    exact pairing.paired a b
  listeners := fun a listening => by
    rw [(like a).listening] at listening
    obtain ⟨eth, listen⟩ := pairing.listeners a listening
    exact ⟨(like a).isLoop.trans eth, (like a).state listening listen⟩
  named := fun a => by
    rw [soft, (like a).used, (like a).listening]
    exact pairing.named a

/-- A new socket that is no end of a loopback connection. -/
theorem alloc (free : (v.cores s).used = false) {core : Core}
    (eth : core.isLoop = false) (listens : core.listening = true → core.state = .listen) :
    Pairing leaving (v.alloc s core) := by
  obtain ⟨paired, listeners, named⟩ := pairing
  refine ⟨?_, ?_, ?_⟩
  all_goals grind -ring -order

theorem name {soft : Option Slot}
    (listens : ∀ s, soft = some s → (v.cores s).used = true ∧ (v.cores s).listening = true) :
    Pairing leaving (v.name soft) :=
  ⟨pairing.paired, pairing.listeners, listens⟩

/-- A slot that nobody points to is cleared. -/
theorem clear (unnamed : v.soft ≠ some s)
    (alone : ∀ a, a ≠ s → (v.cores a).used = true → (v.cores a).isLoop = true →
      (v.cores a).mate ≠ some s) : Pairing leaving (v.set s .zero) := by
  obtain ⟨paired, listeners, named⟩ := pairing
  refine ⟨?_, ?_, ?_⟩
  all_goals grind -ring -order

/-- Nobody points to a socket on Ethernet. -/
theorem alone_of_eth (eth : (v.cores s).isLoop = false) (a : Slot)
    (used : (v.cores a).used = true) (loop : (v.cores a).isLoop = true) :
    (v.cores a).mate ≠ some s := fun mate =>
  nomatch eth.symm.trans (pairing.paired a s used loop mate).2.1

/-- A socket that does not listen is not the listener on port 22. -/
theorem unnamed_of_state (here : (v.cores s).state ≠ .listen) : v.soft ≠ some s := fun known =>
  here (pairing.listeners s (pairing.named s known).2).2

theorem of_makes (makes : move.Makes v v')
    (keeps : move.KeepsPairs leaving v) : Pairing leaving v' := by
  by_cases gentle : move.Gentle
  · exact pairing.of_like (fun k => (Move.like gentle makes k).1) (Move.like gentle makes 0).2.1
  cases move <;> simp only [Move.Makes, Move.KeepsPairs, Move.Gentle] at makes keeps gentle
  case socket s =>
    obtain ⟨free, rfl⟩ := makes
    exact pairing.alloc free rfl (by rintro ⟨⟩)
  case mint s =>
    obtain ⟨free, rfl⟩ := makes
    apply (pairing.alloc free rfl fun _ => rfl).name
    rintro k known
    cases known
    rw [View.alloc_self]
    exact ⟨rfl, rfl⟩
  case name soft =>
    obtain ⟨listens, rfl⟩ := makes
    exact pairing.name listens
  case spawn child seg =>
    obtain ⟨free, rfl⟩ := makes
    exact pairing.alloc free rfl (by rintro ⟨⟩)
  case listen s =>
    subst makes
    obtain ⟨paired, listeners, named⟩ := pairing
    refine ⟨?_, ?_, ?_⟩
    all_goals grind -ring -order
  case unmint s =>
    obtain ⟨-, -, known, rfl⟩ := makes
    have eth := (pairing.listeners s (pairing.named s known).2).1
    have renamed : Pairing leaving (v.name none) := pairing.name (by rintro _ ⟨⟩)
    exact renamed.clear (by rintro ⟨⟩) fun a _ => pairing.alone_of_eth eth a
  case pair s child port =>
    obtain ⟨free, used, clientPort, nxt, childNxt, rfl⟩ := makes
    obtain ⟨paired, listeners, named⟩ := pairing
    refine ⟨?_, ?_, ?_⟩
    all_goals grind
  case part s partner =>
    obtain ⟨mate, rfl⟩ := makes
    obtain ⟨paired, listeners, named⟩ := pairing
    refine ⟨?_, ?_, ?_⟩
    all_goals grind -ring -order
  case close s =>
    obtain ⟨-, unnamed, parted, rfl⟩ := makes
    refine pairing.clear unnamed fun a different used loop mate => ?_
    obtain ⟨-, -, back⟩ := pairing.paired a s used loop mate
    refine parted a (back.resolve_right fun leaves => different ?_) mate
    exact Option.some.inj (leaves.symm.trans keeps)
  case shutRead s =>
    obtain ⟨unnamed, mate, same, rfl⟩ := makes
    obtain ⟨paired, listeners, named⟩ := pairing
    refine ⟨?_, ?_, ?_⟩
    all_goals grind -ring -order
  case drop s =>
    obtain ⟨-, eth, young, rfl⟩ := makes
    refine pairing.clear (fun known => ?_) fun a _ => pairing.alone_of_eth eth a
    have listening := (pairing.named s known).2
    rcases young with ⟨-, connected⟩ | state
    · exact Bool.noConfusion (connected.symm.trans listening)
    · exact absurd (state.symm.trans (pairing.listeners s listening).2) (by decide)
  case finalAck s seg =>
    obtain ⟨owns, last, rfl⟩ := makes
    exact pairing.clear (pairing.unnamed_of_state (by rw [last]; decide))
      fun a _ => pairing.alone_of_eth owns.2.2.1 a
  case reap s =>
    obtain ⟨-, waits, rfl⟩ := makes
    obtain ⟨lonely, stay⟩ := keeps
    refine pairing.clear (pairing.unnamed_of_state (by rw [waits]; decide))
      fun a _ used loop mate => ?_
    obtain ⟨-, loop', back⟩ := pairing.paired a s used loop mate
    rw [lonely loop', stay] at back
    rcases back with impossible | impossible <;> cases impossible
  all_goals exact absurd trivial gentle

end

theorem moves (pairing : Pairing leaving v) {kinds : Move → Prop}
    (keep : ∀ move w, kinds move → move.KeepsPairs leaving w) (moves : Moves kinds v v') :
    Pairing leaving v' :=
  moves.invariant (Pairing leaving)
    (fun move w _ kind makes pairing => pairing.of_makes makes (keep move w kind)) pairing

end Pairing

theorem Move.Readies.keepsPairs {move : Move} (readies : move.Readies) (leaving : Option Slot)
    (v : View) : move.KeepsPairs leaving v := by
  cases move <;> trivial

/-! ### Pairs along a call -/

/-- The calls that keep the pairs: `net_tcp_connect` for a socket that does not listen and has no
partner, `net_tcp_listen` for one that is not on loopback; and `net_tcp_poll` when no socket with a
partner has been in TIME_WAIT for a second. -/
def TcpCall.KeepsPairs (link : Link) (st : Tcp) : TcpCall → Prop
  | .connect fd _ => ∀ s, st.fdToSlot fd = some s →
      (st.socks s).listening = false ∧ ((st.socks s).isLoop = true → (st.socks s).peer = none)
  | .listen fd _ => ∀ s, st.fdToSlot fd = some s → (st.socks s).isLoop = false
  | .poll => ∀ s, reaps link (st.socks s) = true → (st.socks s).isLoop = true →
      (st.socks s).peer = none
  | _ => True

instance (link : Link) (st : Tcp) : DecidablePred (TcpCall.KeepsPairs link st)
  | .connect _ _ | .listen _ _ | .poll => inferInstanceAs (Decidable (∀ _, _))
  | .socket | .bind _ _ | .accept _ | .send _ _ | .recv _ _ | .close _ | .shutdown _ _
  | .pollMask _ _ | .input _ => inferInstanceAs (Decidable True)

namespace Tcp

variable {st : Tcp} {link : Link}

theorem core_mate_none {sock : TcpSock} (alone : sock.peer = none) : sock.core.mate = none := by
  unfold TcpSock.core
  rw [alone]
  exact ite_self none

theorem pairing_connect (pairing : Pairing none st.view) {fd : Int} {port : U16}
    (keeps : TcpCall.KeepsPairs link st (.connect fd port)) :
    Pairing none (st.netTcpConnect fd port).2.view := by
  rcases makes_connect st fd port with same | ⟨s, child, found, makes⟩
  · exact same ▸ pairing
  · obtain ⟨connects, alone⟩ := keeps s found
    exact pairing.of_makes makes ⟨connects, fun loop => core_mate_none (alone loop)⟩

theorem pairing_listen (pairing : Pairing none st.view) {fd backlog : Int}
    (keeps : TcpCall.KeepsPairs link st (.listen fd backlog)) :
    Pairing none (st.netTcpListen link fd backlog).2.view := by
  have start : Pairing none st.view ∧ ∀ s, st.fdToSlot fd = some s →
      (st.view.cores s).isLoop = false := ⟨pairing, keeps⟩
  refine ((moves_listen link st fd backlog).invariant (fun v => Pairing none v ∧
    ∀ s, st.fdToSlot fd = some s → (v.cores s).isLoop = false) ?_ start).1
  rintro move v v' kind makes ⟨pairing, eth⟩
  cases kind with
  | listen _ found =>
    refine ⟨pairing.of_makes makes (eth _ found), fun s found' => ?_⟩
    obtain rfl := Option.some.inj (found.symm.trans found')
    obtain rfl := makes
    rw [View.set_self]
    exact eth _ found
  | unmint _ soft found different =>
    refine ⟨pairing.of_makes makes trivial, fun s found' => ?_⟩
    rw [Move.frame makes]
    · exact eth s found'
    · rintro rfl
      exact different (Option.some.inj (found'.symm.trans found))

theorem pairing_poll (pairing : Pairing none st.view) (keeps : TcpCall.KeepsPairs link st .poll) :
    Pairing none (st.netTcpPoll link).view := by
  have start : Pairing none st.view ∧ ∀ s, reaps link (st.socks s) = true →
      (st.view.cores s).isLoop = true → (st.view.cores s).mate = none :=
    ⟨pairing, fun s due loop => core_mate_none (keeps s due loop)⟩
  refine ((moves_poll link st).invariant (fun v => Pairing none v ∧
    ∀ s, reaps link (st.socks s) = true → (v.cores s).isLoop = true →
      (v.cores s).mate = none) ?_ start).1
  rintro move v v' kind makes ⟨pairing, alone⟩
  cases kind with
  | pollReady readies =>
    refine ⟨pairing.of_makes makes (readies.keepsPairs none v), ?_⟩
    cases move <;> simp only [Move.Readies, Move.Makes] at readies makes <;> grind -ring -order
  | pollDrop s =>
    refine ⟨pairing.of_makes makes trivial, ?_⟩
    obtain ⟨-, -, -, rfl⟩ := makes
    grind -ring -order
  | reap due =>
    refine ⟨pairing.of_makes makes ⟨alone _ due, rfl⟩, ?_⟩
    obtain ⟨-, -, rfl⟩ := makes
    grind -ring -order

theorem close_self {fd : Int} {s : Slot} (found : st.fdToSlot fd = some s) :
    (st.netTcpClose link fd).2.socks s = .zero := by
  unfold netTcpClose
  rw [found]
  exact setSock_self _ s _

theorem pairing_close (pairing : Pairing none st.view) (fd : Int) :
    Pairing none (st.netTcpClose link fd).2.view := by
  cases found : st.fdToSlot fd with
  | none =>
    unfold netTcpClose
    rw [found]
    exact pairing
  | some s =>
    have wider : Pairing (some s) st.view := ⟨fun a b used loop mate =>
        ⟨(pairing.paired a b used loop mate).1, (pairing.paired a b used loop mate).2.1,
          .inl ((pairing.paired a b used loop mate).2.2.resolve_right nofun)⟩,
        pairing.listeners, pairing.named⟩
    have closed : Pairing (some s) (st.netTcpClose link fd).2.view := by
      refine wider.moves (fun move w kind => ?_) (moves_close link st fd)
      cases kind with
      | closeFin | closeName => trivial
      | part partner found' | close found' => exact found.symm.trans found'
    refine ⟨fun a b used loop mate => ?_, closed.listeners, closed.named⟩
    obtain ⟨usedB, loopB, back⟩ := closed.paired a b used loop mate
    refine ⟨usedB, loopB, .inl (back.resolve_right fun leaves => ?_)⟩
    have gone : ((st.netTcpClose link fd).2.socks a).used = false := by
      rw [← Option.some.inj leaves, close_self found]
      rfl
    exact nomatch gone.symm.trans used

end Tcp

theorem TcpCall.pairing {link : Link} {st : Tcp} {call : TcpCall} (pairing : Pairing none st.view)
    (keeps : call.KeepsPairs link st) : Pairing none (call.run link st).view := by
  have easy (keep : ∀ move v, call.Kinds link st move → move.KeepsPairs none v) :
      Pairing none (call.run link st).view := pairing.moves keep (call.moves link st)
  cases call with
  | connect fd port => exact pairing_connect pairing keeps
  | listen fd backlog => exact pairing_listen pairing keeps
  | poll => exact pairing_poll pairing keeps
  | close fd => exact pairing_close pairing fd
  | input frame =>
    refine easy fun move v kind => ?_
    cases kind with
    | inputReady _ readies => exact readies.keepsPairs none v
    | input _ kind => cases kind <;> trivial
  | accept fd =>
    refine easy fun move v kind => ?_
    cases kind with
    | acceptReady _ readies => exact readies.keepsPairs none v
    | accept => trivial
  | pollMask fd want =>
    refine easy fun move v kind => ?_
    cases kind with
    | maskReady _ _ readies => exact readies.keepsPairs none v
  | _ =>
    refine easy fun move v kind => ?_
    cases kind <;> trivial

/-! ### Runs -/

namespace Tcp

/-- Every loopback socket with a partner is the partner of its partner. -/
def Paired (st : Tcp) : Prop :=
  ∀ a b, (st.socks a).used = true → (st.socks a).isLoop = true → (st.socks a).listening = false →
    (st.socks a).peer = some b →
      (st.socks b).used = true ∧ (st.socks b).isLoop = true ∧ (st.socks b).peer = some a

/-- What `net_tcp_send` takes on a loopback socket goes into the ring of its partner, and into no
other. -/
def DeliversToPartner (st : Tcp) : Prop :=
  ∀ (link : Link) (fd : Int) (a b : Slot) (buf : List U8), st.fdToSlot fd = some a →
    (st.socks a).isLoop = true → (st.socks a).listening = false → (st.socks a).peer = some b →
      ((st.netTcpSend link fd buf).2.socks b).rcv.bytes =
          (st.socks b).rcv.bytes ++ buf.take (st.netTcpSend link fd buf).1.toNat ∧
        ∀ k, k ≠ b → ((st.netTcpSend link fd buf).2.socks k).rcv.bytes = (st.socks k).rcv.bytes

end Tcp

section Ends

variable {st : Tcp}

theorem TcpSock.core_mate_some {sock : TcpSock} {b : Slot} (connected : sock.listening = false)
    (peer : sock.peer = some b) : sock.core.mate = some b := by
  unfold TcpSock.core
  rw [if_neg (by rw [connected]; exact Bool.false_ne_true), peer]

theorem Pairing.isPaired (pairing : Pairing none st.view) : st.Paired := by
  intro a b used loop connected peer
  obtain ⟨usedB, loopB, back⟩ :=
    pairing.paired a b used loop (TcpSock.core_mate_some connected peer)
  exact ⟨usedB, loopB, TcpSock.core_mate (back.resolve_right nofun)⟩

theorem Pairing.delivers (pairing : Pairing none st.view) (fit : st.view.RingsFit) :
    st.DeliversToPartner := by
  intro link fd a b buf found loop connected peer
  have used := (fdToSlot_eq_some.mp found).2
  have mate := TcpSock.core_mate_some connected peer
  have ends : st.view.Ends a b := ⟨used, loop, mate, (pairing.paired a b used loop mate).1⟩
  obtain ⟨view, -⟩ := netTcpSend_deliver link found ends buf
  have fits : ((st.netTcpSend link fd buf).2.view.cores b).rcv.len ≤ tcpRxMax :=
    fit.run (.send fd buf) b
  have cores := fun k => core_of_view view k
  generalize buf.take (st.netTcpSend link fd buf).1.toNat = taken at view cores ⊢
  constructor
  · have ring : ((st.netTcpSend link fd buf).2.socks b).rcv = (st.socks b).rcv.push taken := by
      apply (congrArg Core.rcv (cores b)).trans
      unfold View.deliver
      rw [View.set_self]
      rfl
    rw [ring]
    apply Receiver.bytes_push
    rw [← Receiver.push_len, ← ring]
    exact fits
  · intro k different
    have ring : ((st.netTcpSend link fd buf).2.socks k).rcv = (st.socks k).rcv := by
      apply (congrArg Core.rcv (cores k)).trans
      unfold View.deliver
      rw [View.set_of_ne _ different]
      rfl
    rw [ring]

end Ends

/-- Runs of calls, frames and polls from the start: along a run whose calls keep the pairs the two
ends of every loopback connection point to each other, and what is sent on one goes to the
other. -/
theorem loopRuns_paired (link : Link) {run : List (Link × TcpCall)}
    (keeps : StepRuns.Meets tcpStep (fun st event => event.2.KeepsPairs event.1 st)
      (netTcpInit link) run) {front : List (Link × TcpCall)} (inside : front <+: run) :
    (front.foldl tcpStep (netTcpInit link)).Paired ∧
      (front.foldl tcpStep (netTcpInit link)).DeliversToPartner := by
  obtain ⟨back, rfl⟩ := inside
  have cleared : Pairing none cleared.view := ⟨fun _ _ used => absurd used Bool.false_ne_true,
      fun _ listening => absurd listening Bool.false_ne_true, nofun⟩
  have start : Pairing none (netTcpInit link).view :=
    cleared.moves (fun _ v readies => readies.keepsPairs none v) (moves_netTcpInit link)
  have empty : (netTcpInit link).view.RingsFit :=
    (moves_netTcpInit link).invariant View.RingsFit (fun _ _ _ _ makes fit => fit.of_makes makes)
      fun _ => Nat.zero_le _
  have both := (StepRuns.Meets.append.mp keeps).1.invariant
    (fun st event (holds : Pairing none st.view ∧ st.view.RingsFit) keeps =>
      ⟨TcpCall.pairing holds.1 keeps, holds.2.run event.2⟩) ⟨start, empty⟩
  exact ⟨both.1.isPaired, both.1.delivers both.2⟩

/-- A listener in slot 0, and a socket in slot 1 that connects to it twice. -/
def sampleTwice : List (Link × TcpCall) :=
  [.socket, .bind (slotToFd 0) 80, .listen (slotToFd 0) 4, .socket,
    .connect (slotToFd 1) 80, .connect (slotToFd 1) 80].map fun call => (idleLink 0, call)

/-- The children are accepted, and the slot of the socket that connected is used again. -/
def sampleReused : List (Link × TcpCall) :=
  sampleTwice ++ [.accept (slotToFd 0), .accept (slotToFd 0), .close (slotToFd 1),
    .socket].map fun call => (idleLink 0, call)

/-- The first child still points to a socket that has another partner; once that is closed, what
is sent on the child goes to a new socket that was never connected. -/
theorem loopRuns_connect_twice : ¬(sampleTwice.foldl tcpStep (netTcpInit (idleLink 0))).Paired ∧
      ((sampleReused.foldl tcpStep (netTcpInit (idleLink 0))).socks 1).isLoop = false ∧
      (((sampleReused ++ [(idleLink 0, TcpCall.send (slotToFd 2) [42])]).foldl tcpStep
        (netTcpInit (idleLink 0))).socks 1).rcv.bytes = [42] := by
  refine ⟨fun paired => ?_, by decide +kernel⟩
  have broken := paired 2 1 (by decide +kernel) (by decide +kernel) (by decide +kernel)
    (by decide +kernel)
  exact absurd broken.2.2 (by decide +kernel)

def sampleOnce : List (Link × TcpCall) :=
  sampleTwice.take 5 ++ [.send (slotToFd 1) [1, 2]].map fun call => (idleLink 0, call)

theorem loopRuns_paired_once : (sampleOnce.foldl tcpStep (netTcpInit (idleLink 0))).Paired ∧
      (sampleOnce.foldl tcpStep (netTcpInit (idleLink 0))).DeliversToPartner ∧
      ((sampleOnce.foldl tcpStep (netTcpInit (idleLink 0))).socks 2).rcv.bytes = [1, 2] := by
  obtain ⟨paired, delivers⟩ := loopRuns_paired (idleLink 0)
    (show StepRuns.Meets tcpStep (fun st event => event.2.KeepsPairs event.1 st)
      (netTcpInit (idleLink 0)) sampleOnce by decide +kernel) (List.prefix_refl _)
  exact ⟨paired, delivers, by decide +kernel⟩

end GreenJade.Net

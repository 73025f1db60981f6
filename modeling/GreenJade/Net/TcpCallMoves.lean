import GreenJade.Net.TcpFrames

/-! Owns the calls of `net_tcp.c` as one type, which moves of the socket table each may make, and
that the calls of programs are made of theirs. It does not own frames and polls. -/

namespace GreenJade.Net

open View Bool

/-- The calls, and frames from the wire. -/
inductive TcpCall
  | socket
  | bind (fd : Int) (port : U16)
  | listen (fd backlog : Int)
  | connect (fd : Int) (port : U16)
  | accept (fd : Int)
  | send (fd : Int) (buf : List U8)
  | recv (fd : Int) (cb : Nat)
  | close (fd : Int)
  | shutdown (fd how : Int)
  | pollMask (fd : Int) (want : U32)
  | input (frame : List U8)
  | poll

def TcpCall.run (link : Link) (st : Tcp) : TcpCall → Tcp
  | .socket => st.netTcpSocket.2
  | .bind fd port => (st.netTcpBind link fd port).2
  | .listen fd backlog => (st.netTcpListen link fd backlog).2
  | .connect fd port => (st.netTcpConnect fd port).2
  | .accept fd => (st.netTcpAccept link fd).2
  | .send fd buf => (st.netTcpSend link fd buf).2
  | .recv fd cb => (st.netTcpRecv fd cb).2.2
  | .close fd => (st.netTcpClose link fd).2
  | .shutdown fd how => (st.netTcpShutdown link fd how).2
  | .pollMask fd want => (st.netTcpPollMask link fd want).2
  | .input frame => st.netTcpInput link frame
  | .poll => st.netTcpPoll link

namespace Tcp

variable {st st₁ st₂ : Tcp} {s : Slot}

/-- The segment acknowledges our FIN to a connection that waits for nothing else. -/
def finishes (sock : TcpSock) (seg : Segment) : Bool :=
  ownsSegment sock seg && decide (sock.state = .lastAck) && sock.snd.finSent && seg.hasAck &&
    decide (sock.snd.una < seg.ack) && decide (seg.ack = sock.snd.nxt)

inductive SegmentMoves (st : Tcp) (seg : Segment) : Move → Prop
  | spawn (child : Slot) : seg.hasSyn = true → seg.hasAck = false →
      SegmentMoves st seg (.spawn child seg)
  | drop (s : Slot) : ownsSegment (st.socks s) seg = true → seg.hasRst = true →
      SegmentMoves st seg (.drop s)
  | rst (s : Slot) : ownsSegment (st.socks s) seg = true → seg.hasRst = true →
      SegmentMoves st seg (.rst s)
  | establish (s : Slot) : ownsSegment (st.socks s) seg = true → seg.hasAck = true →
      (st.socks s).snd.acksSyn seg.ack = true → SegmentMoves st seg (.establish s seg)
  | finWait2 (s : Slot) : ownsSegment (st.socks s) seg = true → SegmentMoves st seg (.finWait2 s)
  | finalAck (s : Slot) : finishes (st.socks s) seg = true → SegmentMoves st seg (.finalAck s seg)
  | push (s : Slot) (count : Nat) : ownsSegment (st.socks s) seg = true →
      SegmentMoves st seg (.push s seg count)
  | fin (s : Slot) : ownsSegment (st.socks s) seg = true → SegmentMoves st seg (.fin s seg)

theorem SegmentMoves.congr {seg : Segment} {move : Move} (kind : SegmentMoves st₁ seg move)
    (same : st₁.socks = st.socks) : SegmentMoves st seg move := by
  cases kind <;> rw [same] at * <;> constructor <;> assumption

end Tcp

/-- The moves that a call can make, from the state before it. -/
inductive TcpCall.Kinds (link : Link) (st : Tcp) : TcpCall → Move → Prop
  | socket (s : Slot) : Kinds link st .socket (.socket s)
  | bind {fd : Int} {s : Slot} (port : U16) : st.fdToSlot fd = some s →
      Kinds link st (.bind fd port) (.bind s port)
  | listen {fd : Int} {s : Slot} (backlog : Int) : st.fdToSlot fd = some s →
      Kinds link st (.listen fd backlog) (.listen s)
  | unmint {fd : Int} {s : Slot} (backlog : Int) (soft : Slot) : st.fdToSlot fd = some s →
      soft ≠ s → Kinds link st (.listen fd backlog) (.unmint soft)
  | connect {fd : Int} {s : Slot} (port : U16) (child : Slot) : st.fdToSlot fd = some s →
      Kinds link st (.connect fd port) (.pair s child port)
  | acceptReady (fd : Int) {move : Move} : move.Readies → Kinds link st (.accept fd) move
  | accept {fd : Int} {s : Slot} (child : Slot) : st.fdToSlot fd = some s →
      Kinds link st (.accept fd) (.take child (st.socks s).lport)
  | send {fd : Int} {s : Slot} (buf : List U8) (peer : Slot) (bytes : List U8) :
      st.fdToSlot fd = some s → Kinds link st (.send fd buf) (.loopPush s peer bytes)
  | recv {fd : Int} {s : Slot} (cb count : Nat) : st.fdToSlot fd = some s →
      Kinds link st (.recv fd cb) (.pop s count)
  | closeFin {fd : Int} {s : Slot} (peer : Slot) : st.fdToSlot fd = some s →
      Kinds link st (.close fd) (.loopFin s peer)
  | part {fd : Int} {s : Slot} (partner : Slot) : st.fdToSlot fd = some s →
      Kinds link st (.close fd) (.part s partner)
  | closeName (fd : Int) : Kinds link st (.close fd) (.name none)
  | close {fd : Int} {s : Slot} : st.fdToSlot fd = some s → Kinds link st (.close fd) (.close s)
  | shutName (fd how : Int) : Kinds link st (.shutdown fd how) (.name none)
  | shutRead {fd : Int} {s : Slot} (how : Int) : st.fdToSlot fd = some s →
      Kinds link st (.shutdown fd how) (.shutRead s)
  | shutFin {fd : Int} {s : Slot} (how : Int) (peer : Slot) : st.fdToSlot fd = some s →
      Kinds link st (.shutdown fd how) (.loopFin s peer)
  | shutWrite {fd : Int} {s : Slot} (how : Int) : st.fdToSlot fd = some s →
      Kinds link st (.shutdown fd how) (.shutWrite s)
  | maskReady (fd : Int) (want : U32) {move : Move} : move.Readies →
      Kinds link st (.pollMask fd want) move
  | inputReady (frame : List U8) {move : Move} : move.Readies → Kinds link st (.input frame) move
  | input {frame : List U8} {seg : Segment} {move : Move} : parseSegment frame = some seg →
      Tcp.SegmentMoves st seg move → Kinds link st (.input frame) move
  | pollReady {move : Move} : move.Readies → Kinds link st .poll move
  | pollDrop (s : Slot) : Kinds link st .poll (.drop s)
  | reap {s : Slot} : Tcp.reaps link (st.socks s) = true → Kinds link st .poll (.reap s)

namespace Tcp

variable {st st₁ st₂ : Tcp} {s : Slot} {kinds : Move → Prop}

/-! ### New slots -/

section

variable (taken : st.allocSlot = some (s, st₁))
include taken

theorem view_allocSlot :
    st₁.view = st.view.alloc s (.fresh s st.made) := by
  obtain ⟨-, rfl⟩ := allocSlot_eq_some taken
  exact congrArg (fun v : View => { v with made := st.made + 1 }) (view_setSock st s _)

theorem allocSlot_free :
    (st.view.cores s).used = false := (allocSlot_eq_some taken).1

theorem allocSlot_self :
    st₁.socks s = .fresh s st.made := by
  obtain ⟨-, rfl⟩ := allocSlot_eq_some taken
  exact setSock_self st s _

theorem allocSlot_of_used {k : Slot}
    (used : (st.socks k).used = true) : k ≠ s ∧ st₁.socks k = st.socks k := by
  obtain ⟨free, rfl⟩ := allocSlot_eq_some taken
  have different : k ≠ s := by
    rintro rfl
    exact absurd used (free ▸ false_ne_true)
  exact ⟨different, setSock_of_ne st different _⟩

end

variable (link : Link)

theorem moves_socket (st : Tcp) :
    Moves (TcpCall.Kinds link st .socket) st.view st.netTcpSocket.2.view := by
  unfold netTcpSocket
  split
  · exact .refl _
  · next s st₁ taken =>
      refine .single (.socket s) ⟨allocSlot_free taken, ?_⟩
      rw [view_setSock, view_allocSlot taken, alloc_set, allocSlot_self taken]
      rfl

/-- A listener on port 22 is there: at most one slot that was free has changed for it. -/
structure Ensured (st st₁ : Tcp) : Prop where
  moves : Moves Move.Readies st.view st₁.view
  kept : ∀ k, (st.socks k).used = true → Rebooked (st₁.socks k) (st.socks k)

theorem Rebooked.used {new old : TcpSock} (booked : Rebooked new old) : new.used = old.used :=
  congrArg Core.used booked.core

theorem Ensured.of_books (books : Books st st₁) : Ensured st st₁ :=
  ⟨.of_eq books.view, fun k _ => books.socks k⟩

theorem Ensured.trans (first : Ensured st st₁) (second : Ensured st₁ st₂) : Ensured st st₂ where
  moves := first.moves.trans second.moves
  kept := fun k used =>
    (first.kept k used).trans (second.kept k ((first.kept k used).used.trans used))

theorem Ensured.then_books (first : Ensured st st₁) (second : Books st₁ st₂) : Ensured st st₂ :=
  first.trans (.of_books second)

theorem ensured_mintListen22 (st : Tcp) : Ensured st st.mintListen22 := by
  unfold mintListen22
  split
  · exact .of_books (.refl st)
  · next s st₁ taken =>
      have minted := books_requeue ((st₁.setSock s (softListener (st₁.socks s))).setSoft (some s)) s
        tcpSoftSshPort
      refine ⟨?_, fun k used => ?_⟩
      · refine .single (show Move.Readies (.mint s) from trivial) ⟨allocSlot_free taken, ?_⟩
        rw [minted.view, view_setSoft, view_setSock, view_allocSlot taken, alloc_set,
          allocSlot_self taken]
        rfl
      · obtain ⟨different, same⟩ := allocSlot_of_used taken used
        have booked := minted.socks k
        rw [setSoft, setSock_of_ne st₁ different, same] at booked
        exact booked

theorem ensured_setSoft {soft : Option Slot}
    (listens : ∀ s, soft = some s → (st.socks s).used = true ∧ (st.socks s).listening = true) :
    Ensured st (st.setSoft soft) :=
  ⟨.single (show Move.Readies (.name soft) from trivial) ⟨listens, view_setSoft st soft⟩,
    fun _ _ => .inl rfl⟩

theorem ensured_ensureListen22 (st : Tcp) : Ensured st (st.ensureListen22 link) := by
  have synced := Books.of_sameTable (sameTable_refresh link st)
  unfold ensureListen22
  dsimp only
  split
  · exact .of_books synced
  split
  · exact .of_books synced
  have twice := synced.trans (.of_sameTable (sameTable_refresh link _))
  generalize (((st.syncL2Identity link).holdLabIp link).syncL2Identity link).holdLabIp link = st₁
    at twice ⊢
  have stale : Ensured st₁ (if st₁.staleListen22 then st₁.setSoft none else st₁) := by
    split_ifs
    · exact ensured_setSoft nofun
    · exact .of_books (.refl st₁)
  have socks : (if st₁.staleListen22 then st₁.setSoft none else st₁).socks = st₁.socks := by
    split_ifs <;> rfl
  have ready := (Ensured.of_books twice).trans stale
  split
  · exact ready.then_books (books_requeueAll _ _ _)
  · split
    · next soft found =>
        refine (ready.trans (ensured_setSoft ?_)).then_books (books_requeue _ _ _)
        intro k known
        cases known
        rw [socks]
        split_ifs at found
        have listed := List.mem_of_getLast? found
        simp only [List.mem_filter, listens, and_eq_true] at listed
        exact ⟨listed.2.1.1.1.1, listed.2.1.1.1.2⟩
    · exact ready.trans (ensured_mintListen22 _)

/-! ### Sockets and listeners -/

theorem moves_bind (st : Tcp) (fd : Int) (port : U16) :
    Moves (TcpCall.Kinds link st (.bind fd port)) st.view (st.netTcpBind link fd port).2.view := by
  unfold netTcpBind
  split
  · exact .refl _
  · next s found =>
      have same := sameTable_refresh link st
      refine .single (.bind port found) ?_
      rw [view_setSock, same.view, same.socks]
      rfl

theorem books_inherits {soft : TcpSock} (used : (st.socks s).used = true)
    (listening : (st.socks s).listening = true) :
    Books st (st.setSock s (inherits (st.socks s) soft)) :=
  .setSock (.inr ⟨used, listening, _, _, _, rfl⟩)

theorem moves_takeOver (used : (st.socks s).used = true)
    (listening : (st.socks s).listening = true) :
    Moves (fun move => ∃ soft, soft ≠ s ∧ move = .unmint soft) st.view (st.takeOver s).view := by
  unfold takeOver
  split
  · exact .refl _
  · next soft known =>
      split_ifs with asked
      · obtain ⟨-, different, isUsed, minted⟩ := asked
        refine .single ⟨soft, different, rfl⟩ ⟨isUsed, minted, known, ?_⟩
        rw [view_setSoft, free, view_setSock, (books_inherits used listening).view]
        rfl
      · exact .refl _

theorem moves_listen (st : Tcp) (fd backlog : Int) :
    Moves (TcpCall.Kinds link st (.listen fd backlog)) st.view
      (st.netTcpListen link fd backlog).2.view := by
  unfold netTcpListen
  split
  · exact .refl _
  next s found =>
  have used := (fdToSlot_eq_some.mp found).2
  have armed := view_setSock st s (asListener (st.socks s) backlog)
  have taken : Moves _ (st.setSock s (asListener (st.socks s) backlog)).view _ :=
    moves_takeOver (by rw [setSock_self]; exact used) (by rw [setSock_self]; rfl)
  rw [armed] at taken
  have final (st₁ : Tcp) : (if (st.socks s).lport = tcpSoftSshPort then
      (st₁.syncL2Identity link).holdLabIp link else st₁).view = st₁.view := by
    split_ifs
    · exact (sameTable_refresh link st₁).view
    · rfl
  rw [final, (books_requeue _ s _).view]
  refine (Moves.single (TcpCall.Kinds.listen backlog found) rfl).trans (taken.mono ?_)
  rintro move ⟨soft, different, rfl⟩
  exact .unmint backlog soft found different

theorem view_pair (st : Tcp) (s child : Slot) (port : U16) :
    (st.pair s child port).view =
      (st.view.set child { (st.view.cores child) with
          state := .established, lport := port, rport := connectPort (st.socks s), isLoop := true
          acceptQ := true, mate := if (st.socks child).listening then none else some s
          rcv := { (st.socks child).rcv with nxt := (st.socks s).snd.nxt } }).set s
        { st.view.cores s with
          isLoop := true, rport := port, lport := connectPort (st.socks s), state := .established
          mate := if (st.socks s).listening then none else some child
          rcv := { (st.socks s).rcv with nxt := (st.socks child).snd.nxt } } := by
  unfold pair
  rw [view_setSock, view_setSock]
  rfl

/-- `net_tcp_connect` makes one pair, or nothing. -/
theorem makes_connect (st : Tcp) (fd : Int) (port : U16) :
    (st.netTcpConnect fd port).2.view = st.view ∨ ∃ s child, st.fdToSlot fd = some s ∧
      Move.Makes st.view (st.netTcpConnect fd port).2.view (.pair s child port) := by
  unfold netTcpConnect
  split
  · exact .inl rfl
  next s found =>
  have used := (fdToSlot_eq_some.mp found).2
  split
  · exact .inl rfl
  next ls listener =>
  have here := firstSlot_eq_some listener
  simp only [and_eq_true, decide_eq_true_eq] at here
  obtain ⟨⟨⟨other, lsUsed⟩, listening⟩, -⟩ := here
  have room := books_atLeastOne lsUsed listening
  dsimp only
  split
  · exact .inl room.view
  split
  · exact .inl room.view
  next child st₁ taken =>
  have free : (st.view.cores child).used = false := by
    rw [← room.view]
    exact allocSlot_free taken
  obtain ⟨different, sSame⟩ := allocSlot_of_used taken ((room.socks s).used.trans used)
  obtain ⟨lsDifferent, lsSame⟩ := allocSlot_of_used taken ((room.socks ls).used.trans lsUsed)
  have lsPaired : (st₁.pair s child port).socks ls = (st.atLeastOne ls).socks ls := by
    unfold pair
    rw [setSock_of_ne _ other, setSock_of_ne _ lsDifferent, lsSame]
  have queued : Books (st₁.pair s child port) ((st₁.pair s child port).enqueue ls child) := by
    refine books_enqueue ?_ ?_ child <;> rw [lsPaired]
    · exact (room.socks ls).used.trans lsUsed
    · exact (congrArg Core.listening (room.socks ls).core).trans listening
  have allocated : st₁.view = st.view.alloc child (.fresh child st.made) := by
    rw [view_allocSlot taken, room.view, room.made]
  have sCore : (st₁.socks s).core = (st.socks s).core := by
    rw [sSame, (room.socks s).core]
  refine .inr ⟨s, child, found, free, used, ?_⟩
  refine ⟨connectPort (st₁.socks s), (st₁.socks child).snd.nxt, (st₁.socks s).snd.nxt, ?_⟩
  rw [queued.view, view_pair, allocated, alloc_set, alloc_self,
    alloc_of_ne _ different, allocSlot_self taken]
  have sListening : (st₁.socks s).listening = (st.socks s).listening :=
    congrArg Core.listening sCore
  have sRcv : (st₁.socks s).rcv = (st.socks s).rcv := congrArg Core.rcv sCore
  rw [sListening, sRcv]
  rfl

theorem moves_connect (st : Tcp) (fd : Int) (port : U16) :
    Moves (TcpCall.Kinds link st (.connect fd port)) st.view
      (st.netTcpConnect fd port).2.view := by
  rcases makes_connect st fd port with same | ⟨s, child, found, makes⟩
  · exact .of_eq same
  · exact .single (.connect port child found) makes

/-! ### Accepting -/

theorem view_leaveQueue {v : View} (view : st.view = v) (child : Slot) :
    (st.leaveQueue child).view = v.set child { v.cores child with acceptQ := false } :=
  view_change view
    (congrArg (fun core : Core => { core with acceptQ := false }) (core_of_view view child))

theorem makes_takeChild {child : Slot} (used : (st.socks child).used = true)
    (waits : (st.socks child).acceptQ = true) (ripe : (st.socks child).state = .established) :
    Move.Makes st.view (st.takeChild s child).2.view (.take child (st.socks s).lport) := by
  refine ⟨used, waits, ripe, ?_⟩
  unfold takeChild
  dsimp only
  have requeued := (books_requeueAll ((st.dropHints child).leaveQueue child) (st.socks s).lport
    fun _ => true).view.trans (view_leaveQueue (books_dropHints st child).view child)
  generalize ((st.dropHints child).leaveQueue child).requeueAll (st.socks s).lport
    (fun _ => true) = st₁ at requeued ⊢
  have port : (st₁.socks s).lport = (st.socks s).lport := by
    apply (congrArg Core.lport (core_of_view requeued s)).trans
    by_cases same : s = child
    · rw [same, set_self]
      rfl
    · rw [set_of_ne _ same]
      rfl
  have core := core_of_view requeued child
  rw [set_self] at core
  rw [port]
  refine (view_change requeued (congrArg (fun core : Core =>
    { core with
      lport := if core.lport = 0 then (st.socks s).lport else core.lport
      softMint := false }) core)).trans ?_
  exact st.view.set_set child _ _

/-- What `net_tcp_accept` on a listener does: it fails, or takes one child, of its own port or the
one that its hint stands for. -/
def Accepts (st : Tcp) (s : Slot) (result : Int × Tcp) : Prop :=
  result.1 < 0 ∧ Moves Move.Readies st.view result.2.view ∨
    ∃ child v, result.1 = slotToFd child ∧ Moves Move.Readies st.view v ∧
      Move.Makes v result.2.view (.take child (st.socks s).lport) ∧
      ((v.cores child).lport = (st.socks s).lport ∨ v = st.view ∧ (st.socks s).peer = some child)

theorem scanRipe_eq_some {port : U16} {child : Slot} (found : st.scanRipe port = some child) :
    (st.socks child).used = true ∧ (st.socks child).acceptQ = true ∧
      (st.socks child).state = .established ∧ (st.socks child).lport = port := by
  have isRipe : ripe (st.socks child) port = true := by
    rcases Option.or_eq_some_iff.mp found with eth | ⟨-, any⟩
    · have here := firstSlot_eq_some eth
      simp only [and_eq_true] at here
      exact here.1
    · exact firstSlot_eq_some any
  simp only [ripe, waits, and_eq_true, decide_eq_true_eq] at isRipe
  exact ⟨isRipe.1.1.1.1, isRipe.1.1.2, isRipe.2, isRipe.1.2⟩

theorem makes_takeScanned {child : Slot} (used : (st.socks s).used = true)
    (listening : (st.socks s).listening = true)
    (found : st.scanRipe (st.socks s).lport = some child) :
    Move.Makes st.view ((st.setPeer s (some child)).takeChild s child).2.view
      (.take child (st.socks s).lport) := by
  have hooked := Books.setPeer used listening (some child)
  obtain ⟨childUsed, queued, established, -⟩ := scanRipe_eq_some found
  have core := (hooked.socks child).core
  have port : ((st.setPeer s (some child)).socks s).lport = (st.socks s).lport :=
    congrArg Core.lport (hooked.socks s).core
  have taken : Move.Makes _ ((st.setPeer s (some child)).takeChild s child).2.view
      (.take child ((st.setPeer s (some child)).socks s).lport) :=
    makes_takeChild ((congrArg Core.used core).trans childUsed)
      ((congrArg Core.acceptQ core).trans queued) ((congrArg Core.state core).trans established)
  rw [hooked.view, port] at taken
  exact taken

theorem books_acceptAgain (used : (st.socks s).used = true)
    (listening : (st.socks s).listening = true) (hint : Option Slot) :
    Books st (st.acceptAgain s hint).2 := by
  unfold acceptAgain
  dsimp only
  split_ifs
  · exact .setPeer used listening hint
  · exact books_requeue st s _
  · exact .refl st

theorem acceptAgain_neg (st : Tcp) (s : Slot) (hint : Option Slot) :
    (st.acceptAgain s hint).1 < 0 := by
  unfold acceptAgain
  dsimp only
  split_ifs <;> exact (by decide : (-11 : Int) < 0)

theorem accepts_acceptScan (used : (st.socks s).used = true)
    (listening : (st.socks s).listening = true) (hint : Option Slot) :
    Accepts st s (st.acceptScan link s hint) := by
  unfold acceptScan
  split
  · next child found =>
      exact .inr ⟨child, st.view, rfl, .refl _, makes_takeScanned used listening found,
        .inl (scanRipe_eq_some found).2.2.2⟩
  split
  · exact .inl ⟨acceptAgain_neg st s hint, .of_eq (books_acceptAgain used listening hint).view⟩
  have ensured := (ensured_ensureListen22 link st).then_books
    (books_requeueAll (st.ensureListen22 link) ((st.ensureListen22 link).socks s).lport
      fun _ => true)
  dsimp only
  generalize (st.ensureListen22 link).requeueAll ((st.ensureListen22 link).socks s).lport
    (fun _ => true) = st₁ at ensured ⊢
  have core := (ensured.kept s used).core
  have used₁ := (congrArg Core.used core).trans used
  have listening₁ := (congrArg Core.listening core).trans listening
  have port : (st₁.socks s).lport = (st.socks s).lport := congrArg Core.lport core
  split
  · next child found =>
      have taken := makes_takeScanned used₁ listening₁ found
      rw [port] at taken
      exact .inr ⟨child, st₁.view, rfl, ensured.moves, taken,
        .inl ((scanRipe_eq_some found).2.2.2.trans port)⟩
  · exact .inl ⟨acceptAgain_neg st₁ s hint,
      ensured.moves.trans (.of_eq (books_acceptAgain used₁ listening₁ hint).view)⟩

/-- `net_tcp_accept` fails, or takes a child for a listener. -/
theorem accepts_netTcpAccept (st : Tcp) (fd : Int) :
    (st.netTcpAccept link fd).1 < 0 ∧ (st.netTcpAccept link fd).2 = st ∨
      ∃ s, st.fdToSlot fd = some s ∧ (st.socks s).listening = true ∧
        (st.socks s).shutRd = false ∧ Accepts st s (st.netTcpAccept link fd) := by
  unfold netTcpAccept
  split
  · exact .inl ⟨(by decide : (-9 : Int) < 0), rfl⟩
  next s found =>
  have used := (fdToSlot_eq_some.mp found).2
  split
  · exact .inl ⟨(by decide : (-22 : Int) < 0), rfl⟩
  next off =>
  have listening := eq_true_of_not_eq_false off
  split
  · exact .inl ⟨(by decide : (-22 : Int) < 0), rfl⟩
  next shut =>
  refine .inr ⟨s, found, listening, eq_false_iff.mpr shut, ?_⟩
  split
  · exact accepts_acceptScan link used listening none
  next hint hinted =>
  split
  · have hooked := Books.setPeer used listening none
    have core := (hooked.socks s).core
    have port : ((st.setPeer s none).socks s).lport = (st.socks s).lport :=
      congrArg Core.lport core
    have alone : ((st.setPeer s none).socks s).peer = none := by
      rw [setPeer, setSock_self]
    have scanned := accepts_acceptScan link ((congrArg Core.used core).trans used)
      ((congrArg Core.listening core).trans listening) none
    unfold Accepts at scanned ⊢
    rw [hooked.view, port, alone] at scanned
    rcases scanned with failed | ⟨child, v, returned, readied, taken, fromPort | ⟨-, impossible⟩⟩
    · exact .inl failed
    · exact .inr ⟨child, v, returned, readied, taken, .inl fromPort⟩
    · exact absurd impossible nofun
  next hintUsed =>
  split
  · next ready =>
      rw [and_eq_true, decide_eq_true_eq] at ready
      exact .inr ⟨hint, st.view, rfl, .refl _,
        makes_takeChild (eq_true_of_not_eq_false hintUsed) ready.1 ready.2,
        .inr ⟨rfl, hinted⟩⟩
  · exact accepts_acceptScan link used listening (some hint)

theorem moves_accept (st : Tcp) (fd : Int) :
    Moves (TcpCall.Kinds link st (.accept fd)) st.view (st.netTcpAccept link fd).2.view := by
  have readied {v v' : View} (moves : Moves Move.Readies v v') :
      Moves (TcpCall.Kinds link st (.accept fd)) v v' :=
    moves.mono fun _ readies => .acceptReady fd readies
  rcases accepts_netTcpAccept link st fd with ⟨-, same⟩ | ⟨s, found, -, -, accepts⟩
  · rw [same]
    exact .refl _
  · rcases accepts with ⟨-, moves⟩ | ⟨child, v, -, moves, taken, -⟩
    · exact readied moves
    · exact (readied moves).trans (.single (.accept child found) taken)

theorem ensured_listenerReady (st : Tcp) (s : Slot) :
    Ensured st (st.listenerReady link s).2 := by
  have recounted : Books st (if (st.socks s).lport = tcpSoftSshPort then
      st.acceptqReparent s (st.socks s).lport else st) := by
    split_ifs
    · exact books_acceptqReparent st s _
    · exact .refl st
  have hooked := recounted.trans (books_listenRehookReady _ s)
  unfold listenerReady
  dsimp only
  split
  · exact .of_books (.refl st)
  split
  · next ready => exact .of_books (ready ▸ hooked)
  · next ready =>
      rw [ready] at hooked
      split
      · exact (((Ensured.of_books hooked).trans (ensured_ensureListen22 link _)).then_books
          (books_requeueAll _ _ _)).then_books (books_listenRehookReady _ s)
      · exact .of_books hooked

theorem moves_pollMask (st : Tcp) (fd : Int) (want : U32) :
    Moves (TcpCall.Kinds link st (.pollMask fd want)) st.view
      (st.netTcpPollMask link fd want).2.view := by
  unfold netTcpPollMask
  split
  · exact .refl _
  next s _ =>
  dsimp only
  split
  · exact (ensured_listenerReady link st s).moves.mono fun _ readies => .maskReady fd want readies
  · exact .refl _

/-! ### Sending and receiving -/

theorem reaches {peer : Slot} (loop : (st.socks s).isLoop = true)
    (hint : (st.socks s).peer = some peer) (used : (st.socks peer).used = true) :
    st.view.Reaches s peer := by
  refine ⟨loop, used, fun silent => ?_⟩
  change (if (st.socks s).listening then none else (st.socks s).peer) = some peer
  rw [if_neg (by rw [show (st.socks s).listening = false from silent]; exact false_ne_true),
    hint]

theorem makes_putRx {peer : Slot} (reaches : st.view.Reaches s peer) (pay : List U8) :
    Move.Makes st.view (st.putRx peer (st.loopTook peer pay)).view
      (.loopPush s peer (st.loopTook peer pay)) := by
  refine ⟨reaches, List.length_take_le _ _, ?_⟩
  rw [putRx, view_setSock]
  rfl

/-- A FIN over loopback, seen in the view. -/
theorem core_loopFin (sock : TcpSock) :
    (loopFin link sock).core = sock.core ∨
      sock.state ≠ .synRcvd ∧ sock.state.TakesFin ∧
        (loopFin link sock).core = sock.core.afterFin := by
  unfold loopFin
  cases here : sock.state with
  | established | finWait1 | finWait2 =>
    have ended : sock.core.state.afterFin = _ := congrArg TcpState.afterFin here
    refine .inr ⟨nofun, by rw [TcpState.TakesFin]; decide, ?_⟩
    unfold Core.afterFin
    rw [ended]
    rfl
  | _ => exact .inl rfl

/-- A frame changes the view of the sockets only at the peer that it reaches over loopback. -/
theorem moves_tcpTx (used : (st.socks s).used = true) {flags : U8} {pay : List U8}
    (noSyn : flags &&& flSyn = 0)
    (delivers : ∀ peer, (st.socks s).peer = some peer → (st.socks peer).used = true →
      st.view.Reaches s peer →
        Moves kinds st.view (st.txLoop link s flags (st.socks s).snd.nxt pay).2.view) :
    Moves kinds st.view (st.tcpTx link s flags pay).2.view := by
  cases loop : (st.socks s).isLoop with
  | false => exact .of_eq (sndOnly_tcpTx link loop flags pay).view
  | true =>
    rw [(tcpTx_loop link used loop noSyn pay).2.view]
    cases hint : (st.socks s).peer with
    | none =>
      unfold txLoop
      rw [hint]
      exact .refl _
    | some peer =>
      cases peerUsed : (st.socks peer).used with
      | false =>
        unfold txLoop
        rw [hint]
        dsimp only
        rw [if_pos peerUsed]
        exact .refl _
      | true => exact delivers peer hint peerUsed (reaches loop hint peerUsed)

/-- Data from a socket: over loopback they go to the peer. -/
theorem moves_tcpTx_data (used : (st.socks s).used = true) {flags : U8}
    (noSyn : flags &&& flSyn = 0) (noFin : flags &&& flFin = 0) (pay : List U8) :
    Moves (fun move => ∃ peer bytes, move = .loopPush s peer bytes) st.view
      (st.tcpTx link s flags pay).2.view := by
  refine moves_tcpTx link used noSyn fun peer hint peerUsed reached => ?_
  have pushed : Moves (fun move => ∃ peer bytes, move = .loopPush s peer bytes)
      st.view (st.putRx peer (st.loopTook peer pay)).view :=
    .single ⟨peer, _, rfl⟩ (makes_putRx reached pay)
  have plain (sock : TcpSock) : loopFlags link flags (st.socks s).snd.nxt sock = sock := by
    unfold loopFlags
    rw [if_neg (not_not_intro noSyn), if_neg (not_not_intro noFin)]
  rw [txLoop_of_used link hint peerUsed]
  split
  · rw [plain, setSock_same]
    exact pushed
  · exact pushed

/-- A FIN from a socket: over loopback the peer sees it. -/
theorem moves_tcpTx_fin (used : (st.socks s).used = true) :
    Moves (fun move => ∃ peer, move = .loopFin s peer) st.view
      (st.tcpTx link s (flFin ||| flAck) []).2.view := by
  refine moves_tcpTx link used (by decide) fun peer hint peerUsed reached => ?_
  have nothing : st.loopTook peer [] = [] := by
    unfold loopTook Receiver.takes
    rw [List.take_nil, List.take_nil]
  rw [txLoop_of_used link hint peerUsed, nothing, putRx_nil, if_pos (by rw [List.take_nil])]
  have seen : loopFlags link (flFin ||| flAck) (st.socks s).snd.nxt (st.socks peer) =
      loopFin link (st.socks peer) := by
    unfold loopFlags
    rw [if_pos (by decide), if_neg (by decide)]
  rw [seen]
  rw [view_setSock]
  rcases core_loopFin link (st.socks peer) with same | ⟨notSyn, takes, ended⟩
  · rw [same]
    exact .of_eq (st.view.set_same peer)
  · rw [ended]
    exact .single ⟨peer, rfl⟩ ⟨reached, notSyn, takes, rfl⟩

theorem moves_sendLoop (link : Link) (s : Slot) : ∀ (turns : Nat) {st : Tcp} (left : List U8)
    (done : Nat), (st.socks s).used = true →
    Moves (fun move => ∃ peer bytes, move = .loopPush s peer bytes) st.view
      (sendLoop link s turns st left done).2.view
  | 0, _, _, _, _ => .refl _
  | turns + 1, st, left, done, used => by
    rw [sendLoop]
    split
    · exact .refl _
    split
    · exact .refl _
    next chunk _ =>
    have sent : Moves _ st.view (st.tcpTx link s (flAck ||| flPsh) (left.take chunk)).2.view :=
      moves_tcpTx_data link used (by decide) (by decide) (left.take chunk)
    dsimp only
    generalize st.tcpTx link s (flAck ||| flPsh) (left.take chunk) = result at sent ⊢
    split
    · split_ifs <;> dsimp only
      · exact sent.trans (.of_eq (SndOnly.modSnd _ s _).view)
      · exact sent
      · exact sent.trans (.of_eq (SndOnly.modSnd _ s _).view)
      · exact sent
    · have acked : (if (result.2.socks s).isLoop then
          result.2.modSnd s fun snd => { snd with una := snd.nxt, rtxValid := false }
          else result.2).view = result.2.view := by
        split_ifs
        · exact (SndOnly.modSnd _ s _).view
        · rfl
      have here := sent.trans (.of_eq acked)
      split
      · exact here
      · exact here.trans (moves_sendLoop link s turns _ _
          (here.keeps (by rintro _ ⟨peer, bytes, rfl⟩; exact not_false) used).1)

theorem moves_send (st : Tcp) (fd : Int) (buf : List U8) :
    Moves (TcpCall.Kinds link st (.send fd buf)) st.view (st.netTcpSend link fd buf).2.view := by
  unfold netTcpSend
  split
  · exact .refl _
  next s found =>
  dsimp only
  split_ifs
  · exact .refl _
  · exact .refl _
  · exact .refl _
  · exact .refl _
  · apply (moves_sendLoop link s _ _ _ (fdToSlot_eq_some.mp found).2).mono
    rintro move ⟨peer, bytes, rfl⟩
    exact .send buf peer bytes found

theorem moves_recv (st : Tcp) (fd : Int) (cb : Nat) :
    Moves (TcpCall.Kinds link st (.recv fd cb)) st.view (st.netTcpRecv fd cb).2.2.view := by
  unfold netTcpRecv
  split
  · exact .refl _
  next s found =>
  dsimp only
  split
  · exact .refl _
  split
  · exact .refl _
  · refine .single (.recv cb (min (min (st.socks s).rcv.len cb) tcpRxMax) found) ⟨?_, ?_⟩
    · exact (Nat.min_le_left _ _).trans (Nat.min_le_left _ _)
    · rw [view_setSock]
      rfl

/-! ### Closing -/

theorem moves_unpair (st : Tcp) (s : Slot) :
    Moves (fun move => ∃ partner, move = .part s partner) st.view (st.unpair s).view := by
  unfold unpair
  split
  · exact .refl _
  next partner _ =>
  split_ifs with points
  · rw [setPeer, view_setSock]
    cases listening : (st.socks partner).listening with
    | true =>
      have same : TcpSock.core { st.socks partner with peer := none } =
          st.view.cores partner := by
        unfold view TcpSock.core
        dsimp only
        rw [if_pos listening, if_pos listening]
      rw [same]
      exact .of_eq (st.view.set_same partner)
    | false =>
      refine .single ⟨partner, rfl⟩ ⟨?_, ?_⟩
      · unfold view TcpSock.core
        dsimp only
        rw [if_neg (listening ▸ false_ne_true), points]
      · unfold view TcpSock.core
        rw [ite_self]
  · exact .refl _

/-- No partner is left where a socket closes. -/
theorem unpaired_unpair {partner : Slot} (mate : ((st.unpair s).view.cores s).mate = some partner) :
    ((st.unpair s).view.cores partner).mate ≠ some s := by
  intro back
  have peer : ((st.unpair s).socks s).peer = some partner := TcpSock.core_mate mate
  have points : ((st.unpair s).socks partner).peer = some s := TcpSock.core_mate back
  unfold unpair at peer points
  cases hint : (st.socks s).peer with
  | none =>
    simp only [hint] at peer
    cases peer
  | some other =>
    simp only [hint] at peer points
    split_ifs at peer points with paired
    · by_cases same : s = other
      · subst same
        rw [setPeer, setSock_self] at peer
        cases peer
      · rw [setPeer, setSock_of_ne st same, hint] at peer
        cases peer
        rw [setPeer, setSock_self] at points
        cases points
    · rw [hint] at peer
      cases peer
      exact paired points

theorem view_free (st : Tcp) (s : Slot) : (st.free s).view = st.view.set s .zero :=
  view_setSock st s _

theorem moves_close (st : Tcp) (fd : Int) :
    Moves (TcpCall.Kinds link st (.close fd)) st.view (st.netTcpClose link fd).2.view := by
  unfold netTcpClose
  split
  · exact .refl _
  next s found =>
  have used := (fdToSlot_eq_some.mp found).2
  have finned : Moves (fun move => ∃ peer, move = .loopFin s peer) st.view
      (if (st.socks s).state = .established ∨ (st.socks s).state = .closeWait then
        (st.tcpTx link s (flFin ||| flAck) []).2 else st).view := by
    split_ifs
    · exact moves_tcpTx_fin link used
    · exact .refl _
  dsimp only
  generalize (if (st.socks s).state = .established ∨ (st.socks s).state = .closeWait then
    (st.tcpTx link s (flFin ||| flAck) []).2 else st) = st₁ at finned ⊢
  have parted := moves_unpair st₁ s
  have alone (partner : Slot) (mate : ((st₁.unpair s).view.cores s).mate = some partner) :=
    unpaired_unpair mate
  generalize st₁.unpair s = st₂ at parted alone ⊢
  have used₁ := (finned.keeps (by rintro _ ⟨peer, rfl⟩; exact not_false) used).1
  have used₂ := (parted.keeps (by rintro _ ⟨peer, rfl⟩; exact not_false) used₁).1
  have named : Moves (fun move => move = .name none) st₂.view
      (if st₂.softListen22 = some s then st₂.setSoft none else st₂).view := by
    split_ifs
    · exact .single rfl ⟨nofun, rfl⟩
    · exact .refl _
  have unnamed : (if st₂.softListen22 = some s then st₂.setSoft none else st₂).softListen22
      ≠ some s := by
    split_ifs with here
    · exact nofun
    · exact here
  have socks : (if st₂.softListen22 = some s then st₂.setSoft none else st₂).socks
      = st₂.socks := by
    split_ifs <;> rfl
  generalize (if st₂.softListen22 = some s then st₂.setSoft none else st₂) = st₃
    at named unnamed socks ⊢
  have cores : st₃.view.cores = st₂.view.cores := by
    unfold view
    rw [socks]
  have unhinted := (books_dropHints st₃ s).view
  generalize st₃.dropHints s = st₄ at unhinted ⊢
  have cleared : (Tcp.free (if ((st.socks s).acceptQ && !(st.socks s).listening) = true then
        (st₄.leaveQueue s).requeueAll (st.socks s).lport fun _ => true
      else if (st.socks s).listening = true then
        st₄.requeueAll (st.socks s).lport fun i => decide (i ≠ s)
      else st₄) s).view = st₃.view.set s .zero := by
    rw [view_free]
    split_ifs
    · rw [(books_requeueAll _ _ _).view, view_leaveQueue unhinted, set_set]
    · rw [(books_requeueAll _ _ _).view, unhinted]
    · rw [unhinted]
  have closed : Move.Makes st₃.view _ (.close s) :=
    ⟨by rw [cores]; exact used₂, unnamed, by rw [cores]; exact alone, cleared⟩
  refine (finned.mono ?_).trans ((parted.mono ?_).trans ((named.mono ?_).trans
    (.single (.close found) closed)))
  · rintro _ ⟨peer, rfl⟩
    exact .closeFin peer found
  · rintro _ ⟨partner, rfl⟩
    exact .part partner found
  · rintro _ rfl
    exact .closeName fd

theorem moves_shutRead (st : Tcp) (s : Slot) :
    Moves (fun move => move = .name none ∨ move = .shutRead s) st.view (st.shutRead s).view := by
  have mate (off : (st.view.cores s).listening = false) :
      (st.socks s).peer = (st.view.cores s).mate :=
    (if_neg (fun on => absurd (off.symm.trans on) false_ne_true)).symm
  have shut : (st.setSock s
      { st.socks s with shutRd := true, listening := false }).view = st.view.set s
        { st.view.cores s with listening := false, mate := (st.socks s).peer } := by
    rw [view_setSock]
    rfl
  unfold shutRead
  dsimp only
  split
  · have named : Move.Makes st.view (st.view.name none) (.name none) := ⟨nofun, rfl⟩
    refine (Moves.single (.inl rfl) named).trans
      (.single (.inr rfl) ⟨fun _ => nofun, (st.socks s).peer, mate, ?_⟩)
    rw [view_setSoft, shut]
    rfl
  · next asked =>
      exact .single (.inr rfl)
        ⟨fun on known => asked ⟨on, known⟩, (st.socks s).peer, mate, shut⟩

theorem moves_shutWrite (used : (st.socks s).used = true) (wasListening : Bool) :
    Moves (fun move => move = .shutWrite s ∨ ∃ peer, move = .loopFin s peer) st.view
      (st.shutWrite link s wasListening).view := by
  have shut : (st.setSock s { st.socks s with shutWr := true }).view = st.view := by
    rw [view_setSock]
    exact st.view.set_same s
  unfold shutWrite
  dsimp only
  split
  · next asked =>
      obtain ⟨-, -, opened⟩ := asked
      have used₁ : ((st.setSock s { st.socks s with shutWr := true }).socks s).used = true := by
        rw [setSock_self]
        exact used
      generalize st.setSock s { st.socks s with shutWr := true } = st₁ at *
      have finned := moves_tcpTx_fin link used₁
      rw [shut] at finned
      have stays := finned.invariant (fun v => (v.cores s).state = .established ∨
        (v.cores s).state = .closeWait) (by
          rintro _ v v' ⟨peer, rfl⟩ ⟨-, -, takes, rfl⟩ opened
          rw [set_cores]
          split_ifs with same
          · subst same
            rcases opened with here | here
            · refine .inr ?_
              rw [Core.afterFin, here]
              rfl
            · exact absurd (by rw [here]; rfl) takes
          · exact opened) (core_of_view shut s ▸ opened)
      have finned : Moves (fun move => move = .shutWrite s ∨ ∃ peer, move = .loopFin s peer)
          st.view (st₁.tcpTx link s (flFin ||| flAck) []).2.view :=
        finned.mono fun _ kind => .inr kind
      generalize (st₁.tcpTx link s (flFin ||| flAck) []).2 = st₂ at finned stays ⊢
      split_ifs with sent closing
      · refine finned.trans (.single (.inl rfl) ⟨stays, .finWait1, .inl rfl, ?_⟩)
        rw [view_setSock]
        rfl
      · refine finned.trans (.single (.inl rfl) ⟨stays, .lastAck, .inr rfl, ?_⟩)
        rw [view_setSock]
        rfl
      · exact finned
  · exact .of_eq shut

theorem moves_shutdown (st : Tcp) (fd how : Int) :
    Moves (TcpCall.Kinds link st (.shutdown fd how)) st.view
      (st.netTcpShutdown link fd how).2.view := by
  unfold netTcpShutdown
  split
  · exact .refl _
  next s found =>
  have used := (fdToSlot_eq_some.mp found).2
  split
  · exact .refl _
  have reading : Moves (fun move => move = .name none ∨ move = .shutRead s) st.view
      (if how = 0 ∨ how = 2 then st.shutRead s else st).view := by
    split_ifs
    · exact moves_shutRead st s
    · exact .refl _
  generalize (if how = 0 ∨ how = 2 then st.shutRead s else st) = st₁ at reading ⊢
  have used₁ := (reading.keeps (by rintro _ (rfl | rfl) <;> exact not_false) used).1
  have first : Moves (TcpCall.Kinds link st (.shutdown fd how)) st.view st₁.view := by
    apply reading.mono
    rintro _ (rfl | rfl)
    · exact .shutName fd how
    · exact .shutRead how found
  split_ifs
  · refine first.trans ((moves_shutWrite link used₁ _).mono ?_)
    rintro _ (rfl | ⟨peer, rfl⟩)
    · exact .shutWrite how found
    · exact .shutFin how peer found
  · exact first

end Tcp

end GreenJade.Net

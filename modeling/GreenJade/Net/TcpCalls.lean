import GreenJade.Net.TcpQueue

/-! Owns the calls of `net_tcp.c` on descriptors. They return what the source returns, or its
negative error. -/

namespace GreenJade.Net

namespace Tcp

/-! ### Sockets and listeners -/

variable (st : Tcp)

def netTcpSocket : Int × Tcp :=
  match st.allocSlot with
  | none => (-24, st)
  | some (s, st) => (slotToFd s, st.setSock s { st.socks s with state := .closed })

def netTcpBind (link : Link) (st : Tcp) (fd : Int) (port : U16) : Int × Tcp :=
  match st.fdToSlot fd with
  | none => (-9, st)
  | some s =>
    let st := (st.syncL2Identity link).holdLabIp link
    (0, st.setSock s { st.socks s with lport := port })

def clampBacklog (backlog : Int) : Nat := (min (max backlog 1) tcpBacklogMax).toNat

/-- A socket that listens; one that listened before keeps its count. -/
def asListener (sock : TcpSock) (backlog : Int) : TcpSock :=
  { sock with
    backlog := clampBacklog backlog, pending := if sock.listening then sock.pending else 0
    shutRd := false, listening := true, state := .listen, softMint := false }

/-- A listener takes the count and the hint of another. -/
def inherits (sock soft : TcpSock) : TcpSock :=
  { sock with pending := min 255 (sock.pending + soft.pending), peer := sock.peer.or soft.peer }

/-- A listener on port 22 takes over from the one that the stack made. -/
def takeOver (s : Slot) : Tcp :=
  match st.softListen22 with
  | none => st
  | some soft =>
    if (st.socks s).lport = tcpSoftSshPort ∧ soft ≠ s ∧ (st.socks soft).used ∧
        (st.socks soft).softMint then
      ((st.setSock s (inherits (st.socks s) (st.socks soft))).free soft).setSoft none
    else st

def netTcpListen (link : Link) (st : Tcp) (fd : Int) (backlog : Int) : Int × Tcp :=
  match st.fdToSlot fd with
  | none => (-9, st)
  | some s =>
    let sock := st.socks s
    let st := ((st.setSock s (asListener sock backlog)).takeOver s).requeue s sock.lport
    (0, if sock.lport = tcpSoftSshPort then (st.syncL2Identity link).holdLabIp link else st)

def connectPort (sock : TcpSock) : U16 := if sock.lport = 0 then 40000 else sock.lport

def pair (s ns : Slot) (port : U16) : Tcp :=
  let client := st.socks s
  let child := st.socks ns
  (st.setSock ns
    { child with
      state := .established, lport := port, rport := connectPort client, isLoop := true
      acceptQ := true, peer := some s, peerWnd := tcpWnd
      rcv := { child.rcv with nxt := client.snd.nxt } }).setSock s
    { client with
      isLoop := true, peer := some ns, rport := port, lport := connectPort client
      state := .established, peerWnd := tcpWnd
      rcv := { client.rcv with nxt := child.snd.nxt } }

def enqueue (ls ns : Slot) : Tcp :=
  let sock := st.socks ls
  st.setSock ls
    { sock with
      peer := some ns, pending := if sock.pending < 255 then sock.pending + 1 else sock.pending }

def atLeastOne (ls : Slot) : Tcp :=
  if (st.socks ls).backlog = 0 then st.setSock ls { st.socks ls with backlog := 1 } else st

def netTcpConnect (fd : Int) (port : U16) : Int × Tcp :=
  match st.fdToSlot fd with
  | none => (-9, st)
  | some s =>
    match firstSlot fun i =>
      decide (i ≠ s) && (st.socks i).used && (st.socks i).listening &&
        decide ((st.socks i).lport = port) with
    | none => (-113, st)
    | some ls =>
      let st := st.atLeastOne ls
      if (st.socks ls).backlog ≤ (st.socks ls).pending then (-11, st)
      else
        match st.allocSlot with
        | none => (-24, st)
        | some (ns, st) => (0, (st.pair s ns port).enqueue ls ns)

/-! ### Accepting -/

/-- The child that a scan of `net_tcp_accept` finds. -/
def scanRipe (port : U16) : Option Slot :=
  (firstSlot fun i => ripe (st.socks i) port && !(st.socks i).isLoop).or
    (firstSlot fun i => ripe (st.socks i) port)

/-- The child is taken: its listeners lose the hint, and all listeners of the port recount. -/
def takeChild (s child : Slot) : Int × Tcp :=
  let port := (st.socks s).lport
  let st := ((st.dropHints child).leaveQueue child).requeueAll port fun _ => true
  let sock := st.socks child
  (slotToFd child, st.setSock child
    { sock with
      lport := if sock.lport = 0 then (st.socks s).lport else sock.lport, softMint := false })

/-- No child is ready: a hint that still waits is kept. -/
def acceptAgain (s : Slot) (hint : Option Slot) : Int × Tcp :=
  let kept : Bool := hint.any fun h => (st.socks h).used && (st.socks h).acceptQ
  if kept then (-11, st.setPeer s hint)
  else if (st.socks s).lport = tcpSoftSshPort then
    (-11, st.requeue s (st.socks s).lport)
  else (-11, st)

/-- The scans of `net_tcp_accept`; on port 22 the second one follows a recount. -/
def acceptScan (link : Link) (st : Tcp) (s : Slot) (hint : Option Slot) : Int × Tcp :=
  match st.scanRipe (st.socks s).lport with
  | some child => (st.setPeer s (some child)).takeChild s child
  | none =>
    if (st.socks s).lport ≠ tcpSoftSshPort then st.acceptAgain s hint
    else
      let st := st.ensureListen22 link
      let st := st.requeueAll (st.socks s).lport fun _ => true
      match st.scanRipe (st.socks s).lport with
      | some child => (st.setPeer s (some child)).takeChild s child
      | none => st.acceptAgain s hint

def netTcpAccept (link : Link) (st : Tcp) (fd : Int) : Int × Tcp :=
  match st.fdToSlot fd with
  | none => (-9, st)
  | some s =>
    if (st.socks s).listening = false then (-22, st)
    else if (st.socks s).shutRd then (-22, st)
    else
      match (st.socks s).peer with
      | none => st.acceptScan link s none
      | some hint =>
        if (st.socks hint).used = false then (st.setPeer s none).acceptScan link s none
        else if (st.socks hint).acceptQ && decide ((st.socks hint).state = .established) then
          st.takeChild s hint
        else st.acceptScan link s (some hint)

/-! ### Readiness -/

def listenerReady (link : Link) (st : Tcp) (s : Slot) : Bool × Tcp :=
  let port := (st.socks s).lport
  if (st.socks s).shutRd then (false, st)
  else
    let st := if port = tcpSoftSshPort then st.acceptqReparent s port else st
    match st.listenRehookReady s with
    | (true, st) => (true, st)
    | (false, st) =>
      if port = tcpSoftSshPort then
        ((st.ensureListen22 link).requeueAll port fun _ => true).listenRehookReady s
      else (false, st)

abbrev pollIn : U32 := 0x01
abbrev pollOut : U32 := 0x04
abbrev pollErr : U32 := 0x08
abbrev pollHup : U32 := 0x10

def connectionMask (sock : TcpSock) : U32 :=
  (if 0 < sock.rcv.len ∨ sock.shutRd ∨ sock.state = .closeWait ∨ sock.state = .timeWait ∨
      sock.state = .lastAck ∨ sock.rstSeen then pollIn else 0) |||
  (if (sock.state = .established ∨ sock.state = .closeWait) ∧ sock.snd.finSent = false ∧
      sock.shutWr = false ∧ sock.rstSeen = false then pollOut else 0) |||
  (if sock.rstSeen then pollHup
    else if sock.state = .timeWait ∨ sock.state = .lastAck then pollHup
    else if sock.state = .closeWait ∧ sock.snd.finSent then pollHup
    else if sock.state = .finWait1 ∨ sock.state = .finWait2 then
      if sock.rcv.len = 0 then pollHup else 0
    else if sock.shutRd ∧ sock.shutWr then pollHup
    else 0)

def netTcpPollMask (link : Link) (st : Tcp) (fd : Int) (want : U32) : U32 × Tcp :=
  match st.fdToSlot fd with
  | none => (0, st)
  | some s =>
    let (got, st) :=
      if (st.socks s).listening then
        match st.listenerReady link s with
        | (ready, st) => (if ready then pollIn else 0, st)
      else (connectionMask (st.socks s), st)
    let got := got ||| if (st.socks s).rstSeen then pollErr else 0
    (if want = 0 then got else (got &&& (pollErr ||| pollHup)) ||| (got &&& want), st)

/-! ### Sending and receiving -/

/-- The length of the next segment of `net_tcp_send`, or `none` where the loop stops. -/
def sendChunk (sock : TcpSock) (left done : Nat) : Option Nat :=
  let chunk := min left tcpMss
  let inFlight := sock.snd.nxt - sock.snd.una
  let wnd : U32 := sock.peerWnd.setWidth 32
  if wnd < inFlight + BitVec.ofNat 32 chunk ∧ 0 < wnd then
    if inFlight < wnd then some (min (wnd - inFlight).toNat left)
    else if 0 < done then none
    else some 1
  else some chunk

/-- The loop of `net_tcp_send`; the fuel is the number of bytes, of which every turn sends one. -/
def sendLoop (link : Link) (s : Slot) : Nat → Tcp → List U8 → Nat → Int × Tcp
  | 0, st, _, done => (done, st)
  | turns + 1, st, left, done =>
    if left = [] then (done, st)
    else
      match sendChunk (st.socks s) left.length done with
      | none => (done, st)
      | some chunk =>
        match st.tcpTx link s (flAck ||| flPsh) (left.take chunk) with
        | (r, st) =>
          if r < 0 then
            let sock := st.socks s
            let st :=
              if sock.snd.rtxValid && !sock.snd.rtxSyn && !sock.isLoop then
                st.modSnd s fun snd => { snd with rtxBusy := true, rtxTick := link.now }
              else st
            (if 0 < done then done else -11, st)
          else
            let st :=
              if (st.socks s).isLoop then
                st.modSnd s fun snd => { snd with una := snd.nxt, rtxValid := false }
              else st
            let done := done + r.toNat
            if r.toNat < chunk then (done, st)
            else sendLoop link s turns st (left.drop r.toNat) done

def netTcpSend (link : Link) (st : Tcp) (fd : Int) (buf : List U8) : Int × Tcp :=
  match st.fdToSlot fd with
  | none => (-9, st)
  | some s =>
    let sock := st.socks s
    if buf = [] then (0, st)
    else if sock.shutWr || sock.rstSeen then (-32, st)
    else if sock.state ≠ .established ∧ sock.state ≠ .closeWait then (-32, st)
    else if sock.snd.finSent then (-32, st)
    else
      let left := buf.take tcpTxMax
      sendLoop link s left.length st left 0

/-- An empty ring is the end of the stream. -/
def atEof (sock : TcpSock) : Bool :=
  sock.shutRd || sock.rstSeen || decide (sock.state = .closeWait) ||
    decide (sock.state = .timeWait) || decide (sock.state = .lastAck) ||
    decide (sock.state = .closed)

/-- `net_tcp_recv`, with the bytes that it returns. -/
def netTcpRecv (fd : Int) (cb : Nat) : Int × List U8 × Tcp :=
  match st.fdToSlot fd with
  | none => (-9, [], st)
  | some s =>
    let sock := st.socks s
    if cb = 0 then (0, [], st)
    else if sock.rcv.len = 0 then (if atEof sock then 0 else -11, [], st)
    else
      let n := min (min sock.rcv.len cb) tcpRxMax
      let (bytes, rcv) := Receiver.pop n sock.rcv
      (n, bytes, st.setSock s { sock with rcv })

/-! ### Closing -/

/-- The partner of a socket that closes is left alone. -/
def unpair (s : Slot) : Tcp :=
  match (st.socks s).peer with
  | none => st
  | some peer => if (st.socks peer).peer = some s then st.setPeer peer none else st

def netTcpClose (link : Link) (st : Tcp) (fd : Int) : Int × Tcp :=
  match st.fdToSlot fd with
  | none => (-9, st)
  | some s =>
    let sock := st.socks s
    let st :=
      if sock.state = .established ∨ sock.state = .closeWait then
        (st.tcpTx link s (flFin ||| flAck) []).2
      else st
    let st := st.unpair s
    let st := if st.softListen22 = some s then st.setSoft none else st
    let st := st.dropHints s
    let st :=
      if sock.acceptQ && !sock.listening then
        (st.leaveQueue s).requeueAll sock.lport fun _ => true
      else if sock.listening then st.requeueAll sock.lport fun i => decide (i ≠ s)
      else st
    (0, st.free s)

/-- The reading side is shut; a listener stops. -/
def shutRead (s : Slot) : Tcp :=
  let listening := (st.socks s).listening
  let st := st.setSock s { st.socks s with shutRd := true, listening := false }
  if listening ∧ st.softListen22 = some s then st.setSoft none else st

/-- The writing side is shut: a FIN is sent once. -/
def shutWrite (link : Link) (st : Tcp) (s : Slot) (wasListening : Bool) : Tcp :=
  let st := st.setSock s { st.socks s with shutWr := true }
  let state := (st.socks s).state
  if wasListening = false ∧ (st.socks s).snd.finSent = false ∧
      (state = .established ∨ state = .closeWait) then
    let st := (st.tcpTx link s (flFin ||| flAck) []).2
    if (st.socks s).snd.finSent ∨ (st.socks s).isLoop = false then
      st.setSock s
        { st.socks s with state := if state = .established then .finWait1 else .lastAck }
    else st
  else st

def netTcpShutdown (link : Link) (st : Tcp) (fd how : Int) : Int × Tcp :=
  match st.fdToSlot fd with
  | none => (-9, st)
  | some s =>
    if how < 0 ∨ 2 < how then (-22, st)
    else
      let wasListening := (st.socks s).listening
      let st := if how = 0 ∨ how = 2 then st.shutRead s else st
      (0, if how = 1 ∨ how = 2 then st.shutWrite link s wasListening else st)

end Tcp

end GreenJade.Net

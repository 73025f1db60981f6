import GreenJade.Net.TcpInput

/-! Owns `net_tcp_poll`: sockets in TIME_WAIT are cleared, and armed segments are sent again, in up
to eight passes over the table. -/

namespace GreenJade.Net

/-! ### What is armed -/

variable (sock : TcpSock)

/-- An armed SYN-ACK of a child. -/
def TcpSock.armsSynAck : Bool :=
  sock.snd.rtxSyn && decide (sock.state = .synRcvd)

/-- Armed data of an established connection that are not acknowledged. -/
def TcpSock.armsData : Bool :=
  !sock.snd.rtxSyn && decide (sock.state = .established) && decide (sock.snd.una < sock.snd.nxt)

def TcpSock.on22 : Bool := decide (sock.lport = tcpSoftSshPort)

/-- Before the passes: what never landed, or failed, is to be tried at once. -/
def TcpSock.busyFirst : Bool :=
  sock.used && !sock.isLoop &&
    ((sock.acceptQ && !sock.listening && sock.snd.rtxValid && sock.armsSynAck &&
        sock.snd.needBusy) ||
      (sock.on22 && sock.snd.rtxValid && sock.armsData && sock.snd.needBusy))

/-- Before each pass: the same on port 22, and for a FIN. -/
def TcpSock.busyAgain : Bool :=
  sock.used && !sock.isLoop && sock.snd.rtxValid && sock.on22 && sock.snd.needBusy &&
    (sock.armsSynAck || sock.armsData ||
      (!sock.snd.rtxSyn && decide (sock.snd.rtxData = []) && sock.snd.finSent))

/-- After a pass: port 22 still waits for the link. -/
def TcpSock.still22 : Bool :=
  sock.used && !sock.isLoop && sock.snd.rtxValid && sock.on22 &&
    (sock.snd.rtxBusy || decide (sock.snd.rtxBusyN ≠ 0) ||
      (sock.armsSynAck && decide (sock.snd.rtxCount = 0)) ||
      (sock.armsData && decide (sock.snd.rtxCount = 0)))

/-- The time between two attempts; 0 for what is to be tried at once. -/
def TcpSock.rtxInterval : U32 :=
  if sock.snd.rtxBusy then 0
  else if sock.on22 ∧ sock.snd.needBusy ∧ (sock.armsSynAck ∨ sock.armsData) then 0
  else if sock.on22 ∧ (sock.armsSynAck ∨ sock.armsData) then
    if tcpRtxMs / tcpRtxPost22Div = 0 then 1 else tcpRtxMs / tcpRtxPost22Div
  else tcpRtxMs

/-- The phase of a pass that a socket belongs to: SYN-ACKs on port 22, the rest of port 22, the
rest. -/
def TcpSock.phase : Nat :=
  if sock.on22 ∧ sock.armsSynAck then 0 else if sock.on22 then 1 else 2

def Sender.resent (snd : Sender) (now : U32) (advance : U32) : Sender :=
  { snd with
    nxt := if snd.nxt = snd.rtxSeq then snd.nxt + advance else snd.nxt
    rtxTick := now, rtxCount := snd.rtxCount + 1, rtxBusy := false, rtxBusyN := 0 }

def Sender.missed (snd : Sender) (now : U32) : Sender :=
  Sender.failed { snd with rtxTick := now, rtxBusy := true }

namespace Tcp

/-! ### One slot -/

/-- A SYN or data are sent again; `true` where the link is still busy. -/
def retransmit (link : Link) (st : Tcp) (s : Slot) (flags : U8) (pay : List U8) (advance : U32) :
    Bool × Tcp :=
  let seq := (st.socks s).snd.rtxSeq
  match st.tcpTxRaw link s flags seq pay with
  | (r, st) =>
    if 0 ≤ r then (false, st.modSnd s fun snd => snd.resent link.now advance)
    else
      let st := st.modSnd s fun snd => snd.missed link.now
      if (st.socks s).on22 then
        match busyShots link s flags seq pay Sender.failed tcpRtxBusyShots st with
        | (r, st) =>
          if 0 ≤ r then (false, st.modSnd s fun snd => snd.resent link.now advance)
          else (true, st)
      else (true, st)

def retransmitFin (link : Link) (st : Tcp) (s : Slot) : Bool × Tcp :=
  let seq := (st.socks s).snd.rtxSeq
  let (r, st) := st.tcpTxRaw link s (flFin ||| flAck) seq []
  let (r, st) :=
    if r < 0 ∧ (st.socks s).on22 then
      busyShots link s (flFin ||| flAck) seq [] Sender.failed tcpRtxBusyShots st
    else (r, st)
  if 0 ≤ r then
    (false, st.modSnd s fun snd =>
      { snd with
        rtxTick := link.now, rtxCount := snd.rtxCount + 1, rtxBusy := false, rtxBusyN := 0
        finSent := true })
  else (true, st.modSnd s fun snd => snd.missed link.now)

def resend (link : Link) (st : Tcp) (s : Slot) : Bool × Tcp :=
  let sock := st.socks s
  if sock.snd.rtxSyn then
    st.retransmit link s (if sock.state = .synRcvd then flSyn ||| flAck else flSyn) [] 1
  else if sock.snd.rtxData = [] then st.retransmitFin link s
  else
    st.retransmit link s (flAck ||| flPsh) sock.snd.rtxData
      (BitVec.ofNat 32 sock.snd.rtxData.length)

/-- The attempts are used up: a half-open child goes, other connections stop sending again. -/
def giveUp (st : Tcp) (s : Slot) : Tcp :=
  if (st.socks s).armsSynAck then st.dropSynRcvd s
  else st.modSnd s fun snd => { snd with rtxValid := false, rtxSyn := false, rtxBusy := false }

/-- A socket in TIME_WAIT is cleared after a second. -/
def reaps (link : Link) (sock : TcpSock) : Bool :=
  sock.used && decide (sock.state = .timeWait) && decide (tcpTwMs ≤ link.now - sock.twTick)

/-- One slot in a phase of a pass; `true` where the link was busy. -/
def pollSlot (link : Link) (pass phase : Nat) (st : Tcp) (s : Slot) : Bool × Tcp :=
  let sock := st.socks s
  if sock.used = false then (false, st)
  else if sock.state = .timeWait then
    (false, if pass = 0 ∧ phase = 0 ∧ reaps link sock then st.free s else st)
  else if sock.snd.rtxValid = false ∨ sock.isLoop then (false, st)
  else if sock.phase ≠ phase then (false, st)
  else if pass ≠ 0 ∧ sock.snd.rtxBusy = false then (false, st)
  else if tcpRtxMax ≤ sock.snd.rtxCount then (false, st.giveUp s)
  else
    let interval := sock.rtxInterval
    let st :=
      if interval = 0 then st.modSnd s fun snd => { snd with rtxBusy := true } else st
    if interval ≠ 0 ∧ link.now - sock.snd.rtxTick < interval then (false, st)
    else st.resend link s

/-! ### Passes -/

/-- All sockets that pass a test are to be tried at once. -/
def markBusy (st : Tcp) (test : TcpSock → Bool) : Tcp :=
  (List.finRange tcpMax).foldl (fun st i =>
    if test (st.socks i) then st.modSnd i fun snd => { snd with rtxBusy := true } else st) st

/-- The slots in the order of a pass: odd passes go backwards. -/
def passOrder (pass : Nat) : List Slot :=
  if pass % 2 = 1 then (List.finRange tcpMax).reverse else List.finRange tcpMax

def pollPhase (link : Link) (pass phase : Nat) (busy : Bool) (st : Tcp) : Bool × Tcp :=
  (passOrder pass).foldl (fun (busy, st) s =>
    match pollSlot link pass phase st s with
    | (left, st) => (busy || left, st)) (busy, st)

/-- One pass; `true` where the link was busy. -/
def pollPass (link : Link) (pass : Nat) (st : Tcp) : Bool × Tcp :=
  [0, 1, 2].foldl (fun (busy, st) phase => pollPhase link pass phase busy st)
    (false, st.markBusy TcpSock.busyAgain)

/-- Passes go on while the link is busy or port 22 waits for it. -/
def pollPasses (link : Link) : Nat → Nat → Tcp → Tcp
  | 0, _, st => st
  | left + 1, pass, st =>
    match pollPass link pass st with
    | (busy, st) =>
      if busy || ((List.finRange tcpMax).any fun i => (st.socks i).still22) then
        pollPasses link left (pass + 1) st
      else st

def netTcpPoll (link : Link) (st : Tcp) : Tcp :=
  let st := (st.ensureListen22 link).requeueAll tcpSoftSshPort fun _ => true
  let st := (st.markBusy TcpSock.busyFirst).holdLabIp link
  let st := pollPasses link tcpRtxPasses 0 st
  let st := ((st.ensureListen22 link).syncL2Identity link).holdLabIp link
  st.requeueAll tcpSoftSshPort fun _ => true

def netTcpInit (link : Link) : Tcp := (cleared.syncL2Identity link).ensureListen22 link

end Tcp

end GreenJade.Net

import GreenJade.Net.TcpCalls

/-! Owns `net_tcp_input`: the checks on a frame, the socket and the listener that it is for, and
what a reset, a SYN, an acknowledgement, data and a FIN do. -/

namespace GreenJade.Net

/-! ### Frames -/

structure Segment where
  smac : Mac
  sip : Ip4
  dip : Ip4
  sport : U16
  dport : U16
  seq : U32
  ack : U32
  flags : U8
  wnd : U16
  pay : List U8
  deriving DecidableEq

def byteAt (frame : List U8) (i : Nat) : U8 := (frame[i]?).getD 0

def word16 (frame : List U8) (i : Nat) : U16 :=
  (byteAt frame i).setWidth 16 <<< 8 ||| (byteAt frame (i + 1)).setWidth 16

def word32 (frame : List U8) (i : Nat) : U32 :=
  (word16 frame i).setWidth 32 <<< 16 ||| (word16 frame (i + 2)).setWidth 32

def word48 (frame : List U8) (i : Nat) : Mac :=
  (word16 frame i).setWidth 48 <<< 32 ||| (word32 frame (i + 2)).setWidth 48

/-- The frame is IPv4 with TCP, and long enough for both headers without options. -/
def isTcpFrame (frame : List U8) : Bool :=
  decide (14 + 20 + 20 ≤ frame.length) && decide (byteAt frame 12 = 0x08) &&
    decide (byteAt frame 13 = 0x00) && decide (byteAt frame 14 >>> 4 = 4) &&
    decide (byteAt frame 23 = 6)

def ipHeaderLength (frame : List U8) : Nat := ((byteAt frame 14) &&& 0x0f).toNat * 4

/-- The segment of a frame that passes the checks on its lengths. The payload ends where the IPv4
total length says, not where the frame ends. -/
def parseSegment (frame : List U8) : Option Segment :=
  let ihl := ipHeaderLength frame
  let total := (word16 frame 16).toNat
  if ihl < 20 ∨ frame.length < 14 + ihl + 20 then none
  else if total < ihl + 20 ∨ frame.length < 14 + total ∨ 1500 < total then none
  else
    let tcp := 14 + ihl
    let doff := (byteAt frame (tcp + 12) >>> 4).toNat * 4
    if doff < 20 ∨ total < ihl + doff then none
    else
      some
        { smac := word48 frame 6, sip := word32 frame 26, dip := word32 frame 30
          sport := word16 frame tcp, dport := word16 frame (tcp + 2)
          seq := word32 frame (tcp + 4), ack := word32 frame (tcp + 8)
          flags := byteAt frame (tcp + 13), wnd := word16 frame (tcp + 14)
          pay := (frame.drop (tcp + doff)).take (total - ihl - doff) }

namespace Segment

def hasFin (seg : Segment) : Bool := decide (seg.flags &&& flFin ≠ 0)
def hasSyn (seg : Segment) : Bool := decide (seg.flags &&& flSyn ≠ 0)
def hasRst (seg : Segment) : Bool := decide (seg.flags &&& flRst ≠ 0)
def hasAck (seg : Segment) : Bool := decide (seg.flags &&& flAck ≠ 0)

end Segment

/-! ### Acknowledgements -/

/-- The acknowledgement covers our SYN. -/
def Sender.acksSyn (snd : Sender) (ack : U32) : Bool :=
  (decide (ack = snd.nxt) && decide (snd.nxt ≠ snd.una)) ||
    (snd.rtxValid && snd.rtxSyn && decide (ack = snd.rtxSeq + 1))

/-- The sender after the handshake. -/
def Sender.synAcked (snd : Sender) (ack : U32) : Sender :=
  { snd with
    nxt :=
      if ack = snd.nxt ∧ snd.nxt ≠ snd.una then snd.nxt
      else if snd.nxt = snd.rtxSeq then ack else snd.nxt
    una := ack, rtxSyn := false, rtxValid := false, rtxBusy := false, rtxBusyN := 0 }

/-- The sender after an acknowledgement of something new. -/
def Sender.acked (snd : Sender) (ack : U32) : Sender :=
  let snd := { snd with una := ack }
  let snd :=
    if snd.rtxValid ∧ snd.rtxSyn ∧ snd.rtxSeq + 1 ≤ ack then
      { snd with rtxValid := false, rtxSyn := false }
    else snd
  if snd.rtxValid ∧ snd.rtxSyn = false then
    if snd.rtxData = [] then
      if snd.rtxSeq < ack then { snd with rtxValid := false } else snd
    else if snd.rtxSeq + BitVec.ofNat 32 snd.rtxData.length ≤ ack then
      { snd with rtxValid := false }
    else snd
  else snd

namespace Tcp

/-! ### Demultiplexing -/

/-- The Ethernet connection of a segment. -/
def ownsSegment (sock : TcpSock) (seg : Segment) : Bool :=
  sock.used && !sock.listening && !sock.isLoop && decide (sock.lport = seg.dport) &&
    decide (sock.rport = seg.sport) && decide (sock.rip = seg.sip)

def findConnection (st : Tcp) (seg : Segment) : Option Slot :=
  firstSlot fun i => ownsSegment (st.socks i) seg

/-- The listener for a segment: first one of a program, then any that is not on loopback, then
any. -/
def findListener (st : Tcp) (port : U16) : Option Slot :=
  ((firstSlot fun i =>
      listens (st.socks i) port && !(st.socks i).isLoop && !(st.socks i).softMint).or
    (firstSlot fun i => listens (st.socks i) port && !(st.socks i).isLoop)).or
    (firstSlot fun i => listens (st.socks i) port)

/-- The listener that the second scan for a SYN to port 22 finds. -/
def findListener22 (st : Tcp) (port : U16) : Option Slot :=
  (firstSlot fun i =>
      listens (st.socks i) port && !(st.socks i).isLoop && !(st.socks i).softMint).or
    (firstSlot fun i => listens (st.socks i) port)

/-- The listener on port 22 is there before a segment for it is looked at. -/
def ensureFor (link : Link) (st : Tcp) (seg : Segment) : Tcp :=
  let st := st.ensureListen22 link
  if link.backend = .rtl8168 ∨ seg.dip = tcpLabIp then st.forceLabIp else st

/-! ### Resets and SYNs -/

def inputRst (st : Tcp) (cs : Slot) : Tcp :=
  let sock := st.socks cs
  if sock.acceptQ ∨ sock.state = .synRcvd then st.dropSynRcvd cs
  else
    st.setSock cs
      { sock with
        rstSeen := true
        snd := { sock.snd with rtxValid := false, rtxSyn := false, rtxBusy := false }
        state :=
          if sock.state = .established ∨ sock.state = .closeWait ∨ sock.state = .finWait1 ∨
            sock.state = .finWait2 then .closed
          else sock.state }

/-- A SYN that comes again is answered again. -/
def inputDupSyn (link : Link) (st : Tcp) (cs : Slot) (dport : U16) : Tcp :=
  let snd := (st.socks cs).snd
  let seq := if snd.rtxSyn then snd.rtxSeq else snd.una
  let (r, st) := st.tcpTxRaw link cs (flSyn ||| flAck) seq []
  let (r, st) :=
    if r < 0 ∧ dport = tcpSoftSshPort then
      busyShots link cs (flSyn ||| flAck) seq [] id tcpRtxBusyShots st
    else (r, st)
  st.modSnd cs fun snd =>
    let snd :=
      { snd with
        rtxSeq := seq, rtxData := [], rtxTick := link.now, rtxValid := true, rtxSyn := true
        rtxBusy := decide (r < 0) }
    if r < 0 then snd.failed else { snd with rtxBusyN := 0 }

/-- A listener forgets a hint that no longer stands for a child, with one child less. -/
def reclaimHint (st : Tcp) (ls : Slot) : Tcp :=
  match (st.socks ls).peer with
  | none => st
  | some old =>
    let sock := st.socks old
    if sock.used && sock.acceptQ &&
        (decide (sock.state = .synRcvd) || decide (sock.state = .established) ||
          decide (sock.state = .closeWait)) then st
    else
      st.setSock ls
        { st.socks ls with peer := none, pending := (st.socks ls).pending - 1 }

def synChild (sock : TcpSock) (seg : Segment) : TcpSock :=
  { sock with
    state := .synRcvd, lport := seg.dport, rport := seg.sport, rip := seg.sip, rmac := seg.smac
    rcv := { sock.rcv with nxt := seg.seq + 1 }
    peerWnd := if seg.wnd = 0 then tcpWnd else seg.wnd, isLoop := false, acceptQ := true
    peer := none }

/-- The SYN-ACK of a child on port 22 is tried again. -/
def shootSynAck (link : Link) (st : Tcp) (ns : Slot) : Tcp :=
  let snd := (st.socks ns).snd
  let seq := if snd.rtxSyn then snd.rtxSeq else snd.nxt
  match busyShots link ns (flSyn ||| flAck) seq []
      (fun snd => { snd.failed with rtxBusy := true }) tcpRtxBusyShots st with
  | (r, st) =>
    if 0 ≤ r then
      (st.modSnd ns fun snd =>
        { snd with
          nxt := if snd.nxt = seq then snd.nxt + 1 else snd.nxt
          rtxTick := link.now }).markLanded ns
    else st

def inputSyn (link : Link) (st : Tcp) (ls : Slot) (seg : Segment) : Tcp :=
  let st := st.atLeastOne ls
  if (st.socks ls).backlog ≤ (st.socks ls).pending then st
  else
    let st := st.reclaimHint ls
    match st.allocSlot with
    | none => st
    | some (ns, st) =>
      let st := st.setSock ns (synChild (st.socks ns) seg)
      let (r, st) := st.tcpTx link ns (flSyn ||| flAck) []
      let st :=
        if r < 0 ∧ seg.dport = tcpSoftSshPort then st.shootSynAck link ns else st
      st.enqueue ls ns

/-! ### Segments of a connection -/

/-- The handshake: the child is established, and the listeners of its port look again. -/
def inputHandshake (st : Tcp) (cs : Slot) (seg : Segment) : Tcp :=
  let sock := st.socks cs
  if sock.state = .synRcvd ∧ seg.hasAck ∧ sock.snd.acksSyn seg.ack then
    let st := st.setSock cs
      { sock with state := .established, snd := sock.snd.synAcked seg.ack }
    if sock.acceptQ then st.requeueAll sock.lport fun _ => true else st
  else st

/-- An acknowledgement; `false` where the connection is over and its slot cleared. -/
def inputAck (st : Tcp) (cs : Slot) (seg : Segment) : Bool × Tcp :=
  let sock := st.socks cs
  if seg.hasAck ∧ sock.snd.una < seg.ack ∧ seg.ack ≤ sock.snd.nxt then
    let st := st.modSnd cs fun snd => snd.acked seg.ack
    if sock.snd.finSent ∧ sock.snd.nxt ≤ seg.ack then
      if sock.state = .finWait1 then
        (true, st.setSock cs { st.socks cs with state := .finWait2 })
      else if sock.state = .lastAck then (false, st.free cs)
      else (true, st)
    else (true, st)
  else (true, st)

/-- Data in order go into the ring, at most a segment of the largest size, and are acknowledged. -/
def inputData (link : Link) (st : Tcp) (cs : Slot) (seg : Segment) : Tcp :=
  let sock := st.socks cs
  if seg.pay ≠ [] ∧ seg.seq = sock.rcv.nxt ∧
      (sock.state = .established ∨ sock.state = .synRcvd) then
    match st.pushRx cs (seg.pay.take tcpMss) with
    | (got, st) =>
      if 0 < got then
        let sock := st.socks cs
        let st := st.setSock cs
          { sock with rcv := { sock.rcv with nxt := sock.rcv.nxt + BitVec.ofNat 32 got.toNat } }
        (st.tcpTx link cs flAck []).2
      else st
  else st

/-- A FIN in order, or at the end of what has come. -/
def inputFin (link : Link) (st : Tcp) (cs : Slot) (seg : Segment) : Tcp :=
  let sock := st.socks cs
  if seg.hasFin ∧
      (seg.seq = sock.rcv.nxt ∨ seg.seq + BitVec.ofNat 32 seg.pay.length = sock.rcv.nxt) then
    let sock := { sock with rcv := { sock.rcv with nxt := sock.rcv.nxt + 1 } }
    match sock.state with
    | .established | .synRcvd =>
      ((st.setSock cs { sock with state := .closeWait }).tcpTx link cs flAck []).2
    | .finWait1 =>
      ((st.setSock cs { sock with state := .timeWait, twTick := link.now }).tcpTx link cs
        (flAck ||| flFin) []).2
    | .finWait2 =>
      ((st.setSock cs { sock with state := .timeWait, twTick := link.now }).tcpTx link cs
        flAck []).2
    | _ => st.setSock cs sock
  else st

/-- A segment of a connection that is no reset and no SYN. -/
def inputConnection (link : Link) (st : Tcp) (cs : Slot) (seg : Segment) : Tcp :=
  let st := if seg.wnd = 0 then st else st.setSock cs { st.socks cs with peerWnd := seg.wnd }
  let st := st.inputHandshake cs seg
  match st.inputAck cs seg with
  | (false, st) => st
  | (true, st) =>
    match (st.socks cs).state with
    | .established | .synRcvd | .finWait1 | .finWait2 =>
      (st.inputData link cs seg).inputFin link cs seg
    | _ => st

/-! ### The whole call -/

def inputSegment (link : Link) (st : Tcp) (seg : Segment) : Tcp :=
  let st := if seg.dport = tcpSoftSshPort then st.ensureFor link seg else st
  let cs := st.findConnection seg
  let ls := st.findListener seg.dport
  let again : Bool :=
    ls.isNone && seg.hasSyn && !seg.hasAck && decide (seg.dport = tcpSoftSshPort)
  let st := if again then st.ensureFor link seg else st
  let ls := if again then st.findListener22 seg.dport else ls
  if seg.hasRst then
    match cs with
    | none => st
    | some cs => st.inputRst cs
  else
    match cs with
    | none =>
      match ls with
      | none => st
      | some ls => if seg.hasSyn && !seg.hasAck then st.inputSyn link ls seg else st
    | some cs =>
      if seg.hasSyn && !seg.hasAck && decide ((st.socks cs).state = .synRcvd) then
        st.inputDupSyn link cs seg.dport
      else st.inputConnection link cs seg

def netTcpInput (link : Link) (st : Tcp) (frame : List U8) : Tcp :=
  if isTcpFrame frame then
    match (st.syncL2Identity link).destIsOurs link (word32 frame 30) with
    | (false, st) => st
    | (true, st) =>
      match parseSegment frame with
      | none => st
      | some seg => st.inputSegment link seg
  else st

end Tcp

end GreenJade.Net

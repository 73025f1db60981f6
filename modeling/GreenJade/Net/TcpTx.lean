import GreenJade.Net.TcpTable

/-! Owns how `net_tcp.c` sends: the bytes of a segment, `tcp_tx_raw`, which gives a segment to the
link layer or puts its payload into the ring of the loopback peer, and `tcp_tx`, which keeps the
retransmit record. -/

namespace GreenJade.Net

/-! ### Bytes of a segment -/

abbrev flFin : U8 := 0x01
abbrev flSyn : U8 := 0x02
abbrev flRst : U8 := 0x04
abbrev flPsh : U8 := 0x08
abbrev flAck : U8 := 0x10

def be16 (x : U16) : List U8 := [x.extractLsb' 8 8, x.extractLsb' 0 8]

def be32 (x : U32) : List U8 := be16 (x.extractLsb' 16 16) ++ be16 (x.extractLsb' 0 16)

def be48 (x : Mac) : List U8 := be16 (x.extractLsb' 32 16) ++ be32 (x.extractLsb' 0 32)

/-- The sum of 16-bit words, a last odd byte as the high one. -/
def wordSum : List U8 → U32
  | [] => 0
  | [high] => high.setWidth 32 <<< 8
  | high :: low :: rest => (high.setWidth 32 <<< 8 ||| low.setWidth 32) + wordSum rest

/-- The carries are added until none is left, which takes two turns. -/
def foldCarries : Nat → U32 → U32
  | 0, sum => sum
  | turns + 1, sum =>
    if sum >>> 16 = 0 then sum else foldCarries turns ((sum &&& 0xffff) + (sum >>> 16))

def ipCksum (bytes : List U8) : U16 := (~~~foldCarries 3 (wordSum bytes)).setWidth 16

/-- `tcp_cksum`, with the addresses of the pseudo header. -/
def tcpCksum (src dst : Ip4) (tcp : List U8) : U16 :=
  let pseudo := be32 src ++ be32 dst ++ [0, 6] ++ be16 (BitVec.ofNat 16 tcp.length)
  (~~~foldCarries 3 (wordSum pseudo + wordSum tcp)).setWidth 16

/-- The window of a socket: the free room of its ring. -/
def TcpSock.window (sock : TcpSock) : U16 :=
  let wnd := BitVec.ofNat 16 (tcpRxMax - sock.rcv.len)
  if tcpWnd < wnd then tcpWnd else wnd

def ipHeader (st : Tcp) (sock : TcpSock) (cbTcp : Nat) (cksum : U16) : List U8 :=
  [0x45, 0] ++ be16 (BitVec.ofNat 16 (20 + cbTcp)) ++ be16 st.ipId ++ [0x40, 0, 64, 6] ++
    be16 cksum ++ be32 st.ourIp ++ be32 sock.rip

def tcpSegment (sock : TcpSock) (flags : U8) (seq : U32) (cksum : U16) (pay : List U8) : List U8 :=
  be16 sock.lport ++ be16 sock.rport ++ be32 seq ++ be32 sock.rcv.nxt ++ [0x50, flags] ++
    be16 sock.window ++ be16 cksum ++ [0, 0] ++ pay

def segmentFrame (st : Tcp) (sock : TcpSock) (flags : U8) (seq : U32) (pay : List U8) : List U8 :=
  let cbTcp := 20 + pay.length
  let tcp := tcpSegment sock flags seq
    (tcpCksum st.ourIp sock.rip (tcpSegment sock flags seq 0 pay)) pay
  let ip := ipHeader st sock cbTcp (ipCksum (ipHeader st sock cbTcp 0))
  let frame := be48 sock.rmac ++ be48 st.ourMac ++ [0x08, 0x00] ++ ip ++ tcp
  frame ++ List.replicate (60 - frame.length) 0

namespace Tcp

/-! ### One segment -/

def loopFin (link : Link) (sock : TcpSock) : TcpSock :=
  match sock.state with
  | .established =>
    { sock with rcv := { sock.rcv with nxt := sock.rcv.nxt + 1 }, state := .closeWait }
  | .finWait1 | .finWait2 =>
    { sock with
      rcv := { sock.rcv with nxt := sock.rcv.nxt + 1 }, state := .timeWait, twTick := link.now }
  | _ => sock

/-- What the flags of a loopback segment do to the peer. -/
def loopFlags (link : Link) (flags : U8) (seq : U32) (sock : TcpSock) : TcpSock :=
  let sock :=
    if flags &&& flSyn ≠ 0 then { sock with rcv := { sock.rcv with nxt := seq + 1 } } else sock
  if flags &&& flFin ≠ 0 then loopFin link sock else sock

/-- `tcp_tx_raw` over loopback. -/
def txLoop (link : Link) (st : Tcp) (s : Slot) (flags : U8) (seq : U32) (pay : List U8) :
    Int × Tcp :=
  match (st.socks s).peer with
  | none => (-1, st)
  | some peer =>
    if (st.socks peer).used = false then (-1, st)
    else
      let pay := pay.take tcpMss
      let (got, st) := if pay = [] then (0, st) else st.pushRx peer pay
      if got < 0 then (-1, st)
      else if got ≠ pay.length then (if 0 < got then got else -11, st)
      else (pay.length, st.setSock peer (loopFlags link flags seq (st.socks peer)))

/-- `tcp_tx_raw` over the link layer. -/
def txEth (link : Link) (st : Tcp) (s : Slot) (flags : U8) (seq : U32) (pay : List U8) :
    Int × Tcp :=
  let st := st.syncL2Identity link
  if link.ready = false ∧ link.virtioReady = false then (-1, st)
  else
    let pay := pay.take tcpMss
    let st := { st with ipId := st.ipId + 1 }
    let taken := link.line st.sent.length
    let st := { st with sent := (segmentFrame st (st.socks s) flags seq pay, taken) :: st.sent }
    if taken then (pay.length, st) else (-1, st)

def tcpTxRaw (link : Link) (st : Tcp) (s : Slot) (flags : U8) (seq : U32) (pay : List U8) :
    Int × Tcp :=
  if (st.socks s).used = false then (-1, st)
  else if (st.socks s).isLoop then st.txLoop link s flags seq pay
  else st.txEth link s flags seq pay

/-! ### The retransmit record -/

end Tcp

def Sender.failed (snd : Sender) : Sender :=
  if snd.rtxBusyN < 255 then { snd with rtxBusyN := snd.rtxBusyN + 1 } else snd

/-- The fields that `tcp_rtx_mark_landed` sets. -/
def Sender.landed (snd : Sender) : Sender :=
  { snd with
    rtxCount := if snd.rtxCount = 0 then 1 else snd.rtxCount, rtxBusy := false, rtxBusyN := 0 }

def Sender.needBusy (snd : Sender) : Bool :=
  snd.rtxValid && (snd.rtxBusy || decide (snd.rtxBusyN ≠ 0) || decide (snd.rtxCount = 0))

/-- A segment without payload is armed: a SYN or a FIN. -/
def Sender.armBare (snd : Sender) (syn : Bool) (seq tick : U32) : Sender :=
  { snd with
    rtxSeq := seq, rtxData := [], rtxTick := tick, rtxCount := 0, rtxValid := true
    rtxSyn := syn }

/-- Data that the link did not take are armed, and count as sent. -/
def Sender.armFailed (snd : Sender) (seq tick : U32) (data : List U8) : Sender :=
  Sender.failed
    { snd with
      rtxData := data, rtxSeq := seq, rtxTick := tick
      rtxCount := if snd.rtxValid then snd.rtxCount else 0, rtxValid := true, rtxSyn := false
      rtxBusy := true, nxt := seq + BitVec.ofNat 32 data.length }

/-- Data that were sent are armed. -/
def Sender.armSent (snd : Sender) (seq tick : U32) (data : List U8) : Sender :=
  { snd with
    rtxData := data, rtxSeq := seq, rtxTick := tick, rtxCount := 0, rtxValid := true
    rtxSyn := false, nxt := snd.nxt + BitVec.ofNat 32 data.length }

namespace Tcp

def markLanded (st : Tcp) (s : Slot) : Tcp :=
  if (st.socks s).used then st.modSnd s Sender.landed else st

/-- Up to `TCP_RTX_BUSY_SHOTS` further attempts; `miss` is what a failed one leaves behind. -/
def busyShots (link : Link) (s : Slot) (flags : U8) (seq : U32) (pay : List U8)
    (miss : Sender → Sender) : Nat → Tcp → Int × Tcp
  | 0, st => (-1, st)
  | shots + 1, st =>
    match st.tcpTxRaw link s flags seq pay with
    | (r, st) =>
      if 0 ≤ r then (r, st)
      else busyShots link s flags seq pay miss shots (st.modSnd s miss)

/-- The shots of an armed segment on port 22; a shot that lands is noted. -/
def shootArmed (link : Link) (st : Tcp) (s : Slot) (flags : U8) (seq : U32) (pay : List U8) :
    Bool × Tcp :=
  match busyShots link s flags seq pay Sender.failed tcpRtxBusyShots st with
  | (r, st) =>
    if 0 ≤ r then
      (true, (st.modSnd s fun snd => { snd with rtxTick := link.now }).markLanded s)
    else (false, st)

/-- Data are already armed, so that `tcp_tx` looks whether to hold new data back. -/
def armedData (sock : TcpSock) : Bool :=
  sock.snd.rtxValid && !sock.snd.rtxSyn && decide (sock.snd.rtxData ≠ []) &&
    (decide (sock.snd.una < sock.snd.nxt) ||
      (decide (sock.lport = tcpSoftSshPort) &&
        (sock.snd.rtxBusy || decide (sock.snd.nxt = sock.snd.rtxSeq) ||
          decide (sock.snd.rtxData ≠ []) || decide (sock.snd.rtxBusyN ≠ 0) ||
          decide (sock.snd.rtxCount ≠ 0))))

/-- New data are held back. -/
def holdsBack (sock : TcpSock) : Bool :=
  decide (sock.lport = tcpSoftSshPort) || sock.snd.rtxBusy ||
    decide (sock.snd.nxt = sock.snd.rtxSeq) ||
    (decide (sock.snd.una < sock.snd.nxt) && decide (sock.snd.rtxData.length ≤ 64))

/-- Held back: on port 22 the armed segment is tried again. -/
def coalesce (link : Link) (st : Tcp) (s : Slot) : Int × Tcp :=
  let sock := st.socks s
  let (landed, st) :=
    if sock.lport = tcpSoftSshPort then
      st.shootArmed link s (flAck ||| flPsh) sock.snd.rtxSeq sock.snd.rtxData
    else (false, st)
  if landed then (-1, st)
  else
    (-1, st.modSnd s fun snd => Sender.failed
      { snd with
        rtxBusy := snd.rtxBusy || decide (sock.lport = tcpSoftSshPort) ||
          decide (snd.una < snd.nxt) || decide (sock.snd.nxt = snd.rtxSeq)
        rtxTick := link.now })

/-- After a SYN, which is armed whether or not it was taken. -/
def afterSyn (link : Link) (st : Tcp) (s : Slot) (flags : U8) (seq : U32) (r : Int) : Int × Tcp :=
  let st := st.modSnd s fun snd => snd.armBare true seq link.now
  if 0 ≤ r then (r, (st.modSnd s fun snd => { snd with nxt := snd.nxt + 1 }).markLanded s)
  else
    let st := st.modSnd s fun snd => Sender.failed { snd with rtxBusy := true }
    if (st.socks s).lport = tcpSoftSshPort then
      let flags := flags &&& (flSyn ||| flAck)
      let flags := if flags &&& flAck = 0 then flSyn else flags
      match busyShots link s flags seq [] Sender.failed tcpRtxBusyShots st with
      | (r, st) =>
        if 0 ≤ r then
          (r, (st.modSnd s fun snd =>
            { snd with
              nxt := if snd.nxt = seq then snd.nxt + 1 else snd.nxt
              rtxTick := link.now }).markLanded s)
        else (r, st)
    else (r, st)

/-- After a failure: data and a bare FIN of an Ethernet socket are armed and count as sent. -/
def afterFailure (link : Link) (st : Tcp) (s : Slot) (flags : U8) (seq : U32) (pay : List U8)
    (r : Int) : Int × Tcp :=
  let sock := st.socks s
  if pay ≠ [] ∧ flags &&& flSyn = 0 ∧ sock.isLoop = false then
    let data := pay.take tcpMss
    let st := st.modSnd s fun snd => snd.armFailed seq link.now data
    if sock.lport = tcpSoftSshPort then
      (data.length, (st.shootArmed link s (flAck ||| flPsh) seq data).2)
    else (data.length, st)
  else if flags &&& flFin ≠ 0 ∧ pay = [] ∧ sock.isLoop = false then
    let st := st.modSnd s fun snd =>
      let snd := Sender.failed { snd.armBare false seq link.now with rtxBusy := true }
      if snd.finSent then snd else { snd with nxt := seq + 1, finSent := true }
    if sock.lport = tcpSoftSshPort then
      (0, (st.shootArmed link s (flFin ||| flAck) seq []).2)
    else (0, st)
  else (r, st)

def afterSuccess (link : Link) (st : Tcp) (s : Slot) (flags : U8) (seq : U32) (pay : List U8)
    (r : Int) : Int × Tcp :=
  let st :=
    if flags &&& flFin ≠ 0 then
      let st := st.modSnd s fun snd => { snd with nxt := snd.nxt + 1, finSent := true }
      if pay = [] ∧ (st.socks s).isLoop = false then
        (st.modSnd s fun snd => snd.armBare false seq link.now).markLanded s
      else st
    else st
  if pay ≠ [] ∧ 0 < r then
    (r, (st.modSnd s fun snd => snd.armSent seq link.now (pay.take r.toNat)).markLanded s)
  else (r, st)

def tcpTx (link : Link) (st : Tcp) (s : Slot) (flags : U8) (pay : List U8) : Int × Tcp :=
  let sock := st.socks s
  let seq := sock.snd.nxt
  if (flags &&& flSyn = 0 ∧ pay ≠ [] ∧ sock.isLoop = false ∧ armedData sock) ∧ holdsBack sock then
    st.coalesce link s
  else
    let (r, st) := st.tcpTxRaw link s flags seq pay
    let (r, st) := if flags &&& flSyn ≠ 0 then st.afterSyn link s flags seq r else (r, st)
    if r < 0 then st.afterFailure link s flags seq pay r
    else st.afterSuccess link s flags seq pay r

end Tcp

end GreenJade.Net

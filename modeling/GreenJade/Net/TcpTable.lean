import GreenJade.Base
import GreenJade.Lib.RingBuffer
import Mathlib.Data.List.FinRange

/-! Owns the state of `net_tcp.c`: the table of sockets, what the link layer says during a call, the
addresses of this host, free slots and the receive ring. It does not own counters and log lines,
which decide nothing. -/

namespace GreenJade.Net

open Function

abbrev tcpMax : Nat := 16
abbrev tcpFdBase : Nat := 96
abbrev tcpRxMax : Nat := 4096
abbrev tcpTxMax : Nat := 4096
abbrev tcpMss : Nat := 1024
abbrev tcpWnd : U16 := 4096
abbrev tcpRtxMs : U32 := 100
abbrev tcpRtxMax : Nat := 32
abbrev tcpRtxPasses : Nat := 8
abbrev tcpRtxBusyShots : Nat := 4
abbrev tcpRtxPost22Div : U32 := 16
abbrev tcpTwMs : U32 := 1000
abbrev tcpBacklogMax : Int := 8
abbrev tcpSoftSshPort : U16 := 22

/-- `TCP_LAB_IP0` to `TCP_LAB_IP3`: 10.200.125.50. -/
abbrev tcpLabIp : BitVec 32 := 0x0ac87d32

abbrev Slot := Fin tcpMax
abbrev Ip4 := BitVec 32
abbrev Mac := BitVec 48

inductive TcpState
  | closed
  | listen
  | synRcvd
  | established
  | closeWait
  | finWait1
  | finWait2
  | lastAck
  | timeWait
  deriving DecidableEq, Repr

/-! ### Sockets -/

/-- What a socket has sent: the sequence numbers and the retransmit record. `rtxData` is `aRtx` up
to `u32RtxLen`. -/
structure Sender where
  una : U32
  nxt : U32
  finSent : Bool
  rtxSeq : U32
  rtxData : List U8
  rtxTick : U32
  rtxCount : Nat
  rtxValid : Bool
  rtxSyn : Bool
  rtxBusy : Bool
  rtxBusyN : Nat
  deriving DecidableEq

/-- What a socket has received: the next sequence number and the ring. -/
structure Receiver where
  nxt : U32
  len : Nat
  head : Nat
  cells : Fin tcpRxMax → U8

/-- `struct tcp_sock`. The number tells apart the connections that a slot has held. -/
structure TcpSock where
  used : Bool
  state : TcpState
  listening : Bool
  isLoop : Bool
  backlog : Nat
  pending : Nat
  acceptQ : Bool
  softMint : Bool
  shutRd : Bool
  shutWr : Bool
  rstSeen : Bool
  lport : U16
  rport : U16
  rip : Ip4
  rmac : Mac
  peerWnd : U16
  snd : Sender
  rcv : Receiver
  peer : Option Slot
  twTick : U32
  serial : Nat

/-- The sockets and the addresses of this host; the frames that were given to the link layer, the
latest first, each with what it said; and the number of connections so far. -/
structure Tcp where
  socks : Slot → TcpSock
  softListen22 : Option Slot
  ourIp : Ip4
  ourMac : Mac
  ipId : U16
  sent : List (List U8 × Bool)
  made : Nat

inductive Backend
  | none
  | virtio
  | rtl8168
  deriving DecidableEq, Repr

/-- What the link layer and the clock say during a call; `line` tells whether a frame is taken, by
the number of frames before it. -/
structure Link where
  backend : Backend
  ready : Bool
  virtioReady : Bool
  ip : Ip4
  mac : Mac
  now : U32
  line : Nat → Bool

/-- Nothing but the loopback. -/
def idleLink (now : U32) : Link :=
  { backend := .none, ready := false, virtioReady := false, ip := 0, mac := 0, now
    line := fun _ => true }

def Sender.zero : Sender :=
  { una := 0, nxt := 0, finSent := false, rtxSeq := 0, rtxData := [], rtxTick := 0, rtxCount := 0
    rtxValid := false, rtxSyn := false, rtxBusy := false, rtxBusyN := 0 }

def Receiver.zero : Receiver := { nxt := 0, len := 0, head := 0, cells := fun _ => 0 }

/-- A cleared slot: its peer index is 0. -/
def TcpSock.zero : TcpSock :=
  { used := false, state := .closed, listening := false, isLoop := false, backlog := 0
    pending := 0, acceptQ := false, softMint := false, shutRd := false, shutWr := false
    rstSeen := false, lport := 0, rport := 0, rip := 0, rmac := 0, peerWnd := 0, snd := .zero
    rcv := .zero, peer := some 0, twTick := 0, serial := 0 }

def isnOf (s : Slot) : U32 := BitVec.ofNat 32 (0x1000 + s.val * 0x100)

/-- A slot that `alloc_slot` has just taken. -/
def TcpSock.fresh (s : Slot) (serial : Nat) : TcpSock :=
  { TcpSock.zero with
    used := true, peer := none, peerWnd := tcpWnd
    snd := { Sender.zero with una := isnOf s, nxt := isnOf s }, serial }

def Receiver.bytes (rcv : Receiver) : List U8 := RingBuffer.content rcv.cells rcv.head rcv.len

def Receiver.push (rcv : Receiver) (bytes : List U8) : Receiver :=
  bytes.foldl (fun rcv byte =>
    { rcv with
      cells := update rcv.cells (Fin.ofNat tcpRxMax (rcv.head + rcv.len)) byte
      len := rcv.len + 1 }) rcv

theorem Receiver.push_nxt (rcv : Receiver) (bytes : List U8) : (rcv.push bytes).nxt = rcv.nxt := by
  induction bytes generalizing rcv with
  | nil => rfl
  | cons byte rest ih => exact ih _

/-- The bytes that there is room for. -/
def Receiver.takes (rcv : Receiver) (bytes : List U8) : List U8 := bytes.take (tcpRxMax - rcv.len)

def Receiver.pop : Nat → Receiver → List U8 × Receiver
  | 0, rcv => ([], rcv)
  | n + 1, rcv =>
    let byte := rcv.cells (Fin.ofNat tcpRxMax rcv.head)
    let (bytes, rest) :=
      Receiver.pop n { rcv with head := (rcv.head + 1) % tcpRxMax, len := rcv.len - 1 }
    (byte :: bytes, rest)

/-! ### The table -/

namespace Tcp

variable (st : Tcp)

def setSock (s : Slot) (sock : TcpSock) : Tcp :=
  { st with socks := update st.socks s sock }

/-- A change of what a slot has sent. -/
def modSnd (s : Slot) (change : Sender → Sender) : Tcp :=
  st.setSock s { st.socks s with snd := change (st.socks s).snd }

def setPeer (s : Slot) (peer : Option Slot) : Tcp :=
  st.setSock s { st.socks s with peer }

def setSoft (soft : Option Slot) : Tcp := { st with softListen22 := soft }

def free (s : Slot) : Tcp := st.setSock s .zero

/-- The first slot that a loop of the source stops at. -/
def firstSlot (p : Slot → Bool) : Option Slot := (List.finRange tcpMax).find? p

def slotToFd (s : Slot) : Int := tcpFdBase + s.val

def fdToSlot (fd : Int) : Option Slot :=
  if below : (fd - tcpFdBase).toNat < tcpMax then
    if tcpFdBase ≤ fd ∧ (st.socks ⟨_, below⟩).used then some ⟨_, below⟩ else none
  else none

def allocSlot : Option (Slot × Tcp) :=
  match firstSlot fun i => !(st.socks i).used with
  | none => none
  | some i => some (i, { st.setSock i (.fresh i st.made) with made := st.made + 1 })

/-- Bytes go into the ring of a slot. -/
def putRx (s : Slot) (bytes : List U8) : Tcp :=
  st.setSock s { st.socks s with rcv := (st.socks s).rcv.push bytes }

def pushRx (s : Slot) (bytes : List U8) : Int × Tcp :=
  if (st.socks s).used = false then (-1, st)
  else if bytes = [] ∨ tcpRxMax ≤ (st.socks s).rcv.len then (0, st)
  else
    let took := (st.socks s).rcv.takes bytes
    (took.length, st.putRx s took)

/-! ### Addresses -/

def forceLabIp : Tcp := { st with ourIp := tcpLabIp }

/-- The lab address is forced on rtl8168 and where it is ours already. -/
def holdLabIp (link : Link) (st : Tcp) : Tcp :=
  if link.backend = .rtl8168 ∨ st.ourIp = tcpLabIp then st.forceLabIp else st

def syncL2Identity (link : Link) (st : Tcp) : Tcp :=
  let st :=
    if link.backend ≠ .none ∨ link.ready then { st with ourMac := link.mac, ourIp := link.ip }
    else st
  if link.backend = .rtl8168 then st.forceLabIp else st

def destIsOurs (link : Link) (st : Tcp) (dip : Ip4) : Bool × Tcp :=
  if dip = tcpLabIp then (true, st.forceLabIp)
  else if dip = st.ourIp then (true, st)
  else if link.backend = .rtl8168 ∨ st.ourIp = tcpLabIp then
    (decide (dip = st.forceLabIp.ourIp ∨ dip = tcpLabIp), st.forceLabIp)
  else (false, st)

/-- `net_tcp_init` before it listens: an empty table. -/
def cleared : Tcp :=
  { socks := fun _ => .zero, softListen22 := none, ourIp := 0x0a00020f
    ourMac := 0x525400123456, ipId := 1, sent := [], made := 0 }

/-! ### Lookups -/

theorem setSock_socks (s j : Slot) (sock : TcpSock) :
    (st.setSock s sock).socks j = if j = s then sock else st.socks j :=
  update_apply ..

@[simp] theorem setSock_self (s : Slot) (sock : TcpSock) :
    (st.setSock s sock).socks s = sock := update_self ..

variable {s : Slot}

theorem setSock_of_ne {j : Slot} (different : j ≠ s) (sock : TcpSock) :
    (st.setSock s sock).socks j = st.socks j := update_of_ne different ..

theorem setSock_same (s : Slot) : st.setSock s (st.socks s) = st := by
  unfold setSock
  rw [update_eq_self]

theorem putRx_nil (s : Slot) : st.putRx s [] = st := setSock_same st s

/-- What `push_rx` does to a slot in use: as much as there is room for goes into the ring. -/
theorem pushRx_of_used {st : Tcp} (used : (st.socks s).used = true) (bytes : List U8) :
    st.pushRx s bytes = ((((st.socks s).rcv.takes bytes).length : Int),
        st.putRx s ((st.socks s).rcv.takes bytes)) := by
  unfold pushRx
  rw [if_neg (by rw [used]; exact Bool.true_eq_false_eq_False)]
  split_ifs with none
  · have nothing : (st.socks s).rcv.takes bytes = [] := by
      unfold Receiver.takes
      rcases none with rfl | full
      · exact List.take_nil
      · rw [Nat.sub_eq_zero_of_le full, List.take_zero]
    rw [nothing, putRx_nil]
    rfl
  · rfl

theorem firstSlot_eq_some {p : Slot → Bool} (found : firstSlot p = some s) :
    p s = true := List.find?_some found

theorem allocSlot_eq_some {st st' : Tcp} (taken : st.allocSlot = some (s, st')) :
    (st.socks s).used = false ∧
      st' = { st.setSock s (.fresh s st.made) with made := st.made + 1 } := by
  unfold allocSlot at taken
  split at taken
  · cases taken
  · next i found =>
      cases Option.some.inj taken
      have free := firstSlot_eq_some found
      rw [Bool.not_eq_true'] at free
      exact ⟨free, rfl⟩

theorem fdToSlot_eq_some {st : Tcp} {fd : Int} :
    st.fdToSlot fd = some s ↔ fd = slotToFd s ∧ (st.socks s).used = true := by
  unfold fdToSlot slotToFd
  constructor
  · intro found
    split at found
    · split_ifs at found with inside
      cases found
      refine ⟨?_, inside.2⟩
      simp only
      omega
    · cases found
  · rintro ⟨rfl, used⟩
    have index : ((tcpFdBase : Int) + s.val - tcpFdBase).toNat = s.val := by omega
    have below : ((tcpFdBase : Int) + s.val - tcpFdBase).toNat < tcpMax := by
      rw [index]
      exact s.isLt
    have same : (⟨_, below⟩ : Slot) = s := Fin.ext index
    rw [dif_pos below, same, if_pos ⟨by omega, used⟩]

end Tcp

end GreenJade.Net

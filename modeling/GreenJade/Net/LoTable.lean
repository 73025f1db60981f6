import GreenJade.Base
import Mathlib.Data.Fin.Basic
import Mathlib.Data.List.FinRange

/-! Owns the loopback sockets of `net_lo.c` as far as their descriptors go: `net_lo_socket`,
`net_lo_bind`, `net_lo_listen`, `net_lo_connect`, `net_lo_accept` and `net_lo_close`. It does not
own the receive rings, shutdown and socket options. -/

namespace GreenJade.Net

abbrev netLoMax : Nat := 16

def netFdBase : Int := 64

def netLoBacklogMax : Int := 8

def netLoEphemBase : Nat := 49152

def netLoEphemSpan : Nat := 16384

abbrev LoSlot := Fin netLoMax

inductive LoType
  | stream
  | dgram
deriving DecidableEq

structure LoSock where
  used : Bool
  type : LoType
  listening : Bool
  connected : Bool
  reuse : Bool
  backlog : Nat
  pending : Nat
  acceptQ : Bool
  port : U16
  /-- `i16Peer`, if it is not negative. -/
  peer : Option LoSlot
deriving DecidableEq

structure Lo where
  socks : LoSlot → LoSock

def LoSock.fresh (type : LoType) : LoSock :=
  { used := true, type, listening := false, connected := false, reuse := false, backlog := 0
    pending := 0, acceptQ := false, port := 0, peer := none }

def LoSock.closed : LoSock :=
  { used := false, type := .stream, listening := false, connected := false, reuse := false
    backlog := 0, pending := 0, acceptQ := false, port := 0, peer := none }

namespace Lo

def netLoInit : Lo := { socks := fun _ => .closed }

variable (st : Lo)

def set (s : LoSlot) (sock : LoSock) : Lo :=
  { st with socks := Function.update st.socks s sock }

theorem set_socks (s k : LoSlot) (sock : LoSock) :
    (st.set s sock).socks k = if k = s then sock else st.socks k := Function.update_apply ..

/-- `net_lo_fd_ok`, with the descriptor as a slot. -/
def fdOk (fd : Int) : Option LoSlot :=
  if valid : netFdBase ≤ fd ∧ fd < netFdBase + netLoMax then
    if (st.socks ⟨(fd - netFdBase).toNat, by have := valid.2; omega⟩).used then
      some ⟨(fd - netFdBase).toNat, by have := valid.2; omega⟩
    else none
  else none

def slotToFd (s : LoSlot) : Int := netFdBase + s.val

theorem fdOk_eq_some {st : Lo} {fd : Int} {s : LoSlot} :
    st.fdOk fd = some s ↔ slotToFd s = fd ∧ (st.socks s).used = true := by
  unfold fdOk slotToFd
  constructor
  · intro found
    split_ifs at found with valid used
    cases found
    exact ⟨by rw [Int.toNat_of_nonneg (by omega)]; omega, used⟩
  · rintro ⟨rfl, used⟩
    have same : (netFdBase + (s.val : Int) - netFdBase).toNat = s.val := by omega
    have slot : (⟨(netFdBase + (s.val : Int) - netFdBase).toNat, by omega⟩ : LoSlot) = s :=
      Fin.ext same
    rw [dif_pos ⟨by omega, by omega⟩, slot, if_pos used]

def loAllocSlot : Option LoSlot :=
  (List.finRange netLoMax).find? fun s => !(st.socks s).used

def netLoSocket (nDomain nType : Int) : Int × Lo :=
  if nDomain ≠ 2 ∧ nDomain ≠ 1 then (-97, st)
  else if nType ≠ 1 ∧ nType ≠ 2 then (-22, st)
  else
    match st.loAllocSlot with
    | none => (-24, st)
    | some s => (slotToFd s, st.set s (.fresh (if nType = 1 then .stream else .dgram)))

def portInUse (self : LoSlot) (port : U16) (type : LoType) (reuse : Bool) : Bool :=
  decide (port ≠ 0) && (List.finRange netLoMax).any fun s =>
    decide (s ≠ self) && (st.socks s).used && decide ((st.socks s).port = port) &&
      decide ((st.socks s).type = type) && !(reuse && (st.socks s).reuse)

def loEphemPort (self : LoSlot) (type : LoType) (reuse : Bool) : U16 :=
  let ports := (List.range netLoEphemSpan).map fun off => BitVec.ofNat 16 (netLoEphemBase + off)
  (ports.find? fun port => decide (port ≠ 0) && !st.portInUse self port type reuse).getD 0

def netLoBind (fd : Int) (port : U16) : Int × Lo :=
  match st.fdOk fd with
  | none => (-9, st)
  | some s =>
    let sock := st.socks s
    let port := if port = 0 then st.loEphemPort s sock.type sock.reuse else port
    if port = 0 ∨ st.portInUse s port sock.type sock.reuse then (-98, st)
    else (0, st.set s { sock with port })

def netLoListen (fd nBacklog : Int) : Int × Lo :=
  match st.fdOk fd with
  | none => (-9, st)
  | some s =>
    let backlog := min (max nBacklog 1) netLoBacklogMax
    (0, st.set s { st.socks s with backlog := backlog.toNat, pending := 0, listening := true })

/-- The listener that a connect of a socket finds. -/
def listenerFor (self : LoSlot) (port : U16) : Option LoSlot :=
  (List.finRange netLoMax).find? fun s =>
    decide (s ≠ self) && (st.socks s).used && (st.socks s).listening &&
      decide ((st.socks s).port = port) && decide ((st.socks s).type = (st.socks self).type)

/-- A listener that never was given a backlog takes one connection. -/
def giveBacklog (l : LoSlot) : Lo :=
  if (st.socks l).backlog = 0 then st.set l { st.socks l with backlog := 1 } else st

/-- A stream gets a child in the accept queue of the listener. -/
def pairStream (s l child : LoSlot) (port : U16) : Lo :=
  let sock := st.socks s
  let st := st.set child
    { LoSock.fresh .stream with connected := true, acceptQ := true, port, peer := some s }
  let st := st.set s
    { sock with
      port := if sock.port = 0 then port else sock.port
      peer := some child, connected := true }
  st.set l { st.socks l with peer := some child, pending := (st.socks l).pending + 1 }

/-- A datagram socket is paired with the listener itself. -/
def pairDgram (s l : LoSlot) (port : U16) : Lo :=
  let st := st.set l
    { st.socks l with peer := some s, pending := (st.socks l).pending + 1, connected := true }
  st.set s { st.socks s with port, peer := some l, connected := true }

def netLoConnect (fd : Int) (port : U16) : Int × Lo :=
  match st.fdOk fd with
  | none => (-9, st)
  | some s =>
    let sock := st.socks s
    if sock.type = .stream ∧ sock.connected ∧ sock.peer.isSome then (-106, st)
    else
      match st.listenerFor s port with
      | none =>
        if sock.type = .stream then (-111, st)
        else (0, st.set s { sock with port, connected := true })
      | some l =>
        let st := st.giveBacklog l
        if (st.socks l).backlog ≤ (st.socks l).pending then (-11, st)
        else if sock.type = .stream then
          match st.loAllocSlot with
          | none => (-24, st)
          | some child => (0, st.pairStream s l child port)
        else (0, st.pairDgram s l port)

def queued (port : U16) (type : LoType) (s : LoSlot) : Bool :=
  (st.socks s).used && (st.socks s).acceptQ && !(st.socks s).listening &&
    decide ((st.socks s).port = port) && decide ((st.socks s).type = type)

def loFindAcceptq (port : U16) (type : LoType) : Option LoSlot :=
  (List.finRange netLoMax).find? (st.queued port type)

def loRehookAcceptq (port : U16) (type : LoType) (skip : LoSlot) : Lo :=
  match (List.finRange netLoMax).find? fun s => st.queued port type s && decide (s ≠ skip) with
  | none => st
  | some alt =>
    { st with
      socks := fun s =>
        let sock := st.socks s
        if sock.used && sock.listening && decide (sock.port = port) &&
            decide (sock.type = type) && decide (sock.peer = none) then
          { sock with peer := some alt }
        else sock }

/-- The listeners that point at a child are pointed away from it, and count one less. -/
def unhint (child : LoSlot) : Lo :=
  { st with
    socks := fun s =>
      let sock := st.socks s
      if sock.used && sock.listening && decide (sock.peer = some child) then
        { sock with peer := none, pending := sock.pending - 1 }
      else sock }

/-- The child that `net_lo_accept` takes: the one that the listener points at, if it is good. -/
def acceptChild (s : LoSlot) : Option LoSlot :=
  match (st.socks s).peer with
  | some child =>
    if (st.socks child).used && (st.socks child).acceptQ &&
        decide ((st.socks child).port = (st.socks s).port) then some child
    else st.loFindAcceptq (st.socks s).port (st.socks s).type
  | none => st.loFindAcceptq (st.socks s).port (st.socks s).type

/-- Whether a listener that points at a child counts connections. -/
def hinted (child : LoSlot) : Bool :=
  (List.finRange netLoMax).any fun s =>
    (st.socks s).used && (st.socks s).listening && decide ((st.socks s).peer = some child) &&
      decide (0 < (st.socks s).pending)

/-- A listener counts a connection less: one that points at the child, or else the one that
accepts. -/
def countAccept (s child : LoSlot) : Lo :=
  let counted := st.hinted child
  let st := st.unhint child
  if counted = false ∧ 0 < (st.socks s).pending then
    st.set s { st.socks s with pending := (st.socks s).pending - 1 }
  else st

/-- The client of a child is pointed at it. -/
def tellClient (client : Option LoSlot) (child : LoSlot) : Lo :=
  match client with
  | none => st
  | some c =>
    if (st.socks c).used then st.set c { st.socks c with peer := some child, connected := true }
    else st

def netLoAccept (fd : Int) : Int × Lo :=
  match st.fdOk fd with
  | none => (-9, st)
  | some s =>
    if (st.socks s).listening = false then (-22, st)
    else
      match st.acceptChild s with
      | none => (-11, st)
      | some child =>
        let client := (st.socks child).peer
        let st := st.set child { st.socks child with acceptQ := false }
        let st := st.countAccept s child
        let st := st.loRehookAcceptq (st.socks s).port (st.socks s).type child
        let st := st.tellClient client child
        (slotToFd child, st.set child { st.socks child with connected := true })

/-- The partner of a socket that is closed. -/
def partClose (s peer : LoSlot) : Lo :=
  if (st.socks peer).used then
    let st :=
      if (st.socks peer).peer = some s then st.set peer { st.socks peer with peer := none } else st
    if (st.socks peer).listening ∧ 0 < (st.socks peer).pending ∧ (st.socks peer).peer = some s then
      st.set peer { st.socks peer with pending := (st.socks peer).pending - 1, peer := none }
    else st
  else st

/-- A child that is closed before it was accepted leaves the queue. -/
def leaveQueue (s : LoSlot) : Lo :=
  if (st.socks s).acceptQ then
    (st.unhint s).loRehookAcceptq (st.socks s).port (st.socks s).type s
  else st

def netLoClose (fd : Int) : Int × Lo :=
  match st.fdOk fd with
  | none => (-9, st)
  | some s =>
    let left := st.leaveQueue s
    let parted :=
      match (st.socks s).peer with
      | none => left
      | some peer => left.partClose s peer
    (0, parted.set s .closed)

end Lo

end GreenJade.Net

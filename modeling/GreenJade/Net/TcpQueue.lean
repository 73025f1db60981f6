import GreenJade.Net.TcpTx

/-! Owns the accept queue of `net_tcp.c`: the children of a port that wait for `net_tcp_accept`, the
count and the hint that a listener keeps of them, and the listener on port 22 that the stack makes
for itself. -/

namespace GreenJade.Net

namespace Tcp

/-- A socket that waits in the accept queue of a port. -/
def waits (sock : TcpSock) (port : U16) : Bool :=
  sock.used && !sock.listening && sock.acceptQ && decide (sock.lport = port)

/-- One whose handshake is done. -/
def ripe (sock : TcpSock) (port : U16) : Bool :=
  waits sock port && decide (sock.state = .established)

/-- A listener of a port that was not stopped. -/
def listens (sock : TcpSock) (port : U16) : Bool :=
  sock.used && sock.listening && !sock.shutRd && decide (sock.lport = port)

variable (st : Tcp)

def queue (port : U16) : List Slot :=
  (List.finRange tcpMax).filter fun j => waits (st.socks j) port

/-- Clear the hints of all listeners that point to a slot. -/
def dropHints (s : Slot) : Tcp :=
  (List.finRange tcpMax).foldl (fun st i =>
    if (st.socks i).used && (st.socks i).listening && decide ((st.socks i).peer = some s) then
      st.setPeer i none
    else st) st

def leaveQueue (child : Slot) : Tcp :=
  st.setSock child { st.socks child with acceptQ := false }

/-- The hint that a recount leaves. -/
def reparentHint (ls : Slot) (port : U16) : Option Slot :=
  let ethEst := firstSlot fun j =>
    decide (j ≠ ls) && ripe (st.socks j) port && !(st.socks j).isLoop
  let est := firstSlot fun j => decide (j ≠ ls) && ripe (st.socks j) port
  let any := firstSlot fun j => decide (j ≠ ls) && waits (st.socks j) port
  match (st.socks ls).peer with
  | none => (ethEst.or est).or any
  | some hint =>
    if (st.socks hint).used = false ∨ (st.socks hint).acceptQ = false ∨
        (st.socks hint).lport ≠ port then (ethEst.or est).or any
    else if (st.socks hint).state ≠ .established then (ethEst.or est).or (some hint)
    else if ethEst.isSome ∧ (st.socks hint).isLoop then ethEst
    else some hint

def acceptqReparent (ls : Slot) (port : U16) : Tcp :=
  if (st.socks ls).used = false ∨ (st.socks ls).listening = false then st
  else
    st.setSock ls
      { st.socks ls with
        pending := min 255 ((st.queue port).filter (· ≠ ls)).length
        peer := st.reparentHint ls port }

def listenRehookReady (ls : Slot) : Bool × Tcp :=
  let sock := st.socks ls
  if sock.used = false ∨ sock.listening = false ∨ sock.shutRd then (false, st)
  else
    let eth := firstSlot fun j =>
      decide (j ≠ ls) && ripe (st.socks j) sock.lport && !(st.socks j).isLoop
    let any := firstSlot fun j => decide (j ≠ ls) && ripe (st.socks j) sock.lport
    match eth.or any with
    | some j => (true, st.setPeer ls (some j))
    | none =>
      match sock.peer with
      | none => (false, st.setPeer ls none)
      | some hint =>
        if (st.socks hint).used && (st.socks hint).acceptQ &&
            decide ((st.socks hint).lport = sock.lport) then (false, st)
        else (false, st.setPeer ls none)

/-- A recount and a new hint for one listener. -/
def requeue (ls : Slot) (port : U16) : Tcp :=
  ((st.acceptqReparent ls port).listenRehookReady ls).2

/-- The same for every listener of a port that passes a test. -/
def requeueAll (port : U16) (other : Slot → Bool) : Tcp :=
  (List.finRange tcpMax).foldl (fun st i =>
    if other i && listens (st.socks i) port then st.requeue i port else st) st

/-- `tcp_drop_syn_rcvd`, first loop: listeners whose hint points to the child give it up, with one
pending child less. -/
def dropByHint (s : Slot) : Bool × Tcp :=
  let wasAq := (st.socks s).acceptQ
  (List.finRange tcpMax).foldl (fun (dec, st) i =>
    let sock := st.socks i
    if sock.used && sock.listening && decide (sock.peer = some s) then
      if wasAq && decide (0 < sock.pending) then
        (true, st.setSock i { sock with peer := none, pending := sock.pending - 1 })
      else (dec, st.setPeer i none)
    else (dec, st)) (false, st)

/-- `tcp_drop_syn_rcvd`, second loop: the first listener of the port has one child less. -/
def dropByPort (port : U16) : Tcp :=
  match firstSlot fun i =>
    (st.socks i).used && (st.socks i).listening && decide ((st.socks i).lport = port) &&
      decide (0 < (st.socks i).pending) with
  | none => st
  | some i => st.setSock i { st.socks i with pending := (st.socks i).pending - 1 }

/-- `tcp_drop_syn_rcvd`, last loops: listeners without a hint get the last child of the port. -/
def rehookLast (s : Slot) (port : U16) : Tcp :=
  match ((st.queue port).filter (· ≠ s)).getLast? with
  | none => st
  | some alt =>
    (List.finRange tcpMax).foldl (fun st i =>
      if (st.socks i).used && (st.socks i).listening && decide ((st.socks i).lport = port) &&
          (st.socks i).peer.isNone then st.setPeer i (some alt)
      else st) st

def dropSynRcvd (s : Slot) : Tcp :=
  let sock := st.socks s
  if sock.used = false then st
  else
    let (dec, st) := st.dropByHint s
    let st := if sock.acceptQ && !dec then st.dropByPort sock.lport else st
    (st.rehookLast s sock.lport).free s

/-! ### The listener on port 22 -/

/-- The listener that the stack makes of a new slot. -/
def softListener (sock : TcpSock) : TcpSock :=
  { sock with
    lport := tcpSoftSshPort, backlog := 4, pending := 0, listening := true, state := .listen
    softMint := true, isLoop := false, peer := none }

/-- A listener on port 22 is made. -/
def mintListen22 : Tcp :=
  match st.allocSlot with
  | none => st
  | some (s, st) =>
    ((st.setSock s (softListener (st.socks s))).setSoft (some s)).requeue s tcpSoftSshPort

/-- The index of the listener that was made is dropped where it is stale. -/
def staleListen22 : Bool :=
  match st.softListen22 with
  | none => false
  | some s => !listens (st.socks s) tcpSoftSshPort

def ensureListen22 (link : Link) (st : Tcp) : Tcp :=
  let st := (st.syncL2Identity link).holdLabIp link
  if link.backend = .none then st
  else if link.ready = false then st
  else
    let st := (st.syncL2Identity link).holdLabIp link
    let product := firstSlot fun i =>
      listens (st.socks i) tcpSoftSshPort && !(st.socks i).softMint
    let soft := ((List.finRange tcpMax).filter fun i =>
      listens (st.socks i) tcpSoftSshPort && (st.socks i).softMint).getLast?
    let soft := if st.staleListen22 then none else soft
    let st := if st.staleListen22 then st.setSoft none else st
    if product.isSome then st.requeueAll tcpSoftSshPort fun _ => true
    else
      match soft with
      | some s => (st.setSoft (some s)).requeue s tcpSoftSshPort
      | none => st.mintListen22

end Tcp

end GreenJade.Net

import GreenJade.Net.TcpPoll
import Mathlib.Logic.Relation

/-! Owns the moves of the socket table: what a socket is, apart from what it has sent and from the
books that a listener keeps, and the changes of it that the calls are made of. It does not own which
call makes which moves. -/

namespace GreenJade.Net

open Function

/-! ### What a socket is -/

/-- A socket without its sender, its window and its counts. The partner of a loopback connection
and the hint of a listener share a field: only the former is a partner. -/
structure Core where
  used : Bool
  state : TcpState
  listening : Bool
  isLoop : Bool
  acceptQ : Bool
  softMint : Bool
  lport : U16
  rport : U16
  rip : Ip4
  rcv : Receiver
  mate : Option Slot
  serial : Nat

def TcpSock.core (sock : TcpSock) : Core where
  used := sock.used
  state := sock.state
  listening := sock.listening
  isLoop := sock.isLoop
  acceptQ := sock.acceptQ
  softMint := sock.softMint
  lport := sock.lport
  rport := sock.rport
  rip := sock.rip
  rcv := sock.rcv
  mate := if sock.listening then none else sock.peer
  serial := sock.serial

theorem TcpSock.core_mate {sock : TcpSock} {partner : Slot} (mate : sock.core.mate = some partner) :
    sock.peer = some partner := by
  unfold TcpSock.core at mate
  split_ifs at mate
  exact mate

/-- The table of sockets, the number of connections so far and the listener on port 22 that the
stack knows of. -/
structure View where
  cores : Slot → Core
  made : Nat
  soft : Option Slot

def Tcp.view (st : Tcp) : View :=
  { cores := fun s => (st.socks s).core, made := st.made, soft := st.softListen22 }

namespace View

variable (v : View)

def set (s : Slot) (core : Core) : View :=
  { v with cores := update v.cores s core }

/-- The stack notes a listener on port 22. -/
def name (soft : Option Slot) : View := { v with soft }

@[simp, grind =] theorem name_cores (soft : Option Slot) (k : Slot) :
    (v.name soft).cores k = v.cores k := rfl

@[simp, grind =] theorem name_soft (soft : Option Slot) : (v.name soft).soft = soft := rfl

@[simp, grind =] theorem name_made (soft : Option Slot) : (v.name soft).made = v.made := rfl

@[simp, grind =] theorem set_soft (s : Slot) (core : Core) : (v.set s core).soft = v.soft := rfl

/-- A new connection in a slot. -/
def alloc (s : Slot) (core : Core) : View := { v.set s core with made := v.made + 1 }

@[simp] theorem set_self (s : Slot) (core : Core) : (v.set s core).cores s = core := update_self ..

theorem set_of_ne {s k : Slot} (different : k ≠ s) (core : Core) :
    (v.set s core).cores k = v.cores k := update_of_ne different ..

@[simp, grind =] theorem set_made (s : Slot) (core : Core) : (v.set s core).made = v.made := rfl

@[simp, grind =] theorem alloc_soft (s : Slot) (core : Core) : (v.alloc s core).soft = v.soft := rfl

@[simp] theorem alloc_self (s : Slot) (core : Core) : (v.alloc s core).cores s = core :=
  update_self ..

theorem alloc_of_ne {s k : Slot} (different : k ≠ s) (core : Core) :
    (v.alloc s core).cores k = v.cores k := update_of_ne different ..

@[simp, grind =] theorem alloc_made (s : Slot) (core : Core) :
    (v.alloc s core).made = v.made + 1 := rfl

@[grind =] theorem set_cores (s k : Slot) (core : Core) :
    (v.set s core).cores k = if k = s then core else v.cores k := update_apply ..

@[grind =] theorem alloc_cores (s k : Slot) (core : Core) :
    (v.alloc s core).cores k = if k = s then core else v.cores k := update_apply ..

theorem set_set (s : Slot) (first second : Core) :
    (v.set s first).set s second = v.set s second := by
  unfold set
  rw [update_idem]

theorem alloc_set (s : Slot) (first second : Core) :
    (v.alloc s first).set s second = v.alloc s second := by
  unfold alloc set
  rw [update_idem]

theorem set_same (s : Slot) : v.set s (v.cores s) = v := by
  unfold set
  rw [update_eq_self]

end View

def Core.zero : Core := TcpSock.zero.core

def Core.fresh (s : Slot) (serial : Nat) : Core := (TcpSock.fresh s serial).core

@[grind =] theorem Core.zero_eq : Core.zero =
    { used := false, state := .closed, listening := false, isLoop := false, acceptQ := false
      softMint := false, lport := 0, rport := 0, rip := 0, rcv := .zero, mate := some 0
      serial := 0 } := rfl

@[grind =] theorem Core.fresh_eq (s : Slot) (serial : Nat) : Core.fresh s serial =
    { used := true, state := .closed, listening := false, isLoop := false, acceptQ := false
      softMint := false, lport := 0, rport := 0, rip := 0, rcv := .zero, mate := none
      serial } := rfl

def Core.owns (core : Core) (seg : Segment) : Prop :=
  core.used = true ∧ core.listening = false ∧ core.isLoop = false ∧ core.lport = seg.dport ∧
    core.rport = seg.sport ∧ core.rip = seg.sip

/-! ### Moves -/

/-- The changes of the table, with what they are made from. -/
inductive Move
  /-- `net_tcp_socket`. -/
  | socket (s : Slot)
  /-- The stack listens on port 22. -/
  | mint (s : Slot)
  /-- The listener on port 22 that the stack knows of. -/
  | name (soft : Option Slot)
  | bind (s : Slot) (port : U16)
  | listen (s : Slot)
  /-- A listener of a program takes over from the one that the stack made. -/
  | unmint (s : Slot)
  /-- `net_tcp_connect`: a child for a socket. -/
  | pair (s child : Slot) (port : U16)
  /-- A SYN makes a child. -/
  | spawn (child : Slot) (seg : Segment)
  /-- `net_tcp_accept` takes a child from a port. -/
  | take (child : Slot) (port : U16)
  | pop (s : Slot) (count : Nat)
  /-- Bytes over loopback. -/
  | loopPush (s peer : Slot) (bytes : List U8)
  /-- A FIN over loopback. -/
  | loopFin (s peer : Slot)
  /-- The partner of a socket that closes is left alone. -/
  | part (s partner : Slot)
  | close (s : Slot)
  | shutRead (s : Slot)
  | shutWrite (s : Slot)
  /-- A child is given up. -/
  | drop (s : Slot)
  | rst (s : Slot)
  | establish (s : Slot) (seg : Segment)
  | finWait2 (s : Slot)
  /-- Our FIN is acknowledged after the peer's. -/
  | finalAck (s : Slot) (seg : Segment)
  /-- The first bytes of a segment go into the ring. -/
  | push (s : Slot) (seg : Segment) (count : Nat)
  | fin (s : Slot) (seg : Segment)
  /-- TIME_WAIT is over. -/
  | reap (s : Slot)

/-- A slot may send to another over loopback. -/
def View.Reaches (v : View) (s peer : Slot) : Prop :=
  (v.cores s).isLoop = true ∧ (v.cores peer).used = true ∧
    ((v.cores s).listening = false → (v.cores s).mate = some peer)

/-- The states that a FIN leads to. -/
def TcpState.afterFin : TcpState → TcpState
  | .established | .synRcvd => .closeWait
  | .finWait1 | .finWait2 => .timeWait
  | other => other

theorem TcpState.afterFin_ne_synRcvd (state : TcpState) : state.afterFin ≠ .synRcvd := by
  cases state <;> decide

/-- A FIN is looked at in the states that it ends. -/
def TcpState.TakesFin (state : TcpState) : Prop := state.afterFin ≠ state

instance : DecidablePred TcpState.TakesFin :=
  fun state => inferInstanceAs (Decidable (state.afterFin ≠ state))

/-- A connection after a FIN. -/
def Core.afterFin (core : Core) : Core :=
  { core with
    state := core.state.afterFin, rcv := { core.rcv with nxt := core.rcv.nxt + 1 } }

/-- A connection after bytes in order. -/
def Core.pushed (core : Core) (bytes : List U8) : Core :=
  { core with
    rcv := { core.rcv.push bytes with nxt := core.rcv.nxt + BitVec.ofNat 32 bytes.length } }

/-- What a move does, and when it is made. -/
def Move.Makes (v v' : View) : Move → Prop
  | .socket s => (v.cores s).used = false ∧ v' = v.alloc s (.fresh s v.made)
  | .mint s =>
    (v.cores s).used = false ∧
      v' = (v.alloc s { Core.fresh s v.made with
        lport := tcpSoftSshPort, listening := true, state := .listen, softMint := true }).name
          (some s)
  | .name soft =>
    (∀ s, soft = some s → (v.cores s).used = true ∧ (v.cores s).listening = true) ∧ v' = v.name soft
  | .bind s port => v' = v.set s { v.cores s with lport := port }
  | .listen s =>
    v' = v.set s { v.cores s with
      listening := true, state := .listen, softMint := false, mate := none }
  | .unmint s =>
    (v.cores s).used = true ∧ (v.cores s).softMint = true ∧ v.soft = some s ∧
      v' = (v.set s .zero).name none
  | .pair s child port =>
    (v.cores child).used = false ∧ (v.cores s).used = true ∧
      ∃ clientPort nxt childNxt,
        v' = (v.alloc child { Core.fresh child v.made with
            state := .established, lport := port, rport := clientPort, isLoop := true
            acceptQ := true, mate := some s
            rcv := { Receiver.zero with nxt := childNxt } }).set s
          { v.cores s with
            isLoop := true, rport := port, lport := clientPort, state := .established
            mate := if (v.cores s).listening then none else some child
            rcv := { (v.cores s).rcv with nxt } }
  | .spawn child seg =>
    (v.cores child).used = false ∧
      v' = v.alloc child { Core.fresh child v.made with
        state := .synRcvd, lport := seg.dport, rport := seg.sport, rip := seg.sip
        rcv := { Receiver.zero with nxt := seg.seq + 1 }, acceptQ := true }
  | .take child port =>
    (v.cores child).used = true ∧ (v.cores child).acceptQ = true ∧
      (v.cores child).state = .established ∧
      v' = v.set child { v.cores child with
        acceptQ := false, softMint := false
        lport := if (v.cores child).lport = 0 then port else (v.cores child).lport }
  | .pop s count =>
    count ≤ (v.cores s).rcv.len ∧
      v' = v.set s { v.cores s with rcv := (Receiver.pop count (v.cores s).rcv).2 }
  | .loopPush s peer bytes =>
    v.Reaches s peer ∧ bytes.length ≤ tcpRxMax - (v.cores peer).rcv.len ∧
      v' = v.set peer { v.cores peer with rcv := (v.cores peer).rcv.push bytes }
  | .loopFin s peer =>
    v.Reaches s peer ∧ (v.cores peer).state ≠ .synRcvd ∧ (v.cores peer).state.TakesFin ∧
      v' = v.set peer (v.cores peer).afterFin
  | .part s partner =>
    (v.cores partner).mate = some s ∧ v' = v.set partner { v.cores partner with mate := none }
  | .close s =>
    (v.cores s).used = true ∧ v.soft ≠ some s ∧
      (∀ partner, (v.cores s).mate = some partner → (v.cores partner).mate ≠ some s) ∧
      v' = v.set s .zero
  | .shutRead s =>
    ((v.cores s).listening = true → v.soft ≠ some s) ∧
      ∃ mate, ((v.cores s).listening = false → mate = (v.cores s).mate) ∧
        v' = v.set s { v.cores s with listening := false, mate }
  | .shutWrite s =>
    ((v.cores s).state = .established ∨ (v.cores s).state = .closeWait) ∧
      ∃ state, (state = .finWait1 ∨ state = .lastAck) ∧ v' = v.set s { v.cores s with state }
  | .drop s =>
    (v.cores s).used = true ∧ (v.cores s).isLoop = false ∧
      ((v.cores s).acceptQ = true ∧ (v.cores s).listening = false ∨ (v.cores s).state = .synRcvd) ∧
      v' = v.set s .zero
  | .rst s =>
    (v.cores s).isLoop = false ∧ (v.cores s).listening = false ∧
      (v.cores s).acceptQ = false ∧ (v.cores s).state ≠ .synRcvd ∧
      v' = v.set s { v.cores s with state := .closed }
  | .establish s seg =>
    (v.cores s).owns seg ∧ (v.cores s).state = .synRcvd ∧
      v' = v.set s { v.cores s with state := .established }
  | .finWait2 s =>
    (v.cores s).state = .finWait1 ∧ v' = v.set s { v.cores s with state := .finWait2 }
  | .finalAck s seg =>
    (v.cores s).owns seg ∧ (v.cores s).state = .lastAck ∧ v' = v.set s .zero
  | .push s seg count =>
    (v.cores s).owns seg ∧ (v.cores s).rcv.nxt = seg.seq ∧ count ≤ seg.pay.length ∧
      count ≤ tcpRxMax - (v.cores s).rcv.len ∧
      ((v.cores s).state = .established ∨ (v.cores s).state = .synRcvd) ∧
      v' = v.set s ((v.cores s).pushed (seg.pay.take count))
  | .fin s seg =>
    (v.cores s).owns seg ∧ (v.cores s).state.TakesFin ∧ v' = v.set s (v.cores s).afterFin
  | .reap s =>
    (v.cores s).used = true ∧ (v.cores s).state = .timeWait ∧ v' = v.set s .zero

def Move.Clears (k : Slot) : Move → Prop
  | .unmint s | .close s | .drop s | .finalAck s _ | .reap s => s = k
  | _ => False

def Move.Touches (k : Slot) : Move → Prop
  | .socket s | .mint s | .bind s _ | .listen s | .unmint s | .spawn s _ | .take s _ | .pop s _
  | .loopPush _ s _ | .loopFin _ s | .part _ s | .close s | .shutRead s | .shutWrite s | .drop s
  | .rst s | .establish s _ | .finWait2 s | .finalAck s _ | .push s _ _ | .fin s _
  | .reap s => k = s
  | .pair s child _ => k = s ∨ k = child
  | .name _ => False

/-- The moves that see to a listener on port 22. -/
def Move.Readies : Move → Prop
  | .mint _ | .name _ => True
  | _ => False

/-- The moves of a socket that stays what it is. -/
def Move.Gentle : Move → Prop
  | .bind _ _ | .take _ _ | .pop _ _ | .loopPush _ _ _ | .loopFin _ _ | .shutWrite _ | .rst _
  | .establish _ _ | .finWait2 _ | .push _ _ _ | .fin _ _ => True
  | _ => False

/-- A socket stays what it is: its connection, its partner, and whether it listens. -/
structure Core.Like (old new : Core) : Prop where
  used : new.used = old.used
  listening : new.listening = old.listening
  isLoop : new.isLoop = old.isLoop
  mate : new.mate = old.mate
  serial : new.serial = old.serial
  state : old.listening = true → old.state = .listen → new.state = .listen

theorem Core.Like.refl (core : Core) : core.Like core :=
  ⟨rfl, rfl, rfl, rfl, rfl, fun _ listen => listen⟩

namespace Move

variable {v v' : View} {s k : Slot} {move : Move}

/-- A move leaves the other slots as they are. -/
theorem frame (makes : move.Makes v v') (untouched : ¬move.Touches k) : v'.cores k = v.cores k := by
  have set {s : Slot} {core : Core} (different : k ≠ s) : (v.set s core).cores k = v.cores k :=
    View.set_of_ne v different core
  have alloc {s : Slot} {core : Core} (different : k ≠ s) :
      (v.alloc s core).cores k = v.cores k := View.alloc_of_ne v different core
  cases move <;> unfold Makes at makes
  case pair s child port =>
    obtain ⟨-, -, clientPort, nxt, childNxt, rfl⟩ := makes
    rw [View.set_of_ne _ (untouched ∘ .inl)]
    exact alloc (untouched ∘ .inr)
  case bind => exact makes ▸ set untouched
  case listen => exact makes ▸ set untouched
  case shutRead =>
    obtain ⟨-, mate, -, rfl⟩ := makes
    exact set untouched
  case shutWrite =>
    obtain ⟨-, state, -, rfl⟩ := makes
    exact set untouched
  case socket => exact makes.2 ▸ alloc untouched
  case mint => exact makes.2 ▸ alloc untouched
  case name => exact makes.2 ▸ rfl
  case spawn => exact makes.2 ▸ alloc untouched
  case pop => exact makes.2 ▸ set untouched
  case part => exact makes.2 ▸ set untouched
  case close => exact makes.2.2.2 ▸ set untouched
  case finWait2 => exact makes.2 ▸ set untouched
  case unmint => exact makes.2.2.2 ▸ set untouched
  case loopPush => exact makes.2.2 ▸ set untouched
  case establish => exact makes.2.2 ▸ set untouched
  case finalAck => exact makes.2.2 ▸ set untouched
  case fin => exact makes.2.2 ▸ set untouched
  case reap => exact makes.2.2 ▸ set untouched
  case take => exact makes.2.2.2 ▸ set untouched
  case loopFin => exact makes.2.2.2 ▸ set untouched
  case drop => exact makes.2.2.2 ▸ set untouched
  case rst => exact makes.2.2.2.2 ▸ set untouched
  case push => exact makes.2.2.2.2.2 ▸ set untouched

/-- A slot in use stays in use, for the same connection, until a move clears it. -/
theorem keeps (makes : move.Makes v v') (stays : ¬move.Clears k) (used : (v.cores k).used = true) :
    (v'.cores k).used = true ∧ (v'.cores k).serial = (v.cores k).serial := by
  by_cases touched : move.Touches k
  · cases move <;> simp only [Makes, Clears] at makes touched stays
    all_goals grind -ring -order [Core.pushed, Core.afterFin]
  · rw [frame makes touched]
    exact ⟨used, rfl⟩

theorem like (gentle : move.Gentle) (makes : move.Makes v v') (k : Slot) :
    (v.cores k).Like (v'.cores k) ∧ v'.soft = v.soft ∧ v'.made = v.made := by
  have set {s : Slot} {core : Core} (changed : v' = v.set s core) (same : (v.cores s).Like core) :
      (v.cores k).Like (v'.cores k) ∧ v'.soft = v.soft ∧ v'.made = v.made := by
    subst changed
    refine ⟨?_, rfl, rfl⟩
    rw [View.set_cores]
    split_ifs with here
    · exact here ▸ same
    · exact .refl _
  have took {state : TcpState} (takes : state.TakesFin) : state ≠ .listen := by
    rintro rfl
    exact takes rfl
  cases move <;> simp only [Gentle] at makes gentle
  case bind => exact set makes ⟨rfl, rfl, rfl, rfl, rfl, fun _ listen => listen⟩
  case take => exact set makes.2.2.2 ⟨rfl, rfl, rfl, rfl, rfl, fun _ listen => listen⟩
  case pop => exact set makes.2 ⟨rfl, rfl, rfl, rfl, rfl, fun _ listen => listen⟩
  case loopPush => exact set makes.2.2 ⟨rfl, rfl, rfl, rfl, rfl, fun _ listen => listen⟩
  case loopFin =>
    obtain ⟨-, -, takes, changed⟩ := makes
    exact set changed ⟨rfl, rfl, rfl, rfl, rfl, fun _ listen => absurd listen (took takes)⟩
  case shutWrite =>
    obtain ⟨opened, state, -, changed⟩ := makes
    refine set changed ⟨rfl, rfl, rfl, rfl, rfl, fun _ listen => ?_⟩
    rcases opened with here | here <;> exact absurd (here.symm.trans listen) (by decide)
  case rst =>
    obtain ⟨-, connected, -, -, changed⟩ := makes
    exact set changed ⟨rfl, rfl, rfl, rfl, rfl,
      fun listening _ => nomatch connected.symm.trans listening⟩
  case establish =>
    obtain ⟨-, here, changed⟩ := makes
    exact set changed ⟨rfl, rfl, rfl, rfl, rfl,
      fun _ listen => absurd (here.symm.trans listen) (by decide)⟩
  case finWait2 =>
    obtain ⟨here, changed⟩ := makes
    exact set changed ⟨rfl, rfl, rfl, rfl, rfl,
      fun _ listen => absurd (here.symm.trans listen) (by decide)⟩
  case push => exact set makes.2.2.2.2.2 ⟨rfl, rfl, rfl, rfl, rfl, fun _ listen => listen⟩
  case fin =>
    obtain ⟨-, takes, changed⟩ := makes
    exact set changed ⟨rfl, rfl, rfl, rfl, rfl, fun _ listen => absurd listen (took takes)⟩

end Move

/-- Moves of some kinds, one after the other. -/
def Moves (kinds : Move → Prop) : View → View → Prop :=
  Relation.ReflTransGen fun v v' => ∃ move, kinds move ∧ move.Makes v v'

namespace Moves

variable {kinds wider : Move → Prop} {v v' v'' : View} {move : Move}

theorem refl (v : View) : Moves kinds v v := Relation.ReflTransGen.refl

theorem of_eq (same : v' = v) : Moves kinds v v' := by
  subst same
  exact refl v'

theorem single (kind : kinds move) (makes : move.Makes v v') : Moves kinds v v' :=
  Relation.ReflTransGen.single ⟨move, kind, makes⟩

theorem trans (first : Moves kinds v v') (second : Moves kinds v' v'') : Moves kinds v v'' :=
  Relation.ReflTransGen.trans first second

theorem mono (includes : ∀ move, kinds move → wider move) (moves : Moves kinds v v') :
    Moves wider v v' :=
  Relation.ReflTransGen.mono
    (fun _ _ ⟨move, kind, makes⟩ => ⟨move, includes move kind, makes⟩) _ _ moves

/-- What every move of these kinds keeps holds after them. -/
theorem invariant (holds : View → Prop)
    (keeps : ∀ move v v', kinds move → move.Makes v v' → holds v → holds v')
    (moves : Moves kinds v v') (start : holds v) : holds v' := by
  induction moves with
  | refl => exact start
  | tail _ last ih =>
    obtain ⟨move, kind, makes⟩ := last
    exact keeps move _ _ kind makes ih

/-- Without moves that clear it a slot stays in use, for the same connection. -/
theorem keeps {k : Slot} (stays : ∀ move, kinds move → ¬move.Clears k)
    (moves : Moves kinds v v') (used : (v.cores k).used = true) :
    (v'.cores k).used = true ∧ (v'.cores k).serial = (v.cores k).serial := by
  refine moves.invariant (fun w => (w.cores k).used = true ∧
    (w.cores k).serial = (v.cores k).serial) ?_ ⟨used, rfl⟩
  rintro move w w' kind makes ⟨used, serial⟩
  obtain ⟨used', serial'⟩ := Move.keeps makes (stays move kind) used
  exact ⟨used', serial'.trans serial⟩

end Moves

end GreenJade.Net

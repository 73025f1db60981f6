import GreenJade.Sshd.Keystream
import Mathlib.Data.List.ReduceOption

/-! Owns the tag of a packet, `recv_pkt` of `sshd_gj.c`, and one direction of a connection as a
queue of packets. SHA-256 stays a parameter. -/

namespace GreenJade.Sshd

open List

/-! ### Tags -/

def putU32 (v : U32) : List U8 :=
  [(v >>> 24).setWidth 8, (v >>> 16).setWidth 8, (v >>> 8).setWidth 8, v.setWidth 8]

/-- The length field of a packet. -/
def packetLength (pkt : List U8) : U32 :=
  (pkt.getD 0 0).setWidth 32 <<< 24 ||| (pkt.getD 1 0).setWidth 32 <<< 16 |||
    (pkt.getD 2 0).setWidth 32 <<< 8 ||| (pkt.getD 3 0).setWidth 32

variable (hash : List U8 → Nat → U8)

def sha256 (bytes : List U8) : List U8 := (List.range 32).map (hash bytes)

/-- `gj_ssh_hmac_sha256` with a key of 32 bytes. The data are read before `out` is written, so that
both may be one buffer. -/
def gjSshHmacSha256 (key : Nat → U8) (data : List U8) : List U8 :=
  let pad (x : U8) := (List.range 64).map fun i => (if i < 32 then key i else 0) ^^^ x
  sha256 hash (pad 0x5c ++ sha256 hash (pad 0x36 ++ data))

def productMac (key : Nat → U8) (seq : U32) (pkt : List U8) : List U8 :=
  gjSshHmacSha256 hash key (sha256 hash (putU32 seq ++ pkt))

/-! ### Receiving -/

def Session.countRx (st : Session) (asServer : Bool) : Session :=
  if asServer then { st with c2s := { st.c2s with seqRx := st.c2s.seqRx + 1 } }
  else { st with s2c := { st.s2c with seqRx := st.s2c.seqRx + 1 } }

/-- `recv_pkt` from a stream whose reads are full as long as there are bytes: the packet, or `none`
for a return of 0, the rest of the stream and the session. -/
def recvPkt (st : Session) (asServer : Bool) (cap : U32) (stream : List U8) :
    Option (List U8) × List U8 × Session :=
  let dir := st.direction !asServer
  if st.encrypted = false ∨ cap < 8 then (none, stream, st)
  else
    let head := stream.take 4
    let stream := stream.drop 4
    if head.length < 4 then (none, stream, st)
    else
      let len := packetLength head
      if len < 5 ∨ cap - 4 < len then (none, stream, st)
      else
        let body := stream.take len.toNat
        let stream := stream.drop len.toNat
        if body.length < len.toNat then (none, stream, st)
        else
          let mac := stream.take 32
          let stream := stream.drop 32
          if mac.length < 32 then (none, stream, st)
          else if mac ≠ productMac hash dir.int dir.seqRx (head ++ body) then (none, stream, st)
          else
            (some (head ++ (gjSshChacha20Xor dir.enc dir.iv dir.seqRx body).1), stream,
              st.countRx asServer)

/-! ### A direction as a queue -/

inductive PacketAct
  | send (pkt : Packet)
  | recv

/-- Sends by one side and receives by the other: what the receives return, the bytes under way and
the session at the end. Every send is taken by the network. -/
def runPackets (asServer : Bool) (cap : U32) :
    Session → List U8 → List PacketAct → List (Option (List U8)) × List U8 × Session
  | st, stream, [] => ([], stream, st)
  | st, stream, .send pkt :: rest =>
    let (wire, _, st) := sendPkt (productMac hash) st asServer pkt pkt.val.length
    runPackets asServer cap st (stream ++ wire.flatten) rest
  | st, stream, .recv :: rest =>
    let (result, stream, st) := recvPkt hash st (!asServer) cap stream
    let (results, final) := runPackets asServer cap st stream rest
    (result :: results, final)

/-- What the calls are for: a queue of packets. Also the packets that it holds at the end. -/
def runQueue : List Packet → List PacketAct → List (Option (List U8)) × List Packet
  | queue, [] => ([], queue)
  | queue, .send pkt :: rest => runQueue (queue ++ [pkt]) rest
  | queue, .recv :: rest =>
    let (results, final) := runQueue queue.tail rest
    (queue.head?.map Subtype.val :: results, final)

/-- A packet that the receiver has room for, with its own length in front. -/
structure Packet.WellFormed (cap : U32) (pkt : Packet) : Prop where
  long : 9 ≤ pkt.val.length
  fits : pkt.val.length ≤ cap.toNat
  field : packetLength pkt.val = BitVec.ofNat 32 (pkt.val.length - 4)

/-! ### The cipher undoes itself -/

/-- The loop adds a keystream that does not depend on the data. -/
theorem xorLoop_mapIdx (fuel : Nat) (st : ChachaState) : ∃ key : Nat → U8, ∀ data : List U8,
    data.length ≤ fuel → (xorLoop fuel st data).1 = data.mapIdx fun j byte => byte ^^^ key j := by
  induction fuel generalizing st with
  | zero =>
    refine ⟨fun _ => 0, fun data short => ?_⟩
    rw [length_eq_zero_iff.mp (Nat.le_zero.mp short)]
    rfl
  | succ fuel ih =>
    obtain ⟨later, adds⟩ := ih (st.set 12 (st[12] + 1))
    refine ⟨fun j => if j < 64 then blockByte (chachaBlock st) j else later (j - 64),
      fun data short => ?_⟩
    unfold xorLoop
    split_ifs with done
    · rw [done]
      rfl
    · have left : (data.drop 64).length ≤ fuel := by
        rw [length_drop]
        omega
      dsimp only
      rw [adds _ left]
      refine ext_getElem (by simp; omega) fun j _ inside => ?_
      rw [length_mapIdx] at inside
      by_cases early : j < 64
      · simp [early, inside]
      · have place : 64 + (j - 64) = j := by omega
        have whole : min 64 data.length = 64 := by omega
        simp [getElem_append, early, whole, place]

theorem gjSshChacha20Xor_twice (key nonce : Nat → U8) (counter : U32) (data : List U8) :
    (gjSshChacha20Xor key nonce counter data).1.length = data.length ∧
      (gjSshChacha20Xor key nonce counter (gjSshChacha20Xor key nonce counter data).1).1 =
        data := by
  obtain ⟨stream, adds⟩ := xorLoop_mapIdx data.length (chachaInit key nonce counter)
  have length : (data.mapIdx fun j byte => byte ^^^ stream j).length = data.length := length_mapIdx
  simp only [gjSshChacha20Xor, adds data le_rfl, length]
  rw [adds _ length.le]
  refine ⟨trivial, ext_getElem (by simp) fun j _ _ => ?_⟩
  simp only [getElem_mapIdx, BitVec.xor_assoc, BitVec.xor_self, BitVec.xor_zero]

/-! ### One packet -/

variable {hash} {st : Session} {asServer : Bool} {cap : U32} {head body tag : List U8}

/-- What `recv_pkt` makes of bytes that are at least a packet and a tag. -/
theorem recvPkt_append (front : head.length = 4) (whole : body.length = (packetLength head).toNat)
    (tagged : tag.length = 32) (rest : List U8) :
    recvPkt hash st asServer cap (head ++ (body ++ (tag ++ rest))) =
      if st.encrypted = false ∨ cap < 8 then (none, head ++ (body ++ (tag ++ rest)), st)
      else if packetLength head < 5 ∨ cap - 4 < packetLength head then
        (none, body ++ (tag ++ rest), st)
      else if tag ≠ productMac hash (st.direction !asServer).int (st.direction !asServer).seqRx
          (head ++ body) then (none, rest, st)
      else
        (some (head ++ (gjSshChacha20Xor (st.direction !asServer).enc (st.direction !asServer).iv
          (st.direction !asServer).seqRx body).1), rest, st.countRx asServer) := by
  unfold recvPkt
  simp only [take_left' front, drop_left' front, take_left' whole,
    drop_left' whole, take_left' tagged, drop_left' tagged, front, whole, tagged,
    lt_irrefl, if_false]

/-- A packet as `send_pkt` puts it on the stream. -/
def sealedPacket (hash : List U8 → Nat → U8) (dir : Direction) (seq : U32) (pkt : Packet) :
    List U8 :=
  let wire := pkt.val.take 4 ++ (gjSshChacha20Xor dir.enc dir.iv seq (pkt.val.drop 4)).1
  wire ++ productMac hash dir.int seq wire

theorem recvPkt_sealed (encrypted : st.encrypted = true) {pkt : Packet}
    (formed : pkt.WellFormed cap) (rest : List U8) :
    recvPkt hash st (!asServer) cap (sealedPacket hash (st.direction asServer)
        (st.direction asServer).seqRx pkt ++ rest) =
      (some pkt.val, rest, st.countRx !asServer) := by
  have long := formed.long
  have fits := formed.fits
  have front : (pkt.val.take 4).length = 4 := by
    rw [length_take]
    omega
  have field : packetLength (pkt.val.take 4) = BitVec.ofNat 32 (pkt.val.length - 4) := by
    rw [← formed.field]
    simp [packetLength]
  have number : (packetLength (pkt.val.take 4)).toNat = pkt.val.length - 4 := by
    rw [field, BitVec.toNat_ofNat]
    omega
  obtain ⟨length, undone⟩ := gjSshChacha20Xor_twice (st.direction asServer).enc
    (st.direction asServer).iv (st.direction asServer).seqRx (pkt.val.drop 4)
  rw [length_drop, ← number] at length
  have tagged (key : Nat → U8) (seq : U32) (bytes : List U8) :
      (productMac hash key seq bytes).length = 32 := by
    simp [productMac, gjSshHmacSha256, sha256]
  rw [sealedPacket]
  simp only [append_assoc]
  rw [recvPkt_append front length (tagged ..), Bool.not_not, undone, take_append_drop, if_neg,
    if_neg, if_neg (not_not_intro rfl)]
  · generalize packetLength (pkt.val.take 4) = len at number
    bv_omega
  · rintro (off | low)
    · exact Bool.false_ne_true (off.symm.trans encrypted)
    · bv_omega

theorem sendPkt_sealed (hash : List U8 → Nat → U8) (asServer : Bool)
    (encrypted : st.encrypted = true) {pkt : Packet} (body : pkt.HasBody) :
    (sendPkt (productMac hash) st asServer pkt pkt.val.length).1.flatten =
        sealedPacket hash (st.direction asServer) (st.direction asServer).seqTx pkt ∧
      (sendPkt (productMac hash) st asServer pkt pkt.val.length).2.2 = st.countTx asServer := by
  have some : 0 < pkt.val.length := Nat.zero_lt_of_lt body
  unfold sendPkt
  simp [encrypted, body, some, sealedPacket]

/-! ### Runs -/

theorem succ_add_ofNat (seq : U32) (n : Nat) :
    seq + 1 + BitVec.ofNat 32 n = seq + BitVec.ofNat 32 (n + 1) := by
  rw [BitVec.ofNat_add, BitVec.add_assoc, BitVec.add_comm 1]
  rfl

/-- The packets of a queue as they lie on the stream, the first under the given number. -/
def sealedQueue (pack : U32 → Packet → List U8) : U32 → List Packet → List U8
  | _, [] => []
  | seq, pkt :: rest => pack seq pkt ++ sealedQueue pack (seq + 1) rest

theorem sealedQueue_concat (pack : U32 → Packet → List U8) (queue : List Packet) (pkt : Packet)
    (seq : U32) : sealedQueue pack seq (queue ++ [pkt]) =
      sealedQueue pack seq queue ++ pack (seq + BitVec.ofNat 32 queue.length) pkt := by
  induction queue generalizing seq with
  | nil => simp [sealedQueue]
  | cons first rest ih =>
    rw [cons_append, sealedQueue, ih, sealedQueue, append_assoc, length_cons, succ_add_ofNat]

/-- The bytes under way are the packets of the queue, numbered from what comes next. -/
structure Carries (hash : List U8 → Nat → U8) (cap : U32) (dir : Direction) (stream : List U8)
    (queue : List Packet) : Prop where
  stream : stream = sealedQueue (sealedPacket hash dir) dir.seqRx queue
  counters : dir.seqTx = dir.seqRx + BitVec.ofNat 32 queue.length
  formed : ∀ pkt ∈ queue, pkt.WellFormed cap

namespace Carries

variable {dir : Direction} {stream : List U8} {queue : List Packet} {pkt : Packet}

theorem send (carries : Carries hash cap dir stream queue) (formed : pkt.WellFormed cap) :
    Carries hash cap { dir with seqTx := dir.seqTx + 1 }
      (stream ++ sealedPacket hash dir dir.seqTx pkt) (queue ++ [pkt]) where
  stream := by
    rw [carries.stream, carries.counters, ← sealedQueue_concat]
    rfl
  counters := by
    rw [carries.counters, length_append, BitVec.ofNat_add, ← BitVec.add_assoc]
    rfl
  formed := forall_mem_append.mpr ⟨carries.formed, forall_mem_singleton.mpr formed⟩

/-- The first packet of the queue is the first on the stream. -/
theorem recv (carries : Carries hash cap dir stream (pkt :: queue)) :
    ∃ rest, stream = sealedPacket hash dir dir.seqRx pkt ++ rest ∧
      Carries hash cap { dir with seqRx := dir.seqRx + 1 } rest queue := by
  refine ⟨_, carries.stream, rfl, ?_, (forall_mem_cons.mp carries.formed).2⟩
  rw [carries.counters, length_cons, ← succ_add_ofNat]

/-- Every receive returns what the queue does and counts if it returns a packet. -/
theorem run (carries : Carries hash cap (st.direction asServer) stream queue)
    (encrypted : st.encrypted = true) (acts : List PacketAct)
    (formed : ∀ pkt, .send pkt ∈ acts → pkt.WellFormed cap) :
    let out := runPackets hash asServer cap st stream acts
    out.1 = (runQueue queue acts).1 ∧
      Carries hash cap (out.2.2.direction asServer) out.2.1 (runQueue queue acts).2 ∧
      (out.2.2.direction asServer).seqRx =
        (st.direction asServer).seqRx + BitVec.ofNat 32 out.1.reduceOption.length := by
  induction acts generalizing st stream queue with
  | nil => exact ⟨rfl, carries, (BitVec.add_zero _).symm⟩
  | cons act rest ih =>
    have later (pkt : Packet) (member : .send pkt ∈ rest) := formed pkt (.tail _ member)
    cases act with
    | send pkt =>
      have good := formed pkt mem_cons_self
      have body : pkt.HasBody := Nat.le_trans (by decide) good.long
      obtain ⟨wire, counted⟩ := sendPkt_sealed hash asServer encrypted body
      have dir : (st.countTx asServer).direction asServer =
          { st.direction asServer with seqTx := (st.direction asServer).seqTx + 1 } := by
        cases asServer <;> rfl
      have next := carries.send good
      rw [← dir] at next
      have ran := ih next (by cases asServer <;> exact encrypted) later
      rw [dir] at ran
      simpa only [runPackets, runQueue, wire, counted] using ran
    | recv =>
      cases queue with
      | nil =>
        obtain rfl : stream = [] := carries.stream
        have empty : recvPkt hash st (!asServer) cap [] = (none, [], st) := by
          simp [recvPkt]
        obtain ⟨results, final, counted⟩ := ih carries encrypted later
        rw [runPackets, empty]
        exact ⟨congrArg (none :: ·) results, final, counted⟩
      | cons pkt queue =>
        obtain ⟨bytes, rfl, next⟩ := carries.recv
        have dir : (st.countRx !asServer).direction asServer =
            { st.direction asServer with seqRx := (st.direction asServer).seqRx + 1 } := by
          cases asServer <;> rfl
        rw [← dir] at next
        obtain ⟨results, final, counted⟩ := ih next (by cases asServer <;> exact encrypted) later
        rw [runPackets, recvPkt_sealed encrypted (carries.formed pkt mem_cons_self)]
        refine ⟨congrArg (some pkt.val :: ·) results, final, counted.trans ?_⟩
        rw [dir, reduceOption_cons_of_some, length_cons, ← succ_add_ofNat]

end Carries

/-- Receiving inverts sending: under the keys of any exchange and in both directions the receives
of any run return the packets that were sent, in order; the receive counter is the number of the
packets returned, and the transmit counter is ahead of it by those under way. A tag that is not the
one of the bytes under the current number is refused, and does not count. -/
theorem recvPkt_inverts_sendPkt (hash : List U8 → Nat → U8) (K H sid : List U8) (asServer : Bool)
    (cap : U32) (acts : List PacketAct) (formed : ∀ pkt, .send pkt ∈ acts → pkt.WellFormed cap) :
    let out := runPackets hash asServer cap (deriveKeys hash K H sid) [] acts
    let dir := out.2.2.direction asServer
    out.1 = (runQueue [] acts).1 ∧
      dir.seqRx = BitVec.ofNat 32 out.1.reduceOption.length ∧
      dir.seqTx = dir.seqRx + BitVec.ofNat 32 (runQueue [] acts).2.length ∧
      ∀ (st : Session) (head body tag rest : List U8), head.length = 4 →
        body.length = (packetLength head).toNat → tag.length = 32 →
        tag ≠ productMac hash (st.direction asServer).int (st.direction asServer).seqRx
          (head ++ body) →
        (recvPkt hash st (!asServer) cap (head ++ (body ++ (tag ++ rest)))).1 = none ∧
          (recvPkt hash st (!asServer) cap (head ++ (body ++ (tag ++ rest)))).2.2 = st := by
  have zero : ((deriveKeys hash K H sid).direction asServer).seqRx = 0#32 := by
    cases asServer <;> rfl
  have start : Carries hash cap ((deriveKeys hash K H sid).direction asServer) [] [] := by
    refine ⟨rfl, ?_, forall_mem_nil _⟩
    cases asServer <;> rfl
  obtain ⟨results, final, counted⟩ := start.run rfl acts formed
  rw [zero, BitVec.zero_add] at counted
  refine ⟨results, counted, final.counters, ?_⟩
  intro st head body tag rest front whole tagged wrong
  rw [recvPkt_append front whole tagged, Bool.not_not]
  split_ifs <;> exact ⟨rfl, rfl⟩

def samplePacket : Packet := ⟨[0, 0, 0, 5, 4, 30, 0, 0, 0], by decide⟩

theorem recvPkt_inverts_sample : samplePacket.WellFormed 64 ∧
    (runPackets (fun _ _ => 7) true 64 (deriveKeys (fun _ _ => 7) [] [] []) []
      [.send samplePacket, .recv, .recv]).1 = [some samplePacket.val, none] := by
  have formed : samplePacket.WellFormed 64 := ⟨by decide, by decide, by decide⟩
  have inverts := recvPkt_inverts_sendPkt (fun _ _ => 7) [] [] [] true 64
    [.send samplePacket, .recv, .recv]
  refine ⟨formed, (inverts fun pkt sent => ?_).1⟩
  obtain rfl : pkt = samplePacket := by simpa using sent
  exact formed

end GreenJade.Sshd

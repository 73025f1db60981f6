import GreenJade.Base
import Mathlib.Data.List.Nodup
import Mathlib.Logic.Function.Basic

/-! Owns the ChaCha20 of `ssh_crypto.c`, the packets that `send_pkt` of `sshd_gj.c` encrypts with
it, and which blocks of the keystream they take. It does not own the hash behind the keys and the
tags, which is a parameter, nor the way of a packet to the peer. -/

namespace GreenJade.Sshd

open Function BitVec

/-! ### ChaCha20 -/

/-- The input of a block: constants, key, counter and nonce. -/
abbrev ChachaState := Vector U32 16

def rl (v : U32) (n : Nat) : U32 := (v <<< n) ||| (v >>> (32 - n))

/-- One line pair of the quarter round: `*a += *b; *d ^= *a; *d = rl(*d, n)`. -/
def chachaMix (x : ChachaState) (a b d : Fin 16) (n : Nat) : ChachaState :=
  let x := x.set a (x[a] + x[b])
  x.set d (rl (x[d] ^^^ x[a]) n)

def chachaQr (x : ChachaState) (a b c d : Fin 16) : ChachaState :=
  chachaMix (chachaMix (chachaMix (chachaMix x a b d 16) c d b 12) a b d 8) c d b 7

def chachaRounds (x : ChachaState) : ChachaState :=
  let x := chachaQr (chachaQr (chachaQr (chachaQr x 0 4 8 12) 1 5 9 13) 2 6 10 14) 3 7 11 15
  chachaQr (chachaQr (chachaQr (chachaQr x 0 5 10 15) 1 6 11 12) 2 7 8 13) 3 4 9 14

def chachaBlock (input : ChachaState) : ChachaState :=
  Vector.zipWith (· + ·) (chachaRounds^[10] input) input

def word (bytes : Nat → U8) (i : Nat) : U32 :=
  (bytes (4 * i)).setWidth 32 ||| (bytes (4 * i + 1)).setWidth 32 <<< 8 |||
    (bytes (4 * i + 2)).setWidth 32 <<< 16 ||| (bytes (4 * i + 3)).setWidth 32 <<< 24

/-- "expand 32-byte k". -/
def sigma : List U8 :=
  [0x65, 0x78, 0x70, 0x61, 0x6e, 0x64, 0x20, 0x33, 0x32, 0x2d, 0x62, 0x79, 0x74, 0x65, 0x20, 0x6b]

/-- The input of the first block. -/
def chachaInit (key nonce : Nat → U8) (counter : U32) : ChachaState := .ofFn fun i =>
  if i = 12 then counter
  else if i.val < 4 then word (sigma.getD · 0) i
  else if i.val < 12 then word key (i - 4)
  else word nonce (i - 13)

theorem chachaInit_counter (key nonce : Nat → U8) (counter : U32) :
    (chachaInit key nonce counter)[12] = counter := by
  rw [chachaInit, Vector.getElem_ofFn]
  rfl

theorem chachaInit_set (key nonce : Nat → U8) (counter counter' : U32) :
    (chachaInit key nonce counter).set 12 counter' = chachaInit key nonce counter' := by
  ext i below
  rw [Vector.getElem_set]
  by_cases here : 12 = i
  · simp [chachaInit, ← here]
  · have other : (⟨i, below⟩ : Fin 16) ≠ 12 := fun same => here (congrArg Fin.val same).symm
    simp [chachaInit, here, other]

/-- Byte `j` of a block as it lies in memory. -/
def blockByte (blk : ChachaState) (j : Nat) : U8 :=
  (blk[Fin.ofNat 16 (j / 4)] >>> (8 * (j % 4))).setWidth 8

/-- The loop of `gj_ssh_chacha20_xor`: the data, and the blocks that were taken. -/
def xorLoop : Nat → ChachaState → List U8 → List U8 × List ChachaState
  | 0, _, _ => ([], [])
  | fuel + 1, st, data =>
    if data = [] then ([], [])
    else
      let blk := chachaBlock st
      let rest := xorLoop fuel (st.set 12 (st[12] + 1)) (data.drop 64)
      ((data.take 64).mapIdx (fun j byte => byte ^^^ blockByte blk j) ++ rest.1, st :: rest.2)

def gjSshChacha20Xor (key nonce : Nat → U8) (counter : U32) (data : List U8) :
    List U8 × List ChachaState :=
  xorLoop data.length (chachaInit key nonce counter) data

/-- The beginning of the vector in `ssh_crypto_chacha20_selfcheck`. -/
example : (gjSshChacha20Xor (BitVec.ofNat 8) (fun i => if i = 7 then 0x4a else 0) 1
    [0x4c, 0x61, 0x64, 0x69, 0x65, 0x73, 0x20, 0x61]).1 =
      [0x6e, 0x2e, 0x35, 0x9a, 0x25, 0x68, 0xf9, 0x80] := by
  decide +kernel

/-! ### Packets -/

/-- The keys and counters of one direction. -/
structure Direction where
  enc : Nat → U8
  int : Nat → U8
  iv : Nat → U8
  seqTx : U32
  seqRx : U32

structure Session where
  encrypted : Bool
  c2s : Direction
  s2c : Direction

/-- `derive_keys`: `hash` is SHA-256, and the letter picks the key. -/
def deriveKeys (hash : List U8 → Nat → U8) (K H sid : List U8) : Session :=
  let key (letter : U8) := hash (K ++ H ++ [letter] ++ sid)
  { encrypted := true
    c2s := { iv := key 0x41, enc := key 0x43, int := key 0x45, seqTx := 0, seqRx := 0 }
    s2c := { iv := key 0x42, enc := key 0x44, int := key 0x46, seqTx := 0, seqRx := 0 } }

def Session.direction (st : Session) (asServer : Bool) : Direction :=
  if asServer then st.s2c else st.c2s

def Session.countTx (st : Session) (asServer : Bool) : Session :=
  if asServer then { st with s2c := { st.s2c with seqTx := st.s2c.seqTx + 1 } }
  else { st with c2s := { st.c2s with seqTx := st.c2s.seqTx + 1 } }

/-- A packet: its length is 32 bits wide. -/
abbrev Packet := { bytes : List U8 // bytes.length < 2 ^ 32 }

/-- `send_pkt` encrypts packets with a body only. -/
def Packet.HasBody (pkt : Packet) : Prop := 5 ≤ pkt.val.length

instance : DecidablePred Packet.HasBody := fun _ => inferInstanceAs (Decidable (5 ≤ _))

/-- `send_pkt`: what goes to the network, the blocks that were taken, and the session after it.
`mac` is `product_mac` and `net` what the first `GJ_NET_OP_SEND` returns. -/
def sendPkt (mac : (Nat → U8) → U32 → List U8 → List U8) (st : Session) (asServer : Bool)
    (pkt : Packet) (net : Int) : List (List U8) × List ChachaState × Session :=
  let dir := st.direction asServer
  if st.encrypted ∧ pkt.HasBody then
    let (body, blocks) := gjSshChacha20Xor dir.enc dir.iv dir.seqTx (pkt.val.drop 4)
    let wire := pkt.val.take 4 ++ body
    (if 0 < net then [wire, mac dir.int dir.seqTx wire] else [wire], blocks, st.countTx asServer)
  else ([pkt.val], [], st)

/-- The blocks that a sequence of packets in one direction takes, one entry for each use. -/
def keystream (mac : (Nat → U8) → U32 → List U8 → List U8) (asServer : Bool) :
    Session → List (Packet × Int) → List ChachaState
  | _, [] => []
  | st, (pkt, net) :: rest =>
    (sendPkt mac st asServer pkt net).2.1 ++
      keystream mac asServer (sendPkt mac st asServer pkt net).2.2 rest

/-! ### Which blocks are taken -/

open List

def bodies (sends : List (Packet × Int)) : List Packet :=
  (sends.map Prod.fst).filter fun pkt => pkt.HasBody

def Packet.blocks (pkt : Packet) : Nat := (pkt.val.length - 4 + 63) / 64

/-- The counters of packets that take the given numbers of blocks, each packet starting one after
the start of the one before. -/
def counters (start : Nat) : List Nat → List Nat
  | [] => []
  | count :: rest => (List.range count).map (start + ·) ++ counters (start + 1) rest

theorem xorLoop_blocks (key nonce : Nat → U8) :
    ∀ (fuel start : Nat) (data : List U8), data.length ≤ fuel →
      (xorLoop fuel (chachaInit key nonce (BitVec.ofNat 32 start)) data).2 =
        (List.range ((data.length + 63) / 64)).map fun i =>
          chachaInit key nonce (BitVec.ofNat 32 (start + i)) := by
  intro fuel
  induction fuel with
  | zero =>
    intro start data short
    rw [length_eq_zero_iff.mp (Nat.le_zero.mp short)]
    rfl
  | succ fuel ih =>
    intro start data short
    unfold xorLoop
    split_ifs with done
    · rw [done]
      rfl
    · have some := length_pos_iff.mpr done
      have left : (data.drop 64).length ≤ fuel := by
        rw [length_drop]
        omega
      have count : (data.length + 63) / 64 = ((data.drop 64).length + 63) / 64 + 1 := by
        rw [length_drop]
        omega
      have advanced : (chachaInit key nonce (BitVec.ofNat 32 start))[12] + 1 =
          BitVec.ofNat 32 (start + 1) := by
        rw [chachaInit_counter]
        exact (ofNat_add ..).symm
      rw [advanced, chachaInit_set, count, range_succ_eq_map, map_cons, map_map]
      dsimp only
      rw [ih (start + 1) _ left]
      refine congrArg (_ :: ·) (map_congr_left fun i _ => ?_)
      rw [comp_apply, show start + 1 + i = start + i.succ by omega]

theorem keystream_eq (mac : (Nat → U8) → U32 → List U8 → List U8) (asServer : Bool)
    (sends : List (Packet × Int)) :
    ∀ (start : Nat) (st : Session), st.encrypted = true →
      (st.direction asServer).seqTx = BitVec.ofNat 32 start →
      keystream mac asServer st sends = (counters start ((bodies sends).map Packet.blocks)).map
        fun i => chachaInit (st.direction asServer).enc (st.direction asServer).iv
          (BitVec.ofNat 32 i) := by
  induction sends with
  | nil => exact fun _ _ _ _ => rfl
  | cons send rest ih =>
    obtain ⟨pkt, net⟩ := send
    intro start st encrypted seq
    unfold keystream sendPkt
    by_cases body : pkt.HasBody
    · rw [if_pos ⟨encrypted, body⟩]
      have counted : (st.countTx asServer).encrypted = true ∧
          ((st.countTx asServer).direction asServer).seqTx = BitVec.ofNat 32 (start + 1) ∧
          ((st.countTx asServer).direction asServer).enc = (st.direction asServer).enc ∧
          ((st.countTx asServer).direction asServer).iv = (st.direction asServer).iv := by
        rw [ofNat_add, ← seq]
        cases asServer <;> exact ⟨encrypted, rfl, rfl, rfl⟩
      have taken : bodies ((pkt, net) :: rest) = pkt :: bodies rest := by
        rw [bodies, map_cons, filter_cons_of_pos (by simpa using body)]
        rfl
      have later := ih (start + 1) _ counted.1 counted.2.1
      rw [counted.2.2.1, counted.2.2.2] at later
      dsimp only
      rw [later, taken, map_cons, counters, map_append, map_map, seq,
        gjSshChacha20Xor, xorLoop_blocks _ _ _ _ _ le_rfl, length_drop]
      rfl
    · rw [if_neg fun both => body both.2]
      have skipped : bodies ((pkt, net) :: rest) = bodies rest := by
        rw [bodies, map_cons, filter_cons_of_neg (by simpa using body)]
        rfl
      rw [skipped]
      exact ih start st encrypted seq

/-! ### When none is taken twice -/

theorem nodup_progression (start count : Nat) :
    ((List.range count).map fun i => BitVec.ofNat 32 (start + i)).Nodup ↔ count ≤ 2 ^ 32 := by
  have same {i j : Nat} : BitVec.ofNat 32 (start + i) = BitVec.ofNat 32 (start + j) ↔
      (start + i) % 2 ^ 32 = (start + j) % 2 ^ 32 := by
    rw [toNat_eq, toNat_ofNat, toNat_ofNat]
  constructor
  · intro distinct
    by_contra many
    have again := inj_on_of_nodup_map distinct (x := 0) (y := 2 ^ 32)
      (mem_range.mpr (by omega)) (mem_range.mpr (by omega)) (same.mpr (by omega))
    omega
  · intro few
    refine nodup_range.map_on fun i inside j inside' equal => ?_
    rw [mem_range] at inside inside'
    have equal := same.mp equal
    omega

variable {counts : List Nat}

/-- A packet of more than one block runs into the next. -/
theorem single_of_nodup (some : ∀ count ∈ counts, 0 < count) (start : Nat)
    (distinct : ((counters start counts).map (BitVec.ofNat 32)).Nodup) :
    ∀ count ∈ counts.dropLast, count = 1 := by
  induction counts generalizing start with
  | nil => exact fun _ member => nomatch member
  | cons count rest ih =>
    cases rest with
    | nil => exact fun _ member => nomatch member
    | cons next rest =>
      rw [counters, map_append, nodup_append] at distinct
      have one : count = 1 := by
        by_contra more
        have positive := some count mem_cons_self
        have positive' := some next (mem_cons_of_mem _ mem_cons_self)
        refine distinct.2.2 (BitVec.ofNat 32 (start + 1)) ?_ _ ?_ rfl
        · exact mem_map_of_mem (mem_map.mpr ⟨1, mem_range.mpr (by omega), rfl⟩)
        · refine mem_map_of_mem (mem_append_left _ ?_)
          exact mem_map.mpr ⟨0, mem_range.mpr positive', rfl⟩
      intro other member
      rw [dropLast_cons_cons, mem_cons] at member
      rcases member with rfl | member
      · exact one
      · exact ih (fun count member => some count (.tail _ member)) _ distinct.2.1 other member

theorem counters_of_single (single : ∀ count ∈ counts.dropLast, count = 1)
    (start : Nat) : counters start counts = (List.range counts.sum).map (start + ·) := by
  induction counts generalizing start with
  | nil => rfl
  | cons count rest ih =>
    cases rest with
    | nil => simp [counters]
    | cons next rest =>
      obtain rfl := single count mem_cons_self
      rw [counters, ih fun count member => single count (.tail _ member),
        sum_cons (a := 1), Nat.add_comm 1, range_succ_eq_map (n := List.sum _),
        map_cons, map_map]
      refine congrArg (start :: ·) (map_congr_left fun i _ => ?_)
      rw [comp_apply]
      omega

theorem nodup_counters (some : ∀ count ∈ counts, 0 < count) (start : Nat) :
    ((counters start counts).map (BitVec.ofNat 32)).Nodup ↔
      (∀ count ∈ counts.dropLast, count = 1) ∧ counts.sum ≤ 2 ^ 32 := by
  constructor
  · intro distinct
    have single := single_of_nodup some start distinct
    rw [counters_of_single single, map_map] at distinct
    exact ⟨single, (nodup_progression start _).mp distinct⟩
  · rintro ⟨single, few⟩
    rw [counters_of_single single, map_map]
    exact (nodup_progression start _).mpr few

/-- No block of the keystream is taken twice exactly if every packet but the last is of one block
and all of them together take no more blocks than there are counters. -/
theorem keystream_fresh_iff (hash : List U8 → Nat → U8)
    (mac : (Nat → U8) → U32 → List U8 → List U8) (K H sid : List U8) (asServer : Bool)
    (sends : List (Packet × Int)) :
    (keystream mac asServer (deriveKeys hash K H sid) sends).Nodup ↔
      (∀ pkt ∈ (bodies sends).dropLast, pkt.val.length ≤ 68) ∧
        ((bodies sends).map Packet.blocks).sum ≤ 2 ^ 32 := by
  have hasBody (pkt : Packet) (member : pkt ∈ bodies sends) : 5 ≤ pkt.val.length := by
    exact of_decide_eq_true (mem_filter.mp member).2
  have taken := keystream_eq mac asServer sends 0
    (deriveKeys hash K H sid) rfl (by cases asServer <;> rfl)
  have distinct {st : Direction} {indices : List Nat} :
      (indices.map fun i => chachaInit st.enc st.iv (BitVec.ofNat 32 i)).Nodup ↔
        (indices.map (BitVec.ofNat 32)).Nodup := by
    rw [← nodup_map_iff (f := fun counter : U32 => chachaInit st.enc st.iv counter)
      fun _ _ same => by simpa only [chachaInit_counter] using congrArg (fun st => st[12]) same,
      map_map]
    rfl
  rw [taken, distinct, nodup_counters]
  · refine and_congr_left fun _ => ?_
    rw [← map_dropLast, forall_mem_map]
    refine forall₂_congr fun pkt member => ?_
    have long := hasBody pkt (mem_of_mem_dropLast member)
    rw [Packet.blocks]
    omega
  · rintro _ member
    obtain ⟨pkt, inside, rfl⟩ := mem_map.mp member
    have long := hasBody pkt inside
    rw [Packet.blocks]
    omega

/-- Two packets with a body of 65 bytes: the second block of the first is the first block of the
second. -/
def sampleSends : List (Packet × Int) := List.replicate 2 (⟨List.replicate 69 0, by decide⟩, 69)

theorem keystream_fresh_reused :
    keystream (fun _ _ _ => []) true (deriveKeys (fun _ _ => 0) [] [] []) sampleSends =
        [0, 1, 1, 2].map (chachaInit (fun _ => 0) fun _ => 0) ∧
      ¬ (keystream (fun _ _ _ => []) true (deriveKeys (fun _ _ => 0) [] [] [])
        sampleSends).Nodup := by
  have taken := keystream_eq (fun _ _ _ => []) true sampleSends 0
    (deriveKeys (fun _ _ => 0) [] [] []) rfl rfl
  have indices : counters 0 ((bodies sampleSends).map Packet.blocks) = [0, 1, 1, 2] := by
    decide +kernel
  rw [indices] at taken
  refine ⟨taken, fun distinct => ?_⟩
  rw [taken] at distinct
  simp at distinct

end GreenJade.Sshd

import GreenJade.Cap.Types
import GreenJade.Lib.LinkedChain
import Mathlib.Data.Fintype.Card
import Mathlib.Data.Fintype.Basic
import Mathlib.Data.List.FinRange
import Mathlib.Tactic.SplitIfs

/-! Owns the capability derivation tree of `cnode.c`: the pool of 256 edges, the chain of
edges that hangs off each object, and linking, unlinking and wiring an edge. It owns the
representation invariant of pool and chains. It does not own what the slots behind the
edges hold. -/

namespace GreenJade.Cap

open Function LinkedChain List

universe u v

abbrev cdtEdgePool : Nat := 256

abbrev EdgePtr := Fin cdtEdgePool

structure CdtEdge (C : Type u) where
  next : Option EdgePtr
  cnode : Option C
  slot : Nat

def CdtEdge.cleared {C : Type u} : CdtEdge C := { next := none, cnode := none, slot := 0 }

/-- The edge pool with its bookkeeping, and `pCdtHead` of every object. -/
structure Cdt (C : Type u) (O : Type v) where
  head : O → Option EdgePtr
  edge : EdgePtr → CdtEdge C
  used : EdgePtr → Bool
  poolUsed : U32

variable {C : Type u} {O : Type v}

namespace Cdt

def boot : Cdt C O :=
  { head := fun _ => none, edge := fun _ => .cleared, used := fun _ => false, poolUsed := 0 }

def next (cdt : Cdt C O) (edge : EdgePtr) : Option EdgePtr := (cdt.edge edge).next

def place (cdt : Cdt C O) (edge : EdgePtr) : Option C × Nat :=
  ((cdt.edge edge).cnode, (cdt.edge edge).slot)

def chain (cdt : Cdt C O) (o : O) : List EdgePtr := walk cdt.next cdtEdgePool (cdt.head o)

end Cdt

/-! ### The source functions -/

/-- `cdt_edge_alloc`: the first unused edge of the pool. -/
def cdtEdgeAlloc (cdt : Cdt C O) : Option (EdgePtr × Cdt C O) :=
  match (List.finRange cdtEdgePool).find? fun edge => !cdt.used edge with
  | none => none
  | some edge =>
    some (edge, { cdt with
      edge := update cdt.edge edge .cleared
      used := update cdt.used edge true
      poolUsed := saturatingInc cdt.poolUsed })

def cdtEdgeFree (cdt : Cdt C O) (edge : EdgePtr) : Cdt C O :=
  { cdt with
    edge := update cdt.edge edge .cleared
    used := update cdt.used edge false
    poolUsed :=
      if cdt.used edge = true ∧ 0 < cdt.poolUsed then cdt.poolUsed - 1 else cdt.poolUsed }

section Functions

variable [DecidableEq O]

/-- `gj_cdt_edge_link`; `cSlots` is the size of the CNode. -/
def gjCdtEdgeLink (cdt : Cdt C O) (o : O) (edge : EdgePtr) (cnode : C) (slot cSlots : Nat) :
    GjStatus × Cdt C O :=
  if cSlots ≤ slot then (.errInval, cdt)
  else if edge ∈ cdt.chain o then (.errBusy, cdt)
  else (.ok, { cdt with
    head := update cdt.head o (some edge)
    edge := update cdt.edge edge
      { next := cdt.head o, cnode := some cnode, slot } })

/-- The relinking of `gj_cdt_edge_unlink` around `edge`, before the edge is cleared. -/
def relink (cdt : Cdt C O) (o : O) (edge : EdgePtr) : Option EdgePtr → Cdt C O
  | none => { cdt with head := update cdt.head o (cdt.next edge) }
  | some previous => { cdt with
      edge := update cdt.edge previous
        { cdt.edge previous with next := cdt.next edge } }

/-- `gj_cdt_edge_unlink`: nothing happens when the edge is not on the chain. -/
def gjCdtEdgeUnlink (cdt : Cdt C O) (o : O) (edge : EdgePtr) : Cdt C O :=
  match findPrevious cdt.next edge cdtEdgePool (cdt.head o) none with
  | none => cdt
  | some previous => cdtEdgeFree (relink cdt o edge previous) edge

/-- `cdt_edge_try_wire`: a full pool or a refused link leaves the slot without an edge. -/
def cdtEdgeTryWire (cdt : Cdt C O) (o : O) (cnode : C) (slot cSlots : Nat) : Cdt C O :=
  match cdtEdgeAlloc cdt with
  | none => cdt
  | some (edge, taken) =>
    match gjCdtEdgeLink taken o edge cnode slot cSlots with
    | (.ok, linked) => linked
    | (_, refused) => cdtEdgeFree refused edge

variable [DecidableEq C]

/-- The loop of `gj_cdt_unlink_slot`; `pNext` is read before the edge is freed. -/
def unlinkSlotLoop (o : O) (cnode : C) (slot : Nat) : Nat → Option EdgePtr → Cdt C O → Cdt C O
  | 0, _, cdt => cdt
  | _ + 1, none, cdt => cdt
  | fuel + 1, some edge, cdt =>
    let saved := cdt.next edge
    if cdt.place edge = (some cnode, slot) then
      unlinkSlotLoop o cnode slot fuel saved (gjCdtEdgeUnlink cdt o edge)
    else unlinkSlotLoop o cnode slot fuel saved cdt

def gjCdtUnlinkSlot (cdt : Cdt C O) (o : O) (cnode : C) (slot : Nat) : Cdt C O :=
  unlinkSlotLoop o cnode slot cdtEdgePool (cdt.head o) cdt

end Functions

/-! ### The representation invariant -/

/-- Chains are finite and disjoint, and the pool's bookkeeping counts exactly the edges
that are on a chain. -/
structure Cdt.Sound (cdt : Cdt C O) : Prop where
  chained : ∀ o, IsChain cdt.next (cdt.head o) (cdt.chain o)
  apart : ∀ o o' edge, edge ∈ cdt.chain o → edge ∈ cdt.chain o' → o = o'
  used_iff : ∀ edge, cdt.used edge = true ↔ ∃ o, edge ∈ cdt.chain o
  poolUsed_eq : cdt.poolUsed.toNat = (Finset.univ.filter fun edge => cdt.used edge = true).card

namespace Cdt

variable {cdt cdt' : Cdt C O} {o : O} {edge : EdgePtr}

theorem length_le_pool {nodes : List EdgePtr} {head : Option EdgePtr}
    {next : EdgePtr → Option EdgePtr} (chain : IsChain next head nodes) :
    nodes.length ≤ cdtEdgePool := by
  simpa using chain.nodup.length_le_card

/-- The pool is as large as any chain, so the bounded walk reads a chain to its end. -/
theorem chain_eq {nodes : List EdgePtr} (chain : IsChain cdt.next (cdt.head o) nodes) :
    cdt.chain o = nodes :=
  walk_eq_of_isChain chain (length_le_pool chain)

theorem boot_chain (o : O) : (boot : Cdt C O).chain o = [] := rfl

theorem Sound.boot : (Cdt.boot : Cdt C O).Sound where
  chained := fun _ => .nil
  apart := fun o o' edge member => by simp [boot_chain] at member
  used_iff := fun edge =>
    ⟨fun taken => absurd taken Bool.false_ne_true,
      fun ⟨o, member⟩ => by simp [boot_chain] at member⟩
  poolUsed_eq := by simp [Cdt.boot]

theorem Sound.used_of_mem (sound : cdt.Sound) (member : edge ∈ cdt.chain o) :
    cdt.used edge = true :=
  (sound.used_iff edge).mpr ⟨o, member⟩

/-- `cdt'` is sound, its chains are those given, and the edges that stay on a chain keep
the slot they name. -/
structure Becomes (cdt cdt' : Cdt C O) (chains : O → List EdgePtr) : Prop where
  sound : cdt'.Sound
  chain : ∀ o, cdt'.chain o = chains o
  place : ∀ o, ∀ edge ∈ cdt.chain o, (∃ o', edge ∈ chains o') → cdt'.place edge = cdt.place edge

theorem Sound.of_chains (chains : O → List EdgePtr)
    (chained : ∀ o, IsChain cdt.next (cdt.head o) (chains o))
    (apart : ∀ o o' edge, edge ∈ chains o → edge ∈ chains o' → o = o')
    (used_iff : ∀ edge, cdt.used edge = true ↔ ∃ o, edge ∈ chains o)
    (poolUsed_eq : cdt.poolUsed.toNat =
      (Finset.univ.filter fun edge => cdt.used edge = true).card) :
    cdt.Sound ∧ ∀ o, cdt.chain o = chains o := by
  have same : cdt.chain = chains := funext fun o => chain_eq (chained o)
  refine ⟨⟨?_, ?_, ?_, poolUsed_eq⟩, fun o => congrFun same o⟩
  all_goals rwa [same]

end Cdt

/-! ### Taking and returning a pool edge -/

/-- Marking one more edge adds one to the number of marked edges. -/
theorem card_used_take {used : EdgePtr → Bool} {edge : EdgePtr} (free : used edge = false) :
    (Finset.univ.filter fun e => update used edge true e = true).card =
      (Finset.univ.filter fun e => used e = true).card + 1 := by
  have insert : (Finset.univ.filter fun e => update used edge true e = true) =
      insert edge (Finset.univ.filter fun e => used e = true) := by
    ext e
    by_cases here : e = edge
    · subst here
      simp
    · simp [here]
  rw [insert, Finset.card_insert_of_notMem (by simp [free])]

theorem card_used_return {used : EdgePtr → Bool} {edge : EdgePtr} (taken : used edge = true) :
    (Finset.univ.filter fun e => update used edge false e = true).card + 1 =
      (Finset.univ.filter fun e => used e = true).card := by
  have restored : update (update used edge false) edge true = used := by
    rw [update_idem, ← taken, update_eq_self]
  have free : update used edge false edge = false := update_self ..
  rw [← card_used_take free, restored]

theorem card_used_le (used : EdgePtr → Bool) :
    (Finset.univ.filter fun e => used e = true).card ≤ cdtEdgePool := by
  simpa using Finset.card_le_univ (Finset.univ.filter fun e => used e = true)

/-- The allocator returns an unused edge, or the whole pool is in use. -/
theorem cdtEdgeAlloc_cases (cdt : Cdt C O) :
    (cdtEdgeAlloc cdt = none ∧ ∀ edge, cdt.used edge = true) ∨
      ∃ edge, cdt.used edge = false ∧ cdtEdgeAlloc cdt = some (edge, { cdt with
        edge := update cdt.edge edge .cleared
        used := update cdt.used edge true
        poolUsed := saturatingInc cdt.poolUsed }) := by
  unfold cdtEdgeAlloc
  cases found : (List.finRange cdtEdgePool).find? fun edge => !cdt.used edge with
  | none =>
    left
    refine ⟨rfl, fun edge => ?_⟩
    have all := find?_eq_none.mp found edge (mem_finRange edge)
    simpa using all
  | some edge =>
    right
    refine ⟨edge, ?_, rfl⟩
    simpa using find?_some found

theorem saturatingInc_toNat {counter : U32} (small : counter.toNat < 0xffffffff) :
    (saturatingInc counter).toNat = counter.toNat + 1 := by
  unfold saturatingInc
  have below : counter < 0xffffffff := small
  rw [if_pos below]
  bv_omega

section Specs

variable {cdt : Cdt C O} {o : O} {edge : EdgePtr}

theorem filter_ne_eq_self {nodes : List EdgePtr} (absent : edge ∉ nodes) :
    nodes.filter (· ≠ edge) = nodes :=
  filter_eq_self.mpr fun _ listed => decide_eq_true fun same => absent (same ▸ listed)

variable {node : EdgePtr}

theorem cdtEdgeFree_next_of_ne (different : node ≠ edge) :
    (cdtEdgeFree cdt edge).next node = cdt.next node := by
  simp [cdtEdgeFree, Cdt.next, update_of_ne different]

theorem cdtEdgeFree_place_of_ne (different : node ≠ edge) :
    (cdtEdgeFree cdt edge).place node = cdt.place node := by
  simp [cdtEdgeFree, Cdt.place, update_of_ne different]

theorem Cdt.Becomes.trans_of_subset {middle last : Cdt C O} {chains chains' : O → List EdgePtr}
    (first : cdt.Becomes middle chains) (second : middle.Becomes last chains')
    (shrinks : ∀ x, chains' x ⊆ chains x) : cdt.Becomes last chains' where
  sound := second.sound
  chain := second.chain
  place := by
    rintro x node listed ⟨y, kept⟩
    have between : node ∈ chains y := shrinks y kept
    rw [second.place y node (first.chain y ▸ between) ⟨y, kept⟩,
      first.place x node listed ⟨y, between⟩]

variable [DecidableEq O]

theorem mem_update_chain {chains : O → List EdgePtr} {nodes : List EdgePtr} {x : O} :
    edge ∈ update chains o nodes x ↔ (x = o ∧ edge ∈ nodes) ∨ (x ≠ o ∧ edge ∈ chains x) := by
  by_cases here : x = o
  · subst here
    simp
  · simp [here]

/-- An unused edge put in front of one chain. -/
theorem Cdt.Sound.becomes_wired (sound : cdt.Sound) (free : cdt.used edge = false)
    (cnode : C) (slot : Nat) {wired : Cdt C O}
    (head : wired.head = update cdt.head o (some edge))
    (edges : wired.edge = update cdt.edge edge { next := cdt.head o, cnode := some cnode, slot })
    (used : wired.used = update cdt.used edge true)
    (poolUsed : wired.poolUsed = saturatingInc cdt.poolUsed) :
    cdt.Becomes wired (update cdt.chain o (edge :: cdt.chain o)) ∧
      wired.place edge = (some cnode, slot) := by
  have unlisted : ∀ x, edge ∉ cdt.chain x := fun x member =>
    Bool.false_ne_true (free.symm.trans (sound.used_of_mem member))
  have keeps : ∀ x, ∀ node ∈ cdt.chain x, wired.edge node = cdt.edge node := by
    intro x node member
    have different : node ≠ edge := fun same => unlisted x (same ▸ member)
    rw [edges, update_of_ne different]
  suffices result : wired.Sound ∧
      ∀ x, wired.chain x = update cdt.chain o (edge :: cdt.chain o) x from
    ⟨⟨result.1, result.2, fun x node member _ => by simp only [Cdt.place, keeps x node member]⟩,
      by simp [Cdt.place, edges]⟩
  refine Cdt.Sound.of_chains _ ?_ ?_ ?_ ?_
  · intro x
    rw [head]
    by_cases here : x = o
    · subst here
      simp only [update_self]
      refine (sound.chained x).push (by simp [Cdt.next, edges]) fun node member => ?_
      simp [Cdt.next, keeps x node member]
    · simp only [update_of_ne here]
      exact (sound.chained x).congr fun node member => by simp only [Cdt.next, keeps x node member]
  · intro x x' node member member'
    rcases mem_update_chain.mp member with ⟨rfl, listed⟩ | ⟨other, listed⟩ <;>
      rcases mem_update_chain.mp member' with ⟨rfl, listed'⟩ | ⟨other', listed'⟩
    · rfl
    · rcases mem_cons.mp listed with rfl | old
      · exact absurd listed' (unlisted x')
      · exact sound.apart x x' node old listed'
    · rcases mem_cons.mp listed' with rfl | old
      · exact absurd listed (unlisted x)
      · exact sound.apart x x' node listed old
    · exact sound.apart x x' node listed listed'
  · intro node
    rw [used]
    by_cases here : node = edge
    · subst here
      simp only [update_self, true_iff]
      exact ⟨o, by simp⟩
    · rw [update_of_ne here, sound.used_iff]
      refine exists_congr fun x => ?_
      by_cases same : x = o
      · subst same
        simp [here]
      · simp [same]
  · have small : cdt.poolUsed.toNat < 0xffffffff := by
      have bound := card_used_le cdt.used
      rw [← sound.poolUsed_eq] at bound
      exact bound.trans_lt (by decide)
    rw [poolUsed, used, saturatingInc_toNat small, card_used_take free, sound.poolUsed_eq]

/-- Wiring an in-range slot either finds the whole pool in use and changes nothing, or
puts one unused edge that names the slot in front of the object's chain. -/
theorem cdtEdgeTryWire_cases (sound : cdt.Sound) (cnode : C) {slot cSlots : Nat}
    (inRange : slot < cSlots) :
    ((∀ edge, cdt.used edge = true) ∧ cdtEdgeTryWire cdt o cnode slot cSlots = cdt) ∨
      ∃ edge, cdt.used edge = false ∧ cdt.Becomes (cdtEdgeTryWire cdt o cnode slot cSlots)
          (update cdt.chain o (edge :: cdt.chain o)) ∧
        (cdtEdgeTryWire cdt o cnode slot cSlots).place edge = (some cnode, slot) := by
  rcases cdtEdgeAlloc_cases cdt with ⟨none, full⟩ | ⟨edge, free, taken⟩
  · left
    exact ⟨full, by simp [cdtEdgeTryWire, none]⟩
  · right
    refine ⟨edge, free, ?_⟩
    have unlisted : edge ∉ cdt.chain o := fun member =>
      Bool.false_ne_true (free.symm.trans (sound.used_of_mem member))
    have sameChain : Cdt.chain { cdt with
        edge := update cdt.edge edge .cleared
        used := update cdt.used edge true
        poolUsed := saturatingInc cdt.poolUsed } o = cdt.chain o := by
      refine Cdt.chain_eq ((sound.chained o).congr fun node member => ?_)
      have different : node ≠ edge := fun same => unlisted (same ▸ member)
      simp [Cdt.next, update_of_ne different]
    simp only [cdtEdgeTryWire, taken, gjCdtEdgeLink, sameChain, if_neg unlisted,
      if_neg (Nat.not_le.mpr inRange)]
    exact sound.becomes_wired free cnode slot rfl (by simp) rfl rfl

/-! ### Unlinking -/

@[simp]
theorem relink_used (previous : Option EdgePtr) : (relink cdt o edge previous).used = cdt.used := by
  cases previous <;> rfl

@[simp]
theorem relink_poolUsed (previous : Option EdgePtr) :
    (relink cdt o edge previous).poolUsed = cdt.poolUsed := by
  cases previous <;> rfl

theorem relink_head_of_ne {x : O} (different : x ≠ o) (previous : Option EdgePtr) :
    (relink cdt o edge previous).head x = cdt.head x := by
  cases previous with
  | none => simp [relink, update_of_ne different]
  | some _ => rfl

theorem relink_next_of_ne {previous : Option EdgePtr} (different : previous ≠ some node) :
    (relink cdt o edge previous).next node = cdt.next node := by
  cases previous with
  | none => rfl
  | some before =>
    have apart : node ≠ before := fun same => different (by rw [same])
    simp [relink, Cdt.next, update_of_ne apart]

@[simp]
theorem relink_place (previous : Option EdgePtr) (node : EdgePtr) :
    (relink cdt o edge previous).place node = cdt.place node := by
  cases previous with
  | none => rfl
  | some before =>
    by_cases here : node = before
    · subst here
      simp [relink, Cdt.place]
    · simp [relink, Cdt.place, update_of_ne here]

variable {front back : List EdgePtr}

/-- The chain the edge is taken from, after the relinking. -/
theorem Cdt.Sound.isChain_relinked (sound : cdt.Sound)
    (split : cdt.chain o = front ++ edge :: back) :
    IsChain (cdtEdgeFree (relink cdt o edge front.getLast?) edge).next
      ((relink cdt o edge front.getLast?).head o) (front ++ back) := by
  have chained : IsChain cdt.next (cdt.head o) (front ++ edge :: back) := split ▸ sound.chained o
  have unrepeated := chained.nodup
  rcases eq_nil_or_concat front with rfl | ⟨before, previous, rfl⟩
  · have head : (relink cdt o edge [].getLast?).head o = cdt.next edge := by simp [relink]
    rw [head]
    refine chained.tail.congr fun node member => ?_
    have different : node ≠ edge := by
      rintro rfl
      simp [member] at unrepeated
    rw [cdtEdgeFree_next_of_ne different, relink_next_of_ne (by simp)]
  · simp only [concat_eq_append, append_assoc] at chained unrepeated ⊢
    rw [show (before ++ [previous]).getLast? = some previous by simp]
    have apart : previous ≠ edge := by
      rintro rfl
      simp [nodup_append] at unrepeated
    refine chained.splice ?_ fun node member different => ?_
    · rw [cdtEdgeFree_next_of_ne apart]
      simp [relink, Cdt.next]
    · have kept : node ≠ edge := by
        grind
      rw [cdtEdgeFree_next_of_ne kept, relink_next_of_ne (by simpa using different.symm)]

/-- An edge taken off one chain goes back to the pool; every other chain is as it was. -/
theorem Cdt.Sound.becomes_unlinked (sound : cdt.Sound)
    (split : cdt.chain o = front ++ edge :: back) :
    cdt.Becomes (cdtEdgeFree (relink cdt o edge front.getLast?) edge)
      (update cdt.chain o (front ++ back)) := by
  have member : edge ∈ cdt.chain o := by simp [split]
  have taken : cdt.used edge = true := sound.used_of_mem member
  have unrepeated : (front ++ edge :: back).Nodup := split ▸ (sound.chained o).nodup
  have gone : edge ∉ front ++ back := by
    rw [nodup_middle] at unrepeated
    exact (nodup_cons.mp unrepeated).1
  have absent : ∀ x, edge ∉ update cdt.chain o (front ++ back) x := by
    intro x listed
    rcases mem_update_chain.mp listed with ⟨-, rest⟩ | ⟨other, rest⟩
    · exact gone rest
    · exact other (sound.apart x o edge rest member)
  suffices result : (cdtEdgeFree (relink cdt o edge front.getLast?) edge).Sound ∧
      ∀ x, (cdtEdgeFree (relink cdt o edge front.getLast?) edge).chain x =
        update cdt.chain o (front ++ back) x by
    refine ⟨result.1, result.2, fun x node listed kept => ?_⟩
    have different : node ≠ edge := by
      rintro rfl
      obtain ⟨y, stays⟩ := kept
      exact absent y stays
    rw [cdtEdgeFree_place_of_ne different, relink_place]
  refine Cdt.Sound.of_chains _ ?_ ?_ ?_ ?_
  · intro x
    by_cases here : x = o
    · subst here
      simp only [update_self]
      exact sound.isChain_relinked split
    · have head : (cdtEdgeFree (relink cdt o edge front.getLast?) edge).head x = cdt.head x :=
        relink_head_of_ne here _
      rw [update_of_ne here, head]
      refine (sound.chained x).congr fun node listed => ?_
      have elsewhere : node ∉ cdt.chain o := fun inO => here (sound.apart x o node listed inO)
      have notLast : front.getLast? ≠ some node := fun last =>
        elsewhere (split ▸ mem_append_left _ (mem_of_getLast? last))
      have different : node ≠ edge := fun same => elsewhere (same ▸ member)
      rw [cdtEdgeFree_next_of_ne different, relink_next_of_ne notLast]
  · intro x x' node listed listed'
    have back_to : ∀ y, node ∈ update cdt.chain o (front ++ back) y → node ∈ cdt.chain y := by
      intro y inNew
      rcases mem_update_chain.mp inNew with ⟨rfl, rest⟩ | ⟨-, rest⟩
      · rw [split]
        exact mem_append.mpr ((mem_append.mp rest).imp_right (mem_cons_of_mem _))
      · exact rest
    exact sound.apart x x' node (back_to x listed) (back_to x' listed')
  · intro node
    simp only [cdtEdgeFree, relink_used]
    by_cases here : node = edge
    · subst here
      simp only [update_self, Bool.false_eq_true, false_iff, not_exists]
      exact absent
    · rw [update_of_ne here, sound.used_iff]
      refine exists_congr fun x => ?_
      by_cases same : x = o
      · subst same
        simp [split, here]
      · simp [same]
  · have card := card_used_return taken
    have count := sound.poolUsed_eq
    have positive : 0 < cdt.poolUsed := by bv_omega
    have pool : (cdtEdgeFree (relink cdt o edge front.getLast?) edge).poolUsed =
        cdt.poolUsed - 1 := by
      simp only [cdtEdgeFree, relink_used, relink_poolUsed]
      exact if_pos ⟨taken, positive⟩
    rw [pool]
    simp only [cdtEdgeFree, relink_used]
    bv_omega

/-- `gj_cdt_edge_unlink` removes exactly the given edge from the object's chain. -/
theorem gjCdtEdgeUnlink_becomes (sound : cdt.Sound) (o : O) (edge : EdgePtr) :
    cdt.Becomes (gjCdtEdgeUnlink cdt o edge)
      (update cdt.chain o ((cdt.chain o).filter (· ≠ edge))) := by
  unfold gjCdtEdgeUnlink
  by_cases member : edge ∈ cdt.chain o
  · obtain ⟨front, back, split⟩ := append_of_mem member
    have chained : IsChain cdt.next (cdt.head o) (front ++ edge :: back) := split ▸ sound.chained o
    have fits : front.length < cdtEdgePool := by
      have length := Cdt.length_le_pool chained
      rw [length_append, length_cons] at length
      omega
    have unrepeated := chained.nodup
    have filtered : (cdt.chain o).filter (· ≠ edge) = front ++ back := by
      rw [nodup_middle, nodup_cons, mem_append, not_or] at unrepeated
      simp only [split, filter_append, filter_cons]
      rw [filter_ne_eq_self unrepeated.1.1, filter_ne_eq_self unrepeated.1.2]
      simp
    rw [filtered, findPrevious_of_split chained fits, Option.or_none]
    exact sound.becomes_unlinked split
  · rw [findPrevious_of_not_mem (sound.chained o) member, filter_ne_eq_self member, update_eq_self]
    exact ⟨sound, fun _ => rfl, fun _ _ _ _ => rfl⟩

variable [DecidableEq C] {cnode : C} {slot : Nat}

/-- The loop invariant of `gj_cdt_unlink_slot`: the walk has kept `kept` and still has
`rest` before it, whose first node is the saved pointer. -/
theorem unlinkSlotLoop_becomes (rest : List EdgePtr) :
    ∀ (cdt : Cdt C O) (kept : List EdgePtr) (fuel : Nat), cdt.Sound →
      cdt.chain o = kept ++ rest → rest.length ≤ fuel →
      cdt.Becomes (unlinkSlotLoop o cnode slot fuel rest.head? cdt) (update cdt.chain o
          (kept ++ rest.filter fun edge => cdt.place edge ≠ (some cnode, slot))) := by
  induction rest with
  | nil =>
    intro cdt kept fuel sound split _
    have stops : unlinkSlotLoop o cnode slot fuel none cdt = cdt := by cases fuel <;> rfl
    rw [head?_nil, stops, filter_nil, ← split, update_eq_self]
    exact ⟨sound, fun _ => rfl, fun _ _ _ _ => rfl⟩
  | cons edge rest ih =>
    intro cdt kept fuel sound split enough
    cases fuel with
    | zero => simp at enough
    | succ fuel =>
      have chained : IsChain cdt.next (cdt.head o) (kept ++ edge :: rest) := split ▸ sound.chained o
      have saved : cdt.next edge = rest.head? := chained.suffix.next_eq
      have short : rest.length ≤ fuel := by simpa using enough
      rw [head?_cons, unlinkSlotLoop, saved]
      by_cases hit : cdt.place edge = (some cnode, slot)
      · have unlinked := gjCdtEdgeUnlink_becomes sound o edge
        have unrepeated := chained.nodup
        rw [nodup_middle, nodup_cons, mem_append, not_or] at unrepeated
        have without : (cdt.chain o).filter (· ≠ edge) = kept ++ rest := by
          simp only [split, filter_append, filter_cons]
          rw [filter_ne_eq_self unrepeated.1.1, filter_ne_eq_self unrepeated.1.2]
          simp
        rw [without] at unlinked
        have chains : (gjCdtEdgeUnlink cdt o edge).chain =
            update cdt.chain o (kept ++ rest) := funext unlinked.chain
        have following := ih (gjCdtEdgeUnlink cdt o edge) kept fuel
          unlinked.sound (by simp [chains]) short
        have samePlaces : (rest.filter fun node =>
            (gjCdtEdgeUnlink cdt o edge).place node ≠ (some cnode, slot)) =
              rest.filter fun node => cdt.place node ≠ (some cnode, slot) := by
          refine filter_congr fun node listed => ?_
          rw [unlinked.place o node (by simp [split, listed]) ⟨o, by simp [listed]⟩]
        rw [samePlaces, chains, update_idem] at following
        rw [if_pos hit, filter_cons_of_neg (by simpa using hit)]
        refine unlinked.trans_of_subset following fun x node listed => ?_
        rcases mem_update_chain.mp listed with ⟨rfl, stays⟩ | ⟨other, stays⟩
        · rw [update_self]
          exact mem_append.mpr ((mem_append.mp stays).imp_right mem_of_mem_filter)
        · rwa [update_of_ne other]
      · have following := ih cdt (kept ++ [edge]) fuel sound (by simpa using split) short
        rw [if_neg hit, filter_cons_of_pos (by simpa using hit)]
        simpa using following

/-- `gj_cdt_unlink_slot` removes exactly the edges of the object that name the slot. -/
theorem gjCdtUnlinkSlot_becomes (sound : cdt.Sound) (o : O) (cnode : C) (slot : Nat) :
    cdt.Becomes (gjCdtUnlinkSlot cdt o cnode slot) (update cdt.chain o
        ((cdt.chain o).filter fun edge => cdt.place edge ≠ (some cnode, slot))) := by
  have chained := sound.chained o
  rw [gjCdtUnlinkSlot, chained.head_eq]
  exact unlinkSlotLoop_becomes (cdt.chain o) cdt [] cdtEdgePool sound rfl
    (Cdt.length_le_pool chained)

end Specs

end GreenJade.Cap

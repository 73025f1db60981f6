import GreenJade.Cap.Accounting
import Mathlib.Order.CompletePartialOrder

/-! Owns what the derivation tree looks like to a client: which edges hang off the client's
objects, and which of the edges that the pool has given out these are. Until the self-test has
run they are all of them; it returns with edges still linked to objects of its own frame, and
from then on they are those that name a slot of a client. It does not own the steps of that
self-test. -/

namespace GreenJade.Cap

open LinkedChain

universe u v w

variable {C : Type u} {O : Type v} {Q : Type w}

/-- The chains of the objects outside the self-tests' frames are well formed and hold the given
edges, each exactly once. -/
structure EdgesAccounted (frame : LeanFrame C O Q) (s : CapState C O Q) (given : Set EdgePtr) :
    Prop where
  chained : ∀ o ∉ frame.objects, IsChain s.cdt.next (s.cdt.head o) (s.cdt.chain o)
  nodup : ∀ o ∉ frame.objects, (s.cdt.chain o).Nodup
  named : ∀ o ∉ frame.objects, ∀ edge ∈ s.cdt.chain o,
    ∃ c i, s.cdt.place edge = (some c, i) ∧ s.Holds c i o
  distinct : ∀ o ∉ frame.objects, ∀ edge ∈ s.cdt.chain o, ∀ edge' ∈ s.cdt.chain o,
    s.cdt.place edge = s.cdt.place edge' → edge = edge'
  given_iff : ∀ edge, edge ∈ given ↔ ∃! o, o ∉ frame.objects ∧ edge ∈ s.cdt.chain o
  poolUsed_eq : s.cdt.poolUsed.toNat = (Finset.univ.filter fun edge => s.cdt.used edge = true).card
  length_le : ∀ o ∉ frame.objects, (s.cdt.chain o).length ≤ (s.obj o).slotsLeft.toNat

/-- The edges of the pool that are marked used. -/
def usedEdges (s : CapState C O Q) : Set EdgePtr := {edge | s.cdt.used edge = true}

/-- The edges that name a slot of one of the CNodes. -/
def edgesOf (s : CapState C O Q) (cnodes : Set C) : Set EdgePtr :=
  {edge | ∃ c ∈ cnodes, (s.cdt.place edge).1 = some c}

/-- Different edges of an object name different slots that name the object, so a chain is
no longer than the counter. -/
theorem WellFormed.chain_length_le {s : CapState C O Q} (wellFormed : WellFormed s)
    (counted : Counted s) (o : O) : (s.cdt.chain o).length ≤ (s.obj o).slotsLeft.toNat := by
  classical
  let edges : Set EdgePtr := {edge | edge ∈ s.cdt.chain o}
  let named : C × Nat → Option C × Nat := Prod.map some id
  have apart : Set.InjOn s.cdt.place edges := fun edge member edge' member' =>
    wellFormed.distinct o edge member edge' member'
  have into : s.cdt.place '' edges ⊆ named '' s.holders o := by
    rintro _ ⟨edge, member, rfl⟩
    obtain ⟨c, i, place, holds⟩ := wellFormed.named o edge member
    exact ⟨(c, i), holds, place.symm⟩
  have injective : Function.Injective named :=
    (Option.some_injective C).prodMap Function.injective_id
  have length : edges.encard = (s.cdt.chain o).length := by
    have finset : edges = (s.cdt.chain o).toFinset := Set.ext fun edge => by simp [edges]
    rw [finset, Set.encard_coe_eq_coe_finsetCard,
      List.toFinset_card_of_nodup (wellFormed.sound.chained o).nodup]
  have bound : ((s.cdt.chain o).length : ℕ∞) ≤ (s.obj o).slotsLeft.toNat := calc
    ((s.cdt.chain o).length : ℕ∞) = (s.cdt.place '' edges).encard := by
      rw [apart.encard_image, length]
    _ ≤ (named '' s.holders o).encard := Set.encard_le_encard into
    _ = (s.obj o).slotsLeft.toNat := by
      rw [injective.injOn.encard_image, wellFormed.encard_holders, counted o]
  exact_mod_cast bound

variable {frame : LeanFrame C O Q} {s : CapState C O Q} {m : Machine C O Q}

/-- In every state of the layer the edges of the clients' chains are the used edges that name
no slot of the self-test's CNodes. -/
theorem WellFormed.edgesAccounted (wellFormed : WellFormed s) (counted : Counted s)
    (separated : Separated frame s) :
    EdgesAccounted frame s (usedEdges s \ edgesOf s frame.cnodes) := by
  have sound := wellFormed.sound
  exact
    { chained := fun o _ => sound.chained o
      nodup := fun o _ => (sound.chained o).nodup
      named := fun o _ => wellFormed.named o
      distinct := fun o _ => wellFormed.distinct o
      given_iff := by
        intro edge
        constructor
        · rintro ⟨used, client⟩
          obtain ⟨o, member⟩ := (sound.used_iff edge).mp used
          obtain ⟨c, i, place, -, names⟩ := wellFormed.named o edge member
          have outside : c ∉ frame.cnodes := fun stack => client ⟨c, stack, by rw [place]⟩
          exact ⟨o, ⟨separated.outside c i o outside names, member⟩,
            fun o' on => sound.apart o' o edge on.2 member⟩
        · rintro ⟨o, ⟨client, member⟩, -⟩
          refine ⟨sound.used_of_mem member, ?_⟩
          rintro ⟨c, stack, named⟩
          obtain ⟨c', i, place, -, names⟩ := wellFormed.named o edge member
          obtain rfl : c' = c := by simpa [place] using named
          exact client (.inl (separated.inside c' i o stack names))
      poolUsed_eq := sound.poolUsed_eq
      length_le := fun o _ => wellFormed.chain_length_le counted o }

/-- The chains of the clients hold one set of edges only. -/
theorem EdgesAccounted.given_eq {given given' : Set EdgePtr}
    (accounted : EdgesAccounted frame s given) (accounted' : EdgesAccounted frame s given') :
    given = given' :=
  Set.ext fun edge => (accounted.given_iff edge).trans (accounted'.given_iff edge).symm

/-- Before the self-test nothing is in its CNodes, so no used edge names a slot of them. -/
theorem Tidy.disjoint_of_fresh (tidy : Tidy frame m) (pending : m.cdtSoftInvLogged = false) :
    Disjoint (usedEdges m.caps) (edgesOf m.caps frame.cnodes) := by
  refine Set.disjoint_left.mpr fun edge used onStack => ?_
  obtain ⟨c, stack, named⟩ := onStack
  obtain ⟨o, member⟩ := (tidy.wellFormed.sound.used_iff edge).mp used
  obtain ⟨c', i, place, -, names⟩ := tidy.wellFormed.named o edge member
  obtain rfl : c' = c := by simpa [place] using named
  exact names.1 (tidy.fresh pending c' stack i)

variable [DecidableEq C] [DecidableEq O] [DecidableEq Q]

/-- In every reachable state the chains of the clients are well formed and hold, each once, the
used edges that name no slot of the self-test's CNodes. These are all used edges exactly when
no used edge names a slot of those CNodes, and so as long as the self-test has not run. -/
theorem edges_accounted_until_selfTest (reachable : Reachable frame m) :
    EdgesAccounted frame m.caps (usedEdges m.caps \ edgesOf m.caps frame.cnodes) ∧
      (EdgesAccounted frame m.caps (usedEdges m.caps) ↔
        Disjoint (usedEdges m.caps) (edgesOf m.caps frame.cnodes)) ∧
      (m.cdtSoftInvLogged = false → EdgesAccounted frame m.caps (usedEdges m.caps)) := by
  have tidy := reachable.tidy
  have accounted := tidy.wellFormed.edgesAccounted reachable.counted tidy.separated
  have whole : EdgesAccounted frame m.caps (usedEdges m.caps) ↔
      Disjoint (usedEdges m.caps) (edgesOf m.caps frame.cnodes) := by
    rw [← sdiff_eq_left]
    constructor
    · intro all
      exact accounted.given_eq all
    · intro same
      rwa [same] at accounted
  exact ⟨accounted, whole, fun pending => whole.mpr (tidy.disjoint_of_fresh pending)⟩

def sampleWired : Machine Nat Nat Nat :=
  (sampleInstalled.call sampleFrame (.mint 0 1 1 GjRight.mint none)).2

/-- The edge of a minted slot is accounted for, although the self-test has run. -/
theorem edges_accounted_until_selfTest_minted :
    sampleWired.caps.cdt.chain 0 = [0] ∧ EdgesAccounted sampleFrame sampleWired.caps
      (usedEdges sampleWired.caps \ edgesOf sampleWired.caps sampleFrame.cnodes) := by
  have client : 0 ∉ sampleFrame.cnodes := sampleFrame_cnodes.mpr (by decide)
  have reachable : Reachable sampleFrame sampleWired :=
    sampleInstalled_reachable.call ⟨client, client⟩
  exact ⟨by decide +kernel, (edges_accounted_until_selfTest reachable).1⟩

/-- After a client's first install two edges of the pool are in use that are on the chain of
no object of a client: the self-test that the install started has linked them to headers on
its stack and has returned. -/
theorem selfTest_leaks_edges :
    Reachable sampleFrame sampleInstalled ∧
      (∃ edge edge', edge ≠ edge' ∧ sampleInstalled.caps.cdt.used edge = true ∧
        sampleInstalled.caps.cdt.used edge' = true ∧
        ∀ o ∉ sampleFrame.objects, edge ∉ sampleInstalled.caps.cdt.chain o ∧
          edge' ∉ sampleInstalled.caps.cdt.chain o) ∧
      ¬ EdgesAccounted sampleFrame sampleInstalled.caps (usedEdges sampleInstalled.caps) := by
  have sound := sampleInstalled_reachable.tidy.wellFormed.sound
  have stack : ∀ i : Fin 3, sampleFrame.aObj i ∈ sampleFrame.objects :=
    fun i => .inl (.inl ⟨i, rfl⟩)
  have onStack : (3 : EdgePtr) ∈ sampleInstalled.caps.cdt.chain (sampleFrame.aObj 0) ∧
      (2 : EdgePtr) ∈ sampleInstalled.caps.cdt.chain (sampleFrame.aObj 2) := by
    decide +kernel
  have unreachable : ∀ o ∉ sampleFrame.objects,
      (3 : EdgePtr) ∉ sampleInstalled.caps.cdt.chain o ∧
        (2 : EdgePtr) ∉ sampleInstalled.caps.cdt.chain o := by
    intro o client
    constructor
    · exact fun member => client (sound.apart _ _ _ onStack.1 member ▸ stack 0)
    · exact fun member => client (sound.apart _ _ _ onStack.2 member ▸ stack 2)
  refine ⟨sampleInstalled_reachable, ⟨3, 2, by decide, sound.used_of_mem onStack.1,
    sound.used_of_mem onStack.2, unreachable⟩, fun accounted => ?_⟩
  obtain ⟨o, ⟨client, member⟩, -⟩ := (accounted.given_iff 3).mp (sound.used_of_mem onStack.1)
  exact (unreachable o client).1 member

end GreenJade.Cap

import GreenJade.Mm.Confined

/-! Owns the teardown of an address space. `vmm_as_destroy` takes for the space's own what differs
from the template, at each of three levels; where the layout of the tables holds, these are the
tables of the space, and each is given back once. It does not own reference counts of shared
frames. -/

namespace GreenJade.Mm

open Proc List Vmm StepRuns
open Vmm (pageAfter pageAlign pageCount anonPlace)

variable {st st₀ : Vmm} {own : Frame → Role} {root t f : Frame} {path : List Index} {i : Index}

/-! ### Tables below an entry -/

section

variable (layout : Layout st own)
include layout

theorem Layout.table_unique {u : Frame} (first : own t = .table root path)
    (second : own u = .table root path) : t = u :=
  Option.some.inj ((layout.tableAt_own first).symm.trans (layout.tableAt_own second))

/-- Above a table of the space there are tables of the space. -/
theorem Layout.own_above {rest : List Index}
    (table : own t = .table root (path ++ rest)) : ∃ u, own u = .table root path := by
  induction rest using List.reverseRecOn generalizing t with
  | nil =>
    rw [append_nil] at table
    exact ⟨t, table⟩
  | append_singleton rest j ih =>
    rcases layout.tableLinked t root _ table with
      ⟨impossible, -⟩ | ⟨parent, above, k, same, role, -⟩
    · exact absurd impossible (by simp)
    · rw [← append_assoc] at same
      obtain ⟨rfl, -⟩ := append_inj' same rfl
      exact ih role

/-- A table below an entry is one that the entry leads to, or below such a one. -/
theorem Layout.own_below {u : Frame} {below : List Index}
    (table : own t = .table root path) (inside : path ++ [i] <+: below)
    (role : own u = .table root below) :
    ∃ child, next (st.mem t i) = some child ∧ own child = .table root (path ++ [i]) := by
  obtain ⟨rest, rfl⟩ := inside
  obtain ⟨child, childRole⟩ := layout.own_above role
  rcases layout.tableLinked child root _ childRole with
    ⟨impossible, -⟩ | ⟨parent, above, k, same, parentRole, leads⟩
  · exact absurd impossible (by simp)
  · obtain ⟨rfl, sameIndex⟩ := append_inj' same rfl
    obtain rfl := singleton_inj.mp sameIndex
    rw [layout.table_unique table parentRole]
    exact ⟨child, leads, childRole⟩

/-- The test of `vmm_as_destroy`: an entry that is absent, large or the template's has no tables of
the space below it. -/
theorem Layout.skipped (table : own t = .table root path)
    (short : path.length < 3)
    (skip : present (st.mem t i) = false ∨ large (st.mem t i) = true ∨
      st.kernelEntry path i = some (st.mem t i)) {u : Frame} {below : List Index}
    (inside : path ++ [i] <+: below) : own u ≠ .table root below := by
  intro role
  obtain ⟨child, leads, childRole⟩ := layout.own_below table inside role
  obtain ⟨isPresent, small, -⟩ := next_eq_some.mp leads
  rcases skip with absent | wide | shared
  · exact nomatch absent.symm.trans isPresent
  · exact nomatch small.symm.trans wide
  · rw [layout.kernelEntry_next short shared leads] at childRole
    cases childRole

/-- Any other entry leads to a table of the space. -/
theorem Layout.entered_own (table : own t = .table root path)
    (short : path.length < 3) (isPresent : present (st.mem t i) = true)
    (small : path ≠ [] → large (st.mem t i) = false)
    (unshared : st.kernelEntry path i ≠ some (st.mem t i)) :
    own (frameOf (st.mem t i)) = .table root (path ++ [i]) := by
  rcases layout.tableNext t root path i table short isPresent with
    shared | ⟨notEmpty, wide⟩ | ⟨-, role⟩
  · exact absurd shared unshared
  · exact nomatch (small notEmpty).symm.trans wide
  · exact role

end

/-! ### The state within the teardown -/

/-- The tests of `vmm_as_destroy` on a leaf whose frame it gives back. -/
def GivesLeaf (page : VPage) (e : U64) : Prop :=
  present e = true ∧ user e = true ∧ framePa (frameOf e) ≠ vaOf page ∧
    gjUserVaBase ≤ vaOf page ∧ vaOf page < gjUserVaEnd

/-- The teardown of the space comes to the frame as the one of a leaf. -/
def Vmm.Releases (st : Vmm) (own : Frame → Role) (root : Frame) (page : VPage) (f : Frame) : Prop :=
  ∃ t, own t = .table root [page.i4, page.i3, page.i2] ∧ GivesLeaf page (st.mem t page.i1) ∧
    frameOf (st.mem t page.i1) = f

/-- The leaves that the teardown gives back name pages, and no two of them the same. -/
structure LeavesArePages (st : Vmm) (own : Frame → Role) (root : Frame) : Prop where
  isPage : ∀ page f, st.Releases own root page f → (own f).IsPage
  once : ∀ page page' f, st.Releases own root page f → st.Releases own root page' f → page = page'

/-- The teardown of a space that has done with some paths, of tables and of leaves. The template and
the other spaces are as they were, and so are the tables to come, their leaves apart. -/
structure Razed (st₀ : Vmm) (own : Frame → Role) (root : Frame) (done : List Index → Prop)
    (st : Vmm) : Prop where
  kernelCr3 : st.kernelCr3 = st₀.kernelCr3
  spaces : st.spaces = st₀.spaces
  listable : st.listable = st₀.listable
  others : ∀ f, (own f).Within (st₀.spaces.erase root) → st.mem f = st₀.mem f
  upper : ∀ t path, own t = .table root path → path.length < 3 → ¬ done path → st.mem t = st₀.mem t
  last : ∀ t path i, own t = .table root path → ¬ done path →
    st.mem t i = st₀.mem t i ∨ st.mem t i = 0
  returns : ∃ back, st.given = back ++ st₀.given ∧
    (∀ f, st.free f = true ↔ st₀.free f = true ∨ f ∈ back) ∧
    (∀ f ∈ back, f ≠ 0 ∧ st₀.listable f = true ∧ ¬ (own f).Within (st₀.spaces.erase root)) ∧
    (∀ f ∈ back, (own f).IsTable ∨ ∃ page, st₀.Releases own root page f ∧ done page.path) ∧
    ∀ t path, own t = .table root path →
      (done path → back.count t = 1) ∧ (¬ done path → back.count t = 0)

theorem Razed.start (st₀ : Vmm) (own : Frame → Role) (root : Frame) :
    Razed st₀ own root (fun _ => False) st₀ :=
  ⟨rfl, rfl, rfl, fun _ _ => rfl, fun _ _ _ _ _ => rfl, fun _ _ _ _ _ => .inl rfl, [], rfl,
    by simp, by simp, by simp, by simp⟩

section Raze

variable {done : List Index → Prop} (razed : Razed st₀ own root done st)
include razed

theorem Razed.congr {done' : List Index → Prop} (same : ∀ path, done path ↔ done' path) :
    Razed st₀ own root done' st :=
  (funext fun path => propext (same path) : done = done') ▸ razed

/-- More is done, but no more tables of the space. -/
theorem Razed.widen {done' : List Index → Prop} (grows : ∀ path, done path → done' path)
    (same : ∀ t path, own t = .table root path → done' path → done path) :
    Razed st₀ own root done' st where
  kernelCr3 := razed.kernelCr3
  spaces := razed.spaces
  listable := razed.listable
  others := razed.others
  upper t path table short notDone :=
    razed.upper t path table short fun is => notDone (grows path is)
  last t path i table notDone :=
    razed.last t path i table fun is => notDone (grows path is)
  returns := by
    obtain ⟨back, given, free, pages, source, count⟩ := razed.returns
    refine ⟨back, given, free, pages, fun f member => ?_, fun t path table => ?_⟩
    · exact (source f member).imp_right fun ⟨page, released, is⟩ => ⟨page, released, grows _ is⟩
    · rw [← Iff.intro (grows path) (same t path table)]
      exact count t path table

theorem Razed.kernelMem {level : Nat} (kernel : own f = .kernel level) : st.mem f = st₀.mem f :=
  razed.others f (by rw [kernel]; trivial)

theorem Razed.setCow (cow : Fin gjCowRefMax → Option CowRef) :
    Razed st₀ own root done { st with cow } :=
  ⟨razed.kernelCr3, razed.spaces, razed.listable, razed.others, razed.upper, razed.last,
    razed.returns⟩

/-- A leaf of the space is cleared. -/
theorem Razed.clear (table : own t = .table root path) (last : path.length = 3) :
    Razed st₀ own root done (st.setEntry ⟨t, i⟩ 0) where
  kernelCr3 := razed.kernelCr3
  spaces := razed.spaces
  listable := razed.listable
  others f within := by
    rw [setEntry_mem_of_table_ne]
    · exact razed.others f within
    · rintro rfl
      rw [table] at within
      exact Finset.notMem_erase root _ within
  upper u path' table' short notDone := by
    rw [setEntry_mem_of_table_ne]
    · exact razed.upper u path' table' short notDone
    · rintro rfl
      rw [table] at table'
      cases table'
      omega
  last u path' j table' notDone := by
    by_cases here : u = t ∧ j = i
    · obtain ⟨rfl, rfl⟩ := here
      exact .inr setEntry_mem_self
    · rw [setEntry_mem_of_ne here]
      exact razed.last u path' j table' notDone
  returns := razed.returns

/-- A frame is given back that is no table, or a table of the space whose turn it is. -/
theorem Razed.pmmFree {done' : List Index → Prop} (used : st.free f = false)
    (source : (own f).IsTable ∨ ∃ page, st₀.Releases own root page f ∧ done' page.path)
    (hidden : ¬ (own f).Within (st₀.spaces.erase root))
    (grows : ∀ path, done path → done' path)
    (turn : ∀ t path, own t = .table root path → (done' path ↔ done path ∨ t = f))
    (once : ∀ path, own f = .table root path → ¬ done path ∧ f ≠ 0 ∧ st₀.listable f = true) :
    Razed st₀ own root done' (st.pmmFree f) := by
  obtain ⟨-, kernelCr3, spaces, listable, -⟩ := pmmFree_rest st f
  by_cases refused : f = 0 ∨ st.listable f = false
  · rw [pmmFree_refused refused]
    refine razed.widen grows fun t path table is => ((turn t path table).mp is).resolve_right ?_
    rintro rfl
    obtain ⟨-, notZero, isListable⟩ := once path table
    rw [razed.listable, isListable] at refused
    exact refused.elim notZero nofun
  · rw [not_or, Bool.not_eq_false] at refused
    obtain ⟨freeAfter, givenAfter⟩ := pmmFree_accepted refused used
    have apart {u : Frame} {path : List Index} (table : own u = .table root path)
        (notDone : ¬ done' path) : (st.pmmFree f).mem u = st.mem u :=
      pmmFree_mem_of_ne fun same => notDone ((turn u path table).mpr (.inr same))
    refine ⟨kernelCr3.trans razed.kernelCr3, spaces.trans razed.spaces,
      listable.trans razed.listable, ?_, ?_, ?_, ?_⟩
    · intro u within
      rw [← razed.others u within]
      apply pmmFree_mem_of_ne
      rintro rfl
      exact hidden within
    · intro u path table short notDone
      rw [apart table notDone]
      exact razed.upper u path table short fun is => notDone (grows path is)
    · intro u path j table notDone
      rw [apart table notDone]
      exact razed.last u path j table fun is => notDone (grows path is)
    · obtain ⟨back, given, free, pages, sources, count⟩ := razed.returns
      refine ⟨f :: back, by rw [givenAfter, given, cons_append], fun u => ?_, ?_, ?_, ?_⟩
      · rw [freeAfter]
        by_cases here : u = f
        · simp [here]
        · simp [here, free u]
      · intro u member
        rcases mem_cons.mp member with rfl | earlier
        · rw [← razed.listable]
          exact ⟨refused.1, refused.2, hidden⟩
        · exact pages u earlier
      · intro u member
        rcases mem_cons.mp member with rfl | earlier
        · exact source
        · exact (sources u earlier).imp_right fun ⟨page, released, is⟩ =>
            ⟨page, released, grows _ is⟩
      · intro u path table
        obtain ⟨counted, uncounted⟩ := count u path table
        rw [turn u path table]
        by_cases here : f = u
        · subst here
          have fresh := uncounted (once path table).1
          rw [count_cons_self, fresh]
          exact ⟨fun _ => rfl, fun not => absurd (.inr rfl) not⟩
        · rw [count_cons_of_ne here]
          refine ⟨fun either => counted (either.resolve_right (Ne.symm here)), fun not => ?_⟩
          exact uncounted fun is => not (.inl is)

theorem Razed.freeTable (layout : Layout st₀ own) (table : own t = .table root path)
    (notDone : ¬ done path) :
    Razed st₀ own root (fun q => done q ∨ q = path) (st.pmmFree t) := by
  have isTable : (own t).IsTable := by rw [table]; trivial
  refine razed.pmmFree ?_ (.inl isTable) (fun within => ?_) (fun _ => .inl) (fun u q table' => ?_)
    fun q table' => ?_
  · obtain ⟨back, -, free, -, -, count⟩ := razed.returns
    rw [← Bool.not_eq_true, free t, ← layout.free t, table]
    rintro (impossible | member)
    · cases impossible
    · exact count_eq_zero.mp ((count t path table).2 notDone) member
  · rw [table] at within
    exact Finset.notMem_erase root _ within
  · refine or_congr_right ⟨?_, ?_⟩
    · rintro rfl
      exact layout.table_unique table' table
    · rintro rfl
      rw [table] at table'
      cases table'
      rfl
  · rw [table] at table'
    cases table'
    exact ⟨notDone, layout.tableListable t root _ table⟩

end Raze

section Leaves

variable {done : List Index → Prop} {page : VPage} (razed : Razed st₀ own root done st)
  (layout : Layout st₀ own)
include razed layout

/-- There are no tables below a leaf. -/
theorem Razed.passLeaf : Razed st₀ own root (fun q => done q ∨ page.path <+: q) st := by
  refine razed.widen (fun _ => .inl) fun t q table => ?_
  rintro (is | inside)
  · exact is
  · have deep := inside.length_le
    have short := (layout.tableSpace t root q table).2
    rw [VPage.path, length_cons, length_cons, length_cons, length_singleton] at deep
    omega

variable (leaves : LeavesArePages st₀ own root) (released : st₀.Releases own root page f)
  (notDone : ¬ done page.path)
include leaves released notDone

theorem Razed.freeLeaf :
    Razed st₀ own root (fun q => done q ∨ page.path <+: q) (st.pmmFree f) := by
  have isPage := leaves.isPage page f released
  obtain ⟨notFree, notTable⟩ := Role.isPage_iff.mp isPage
  have noTable {path : List Index} (table : own f = .table root path) : False :=
    notTable (by rw [table]; trivial)
  refine (razed.passLeaf layout).pmmFree ?_ (.inr ⟨page, released, .inr prefix_rfl⟩)
    (fun within => notTable within.isTable) (fun _ => id) (fun t path table => ?_)
    fun path table => (noTable table).elim
  · obtain ⟨back, -, free, -, source, -⟩ := razed.returns
    rw [← Bool.not_eq_true, free f, ← layout.free f]
    rintro (is | member)
    · exact notFree is
    · rcases source f member with isTable | ⟨page', released', is⟩
      · exact notTable isTable
      · rw [leaves.once page' page f released' released] at is
        exact notDone is
  · refine ⟨.inl, fun either => either.resolve_right ?_⟩
    rintro rfl
    exact noTable table

theorem Razed.release :
    Razed st₀ own root (fun q => done q ∨ page.path <+: q) (st.releaseLeafFrame f) := by
  unfold releaseLeafFrame
  split_ifs
  · exact razed.passLeaf layout
  · obtain ⟨cow, same⟩ := cowRefDrop_fst_or st f
    have dropped : Razed st₀ own root done (st.cowRefDrop f).2 := by
      rw [same]
      exact razed.setCow cow
    rcases outcome : st.cowRefDrop f with ⟨_ | _, mid⟩ <;> rw [outcome] at dropped
    · exact dropped.freeLeaf layout leaves released notDone
    · exact dropped.passLeaf layout

end Leaves

variable {done : List Index → Prop}

/-- A loop of the teardown: each entry is done with all that is below it. -/
theorem Razed.loop {body : Vmm → Index → Vmm}
    (step : ∀ st done i, Razed st₀ own root done st → ¬ done path →
      (∀ q, path ++ [i] <+: q → ¬ done q) →
      Razed st₀ own root (fun q => done q ∨ path ++ [i] <+: q) (body st i))
    {places : List Index} (nodup : places.Nodup)
    (razed : Razed st₀ own root done st) (here : ¬ done path)
    (below : ∀ i ∈ places, ∀ q, path ++ [i] <+: q → ¬ done q) :
    Razed st₀ own root (fun q => done q ∨ ∃ i ∈ places, path ++ [i] <+: q)
      (places.foldl body st) := by
  induction places generalizing st done with
  | nil => exact razed.congr fun _ => by simp
  | cons i rest ih =>
    obtain ⟨fresh, nodup⟩ := nodup_cons.mp nodup
    have first := step st done i razed here (below i mem_cons_self)
    have apart {j : Index} {q : List Index} (member : j ∈ rest) (left : path ++ [i] <+: q)
        (right : path ++ [j] <+: q) : False := by
      have same := (prefix_of_prefix_length_le left right (by simp)).eq_of_length (by simp)
      obtain rfl := singleton_inj.mp (append_cancel_left same)
      exact fresh member
    refine (ih nodup first ?_ ?_).congr fun q => ?_
    · rintro (is | inside)
      · exact here is
      · have bound := inside.length_le
        rw [length_append, length_singleton] at bound
        omega
    · rintro j member q inside (is | left)
      · exact below j (mem_cons_of_mem i member) q inside is
      · exact apart member left inside
    · simp [or_assoc]

/-! ### The loops of `vmm_as_destroy` -/

theorem Razed.destroyLeaf (layout : Layout st₀ own) (leaves : LeavesArePages st₀ own root)
    (razed : Razed st₀ own root done st) {pt : Frame} (page : VPage)
    (table : own pt = .table root [page.i4, page.i3, page.i2])
    (notDone : ¬ done [page.i4, page.i3, page.i2]) (fresh : ¬ done page.path)
    (kerPt : Option Frame) :
    Razed st₀ own root (fun q => done q ∨ page.path <+: q)
      (Vmm.destroyLeaf pt kerPt page st) := by
  unfold Vmm.destroyLeaf
  by_cases absent : present (st.mem pt page.i1) = false ∨ user (st.mem pt page.i1) = false
  · simp only [if_pos absent]
    exact razed.passLeaf layout
  · simp only [if_neg absent]
    rw [not_or, Bool.not_eq_false, Bool.not_eq_false] at absent
    split_ifs with shared outside cow
    · exact razed.passLeaf layout
    · exact razed.passLeaf layout
    all_goals
      rw [not_or, not_or, BitVec.not_lt, BitVec.not_le] at outside
      have entry : st.mem pt page.i1 = st₀.mem pt page.i1 := by
        refine (razed.last pt _ page.i1 table notDone).resolve_right fun zero => ?_
        rw [zero] at absent
        exact nomatch present_zero.symm.trans absent.1
      have released : st₀.Releases own root page (frameOf (st.mem pt page.i1)) := by
        rw [entry] at absent outside ⊢
        exact ⟨pt, table, ⟨absent.1, absent.2, outside⟩, rfl⟩
    · exact (razed.release layout leaves released fresh).clear table rfl
    · exact (razed.freeLeaf layout leaves released fresh).clear table rfl

/-- What the teardown compares an entry with is the template's entry at the same place. -/
theorem Razed.beside (layout : Layout st₀ own)
    (razed : Razed st₀ own root done st) (short : path.length ≤ 3) (i : Index) :
    st.beside (st₀.tableAt path st₀.kernelCr3) i = st₀.kernelEntry path i := by
  unfold Vmm.beside kernelEntry
  cases reached : st₀.tableAt path st₀.kernelCr3 with
  | none => rfl
  | some t =>
    have kernel := layout.kernel_tableAt layout.kernelRoot (by omega) reached
    rw [Option.map_some, Option.map_some, razed.kernelMem kernel]

theorem besideNext_kernelEntry (st : Vmm) (path : List Index) (i : Index) :
    besideNext (st.kernelEntry path i) = st.tableAt (path ++ [i]) st.kernelCr3 := by
  rw [tableAt_snoc, kernelEntry]
  cases st.tableAt path st.kernelCr3 <;> rfl

/-- One entry of a table of the space is passed over if nothing of the space is below it; else all
that is below goes first, and then the table that the entry leads to. -/
theorem Razed.branch {skip : Prop} [Decidable skip] {mid : Vmm}
    (layout : Layout st₀ own) (razed : Razed st₀ own root done st)
    (table : own t = .table root path) (short : path.length < 3) (notDone : ¬ done path)
    (below : ∀ q, path ++ [i] <+: q → ¬ done q)
    (skips : skip → present (st₀.mem t i) = false ∨ large (st₀.mem t i) = true ∨
      st₀.kernelEntry path i = some (st₀.mem t i))
    (enters : ¬ skip → present (st₀.mem t i) = true ∧ (path ≠ [] → large (st₀.mem t i) = false) ∧
      st₀.kernelEntry path i ≠ some (st₀.mem t i))
    (inner : own (frameOf (st₀.mem t i)) = .table root (path ++ [i]) →
      Razed st₀ own root (fun q => done q ∨ path ++ [i] <+: q ∧ q ≠ path ++ [i]) mid) :
    Razed st₀ own root (fun q => done q ∨ path ++ [i] <+: q)
      (if skip then st else mid.pmmFree (frameOf (mid.mem t i))) := by
  split_ifs with skipped
  · refine razed.widen (fun _ => .inl) fun u q role either => either.resolve_right fun inside => ?_
    exact layout.skipped table short (skips skipped) inside role
  · obtain ⟨isPresent, small, unshared⟩ := enters skipped
    have child := layout.entered_own table short isPresent small unshared
    have emptied := inner child
    have kept : mid.mem t = st₀.mem t := by
      apply emptied.upper t path table short
      rintro (is | ⟨inside, -⟩)
      · exact notDone is
      · have bound := inside.length_le
        rw [length_append, length_singleton] at bound
        omega
    rw [kept]
    refine (emptied.freeTable layout child ?_).congr fun q => ?_
    · rintro (is | ⟨-, different⟩)
      · exact below _ prefix_rfl is
      · exact different rfl
    · by_cases here : q = path ++ [i]
      all_goals simp [here]

theorem indices_nodup : indices.Nodup :=
  (nodup_finRange 512).map fun _ _ same => BitVec.ofFin.inj same

theorem mem_indices (i : Index) : i ∈ indices :=
  mem_map.mpr ⟨i.toFin, mem_finRange _, rfl⟩

/-- A whole table: the loop is done with all that is below. -/
theorem Razed.whole {body : Vmm → Index → Vmm}
    (step : ∀ st done i, Razed st₀ own root done st → ¬ done path →
      (∀ q, path ++ [i] <+: q → ¬ done q) →
      Razed st₀ own root (fun q => done q ∨ path ++ [i] <+: q) (body st i))
    (razed : Razed st₀ own root done st) (below : ∀ q, path <+: q → ¬ done q) :
    Razed st₀ own root (fun q => done q ∨ path <+: q ∧ q ≠ path)
      (indices.foldl body st) := by
  refine (Razed.loop step indices_nodup razed (below path prefix_rfl) fun i _ q inside =>
    below q ((prefix_append path [i]).trans inside)).congr fun q => or_congr_right ?_
  constructor
  · rintro ⟨i, -, rest, rfl⟩
    simp
  · rintro ⟨⟨rest, rfl⟩, different⟩
    cases rest with
    | nil => simp at different
    | cons i rest => exact ⟨i, mem_indices i, rest, by simp⟩

section Levels

variable {done : List Index → Prop} {i4 i3 i2 : Index} (layout : Layout st₀ own)
  (leaves : LeavesArePages st₀ own root)
include layout leaves

theorem Razed.destroyPt (razed : Razed st₀ own root done st)
    (table : own t = .table root [i4, i3]) (notDone : ¬ done [i4, i3])
    (below : ∀ q, [i4, i3, i2] <+: q → ¬ done q) :
    Razed st₀ own root (fun q => done q ∨ [i4, i3, i2] <+: q)
      (Vmm.destroyPt i4 i3 t (st₀.tableAt [i4, i3] st₀.kernelCr3) st i2) := by
  unfold Vmm.destroyPt
  rw [razed.upper t _ table (by simp) notDone, razed.beside layout (by simp)]
  refine razed.branch layout table (by simp) notDone below id (fun enters => ?_) fun child => ?_
  · simpa using enters
  · exact Razed.whole (fun _ _ i1 razed here below =>
      razed.destroyLeaf layout leaves ⟨i4, i3, i2, i1⟩ child here (below _ prefix_rfl) _)
      razed below

theorem Razed.destroyPd (razed : Razed st₀ own root done st)
    (table : own t = .table root [i4]) (notDone : ¬ done [i4])
    (below : ∀ q, [i4, i3] <+: q → ¬ done q) :
    Razed st₀ own root (fun q => done q ∨ [i4, i3] <+: q)
      (Vmm.destroyPd i4 t (st₀.tableAt [i4] st₀.kernelCr3) st i3) := by
  unfold Vmm.destroyPd
  rw [razed.upper t _ table (by simp) notDone, razed.beside layout (by simp)]
  simp only [besideNext_kernelEntry]
  refine razed.branch layout table (by simp) notDone below id (fun enters => ?_) fun child => ?_
  · simpa using enters
  · exact Razed.whole (fun _ _ _ razed here below => razed.destroyPt layout leaves child here below)
      razed below

theorem Razed.destroyPdpt (razed : Razed st₀ own root done st) (live : root ∈ st₀.spaces)
    (notDone : ¬ done []) (below : ∀ q, [i4] <+: q → ¬ done q) :
    Razed st₀ own root (fun q => done q ∨ [i4] <+: q) (Vmm.destroyPdpt root st i4) := by
  have table := layout.spaceRoot root live
  unfold Vmm.destroyPdpt
  rw [razed.upper root _ table (by simp) notDone, razed.kernelCr3,
    razed.kernelMem layout.kernelRoot]
  have kernelEntry : st₀.kernelEntry [] i4 = some (st₀.mem st₀.kernelCr3 i4) := rfl
  have kernelNext : (if present (st₀.mem st₀.kernelCr3 i4) then
      some (frameOf (st₀.mem st₀.kernelCr3 i4)) else none) = st₀.tableAt [i4] st₀.kernelCr3 := by
    rw [← nil_append [i4], ← besideNext_kernelEntry, kernelEntry, besideNext]
    cases isPresent : present (st₀.mem st₀.kernelCr3 i4)
    · rfl
    · rw [layout.kernelSmall i4 isPresent]
      rfl
  simp only [kernelNext]
  refine razed.branch layout table (by simp) notDone below (fun skip => ?_) (fun enters => ?_)
    fun child => ?_
  · exact skip.imp_right fun same => .inr (by rw [kernelEntry, same])
  · rw [not_or, Bool.not_eq_false] at enters
    exact ⟨enters.1, by simp, fun same => enters.2 (Option.some.inj same).symm⟩
  · exact Razed.whole (fun _ _ _ razed here below => razed.destroyPd layout leaves child here below)
      razed below

end Levels

/-- When all tables of the space have been given back, the others stay what they are. -/
theorem Razed.finish (razed : Razed st₀ own root (fun _ => True) st) (layout : Layout st₀ own) :
    ∃ own' back, Layout { st with spaces := st.spaces.erase root } own' ∧
      st.given = back ++ st₀.given ∧
      (∀ f ∈ back, ¬ (own f).Within (st₀.spaces.erase root) ∧ ¬ (own' f).IsTable) ∧
      ∀ t path, own t = .table root path → back.count t = 1 := by
  obtain ⟨back, given, free, pages, -, count⟩ := razed.returns
  have counted (t : Frame) (path : List Index) (table : own t = .table root path) :
      back.count t = 1 := (count t path table).1 trivial
  classical
  have retags : Retags st₀ own { st with spaces := st.spaces.erase root }
      fun f => if f ∈ back then .free else own f := by
    constructor
    · exact razed.kernelCr3
    · rw [razed.spaces]
      exact Finset.erase_subset root st₀.spaces
    · exact razed.listable
    · rw [razed.spaces]
      exact razed.others
    · rw [razed.spaces]
      intro f within
      exact if_neg fun member => (pages f member).2.2 within
    · rw [razed.spaces]
      intro f table
      split_ifs at table with member
      · exact table.elim
      · have within := layout.within table
        cases role : own f with
        | kernel level => trivial
        | table owner path =>
          rw [role] at within
          refine Finset.mem_erase.mpr ⟨?_, within⟩
          rintro rfl
          exact member (count_pos_iff.mp (by rw [counted f path role]; exact Nat.one_pos))
        | free | page | other =>
          rw [role] at table
          exact table.elim
    · intro f
      change _ ↔ st.free f = true
      rw [free f, ← layout.free f]
      by_cases member : f ∈ back
      all_goals simp [member]
    · intro f isFree
      rw [razed.listable]
      split_ifs at isFree with member
      · exact ⟨(pages f member).1, (pages f member).2.1⟩
      · exact layout.freeListable f isFree
  refine ⟨_, back, retags.layout_after layout, given, fun f member => ?_, counted⟩
  refine ⟨(pages f member).2.2, ?_⟩
  rw [if_pos member]
  exact id

/-- `vmm_as_destroy` gives back each table of the space once, and no other table. -/
theorem Layout.asDestroy (layout : Layout st own) (live : root ∈ st.spaces)
    (leaves : LeavesArePages st own root) :
    ∃ own' back, Layout (st.vmmAsDestroy root).2 own' ∧
      (st.vmmAsDestroy root).2.kernelCr3 = st.kernelCr3 ∧
      (st.vmmAsDestroy root).2.spaces = st.spaces.erase root ∧
      (st.vmmAsDestroy root).2.given = back ++ st.given ∧
      (∀ f ∈ back, ¬ (own f).Within (st.spaces.erase root) ∧ ¬ (own' f).IsTable) ∧
      ∀ t path, own t = .table root path → back.count t = 1 := by
  have isTable := layout.spaceRoot root live
  have accepted : ¬ (root = 0 ∨ root = st.kernelCr3) := by
    rintro (zero | same)
    · exact (layout.tableListable root root [] isTable).1 zero
    · rw [same, layout.kernelRoot] at isTable
      cases isTable
  have emptied : Razed st own root _ (indices.foldl (Vmm.destroyPdpt root) st) :=
    Razed.whole (fun _ _ _ razed => razed.destroyPdpt layout leaves live) (.start st own root)
      fun _ _ => id
  have razed : Razed st own root (fun _ => True)
      ((indices.foldl (Vmm.destroyPdpt root) st).pmmFree root) := by
    refine (emptied.freeTable layout isTable (by simp)).congr fun path => ?_
    by_cases top : path = []
    all_goals simp [top]
  obtain ⟨own', back, layout', given, pages, counted⟩ := razed.finish layout
  rw [vmmAsDestroy, if_neg accepted]
  exact ⟨own', back, layout', razed.kernelCr3, congrArg (Finset.erase · root) razed.spaces, given,
    pages, counted⟩

/-! ### Calls -/

/-- When a call gives back no table. Under the kernel CR3 a page is mapped only where the walk opens
no entry of the template that is present: a space that has copied the entry would no longer share
it. A frame that is given back is in use, is no table, and is given back once. -/
def SpaceCall.SparesTables (st : Vmm) : SpaceCall → Prop
  | .mapPage va _ _ => va.toNat < 2 ^ 47 ∧ st.Active (pageOf va)
  | .unmapPage va => va.toNat < 2 ^ 47 ∧
      (present (st.leafPte st.cr3 (pageOf va)) = true →
        cowBit (st.leafPte st.cr3 (pageOf va)) = true → st.IsPageFrame (st.pageFrame (pageOf va)))
  | .protectPage va _ => va.toNat < 2 ^ 47
  | .munmap va len => va.toNat + pageCount len * 0x1000 ≤ 2 ^ 47 ∧
      (∀ page ∈ pagesFrom va (pageCount len) ∩ st.mapped,
        (st.tableAt [page.i4, page.i3, page.i2] st.cr3).isSome = true ∧
          st.IsPageFrame (st.pageFrame page)) ∧
      Set.InjOn st.pageFrame (pagesFrom va (pageCount len) ∩ st.mapped)
  | .mmapAnon hint len _ fixed =>
    ∀ base cursor, anonPlace (st.cursor st.cr3) hint (pageAlign len) fixed = some (base, cursor) →
      base.toNat + pageCount len * 0x1000 ≤ 2 ^ 47 ∧
        ∀ i < pageCount len, st.Active (pageOf (pageAfter base i))

/-- Anywhere. -/
abbrev Role.Any : Role → Prop := fun _ => True

theorem Found.anywhere {page : VPage} {slot : Slot} {st' : Vmm} {own' : Frame → Role}
    (found : Found st own page slot st' own') : Found.Within Role.Any st own slot st' own' := by
  rcases found.home with ⟨table, grows⟩ | ⟨kernel, grows, -⟩
  · refine ⟨grows.works.mono fun _ _ _ => trivial, fun e => ?_⟩
    exact (grows.layout.setLeaf ⟨found.index, table⟩ e).mono fun _ _ _ => trivial
  · refine ⟨grows.works.mono fun _ _ _ => trivial, fun e => ?_⟩
    exact (grows.layout.setKernelLeaf kernel e).mono fun _ _ _ => trivial

theorem SpaceCall.spares (layout : Layout st own) (isRoot : st.Root st.cr3) (call : SpaceCall)
    (meets : call.SparesTables st) : ∃ own', Works Role.Any st own (call.run st) own' := by
  cases call with
  | mapPage va pa prot =>
    obtain ⟨own', works⟩ := layout.mapPage_works meets.2 pa prot
    exact ⟨own', works.mono fun _ _ _ => trivial⟩
  | unmapPage va =>
    exact layout.unmapPage_works isRoot (fun _ _ _ _ found => found.anywhere) meets.2
  | protectPage va prot =>
    exact layout.protectPage_works isRoot (fun _ _ _ _ found => found.anywhere) prot
  | munmap va len =>
    obtain ⟨-, pages, once⟩ := meets
    have tables : ∀ page ∈ pagesFrom va (pageCount len) ∩ st.mapped, ∃ t,
        st.tableAt [page.i4, page.i3, page.i2] st.cr3 = some t ∧ Role.Any (own t) := by
      intro page member
      obtain ⟨t, reached⟩ := Option.isSome_iff_exists.mp (pages page member).1
      exact ⟨t, reached, trivial⟩
    obtain ⟨own', down⟩ := layout.munmap_down isRoot
      (layout.detachable_of_once tables (fun page member => (pages page member).2) once)
    exact ⟨own', down.toWorks⟩
  | mmapAnon hint len prot fixed =>
    obtain ⟨own', works⟩ := layout.mmapAnon_works isRoot
      fun base cursor place => (meets base cursor place).2
    exact ⟨own', works.mono fun _ _ _ => trivial⟩

/-! ### Runs -/

/-- A leaf of the space, in a table that is not the template's, whose frame the teardown gives
back. -/
def Vmm.FreesLeaf (st : Vmm) (root : Frame) (page : VPage) (f : Frame) : Prop :=
  ∃ t, st.tableAt [page.i4, page.i3, page.i2] root = some t ∧
    st.tableAt [page.i4, page.i3, page.i2] st.kernelCr3 ≠ some t ∧
    GivesLeaf page (st.mem t page.i1) ∧ frameOf (st.mem t page.i1) = f

/-- The frames that the teardown of a space gives back as those of leaves are in use, are no tables,
and each is named by one leaf. -/
structure Vmm.FreesPages (st : Vmm) (root : Frame) : Prop where
  isPage : ∀ page f, st.FreesLeaf root page f → st.IsPageFrame f
  once : ∀ page page' f, st.FreesLeaf root page f → st.FreesLeaf root page' f → page = page'

/-- The steps of a run that makes spaces, maps in them and in the template, and tears them down. -/
def TeardownMeets (st : Vmm) : SpaceStep → Prop
  | .create => True
  | .call space inner => st.Root space ∧ inner.SparesTables (st.loadCr3 space)
  | .destroy root => root = 0 ∨ root = st.kernelCr3 ∨ root ∈ st.spaces ∧ st.FreesPages root

/-- What a step may give back: no table of the template or of a space that lives on, before or
after; and of a space that is torn down, each table that is not the template's, once. -/
structure GivesBack (st : Vmm) (step : SpaceStep) (back : List Frame) : Prop where
  given : (step.run st).given = back ++ st.given
  kept : ∀ f ∈ back, ∀ root path, (step.run st).Root root → path.length ≤ 3 →
    st.tableAt path root ≠ some f ∧ (step.run st).tableAt path root ≠ some f
  own : ∀ root path t, step = .destroy root → root ∈ st.spaces → path.length ≤ 3 →
    st.tableAt path root = some t → st.tableAt path st.kernelCr3 ≠ some t → back.count t = 1

theorem Vmm.Releases.freesLeaf {page : VPage} (layout : Layout st own)
    (released : st.Releases own root page f) : st.FreesLeaf root page f := by
  obtain ⟨t, table, gives, named⟩ := released
  refine ⟨t, layout.tableAt_own table, fun reached => ?_, gives, named⟩
  have kernel := layout.kernel_tableAt layout.kernelRoot (by simp) reached
  rw [table] at kernel
  cases kernel

theorem Vmm.FreesPages.leaves (freesPages : st.FreesPages root) (layout : Layout st own) :
    LeavesArePages st own root where
  isPage page f released := layout.isPage_iff.mpr (freesPages.isPage page f
    (released.freesLeaf layout))
  once page page' f released released' :=
    freesPages.once page page' f (released.freesLeaf layout) (released'.freesLeaf layout)

/-- A table that a root leads to is the template's or the root's. -/
theorem Layout.within_tableAt (layout : Layout st own) (isRoot : st.Root root)
    (short : path.length ≤ 3) (reached : st.tableAt path root = some t) {spaces : Finset Frame}
    (live : root = st.kernelCr3 ∨ root ∈ spaces) : (own t).Within spaces := by
  by_cases shared : st.tableAt path st.kernelCr3 = some t
  · rw [layout.kernel_tableAt layout.kernelRoot (by omega) shared]
    trivial
  · rw [layout.own_of_tableAt isRoot short reached shared]
    apply live.resolve_left
    rintro rfl
    exact shared reached

theorem TeardownMeets.gives {step : SpaceStep} (layout : Layout st own)
    (meets : TeardownMeets st step) :
    (∃ own', Layout (step.run st) own') ∧ ∃ back, GivesBack st step back := by
  cases step with
  | create =>
    have given : st.asCreate.2.given = st.given ∧ ∃ own', Layout st.asCreate.2 own' := by
      rcases layout.asCreate with ⟨after, outcome, untouched⟩ | ⟨root, after, outcome, spawns⟩ <;>
        rw [outcome]
      · have works : Works Role.Any st own after own := untouched.works layout
        exact ⟨untouched.keeps.given, own, works.layout⟩
      · exact ⟨spawns.given, _, spawns.layout⟩
    exact ⟨given.2, [], given.1, by simp, by nofun⟩
  | call space inner =>
    obtain ⟨own', works⟩ := inner.spares (layout.loadCr3 space) meets.1 meets.2
    obtain ⟨back, given, pages⟩ := works.given
    refine ⟨⟨own', works.layout⟩, back, given, fun f member root path isRoot short => ?_, by nofun⟩
    have isRoot' : st.Root root := works.root_iff.mp isRoot
    exact ⟨fun reached => (pages f member).1 (layout.isTable_iff.mpr ⟨root, path, isRoot', short,
      reached⟩), fun reached => (pages f member).2 (works.layout.isTable_iff.mpr ⟨root, path,
      isRoot, short, reached⟩)⟩
  | destroy root =>
    rcases or_assoc.mpr meets with refused | ⟨live, freesPages⟩
    · have same : (SpaceStep.destroy root).run st = st := by
        rw [SpaceStep.run, vmmAsDestroy, if_pos refused]
      refine ⟨⟨own, by rw [same]; exact layout⟩, [], by rw [same]; rfl, by simp, ?_⟩
      rintro _ path t ⟨rfl⟩ live short reached differs
      rcases refused with zero | kernel
      · exact absurd zero (layout.tableListable root root [] (layout.spaceRoot root live)).1
      · exact absurd (kernel ▸ reached) differs
    · obtain ⟨own', back, layout', kernelCr3, spaces, given, pages, counted⟩ :=
        layout.asDestroy live (freesPages.leaves layout)
      refine ⟨⟨own', layout'⟩, back, given, fun f member other path isRoot short => ⟨?_, ?_⟩, ?_⟩
      · intro reached
        rw [SpaceStep.run, Root, kernelCr3, spaces] at isRoot
        have before : st.Root other := isRoot.imp_right Finset.mem_of_mem_erase
        exact (pages f member).1 (layout.within_tableAt before short reached isRoot)
      · intro reached
        exact (pages f member).2 (layout'.isTable_iff.mpr ⟨other, path, isRoot, short, reached⟩)
      · rintro _ path t ⟨rfl⟩ - short reached differs
        exact counted t path (layout.own_of_tableAt (.inr live) short reached differs)

/-- In every run of steps that meet the condition, each step gives back only tables of the space
that it tears down, and each of these once. -/
theorem spaceRuns_teardown {steps : List SpaceStep} {step : SpaceStep} (boot : Boot st)
    (run : Meets SpaceStep.run TeardownMeets st (steps ++ [step])) :
    ∃ back, GivesBack (st.runSteps steps) step back := by
  obtain ⟨before, last, -⟩ := Meets.append.mp run
  obtain ⟨own, layout⟩ := before.invariant
    (fun st step (known : ∃ own, Layout st own) meets => by
      obtain ⟨own, layout⟩ := known
      exact (meets.gives layout).1)
    ⟨bootRole st, boot.layout⟩
  exact (last.gives layout).2

/-- No table that a root leads to is free memory, and two ways from roots to one table are the same
way from the same root, or the table is the template's. -/
def Vmm.TablesApart (st : Vmm) : Prop :=
  ∀ root root' path path' t, st.Root root → st.Root root' → path.length ≤ 3 → path'.length ≤ 3 →
    st.tableAt path root = some t → st.tableAt path' root' = some t →
      st.free t = false ∧ (st.tableAt path st.kernelCr3 = some t ∨ root = root' ∧ path = path')

/-- In every run of steps that meet the condition, spaces share no tables but the template's. -/
theorem spaceRuns_tables_apart {steps : List SpaceStep} (boot : Boot st)
    (run : Meets SpaceStep.run TeardownMeets st steps) : (st.runSteps steps).TablesApart := by
  obtain ⟨own, layout⟩ : ∃ own, Layout (st.runSteps steps) own := run.invariant
    (fun st step (known : ∃ own, Layout st own) meets => (meets.gives known.choose_spec).1)
    ⟨bootRole st, boot.layout⟩
  intro root root' path path' t isRoot isRoot' short short' reached reached'
  have role := layout.tableAt_role isRoot short reached
  constructor
  · rw [← Bool.not_eq_true, ← layout.free t]
    intro free
    rw [free] at role
    rcases role with impossible | impossible <;> cases impossible
  · rw [or_iff_not_imp_left]
    intro own
    have table := layout.own_of_tableAt isRoot short reached own
    rcases layout.tableAt_role isRoot' short' reached' with role' | role' <;> rw [table] at role'
    · cases role'
    · cases role'
      exact ⟨rfl, rfl⟩

def sampleListed : Vmm := { sampleBoot with listable := fun _ => true }

theorem sampleListed_tableAt (path : List Index) (t : Frame) :
    sampleListed.tableAt path t = sampleBoot.tableAt path t :=
  tableAt_of_mem (by rfl) path t

theorem sampleListed_boot : Boot sampleListed where
  spaces := sampleBoot_boot.spaces
  small := sampleBoot_boot.small
  levels path path' t short short' reached reached' := by
    rw [sampleListed_tableAt] at reached reached'
    exact sampleBoot_boot.levels path path' t short short' reached reached'
  used path t short reached := by
    rw [sampleListed_tableAt] at reached
    exact sampleBoot_boot.used path t short reached
  listable f isFree := ⟨(sampleBoot_boot.listable f isFree).1, rfl⟩

section

set_option maxRecDepth 20000

/-- A page is mapped under the kernel CR3 below an entry that a space has copied: the template's
entry becomes a user entry, the copy does not. The teardown takes the template's table for one of
the space and gives it back. -/
theorem spaceRuns_destroy_template :
    Boot sampleListed ∧
      (sampleListed.runSteps
        [.create, .call 1 (.mapPage 0x2000 0x30000 7), .destroy 6]).given = [6, 2] ∧
      (sampleListed.runSteps
        [.create, .call 1 (.mapPage 0x2000 0x30000 7), .destroy 6]).tableAt [0] 1 = some 2 :=
  ⟨sampleListed_boot, by decide +kernel, by decide +kernel⟩

end

/-- The sample after one space has mapped a page and another has been made. -/
def sampleSpaces : Vmm :=
  sampleListed.runSteps [.create, .call 6 (.mapPage 0x40000000 0x30000 7), .create]

theorem sampleSpaces_freesPages : sampleSpaces.FreesPages 10 := by
  have none {page : VPage} {f : Frame} : ¬ sampleSpaces.FreesLeaf 10 page f := by
    rintro ⟨t, reached, differs, -⟩
    exact differs reached
  exact ⟨fun _ _ frees => (none frees).elim, fun _ _ _ frees => (none frees).elim⟩

theorem spaceRuns_teardown_second :
    ∃ back, back.count 10 = 1 ∧ GivesBack sampleSpaces (.destroy 10) back := by
  have first : (6 : Frame) ∈ (sampleListed.runSteps [.create]).spaces := by decide +kernel
  have second : (10 : Frame) ∈ sampleSpaces.spaces := by decide +kernel
  have run : Meets SpaceStep.run TeardownMeets sampleListed
      ([.create, .call 6 (.mapPage 0x40000000 0x30000 7), .create] ++ [.destroy 10]) :=
    ⟨trivial, ⟨.inr first, by decide, .inl first⟩, trivial,
      .inr (.inr ⟨second, sampleSpaces_freesPages⟩), trivial⟩
  obtain ⟨back, gives⟩ := spaceRuns_teardown sampleListed_boot run
  refine ⟨back, gives.own 10 [] 10 rfl second (by decide) rfl ?_, gives⟩
  decide +kernel

theorem spaceRuns_tables_apart_two : (sampleListed.runSteps [.create, .create]).TablesApart :=
  spaceRuns_tables_apart sampleListed_boot ⟨trivial, trivial, trivial⟩

end GreenJade.Mm

import GreenJade.Proc.ElfLoad

/-! Owns what a load touches: the pages it maps and the words its relocations store, read off
the image before anything runs, and when all of that stays on the image's own pages. -/

namespace GreenJade.Proc

open Mm List

/-! ### What an image asks for -/

/-- Whether the mapping that comes as the `nth` is made. -/
def mapAccepts (env : LoadEnv) (nth : Nat) (va : U64) : Bool :=
  decide (env.pmmAlloc nth ≠ 0 ∧ va &&& 0xfff = 0 ∧ env.pmmAlloc nth &&& 0xfff = 0) &&
    (!vaInKernelIdentity env va && env.walkPte nth)

/-- The pages that are mapped before the first mapping that fails. -/
def mappedPrefix (env : LoadEnv) : Nat → List U64 → List U64
  | _, [] => []
  | nth, page :: rest =>
    if mapAccepts env nth page then page :: mappedPrefix env (nth + 1) rest else []

/-- The pages of the segments before the first that fails its checks. -/
def plannedPages (bias : U64) (phdrs : List Elf64Phdr) : List U64 :=
  ((phdrs.filter Elf64Phdr.loads).takeWhile (segmentOk bias)).flatMap (segmentPages bias)

/-- Every segment passes its checks and every page can be mapped. -/
structure MapsAll (env : LoadEnv) (bias : U64) (phdrs : List Elf64Phdr) (nth : Nat) : Prop where
  segments : ∀ ph ∈ phdrs, ph.loads = true → segmentOk bias ph = true
  pages : mappedPrefix env nth (plannedPages bias phdrs) = plannedPages bias phdrs

/-- The entries that a load with these tags applies. -/
def appliedRelas (env : LoadEnv) (image : Image) (bias : U64) : List Elf64Rela :=
  match dynTags image with
  | none => []
  | some tags => (relaEntries image tags).filter fun rela =>
    (relaWord env image bias tags rela).isSome

/-- The image keeps to itself: each of its pages that gets mapped lies in the user window, and
if the load comes as far as the relocations, each entry it applies aims at eight bytes of the
image's own pages. -/
structure WellPlaced (env : LoadEnv) (image : Image) (bias : U64) : Prop where
  window : ∀ page ∈ mappedPrefix env 0 (plannedPages bias image.phdrs),
    gjUserVaBase ≤ page ∧ page < gjUserVaEnd
  relas : MapsAll env bias image.phdrs 0 → ∀ rela ∈ appliedRelas env image bias,
    ∀ k < 8, pageBase (rela.offset + bias + BitVec.ofNat 64 k) ∈ plannedPages bias image.phdrs

/-- A run touched only its own pages, all of them in the user window. -/
structure LoadRun.Confined (before : UserSpace) (run : LoadRun) : Prop where
  window : ∀ page ∈ run.mapped, gjUserVaBase ≤ page ∧ page < gjUserVaEnd
  stores : ∀ stored ∈ run.stores, ∀ k < 8, pageBase (stored.dst + BitVec.ofNat 64 k) ∈ run.mapped
  mem : ∀ address, pageBase address ∉ run.mapped → run.space.mem address = before.mem address
  leaf : ∀ address, pageBase address ∉ run.mapped →
    run.space.readPte address = before.readPte address

/-! ### Every run changes only what it records -/

/-- Off the mapped pages, only the recorded words changed. -/
structure LoadRun.Frames (before : UserSpace) (run : LoadRun) : Prop where
  mem : ∀ address, pageBase address ∉ run.mapped →
    (∀ stored ∈ run.stores, ¬ address - stored.dst < 8) →
    run.space.mem address = before.mem address
  leaf : ∀ address, pageBase address ∉ run.mapped →
    run.space.readPte address = before.readPte address

theorem LoadRun.frames_start (space : UserSpace) : (LoadRun.start space).Frames space :=
  ⟨fun _ _ _ => rfl, fun _ _ => rfl⟩

variable {before : UserSpace} {run : LoadRun} {env : LoadEnv} {nth : Nat} {ph : Elf64Phdr}
    {bias : U64} {image : Image}

theorem LoadRun.Frames.withPage (frames : run.Frames before)
    (page leaf : U64) (content : U64 → U8) :
    LoadRun.Frames before { run with
      space := Proc.withPage run.space page leaf content, mapped := run.mapped ++ [page] } := by
  constructor
  · intro address off clear
    simp only [mem_append, mem_singleton, not_or] at off
    show (if pageBase address = page then _ else _) = _
    rw [if_neg off.2]
    exact frames.mem address off.1 clear
  · intro address off
    simp only [mem_append, mem_singleton, not_or] at off
    show (if pageBase address = page then _ else _) = _
    rw [if_neg off.2]
    exact frames.leaf address off.1

theorem LoadRun.Frames.put (frames : run.Frames before)
    (dst word : U64) (checked : Bool) : (run.put dst word checked).Frames before := by
  constructor
  · intro address off clear
    have apart : ¬ address - dst < 8 := clear _ (mem_append_right _ (mem_singleton_self _))
    show (if address - dst < 8 then _ else _) = _
    rw [if_neg apart]
    exact frames.mem address off fun stored member => clear stored (mem_append_left _ member)
  · exact frames.leaf

/-- A word is always stored, through the checked copy or not. -/
theorem elfWriteU64User_eq (env : LoadEnv) (run : LoadRun) (dst word : U64) :
    elfWriteU64User env run dst word = run.put dst word
      (userRangeOk dst 8 && copyOutGranted run.space env.bounce dst 8) := by
  unfold elfWriteU64User
  cases userRangeOk dst 8 <;> cases copyOutGranted run.space env.bounce dst 8 <;> rfl

/-! ### The pages a load maps -/

theorem prot_user_ne_zero (prot : U32) : (prot ||| GjVmmProt.user) &&& GjVmmProt.user ≠ 0 := by
  have absorbed : (prot ||| GjVmmProt.user) &&& GjVmmProt.user = GjVmmProt.user := by
    ext i below
    simp only [BitVec.getElem_and, BitVec.getElem_or]
    cases prot[i] <;> simp
  rw [absorbed]
  decide

variable {after : LoadRun} {target : LoadTarget} {va : U64}

theorem mapAccepts_iff : mapAccepts env nth va = true ↔
      env.pmmAlloc nth ≠ 0 ∧ (va &&& 0xfff = 0 ∧ env.pmmAlloc nth &&& 0xfff = 0) ∧
        vaInKernelIdentity env va = false ∧ env.walkPte nth = true := by
  simp only [mapAccepts, Bool.and_eq_true, decide_eq_true_eq, Bool.not_eq_true', and_assoc]

/-- A user mapping is made exactly off the kernel image, at aligned addresses, when the tables
can be had. -/
theorem vmmMapPage_user_isOk (env : LoadEnv) (nth : Nat) (va pa : U64) (prot : U32) :
    (∃ leaf, vmmMapPage env nth va pa (prot ||| GjVmmProt.user) = .ok leaf) ↔
      (va &&& 0xfff = 0 ∧ pa &&& 0xfff = 0) ∧
        vaInKernelIdentity env va = false ∧ env.walkPte nth = true := by
  unfold vmmMapPage
  by_cases aligned : va &&& 0xfff = 0 ∧ pa &&& 0xfff = 0
  · rw [if_neg (by rw [not_or, not_not, not_not]; exact aligned)]
    cases inside : vaInKernelIdentity env va with
    | true =>
      rw [if_pos ⟨rfl, Or.inl (prot_user_ne_zero prot)⟩]
      simp
    | false =>
      cases walked : env.walkPte nth with
      | true => simpa using aligned
      | false => simp
  · rw [if_pos (by rw [not_and_or] at aligned; exact aligned)]
    exact iff_of_false (fun ⟨_, made⟩ => nomatch made) (fun ⟨both, _⟩ => aligned both)

theorem mapPageCopy_accepts
    (accepts : mapAccepts env run.mapped.length va = true) (content : U64 → U8) (prot : U32) :
    ∃ leaf, mapPageCopy env run va content prot = .ok { run with
      space := withPage run.space va leaf content, mapped := run.mapped ++ [va] } := by
  obtain ⟨frame, mappable⟩ := mapAccepts_iff.mp accepts
  obtain ⟨leaf, made⟩ := (vmmMapPage_user_isOk env run.mapped.length va
    (env.pmmAlloc run.mapped.length) prot).mpr mappable
  refine ⟨leaf, ?_⟩
  unfold mapPageCopy
  rw [if_neg frame, made]

theorem mapPageCopy_refuses
    (refuses : mapAccepts env run.mapped.length va = false) (content : U64 → U8) (prot : U32) :
    ∃ status, mapPageCopy env run va content prot = .error status := by
  unfold mapPageCopy
  by_cases frame : env.pmmAlloc run.mapped.length = 0
  · exact ⟨_, if_pos frame⟩
  · rw [if_neg frame]
    cases made : vmmMapPage env run.mapped.length va (env.pmmAlloc run.mapped.length)
        (prot ||| GjVmmProt.user) with
    | error status => exact ⟨status, rfl⟩
    | ok leaf =>
      have mappable := (vmmMapPage_user_isOk env _ va _ prot).mp ⟨leaf, made⟩
      rw [mapAccepts_iff.mpr ⟨frame, mappable⟩] at refuses
      cases refuses

@[simp] theorem mappedPrefix_cons_accepts {page : U64}
    (accepts : mapAccepts env nth page = true) (rest : List U64) :
    mappedPrefix env nth (page :: rest) = page :: mappedPrefix env (nth + 1) rest :=
  if_pos accepts

@[simp] theorem mappedPrefix_cons_refuses {page : U64}
    (refuses : mapAccepts env nth page = false) (rest : List U64) :
    mappedPrefix env nth (page :: rest) = [] :=
  if_neg (by rw [refuses]; decide)

theorem mappedPrefix_append_complete {first : List U64}
    (complete : mappedPrefix env nth first = first) (second : List U64) :
    mappedPrefix env nth (first ++ second) =
      first ++ mappedPrefix env (nth + first.length) second := by
  induction first generalizing nth with
  | nil => rfl
  | cons page rest ih =>
    cases accepts : mapAccepts env nth page with
    | false =>
      rw [mappedPrefix_cons_refuses accepts] at complete
      cases complete
    | true =>
      rw [mappedPrefix_cons_accepts accepts, List.cons.injEq] at complete
      rw [cons_append, mappedPrefix_cons_accepts accepts, ih complete.2,
        length_cons, cons_append, Nat.add_assoc, Nat.add_comm 1]

theorem mappedPrefix_append_stopped {first : List U64}
    (stopped : mappedPrefix env nth first ≠ first) (second : List U64) :
    mappedPrefix env nth (first ++ second) = mappedPrefix env nth first := by
  induction first generalizing nth with
  | nil => exact absurd rfl stopped
  | cons page rest ih =>
    cases accepts : mapAccepts env nth page with
    | false =>
      rw [cons_append, mappedPrefix_cons_refuses accepts, mappedPrefix_cons_refuses accepts]
    | true =>
      have later : mappedPrefix env (nth + 1) rest ≠ rest := by
        intro complete
        apply stopped
        rw [mappedPrefix_cons_accepts accepts, complete]
      rw [cons_append, mappedPrefix_cons_accepts accepts,
        mappedPrefix_cons_accepts accepts, ih later]

theorem mappedPrefix_length_le (env : LoadEnv) (nth : Nat) (pages : List U64) :
    (mappedPrefix env nth pages).length ≤ pages.length := by
  induction pages generalizing nth with
  | nil => exact Nat.le_refl 0
  | cons page rest ih =>
    cases accepts : mapAccepts env nth page with
    | false =>
      rw [mappedPrefix_cons_refuses accepts]
      exact Nat.zero_le _
    | true =>
      rw [mappedPrefix_cons_accepts accepts]
      exact Nat.succ_le_succ (ih (nth + 1))

/-- What a stretch of the load did: of the pages it was to map, those up to the first failure,
and whether it got through. -/
structure Mapped (env : LoadEnv) (before : UserSpace) (run : LoadRun) (pages : List U64)
    (complete : Prop) (after : GjStatus × LoadRun) : Prop where
  mapped : after.2.mapped = run.mapped ++ mappedPrefix env run.mapped.length pages
  stores : after.2.stores = run.stores
  frames : run.Frames before → after.2.Frames before
  status : after.1 = .ok ↔ complete

theorem mapPages_mapped (env : LoadEnv) (before : UserSpace) (image : Image) (bias : U64)
    (ph : Elf64Phdr) (pages : List U64) (run : LoadRun) :
    Mapped env before run pages (mappedPrefix env run.mapped.length pages = pages)
      (mapPages env image bias ph pages run) := by
  induction pages generalizing run with
  | nil => exact ⟨(append_nil _).symm, rfl, id, iff_of_true rfl rfl⟩
  | cons page rest ih =>
    rw [mapPages]
    cases accepts : mapAccepts env run.mapped.length page with
    | false =>
      obtain ⟨status, refused⟩ := mapPageCopy_refuses accepts
        (pageContent image bias ph page) (segmentProt ph)
      rw [refused]
      simp only [mappedPrefix_cons_refuses accepts]
      exact ⟨by simp [mappedPrefix_cons_refuses accepts], rfl, id, iff_of_false nofun nofun⟩
    | true =>
      obtain ⟨leaf, made⟩ := mapPageCopy_accepts accepts
        (pageContent image bias ph page) (segmentProt ph)
      rw [made]
      have later := ih { run with
        space := withPage run.space page leaf (pageContent image bias ph page)
        mapped := run.mapped ++ [page] }
      have count : (run.mapped ++ [page]).length = run.mapped.length + 1 := length_append
      refine ⟨?_, later.stores, ?_, ?_⟩
      · rw [mappedPrefix_cons_accepts accepts]
        exact later.mapped.trans (by rw [count, append_assoc, singleton_append])
      · intro frames
        exact later.frames (frames.withPage page leaf _)
      · rw [mappedPrefix_cons_accepts accepts]
        exact later.status.trans (by simp)

theorem mapPages_loaded (env : LoadEnv) (image : Image) (bias : U64) (ph : Elf64Phdr)
    (pages : List U64) (run : LoadRun) :
    (mapPages env image bias ph pages run).2.loaded = run.loaded := by
  induction pages generalizing run with
  | nil => rfl
  | cons page rest ih =>
    rw [mapPages]
    cases accepts : mapAccepts env run.mapped.length page with
    | false =>
      obtain ⟨status, refused⟩ := mapPageCopy_refuses accepts
        (pageContent image bias ph page) (segmentProt ph)
      rw [refused]
    | true =>
      obtain ⟨leaf, made⟩ := mapPageCopy_accepts accepts
        (pageContent image bias ph page) (segmentProt ph)
      rw [made]
      exact ih _

theorem plannedPages_cons_skipped (skipped : ph.loads = false) (bias : U64)
    (rest : List Elf64Phdr) : plannedPages bias (ph :: rest) = plannedPages bias rest := by
  simp [plannedPages, skipped]

theorem plannedPages_cons_rejected (loads : ph.loads = true)
    (rejected : segmentOk bias ph = false) (rest : List Elf64Phdr) :
    plannedPages bias (ph :: rest) = [] := by
  simp [plannedPages, loads, rejected]

theorem plannedPages_cons_accepted (loads : ph.loads = true)
    (accepted : segmentOk bias ph = true) (rest : List Elf64Phdr) :
    plannedPages bias (ph :: rest) = segmentPages bias ph ++ plannedPages bias rest := by
  simp [plannedPages, loads, accepted]

theorem mapsAll_cons_skipped (skipped : ph.loads = false) {rest : List Elf64Phdr} :
    MapsAll env bias (ph :: rest) nth ↔ MapsAll env bias rest nth := by
  constructor
  · rintro ⟨segments, pages⟩
    rw [plannedPages_cons_skipped skipped] at pages
    exact ⟨fun other member => segments other (mem_cons_of_mem ph member), pages⟩
  · rintro ⟨segments, pages⟩
    refine ⟨?_, by rw [plannedPages_cons_skipped skipped]; exact pages⟩
    intro other member loads
    rcases mem_cons.mp member with rfl | later
    · rw [skipped] at loads
      cases loads
    · exact segments other later loads

theorem mapsAll_cons_accepted
    (loads : ph.loads = true) (accepted : segmentOk bias ph = true) {rest : List Elf64Phdr}
    (complete : mappedPrefix env nth (segmentPages bias ph) = segmentPages bias ph) :
    MapsAll env bias (ph :: rest) nth ↔
      MapsAll env bias rest (nth + (segmentPages bias ph).length) := by
  have pages : plannedPages bias (ph :: rest) = segmentPages bias ph ++ plannedPages bias rest :=
    plannedPages_cons_accepted loads accepted rest
  have mapped : mappedPrefix env nth (plannedPages bias (ph :: rest)) =
      segmentPages bias ph ++ mappedPrefix env (nth + (segmentPages bias ph).length)
        (plannedPages bias rest) := by
    rw [pages, mappedPrefix_append_complete complete]
  constructor
  · rintro ⟨segments, all⟩
    rw [mapped, pages] at all
    exact ⟨fun other member => segments other (mem_cons_of_mem ph member), append_cancel_left all⟩
  · rintro ⟨segments, all⟩
    refine ⟨?_, by rw [mapped, pages, all]⟩
    intro other member otherLoads
    rcases mem_cons.mp member with rfl | later
    · exact accepted
    · exact segments other later otherLoads

/-- A segment that failed ends the loop with its verdict. -/
theorem loadSegments_cons_failed {status : GjStatus} (loads : ph.loads = true)
    (accepted : segmentOk bias ph = true) (failed : status ≠ .ok)
    (segment : mapPages env image bias ph (segmentPages bias ph) run = (status, after))
    (rest : List Elf64Phdr) :
    loadSegments env image bias (ph :: rest) run = (status, after) := by
  rw [loadSegments, loads, accepted, if_neg (by decide), segment]
  cases status
  case ok => exact absurd rfl failed
  all_goals rfl

theorem loadSegments_cons_done (loads : ph.loads = true) (accepted : segmentOk bias ph = true)
    (segment : mapPages env image bias ph (segmentPages bias ph) run = (.ok, after))
    (rest : List Elf64Phdr) :
    loadSegments env image bias (ph :: rest) run =
      loadSegments env image bias rest { after with loaded := after.loaded + 1 } := by
  rw [loadSegments, loads, accepted, if_neg (by decide), if_neg (by decide), segment]

theorem loadSegments_cons_skipped (skipped : ph.loads = false) (rest : List Elf64Phdr) :
    loadSegments env image bias (ph :: rest) run = loadSegments env image bias rest run := by
  rw [loadSegments, if_pos skipped]

theorem loadSegments_cons_rejected (loads : ph.loads = true) (rejected : segmentOk bias ph = false)
    (rest : List Elf64Phdr) :
    loadSegments env image bias (ph :: rest) run = (.errInval, run) := by
  rw [loadSegments, if_neg (by rw [loads]; decide), if_pos rejected]

theorem loadSegments_mapped (env : LoadEnv) (before : UserSpace) (image : Image) (bias : U64)
    (phdrs : List Elf64Phdr) (run : LoadRun) :
    Mapped env before run (plannedPages bias phdrs) (MapsAll env bias phdrs run.mapped.length)
      (loadSegments env image bias phdrs run) := by
  induction phdrs generalizing run with
  | nil =>
    exact ⟨(append_nil _).symm, rfl, id, iff_of_true rfl ⟨nofun, rfl⟩⟩
  | cons ph rest ih =>
    cases loads : ph.loads with
    | false =>
      rw [loadSegments_cons_skipped loads, plannedPages_cons_skipped loads]
      have later := ih run
      exact ⟨later.mapped, later.stores, later.frames,
        later.status.trans (mapsAll_cons_skipped loads).symm⟩
    | true =>
      cases accepted : segmentOk bias ph with
      | false =>
        rw [loadSegments_cons_rejected loads accepted, plannedPages_cons_rejected loads accepted]
        refine ⟨(append_nil _).symm, rfl, id, iff_of_false nofun ?_⟩
        intro all
        have passes := all.segments ph mem_cons_self loads
        rw [accepted] at passes
        cases passes
      | true =>
        have segment := mapPages_mapped env before image bias ph (segmentPages bias ph) run
        have pages := plannedPages_cons_accepted loads accepted rest
        rcases result : mapPages env image bias ph (segmentPages bias ph) run with ⟨status, after⟩
        rw [result] at segment
        by_cases done : status = .ok
        · subst done
          rw [loadSegments_cons_done loads accepted result, pages]
          have complete := segment.status.mp rfl
          have mapped : after.mapped = run.mapped ++ segmentPages bias ph :=
            segment.mapped.trans (by rw [complete])
          have count : after.mapped.length = run.mapped.length + (segmentPages bias ph).length := by
            rw [mapped, length_append]
          have later := ih { after with loaded := after.loaded + 1 }
          refine ⟨?_, later.stores.trans segment.stores, ?_, ?_⟩
          · rw [mappedPrefix_append_complete complete, ← append_assoc, ← mapped, ← count]
            exact later.mapped
          · intro frames
            have mid := segment.frames frames
            exact later.frames ⟨mid.mem, mid.leaf⟩
          · rw [mapsAll_cons_accepted loads accepted complete, ← count]
            exact later.status
        · rw [loadSegments_cons_failed loads accepted done result, pages]
          have stopped := fun complete => done (segment.status.mpr complete)
          refine ⟨?_, segment.stores, segment.frames, iff_of_false done ?_⟩
          · rw [mappedPrefix_append_stopped stopped]
            exact segment.mapped
          · intro all
            have everything := all.pages
            rw [pages, mappedPrefix_append_stopped stopped] at everything
            have short := mappedPrefix_length_le env run.mapped.length (segmentPages bias ph)
            have nothing : plannedPages bias rest = [] := by
              rw [everything, length_append] at short
              exact eq_nil_of_length_eq_zero (by omega)
            rw [nothing, append_nil] at everything
            exact stopped everything

theorem loadSegments_loaded {phdrs : List Elf64Phdr}
    (done : (loadSegments env image bias phdrs run).1 = .ok) :
    (loadSegments env image bias phdrs run).2.loaded =
      run.loaded + (phdrs.filter Elf64Phdr.loads).length := by
  induction phdrs generalizing run with
  | nil => rfl
  | cons ph rest ih =>
    cases loads : ph.loads with
    | false =>
      rw [loadSegments_cons_skipped loads] at done ⊢
      rw [filter_cons_of_neg (by rw [loads]; decide)]
      exact ih done
    | true =>
      cases accepted : segmentOk bias ph with
      | false =>
        rw [loadSegments_cons_rejected loads accepted] at done
        cases done
      | true =>
        have kept := mapPages_loaded env image bias ph (segmentPages bias ph) run
        rcases result : mapPages env image bias ph (segmentPages bias ph) run with ⟨status, after⟩
        rw [result] at kept
        by_cases good : status = .ok
        · subst good
          rw [loadSegments_cons_done loads accepted result] at done ⊢
          rw [filter_cons_of_pos loads, ih done, length_cons]
          show after.loaded + 1 + _ = _
          have kept : after.loaded = run.loaded := kept
          omega
        · rw [loadSegments_cons_failed loads accepted good result] at done
          exact absurd done good

/-- The probe counts the segments. -/
theorem probeLoop_count {cb : U64} {phdrs : List Elf64Phdr} {low high low' high' : U64}
    {count count' : Nat}
    (accepted : probeLoop cb phdrs low high count = .ok (low', high', count')) :
    count' = count + (phdrs.filter Elf64Phdr.loads).length := by
  induction phdrs generalizing low high count with
  | nil =>
    simp only [probeLoop, Except.ok.injEq, Prod.mk.injEq] at accepted
    rw [← accepted.2.2]
    rfl
  | cons ph rest ih =>
    rw [probeLoop] at accepted
    split at accepted
    · next interp =>
      rw [ite_error_eq_ok] at accepted
      have skipped : ph.loads = false := by
        rw [Elf64Phdr.loads, interp.1]
        rfl
      rw [filter_cons_of_neg (by rw [skipped]; decide)]
      exact ih accepted.2
    · cases loads : ph.loads with
      | false =>
        rw [if_pos loads] at accepted
        rw [filter_cons_of_neg (by rw [loads]; decide)]
        exact ih accepted
      | true =>
        rw [if_neg (by rw [loads]; decide)] at accepted
        simp only [ite_error_eq_ok] at accepted
        rw [filter_cons_of_pos loads, length_cons, ih accepted.2.2.2.2]
        omega

theorem elfFillProbe_loads {pImage : Option Image} {info : GjElfInfo}
    (accepted : elfFillProbe pImage = .ok (image, info)) :
    (image.phdrs.filter Elf64Phdr.loads).length ≠ 0 := by
  cases pImage with
  | none => cases accepted
  | some offered =>
    simp only [elfFillProbe, ite_error_eq_ok] at accepted
    obtain ⟨-, -, -, -, -, -, probed⟩ := accepted
    split at probed
    · cases probed
    next loop =>
    simp only [ite_error_eq_ok, Except.ok.injEq] at probed
    obtain ⟨some, rfl, -⟩ := probed
    have counted := probeLoop_count loop
    omega

/-! ### The words a load stores -/

/-- What the relocations did: words at these places in turn, and no mapping. -/
structure Stored (before : UserSpace) (run : LoadRun) (dsts : List U64) (after : LoadRun) :
    Prop where
  mapped : after.mapped = run.mapped
  frames : after.Frames before
  stores : after.stores.map WordStore.dst = run.stores.map WordStore.dst ++ dsts

theorem applyRela_foldl (env : LoadEnv) (image : Image) (bias : U64) (tags : DynTags)
    (relas : List Elf64Rela) (run : LoadRun) (frames : run.Frames before) :
    Stored before run ((relas.filter fun rela => (relaWord env image bias tags rela).isSome).map
        fun rela => rela.offset + bias)
      (relas.foldl (applyRela env image bias tags) run) := by
  induction relas generalizing run with
  | nil => exact ⟨rfl, frames, (append_nil _).symm⟩
  | cons rela rest ih =>
    rw [foldl_cons]
    cases word : relaWord env image bias tags rela with
    | none =>
      have passed : applyRela env image bias tags run rela = run := by
        rw [applyRela, word]
      rw [passed, filter_cons_of_neg (by rw [word]; decide)]
      exact ih run frames
    | some value =>
      have stored : applyRela env image bias tags run rela = run.put (rela.offset + bias) value
          (userRangeOk (rela.offset + bias) 8 &&
            copyOutGranted run.space env.bounce (rela.offset + bias) 8) := by
        rw [applyRela, word]
        exact elfWriteU64User_eq env run _ value
      rw [stored, filter_cons_of_pos (by rw [word]; rfl)]
      have later := ih _ (frames.put (rela.offset + bias) value
        (userRangeOk (rela.offset + bias) 8 &&
          copyOutGranted run.space env.bounce (rela.offset + bias) 8))
      exact ⟨later.mapped, later.frames, later.stores.trans (by simp [LoadRun.put])⟩

theorem elfApplyRelocs_stored (env : LoadEnv) (image : Image) (bias : U64) (run : LoadRun)
    (frames : run.Frames before) :
    Stored before run ((appliedRelas env image bias).map fun rela => rela.offset + bias)
      (elfApplyRelocs env image bias run) := by
  unfold elfApplyRelocs appliedRelas
  cases dynTags image with
  | none => exact ⟨rfl, frames, (append_nil _).symm⟩
  | some tags => exact applyRela_foldl env image bias tags _ run frames

/-! ### The whole load -/

/-- With its words on its own pages, a run that changed only what it records is confined. -/
theorem LoadRun.Frames.confined_iff (frames : run.Frames before) : run.Confined before ↔
      (∀ page ∈ run.mapped, gjUserVaBase ≤ page ∧ page < gjUserVaEnd) ∧
        ∀ dst ∈ run.stores.map WordStore.dst, ∀ k < 8,
          pageBase (dst + BitVec.ofNat 64 k) ∈ run.mapped := by
  rw [forall_mem_map]
  constructor
  · intro confined
    exact ⟨confined.window, confined.stores⟩
  · rintro ⟨window, stores⟩
    refine ⟨window, stores, ?_, frames.leaf⟩
    intro address off
    apply frames.mem address off
    intro stored member inside
    apply off
    have onPage := stores stored member (address - stored.dst).toNat (by bv_omega)
    have place : stored.dst + BitVec.ofNat 64 (address - stored.dst).toNat = address := by
      bv_omega
    rwa [place] at onPage

theorem elfLoadProbed_failed
    {status : GjStatus} (ready : target.asEnsure = true) (failed : status ≠ .ok)
    (segments : loadSegments env image bias image.phdrs (.start target.space) = (status, after))
    (info : GjElfInfo) : (elfLoadProbed env target image info bias).run = after := by
  rw [elfLoadProbed, if_neg (by rw [ready]; decide), segments]
  cases status
  case ok => exact absurd rfl failed
  all_goals rfl

theorem elfLoadProbed_done (ready : target.asEnsure = true) (loaded : after.loaded ≠ 0)
    (segments : loadSegments env image bias image.phdrs (.start target.space) = (.ok, after))
    (info : GjElfInfo) :
    (elfLoadProbed env target image info bias).run = elfApplyRelocs env image bias after := by
  rw [elfLoadProbed, if_neg (by rw [ready]; decide), segments]
  show (if after.loaded = 0 then _ else _ : LoadOutcome).run = _
  rw [if_neg loaded]

/-- What a load that the probe let in did: it maps what it can, and stores only if it has mapped
everything. -/
structure Loaded (env : LoadEnv) (before : UserSpace) (image : Image) (bias : U64)
    (run : LoadRun) : Prop where
  frames : run.Frames before
  mapped : run.mapped = mappedPrefix env 0 (plannedPages bias image.phdrs)
  stores : MapsAll env bias image.phdrs 0 → run.stores.map WordStore.dst =
    (appliedRelas env image bias).map fun rela => rela.offset + bias
  noStores : ¬ MapsAll env bias image.phdrs 0 → run.stores = []

theorem elfLoadProbed_loaded
    (ready : target.asEnsure = true) (loads : (image.phdrs.filter Elf64Phdr.loads).length ≠ 0)
    (info : GjElfInfo) (bias : U64) :
    Loaded env target.space image bias (elfLoadProbed env target image info bias).run := by
  have segments := loadSegments_mapped env target.space image bias image.phdrs
    (LoadRun.start target.space)
  have counted := @loadSegments_loaded (.start target.space) env bias image image.phdrs
  rcases result : loadSegments env image bias image.phdrs (LoadRun.start target.space)
    with ⟨status, after⟩
  rw [result] at segments counted
  have framed := segments.frames (LoadRun.frames_start target.space)
  by_cases done : status = .ok
  · subst done
    have loaded : after.loaded ≠ 0 := by
      have total : after.loaded = 0 + _ := counted rfl
      omega
    rw [elfLoadProbed_done ready loaded result]
    have relocated := elfApplyRelocs_stored env image bias after framed
    refine ⟨relocated.frames, relocated.mapped.trans segments.mapped, ?_, ?_⟩
    · intro _
      rw [relocated.stores, segments.stores]
      rfl
    · intro partly
      exact absurd (segments.status.mp rfl) partly
  · rw [elfLoadProbed_failed ready done result]
    refine ⟨framed, segments.mapped, ?_, fun _ => segments.stores⟩
    intro all
    exact absurd (segments.status.mpr all) done

theorem Loaded.confined_iff (loaded : Loaded env before image bias run) :
    run.Confined before ↔ WellPlaced env image bias := by
  rw [loaded.frames.confined_iff, loaded.mapped]
  by_cases all : MapsAll env bias image.phdrs 0
  · rw [loaded.stores all, forall_mem_map, all.pages]
    constructor
    · rintro ⟨window, relas⟩
      exact ⟨by rw [all.pages]; exact window, fun _ => relas⟩
    · rintro ⟨window, relas⟩
      exact ⟨by rw [all.pages] at window; exact window, relas all⟩
  · rw [loaded.noStores all]
    constructor
    · rintro ⟨window, -⟩
      exact ⟨window, fun complete => absurd complete all⟩
    · rintro ⟨window, -⟩
      exact ⟨window, nofun⟩

/-- Nothing was mapped or stored. -/
theorem LoadRun.confined_start (space : UserSpace) : (LoadRun.start space).Confined space :=
  ⟨nofun, nofun, fun _ _ => rfl, fun _ _ => rfl⟩

/-- A load touches only the image's own pages, all in the user window, exactly when the image
that it accepts keeps to itself under the bias it settles on. -/
theorem elfLoad_confined_iff (env : LoadEnv) (target : LoadTarget) (pImage : Option Image)
    (biasReq : U64) :
    (elfLoadImageBias env target pImage biasReq).run.Confined target.space ↔
      ∀ image info, elfFillProbe pImage = .ok (image, info) → target.asEnsure = true →
        WellPlaced env image (chosenBias biasReq info) := by
  unfold elfLoadImageBias
  cases probed : elfFillProbe pImage with
  | error status =>
    apply iff_of_true (LoadRun.confined_start target.space)
    intro image info accepted
    cases accepted
  | ok found =>
    obtain ⟨image, info⟩ := found
    show (elfLoadProbed env target image info (chosenBias biasReq info)).run.Confined _ ↔ _
    cases ready : target.asEnsure with
    | false =>
      have idle : (elfLoadProbed env target image info (chosenBias biasReq info)).run =
          .start target.space := by
        rw [elfLoadProbed, if_pos ready]
      rw [idle]
      apply iff_of_true (LoadRun.confined_start target.space)
      intro _ _ _ never
      cases never
    | true =>
      rw [(elfLoadProbed_loaded ready (elfFillProbe_loads probed) info _).confined_iff]
      constructor
      · intro placed other otherInfo accepted _
        cases accepted
        exact placed
      · intro all
        exact all image info rfl rfl

/-! ### An image that writes into the kernel -/

/-- An image given by its nonzero bytes. -/
def sparseImage (cb : U64) (bytes : List (Nat × U8)) : Image where
  bytes off := ((bytes.find? fun entry => entry.1 == off.toNat).map Prod.snd).getD 0
  cb := cb

/-- An executable of one segment, one dynamic section and one `RELATIVE` entry. The segment
starts at `vaddrMib` MiB, and the entry stores `0x41` at `dstMib` MiB. -/
def oneRelaImage (vaddrMib dstMib : U8) : Image :=
  sparseImage 248
    [(0, 0x7f), (1, 0x45), (2, 0x4c), (3, 0x46), (4, 2), (5, 1), (16, 2), (18, 62), (32, 64),
      (54, 56), (56, 2),
      -- `PT_LOAD`: the whole file
      (64, 1), (82, vaddrMib <<< 4), (96, 248), (104, 248),
      -- `PT_DYNAMIC`: `DT_RELA`, `DT_RELASZ`, `DT_NULL`
      (120, 2), (128, 176), (152, 48),
      (176, 7), (184, 224), (186, vaddrMib <<< 4), (192, 8), (200, 24),
      -- the entry
      (226, dstMib <<< 4), (232, 8), (240, 0x41)]

def sampleEnv : LoadEnv where
  kernelStart := 0x100000
  kernelEnd := 0x300000
  pmmAlloc nth := BitVec.ofNat 64 (0x1000000 + nth * gjPageSize)
  walkPte _ := true
  bounce := 0x200000
  elfLookupInSos _ := none

def sampleTarget : LoadTarget where
  asEnsure := true
  space := { readPte := fun _ => 0, mem := fun _ => 0 }

example :
    let run := (elfLoadImageBias sampleEnv sampleTarget (some (oneRelaImage 8 8)) 0).run
    run.mapped = [0x800000] ∧ run.stores.map WordStore.dst = [0x800000] := by
  decide +kernel

/-- The image is accepted; its segment is mapped at 4 MiB, below the user window, and its
relocation overwrites the first byte of the kernel. -/
theorem elfLoad_writes_kernel :
    let outcome := elfLoadImageBias sampleEnv sampleTarget (some (oneRelaImage 4 1)) 0
    outcome.status = .ok ∧ outcome.run.mapped = [0x400000] ∧
      outcome.run.stores = [{ dst := 0x100000, word := 0x41, checked := false }] ∧
      sampleTarget.space.mem 0x100000 = 0 ∧ outcome.run.space.mem 0x100000 = 0x41 ∧
      ¬ outcome.run.Confined sampleTarget.space := by
  intro outcome
  have facts : outcome.status = .ok ∧ outcome.run.mapped = [0x400000] ∧
      outcome.run.stores = [{ dst := 0x100000, word := 0x41, checked := false }] ∧
      sampleTarget.space.mem 0x100000 = 0 ∧ outcome.run.space.mem 0x100000 = 0x41 := by
    decide +kernel
  obtain ⟨status, mapped, stores, before, after⟩ := facts
  refine ⟨status, mapped, stores, before, after, ?_⟩
  intro confined
  have low := (confined.window 0x400000 (by rw [mapped]; exact mem_singleton_self _)).1
  exact absurd low (by decide)

end GreenJade.Proc

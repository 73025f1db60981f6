import GreenJade.Proc.Spawn
import GreenJade.Cap.SlotWrites

/-! Owns what a task handle stands for: over every run of spawns, kills, waits and capability
calls, a handle that resolves yields the child that it was made for, although the entries of
the spawn table are used again with the same object generation. What carries it is that the
rights of a task handle allow no copy, so a reaped child leaves no handle behind. -/

namespace GreenJade.Proc

open Cap GjRight

universe u v w x

variable {C : Type u} {O : Type v} {Q : Type w} {X : Type x}

/-- What holds of a slot that names the header of an entry. -/
structure TaskSlot (st : ProcState C O Q X) (c : C) (i : Nat) (e : Fin gjSpawnMax) : Prop where
  used : (st.entry e).used = true
  label : st.issued c i = some (e, st.tenant e)
  noGrant : (st.caps.slot c i).rights &&& grant = 0
  noMint : (st.caps.slot c i).rights &&& mint = 0

/-- A header is named by one slot at most, whose capability was made for the present child of
an entry in use. -/
structure HandlesSound (layout : SpawnLayout C O X) (st : ProcState C O Q X) : Prop where
  task : ∀ c i e, (st.caps.slot c i).Names (layout.hdr e) → TaskSlot st c i e
  unique : ∀ c i c' i' e, (st.caps.slot c i).Names (layout.hdr e) →
    (st.caps.slot c' i').Names (layout.hdr e) → c = c' ∧ i = i'
  genPos : ∀ c i, (st.caps.slot c i).gen ≠ 0

variable {layout : SpawnLayout C O X} {st st' : ProcState C O Q X}

/-- No slot names the header of an entry. -/
def Unnamed (layout : SpawnLayout C O X) (caps : CapState C O Q) (e : Fin gjSpawnMax) : Prop :=
  ∀ c i, ¬ (caps.slot c i).Names (layout.hdr e)

/-- Only an entry in use is named. -/
theorem HandlesSound.unnamed (sound : HandlesSound layout st) {e : Fin gjSpawnMax}
    (free : (st.entry e).used = false) : Unnamed layout st.caps e := by
  intro c i names
  have used := (sound.task c i e names).used
  rw [free] at used
  cases used

/-- A slot and what is known of the entry that it names are as before. -/
structure KeepsTask (st st' : ProcState C O Q X) (c : C) (i : Nat) (e : Fin gjSpawnMax) :
    Prop where
  slot : st'.caps.slot c i = st.caps.slot c i
  issued : st'.issued c i = st.issued c i
  tenant : st'.tenant e = st.tenant e
  used : (st'.entry e).used = (st.entry e).used

theorem TaskSlot.of_keeps {c : C} {i : Nat} {e : Fin gjSpawnMax} (before : TaskSlot st c i e)
    (keeps : KeepsTask st st' c i e) : TaskSlot st' c i e := by
  obtain ⟨slot, issued, tenant, used⟩ := keeps
  exact ⟨by rw [used]; exact before.used, by rw [issued, tenant]; exact before.label,
    by rw [slot]; exact before.noGrant, by rw [slot]; exact before.noMint⟩

/-- Handles stay sound when every header that is still named is named as before. -/
theorem HandlesSound.narrow (sound : HandlesSound layout st)
    (kept : ∀ c i e, (st'.caps.slot c i).Names (layout.hdr e) → KeepsTask st st' c i e)
    (genPos : ∀ c i, (st'.caps.slot c i).gen ≠ 0) : HandlesSound layout st' where
  task c i e names := by
    have keeps := kept c i e names
    rw [keeps.slot] at names
    exact (sound.task c i e names).of_keeps keeps
  unique c i c' i' e names names' := by
    rw [(kept c i e names).slot] at names
    rw [(kept c' i' e names').slot] at names'
    exact sound.unique c i c' i' e names names'
  genPos := genPos

section

/-- No slot came to name a header. -/
structure NoNewTask (layout : SpawnLayout C O X) (caps caps' : CapState C O Q) : Prop where
  kept : ∀ c i e, (caps'.slot c i).Names (layout.hdr e) → caps'.slot c i = caps.slot c i
  genPos : (∀ c i, (caps.slot c i).gen ≠ 0) → ∀ c i, (caps'.slot c i).gen ≠ 0

namespace NoNewTask

variable {caps caps' caps'' : CapState C O Q}

theorem of_slot_eq (slot : caps'.slot = caps.slot) : NoNewTask layout caps caps' :=
  ⟨fun _ _ _ _ => by rw [slot], fun genPos => by rw [slot]; exact genPos⟩

theorem trans (first : NoNewTask layout caps caps') (second : NoNewTask layout caps' caps'') :
    NoNewTask layout caps caps'' where
  kept c i e names := by
    have later := second.kept c i e names
    rw [later] at names
    exact later.trans (first.kept c i e names)
  genPos before := second.genPos (first.genPos before)

theorem of_clears {may : C → CapSlot O → Prop} (clears : Clears may caps caps') :
    NoNewTask layout caps caps' where
  kept _ _ _ := clears.names
  genPos before c i := by
    rcases clears.slot c i with same | ⟨-, cleared⟩
    · rw [same]
      exact before c i
    · rw [cleared]
      exact nextGen_ne_zero _

theorem unnamed (keeps : NoNewTask layout caps caps') {e : Fin gjSpawnMax}
    (before : Unnamed layout caps e) : Unnamed layout caps' e := by
  intro c i named
  have same := keeps.kept c i e named
  rw [same] at named
  exact before c i named

variable [DecidableEq C]

/-- A capability for an object outside of the spawn table is no task handle. -/
theorem of_installs {c : C} {capType : CapType} {rights : U16} {o : O} {ref : CapRef}
    (installs : Installs caps c capType rights o ref caps') (other : ∀ e, layout.hdr e ≠ o) :
    NoNewTask layout caps caps' where
  kept c' i e names := by
    rw [installs.slot] at names ⊢
    by_cases here : c' = c ∧ i = ref.slot
    · rw [if_pos here] at names
      exact absurd (Option.some.inj names.2).symm (other e)
    · exact if_neg here
  genPos before := installs.genPos before

end NoNewTask

/-- Without a new task handle, and with no named entry taken back, the handles stay sound. -/
theorem HandlesSound.noNewTask (sound : HandlesSound layout st)
    (keeps : NoNewTask layout st.caps st'.caps) (tenant : st'.tenant = st.tenant)
    (issued : ∀ c i e, (st'.caps.slot c i).Names (layout.hdr e) → st'.issued c i = st.issued c i)
    (used : ∀ e, (st'.entry e).used = (st.entry e).used ∨ Unnamed layout st'.caps e) :
    HandlesSound layout st' := by
  refine sound.narrow ?_ (keeps.genPos sound.genPos)
  intro c i e names
  refine ⟨keeps.kept c i e names, issued c i e names, by rw [tenant], ?_⟩
  exact (used e).resolve_right fun unnamed => unnamed c i names

/-! ### The wait table -/

/-- At most the wait table changed, and whether the child of one entry is alive. -/
structure WaitOnly (st st' : ProcState C O Q X) (e : Fin gjSpawnMax) : Prop where
  caps : st'.caps = st.caps
  tenant : st'.tenant = st.tenant
  issued : st'.issued = st.issued
  others : ∀ e', e' ≠ e → st'.entry e' = st.entry e'
  used : (st'.entry e).used = (st.entry e).used
  hasCnode : (st'.entry e).hasCnode = (st.entry e).hasCnode

namespace WaitOnly

variable {st'' : ProcState C O Q X} {e : Fin gjSpawnMax}

theorem of_entry_eq (caps : st'.caps = st.caps)
    (tenant : st'.tenant = st.tenant) (issued : st'.issued = st.issued)
    (entry : st'.entry = st.entry) : WaitOnly st st' e :=
  ⟨caps, tenant, issued, fun e' _ => by rw [entry], by rw [entry], by rw [entry]⟩

theorem trans (first : WaitOnly st st' e) (second : WaitOnly st' st'' e) : WaitOnly st st'' e where
  caps := second.caps.trans first.caps
  tenant := second.tenant.trans first.tenant
  issued := second.issued.trans first.issued
  others e' different := (second.others e' different).trans (first.others e' different)
  used := second.used.trans first.used
  hasCnode := second.hasCnode.trans first.hasCnode

theorem setEntry {entry : SpawnEntry} (used : entry.used = (st.entry e).used)
    (hasCnode : entry.hasCnode = (st.entry e).hasCnode) : WaitOnly st (st.setEntry e entry) e where
  caps := rfl
  tenant := rfl
  issued := rfl
  others _ different := st.setEntry_of_ne different _
  used := by
    rw [st.setEntry_self]
    exact used
  hasCnode := by
    rw [st.setEntry_self]
    exact hasCnode

theorem used_eq (only : WaitOnly st st' e) (e' : Fin gjSpawnMax) :
    (st'.entry e').used = (st.entry e').used := by
  by_cases same : e' = e
  · rw [same]
    exact only.used
  · rw [only.others e' same]

theorem sound (only : WaitOnly st st' e) (sound : HandlesSound layout st) :
    HandlesSound layout st' :=
  sound.noNewTask (.of_slot_eq (by rw [only.caps])) only.tenant
    (fun _ _ _ _ => by rw [only.issued]) fun e' => .inl (only.used_eq e')

end WaitOnly

variable {c : C} {e : Fin gjSpawnMax} {caps : CapState C O Q} {ref : CapRef}

/-- A process has the CNode of an entry only if it lives there. -/
theorem ProcState.pCnode_ne {parent : GjProcess X}
    (cnode : st.pCnode layout parent = some c) (elsewhere : parent ≠ .spawned e) :
    layout.cnode e ≠ c := by
  rintro rfl
  cases parent with
  | other p => exact layout.otherCnode_ne p e cnode
  | spawned p =>
    simp only [ProcState.pCnode] at cnode
    split_ifs at cnode
    have both := layout.cnode_injective (Option.some.inj cnode)
    exact elsewhere (by rw [both])

/-- Giving up an entry that no slot names keeps the handles sound. -/
theorem spawnGiveUp_sound (sound : HandlesSound layout st) (keeps : NoNewTask layout st.caps caps)
    (unnamed : Unnamed layout caps e) : HandlesSound layout (spawnGiveUp st e caps) := by
  refine sound.noNewTask keeps rfl (fun _ _ _ _ => rfl) ?_
  intro e'
  by_cases same : e' = e
  · subst same
    exact .inr unnamed
  · exact .inl (congrArg SpawnEntry.used (st.setEntry_of_ne same _))

/-- A capability that may be copied or minted from is no task handle. -/
theorem HandlesSound.not_task (sound : HandlesSound layout st) {i : Nat} {gen : U32}
    {res : CapResolved O}
    (resolved : gjCapResolve st.caps c i gen = .ok res)
    (derivable : res.rights &&& grant ≠ 0 ∨ res.rights &&& mint ≠ 0)
    (e : Fin gjSpawnMax) : layout.hdr e ≠ res.obj := by
  intro task
  obtain ⟨-, -, -, names, -, -, -, rights⟩ := gjCapResolve_eq_ok resolved
  rw [← task] at names
  have slot := sound.task c i e names
  rw [rights] at derivable
  rcases derivable with grant | mint
  · exact grant slot.noGrant
  · exact mint slot.noMint

/-- The spawn table before its first child: no slot names a header of its entries. The rest of
the capability state and the wait table are as they may be. -/
structure SpawnBoot (layout : SpawnLayout C O X) (st : ProcState C O Q X) : Prop where
  unnamed : ∀ e, Unnamed layout st.caps e
  genPos : ∀ c i, (st.caps.slot c i).gen ≠ 0

theorem SpawnBoot.sound (boot : SpawnBoot layout st) : HandlesSound layout st :=
  ⟨fun c i e names => absurd names (boot.unnamed e c i),
    fun c i _ _ e names => absurd names (boot.unnamed e c i), boot.genPos⟩

theorem processWaitReparent_waitOnly (st : ProcState C O Q X) (old new : U32)
    (e : Fin gjSpawnMax) : WaitOnly st (processWaitReparent st old new) e := by
  unfold processWaitReparent
  split_ifs
  all_goals exact .of_entry_eq rfl rfl rfl rfl

section

variable [DecidableEq X] (st)

theorem processWaitRegister_waitOnly (e : Fin gjSpawnMax) (ppid : U32) :
    WaitOnly st (processWaitRegister st e ppid) e := by
  unfold processWaitRegister
  split
  · exact .of_entry_eq rfl rfl rfl rfl
  · cases (List.finRange gjWaitSlots).find? fun k => !(st.wait k).used with
    | none => exact .of_entry_eq rfl rfl rfl rfl
    | some k =>
      have marked : WaitOnly st (st.setEntry e { st.entry e with alive := true }) e :=
        .setEntry rfl rfl
      exact marked.trans (.of_entry_eq rfl rfl rfl rfl)

theorem processWaitForget_waitOnly (proc : GjProcess X)
    (e : Fin gjSpawnMax) : WaitOnly st (processWaitForget st proc) e := by
  unfold processWaitForget
  cases st.waitFind proc with
  | none | some => exact .of_entry_eq rfl rfl rfl rfl

theorem processWaitNoteExit_waitOnly (e : Fin gjSpawnMax) (code : U32) :
    WaitOnly st (processWaitNoteExit st e code) e := by
  have noted : WaitOnly st
      (st.setEntry e { st.entry e with exitCode := code, alive := false }) e := .setEntry rfl rfl
  unfold processWaitNoteExit
  simp only
  split
  · exact noted.trans (.of_entry_eq rfl rfl rfl rfl)
  · exact noted

end

/-! ### New handles, cleared ones and the wait -/

theorem spawnProcessRights_spec (jit : Bool) :
    spawnProcessRights jit &&& gjSpawnProcessRightsCore = gjSpawnProcessRightsCore ∧
      spawnProcessRights jit &&& grant = 0 ∧ spawnProcessRights jit &&& mint = 0 ∧
      spawnProcessRights jit &&& destroy ≠ 0 ∧
      spawnProcessRights jit &&& wait ≠ 0 := by
  cases jit <;> decide

section

variable [DecidableEq O]

theorem childOf_hdr {o : O} (child : layout.childOf o = some e) : layout.hdr e = o := by
  simpa using List.find?_some child

/-- The handle that kill and wait accept names the child. -/
theorem taskOf_names {parent : GjProcess X} {right : U16}
    (task : taskOf layout st parent ref right = .ok (c, e)) :
    st.pCnode layout parent = some c ∧ ∃ res, gjCapResolve st.caps c ref.slot ref.gen = .ok res ∧
      res.obj = layout.hdr e ∧ res.capType = .process ∧ res.rights &&& right ≠ 0 := by
  unfold taskOf at task
  split at task
  · cases task
  next cnode =>
  split at task
  · cases task
  next res resolved =>
  simp only [ite_error_eq_ok, not_not] at task
  obtain ⟨typed, allowed, task⟩ := task
  split at task
  · cases task
  next child =>
  cases task
  exact ⟨cnode, res, resolved, (childOf_hdr child).symm, typed, allowed⟩

end

section

variable [DecidableEq C]

/-- The slot of a handle that resolves is cleared. -/
theorem clears_invalidateRef (caps : CapState C O Q) (c : C) (ref : CapRef) :
    Clears (fun _ slot => slot.capType ≠ .invalid) caps (invalidateRef caps c ref) := by
  unfold invalidateRef
  cases resolved : gjCapResolve caps c ref.slot ref.gen with
  | error status => exact .refl _ caps
  | ok res =>
    exact clears_invalidateSlot (gjCapResolve_eq_ok resolved).2.2.2.1.1 rfl (fun _ => rfl)
      (fun _ => rfl) rfl rfl

theorem invalidateSlot_slot_self (caps : CapState C O Q) (c : C) (i : Nat) :
    (invalidateSlot caps c i).slot c i = gjCapSlotInvalidate (caps.slot c i) := by
  simp [invalidateSlot, CapState.setSlot, CapState.countInvalidation]

/-- The handle of a new child is the only one, and stands for it. -/
theorem HandlesSound.issue_task (sound : HandlesSound layout st)
    {jit : Bool} {booted : CapState C O Q}
    (keeps : NoNewTask layout st.caps booted) (unnamed : Unnamed layout booted e)
    (used : (st.entry e).used = true)
    (installs : Installs booted c .process (spawnProcessRights jit) (layout.hdr e) ref caps) :
    HandlesSound layout (({ st with caps }).issue c ref.slot (some (e, st.tenant e))) := by
  have label : ∀ c' i, (({ st with caps } : ProcState C O Q X).issue c ref.slot
      (some (e, st.tenant e))).issued c' i =
      if c' = c ∧ i = ref.slot then some (e, st.tenant e) else st.issued c' i :=
    fun c' i => update_update_apply st.issued c c' ref.slot i (some (e, st.tenant e))
  have cases : ∀ c' i e', (caps.slot c' i).Names (layout.hdr e') →
      (c' = c ∧ i = ref.slot ∧ e' = e) ∨
        (e' ≠ e ∧ caps.slot c' i = st.caps.slot c' i ∧ ¬ (c' = c ∧ i = ref.slot)) := by
    intro c' i e' names
    rw [installs.slot] at names ⊢
    by_cases here : c' = c ∧ i = ref.slot
    · rw [if_pos here] at names
      exact .inl ⟨here.1, here.2, layout.hdr_injective (Option.some.inj names.2).symm⟩
    · rw [if_neg here] at names ⊢
      refine .inr ⟨?_, keeps.kept c' i e' names, here⟩
      rintro rfl
      exact unnamed c' i names
  refine ⟨?_, ?_, installs.genPos (keeps.genPos sound.genPos)⟩
  · intro c' i e' names
    rcases cases c' i e' names with ⟨rfl, rfl, rfl⟩ | ⟨-, same, elsewhere⟩
    · have rights : (caps.slot c' ref.slot).rights = spawnProcessRights jit := by
        rw [installs.slot, if_pos ⟨rfl, rfl⟩]
      obtain ⟨-, noGrant, noMint, -⟩ := spawnProcessRights_spec jit
      exact ⟨used, (label c' ref.slot).trans (if_pos ⟨rfl, rfl⟩),
        (congrArg (· &&& grant) rights).trans noGrant,
        (congrArg (· &&& mint) rights).trans noMint⟩
    · exact (sound.task c' i e' (same ▸ names)).of_keeps
        ⟨same, (label c' i).trans (if_neg elsewhere), rfl, rfl⟩
  · intro c₁ i₁ c₂ i₂ e' names₁ names₂
    rcases cases c₁ i₁ e' names₁ with ⟨rfl, rfl, rfl⟩ | ⟨different, same₁, -⟩
    · rcases cases c₂ i₂ e' names₂ with ⟨rfl, rfl, -⟩ | ⟨different, -, -⟩
      · exact ⟨rfl, rfl⟩
      · exact absurd rfl different
    · rcases cases c₂ i₂ e' names₂ with ⟨-, -, here⟩ | ⟨-, same₂, -⟩
      · exact absurd here different
      · have names₁ : (caps.slot c₁ i₁).Names (layout.hdr e') := names₁
        have names₂ : (caps.slot c₂ i₂).Names (layout.hdr e') := names₂
        rw [same₁] at names₁
        rw [same₂] at names₂
        exact sound.unique c₁ i₁ c₂ i₂ e' names₁ names₂

/-- The handle of a child that is given up is cleared. -/
theorem unnamed_invalidateRef {caps' : CapState C O Q}
    {rights : U16} (unnamed : Unnamed layout caps e) (nonNull : ref.gen ≠ 0)
    (installs : Installs caps c .process rights (layout.hdr e) ref caps') :
    Unnamed layout (invalidateRef caps' c ref) e := by
  intro c' i names
  have same := (clears_invalidateRef caps' c ref).names names
  by_cases here : c' = c ∧ i = ref.slot
  · obtain ⟨rfl, rfl⟩ := here
    unfold invalidateRef at names
    rw [installs.resolves nonNull] at names
    have cleared := invalidateSlot_slot_self caps' c' ref.slot
    rw [cleared] at names
    exact names.1 rfl
  · rw [same, installs.slot, if_neg here] at names
    exact unnamed c' i names

theorem noNewTask_invalidateRef {caps' : CapState C O Q}
    {rights : U16} (unnamed : Unnamed layout caps e) (nonNull : ref.gen ≠ 0)
    (installs : Installs caps c .process rights (layout.hdr e) ref caps') :
    NoNewTask layout caps (invalidateRef caps' c ref) where
  kept c' i e' names := by
    have same := (clears_invalidateRef caps' c ref).names names
    by_cases here : c' = c ∧ i = ref.slot
    · have own := names
      rw [same, installs.slot, if_pos here] at own
      obtain rfl := layout.hdr_injective (Option.some.inj own.2)
      exact absurd names (unnamed_invalidateRef unnamed nonNull installs c' i)
    · rw [same, installs.slot, if_neg here]
  genPos before := by
    have cleared : NoNewTask layout caps' (invalidateRef caps' c ref) :=
      .of_clears (clears_invalidateRef caps' c ref)
    exact cleared.genPos (installs.genPos before)

theorem HandlesSound.derived_error (sound : HandlesSound layout st)
    {label : Option (Fin gjSpawnMax × Nat)} {code : GjStatus}
    (clears : Clears (fun _ _ => False) st.caps caps) :
    HandlesSound layout (st.derived c label (.error code, caps)) :=
  sound.noNewTask (.of_clears clears) rfl (fun _ _ _ _ => rfl) fun _ => .inl rfl

theorem HandlesSound.derived_ok (sound : HandlesSound layout st)
    {label : Option (Fin gjSpawnMax × Nat)} {capType : CapType} {rights : U16} {o : O}
    (installs : Installs st.caps c capType rights o ref caps) (other : ∀ e, layout.hdr e ≠ o) :
    HandlesSound layout (st.derived c label (.ok ref, caps)) := by
  refine sound.noNewTask (.of_installs installs other) rfl ?_ fun _ => .inl rfl
  intro c' i e names
  have written : (st.derived c label (.ok ref, caps)).issued c' i =
      if c' = c ∧ i = ref.slot then label else st.issued c' i :=
    update_update_apply st.issued c c' ref.slot i label
  rw [written]
  by_cases here : c' = c ∧ i = ref.slot
  · have names : (caps.slot c' i).Names (layout.hdr e) := names
    rw [installs.slot, if_pos here] at names
    exact absurd (Option.some.inj names.2).symm (other e)
  · exact if_neg here

section

variable [DecidableEq X]

/-- A reaped child had one handle, and that one is cleared. -/
theorem reap_sound (sound : HandlesSound layout st)
    (names : (st.caps.slot c ref.slot).Names (layout.hdr e)) :
    HandlesSound layout (reap st c ref e) := by
  have forgets := processWaitForget_waitOnly st (.spawned e) e
  have clears : Clears (fun _ slot => slot.capType ≠ .invalid) st.caps
      (invalidateSlot st.caps c ref.slot) :=
    clears_invalidateSlot names.1 rfl (fun _ => rfl) (fun _ => rfl) rfl rfl
  have unnamed : Unnamed layout (invalidateSlot st.caps c ref.slot) e := by
    intro c' i named
    have same := clears.names named
    have before := named
    rw [same] at before
    obtain ⟨rfl, rfl⟩ := sound.unique c' i c ref.slot e before names
    rw [invalidateSlot_slot_self] at named
    exact named.1 rfl
  unfold reap
  simp only
  have dropped : HandlesSound layout ({ processWaitForget st (.spawned e) with
      caps := invalidateSlot (processWaitForget st (.spawned e)).caps c ref.slot }) := by
    rw [forgets.caps]
    refine sound.noNewTask (.of_clears clears) forgets.tenant (fun _ _ _ _ => ?_)
      fun e' => .inl (forgets.used_eq e')
    exact congrFun (congrFun forgets.issued _) _
  split_ifs
  · refine dropped.noNewTask (.of_slot_eq rfl) rfl (fun _ _ _ _ => rfl) ?_
    intro e'
    by_cases same : e' = e
    · subst same
      right
      rw [← forgets.caps] at unnamed
      exact unnamed
    · exact .inl (congrArg SpawnEntry.used (ProcState.setEntry_of_ne _ same _))
  · exact dropped

end

variable [DecidableEq O]

/-- Taking a free entry wipes its CNode and starts a new child that no slot names. -/
theorem spawnInit_sound (sound : HandlesSound layout st) (free : (st.entry e).used = false) :
    HandlesSound layout (spawnInit layout st e) ∧
      Unnamed layout (spawnInit layout st e).caps e := by
  have written : ∀ c i, (spawnInit layout st e).caps.slot c i =
      if c = layout.cnode e then .fresh else st.caps.slot c i := gjCnodeInit_slot _ _ _
  have keeps : NoNewTask layout st.caps (spawnInit layout st e).caps := by
    constructor
    · intro c i e' names
      rw [written] at names ⊢
      by_cases own : c = layout.cnode e
      · rw [if_pos own] at names
        exact absurd names (CapSlot.not_names_fresh _)
      · exact if_neg own
    · intro before c i
      rw [written]
      split_ifs
      · exact (by decide : (1 : U32) ≠ 0)
      · exact before c i
  have unnamed := keeps.unnamed (sound.unnamed free)
  refine ⟨sound.narrow ?_ (keeps.genPos sound.genPos), unnamed⟩
  intro c i e' names
  have different : e' ≠ e := by
    rintro rfl
    exact unnamed c i names
  exact ⟨keeps.kept c i e' names, rfl, Function.update_of_ne different ..,
    congrArg SpawnEntry.used (st.setEntry_of_ne different _)⟩

variable [DecidableEq X]

theorem processWait_sound (sound : HandlesSound layout st) (parent : GjProcess X)
    (ref : CapRef) : HandlesSound layout (processWait layout st parent ref).2.2 := by
  unfold processWait
  rcases task : taskOf layout st parent ref wait with status | ⟨c, e⟩
  · exact sound
  · simp only
    split_ifs
    · exact sound
    · obtain ⟨-, res, resolved, obj, -, -⟩ := taskOf_names task
      have names := (gjCapResolve_eq_ok resolved).2.2.2.1
      rw [obj] at names
      exact reap_sound sound names

end

/-! ### Spawn -/

variable [DecidableEq C] [DecidableEq O] [DecidableEq Q]

/-- The check after the mint passes, so a mint fails only where its install fails. -/
theorem spawnProcessCapMint_cases (genPos : ∀ c i, (caps.slot c i).gen ≠ 0)
    (c : C) (child : O) (jit : Bool) :
    (∃ code caps', spawnProcessCapMint caps c child jit = (.error code, caps') ∧
      ∀ may, Clears may caps caps') ∨
    ∃ ref caps', spawnProcessCapMint caps c child jit = (.ok ref, caps') ∧ ref.gen ≠ 0 ∧
      caps'.cdt = caps.cdt ∧ Installs caps c .process (spawnProcessRights jit) child ref caps' := by
  unfold spawnProcessCapMint
  rcases installs_gjCapAllocInstall caps c .process (spawnProcessRights jit) child with
    ⟨code, caps', result, clears⟩ | ⟨ref, caps', result, cdt, installs⟩
  · rw [result]
    exact .inl ⟨code, caps', rfl, clears⟩
  · have nonNull : ref.gen ≠ 0 := by
      rw [installs.gen]
      exact genPos c ref.slot
    have slotGen : (caps'.slot c ref.slot).gen = ref.gen := by
      rw [installs.slot, if_pos ⟨rfl, rfl⟩]
    have verified : spawnProcessCapMintSoftVerify caps' c ref child (spawnProcessRights jit) =
        .ok := by
      unfold spawnProcessCapMintSoftVerify
      rw [installs.resolves nonNull]
      simp [slotGen, (spawnProcessRights_spec jit).1]
    rw [result]
    simp only [verified]
    exact .inr ⟨ref, caps', rfl, nonNull, cdt, installs⟩

theorem gjProcessBootstrapRootMeta_noNewTask (caps : CapState C O Q) (e : Fin gjSpawnMax) :
    NoNewTask layout caps (gjProcessBootstrapRootMeta layout caps e).2 := by
  have readied : NoNewTask layout caps (initObj caps (layout.rootMeta e)) := .of_slot_eq rfl
  unfold gjProcessBootstrapRootMeta
  rcases installs_gjCapSlotInstall (initObj caps (layout.rootMeta e)) (layout.cnode e)
    slotRootMeta .rootMeta (read ||| identify) (layout.rootMeta e) with
    ⟨code, caps', result, clears⟩ | ⟨ref, caps', result, -, installs⟩
  · rw [result]
    exact readied.trans (.of_clears (clears fun _ _ => False))
  · rw [result]
    exact readied.trans (.of_installs installs fun e' => layout.hdr_ne_rootMeta e' e)

theorem deathRevoke_noNewTask (caps : CapState C O Q) (e : Fin gjSpawnMax) :
    NoNewTask layout caps (deathRevoke layout caps e) := by
  have wiped : NoNewTask layout caps (processDeathCnodeWipe caps (layout.cnode e)) :=
    .of_clears (clears_processDeathCnodeWipe caps _)
  have revoked := wiped.trans (.of_slot_eq (kills_gjObjRevokeBegin _ (layout.hdr e)).slot)
  have walked := revoked.trans (.of_clears (clears_gjRevokeCdtWalkBatch _ (layout.hdr e) 16))
  exact walked.trans (.of_clears (clears_gjRevokeProcessDeferred _ 16))

variable [DecidableEq X]

/-- The ends of a spawn from the wiped entry on, by the capability state that it leaves. -/
inductive SpawnEnd (layout : SpawnLayout C O X) (st : ProcState C O Q X) (c : C) (args : SpawnArgs)
    (e : Fin gjSpawnMax) (booted : CapState C O Q) :
    Except GjStatus (Fin gjSpawnMax × CapRef) × ProcState C O Q X → Prop
  | bare (status : GjStatus) :
      SpawnEnd layout st c args e booted (.error status, spawnGiveUp st e booted)
  | unminted (status : GjStatus) (failed : CapState C O Q)
      (clears : ∀ may, Clears may booted failed) :
      SpawnEnd layout st c args e booted (.error status, spawnGiveUp st e failed)
  | threadless (ref : CapRef) (minted : CapState C O Q) (nonNull : ref.gen ≠ 0)
      (cdt : minted.cdt = booted.cdt) (installs :
        Installs booted c .process (spawnProcessRights args.jit) (layout.hdr e) ref minted) :
      SpawnEnd layout st c args e booted
        (.error .errNomem, spawnGiveUp st e (invalidateRef minted c ref))
  | started (ref : CapRef) (minted : CapState C O Q) (ppid : U32) (nonNull : ref.gen ≠ 0)
      (cdt : minted.cdt = booted.cdt) (installs :
        Installs booted c .process (spawnProcessRights args.jit) (layout.hdr e) ref minted) :
      SpawnEnd layout st c args e booted (.ok (e, ref), processWaitRegister
        (({ st with caps := minted }).issue c ref.slot (some (e, st.tenant e))) e ppid)

theorem spawnInto_end (genPos : ∀ c i, (st.caps.slot c i).gen ≠ 0) (parent : GjProcess X) (c : C)
    (args : SpawnArgs) : SpawnEnd layout st c args e (gjProcessBootstrapRootMeta layout st.caps e).2
      (spawnInto layout st parent c args e) := by
  have boots : NoNewTask layout st.caps (gjProcessBootstrapRootMeta layout st.caps e).2 :=
    gjProcessBootstrapRootMeta_noNewTask st.caps e
  unfold spawnInto
  rcases boot : gjProcessBootstrapRootMeta layout st.caps e with ⟨status | ref, booted⟩ <;>
    rw [boot] at boots
  · exact .bare status
  · simp only
    split
    · exact .bare _
    · rcases spawnProcessCapMint_cases (boots.genPos genPos) c (layout.hdr e) args.jit with
        ⟨code, failed, result, clears⟩ | ⟨ref, minted, result, nonNull, cdt, installs⟩ <;>
        rw [result]
      · exact .unminted code failed clears
      · split_ifs
        all_goals first
          | exact .threadless ref minted nonNull cdt installs
          | exact .started ref minted _ nonNull cdt installs

/-- A spawn from the wiped entry on keeps the handles sound. -/
theorem spawnInto_sound (sound : HandlesSound layout st)
    (unnamed : Unnamed layout st.caps e) (used : (st.entry e).used = true)
    (parent : GjProcess X) (c : C) (args : SpawnArgs) :
    HandlesSound layout (spawnInto layout st parent c args e).2 := by
  have boots : NoNewTask layout st.caps (gjProcessBootstrapRootMeta layout st.caps e).2 :=
    gjProcessBootstrapRootMeta_noNewTask st.caps e
  have free := boots.unnamed unnamed
  have ends : SpawnEnd layout st c args e _ (spawnInto layout st parent c args e) :=
    spawnInto_end sound.genPos parent c args
  generalize spawnInto layout st parent c args e = result at ends ⊢
  cases ends with
  | bare => exact spawnGiveUp_sound sound boots free
  | unminted status failed clears =>
    have fails := boots.trans (.of_clears (clears fun _ _ => False))
    exact spawnGiveUp_sound sound fails (fails.unnamed unnamed)
  | threadless ref minted nonNull cdt installs =>
    exact spawnGiveUp_sound sound (boots.trans (noNewTask_invalidateRef free nonNull installs))
      (unnamed_invalidateRef free nonNull installs)
  | started ref minted ppid nonNull cdt installs =>
    exact (processWaitRegister_waitOnly _ e _).sound (sound.issue_task boots free used installs)

/-- A spawn is refused, or takes a free entry. -/
theorem processSpawn_cases (layout : SpawnLayout C O X) (st : ProcState C O Q X)
    (parent : GjProcess X) (args : SpawnArgs) :
    (∃ status, processSpawn layout st parent args = (.error status, st)) ∨
      ∃ c e, st.pCnode layout parent = some c ∧ (st.entry e).used = false ∧
        processSpawn layout st parent args =
          spawnInto layout (spawnInit layout st e) parent c args e := by
  unfold processSpawn
  split_ifs
  · exact .inl ⟨_, rfl⟩
  · cases st.pCnode layout parent with
    | none => exact .inl ⟨_, rfl⟩
    | some c =>
      cases chosen : (List.finRange gjSpawnMax).find? fun e => !(st.entry e).used with
      | none => exact .inl ⟨_, rfl⟩
      | some e => exact .inr ⟨c, e, rfl, by simpa using List.find?_some chosen, rfl⟩

theorem processSpawn_sound (sound : HandlesSound layout st) (parent : GjProcess X)
    (args : SpawnArgs) : HandlesSound layout (processSpawn layout st parent args).2 := by
  rcases processSpawn_cases layout st parent args with
    ⟨status, result⟩ | ⟨c, e, -, free, result⟩ <;> rw [result]
  · exact sound
  · obtain ⟨ready, unnamed⟩ := spawnInit_sound sound free
    exact spawnInto_sound ready unnamed
      (congrArg SpawnEntry.used (st.setEntry_self e _)) parent c args

/-! ### Kill -/

section

variable (sound : HandlesSound layout st)
include sound

theorem processDeath_sound (e : Fin gjSpawnMax) (code : U32) :
    HandlesSound layout (processDeath layout st e code) := by
  have dying : WaitOnly st
      (st.setEntry e { st.entry e with exitCode := code, alive := false }) e := .setEntry rfl rfl
  apply (processWaitNoteExit_waitOnly _ e code).sound
  have orphaned : HandlesSound layout (if processWaitPidOf st (.spawned e) ≠ 0 then
      processWaitReparent (st.setEntry e { st.entry e with exitCode := code, alive := false })
        (processWaitPidOf st (.spawned e)) 1
      else st.setEntry e { st.entry e with exitCode := code, alive := false }) := by
    split_ifs
    · exact (processWaitReparent_waitOnly _ _ 1 e).sound (dying.sound sound)
    · exact dying.sound sound
  revert orphaned
  generalize (if processWaitPidOf st (.spawned e) ≠ 0 then _ else _ : ProcState C O Q X) = now
  intro orphaned
  split_ifs
  · exact orphaned.noNewTask (deathRevoke_noNewTask now.caps e) rfl (fun _ _ _ _ => rfl)
      fun _ => .inl rfl
  · exact orphaned

theorem processKill_sound (parent : GjProcess X) (ref : CapRef)
    (code : U32) : HandlesSound layout (processKill layout st parent ref code).2 := by
  unfold processKill
  rcases taskOf layout st parent ref destroy with status | ⟨c, e⟩
  · exact sound
  · simp only
    split_ifs
    · exact sound
    · exact processDeath_sound sound e code

/-! ### Runs -/

theorem ProcOp.exec_sound (op : ProcOp C X) : HandlesSound layout (op.exec layout st) := by
  cases op with
  | spawn parent args => exact processSpawn_sound sound parent args
  | kill parent ref code => exact processKill_sound sound parent ref code
  | wait parent ref => exact processWait_sound sound parent ref
  | copy c slot gen rights =>
    show HandlesSound layout (st.derived c _ (gjCapCopy st.caps c slot gen rights))
    rcases gjCapCopy_installs st.caps c slot gen rights with
      ⟨code, caps, result, clears⟩ | ⟨ref, caps, res, _, result, resolved, grant, installs⟩
    · rw [result]
      exact sound.derived_error (clears _)
    · rw [result]
      exact sound.derived_ok installs (sound.not_task resolved (.inl grant))
  | mint src slot gen rights dst =>
    show HandlesSound layout
      (st.derived (dst.getD src) _ (gjCapMint st.caps src slot gen rights dst))
    rcases gjCapMint_installs st.caps src slot gen rights dst with
      ⟨code, caps, result, clears⟩ | ⟨ref, caps, res, _, result, resolved, mint, installs⟩
    · rw [result]
      exact sound.derived_error (clears _)
    · rw [result]
      exact sound.derived_ok installs (sound.not_task resolved (.inr mint))
  | delete c slot gen =>
    exact sound.noNewTask (.of_clears (clears_gjCapDelete st.caps c slot gen)) rfl
      (fun _ _ _ _ => rfl) fun _ => .inl rfl

end

theorem ProcRuns.sound {admits : ProcState C O Q X → ProcOp C X → Prop}
    (runs : ProcRuns layout admits st st') (sound : HandlesSound layout st) :
    HandlesSound layout st' := by
  induction runs with
  | refl => exact sound
  | tail _ step ih =>
    obtain ⟨op, -, rfl⟩ := step
    exact op.exec_sound ih

/-- After any run, a capability that resolves to a child of the spawn table was installed or
derived for that very child, not for an earlier one of the same entry. -/
theorem taskHandle_keeps_child (boot : SpawnBoot layout st)
    (runs : ProcRuns layout (fun _ _ => True) st st') (c : C) (i : Nat) (gen : U32)
    (res : CapResolved O) (e : Fin gjSpawnMax)
    (resolved : gjCapResolve st'.caps c i gen = .ok res) (child : res.obj = layout.hdr e) :
    st'.issued c i = some (e, st'.tenant e) := by
  have names := (gjCapResolve_eq_ok resolved).2.2.2.1
  rw [child] at names
  exact ((runs.sound boot.sound).task c i e names).label

/-- The handle of a child cannot be multiplied: after any run, copies and mints included, at most
one slot of all CNodes names its header. -/
theorem taskHandle_unique (boot : SpawnBoot layout st)
    (runs : ProcRuns layout (fun _ _ => True) st st') (e : Fin gjSpawnMax) :
    {place : C × Nat | (st'.caps.slot place.1 place.2).Names (layout.hdr e)}.Subsingleton := by
  intro place names place' names'
  obtain ⟨cnode, slot⟩ := (runs.sound boot.sound).unique _ _ _ _ e names names'
  exact Prod.ext cnode slot

end

/-! ### An entry that is used again -/

/-- A layout over numbered objects and CNodes, with one process outside of the table. -/
def sampleLayout : SpawnLayout Nat Nat Unit where
  hdr e := 10 + e
  rootMeta e := 20 + e
  cnode e := 30 + e
  otherCnode _ := some 0
  hdr_injective e e' same := by
    apply Fin.ext
    have same : 10 + e.val = 10 + e'.val := same
    omega
  cnode_injective e e' same := by
    apply Fin.ext
    have same : 30 + e.val = 30 + e'.val := same
    omega
  hdr_ne_rootMeta e e' := by
    have bound : e.val < 8 := e.isLt
    omega
  otherCnode_ne _ e same := by
    have same : 0 = 30 + e.val := Option.some.inj same
    omega

/-- Freshly initialised CNodes of eight slots and an unused spawn table. The wait table has no
entry left, or is empty. -/
def sampleProcs (waitFull : Bool) : ProcState Nat Nat Nat Unit where
  caps := .boot (fun _ => 8) fun _ => 8
  entry _ := { used := false, hasCnode := false, alive := false, exitCode := 0 }
  wait _ := { WaitSlot.clear with used := waitFull }
  nextPid := gjWaitPidBase
  tenant _ := 0
  issued _ _ := none

theorem sampleProcs_boot (waitFull : Bool) : SpawnBoot sampleLayout (sampleProcs waitFull) :=
  ⟨fun _ _ _ names => names.1 rfl, fun _ _ => (by decide : (1 : U32) ≠ 0)⟩

def sampleArgs : SpawnArgs :=
  { pfnEntry := true, jit := false, processAsEnsure := .ok, threadCreate := 1 }

def sampleParent : GjProcess Unit := .other ()

/-- A child is spawned, killed and reaped, and the next one gets its entry. -/
def sampleReuse : List (ProcOp Nat Unit) :=
  [.spawn sampleParent sampleArgs, .kill sampleParent ⟨1, 1⟩ 7, .wait sampleParent ⟨1, 1⟩,
    .spawn sampleParent sampleArgs]

def ProcState.after (st : ProcState Nat Nat Nat Unit) (ops : List (ProcOp Nat Unit)) :
    ProcState Nat Nat Nat Unit :=
  ops.foldl (fun st op => op.exec sampleLayout st) st

theorem ProcState.after_runs (st : ProcState Nat Nat Nat Unit) (ops : List (ProcOp Nat Unit)) :
    ProcRuns sampleLayout (fun _ _ => True) st (st.after ops) := by
  induction ops generalizing st with
  | nil => exact .refl
  | cons op rest ih =>
    exact Relation.ReflTransGen.head ⟨op, trivial, rfl⟩ (ih (op.exec _ st))

theorem taskHandle_keeps_child_reused : let st := (sampleProcs true).after sampleReuse
    st.tenant 0 = 2 ∧ gjCapResolve st.caps 0 1 1 = .error .errStaleCap ∧
      gjCapResolve st.caps 0 1 2 =
        .ok { obj := 10, capType := .process, rights := gjSpawnProcessRightsBase } ∧
      st.issued 0 1 = some (0, st.tenant 0) := by
  intro st
  have resolved : gjCapResolve st.caps 0 1 2 =
      .ok { obj := 10, capType := .process, rights := gjSpawnProcessRightsBase } := by
    rfl
  refine ⟨by rfl, by rfl, resolved, ?_⟩
  exact taskHandle_keeps_child (sampleProcs_boot true) (ProcState.after_runs _ sampleReuse) 0 1 2
    _ 0 resolved rfl

theorem taskHandle_unique_reused :
    {place : Nat × Nat | (((sampleProcs true).after sampleReuse).caps.slot
      place.1 place.2).Names 10}.Subsingleton :=
  taskHandle_unique (sampleProcs_boot true) (ProcState.after_runs _ sampleReuse) 0

end GreenJade.Proc

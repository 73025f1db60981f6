import GreenJade.Cap.Decompose

/-! Owns the separation of client memory and the stack memory of the self-tests: which
pointers a piece of code uses in which role, and that calls, and the scripts of the
self-tests, stay within their role. It does not own when the self-tests run. -/

namespace GreenJade.Cap

open List

universe u v w

variable {C : Type u} {O : Type v} {Q : Type w}

/-! ### Scopes -/

/-- Which pointers a piece of code may use in which role. -/
structure Scope (C : Type u) (O : Type v) (Q : Type w) where
  install : C → O → Prop
  clear : C → Prop
  kill : O → Prop
  attach : C → Option Q → Prop
  setParent : Option Q → Option Q → Prop
  resetCnode : C → Prop
  resetObj : O → Prop
  resetField : O → Prop
  seedQuota : Q → Prop
  pokeDead : O → Prop

/-- The event uses its pointers in a role the scope admits. -/
def Scope.Admits (scope : Scope C O Q) : Event C O Q → Prop
  | .install c _ _ _ o => scope.install c o
  | .clear c _ => scope.clear c
  | .kill o _ => scope.kill o
  | .attach c account => scope.attach c account
  | .setParent account parent => scope.setParent account parent
  | .resetCnode c => scope.resetCnode c
  | .resetObj o => scope.resetObj o
  | .resetField o => scope.resetField o
  | .seedQuota account => scope.seedQuota account
  | .pokeDead o => scope.pokeDead o
  | .quiet => True

/-- Every event the call can emit in the state is admitted. A derived slot names the object
that the source slot names. -/
def CapOp.Respects (scope : Scope C O Q) (s : CapState C O Q) : CapOp C O Q → Prop
  | .resolve _ _ _ => True
  | .slotInstall c _ _ _ o => scope.install c o
  | .allocInstall c _ _ o => scope.install c o
  | .mint src slot _ _ dst => ∀ o, (s.slot src slot).Names o → scope.install (dst.getD src) o
  | .copy c slot _ _ => ∀ o, (s.slot c slot).Names o → scope.install c o
  | .move c slot _ => scope.clear c ∧ ∀ o, (s.slot c slot).Names o → scope.install c o
  | .delete c _ _ => scope.clear c
  | .invalidateObjSlots c _ _ => scope.clear c
  | .deathWipe c => scope.clear c
  | .trylock _ => True
  | .unlock _ => True
  | .quotaAttach c account => scope.attach c account
  | .quotaSetParent account parent => scope.setParent account parent
  | .revokeBegin o => scope.kill o
  | .walkBatch _ _ => ∀ c, scope.clear c
  | .processDeferred _ => ∀ c, scope.clear c
  | .reclaim _ => True

variable {frame : LeanFrame C O Q} {s s' : CapState C O Q} {event : Event C O Q}
variable {op : CapOp C O Q} {scope : Scope C O Q}

theorem gjCapResolve_names {c : C} {slot : Nat} {gen : U32} {res : CapResolved O}
    (resolved : gjCapResolve s c slot gen = .ok res) : (s.slot c slot).Names res.obj :=
  (gjCapResolve_eq_ok resolved).2.2.2.1

/-! ### Client memory and stack memory -/

namespace LeanFrame

variable (frame : LeanFrame C O Q)

/-- A client's own calls: pointers that are not stack memory of a self-test. -/
def clientScope : Scope C O Q :=
  { install := fun c o => c ∉ frame.cnodes ∧ o ∉ frame.objects
    clear := fun _ => True
    kill := fun o => o ∉ frame.objects
    attach := fun c account => c ∉ frame.cnodes ∧ account ≠ some frame.qLean
    setParent := fun account parent => account ≠ some frame.qLean ∧ parent ≠ some frame.qLean
    resetCnode := fun _ => False
    resetObj := fun _ => False
    resetField := fun _ => False
    seedQuota := fun _ => False
    pokeDead := fun _ => False }

/-- `cdt_soft_residual_lean_once`: its own CNodes, objects and account. -/
def cdtScope : Scope C O Q :=
  { install := fun c o => c ∈ frame.cnodes ∧ o ∈ frame.testObjects
    clear := fun c => c ∈ frame.cnodes
    kill := fun _ => False
    attach := fun c account => c ∈ frame.cnodes ∧ (account = none ∨ account = some frame.qLean)
    setParent := fun _ _ => False
    resetCnode := fun c => c ∈ frame.cnodes
    resetObj := fun o => o ∈ frame.testObjects
    resetField := fun _ => False
    seedQuota := fun account => account = frame.qLean
    pokeDead := fun o => o ∈ frame.testObjects }

/-- `soft_revoke_residual_lean_once`: its headers, and every slot its drain clears. -/
def revokeScope : Scope C O Q :=
  { install := fun _ _ => False
    clear := fun _ => True
    kill := fun o => o ∈ Set.range frame.aHdr
    attach := fun _ _ => False
    setParent := fun _ _ => False
    resetCnode := fun _ => False
    resetObj := fun o => o ∈ Set.range frame.aHdr
    resetField := fun o => o ∈ Set.range frame.aHdr
    seedQuota := fun _ => False
    pokeDead := fun _ => False }

/-- The initialisation of the first self-test installs nothing. -/
def initScope : Scope C O Q := { frame.cdtScope with install := fun _ _ => False }

end LeanFrame

/-- Slots of client CNodes name no stack object, slots on the stack name only the objects
of their self-test. -/
structure Separated (frame : LeanFrame C O Q) (s : CapState C O Q) : Prop where
  outside : ∀ c i o, c ∉ frame.cnodes → (s.slot c i).Names o → o ∉ frame.objects
  inside : ∀ c i o, c ∈ frame.cnodes → (s.slot c i).Names o → o ∈ frame.testObjects

variable (frame)

def StackEmpty (s : CapState C O Q) : Prop :=
  ∀ c ∈ frame.cnodes, ∀ i, (s.slot c i).capType = .invalid

/-- An install into a client CNode is of a client object, one into a stack CNode of an
object of the self-test. -/
def KeepsApart (allowed : Event C O Q → Prop) : Prop :=
  ∀ c i capType rights o, allowed (.install c i capType rights o) →
    (c ∉ frame.cnodes → o ∉ frame.objects) ∧ (c ∈ frame.cnodes → o ∈ frame.testObjects)

theorem LeanFrame.clientScope_keepsApart : KeepsApart frame frame.clientScope.Admits :=
  fun _ _ _ _ _ client => ⟨fun _ => client.2, fun stack => absurd stack client.1⟩

theorem LeanFrame.cdtScope_keepsApart : KeepsApart frame frame.cdtScope.Admits :=
  fun _ _ _ _ _ inside => ⟨fun client => absurd inside.1 client, fun _ => inside.2⟩

theorem LeanFrame.revokeScope_keepsApart : KeepsApart frame frame.revokeScope.Admits :=
  fun _ _ _ _ _ none => none.elim

theorem LeanFrame.initScope_keepsApart : KeepsApart frame frame.initScope.Admits :=
  fun _ _ _ _ _ none => none.elim

variable {frame}

theorem Separated.boot (frame : LeanFrame C O Q) (cSlots : C → Nat) (limit : Q → U32) :
    Separated frame (.boot cSlots limit) :=
  ⟨fun _ _ _ _ names => absurd rfl names.1, fun _ _ _ _ names => absurd rfl names.1⟩

theorem LeanFrame.header_not_testObject (frame : LeanFrame C O Q) {o : O}
    (header : o ∈ Set.range frame.aHdr) : o ∉ frame.testObjects := by
  obtain ⟨j, rfl⟩ := header
  rintro (⟨i, same⟩ | same | same)
  · exact frame.apart_obj i j same
  · exact frame.apart_noMint j same.symm
  · exact frame.apart_quota j same.symm

/-- No slot ever names a header of the revoke self-test. -/
theorem Separated.header_unnamed (separated : Separated frame s) {o : O}
    (header : o ∈ Set.range frame.aHdr) (c : C) (i : Nat) : ¬ (s.slot c i).Names o := by
  intro names
  by_cases stack : c ∈ frame.cnodes
  · exact frame.header_not_testObject header (separated.inside c i o stack names)
  · exact separated.outside c i o stack names (.inr header)

theorem StackEmpty.unnamed (empty : StackEmpty frame s) (separated : Separated frame s) {o : O}
    (stack : o ∈ frame.objects) (c : C) (i : Nat) : ¬ (s.slot c i).Names o := by
  intro names
  by_cases inside : c ∈ frame.cnodes
  · exact names.1 (empty c inside i)
  · exact separated.outside c i o inside names stack

/-! ### Lines of a self-test -/

/-- The step stays within the scope, and memory it initialises is not in use. -/
def LeanCall.Respects (scope : Scope C O Q) (s : CapState C O Q) : LeanCall C O Q → Prop
  | .api op => op.Respects scope s
  | .cnodeInit c _ => scope.resetCnode c ∧ ∀ i, (s.slot c i).capType = .invalid
  | .objHdrInit o => scope.resetObj o ∧ ∀ c i, ¬ (s.slot c i).Names o
  | .quotaSeed account _ => scope.seedQuota account
  | .pokeDead o => scope.pokeDead o
  | .reclaimGate o _ => scope.resetField o ∧ ∀ c i, ¬ (s.slot c i).Names o

theorem cdtLeanInit_respects (frame : LeanFrame C O Q) :
    ∀ line ∈ cdtLeanInit frame, ∀ vars s, Separated frame s ∧ StackEmpty frame s →
      (line.call vars).Respects frame.initScope s := by
  have cnode : ∀ c ∈ frame.cnodes, ∀ cSlots s, Separated frame s ∧ StackEmpty frame s →
      (LeanCall.cnodeInit c cSlots).Respects frame.initScope s :=
    fun c stack cSlots s ready => ⟨stack, ready.2 c stack⟩
  have object : ∀ o ∈ frame.testObjects, ∀ s, Separated frame s ∧ StackEmpty frame s →
      (LeanCall.objHdrInit o).Respects frame.initScope s :=
    fun o stack s ready => ⟨stack, ready.2.unnamed ready.1 (.inl stack)⟩
  simp only [cdtLeanInit, forall_mem_cons]
  exact ⟨fun _ => cnode _ (.inl rfl) _, fun _ => cnode _ (.inr rfl) _,
    fun _ => object _ (.inl ⟨0, rfl⟩), fun _ => object _ (.inl ⟨1, rfl⟩),
    fun _ => object _ (.inl ⟨2, rfl⟩), fun _ => object _ (.inr (.inl rfl)),
    fun _ => object _ (.inr (.inr rfl)), nofun⟩

theorem cdtLeanChecks_respects (frame : LeanFrame C O Q) :
    ∀ line ∈ cdtLeanChecks frame, ∀ vars s, Separated frame s →
      (line.call vars).Respects frame.cdtScope s := by
  have src : frame.cnSrc ∈ frame.cnodes := .inl rfl
  have dst : frame.cnDst ∈ frame.cnodes := .inr rfl
  have obj : ∀ i, frame.aObj i ∈ frame.testObjects := fun i => .inl ⟨i, rfl⟩
  have noMint : frame.objNoMint ∈ frame.testObjects := .inr (.inl rfl)
  have quota : frame.objQuota ∈ frame.testObjects := .inr (.inr rfl)
  -- a derived slot names what a slot of the stack CNode names
  have derived : ∀ var vars s, Separated frame s → ∀ o,
      (s.slot frame.cnSrc (LeanVars.handle vars var).slot).Names o → o ∈ frame.testObjects :=
    fun var vars s separated o => separated.inside _ _ _ src
  simp only [cdtLeanChecks, forall_mem_append]
  simpa +contextual [LeanLine.always, LeanCall.Respects, CapOp.Respects, LeanFrame.cdtScope, src,
    dst, obj, noMint, quota] using ⟨fun i => derived (.aRef i), derived (.aRef 0),
      derived .refNoMint, derived (.aRef 0), derived .refCopy⟩

theorem revokeLeanScript_respects (frame : LeanFrame C O Q) :
    ∀ line ∈ revokeLeanScript frame, ∀ vars s, Separated frame s →
      (line.call vars).Respects frame.revokeScope s := by
  have header : ∀ i s, Separated frame s → ∀ c slot, ¬ (s.slot c slot).Names (frame.aHdr i) :=
    fun i s separated => separated.header_unnamed ⟨i, rfl⟩
  simp only [revokeLeanScript, forall_mem_append, forall_mem_map, forall_mem_flatMap]
  simp +contextual [LeanLine.always, LeanCall.Respects, CapOp.Respects, LeanFrame.revokeScope,
    header]

/-! ### Effects of a self-test -/

section

variable [DecidableEq O]

/-- A call emits only what the scope admits. -/
theorem CapOp.admits_of_emits (respects : op.Respects scope s) (emits : op.Emits s event) :
    scope.Admits event := by
  cases event with
  | quiet => trivial
  | install c i capType rights o =>
    cases op with
    | slotInstall =>
      cases emits
      exact respects
    | allocInstall =>
      obtain ⟨j, same⟩ := emits
      cases same
      exact respects
    | mint | copy =>
      obtain ⟨res, j, resolved, same⟩ := emits
      cases same
      exact respects _ (gjCapResolve_names resolved)
    | move =>
      obtain ⟨⟨⟩⟩ | ⟨res, j, resolved, same⟩ := emits
      cases same
      exact respects.2 _ (gjCapResolve_names resolved)
    | _ => simp [CapOp.Emits] at emits
  | clear c i =>
    cases op with
    | move =>
      obtain same | ⟨res, j, -, ⟨⟩⟩ := emits
      cases same
      exact respects.1
    | delete =>
      cases emits
      exact respects
    | invalidateObjSlots | deathWipe =>
      obtain ⟨j, same⟩ := emits
      cases same
      exact respects
    | walkBatch | processDeferred => exact respects c
    | _ => simp [CapOp.Emits] at emits
  | kill o queued =>
    cases op with
    | revokeBegin =>
      cases emits
      exact respects
    | _ => simp [CapOp.Emits] at emits
  | attach c account =>
    cases op with
    | quotaAttach =>
      cases emits
      exact respects
    | _ => simp [CapOp.Emits] at emits
  | setParent account parent =>
    cases op with
    | quotaSetParent =>
      cases emits
      exact respects
    | _ => simp [CapOp.Emits] at emits
  | _ => cases op <;> simp [CapOp.Emits] at emits

/-- With the poked field at 1 the object is not ready, so reclaim changes nothing and only
the reset of the field remains. -/
theorem checkReclaimGate_eq (s : CapState C O Q) (o : O) (field : GateField) :
    checkReclaimGate s o field = s.setObj o (field.set 0 (s.obj o)) := by
  have blocked : gjObjReclaimReady (s.setObj o (field.set 1 (s.obj o))) o = false := by
    cases field <;> simp [gjObjReclaimReady, CapState.setObj, GateField.set]
  have busy : gjObjReclaim (s.setObj o (field.set 1 (s.obj o))) o =
      (.errBusy, s.setObj o (field.set 1 (s.obj o))) := by
    rw [gjObjReclaim, blocked]
    rfl
  rw [checkReclaimGate, busy]
  cases field <;> simp [CapState.setObj, GateField.set]

end

variable [DecidableEq C] [DecidableEq O] [DecidableEq Q]

theorem LeanCall.exec_leads (wellFormed : WellFormed s) {call : LeanCall C O Q}
    (respects : call.Respects scope s) : Leads scope.Admits s (call.exec s).2 := by
  cases call with
  | api op => exact (op.exec_leads wellFormed).mono fun _ => CapOp.admits_of_emits respects
  | cnodeInit c cSlots => exact .single (.resetCnode respects.2) respects.1
  | objHdrInit o => exact .single (.resetObj respects.2) respects.1
  | quotaSeed account c => exact .single .seedQuota respects
  | pokeDead o => exact .single .pokeDead respects
  | reclaimGate o field =>
    dsimp only [LeanCall.exec]
    rw [checkReclaimGate_eq]
    exact .single (.resetField respects.2) respects.1

theorem runScript_append (first second : List (LeanLine C O Q)) (now : LeanVars × CapState C O Q) :
    runScript (first ++ second) now = runScript second (runScript first now) :=
  foldl_append

/-- The rule for scripts: when an invariant that the scope keeps makes every line respect the
scope, the whole script leads to its end within the scope. -/
theorem runScript_leads (invariant : CapState C O Q → Prop) {script : List (LeanLine C O Q)}
    (wellFormed : ∀ {s}, invariant s → WellFormed s)
    (keeps : ∀ {s s'}, Leads scope.Admits s s' → invariant s → invariant s')
    (respects : ∀ line ∈ script, ∀ vars s, invariant s → (line.call vars).Respects scope s) :
    ∀ (vars : LeanVars) (s : CapState C O Q), invariant s →
      Leads scope.Admits s (runScript script (vars, s)).2 := by
  induction script with
  | nil => exact fun vars s _ => .refl
  | cons line rest ih =>
    intro vars s holds
    have first : Leads scope.Admits s (line.run vars s).2 := by
      dsimp only [LeanLine.run]
      split_ifs
      · exact LeanCall.exec_leads (wellFormed holds) (respects line mem_cons_self vars s holds)
      · exact .refl
    exact first.trans (ih (fun line member => respects line (mem_cons_of_mem _ member)) _ _
      (keeps first holds))

/-! ### The two memories stay apart -/

/-- The ways an effect can change a slot. -/
theorem Effect.slot_cases (effect : Effect s event s') (c : C) (i : Nat) :
    s'.slot c i = s.slot c i ∨ (s'.slot c i).capType = .invalid ∨
      ∃ capType rights o, event = .install c i capType rights o ∧
        (s'.slot c i).capType = capType ∧ (s'.slot c i).rights = rights ∧
        (s'.slot c i).obj = some o := by
  cases effect with
  | @install c' i' capType rights o charged ready paid =>
    rw [installSlot_slot]
    split_ifs with here
    · obtain ⟨rfl, rfl⟩ := here
      exact .inr (.inr ⟨capType, rights, o, rfl, rfl, rfl, rfl⟩)
    · exact .inl rfl
  | clear holds unwired =>
    rw [clearSlot_slot]
    split_ifs
    · exact .inr (.inl rfl)
    · exact .inl rfl
  | @resetCnode c' cSlots empty =>
    by_cases here : c = c'
    · subst here
      exact .inr (.inl (by simp [gjCnodeInit, CapSlot.fresh]))
    · exact .inl (by simp [gjCnodeInit, Function.update_of_ne here])
  | _ => exact .inl rfl

variable {allowed : Event C O Q → Prop}

/-- An effect that keeps the two memories apart keeps the separation of the slots. -/
theorem Effect.separated (effect : Effect s event s') (permitted : allowed event)
    (apart : KeepsApart frame allowed) (separated : Separated frame s) : Separated frame s' := by
  constructor
  · intro c i o client names
    rcases effect.slot_cases c i with same | cleared | ⟨capType, rights, o', rfl, -, -, pointer⟩
    · exact separated.outside c i o client (same ▸ names)
    · exact absurd cleared names.1
    · obtain rfl : o' = o := by simpa [pointer] using names.2
      exact (apart _ _ _ _ _ permitted).1 client
  · intro c i o stack names
    rcases effect.slot_cases c i with same | cleared | ⟨capType, rights, o', rfl, -, -, pointer⟩
    · exact separated.inside c i o stack (same ▸ names)
    · exact absurd cleared names.1
    · obtain rfl : o' = o := by simpa [pointer] using names.2
      exact (apart _ _ _ _ _ permitted).2 stack

theorem Leads.separated (leads : Leads allowed s s') (apart : KeepsApart frame allowed)
    (separated : Separated frame s) : Separated frame s' :=
  leads.invariant (Separated frame)
    (fun permitted effect => effect.separated permitted apart) separated

/-- Without installs into them the stack CNodes stay empty. -/
theorem Leads.stackEmpty (leads : Leads allowed s s')
    (outside : ∀ c i capType rights o, allowed (.install c i capType rights o) → c ∉ frame.cnodes)
    (empty : StackEmpty frame s) : StackEmpty frame s' := by
  refine leads.invariant (StackEmpty frame) ?_ empty
  intro s s' event permitted effect empty c stack i
  rcases effect.slot_cases c i with same | cleared | ⟨capType, rights, o, rfl, -⟩
  · rw [same]
    exact empty c stack i
  · exact cleared
  · exact absurd stack (outside _ _ _ _ _ permitted)

/-! ### The two self-tests -/

/-- `cdt_soft_residual_lean_once` stays within its own memory, once the stack is unused. -/
theorem cdtLean_leads (vars : LeanVars) (wellFormed : WellFormed s)
    (separated : Separated frame s) (empty : StackEmpty frame s) :
    Leads frame.cdtScope.Admits s
      (runScript (cdtLeanInit frame ++ cdtLeanChecks frame) (vars, s)).2 := by
  have wider : ∀ event, frame.initScope.Admits event → frame.cdtScope.Admits event := by
    intro event admits
    cases event with
    | install c i capType rights o => exact admits.elim
    | _ => exact admits
  have outside : ∀ c i capType rights o,
      frame.initScope.Admits (.install c i capType rights o) → c ∉ frame.cnodes :=
    fun _ _ _ _ _ none => none.elim
  have inits : Leads frame.initScope.Admits s (runScript (cdtLeanInit frame) (vars, s)).2 :=
    runScript_leads (fun s => WellFormed s ∧ Separated frame s ∧ StackEmpty frame s) And.left
      (fun leads ⟨wellFormed, separated, empty⟩ => ⟨leads.wellFormed wellFormed,
        leads.separated frame.initScope_keepsApart separated,
        leads.stackEmpty outside empty⟩)
      (fun line member vars s ready => cdtLeanInit_respects frame line member vars s ready.2)
      vars s ⟨wellFormed, separated, empty⟩
  have initialised := inits.mono wider
  rw [runScript_append]
  refine initialised.trans (runScript_leads (fun s => WellFormed s ∧ Separated frame s) And.left
    (fun leads ⟨wellFormed, separated⟩ => ⟨leads.wellFormed wellFormed,
      leads.separated frame.cdtScope_keepsApart separated⟩)
    (fun line member vars s ready => cdtLeanChecks_respects frame line member vars s ready.2) _ _
    ⟨initialised.wellFormed wellFormed, initialised.separated frame.cdtScope_keepsApart separated⟩)

/-- `soft_revoke_residual_lean_once` installs nothing and revokes its own headers only. -/
theorem revokeLean_leads (vars : LeanVars) (wellFormed : WellFormed s)
    (separated : Separated frame s) :
    Leads frame.revokeScope.Admits s (runScript (revokeLeanScript frame) (vars, s)).2 :=
  runScript_leads (fun s => WellFormed s ∧ Separated frame s) And.left
    (fun leads ⟨wellFormed, separated⟩ => ⟨leads.wellFormed wellFormed,
      leads.separated frame.revokeScope_keepsApart separated⟩)
    (fun line member vars s ready => revokeLeanScript_respects frame line member vars s ready.2)
    vars s ⟨wellFormed, separated⟩

end GreenJade.Cap

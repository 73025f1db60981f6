import GreenJade.Cap.QuotaHierarchy
import GreenJade.Cap.Run
import GreenJade.Lib.TableCount

/-! Owns the ledger of a leaf account: while CNodes are attached to it only when they hold
nothing, its count of used slots is the number of occupied slots of those CNodes. It also
owns that an install which fails moves no count anywhere. -/

namespace GreenJade.Cap

open LinkedChain ParentWalk CapQuota TableCount

universe u v w

variable {C : Type u} {O : Type v} {Q : Type w}

/-- The occupied slots of the CNodes attached to the account. -/
def CapState.occupied (s : CapState C O Q) (q : Q) : Set (C × Nat) :=
  {place | s.quotaAccount place.1 = some q ∧ place.2 < s.cSlots place.1 ∧
    (s.slot place.1 place.2).capType ≠ .invalid}

def occupying (accountOf : C → Option Q) (q : Q) (c : C) (slot : CapSlot O) : Prop :=
  accountOf c = some q ∧ slot.capType ≠ .invalid

theorem WellFormed.encard_occupied {s : CapState C O Q} (wellFormed : WellFormed s) (q : Q) :
    (s.occupied q).encard = count s.slot (occupying s.quotaAccount q) := by
  have same : s.occupied q = places s.slot (occupying s.quotaAccount q) := by
    ext ⟨c, i⟩
    exact and_congr_right fun _ => and_iff_right_of_imp (wellFormed.inRange c i)
  rw [same, count]

/-- What keeps the count of a leaf account exact. Stack CNodes never use the account. -/
structure Ledger (frame : LeanFrame C O Q) (q : Q) (s : CapState C O Q) : Prop where
  acyclic : NoShortCycle (parentLinks s.quota) quotaDepthMax
  leaf : ∀ account, (s.quota account).parent ≠ some q
  stack : ∀ c ∈ frame.cnodes, s.quotaAccount c ≠ some q
  counted : count s.slot (occupying s.quotaAccount q) = (s.quota q).used.toNat
  within : (s.quota q).used ≤ (s.quota q).limit

/-- The events that do not disturb the ledger of the account. -/
def LedgerEvent (frame : LeanFrame C O Q) (q : Q) : Event C O Q → Prop
  | .attach c account => c ∈ frame.cnodes ∧ account ≠ some q
  | .setParent _ parent => parent ≠ some q
  | .seedQuota account => account ≠ q
  | _ => True

section

variable {frame : LeanFrame C O Q} {s s' : CapState C O Q} {event : Event C O Q}
variable {c : C} {i : Nat} {o : O} {q : Q}

namespace Ledger

theorem boot (frame : LeanFrame C O Q) (q : Q) (cSlots : C → Nat) (limit : Q → U32) :
    Ledger frame q (.boot cSlots limit) where
  acyclic := by
    intro node count positive bound
    cases count with
    | zero => exact absurd positive (Nat.lt_irrefl 0)
    | succ count => simp [climb, parentLinks, CapState.boot, init]
  leaf := fun _ => nofun
  stack := fun _ _ => nofun
  counted := count_eq_zero _ fun _ _ occupied => occupied.2 rfl
  within := by simp [CapState.boot, init, BitVec.le_def]

section

variable (ledger : Ledger frame q s)
include ledger

/-- Every charge and refund passes distinct accounts. -/
theorem distinct (account : Option Q) : (chargePath s.quota account).Nodup :=
  ledger.acyclic.walk_nodup _ _ le_rfl

/-- A charge or refund passes the leaf account only when it starts there. -/
theorem mem_chargePath {account : Option Q} :
    q ∈ chargePath s.quota account ↔ account = some q := by
  constructor
  · exact mem_walk_of_childless ledger.leaf
  · rintro rfl
    exact List.mem_cons_self

/-- Links and attachments unchanged, the count still exact and the counters moved as an
operation on the accounts moves them. -/
theorem of_moves (attached : s'.quotaAccount = s.quotaAccount)
    (parents : ∀ account, (s'.quota account).parent = (s.quota account).parent)
    (moves : (s.quota q).Moves (s'.quota q))
    (counted : count s'.slot (occupying s.quotaAccount q) = (s'.quota q).used.toNat) :
    Ledger frame q s' where
  acyclic := by
    have same : parentLinks s'.quota = parentLinks s.quota := funext parents
    exact same ▸ ledger.acyclic
  leaf := fun account => parents account ▸ ledger.leaf account
  stack := attached ▸ ledger.stack
  counted := attached ▸ counted
  within := moves.within ledger.within

section

variable [DecidableEq C]

/-- Writing the attachment of a row that holds nothing, or of one that neither was nor
becomes attached to the account, changes no selected slot. -/
theorem attach (account : Option Q) (stack : c ∈ frame.cnodes → account ≠ some q)
    (untouched : (∀ i, (s.slot c i).capType = .invalid) ∨
      (s.quotaAccount c ≠ some q ∧ account ≠ some q)) :
    Ledger frame q (gjCapQuotaAttach s c account) where
  acyclic := ledger.acyclic
  leaf := ledger.leaf
  stack := fun c' inside => by
    by_cases here : c' = c
    · subst here
      simpa [gjCapQuotaAttach] using stack inside
    · simpa [gjCapQuotaAttach, here] using ledger.stack c' inside
  counted := by
    refine (count_congr fun c' i => ?_).trans ledger.counted
    by_cases here : c' = c
    · subst here
      rcases untouched with empty | ⟨before, after⟩
      · exact iff_of_false (fun occupied => occupied.2 (empty i))
          fun occupied => occupied.2 (empty i)
      · refine iff_of_false (fun occupied => after ?_) fun occupied => before occupied.1
        simpa [gjCapQuotaAttach] using occupied.1
    · simp [occupying, gjCapQuotaAttach, here]
  within := ledger.within

theorem resetCnode (empty : ∀ i, (s.slot c i).capType = .invalid)
    (cSlots : Nat) : Ledger frame q (gjCnodeInit s c cSlots) where
  acyclic := ledger.acyclic
  leaf := ledger.leaf
  stack := fun c' inside => by
    by_cases here : c' = c
    · subst here
      simp [gjCnodeInit]
    · simpa [gjCnodeInit, here] using ledger.stack c' inside
  counted := by
    refine (count_congr fun c' i => ?_).trans ledger.counted
    by_cases here : c' = c
    · subst here
      exact iff_of_false (fun occupied => occupied.2 (by simp [gjCnodeInit, CapSlot.fresh]))
        fun occupied => occupied.2 (empty i)
    · simp [occupying, gjCnodeInit, here]
  within := ledger.within

end

variable [DecidableEq Q]

theorem setParent {account parent : Option Q} (other : parent ≠ some q) :
    Ledger frame q { s with quota := gjCapQuotaSetParent s.quota account parent } := by
  have moves := gjCapQuotaSetParent_moves s.quota account parent q
  refine ⟨gjCapQuotaSetParent_noShortCycle ledger.acyclic, ?_, ledger.stack, ?_,
    moves.within ledger.within⟩
  · intro x
    rcases gjCapQuotaSetParent_cases s.quota account parent with same | ⟨child, written, -⟩
    · simpa only [same] using ledger.leaf x
    · by_cases here : x = child
      · subst here
        simpa [written, setParentLink] using other
      · simpa [written, setParentLink, here] using ledger.leaf x
  · have used : (gjCapQuotaSetParent s.quota account parent q).used = (s.quota q).used := by
      rcases gjCapQuotaSetParent_cases s.quota account parent with same | ⟨child, written, -⟩
      · rw [same]
      · by_cases here : q = child
        · subst here
          simp [written, setParentLink]
        · simp [written, setParentLink, here]
    exact used ▸ ledger.counted

theorem seedQuota {account : Q} (other : account ≠ q) (c : C) :
    Ledger frame q (Cap.seedQuota s account c) := by
  have same : (Cap.seedQuota s account c).quota q = s.quota q :=
    Function.update_of_ne other.symm _ _
  refine ⟨?_, fun x => ?_, ledger.stack, same ▸ ledger.counted, same ▸ ledger.within⟩
  · have links : parentLinks (Cap.seedQuota s account c).quota =
        Function.update (parentLinks s.quota) account none := by
      funext x
      by_cases here : x = account
      · subst here
        simp [parentLinks, Cap.seedQuota, init]
      · simp [parentLinks, Cap.seedQuota, here]
    exact links ▸ ledger.acyclic.detach
  · by_cases here : x = account
    · subst here
      simp [Cap.seedQuota, init]
    · simpa [Cap.seedQuota, here] using ledger.leaf x

variable [DecidableEq C] [DecidableEq O]

theorem install {capType : CapType} {rights : U16} {charged : QuotaTable Q}
    (ready : InstallReady s c i capType o)
    (paid : gjCapQuotaSlotCharge s.quota (s.quotaAccount c) = (.ok, charged)) :
    Ledger frame q (installSlot { s with quota := charged } c i capType rights o) := by
  have distinct := ledger.distinct (s.quotaAccount c)
  obtain ⟨room, committed⟩ := gjCapQuotaSlotCharge_ok distinct paid
  have written := installSlot_slot { s with quota := charged } c i capType rights o
  have free : ¬ occupying s.quotaAccount q c (s.slot c i) := fun occupied => occupied.2 ready.free
  refine ledger.of_moves rfl ?_ ?_ ?_
  · intro account
    have kept := gjCapQuotaSlotCharge_parent distinct account
    rwa [paid] at kept
  · have moves := gjCapQuotaSlotCharge_moves distinct q
    rwa [paid] at moves
  · change count _ _ = ((charged q).used.toNat : ℕ∞)
    rw [committed q]
    by_cases mine : s.quotaAccount c = some q
    · have onPath : q ∈ chargePath s.quota (s.quotaAccount c) := ledger.mem_chargePath.mpr mine
      rw [if_pos onPath, charged_used (room q onPath),
        count_write_gain _ written free ⟨mine, ready.typed⟩, ledger.counted]
      push_cast
      rfl
    · rw [if_neg (mine ∘ ledger.mem_chargePath.mp),
        count_write_same _ written (iff_of_false (fun taken => mine taken.1) free),
        ledger.counted]

theorem clear (names : (s.slot c i).Names o) : Ledger frame q (clearSlot s c i o) := by
  have distinct := ledger.distinct (s.quotaAccount c)
  have written := clearSlot_slot s c i o
  have cleared : ¬ occupying s.quotaAccount q c (gjCapSlotInvalidate (s.slot c i)) :=
    fun occupied => occupied.2 rfl
  refine ledger.of_moves rfl (gjCapQuotaSlotRefund_parent distinct)
    (gjCapQuotaSlotRefund_moves distinct q) ?_
  rw [clearSlot_quota, gjCapQuotaSlotRefund_apply distinct]
  by_cases mine : s.quotaAccount c = some q
  · have lost := count_write_loss _ written ⟨mine, names.1⟩ cleared
    have positive : 1 ≤ (s.quota q).used.toNat := by
      have one : 1 ≤ count s.slot (occupying s.quotaAccount q) :=
        one_le_count _ ⟨mine, names.1⟩
      rw [ledger.counted] at one
      exact_mod_cast one
    rw [if_pos (ledger.mem_chargePath.mpr mine), refunded_used]
    rw [ledger.counted, ← Nat.sub_add_cancel positive] at lost
    exact ENat.add_left_injective_of_ne_top ENat.one_ne_top (by push_cast at lost ⊢; exact lost)
  · rw [if_neg (mine ∘ ledger.mem_chargePath.mp), count_write_same _ written
        (iff_of_false cleared fun taken => mine taken.1), ledger.counted]

end

end Ledger

/-! ### Runs -/

variable {m : Machine C O Q} {op : CapOp C O Q}

/-- A call that respects the account's ledger: a CNode that is or becomes attached to the
account holds nothing when its attachment is written, and the account gets no child. -/
def RespectsLedger (q : Q) (m : Machine C O Q) : CapOp C O Q → Prop
  | .quotaAttach c account => m.caps.quotaAccount c = some q ∨ account = some q →
      ∀ i, (m.caps.slot c i).capType = .invalid
  | .quotaSetParent _ parent => parent ≠ some q
  | _ => True

/-- The self-tests use their own account on their own CNodes. -/
theorem ledgerEvent_of_selfTest (client : q ≠ frame.qLean)
    (emits : m.SelfTestEvent frame event) : LedgerEvent frame q event := by
  rcases emits with ⟨-, admits⟩ | admits
  · cases event with
    | attach c account =>
      refine ⟨admits.1, ?_⟩
      rcases admits.2 with rfl | rfl
      · exact nofun
      · exact fun same => client (Option.some.inj same).symm
    | setParent account parent => exact admits.elim
    | seedQuota account => exact fun same => client (same.symm.trans admits)
    | _ => trivial
  · cases event with
    | attach c account => exact admits.elim
    | setParent account parent => exact admits.elim
    | seedQuota account => exact admits.elim
    | _ => trivial

section

variable [DecidableEq O]

theorem ledgerEvent_of_emits (attaches : ¬ ∃ c account, op = .quotaAttach c account)
    (respects : RespectsLedger q m op) (emits : op.Emits m.caps event) :
    LedgerEvent frame q event := by
  cases event with
  | attach c account =>
    cases op with
    | quotaAttach c account => exact absurd ⟨c, account, rfl⟩ attaches
    | _ => simp [CapOp.Emits] at emits
  | setParent account parent =>
    cases op with
    | quotaSetParent =>
      cases emits
      exact respects
    | _ => simp [CapOp.Emits] at emits
  | seedQuota account => cases op <;> simp [CapOp.Emits] at emits
  | _ => trivial

end

variable [DecidableEq C] [DecidableEq O] [DecidableEq Q]

/-- Every effect that does not disturb the ledger keeps it. -/
theorem Effect.ledger (effect : Effect s event s') (permitted : LedgerEvent frame q event)
    (ledger : Ledger frame q s) : Ledger frame q s' := by
  cases effect with
  | install ready paid => exact ledger.install ready paid
  | @exhaust full =>
    refine ledger.of_moves rfl (fun x => (update_exhausted_apply s.quota full x).1)
      (.exhaust s.quota full q) ?_
    rw [(update_exhausted_apply s.quota full q).2.2.1]
    exact ledger.counted
  | clear holds unwired => exact ledger.clear holds.2
  | attach =>
    exact ledger.attach _ (fun _ => permitted.2) (.inr ⟨ledger.stack _ permitted.1, permitted.2⟩)
  | detachEmpty empty => exact ledger.attach none (fun _ => nofun) (.inl empty)
  | setParent => exact ledger.setParent permitted
  | resetCnode empty => exact ledger.resetCnode empty _
  | seedQuota => exact ledger.seedQuota permitted _
  | _ => exact ledger.of_moves rfl (fun _ => rfl) (.refl _) ledger.counted

theorem Ledger.exec (tidy : Tidy frame m) (avoids : op.Avoids frame)
    (respects : RespectsLedger q m op) (ledger : Ledger frame q m.caps) :
    Ledger frame q (op.exec m.caps).2 := by
  by_cases attaches : ∃ c account, op = .quotaAttach c account
  · obtain ⟨c, account, rfl⟩ := attaches
    apply ledger.attach account (fun inside => absurd inside avoids.1)
    by_cases mine : m.caps.quotaAccount c = some q ∨ account = some q
    · exact .inl (respects mine)
    · exact .inr (not_or.mp mine)
  · exact (op.exec_leads tidy.wellFormed).invariant (Ledger frame q)
      (fun emits effect => effect.ledger (ledgerEvent_of_emits attaches respects emits)) ledger

theorem Ledger.call (client : q ≠ frame.qLean) (tidy : Tidy frame m) (avoids : op.Avoids frame)
    (respects : RespectsLedger q m op) (ledger : Ledger frame q m.caps) :
    Ledger frame q (m.call frame op).2.caps :=
  (Machine.call_leads tidy avoids).1.invariant (Ledger frame q)
    (fun emits effect => effect.ledger (ledgerEvent_of_selfTest client emits))
    (ledger.exec tidy avoids respects)

/-! ### Installs that fail -/

variable (s)

def FailureKeepsUsed (outcome : Except GjStatus CapRef × CapState C O Q) : Prop :=
  ∀ code, outcome.1 = .error code →
    ∀ account, (outcome.2.quota account).used = (s.quota account).used

section

omit [DecidableEq C] [DecidableEq O] [DecidableEq Q]

theorem FailureKeepsUsed.of_reply {s} {outcome : Except GjStatus CapRef × CapState C O Q}
    (keeps : FailureKeepsUsed s outcome) {code : GjStatus}
    (failed : CapReply.ofHandle outcome.1 = .status code) (account : Q) :
    (outcome.2.quota account).used = (s.quota account).used := by
  obtain ⟨result, after⟩ := outcome
  cases result with
  | error status => exact keeps status rfl account
  | ok ref => exact nomatch failed

end

theorem gjCapSlotInstall_failureKeepsUsed (c : C) (slot : Nat)
    (capType : CapType) (rights : U16) (o : O) :
    FailureKeepsUsed s (gjCapSlotInstall s c slot capType rights o) := by
  rcases gjCapSlotInstall_cases s c slot capType rights o with
    ⟨code, result⟩ | ⟨code, full, result⟩ | ⟨charged, ready, paid, result⟩
  · rw [result]
    exact fun _ _ _ => rfl
  · rw [result]
    exact fun _ _ account => (update_exhausted_apply s.quota full account).2.2.1
  · rw [result]
    exact fun _ failed => nomatch failed

theorem gjCapAllocInstall_failureKeepsUsed (c : C) (capType : CapType)
    (rights : U16) (o : O) : FailureKeepsUsed s (gjCapAllocInstall s c capType rights o) := by
  rcases gjCapAllocInstall_cases s c capType rights o with ⟨code, result⟩ | ⟨slot, result⟩
  · rw [result]
    exact fun _ _ _ => rfl
  · rw [result]
    exact gjCapSlotInstall_failureKeepsUsed s c slot capType rights o

theorem installDerived_failureKeepsUsed (c : C) (res : CapResolved O)
    (rights : U16) : FailureKeepsUsed s (installDerived s c res rights) := by
  have allocated := gjCapAllocInstall_failureKeepsUsed s c res.capType rights res.obj
  unfold installDerived
  split
  · rename_i status failed outcome
    rw [outcome] at allocated
    exact fun _ _ => allocated status rfl
  · exact fun _ failed => nomatch failed

theorem gjCapMint_failureKeepsUsed (src : C) (slot : Nat) (gen : U32)
    (rights : U16) (dst : Option C) :
    FailureKeepsUsed s (gjCapMint s src slot gen rights dst) := by
  unfold gjCapMint
  split
  · exact fun _ _ _ => rfl
  · split_ifs
    · exact fun _ _ _ => rfl
    · exact fun _ _ _ => rfl
    · exact installDerived_failureKeepsUsed s _ _ _

theorem gjCapCopy_failureKeepsUsed (c : C) (slot : Nat) (gen : U32)
    (rights : U16) : FailureKeepsUsed s (gjCapCopy s c slot gen rights) := by
  unfold gjCapCopy
  split
  · exact fun _ _ _ => rfl
  · split_ifs
    · exact fun _ _ _ => rfl
    · exact installDerived_failureKeepsUsed s _ _ _

theorem gjCapMove_failureKeepsUsed (c : C) (slot : Nat) (gen : U32) :
    FailureKeepsUsed s (gjCapMove s c slot gen) := by
  unfold gjCapMove
  split
  · exact fun _ _ _ => rfl
  · rename_i res _
    split_ifs
    · exact fun _ _ _ => rfl
    · exact fun _ _ _ => rfl
    · have allocated := gjCapAllocInstall_failureKeepsUsed s c res.capType res.rights res.obj
      split
      · rename_i status failed outcome
        rw [outcome] at allocated
        exact fun _ _ => allocated status rfl
      · exact fun _ failed => nomatch failed

variable {s}

def CapOp.installs : CapOp C O Q → Bool
  | .slotInstall .. => true
  | .allocInstall .. => true
  | .mint .. => true
  | .copy .. => true
  | .move .. => true
  | _ => false

/-- A call that installs and is refused starts no self-test and moves no count. -/
theorem Machine.call_failed_used (installs : op.installs = true) {code : GjStatus}
    (failed : (m.call frame op).1 = .status code) (account : Q) :
    ((m.call frame op).2.caps.quota account).used = (m.caps.quota account).used := by
  have reply : (op.exec m.caps).1 = .status code := by
    dsimp only [Machine.call] at failed
    split_ifs at failed <;> exact failed
  have silent : (m.call frame op).2.caps = (op.exec m.caps).2 := by
    dsimp only [Machine.call]
    rw [reply]
    cases op <;> first | rfl | exact absurd installs (by simp [CapOp.installs])
  rw [silent]
  cases op with
  | slotInstall c slot capType rights o =>
    exact (gjCapSlotInstall_failureKeepsUsed m.caps c slot capType rights o).of_reply reply account
  | allocInstall c capType rights o =>
    exact (gjCapAllocInstall_failureKeepsUsed m.caps c capType rights o).of_reply reply account
  | mint src slot gen rights dst =>
    exact (gjCapMint_failureKeepsUsed m.caps src slot gen rights dst).of_reply reply account
  | copy c slot gen rights =>
    exact (gjCapCopy_failureKeepsUsed m.caps c slot gen rights).of_reply reply account
  | move c slot gen => exact (gjCapMove_failureKeepsUsed m.caps c slot gen).of_reply reply account
  | _ => exact absurd installs (by simp [CapOp.installs])

/-- In every run that attaches only empty CNodes to a leaf account and leaves it a leaf, its
count is the number of occupied slots of the CNodes attached to it and within its limit. In
any state an install that fails moves the count of no account. -/
theorem quota_equals_occupancy {cSlots : C → Nat} {limit : Q → U32} (client : q ≠ frame.qLean)
    (reaches : Reaches frame (RespectsLedger q) (.boot cSlots limit) m) :
    (m.caps.occupied q).encard = (m.caps.quota q).used.toNat ∧
      (m.caps.quota q).used ≤ (m.caps.quota q).limit ∧
      ∀ (now : Machine C O Q) (op : CapOp C O Q) (code : GjStatus), op.installs = true →
        (now.call frame op).1 = .status code → ∀ account,
          ((now.call frame op).2.caps.quota account).used = (now.caps.quota account).used := by
  obtain ⟨tidy, ledger⟩ := reaches.invariant (fun now => Ledger frame q now.caps)
    (Ledger.call client) (.of_boot rfl) (.boot frame q cSlots limit)
  refine ⟨?_, ledger.within, fun now op code installs => Machine.call_failed_used installs⟩
  rw [tidy.wellFormed.encard_occupied, ledger.counted]

end

def sampleCharged : Machine Nat Nat Nat :=
  (Machine.boot (fun _ => 4) fun _ => 8).calls sampleFrame
    [.quotaAttach 0 (some 0), .slotInstall 0 1 .frame GjRight.mint 0]

theorem quota_equals_occupancy_charged :
    (sampleCharged.caps.occupied 0).encard = 1 ∧ (sampleCharged.caps.quota 0).used = 1 := by
  have client : 0 ∉ sampleFrame.cnodes := sampleFrame_cnodes.mpr (by decide)
  have used : (sampleCharged.caps.quota 0).used = 1 := by decide +kernel
  have reaches : Reaches sampleFrame (RespectsLedger 0) (.boot (fun _ => 4) fun _ => 8)
      sampleCharged := by
    refine Relation.ReflTransGen.tail (.single ⟨.quotaAttach 0 (some 0), ?_, ?_, rfl⟩)
      ⟨.slotInstall 0 1 .frame GjRight.mint 0, ?_, ?_, rfl⟩
    · exact ⟨client, by decide⟩
    · exact fun _ _ => rfl
    · exact ⟨client, sampleFrame_objects (.inl rfl)⟩
    · trivial
  refine ⟨?_, used⟩
  rw [(quota_equals_occupancy (by decide) reaches).1, used]
  rfl

end GreenJade.Cap

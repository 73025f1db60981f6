import GreenJade.Cap.Types
import GreenJade.Lib.ParentWalk
import Mathlib.Order.Bounds.Basic
import Mathlib.Tactic.SplitIfs

/-! Owns the slot quota accounts of `cnode.c`: initialisation, re-parenting, and the
charge and refund that roll up at most `quotaDepthMax` accounts of the parent chain. It
does not own which CNode is attached to which account. -/

namespace GreenJade.Cap

open LinkedChain ParentWalk Function

universe u

variable {Q : Type u}

def quotaDepthMax : Nat := 8

structure CapQuota (Q : Type u) where
  limit : U32
  used : U32
  exhaust : U32
  highWater : U32
  chargeOk : U32
  refundOk : U32
  parent : Option Q

abbrev QuotaTable (Q : Type u) := Q → CapQuota Q

def CapQuota.init (limit : U32) : CapQuota Q :=
  { limit, used := 0, exhaust := 0, highWater := 0, chargeOk := 0, refundOk := 0, parent := none }

variable (account : CapQuota Q)

def CapQuota.charged : CapQuota Q :=
  { account with
    used := account.used + 1
    highWater :=
      if account.highWater < account.used + 1 then account.used + 1 else account.highWater
    chargeOk := account.chargeOk + 1 }

def CapQuota.refunded : CapQuota Q :=
  if 0 < account.used then
    { account with used := account.used - 1, refundOk := account.refundOk + 1 }
  else account

def CapQuota.exhausted : CapQuota Q :=
  { account with exhaust := account.exhaust + 1 }

@[simp]
theorem CapQuota.charged_parent : account.charged.parent = account.parent := rfl

@[simp]
theorem CapQuota.charged_limit : account.charged.limit = account.limit := rfl

@[simp]
theorem CapQuota.refunded_parent : account.refunded.parent = account.parent := by
  unfold CapQuota.refunded
  split_ifs <;> rfl

@[simp]
theorem CapQuota.refunded_limit : account.refunded.limit = account.limit := by
  unfold CapQuota.refunded
  split_ifs <;> rfl

@[simp]
theorem CapQuota.refunded_highWater : account.refunded.highWater = account.highWater := by
  unfold CapQuota.refunded
  split_ifs <;> rfl

theorem CapQuota.refunded_used : account.refunded.used.toNat = account.used.toNat - 1 := by
  unfold CapQuota.refunded
  split_ifs with positive
  · change (account.used - 1).toNat = account.used.toNat - 1
    bv_omega
  · bv_omega

/-- Below its limit an account's counter does not wrap when it is charged. -/
theorem CapQuota.charged_used {account : CapQuota Q} (room : account.used < account.limit) :
    account.charged.used.toNat = account.used.toNat + 1 := by
  change (account.used + 1).toNat = account.used.toNat + 1
  bv_omega

theorem CapQuota.charged_highWater : account.charged.highWater.toNat =
      max account.highWater.toNat account.charged.used.toNat := by
  simp only [CapQuota.charged, BitVec.lt_def]
  split_ifs <;> omega

def parentLinks (table : QuotaTable Q) : Q → Option Q := fun account => (table account).parent

/-- The accounts one charge or refund passes: the first `quotaDepthMax` of the chain. -/
def chargePath (table : QuotaTable Q) (account : Option Q) : List Q :=
  walk (parentLinks table) quotaDepthMax account

/-- Pass 1 of the charge: the first account of the chain without room. -/
def chargeScan (table : QuotaTable Q) : Nat → Option Q → Option Q
  | 0, _ => none
  | _ + 1, none => none
  | depth + 1, some account =>
    if (table account).limit ≤ (table account).used then some account
    else chargeScan table depth (table account).parent

variable {account : Option Q} {table : QuotaTable Q}

theorem chargeScan_eq_none {depth : Nat} {start : Option Q} : chargeScan table depth start = none ↔
      ∀ account ∈ walk (parentLinks table) depth start,
        (table account).used < (table account).limit := by
  induction depth generalizing start with
  | zero => simp [chargeScan, walk]
  | succ depth ih =>
    cases start with
    | none => simp [chargeScan, walk]
    | some account =>
      by_cases full : (table account).limit ≤ (table account).used
      · simp [chargeScan, walk, full]
      · simp [chargeScan, walk, full, ih, parentLinks, BitVec.not_le.mp full]

variable [DecidableEq Q]

def gjCapQuotaInit (table : QuotaTable Q) (account : Q) (limit : U32) : QuotaTable Q :=
  update table account (CapQuota.init limit)

def setParentLink (table : QuotaTable Q) (account : Q) (parent : Option Q) : QuotaTable Q :=
  update table account { table account with parent }

/-- `gj_cap_quota_set_parent`: refuses itself and an account that already appears among
the first `quotaDepthMax` accounts from the new parent up. -/
def gjCapQuotaSetParent (table : QuotaTable Q) (account parent : Option Q) : QuotaTable Q :=
  match account, parent with
  | none, _ => table
  | some account, none => setParentLink table account none
  | some account, some parent =>
    if parent = account then table
    else if account ∈ walk (parentLinks table) quotaDepthMax (some parent) then table
    else setParentLink table account (some parent)

def gjCapQuotaSlotCharge (table : QuotaTable Q) (account : Option Q) : GjStatus × QuotaTable Q :=
  match chargeScan table quotaDepthMax account with
  | some full => (.errQuota, update table full (table full).exhausted)
  | none => (.ok, visit CapQuota.parent CapQuota.charged quotaDepthMax account table)

/-- `gj_cap_quota_slot_refund`; it always returns `GJ_OK`. -/
def gjCapQuotaSlotRefund (table : QuotaTable Q) (account : Option Q) : QuotaTable Q :=
  visit CapQuota.parent CapQuota.refunded quotaDepthMax account table

/-- A refused charge moves nothing but an exhaustion counter. -/
theorem update_exhausted_apply (table : QuotaTable Q) (full q : Q) :
    (update table full (table full).exhausted q).parent = (table q).parent ∧
      (update table full (table full).exhausted q).limit = (table q).limit ∧
      (update table full (table full).exhausted q).used = (table q).used ∧
      (update table full (table full).exhausted q).highWater = (table q).highWater := by
  by_cases here : q = full
  · subst here
    simp [CapQuota.exhausted]
  · simp [here]

/-! ### What re-parenting does to the links -/

/-- Re-parenting changes nothing, or writes one link that the guard has let through. -/
theorem gjCapQuotaSetParent_cases (table : QuotaTable Q) (account parent : Option Q) :
    gjCapQuotaSetParent table account parent = table ∨
      ∃ child, gjCapQuotaSetParent table account parent = setParentLink table child parent ∧
        ∀ above ∈ parent, child ∉ walk (parentLinks table) quotaDepthMax (some above) := by
  unfold gjCapQuotaSetParent
  split
  · exact .inl rfl
  · exact .inr ⟨_, rfl, nofun⟩
  · split_ifs with self guard
    · exact .inl rfl
    · exact .inl rfl
    · exact .inr ⟨_, rfl, fun above same => Option.some.inj same ▸ guard⟩

theorem parentLinks_setParentLink (table : QuotaTable Q) (child : Q) (parent : Option Q) :
    parentLinks (setParentLink table child parent) = update (parentLinks table) child parent := by
  funext q
  by_cases here : q = child
  · subst here
    simp [parentLinks, setParentLink]
  · simp [parentLinks, setParentLink, here]

/-- The guard keeps cycles longer than the charge walk. -/
theorem gjCapQuotaSetParent_noShortCycle {parent : Option Q}
    (acyclic : NoShortCycle (parentLinks table) quotaDepthMax) :
    NoShortCycle (parentLinks (gjCapQuotaSetParent table account parent)) quotaDepthMax := by
  rcases gjCapQuotaSetParent_cases table account parent with same | ⟨child, linked, guard⟩
  · rwa [same]
  · rw [linked, parentLinks_setParentLink]
    cases parent with
    | none => exact acyclic.detach
    | some above => exact acyclic.attach (guard above rfl)

/-! ### What each account sees of a charge or a refund -/

/-- A charge that succeeds commits exactly once at every account of its path. -/
theorem gjCapQuotaSlotCharge_ok {charged : QuotaTable Q}
    (distinct : (chargePath table account).Nodup)
    (success : gjCapQuotaSlotCharge table account = (.ok, charged)) :
    (∀ q ∈ chargePath table account, (table q).used < (table q).limit) ∧ ∀ q, charged q =
        if q ∈ chargePath table account then (table q).charged else table q := by
  unfold gjCapQuotaSlotCharge at success
  split at success
  · simp at success
  · rename_i room
    cases success
    exact ⟨chargeScan_eq_none.mp room, visit_apply CapQuota.charged_parent _ _ table distinct⟩

/-- A charge fails only with `GJ_ERR_QUOTA`, and then only an exhaustion counter moves. -/
theorem gjCapQuotaSlotCharge_fail {failed : QuotaTable Q}
    {status : GjStatus} (failure : gjCapQuotaSlotCharge table account = (status, failed))
    (notOk : status ≠ .ok) :
    status = .errQuota ∧ ∃ full, failed = update table full (table full).exhausted := by
  unfold gjCapQuotaSlotCharge at failure
  split at failure
  · rename_i full _
    cases failure
    exact ⟨rfl, full, rfl⟩
  · exact absurd (Prod.mk.inj failure).1.symm notOk

theorem gjCapQuotaSlotRefund_apply (distinct : (chargePath table account).Nodup) (q : Q) :
    gjCapQuotaSlotRefund table account q =
      if q ∈ chargePath table account then (table q).refunded else table q :=
  visit_apply CapQuota.refunded_parent _ _ table distinct q

end GreenJade.Cap

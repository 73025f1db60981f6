import GreenJade.Cap.Quota
import Mathlib.Data.Finset.Basic
import Mathlib.Order.Bounds.Basic

/-! Owns whole histories of the quota accounts alone: which accounts are initialised, the
four operations on them, and the facts that hold in every state of every history. Memory
that was never initialised holds arbitrary words. -/

namespace GreenJade.Cap

open Function LinkedChain ParentWalk List CapQuota

universe u

variable {Q : Type u}

/-- The accounts in memory and which of them `gj_cap_quota_init` has set up. -/
structure QuotaWorld (Q : Type u) where
  table : QuotaTable Q
  initialised : Q → Bool

inductive QuotaOp (Q : Type u)
  | init (account : Q) (limit : U32)
  | setParent (account parent : Option Q)
  | slotCharge (account : Option Q)
  | slotRefund (account : Option Q)

namespace QuotaWorld

def Knows (world : QuotaWorld Q) (pointer : Option Q) : Prop :=
  ∀ account ∈ pointer, world.initialised account = true

/-- An account is initialised once, and used only after that. -/
def Allows (world : QuotaWorld Q) : QuotaOp Q → Prop
  | .init account _ => world.initialised account = false
  | .setParent account parent => world.Knows account ∧ world.Knows parent
  | .slotCharge account => world.Knows account
  | .slotRefund account => world.Knows account

def exec [DecidableEq Q] (world : QuotaWorld Q) : QuotaOp Q → QuotaWorld Q
  | .init account limit =>
    { table := gjCapQuotaInit world.table account limit
      initialised := update world.initialised account true }
  | .setParent account parent =>
    { world with table := gjCapQuotaSetParent world.table account parent }
  | .slotCharge account =>
    { world with table := (gjCapQuotaSlotCharge world.table account).2 }
  | .slotRefund account =>
    { world with table := gjCapQuotaSlotRefund world.table account }

def links (world : QuotaWorld Q) : Q → Option Q := fun account =>
  if world.initialised account then (world.table account).parent else none

end QuotaWorld

/-- A history, newest state first, from memory in which nothing is initialised. -/
inductive QuotaHistory [DecidableEq Q] : List (QuotaWorld Q) → Prop
  | start (table : QuotaTable Q) : QuotaHistory [⟨table, fun _ => false⟩]
  | step {world : QuotaWorld Q} {earlier : List (QuotaWorld Q)} (op : QuotaOp Q)
      (history : QuotaHistory (world :: earlier)) (allowed : world.Allows op) :
      QuotaHistory (world.exec op :: world :: earlier)

/-! ### The invariant of a single state -/

/-- What every state of a history satisfies. The acyclicity reaches exactly as far as the
guard of `gj_cap_quota_set_parent` looks; longer cycles can be built. -/
structure QuotaWorld.Sound (world : QuotaWorld Q) : Prop where
  closed : ∀ account, world.initialised account = true → world.Knows (world.table account).parent
  acyclic : NoShortCycle world.links quotaDepthMax
  within : ∀ account, world.initialised account = true →
    (world.table account).used ≤ (world.table account).limit

section Links

variable {world : QuotaWorld Q}

theorem QuotaWorld.Sound.chargePath_eq (sound : world.Sound) {account : Option Q}
    (known : world.Knows account) :
    chargePath world.table account = walk world.links quotaDepthMax account := by
  refine walk_congr_of_closed (fun q => world.initialised q = true) ?_ ?_ _ _ known
  · intro node here above link
    rw [QuotaWorld.links, if_pos here] at link
    exact sound.closed node here above link
  · intro node here
    rw [QuotaWorld.links, if_pos here, parentLinks]

theorem QuotaWorld.Sound.chargePath_nodup (sound : world.Sound) {account : Option Q}
    (known : world.Knows account) : (chargePath world.table account).Nodup := by
  rw [sound.chargePath_eq known]
  exact sound.acyclic.walk_nodup _ _ le_rfl

/-- An operation that moves counters only keeps the links. -/
theorem QuotaWorld.Sound.of_same_parents (sound : world.Sound) {table : QuotaTable Q}
    (parents : ∀ q, (table q).parent = (world.table q).parent)
    (within : ∀ q, world.initialised q = true → (table q).used ≤ (table q).limit) :
    QuotaWorld.Sound { world with table } where
  closed := fun q known => by
    simp only [parents]
    exact sound.closed q known
  acyclic := by
    have same : QuotaWorld.links { world with table } = world.links := by
      funext q
      simp [QuotaWorld.links, parents]
    exact same ▸ sound.acyclic
  within := within

end Links

/-! ### Counts over a history -/

def usedHistory (states : List (QuotaWorld Q)) (account : Q) : Set Nat :=
  {count | ∃ world ∈ states, world.initialised account = true ∧
    (world.table account).used.toNat = count}

variable {states : List (QuotaWorld Q)} {account : Option Q} {table : QuotaTable Q}

theorem mem_usedHistory_cons {account : Q} {count : Nat}
    {world : QuotaWorld Q} : count ∈ usedHistory (world :: states) account ↔
      (world.initialised account = true ∧ (world.table account).used.toNat = count) ∨
        count ∈ usedHistory states account := by
  simp [usedHistory]

/-! ### One operation seen from one account -/

/-- The ways an operation can move the counters of an account that is already in use. -/
inductive CapQuota.Moves (before after : CapQuota Q) : Prop
  | idle (limit : after.limit = before.limit) (used : after.used = before.used)
      (highWater : after.highWater = before.highWater)
  | charge (room : before.used < before.limit) (committed : after = before.charged)
  | refund (returned : after = before.refunded)

theorem CapQuota.Moves.refl (account : CapQuota Q) : account.Moves account := .idle rfl rfl rfl

theorem CapQuota.Moves.within {before after : CapQuota Q} (moves : before.Moves after)
    (within : before.used ≤ before.limit) : after.used ≤ after.limit := by
  cases moves with
  | idle limit used highWater => rwa [limit, used]
  | charge room committed =>
    have used := charged_used room
    rw [committed, BitVec.le_def, used]
    exact room
  | refund returned =>
    have used := refunded_used before
    rw [returned, refunded_limit, BitVec.le_def, used]
    exact (Nat.sub_le _ _).trans within

theorem CapQuota.Moves.highWater {before after : CapQuota Q} (moves : before.Moves after)
    (peak : before.used.toNat ≤ before.highWater.toNat) :
    after.highWater.toNat = max before.highWater.toNat after.used.toNat := by
  cases moves with
  | idle limit used highWater =>
    rw [used, highWater]
    exact (max_eq_left peak).symm
  | charge room committed =>
    rw [committed]
    exact before.charged_highWater
  | refund returned =>
    rw [returned, refunded_highWater, refunded_used]
    exact (max_eq_left ((Nat.sub_le _ _).trans peak)).symm

variable [DecidableEq Q]

theorem CapQuota.Moves.exhaust (table : QuotaTable Q) (full q : Q) :
    (table q).Moves (update table full (table full).exhausted q) := by
  obtain ⟨-, limit, used, highWater⟩ := update_exhausted_apply table full q
  exact .idle limit used highWater

/-- Re-parenting moves no counter. -/
theorem gjCapQuotaSetParent_moves (table : QuotaTable Q) (account parent : Option Q) (q : Q) :
    (table q).Moves (gjCapQuotaSetParent table account parent q) := by
  have linked : ∀ (child : Q) (above : Option Q),
      (table q).Moves (setParentLink table child above q) := by
    intro child above
    by_cases here : q = child
    · subst here
      simp only [setParentLink, update_self]
      exact .idle rfl rfl rfl
    · simp only [setParentLink, update_of_ne here]
      exact .refl _
  rcases gjCapQuotaSetParent_cases table account parent with same | ⟨child, written, -⟩
  · rw [same]
    exact .refl _
  · rw [written]
    exact linked child parent

section

variable (distinct : (chargePath table account).Nodup)
include distinct

theorem gjCapQuotaSlotCharge_moves (q : Q) :
    (table q).Moves ((gjCapQuotaSlotCharge table account).2 q) := by
  rcases result : gjCapQuotaSlotCharge table account with ⟨status, after⟩
  change (table q).Moves (after q)
  by_cases success : status = .ok
  · obtain ⟨room, committed⟩ := gjCapQuotaSlotCharge_ok distinct (success ▸ result)
    rw [committed]
    split_ifs with onPath
    · exact .charge (room q onPath) rfl
    · exact .refl _
  · obtain ⟨-, full, rfl⟩ := gjCapQuotaSlotCharge_fail result success
    exact .exhaust table full q

theorem gjCapQuotaSlotRefund_moves (q : Q) :
    (table q).Moves (gjCapQuotaSlotRefund table account q) := by
  rw [gjCapQuotaSlotRefund_apply distinct]
  split_ifs
  · exact .refund rfl
  · exact .refl _

theorem gjCapQuotaSlotCharge_parent (q : Q) :
    ((gjCapQuotaSlotCharge table account).2 q).parent = (table q).parent := by
  rcases result : gjCapQuotaSlotCharge table account with ⟨status, after⟩
  change (after q).parent = _
  by_cases success : status = .ok
  · obtain ⟨-, committed⟩ := gjCapQuotaSlotCharge_ok distinct (success ▸ result)
    rw [committed]
    split_ifs <;> rfl
  · obtain ⟨-, full, rfl⟩ := gjCapQuotaSlotCharge_fail result success
    exact (update_exhausted_apply table full q).1

theorem gjCapQuotaSlotRefund_parent (q : Q) :
    (gjCapQuotaSlotRefund table account q).parent = (table q).parent := by
  rw [gjCapQuotaSlotRefund_apply distinct]
  split_ifs <;> simp

end

/-! ### Every operation keeps the invariant -/

variable {world : QuotaWorld Q}

theorem QuotaWorld.exec_initialised {op : QuotaOp Q} {q : Q}
    (known : world.initialised q = true) : (world.exec op).initialised q = true := by
  cases op with
  | init account limit =>
    by_cases here : q = account
    · subst here
      simp [QuotaWorld.exec]
    · simpa [QuotaWorld.exec, update_of_ne here] using known
  | setParent | slotCharge | slotRefund => exact known

theorem QuotaWorld.Sound.exec_moves (sound : world.Sound) {op : QuotaOp Q}
    (allowed : world.Allows op) {q : Q} (known : world.initialised q = true) :
    (world.table q).Moves ((world.exec op).table q) := by
  cases op with
  | init account limit =>
    have different : q ≠ account := by
      rintro rfl
      exact Bool.false_ne_true (allowed.symm.trans known)
    simp only [QuotaWorld.exec, gjCapQuotaInit, update_of_ne different]
    exact .refl _
  | setParent account parent => exact gjCapQuotaSetParent_moves _ _ _ q
  | slotCharge account => exact gjCapQuotaSlotCharge_moves (sound.chargePath_nodup allowed) q
  | slotRefund account => exact gjCapQuotaSlotRefund_moves (sound.chargePath_nodup allowed) q

/-- Linking an initialised account keeps the invariant when the link closes no short cycle. -/
theorem QuotaWorld.Sound.setParentLink (sound : world.Sound) {account : Q} {parent : Option Q}
    (known : world.initialised account = true) (knownParent : world.Knows parent)
    (acyclic : NoShortCycle (update world.links account parent) quotaDepthMax) :
    QuotaWorld.Sound { world with table := Cap.setParentLink world.table account parent } where
  closed := fun q here above link => by
    by_cases same : q = account
    · subst same
      exact knownParent above (by simpa [Cap.setParentLink] using link)
    · simp only [Cap.setParentLink, update_of_ne same] at link
      exact sound.closed q here above link
  acyclic := by
    have same : QuotaWorld.links
        { world with table := Cap.setParentLink world.table account parent } =
          update world.links account parent := by
      funext q
      by_cases here : q = account
      · subst here
        simp [QuotaWorld.links, Cap.setParentLink, known]
      · simp [QuotaWorld.links, Cap.setParentLink, update_of_ne here]
    exact same ▸ acyclic
  within := fun q here => by
    by_cases same : q = account
    · subst same
      simpa [Cap.setParentLink] using sound.within q here
    · simpa [Cap.setParentLink, update_of_ne same] using sound.within q here

theorem QuotaWorld.Sound.setParent (sound : world.Sound) {parent : Option Q}
    (known : world.Knows account) (knownParent : world.Knows parent) :
    (world.exec (.setParent account parent)).Sound := by
  cases account with
  | none => exact sound
  | some account =>
    have here : world.initialised account = true := known account rfl
    cases parent with
    | none => exact sound.setParentLink here knownParent sound.acyclic.detach
    | some parent =>
      simp only [QuotaWorld.exec, gjCapQuotaSetParent]
      split_ifs with self guard
      · exact sound
      · exact sound
      · refine sound.setParentLink here knownParent (sound.acyclic.attach ?_)
        rwa [← sound.chargePath_eq knownParent]

theorem QuotaWorld.Sound.init (sound : world.Sound) (account : Q) (limit : U32) :
    (world.exec (.init account limit)).Sound where
  closed := fun q here parent link => by
    by_cases same : q = account
    · subst same
      simp [QuotaWorld.exec, gjCapQuotaInit, CapQuota.init] at link
    · simp only [QuotaWorld.exec, gjCapQuotaInit, update_of_ne same] at here link
      have known : world.initialised parent = true := sound.closed q here parent link
      show (world.exec (.init account limit)).initialised parent = true
      exact QuotaWorld.exec_initialised known
  acyclic := by
    have same : (world.exec (.init account limit)).links = update world.links account none := by
      funext q
      by_cases here : q = account
      · subst here
        simp [QuotaWorld.links, QuotaWorld.exec, gjCapQuotaInit, CapQuota.init]
      · simp [QuotaWorld.links, QuotaWorld.exec, gjCapQuotaInit, update_of_ne here]
    exact same ▸ sound.acyclic.detach
  within := fun q here => by
    by_cases same : q = account
    · subst same
      simp [QuotaWorld.exec, gjCapQuotaInit, CapQuota.init, BitVec.le_def]
    · simp only [QuotaWorld.exec, gjCapQuotaInit, update_of_ne same] at here ⊢
      exact sound.within q here

theorem QuotaWorld.Sound.exec (sound : world.Sound) (op : QuotaOp Q) (allowed : world.Allows op) :
    (world.exec op).Sound := by
  have within : ∀ q, world.initialised q = true →
      ((world.exec op).table q).used ≤ ((world.exec op).table q).limit :=
    fun q known => (sound.exec_moves allowed known).within (sound.within q known)
  cases op with
  | init account limit => exact sound.init account limit
  | setParent account parent => exact sound.setParent allowed.1 allowed.2
  | slotCharge account =>
    exact sound.of_same_parents
      (gjCapQuotaSlotCharge_parent (sound.chargePath_nodup allowed)) within
  | slotRefund account =>
    exact sound.of_same_parents
      (gjCapQuotaSlotRefund_parent (sound.chargePath_nodup allowed)) within

/-! ### Whole histories -/

theorem QuotaHistory.sound (history : QuotaHistory states) : ∀ world ∈ states, world.Sound := by
  induction history with
  | start table =>
    intro world member
    obtain rfl := mem_singleton.mp member
    refine ⟨fun q known => absurd known Bool.false_ne_true, ?_,
      fun q known => absurd known Bool.false_ne_true⟩
    intro node count positive bound
    cases count with
    | zero => exact absurd positive (Nat.lt_irrefl 0)
    | succ count => simp [climb, QuotaWorld.links]
  | step op history allowed ih =>
    intro world member
    rcases mem_cons.mp member with rfl | before
    · exact (ih _ mem_cons_self).exec op allowed
    · exact ih world before

theorem QuotaHistory.usedHistory_of_uninitialised (history : QuotaHistory states) {account : Q} :
    ∀ newest ∈ states.head?, newest.initialised account = false →
      usedHistory states account = ∅ := by
  induction history with
  | start table =>
    intro newest member fresh
    ext count
    simp [usedHistory]
  | @step world earlier op history allowed ih =>
    intro newest member fresh
    obtain rfl : world.exec op = newest := by simpa using member
    have freshBefore : world.initialised account = false := by
      cases known : world.initialised account with
      | false => rfl
      | true => exact nomatch fresh.symm.trans (QuotaWorld.exec_initialised known)
    ext count
    rw [mem_usedHistory_cons, ih world rfl freshBefore]
    simp [fresh]

/-- The high-water mark is the greatest count the account has shown. -/
theorem QuotaHistory.highWater_isGreatest (history : QuotaHistory states) {account : Q} :
    ∀ newest ∈ states.head?, newest.initialised account = true →
      IsGreatest (usedHistory states account) (newest.table account).highWater.toNat := by
  induction history with
  | start table =>
    intro newest member known
    obtain rfl : ⟨table, fun _ => false⟩ = newest := by simpa using member
    exact absurd known Bool.false_ne_true
  | @step world earlier op history allowed ih =>
    intro newest member known
    obtain rfl : world.exec op = newest := by simpa using member
    cases knownBefore : world.initialised account with
    | false =>
      -- The account was set up by this very operation: its only count is zero.
      have empty := history.usedHistory_of_uninitialised world rfl knownBefore
      have zeroed : ((world.exec op).table account).used = 0 ∧
          ((world.exec op).table account).highWater = 0 := by
        cases op with
        | init other limit =>
          by_cases here : account = other
          · subst here
            simp [QuotaWorld.exec, gjCapQuotaInit, CapQuota.init]
          · simp [QuotaWorld.exec, update_of_ne here, knownBefore] at known
        | setParent | slotCharge | slotRefund =>
          exact absurd known (by simp [QuotaWorld.exec, knownBefore])
      refine ⟨mem_usedHistory_cons.mpr (.inl ⟨known, by rw [zeroed.1, zeroed.2]⟩), ?_⟩
      intro count shown
      rcases mem_usedHistory_cons.mp shown with ⟨-, rfl⟩ | before
      · rw [zeroed.1]
        exact Nat.zero_le _
      · simp [empty] at before
    | true =>
      obtain ⟨reached, upper⟩ := ih world rfl knownBefore
      have current : (world.table account).used.toNat ∈ usedHistory (world :: earlier) account :=
        mem_usedHistory_cons.mpr (.inl ⟨knownBefore, rfl⟩)
      have sound := history.sound world mem_cons_self
      rw [(sound.exec_moves allowed knownBefore).highWater (upper current)]
      refine ⟨mem_usedHistory_cons.mpr ?_, ?_⟩
      · rcases max_choice (world.table account).highWater.toNat
          ((world.exec op).table account).used.toNat with isOld | isNew
        · exact .inr (isOld.symm ▸ reached)
        · exact .inl ⟨known, isNew.symm⟩
      · intro count shown
        rcases mem_usedHistory_cons.mp shown with ⟨-, rfl⟩ | before
        · exact le_max_right _ _
        · exact (upper before).trans (le_max_left _ _)

/-- One charge moves `used` by exactly one at each of the distinct accounts of its path
when it succeeds, and by nothing anywhere when it fails. -/
theorem QuotaWorld.Sound.charge_used (sound : world.Sound)
    (known : world.Knows account) {status : GjStatus} {charged : QuotaTable Q}
    (result : gjCapQuotaSlotCharge world.table account = (status, charged)) (q : Q) :
    (charged q).used.toNat = (world.table q).used.toNat +
      if status = .ok ∧ q ∈ chargePath world.table account then 1 else 0 := by
  by_cases success : status = .ok
  · obtain ⟨room, committed⟩ :=
      gjCapQuotaSlotCharge_ok (sound.chargePath_nodup known) (success ▸ result)
    rw [committed]
    by_cases onPath : q ∈ chargePath world.table account
    · simp [success, onPath, charged_used (room q onPath)]
    · simp [onPath]
  · obtain ⟨-, full, rfl⟩ := gjCapQuotaSlotCharge_fail result success
    simp [success, (update_exhausted_apply world.table full q).2.2.1]

/-- In every state of every history a charge counts once at each of at most
`quotaDepthMax` distinct accounts, no account is above its limit, and the high-water mark
is the greatest count ever shown. -/
theorem quota_limit_never_overrun {earlier : List (QuotaWorld Q)}
    (history : QuotaHistory (world :: earlier)) :
    (∀ account, world.Knows account → (chargePath world.table account).Nodup ∧
      (chargePath world.table account).length ≤ quotaDepthMax ∧
      ∀ status charged, gjCapQuotaSlotCharge world.table account = (status, charged) →
        ∀ q, (charged q).used.toNat = (world.table q).used.toNat +
          if status = .ok ∧ q ∈ chargePath world.table account then 1 else 0) ∧
    (∀ account, world.initialised account = true →
      (world.table account).used ≤ (world.table account).limit) ∧
    ∀ account, world.initialised account = true →
      IsGreatest (usedHistory (world :: earlier) account)
        (world.table account).highWater.toNat := by
  have sound := history.sound world mem_cons_self
  refine ⟨fun account known => ⟨sound.chargePath_nodup known, length_walk_le _ _ _, ?_⟩,
    sound.within, fun account known => history.highWater_isGreatest world rfl known⟩
  intro status charged result
  exact sound.charge_used known result

def twoAccounts : List (QuotaWorld (Fin 2)) :=
  let world0 : QuotaWorld (Fin 2) := ⟨fun _ => CapQuota.init 0, fun _ => false⟩
  let world1 := world0.exec (.init 0 1)
  let world2 := world1.exec (.init 1 1)
  [world2.exec (.setParent (some 0) (some 1)), world2, world1, world0]

def chargedAccounts : QuotaWorld (Fin 2) :=
  (twoAccounts.head (cons_ne_nil _ _)).exec (.slotCharge (some 0))

theorem chargedAccounts_history : QuotaHistory (chargedAccounts :: twoAccounts) := by
  refine .step (.slotCharge (some 0)) (.step (.setParent (some 0) (some 1))
    (.step (.init 1 1) (.step (.init 0 1) (.start _) rfl) rfl) ?_) ?_
  · exact ⟨fun account link => by cases link; rfl, fun account link => by cases link; rfl⟩
  · exact fun account link => by cases link; rfl

theorem quota_limit_never_overrun_twoAccounts : (chargedAccounts.table 1).used = 1 ∧
      IsGreatest (usedHistory (chargedAccounts :: twoAccounts) 1)
        (chargedAccounts.table 1).highWater.toNat :=
  ⟨by decide, (quota_limit_never_overrun chargedAccounts_history).2.2 1 rfl⟩

end GreenJade.Cap

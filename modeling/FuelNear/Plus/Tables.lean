/-
# Plus subscriptions and rewards: the tables and their readers

`user_subscriptions` holds the stored Plus snapshot of a user, at most one
active row per user (the unique index is part of `SubscriptionTable`), and
`rewards` the granted days. `PlusDb` is the database as the reconciliation
sees it. The readers hand out what the referral arithmetic needs: the merged
Apple coverage as a `Coverage`, the counted rewards as a `RewardHistory`.

Key definitions: `UserSubscription`, `Reward`, `PlusDb`, `loadAppleIntervals`,
`loadReferralRewards`, `loadActiveSubscription`, `getActivePlusStatus`.
Key theorems: `loadActiveSubscription_iff`, `getActivePlusStatus_eq`,
`loadActiveAppleSubscription_later`, `referralHistory_grant`.
-/
import FuelNear.Apple.Readers
import FuelNear.Accounts
import FuelNear.Referral
import FuelNear.Text

namespace FuelNear
namespace Plus

open Sql Apple

/-! ### Rows -/

/-- `source` of a subscription: `APPLE_SOURCE`, `REFERRAL_SOURCE`,
`COMBINED_SOURCE`, or any other text. -/
inductive SubscriptionSource where
  | appleSubscription
  | referralReward
  | combined
  | other (text : String)
  deriving DecidableEq

inductive SubscriptionStatus where
  | active
  | expired
  | other (text : String)
  deriving DecidableEq

/-- A row of `user_subscriptions`. -/
structure UserSubscription where
  id : ℤ
  userId : ℤ
  source : SubscriptionSource
  status : SubscriptionStatus
  startsAt : ℤ
  expiresAt : ℤ
  originalTransactionId : Option String
  appleExpiresAt : Option ℤ
  referralExpiresAt : Option ℤ
  deriving DecidableEq

/-- The primary key, and the user of an active row. -/
def UserSubscription.keys (s : UserSubscription) : List (ℤ ⊕ ℤ) :=
  .inl s.id :: if s.status = .active then [.inr s.userId] else []

abbrev SubscriptionTable := Table UserSubscription UserSubscription.keys

/-- `reward_type`, `status` and the rest of a row of `rewards`. -/
inductive RewardType where
  | plusDays
  | other (text : String)
  deriving DecidableEq

inductive RewardStatus where
  | granted
  | other (text : String)
  deriving DecidableEq

structure Reward where
  id : ℤ
  userId : ℤ
  rewardType : RewardType
  rewardValue : String
  status : RewardStatus
  grantedAt : Option ℤ
  deriving DecidableEq

def Reward.keys (r : Reward) : List ℤ := [r.id]

abbrev RewardTable := Table Reward Reward.keys

structure PlusDb where
  accounts : Accounts
  apple : AppleTable
  rewards : RewardTable
  subscriptions : SubscriptionTable

/-! ### Apple coverage -/

/-- The interval of a transaction: from the purchase to the effective expiry,
cut at the revocation. -/
def appleInterval (r : AppleRow) : Option Interval :=
  match r.expiresDate, greatest r.expiresDate r.gracePeriodExpiresDate with
  | some _, some e =>
    let stop := match r.revocationDate with
      | none => e
      | some v => min e v
    if stop > r.purchaseDate then some (r.purchaseDate, stop) else none
  | _, _ => none

theorem appleInterval_proper {r : AppleRow} {i : Interval} (h : appleInterval r = some i) : i.1 < i.2 := by
  unfold appleInterval at h
  split at h
  · dsimp only at h
    split_ifs at h with hlt
    rw [← Option.some.inj h]
    exact hlt
  · exact absurd h (by simp)

/-- The intervals of a user's transactions, before the merge. Their order does
not matter: the merge sorts them. -/
def appleIntervals (t : AppleTable) (userId : ℤ) : List Interval :=
  (t.rows.filter fun r => r.userId = some userId).filterMap appleInterval

/-- `_load_apple_intervals`. -/
def loadAppleIntervals (t : AppleTable) (userId : ℤ) : Coverage :=
  Coverage.ofIntervals (appleIntervals t userId) fun _ hi => by
    obtain ⟨_, _, h⟩ := List.mem_filterMap.mp hi
    exact appleInterval_proper h

/-! ### Rewards -/

/-- The rows of the query: granted plus days of the user. -/
def isGrantedPlusDays (userId : ℤ) (r : Reward) : Bool :=
  r.userId = userId && r.rewardType = .plusDays && r.status = .granted && r.grantedAt.isSome

/-- `ORDER BY granted_at, id`. -/
def grantedBefore (r s : Reward) : Prop :=
  r.grantedAt.getD 0 < s.grantedAt.getD 0 ∨ (r.grantedAt.getD 0 = s.grantedAt.getD 0 ∧ r.id ≤ s.id)

instance : DecidableRel grantedBefore := fun _ _ => instDecidableOr

/-- The turn of the loop of `_load_referral_rewards`: the days are read with
`int`, and count if positive. -/
def countedReward (r : Reward) : Option (ℤ × ℤ) :=
  match r.grantedAt, Text.int? r.rewardValue with
  | some g, some days => if days > 0 then some (g, days) else none
  | _, _ => none

/-- `_load_referral_rewards`. -/
def loadReferralRewards (t : RewardTable) (userId : ℤ) : List (ℤ × ℤ) :=
  ((t.rows.filter (isGrantedPlusDays userId)).insertionSort grantedBefore).filterMap countedReward

theorem countedReward_eq {r : Reward} {p : ℤ × ℤ} (h : countedReward r = some p) :
    r.grantedAt = some p.1 ∧ 0 < p.2 := by
  unfold countedReward at h
  split at h
  next g days hg _ =>
    split_ifs at h with hpos
    rw [← Option.some.inj h]
    exact ⟨hg, hpos⟩
  next => exact absurd h (by simp)

instance : Std.Total grantedBefore := ⟨fun r s => by unfold grantedBefore; omega⟩

instance : IsTrans Reward grantedBefore := ⟨fun r s t => by unfold grantedBefore; omega⟩

/-- The counted rewards, in the order granted. -/
def referralHistory (t : RewardTable) (userId : ℤ) : RewardHistory where
  rewards := loadReferralRewards t userId
  sorted := by
    unfold loadReferralRewards
    rw [List.pairwise_filterMap]
    apply (List.pairwise_insertionSort grantedBefore _).imp
    intro r s hrs p hp q hq
    obtain ⟨hr, -⟩ := countedReward_eq hp
    obtain ⟨hs, -⟩ := countedReward_eq hq
    unfold grantedBefore at hrs
    rw [hr, hs] at hrs
    simp only [Option.getD_some] at hrs
    omega
  positive := fun p hp => by
    obtain ⟨r, -, hr⟩ := List.mem_filterMap.mp hp
    exact (countedReward_eq hr).2

/-- A further granted row is one more reward, wherever it comes in the order. -/
theorem referralHistory_grant {t t' : RewardTable} {r : Reward} {userId : ℤ} {p : ℤ × ℤ}
    (h : t.insert? r = some t') (hr : isGrantedPlusDays userId r = true) (hp : countedReward r = some p) :
    (referralHistory t' userId).rewards.Perm (p :: (referralHistory t userId).rewards) := by
  show (loadReferralRewards t' userId).Perm (p :: loadReferralRewards t userId)
  have hrows : t'.rows.filter (isGrantedPlusDays userId) =
      t.rows.filter (isGrantedPlusDays userId) ++ [r] := by
    rw [Table.insert?_rows h, List.filter_append]
    simp [hr]
  unfold loadReferralRewards
  rw [hrows]
  set rows := t.rows.filter (isGrantedPlusDays userId)
  have hsort : ((rows ++ [r]).insertionSort grantedBefore).Perm (r :: rows.insertionSort grantedBefore) := by
    calc ((rows ++ [r]).insertionSort grantedBefore).Perm (rows ++ [r]) := List.perm_insertionSort _ _
      List.Perm _ (r :: rows) := List.perm_append_singleton r rows
      List.Perm _ (r :: rows.insertionSort grantedBefore) := (List.perm_insertionSort _ rows).symm.cons r
  have hcounted := hsort.filterMap countedReward
  rwa [List.filterMap_cons_some hp] at hcounted

/-! ### The active subscription -/

/-- `_load_active_subscription`. -/
def loadActiveSubscription (t : SubscriptionTable) (userId : ℤ) : Option UserSubscription :=
  top (fun s => toLex (s.expiresAt, s.id)) (t.rows.filter fun s => s.userId = userId && s.status = .active)

/-- `get_active_plus_status` at the instant `now`: the subscription it shows,
none if the user is not Plus. -/
def getActivePlusStatus (t : SubscriptionTable) (userId now : ℤ) : Option UserSubscription :=
  top (fun s => s.expiresAt)
    (t.rows.filter fun s => s.userId = userId && s.status = .active && s.expiresAt > now)

theorem mem_active {t : SubscriptionTable} {userId : ℤ} {s : UserSubscription} :
    s ∈ (t.rows.filter fun s => s.userId = userId && s.status = .active) ↔
      s ∈ t ∧ s.userId = userId ∧ s.status = .active := by
  simp [List.mem_filter, Table.mem_def]

/-- The unique index: a user has one active row. -/
theorem active_unique {t : SubscriptionTable} {s s' : UserSubscription} (hs : s ∈ t) (hs' : s' ∈ t)
    (h : s.status = .active) (h' : s'.status = .active) (hu : s.userId = s'.userId) : s = s' :=
  Table.eq_of_key hs hs' (k := .inr s.userId) (by simp [UserSubscription.keys, h])
    (by simp [UserSubscription.keys, h', hu])

theorem loadActiveSubscription_iff {t : SubscriptionTable} {userId : ℤ} {s : UserSubscription} :
    loadActiveSubscription t userId = some s ↔ s ∈ t ∧ s.userId = userId ∧ s.status = .active := by
  constructor
  · intro h
    exact mem_active.mp (top_mem _ h)
  · intro h
    cases hl : loadActiveSubscription t userId with
    | none =>
      unfold loadActiveSubscription at hl
      rw [top_eq_none_iff] at hl
      exact absurd (hl ▸ mem_active.mpr h) List.not_mem_nil
    | some s' =>
      obtain ⟨h1, h2, h3⟩ := mem_active.mp (top_mem _ hl)
      rw [active_unique h1 h.1 h3 h.2.2 (h2.trans h.2.1.symm)]

theorem loadActiveSubscription_eq_none {t : SubscriptionTable} {userId : ℤ} :
    loadActiveSubscription t userId = none ↔ ∀ s ∈ t, s.userId = userId → s.status ≠ .active := by
  constructor
  · intro h s hs hu ha
    have := loadActiveSubscription_iff.mpr ⟨hs, hu, ha⟩
    rw [h] at this
    exact absurd this (by simp)
  · intro h
    cases hl : loadActiveSubscription t userId with
    | none => rfl
    | some s =>
      obtain ⟨h1, h2, h3⟩ := loadActiveSubscription_iff.mp hl
      exact absurd h3 (h s h1 h2)

/-- The status shown is the active row, while it lasts. -/
theorem getActivePlusStatus_eq (t : SubscriptionTable) (userId now : ℤ) :
    getActivePlusStatus t userId now = (loadActiveSubscription t userId).filter fun s => s.expiresAt > now := by
  cases hg : getActivePlusStatus t userId now with
  | none =>
    unfold getActivePlusStatus at hg
    rw [top_eq_none_iff, List.filter_eq_nil_iff] at hg
    cases hl : loadActiveSubscription t userId with
    | none => rfl
    | some s =>
      obtain ⟨h1, h2, h3⟩ := loadActiveSubscription_iff.mp hl
      have := hg s h1
      simp only [h2, h3, decide_true, Bool.and_self, Bool.true_and] at this
      exact (Option.filter_some_neg (by simpa using this)).symm
  | some s =>
    have hm := top_mem _ hg
    simp only [List.mem_filter, Bool.and_eq_true, decide_eq_true_eq] at hm
    obtain ⟨h1, ⟨h2, h3⟩, h4⟩ := hm
    rw [loadActiveSubscription_iff.mpr ⟨h1, h2, h3⟩, Option.filter_some_pos (by simpa using h4)]

/-! ### The active Apple subscription -/

/-- The end of a row that the query can return. -/
theorem expiresAfter_iff {r : AppleRow} (h : r.expiresDate.isSome) (reference : ℤ) :
    expiresAfter r reference = true ↔ ∃ e, effectiveSubscriptionExpiration r = some e ∧ reference < e := by
  obtain ⟨e, he⟩ := Option.isSome_iff_exists.mp h
  unfold expiresAfter effectiveSubscriptionExpiration
  rw [he]
  cases r.gracePeriodExpiresDate with
  | none => simp
  | some g => simp

/-- The effective expiry decides the order of the query. -/
theorem expirationKey_eq {r : AppleRow} {e : ℤ} (h : effectiveSubscriptionExpiration r = some e) :
    expirationKey r = (e : WithTop ℤ) := by
  unfold effectiveSubscriptionExpiration at h
  unfold expirationKey
  cases he : r.expiresDate with
  | none => rw [he] at h; simp at h
  | some x =>
    cases hg : r.gracePeriodExpiresDate with
    | none => rw [he, hg] at h; simpa [greatest] using congrArg WithTop.some (Option.some.inj h)
    | some g => rw [he, hg] at h; simpa [greatest] using congrArg WithTop.some (Option.some.inj h)

/-- Later on the same row is active until it ends, and none from then on. -/
theorem activeAppleRow_later {t : AppleTable} {userId r t' : ℤ} (hrt : r ≤ t') :
    activeAppleRow t userId t' =
      (activeAppleRow t userId r).filter fun q => (effectiveSubscriptionExpiration q).any (t' < ·) := by
  have hsub : (t.rows.filter fun q => q.userId = some userId && q.revocationDate.isNone &&
      q.expiresDate.isSome && expiresAfter q t') =
      (t.rows.filter fun q => q.userId = some userId && q.revocationDate.isNone &&
        q.expiresDate.isSome && expiresAfter q r).filter fun q =>
          (effectiveSubscriptionExpiration q).any (t' < ·) := by
    rw [List.filter_filter]
    refine List.filter_congr fun q _ => ?_
    by_cases he : q.expiresDate.isSome = true
    · have h1 := expiresAfter_iff he t'
      have h2 := expiresAfter_iff he r
      rw [Bool.eq_iff_iff]
      simp only [Bool.and_eq_true, h1, h2, Option.any_eq_true, decide_eq_true_eq]
      constructor
      · rintro ⟨h3, e, h4, h5⟩
        exact ⟨⟨e, h4, h5⟩, h3, e, h4, by omega⟩
      · rintro ⟨⟨e, h4, h5⟩, h3, -⟩
        exact ⟨h3, e, h4, h5⟩
    · simp [he]
  unfold activeAppleRow
  rw [hsub]
  set rows := t.rows.filter fun q => q.userId = some userId && q.revocationDate.isNone &&
    q.expiresDate.isSome && expiresAfter q r with hrows
  set key := fun q : AppleRow => toLex (expirationKey q, toLex (q.purchaseDate, q.id)) with hkey
  cases htop : top key rows with
  | none =>
    rw [top_eq_none_iff] at htop
    rw [htop]
    rfl
  | some q =>
    by_cases hq : (effectiveSubscriptionExpiration q).any (t' < ·) = true
    · refine (top_filter key htop hq).trans (Option.filter_some_pos ?_).symm
      exact hq
    · -- the row that lasts longest has ended, and so has every other
      refine Eq.trans ?_ (Option.filter_some_neg (Bool.not_eq_true _ ▸ hq)).symm
      rw [top_eq_none_iff, List.filter_eq_nil_iff]
      intro p hp hpt
      have hge := top_ge key htop p hp
      have hexp : ∀ s ∈ rows, ∃ e, effectiveSubscriptionExpiration s = some e := by
        intro s hs
        simp only [hrows, List.mem_filter, Bool.and_eq_true] at hs
        obtain ⟨e, he, -⟩ := (expiresAfter_iff hs.2.1.2 r).mp hs.2.2
        exact ⟨e, he⟩
      obtain ⟨ep, hep⟩ := hexp p hp
      obtain ⟨eq', heq⟩ := hexp q (top_mem key htop)
      have hle : ep ≤ eq' := by
        rw [hkey, Prod.Lex.toLex_le_toLex] at hge
        simp only [expirationKey_eq hep, expirationKey_eq heq, WithTop.coe_lt_coe, WithTop.coe_inj] at hge
        omega
      simp only [hep, Option.any_some, decide_eq_true_eq] at hpt
      simp only [heq, Option.any_some, decide_eq_true_eq] at hq
      omega

/-- An active Apple subscription ends after the reference date. -/
theorem loadActiveAppleSubscription_expires {t : AppleTable} {userId reference : ℤ} {q : AppleRow}
    (h : loadActiveAppleSubscription t userId reference = some q) : ∃ e, q.expiresDate = some e ∧ reference < e := by
  unfold loadActiveAppleSubscription at h
  obtain ⟨p, hp, rfl⟩ := Option.map_eq_some_iff.mp h
  have hs := activeAppleRow_spec hp
  exact (expiresAfter_iff hs.2.2.2.1 reference).mp hs.2.2.2.2

/-- Later on the same subscription is active until it ends. -/
theorem loadActiveAppleSubscription_later {t : AppleTable} {userId r t' : ℤ} (hrt : r ≤ t') :
    loadActiveAppleSubscription t userId t' =
      (loadActiveAppleSubscription t userId r).filter fun q => q.expiresDate.any (t' < ·) := by
  unfold loadActiveAppleSubscription
  rw [activeAppleRow_later hrt, Option.filter_map]
  rfl

end Plus
end FuelNear

/-
# The stored snapshot and a later recomputation

A row stored by a reconciliation at `r` is read for months. Later on, with
the tables as they were and no reward dated after `r`, it still says what a
recomputation would: each component is the one stored until it lapses
(`Later`), the ledger's by `calculateReferralExpiry_later` and the legacy
one because it is read back from the row. So the status shown agrees
(`snapshot_agrees`), and while no component has lapsed there is nothing to
write.

Key definitions: `Later`.
Key theorems: `entitlement_later`, `snapshot_agrees`.
-/
import FuelNear.Apple.Save
import FuelNear.Plus.Reconcile

namespace FuelNear
namespace Plus

open Sql Apple

/-- What is left at `t` of the entitlement `e` of an earlier reconciliation.
A lapsed referral part may be back, but only while the stored expiry, which
is then Apple's, has not passed. -/
structure Later (t : ℤ) (e e' : Entitlement) : Prop where
  apple : e'.apple = e.apple.filter (t < ·)
  originalTransactionId : (∀ a, e.apple = some a → t < a) → e'.originalTransactionId = e.originalTransactionId
  referral : ∀ x, e.referral = some x → t < x → e'.referral = some x
  no_referral : e.referral = none → e'.referral = none
  lapsed : e'.referral.isSome → ∃ x, e.expiresAt = some x ∧ t < x

/-! ### The aggregate -/

theorem Entitlement.held_eq_none {e : Entitlement} : e.held = none ↔ e.apple = none ∧ e.referral = none := by
  unfold Entitlement.held
  cases e.apple <;> cases e.referral <;> simp

/-- The aggregate lies after `t` if and only if a component does. -/
theorem Entitlement.lt_expiresAt {e : Entitlement} {t : ℤ} :
    (∃ x, e.expiresAt = some x ∧ t < x) ↔
      (∃ a, e.apple = some a ∧ t < a) ∨ ∃ f, e.referral = some f ∧ t < f := by
  unfold Entitlement.expiresAt Entitlement.held
  cases e.apple <;> cases e.referral <;> simp

theorem Entitlement.isSome_expiresAt {e : Entitlement} :
    e.expiresAt.isSome ↔ e.apple.isSome ∨ e.referral.isSome := by
  unfold Entitlement.expiresAt Entitlement.held
  cases e.apple <;> cases e.referral <;> simp

/-- The source of a row without a referral part is Apple. -/
theorem Stores.source_of_no_referral {e : Entitlement} {s : UserSubscription} (h : Stores e s)
    (hr : e.referral = none) : s.source = .appleSubscription := by
  have hh := h.held
  unfold Entitlement.held at hh
  rw [hr] at hh
  cases ha : e.apple with
  | none => simp [ha] at hh
  | some a =>
    simp only [ha, Option.some.injEq, Prod.mk.injEq] at hh
    exact hh.1.symm

/-! ### The components later on -/

theorem apple_component (t : AppleTable) (userId reference : ℤ) :
    ((appleSubscription t userId reference none).bind (·.expiresDate)).filter (· > reference) =
      (loadActiveAppleSubscription t userId reference).bind (·.expiresDate) := by
  show ((loadActiveAppleSubscription t userId reference).bind (·.expiresDate)).filter (· > reference) = _
  cases h : loadActiveAppleSubscription t userId reference with
  | none => rfl
  | some q =>
    obtain ⟨x, hx, hlt⟩ := loadActiveAppleSubscription_expires h
    simp only [Option.bind_some, hx]
    exact Option.filter_some_pos (by simpa using hlt)

/-- The legacy branch reads a referral part that has not lapsed from the row. -/
theorem legacyReferralExpiry_stored {s : UserSubscription} {x t : ℤ} (apple : Option AppleRow)
    (intervals : List Interval) (hs : s.referralExpiresAt = some x) (ht : t < x) :
    legacyReferralExpiry (some s) apple intervals t = some x := by
  unfold legacyReferralExpiry
  simp [hs, ht]

/-- What the legacy branch finds comes from a row that has not ended, and it
lies after the reference date. -/
theorem legacyReferralExpiry_some {active : Option UserSubscription} {apple : Option AppleRow} {c : Coverage}
    {t y : ℤ} (h : legacyReferralExpiry active apple c.intervals t = some y) :
    t < y ∧ ∃ s, active = some s ∧ (s.referralExpiresAt = some y ∨
      (t < s.expiresAt ∧ (s.source = .referralReward ∨ s.source = .combined))) := by
  unfold legacyReferralExpiry at h
  cases active with
  | none => simp at h
  | some s =>
    dsimp only at h
    split_ifs at h with h1 h2 h3
    · refine ⟨?_, s, rfl, Or.inl h⟩
      simpa [h] using h1
    · refine ⟨?_, s, rfl, Or.inr ⟨not_le.mp h2, h3⟩⟩
      split at h
      · split_ifs at h
        · exact (projectReferralExpiry_eq_some.mp h).2.lt
        · exact Option.some.inj h ▸ not_le.mp h2
      · exact Option.some.inj h ▸ not_le.mp h2

theorem referralExpiry_of_ledger {db : PlusDb} {userId : ℤ} (reference : ℤ) (apple : Option AppleRow)
    (h : loadReferralRewards db.rewards userId ≠ []) : referralExpiry db userId reference apple =
      calculateReferralExpiry (referralHistory db.rewards userId).rewards
        (loadAppleIntervals db.apple userId).intervals reference := by
  unfold referralExpiry
  rw [if_neg (by simpa using h)]
  rfl

theorem referralExpiry_of_legacy {db : PlusDb} {userId : ℤ} (reference : ℤ) (apple : Option AppleRow)
    (h : loadReferralRewards db.rewards userId = []) : referralExpiry db userId reference apple =
      legacyReferralExpiry (loadActiveSubscription db.subscriptions userId) apple
        (loadAppleIntervals db.apple userId).intervals reference := by
  unfold referralExpiry
  rw [h]
  rfl

/-- The referral part lies after the reference date as it is. -/
theorem referralExpiry_lt {db : PlusDb} {userId reference x : ℤ} {apple : Option AppleRow}
    (h : referralExpiry db userId reference apple = some x) : reference < x := by
  by_cases hl : loadReferralRewards db.rewards userId = []
  · rw [referralExpiry_of_legacy reference apple hl] at h
    exact (legacyReferralExpiry_some h).1
  · rw [referralExpiry_of_ledger reference apple hl, calculateReferralExpiry_eq] at h
    exact (projectReferralExpiry_eq_some.mp h).2.lt

theorem entitlement_referral (db : PlusDb) (userId reference : ℤ) (given : Option AppleRow) :
    (entitlement db userId reference given).referral =
      referralExpiry db userId reference (appleSubscription db.apple userId reference given) := by
  show Option.filter _ _ = _
  cases h : referralExpiry db userId reference (appleSubscription db.apple userId reference given) with
  | none => rfl
  | some x => exact Option.filter_some_pos (by simpa using referralExpiry_lt h)

theorem entitlement_apple (db : PlusDb) (userId reference : ℤ) :
    (entitlement db userId reference none).apple =
      (loadActiveAppleSubscription db.apple userId reference).bind (·.expiresDate) :=
  apple_component db.apple userId reference

theorem entitlement_originalTransactionId (db : PlusDb) (userId reference : ℤ) :
    (entitlement db userId reference none).originalTransactionId =
      (loadActiveAppleSubscription db.apple userId reference).map (·.originalTransactionId) := by
  unfold entitlement
  dsimp only
  rw [apple_component]
  simp only [appleSubscription]
  cases h : loadActiveAppleSubscription db.apple userId reference with
  | none => rfl
  | some q =>
    obtain ⟨x, hx, -⟩ := loadActiveAppleSubscription_expires h
    simp [hx]

/-- The referral part of the ledger, read again. -/
theorem ledger_later {db db' : PlusDb} {userId r t : ℤ} (hrt : r ≤ t) (ha : db'.apple = db.apple)
    (hw : db'.rewards = db.rewards) (hl : loadReferralRewards db.rewards userId ≠ [])
    (hg : ∀ p ∈ loadReferralRewards db.rewards userId, p.1 ≤ r) (q q' : Option AppleRow) :
    referralExpiry db' userId t q' = (referralExpiry db userId r q).filter (t < ·) := by
  rw [referralExpiry_of_ledger t q' (by rwa [hw]), referralExpiry_of_ledger r q hl, ha, hw]
  exact calculateReferralExpiry_later (referralHistory db.rewards userId) _ hrt hg

/-- **The components, read again.** With the tables as a reconciliation at
`r` left them and no reward dated after `r`, what a recomputation at `t`
finds is what is left of the stored components. -/
theorem entitlement_later {db db' : PlusDb} {userId r t : ℤ} (hrt : r ≤ t) (ha : db'.apple = db.apple)
    (hw : db'.rewards = db.rewards) (hg : ∀ p ∈ loadReferralRewards db.rewards userId, p.1 ≤ r)
    (hs : Snapshot (entitlement db userId r none) (loadActiveSubscription db'.subscriptions userId)) :
    Later t (entitlement db userId r none) (entitlement db' userId t none) := by
  set e := entitlement db userId r none with he
  set e' := entitlement db' userId t none with he'
  have hq : loadActiveAppleSubscription db'.apple userId t =
      (loadActiveAppleSubscription db.apple userId r).filter fun q => q.expiresDate.any (t < ·) := by
    rw [ha, loadActiveAppleSubscription_later hrt]
  have happle : e'.apple = e.apple.filter (t < ·) := by
    rw [he, he', entitlement_apple, entitlement_apple, hq]
    cases h : loadActiveAppleSubscription db.apple userId r with
    | none => rfl
    | some q =>
      obtain ⟨x, hx, -⟩ := loadActiveAppleSubscription_expires h
      by_cases htx : t < x <;> simp [Option.filter, hx, htx]
  have horig : (∀ a, e.apple = some a → t < a) → e'.originalTransactionId = e.originalTransactionId := by
    intro hlive
    rw [he, he', entitlement_originalTransactionId, entitlement_originalTransactionId, hq]
    cases h : loadActiveAppleSubscription db.apple userId r with
    | none => rfl
    | some q =>
      obtain ⟨x, hx, -⟩ := loadActiveAppleSubscription_expires h
      have : t < x := hlive x (by rw [he, entitlement_apple, h]; exact hx)
      simp [Option.filter, hx, this]
  have href : e.referral = referralExpiry db userId r (appleSubscription db.apple userId r none) :=
    entitlement_referral db userId r none
  have href' : e'.referral = referralExpiry db' userId t (appleSubscription db'.apple userId t none) :=
    entitlement_referral db' userId t none
  by_cases hl : loadReferralRewards db.rewards userId = []
  · -- the legacy branch reads the row that the reconciliation stored
    rw [referralExpiry_of_legacy t _ (by rwa [hw])] at href'
    cases hact : loadActiveSubscription db'.subscriptions userId with
    | none =>
      rw [hact] at hs href'
      have hnone : e'.referral = none := href'
      refine ⟨happle, horig, fun x hx _ => ?_, fun _ => hnone, fun h => ?_⟩
      · rw [(Entitlement.held_eq_none.mp hs).2] at hx
        simp at hx
      · rw [hnone] at h
        simp at h
    | some s =>
      rw [hact] at hs href'
      have hagg : e.expiresAt = some s.expiresAt := by
        unfold Entitlement.expiresAt
        rw [hs.held]
        rfl
      refine ⟨happle, horig, fun x hx hlt => ?_, fun hnone => ?_, fun h => ?_⟩
      · rw [href']
        exact legacyReferralExpiry_stored _ _ (hs.referral.trans hx) hlt
      · cases h : e'.referral with
        | none => rfl
        | some y =>
          obtain ⟨-, s', hs', hy | ⟨-, hsrc⟩⟩ := legacyReferralExpiry_some (href'.symm.trans h)
          · obtain rfl : s = s' := Option.some.inj hs'
            rw [hs.referral, hnone] at hy
            simp at hy
          · obtain rfl : s = s' := Option.some.inj hs'
            rw [hs.source_of_no_referral hnone] at hsrc
            simp at hsrc
      · obtain ⟨y, hy⟩ := Option.isSome_iff_exists.mp h
        obtain ⟨hlt, s', hs', hst | ⟨hend, -⟩⟩ := legacyReferralExpiry_some (href'.symm.trans hy)
        · obtain rfl : s = s' := Option.some.inj hs'
          exact Entitlement.lt_expiresAt.mpr (Or.inr ⟨y, hs.referral.symm.trans hst, hlt⟩)
        · obtain rfl : s = s' := Option.some.inj hs'
          exact ⟨s.expiresAt, hagg, hend⟩
  · rw [ledger_later hrt ha hw hl hg (appleSubscription db.apple userId r none), ← href] at href'
    refine ⟨happle, horig, fun x hx hlt => ?_, fun hnone => ?_, fun h => ?_⟩
    · rw [href', hx]
      exact Option.filter_some_pos (by simpa using hlt)
    · rw [href', hnone]
      rfl
    · obtain ⟨y, hy⟩ := Option.isSome_iff_exists.mp h
      rw [href', Option.filter_eq_some_iff] at hy
      exact Entitlement.lt_expiresAt.mpr (Or.inr ⟨y, hy.1, by simpa using hy.2⟩)

/-- An entitlement none of whose components has lapsed is still the same. -/
theorem Later.eq {t : ℤ} {e e' : Entitlement} (h : Later t e e') (happle : ∀ a, e.apple = some a → t < a)
    (hreferral : ∀ f, e.referral = some f → t < f) : e' = e := by
  have h1 : e'.apple = e.apple := by
    rw [h.apple]
    cases ha : e.apple with
    | none => rfl
    | some a => exact Option.filter_some_pos (by simpa using happle a ha)
  have h2 : e'.referral = e.referral := by
    cases hf : e.referral with
    | none => exact h.no_referral hf
    | some f => exact h.referral f hf (hreferral f hf)
  have h3 := h.originalTransactionId happle
  cases e
  cases e'
  simp_all

/-- Something is active at `t` exactly if the aggregate lies after `t`. -/
theorem Later.isSome_iff {t : ℤ} {e e' : Entitlement} (h : Later t e e') :
    e'.expiresAt.isSome ↔ ∃ x, e.expiresAt = some x ∧ t < x := by
  rw [Entitlement.isSome_expiresAt]
  constructor
  · rintro (ha | hf)
    · obtain ⟨a, ha⟩ := Option.isSome_iff_exists.mp ha
      rw [h.apple, Option.filter_eq_some_iff] at ha
      exact Entitlement.lt_expiresAt.mpr (Or.inl ⟨a, ha.1, by simpa using ha.2⟩)
    · exact h.lapsed hf
  · intro hx
    rcases Entitlement.lt_expiresAt.mp hx with ⟨a, ha, hlt⟩ | ⟨f, hf, hlt⟩
    · left
      rw [h.apple, ha, Option.filter_some_pos (by simpa using hlt)]
      rfl
    · right
      rw [h.referral f hf hlt]
      rfl

/-- The status shown at `t` is Plus exactly if the aggregate lies after `t`. -/
theorem Snapshot.status {e : Entitlement} {t : SubscriptionTable} {userId now : ℤ}
    (h : Snapshot e (loadActiveSubscription t userId)) :
    (getActivePlusStatus t userId now).isSome ↔ ∃ x, e.expiresAt = some x ∧ now < x := by
  rw [getActivePlusStatus_eq]
  unfold Entitlement.expiresAt
  cases hl : loadActiveSubscription t userId with
  | none =>
    rw [hl] at h
    have : e.held = none := h
    simp [this]
  | some s =>
    rw [hl] at h
    rw [h.held]
    by_cases hlt : now < s.expiresAt <;> simp [Option.filter, hlt]

/-- The component expiries that the active row of a user stores. -/
def storedAppleExpiry (t : SubscriptionTable) (userId : ℤ) : Option ℤ :=
  (loadActiveSubscription t userId).bind (·.appleExpiresAt)

def storedReferralExpiry (t : SubscriptionTable) (userId : ℤ) : Option ℤ :=
  (loadActiveSubscription t userId).bind (·.referralExpiresAt)

theorem Snapshot.stored {e : Entitlement} {t : SubscriptionTable} {userId : ℤ}
    (h : Snapshot e (loadActiveSubscription t userId)) :
    storedAppleExpiry t userId = e.apple ∧ storedReferralExpiry t userId = e.referral := by
  unfold storedAppleExpiry storedReferralExpiry
  cases hl : loadActiveSubscription t userId with
  | none =>
    rw [hl] at h
    obtain ⟨h1, h2⟩ := Entitlement.held_eq_none.mp h
    exact ⟨h1.symm, h2.symm⟩
  | some s =>
    rw [hl] at h
    exact ⟨h.apple, h.referral⟩

/-- **The stored snapshot equals a recomputation.** After a reconciliation at
`r`, with no table changed since and no reward dated after `r`, a
reconciliation at `t ≥ r` completes, and: the status shown at `t` is Plus
exactly if it finds Plus; it finds each stored component that has not lapsed
at the same instant; and if none has lapsed it writes nothing. -/
theorem snapshot_agrees {db db' : PlusDb} {userId r t : ℤ} {out : PlusEntitlementComponents}
    (h : reconcileUserPlusEntitlement userId r none false db = .ok (out, db')) (hrt : r ≤ t)
    (hg : ∀ p ∈ loadReferralRewards db.rewards userId, p.1 ≤ r) :
    ∃ again db'', reconcileUserPlusEntitlement userId t none false db' = .ok (again, db'') ∧
      ((getActivePlusStatus db'.subscriptions userId t).isSome ↔ again.isPlus = true) ∧
      (∀ x, storedAppleExpiry db'.subscriptions userId = some x → t < x → again.appleExpiresAt = some x) ∧
      (∀ x, storedReferralExpiry db'.subscriptions userId = some x → t < x → again.referralExpiresAt = some x) ∧
      ((∀ x, storedAppleExpiry db'.subscriptions userId = some x → t < x) →
        (∀ x, storedReferralExpiry db'.subscriptions userId = some x → t < x) →
        again.changed = false ∧ db'' = db') := by
  have hr := reconcile_ok h
  obtain ⟨hpos, hu⟩ := reconcile_user h
  obtain ⟨again, db'', h'⟩ := reconcile_completes t none false hpos (by rwa [hr.accounts])
  have hr' := reconcile_ok h'
  have hlater := entitlement_later hrt hr.apple hr.rewards hg hr.snapshot
  obtain ⟨hsa, hsf⟩ := hr.snapshot.stored
  refine ⟨again, db'', h', ?_, fun x hx hlt => ?_, fun x hx hlt => ?_, fun hna hnf => ?_⟩
  · rw [hr.snapshot.status, ← hlater.isSome_iff, hr'.answer]
    rfl
  · rw [hr'.answer]
    show (entitlement db' userId t none).apple = some x
    rw [hlater.apple, ← hsa, hx, Option.filter_some_pos (by simpa using hlt)]
  · rw [hr'.answer]
    show (entitlement db' userId t none).referral = some x
    exact hlater.referral x (hsf ▸ hx) hlt
  · have he := hlater.eq (hsa ▸ hna) (hsf ▸ hnf)
    have hc : again.changed = false := hr'.changed.mpr (by rw [he]; exact hr.snapshot)
    exact ⟨hc, hr'.unchanged hc⟩

/-- The user 1 was granted seven days at the instant 0 and bought Apple
coverage until 100. -/
def sampleDb : PlusDb where
  accounts := sampleAccounts
  apple := sampleTable
  rewards := ⟨[⟨1, 1, .plusDays, "7", .granted, some 0⟩], by decide⟩
  subscriptions := .empty

/-- Read again at 50, the snapshot stored at 10 is unchanged. -/
theorem snapshot_agrees_sample : ∃ out db' again db'',
    reconcileUserPlusEntitlement 1 10 none false sampleDb = .ok (out, db') ∧
    reconcileUserPlusEntitlement 1 50 none false db' = .ok (again, db'') ∧
    ((getActivePlusStatus db'.subscriptions 1 50).isSome ↔ again.isPlus = true) := by
  have hu : (sampleDb.accounts.user? 1).isSome := by decide +kernel
  obtain ⟨out, db', h⟩ := reconcile_completes 10 none false one_pos hu
  obtain ⟨again, db'', h', hs, -⟩ := snapshot_agrees (t := 50) h (by decide) (by decide +kernel)
  exact ⟨out, db', again, db'', h, h', hs⟩

end Plus
end FuelNear

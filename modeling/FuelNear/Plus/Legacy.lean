/-
# Lapsed legacy referral time

A user without rewards keeps legacy referral time in the subscription row
only. Once the stored `referral_expires_at` has passed it should be gone.
`_legacy_referral_expiry` then goes on to the aggregate `expires_at` and the
label `source`: under a referral label an aggregate that lasts, which an
Apple renewal brings about, is taken for referral time. A reconciliation
that finds lapsed time drops it exactly if the label or the aggregate says
so (`lapsed_inactive_iff`); once dropped it stays away, in every run of
reconciliations and saves (`lapsed_stays_lapsed_iff`).

Key definitions: `PlusCall`, `step`, `Lapsed`, `NeverResurrected`,
`NoReferralTime`.
Key theorems: `lapsed_inactive_iff`, `lapsed_stays_lapsed_iff`.
-/
import FuelNear.Plus.Snapshot

namespace FuelNear
namespace Plus

open Sql Apple

/-! ### Reconciliations and saves -/

/-- A reconciliation of the user, or a save of any Apple transaction. -/
inductive PlusCall where
  | reconcile (reference : ℤ) (given : Option AppleRow) (userLocked : Bool)
  | save (call : SaveCall)

inductive PlusAnswer where
  | reconciled (components : PlusEntitlementComponents)
  | saved (result : AppleTransactionSaveResult)

inductive PlusError where
  | reconcile (error : ReconcileError)
  | save (error : RepositoryError)

/-- One call on the database. -/
def step (userId : ℤ) : PlusCall → PlusDb → Except PlusError (PlusAnswer × PlusDb)
  | .reconcile reference given userLocked, db =>
    match reconcileUserPlusEntitlement userId reference given userLocked db with
    | .ok (out, db') => .ok (.reconciled out, db')
    | .error e => .error (.reconcile e)
  | .save call, db =>
    match saveAppleTransaction call db.apple with
    | .ok (out, apple) => .ok (.saved out, { db with apple })
    | .error e => .error (.save e)

abbrev PlusEvent := Event PlusDb PlusCall PlusAnswer

theorem step_reconcile {userId reference : ℤ} {given : Option AppleRow} {userLocked : Bool} {db db' : PlusDb}
    {out : PlusAnswer} (h : step userId (.reconcile reference given userLocked) db = .ok (out, db')) :
    ∃ c, out = .reconciled c ∧ reconcileUserPlusEntitlement userId reference given userLocked db = .ok (c, db') := by
  rw [step] at h
  cases hc : reconcileUserPlusEntitlement userId reference given userLocked db with
  | error e => rw [hc] at h; simp at h
  | ok x =>
    rw [hc] at h
    obtain ⟨rfl, rfl⟩ := Prod.mk.inj (Except.ok.inj h)
    exact ⟨x.1, rfl, rfl⟩

/-- A save leaves the other tables. -/
theorem step_save {userId : ℤ} {call : SaveCall} {db db' : PlusDb} {out : PlusAnswer}
    (h : step userId (.save call) db = .ok (out, db')) :
    (∃ r, out = .saved r) ∧ db'.subscriptions = db.subscriptions ∧ db'.rewards = db.rewards := by
  rw [step] at h
  cases hr : saveAppleTransaction call db.apple with
  | error e => rw [hr] at h; simp at h
  | ok x =>
    rw [hr] at h
    obtain ⟨rfl, rfl⟩ := Prod.mk.inj (Except.ok.inj h)
    exact ⟨⟨x.1, rfl⟩, rfl, rfl⟩

/-! ### The property -/

/-- The reference date of a reconciliation. -/
def PlusCall.reference : PlusCall → Option ℤ
  | .reconcile reference _ _ => some reference
  | .save _ => none

/-- A reconciliation finds a stored `referral_expires_at` that has passed. -/
def Lapsed (userId : ℤ) (e : PlusEvent) : Prop :=
  ∃ r ∈ e.call.reference, ∃ x ∈ storedReferralExpiry e.before.subscriptions userId, x ≤ r

/-- The answer, if it is one of a reconciliation, reports no active referral time. -/
def ReportsInactive : PlusAnswer → Prop
  | .reconciled c => c.referralActive = false
  | .saved _ => True

/-- A reconciliation that finds lapsed referral time, and every later one,
reports it inactive. -/
def NeverResurrected (userId : ℤ) (l : List PlusEvent) : Prop :=
  (∀ e ∈ l, Lapsed userId e → ReportsInactive e.answer) ∧
    l.Pairwise fun e e' => Lapsed userId e → ReportsInactive e'.answer

/-- The active row has no referral label, or its aggregate has ended. -/
def NoReferralTime (userId : ℤ) (e : PlusEvent) : Prop :=
  ∀ r ∈ e.call.reference, ∀ s ∈ loadActiveSubscription e.before.subscriptions userId,
    (s.source ≠ .referralReward ∧ s.source ≠ .combined) ∨ s.expiresAt ≤ r

instance (userId : ℤ) (e : PlusEvent) : Decidable (Lapsed userId e) :=
  inferInstanceAs (Decidable (∃ r ∈ e.call.reference, ∃ x ∈ storedReferralExpiry _ userId, x ≤ r))

instance : DecidablePred ReportsInactive
  | .reconciled c => inferInstanceAs (Decidable (c.referralActive = false))
  | .saved _ => .isTrue trivial

instance (userId : ℤ) (l : List PlusEvent) : Decidable (NeverResurrected userId l) :=
  inferInstanceAs (Decidable (_ ∧ _))

instance (userId : ℤ) (e : PlusEvent) : Decidable (NoReferralTime userId e) :=
  inferInstanceAs (Decidable (∀ r ∈ e.call.reference, ∀ s ∈ loadActiveSubscription _ userId, _ ∨ s.expiresAt ≤ r))

/-! ### One reconciliation -/

/-- What the legacy branch makes of a lapsed referral part. -/
theorem legacyReferralExpiry_lapsed {s : UserSubscription} {x reference : ℤ} (apple : Option AppleRow)
    (intervals : List Interval) (hs : s.referralExpiresAt = some x) (hx : x ≤ reference) :
    legacyReferralExpiry (some s) apple intervals reference = none ↔
      (s.source ≠ .referralReward ∧ s.source ≠ .combined) ∨ s.expiresAt ≤ reference := by
  have hany : s.referralExpiresAt.any (· > reference) = false := by simp [hs, hx]
  unfold legacyReferralExpiry
  simp only [hany, Bool.false_eq_true, if_false]
  by_cases hend : s.expiresAt ≤ reference
  · simp [hend]
  · by_cases hsrc : s.source = .referralReward ∨ s.source = .combined
    · rw [if_neg hend, if_pos hsrc]
      have hcond : ¬ ((s.source ≠ .referralReward ∧ s.source ≠ .combined) ∨ s.expiresAt ≤ reference) := by tauto
      refine ⟨fun h => absurd h ?_, fun h => absurd h hcond⟩
      split
      · split_ifs
        · rw [projectReferralExpiry_eq_none]
          omega
        · simp
      · simp
    · rw [if_neg hend, if_neg hsrc]
      tauto

/-- The user has no rewards, and the active row has no referral part. -/
def Dropped (userId : ℤ) (db : PlusDb) : Prop :=
  loadReferralRewards db.rewards userId = [] ∧
    ∀ s ∈ loadActiveSubscription db.subscriptions userId,
      s.source = .appleSubscription ∧ s.referralExpiresAt = none

/-- With no referral part in the row none is found. -/
theorem Dropped.referral {userId : ℤ} {db : PlusDb} (h : Dropped userId db) (reference : ℤ)
    (given : Option AppleRow) : (entitlement db userId reference given).referral = none := by
  obtain ⟨hl, hrow⟩ := h
  rw [entitlement_referral, referralExpiry_of_legacy reference _ hl]
  unfold legacyReferralExpiry
  cases hact : loadActiveSubscription db.subscriptions userId with
  | none => rfl
  | some s =>
    obtain ⟨h1, h2⟩ := hrow s hact
    simp [h1, h2]

/-- A reconciliation that finds no referral part leaves none in the row. -/
theorem Reconciled.dropped {userId : ℤ} {e : Entitlement} {db db' : PlusDb} {out : PlusEntitlementComponents}
    (h : Reconciled userId e db out db') (hl : loadReferralRewards db.rewards userId = [])
    (he : e.referral = none) : Dropped userId db' := by
  refine ⟨by rw [h.rewards]; exact hl, fun s hs => ?_⟩
  have hsnap := h.snapshot
  rw [Option.mem_def.mp hs] at hsnap
  exact ⟨hsnap.source_of_no_referral he, hsnap.referral.trans he⟩

theorem Reconciled.referralActive {userId : ℤ} {e : Entitlement} {db db' : PlusDb}
    {out : PlusEntitlementComponents} (h : Reconciled userId e db out db') :
    out.referralActive = e.referral.isSome := by
  rw [h.answer]
  rfl

/-! ### Runs -/

/-- Every call keeps the rewards. -/
theorem step_rewards {userId : ℤ} {call : PlusCall} {db db' : PlusDb} {out : PlusAnswer}
    (h : step userId call db = .ok (out, db')) : db'.rewards = db.rewards := by
  cases call with
  | reconcile reference given userLocked =>
    obtain ⟨c, -, hc⟩ := step_reconcile h
    exact (reconcile_ok hc).rewards
  | save call => exact (step_save h).2.2

/-- Dropped referral time stays away, and no call reports it. -/
theorem Dropped.step {userId : ℤ} {call : PlusCall} {db db' : PlusDb} {out : PlusAnswer}
    (hd : Dropped userId db) (h : step userId call db = .ok (out, db')) :
    Dropped userId db' ∧ ReportsInactive out := by
  cases call with
  | reconcile reference given userLocked =>
    obtain ⟨c, rfl, hc⟩ := step_reconcile h
    have hr := reconcile_ok hc
    have he := hd.referral reference given
    refine ⟨hr.dropped hd.1 he, ?_⟩
    show c.referralActive = false
    rw [hr.referralActive, he]
    rfl
  | save call =>
    obtain ⟨⟨r, rfl⟩, hs, hw⟩ := step_save h
    exact ⟨⟨by rw [hw]; exact hd.1, by rw [hs]; exact hd.2⟩, trivial⟩

/-- A reconciliation that finds lapsed referral time reports it inactive
exactly if the row has no referral label or has ended, and then the row
holds none afterwards. -/
theorem lapsed_inactive_iff {userId : ℤ} {e : PlusEvent} {db' : PlusDb}
    (hl : loadReferralRewards e.before.rewards userId = [])
    (h : step userId e.call e.before = .ok (e.answer, db')) (hlapsed : Lapsed userId e) :
    (ReportsInactive e.answer ↔ NoReferralTime userId e) ∧ (ReportsInactive e.answer → Dropped userId db') := by
  obtain ⟨db, call, answer⟩ := e
  dsimp only at hl h ⊢
  obtain ⟨r, hr, x, hx, hxr⟩ := hlapsed
  cases call with
  | save call => simp [PlusCall.reference] at hr
  | reconcile reference given userLocked =>
    obtain rfl : reference = r := by simpa [PlusCall.reference] using hr
    obtain ⟨s, hs, hsx⟩ := Option.bind_eq_some_iff.mp (Option.mem_def.mp hx)
    obtain ⟨c, rfl, hc⟩ := step_reconcile h
    have hrec := reconcile_ok hc
    have he : (entitlement db userId reference given).referral = none ↔
        (s.source ≠ .referralReward ∧ s.source ≠ .combined) ∨ s.expiresAt ≤ reference := by
      rw [entitlement_referral, referralExpiry_of_legacy reference _ hl, hs]
      exact legacyReferralExpiry_lapsed _ _ hsx hxr
    have hout : ReportsInactive (.reconciled c) ↔ (entitlement db userId reference given).referral = none := by
      show c.referralActive = false ↔ _
      rw [hrec.referralActive, Option.isSome_eq_false_iff, Option.isNone_iff_eq_none]
    refine ⟨?_, fun hi => hrec.dropped hl (hout.mp hi)⟩
    rw [hout, he]
    unfold NoReferralTime
    simp [PlusCall.reference, hs]

/-- **Lapsed legacy referral time.** In a run of reconciliations and saves
for a user without rewards, lapsed referral time is never reported again if
and only if every reconciliation that finds it lapsed finds no referral label
on the row, or its aggregate ended too. -/
theorem lapsed_stays_lapsed_iff {userId : ℤ} {db : PlusDb} (hl : loadReferralRewards db.rewards userId = [])
    (calls : List PlusCall) : NeverResurrected userId (trace (step userId) db calls) ↔
      ∀ e ∈ trace (step userId) db calls, Lapsed userId e → NoReferralTime userId e := by
  have hspec : ∀ e ∈ trace (step userId) db calls, loadReferralRewards e.before.rewards userId = [] ∧
      ∃ t, step userId e.call e.before = .ok (e.answer, t) := by
    apply trace_spec (P := fun x : PlusDb => loadReferralRewards x.rewards userId = [])
    · intro a x out y hx hop
      rw [step_rewards hop]
      exact hx
    · exact hl
  constructor
  · rintro ⟨hnow, -⟩ e he hlapsed
    obtain ⟨hle, t, ht⟩ := hspec e he
    exact (lapsed_inactive_iff hle ht hlapsed).1.mp (hnow e he hlapsed)
  · intro h
    have hnow : ∀ e ∈ trace (step userId) db calls, Lapsed userId e → ReportsInactive e.answer := by
      intro e he hlapsed
      obtain ⟨hle, t, ht⟩ := hspec e he
      exact (lapsed_inactive_iff hle ht hlapsed).1.mpr (h e he hlapsed)
    refine ⟨hnow, ?_⟩
    apply trace_from (Q := Dropped userId)
    · intro a x out y hx hop
      exact (hx.step hop).1
    · intro a x out y hx hop
      exact (hx.step hop).2
    · intro e he hlapsed t ht
      exact (lapsed_inactive_iff (hspec e he).1 ht hlapsed).2 (hnow e he hlapsed)

/-- The user 1 with a row from before the ledger: referral time until 200. -/
def legacyDb : PlusDb where
  accounts := sampleAccounts
  apple := .empty
  rewards := .empty
  subscriptions := ⟨[⟨1, 1, .referralReward, .active, 0, 200, none, none, none⟩], by decide⟩

def sampleReconcile (reference : ℤ) : PlusCall := .reconcile reference none false

/-- An Apple purchase that lasts until 1000. -/
def longPurchase : PlusCall := .save (sampleAccounts, { samplePurchase with expiresDate := some 1000 })

/-- Without Apple coverage the row ends with the referral time. -/
theorem lapsed_stays_lapsed_sample : NeverResurrected 1 (trace (step 1) legacyDb
    [sampleReconcile 1, sampleReconcile 300, longPurchase, sampleReconcile 400]) :=
  (lapsed_stays_lapsed_iff (by decide) _).mpr (by decide +kernel)

/-- A purchase moves the aggregate to 1000 while the referral part is still
to lapse at 200. At 300 the 700 that are left of the Apple time are taken for
referral time. -/
theorem lapsed_referral_resurrected :
    loadReferralRewards legacyDb.rewards 1 = [] ∧
      ([sampleReconcile 1, longPurchase, sampleReconcile 150, sampleReconcile 300].filterMap
        PlusCall.reference).Pairwise (· ≤ ·) ∧
      ¬ NeverResurrected 1 (trace (step 1) legacyDb
        [sampleReconcile 1, longPurchase, sampleReconcile 150, sampleReconcile 300]) := by
  decide +kernel

end Plus
end FuelNear

/-
# The entitlement of a user who is given transactions

A user keeps the dates of all transactions and may be given more (`Gains`).
Nothing of the entitlement is lost: the Apple part ends no earlier, more is
covered, so a referral balance lasts longer, and the legacy branch finds at
least what it found.

Key definitions: `SameDates`, `Gains`.
Key theorems: `covered_gains`, `referralExpiry_gains`, `entitlement_gains`.
-/
import FuelNear.Plus.Grant

namespace FuelNear
namespace Plus

open Sql Apple Meter

/-- The two rows have the same dates. -/
structure SameDates (r q : AppleRow) : Prop where
  purchaseDate : q.purchaseDate = r.purchaseDate
  expiresDate : q.expiresDate = r.expiresDate
  gracePeriodExpiresDate : q.gracePeriodExpiresDate = r.gracePeriodExpiresDate
  revocationDate : q.revocationDate = r.revocationDate

theorem SameDates.refl (r : AppleRow) : SameDates r r := ⟨rfl, rfl, rfl, rfl⟩

theorem SameDates.effective {r q : AppleRow} (h : SameDates r q) :
    effectiveSubscriptionExpiration q = effectiveSubscriptionExpiration r := by
  unfold effectiveSubscriptionExpiration
  rw [h.expiresDate, h.gracePeriodExpiresDate]

theorem SameDates.appleInterval {r q : AppleRow} (h : SameDates r q) : appleInterval q = appleInterval r := by
  unfold Plus.appleInterval
  rw [h.expiresDate, h.gracePeriodExpiresDate, h.revocationDate, h.purchaseDate]

/-- Every row of the user is there with its dates, and there may be more. -/
def Gains (userId : ℤ) (t t' : AppleTable) : Prop :=
  ∀ r ∈ t, r.userId = some userId → ∃ q ∈ t', q.userId = some userId ∧ SameDates r q

section

variable {userId reference : ℤ}

/-- What was covered is covered. -/
theorem covered_gains {t t' : AppleTable} (h : Gains userId t t') (x : ℤ)
    (hx : (loadAppleIntervals t userId).covered x) : (loadAppleIntervals t' userId).covered x := by
  unfold loadAppleIntervals at hx ⊢
  rw [Coverage.ofIntervals_covered] at hx ⊢
  obtain ⟨i, hi, hcovered⟩ := hx
  obtain ⟨r, hr, hir⟩ := List.mem_filterMap.mp hi
  rw [List.mem_filter, decide_eq_true_eq] at hr
  obtain ⟨q, hq, huser, hdates⟩ := h r hr.1 hr.2
  refine ⟨i, List.mem_filterMap.mpr ⟨q, ?_, hdates.appleInterval.trans hir⟩, hcovered⟩
  rw [List.mem_filter, decide_eq_true_eq]
  exact ⟨hq, huser⟩

/-- The legacy branch finds no less under a later Apple part and more coverage. -/
theorem legacyReferralExpiry_gains {active : Option UserSubscription} {apple apple' : Option AppleRow}
    {c d : Coverage} (hcd : ∀ t, c.covered t → d.covered t)
    (happle : Extends (apple.bind (·.expiresDate)) (apple'.bind (·.expiresDate))) :
    Extends (legacyReferralExpiry active apple c.intervals reference)
      (legacyReferralExpiry active apple' d.intervals reference) := by
  intro x hx
  unfold legacyReferralExpiry at hx ⊢
  cases active with
  | none => exact absurd hx (by simp)
  | some s =>
    dsimp only at hx ⊢
    split_ifs at hx ⊢ with hstored hended hsource
    · exact ⟨x, hx, le_rfl⟩
    · -- what is left of the stored aggregate, projected or as it is
      have hleft : 0 < s.expiresAt - reference := by omega
      have hproject : ∀ {b}, s.expiresAt - reference ≤ b → ∀ y, projectReferralExpiry reference b d.intervals = some y →
          s.expiresAt ≤ y := by
        intro b hb y hy
        obtain ⟨hpos, hrun⟩ := projectReferralExpiry_eq_some.mp hy
        have := hrun.le hpos
        omega
      have hsome : ∃ y, projectReferralExpiry reference (s.expiresAt - reference) d.intervals = some y := by
        rw [← Option.ne_none_iff_exists', Ne, projectReferralExpiry_eq_none]
        omega
      cases he : apple.bind (·.expiresDate) with
      | none =>
        rw [he] at hx
        obtain rfl : s.expiresAt = x := Option.some.inj hx
        cases he' : apple'.bind (·.expiresDate) with
        | none => exact ⟨_, rfl, le_rfl⟩
        | some e' =>
          dsimp only
          split_ifs
          · obtain ⟨y, hy⟩ := hsome
            exact ⟨y, hy, hproject le_rfl y hy⟩
          · exact ⟨_, rfl, le_rfl⟩
      | some e =>
        obtain ⟨e', he', hle⟩ := happle e he
        rw [he] at hx
        rw [he']
        dsimp only at hx ⊢
        by_cases hbefore : s.expiresAt ≤ e
        · rw [if_pos hbefore] at hx
          rw [if_pos (hbefore.trans hle)]
          exact projectReferralExpiry_cover hcd le_rfl hx
        · rw [if_neg hbefore] at hx
          obtain rfl : s.expiresAt = x := Option.some.inj hx
          split_ifs
          · obtain ⟨y, hy⟩ := hsome
            exact ⟨y, hy, hproject le_rfl y hy⟩
          · exact ⟨_, rfl, le_rfl⟩

/-- The referral part ends no earlier. -/
theorem referralExpiry_gains {db db' : PlusDb} {apple apple' : Option AppleRow} (h : Gains userId db.apple db'.apple)
    (hrewards : db'.rewards = db.rewards) (hsubscriptions : db'.subscriptions = db.subscriptions)
    (happle : Extends (apple.bind (·.expiresDate)) (apple'.bind (·.expiresDate))) :
    Extends (referralExpiry db userId reference apple) (referralExpiry db' userId reference apple') := by
  by_cases hl : loadReferralRewards db.rewards userId = []
  · rw [referralExpiry_of_legacy reference apple hl, referralExpiry_of_legacy reference apple' (hrewards ▸ hl),
      hsubscriptions]
    exact legacyReferralExpiry_gains (covered_gains h) happle
  · rw [referralExpiry_of_ledger reference apple hl, referralExpiry_of_ledger reference apple' (hrewards ▸ hl),
      hrewards]
    exact fun x hx => calculateReferralExpiry_cover _ (covered_gains h) hx

/-- An entitlement both of whose parts are kept is kept. -/
theorem extends_of_parts {e e' : Entitlement} (happle : Extends e.apple e'.apple)
    (hreferral : Extends e.referral e'.referral) : Extends e.expiresAt e'.expiresAt := by
  intro x hx
  unfold Entitlement.expiresAt Entitlement.held at hx ⊢
  cases ha : e.apple with
  | none =>
    cases hf : e.referral with
    | none =>
      rw [ha, hf] at hx
      exact absurd hx (by simp)
    | some f =>
      obtain ⟨f', hf', hle⟩ := hreferral f hf
      rw [ha, hf] at hx
      obtain rfl : f = x := by simpa using hx
      rw [hf']
      cases e'.apple with
      | none => exact ⟨f', rfl, hle⟩
      | some a' => exact ⟨max a' f', rfl, hle.trans (le_max_right _ _)⟩
  | some a =>
    obtain ⟨a', ha', hle⟩ := happle a ha
    rw [ha'] at ⊢
    cases hf : e.referral with
    | none =>
      rw [ha, hf] at hx
      obtain rfl : a = x := by simpa using hx
      cases e'.referral with
      | none => exact ⟨a', rfl, hle⟩
      | some f' => exact ⟨max a' f', rfl, hle.trans (le_max_left _ _)⟩
    | some f =>
      obtain ⟨f', hf', hle'⟩ := hreferral f hf
      rw [ha, hf] at hx
      obtain rfl : max a f = x := by simpa using hx
      rw [hf']
      exact ⟨max a' f', rfl, max_le_max hle hle'⟩

/-- **A user who is given transactions keeps the entitlement.** `given` and
`given'` are the Apple subscriptions that the callers hand in. -/
theorem entitlement_gains {db db' : PlusDb} {given given' : Option AppleRow} (h : Gains userId db.apple db'.apple)
    (hrewards : db'.rewards = db.rewards) (hsubscriptions : db'.subscriptions = db.subscriptions)
    (happle : Extends ((appleSubscription db.apple userId reference given).bind (·.expiresDate))
      ((appleSubscription db'.apple userId reference given').bind (·.expiresDate))) :
    Extends (entitlement db userId reference given).expiresAt (entitlement db' userId reference given').expiresAt := by
  apply extends_of_parts
  · intro x hx
    obtain ⟨hsome, hlt⟩ := Option.filter_eq_some_iff.mp hx
    obtain ⟨y, hy, hle⟩ := happle x hsome
    refine ⟨y, Option.filter_eq_some_iff.mpr ⟨hy, ?_⟩, hle⟩
    rw [decide_eq_true_eq] at hlt ⊢
    omega
  · rw [entitlement_referral, entitlement_referral]
    exact referralExpiry_gains h hrewards hsubscriptions happle

end

end Plus
end FuelNear

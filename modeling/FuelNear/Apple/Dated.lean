/-
# Rows without an expiry

The two queries that look for the active Apple subscription of a user differ
in one thing. To `get_active_subscription_for_user` an unrevoked row without
`expires_date` is active for ever, and comes first;
`_load_active_apple_subscription` leaves it out. Where no unrevoked row of
the user lacks its expiry (`Dated`) they select the same row, with the same
effective expiry; and a row that lacks it is always the one that the first
query selects.

Key definitions: `RowDated`, `Dated`.
Key theorems: `getActiveSubscriptionForUser_eq`,
`loadActiveAppleSubscription_eq`, `dated_of_active`.
-/
import FuelNear.Apple.Readers

namespace FuelNear
namespace Apple

open Sql

/-- The row is revoked or has its expiry. -/
def RowDated (r : AppleRow) : Prop := r.revocationDate = none → r.expiresDate.isSome

/-- No unrevoked row of the user lacks its expiry. -/
def Dated (t : AppleTable) (userId : ℤ) : Prop := ∀ r ∈ t, r.userId = some userId → RowDated r

section Readers

variable {t : AppleTable} {userId : ℤ}

/-- The WHERE clauses differ on rows without an expiry only. -/
theorem filter_eq (h : Dated t userId) (reference : ℤ) :
    (t.rows.filter fun r => r.userId = some userId && r.revocationDate.isNone &&
      (r.expiresDate.isNone || expiresAfter r reference)) =
    t.rows.filter fun r => r.userId = some userId && r.revocationDate.isNone &&
      r.expiresDate.isSome && expiresAfter r reference := by
  apply List.filter_congr
  intro r hr
  by_cases hu : r.userId = some userId
  · by_cases hv : r.revocationDate = none
    · have hsome := h r hr hu hv
      simp [hu, hv, hsome, Option.isNone_eq_false_iff.mpr hsome]
    · have hnone : r.revocationDate.isNone = false := by simpa [Option.isSome_iff_ne_none] using hv
      simp [hnone]
  · simp [hu]

/-- **The two queries select the same row** of a user whose rows are dated. -/
theorem getActiveSubscriptionForUser_eq (h : Dated t userId) (reference : ℤ) :
    getActiveSubscriptionForUser t userId reference = activeAppleRow t userId reference := by
  unfold getActiveSubscriptionForUser activeAppleRow
  rw [filter_eq h]
  apply top_congr
  intro a ha b hb
  -- neither row lacks its expiry, so the first key says nothing
  have hdated : ∀ r ∈ t.rows.filter fun r => r.userId = some userId && r.revocationDate.isNone &&
      r.expiresDate.isSome && expiresAfter r reference, r.expiresDate.isNone = false := by
    intro r hr
    simp only [List.mem_filter, Bool.and_eq_true] at hr
    exact Option.isNone_eq_false_iff.mpr hr.2.1.2
  rw [hdated a ha, hdated b hb, Prod.Lex.toLex_le_toLex]
  simp

/-- What the second query hands out is the row of the first, with its effective
expiry. -/
theorem loadActiveAppleSubscription_eq (h : Dated t userId) (reference : ℤ) :
    loadActiveAppleSubscription t userId reference = (getActiveSubscriptionForUser t userId reference).map fun r =>
      { r with expiresDate := effectiveSubscriptionExpiration r } := by
  rw [getActiveSubscriptionForUser_eq h]
  rfl

/-- A row that lacks its expiry comes first: if the row selected has one, no
row lacks it. -/
theorem dated_of_active (reference : ℤ)
    (h : ∀ r, getActiveSubscriptionForUser t userId reference = some r → r.expiresDate.isSome) :
    Dated t userId := by
  intro r hr hu hv
  by_contra hnone
  have hnone : r.expiresDate.isNone = true := by simpa using hnone
  have hmem : r ∈ t.rows.filter fun r => r.userId = some userId && r.revocationDate.isNone &&
      (r.expiresDate.isNone || expiresAfter r reference) := by
    rw [List.mem_filter]
    exact ⟨hr, by simp [hu, hv, hnone]⟩
  cases hq : getActiveSubscriptionForUser t userId reference with
  | none =>
    rw [(top_eq_none_iff _).mp hq] at hmem
    exact absurd hmem List.not_mem_nil
  | some q =>
    have hge := top_ge _ hq r hmem
    rw [hnone, Option.isNone_eq_false_iff.mpr (h q hq), Prod.Lex.toLex_le_toLex] at hge
    rcases hge with hlt | ⟨heq, -⟩
    · exact absurd (show true < false from hlt) (by decide)
    · exact absurd (show true = false from heq) (by decide)

end Readers

end Apple
end FuelNear

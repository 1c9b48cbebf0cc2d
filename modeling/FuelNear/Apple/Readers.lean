/-
# Reading the Apple ledger: active subscriptions

The queries that decide which transaction entitles a user:
`get_active_subscription_for_user`, `_load_active_apple_subscription` and
`effective_subscription_expiration`. Both queries leave out every row with a
revocation date.

Key definitions: `effectiveSubscriptionExpiration`,
`getActiveSubscriptionForUser`, `loadActiveAppleSubscription`.
Key theorems: `getActiveSubscriptionForUser_spec`,
`loadActiveAppleSubscription_spec`.
-/
import FuelNear.Apple.Transaction
import Mathlib.Data.Prod.Lex
import Mathlib.Order.WithBot

namespace FuelNear
namespace Apple

open Sql

/-- `effective_subscription_expiration`. -/
def effectiveSubscriptionExpiration (r : AppleRow) : Option ℤ :=
  match r.expiresDate, r.gracePeriodExpiresDate with
  | none, _ => none
  | some e, none => some e
  | some e, some g => some (max e g)

/-- `GREATEST(expires_date, grace_period_expires_date)` as a key of a
descending order: NULL comes first. -/
def expirationKey (r : AppleRow) : WithTop ℤ :=
  match greatest r.expiresDate r.gracePeriodExpiresDate with
  | none => ⊤
  | some e => (e : ℤ)

/-- `expires_date > … OR grace_period_expires_date > …`. -/
def expiresAfter (r : AppleRow) (reference : ℤ) : Bool :=
  r.expiresDate.any (· > reference) || r.gracePeriodExpiresDate.any (· > reference)

/-- `get_active_subscription_for_user`. -/
def getActiveSubscriptionForUser (t : AppleTable) (userId reference : ℤ) : Option AppleRow :=
  top (fun r => toLex (r.expiresDate.isNone, toLex (expirationKey r, toLex (r.purchaseDate, r.id))))
    (t.rows.filter fun r => r.userId = some userId && r.revocationDate.isNone &&
      (r.expiresDate.isNone || expiresAfter r reference))

/-- The row that `_load_active_apple_subscription` selects. -/
def activeAppleRow (t : AppleTable) (userId reference : ℤ) : Option AppleRow :=
  top (fun r => toLex (expirationKey r, toLex (r.purchaseDate, r.id)))
    (t.rows.filter fun r => r.userId = some userId && r.revocationDate.isNone &&
      r.expiresDate.isSome && expiresAfter r reference)

/-- `_load_active_apple_subscription`: the row with its effective expiry. -/
def loadActiveAppleSubscription (t : AppleTable) (userId reference : ℤ) : Option AppleRow :=
  (activeAppleRow t userId reference).map fun r => { r with expiresDate := effectiveSubscriptionExpiration r }

theorem getActiveSubscriptionForUser_spec {t : AppleTable} {userId reference : ℤ} {r : AppleRow}
    (h : getActiveSubscriptionForUser t userId reference = some r) :
    r ∈ t ∧ r.userId = some userId ∧ r.revocationDate = none := by
  have hm := top_mem _ h
  simp only [List.mem_filter, Bool.and_eq_true, decide_eq_true_eq, Option.isNone_iff_eq_none] at hm
  exact ⟨hm.1, hm.2.1.1, hm.2.1.2⟩

theorem activeAppleRow_spec {t : AppleTable} {userId reference : ℤ} {r : AppleRow}
    (h : activeAppleRow t userId reference = some r) :
    r ∈ t ∧ r.userId = some userId ∧ r.revocationDate = none ∧ r.expiresDate.isSome ∧ expiresAfter r reference := by
  have hm := top_mem _ h
  simp only [List.mem_filter, Bool.and_eq_true, decide_eq_true_eq, Option.isNone_iff_eq_none] at hm
  obtain ⟨h1, ⟨⟨h2, h3⟩, h4⟩, h5⟩ := hm
  exact ⟨h1, h2, h3, h4, h5⟩

theorem loadActiveAppleSubscription_spec {t : AppleTable} {userId reference : ℤ} {r : AppleRow}
    (h : loadActiveAppleSubscription t userId reference = some r) :
    ∃ q ∈ t, q.id = r.id ∧ q.revocationDate = none := by
  obtain ⟨q, hq, rfl⟩ := Option.map_eq_some_iff.mp h
  obtain ⟨h1, -, h3, -⟩ := activeAppleRow_spec hq
  exact ⟨q, h1, rfl, h3⟩

end Apple
end FuelNear

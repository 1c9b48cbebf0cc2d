/-
# What a stored transaction is worth to a creator

`derive_apple_base_economic_status` reads the context of a row (environment,
ownership type, reason) and its price; `derive_apple_creator_economic_state`
puts the adjustment on top. Both read seven columns only.

Key definitions: `deriveAppleBaseEconomicStatus`,
`deriveAppleCreatorEconomicState`.
Key theorems: `rowEvidence_price`, `deriveAppleCreatorEconomicState_congr`.
-/
import FuelNear.Apple.Transaction

namespace FuelNear
namespace Apple

open Text EconomicAdjustment

/-- `AppleBaseEconomicStatus`. -/
inductive AppleBaseEconomicStatus where
  | confirmedCandidate
  | nonEconomic
  | verifiedUnknownValue
  deriving DecidableEq

/-- `AppleCreatorEconomicStatus`. -/
inductive AppleCreatorEconomicStatus where
  | confirmed
  | nonEconomic
  | verifiedUnknownValue
  | refunded
  | revoked
  deriving DecidableEq

/-- `AppleCreatorEconomicState`. -/
structure AppleCreatorEconomicState where
  status : AppleCreatorEconomicStatus
  amount : Option ℚ
  currency : Option String
  deriving DecidableEq

/-- `str(value or "").strip().upper()`. -/
def contextText (value : Option String) : String := upper (strip (value.getD ""))

/-- The price evidence of a row. -/
def rowEvidence (r : AppleRow) : AppleEconomicEvidence :=
  normalizeAppleEconomicEvidence (r.priceMilliunits.map .int) (r.currency.map .str)

theorem currencyEvidence_price {p : ℤ} {hp : 0 ≤ p ∧ p ≤ maxApplePriceMilliunits} {c : String}
    (h : (currencyEvidence p hp c).isValid = true) : (currencyEvidence p hp c).priceMilliunits = some p := by
  unfold currencyEvidence at h ⊢
  split at h
  · split at h
    · next hformat hcode => rw [if_pos hformat, dif_pos hcode]; rfl
    · exact absurd h (by simp [AppleEconomicEvidence.isValid])
  · exact absurd h (by simp [AppleEconomicEvidence.isValid])

/-- Valid evidence is of the stored price. -/
theorem rowEvidence_price {r : AppleRow} {p : ℤ} (hp : r.priceMilliunits = some p)
    (h : (rowEvidence r).isValid = true) : (rowEvidence r).priceMilliunits = some p := by
  unfold rowEvidence normalizeAppleEconomicEvidence at h ⊢
  rw [hp] at h ⊢
  cases hc : r.currency with
  | none =>
    rw [hc] at h
    exact absurd h (by simp [AppleEconomicEvidence.isValid])
  | some c =>
    rw [hc] at h
    dsimp only [Option.map_some] at h ⊢
    by_cases hrange : 0 ≤ p ∧ p ≤ maxApplePriceMilliunits
    · rw [dif_pos hrange] at h ⊢
      exact currencyEvidence_price h
    · rw [dif_neg hrange] at h
      exact absurd h (by simp [AppleEconomicEvidence.isValid])

/-- `derive_apple_base_economic_status`. -/
def deriveAppleBaseEconomicStatus (r : AppleRow) : AppleBaseEconomicStatus :=
  let environment := contextText (some r.environment)
  let ownershipType := contextText r.ownershipType
  let transactionReason := contextText r.transactionReason
  if environment = "SANDBOX" then .nonEconomic
  else if environment ≠ "PRODUCTION" then .verifiedUnknownValue
  else if ownershipType = "FAMILY_SHARED" then .nonEconomic
  else
    let evidence := rowEvidence r
    if evidence.isValid = false then .verifiedUnknownValue
    else if evidence.priceMilliunits = some 0 then .nonEconomic
    else if ownershipType ≠ "PURCHASED" then .verifiedUnknownValue
    else if transactionReason ≠ "PURCHASE" ∧ transactionReason ≠ "RENEWAL" then .verifiedUnknownValue
    else .confirmedCandidate

/-- `derive_apple_creator_economic_state`. A stored adjustment is one of the
four, so its check of the text cannot fail. -/
def deriveAppleCreatorEconomicState (r : AppleRow) : AppleCreatorEconomicState :=
  let base := deriveAppleBaseEconomicStatus r
  let amount := if base = .confirmedCandidate then (rowEvidence r).amount else none
  let currency := if base = .confirmedCandidate then (rowEvidence r).currency else none
  match r.economicAdjustment with
  | some revoke => ⟨.revoked, amount, currency⟩
  | some refund => ⟨.refunded, amount, currency⟩
  | some revocationUnknown =>
    ⟨if base = .nonEconomic then .nonEconomic else .verifiedUnknownValue, none, none⟩
  | _ =>
    match base with
    | .confirmedCandidate => ⟨.confirmed, amount, currency⟩
    | .nonEconomic => ⟨.nonEconomic, amount, currency⟩
    | .verifiedUnknownValue => ⟨.verifiedUnknownValue, amount, currency⟩

/-- Only the context, the price and the adjustment are read. -/
theorem deriveAppleCreatorEconomicState_congr {r s : AppleRow} (he : r.environment = s.environment)
    (ho : r.ownershipType = s.ownershipType) (ht : r.transactionReason = s.transactionReason)
    (hp : r.priceMilliunits = s.priceMilliunits) (hc : r.currency = s.currency)
    (ha : r.economicAdjustment = s.economicAdjustment) :
    deriveAppleCreatorEconomicState r = deriveAppleCreatorEconomicState s := by
  have hev : rowEvidence r = rowEvidence s := by unfold rowEvidence; rw [hp, hc]
  have hbase : deriveAppleBaseEconomicStatus r = deriveAppleBaseEconomicStatus s := by
    unfold deriveAppleBaseEconomicStatus
    rw [he, ho, ht, hev]
  unfold deriveAppleCreatorEconomicState
  rw [hbase, hev, ha]

end Apple
end FuelNear

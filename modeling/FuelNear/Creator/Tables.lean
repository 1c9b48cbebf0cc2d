/-
# The creator ledger: attributions and conversion events

`creator_attributions` says which campaign brought a user, at most one for
each user; `creator_conversion_events` what came of it, at most one event for
each key of a provider. An event that breaks the CHECK constraints of its
table cannot be stored.

Key definitions: `CreatorAttribution`, `ConversionEvent`, `Ledger`,
`activeAttribution`, `eventByKey`.
Key theorems: `activeAttribution_spec`, `eventByKey_iff`, `derived_valueCheck`.
-/
import FuelNear.Apple.Economics

namespace FuelNear
namespace Creator

open Sql Apple

/-! ### Attributions -/

/-- `CREATOR_ATTRIBUTION_SOURCES`. -/
inductive AttributionSource where
  | emailRegistration
  | googleRegistration
  | appleRegistration
  | postRegistration
  deriving DecidableEq

inductive AttributionStatus where
  | active
  | invalid
  | anonymized
  deriving DecidableEq

/-- A row of `creator_attributions`. -/
structure CreatorAttribution where
  id : ℤ
  campaignId : ℤ
  userId : Option ℤ
  codeUsed : String
  source : AttributionSource
  attributedAt : ℤ
  plusConvertedAt : Option ℤ
  paidPlusConvertedAt : Option ℤ
  status : AttributionStatus
  userDeleted : Bool
  deriving DecidableEq

/-- The primary key, and `ux_creator_attributions_user_id`. -/
def CreatorAttribution.keys (a : CreatorAttribution) : List (ℤ ⊕ ℤ) := .inl a.id :: a.userId.toList.map .inr

abbrev AttributionTable := Table CreatorAttribution CreatorAttribution.keys

/-- `status = 'active' AND user_deleted = FALSE`. -/
def CreatorAttribution.isActive (a : CreatorAttribution) : Bool := a.status = .active && !a.userDeleted

/-- `SELECT … WHERE user_id = … AND status = 'active' AND user_deleted = FALSE`. -/
def activeAttribution (t : AttributionTable) (userId : ℤ) : Option CreatorAttribution :=
  t.find? fun a => a.userId = some userId && a.isActive

theorem activeAttribution_spec {t : AttributionTable} {userId : ℤ} {a : CreatorAttribution}
    (h : activeAttribution t userId = some a) : a ∈ t ∧ a.userId = some userId ∧ a.isActive = true := by
  have hp := Table.find?_prop h
  simp only [Bool.and_eq_true, decide_eq_true_eq] at hp
  exact ⟨Table.find?_mem h, hp.1, hp.2⟩

theorem attribution_eq_of_id {t : AttributionTable} {a b : CreatorAttribution} (ha : a ∈ t) (hb : b ∈ t)
    (h : a.id = b.id) : a = b :=
  Table.eq_of_key (k := .inl a.id) ha hb (by simp [CreatorAttribution.keys]) (by simp [CreatorAttribution.keys, h])

/-! ### Conversion events -/

inductive ConversionType where
  | plusGranted
  | purchase
  | renewal
  deriving DecidableEq

inductive Provider where
  | apple
  | internalReferral
  | internalPromo
  | googlePlay
  deriving DecidableEq

/-- A row of `creator_conversion_events`. The amounts have at most three
decimals and twelve digits before them, so `NUMERIC(18,6)` keeps them exactly. -/
structure ConversionEvent where
  id : ℤ
  attributionId : ℤ
  conversionType : ConversionType
  provider : Provider
  externalEventKey : String
  occurredAt : ℤ
  productId : Option String
  economicStatus : AppleCreatorEconomicStatus
  amount : Option ℚ
  currency : Option String
  deriving DecidableEq

/-- The primary key, and `ux_creator_conversion_events_provider_external_key`. -/
def ConversionEvent.keys (e : ConversionEvent) : List (ℤ ⊕ Provider × String) :=
  [.inl e.id, .inr (e.provider, e.externalEventKey)]

/-- `x = BTRIM(x) AND CHAR_LENGTH(x) BETWEEN 1 AND 255`. -/
def textCheck (x : String) : Bool :=
  x.toList.head? ≠ some ' ' && x.toList.getLast? ≠ some ' ' && 1 ≤ x.toList.length && x.toList.length ≤ 255

/-- `currency ~ '^[A-Z]{3}$'`. -/
def currencyCheck (x : String) : Bool := x.toList.length = 3 && x.toList.all Char.isUpper

/-- `creator_conversion_events_amount_currency_check`. -/
def amountCurrencyCheck (amount : Option ℚ) (currency : Option String) : Bool :=
  match amount, currency with
  | none, none => true
  | some a, some c => 0 ≤ a && currencyCheck c
  | _, _ => false

/-- `creator_conversion_events_economic_value_check`. -/
def economicValueCheck (status : AppleCreatorEconomicStatus) (amount : Option ℚ) (currency : Option String) : Bool :=
  match status with
  | .nonEconomic => amount.isNone && currency.isNone
  | .verifiedUnknownValue => amount.isNone && currency.isNone
  | .confirmed => amount.any (0 < ·) && currency.isSome
  | .refunded => true
  | .revoked => true

/-- The two CHECKs of the economic columns. -/
def valueCheck (status : AppleCreatorEconomicStatus) (amount : Option ℚ) (currency : Option String) : Bool :=
  amountCurrencyCheck amount currency && economicValueCheck status amount currency

def ConversionEvent.check (e : ConversionEvent) : Bool :=
  textCheck e.externalEventKey && e.productId.all textCheck && valueCheck e.economicStatus e.amount e.currency

abbrev EventTable := Checked ConversionEvent ConversionEvent.keys ConversionEvent.check

/-- `SELECT … WHERE provider = … AND external_event_key = …`. -/
def eventByKey (t : EventTable) (provider : Provider) (key : String) : Option ConversionEvent :=
  t.find? fun e => e.provider = provider && e.externalEventKey = key

theorem eventByKey_iff {t : EventTable} {provider : Provider} {key : String} {e : ConversionEvent} :
    eventByKey t provider key = some e ↔ e ∈ t ∧ e.provider = provider ∧ e.externalEventKey = key := by
  constructor
  · intro h
    have hp := Table.find?_prop h
    simp only [Bool.and_eq_true, decide_eq_true_eq] at hp
    exact ⟨Table.find?_mem h, hp⟩
  · intro ⟨hmem, hprovider, hkey⟩
    apply Table.find?_of_mem (k := .inr (provider, key))
    · intro x hx
      simp only [Bool.and_eq_true, decide_eq_true_eq] at hx
      simp [ConversionEvent.keys, hx.1, hx.2]
    · exact hmem
    · simp [hprovider, hkey]

theorem event_eq_of_id {t : EventTable} {d e : ConversionEvent} (hd : d ∈ t) (he : e ∈ t) (h : d.id = e.id) : d = e :=
  Table.eq_of_key (k := .inl d.id) hd he (by simp [ConversionEvent.keys]) (by simp [ConversionEvent.keys, h])

/-- An id later than every id of the table. -/
def nextEventId (t : EventTable) : ℤ := (t.rows.map (·.id)).foldr max 0 + 1

theorem nextEventId_fresh {t : EventTable} {e : ConversionEvent} (h : e ∈ t) : e.id ≠ nextEventId t := by
  have hle := foldr_max_ge (t.rows.map (·.id)) e.id (List.mem_map_of_mem h)
  unfold nextEventId
  omega

/-- The two tables of the ledger. -/
structure Ledger where
  attributions : AttributionTable
  events : EventTable

/-! ### What the code derives passes the CHECKs -/

/-- The price of valid evidence is not negative, in a currency of three letters. -/
theorem evidence_check {e : AppleEconomicEvidence} (h : e.isValid = true) :
    ∃ a c, e.amount = some a ∧ e.currency = some c ∧ currencyCheck c = true ∧ 0 ≤ a ∧
      (e.priceMilliunits ≠ some 0 → 0 < a) := by
  have hcodes : ∀ c ∈ iso4217CurrencyCodes, currencyCheck c = true := by decide +kernel
  cases e with
  | absent => exact absurd h (by simp [AppleEconomicEvidence.isValid])
  | invalid reason => exact absurd h (by simp [AppleEconomicEvidence.isValid])
  | valid p c hp hc =>
    have hnonneg : (0 : ℚ) ≤ (p : ℚ) / 1000 := div_nonneg (by exact_mod_cast hp.1) (by norm_num)
    refine ⟨(p : ℚ) / 1000, c, rfl, rfl, hcodes c hc, hnonneg, fun hne => ?_⟩
    have hpos : 0 < p := lt_of_le_of_ne hp.1 fun h0 => hne (by simp [AppleEconomicEvidence.priceMilliunits, ← h0])
    exact div_pos (by exact_mod_cast hpos) (by norm_num)

/-- A confirmed candidate has valid evidence of a price. -/
theorem evidence_of_confirmedCandidate {r : AppleRow} (h : deriveAppleBaseEconomicStatus r = .confirmedCandidate) :
    (rowEvidence r).isValid = true ∧ (rowEvidence r).priceMilliunits ≠ some 0 := by
  unfold deriveAppleBaseEconomicStatus at h
  dsimp only at h
  split_ifs at h with h1 h2 h3 h4 h5
  exact ⟨by simpa using h4, h5⟩

/-- The derived state of a row passes the CHECKs of the economic columns. -/
theorem derived_valueCheck (r : AppleRow) :
    valueCheck (deriveAppleCreatorEconomicState r).status (deriveAppleCreatorEconomicState r).amount
      (deriveAppleCreatorEconomicState r).currency = true := by
  unfold deriveAppleCreatorEconomicState
  by_cases hb : deriveAppleBaseEconomicStatus r = .confirmedCandidate
  · obtain ⟨hvalid, hprice⟩ := evidence_of_confirmedCandidate hb
    obtain ⟨a, c, ha, hc, hcheck, hnonneg, hpos⟩ := evidence_check hvalid
    rcases r.economicAdjustment with _ | (_ | _ | _ | _) <;>
      simp [hb, ha, hc, valueCheck, amountCurrencyCheck, economicValueCheck, hcheck, hnonneg, hpos hprice]
  · rcases r.economicAdjustment with _ | (_ | _ | _ | _) <;>
      cases hs : deriveAppleBaseEconomicStatus r <;>
      simp_all [valueCheck, amountCurrencyCheck, economicValueCheck]

end Creator
end FuelNear

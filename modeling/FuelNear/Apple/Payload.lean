/-
# Decoded payloads of a notification

A notification is a signed payload that may hold a signed transaction and a
signed renewal info. `SignedDataVerifier` is the library's verifier: it gives
a decoded payload or fails. What the code makes of a decoded transaction and
of a decoded renewal info is `normalizeTransaction` and `normalizeRenewal`;
nothing is assumed of the values in a payload.

Key definitions: `SignedDataVerifier`, `NotificationError`,
`normalizeTransaction`, `normalizeRenewal`, `Unavailable`, `Final`.
Key theorems: `unavailable_bind_iff`, `final_normalizeTransaction`, `final_normalizeRenewal`.
-/
import FuelNear.Apple.Config
import FuelNear.Apple.Evidence
import FuelNear.Numeric

namespace FuelNear
namespace Apple

open Text

/-! ### Payloads

An attribute that the payload does not have is `None`. -/

/-- `Data` of a notification. -/
structure NotificationData where
  bundleId : PyValue := .none
  appAppleId : PyValue := .none
  environment : PyValue := .none
  signedTransactionInfo : PyValue := .none
  signedRenewalInfo : PyValue := .none
  deriving DecidableEq

/-- `Summary` or `AppData`. -/
structure NotificationSource where
  bundleId : PyValue := .none
  appAppleId : PyValue := .none
  environment : PyValue := .none
  deriving DecidableEq

structure ExternalPurchaseToken where
  externalPurchaseId : PyValue := .none
  bundleId : PyValue := .none
  appAppleId : PyValue := .none
  deriving DecidableEq

structure ResponseBodyV2DecodedPayload where
  notificationType : PyValue := .none
  rawNotificationType : PyValue := .none
  subtype : PyValue := .none
  rawSubtype : PyValue := .none
  notificationUUID : PyValue := .none
  signedDate : PyValue := .none
  data : Option NotificationData := none
  summary : Option NotificationSource := none
  externalPurchaseToken : Option ExternalPurchaseToken := none
  appData : Option NotificationSource := none
  deriving DecidableEq

structure JWSTransactionDecodedPayload where
  productId : PyValue := .none
  transactionId : PyValue := .none
  originalTransactionId : PyValue := .none
  purchaseDate : PyValue := .none
  expiresDate : PyValue := .none
  revocationDate : PyValue := .none
  revocationReason : PyValue := .none
  rawRevocationReason : PyValue := .none
  revocationType : PyValue := .none
  rawRevocationType : PyValue := .none
  revocationPercentage : PyValue := .none
  offerType : PyValue := .none
  rawOfferType : PyValue := .none
  appAccountToken : PyValue := .none
  inAppOwnershipType : PyValue := .none
  rawInAppOwnershipType : PyValue := .none
  transactionReason : PyValue := .none
  rawTransactionReason : PyValue := .none
  storefront : PyValue := .none
  signedDate : PyValue := .none
  environment : PyValue := .none
  deriving DecidableEq

structure JWSRenewalInfoDecodedPayload where
  autoRenewStatus : PyValue := .none
  rawAutoRenewStatus : PyValue := .none
  expirationIntent : PyValue := .none
  rawExpirationIntent : PyValue := .none
  autoRenewProductId : PyValue := .none
  productId : PyValue := .none
  gracePeriodExpiresDate : PyValue := .none
  environment : PyValue := .none
  deriving DecidableEq

/-! ### The verifier -/

/-- `VerificationStatus`; those that the code does not name are `other`. -/
inductive VerificationStatus where
  | verificationFailure
  | invalidAppIdentifier
  | invalidEnvironment
  | retryableVerificationFailure
  | other (name : String)
  deriving DecidableEq

/-- What a verifier raises: a `VerificationException`, or anything else. -/
inductive VerifierFailure where
  | verification (status : VerificationStatus)
  | other
  deriving DecidableEq

/-- The verifier of the App Store library. -/
structure SignedDataVerifier where
  verifyAndDecodeNotification : String → Except VerifierFailure ResponseBodyV2DecodedPayload
  verifyAndDecodeSignedTransaction : PyValue → Except VerifierFailure JWSTransactionDecodedPayload
  verifyAndDecodeRenewalInfo : PyValue → Except VerifierFailure JWSRenewalInfoDecodedPayload

/-! ### Errors -/

/-- The errors of the verification, with their texts: the subclasses of
`AppleNotificationVerificationError`, and what it lets through. -/
inductive NotificationError where
  | configuration (message : String)
  | certificates (message : String)
  | invalid (message : String)
  | unavailable (message : String)
  | payload (message : String)
  | typeMissing (message : String)
  | transactionData (message : String)
  | renewalData (message : String)
  | subscriptionsConfiguration (message : String)
  | valueError (message : String)
  | typeError
  | keyError
  deriving DecidableEq

/-! ### Reading the values -/

/-- What was read, or the error. -/
def orRaise {α : Type} (x : Option α) (e : NotificationError) : Except NotificationError α :=
  match x with
  | none => .error e
  | some a => .ok a

/-- `_enum_or_raw`. -/
def enumOrRaw (value raw : PyValue) : PyValue := if enumValue value ≠ .none then enumValue value else raw

/-- `_required_text`. -/
def requiredText (value : PyValue) (fieldName : String) : Except NotificationError String :=
  orRaise (value.text?.bind strip?) (.payload ("Apple notification is missing " ++ fieldName))

/-- A datetime lies in the years 1 to 9999. -/
def datetime? (micros : ℤ) : Option ℤ :=
  if -62135596800000000 ≤ micros ∧ micros ≤ 253402300799999999 then some micros else none

/-- `datetime.fromtimestamp(value / 1000, tz=timezone.utc)`, of a number. The
division is taken as exact. -/
def fromMilliseconds : PyValue → Option ℤ
  | .int n => datetime? (n * 1000)
  | .enum true (.inl n) => datetime? (n * 1000)
  | .float (some x) => datetime? (Numeric.roundUnits 0 (x * 1000))
  | _ => none

/-- `_milliseconds_datetime` of a field that is not required; `error` is the
class of its errors. -/
def millisecondsDatetime (error : String → NotificationError) (value : PyValue) (fieldName : String) :
    Except NotificationError (Option ℤ) :=
  if value = .none then .ok none
  else do return some (← orRaise (fromMilliseconds value) (error ("Apple notification has invalid " ++ fieldName)))

/-- `_milliseconds_datetime` of a required field. -/
def requiredMillisecondsDatetime (error : String → NotificationError) (value : PyValue) (fieldName : String) :
    Except NotificationError ℤ := do
  orRaise (← millisecondsDatetime error value fieldName) (error ("Apple notification is missing " ++ fieldName))

/-! ### Transactions -/

/-- `NormalizedAppleNotificationTransaction`. -/
structure NormalizedAppleNotificationTransaction where
  productId : String
  transactionId : String
  originalTransactionId : String
  purchaseDate : ℤ
  expiresDate : Option ℤ
  revocationDate : Option ℤ
  revocationReason : Option ℤ
  appAccountToken : Option (BitVec 128)
  ownershipType : Option String
  transactionReason : Option String
  storefront : Option String
  offerType : Option ℤ
  signedDate : Option ℤ
  revocationType : Option String
  revocationPercentage : Option ℤ
  economicEvidence : AppleEconomicEvidence
  deriving DecidableEq

/-- `raise AppleNotificationTransactionDataError(str(exc)) from exc`. -/
def NotificationError.asTransactionData : NotificationError → NotificationError
  | .payload message => .transactionData message
  | e => e

/-- A number, not required and not a `bool`. -/
def optionalNumber (e : NotificationError) (value : PyValue) : Except NotificationError (Option ℤ) :=
  if value = .none then .ok none else do return some (← orRaise value.int? e)

/-- The check of `revocation_percentage`. -/
def percentage (e : NotificationError) (value : PyValue) : Except NotificationError (Option ℤ) := do
  let n ← optionalNumber e value
  if n.any fun n => n < 0 || n > 100 then .error e else .ok n

/-- `UUID(str(value).strip())`; no other value has the text of a UUID. -/
def PyValue.uuid? : PyValue → Option (BitVec 128)
  | .uuid u => some u
  | .str s => Text.uuid? (strip s)
  | .int n => Text.uuid? (toString n)
  | _ => .none

/-- `_parse_app_account_token`. -/
def parseAppAccountToken (value : PyValue) : Except NotificationError (Option (BitVec 128)) :=
  if value = .none then .ok none
  else do
    let token ← orRaise value.uuid? (.transactionData "Apple notification transaction appAccountToken is invalid")
    return some token

/-- `_optional_transaction_text`. -/
def optionalTransactionText (value raw : PyValue) (fieldName : String) : Except NotificationError (Option String) :=
  let normalized := enumOrRaw value raw
  if normalized = .none then .ok none
  else do
    let text ← orRaise (normalized.text?.bind strip?)
      (.transactionData ("Apple notification transaction " ++ fieldName ++ " is invalid"))
    return some text

/-- `_normalize_transaction`. -/
def normalizeTransaction (payload : JWSTransactionDecodedPayload) (economicEvidence : AppleEconomicEvidence) :
    Except NotificationError NormalizedAppleNotificationTransaction := do
  let productId ← (requiredText payload.productId "transaction productId").mapError (·.asTransactionData)
  let transactionId ← (requiredText payload.transactionId "transactionId").mapError (·.asTransactionData)
  let originalTransactionId ←
    (requiredText payload.originalTransactionId "originalTransactionId").mapError (·.asTransactionData)
  let revocationReason ←
    optionalNumber (.transactionData "Apple notification transaction revocationReason is invalid")
      (enumOrRaw payload.revocationReason payload.rawRevocationReason)
  let offerType ← optionalNumber (.transactionData "Apple notification transaction offerType is invalid")
    (enumOrRaw payload.offerType payload.rawOfferType)
  let revocationType ← optionalTransactionText payload.revocationType payload.rawRevocationType "revocationType"
  let revocationPercentage ←
    percentage (.transactionData "Apple notification transaction revocationPercentage is invalid")
      payload.revocationPercentage
  let purchaseDate ← requiredMillisecondsDatetime .transactionData payload.purchaseDate "purchaseDate"
  let expiresDate ← millisecondsDatetime .transactionData payload.expiresDate "expiresDate"
  let revocationDate ← millisecondsDatetime .transactionData payload.revocationDate "revocationDate"
  let appAccountToken ← parseAppAccountToken payload.appAccountToken
  let ownershipType ←
    optionalTransactionText payload.inAppOwnershipType payload.rawInAppOwnershipType "inAppOwnershipType"
  let transactionReason ←
    optionalTransactionText payload.transactionReason payload.rawTransactionReason "transactionReason"
  let storefront ← optionalTransactionText payload.storefront .none "storefront"
  let signedDate ← millisecondsDatetime .transactionData payload.signedDate "signedDate"
  return {
    productId, transactionId, originalTransactionId, purchaseDate, expiresDate, revocationDate, revocationReason,
    appAccountToken, ownershipType, transactionReason, storefront, offerType, signedDate, revocationType,
    revocationPercentage, economicEvidence }

/-! ### Renewal infos -/

/-- `NormalizedAppleNotificationRenewal`. -/
structure NormalizedAppleNotificationRenewal where
  autoRenewStatus : ℤ
  expirationIntent : Option ℤ
  renewalProductId : String
  gracePeriodExpiresDate : Option ℤ
  deriving DecidableEq

/-- `_normalize_renewal`. -/
def normalizeRenewal (payload : JWSRenewalInfoDecodedPayload) :
    Except NotificationError NormalizedAppleNotificationRenewal := do
  let autoRenewStatus ← orRaise (enumOrRaw payload.autoRenewStatus payload.rawAutoRenewStatus).int?
    (.renewalData "Apple notification renewal autoRenewStatus is invalid")
  let expirationIntent ← optionalNumber (.renewalData "Apple notification renewal expirationIntent is invalid")
    (enumOrRaw payload.expirationIntent payload.rawExpirationIntent)
  let productId := if payload.autoRenewProductId.truthy then payload.autoRenewProductId else payload.productId
  let renewalProductId ← orRaise (productId.text?.bind strip?)
    (.renewalData "Apple notification renewal productId is missing")
  let gracePeriodExpiresDate ←
    millisecondsDatetime .renewalData payload.gracePeriodExpiresDate "gracePeriodExpiresDate"
  return { autoRenewStatus, expirationIntent, renewalProductId, gracePeriodExpiresDate }

/-! ### Answers that are final -/

/-- The error that asks to try again later. -/
def Unavailable {α : Type} (x : Except NotificationError α) : Prop := ∃ message, x = .error (.unavailable message)

/-- Whatever comes, it is not that error. -/
def Final {α : Type} (x : Except NotificationError α) : Prop := ¬ Unavailable x

section Final

variable {α β : Type}

theorem unavailable_bind_iff {x : Except NotificationError α} {f : α → Except NotificationError β} :
    Unavailable (x >>= f) ↔ Unavailable x ∨ ∃ a, x = .ok a ∧ Unavailable (f a) := by
  constructor
  · rintro ⟨message, h⟩
    rcases bind_eq_error.mp h with hx | ⟨a, ha, hf⟩
    · exact .inl ⟨message, hx⟩
    · exact .inr ⟨a, ha, message, hf⟩
  · rintro (⟨message, hx⟩ | ⟨a, ha, message, hf⟩)
    · exact ⟨message, bind_eq_error.mpr (.inl hx)⟩
    · exact ⟨message, bind_eq_error.mpr (.inr ⟨a, ha, hf⟩)⟩

theorem Final.bind {x : Except NotificationError α} {f : α → Except NotificationError β} (hx : Final x)
    (hf : ∀ a, Final (f a)) : Final (x >>= f) := by
  intro h
  rcases unavailable_bind_iff.mp h with h | ⟨a, -, h⟩
  · exact hx h
  · exact hf a h

theorem final_ok (a : α) : Final (.ok a : Except NotificationError α) := fun ⟨_, h⟩ => by simp at h

theorem final_error {e : NotificationError} (h : ∀ message, e ≠ .unavailable message) :
    Final (.error e : Except NotificationError α) :=
  fun ⟨message, hx⟩ => h message (Except.error.inj hx)

theorem final_orRaise (x : Option α) {e : NotificationError} (h : ∀ message, e ≠ .unavailable message) :
    Final (orRaise x e) := by
  cases x with
  | none => exact final_error h
  | some a => exact final_ok a

end Final

theorem final_requiredText (value : PyValue) (fieldName : String) : Final (requiredText value fieldName) :=
  final_orRaise _ fun _ => by simp

theorem final_requiredText_transaction (value : PyValue) (fieldName : String) :
    Final ((requiredText value fieldName).mapError (·.asTransactionData)) := by
  unfold requiredText
  cases value.text?.bind strip? with
  | none => exact final_error fun _ => by simp [NotificationError.asTransactionData]
  | some s => exact final_ok s

theorem final_millisecondsDatetime {error : String → NotificationError} (h : ∀ m m', error m ≠ .unavailable m')
    (value : PyValue) (fieldName : String) : Final (millisecondsDatetime error value fieldName) := by
  unfold millisecondsDatetime
  split_ifs
  · exact final_ok _
  · exact (final_orRaise _ (h _)).bind fun _ => final_ok _

theorem final_requiredMillisecondsDatetime {error : String → NotificationError}
    (h : ∀ m m', error m ≠ .unavailable m') (value : PyValue) (fieldName : String) :
    Final (requiredMillisecondsDatetime error value fieldName) :=
  (final_millisecondsDatetime h value fieldName).bind fun _ => final_orRaise _ (h _)

theorem final_optionalNumber {e : NotificationError} (h : ∀ m, e ≠ .unavailable m) (value : PyValue) :
    Final (optionalNumber e value) := by
  unfold optionalNumber
  split_ifs
  · exact final_ok _
  · exact (final_orRaise _ h).bind fun _ => final_ok _

theorem final_percentage {e : NotificationError} (h : ∀ m, e ≠ .unavailable m) (value : PyValue) :
    Final (percentage e value) := by
  refine (final_optionalNumber h value).bind fun n => ?_
  split_ifs
  · exact final_error h
  · exact final_ok n

theorem final_parseAppAccountToken (value : PyValue) : Final (parseAppAccountToken value) := by
  unfold parseAppAccountToken
  split_ifs
  · exact final_ok _
  · exact (final_orRaise _ fun _ => by simp).bind fun _ => final_ok _

theorem final_optionalTransactionText (value raw : PyValue) (fieldName : String) :
    Final (optionalTransactionText value raw fieldName) := by
  unfold optionalTransactionText
  dsimp only
  split_ifs
  · exact final_ok _
  · exact (final_orRaise _ fun _ => by simp).bind fun _ => final_ok _

/-- No decoded transaction is to be sent again. -/
theorem final_normalizeTransaction (payload : JWSTransactionDecodedPayload) (evidence : AppleEconomicEvidence) :
    Final (normalizeTransaction payload evidence) := by
  have herror : ∀ m m', NotificationError.transactionData m ≠ .unavailable m' := fun _ _ => by simp
  refine (final_requiredText_transaction _ _).bind fun _ => ?_
  refine (final_requiredText_transaction _ _).bind fun _ => ?_
  refine (final_requiredText_transaction _ _).bind fun _ => ?_
  refine (final_optionalNumber (herror _) _).bind fun _ => ?_
  refine (final_optionalNumber (herror _) _).bind fun _ => ?_
  refine (final_optionalTransactionText _ _ _).bind fun _ => ?_
  refine (final_percentage (herror _) _).bind fun _ => ?_
  refine (final_requiredMillisecondsDatetime herror _ _).bind fun _ => ?_
  refine (final_millisecondsDatetime herror _ _).bind fun _ => ?_
  refine (final_millisecondsDatetime herror _ _).bind fun _ => ?_
  refine (final_parseAppAccountToken _).bind fun _ => ?_
  refine (final_optionalTransactionText _ _ _).bind fun _ => ?_
  refine (final_optionalTransactionText _ _ _).bind fun _ => ?_
  refine (final_optionalTransactionText _ _ _).bind fun _ => ?_
  exact (final_millisecondsDatetime herror _ _).bind fun _ => final_ok _

/-- No decoded renewal info is to be sent again. -/
theorem final_normalizeRenewal (payload : JWSRenewalInfoDecodedPayload) : Final (normalizeRenewal payload) := by
  have herror : ∀ m m', NotificationError.renewalData m ≠ .unavailable m' := fun _ _ => by simp
  refine (final_orRaise _ (herror _)).bind fun _ => ?_
  refine (final_optionalNumber (herror _) _).bind fun _ => ?_
  refine (final_orRaise _ (herror _)).bind fun _ => ?_
  exact (final_millisecondsDatetime herror _ _).bind fun _ => final_ok _

end Apple
end FuelNear

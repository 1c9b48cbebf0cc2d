/-
# Verifying a notification

`verify_app_store_notification` tries verifiers, each labelled with an
environment, until one accepts the signed payload. A failure that may come
from the wrong environment goes on to the next; a retryable one and any other
ends the search. The metadata of the payload are checked against the
configuration and the label, and what the payload holds in turn is decoded by
the verifier that accepted it. So the result is of one environment throughout
(`verifyCandidates_decoded`), and the caller is told to try again exactly if
the first failure that decides is retryable (`verifyCandidates_unavailable_iff`).

Key definitions: `selectCandidate`, `verifyCandidates`,
`verifyAppStoreNotification`, `Decoded`, `RetryableFirst`.
Key theorems: `selectCandidate_of_reached`, `selectCandidate_ok_iff`,
`verifyCandidates_decoded`, `verifyCandidates_unavailable_iff`,
`notification_verdict`.
-/
import FuelNear.Apple.Payload

namespace FuelNear
namespace Apple

open Text

/-! ### The checks of the payload -/

/-- `Environment.SANDBOX` and `Environment.PRODUCTION`. -/
def sandboxEnvironment : PyValue := .enum false (.inr "Sandbox")

def productionEnvironment : PyValue := .enum false (.inr "Production")

/-- `_notification_metadata`: the bundle id, the app id and the environment. -/
def notificationMetadata (payload : ResponseBodyV2DecodedPayload) : PyValue × PyValue × PyValue :=
  match payload.data, payload.summary, payload.externalPurchaseToken, payload.appData with
  | some d, _, _, _ => (d.bundleId, d.appAppleId, d.environment)
  | none, some s, _, _ => (s.bundleId, s.appAppleId, s.environment)
  | none, none, some t, _ =>
    let sandbox := t.externalPurchaseId.text?.any fun id => "SANDBOX".toList.isPrefixOf id.toList
    (t.bundleId, t.appAppleId, if sandbox then sandboxEnvironment else productionEnvironment)
  | none, none, none, some a => (a.bundleId, a.appAppleId, a.environment)
  | none, none, none, none => (.none, .none, .none)

/-- `hmac.compare_digest` of two texts, which have to be ASCII. -/
def compareDigest (a b : String) : Except NotificationError Bool :=
  if (a ++ b).toList.all (·.toNat < 128) then .ok (a = b) else .error .typeError

/-- `canonical_environment`: the spelling of the App Store. -/
def canonicalEnvironment : String → Option String
  | "sandbox" => some "Sandbox"
  | "production" => some "Production"
  | _ => none

/-- The text of an `AppleSubscriptionsConfigurationError` that is not caught. -/
def acceptedEnvironments (config : AppleSubscriptionsConfig) : Except NotificationError (List String) :=
  (getAppleSubscriptionAcceptedEnvironments config).mapError .subscriptionsConfiguration

/-- `_validate_notification_metadata`. -/
def validateNotificationMetadata (payload : ResponseBodyV2DecodedPayload) (config : AppleSubscriptionsConfig)
    (expectedEnvironment : Option String) : Except NotificationError (String × PyValue × String) := do
  let (bundleIdValue, appAppleId, environmentValue) := notificationMetadata payload
  let bundleId ← requiredText bundleIdValue "bundleId"
  let environment ← requiredText (enumValue environmentValue) "environment"
  let normalizedEnvironment := normalizeAppleSubscriptionEnvironment (.str environment)
  let accepted ← acceptedEnvironments config
  let same ← compareDigest bundleId config.bundleId
  if ¬ same then .error (.payload "Apple notification bundle identifier is invalid")
  else if normalizedEnvironment ∉ accepted then .error (.payload "Apple notification environment is invalid")
  else if expectedEnvironment.any (normalizedEnvironment ≠ ·) then
    .error (.payload "Apple notification environment is invalid")
  else if normalizedEnvironment = "production" ∧ ¬ appAppleId.eqInt? config.appId then
    .error (.payload "Apple notification app identifier is invalid")
  else do
    let canonical ← orRaise (canonicalEnvironment normalizedEnvironment) .keyError
    return (bundleId, appAppleId, canonical)

/-- `_validate_nested_environment`. -/
def validateNestedEnvironment (value : PyValue) (expectedEnvironment dataType : String) :
    Except NotificationError Unit :=
  if normalizeAppleSubscriptionEnvironment (enumValue value) ≠ expectedEnvironment then
    let error := if dataType = "transaction" then NotificationError.transactionData else .renewalData
    .error (error ("Apple notification " ++ dataType ++ " environment is invalid"))
  else .ok ()

/-- What the payload says of itself, checked. -/
structure NotificationFields where
  notificationUuid : String
  notificationType : String
  subtype : Option String
  signedDate : ℤ
  bundleId : String
  environment : String
  appAppleId : PyValue
  deriving DecidableEq

/-- The checks of `verify_app_store_notification` before the nested payloads. -/
def checkPayload (config : AppleSubscriptionsConfig) (selectedEnvironment : Option String)
    (payload : ResponseBodyV2DecodedPayload) : Except NotificationError NotificationFields := do
  let notificationType ← orRaise ((enumOrRaw payload.notificationType payload.rawNotificationType).text?.bind strip?)
    (.typeMissing "Apple notificationType is required")
  let subtype := (enumOrRaw payload.subtype payload.rawSubtype).text?.bind strip?
  let notificationUuid ← requiredText payload.notificationUUID "notificationUUID"
  let signedDate ← requiredMillisecondsDatetime .payload payload.signedDate "signedDate"
  let (bundleId, appAppleId, environment) ← validateNotificationMetadata payload config selectedEnvironment
  return { notificationUuid, notificationType, subtype, signedDate, bundleId, environment, appAppleId }

/-! ### The candidates -/

/-- `VerifierCandidate`. -/
abbrev VerifierCandidate := Option String × SignedDataVerifier

/-- `_ENVIRONMENT_FALLBACK_STATUSES`. -/
def environmentFallbackStatuses : List VerificationStatus :=
  [.verificationFailure, .invalidAppIdentifier, .invalidEnvironment]

/-- The loop over the candidates; `failed` says that there is a
`last_verification_error`. -/
def selectCandidate (signedPayload : String) (failed : Bool) :
    List VerifierCandidate → Except NotificationError (VerifierCandidate × ResponseBodyV2DecodedPayload)
  | [] => .error (.invalid (if failed then "Apple signed notification is invalid"
      else "Apple signed notification could not be verified"))
  | candidate :: rest =>
    match candidate.2.verifyAndDecodeNotification signedPayload with
    | .ok payload => .ok (candidate, payload)
    | .error (.verification status) =>
      if status = .retryableVerificationFailure then
        .error (.unavailable "Apple notification verification is temporarily unavailable")
      else if status ∉ environmentFallbackStatuses then .error (.invalid "Apple signed notification is invalid")
      else selectCandidate signedPayload true rest
    | .error .other => .error (.invalid "Apple signed notification could not be verified")

/-! ### The nested payloads -/

/-- `jwt.decode` without verification: the price and the currency of the
object; none if it raises or there is no object. -/
abbrev JwtDecode := PyValue → Option (Option PyObject × Option PyObject)

/-- `verify_apple_transaction_payload`. -/
def verifyAppleTransactionPayload (jwt : JwtDecode) (verifier : SignedDataVerifier) (signedTransaction : PyValue) :
    Except VerifierFailure (JWSTransactionDecodedPayload × AppleEconomicEvidence) := do
  let payload ← verifier.verifyAndDecodeSignedTransaction signedTransaction
  match jwt signedTransaction with
  | some (price, currency) => return (payload, normalizeAppleEconomicEvidence price currency)
  | none => return (payload, .invalid "raw_payload_unavailable")

/-- The `except` clauses around a nested payload: `unavailable` and `invalid`
are what a retryable failure and any other become. -/
def nested {α : Type} (unavailable invalid : NotificationError) :
    Except VerifierFailure α → Except NotificationError α
  | .ok a => .ok a
  | .error failure =>
    .error (if failure = .verification .retryableVerificationFailure then unavailable else invalid)

/-- The transaction of the payload, if it holds one. -/
def decodeTransaction (jwt : JwtDecode) (verifier : SignedDataVerifier) (environment : String)
    (signedTransactionInfo : PyValue) : Except NotificationError (Option NormalizedAppleNotificationTransaction) :=
  if signedTransactionInfo.truthy then do
    let (payload, evidence) ←
      nested (.unavailable "Apple transaction verification is temporarily unavailable")
        (.transactionData "Apple notification transaction data is invalid")
        (verifyAppleTransactionPayload jwt verifier signedTransactionInfo)
    validateNestedEnvironment payload.environment environment "transaction"
    return some (← normalizeTransaction payload evidence)
  else .ok none

/-- The renewal info of the payload, if it holds one. -/
def decodeRenewal (verifier : SignedDataVerifier) (environment : String) (signedRenewalInfo : PyValue) :
    Except NotificationError (Option NormalizedAppleNotificationRenewal) :=
  if signedRenewalInfo.truthy then do
    let payload ←
      nested (.unavailable "Apple renewal verification is temporarily unavailable")
        (.renewalData "Apple notification renewal data is invalid")
        (verifier.verifyAndDecodeRenewalInfo signedRenewalInfo)
    validateNestedEnvironment payload.environment environment "renewal"
    return some (← normalizeRenewal payload)
  else .ok none

/-! ### The verification -/

/-- `VerifiedAppStoreNotification`. -/
structure VerifiedAppStoreNotification extends NotificationFields where
  hasTransactionInfo : Bool
  hasRenewalInfo : Bool
  transaction : Option NormalizedAppleNotificationTransaction
  renewal : Option NormalizedAppleNotificationRenewal
  deriving DecidableEq

def ResponseBodyV2DecodedPayload.signedTransactionInfo (payload : ResponseBodyV2DecodedPayload) : PyValue :=
  (payload.data.map (·.signedTransactionInfo)).getD .none

def ResponseBodyV2DecodedPayload.signedRenewalInfo (payload : ResponseBodyV2DecodedPayload) : PyValue :=
  (payload.data.map (·.signedRenewalInfo)).getD .none

/-- `verify_app_store_notification` from the loop on. -/
def verifyCandidates (jwt : JwtDecode) (config : AppleSubscriptionsConfig) (signedPayload : String)
    (candidates : List VerifierCandidate) : Except NotificationError VerifiedAppStoreNotification := do
  let ((selectedEnvironment, selectedVerifier), payload) ← selectCandidate signedPayload false candidates
  let fields ← checkPayload config selectedEnvironment payload
  let environment := normalizeAppleSubscriptionEnvironment (.str fields.environment)
  let transaction ← decodeTransaction jwt selectedVerifier environment payload.signedTransactionInfo
  let renewal ← decodeRenewal selectedVerifier environment payload.signedRenewalInfo
  return { fields with
    hasTransactionInfo := transaction.isSome
    hasRenewalInfo := renewal.isSome
    transaction, renewal }

/-- `validated_config`. -/
def validatedConfig (environ : String → Option String) (config : Option AppleSubscriptionsConfig) :
    Except NotificationError AppleSubscriptionsConfig :=
  let given := match config with
    | some c => .ok c
    | none => loadAppleSubscriptionsConfig environ
  (given >>= validateAppleSubscriptionsConfig).mapError fun _ =>
    .configuration "Apple subscriptions configuration is invalid"

/-- `_get_configured_notification_verifier_candidates`; `create` is
`_get_default_app_store_notification_verifier`. -/
def configuredCandidates (create : AppleSubscriptionsConfig → Except NotificationError SignedDataVerifier)
    (config : AppleSubscriptionsConfig) : Except NotificationError (List VerifierCandidate) := do
  let accepted ← acceptedEnvironments config
  (["production", "sandbox"].filter (· ∈ accepted)).mapM fun environment => do
    let verifier ← create { config with environment, acceptedEnvironments := [environment] }
    return (some environment, verifier)

/-- `verifier_candidates`. -/
def verifierCandidates (create : AppleSubscriptionsConfig → Except NotificationError SignedDataVerifier)
    (config : AppleSubscriptionsConfig) (verifier : Option SignedDataVerifier)
    (verifiers : Option (List VerifierCandidate)) : Except NotificationError (List VerifierCandidate) := do
  let candidates ← match verifier, verifiers with
    | some _, some _ => .error (.valueError "verifier and verifiers cannot both be provided")
    | some v, none => .ok [(none, v)]
    | none, some l => .ok l
    | none, none => configuredCandidates create config
  if candidates = [] then .error (.configuration "No Apple notification verifier is configured")
  else return candidates

/-- `verify_app_store_notification`. -/
def verifyAppStoreNotification (jwt : JwtDecode)
    (create : AppleSubscriptionsConfig → Except NotificationError SignedDataVerifier)
    (environ : String → Option String) (signedPayload : String) (config : Option AppleSubscriptionsConfig)
    (verifier : Option SignedDataVerifier) (verifiers : Option (List VerifierCandidate)) :
    Except NotificationError VerifiedAppStoreNotification :=
  if strip signedPayload = "" then .error (.invalid "Apple signed notification is required")
  else do
    let validated ← validatedConfig environ config
    let candidates ← verifierCandidates create validated verifier verifiers
    verifyCandidates jwt validated (strip signedPayload) candidates

/-! ### The candidate that is reached -/

/-- The verifier fails in a way that may come from the wrong environment. -/
def FallsBack (signedPayload : String) (verifier : SignedDataVerifier) : Prop :=
  ∃ status ∈ environmentFallbackStatuses,
    verifier.verifyAndDecodeNotification signedPayload = .error (.verification status)

/-- The loop comes to the candidate: all before it fall back. -/
def Reached (signedPayload : String) (candidates : List VerifierCandidate) (c : VerifierCandidate) : Prop :=
  ∃ before after, candidates = before ++ c :: after ∧ ∀ x ∈ before, FallsBack signedPayload x.2

theorem reached_cons {signedPayload : String} {x c : VerifierCandidate} {rest : List VerifierCandidate} :
    Reached signedPayload (x :: rest) c ↔ c = x ∨ (FallsBack signedPayload x.2 ∧ Reached signedPayload rest c) := by
  constructor
  · rintro ⟨before, after, hsplit, hbefore⟩
    cases before with
    | nil => exact .inl (List.cons.inj hsplit).1.symm
    | cons y before =>
      obtain ⟨rfl, hrest⟩ := List.cons.inj hsplit
      exact .inr ⟨hbefore x List.mem_cons_self, before, after, hrest, fun z hz =>
        hbefore z (List.mem_cons_of_mem x hz)⟩
  · rintro (rfl | ⟨hx, before, after, rfl, hbefore⟩)
    · exact ⟨[], rest, rfl, by simp⟩
    · refine ⟨x :: before, after, rfl, fun z hz => ?_⟩
      rcases List.mem_cons.mp hz with rfl | hz
      · exact hx
      · exact hbefore z hz

theorem not_reached_nil (signedPayload : String) (c : VerifierCandidate) : ¬ Reached signedPayload [] c := by
  rintro ⟨before, after, hsplit, -⟩
  simp at hsplit

/-- What a candidate that does not fall back makes of the loop. -/
def verdict (signedPayload : String) (c : VerifierCandidate) :
    Except NotificationError (VerifierCandidate × ResponseBodyV2DecodedPayload) :=
  match c.2.verifyAndDecodeNotification signedPayload with
  | .ok payload => .ok (c, payload)
  | .error (.verification .retryableVerificationFailure) =>
    .error (.unavailable "Apple notification verification is temporarily unavailable")
  | .error (.verification _) => .error (.invalid "Apple signed notification is invalid")
  | .error .other => .error (.invalid "Apple signed notification could not be verified")

theorem selectCandidate_fallsBack {signedPayload : String} (failed : Bool) {x : VerifierCandidate}
    (rest : List VerifierCandidate) (h : FallsBack signedPayload x.2) :
    selectCandidate signedPayload failed (x :: rest) = selectCandidate signedPayload true rest := by
  obtain ⟨status, hs, hv⟩ := h
  have hretry : status ≠ .retryableVerificationFailure := by
    rintro rfl
    exact absurd hs (by decide)
  rw [selectCandidate, hv]
  dsimp only
  rw [if_neg hretry, if_neg (not_not.mpr hs)]

theorem selectCandidate_verdict {signedPayload : String} (failed : Bool) {x : VerifierCandidate}
    (rest : List VerifierCandidate) (h : ¬ FallsBack signedPayload x.2) :
    selectCandidate signedPayload failed (x :: rest) = verdict signedPayload x := by
  rw [selectCandidate]
  unfold verdict
  cases hv : x.2.verifyAndDecodeNotification signedPayload with
  | ok payload => rfl
  | error failure =>
    cases failure with
    | other => rfl
    | verification status =>
      have hs : status ∉ environmentFallbackStatuses := fun hs => h ⟨status, hs, hv⟩
      cases status <;> first | rfl | exact absurd (by decide) hs

/-- The candidate that is reached and does not fall back decides. -/
theorem selectCandidate_of_reached {signedPayload : String} {c : VerifierCandidate}
    (h : ¬ FallsBack signedPayload c.2) : ∀ {candidates : List VerifierCandidate} (failed : Bool),
    Reached signedPayload candidates c → selectCandidate signedPayload failed candidates = verdict signedPayload c
  | [], _, hc => absurd hc (not_reached_nil _ _)
  | x :: rest, failed, hc => by
    by_cases hx : FallsBack signedPayload x.2
    · rw [selectCandidate_fallsBack failed rest hx]
      rcases reached_cons.mp hc with rfl | ⟨-, hrest⟩
      · exact absurd hx h
      · exact selectCandidate_of_reached h true hrest
    · obtain rfl : c = x := (reached_cons.mp hc).resolve_right fun hr => hx hr.1
      exact selectCandidate_verdict failed rest h

/-- Where every candidate falls back the notification is invalid. -/
theorem selectCandidate_cases (signedPayload : String) : ∀ (candidates : List VerifierCandidate) (failed : Bool),
    (∃ c, Reached signedPayload candidates c ∧ ¬ FallsBack signedPayload c.2) ∨
      ∃ message, selectCandidate signedPayload failed candidates = .error (.invalid message)
  | [], _ => .inr ⟨_, rfl⟩
  | x :: rest, failed => by
    by_cases hx : FallsBack signedPayload x.2
    · rw [selectCandidate_fallsBack failed rest hx]
      rcases selectCandidate_cases signedPayload rest true with ⟨c, hc, hn⟩ | hinvalid
      · exact .inl ⟨c, reached_cons.mpr (.inr ⟨hx, hc⟩), hn⟩
      · exact .inr hinvalid
    · exact .inl ⟨x, reached_cons.mpr (.inl rfl), hx⟩

theorem verdict_ok_iff {signedPayload : String} {c d : VerifierCandidate} {payload : ResponseBodyV2DecodedPayload} :
    verdict signedPayload c = .ok (d, payload) ↔
      c = d ∧ c.2.verifyAndDecodeNotification signedPayload = .ok payload := by
  unfold verdict
  split <;> simp_all

theorem verdict_unavailable_iff {signedPayload : String} {c : VerifierCandidate} :
    Unavailable (verdict signedPayload c) ↔
      c.2.verifyAndDecodeNotification signedPayload = .error (.verification .retryableVerificationFailure) := by
  unfold Unavailable verdict
  split <;> simp_all

/-- **The candidate that the loop selects** is the first that does not fall
back, and it accepted the payload. -/
theorem selectCandidate_ok_iff {signedPayload : String} {failed : Bool} {candidates : List VerifierCandidate}
    {c : VerifierCandidate} {payload : ResponseBodyV2DecodedPayload} :
    selectCandidate signedPayload failed candidates = .ok (c, payload) ↔
      Reached signedPayload candidates c ∧ c.2.verifyAndDecodeNotification signedPayload = .ok payload := by
  constructor
  · intro h
    rcases selectCandidate_cases signedPayload candidates failed with ⟨d, hd, hn⟩ | ⟨message, hinvalid⟩
    · rw [selectCandidate_of_reached hn failed hd] at h
      obtain ⟨rfl, hv⟩ := verdict_ok_iff.mp h
      exact ⟨hd, hv⟩
    · rw [hinvalid] at h
      simp at h
  · rintro ⟨hc, hv⟩
    have hn : ¬ FallsBack signedPayload c.2 := by
      rintro ⟨status, -, hfail⟩
      rw [hv] at hfail
      simp at hfail
    rw [selectCandidate_of_reached hn failed hc]
    exact verdict_ok_iff.mpr ⟨rfl, hv⟩

theorem selectCandidate_unavailable_iff {signedPayload : String} {failed : Bool}
    {candidates : List VerifierCandidate} :
    Unavailable (selectCandidate signedPayload failed candidates) ↔ ∃ c, Reached signedPayload candidates c ∧
      c.2.verifyAndDecodeNotification signedPayload = .error (.verification .retryableVerificationFailure) := by
  constructor
  · intro h
    rcases selectCandidate_cases signedPayload candidates failed with ⟨d, hd, hn⟩ | ⟨message, hinvalid⟩
    · rw [selectCandidate_of_reached hn failed hd] at h
      exact ⟨d, hd, verdict_unavailable_iff.mp h⟩
    · simp [Unavailable, hinvalid] at h
  · rintro ⟨c, hc, hv⟩
    have hn : ¬ FallsBack signedPayload c.2 := by
      rintro ⟨status, hs, hfail⟩
      rw [hv] at hfail
      obtain rfl : VerificationStatus.retryableVerificationFailure = status := by simpa using hfail
      exact absurd hs (by decide)
    rw [selectCandidate_of_reached hn failed hc]
    exact verdict_unavailable_iff.mpr hv

/-! ### One environment throughout -/

theorem enumValue_enumValue (value : PyValue) : enumValue (enumValue value) = enumValue value := by
  cases value with
  | enum mixin v => cases v <;> rfl
  | _ => rfl

theorem normalize_enumValue (value : PyValue) :
    normalizeAppleSubscriptionEnvironment (enumValue value) = normalizeAppleSubscriptionEnvironment value := by
  unfold normalizeAppleSubscriptionEnvironment
  rw [enumValue_enumValue]

/-- The canonical spelling normalizes back. -/
theorem normalize_canonical {e c : String} (h : canonicalEnvironment e = some c) :
    normalizeAppleSubscriptionEnvironment (.str c) = e := by
  unfold canonicalEnvironment at h
  split at h
  · rw [← Option.some.inj h]
    decide
  · rw [← Option.some.inj h]
    decide
  · exact absurd h (by simp)

theorem orRaise_ok {α : Type} {x : Option α} {e : NotificationError} {a : α} (h : orRaise x e = .ok a) :
    x = some a := by
  cases x with
  | none => exact absurd h (by simp [orRaise])
  | some b => exact congrArg some (Except.ok.inj h)

/-- A required text normalizes as the value that it was read from. -/
theorem normalize_requiredText {value : PyValue} {fieldName s : String}
    (h : requiredText (enumValue value) fieldName = .ok s) :
    normalizeAppleSubscriptionEnvironment (.str s) = normalizeAppleSubscriptionEnvironment value := by
  obtain ⟨t, ht, hs⟩ := Option.bind_eq_some_iff.mp (orRaise_ok h)
  have hstrip : s = strip t := by
    unfold strip? at hs
    split_ifs at hs
    exact (Option.some.inj hs).symm
  show lower (strip s) = _
  unfold normalizeAppleSubscriptionEnvironment
  rw [ht, hstrip, strip_strip]

/-- A checked payload is of an accepted environment, the one of the label. -/
structure CheckedEnvironment (config : AppleSubscriptionsConfig) (expected : Option String)
    (payload : ResponseBodyV2DecodedPayload) (spelling e : String) : Prop where
  accepted : e ∈ config.accepted
  canonical : canonicalEnvironment e = some spelling
  carried : normalizeAppleSubscriptionEnvironment (notificationMetadata payload).2.2 = e
  expected : ∀ label ∈ expected, label = e

theorem validateNotificationMetadata_ok {payload : ResponseBodyV2DecodedPayload} {config : AppleSubscriptionsConfig}
    {expected : Option String} {bundleId environment : String} {appAppleId : PyValue} (hvalid : config.Valid)
    (h : validateNotificationMetadata payload config expected = .ok (bundleId, appAppleId, environment)) :
    ∃ e, CheckedEnvironment config expected payload environment e := by
  unfold validateNotificationMetadata at h
  dsimp only at h
  obtain ⟨b, -, h⟩ := bind_eq_ok.mp h
  obtain ⟨text, htext, h⟩ := bind_eq_ok.mp h
  obtain ⟨accepted, haccepted, h⟩ := bind_eq_ok.mp h
  obtain ⟨same, -, h⟩ := bind_eq_ok.mp h
  have hlist : config.accepted = accepted := by
    have hok := mapError_eq_ok.mp haccepted
    rw [hvalid.acceptedEnvironments] at hok
    exact Except.ok.inj hok
  split_ifs at h with hsame hmem hexpected happ
  obtain ⟨canonical, hcanonical, h⟩ := bind_eq_ok.mp h
  obtain ⟨-, -, rfl⟩ : b = bundleId ∧ (notificationMetadata payload).2.1 = appAppleId ∧ canonical = environment := by
    simpa [pure, Except.pure] using h
  refine ⟨_, ?_, orRaise_ok hcanonical, (normalize_requiredText htext).symm, fun label hlabel => ?_⟩
  · rw [hlist]
    exact hmem
  · rw [Option.mem_def.mp hlabel, Option.any_some, decide_eq_true_eq, not_not] at hexpected
    exact hexpected.symm

theorem checkPayload_ok {config : AppleSubscriptionsConfig} {expected : Option String}
    {payload : ResponseBodyV2DecodedPayload} {fields : NotificationFields} (hvalid : config.Valid)
    (h : checkPayload config expected payload = .ok fields) :
    ∃ e, CheckedEnvironment config expected payload fields.environment e := by
  obtain ⟨notificationType, -, h⟩ := bind_eq_ok.mp h
  obtain ⟨uuid, -, h⟩ := bind_eq_ok.mp h
  obtain ⟨signedDate, -, h⟩ := bind_eq_ok.mp h
  obtain ⟨⟨bundleId, appAppleId, environment⟩, hmetadata, h⟩ := bind_eq_ok.mp h
  obtain rfl := Except.ok.inj h
  exact validateNotificationMetadata_ok hvalid hmetadata

theorem validateNestedEnvironment_ok {value : PyValue} {expected dataType : String}
    (h : validateNestedEnvironment value expected dataType = .ok ()) :
    normalizeAppleSubscriptionEnvironment value = expected := by
  unfold validateNestedEnvironment at h
  split_ifs at h with hne
  rw [normalize_enumValue] at hne
  exact not_not.mp hne

theorem nested_ok {α : Type} {unavailable invalid : NotificationError} {x : Except VerifierFailure α} {a : α}
    (h : nested unavailable invalid x = .ok a) : x = .ok a := by
  cases x with
  | ok b => exact congrArg Except.ok (Except.ok.inj h)
  | error f => exact absurd h (by simp [nested])

theorem verifyAppleTransactionPayload_ok {jwt : JwtDecode} {verifier : SignedDataVerifier} {info : PyValue}
    {payload : JWSTransactionDecodedPayload} {evidence : AppleEconomicEvidence}
    (h : verifyAppleTransactionPayload jwt verifier info = .ok (payload, evidence)) :
    verifier.verifyAndDecodeSignedTransaction info = .ok payload := by
  obtain ⟨p, hp, h⟩ := bind_eq_ok.mp h
  split at h
  · obtain ⟨rfl, -⟩ := Prod.mk.inj (Except.ok.inj h)
    exact hp
  · obtain ⟨rfl, -⟩ := Prod.mk.inj (Except.ok.inj h)
    exact hp

/-- The verifier decoded the transaction, and it is of the environment. -/
def TransactionOf (verifier : SignedDataVerifier) (environment : String) (info : PyValue)
    (transaction : NormalizedAppleNotificationTransaction) : Prop :=
  ∃ payload evidence, verifier.verifyAndDecodeSignedTransaction info = .ok payload ∧
    normalizeAppleSubscriptionEnvironment payload.environment = environment ∧
    normalizeTransaction payload evidence = .ok transaction

/-- The verifier decoded the renewal info, and it is of the environment. -/
def RenewalOf (verifier : SignedDataVerifier) (environment : String) (info : PyValue)
    (renewal : NormalizedAppleNotificationRenewal) : Prop :=
  ∃ payload, verifier.verifyAndDecodeRenewalInfo info = .ok payload ∧
    normalizeAppleSubscriptionEnvironment payload.environment = environment ∧
    normalizeRenewal payload = .ok renewal

theorem decodeTransaction_ok {jwt : JwtDecode} {verifier : SignedDataVerifier} {environment : String}
    {info : PyValue} {transaction : Option NormalizedAppleNotificationTransaction}
    (h : decodeTransaction jwt verifier environment info = .ok transaction) :
    ∀ t ∈ transaction, TransactionOf verifier environment info t := by
  intro t ht
  unfold decodeTransaction at h
  split_ifs at h
  · obtain ⟨⟨payload, evidence⟩, hpayload, h⟩ := bind_eq_ok.mp h
    obtain ⟨_, henvironment, h⟩ := bind_eq_ok.mp h
    obtain ⟨n, hn, h⟩ := bind_eq_ok.mp h
    obtain rfl := Except.ok.inj h
    obtain rfl : n = t := Option.some.inj ht
    exact ⟨payload, evidence, verifyAppleTransactionPayload_ok (nested_ok hpayload),
      validateNestedEnvironment_ok henvironment, hn⟩
  · obtain rfl := Except.ok.inj h
    simp at ht

theorem decodeRenewal_ok {verifier : SignedDataVerifier} {environment : String} {info : PyValue}
    {renewal : Option NormalizedAppleNotificationRenewal}
    (h : decodeRenewal verifier environment info = .ok renewal) :
    ∀ r ∈ renewal, RenewalOf verifier environment info r := by
  intro r hr
  unfold decodeRenewal at h
  split_ifs at h
  · obtain ⟨payload, hpayload, h⟩ := bind_eq_ok.mp h
    obtain ⟨_, henvironment, h⟩ := bind_eq_ok.mp h
    obtain ⟨n, hn, h⟩ := bind_eq_ok.mp h
    obtain rfl := Except.ok.inj h
    obtain rfl : n = r := Option.some.inj hr
    exact ⟨payload, nested_ok hpayload, validateNestedEnvironment_ok henvironment, hn⟩
  · obtain rfl := Except.ok.inj h
    simp at hr

/-- The candidate `c` accepted the payload, and the result is of the
environment `e` throughout. -/
structure Decoded (signedPayload : String) (c : VerifierCandidate) (payload : ResponseBodyV2DecodedPayload)
    (e : String) (n : VerifiedAppStoreNotification) : Prop where
  outer : c.2.verifyAndDecodeNotification signedPayload = .ok payload
  label : ∀ l ∈ c.1, l = e
  spelling : canonicalEnvironment e = some n.environment
  environment : normalizeAppleSubscriptionEnvironment (.str n.environment) = e
  carried : normalizeAppleSubscriptionEnvironment (notificationMetadata payload).2.2 = e
  transaction : ∀ t ∈ n.transaction, TransactionOf c.2 e payload.signedTransactionInfo t
  renewal : ∀ r ∈ n.renewal, RenewalOf c.2 e payload.signedRenewalInfo r

/-- **A result is of one environment**, and all of it was decoded by the
candidate that accepted the payload. -/
theorem verifyCandidates_decoded {jwt : JwtDecode} {config : AppleSubscriptionsConfig} {signedPayload : String}
    {candidates : List VerifierCandidate} {n : VerifiedAppStoreNotification} (hvalid : config.Valid)
    (h : verifyCandidates jwt config signedPayload candidates = .ok n) :
    ∃ c payload e, Reached signedPayload candidates c ∧ e ∈ config.accepted ∧
      Decoded signedPayload c payload e n := by
  obtain ⟨⟨⟨label, verifier⟩, payload⟩, hselect, h⟩ := bind_eq_ok.mp h
  obtain ⟨fields, hfields, h⟩ := bind_eq_ok.mp h
  obtain ⟨transaction, htransaction, h⟩ := bind_eq_ok.mp h
  obtain ⟨renewal, hrenewal, h⟩ := bind_eq_ok.mp h
  obtain rfl := Except.ok.inj h
  obtain ⟨hreached, houter⟩ := selectCandidate_ok_iff.mp hselect
  obtain ⟨e, he⟩ := checkPayload_ok hvalid hfields
  have hnormal := normalize_canonical he.canonical
  rw [hnormal] at htransaction hrenewal
  exact ⟨_, payload, e, hreached, he.accepted, houter, he.expected, he.canonical, hnormal, he.carried,
    decodeTransaction_ok htransaction, decodeRenewal_ok hrenewal⟩

/-! ### Trying again -/

theorem nested_unavailable_iff {α : Type} {m : String} {invalid : NotificationError}
    (hinvalid : ∀ message, invalid ≠ .unavailable message) {x : Except VerifierFailure α} :
    Unavailable (nested (.unavailable m) invalid x) ↔ x = .error (.verification .retryableVerificationFailure) := by
  unfold Unavailable nested
  cases x with
  | ok a => simp
  | error f => by_cases hf : f = .verification .retryableVerificationFailure <;> simp [hf, hinvalid]

theorem final_validateNestedEnvironment (value : PyValue) (expected dataType : String) :
    Final (validateNestedEnvironment value expected dataType) := by
  unfold validateNestedEnvironment
  dsimp only
  split_ifs
  · exact final_error fun _ => by simp
  · exact final_error fun _ => by simp
  · exact final_ok _

theorem final_validateNotificationMetadata (payload : ResponseBodyV2DecodedPayload)
    (config : AppleSubscriptionsConfig) (expected : Option String) :
    Final (validateNotificationMetadata payload config expected) := by
  have haccepted : Final (acceptedEnvironments config) := by
    unfold acceptedEnvironments
    cases getAppleSubscriptionAcceptedEnvironments config with
    | ok l => exact final_ok l
    | error m => exact final_error fun _ => by simp
  have hdigest : ∀ a b, Final (compareDigest a b) := fun a b => by
    unfold compareDigest
    split_ifs
    · exact final_ok _
    · exact final_error fun _ => by simp
  have hcanonical : ∀ e, Final (orRaise (canonicalEnvironment e) .keyError) := fun e =>
    final_orRaise _ fun _ => by simp
  refine (final_requiredText _ _).bind fun _ => ?_
  refine (final_requiredText _ _).bind fun environment => ?_
  generalize normalizeAppleSubscriptionEnvironment (.str environment) = normalized
  refine haccepted.bind fun _ => ?_
  refine (hdigest _ _).bind fun _ => ?_
  split_ifs
  · exact final_error fun _ => by simp
  · exact final_error fun _ => by simp
  · exact (hcanonical normalized).bind fun _ => final_ok _
  · exact final_error fun _ => by simp
  · exact final_error fun _ => by simp

theorem final_checkPayload (config : AppleSubscriptionsConfig) (expected : Option String)
    (payload : ResponseBodyV2DecodedPayload) : Final (checkPayload config expected payload) := by
  refine (final_orRaise _ fun _ => by simp).bind fun _ => ?_
  refine (final_requiredText _ _).bind fun _ => ?_
  refine (final_requiredMillisecondsDatetime (fun _ _ => by simp) _ _).bind fun _ => ?_
  exact (final_validateNotificationMetadata _ _ _).bind fun _ => final_ok _

theorem verifyAppleTransactionPayload_error_iff {jwt : JwtDecode} {verifier : SignedDataVerifier} {info : PyValue}
    {failure : VerifierFailure} : verifyAppleTransactionPayload jwt verifier info = .error failure ↔
      verifier.verifyAndDecodeSignedTransaction info = .error failure := by
  unfold verifyAppleTransactionPayload
  rw [bind_eq_error]
  constructor
  · rintro (h | ⟨p, -, h⟩)
    · exact h
    · split at h <;> exact absurd h (by simp [pure, Except.pure])
  · exact .inl

theorem decodeTransaction_unavailable_iff {jwt : JwtDecode} {verifier : SignedDataVerifier} {environment : String}
    {info : PyValue} : Unavailable (decodeTransaction jwt verifier environment info) ↔ info.truthy = true ∧
      verifier.verifyAndDecodeSignedTransaction info = .error (.verification .retryableVerificationFailure) := by
  unfold decodeTransaction
  split_ifs with hheld
  · rw [unavailable_bind_iff, nested_unavailable_iff fun _ => by simp, verifyAppleTransactionPayload_error_iff]
    have hrest : ∀ p : JWSTransactionDecodedPayload × AppleEconomicEvidence, Final (do
        validateNestedEnvironment p.1.environment environment "transaction"
        return some (← normalizeTransaction p.1 p.2)) := fun p =>
      (final_validateNestedEnvironment _ _ _).bind fun _ =>
        (final_normalizeTransaction _ _).bind fun _ => final_ok _
    constructor
    · rintro (h | ⟨p, -, h⟩)
      · exact ⟨hheld, h⟩
      · exact absurd h (hrest p)
    · exact fun h => .inl h.2
  · exact ⟨fun h => absurd h (final_ok _), fun h => absurd h.1 hheld⟩

theorem decodeRenewal_unavailable_iff {verifier : SignedDataVerifier} {environment : String} {info : PyValue} :
    Unavailable (decodeRenewal verifier environment info) ↔ info.truthy = true ∧
      verifier.verifyAndDecodeRenewalInfo info = .error (.verification .retryableVerificationFailure) := by
  unfold decodeRenewal
  split_ifs with hheld
  · rw [unavailable_bind_iff, nested_unavailable_iff fun _ => by simp]
    have hrest : ∀ p : JWSRenewalInfoDecodedPayload, Final (do
        validateNestedEnvironment p.environment environment "renewal"
        return some (← normalizeRenewal p)) := fun p =>
      (final_validateNestedEnvironment _ _ _).bind fun _ => (final_normalizeRenewal _).bind fun _ => final_ok _
    constructor
    · rintro (h | ⟨p, -, h⟩)
      · exact ⟨hheld, h⟩
      · exact absurd h (hrest p)
    · exact fun h => .inl h.2
  · exact ⟨fun h => absurd h (final_ok _), fun h => absurd h.1 hheld⟩

/-- The first failure that decides is retryable: the one of the candidate that
is reached, or, once the payload has passed its checks, the one of the
transaction, or, once the transaction has passed, the one of the renewal. -/
inductive RetryableFirst (jwt : JwtDecode) (config : AppleSubscriptionsConfig) (signedPayload : String)
    (candidates : List VerifierCandidate) : Prop where
  | notification (c : VerifierCandidate) (reached : Reached signedPayload candidates c)
      (retryable : c.2.verifyAndDecodeNotification signedPayload =
        .error (.verification .retryableVerificationFailure))
  | transaction (c : VerifierCandidate) (payload : ResponseBodyV2DecodedPayload) (fields : NotificationFields)
      (reached : Reached signedPayload candidates c)
      (accepted : c.2.verifyAndDecodeNotification signedPayload = .ok payload)
      (checked : checkPayload config c.1 payload = .ok fields)
      (held : payload.signedTransactionInfo.truthy = true)
      (retryable : c.2.verifyAndDecodeSignedTransaction payload.signedTransactionInfo =
        .error (.verification .retryableVerificationFailure))
  | renewal (c : VerifierCandidate) (payload : ResponseBodyV2DecodedPayload) (fields : NotificationFields)
      (transaction : Option NormalizedAppleNotificationTransaction)
      (reached : Reached signedPayload candidates c)
      (accepted : c.2.verifyAndDecodeNotification signedPayload = .ok payload)
      (checked : checkPayload config c.1 payload = .ok fields)
      (passed : decodeTransaction jwt c.2 (normalizeAppleSubscriptionEnvironment (.str fields.environment))
        payload.signedTransactionInfo = .ok transaction)
      (held : payload.signedRenewalInfo.truthy = true)
      (retryable : c.2.verifyAndDecodeRenewalInfo payload.signedRenewalInfo =
        .error (.verification .retryableVerificationFailure))

/-- **The caller is to try again** exactly if the first failure that decides
is retryable. -/
theorem verifyCandidates_unavailable_iff {jwt : JwtDecode} {config : AppleSubscriptionsConfig}
    {signedPayload : String} {candidates : List VerifierCandidate} :
    Unavailable (verifyCandidates jwt config signedPayload candidates) ↔
      RetryableFirst jwt config signedPayload candidates := by
  unfold verifyCandidates
  rw [unavailable_bind_iff, selectCandidate_unavailable_iff]
  constructor
  · rintro (⟨c, hc, hretry⟩ | ⟨⟨c, payload⟩, hselect, h⟩)
    · exact .notification c hc hretry
    · obtain ⟨hreached, houter⟩ := selectCandidate_ok_iff.mp hselect
      rcases unavailable_bind_iff.mp h with h | ⟨fields, hfields, h⟩
      · exact absurd h (final_checkPayload _ _ _)
      rcases unavailable_bind_iff.mp h with h | ⟨transaction, htransaction, h⟩
      · obtain ⟨hheld, hretry⟩ := decodeTransaction_unavailable_iff.mp h
        exact .transaction c payload fields hreached houter hfields hheld hretry
      rcases unavailable_bind_iff.mp h with h | ⟨renewal, -, h⟩
      · obtain ⟨hheld, hretry⟩ := decodeRenewal_unavailable_iff.mp h
        exact .renewal c payload fields transaction hreached houter hfields htransaction hheld hretry
      · exact absurd h (final_ok _)
  · intro h
    cases h with
    | notification c reached retryable => exact .inl ⟨c, reached, retryable⟩
    | transaction c payload fields reached accepted checked held retryable =>
      refine .inr ⟨(c, payload), selectCandidate_ok_iff.mpr ⟨reached, accepted⟩, ?_⟩
      refine unavailable_bind_iff.mpr (.inr ⟨fields, checked, ?_⟩)
      exact unavailable_bind_iff.mpr (.inl (decodeTransaction_unavailable_iff.mpr ⟨held, retryable⟩))
    | renewal c payload fields transaction reached accepted checked passed held retryable =>
      refine .inr ⟨(c, payload), selectCandidate_ok_iff.mpr ⟨reached, accepted⟩, ?_⟩
      refine unavailable_bind_iff.mpr (.inr ⟨fields, checked, ?_⟩)
      refine unavailable_bind_iff.mpr (.inr ⟨transaction, passed, ?_⟩)
      exact unavailable_bind_iff.mpr (.inl (decodeRenewal_unavailable_iff.mpr ⟨held, retryable⟩))

/-! ### The verdict -/

theorem validatedConfig_valid {environ : String → Option String} {config : Option AppleSubscriptionsConfig}
    {v : AppleSubscriptionsConfig} (h : validatedConfig environ config = .ok v) : v.Valid := by
  obtain ⟨c, -, hc⟩ := bind_eq_ok.mp (mapError_eq_ok.mp h)
  exact valid_of_ok hc

/-- With a payload, a valid configuration and candidates it is the loop. -/
theorem verifyAppStoreNotification_eq (jwt : JwtDecode)
    {create : AppleSubscriptionsConfig → Except NotificationError SignedDataVerifier}
    {environ : String → Option String} {signedPayload : String} {config : Option AppleSubscriptionsConfig}
    {verifier : Option SignedDataVerifier} {verifiers : Option (List VerifierCandidate)}
    {v : AppleSubscriptionsConfig} {candidates : List VerifierCandidate} (hpayload : strip signedPayload ≠ "")
    (hv : validatedConfig environ config = .ok v)
    (hcandidates : verifierCandidates create v verifier verifiers = .ok candidates) :
    verifyAppStoreNotification jwt create environ signedPayload config verifier verifiers =
      verifyCandidates jwt v (strip signedPayload) candidates := by
  unfold verifyAppStoreNotification
  rw [if_neg hpayload, hv]
  show (verifierCandidates create v verifier verifiers >>= fun l => verifyCandidates jwt v (strip signedPayload) l) = _
  rw [hcandidates]
  rfl

/-- **The verdict on a notification.** However the candidates are chosen:
a result is of one accepted environment, the label of the candidate that
accepted the payload, which decoded the transaction and the renewal info of
that environment too; and the call is unavailable exactly if the first failure
that decides is retryable. -/
theorem notification_verdict (jwt : JwtDecode)
    (create : AppleSubscriptionsConfig → Except NotificationError SignedDataVerifier)
    (environ : String → Option String) (signedPayload : String) (config : Option AppleSubscriptionsConfig)
    (verifier : Option SignedDataVerifier) (verifiers : Option (List VerifierCandidate)) :
    (∀ n, verifyAppStoreNotification jwt create environ signedPayload config verifier verifiers = .ok n →
      ∃ v candidates, validatedConfig environ config = .ok v ∧
        verifierCandidates create v verifier verifiers = .ok candidates ∧
        ∃ c payload e, Reached (strip signedPayload) candidates c ∧ e ∈ v.accepted ∧
          Decoded (strip signedPayload) c payload e n) ∧
    (∀ v candidates, strip signedPayload ≠ "" → validatedConfig environ config = .ok v →
      verifierCandidates create v verifier verifiers = .ok candidates →
      (Unavailable (verifyAppStoreNotification jwt create environ signedPayload config verifier verifiers) ↔
        RetryableFirst jwt v (strip signedPayload) candidates)) := by
  constructor
  · intro n h
    unfold verifyAppStoreNotification at h
    split_ifs at h
    obtain ⟨v, hv, h⟩ := bind_eq_ok.mp h
    obtain ⟨candidates, hcandidates, h⟩ := bind_eq_ok.mp h
    exact ⟨v, candidates, hv, hcandidates, verifyCandidates_decoded (validatedConfig_valid hv) h⟩
  · intro v candidates hpayload hv hcandidates
    rw [verifyAppStoreNotification_eq jwt hpayload hv hcandidates]
    exact verifyCandidates_unavailable_iff

/-- Both environments are accepted. -/
def bothAcceptedConfig : AppleSubscriptionsConfig :=
  ⟨"MB.FuelNear", "production", some 7, some "/roots", true, ["production", "sandbox"]⟩

def didRenewPayload : ResponseBodyV2DecodedPayload where
  notificationType := .enum true (.inr "DID_RENEW")
  notificationUUID := .str "n"
  signedDate := .int 1700000000000
  data := some ⟨.str "MB.FuelNear", .none, sandboxEnvironment, .str "t", .str "r"⟩

def decodedTransactionPayload : JWSTransactionDecodedPayload where
  productId := .str "MB.FuelNear.plus.monthly"
  transactionId := .str "t"
  originalTransactionId := .str "o"
  purchaseDate := .int 1700000000000
  environment := sandboxEnvironment

def decodedRenewalPayload : JWSRenewalInfoDecodedPayload where
  autoRenewStatus := .enum true (.inl 1)
  productId := .str "MB.FuelNear.plus.monthly"
  environment := sandboxEnvironment

/-- The production verifier finds another environment, the sandbox verifier
decodes all but, perhaps, the renewal info. -/
def productionThenSandbox (renewal : Except VerifierFailure JWSRenewalInfoDecodedPayload) : List VerifierCandidate :=
  [(some "production", ⟨fun _ => .error (.verification .invalidEnvironment), fun _ => .error .other,
      fun _ => .error .other⟩),
    (some "sandbox", ⟨fun _ => .ok didRenewPayload, fun _ => .ok decodedTransactionPayload, fun _ => renewal⟩)]

def verifyDidRenew (renewal : Except VerifierFailure JWSRenewalInfoDecodedPayload) :
    Except NotificationError VerifiedAppStoreNotification :=
  verifyAppStoreNotification (fun _ => none) (fun _ => .error .keyError) (fun _ => none) "signed"
    (some bothAcceptedConfig) none (some (productionThenSandbox renewal))

/-- The sandbox verifier is reached and decodes all; a renewal info that it is to
decode later makes the caller try again. -/
theorem notification_verdict_sample :
    (∃ n c payload e, verifyDidRenew (.ok decodedRenewalPayload) = .ok n ∧
      (n.environment, n.hasTransactionInfo, n.hasRenewalInfo) = ("Sandbox", true, true) ∧
      Reached (strip "signed") (productionThenSandbox (.ok decodedRenewalPayload)) c ∧
      Decoded (strip "signed") c payload e n) ∧
    ∃ v, validatedConfig (fun _ => none) (some bothAcceptedConfig) = .ok v ∧
      RetryableFirst (fun _ => none) v (strip "signed")
        (productionThenSandbox (.error (.verification .retryableVerificationFailure))) := by
  constructor
  · have hresult : (verifyDidRenew (.ok decodedRenewalPayload)).toOption.map
        (fun n => (n.environment, n.hasTransactionInfo, n.hasRenewalInfo)) = some ("Sandbox", true, true) := by
      decide +kernel
    obtain ⟨n, hn, hfields⟩ := Option.map_eq_some_iff.mp hresult
    have hn := toOption_eq_some.mp hn
    obtain ⟨v, candidates, -, hcandidates, c, payload, e, hreached, -, hdecoded⟩ :=
      (notification_verdict _ _ _ _ _ _ _).1 n hn
    obtain rfl := Except.ok.inj hcandidates
    exact ⟨n, c, payload, e, hn, hfields, hreached, hdecoded⟩
  · have hvalid : (validatedConfig (fun _ => none) (some bothAcceptedConfig)).toOption.isSome := by decide +kernel
    obtain ⟨v, hv⟩ := Option.isSome_iff_exists.mp hvalid
    have hv := toOption_eq_some.mp hv
    have hretry : verifyDidRenew (.error (.verification .retryableVerificationFailure)) =
        .error (.unavailable "Apple renewal verification is temporarily unavailable") := by decide +kernel
    exact ⟨v, hv, ((notification_verdict _ _ _ _ _ _ _).2 v _ (by decide +kernel) hv rfl).mp ⟨_, hretry⟩⟩

end Apple
end FuelNear

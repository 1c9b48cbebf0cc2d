/-
# The configuration of the Apple subscriptions

What the environment variables say (`load_apple_subscriptions_config`) and
what of it is accepted (`validate_apple_subscriptions_config`). A validated
configuration is in its normal form: the bundle id is stripped, and the
environments are among `sandbox` and `production`, so that validating it again
gives it back (`AppleSubscriptionsConfig.Valid.again`) and its accepted environments can be asked
for at any time.

Key definitions: `PyValue`, `AppleSubscriptionsConfig`,
`validateAppleSubscriptionsConfig`, `getAppleSubscriptionAcceptedEnvironments`.
Key theorems: `valid_of_ok`, `AppleSubscriptionsConfig.Valid.again`,
`AppleSubscriptionsConfig.Valid.acceptedEnvironments`.
-/
import FuelNear.Text
import FuelNear.Runs
import Mathlib.Data.Rat.Defs

namespace FuelNear
namespace Apple

open Text

/-! ### Values -/

/-- A Python value, as far as the code tells them apart. A float without a
value is infinite or not a number. A member of an enumeration has a number or
a text as its value; `mixin` says that it is an `int` or a `str` itself. -/
inductive PyValue where
  | none
  | bool (b : Bool)
  | int (n : ℤ)
  | float (x : Option ℚ)
  | str (s : String)
  | uuid (u : BitVec 128)
  | enum (mixin : Bool) (value : ℤ ⊕ String)
  | other (truthy : Bool)
  deriving DecidableEq

namespace PyValue

/-- `isinstance(value, str)`, and the text. -/
def text? : PyValue → Option String
  | str s => some s
  | enum true (.inr s) => some s
  | _ => .none

/-- `isinstance(value, int)` and not a `bool`, and the number. -/
def int? : PyValue → Option ℤ
  | int n => some n
  | enum true (.inl n) => some n
  | _ => .none

/-- `bool(value)`. -/
def truthy : PyValue → Bool
  | none => false
  | bool b => b
  | int n => n ≠ 0
  | float x => x ≠ some 0
  | str s => s ≠ ""
  | uuid _ => true
  | enum true (.inl n) => n ≠ 0
  | enum true (.inr s) => s ≠ ""
  | enum false _ => true
  | other b => b

/-- `value == n`, where `n` is a number or `None`. -/
def eqInt? : PyValue → Option ℤ → Bool
  | none, .none => true
  | bool b, some n => n = if b then 1 else 0
  | int m, some n => m = n
  | float (some x), some n => x = n
  | enum true (.inl m), some n => m = n
  | _, _ => false

end PyValue

/-- `getattr(value, "value", value)`. -/
def enumValue : PyValue → PyValue
  | .enum _ (.inl n) => .int n
  | .enum _ (.inr s) => .str s
  | v => v

/-- `normalize_apple_subscription_environment`. -/
def normalizeAppleSubscriptionEnvironment (value : PyValue) : String :=
  match (enumValue value).text? with
  | none => ""
  | some s => lower (strip s)

/-! ### The configuration -/

def appleSubscriptionsEnvironments : List String := ["sandbox", "production"]

/-- `AppleSubscriptionsConfig`. -/
structure AppleSubscriptionsConfig where
  bundleId : String
  environment : String
  appId : Option ℤ
  rootCertificatesPath : Option String
  enableOnlineChecks : Bool
  acceptedEnvironments : List String
  deriving DecidableEq

/-- `_optional_text`. -/
def optionalText (environ : String → Option String) (name : String) : Option String := (environ name).bind strip?

/-- `_parse_optional_app_id`. -/
def parseOptionalAppId : Option String → Except String (Option ℤ)
  | none => .ok none
  | some raw =>
    match int? raw with
    | none => .error "APPLE_APP_ID must be a positive integer"
    | some n => .ok (some n)

/-- `_parse_boolean`. -/
def parseBoolean (default : Bool) : Option String → Except String Bool
  | none => .ok default
  | some raw =>
    if lower (strip raw) ∈ ["1", "true", "yes", "on"] then .ok true
    else if lower (strip raw) ∈ ["0", "false", "no", "off"] then .ok false
    else .error "APPLE_ENABLE_ONLINE_CHECKS must be true or false"

/-- One turn of the loop of `_parse_accepted_environments`. -/
def addEnvironment (values : List String) (item : List Char) : List String :=
  let normalized := normalizeAppleSubscriptionEnvironment (.str (String.ofList item))
  if normalized ≠ "" ∧ normalized ∉ values then values ++ [normalized] else values

/-- `_parse_accepted_environments`. -/
def parseAcceptedEnvironments : Option String → List String
  | none => []
  | some raw => (raw.toList.splitOn ',').foldl addEnvironment []

/-- `load_apple_subscriptions_config`; the error is the text of an
`AppleSubscriptionsConfigurationError`. -/
def loadAppleSubscriptionsConfig (environ : String → Option String) : Except String AppleSubscriptionsConfig := do
  let appId ← parseOptionalAppId (optionalText environ "APPLE_APP_ID")
  let enableOnlineChecks ← parseBoolean true (optionalText environ "APPLE_ENABLE_ONLINE_CHECKS")
  return {
    bundleId := (optionalText environ "APPLE_SUBSCRIPTIONS_BUNDLE_ID").getD ""
    environment := ((optionalText environ "APPLE_SUBSCRIPTIONS_ENVIRONMENT").map fun s =>
      normalizeAppleSubscriptionEnvironment (.str s)).getD ""
    appId
    rootCertificatesPath := optionalText environ "APPLE_ROOT_CERTIFICATES_PATH"
    enableOnlineChecks
    acceptedEnvironments :=
      parseAcceptedEnvironments (optionalText environ "APPLE_SUBSCRIPTIONS_ACCEPTED_ENVIRONMENTS") }

/-- `errors`, of the normalized values. The types leave out the `isinstance`
checks. -/
def configErrors (bundleId environment : String) (acceptedEnvironments : List String)
    (rootCertificatesPath : Option String) (appId : Option ℤ) : List String :=
  let effectiveEnvironments :=
    if acceptedEnvironments ≠ [] then acceptedEnvironments else if environment ≠ "" then [environment] else []
  (if bundleId = "" then ["APPLE_SUBSCRIPTIONS_BUNDLE_ID is required"] else []) ++
  (if environment = "" then ["APPLE_SUBSCRIPTIONS_ENVIRONMENT is required"]
    else if environment ∉ appleSubscriptionsEnvironments then
      ["APPLE_SUBSCRIPTIONS_ENVIRONMENT must be sandbox or production"]
    else []) ++
  (if acceptedEnvironments.any (· ∉ appleSubscriptionsEnvironments) then
      ["APPLE_SUBSCRIPTIONS_ACCEPTED_ENVIRONMENTS must contain only sandbox or production"]
    else []) ++
  (if rootCertificatesPath = none then ["APPLE_ROOT_CERTIFICATES_PATH is required"] else []) ++
  (if appId.any (· ≤ 0) then ["APPLE_APP_ID must be a positive integer"] else []) ++
  (if "production" ∈ effectiveEnvironments ∧ appId = none then ["APPLE_APP_ID is required in production"] else [])

/-- The accepted environments that are not blank, normalized. -/
def normalizeEnvironments (l : List String) : List String :=
  (l.filter fun item => strip item ≠ "").map fun item => normalizeAppleSubscriptionEnvironment (.str item)

/-- `validate_apple_subscriptions_config`. -/
def validateAppleSubscriptionsConfig (config : AppleSubscriptionsConfig) : Except String AppleSubscriptionsConfig :=
  let bundleId := strip config.bundleId
  let environment := normalizeAppleSubscriptionEnvironment (.str config.environment)
  let acceptedEnvironments := normalizeEnvironments config.acceptedEnvironments
  let errors := configErrors bundleId environment acceptedEnvironments config.rootCertificatesPath config.appId
  if errors ≠ [] then .error ("; ".intercalate errors)
  else .ok { config with bundleId, environment, acceptedEnvironments }

/-- The accepted environments of a validated configuration. -/
def AppleSubscriptionsConfig.accepted (v : AppleSubscriptionsConfig) : List String :=
  if v.acceptedEnvironments ≠ [] then v.acceptedEnvironments else [v.environment]

/-- `get_apple_subscription_accepted_environments`. -/
def getAppleSubscriptionAcceptedEnvironments (config : AppleSubscriptionsConfig) : Except String (List String) := do
  let validated ← validateAppleSubscriptionsConfig config
  return validated.accepted

/-! ### Validated configurations -/

/-- What validation has made sure of. -/
structure AppleSubscriptionsConfig.Valid (v : AppleSubscriptionsConfig) : Prop where
  bundleId : strip v.bundleId = v.bundleId ∧ v.bundleId ≠ ""
  environment : v.environment ∈ appleSubscriptionsEnvironments
  accepted : ∀ e ∈ v.acceptedEnvironments, e ∈ appleSubscriptionsEnvironments
  noErrors : configErrors v.bundleId v.environment v.acceptedEnvironments v.rootCertificatesPath v.appId = []

theorem valid_of_ok {config v : AppleSubscriptionsConfig} (h : validateAppleSubscriptionsConfig config = .ok v) :
    v.Valid := by
  unfold validateAppleSubscriptionsConfig at h
  dsimp only at h
  split_ifs at h with herr
  obtain rfl := Except.ok.inj h
  rw [not_not] at herr
  have hparts := herr
  simp only [configErrors, List.append_eq_nil_iff] at hparts
  obtain ⟨⟨⟨⟨⟨hbundle, henv⟩, haccepted⟩, -⟩, -⟩, -⟩ := hparts
  refine ⟨⟨strip_strip _, ?_⟩, ?_, fun e he => ?_, herr⟩
  · intro hempty
    rw [if_pos (by exact hempty)] at hbundle
    exact absurd hbundle (by simp)
  · split_ifs at henv with h1 h2
    exact h2
  · by_contra hunknown
    rw [if_pos (List.any_eq_true.mpr ⟨e, he, by simpa using hunknown⟩)] at haccepted
    exact absurd haccepted (by simp)

/-- A known environment is in its normal form. -/
theorem normalize_known {e : String} (h : e ∈ appleSubscriptionsEnvironments) :
    normalizeAppleSubscriptionEnvironment (.str e) = e ∧ strip e ≠ "" := by
  revert e
  decide

theorem normalizeEnvironments_known : ∀ {l : List String}, (∀ e ∈ l, e ∈ appleSubscriptionsEnvironments) →
    normalizeEnvironments l = l
  | [], _ => rfl
  | e :: l, h => by
    obtain ⟨hnormal, hblank⟩ := normalize_known (h e List.mem_cons_self)
    have ih := normalizeEnvironments_known fun x hx => h x (List.mem_cons_of_mem e hx)
    unfold normalizeEnvironments at ih ⊢
    rw [List.filter_cons_of_pos (by simpa using hblank), List.map_cons, hnormal, ih]

/-- **Validation is idempotent.** -/
theorem AppleSubscriptionsConfig.Valid.again {v : AppleSubscriptionsConfig} (h : v.Valid) :
    validateAppleSubscriptionsConfig v = .ok v := by
  unfold validateAppleSubscriptionsConfig
  simp only [h.bundleId.1, (normalize_known h.environment).1, normalizeEnvironments_known h.accepted, h.noErrors,
    ne_eq, not_true_eq_false, if_false]

theorem AppleSubscriptionsConfig.Valid.acceptedEnvironments {v : AppleSubscriptionsConfig} (h : v.Valid) :
    getAppleSubscriptionAcceptedEnvironments v = .ok v.accepted :=
  bind_eq_ok.mpr ⟨v, h.again, rfl⟩

end Apple
end FuelNear

/-
# Verifying a signed transaction

`verify_apple_signed_transaction` and what `/subscription/apple/verify` makes
of it. The verifiers are tried in turn, a payload of another environment than
its verifier goes on to the next, and the token of the payload has to be the
one that is expected. The endpoint tries every token that the owner holds.
Nothing that is read after the comparison fails for the token
(`untokened_readRest`), so the endpoint comes to one answer in whatever order
the tokens come, and to a transaction only with one of them (`tokens_decide`).

Key definitions: `selectPayload`, `verifyAppleSignedTransaction`, `verifyExpected`, `Held`.
Key theorems: `selectPayload_ok`, `untokened_readRest`, `tokens_decide`.
-/
import FuelNear.Apple.Grace
import FuelNear.Apple.Notification

namespace FuelNear
namespace Apple
namespace Jws

open Text

/-- The subclasses of `AppleJWSVerificationError`, with their texts, and what
is let through. -/
inductive JwsError where
  | configuration (message : String)
  | rootCertificates (message : String)
  | invalid (message : String)
  | verificationUnavailable (message : String)
  | payload (message : String)
  | unsupportedProduct (message : String)
  | appAccountTokenMissing (message : String)
  | appAccountTokenMalformed (message : String)
  | appAccountTokenMismatch (message : String)
  | subscriptionsConfiguration (message : String)
  | valueError (message : String)
  | other
  deriving DecidableEq

/-- `AppleJWSAppAccountTokenError`. -/
def JwsError.isAppAccountToken : JwsError → Bool
  | appAccountTokenMissing _ => true
  | appAccountTokenMalformed _ => true
  | appAccountTokenMismatch _ => true
  | _ => false

/-! ### Reading the values -/

/-- What was read, or the error. -/
def orRaise {α : Type} (x : Option α) (e : JwsError) : Except JwsError α :=
  match x with
  | none => .error e
  | some a => .ok a

/-- `_required_text`. -/
def requiredText (value : PyValue) (fieldName : String) : Except JwsError String :=
  orRaise (value.text?.bind strip?) (.payload ("Apple transaction is missing " ++ fieldName))

/-- `_optional_text_value`; `repr` is the text of a value that is neither a
number nor a text. -/
def optionalTextValue (repr : PyValue → String) (value : PyValue) : Option String :=
  match enumValue value with
  | .none => none
  | .str s => some s
  | .int n => some (toString n)
  | v => some (repr v)

/-- `_optional_integer_value`. -/
def optionalIntegerValue (value : PyValue) (fieldName : String) : Except JwsError (Option ℤ) :=
  if enumValue value = .none then .ok none
  else do
    let n ← orRaise (enumValue value).int? (.payload ("Apple transaction has invalid " ++ fieldName))
    return some n

/-- `_timestamp_milliseconds` of a field that is not required. -/
def timestampMilliseconds (value : PyValue) (fieldName : String) : Except JwsError (Option ℤ) :=
  if value = .none then .ok none
  else do
    let t ← orRaise (fromMilliseconds value) (.payload ("Apple transaction has invalid " ++ fieldName))
    return some t

/-- `_timestamp_milliseconds` of a required field. -/
def requiredTimestampMilliseconds (value : PyValue) (fieldName : String) : Except JwsError ℤ := do
  let t ← timestampMilliseconds value fieldName
  orRaise t (.payload ("Apple transaction is missing " ++ fieldName))

/-- `_parse_app_account_token`. -/
def parseAppAccountToken : PyValue → Except JwsError (Option (BitVec 128))
  | .none => .ok none
  | .uuid u => .ok (some u)
  | value => do
    let token ← orRaise ((value.text?.bind strip?).bind Text.uuid?)
      (.appAccountTokenMalformed "Apple transaction appAccountToken is malformed")
    return some token

/-- `_expected_app_account_token`. -/
def expectedAppAccountToken (value : PyValue) : Except JwsError (Option (BitVec 128)) :=
  if value = .none then .ok none
  else do
    let token ← orRaise value.uuid? (.appAccountTokenMalformed "Expected appAccountToken is malformed")
    return some token

/-! ### The candidates -/

/-- `_ENVIRONMENT_FALLBACK_STATUSES`. -/
def environmentFallbackStatuses : List VerificationStatus := [.verificationFailure, .invalidEnvironment]

/-- The environment of a payload: `sandbox` or `production`, and the one of
the label where there is one. -/
def environmentMatches (repr : PyValue → String) (label : Option String) (payload : JWSTransactionDecodedPayload) : Bool :=
  let environment := normalizeAppleSubscriptionEnvironment
    (((optionalTextValue repr payload.environment).map PyValue.str).getD .none)
  environment ∈ appleSubscriptionsEnvironments && label.all (environment = ·)

/-- The loop over the candidates; `failed` says that there is a
`last_verification_error`. -/
def selectPayload (jwt : JwtDecode) (repr : PyValue → String) (signedTransaction : String) (failed : Bool) :
    List VerifierCandidate → Except JwsError (JWSTransactionDecodedPayload × AppleEconomicEvidence)
  | [] => .error (.invalid (if failed then "Apple signed transaction is invalid"
      else "Apple signed transaction could not be verified"))
  | candidate :: rest =>
    match verifyAppleTransactionPayload jwt candidate.2 (.str signedTransaction) with
    | .error (.verification status) =>
      if status = .retryableVerificationFailure then
        .error (.verificationUnavailable "Apple transaction verification is temporarily unavailable")
      else if status ∉ environmentFallbackStatuses then .error (.invalid "Apple signed transaction is invalid")
      else selectPayload jwt repr signedTransaction true rest
    | .error .other => .error .other
    | .ok verified =>
      if environmentMatches repr candidate.1 verified.1 then .ok verified
      else selectPayload jwt repr signedTransaction true rest

/-- `_get_configured_verifier_candidates`; `create` is
`_get_default_apple_signed_data_verifier`. -/
def configuredCandidates (create : AppleSubscriptionsConfig → Except JwsError SignedDataVerifier)
    (config : AppleSubscriptionsConfig) : Except JwsError (List VerifierCandidate) := do
  let accepted ← (getAppleSubscriptionAcceptedEnvironments config).mapError .subscriptionsConfiguration
  (["production", "sandbox"].filter (· ∈ accepted)).mapM fun environment => do
    let verifier ← create { config with environment, acceptedEnvironments := [environment] }
    return (some environment, verifier)

/-- `validated_config`. -/
def validatedConfig (environ : String → Option String) (config : Option AppleSubscriptionsConfig) :
    Except JwsError AppleSubscriptionsConfig :=
  let given := match config with
    | some c => .ok c
    | none => loadAppleSubscriptionsConfig environ
  (given >>= validateAppleSubscriptionsConfig).mapError fun _ =>
    .configuration "Apple subscriptions configuration is invalid"

/-- How the candidates are chosen: the configuration and the verifiers that
are handed over, and where they come from otherwise. -/
structure Verifiers where
  create : AppleSubscriptionsConfig → Except JwsError SignedDataVerifier
  environ : String → Option String
  config : Option AppleSubscriptionsConfig
  verifier : Option SignedDataVerifier
  verifiers : Option (List VerifierCandidate)

/-- `verifier_candidates`. -/
def Verifiers.candidates (v : Verifiers) : Except JwsError (List VerifierCandidate) := do
  let candidates ← match v.verifier, v.verifiers with
    | some _, some _ => .error (.valueError "verifier and verifiers cannot both be provided")
    | some verifier, none => .ok [(none, verifier)]
    | none, some l => .ok l
    | none, none => validatedConfig v.environ v.config >>= configuredCandidates v.create
  if candidates = [] then .error (.configuration "No Apple subscription verifier is configured")
  else return candidates

/-! ### The verification -/

/-- What a payload says before the token is compared. -/
structure TransactionIds where
  productId : String
  transactionId : String
  originalTransactionId : String
  appAccountToken : Option (BitVec 128)

def readIds (payload : JWSTransactionDecodedPayload) : Except JwsError TransactionIds := do
  let productId ← requiredText payload.productId "productId"
  if productId ∉ supportedAppleProductIds then
    .error (.unsupportedProduct "Apple transaction product is not supported")
  else do
    let transactionId ← requiredText payload.transactionId "transactionId"
    let originalTransactionId ← requiredText payload.originalTransactionId "originalTransactionId"
    let appAccountToken ← parseAppAccountToken payload.appAccountToken
    return { productId, transactionId, originalTransactionId, appAccountToken }

/-- The comparison of the token of the payload with the one that is expected. -/
def compareToken (token expected : Option (BitVec 128)) : Except JwsError Unit :=
  match expected, token with
  | none, _ => .ok ()
  | some _, none => .error (.appAccountTokenMissing "Apple transaction appAccountToken is required")
  | some e, some t =>
    if t = e then .ok ()
    else .error (.appAccountTokenMismatch "Apple transaction does not belong to the expected account")

/-- What is read of the payload after the comparison. -/
def readRest (repr : PyValue → String) (payload : JWSTransactionDecodedPayload) (evidence : AppleEconomicEvidence)
    (ids : TransactionIds) : Except JwsError VerifiedAppleTransaction := do
  let environment ← requiredText (((optionalTextValue repr payload.environment).map PyValue.str).getD .none) "environment"
  let purchaseDate ← requiredTimestampMilliseconds payload.purchaseDate "purchaseDate"
  let expiresDate ← timestampMilliseconds payload.expiresDate "expiresDate"
  let revocationDate ← timestampMilliseconds payload.revocationDate "revocationDate"
  let signedDate ← timestampMilliseconds payload.signedDate "signedDate"
  let offerType ← optionalIntegerValue payload.offerType "offerType"
  return {
    productId := ids.productId
    transactionId := ids.transactionId
    originalTransactionId := ids.originalTransactionId
    purchaseDate
    expiresDate
    environment
    ownershipType := optionalTextValue repr payload.inAppOwnershipType
    transactionReason := optionalTextValue repr payload.transactionReason
    revocationDate
    revocationReason := optionalTextValue repr payload.revocationReason
    appAccountToken := ids.appAccountToken
    signedDate
    storefront := optionalTextValue repr payload.storefront
    offerType
    economicEvidence := evidence }

/-- The payload that is selected, with its ids. -/
def selected (jwt : JwtDecode) (repr : PyValue → String) (v : Verifiers) (signedTransaction : String) :
    Except JwsError (JWSTransactionDecodedPayload × AppleEconomicEvidence × TransactionIds) :=
  if strip signedTransaction = "" then .error (.invalid "Apple signed transaction is required")
  else do
    let candidates ← v.candidates
    let (payload, evidence) ← selectPayload jwt repr (strip signedTransaction) false candidates
    let ids ← readIds payload
    return (payload, evidence, ids)

/-- `verify_apple_signed_transaction`. -/
def verifyAppleSignedTransaction (jwt : JwtDecode) (repr : PyValue → String) (v : Verifiers) (signedTransaction : String)
    (expectedAppAccountToken : PyValue) : Except JwsError VerifiedAppleTransaction := do
  let (payload, evidence, ids) ← selected jwt repr v signedTransaction
  let expected ← Jws.expectedAppAccountToken expectedAppAccountToken
  compareToken ids.appAccountToken expected
  readRest repr payload evidence ids

/-! ### The tokens of an owner -/

/-- The loop over the expected tokens. -/
def verifyExpected (verify : PyValue → Except JwsError VerifiedAppleTransaction) :
    List PyValue → Except JwsError VerifiedAppleTransaction
  | [] => .error (.appAccountTokenMismatch "Apple transaction appAccountToken does not match the current owner")
  | token :: tokens =>
    match verify token with
    | .ok verified => .ok verified
    | .error e => if e.isAppAccountToken then verifyExpected verify tokens else .error e

/-! ### The payload that is selected -/

/-- A verifier that the loop goes past: it fails as it does for another
environment, or what it decodes is of another environment. -/
def FallsBack (jwt : JwtDecode) (repr : PyValue → String) (signedTransaction : String) (c : VerifierCandidate) : Prop :=
  (∃ status ∈ environmentFallbackStatuses,
    verifyAppleTransactionPayload jwt c.2 (.str signedTransaction) = .error (.verification status)) ∨
  ∃ verified, verifyAppleTransactionPayload jwt c.2 (.str signedTransaction) = .ok verified ∧
    environmentMatches repr c.1 verified.1 = false

section Select

variable {jwt : JwtDecode} {repr : PyValue → String} {signed : String}

/-- The loop ends at the first candidate that it does not go past. -/
theorem selectPayload_ok {verified : JWSTransactionDecodedPayload × AppleEconomicEvidence} :
    ∀ {candidates : List VerifierCandidate} {failed : Bool},
      selectPayload jwt repr signed failed candidates = .ok verified →
      ∃ before c after, candidates = before ++ c :: after ∧ (∀ x ∈ before, FallsBack jwt repr signed x) ∧
        verifyAppleTransactionPayload jwt c.2 (.str signed) = .ok verified ∧
        environmentMatches repr c.1 verified.1 = true
  | [], _, h => absurd h (by simp [selectPayload])
  | x :: rest, failed, h => by
    have hpast : FallsBack jwt repr signed x → selectPayload jwt repr signed true rest = .ok verified →
        ∃ before c after, x :: rest = before ++ c :: after ∧ (∀ x ∈ before, FallsBack jwt repr signed x) ∧
          verifyAppleTransactionPayload jwt c.2 (.str signed) = .ok verified ∧
          environmentMatches repr c.1 verified.1 = true := by
      intro hx hrest
      obtain ⟨before, c, after, rfl, hbefore, hc⟩ := selectPayload_ok hrest
      refine ⟨x :: before, c, after, rfl, fun y hy => ?_, hc⟩
      rcases List.mem_cons.mp hy with rfl | hy
      · exact hx
      · exact hbefore y hy
    rw [selectPayload] at h
    cases hv : verifyAppleTransactionPayload jwt x.2 (.str signed) with
    | error failure =>
      rw [hv] at h
      cases failure with
      | other => exact absurd h (by simp)
      | verification status =>
        dsimp only at h
        split_ifs at h with hretry hstatus
        exact hpast (Or.inl ⟨status, hstatus, hv⟩) h
    | ok found =>
      rw [hv] at h
      dsimp only at h
      split_ifs at h with hmatch
      · rw [← Except.ok.inj h]
        exact ⟨[], x, rest, rfl, by simp, hv, hmatch⟩
      · exact hpast (Or.inr ⟨found, hv, by simpa using hmatch⟩) h

end Select

/-! ### What a token decides -/

/-- Whatever comes, it is no error of the token. -/
def Untokened {α : Type} (x : Except JwsError α) : Prop := ∀ e, x = .error e → e.isAppAccountToken = false

theorem Untokened.bind {α β : Type} {x : Except JwsError α} {f : α → Except JwsError β} (hx : Untokened x)
    (hf : ∀ a, Untokened (f a)) : Untokened (x >>= f) := by
  intro e h
  rcases bind_eq_error.mp h with h | ⟨a, -, h⟩
  · exact hx e h
  · exact hf a e h

theorem untokened_ok {α : Type} (a : α) : Untokened (.ok a) := fun _ h => absurd h (by simp)

theorem untokened_orRaise {α : Type} (x : Option α) {e : JwsError} (h : e.isAppAccountToken = false) :
    Untokened (orRaise x e) := by
  intro e' he
  cases x with
  | none =>
    obtain rfl := Except.error.inj he
    exact h
  | some a => exact absurd he (by simp [orRaise])

theorem untokened_timestampMilliseconds (value : PyValue) (fieldName : String) :
    Untokened (timestampMilliseconds value fieldName) := by
  unfold timestampMilliseconds
  split_ifs
  · exact untokened_ok _
  · exact (untokened_orRaise _ rfl).bind fun _ => untokened_ok _

/-- Nothing that is read after the comparison fails for the token. -/
theorem untokened_readRest (repr : PyValue → String) (payload : JWSTransactionDecodedPayload)
    (evidence : AppleEconomicEvidence) (ids : TransactionIds) : Untokened (readRest repr payload evidence ids) := by
  unfold readRest
  apply (untokened_orRaise _ rfl).bind
  intro environment
  apply Untokened.bind
  · exact (untokened_timestampMilliseconds _ _).bind fun _ => untokened_orRaise _ rfl
  intro purchaseDate
  apply (untokened_timestampMilliseconds _ _).bind
  intro expiresDate
  apply (untokened_timestampMilliseconds _ _).bind
  intro revocationDate
  apply (untokened_timestampMilliseconds _ _).bind
  intro signedDate
  apply Untokened.bind
  · unfold optionalIntegerValue
    split_ifs
    · exact untokened_ok _
    · exact (untokened_orRaise _ rfl).bind fun _ => untokened_ok _
  · exact fun _ => untokened_ok _

/-- What is read keeps the token that was compared. -/
theorem readRest_token {repr : PyValue → String} {payload : JWSTransactionDecodedPayload}
    {evidence : AppleEconomicEvidence} {ids : TransactionIds} {t : VerifiedAppleTransaction}
    (h : readRest repr payload evidence ids = .ok t) : t.appAccountToken = ids.appAccountToken := by
  unfold readRest at h
  obtain ⟨environment, -, h⟩ := bind_eq_ok.mp h
  obtain ⟨purchaseDate, -, h⟩ := bind_eq_ok.mp h
  obtain ⟨expiresDate, -, h⟩ := bind_eq_ok.mp h
  obtain ⟨revocationDate, -, h⟩ := bind_eq_ok.mp h
  obtain ⟨signedDate, -, h⟩ := bind_eq_ok.mp h
  obtain ⟨offerType, -, h⟩ := bind_eq_ok.mp h
  rw [← Except.ok.inj h]

/-- One of the expected values is the token. -/
def Held (tokens : List PyValue) (token : Option (BitVec 128)) : Prop :=
  ∃ k ∈ tokens, ∃ e, expectedAppAccountToken k = .ok (some e) ∧ token = some e

section Tokens

variable {jwt : JwtDecode} {repr : PyValue → String} {v : Verifiers} {signed : String} {tokens : List PyValue}
  {payload : JWSTransactionDecodedPayload} {evidence : AppleEconomicEvidence} {ids : TransactionIds} {k : PyValue}

theorem compareToken_other {token : Option (BitVec 128)} {e : BitVec 128} (h : token ≠ some e) :
    ∃ err, compareToken token (some e) = .error err ∧ err.isAppAccountToken = true := by
  cases token with
  | none => exact ⟨_, rfl, rfl⟩
  | some t =>
    have hte : t ≠ e := fun heq => h (congrArg some heq)
    unfold compareToken
    exact ⟨_, if_neg hte, rfl⟩

/-- A value that is not `None` and not the token is an error of the token. -/
theorem verify_other (hs : selected jwt repr v signed = .ok (payload, evidence, ids)) (hk : k ≠ .none)
    (hother : ∀ e, expectedAppAccountToken k = .ok (some e) → ids.appAccountToken ≠ some e) :
    ∃ e, verifyAppleSignedTransaction jwt repr v signed k = .error e ∧ e.isAppAccountToken = true := by
  unfold verifyAppleSignedTransaction
  rw [hs]
  unfold expectedAppAccountToken at hother ⊢
  rw [if_neg hk] at hother ⊢
  cases huuid : k.uuid? with
  | none => exact ⟨_, rfl, rfl⟩
  | some e =>
    rw [huuid] at hother
    obtain ⟨err, herr, htoken⟩ := compareToken_other (hother e rfl)
    refine ⟨err, ?_, htoken⟩
    simp only [bind, Except.bind, pure, Except.pure, orRaise, herr]

/-- With the token of the payload it is the rest that decides. -/
theorem verify_same (hs : selected jwt repr v signed = .ok (payload, evidence, ids)) {e : BitVec 128}
    (hk : expectedAppAccountToken k = .ok (some e)) (htoken : ids.appAccountToken = some e) :
    verifyAppleSignedTransaction jwt repr v signed k = readRest repr payload evidence ids := by
  unfold verifyAppleSignedTransaction
  rw [hs]
  simp only [bind, Except.bind, hk, htoken, compareToken, if_true]

/-- A payload that is not selected is so for every token. -/
theorem verify_unselected {e : JwsError} (hs : selected jwt repr v signed = .error e) (k : PyValue) :
    verifyAppleSignedTransaction jwt repr v signed k = .error e := by
  unfold verifyAppleSignedTransaction
  rw [hs]
  rfl

/-- Values of which none is the token come to nothing. -/
theorem verifyExpected_other {verify : PyValue → Except JwsError VerifiedAppleTransaction} : ∀ {tokens : List PyValue},
    (∀ k ∈ tokens, ∃ e, verify k = .error e ∧ e.isAppAccountToken = true) → verifyExpected verify tokens =
      .error (.appAccountTokenMismatch "Apple transaction appAccountToken does not match the current owner")
  | [], _ => rfl
  | k :: tokens, h => by
    obtain ⟨e, he, htoken⟩ := h k List.mem_cons_self
    rw [verifyExpected, he]
    dsimp only
    rw [if_pos htoken]
    exact verifyExpected_other fun k hk => h k (List.mem_cons_of_mem _ hk)

theorem verifyExpected_cons {verify : PyValue → Except JwsError VerifiedAppleTransaction}
    (h : Untokened (verify k)) : verifyExpected verify (k :: tokens) = verify k := by
  rw [verifyExpected]
  cases hv : verify k with
  | ok t => rfl
  | error e =>
    dsimp only
    rw [h e hv]
    rfl

/-- The token is held: what the payload holds beside it decides. -/
theorem verifyExpected_held (hs : selected jwt repr v signed = .ok (payload, evidence, ids)) :
    ∀ {tokens : List PyValue}, .none ∉ tokens → Held tokens ids.appAccountToken →
      verifyExpected (verifyAppleSignedTransaction jwt repr v signed) tokens = readRest repr payload evidence ids
  | [], _, h => by
    obtain ⟨k, hk, -⟩ := h
    exact absurd hk List.not_mem_nil
  | k :: tokens, hnone, h => by
    by_cases hk : ∃ e, expectedAppAccountToken k = .ok (some e) ∧ ids.appAccountToken = some e
    · obtain ⟨e, hexpected, htoken⟩ := hk
      have hverify := verify_same hs hexpected htoken
      rw [verifyExpected_cons, hverify]
      rw [hverify]
      exact untokened_readRest _ _ _ _
    · obtain ⟨hne, hrest⟩ := not_or.mp (mt List.mem_cons.mpr hnone)
      obtain ⟨err, herr, hother⟩ := verify_other hs (Ne.symm hne) fun e he hsame => hk ⟨e, he, hsame⟩
      rw [verifyExpected, herr]
      dsimp only
      rw [if_pos hother]
      apply verifyExpected_held hs hrest
      obtain ⟨x, hx, hsame⟩ := h
      rcases List.mem_cons.mp hx with rfl | hx
      · exact absurd hsame hk
      · exact ⟨x, hx, hsame⟩

theorem verifyExpected_notHeld (hs : selected jwt repr v signed = .ok (payload, evidence, ids)) (hnone : .none ∉ tokens)
    (h : ¬ Held tokens ids.appAccountToken) : verifyExpected (verifyAppleSignedTransaction jwt repr v signed) tokens =
      .error (.appAccountTokenMismatch "Apple transaction appAccountToken does not match the current owner") := by
  apply verifyExpected_other
  intro k hk
  refine verify_other hs ?_ fun e he hsame => h ⟨k, hk, e, he, hsame⟩
  rintro rfl
  exact hnone hk

/-- **The tokens decide.** The answer does not depend on the order of the
tokens or on how often one comes, and it is a transaction exactly if the
payload is selected, one of the tokens is that of the payload, and the rest of
it can be read. -/
theorem tokens_decide (hnone : .none ∉ tokens) :
    (∀ tokens', (∀ k, k ∈ tokens' ↔ k ∈ tokens) →
      verifyExpected (verifyAppleSignedTransaction jwt repr v signed) tokens' =
        verifyExpected (verifyAppleSignedTransaction jwt repr v signed) tokens) ∧
    ∀ t, verifyExpected (verifyAppleSignedTransaction jwt repr v signed) tokens = .ok t ↔
      ∃ payload evidence ids, selected jwt repr v signed = .ok (payload, evidence, ids) ∧
        Held tokens ids.appAccountToken ∧ readRest repr payload evidence ids = .ok t := by
  cases hs : selected jwt repr v signed with
  | error e =>
    have hverify : ∀ k, verifyAppleSignedTransaction jwt repr v signed k = .error e := verify_unselected hs
    have hcases : ∀ l : List PyValue, l ≠ [] → verifyExpected (verifyAppleSignedTransaction jwt repr v signed) l =
        if e.isAppAccountToken then
          .error (.appAccountTokenMismatch "Apple transaction appAccountToken does not match the current owner")
        else .error e := by
      intro l hl
      by_cases htoken : e.isAppAccountToken = true
      · rw [if_pos htoken]
        exact verifyExpected_other fun k _ => ⟨e, hverify k, htoken⟩
      · rw [if_neg htoken]
        obtain ⟨k, l, rfl⟩ := List.exists_cons_of_ne_nil hl
        rw [verifyExpected, hverify]
        dsimp only
        rw [if_neg htoken]
    constructor
    · intro tokens' hsame
      cases tokens with
      | nil =>
        obtain rfl : tokens' = [] := List.eq_nil_iff_forall_not_mem.mpr fun k hk => absurd ((hsame k).mp hk) List.not_mem_nil
        rfl
      | cons k tokens =>
        have hne : tokens' ≠ [] := List.ne_nil_of_mem ((hsame k).mpr List.mem_cons_self)
        rw [hcases _ hne, hcases _ (List.cons_ne_nil k tokens)]
    · intro t
      constructor
      · intro h
        cases tokens with
        | nil => exact absurd h (by simp [verifyExpected])
        | cons k tokens =>
          rw [hcases _ (List.cons_ne_nil k tokens)] at h
          split_ifs at h
      · rintro ⟨_, _, _, h, -⟩
        exact absurd h (by simp)
  | ok found =>
    obtain ⟨payload, evidence, ids⟩ := found
    have hheld : ∀ tokens' : List PyValue, (∀ k, k ∈ tokens' ↔ k ∈ tokens) →
        (Held tokens' ids.appAccountToken ↔ Held tokens ids.appAccountToken) := by
      intro tokens' hsame
      unfold Held
      simp only [hsame]
    by_cases h : Held tokens ids.appAccountToken
    · constructor
      · intro tokens' hsame
        rw [verifyExpected_held hs hnone h,
          verifyExpected_held hs (fun hmem => hnone ((hsame _).mp hmem)) ((hheld _ hsame).mpr h)]
      · intro t
        rw [verifyExpected_held hs hnone h]
        constructor
        · exact fun ht => ⟨payload, evidence, ids, rfl, h, ht⟩
        · rintro ⟨_, _, _, heq, -, ht⟩
          obtain ⟨rfl, rfl, rfl⟩ := Except.ok.inj heq
          exact ht
    · constructor
      · intro tokens' hsame
        rw [verifyExpected_notHeld hs hnone h,
          verifyExpected_notHeld hs (fun hmem => hnone ((hsame _).mp hmem)) fun hheld' => h ((hheld _ hsame).mp hheld')]
      · intro t
        rw [verifyExpected_notHeld hs hnone h]
        constructor
        · exact fun ht => absurd ht (by simp)
        · rintro ⟨_, _, _, heq, hheld', -⟩
          obtain ⟨rfl, rfl, rfl⟩ := Except.ok.inj heq
          exact absurd hheld' h

end Tokens

end Jws
end Apple
end FuelNear

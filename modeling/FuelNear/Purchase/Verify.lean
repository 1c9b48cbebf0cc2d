/-
# `/subscription/apple/verify`

The endpoint verifies the signed transaction against the tokens that its
owner holds, and processes it for that owner. The errors of the verifier and
of the processing become one of five answers. It answers 403 exactly if no
held token is the token of the payload, or the payload's is malformed
(`verify_forbidden_iff`); and what it has accepted is stored for the owner,
with no token but one that the owner holds (`verify_endpoint`).

Key definitions: `VerifyRequest`, `verifyAndProcessAppleSubscription`, `Accepted`.
Key theorems: `accepted_of_ok`, `verify_forbidden_iff`, `verify_endpoint`.
-/
import FuelNear.Ownership.Binding
import FuelNear.Purchase.Process
import FuelNear.RateLimit

namespace FuelNear
namespace Purchase

open Sql Apple Text Ownership RateLimit

/-! ### The answers -/

def tokenInvalid : APIError := ⟨403, "APPLE_APP_ACCOUNT_TOKEN_INVALID", "Apple subscription could not be verified", []⟩

def transactionInvalid : APIError := ⟨400, "APPLE_TRANSACTION_INVALID", "Apple transaction is invalid", []⟩

def verificationUnavailable : APIError :=
  ⟨503, "APPLE_VERIFICATION_UNAVAILABLE", "Apple subscription verification is temporarily unavailable", []⟩

def ownershipConflict : APIError :=
  ⟨409, "APPLE_TRANSACTION_OWNERSHIP_CONFLICT", "Apple transaction is already associated with another account", []⟩

def verificationFailed (requestId : String) : APIError :=
  ⟨500, "SERVER_ERROR", "Apple subscription verification failed. request_id=" ++ requestId, []⟩

/-- The `except` clauses, for an error of the verifier. -/
def ofJwsError (requestId : String) : Jws.JwsError → APIError
  | .appAccountTokenMissing _ => tokenInvalid
  | .appAccountTokenMalformed _ => tokenInvalid
  | .appAccountTokenMismatch _ => tokenInvalid
  | .verificationUnavailable _ => verificationUnavailable
  | .invalid _ => transactionInvalid
  | .payload _ => transactionInvalid
  | .unsupportedProduct _ => transactionInvalid
  | _ => verificationFailed requestId

/-- The `except` clauses, for an error of the processing. -/
def ofPurchaseError (requestId : String) : PurchaseError → APIError
  | .repository (.validation _) => transactionInvalid
  | .repository (.originalTransactionOwnershipConflict _) => ownershipConflict
  | .repository (.identityConflict _) => ownershipConflict
  | _ => verificationFailed requestId

/-! ### The endpoint -/

/-- A request of an owner: the signed transaction, the tokens that the owner
holds, the time of the reconciliation and the id for the log. -/
structure VerifyRequest where
  signedTransaction : String
  owner : AppleSubscriptionOwner
  tokens : List PyValue
  reference : ℤ
  requestId : String

/-- `AppleSubscriptionVerifyResponse`. -/
structure AppleSubscriptionVerifyResponse where
  transactionId : String
  originalTransactionId : String
  productId : String
  created : Bool
  isPlus : Bool
  expiresAt : Option ℤ
  changed : Bool
  deriving DecidableEq

/-- The call of `process_apple_transaction`, and the response. -/
def processVerified (c : VerifyRequest) (verified : VerifiedAppleTransaction) (db : Db) :
    Except APIError (AppleSubscriptionVerifyResponse × Db) :=
  match processAppleTransaction ⟨clientTransaction c.owner verified, none, c.reference⟩ db with
  | .error e => .error (ofPurchaseError c.requestId e)
  | .ok (out, db') => .ok (
    { transactionId := out.result.transactionId
      originalTransactionId := out.result.originalTransactionId
      productId := verified.productId
      created := out.result.created
      isPlus := out.result.isPlus
      expiresAt := out.result.expiresAt
      changed := out.result.changed }, db')

/-- The `try` of the endpoint, from the outcome of the loop over the tokens on. -/
def answer (c : VerifyRequest) (db : Db) :
    Except Jws.JwsError VerifiedAppleTransaction → Except APIError (AppleSubscriptionVerifyResponse × Db)
  | .error e => .error (ofJwsError c.requestId e)
  | .ok verified => processVerified c verified db

section Endpoint

variable (jwt : JwtDecode) (repr : PyValue → String) (v : Jws.Verifiers)

/-- `_verify_and_process_apple_subscription`. -/
def verifyAndProcessAppleSubscription (c : VerifyRequest) (db : Db) :
    Except APIError (AppleSubscriptionVerifyResponse × Db) :=
  if c.tokens = [] then .error tokenInvalid
  else
    answer c db (Jws.verifyExpected (Jws.verifyAppleSignedTransaction jwt repr v c.signedTransaction) c.tokens)

/-- What a transaction has been through that the endpoint accepts: all
verifiers before one fell back, that one decoded the payload in its own
environment, and the token is held. -/
structure Accepted (signedTransaction : String) (tokens : List PyValue) (verified : VerifiedAppleTransaction) : Prop where
  decoded : ∃ before candidate after payload evidence, v.candidates = .ok (before ++ candidate :: after) ∧
    (∀ x ∈ before, Jws.FallsBack jwt repr (strip signedTransaction) x) ∧
    verifyAppleTransactionPayload jwt candidate.2 (.str (strip signedTransaction)) = .ok (payload, evidence) ∧
    Jws.environmentMatches repr candidate.1 payload = true
  token : ∃ k, verified.appAccountToken = some k ∧ Jws.Held tokens (some k)

end Endpoint

variable {jwt : JwtDecode} {repr : PyValue → String} {v : Jws.Verifiers} {c : VerifyRequest} {db db' : Db}

theorem accepted_of_ok {signed : String} {tokens : List PyValue} {verified : VerifiedAppleTransaction}
    (hnone : .none ∉ tokens)
    (h : Jws.verifyExpected (Jws.verifyAppleSignedTransaction jwt repr v signed) tokens = .ok verified) :
    Accepted jwt repr v signed tokens verified := by
  obtain ⟨payload, evidence, ids, hselected, hheld, hrest⟩ := ((Jws.tokens_decide hnone).2 verified).mp h
  have htoken := Jws.readRest_token hrest
  unfold Jws.selected at hselected
  split_ifs at hselected
  obtain ⟨candidates, hcandidates, hselected⟩ := bind_eq_ok.mp hselected
  obtain ⟨⟨found, evidence'⟩, hfound, -⟩ := bind_eq_ok.mp hselected
  obtain ⟨before, candidate, after, rfl, hbefore, hdecoded, hmatches⟩ := Jws.selectPayload_ok hfound
  refine ⟨⟨before, candidate, after, found, evidence', hcandidates, hbefore, hdecoded, hmatches⟩, ?_⟩
  obtain ⟨k, hk, e, hexpected, hsame⟩ := hheld
  exact ⟨e, htoken.trans hsame, k, hk, e, hexpected, rfl⟩

/-- The token of a row that is saved is the one that was sent, if it was
stored before it at all. -/
theorem saved_token_same {a : Accounts} {n : NormalizedTransaction} {x x' : AppleTable}
    {out : AppleTransactionSaveResult} (h : SaveCompleted a n x out x') {k k' : BitVec 128}
    (hn : n.appAccountToken = some k) (hk : out.row.appAccountToken = some k') : k' = k := by
  cases h with
  | @merged r found same =>
    have hgeneral := mergeRow_general n r (·.appAccountToken) (fun _ _ _ _ => rfl) fun _ _ _ _ => rfl
    dsimp only at hk
    rw [hgeneral] at hk
    split_ifs at hk
    · unfold updateGeneralContext at hk
      dsimp only at hk
      rw [hn, Option.some_or] at hk
      exact (Option.some.inj hk).symm
    · unfold identityDiffers at same
      simp only [hn, hk, Option.isSome_some, Bool.true_and, Bool.or_eq_false_iff, decide_eq_false_iff_not,
        not_not, Option.some.injEq] at same
      exact same.2
  | inserted new alone inserts => exact Option.some.inj (hk.symm.trans hn)

theorem ofPurchaseError_forbidden (requestId : String) (e : PurchaseError) :
    (ofPurchaseError requestId e).statusCode ≠ 403 := by
  unfold ofPurchaseError
  split <;> simp [transactionInvalid, ownershipConflict, verificationFailed]

theorem ofJwsError_forbidden (requestId : String) (e : Jws.JwsError) :
    (ofJwsError requestId e).statusCode = 403 ↔ e.isAppAccountToken = true := by
  cases e <;> simp [ofJwsError, Jws.JwsError.isAppAccountToken, tokenInvalid, verificationUnavailable,
    transactionInvalid, verificationFailed]

theorem processVerified_forbidden (c : VerifyRequest) (verified : VerifiedAppleTransaction) {e : APIError}
    (h : processVerified c verified db = .error e) : e.statusCode ≠ 403 := by
  unfold processVerified at h
  split at h
  · rw [← Except.error.inj h]
    exact ofPurchaseError_forbidden _ _
  · exact absurd h (by simp)

theorem answer_forbidden (e : Jws.JwsError) :
    (∃ x, answer c db (.error e) = .error x ∧ x.statusCode = 403) ↔ e.isAppAccountToken = true := by
  constructor
  · rintro ⟨x, hx, hstatus⟩
    rw [← Except.error.inj hx] at hstatus
    exact (ofJwsError_forbidden _ _).mp hstatus
  · exact fun htoken => ⟨_, rfl, (ofJwsError_forbidden _ _).mpr htoken⟩

/-- What fails before the comparison fails for the list of tokens. -/
theorem verifyExpected_unselected {e : Jws.JwsError} (hs : Jws.selected jwt repr v c.signedTransaction = .error e)
    (hne : c.tokens ≠ []) (htoken : e.isAppAccountToken = false) :
    Jws.verifyExpected (Jws.verifyAppleSignedTransaction jwt repr v c.signedTransaction) c.tokens = .error e := by
  obtain ⟨k, rest, hsplit⟩ := List.exists_cons_of_ne_nil hne
  have hk := Jws.verify_unselected hs k
  rw [hsplit, Jws.verifyExpected_cons, hk]
  intro e' he'
  rw [hk] at he'
  rw [← Except.error.inj he']
  exact htoken

/-- **Forbidden.** The endpoint answers 403 exactly if the owner holds no
token, the token of the payload is malformed, or none that is held is it. -/
theorem verify_forbidden_iff (hnone : .none ∉ c.tokens) :
    (∃ e, verifyAndProcessAppleSubscription jwt repr v c db = .error e ∧ e.statusCode = 403) ↔
      c.tokens = [] ∨
      (∃ e, Jws.selected jwt repr v c.signedTransaction = .error e ∧ e.isAppAccountToken = true) ∨
      ∃ payload evidence ids, Jws.selected jwt repr v c.signedTransaction = .ok (payload, evidence, ids) ∧
        ¬ Jws.Held c.tokens ids.appAccountToken := by
  unfold verifyAndProcessAppleSubscription
  by_cases hempty : c.tokens = []
  · rw [if_pos hempty]
    exact ⟨fun _ => Or.inl hempty, fun _ => ⟨tokenInvalid, rfl, rfl⟩⟩
  · rw [if_neg hempty]
    cases hs : Jws.selected jwt repr v c.signedTransaction with
    | error e =>
      cases htoken : e.isAppAccountToken with
      | true =>
        rw [Jws.verifyExpected_other fun k _ => ⟨e, Jws.verify_unselected hs k, htoken⟩, answer_forbidden]
        exact ⟨fun _ => Or.inr (Or.inl ⟨e, rfl, htoken⟩), fun _ => rfl⟩
      | false =>
        rw [verifyExpected_unselected hs hempty htoken, answer_forbidden, htoken]
        constructor
        · exact fun h => absurd h (by simp)
        · rintro (h | ⟨e', he', h⟩ | ⟨_, _, _, h, -⟩)
          · exact absurd h hempty
          · rw [← Except.error.inj he', htoken] at h
            exact absurd h (by simp)
          · exact absurd h (by simp)
    | ok found =>
      obtain ⟨payload, evidence, ids⟩ := found
      by_cases hheld : Jws.Held c.tokens ids.appAccountToken
      · rw [Jws.verifyExpected_held hs hnone hheld]
        constructor
        · rintro ⟨x, hx, hstatus⟩
          cases hrest : Jws.readRest repr payload evidence ids with
          | error e =>
            rw [hrest] at hx
            have htoken := (answer_forbidden e).mp ⟨x, hx, hstatus⟩
            rw [Jws.untokened_readRest repr payload evidence ids e hrest] at htoken
            exact absurd htoken (by simp)
          | ok verified =>
            rw [hrest] at hx
            exact absurd hstatus (processVerified_forbidden c verified hx)
        · rintro (h | ⟨_, h, -⟩ | ⟨_, _, _, h, hnot⟩)
          · exact absurd h hempty
          · exact absurd h (by simp)
          · obtain ⟨rfl, rfl, rfl⟩ := Except.ok.inj h
            exact absurd hheld hnot
      · rw [Jws.verifyExpected_notHeld hs hnone hheld, answer_forbidden]
        exact ⟨fun _ => Or.inr (Or.inr ⟨payload, evidence, ids, rfl, hheld⟩), fun _ => rfl⟩

/-- The answer names the transaction that was saved. -/
theorem process_transactionId {p : ProcessCall} {out : ProcessAnswer} (h : processAppleTransaction p db = .ok (out, db')) :
    out.result.transactionId = strip p.transaction.transactionId := by
  unfold processAppleTransaction at h
  obtain ⟨n, hn, h⟩ := bind_eq_ok.mp h
  obtain ⟨⟨saved, store⟩, hsave, h⟩ := bind_eq_ok.mp h
  have hrow : saved.row.transactionId = strip p.transaction.transactionId := by
    rw [transactionId_of_lookup (processTransaction_ok (within_ok.mp hsave)).1.lookup_self]
    exact (normalizeRequiredText_ok (validated_of_ok (within_ok.mp hn)).transactionId).1.symm
  rw [← hrow]
  cases howner : n.owner with
  | user userId =>
    rw [howner] at h
    obtain ⟨⟨conversions, ledger⟩, -, h⟩ := bind_eq_ok.mp h
    obtain ⟨⟨entitlement, plus⟩, -, h⟩ := bind_eq_ok.mp h
    obtain ⟨rfl, -⟩ := Prod.mk.inj (Except.ok.inj h)
    rfl
  | guest guestId =>
    rw [howner] at h
    obtain ⟨rfl, -⟩ := Prod.mk.inj (Except.ok.inj h)
    rfl

/-- **The endpoint.** Its answer does not depend on the order of the tokens,
and where it answers 200 the transaction was accepted and is stored for the
owner, with no token but one that the owner holds. -/
theorem verify_endpoint (hnone : .none ∉ c.tokens) :
    (∀ tokens', (∀ k, k ∈ tokens' ↔ k ∈ c.tokens) →
      verifyAndProcessAppleSubscription jwt repr v { c with tokens := tokens' } db =
        verifyAndProcessAppleSubscription jwt repr v c db) ∧
    ∀ response, verifyAndProcessAppleSubscription jwt repr v c db = .ok (response, db') →
      ∃ verified, Accepted jwt repr v c.signedTransaction c.tokens verified ∧
        response.productId = verified.productId ∧ response.transactionId = strip verified.transactionId ∧
        ∃ r ∈ db'.apple, r.transactionId = response.transactionId ∧ ownerOf r = some c.owner ∧
          ∀ k, r.appAccountToken = some k → Jws.Held c.tokens (some k) := by
  constructor
  · intro tokens' hsame
    have hempty : tokens' = [] ↔ c.tokens = [] := by
      rw [List.eq_nil_iff_forall_not_mem, List.eq_nil_iff_forall_not_mem]
      simp only [hsame]
    unfold verifyAndProcessAppleSubscription
    dsimp only
    rw [(Jws.tokens_decide hnone).1 tokens' hsame, if_congr hempty rfl rfl]
    rfl
  · intro response h
    unfold verifyAndProcessAppleSubscription at h
    split_ifs at h
    cases hverified : Jws.verifyExpected (Jws.verifyAppleSignedTransaction jwt repr v c.signedTransaction) c.tokens with
    | error e =>
      rw [hverified] at h
      exact absurd h (by simp [answer])
    | ok verified =>
      rw [hverified] at h
      have haccepted := accepted_of_ok hnone hverified
      unfold answer processVerified at h
      dsimp only at h
      split at h
      · exact absurd h (by simp)
      · next out db₁ hprocess =>
        obtain ⟨rfl, rfl⟩ := Prod.mk.inj (Except.ok.inj h)
        obtain ⟨n, saved, hprocessed⟩ := processed_of_ok hprocess
        obtain ⟨htoken, huser, hguest⟩ := validate_binding hprocessed.validated
        have hid := process_transactionId hprocess
        have hrow := transactionId_of_lookup hprocessed.save.lookup_self
        have hstrip : n.transactionId = strip verified.transactionId :=
          (normalizeRequiredText_ok (validated_of_ok hprocessed.validated).transactionId).1.symm
        refine ⟨verified, haccepted, rfl, hid, saved.row, mem_of_lookup hprocessed.save.lookup_self, ?_, ?_, ?_⟩
        · rw [hrow, hstrip]
          exact hid.symm
        · rw [(owner_saved hprocessed.save).1, owner_ext huser hguest]
        · intro k hk
          obtain ⟨k', hk', hheld⟩ := haccepted.token
          rw [saved_token_same hprocessed.save (htoken.trans hk') hk]
          exact hheld

/-- The user 1 and the guest 7, and no purchase. -/
def verifyDb : Db where
  accounts := guestAccounts
  apple := .empty
  rewards := .empty
  subscriptions := .empty
  sessions := .empty
  ledger := ⟨.empty, .empty⟩

/-- The guest verifies its purchase, with a token of another beside its own. -/
def guestRequest : VerifyRequest := ⟨"signed", .guest 7, [.uuid 2#128, .uuid 1#128], 0, "id"⟩

theorem verify_endpoint_sample : ∃ response db',
    verifyAndProcessAppleSubscription (fun _ => none) (fun _ => "") sandboxVerifiers guestRequest verifyDb =
      .ok (response, db') ∧ response.created = true ∧
    verifyAndProcessAppleSubscription (fun _ => none) (fun _ => "") sandboxVerifiers
      { guestRequest with tokens := [.uuid 1#128, .uuid 2#128] } verifyDb = .ok (response, db') ∧
    ∃ r ∈ db'.apple, r.transactionId = response.transactionId ∧ ownerOf r = some (.guest 7) := by
  have hcreated : (verifyAndProcessAppleSubscription (fun _ => none) (fun _ => "") sandboxVerifiers guestRequest
      verifyDb).toOption.map (fun x => x.1.created) = some true := by decide +kernel
  obtain ⟨⟨response, db'⟩, hok, hcreated⟩ := Option.map_eq_some_iff.mp hcreated
  have hok := toOption_eq_some.mp hok
  have hnone : .none ∉ guestRequest.tokens := by decide
  obtain ⟨verified, -, -, -, r, hr, hid, howner, -⟩ := (verify_endpoint hnone).2 response hok
  refine ⟨response, db', hok, hcreated, ?_, r, hr, hid, howner⟩
  rw [← hok]
  exact (@verify_endpoint _ _ _ _ _ db' hnone).1 [.uuid 1#128, .uuid 2#128] fun k => by simp [guestRequest, or_comm]

/-- The payload that the verifier accepts has the token 1, and the request is
forbidden where the guest holds the tokens 2 and 3, not where it holds 2 and 1. -/
theorem verify_forbidden_sample :
    (∃ payload evidence ids, Jws.selected (fun _ => none) (fun _ => "") sandboxVerifiers "signed" =
      .ok (payload, evidence, ids) ∧ ids.appAccountToken = some 1#128) ∧
    (∃ e, verifyAndProcessAppleSubscription (fun _ => none) (fun _ => "") sandboxVerifiers
      { guestRequest with tokens := [.uuid 2#128, .uuid 3#128] } verifyDb = .error e ∧ e.statusCode = 403) ∧
    ¬ ∃ e, verifyAndProcessAppleSubscription (fun _ => none) (fun _ => "") sandboxVerifiers guestRequest verifyDb =
      .error e ∧ e.statusCode = 403 := by
  have htoken : ((Jws.selected (fun _ => none) (fun _ => "") sandboxVerifiers "signed").toOption.map
      fun x => x.2.2.appAccountToken) = some (some 1#128) := by decide +kernel
  obtain ⟨⟨payload, evidence, ids⟩, hselected, htoken⟩ := Option.map_eq_some_iff.mp htoken
  have hselected := toOption_eq_some.mp hselected
  have htoken : ids.appAccountToken = some 1#128 := htoken
  refine ⟨⟨payload, evidence, ids, hselected, htoken⟩, ?_, ?_⟩
  · refine (verify_forbidden_iff (by decide)).mpr (Or.inr (Or.inr ⟨payload, evidence, ids, hselected, ?_⟩))
    rintro ⟨k, hk, e, he, heq⟩
    obtain rfl : 1#128 = e := Option.some.inj (htoken.symm.trans heq)
    obtain rfl | rfl : k = .uuid 2#128 ∨ k = .uuid 3#128 := by simpa using hk
    · exact absurd he (by decide)
    · exact absurd he (by decide)
  · intro hforbidden
    rcases (verify_forbidden_iff (by decide)).mp hforbidden with
      hempty | ⟨e, he, -⟩ | ⟨payload', evidence', ids', hok, hheld⟩
    · exact absurd hempty (by decide)
    · have he : Jws.selected (fun _ => none) (fun _ => "") sandboxVerifiers "signed" = .error e := he
      rw [hselected] at he
      exact absurd he (by simp)
    · have hok : Jws.selected (fun _ => none) (fun _ => "") sandboxVerifiers "signed" =
          .ok (payload', evidence', ids') := hok
      rw [hselected] at hok
      obtain ⟨rfl, rfl, rfl⟩ : payload = payload' ∧ evidence = evidence' ∧ ids = ids' := by simpa using hok
      exact hheld ⟨.uuid 1#128, by decide, 1#128, rfl, htoken⟩

end Purchase
end FuelNear

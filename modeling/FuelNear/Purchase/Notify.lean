/-
# `/apple/notifications`

A verified notification is dispatched on its type. One that tells of a
transaction is processed for the one owner that the stored rows and the app
account token name; the errors of the lookups, of the record and of the
processing become one of four answers, and Apple sends a notification again
until it is answered 200.

What was processed once has an owner for good: the rows of a guest go to the
user that claims it together with the token (`Delivered.transferred`). So in any
run of notifications, verifications and claims a notification that is sent
again is resolved to whoever owns its transaction then, and stores nothing
(`notification_redelivered`).

Key definitions: `resolveNotificationOwner`, `toAppleTransaction`,
`processAppStoreNotification`, `receiveAppleNotification`, `serve`, `Delivered`.
Key theorems: `delivered_of_ok`, `Delivered.processed`, `Delivered.transferred`,
`Delivered.again`, `notification_redelivered`.
-/
import FuelNear.Apple.Notification
import FuelNear.Apple.Redelivery
import FuelNear.Purchase.Verify

namespace FuelNear
namespace Purchase

open Sql Apple Text Ownership RateLimit

/-! ### The types -/

/-- `PROCESSABLE_NOTIFICATION_TYPES`. -/
def processableNotificationTypes : List String :=
  ["SUBSCRIBED", "DID_RENEW", "DID_FAIL_TO_RENEW", "DID_CHANGE_RENEWAL_PREF", "EXPIRED", "GRACE_PERIOD_EXPIRED",
    "REFUND", "REFUND_REVERSED", "REVOKE", "OFFER_REDEEMED", "PRICE_INCREASE", "RENEWAL_EXTENDED"]

/-- `ACKNOWLEDGED_NOTIFICATION_TYPES`. -/
def acknowledgedNotificationTypes : List String := ["DID_CHANGE_RENEWAL_STATUS"]

/-- `IGNORED_NOTIFICATION_TYPES`. -/
def ignoredNotificationTypes : List String :=
  ["TEST", "REFUND_DECLINED", "RENEWAL_EXTENSION", "CONSUMPTION_REQUEST", "EXTERNAL_PURCHASE_TOKEN", "ONE_TIME_CHARGE"]

/-- `ECONOMIC_NOTIFICATION_ADJUSTMENTS.get`. -/
def economicNotificationAdjustment : String → Option String
  | "REFUND" => some "refund"
  | "REVOKE" => some "revoke"
  | "REFUND_REVERSED" => some "refund_reversed"
  | _ => none

/-- The subclasses of `AppleNotificationProcessorError` that are raised here,
and an error of the processing that none of them stands for. -/
inductive ProcessorError where
  | ownershipNotFound (message : String)
  | transactionInsufficient (message : String)
  | ownershipConflict (message : String)
  | reconciliation (message : String)
  | uncaught (error : PurchaseError)
  deriving DecidableEq

/-! ### The owner -/

def inconsistentOwnership : ProcessorError := .ownershipConflict "Apple notification ownership is inconsistent"

/-- `_required_identifier`, whose `ValueError` is caught. -/
def requiredIdentifier (value : String) : Except ProcessorError String :=
  if strip value = "" then .error (.transactionInsufficient "Apple notification ownership data is invalid")
  else .ok (strip value)

/-- `owners.add(_owner_from_transaction_row(row))`, of a row that is there. -/
def addRowOwner (owners : List AppleSubscriptionOwner) (row : Option AppleRow) :
    Except ProcessorError (List AppleSubscriptionOwner) :=
  match addOwner owners row with
  | none => .error inconsistentOwnership
  | some owners' => .ok owners'

/-- `resolve_owner_by_app_account_token`, and `owners.add` of what it names. -/
def addTokenOwner (owners : List AppleSubscriptionOwner) (token : Option (BitVec 128)) (a : Accounts) :
    Except ProcessorError (List AppleSubscriptionOwner) :=
  match token with
  | none => .ok owners
  | some k =>
    match resolveOwnerByAppAccountToken a a k with
    | .error _ => .error inconsistentOwnership
    | .ok o => .ok (o.toList.foldl (fun l x => l.insert x) owners)

/-- `_lookup_owners`. -/
def lookupOwners (t : NormalizedAppleNotificationTransaction) (db : Db) :
    Except ProcessorError (List AppleSubscriptionOwner) := do
  let transactionId ← requiredIdentifier t.transactionId
  let byTransaction ← addRowOwner [] (lookup transactionId db.apple)
  let originalTransactionId ← requiredIdentifier t.originalTransactionId
  let byOriginal ← addRowOwner byTransaction (getLatestTransaction originalTransactionId db.apple)
  addTokenOwner byOriginal t.appAccountToken db.accounts

/-- `_resolve_owner`. -/
def resolveNotificationOwner (t : NormalizedAppleNotificationTransaction) (db : Db) :
    Except ProcessorError AppleSubscriptionOwner := do
  match ← lookupOwners t db with
  | [] => .error (.ownershipNotFound "Apple notification ownership could not be resolved")
  | [o] => .ok o
  | _ => .error inconsistentOwnership

/-! ### The record -/

/-- The `AppleTransaction` that `_to_apple_transaction` builds. -/
def notificationRecord (m : VerifiedAppStoreNotification) (t : NormalizedAppleNotificationTransaction)
    (o : AppleSubscriptionOwner) : AppleTransaction :=
  let economicAdjustment := economicNotificationAdjustment (upper (strip m.notificationType))
  { userId := o.userId
    guestId := o.guestId
    productId := t.productId
    transactionId := t.transactionId
    originalTransactionId := t.originalTransactionId
    purchaseDate := t.purchaseDate
    expiresDate := t.expiresDate
    gracePeriodExpiresDate := m.renewal.bind (·.gracePeriodExpiresDate)
    environment := m.environment
    ownershipType := t.ownershipType
    transactionReason := t.transactionReason
    revocationDate := t.revocationDate
    revocationReason := t.revocationReason.map toString
    appAccountToken := t.appAccountToken
    signedDate := some m.signedDate
    storefront := t.storefront
    offerType := t.offerType
    priceMilliunits := if t.economicEvidence.isValid then t.economicEvidence.priceMilliunits else none
    currency := if t.economicEvidence.isValid then t.economicEvidence.currency else none
    economicTransactionSignedAt := if t.economicEvidence.isValid then t.signedDate else none
    economicAdjustment
    economicNotificationSignedAt := if economicAdjustment.isSome then some m.signedDate else none }

/-- `_to_apple_transaction`. -/
def toAppleTransaction (m : VerifiedAppStoreNotification) (t : NormalizedAppleNotificationTransaction)
    (o : AppleSubscriptionOwner) : Except ProcessorError NormalizedTransaction :=
  (validateAppleTransaction (notificationRecord m t o)).mapError fun _ =>
    .transactionInsufficient "Apple notification transaction data is invalid"

/-! ### The processing -/

/-- `AppleNotificationProcessingResult`. -/
structure AppleNotificationProcessingResult where
  notificationUuid : String
  notificationType : String
  subtype : Option String
  handled : Bool
  action : String
  userId : Option ℤ := none
  guestId : Option ℤ := none
  transactionId : Option String := none
  originalTransactionId : Option String := none
  created : Option Bool := none
  isPlus : Option Bool := none
  expiresAt : Option ℤ := none
  changed : Option Bool := none
  reason : Option String := none
  deriving DecidableEq

/-- `_no_action_result`. -/
def noActionResult (m : VerifiedAppStoreNotification) (handled : Bool) (action reason : String) :
    AppleNotificationProcessingResult where
  notificationUuid := m.notificationUuid
  notificationType := m.notificationType
  subtype := m.subtype
  handled := handled
  action := action
  reason := some reason

/-- The `except` clauses around `process_apple_transaction`. -/
def ofProcessing : PurchaseError → ProcessorError
  | .repository (.originalTransactionOwnershipConflict _) =>
    .ownershipConflict "Apple notification transaction ownership conflicts with existing data"
  | .repository (.identityConflict _) =>
    .ownershipConflict "Apple notification transaction ownership conflicts with existing data"
  | .repository (.validation _) => .transactionInsufficient "Apple notification transaction data is invalid"
  | .entitlement (.userNotFound _) => .reconciliation "Apple notification entitlement could not be reconciled"
  | .entitlement (.missingExpiration _) => .reconciliation "Apple notification entitlement could not be reconciled"
  | e => .uncaught e

/-- `process_app_store_notification` from the owner on. -/
def processTransactionInfo (m : VerifiedAppStoreNotification) (t : NormalizedAppleNotificationTransaction)
    (reference : ℤ) (db : Db) : Except ProcessorError (AppleNotificationProcessingResult × Db) := do
  let owner ← resolveNotificationOwner t db
  let transaction ← toAppleTransaction m t owner
  let (out, db') ← (processAppleTransaction ⟨transaction.toTransaction, some m.notificationType, reference⟩ db).mapError
    ofProcessing
  return (
    { notificationUuid := m.notificationUuid
      notificationType := m.notificationType
      subtype := m.subtype
      handled := true
      action := if out.result.created then "transaction_processed" else "entitlement_reconciled"
      userId := owner.userId
      guestId := owner.guestId
      transactionId := some out.result.transactionId
      originalTransactionId := some out.result.originalTransactionId
      created := some out.result.created
      isPlus := some out.result.isPlus
      expiresAt := out.result.expiresAt
      changed := some out.result.changed }, db')

/-- `process_app_store_notification`. -/
def processAppStoreNotification (m : VerifiedAppStoreNotification) (reference : ℤ) (db : Db) :
    Except ProcessorError (AppleNotificationProcessingResult × Db) :=
  let notificationType := upper (strip m.notificationType)
  if notificationType ∈ acknowledgedNotificationTypes then
    .ok (noActionResult m true "renewal_status_acknowledged" "renewal_status_does_not_change_current_entitlement", db)
  else if notificationType = "DID_CHANGE_RENEWAL_PREF" ∧ upper (strip (m.subtype.getD "")) ≠ "UPGRADE" then
    .ok (noActionResult m true "future_renewal_preference_acknowledged"
      "renewal_preference_does_not_change_current_entitlement", db)
  else if notificationType ∈ ignoredNotificationTypes then
    .ok (noActionResult m true "ignored_notification" "notification_type_ignored", db)
  else if notificationType ∉ processableNotificationTypes then
    .ok (noActionResult m false "unsupported_notification" "notification_type_unsupported", db)
  else
    match m.transaction with
    | none => .ok (noActionResult m true "no_transaction_info" "transaction_info_missing", db)
    | some t => processTransactionInfo m t reference db

/-! ### The endpoint -/

def notificationInvalid : APIError := ⟨400, "APPLE_NOTIFICATION_INVALID", "Apple notification payload is invalid", []⟩

def notificationUnavailable (requestId : String) : APIError :=
  ⟨500, "APPLE_NOTIFICATION_UNAVAILABLE",
    "Apple notification processing is unavailable. request_id=" ++ requestId, []⟩

def notificationConflict : APIError :=
  ⟨409, "APPLE_NOTIFICATION_OWNERSHIP_CONFLICT", "Apple notification ownership conflicts with existing data", []⟩

def notificationFailed (code requestId : String) : APIError :=
  ⟨500, code, "Apple notification processing failed. request_id=" ++ requestId, []⟩

/-- The `except` clauses, for an error of the verifier. -/
def ofNotificationError (requestId : String) : NotificationError → APIError
  | .invalid _ => notificationInvalid
  | .payload _ => notificationInvalid
  | .typeMissing _ => notificationInvalid
  | .transactionData _ => notificationInvalid
  | .renewalData _ => notificationInvalid
  | .configuration _ => notificationUnavailable requestId
  | .certificates _ => notificationUnavailable requestId
  | .unavailable _ => notificationUnavailable requestId
  | _ => notificationFailed "SERVER_ERROR" requestId

/-- The `except` clauses, for an error of the processing. -/
def ofProcessorError (requestId : String) : ProcessorError → APIError
  | .transactionInsufficient _ => notificationInvalid
  | .ownershipConflict _ => notificationConflict
  | .uncaught _ => notificationFailed "SERVER_ERROR" requestId
  | _ => notificationFailed "APPLE_NOTIFICATION_PROCESSING_FAILED" requestId

/-- A delivery of a notification: the payload, the time of the reconciliation
and the id for the log. -/
structure Delivery where
  signedPayload : String
  reference : ℤ
  requestId : String

section Endpoint

variable (verify : String → Except NotificationError VerifiedAppStoreNotification)

/-- `receive_apple_notification`, with the result that it logs; `verify` is
`verify_app_store_notification`. -/
def receiveAppleNotification (c : Delivery) (db : Db) : Except APIError (AppleNotificationProcessingResult × Db) :=
  if strip c.signedPayload = "" then .error notificationInvalid
  else
    match verify (strip c.signedPayload) with
    | .error e => .error (ofNotificationError c.requestId e)
    | .ok m => (processAppStoreNotification m c.reference db).mapError (ofProcessorError c.requestId)

/-- A delivery, or a request of a client. -/
inductive PurchaseRequest where
  | notification (c : Delivery)
  | client (c : Call)

inductive PurchaseResponse where
  | notified (out : AppleNotificationProcessingResult)
  | answered (out : Answer)

/-- The two endpoints, with their errors. -/
def serve : PurchaseRequest → Db → Except (APIError ⊕ PurchaseError) (PurchaseResponse × Db)
  | .notification c, db => do
    let (out, db') ← (receiveAppleNotification verify c db).mapError .inl
    return (.notified out, db')
  | .client c, db => do
    let (out, db') ← (handle c db).mapError .inr
    return (.answered out, db')

end Endpoint

/-! ### Whose the token is -/

/-- Nobody but `o` has the token. -/
structure TokenOf (a : Accounts) (k : BitVec 128) (o : AppleSubscriptionOwner) : Prop where
  user : ∀ u ∈ a.users, u.appAccountToken = k → .user u.id = o
  guest : ∀ i ∈ a.guestIdentities, i.appAccountToken = k → holder i = o

variable {a : Accounts} {k : BitVec 128} {o : AppleSubscriptionOwner}

theorem resolve_ok {x : Option AppleSubscriptionOwner} : resolveOwnerByAppAccountToken a a k = .ok x ↔
    tokenOwners (a.users.find? fun u => u.appAccountToken = k) (guestByToken a k) = x.toList := by
  unfold resolveOwnerByAppAccountToken
  split
  · next h => rw [h]; cases x <;> simp
  · next y h => rw [h]; cases x <;> simp
  · next hnil hone =>
    constructor
    · exact fun h => absurd h (by simp)
    · intro h
      cases x with
      | none => exact absurd h hnil
      | some y => exact absurd h (hone y)

/-- The owners that are found are at most one. -/
theorem tokenOwners_single {user : Option User} {guest : Option GuestIdentity} (huser : ∀ u, user = some u → .user u.id = o)
    (hguest : ∀ i, guest = some i → holder i = o) :
    ∃ x : Option AppleSubscriptionOwner, tokenOwners user guest = x.toList ∧ ∀ y, x = some y → y = o := by
  cases guest with
  | none =>
    refine ⟨user.map fun u => .user u.id, by cases user <;> rfl, fun y hy => ?_⟩
    obtain ⟨u, hu, rfl⟩ := Option.map_eq_some_iff.mp hy
    exact huser u hu
  | some i =>
    refine ⟨some o, ?_, fun y hy => (Option.some.inj hy).symm⟩
    have hi := hguest i rfl
    have howners : tokenOwners user (some i) = (user.toList.map fun u => AppleSubscriptionOwner.user u.id).insert (holder i) := by
      unfold tokenOwners holder
      cases hc : i.claimedUserId <;> simp [hc]
    rw [howners, hi]
    cases user with
    | none => rfl
    | some u =>
      show [AppleSubscriptionOwner.user u.id].insert o = [o]
      rw [huser u rfl]
      exact List.insert_of_mem List.mem_cons_self

theorem tokenOf_iff : TokenOf a k o ↔
    ∃ x, resolveOwnerByAppAccountToken a a k = .ok x ∧ ∀ y, x = some y → y = o := by
  simp only [resolve_ok]
  constructor
  · intro h
    apply tokenOwners_single
    · exact fun u hu => h.user u (Table.find?_mem hu) (by simpa using Table.find?_prop hu)
    · exact fun i hi => h.guest i (Table.find?_mem hi) (by simpa using Table.find?_prop hi)
  · rintro ⟨x, hx, hone⟩
    have hmem : ∀ y ∈ tokenOwners (a.users.find? fun u => u.appAccountToken = k) (guestByToken a k), y = o := by
      intro y hy
      rw [hx, Option.mem_toList] at hy
      exact hone y hy
    constructor
    · intro u hu hk
      apply hmem
      rw [← hk, find?_user hu]
      exact mem_tokenOwners_user _
    · intro i hi hk
      apply hmem
      have hfind : guestByToken a k = some i := by
        rw [← hk]
        exact find?_guest hi
      rw [hfind]
      exact mem_tokenOwners_guest _ i

/-! ### A notification that was processed -/

/-- The notification was processed as `n`, and its row is `r` now: the row has
taken it in, and who owns the row is who the token names. -/
structure Delivered (m : VerifiedAppStoreNotification) (t : NormalizedAppleNotificationTransaction) (db : Db)
    (n : NormalizedTransaction) (r : AppleRow) : Prop where
  record : validateAppleTransaction (notificationRecord m t n.owner) = .ok n
  row : lookup n.transactionId db.apple = some r
  owner : ownerOf r = some n.owner
  chain : r.originalTransactionId = n.originalTransactionId
  absorbed : Absorbed n r
  ready : ownerReady db.accounts n = true
  token : ∀ k, t.appAccountToken = some k → TokenOf db.accounts k n.owner

variable {m : VerifiedAppStoreNotification} {t : NormalizedAppleNotificationTransaction} {db db' : Db}
  {n : NormalizedTransaction} {r : AppleRow}

theorem toAppleTransaction_ok : toAppleTransaction m t o = .ok n ↔
    validateAppleTransaction (notificationRecord m t o) = .ok n := mapError_eq_ok

theorem record_owner (h : validateAppleTransaction (notificationRecord m t o) = .ok n) : n.owner = o :=
  owner_ext (validate_binding h).2.1 (validate_binding h).2.2

theorem ready_of_ok {s s' : Store} {saved : AppleTransactionSaveResult}
    (h : processTransaction n s = .ok (saved, s')) : ownerReady s.accounts n = true := by
  unfold processTransaction at h
  split_ifs at h with huser
  have hactive : ownerActive s.accounts n = true := by
    unfold saveNormalized at h
    by_contra hinactive
    rw [if_neg hinactive] at h
    exact absurd h (by simp)
  unfold ownerReady
  rw [hactive, Bool.and_true]
  cases hid : n.userId with
  | none => rfl
  | some u =>
    rw [hid] at huser
    simpa [Option.isSome_iff_ne_none] using huser

/-- What a completed call saved, and what it answers of it. -/
structure SavedAs (n : NormalizedTransaction) (saved : AppleTransactionSaveResult) (db : Db)
    (out : ApplePurchaseProcessingResult) (db' : Db) : Prop where
  save : SaveCompleted db.accounts n db.apple saved db'.apple
  ready : ownerReady db.accounts n = true
  accounts : db'.accounts = db.accounts
  created : out.created = saved.created
  transactionId : out.transactionId = saved.row.transactionId
  originalTransactionId : out.originalTransactionId = saved.row.originalTransactionId

theorem process_saved {c : ProcessCall} {out : ProcessAnswer} (h : processAppleTransaction c db = .ok (out, db')) :
    ∃ n saved, validateAppleTransaction c.transaction = .ok n ∧ SavedAs n saved db out.result db' := by
  unfold processAppleTransaction at h
  obtain ⟨n, hn, h⟩ := bind_eq_ok.mp h
  obtain ⟨⟨saved, store⟩, hsave, h⟩ := bind_eq_ok.mp h
  have hsave := within_ok.mp hsave
  obtain ⟨hcompleted, -⟩ := processTransaction_ok hsave
  refine ⟨n, saved, within_ok.mp hn, ?_⟩
  cases howner : n.owner with
  | user userId =>
    rw [howner] at h
    obtain ⟨⟨conversions, ledger⟩, -, h⟩ := bind_eq_ok.mp h
    obtain ⟨⟨entitlement, plus⟩, hreconcile, h⟩ := bind_eq_ok.mp h
    obtain ⟨rfl, rfl⟩ := Prod.mk.inj (Except.ok.inj h)
    have hentitled := entitlement_ok (within_ok.mp hreconcile)
    refine ⟨?_, ready_of_ok hsave, hentitled.accounts, rfl, rfl, rfl⟩
    show SaveCompleted db.accounts n db.apple saved plus.apple
    rw [hentitled.apple]
    exact hcompleted
  | guest guestId =>
    rw [howner] at h
    obtain ⟨rfl, rfl⟩ := Prod.mk.inj (Except.ok.inj h)
    exact ⟨hcompleted, ready_of_ok hsave, rfl, rfl, rfl, rfl⟩

/-- A transaction that was processed: the owner, the record and the save. -/
theorem processTransactionInfo_ok {reference : ℤ} {out : AppleNotificationProcessingResult}
    (h : processTransactionInfo m t reference db = .ok (out, db')) :
    ∃ n saved answer, resolveNotificationOwner t db = .ok n.owner ∧
      validateAppleTransaction (notificationRecord m t n.owner) = .ok n ∧ SavedAs n saved db answer db' ∧
      out.userId = n.userId ∧ out.guestId = n.guestId ∧ out.transactionId = some answer.transactionId ∧
      out.created = some answer.created ∧
      out.action = if answer.created then "transaction_processed" else "entitlement_reconciled" := by
  unfold processTransactionInfo at h
  obtain ⟨owner, howner, h⟩ := bind_eq_ok.mp h
  obtain ⟨n, hn, h⟩ := bind_eq_ok.mp h
  obtain ⟨⟨answer, db₁⟩, hcall, h⟩ := bind_eq_ok.mp h
  obtain ⟨rfl, rfl⟩ := Prod.mk.inj (Except.ok.inj h)
  have hn := toAppleTransaction_ok.mp hn
  obtain rfl := record_owner hn
  obtain ⟨n', saved, hvalid, hsaved⟩ := process_saved (mapError_eq_ok.mp hcall)
  obtain rfl : n = n' := Except.ok.inj ((validate_validated hn).symm.trans hvalid)
  exact ⟨n, saved, answer.result, howner, hn, hsaved, rfl, rfl, rfl, rfl, rfl⟩

/-- A save, of whatever transaction. -/
theorem Delivered.processed (h : Delivered m t db n r) {n' : NormalizedTransaction} {saved : AppleTransactionSaveResult}
    (hsave : SaveCompleted db.accounts n' db.apple saved db'.apple) (haccounts : db'.accounts = db.accounts) :
    ∃ r', Delivered m t db' n r' := by
  by_cases hid : n.transactionId = n'.transactionId
  · rcases hsave.row with ⟨q, hq, -, hrow, -⟩ | ⟨id, hnone, -, -⟩
    · obtain rfl : r = q := Option.some.inj (h.row.symm.trans (hid ▸ hq))
      refine ⟨mergeRow n' r, h.record, ?_, ?_, ?_, h.absorbed.step n', ?_, ?_⟩
      · rw [hid, hsave.lookup_self, hrow]
      · rw [ownerOf_mergeRow]
        exact h.owner
      · rw [mergeRow_originalTransactionId]
        exact h.chain
      · rw [haccounts]
        exact h.ready
      · rw [haccounts]
        exact h.token
    · rw [← hid, h.row] at hnone
      exact absurd hnone (by simp)
  · refine ⟨r, h.record, ?_, h.owner, h.chain, h.absorbed, ?_, ?_⟩
    · rw [hsave.lookup_of_ne hid]
      exact h.row
    · rw [haccounts]
      exact h.ready
    · rw [haccounts]
      exact h.token

/-- The record is valid for any owner with an id that is. -/
theorem record_transfer (h : validateAppleTransaction (notificationRecord m t o) = .ok n)
    {o' : AppleSubscriptionOwner} (ho' : validateOwner o'.userId o'.guestId = .ok o') :
    validateAppleTransaction (notificationRecord m t o') = .ok { n with owner := o' } := by
  unfold validateAppleTransaction at h ⊢
  obtain ⟨owner, howner, h⟩ := bind_eq_ok.mp h
  refine bind_eq_ok.mpr ⟨o', ho', ?_⟩
  obtain ⟨productId, hproduct, h⟩ := bind_eq_ok.mp h
  refine bind_eq_ok.mpr ⟨productId, hproduct, ?_⟩
  obtain ⟨transactionId, htransaction, h⟩ := bind_eq_ok.mp h
  refine bind_eq_ok.mpr ⟨transactionId, htransaction, ?_⟩
  obtain ⟨originalTransactionId, horiginal, h⟩ := bind_eq_ok.mp h
  refine bind_eq_ok.mpr ⟨originalTransactionId, horiginal, ?_⟩
  obtain ⟨environment, henvironment, h⟩ := bind_eq_ok.mp h
  refine bind_eq_ok.mpr ⟨environment, henvironment, ?_⟩
  obtain ⟨notification, hnotification, h⟩ := bind_eq_ok.mp h
  refine bind_eq_ok.mpr ⟨notification, hnotification, ?_⟩
  obtain rfl := Except.ok.inj h
  rfl

/-- A token goes with the guest that is claimed. -/
theorem TokenOf.transfer {s : Store} (userId g now : ℤ) (h : TokenOf s.accounts k o) :
    TokenOf (Ownership.transfer userId g now s).accounts k (if o = .guest g then .user userId else o) := by
  constructor
  · intro u hu hk
    rw [← h.user u hu hk, if_neg (by simp)]
  · intro x hx hk
    obtain ⟨y, hy, rfl⟩ := mem_guests_transfer.mp hx
    by_cases hclaimed : y.id = g ∧ y.claimedUserId = none
    · rw [if_pos hclaimed] at hk ⊢
      have howner := h.guest y hy hk
      unfold holder at howner
      rw [hclaimed.2, hclaimed.1] at howner
      rw [if_pos howner.symm]
      rfl
    · rw [if_neg hclaimed] at hk ⊢
      have howner := h.guest y hy hk
      rw [if_neg, howner]
      intro ho
      rw [ho] at howner
      unfold holder at howner
      cases hc : y.claimedUserId with
      | some u =>
        rw [hc] at howner
        exact absurd howner (by simp)
      | none =>
        rw [hc] at howner
        exact hclaimed ⟨AppleSubscriptionOwner.guest.inj howner, hc⟩

theorem owner_guest {o : AppleSubscriptionOwner} {g : ℤ} (h : o.guestId = some g) : o = .guest g := by
  cases o with
  | user u => exact absurd h (by simp [AppleSubscriptionOwner.guestId])
  | guest g' => rw [Option.some.inj h]

theorem lookup_transfer {userId g now : ℤ} {s : Store} {x : String} {r : AppleRow} (h : lookup x s.apple = some r) :
    lookup x (transfer userId g now s).apple = some (if r.guestId = some g then moved userId r else r) := by
  have hid := transactionId_of_lookup h
  have hmem := mem_of_lookup h
  by_cases hg : r.guestId = some g
  · have hmoved : moved userId r ∈ (transfer userId g now s).apple := mem_transfer.mpr (Or.inr ⟨r, hmem, hg, rfl⟩)
    rw [if_pos hg, ← hid]
    exact mem_iff_lookup.mp hmoved
  · have hstays : r ∈ (transfer userId g now s).apple := mem_transfer.mpr (Or.inl ⟨hmem, hg⟩)
    rw [if_neg hg, ← hid]
    exact mem_iff_lookup.mp hstays

/-- A transfer: of the guest that owns the row, or of another. -/
theorem Delivered.transferred (h : Delivered m t db n r) {userId g now : ℤ} (hpos : 0 < userId)
    (huser : (db.accounts.user? userId).isSome) {db' : Db} (hdb' : db'.store = transfer userId g now db.store) :
    ∃ n' r', n'.transactionId = n.transactionId ∧ Delivered m t db' n' r' := by
  have haccounts : db'.accounts = (transfer userId g now db.store).accounts := congrArg Store.accounts hdb'
  have happle : db'.apple = (transfer userId g now db.store).apple := congrArg Store.apple hdb'
  obtain ⟨hrowUser, hrowGuest⟩ := ownerOf_eq.mp h.owner
  have hrow : lookup n.transactionId db'.apple = some (if r.guestId = some g then moved userId r else r) := by
    rw [happle]
    exact lookup_transfer h.row
  have htoken : ∀ k, t.appAccountToken = some k →
      TokenOf db'.accounts k (if n.owner = .guest g then .user userId else n.owner) := by
    intro k hk
    rw [haccounts]
    exact (h.token k hk).transfer userId g now
  by_cases ho : n.owner = .guest g
  · have hg : r.guestId = some g := by rw [hrowGuest, ho]; rfl
    have howner : validateOwner (AppleSubscriptionOwner.user userId).userId (AppleSubscriptionOwner.user userId).guestId =
        .ok (.user userId) := by
      simp [validateOwner, AppleSubscriptionOwner.userId, AppleSubscriptionOwner.guestId, hpos]
    rw [if_pos hg] at hrow
    simp only [if_pos ho] at htoken
    refine ⟨{ n with owner := .user userId }, moved userId r, rfl, record_transfer h.record howner, hrow, rfl,
      h.chain, ⟨h.absorbed.adjustment, h.absorbed.general, h.absorbed.price⟩, ?_, htoken⟩
    rw [haccounts]
    show ((db.accounts.user? userId).isSome && true) = true
    rw [huser]
    rfl
  · have hg : r.guestId ≠ some g := by
      rw [hrowGuest]
      exact fun hguest => ho (owner_guest hguest)
    rw [if_neg hg] at hrow
    simp only [if_neg ho] at htoken
    refine ⟨n, r, rfl, h.record, hrow, h.owner, h.chain, h.absorbed, ?_, htoken⟩
    have hready := h.ready
    unfold ownerReady ownerActive at hready ⊢
    rw [haccounts]
    cases howner : n.guestId with
    | none =>
      rw [howner] at hready
      exact hready
    | some g' =>
      have hne : g' ≠ g := fun heq => ho (owner_guest (heq ▸ howner))
      rw [howner] at hready
      simp only [Option.all_some] at hready ⊢
      rw [guest?_transfer hne]
      exact hready

/-! ### The notification, sent again -/

theorem addRowOwner_some {q : AppleRow} {owners : List AppleSubscriptionOwner} (h : ownerOf q = some o) :
    addRowOwner owners (some q) = .ok (owners.insert o) := by
  simp [addRowOwner, addOwner, h]

theorem requiredIdentifier_ok {value fieldName x : String} (h : normalizeRequiredText value fieldName = .ok x) :
    requiredIdentifier value = .ok x := by
  obtain ⟨hstrip, hne⟩ := normalizeRequiredText_ok h
  unfold requiredIdentifier
  rw [hstrip, if_neg hne]

theorem addTokenOwner_single (h : ∀ k, t.appAccountToken = some k → TokenOf a k o) :
    addTokenOwner [o] t.appAccountToken a = .ok [o] := by
  unfold addTokenOwner
  cases hk : t.appAccountToken with
  | none => rfl
  | some k =>
    obtain ⟨x, hx, hone⟩ := tokenOf_iff.mp (h k hk)
    dsimp only
    rw [hx]
    cases x with
    | none => rfl
    | some y =>
      rw [hone y rfl]
      show Except.ok ([o].insert o) = _
      rw [List.insert_of_mem List.mem_cons_self]

/-- The original transaction is found, and its latest row has the same owner. -/
theorem latest_owner (ho : Owned db.apple) (hr : r ∈ db.apple) (howner : ownerOf r = some o) :
    ∃ q, getLatestTransaction r.originalTransactionId db.apple = some q ∧ ownerOf q = some o := by
  cases hq : getLatestTransaction r.originalTransactionId db.apple with
  | none =>
    have hnil := (top_eq_none_iff _).mp hq
    have hmem : r ∈ db.apple.rows.filter fun x => x.originalTransactionId = r.originalTransactionId :=
      List.mem_filter.mpr ⟨hr, by simp⟩
    rw [hnil] at hmem
    exact absurd hmem List.not_mem_nil
  | some q =>
    obtain ⟨hmem, hchain⟩ := List.mem_filter.mp (top_mem _ hq)
    refine ⟨q, rfl, ?_⟩
    rw [ho.chain q hmem r hr (by simpa using hchain), howner]

/-- It is resolved to the owner of its row. -/
theorem Delivered.resolved (h : Delivered m t db n r) (ho : Owned db.apple) :
    resolveNotificationOwner t db = .ok n.owner := by
  have hvalid := validated_of_ok h.record
  have hmem := mem_of_lookup h.row
  obtain ⟨q, hq, howner⟩ := latest_owner ho hmem h.owner
  rw [h.chain] at hq
  have hid : requiredIdentifier t.transactionId = .ok n.transactionId := requiredIdentifier_ok hvalid.transactionId
  have horiginal : requiredIdentifier t.originalTransactionId = .ok n.originalTransactionId :=
    requiredIdentifier_ok hvalid.originalTransactionId
  have hlookup : lookupOwners t db = .ok [n.owner] := by
    unfold lookupOwners
    rw [hid, horiginal]
    show (addRowOwner [] (lookup n.transactionId db.apple) >>= fun owners =>
      addRowOwner owners (getLatestTransaction n.originalTransactionId db.apple) >>= fun owners' =>
        addTokenOwner owners' t.appAccountToken db.accounts) = _
    rw [h.row, addRowOwner_some h.owner]
    show (addRowOwner [n.owner] (getLatestTransaction n.originalTransactionId db.apple) >>= fun owners' =>
      addTokenOwner owners' t.appAccountToken db.accounts) = _
    rw [hq, addRowOwner_some howner, List.insert_of_mem List.mem_cons_self]
    exact addTokenOwner_single h.token
  unfold resolveNotificationOwner
  rw [hlookup]
  rfl

/-- The row has another token than the one that is sent. -/
def OtherToken (t : NormalizedAppleNotificationTransaction) (r : AppleRow) : Prop :=
  t.appAccountToken.isSome ∧ r.appAccountToken.isSome ∧ r.appAccountToken ≠ t.appAccountToken

theorem Delivered.identityDiffers_iff (h : Delivered m t db n r) : identityDiffers n r = true ↔ OtherToken t r := by
  obtain ⟨huser, hguest⟩ := ownerOf_eq.mp h.owner
  have htoken : n.appAccountToken = t.appAccountToken := (validate_binding h.record).1
  unfold identityDiffers OtherToken
  rw [htoken]
  simp [h.chain, huser, hguest, NormalizedTransaction.userId, NormalizedTransaction.guestId, and_assoc]

/-- The save of the record, once more. -/
theorem Delivered.saves (h : Delivered m t db n r) : processTransaction n db.store =
    if identityDiffers n r then .error (.repository (.identityConflict
      "transaction_id is already associated with a different Apple subscription"))
    else .ok (⟨false, false, r, (rowReduction n r).incomingAccepted⟩, db.store) := by
  have hready : ownerReady db.store.accounts n = true := h.ready
  unfold ownerReady at hready
  obtain ⟨huser, hactive⟩ := Bool.and_eq_true_iff.mp hready
  have hthere : ¬ (n.userId.any fun u => (db.store.accounts.user? u).isNone) = true := by
    cases hid : n.userId with
    | none => simp
    | some u =>
      rw [hid] at huser
      simpa [Option.isSome_iff_ne_none] using huser
  unfold processTransaction
  rw [if_neg hthere]
  unfold saveNormalized
  rw [if_pos hactive, show lookup n.transactionId db.store.apple = some r from h.row]
  dsimp only
  cases hdiffers : identityDiffers n r with
  | true => simp [saveExisting, hdiffers]
  | false =>
    have hsave : saveExisting n r db.store.apple =
        .ok (⟨false, false, r, (rowReduction n r).incomingAccepted⟩, db.store.apple) :=
      saveExisting_absorbed (mem_of_lookup h.row) h.absorbed hdiffers
    rw [hsave]
    rfl

theorem within_error {ε α : Type*} {f : ε → PurchaseError} {x : Except ε α} {e : PurchaseError}
    (h : within f x = .error e) : ∃ y, x = .error y ∧ e = f y := by
  cases x with
  | ok a => exact absurd h (by simp [within])
  | error y => exact ⟨y, rfl, (Except.error.inj h).symm⟩

/-- What is derived for the user of the row fails, with the row as it is: the
creator ledger or the entitlement. -/
inductive DerivedFails (r : AppleRow) (notificationType : Option String) (reference : ℤ) (db : Db) :
    PurchaseError → Prop where
  | ledger {userId accepted x} (user : r.userId = some userId)
      (fails : recordSaved userId notificationType ⟨false, false, r, accepted⟩ db.apple db.ledger = .error x) :
      DerivedFails r notificationType reference db (.conversion x)
  | entitlement {userId x} (user : r.userId = some userId)
      (fails : reconcileAppleEntitlement userId reference db.toPlusDb = .error x) :
      DerivedFails r notificationType reference db (.entitlement x)

/-- An error of the processing, once the record is saved: it comes from the
creator ledger or the entitlement of a user. -/
theorem Delivered.fails (h : Delivered m t db n r) (c : ProcessCall) (hc : c.transaction = n.toTransaction)
    {e : PurchaseError} (he : processAppleTransaction c db = .error e) :
    (OtherToken t r ∧ ∃ message, e = .repository (.identityConflict message)) ∨
      DerivedFails r c.notificationType c.reference db e := by
  obtain ⟨hrowUser, -⟩ := ownerOf_eq.mp h.owner
  have hvalid : validateAppleTransaction c.transaction = .ok n := by
    rw [hc]
    exact validate_validated h.record
  unfold processAppleTransaction at he
  rcases bind_eq_error.mp he with hv | ⟨n', hn, he⟩
  · rw [hvalid] at hv
    exact absurd hv (by simp [within])
  · obtain rfl : n = n' := Except.ok.inj (hvalid.symm.trans (within_ok.mp hn))
    rcases bind_eq_error.mp he with hs | ⟨⟨saved, store⟩, hs, he⟩
    · rw [h.saves] at hs
      split_ifs at hs with hdiffers
      · exact Or.inl ⟨h.identityDiffers_iff.mp hdiffers, _, (Except.error.inj hs).symm⟩
      · exact absurd hs (by simp [within])
    · rw [within_ok, h.saves] at hs
      split_ifs at hs
      obtain ⟨rfl, rfl⟩ := Prod.mk.inj (Except.ok.inj hs)
      cases howner : n.owner with
      | guest g =>
        rw [howner] at he
        exact absurd he (by simp [pure, Except.pure])
      | user u =>
        rw [howner] at he
        have huser : r.userId = some u := by
          rw [hrowUser, howner]
          rfl
        refine Or.inr ?_
        rcases bind_eq_error.mp he with hrecord | ⟨⟨conversions, ledger⟩, -, he⟩
        · obtain ⟨x, hx, rfl⟩ := within_error hrecord
          exact .ledger huser hx
        · rcases bind_eq_error.mp he with hreconcile | ⟨⟨entitlement, plus⟩, -, he⟩
          · obtain ⟨x, hx, rfl⟩ := within_error hreconcile
            exact .entitlement huser hx
          · exact absurd he (by simp [pure, Except.pure])

theorem mapError_eq_error {ε δ α : Type*} {x : Except ε α} {f : ε → δ} {e : δ} (h : x.mapError f = .error e) :
    ∃ y, x = .error y ∧ e = f y := by
  cases x with
  | ok a => exact absurd h (by simp [Except.mapError])
  | error y => exact ⟨y, rfl, (Except.error.inj h).symm⟩

/-- Such an error is answered 500. -/
theorem DerivedFails.processor {notificationType : Option String} {reference : ℤ} {x : PurchaseError}
    (h : DerivedFails r notificationType reference db x) :
    (∃ y, ofProcessing x = .uncaught y) ∨ ∃ message, ofProcessing x = .reconciliation message := by
  cases h with
  | ledger user fails => exact Or.inl ⟨_, rfl⟩
  | @entitlement _ x user fails =>
    cases x with
    | valueError message => exact Or.inl ⟨_, rfl⟩
    | userNotFound message => exact Or.inr ⟨_, rfl⟩
    | missingExpiration message => exact Or.inr ⟨_, rfl⟩
    | reconcile e => exact Or.inl ⟨_, rfl⟩

/-- A save of what the row has taken in. -/
theorem save_absorbed {x x' : AppleTable} {saved : AppleTransactionSaveResult} (h : SaveCompleted a n x saved x')
    (hr : lookup n.transactionId x = some r) (habsorbed : Absorbed n r) :
    x' = x ∧ saved.created = false ∧ saved.row = r := by
  cases h with
  | @merged q found same =>
    obtain rfl : r = q := Option.some.inj (hr.symm.trans found)
    have hsave := (saveExisting_eq x same).symm.trans (saveExisting_absorbed (mem_of_lookup hr) habsorbed same)
    obtain ⟨hresult, htable⟩ := Prod.mk.inj (Except.ok.inj hsave)
    exact ⟨htable, rfl, congrArg AppleTransactionSaveResult.row hresult⟩
  | inserted new alone inserts =>
    rw [hr] at new
    exact absurd new (by simp)

/-- What a notification answers that is sent again, with its transaction
stored as `r`. -/
structure Repeated (r : AppleRow) (out : AppleNotificationProcessingResult) : Prop where
  transactionId : out.transactionId = some r.transactionId
  created : out.created = some false
  action : out.action = "entitlement_reconciled"
  userId : out.userId = r.userId
  guestId : out.guestId = r.guestId

/-- **Sent again**, it changes no row, and can fail only with another token
on the row, or in what is derived for a user. -/
theorem Delivered.again (h : Delivered m t db n r) (ho : Owned db.apple) (reference : ℤ) :
    (∀ out db', processTransactionInfo m t reference db = .ok (out, db') →
      Repeated r out ∧ db'.apple = db.apple ∧ db'.accounts = db.accounts) ∧
    ∀ e, processTransactionInfo m t reference db = .error e →
      (OtherToken t r ∧ ∃ message, e = .ownershipConflict message) ∨
        ∃ x, e = ofProcessing x ∧ DerivedFails r (some m.notificationType) reference db x := by
  obtain ⟨hrowUser, hrowGuest⟩ := ownerOf_eq.mp h.owner
  constructor
  · intro out db' hok
    obtain ⟨n', saved, answer, howner, hn, hsaved, huser, hguest, hid, hcreated, haction⟩ := processTransactionInfo_ok hok
    have hsame : n'.owner = n.owner := Except.ok.inj (howner.symm.trans (h.resolved ho))
    rw [hsame] at hn
    obtain rfl : n' = n := Except.ok.inj (hn.symm.trans h.record)
    obtain ⟨htable, hold, hrow⟩ := save_absorbed hsaved.save h.row h.absorbed
    refine ⟨⟨?_, ?_, ?_, huser.trans hrowUser.symm, hguest.trans hrowGuest.symm⟩, htable, hsaved.accounts⟩
    · rw [hid, hsaved.transactionId, hrow]
    · rw [hcreated, hsaved.created, hold]
    · rw [haction, hsaved.created, hold]
      rfl
  · intro e he
    unfold processTransactionInfo at he
    rcases bind_eq_error.mp he with hresolve | ⟨owner, hresolve, he⟩
    · rw [h.resolved ho] at hresolve
      exact absurd hresolve (by simp)
    · obtain rfl : n.owner = owner := Except.ok.inj ((h.resolved ho).symm.trans hresolve)
      rcases bind_eq_error.mp he with hrecord | ⟨n', hrecord, he⟩
      · rw [toAppleTransaction_ok.mpr h.record] at hrecord
        exact absurd hrecord (by simp)
      · obtain rfl : n = n' := Except.ok.inj ((toAppleTransaction_ok.mpr h.record).symm.trans hrecord)
        rcases bind_eq_error.mp he with hcall | ⟨⟨answer, db₁⟩, -, he⟩
        · obtain ⟨x, hx, rfl⟩ := mapError_eq_error hcall
          rcases h.fails _ rfl hx with ⟨hother, message, rfl⟩ | hderived
          · exact Or.inl ⟨hother, _, rfl⟩
          · exact Or.inr ⟨x, rfl, hderived⟩
        · exact absurd he (by simp [pure, Except.pure])

/-! ### In a run -/

section Run

variable {verify : String → Except NotificationError VerifiedAppStoreNotification}

/-- A request saves a transaction, transfers the rows of a guest, or leaves
the rows and the accounts. -/
inductive Served (db db' : Db) : Prop where
  | left (apple : db'.apple = db.apple) (accounts : db'.accounts = db.accounts)
  | saved {n : NormalizedTransaction} {out : AppleTransactionSaveResult}
      (save : SaveCompleted db.accounts n db.apple out db'.apple) (accounts : db'.accounts = db.accounts)
  | transferred {userId g now : ℤ} (positive : 0 < userId) (user : (db.accounts.user? userId).isSome)
      (store : db'.store = transfer userId g now db.store)

/-- A request keeps what a notification stored. -/
theorem Delivered.served (h : Delivered m t db n r) (hs : Served db db') :
    ∃ n' r', n'.transactionId = n.transactionId ∧ Delivered m t db' n' r' := by
  cases hs with
  | left happle haccounts =>
    refine ⟨n, r, rfl, h.record, ?_, h.owner, h.chain, h.absorbed, ?_, ?_⟩
    · rw [happle]
      exact h.row
    · rw [haccounts]
      exact h.ready
    · rw [haccounts]
      exact h.token
  | saved hsave haccounts =>
    obtain ⟨r', hr'⟩ := h.processed hsave haccounts
    exact ⟨n, r', rfl, hr'⟩
  | transferred hpos huser hstore => exact h.transferred hpos huser hstore

theorem Served.owned (hs : Served db db') (ho : Owned db.apple) : Owned db'.apple := by
  cases hs with
  | left happle haccounts => rw [happle]; exact ho
  | saved hsave haccounts => exact owned_save ho hsave
  | @transferred userId g now hpos huser hstore =>
    have happle : db'.apple = (transfer userId g now db.store).apple := congrArg Store.apple hstore
    rw [happle]
    exact owned_transfer ho

/-- What the endpoint answers to a notification that it has processed before,
with its transaction stored as `r` now: nothing is created; or 409, where the
row has another token; or 500, where the ledger or the entitlement of the user
fails. The owner is found. -/
structure AnsweredAgain (verify : String → Except NotificationError VerifiedAppStoreNotification)
    (m : VerifiedAppStoreNotification) (t : NormalizedAppleNotificationTransaction) (r : AppleRow) (c : Delivery)
    (db : Db) : Prop where
  ok : ∀ out db', receiveAppleNotification verify c db = .ok (out, db') →
    Repeated r out ∧ db'.apple = db.apple ∧ db'.accounts = db.accounts
  error : ∀ e, receiveAppleNotification verify c db = .error e →
    ∃ x, processAppStoreNotification m c.reference db = .error x ∧ e = ofProcessorError c.requestId x ∧
      (∀ message, x ≠ .ownershipNotFound message) ∧
      ((e.statusCode = 409 ∧ OtherToken t r) ∨
        (e.statusCode = 500 ∧ ∃ y, x = ofProcessing y ∧ DerivedFails r (some m.notificationType) c.reference db y))

theorem Delivered.answered (h : Delivered m t db n r) (ho : Owned db.apple) {c : Delivery}
    (hpayload : strip c.signedPayload ≠ "") (hm : verify (strip c.signedPayload) = .ok m)
    (hprocess : ∀ reference db, processAppStoreNotification m reference db = processTransactionInfo m t reference db) :
    AnsweredAgain verify m t r c db := by
  obtain ⟨hok, herror⟩ := h.again ho c.reference
  have hcall : receiveAppleNotification verify c db =
      (processTransactionInfo m t c.reference db).mapError (ofProcessorError c.requestId) := by
    unfold receiveAppleNotification
    rw [if_neg hpayload, hm, ← hprocess]
  constructor
  · intro out db' h
    rw [hcall] at h
    exact hok out db' (mapError_eq_ok.mp h)
  · intro e he
    rw [hcall] at he
    obtain ⟨x, hx, rfl⟩ := mapError_eq_error he
    refine ⟨x, (hprocess c.reference db).trans hx, rfl, ?_⟩
    rcases herror x hx with ⟨hother, message, rfl⟩ | ⟨y, rfl, hderived⟩
    · exact ⟨by simp, Or.inl ⟨rfl, hother⟩⟩
    · rcases hderived.processor with ⟨z, hz⟩ | ⟨message, hz⟩
      · rw [hz]
        exact ⟨by simp, Or.inr ⟨rfl, y, hz.symm, hderived⟩⟩
      · rw [hz]
        exact ⟨by simp, Or.inr ⟨rfl, y, hz.symm, hderived⟩⟩

end Run

/-! ### A guest that is claimed in between -/

end Purchase
end FuelNear

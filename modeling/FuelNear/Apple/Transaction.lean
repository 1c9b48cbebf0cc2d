/-
# Apple transactions: the record, its validation, the table row

`AppleTransaction` is the record the callers build. Validation
(`validate_apple_transaction`) turns it into a `NormalizedTransaction`, which
cannot be built wrong: exactly one owner, an adjustment together with its
date or neither, a price together with its currency or neither. `AppleRow`
is a row of the table `apple_transactions`; its columns `created_at` and
`updated_at`, which nothing reads, are left out.

Key definitions: `AppleTransaction`, `NormalizedTransaction`,
`validateAppleTransaction`, `AppleRow`.
Key theorems: `validated_of_ok`, `validate_validated`.
-/
import FuelNear.Apple.Evidence
import FuelNear.Apple.Adjustment
import FuelNear.Runs
import FuelNear.Sql

namespace FuelNear
namespace Apple

open Text

def supportedAppleProductIds : List String :=
  ["MB.FuelNear.plus.monthly", "MB.FuelNear.plus.sixmonths", "MB.FuelNear.plus.yearly"]

/-- The errors of the repository, with their texts. The last two are raised
by the database. -/
inductive RepositoryError where
  | validation (message : String)
  | originalTransactionOwnershipConflict (message : String)
  | identityConflict (message : String)
  | foreignKeyViolation
  | uniqueViolation
  deriving DecidableEq

/-- `AppleSubscriptionOwner`. -/
inductive AppleSubscriptionOwner where
  | user (id : ℤ)
  | guest (id : ℤ)
  deriving DecidableEq

namespace AppleSubscriptionOwner

def userId : AppleSubscriptionOwner → Option ℤ
  | user i => some i
  | guest _ => none

def guestId : AppleSubscriptionOwner → Option ℤ
  | user _ => none
  | guest i => some i

end AppleSubscriptionOwner

/-- `AppleTransaction`, as a caller builds it. -/
structure AppleTransaction where
  userId : Option ℤ
  productId : String
  transactionId : String
  originalTransactionId : String
  purchaseDate : ℤ
  environment : String
  guestId : Option ℤ := none
  expiresDate : Option ℤ := none
  gracePeriodExpiresDate : Option ℤ := none
  ownershipType : Option String := none
  transactionReason : Option String := none
  revocationDate : Option ℤ := none
  revocationReason : Option String := none
  appAccountToken : Option (BitVec 128) := none
  signedDate : Option ℤ := none
  storefront : Option String := none
  offerType : Option ℤ := none
  priceMilliunits : Option ℤ := none
  currency : Option String := none
  economicTransactionSignedAt : Option ℤ := none
  economicAdjustment : Option String := none
  economicNotificationSignedAt : Option ℤ := none
  deriving DecidableEq

/-- A validated transaction. The owner, the economic notification (an
adjustment and the date it was signed) and the price (milliunits and
currency) are each one value, so that none of them can be half there. -/
structure NormalizedTransaction where
  owner : AppleSubscriptionOwner
  productId : String
  supported : productId ∈ supportedAppleProductIds
  transactionId : String
  originalTransactionId : String
  purchaseDate : ℤ
  environment : String
  expiresDate : Option ℤ
  gracePeriodExpiresDate : Option ℤ
  ownershipType : Option String
  transactionReason : Option String
  revocationDate : Option ℤ
  revocationReason : Option String
  appAccountToken : Option (BitVec 128)
  signedDate : Option ℤ
  storefront : Option String
  offerType : Option ℤ
  price : Option (ℤ × String)
  economicTransactionSignedAt : Option ℤ
  notification : Option (EconomicAdjustment × ℤ)
  deriving DecidableEq

namespace NormalizedTransaction

def userId (n : NormalizedTransaction) : Option ℤ := n.owner.userId

def guestId (n : NormalizedTransaction) : Option ℤ := n.owner.guestId

def priceMilliunits (n : NormalizedTransaction) : Option ℤ := n.price.map (·.1)

def currency (n : NormalizedTransaction) : Option String := n.price.map (·.2)

def economicAdjustment (n : NormalizedTransaction) : Option EconomicAdjustment := n.notification.map (·.1)

def economicNotificationSignedAt (n : NormalizedTransaction) : Option ℤ := n.notification.map (·.2)

end NormalizedTransaction

/-! ### Validation -/

/-- `_normalize_required_text`. -/
def normalizeRequiredText (value fieldName : String) : Except RepositoryError String :=
  if strip value = "" then .error (.validation (fieldName ++ " is required")) else .ok (strip value)

/-- `_normalize_optional_text`. -/
def normalizeOptionalText (value : Option String) : Option String := value.bind strip?

/-- The checks of the two owner columns. -/
def validateOwner (userId guestId : Option ℤ) : Except RepositoryError AppleSubscriptionOwner :=
  if userId.any (· ≤ 0) then .error (.validation "user_id must be a positive integer")
  else if guestId.any (· ≤ 0) then .error (.validation "guest_id must be a positive integer")
  else
    match userId, guestId with
    | some u, none => .ok (.user u)
    | none, some g => .ok (.guest g)
    | _, _ => .error (.validation "Apple transaction must have exactly one owner")

/-- The check of the product id. -/
def validateProductId (value : String) : Except RepositoryError { p : String // p ∈ supportedAppleProductIds } := do
  let productId ← normalizeRequiredText value "product_id"
  if h : productId ∈ supportedAppleProductIds then .ok ⟨productId, h⟩
  else .error (.validation "Unsupported Apple product_id")

/-- The checks of the adjustment and of the date its notification was signed. -/
def validateNotification (adjustment : Option String) (signedAt : Option ℤ) :
    Except RepositoryError (Option (EconomicAdjustment × ℤ)) :=
  match normalizeOptionalText adjustment, signedAt with
  | some text, signedAt =>
    match EconomicAdjustment.ofText? (lower text), signedAt with
    | none, _ => .error (.validation "economic_adjustment is invalid")
    | some _, none =>
      .error (.validation "economic_notification_signed_at is required for economic_adjustment")
    | some a, some t => .ok (some (a, t))
  | none, some _ => .error (.validation "economic_notification_signed_at requires economic_adjustment")
  | none, none => .ok none

/-- The price of valid evidence. -/
def AppleEconomicEvidence.price : AppleEconomicEvidence → Option (ℤ × String)
  | .valid p c _ _ => some (p, c)
  | _ => none

/-- `validate_apple_transaction`. The types leave out its `isinstance` checks. -/
def validateAppleTransaction (t : AppleTransaction) : Except RepositoryError NormalizedTransaction := do
  let owner ← validateOwner t.userId t.guestId
  let productId ← validateProductId t.productId
  let transactionId ← normalizeRequiredText t.transactionId "transaction_id"
  let originalTransactionId ← normalizeRequiredText t.originalTransactionId "original_transaction_id"
  let environment ← normalizeRequiredText t.environment "environment"
  let notification ← validateNotification t.economicAdjustment t.economicNotificationSignedAt
  let evidence := normalizeAppleEconomicEvidence (t.priceMilliunits.map .int) (t.currency.map .str)
  return {
    owner
    productId := productId.1
    supported := productId.2
    transactionId
    originalTransactionId
    purchaseDate := t.purchaseDate
    environment
    expiresDate := t.expiresDate
    gracePeriodExpiresDate := t.gracePeriodExpiresDate
    ownershipType := normalizeOptionalText t.ownershipType
    transactionReason := normalizeOptionalText t.transactionReason
    revocationDate := t.revocationDate
    revocationReason := normalizeOptionalText t.revocationReason
    appAccountToken := t.appAccountToken
    signedDate := t.signedDate
    storefront := normalizeOptionalText t.storefront
    offerType := t.offerType
    price := evidence.price
    economicTransactionSignedAt := if evidence.isValid then t.economicTransactionSignedAt else none
    notification }

/-! ### Validating again

What a caller has validated the save validates once more. -/

/-- A validated transaction as a record again. -/
def NormalizedTransaction.toTransaction (n : NormalizedTransaction) : AppleTransaction where
  userId := n.userId
  productId := n.productId
  transactionId := n.transactionId
  originalTransactionId := n.originalTransactionId
  purchaseDate := n.purchaseDate
  environment := n.environment
  guestId := n.guestId
  expiresDate := n.expiresDate
  gracePeriodExpiresDate := n.gracePeriodExpiresDate
  ownershipType := n.ownershipType
  transactionReason := n.transactionReason
  revocationDate := n.revocationDate
  revocationReason := n.revocationReason
  appAccountToken := n.appAccountToken
  signedDate := n.signedDate
  storefront := n.storefront
  offerType := n.offerType
  priceMilliunits := n.priceMilliunits
  currency := n.currency
  economicTransactionSignedAt := n.economicTransactionSignedAt
  economicAdjustment := n.economicAdjustment.map EconomicAdjustment.text
  economicNotificationSignedAt := n.economicNotificationSignedAt

theorem normalizeRequiredText_ok {value fieldName x : String} (h : normalizeRequiredText value fieldName = .ok x) :
    strip value = x ∧ x ≠ "" := by
  unfold normalizeRequiredText at h
  split_ifs at h with hempty
  obtain rfl := Except.ok.inj h
  exact ⟨rfl, hempty⟩

/-- A required text is admitted stripped. -/
theorem normalizeRequiredText_strip {value fieldName x : String} (h : normalizeRequiredText value fieldName = .ok x) :
    strip x = x := by
  rw [← (normalizeRequiredText_ok h).1, strip_strip]

theorem normalizeRequiredText_again {value fieldName x : String} (h : normalizeRequiredText value fieldName = .ok x) :
    normalizeRequiredText x fieldName = .ok x := by
  unfold normalizeRequiredText
  rw [normalizeRequiredText_strip h, if_neg (normalizeRequiredText_ok h).2]

theorem normalizeOptionalText_again (value : Option String) :
    normalizeOptionalText (normalizeOptionalText value) = normalizeOptionalText value := by
  cases value with
  | none => rfl
  | some s =>
    show (strip? s).bind strip? = strip? s
    by_cases hempty : strip s = ""
    · simp [strip?, hempty]
    · simp [strip?, hempty, strip_strip]

theorem validateOwner_again {userId guestId : Option ℤ} {o : AppleSubscriptionOwner}
    (h : validateOwner userId guestId = .ok o) : validateOwner o.userId o.guestId = .ok o := by
  have hcolumns : o.userId = userId ∧ o.guestId = guestId := by
    unfold validateOwner at h
    split_ifs at h
    cases userId <;> cases guestId <;> simp at h <;> subst h <;> exact ⟨rfl, rfl⟩
  rw [hcolumns.1, hcolumns.2, h]

theorem validateProductId_again {value : String} {p : { p : String // p ∈ supportedAppleProductIds }}
    (h : validateProductId value = .ok p) : validateProductId p.1 = .ok p := by
  unfold validateProductId at h ⊢
  obtain ⟨x, hx, h⟩ := bind_eq_ok.mp h
  split_ifs at h with hsupported
  obtain rfl : ⟨x, hsupported⟩ = p := Except.ok.inj h
  exact bind_eq_ok.mpr ⟨x, normalizeRequiredText_again hx, dif_pos hsupported⟩

theorem validateNotification_again (x : Option (EconomicAdjustment × ℤ)) :
    validateNotification ((x.map (·.1)).map EconomicAdjustment.text) (x.map (·.2)) = .ok x := by
  rcases x with _ | ⟨a, t⟩
  · rfl
  · have htext : normalizeOptionalText (some a.text) = some a.text ∧ lower a.text = a.text := by
      cases a <;> decide
    show validateNotification (some a.text) (some t) = _
    unfold validateNotification
    rw [htext.1]
    dsimp only
    rw [htext.2, EconomicAdjustment.ofText?_text]

/-- Only valid evidence has a price, and that price is valid evidence. -/
theorem evidence_again (e : AppleEconomicEvidence) :
    normalizeAppleEconomicEvidence ((e.price.map (·.1)).map .int) ((e.price.map (·.2)).map .str) =
      if e.isValid then e else .absent := by
  cases e with
  | valid p c hp hc => exact normalizeAppleEconomicEvidence_valid hp hc
  | absent => rfl
  | invalid reason => rfl

/-- Every column of a validated transaction passed its check, and the dates
are those of the record. -/
structure Validated (t : AppleTransaction) (n : NormalizedTransaction) : Prop where
  owner : validateOwner t.userId t.guestId = .ok n.owner
  productId : validateProductId t.productId = .ok ⟨n.productId, n.supported⟩
  transactionId : normalizeRequiredText t.transactionId "transaction_id" = .ok n.transactionId
  originalTransactionId : normalizeRequiredText t.originalTransactionId "original_transaction_id" =
    .ok n.originalTransactionId
  environment : normalizeRequiredText t.environment "environment" = .ok n.environment
  notification : validateNotification t.economicAdjustment t.economicNotificationSignedAt = .ok n.notification
  expiresDate : n.expiresDate = t.expiresDate
  gracePeriodExpiresDate : n.gracePeriodExpiresDate = t.gracePeriodExpiresDate
  signedDate : n.signedDate = t.signedDate

theorem validated_of_ok {t : AppleTransaction} {n : NormalizedTransaction} (h : validateAppleTransaction t = .ok n) :
    Validated t n := by
  unfold validateAppleTransaction at h
  obtain ⟨owner, howner, h⟩ := bind_eq_ok.mp h
  obtain ⟨productId, hproduct, h⟩ := bind_eq_ok.mp h
  obtain ⟨transactionId, htransaction, h⟩ := bind_eq_ok.mp h
  obtain ⟨originalTransactionId, horiginal, h⟩ := bind_eq_ok.mp h
  obtain ⟨environment, henvironment, h⟩ := bind_eq_ok.mp h
  obtain ⟨notification, hnotification, h⟩ := bind_eq_ok.mp h
  obtain rfl := Except.ok.inj h
  exact ⟨howner, hproduct, htransaction, horiginal, henvironment, hnotification, rfl, rfl, rfl⟩

/-- **Validation is idempotent.** -/
theorem validate_validated {t : AppleTransaction} {n : NormalizedTransaction}
    (h : validateAppleTransaction t = .ok n) : validateAppleTransaction n.toTransaction = .ok n := by
  unfold validateAppleTransaction at h ⊢
  obtain ⟨owner, howner, h⟩ := bind_eq_ok.mp h
  obtain ⟨productId, hproduct, h⟩ := bind_eq_ok.mp h
  obtain ⟨transactionId, htransaction, h⟩ := bind_eq_ok.mp h
  obtain ⟨originalTransactionId, horiginal, h⟩ := bind_eq_ok.mp h
  obtain ⟨environment, henvironment, h⟩ := bind_eq_ok.mp h
  obtain ⟨notification, hnotification, h⟩ := bind_eq_ok.mp h
  obtain rfl := Except.ok.inj h
  refine bind_eq_ok.mpr ⟨owner, validateOwner_again howner, ?_⟩
  refine bind_eq_ok.mpr ⟨productId, validateProductId_again hproduct, ?_⟩
  refine bind_eq_ok.mpr ⟨transactionId, normalizeRequiredText_again htransaction, ?_⟩
  refine bind_eq_ok.mpr ⟨originalTransactionId, normalizeRequiredText_again horiginal, ?_⟩
  refine bind_eq_ok.mpr ⟨environment, normalizeRequiredText_again henvironment, ?_⟩
  refine bind_eq_ok.mpr ⟨notification, validateNotification_again notification, ?_⟩
  have hevidence := evidence_again
    (normalizeAppleEconomicEvidence (t.priceMilliunits.map .int) (t.currency.map .str))
  generalize normalizeAppleEconomicEvidence (t.priceMilliunits.map .int) (t.currency.map .str) = e at hevidence
  simp only [NormalizedTransaction.toTransaction, NormalizedTransaction.priceMilliunits,
    NormalizedTransaction.currency, normalizeOptionalText_again, hevidence]
  cases e <;> rfl

/-! ### The table -/

/-- A row of `apple_transactions`. The values of `economic_adjustment` are
those that its CHECK constraint admits. -/
structure AppleRow where
  id : ℤ
  userId : Option ℤ
  guestId : Option ℤ
  productId : String
  transactionId : String
  originalTransactionId : String
  purchaseDate : ℤ
  expiresDate : Option ℤ
  gracePeriodExpiresDate : Option ℤ
  environment : String
  ownershipType : Option String
  transactionReason : Option String
  revocationDate : Option ℤ
  revocationReason : Option String
  appAccountToken : Option (BitVec 128)
  signedDate : Option ℤ
  storefront : Option String
  offerType : Option ℤ
  priceMilliunits : Option ℤ
  currency : Option String
  economicTransactionSignedAt : Option ℤ
  economicAdjustment : Option EconomicAdjustment
  economicNotificationSignedAt : Option ℤ
  deriving DecidableEq

/-- The index entries of a row: the primary key and the unique transaction id. -/
def AppleRow.keys (r : AppleRow) : List (ℤ ⊕ String) := [.inl r.id, .inr r.transactionId]

abbrev AppleTable := Sql.Table AppleRow AppleRow.keys

/-- An id later than every id of the table. -/
def nextId (t : AppleTable) : ℤ := (t.rows.map (·.id)).foldr max 0 + 1

end Apple
end FuelNear

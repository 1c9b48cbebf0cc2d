/-
# Merging an Apple transaction into its row

The three update rules of `_save_apple_transaction`, each with its own test
of age: the general columns by the signed date, the price by its own date,
the adjustment by the reduction. `mergeRow` is the row after them. What they
do to each column is stated here once; the theorems about saves read it off.

Key definitions: `persist`, `mergeRow`, `newRow`, `insertedRow`.
Key theorems: `mergeRow_keeps`, `mergeRow_signedDate`,
`mergeRow_economicAdjustment`, `mergeRow_revocationDate`, `mergeRow_price`,
`persist_unchanged`.
-/
import FuelNear.Apple.Transaction

namespace FuelNear
namespace Apple

open EconomicAdjustment

/-! ### The three update rules -/

/-- `incoming is not None and (existing is None or incoming > existing)`. -/
def isLater (incoming existing : Option ℤ) : Bool := incoming.any fun t => existing.all (· < t)

/-- `apply_incoming_revocation`. -/
def applyIncomingRevocation (incoming current : Option EconomicAdjustment) (reduction : AdjustmentReduction) :
    Bool :=
  reduction.incomingAccepted &&
    ((incoming = some refund && reduction.economicAdjustment = some refund) ||
      (incoming = some revoke && reduction.economicAdjustment = some revoke) ||
      (incoming = some refundReversed && current = some refund &&
        reduction.economicAdjustment = some refundReversed))

/-- `preserve_persisted_revocation`. -/
def preservePersistedRevocation (incoming current : Option EconomicAdjustment)
    (reduction : AdjustmentReduction) : Bool :=
  !applyIncomingRevocation incoming current reduction &&
    (incoming.isSome || current = some refund || current = some revoke || current = some revocationUnknown)

/-- `general_context_accepted` and the test of the signed date. -/
def generalContextApplies (n : NormalizedTransaction) (reduction : AdjustmentReduction) (r : AppleRow) : Bool :=
  (n.economicAdjustment.isNone || reduction.incomingAccepted) && isLater n.signedDate r.signedDate

/-- The first UPDATE: the general columns. -/
def updateGeneralContext (n : NormalizedTransaction) (reduction : AdjustmentReduction) (r : AppleRow) : AppleRow :=
  let preserve := preservePersistedRevocation n.economicAdjustment r.economicAdjustment reduction
  { r with
    productId := n.productId
    purchaseDate := n.purchaseDate
    expiresDate := n.expiresDate.or r.expiresDate
    gracePeriodExpiresDate := n.gracePeriodExpiresDate
    environment := n.environment
    ownershipType := n.ownershipType.or r.ownershipType
    transactionReason := n.transactionReason.or r.transactionReason
    revocationDate := if preserve then r.revocationDate else n.revocationDate
    revocationReason := if preserve then r.revocationReason else n.revocationReason
    appAccountToken := n.appAccountToken.or r.appAccountToken
    signedDate := n.signedDate
    storefront := n.storefront.or r.storefront
    offerType := n.offerType.or r.offerType }

/-- The two UPDATEs of the price, and whether one of them ran. A price that
differs from the stored one is ignored. -/
def updatePrice (n : NormalizedTransaction) (r : AppleRow) : AppleRow × Bool :=
  match n.price with
  | none => (r, false)
  | some (price, currency) =>
    if r.priceMilliunits = none ∧ r.currency = none then
      ({ r with
          priceMilliunits := some price
          currency := some currency
          economicTransactionSignedAt := n.economicTransactionSignedAt }, true)
    else if r.priceMilliunits = some price ∧ r.currency = some currency then
      if isLater n.economicTransactionSignedAt r.economicTransactionSignedAt then
        ({ r with economicTransactionSignedAt := n.economicTransactionSignedAt }, true)
      else (r, false)
    else (r, false)

/-- The last UPDATE: the adjustment, its date and, where the flag is set, the
revocation. -/
def updateAdjustment (n : NormalizedTransaction) (reduction : AdjustmentReduction) (apply : Bool) (r : AppleRow) :
    AppleRow :=
  { r with
    economicAdjustment := reduction.economicAdjustment
    economicNotificationSignedAt := reduction.economicNotificationSignedAt
    revocationDate := if apply then n.revocationDate else r.revocationDate
    revocationReason := if apply then n.revocationReason else r.revocationReason }

/-- The row `r` after the three rules, and whether one of them ran. -/
def persist (n : NormalizedTransaction) (reduction : AdjustmentReduction) (r : AppleRow) : AppleRow × Bool :=
  let general := generalContextApplies n reduction r
  let r₁ := if general then updateGeneralContext n reduction r else r
  let (r₂, priced) := updatePrice n r₁
  let apply := applyIncomingRevocation n.economicAdjustment r.economicAdjustment reduction
  let r₃ := if reduction.changed then updateAdjustment n reduction apply r₂ else r₂
  (r₃, general || priced || reduction.changed)

/-- The row of the INSERT. -/
def newRow (id : ℤ) (n : NormalizedTransaction) (reduction : AdjustmentReduction) : AppleRow where
  id := id
  userId := n.userId
  guestId := n.guestId
  productId := n.productId
  transactionId := n.transactionId
  originalTransactionId := n.originalTransactionId
  purchaseDate := n.purchaseDate
  expiresDate := n.expiresDate
  gracePeriodExpiresDate := n.gracePeriodExpiresDate
  environment := n.environment
  ownershipType := n.ownershipType
  transactionReason := n.transactionReason
  revocationDate := n.revocationDate
  revocationReason := n.revocationReason
  appAccountToken := n.appAccountToken
  signedDate := n.signedDate
  storefront := n.storefront
  offerType := n.offerType
  priceMilliunits := n.priceMilliunits
  currency := n.currency
  economicTransactionSignedAt := n.economicTransactionSignedAt
  economicAdjustment := reduction.economicAdjustment
  economicNotificationSignedAt := reduction.economicNotificationSignedAt

/-! ### A validated transaction and its row -/

/-- The reduction of a stored adjustment and its date by a validated
transaction: with no notification it changes nothing. -/
def NormalizedTransaction.reduction (n : NormalizedTransaction) (c : Option EconomicAdjustment) (w : Option ℤ) :
    AdjustmentReduction :=
  match n.notification with
  | none => ⟨c, w, false, false⟩
  | some (a, t) => reduceDated c w a t

/-- A validated transaction is never refused by the reduction. -/
theorem reduce_normalized (n : NormalizedTransaction) (c : Option EconomicAdjustment) (w : Option ℤ) :
    reduceAppleEconomicAdjustment c w n.economicAdjustment n.economicNotificationSignedAt =
      .ok (n.reduction c w) := by
  unfold NormalizedTransaction.economicAdjustment NormalizedTransaction.economicNotificationSignedAt
    NormalizedTransaction.reduction
  cases n.notification <;> rfl

/-- The reduction of the stored row. -/
def rowReduction (n : NormalizedTransaction) (r : AppleRow) : AdjustmentReduction :=
  n.reduction r.economicAdjustment r.economicNotificationSignedAt

/-- The row after a completed save. -/
def mergeRow (n : NormalizedTransaction) (r : AppleRow) : AppleRow := (persist n (rowReduction n r) r).1

/-- The row that a completed save inserts. -/
def insertedRow (id : ℤ) (n : NormalizedTransaction) : AppleRow := newRow id n (n.reduction none none)

theorem updatePrice_keys (n : NormalizedTransaction) (r : AppleRow) :
    (updatePrice n r).1.keys = r.keys := by
  unfold updatePrice
  split
  · rfl
  · split_ifs <;> rfl

theorem persist_keys (n : NormalizedTransaction) (reduction : AdjustmentReduction) (r : AppleRow) :
    (persist n reduction r).1.keys = r.keys := by
  have h : ∀ x : AppleRow, (updatePrice n x).1.keys = x.keys := updatePrice_keys n
  simp only [persist]
  split_ifs <;> simp only [AppleRow.keys, updateAdjustment] at * <;> rw [h] <;> rfl

theorem persist_transactionId (n : NormalizedTransaction) (red : AdjustmentReduction) (r : AppleRow) :
    (persist n red r).1.transactionId = r.transactionId := by
  simpa [AppleRow.keys] using (List.cons.inj (List.cons.inj (persist_keys n red r)).2).1

/-! ### What the rules do to each column -/

section Columns

variable (n : NormalizedTransaction) (r : AppleRow)

/-- With no notification nothing is reduced; otherwise the reduction is the
dated one. -/
theorem rowReduction_none {n : NormalizedTransaction} (h : n.notification = none) (r : AppleRow) :
    rowReduction n r = ⟨r.economicAdjustment, r.economicNotificationSignedAt, false, false⟩ := by
  unfold rowReduction NormalizedTransaction.reduction
  rw [h]

theorem rowReduction_some {n : NormalizedTransaction} {a : EconomicAdjustment} {t : ℤ}
    (h : n.notification = some (a, t)) (r : AppleRow) :
    rowReduction n r = reduceDated r.economicAdjustment r.economicNotificationSignedAt a t := by
  unfold rowReduction NormalizedTransaction.reduction
  rw [h]

theorem reduceDated_unchanged {c : Option EconomicAdjustment} {w : Option ℤ} {a : EconomicAdjustment} {t : ℤ}
    (h : (reduceDated c w a t).changed = false) : (reduceDated c w a t).economicAdjustment = c ∧
      (reduceDated c w a t).economicNotificationSignedAt = w := by
  rcases reduceDated_cases c w a t with ⟨-, hr⟩ | ⟨-, -, hr⟩ | ⟨-, -, -, hr⟩ | ⟨-, hr⟩ <;> rw [hr] at h ⊢
  · exact absurd h Bool.true_eq_false.mp
  · exact ⟨rfl, rfl⟩
  · exact absurd h Bool.true_eq_false.mp
  · exact ⟨rfl, rfl⟩

/-- A reduction that reports no change has changed nothing. -/
theorem rowReduction_unchanged {n : NormalizedTransaction} {r : AppleRow} (h : (rowReduction n r).changed = false) :
    (rowReduction n r).economicAdjustment = r.economicAdjustment ∧
      (rowReduction n r).economicNotificationSignedAt = r.economicNotificationSignedAt := by
  cases hn : n.notification with
  | none => rw [rowReduction_none hn]; exact ⟨rfl, rfl⟩
  | some x =>
    rw [rowReduction_some hn] at h ⊢
    exact reduceDated_unchanged h

/-- What is not accepted changes nothing. -/
theorem rowReduction_refused {n : NormalizedTransaction} {r : AppleRow}
    (h : (rowReduction n r).incomingAccepted = false) :
    rowReduction n r = ⟨r.economicAdjustment, r.economicNotificationSignedAt, false, false⟩ := by
  cases hn : n.notification with
  | none => exact rowReduction_none hn r
  | some x =>
    rw [rowReduction_some hn] at h ⊢
    exact reduceDated_of_refused (refused_reduceDated h)

/-- The price rule touches the columns of the price only. -/
theorem updatePrice_keeps {β : Type*} (f : AppleRow → β)
    (hf : ∀ r p c e, f { r with priceMilliunits := p, currency := c, economicTransactionSignedAt := e } = f r) :
    f (updatePrice n r).1 = f r := by
  unfold updatePrice
  split
  · rfl
  · split_ifs
    · exact hf r _ _ _
    · exact hf r r.priceMilliunits r.currency _
    · rfl
    · rfl

/-- A column that only the general rule writes. -/
theorem mergeRow_general {β : Type*} (f : AppleRow → β)
    (hp : ∀ r p c e, f { r with priceMilliunits := p, currency := c, economicTransactionSignedAt := e } = f r)
    (ha : ∀ n red b r, f (updateAdjustment n red b r) = f r) :
    f (mergeRow n r) = if generalContextApplies n (rowReduction n r) r
      then f (updateGeneralContext n (rowReduction n r) r) else f r := by
  have h : ∀ s, f (updatePrice n s).1 = f s := fun s => updatePrice_keeps n s f hp
  simp only [mergeRow, persist]
  split_ifs
  · rw [ha, h]
  · rw [ha, h]
  · rw [h]
  · rw [h]

/-- A column that no rule writes. -/
theorem mergeRow_keeps {β : Type*} (f : AppleRow → β)
    (hg : ∀ n red r, f (updateGeneralContext n red r) = f r)
    (hp : ∀ r p c e, f { r with priceMilliunits := p, currency := c, economicTransactionSignedAt := e } = f r)
    (ha : ∀ n red b r, f (updateAdjustment n red b r) = f r) : f (mergeRow n r) = f r := by
  rw [mergeRow_general n r f hp ha, hg, ite_self]

@[simp] theorem mergeRow_id : (mergeRow n r).id = r.id :=
  mergeRow_keeps n r (·.id) (fun _ _ _ => rfl) (fun _ _ _ _ => rfl) fun _ _ _ _ => rfl

@[simp] theorem mergeRow_transactionId : (mergeRow n r).transactionId = r.transactionId :=
  mergeRow_keeps n r (·.transactionId) (fun _ _ _ => rfl) (fun _ _ _ _ => rfl) fun _ _ _ _ => rfl

@[simp] theorem mergeRow_originalTransactionId :
    (mergeRow n r).originalTransactionId = r.originalTransactionId :=
  mergeRow_keeps n r (·.originalTransactionId) (fun _ _ _ => rfl) (fun _ _ _ _ => rfl) fun _ _ _ _ => rfl

@[simp] theorem mergeRow_userId : (mergeRow n r).userId = r.userId :=
  mergeRow_keeps n r (·.userId) (fun _ _ _ => rfl) (fun _ _ _ _ => rfl) fun _ _ _ _ => rfl

@[simp] theorem mergeRow_guestId : (mergeRow n r).guestId = r.guestId :=
  mergeRow_keeps n r (·.guestId) (fun _ _ _ => rfl) (fun _ _ _ _ => rfl) fun _ _ _ _ => rfl

theorem mergeRow_signedDate : (mergeRow n r).signedDate =
    if generalContextApplies n (rowReduction n r) r then n.signedDate else r.signedDate :=
  mergeRow_general n r (·.signedDate) (fun _ _ _ _ => rfl) fun _ _ _ _ => rfl

/-- A column that the price rule leaves alone and the adjustment rule sets. -/
theorem mergeRow_adjustment {β : Type*} (f : AppleRow → β) (x : AdjustmentReduction → β)
    (hg : ∀ n red r, f (updateGeneralContext n red r) = f r)
    (hp : ∀ r p c e, f { r with priceMilliunits := p, currency := c, economicTransactionSignedAt := e } = f r)
    (ha : ∀ n red b r, f (updateAdjustment n red b r) = x red)
    (hx : (rowReduction n r).changed = false → x (rowReduction n r) = f r) :
    f (mergeRow n r) = x (rowReduction n r) := by
  have h : ∀ s, f (updatePrice n s).1 = f s := fun s => updatePrice_keeps n s f hp
  simp only [mergeRow, persist]
  split_ifs with h1 h2 h2
  · rw [ha]
  · rw [ha]
  · rw [h, hg, hx (by simpa using h1)]
  · rw [h, hx (by simpa using h1)]

@[simp] theorem mergeRow_economicAdjustment :
    (mergeRow n r).economicAdjustment = (rowReduction n r).economicAdjustment :=
  mergeRow_adjustment n r (·.economicAdjustment) (·.economicAdjustment) (fun _ _ _ => rfl)
    (fun _ _ _ _ => rfl) (fun _ _ _ _ => rfl) fun h => (rowReduction_unchanged h).1

@[simp] theorem mergeRow_economicNotificationSignedAt :
    (mergeRow n r).economicNotificationSignedAt = (rowReduction n r).economicNotificationSignedAt :=
  mergeRow_adjustment n r (·.economicNotificationSignedAt) (·.economicNotificationSignedAt) (fun _ _ _ => rfl)
    (fun _ _ _ _ => rfl) (fun _ _ _ _ => rfl) fun h => (rowReduction_unchanged h).2

/-- The revocation: the adjustment rule writes it last, where it applies it;
the general rule writes it unless it is preserved. -/
theorem mergeRow_revocation {β : Type*} (f : AppleRow → β) (x : NormalizedTransaction → β)
    (hp : ∀ r p c e, f { r with priceMilliunits := p, currency := c, economicTransactionSignedAt := e } = f r)
    (ha : ∀ n red b r, f (updateAdjustment n red b r) = if b then x n else f r)
    (hg : ∀ n red r, f (updateGeneralContext n red r) =
      if preservePersistedRevocation n.economicAdjustment r.economicAdjustment red then f r else x n) :
    f (mergeRow n r) =
      if (rowReduction n r).changed && applyIncomingRevocation n.economicAdjustment r.economicAdjustment
          (rowReduction n r) then x n
      else if generalContextApplies n (rowReduction n r) r && !preservePersistedRevocation
          n.economicAdjustment r.economicAdjustment (rowReduction n r) then x n
      else f r := by
  have h : ∀ s, f (updatePrice n s).1 = f s := fun s => updatePrice_keeps n s f hp
  simp only [mergeRow, persist]
  cases hc : (rowReduction n r).changed <;>
    cases happ : applyIncomingRevocation n.economicAdjustment r.economicAdjustment (rowReduction n r) <;>
    cases hgen : generalContextApplies n (rowReduction n r) r <;>
    cases hpre : preservePersistedRevocation n.economicAdjustment r.economicAdjustment (rowReduction n r) <;>
    simp [ha, h, hg, hpre]

theorem mergeRow_revocationDate : (mergeRow n r).revocationDate =
    if (rowReduction n r).changed && applyIncomingRevocation n.economicAdjustment r.economicAdjustment
        (rowReduction n r) then n.revocationDate
    else if generalContextApplies n (rowReduction n r) r && !preservePersistedRevocation
        n.economicAdjustment r.economicAdjustment (rowReduction n r) then n.revocationDate
    else r.revocationDate :=
  mergeRow_revocation n r (·.revocationDate) (·.revocationDate) (fun _ _ _ _ => rfl) (fun _ _ _ _ => rfl)
    fun _ _ _ => rfl

theorem mergeRow_revocationReason : (mergeRow n r).revocationReason =
    if (rowReduction n r).changed && applyIncomingRevocation n.economicAdjustment r.economicAdjustment
        (rowReduction n r) then n.revocationReason
    else if generalContextApplies n (rowReduction n r) r && !preservePersistedRevocation
        n.economicAdjustment r.economicAdjustment (rowReduction n r) then n.revocationReason
    else r.revocationReason :=
  mergeRow_revocation n r (·.revocationReason) (·.revocationReason) (fun _ _ _ _ => rfl) (fun _ _ _ _ => rfl)
    fun _ _ _ => rfl

/-- A preserved revocation is not touched. -/
theorem mergeRow_preserved {n : NormalizedTransaction} {r : AppleRow}
    (h : preservePersistedRevocation n.economicAdjustment r.economicAdjustment (rowReduction n r) = true) :
    (mergeRow n r).revocationDate = r.revocationDate ∧ (mergeRow n r).revocationReason = r.revocationReason := by
  have happ : applyIncomingRevocation n.economicAdjustment r.economicAdjustment (rowReduction n r) = false := by
    simpa using (Bool.and_eq_true_iff.mp h).1
  rw [mergeRow_revocationDate, mergeRow_revocationReason]
  simp [h, happ]

/-- A revocation that a change applies is the incoming one. -/
theorem mergeRow_applied {n : NormalizedTransaction} {r : AppleRow} (hc : (rowReduction n r).changed = true)
    (h : applyIncomingRevocation n.economicAdjustment r.economicAdjustment (rowReduction n r) = true) :
    (mergeRow n r).revocationDate = n.revocationDate ∧ (mergeRow n r).revocationReason = n.revocationReason := by
  rw [mergeRow_revocationDate, mergeRow_revocationReason]
  simp [h, hc]

/-- Without a notification, and outside the adjustments that preserve it, the
revocation follows the general columns. -/
theorem mergeRow_restore {n : NormalizedTransaction} {r : AppleRow} (hn : n.notification = none)
    (hr : r.economicAdjustment = none ∨ r.economicAdjustment = some refundReversed) :
    (mergeRow n r).revocationDate =
      (if isLater n.signedDate r.signedDate then n.revocationDate else r.revocationDate) ∧
    (mergeRow n r).signedDate = if isLater n.signedDate r.signedDate then n.signedDate else r.signedDate := by
  have hadj : n.economicAdjustment = none := by simp [NormalizedTransaction.economicAdjustment, hn]
  rw [mergeRow_revocationDate, mergeRow_signedDate, rowReduction_none hn, hadj]
  unfold generalContextApplies preservePersistedRevocation
  rw [hadj]
  rcases hr with hr | hr <;> rw [hr] <;> simp [applyIncomingRevocation]

/-- A notification that is dropped touches neither the revocation nor the
signed date. -/
theorem mergeRow_dropped {n : NormalizedTransaction} {r : AppleRow} (hn : n.notification ≠ none)
    (h : (rowReduction n r).incomingAccepted = false) :
    (mergeRow n r).revocationDate = r.revocationDate ∧ (mergeRow n r).revocationReason = r.revocationReason ∧
      (mergeRow n r).signedDate = r.signedDate := by
  have hadj : n.economicAdjustment.isSome = true := by
    obtain ⟨e, he⟩ := Option.ne_none_iff_exists'.mp hn
    simp [NormalizedTransaction.economicAdjustment, he]
  have hpre : preservePersistedRevocation n.economicAdjustment r.economicAdjustment (rowReduction n r) = true := by
    simp [preservePersistedRevocation, applyIncomingRevocation, h, hadj]
  have hgen : generalContextApplies n (rowReduction n r) r = false := by
    rw [generalContextApplies, h, Option.isNone_eq_false_iff.mpr hadj]
    rfl
  refine ⟨(mergeRow_preserved hpre).1, (mergeRow_preserved hpre).2, ?_⟩
  rw [mergeRow_signedDate, hgen]
  rfl

/-- The columns of the price. -/
def priceColumns (r : AppleRow) : Option ℤ × Option String × Option ℤ :=
  (r.priceMilliunits, r.currency, r.economicTransactionSignedAt)

/-- The price rule reads the columns of the price only. -/
theorem updatePrice_congr {r s : AppleRow} (h : priceColumns r = priceColumns s) :
    priceColumns (updatePrice n r).1 = priceColumns (updatePrice n s).1 ∧
      (updatePrice n r).2 = (updatePrice n s).2 := by
  have hh := h
  simp only [priceColumns, Prod.mk.injEq] at hh
  obtain ⟨h1, h2, h3⟩ := hh
  unfold updatePrice
  rw [h1, h2, h3]
  split
  · exact ⟨h, rfl⟩
  · split_ifs
    · exact ⟨rfl, rfl⟩
    · simp [priceColumns]
    · exact ⟨h, rfl⟩
    · exact ⟨h, rfl⟩

theorem mergeRow_price : priceColumns (mergeRow n r) = priceColumns (updatePrice n r).1 := by
  have ha : ∀ n red b r, priceColumns (updateAdjustment n red b r) = priceColumns r := fun _ _ _ _ => rfl
  have hg : priceColumns (updateGeneralContext n (rowReduction n r) r) = priceColumns r := rfl
  simp only [mergeRow, persist]
  split_ifs
  · rw [ha, (updatePrice_congr n hg).1]
  · rw [ha]
  · rw [(updatePrice_congr n hg).1]
  · rfl

theorem updatePrice_unchanged {n : NormalizedTransaction} {r : AppleRow} (h : (updatePrice n r).2 = false) :
    (updatePrice n r).1 = r := by
  unfold updatePrice at h ⊢
  split
  · rfl
  · split_ifs at h ⊢
    all_goals first | rfl | simp_all

/-- A save that reports no change has changed nothing. -/
theorem persist_unchanged (h : (persist n (rowReduction n r) r).2 = false) : mergeRow n r = r := by
  simp only [persist, Bool.or_eq_false_iff] at h
  obtain ⟨⟨hg, hp⟩, hc⟩ := h
  simp only [hg, Bool.false_eq_true, if_false] at hp
  simp [mergeRow, persist, hg, hc, updatePrice_unchanged hp]

end Columns

end Apple
end FuelNear

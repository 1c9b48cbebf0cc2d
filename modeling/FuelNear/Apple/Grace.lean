/-
# Grace periods and client verifications

A client sends a signed transaction, which says nothing about its renewal:
the record that `_verify_and_process_apple_subscription` builds of it has no
grace period. The save keeps what such a record leaves out of the expiry,
the ownership, the reason or the storefront (`COALESCE`), but writes the
grace period as it is. So a grace period that a notification recorded is
lost to the first client verification signed after it, and with it the days
beyond the expiry.

Key definitions: `VerifiedAppleTransaction`, `clientTransaction`,
`KeepsExpiration`.
Key theorems: `client_save_row`, `client_save_keeps_grace_iff`.
-/
import FuelNear.Apple.Readers
import FuelNear.Apple.Save

namespace FuelNear
namespace Apple

open Text

/-- `VerifiedAppleTransaction`, what the verifier reads off a signed transaction. -/
structure VerifiedAppleTransaction where
  productId : String
  transactionId : String
  originalTransactionId : String
  purchaseDate : ℤ
  expiresDate : Option ℤ
  environment : String
  ownershipType : Option String
  transactionReason : Option String
  revocationDate : Option ℤ
  revocationReason : Option String
  appAccountToken : Option (BitVec 128)
  signedDate : Option ℤ
  storefront : Option String
  offerType : Option ℤ
  economicEvidence : AppleEconomicEvidence := .absent

/-- The record that `_verify_and_process_apple_subscription` saves. The grace
period and the adjustment are left at their defaults. -/
def clientTransaction (o : AppleSubscriptionOwner) (v : VerifiedAppleTransaction) : AppleTransaction where
  userId := o.userId
  guestId := o.guestId
  productId := v.productId
  transactionId := v.transactionId
  originalTransactionId := v.originalTransactionId
  purchaseDate := v.purchaseDate
  expiresDate := v.expiresDate
  environment := v.environment
  ownershipType := v.ownershipType
  transactionReason := v.transactionReason
  revocationDate := v.revocationDate
  revocationReason := v.revocationReason
  appAccountToken := v.appAccountToken
  signedDate := v.signedDate
  storefront := v.storefront
  offerType := v.offerType
  priceMilliunits := if v.economicEvidence.isValid then v.economicEvidence.priceMilliunits else none
  currency := if v.economicEvidence.isValid then v.economicEvidence.currency else none
  economicTransactionSignedAt := if v.economicEvidence.isValid then v.signedDate else none

/-- The effective expiry of `q` is not earlier than that of `r`. -/
def KeepsExpiration (r q : AppleRow) : Prop :=
  ∀ e ∈ effectiveSubscriptionExpiration r, ∃ f ∈ effectiveSubscriptionExpiration q, e ≤ f

/-! ### The row after a client verification -/

/-- What validation makes of the dates of a client's record. -/
theorem validate_client {o : AppleSubscriptionOwner} {v : VerifiedAppleTransaction} {n : NormalizedTransaction}
    (h : validateAppleTransaction (clientTransaction o v) = .ok n) :
    n.transactionId = strip v.transactionId ∧ n.notification = none ∧ n.expiresDate = v.expiresDate ∧
      n.gracePeriodExpiresDate = none ∧ n.signedDate = v.signedDate := by
  have hvalid := validated_of_ok h
  have hid : strip v.transactionId = n.transactionId := (normalizeRequiredText_ok hvalid.transactionId).1
  have hnone : none = n.notification := Except.ok.inj hvalid.notification
  exact ⟨hid.symm, hnone.symm, hvalid.expiresDate, hvalid.gracePeriodExpiresDate, hvalid.signedDate⟩

/-- With no notification the general columns follow the signed date alone:
the expiry is kept where the record has none, the grace period is not. -/
theorem mergeRow_expiration {n : NormalizedTransaction} (hn : n.notification = none) (r : AppleRow) :
    (mergeRow n r).expiresDate =
      (if isLater n.signedDate r.signedDate then n.expiresDate.or r.expiresDate else r.expiresDate) ∧
    (mergeRow n r).gracePeriodExpiresDate =
      if isLater n.signedDate r.signedDate then n.gracePeriodExpiresDate else r.gracePeriodExpiresDate := by
  have hgeneral : generalContextApplies n (rowReduction n r) r = isLater n.signedDate r.signedDate := by
    simp [generalContextApplies, NormalizedTransaction.economicAdjustment, hn]
  have hexpires := mergeRow_general n r (·.expiresDate) (fun _ _ _ _ => rfl) fun _ _ _ _ => rfl
  have hgrace := mergeRow_general n r (·.gracePeriodExpiresDate) (fun _ _ _ _ => rfl) fun _ _ _ _ => rfl
  rw [hexpires, hgrace, hgeneral]
  exact ⟨rfl, rfl⟩

/-- A completed client verification of a stored transaction, with the expiry
that is stored: the grace period stays only if the record is not newer. -/
theorem client_save_row {a : Accounts} {o : AppleSubscriptionOwner} {v : VerifiedAppleTransaction}
    {t t' : AppleTable} {out : AppleTransactionSaveResult} {r : AppleRow}
    (hr : lookup (strip v.transactionId) t = some r) (he : v.expiresDate = r.expiresDate)
    (h : saveAppleTransaction (a, clientTransaction o v) t = .ok (out, t')) :
    ∃ q, lookup (strip v.transactionId) t' = some q ∧ q.expiresDate = r.expiresDate ∧
      q.gracePeriodExpiresDate = if isLater v.signedDate r.signedDate then none else r.gracePeriodExpiresDate := by
  obtain ⟨n, hn, -, -⟩ := save_ok h
  obtain ⟨hid, hnotification, hexpires, hgrace, hsigned⟩ := validate_client hn
  have hrecord : recordOf (strip v.transactionId) (a, clientTransaction o v) = some n :=
    recordOf_eq_some.mpr ⟨hn, hid⟩
  have hlookup := lookup_save h hr
  rw [hrecord] at hlookup
  obtain ⟨h1, h2⟩ := mergeRow_expiration hnotification r
  refine ⟨mergeRow n r, hlookup, ?_, ?_⟩
  · rw [h1, hexpires, he]
    split_ifs
    · exact Option.or_self
    · rfl
  · rw [h2, hgrace, hsigned]

/-- A row that keeps its expiry and loses its grace period keeps the effective
expiry just when the grace period ended no later. -/
theorem keepsExpiration_iff {r q : AppleRow} {g : ℤ} (hg : r.gracePeriodExpiresDate = some g)
    (hexpires : q.expiresDate = r.expiresDate) (hgrace : q.gracePeriodExpiresDate = none) :
    KeepsExpiration r q ↔ ∀ e ∈ r.expiresDate, g ≤ e := by
  unfold KeepsExpiration effectiveSubscriptionExpiration
  rw [hexpires, hgrace, hg]
  cases r.expiresDate with
  | none => simp
  | some e => simp

theorem KeepsExpiration.of_same {r q : AppleRow} (hexpires : q.expiresDate = r.expiresDate)
    (hgrace : q.gracePeriodExpiresDate = r.gracePeriodExpiresDate) : KeepsExpiration r q := by
  have hsame : effectiveSubscriptionExpiration q = effectiveSubscriptionExpiration r := by
    unfold effectiveSubscriptionExpiration
    rw [hexpires, hgrace]
  intro e he
  exact ⟨e, by rw [hsame]; exact he, le_rfl⟩

/-- **A client verification keeps the effective expiry of a row with a grace
period if and only if** it is not signed later than the row, or the grace
period does not reach beyond the expiry. Neither revocation date matters. -/
theorem client_save_keeps_grace_iff {a : Accounts} {o : AppleSubscriptionOwner} {v : VerifiedAppleTransaction}
    {t t' : AppleTable} {out : AppleTransactionSaveResult} {r : AppleRow} {g : ℤ}
    (hr : lookup (strip v.transactionId) t = some r) (hg : r.gracePeriodExpiresDate = some g)
    (he : v.expiresDate = r.expiresDate)
    (h : saveAppleTransaction (a, clientTransaction o v) t = .ok (out, t')) :
    (∃ q, lookup (strip v.transactionId) t' = some q ∧ KeepsExpiration r q) ↔
      isLater v.signedDate r.signedDate = false ∨ ∀ e ∈ r.expiresDate, g ≤ e := by
  obtain ⟨q, hq, hexpires, hgrace⟩ := client_save_row hr he h
  have hrow : (∃ q, lookup (strip v.transactionId) t' = some q ∧ KeepsExpiration r q) ↔ KeepsExpiration r q := by
    rw [hq]
    simp only [Option.some.injEq, exists_eq_left']
  rw [hrow]
  cases hlater : isLater v.signedDate r.signedDate with
  | false =>
    rw [hlater] at hgrace
    exact ⟨fun _ => Or.inl rfl, fun _ => KeepsExpiration.of_same hexpires hgrace⟩
  | true =>
    rw [hlater] at hgrace
    rw [keepsExpiration_iff hg hexpires hgrace]
    simp

/-! ### A grace period that is lost -/

/-- The renewal of the sample purchase failed: at the instant 10 a notification
grants a grace period until 200. -/
def sampleGrace : AppleTransaction :=
  { samplePurchase with signedDate := some 10, gracePeriodExpiresDate := some 200 }

/-- The table after it. -/
def graceTable : AppleTable := (sampleSaves .empty [samplePurchase, sampleGrace]).2

/-- The sample purchase as the verifier reads it, signed at `d`. -/
def sampleVerified (d : ℤ) : VerifiedAppleTransaction where
  productId := "MB.FuelNear.plus.monthly"
  transactionId := "t"
  originalTransactionId := "t"
  purchaseDate := 0
  expiresDate := some 100
  environment := "Production"
  ownershipType := some "PURCHASED"
  transactionReason := some "PURCHASE"
  revocationDate := none
  revocationReason := none
  appAccountToken := none
  signedDate := some d
  storefront := none
  offerType := none

theorem graceTable_row : ∃ r, lookup (strip "t") graceTable = some r ∧ r.revocationDate = none ∧
    r.gracePeriodExpiresDate = some 200 ∧ r.expiresDate = some 100 ∧ r.signedDate = some 10 := by
  have h : (lookup (strip "t") graceTable).map (fun r => (r.revocationDate, r.gracePeriodExpiresDate, r.expiresDate,
      r.signedDate)) = some (none, some 200, some 100, some 10) := by decide +kernel
  obtain ⟨r, hr, hcolumns⟩ := Option.map_eq_some_iff.mp h
  simp only [Prod.mk.injEq] at hcolumns
  exact ⟨r, hr, hcolumns⟩

theorem graceTable_verified (d : ℤ) (h : (saveAppleTransaction (sampleAccounts,
      clientTransaction (.user 1) (sampleVerified d)) graceTable).toOption.isSome = true) :
    ∃ out t', saveAppleTransaction (sampleAccounts, clientTransaction (.user 1) (sampleVerified d)) graceTable =
      .ok (out, t') := by
  cases hs : saveAppleTransaction (sampleAccounts, clientTransaction (.user 1) (sampleVerified d)) graceTable with
  | error e =>
    rw [hs] at h
    exact absurd h (by simp [Except.toOption])
  | ok x => exact ⟨x.1, x.2, rfl⟩

/-- A verification signed at 20, and one signed at 5, before the notification. -/
theorem client_save_keeps_grace_sample : ∃ r t₁ t₂ out₁ out₂, lookup (strip "t") graceTable = some r ∧
    saveAppleTransaction (sampleAccounts, clientTransaction (.user 1) (sampleVerified 20)) graceTable =
      .ok (out₁, t₁) ∧
    saveAppleTransaction (sampleAccounts, clientTransaction (.user 1) (sampleVerified 5)) graceTable =
      .ok (out₂, t₂) ∧
    (¬ ∃ q, lookup (strip "t") t₁ = some q ∧ KeepsExpiration r q) ∧
    ∃ q, lookup (strip "t") t₂ = some q ∧ KeepsExpiration r q := by
  obtain ⟨r, hr, -, hg, he, hs⟩ := graceTable_row
  obtain ⟨out₁, t₁, h₁⟩ := graceTable_verified 20 (by decide +kernel)
  obtain ⟨out₂, t₂, h₂⟩ := graceTable_verified 5 (by decide +kernel)
  refine ⟨r, t₁, t₂, out₁, out₂, hr, h₁, h₂, ?_, ?_⟩
  · intro hkeeps
    rcases (client_save_keeps_grace_iff (v := sampleVerified 20) hr hg he.symm h₁).mp hkeeps with h | h
    · rw [hs] at h
      exact absurd h (by decide)
    · exact absurd (h 100 he) (by decide)
  · refine (client_save_keeps_grace_iff (v := sampleVerified 5) hr hg he.symm h₂).mpr (Or.inl ?_)
    rw [hs]
    decide

/-- **A client verification can shorten a recorded grace period**, in a table
that saves alone have built. -/
theorem client_save_drops_grace : ¬ ∀ (t t' : AppleTable) (log : List (SaveCall × AppleTransactionSaveResult))
    (a : Accounts) (o : AppleSubscriptionOwner) (v : VerifiedAppleTransaction) (out : AppleTransactionSaveResult)
    (r : AppleRow) (g : ℤ), Run saveAppleTransaction .empty log t →
    lookup (strip v.transactionId) t = some r → r.revocationDate = none → r.gracePeriodExpiresDate = some g →
    v.expiresDate = r.expiresDate → v.revocationDate = none →
    saveAppleTransaction (a, clientTransaction o v) t = .ok (out, t') →
    ∃ q, lookup (strip v.transactionId) t' = some q ∧ KeepsExpiration r q := by
  intro hclaim
  obtain ⟨r, hr, hu, hg, he, hs⟩ := graceTable_row
  obtain ⟨out, t', h⟩ := graceTable_verified 20 (by decide +kernel)
  obtain ⟨q, hq, hkeeps⟩ := hclaim graceTable t' _ sampleAccounts (.user 1) (sampleVerified 20) out r 200
    (run_sampleSaves _ _) hr hu hg he.symm rfl h
  obtain ⟨q', hq', hexpires, hgrace⟩ := client_save_row (v := sampleVerified 20) hr he.symm h
  rw [hq, Option.some_inj] at hq'
  subst hq'
  have hlater : isLater (sampleVerified 20).signedDate r.signedDate = true := by
    rw [hs]
    decide
  rw [hlater] at hgrace
  exact absurd ((keepsExpiration_iff hg hexpires hgrace).mp hkeeps 100 he) (by decide)

end Apple
end FuelNear

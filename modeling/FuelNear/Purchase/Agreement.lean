/-
# The creator ledger and the Apple ledger

An event of an attribution agrees with the row of its transaction if it has
the status and the value that the row is worth now; a refund or a revocation
of a row without a price may have the value that the event had before the
call. A call keeps the two ledgers in agreement as long as it reaches the
event of its transaction. It does not in two cases: the row is dated before
the attribution by the save, or the call is an economic notification that is
not accepted. The first is of no matter if the row stays dated from the
attribution on; the second, if the notification changes nothing the row is
worth. But the save takes the first price of a transaction from any call, and
with it from a notification that is not accepted.

Key definitions: `Carries`, `AgreesAfter`, `IdlePrice`, `ReachesEvent`.
Key theorems: `worth_updatePrice`, `agrees_step`, `ledgers_agree`.
-/
import FuelNear.Purchase.Process

namespace FuelNear
namespace Purchase

open Sql Apple Text Creator Plus Ownership EconomicAdjustment

/-! ### Agreement -/

/-- The event has the status and the value that the row is worth; of a refund or
a revocation of a row without a price, it may have kept its value of `before`. -/
def Carries (before : EventTable) (e : ConversionEvent) (r : AppleRow) : Prop :=
  e.economicStatus = (deriveAppleCreatorEconomicState r).status ∧
  ((e.amount = (deriveAppleCreatorEconomicState r).amount ∧ e.currency = (deriveAppleCreatorEconomicState r).currency) ∨
    (isTakenBack (deriveAppleCreatorEconomicState r).status = true ∧ (deriveAppleCreatorEconomicState r).amount = none ∧
      ∃ d ∈ before, d.id = e.id ∧ d.amount = e.amount ∧ d.currency = e.currency))

/-- The row counts: it is not revoked, or it is worth a refund or a revocation. -/
def Counts (r : AppleRow) : Prop :=
  r.revocationDate = none ∨ isTakenBack (deriveAppleCreatorEconomicState r).status = true

/-- After a call on `x`, every event of the attribution agrees with the row of
its transaction, if that is of the user and counts. -/
def AgreesAfter (userId attributionId : ℤ) (x db : Db) : Prop :=
  ∀ e ∈ db.ledger.events, e.provider = .apple → e.attributionId = attributionId →
    ∀ r ∈ db.apple, r.transactionId = e.externalEventKey → r.userId = some userId → Counts r →
      Carries x.ledger.events e r

/-- The ledgers agree, whatever value a refund or a revocation without a price has. -/
def Agrees (userId attributionId : ℤ) (db : Db) : Prop := AgreesAfter userId attributionId db db

theorem Carries.self {before events : EventTable} {e : ConversionEvent} {r : AppleRow} (he : e ∈ events)
    (h : Carries before e r) : Carries events e r := by
  refine ⟨h.1, h.2.imp_right fun hkept => ?_⟩
  obtain ⟨hback, hnone, -⟩ := hkept
  exact ⟨hback, hnone, e, he, rfl, rfl, rfl⟩

theorem AgreesAfter.agrees {userId attributionId : ℤ} {x db : Db} (h : AgreesAfter userId attributionId x db) :
    Agrees userId attributionId db := fun e he hprovider hattribution r hr hkey huser hcounts =>
  (h e he hprovider hattribution r hr hkey huser hcounts).self he

/-! ### The condition on a call -/

/-- The purchase date of the row once the general columns are up to date. -/
def generalPurchaseDate (n : NormalizedTransaction) (t : AppleTable) : ℤ :=
  match lookup n.transactionId t with
  | none => n.purchaseDate
  | some r => if generalContextApplies n (rowReduction n r) r then n.purchaseDate else r.purchaseDate

/-- The call is about a transaction of the user with an event of the attribution. -/
def AboutEvent (userId attributionId : ℤ) (n : NormalizedTransaction) (db : Db) : Prop :=
  n.owner = .user userId ∧ ∃ e ∈ eventByKey db.ledger.events .apple n.transactionId, e.attributionId = attributionId

/-- The call brings no first price, or one that changes nothing that a row that
counts is worth: the row is no production purchase; or the price is 0 and the
row is refunded or revoked; or it is not 0 and the row is not worth a price for
another reason. -/
def IdlePrice (n : NormalizedTransaction) (r : AppleRow) : Prop :=
  ∀ p ∈ n.price, r.priceMilliunits = none → r.currency = none →
    contextText (some r.environment) = "PRODUCTION" → contextText r.ownershipType ≠ "FAMILY_SHARED" →
    (r.revocationDate = none ∨ r.economicAdjustment = some refund ∨ r.economicAdjustment = some revoke) →
    (p.1 = 0 → r.economicAdjustment = some refund ∨ r.economicAdjustment = some revoke) ∧
    (p.1 ≠ 0 → contextText r.ownershipType ≠ "PURCHASED" ∨
      (contextText r.transactionReason ≠ "PURCHASE" ∧ contextText r.transactionReason ≠ "RENEWAL") ∨
      r.economicAdjustment = some revocationUnknown)

/-- What keeps the ledgers in agreement: the row stays dated from the
attribution on; and an economic notification comes with its adjustment and, if
it is not accepted, with no first price that changes what the row is worth. -/
structure ReachesEvent (attributedAt : ℤ) (c : ProcessCall) (n : NormalizedTransaction) (t : AppleTable) : Prop where
  date : attributedAt ≤ generalPurchaseDate n t
  adjustment : isEconomicNotification c.notificationType = true → n.notification.isSome
  price : isEconomicNotification c.notificationType = true → ∀ r ∈ lookup n.transactionId t,
    (rowReduction n r).incomingAccepted = false → IdlePrice n r

/-- The condition on a call about an event of the attribution. -/
def Meets (userId attributionId attributedAt : ℤ) (c : ProcessCall) (db : Db) : Prop :=
  ∀ n, validateAppleTransaction c.transaction = .ok n → AboutEvent userId attributionId n db →
    ReachesEvent attributedAt c n db.apple

/-! ### The row that a call saves -/

section Row

variable {a : Accounts} {n : NormalizedTransaction} {t t' : AppleTable} {saved : AppleTransactionSaveResult}

theorem mergeRow_purchaseDate (n : NormalizedTransaction) (r : AppleRow) : (mergeRow n r).purchaseDate =
    if generalContextApplies n (rowReduction n r) r then n.purchaseDate else r.purchaseDate := by
  have hprice : ∀ x : AppleRow, (updatePrice n x).1.purchaseDate = x.purchaseDate := fun x =>
    updatePrice_keeps n x (·.purchaseDate) fun _ _ _ _ => rfl
  simp only [mergeRow, persist]
  split_ifs <;> simp [updateAdjustment, hprice, updateGeneralContext]

theorem saved_purchaseDate (h : SaveCompleted a n t saved t') : saved.row.purchaseDate = generalPurchaseDate n t := by
  unfold generalPurchaseDate
  rcases h.row with ⟨r, hr, -, hrow, -⟩ | ⟨id, hnone, hrow, -⟩
  · rw [hr, hrow, mergeRow_purchaseDate]
  · rw [hnone, hrow]
    rfl

/-- A notification that is not accepted reaches the price only. -/
theorem mergeRow_not_accepted {r : AppleRow} (hn : n.notification.isSome)
    (h : (rowReduction n r).incomingAccepted = false) : mergeRow n r = (updatePrice n r).1 := by
  have hred := rowReduction_refused h
  have hgeneral : generalContextApplies n (rowReduction n r) r = false := by
    obtain ⟨x, hx⟩ := Option.isSome_iff_exists.mp hn
    simp [generalContextApplies, h, NormalizedTransaction.economicAdjustment, hx]
  simp only [mergeRow, persist, hgeneral]
  simp [hred]

/-- Only a refund and a revocation are taken back. -/
theorem takenBack_iff (r : AppleRow) : isTakenBack (deriveAppleCreatorEconomicState r).status = true ↔
    r.economicAdjustment = some refund ∨ r.economicAdjustment = some revoke := by
  unfold deriveAppleCreatorEconomicState
  cases hb : deriveAppleBaseEconomicStatus r <;> rcases r.economicAdjustment with _ | (_ | _ | _ | _) <;>
    simp [isTakenBack]

/-- Rows without a value are worth the same if their bases are, or if both are
taken back. -/
theorem worth_eq {r q : AppleRow} (ha : r.economicAdjustment = q.economicAdjustment)
    (hr : deriveAppleBaseEconomicStatus r ≠ .confirmedCandidate)
    (hq : deriveAppleBaseEconomicStatus q ≠ .confirmedCandidate)
    (h : deriveAppleBaseEconomicStatus r = deriveAppleBaseEconomicStatus q ∨
      q.economicAdjustment = some refund ∨ q.economicAdjustment = some revoke) :
    deriveAppleCreatorEconomicState r = deriveAppleCreatorEconomicState q := by
  unfold deriveAppleCreatorEconomicState
  rw [ha]
  simp only [if_neg hr, if_neg hq]
  rcases h with h | h | h
  · rw [h]
  · rw [h]
  · rw [h]

/-- The base of a row outside production, or shared by a family, has no value
and does not depend on the price. -/
theorem base_of_context {r q : AppleRow} (he : r.environment = q.environment) (ho : r.ownershipType = q.ownershipType)
    (h : contextText (some q.environment) ≠ "PRODUCTION" ∨ contextText q.ownershipType = "FAMILY_SHARED") :
    deriveAppleBaseEconomicStatus r = deriveAppleBaseEconomicStatus q ∧
      deriveAppleBaseEconomicStatus q ≠ .confirmedCandidate := by
  unfold deriveAppleBaseEconomicStatus
  rw [he, ho]
  by_cases hsandbox : contextText (some q.environment) = "SANDBOX"
  · simp [hsandbox]
  · by_cases hproduction : contextText (some q.environment) = "PRODUCTION"
    · have hfamily := h.resolve_left (not_not.mpr hproduction)
      simp [hproduction, hfamily]
    · simp [hsandbox, hproduction]

/-- The base of a production purchase, by its price evidence. -/
theorem base_of_production {r : AppleRow} (he : contextText (some r.environment) = "PRODUCTION")
    (ho : contextText r.ownershipType ≠ "FAMILY_SHARED") : deriveAppleBaseEconomicStatus r =
      if (rowEvidence r).isValid = false then .verifiedUnknownValue
      else if (rowEvidence r).priceMilliunits = some 0 then .nonEconomic
      else if contextText r.ownershipType ≠ "PURCHASED" then .verifiedUnknownValue
      else if contextText r.transactionReason ≠ "PURCHASE" ∧ contextText r.transactionReason ≠ "RENEWAL" then
        .verifiedUnknownValue
      else .confirmedCandidate := by
  unfold deriveAppleBaseEconomicStatus
  simp [he, ho]

/-- The base of a row without a price. -/
theorem base_of_unpriced {r : AppleRow} (hp : r.priceMilliunits = none) (hc : r.currency = none)
    (he : contextText (some r.environment) = "PRODUCTION") (ho : contextText r.ownershipType ≠ "FAMILY_SHARED") :
    deriveAppleBaseEconomicStatus r = .verifiedUnknownValue := by
  have hevidence : rowEvidence r = .absent := by simp [rowEvidence, hp, hc, normalizeAppleEconomicEvidence]
  rw [base_of_production he ho, hevidence]
  rfl

/-- The base of a row that is free of charge, or has no valid price. -/
theorem base_of_free {r : AppleRow} (hp : r.priceMilliunits = some 0)
    (he : contextText (some r.environment) = "PRODUCTION") (ho : contextText r.ownershipType ≠ "FAMILY_SHARED") :
    deriveAppleBaseEconomicStatus r ≠ .confirmedCandidate := by
  rw [base_of_production he ho]
  by_cases hvalid : (rowEvidence r).isValid = true
  · rw [hvalid, rowEvidence_price hp hvalid]
    simp
  · simp [hvalid]

/-- The base of a row with another price, valid or not. -/
theorem base_of_priced {r : AppleRow} {price : ℤ} (hp : r.priceMilliunits = some price) (hne : price ≠ 0)
    (he : contextText (some r.environment) = "PRODUCTION") (ho : contextText r.ownershipType ≠ "FAMILY_SHARED") :
    deriveAppleBaseEconomicStatus r ≠ .nonEconomic ∧
      (contextText r.ownershipType ≠ "PURCHASED" ∨
        (contextText r.transactionReason ≠ "PURCHASE" ∧ contextText r.transactionReason ≠ "RENEWAL") →
        deriveAppleBaseEconomicStatus r = .verifiedUnknownValue) := by
  rw [base_of_production he ho]
  by_cases hvalid : (rowEvidence r).isValid = true
  · rw [hvalid, rowEvidence_price hp hvalid]
    simp only [Bool.true_eq_false, if_false, Option.some.injEq, if_neg hne]
    refine ⟨by split_ifs <;> simp, fun hother => ?_⟩
    rcases hother with howned | hreason
    · rw [if_pos howned]
    · rw [if_pos hreason, ite_self]
  · simp [hvalid]

/-- A first price that brings nothing leaves what the row is worth. -/
theorem worth_priced {r q : AppleRow} {price : ℤ} (he : q.environment = r.environment)
    (ho : q.ownershipType = r.ownershipType) (ht : q.transactionReason = r.transactionReason)
    (ha : q.economicAdjustment = r.economicAdjustment) (hp : q.priceMilliunits = some price)
    (hunpriced : r.priceMilliunits = none ∧ r.currency = none)
    (hidle : contextText (some r.environment) = "PRODUCTION" → contextText r.ownershipType ≠ "FAMILY_SHARED" →
      (price = 0 → r.economicAdjustment = some refund ∨ r.economicAdjustment = some revoke) ∧
      (price ≠ 0 → contextText r.ownershipType ≠ "PURCHASED" ∨
        (contextText r.transactionReason ≠ "PURCHASE" ∧ contextText r.transactionReason ≠ "RENEWAL") ∨
        r.economicAdjustment = some revocationUnknown)) :
    deriveAppleCreatorEconomicState q = deriveAppleCreatorEconomicState r := by
  by_cases hcontext : contextText (some r.environment) ≠ "PRODUCTION" ∨ contextText r.ownershipType = "FAMILY_SHARED"
  · obtain ⟨hbase, hnone⟩ := base_of_context he ho hcontext
    have hnone' : deriveAppleBaseEconomicStatus q ≠ .confirmedCandidate := by
      rw [hbase]
      exact hnone
    exact worth_eq ha hnone' hnone (Or.inl hbase)
  obtain ⟨hproduction, hfamily⟩ := not_or.mp hcontext
  have hproduction := not_not.mp hproduction
  obtain ⟨hzero, hvalue⟩ := hidle hproduction hfamily
  have hr := base_of_unpriced hunpriced.1 hunpriced.2 hproduction hfamily
  rw [← he] at hproduction
  rw [← ho] at hfamily
  by_cases hprice : price = 0
  · rw [hprice] at hp
    have hq := base_of_free hp hproduction hfamily
    exact worth_eq ha hq (by simp [hr]) (Or.inr (hzero hprice))
  obtain ⟨hq, hunknown⟩ := base_of_priced hp hprice hproduction hfamily
  rw [ho, ht] at hunknown
  rcases or_assoc.mpr (hvalue hprice) with hother | hadjusted
  · have hq := hunknown hother
    exact worth_eq ha (by simp [hq]) (by simp [hr]) (Or.inl (hq.trans hr.symm))
  · unfold deriveAppleCreatorEconomicState
    rw [ha, hadjusted, hr]
    simp [hq]

/-- An idle price changes nothing that a row that counts is worth. -/
theorem worth_updatePrice {r : AppleRow} (h : IdlePrice n r) (hcounts : Counts (updatePrice n r).1) :
    deriveAppleCreatorEconomicState (updatePrice n r).1 = deriveAppleCreatorEconomicState r := by
  have hdate : (updatePrice n r).1.revocationDate = r.revocationDate :=
    updatePrice_keeps n r (·.revocationDate) fun _ _ _ _ => rfl
  have hadjustment : (updatePrice n r).1.economicAdjustment = r.economicAdjustment :=
    updatePrice_keeps n r (·.economicAdjustment) fun _ _ _ _ => rfl
  have hadjusted :
      r.revocationDate = none ∨ r.economicAdjustment = some refund ∨ r.economicAdjustment = some revoke := by
    rw [Counts, takenBack_iff, hdate, hadjustment] at hcounts
    exact hcounts
  clear hcounts hdate hadjustment
  unfold updatePrice
  cases hprice : n.price with
  | none => rfl
  | some p =>
    obtain ⟨price, currency⟩ := p
    dsimp only
    by_cases hfirst : r.priceMilliunits = none ∧ r.currency = none
    · rw [if_pos hfirst]
      exact worth_priced rfl rfl rfl rfl rfl hfirst fun he ho =>
        h (price, currency) hprice hfirst.1 hfirst.2 he ho hadjusted
    · rw [if_neg hfirst]
      split_ifs
      · exact deriveAppleCreatorEconomicState_congr rfl rfl rfl rfl rfl rfl
      · rfl
      · rfl

/-- What counted before the price was filled in counts afterwards. -/
theorem counts_updatePrice {r : AppleRow} (h : Counts (updatePrice n r).1) : Counts r := by
  have hdate : (updatePrice n r).1.revocationDate = r.revocationDate :=
    updatePrice_keeps n r (·.revocationDate) fun _ _ _ _ => rfl
  have hadjustment : (updatePrice n r).1.economicAdjustment = r.economicAdjustment :=
    updatePrice_keeps n r (·.economicAdjustment) fun _ _ _ _ => rfl
  unfold Counts at h ⊢
  rwa [hdate, takenBack_iff, hadjustment, ← takenBack_iff] at h

theorem carries_updatePrice {r : AppleRow} {before : EventTable} {e : ConversionEvent} (hidle : IdlePrice n r)
    (hcounts : Counts (updatePrice n r).1) (h : Carries before e r) : Carries before e (updatePrice n r).1 := by
  unfold Carries at h ⊢
  rwa [worth_updatePrice hidle hcounts]

end Row

/-! ### One call -/

section Step

variable {c : ProcessCall} {n : NormalizedTransaction} {saved : AppleTransactionSaveResult} {db db' : Db}
  {out : ProcessAnswer} {userId attributionId : ℤ}

/-- The event of a transaction whose call reached the creator ledger. -/
theorem carries_recorded {a : CreatorAttribution} {apple : AppleTable} {s s' : Ledger}
    {o : Option CreatorAppleConversionResult} {r : AppleRow} (h : Recorded (conversionOf userId r) apple s o s')
    (ha : activeAttribution s.attributions userId = some a)
    (hdate : ∀ e, eventByKey s.events .apple (strip r.transactionId) = some e → e.attributionId = a.id →
      a.attributedAt ≤ r.purchaseDate) (hcounts : Counts r) {e : ConversionEvent}
    (he : eventByKey s'.events .apple (strip r.transactionId) = some e) (hattribution : e.attributionId = a.id) :
    Carries s.events e r := by
  cases h with
  | revoked date kept =>
    have hnone : r.revocationDate ≠ none := Option.isSome_iff_ne_none.mp date
    have htaken : isTakenBack (deriveAppleCreatorEconomicState r).status = false := kept
    rcases hcounts with hcounts | hcounts
    · exact absurd hcounts hnone
    · rw [htaken] at hcounts
      exact absurd hcounts (by simp)
  | unattributed noAttribution => exact absurd (noAttribution.symm.trans ha) (by simp)
  | @early a' attribution before =>
    obtain rfl : a' = a := Option.some.inj (attribution.symm.trans ha)
    exact absurd before (not_lt.mpr (hdate e he hattribution))
  | unrecorded attribution new left =>
    have hnew : eventByKey s.events .apple (strip r.transactionId) = none := new
    exact absurd (hnew.symm.trans he) (by simp)
  | @updated a' d events q live attribution date found same written answer =>
    have hfound : eventByKey s.events .apple (strip r.transactionId) = some d := found
    rw [eventByKey_updated written, hfound] at he
    have hnew : d.withValue (deriveAppleCreatorEconomicState r).status
        (desiredValue (deriveAppleCreatorEconomicState r) d) = e := by simpa [conversionOf] using he
    rw [← hnew]
    refine ⟨rfl, ?_⟩
    show ((desiredValue (deriveAppleCreatorEconomicState r) d).1 = _ ∧
      (desiredValue (deriveAppleCreatorEconomicState r) d).2 = _) ∨ _
    unfold desiredValue
    split_ifs with hkept
    · exact Or.inr ⟨hkept.1, hkept.2.1, d, (eventByKey_iff.mp hfound).1, rfl, rfl, rfl⟩
    · exact Or.inl ⟨rfl, rfl⟩
  | @inserted a' t events q live attribution date new identity counts written answer =>
    rw [eventByKey_inserted written new, if_pos ⟨rfl, rfl⟩] at he
    rw [← Option.some.inj he]
    exact ⟨rfl, Or.inl ⟨rfl, rfl⟩⟩

/-- The event of a transaction whose call did not reach the creator ledger. -/
theorem carries_skipped {attributedAt : ℤ} (hagree : Agrees userId attributionId db)
    (h : Processed c n saved db out db') (howner : n.owner = .user userId)
    (hshould : shouldRecordCreator c.notificationType saved = false) {e : ConversionEvent}
    (he : eventByKey db.ledger.events .apple n.transactionId = some e) (hattribution : e.attributionId = attributionId)
    (hreach : ReachesEvent attributedAt c n db.apple) (hcounts : Counts saved.row) :
    Carries db.ledger.events e saved.row := by
  have hskip : isEconomicNotification c.notificationType = true ∧ saved.economicAdjustmentAccepted = false := by
    simpa [shouldRecordCreator] using hshould
  obtain ⟨hmem, hprovider, hkey⟩ := eventByKey_iff.mp he
  have hnotification := hreach.adjustment hskip.1
  rcases h.save.row with ⟨r, hr, hsame, hrow, haccepted⟩ | ⟨id, -, -, haccepted⟩
  · have hrefused : (rowReduction n r).incomingAccepted = false := by rw [← haccepted, hskip.2]
    have hidle := hreach.price hskip.1 r hr hrefused
    rw [hrow, mergeRow_not_accepted hnotification hrefused] at hcounts ⊢
    apply carries_updatePrice hidle hcounts
    have hid : r.transactionId = e.externalEventKey := by rw [transactionId_of_lookup hr, hkey]
    have huser : r.userId = some userId := by
      have hrowner := (identityDiffers_eq_false hsame).1
      rw [howner] at hrowner
      exact (ownerOf_eq.mp hrowner).1
    exact hagree e hmem hprovider hattribution r (mem_of_lookup hr) hid huser (counts_updatePrice hcounts)
  · obtain ⟨x, hx⟩ := Option.isSome_iff_exists.mp hnotification
    have haccepted' : (n.reduction none none).incomingAccepted = true := by
      unfold NormalizedTransaction.reduction
      rw [hx]
      dsimp only
      rw [reduceDated_first]
    rw [hskip.2, haccepted'] at haccepted
    exact absurd haccepted (by simp)

/-- **One call keeps the ledgers in agreement.** -/
theorem agrees_step {a : CreatorAttribution} (ha : activeAttribution db.ledger.attributions userId = some a)
    (hagree : Agrees userId a.id db) (h : Processed c n saved db out db')
    (hmeets : Meets userId a.id a.attributedAt c db) : AgreesAfter userId a.id db db' := by
  intro e he hprovider hattribution r hr hkey huser hcounts
  have hevent := eventByKey_iff.mpr ⟨he, hprovider, rfl⟩
  rcases (mem_save h.save).mp hr with rfl | ⟨hold, hne⟩
  · -- the row of the call
    have hid := saved_transactionId h.save
    have howner : n.owner = .user userId := by
      have hsaved := (ownerOf_eq.mp (owner_saved h.save).1).1
      rw [huser] at hsaved
      cases howner : n.owner with
      | user v =>
        rw [howner] at hsaved
        rw [Option.some.inj hsaved]
      | guest g =>
        rw [howner] at hsaved
        exact absurd hsaved (by simp [AppleSubscriptionOwner.userId])
    have hstrip : strip saved.row.transactionId = n.transactionId := by rw [hid, (stripped_ids h.validated).1]
    rw [← hkey, hid] at hevent
    rcases recordSaved_cases (h.ofUser userId howner) with ⟨-, o, hrecorded⟩ | ⟨hshould, hsame⟩
    · refine carries_recorded hrecorded ha ?_ hcounts (hstrip ▸ hevent) hattribution
      intro d hd hda
      rw [saved_purchaseDate h.save]
      exact (hmeets n h.validated ⟨howner, d, hstrip ▸ hd, hda⟩).date
    · rw [hsame] at hevent
      exact carries_skipped hagree h howner hshould hevent hattribution
        (hmeets n h.validated ⟨howner, e, hevent, hattribution⟩) hcounts
  · -- a row that the call leaves
    rw [h.event_of_ne (hkey ▸ hne)] at hevent
    exact hagree e (eventByKey_iff.mp hevent).1 hprovider hattribution r hold hkey huser hcounts

end Step

/-! ### Any run -/

/-- **The ledgers agree after every call of a run whose calls meet the condition.** -/
theorem ledgers_agree {userId : ℤ} {a : CreatorAttribution} {db db' : Db} {log : List (ProcessCall × ProcessAnswer)}
    (ha : activeAttribution db.ledger.attributions userId = some a) (hagree : Agrees userId a.id db)
    (h : Run processAppleTransaction db log db')
    (hmeets : EveryCall processAppleTransaction db (fun _ x c => Meets userId a.id a.attributedAt c x) log) :
    EveryStep processAppleTransaction db (fun x _ _ y => AgreesAfter userId a.id x y) log ∧ Agrees userId a.id db' := by
  have hreached : ∀ {l : List (ProcessCall × ProcessAnswer)} {x : Db}, Run processAppleTransaction db l x →
      EveryCall processAppleTransaction db (fun _ x c => Meets userId a.id a.attributedAt c x) l →
      (∃ b, activeAttribution x.ledger.attributions userId = some b ∧ SameAttribution a b) ∧ Agrees userId a.id x := by
    intro l x hx hl
    induction hx with
    | start => exact ⟨⟨a, ha, SameAttribution.refl a⟩, hagree⟩
    | @done l x c out y hrun hop ih =>
      obtain ⟨⟨b, hb, hsame⟩, hx⟩ := ih hl.of_append
      obtain ⟨n, saved, hprocessed⟩ := processed_of_ok hop
      obtain ⟨b', hb', hsame'⟩ := hprocessed.attribution hb
      have hcall := hl l c out [] x rfl hrun
      refine ⟨⟨b', hb', hsame.trans hsame'⟩, ?_⟩
      rw [← hsame.id] at hx hcall ⊢
      rw [← hsame.attributedAt] at hcall
      exact (agrees_step hb hx hprocessed hcall).agrees
    | refused _ _ ih => exact ih hl
  refine ⟨?_, (hreached h hmeets).2⟩
  intro l₁ c out l₂ x y hlog hx hop
  have hbefore : EveryCall processAppleTransaction db (fun _ x c => Meets userId a.id a.attributedAt c x) l₁ := by
    rw [hlog] at hmeets
    exact hmeets.of_append
  obtain ⟨⟨b, hb, hsame⟩, hagrees⟩ := hreached hx hbefore
  obtain ⟨n, saved, hprocessed⟩ := processed_of_ok hop
  have hcall := hmeets l₁ c out l₂ x hlog hx
  rw [← hsame.id] at hagrees hcall ⊢
  rw [← hsame.attributedAt] at hcall
  exact agrees_step hb hagrees hprocessed hcall

/-! ### A late price -/

theorem agrees_attributedDb : Agrees 1 1 attributedDb := fun _ he => absurd he List.not_mem_nil

/-- The purchase, reported without its price. -/
def unpricedPurchase : ProcessCall := sampleRequest { samplePurchase with priceMilliunits := none, currency := none }

/-- A notification about it, without a price either. -/
def unpricedEconomic (notificationType adjustment : String) (d : ℤ) (revocationDate : Option ℤ) : ProcessCall :=
  { sampleEconomic notificationType adjustment d revocationDate with
    transaction := { sampleNotification adjustment d revocationDate with priceMilliunits := none, currency := none } }

/-- A refund and its reversal, and then another refund from before both, with
the price. -/
def latePrice : List ProcessCall :=
  [unpricedPurchase, unpricedEconomic "REFUND" "refund" 10 (some 10),
    unpricedEconomic "REFUND_REVERSED" "refund_reversed" 20 none, sampleEconomic "REFUND" "refund" 5 (some 5)]

/-- The older refund is not accepted, but its price is: the row is then worth a
confirmed purchase, and the event does not say so. -/
theorem late_price_parts_ledgers : ∃ log db', log.length = 4 ∧ Run processAppleTransaction attributedDb log db' ∧
    activeAttribution attributedDb.ledger.attributions 1 = some sampleAttribution ∧ Agrees 1 1 attributedDb ∧
    ¬ Agrees 1 1 db' := by
  set db' := (execute processAppleTransaction attributedDb latePrice).2 with hdb
  have hevent : (eventByKey db'.ledger.events .apple "t").map (fun e => (e.attributionId, e.economicStatus)) =
      some (1, .verifiedUnknownValue) := by decide +kernel
  have hrow : (lookup "t" db'.apple).map (fun r => (r.userId, r.revocationDate,
      (deriveAppleCreatorEconomicState r).status)) = some (some 1, none, .confirmed) := by decide +kernel
  obtain ⟨e, he, hecols⟩ := Option.map_eq_some_iff.mp hevent
  obtain ⟨r, hr, hrcols⟩ := Option.map_eq_some_iff.mp hrow
  simp only [Prod.mk.injEq] at hecols hrcols
  obtain ⟨hmem, hprovider, hkey⟩ := eventByKey_iff.mp he
  refine ⟨_, db', by decide +kernel, run_execute _ _ _, by decide +kernel, agrees_attributedDb, fun hagree => ?_⟩
  have hcarries := hagree e hmem hprovider hecols.1 r (mem_of_lookup hr) ((transactionId_of_lookup hr).trans hkey.symm)
    hrcols.1 (Or.inl hrcols.2.1)
  rw [Carries, hecols.2, hrcols.2.2] at hcarries
  exact absurd hcarries.1 (by decide)

instance (n : NormalizedTransaction) (r : AppleRow) : Decidable (IdlePrice n r) :=
  inferInstanceAs (Decidable (∀ p ∈ n.price, r.priceMilliunits = none → r.currency = none →
    contextText (some r.environment) = "PRODUCTION" → contextText r.ownershipType ≠ "FAMILY_SHARED" →
    (r.revocationDate = none ∨ _ ∨ _) → (p.1 = 0 → _ ∨ _) ∧ (p.1 ≠ 0 → _ ≠ _ ∨ (_ ≠ _ ∧ _ ≠ _) ∨ _)))

instance (attributedAt : ℤ) (c : ProcessCall) (n : NormalizedTransaction) (t : AppleTable) :
    Decidable (ReachesEvent attributedAt c n t) :=
  decidable_of_iff (attributedAt ≤ generalPurchaseDate n t ∧
    (isEconomicNotification c.notificationType = true → n.notification.isSome) ∧
    (isEconomicNotification c.notificationType = true → ∀ r ∈ lookup n.transactionId t,
      (rowReduction n r).incomingAccepted = false → IdlePrice n r))
    ⟨fun h => ⟨h.1, h.2.1, h.2.2⟩, fun h => ⟨h.date, h.adjustment, h.price⟩⟩

instance (userId attributionId : ℤ) (n : NormalizedTransaction) (db : Db) :
    Decidable (AboutEvent userId attributionId n db) :=
  inferInstanceAs (Decidable (n.owner = .user userId ∧
    ∃ e ∈ eventByKey db.ledger.events .apple n.transactionId, e.attributionId = attributionId))

instance (userId attributionId attributedAt : ℤ) (c : ProcessCall) (db : Db) :
    Decidable (Meets userId attributionId attributedAt c db) :=
  decidable_of_iff (∀ n ∈ (validateAppleTransaction c.transaction).toOption,
    AboutEvent userId attributionId n db → ReachesEvent attributedAt c n db.apple)
    (forall_congr' fun _ => imp_congr_left toOption_eq_some)

/-- A purchase, its refund and the reversal, each with the price, and then
another refund from before both. -/
def lateRefund : List ProcessCall :=
  [sampleRequest samplePurchase, sampleEconomic "REFUND" "refund" 10 (some 10),
    sampleEconomic "REFUND_REVERSED" "refund_reversed" 20 none, sampleEconomic "REFUND" "refund" 5 (some 5)]

/-- The late refund is not accepted and brings nothing new: the event and the
row stay confirmed. -/
theorem ledgers_agree_sample : ∃ log db', log.length = 4 ∧ Run processAppleTransaction attributedDb log db' ∧
    (eventByKey db'.ledger.events .apple "t").map (·.economicStatus) = some .confirmed ∧
    EveryStep processAppleTransaction attributedDb (fun x _ _ y => AgreesAfter 1 1 x y) log ∧ Agrees 1 1 db' :=
  ⟨_, _, by decide +kernel, run_execute processAppleTransaction lateRefund attributedDb, by decide +kernel,
    ledgers_agree (a := sampleAttribution) (by decide +kernel) agrees_attributedDb (run_execute _ _ _)
      (everyCall_of_trace (by decide +kernel))⟩

end Purchase
end FuelNear

/-
# Recording an Apple conversion

`record_creator_apple_conversion`: the event of a transaction is inserted once
and later brought up to date, and the milestones of the attribution follow.
Which of the cases a completed call took, and what it wrote there, is said
once (`Recorded`).

Key definitions: `AppleConversion`, `recordCreatorAppleConversion`, `Recorded`.
Key theorems: `recorded_of_ok`, `record_completes`, `milestones_active`.
-/
import FuelNear.Creator.Tables

namespace FuelNear
namespace Creator

open Sql Apple Text

/-! ### The call -/

/-- The errors of the creator ledger, with their texts. -/
inductive ConversionError where
  | valueError (message : String)
  | appleConversionConflict (message : String)
  | violation (v : Violation)
  deriving DecidableEq

def conflictMessage : String := "Apple creator conversion identity conflicts with existing data"

/-- The arguments of `record_creator_apple_conversion`. -/
structure AppleConversion where
  userId : ℤ
  transactionId : String
  originalTransactionId : String
  purchaseDate : ℤ
  productId : String
  transactionReason : Option String
  ownershipType : Option String
  economicState : AppleCreatorEconomicState
  revocationDate : Option ℤ
  deriving DecidableEq

/-- `CreatorAppleConversionResult`. -/
structure CreatorAppleConversionResult where
  eventId : ℤ
  attributionId : ℤ
  conversionType : ConversionType
  economicStatus : AppleCreatorEconomicStatus
  occurredAt : ℤ
  created : Bool
  changed : Bool
  plusMilestoneSet : Bool
  paidMilestoneChanged : Bool
  deriving DecidableEq

/-- The arguments that the callers take from a row and its derived state. -/
def conversionOf (userId : ℤ) (r : AppleRow) : AppleConversion where
  userId := userId
  transactionId := r.transactionId
  originalTransactionId := r.originalTransactionId
  purchaseDate := r.purchaseDate
  productId := r.productId
  transactionReason := r.transactionReason
  ownershipType := r.ownershipType
  economicState := deriveAppleCreatorEconomicState r
  revocationDate := r.revocationDate

/-- `_normalize_apple_conversion_value`. -/
def normalizeAppleConversionValue (value : Option String) : Option String :=
  value.bind fun v => if upper (strip v) = "" then none else some (upper (strip v))

/-- `_apple_conversion_identity`. -/
def appleConversionIdentity (transactionReason ownershipType : Option String) :
    Option (ConversionType × AppleCreatorEconomicStatus) :=
  if transactionReason ≠ some "PURCHASE" ∧ transactionReason ≠ some "RENEWAL" then none
  else if ownershipType = some "PURCHASED" then
    some (if transactionReason = some "PURCHASE" then .purchase else .renewal, .verifiedUnknownValue)
  else if ownershipType = some "FAMILY_SHARED" then some (.plusGranted, .nonEconomic)
  else none

/-- `effective_status in {"refunded", "revoked"}`. -/
def isTakenBack (status : AppleCreatorEconomicStatus) : Bool := status = .refunded || status = .revoked

/-! ### The milestones -/

/-- `LEAST` of the stored milestone and an instant. -/
def earliest (stored : Option ℤ) (occurredAt : ℤ) : Option ℤ := some (stored.elim occurredAt (min · occurredAt))

def CreatorAttribution.withPlus (occurredAt : ℤ) (a : CreatorAttribution) : CreatorAttribution :=
  { a with plusConvertedAt := some occurredAt }

def CreatorAttribution.withPaid (occurredAt : ℤ) (a : CreatorAttribution) : CreatorAttribution :=
  { a with paidPlusConvertedAt := earliest a.paidPlusConvertedAt occurredAt }

theorem withPlus_keys (occurredAt : ℤ) (a : CreatorAttribution) : (a.withPlus occurredAt).keys.Sublist a.keys :=
  List.Sublist.refl _

theorem withPaid_keys (occurredAt : ℤ) (a : CreatorAttribution) : (a.withPaid occurredAt).keys.Sublist a.keys :=
  List.Sublist.refl _

/-- The WHERE of both UPDATEs: the attribution is active and of a user. -/
def CreatorAttribution.isLive (attributionId : ℤ) (a : CreatorAttribution) : Bool :=
  a.id = attributionId && a.isActive && a.userId.isSome

/-- `_set_plus_conversion_milestone`: whether the milestone was set. -/
def setPlusConversionMilestone (attributionId occurredAt : ℤ) (conversionType : ConversionType)
    (transactionReason : Option String) (economicStatus : AppleCreatorEconomicStatus) (t : AttributionTable) :
    Bool × AttributionTable :=
  if conversionType ≠ .purchase ∧ conversionType ≠ .plusGranted then (false, t)
  else if transactionReason ≠ some "PURCHASE" then (false, t)
  else if isTakenBack economicStatus then (false, t)
  else
    ((t.find? fun a => a.isLive attributionId && a.plusConvertedAt.isNone).isSome,
      t.update (fun a => a.isLive attributionId && a.plusConvertedAt.isNone) (·.withPlus occurredAt)
        (withPlus_keys occurredAt))

/-- `_update_paid_plus_conversion_milestone`: whether the milestone changed. -/
def updatePaidPlusConversionMilestone (attributionId occurredAt : ℤ) (t : AttributionTable) :
    Bool × AttributionTable :=
  ((t.find? fun a => a.isLive attributionId && a.paidPlusConvertedAt.all (occurredAt < ·)).isSome,
    t.update (fun a => a.isLive attributionId && a.paidPlusConvertedAt.all (occurredAt < ·)) (·.withPaid occurredAt)
      (withPaid_keys occurredAt))

/-- Both milestones, as the two branches of the call treat them. -/
def milestones (attributionId occurredAt : ℤ) (conversionType : ConversionType) (transactionReason : Option String)
    (economicStatus : AppleCreatorEconomicStatus) (t : AttributionTable) : Bool × Bool × AttributionTable :=
  let (plusMilestoneSet, t) :=
    setPlusConversionMilestone attributionId occurredAt conversionType transactionReason economicStatus t
  let (paidMilestoneChanged, t) :=
    if economicStatus = .confirmed then updatePaidPlusConversionMilestone attributionId occurredAt t else (false, t)
  (plusMilestoneSet, paidMilestoneChanged, t)

/-! ### The two branches -/

/-- `desired_amount` and `desired_currency`: a refund or a revocation without
a price keeps the one recorded before. -/
def desiredValue (state : AppleCreatorEconomicState) (e : ConversionEvent) : Option ℚ × Option String :=
  if isTakenBack state.status ∧ state.amount = none ∧ e.amount.isSome ∧ e.currency.isSome then (e.amount, e.currency)
  else (state.amount, state.currency)

/-- The UPDATE of the economic columns. -/
def ConversionEvent.withValue (status : AppleCreatorEconomicStatus) (value : Option ℚ × Option String)
    (e : ConversionEvent) : ConversionEvent :=
  { e with economicStatus := status, amount := value.1, currency := value.2 }

theorem withValue_keys (status : AppleCreatorEconomicStatus) (value : Option ℚ × Option String) (e : ConversionEvent) :
    (e.withValue status value).keys.Sublist e.keys :=
  List.Sublist.refl _

def liftViolation {α : Type*} : Except Violation α → Except ConversionError α
  | .ok x => .ok x
  | .error v => .error (.violation v)

/-- `event_changed`. -/
def eventChanged (state : AppleCreatorEconomicState) (e : ConversionEvent) : Bool :=
  state.status ≠ e.economicStatus || (desiredValue state e).1 ≠ e.amount || (desiredValue state e).2 ≠ e.currency

/-- The UPDATE of an event, if it changes. -/
def bringUpToDate (state : AppleCreatorEconomicState) (e : ConversionEvent) (t : EventTable) :
    Except ConversionError EventTable :=
  if eventChanged state e then
    liftViolation (t.update (fun x => x.id = e.id) (·.withValue state.status (desiredValue state e))
      (withValue_keys _ _))
  else .ok t

/-- The branch of an event that is recorded already. -/
def updateConversion (c : AppleConversion) (a : CreatorAttribution) (e : ConversionEvent) (s : Ledger) :
    Except ConversionError (CreatorAppleConversionResult × Ledger) :=
  if e.attributionId ≠ a.id then .error (.appleConversionConflict conflictMessage)
  else do
    let events ← bringUpToDate c.economicState e s.events
    let (plusMilestoneSet, paidMilestoneChanged, attributions) :=
      milestones a.id e.occurredAt e.conversionType (normalizeAppleConversionValue c.transactionReason)
        c.economicState.status s.attributions
    return (
      { eventId := e.id
        attributionId := a.id
        conversionType := e.conversionType
        economicStatus := c.economicState.status
        occurredAt := e.occurredAt
        created := false
        changed := eventChanged c.economicState e || plusMilestoneSet || paidMilestoneChanged
        plusMilestoneSet
        paidMilestoneChanged },
      ⟨attributions, events⟩)

/-- The purchase dates of the purchases stored for an original transaction. -/
def purchaseDates (originalTransactionId : String) (t : AppleTable) : List ℤ :=
  (t.rows.filter fun r => r.originalTransactionId = originalTransactionId &&
    normalizeAppleConversionValue r.transactionReason = some "PURCHASE").map (·.purchaseDate)

/-- A renewal counts if a purchase of its chain is stored, and none of them is
from before the attribution. -/
def renewalCounts (attributedAt : ℤ) (dates : List ℤ) : Bool :=
  !(dates.any (· < attributedAt)) && dates.any (attributedAt ≤ ·)

/-- The row of the INSERT. -/
def newEvent (id : ℤ) (c : AppleConversion) (a : CreatorAttribution) (conversionType : ConversionType) :
    ConversionEvent where
  id := id
  attributionId := a.id
  conversionType := conversionType
  provider := .apple
  externalEventKey := strip c.transactionId
  occurredAt := c.purchaseDate
  productId := some (strip c.productId)
  economicStatus := c.economicState.status
  amount := c.economicState.amount
  currency := c.economicState.currency

/-- The answer of a conversion that another transaction has recorded meanwhile. -/
def concurrentResult (a : CreatorAttribution) (e : ConversionEvent) : CreatorAppleConversionResult where
  eventId := e.id
  attributionId := a.id
  conversionType := e.conversionType
  economicStatus := e.economicStatus
  occurredAt := e.occurredAt
  created := false
  changed := false
  plusMilestoneSet := false
  paidMilestoneChanged := false

/-- The INSERT … ON CONFLICT DO NOTHING, and what follows it. -/
def insertConversion (c : AppleConversion) (a : CreatorAttribution) (conversionType : ConversionType) (s : Ledger) :
    Except ConversionError (CreatorAppleConversionResult × Ledger) :=
  let event := newEvent (nextEventId s.events) c a conversionType
  match s.events.insert event with
  | .error .unique =>
    match eventByKey s.events .apple (strip c.transactionId) with
    | none => .error (.appleConversionConflict conflictMessage)
    | some e =>
      if e.attributionId ≠ a.id then .error (.appleConversionConflict conflictMessage)
      else .ok (concurrentResult a e, s)
  | .error v => .error (.violation v)
  | .ok events =>
    let (plusMilestoneSet, paidMilestoneChanged, attributions) :=
      milestones a.id c.purchaseDate conversionType (normalizeAppleConversionValue c.transactionReason)
        c.economicState.status s.attributions
    .ok (
      { eventId := event.id
        attributionId := a.id
        conversionType
        economicStatus := c.economicState.status
        occurredAt := c.purchaseDate
        created := true
        changed := true
        plusMilestoneSet
        paidMilestoneChanged },
      ⟨attributions, events⟩)

/-- The checks of the arguments. -/
def checkConversion (c : AppleConversion) : Except ConversionError Unit :=
  if c.userId ≤ 0 then .error (.valueError "user_id must be a positive integer")
  else if strip c.transactionId = "" then .error (.valueError "transaction_id is required")
  else if strip c.originalTransactionId = "" then .error (.valueError "original_transaction_id is required")
  else if strip c.productId = "" then .error (.valueError "product_id is required")
  else .ok ()

/-- The branch of a transaction that is not recorded. -/
def recordNew (c : AppleConversion) (a : CreatorAttribution) (apple : AppleTable) (s : Ledger) :
    Except ConversionError (Option CreatorAppleConversionResult × Ledger) :=
  match appleConversionIdentity (normalizeAppleConversionValue c.transactionReason)
      (normalizeAppleConversionValue c.ownershipType) with
  | none => .ok (none, s)
  | some (conversionType, _) =>
    if normalizeAppleConversionValue c.transactionReason = some "RENEWAL" ∧
        renewalCounts a.attributedAt (purchaseDates (strip c.originalTransactionId) apple) = false then
      .ok (none, s)
    else do
      let (result, s') ← insertConversion c a conversionType s
      return (some result, s')

/-- The call once the active attribution is locked. -/
def recordAttributed (c : AppleConversion) (a : CreatorAttribution) (apple : AppleTable) (s : Ledger) :
    Except ConversionError (Option CreatorAppleConversionResult × Ledger) :=
  if c.purchaseDate < a.attributedAt then .ok (none, s)
  else
    match eventByKey s.events .apple (strip c.transactionId) with
    | some e => do
      let (result, s') ← updateConversion c a e s
      return (some result, s')
    | none => recordNew c a apple s

/-- `record_creator_apple_conversion`. -/
def recordCreatorAppleConversion (c : AppleConversion) (apple : AppleTable) (s : Ledger) :
    Except ConversionError (Option CreatorAppleConversionResult × Ledger) := do
  checkConversion c
  if c.revocationDate.isSome && !isTakenBack c.economicState.status then return (none, s)
  else
    match activeAttribution s.attributions c.userId with
    | none => return (none, s)
    | some a => recordAttributed c a apple s

/-! ### The milestones of an attribution -/

/-- The two rows differ in the milestones only. -/
structure SameAttribution (a b : CreatorAttribution) : Prop where
  id : b.id = a.id
  campaignId : b.campaignId = a.campaignId
  userId : b.userId = a.userId
  codeUsed : b.codeUsed = a.codeUsed
  source : b.source = a.source
  attributedAt : b.attributedAt = a.attributedAt
  status : b.status = a.status
  userDeleted : b.userDeleted = a.userDeleted

theorem SameAttribution.refl (a : CreatorAttribution) : SameAttribution a a := ⟨rfl, rfl, rfl, rfl, rfl, rfl, rfl, rfl⟩

theorem SameAttribution.trans {a b c : CreatorAttribution} (h : SameAttribution a b) (h' : SameAttribution b c) :
    SameAttribution a c where
  id := h'.id.trans h.id
  campaignId := h'.campaignId.trans h.campaignId
  userId := h'.userId.trans h.userId
  codeUsed := h'.codeUsed.trans h.codeUsed
  source := h'.source.trans h.source
  attributedAt := h'.attributedAt.trans h.attributedAt
  status := h'.status.trans h.status
  userDeleted := h'.userDeleted.trans h.userDeleted

section Milestones

variable {t : AttributionTable} {v : ℤ} {a : CreatorAttribution}

/-- An update of the milestones finds the same active attribution, updated if
it is reached. -/
theorem activeAttribution_update (t : AttributionTable) (p : CreatorAttribution → Bool)
    (f : CreatorAttribution → CreatorAttribution) (hf : ∀ r, (f r).keys.Sublist r.keys)
    (hq : ∀ r, (f r).userId = r.userId ∧ (f r).isActive = r.isActive) :
    activeAttribution (t.update p f hf) v = (activeAttribution t v).map fun a => if p a then f a else a :=
  Table.find?_update fun r => by rw [(hq r).1, (hq r).2]

theorem setPlus_active (attributionId occurredAt : ℤ) (conversionType : ConversionType) (reason : Option String)
    (status : AppleCreatorEconomicStatus) (h : activeAttribution t v = some a) :
    ∃ b, activeAttribution (setPlusConversionMilestone attributionId occurredAt conversionType reason status t).2 v =
      some b ∧ SameAttribution a b ∧ b.paidPlusConvertedAt = a.paidPlusConvertedAt := by
  unfold setPlusConversionMilestone
  split_ifs
  · exact ⟨a, h, SameAttribution.refl a, rfl⟩
  · exact ⟨a, h, SameAttribution.refl a, rfl⟩
  · exact ⟨a, h, SameAttribution.refl a, rfl⟩
  · rw [activeAttribution_update _ _ (·.withPlus occurredAt) _ fun _ => ⟨rfl, rfl⟩, h, Option.map_some]
    refine ⟨_, rfl, ?_, ?_⟩
    · split_ifs <;> exact ⟨rfl, rfl, rfl, rfl, rfl, rfl, rfl, rfl⟩
    · split_ifs <;> rfl

theorem updatePaid_active (attributionId occurredAt : ℤ) (h : activeAttribution t v = some a) :
    ∃ b, activeAttribution (updatePaidPlusConversionMilestone attributionId occurredAt t).2 v = some b ∧
      SameAttribution a b ∧ b.paidPlusConvertedAt =
        if a.id = attributionId then earliest a.paidPlusConvertedAt occurredAt else a.paidPlusConvertedAt := by
  obtain ⟨-, huser, hactive⟩ := activeAttribution_spec h
  unfold updatePaidPlusConversionMilestone
  rw [activeAttribution_update _ _ (·.withPaid occurredAt) _ fun _ => ⟨rfl, rfl⟩, h, Option.map_some]
  refine ⟨_, rfl, ?_, ?_⟩
  · split_ifs <;> exact ⟨rfl, rfl, rfl, rfl, rfl, rfl, rfl, rfl⟩
  · by_cases hid : a.id = attributionId
    · by_cases hlater : a.paidPlusConvertedAt.all (occurredAt < ·) = true
      · simp [CreatorAttribution.isLive, CreatorAttribution.withPaid, hid, hactive, huser, hlater]
      · obtain ⟨p, hp⟩ : ∃ p, a.paidPlusConvertedAt = some p := by
          rw [← Option.ne_none_iff_exists']
          intro hnone
          simp [hnone] at hlater
        have hle : p ≤ occurredAt := by simpa [hp] using hlater
        simp [CreatorAttribution.isLive, hid, hp, earliest, hle, not_lt.mpr hle]
    · simp [CreatorAttribution.isLive, hid]

/-- What a recorded conversion does to the milestones of the active attribution
of a user: the paid one is the earliest confirmed instant. -/
theorem milestones_active (attributionId occurredAt : ℤ) (conversionType : ConversionType) (reason : Option String)
    (status : AppleCreatorEconomicStatus) (h : activeAttribution t v = some a) :
    ∃ b, activeAttribution (milestones attributionId occurredAt conversionType reason status t).2.2 v = some b ∧
      SameAttribution a b ∧ b.paidPlusConvertedAt =
        if status = .confirmed ∧ a.id = attributionId then earliest a.paidPlusConvertedAt occurredAt
        else a.paidPlusConvertedAt := by
  obtain ⟨b, hb, hsame, hpaid⟩ := setPlus_active attributionId occurredAt conversionType reason status h
  unfold milestones
  dsimp only
  by_cases hconfirmed : status = .confirmed
  · rw [if_pos hconfirmed]
    obtain ⟨c, hc, hsame', hpaid'⟩ := updatePaid_active attributionId occurredAt hb
    refine ⟨c, hc, hsame.trans hsame', ?_⟩
    rw [hpaid', hsame.id, hpaid]
    simp [hconfirmed]
  · rw [if_neg hconfirmed]
    exact ⟨b, hb, hsame, by simp [hconfirmed, hpaid]⟩

end Milestones

/-! ### What a completed call does -/

/-- The attribution and the events after a recorded conversion of the event at
`occurredAt`. -/
def AppleConversion.attributionsAfter (c : AppleConversion) (a : CreatorAttribution) (occurredAt : ℤ)
    (conversionType : ConversionType) (s : Ledger) : AttributionTable :=
  (milestones a.id occurredAt conversionType (normalizeAppleConversionValue c.transactionReason)
    c.economicState.status s.attributions).2.2

/-- The answer about an event that the call has brought to a status. -/
structure Answers (e : ConversionEvent) (status : AppleCreatorEconomicStatus) (r : CreatorAppleConversionResult) :
    Prop where
  eventId : r.eventId = e.id
  attributionId : r.attributionId = e.attributionId
  conversionType : r.conversionType = e.conversionType
  occurredAt : r.occurredAt = e.occurredAt
  economicStatus : r.economicStatus = status

/-- A completed call: it left the ledger as it was, or brought the event up to
date, or inserted it. -/
inductive Recorded (c : AppleConversion) (apple : AppleTable) (s : Ledger) :
    Option CreatorAppleConversionResult → Ledger → Prop where
  | revoked (date : c.revocationDate.isSome) (kept : isTakenBack c.economicState.status = false) :
      Recorded c apple s none s
  | unattributed (noAttribution : activeAttribution s.attributions c.userId = none) : Recorded c apple s none s
  | early {a} (attribution : activeAttribution s.attributions c.userId = some a)
      (before : c.purchaseDate < a.attributedAt) : Recorded c apple s none s
  | updated {a e events r} (live : c.revocationDate = none ∨ isTakenBack c.economicState.status = true)
      (attribution : activeAttribution s.attributions c.userId = some a) (date : a.attributedAt ≤ c.purchaseDate)
      (found : eventByKey s.events .apple (strip c.transactionId) = some e) (same : e.attributionId = a.id)
      (written : events.toTable = s.events.toTable.update (fun x => x.id = e.id)
        (·.withValue c.economicState.status (desiredValue c.economicState e)) (withValue_keys _ _))
      (answer : Answers e c.economicState.status r) :
      Recorded c apple s (some r) ⟨c.attributionsAfter a e.occurredAt e.conversionType s, events⟩
  | unrecorded {a} (attribution : activeAttribution s.attributions c.userId = some a)
      (new : eventByKey s.events .apple (strip c.transactionId) = none)
      (left : ∀ t, appleConversionIdentity (normalizeAppleConversionValue c.transactionReason)
          (normalizeAppleConversionValue c.ownershipType) = some t →
        normalizeAppleConversionValue c.transactionReason = some "RENEWAL" ∧
          renewalCounts a.attributedAt (purchaseDates (strip c.originalTransactionId) apple) = false) :
      Recorded c apple s none s
  | inserted {a t events r} (live : c.revocationDate = none ∨ isTakenBack c.economicState.status = true)
      (attribution : activeAttribution s.attributions c.userId = some a) (date : a.attributedAt ≤ c.purchaseDate)
      (new : eventByKey s.events .apple (strip c.transactionId) = none)
      (identity : appleConversionIdentity (normalizeAppleConversionValue c.transactionReason)
        (normalizeAppleConversionValue c.ownershipType) = some t)
      (counts : normalizeAppleConversionValue c.transactionReason = some "RENEWAL" →
        renewalCounts a.attributedAt (purchaseDates (strip c.originalTransactionId) apple) = true)
      (written : s.events.insert (newEvent (nextEventId s.events) c a t.1) = .ok events)
      (answer : Answers (newEvent (nextEventId s.events) c a t.1) c.economicState.status r) :
      Recorded c apple s (some r) ⟨c.attributionsAfter a c.purchaseDate t.1 s, events⟩

section Completed

variable {c : AppleConversion} {apple : AppleTable} {s s' : Ledger} {out : Option CreatorAppleConversionResult}

theorem liftViolation_ok {α : Type*} {x : Except Violation α} {y : α} : liftViolation x = .ok y ↔ x = .ok y := by
  cases x <;> simp [liftViolation]

/-- An event whose economic columns are as desired is not touched by the
UPDATE either. -/
theorem withValue_self {e : ConversionEvent} {state : AppleCreatorEconomicState} (h : eventChanged state e = false) :
    e.withValue state.status (desiredValue state e) = e := by
  simp only [eventChanged, Bool.or_eq_false_iff, decide_eq_false_iff_not, not_not] at h
  unfold ConversionEvent.withValue
  rw [h.1.1, h.1.2, h.2]

theorem bringUpToDate_ok {state : AppleCreatorEconomicState} {e : ConversionEvent} {t u : EventTable} (he : e ∈ t)
    (h : bringUpToDate state e t = .ok u) :
    u.toTable = t.toTable.update (fun x => x.id = e.id) (·.withValue state.status (desiredValue state e))
      (withValue_keys _ _) := by
  unfold bringUpToDate at h
  cases hchanged : eventChanged state e with
  | true =>
    rw [hchanged, if_pos rfl] at h
    exact Checked.update_ok (liftViolation_ok.mp h)
  | false =>
    rw [hchanged, if_neg (by simp)] at h
    rw [← Except.ok.inj h]
    refine (Table.update_eq_self fun x hx hxid => ?_).symm
    rw [event_eq_of_id hx he (by simpa using hxid)]
    exact withValue_self hchanged

theorem updateConversion_ok {a : CreatorAttribution} {e : ConversionEvent} {r : CreatorAppleConversionResult}
    (he : e ∈ s.events) (h : updateConversion c a e s = .ok (r, s')) :
    e.attributionId = a.id ∧ s'.attributions = c.attributionsAfter a e.occurredAt e.conversionType s ∧
      s'.events.toTable = s.events.toTable.update (fun x => x.id = e.id)
        (·.withValue c.economicState.status (desiredValue c.economicState e)) (withValue_keys _ _) ∧
      Answers e c.economicState.status r := by
  unfold updateConversion at h
  split_ifs at h with hid
  obtain ⟨events, hevents, h⟩ := bind_eq_ok.mp h
  obtain ⟨rfl, rfl⟩ := Prod.mk.inj (Except.ok.inj h)
  have hsame : e.attributionId = a.id := by simpa using hid
  exact ⟨hsame, rfl, bringUpToDate_ok he hevents, rfl, hsame.symm, rfl, rfl, rfl⟩

theorem insertConversion_ok {a : CreatorAttribution} {t : ConversionType} {r : CreatorAppleConversionResult}
    (hnew : eventByKey s.events .apple (strip c.transactionId) = none) (h : insertConversion c a t s = .ok (r, s')) :
    s'.attributions = c.attributionsAfter a c.purchaseDate t s ∧
      s.events.insert (newEvent (nextEventId s.events) c a t) = .ok s'.events ∧
      Answers (newEvent (nextEventId s.events) c a t) c.economicState.status r := by
  unfold insertConversion at h
  rw [hnew] at h
  dsimp only at h
  split at h
  · exact absurd h (by simp)
  · exact absurd h (by simp)
  · next events hevents =>
    obtain ⟨rfl, rfl⟩ := Prod.mk.inj (Except.ok.inj h)
    exact ⟨rfl, hevents, rfl, rfl, rfl, rfl, rfl⟩

theorem recorded_of_new {a : CreatorAttribution} (hlive : c.revocationDate = none ∨ isTakenBack c.economicState.status = true)
    (ha : activeAttribution s.attributions c.userId = some a) (hdate : a.attributedAt ≤ c.purchaseDate)
    (hnew : eventByKey s.events .apple (strip c.transactionId) = none)
    (h : recordNew c a apple s = .ok (out, s')) : Recorded c apple s out s' := by
  unfold recordNew at h
  split at h
  · next ht =>
    obtain ⟨rfl, rfl⟩ := Prod.mk.inj (Except.ok.inj h)
    exact Recorded.unrecorded ha hnew fun t hx => by simp [ht] at hx
  · next t status ht =>
    by_cases hrenewal : normalizeAppleConversionValue c.transactionReason = some "RENEWAL" ∧
        renewalCounts a.attributedAt (purchaseDates (strip c.originalTransactionId) apple) = false
    · rw [if_pos hrenewal] at h
      obtain ⟨rfl, rfl⟩ := Prod.mk.inj (Except.ok.inj h)
      exact Recorded.unrecorded ha hnew fun _ _ => hrenewal
    · rw [if_neg hrenewal] at h
      obtain ⟨⟨r, s₁⟩, hinsert, h⟩ := bind_eq_ok.mp h
      obtain ⟨rfl, rfl⟩ := Prod.mk.inj (Except.ok.inj h)
      obtain ⟨hattributions, hevents, hanswer⟩ := insertConversion_ok hnew hinsert
      have hs : s₁ = ⟨c.attributionsAfter a c.purchaseDate t s, s₁.events⟩ := by
        rw [← hattributions]
      rw [hs]
      exact Recorded.inserted hlive ha hdate hnew ht (fun hr => by simpa [hr] using hrenewal) hevents hanswer

/-- A completed call is one of the cases. -/
theorem recorded_of_ok (h : recordCreatorAppleConversion c apple s = .ok (out, s')) :
    Recorded c apple s out s' := by
  unfold recordCreatorAppleConversion at h
  obtain ⟨-, -, h⟩ := bind_eq_ok.mp h
  by_cases hrevoked : (c.revocationDate.isSome && !isTakenBack c.economicState.status) = true
  · rw [if_pos hrevoked] at h
    obtain ⟨rfl, rfl⟩ := Prod.mk.inj (Except.ok.inj h)
    obtain ⟨hdate, hkept⟩ := Bool.and_eq_true_iff.mp hrevoked
    exact Recorded.revoked hdate (by simpa using hkept)
  · rw [if_neg hrevoked] at h
    have hlive : c.revocationDate = none ∨ isTakenBack c.economicState.status = true := by
      cases hd : c.revocationDate with
      | none => exact Or.inl rfl
      | some d => exact Or.inr (by simpa [hd] using hrevoked)
    split at h
    · next ha =>
      obtain ⟨rfl, rfl⟩ := Prod.mk.inj (Except.ok.inj h)
      exact Recorded.unattributed ha
    · next a ha =>
      unfold recordAttributed at h
      by_cases hearly : c.purchaseDate < a.attributedAt
      · rw [if_pos hearly] at h
        obtain ⟨rfl, rfl⟩ := Prod.mk.inj (Except.ok.inj h)
        exact Recorded.early ha hearly
      · rw [if_neg hearly] at h
        split at h
        · next e he =>
          obtain ⟨⟨r, s₁⟩, hupdate, h⟩ := bind_eq_ok.mp h
          obtain ⟨rfl, rfl⟩ := Prod.mk.inj (Except.ok.inj h)
          obtain ⟨hsame, hattributions, hevents, hanswer⟩ := updateConversion_ok (eventByKey_iff.mp he).1 hupdate
          have hs : s₁ = ⟨c.attributionsAfter a e.occurredAt e.conversionType s, s₁.events⟩ := by
            rw [← hattributions]
          rw [hs]
          exact Recorded.updated hlive ha (not_lt.mp hearly) he hsame hevents hanswer
        · next he => exact recorded_of_new hlive ha (not_lt.mp hearly) he h

/-! ### The events after a completed call -/

/-- The event of a key after an UPDATE of the event `e`. -/
theorem eventByKey_updated {t u : EventTable} {e : ConversionEvent} {status : AppleCreatorEconomicStatus}
    {value : Option ℚ × Option String}
    (h : u.toTable = t.toTable.update (fun x => x.id = e.id) (·.withValue status value) (withValue_keys _ _))
    (provider : Provider) (key : String) :
    eventByKey u provider key =
      (eventByKey t provider key).map fun x => if x.id = e.id then x.withValue status value else x := by
  unfold eventByKey
  rw [h]
  have hq : ∀ x : ConversionEvent, ((x.withValue status value).provider = provider &&
      (x.withValue status value).externalEventKey = key : Bool) = (x.provider = provider && x.externalEventKey = key) :=
    fun _ => rfl
  rw [Table.find?_update hq]
  simp only [decide_eq_true_eq]

/-- The event of a key after an INSERT. -/
theorem eventByKey_inserted {t u : EventTable} {x : ConversionEvent} (h : t.insert x = .ok u)
    (hnew : eventByKey t x.provider x.externalEventKey = none) (provider : Provider) (key : String) :
    eventByKey u provider key =
      if provider = x.provider ∧ key = x.externalEventKey then some x else eventByKey t provider key := by
  have hins := Checked.insert_ok h
  by_cases hkey : provider = x.provider ∧ key = x.externalEventKey
  · rw [if_pos hkey, hkey.1, hkey.2]
    exact (Table.find?_insert hins hnew).trans (by simp)
  · rw [if_neg hkey]
    refine Table.find?_insert_of_false hins ?_
    by_contra hx
    simp only [Bool.not_eq_false, Bool.and_eq_true, decide_eq_true_eq] at hx
    exact hkey ⟨hx.1.symm, hx.2.symm⟩

/-- Only the event of the transaction is written. -/
theorem Recorded.event_of_ne (h : Recorded c apple s out s') {key : String} (hkey : key ≠ strip c.transactionId) :
    eventByKey s'.events .apple key = eventByKey s.events .apple key := by
  cases h with
  | revoked date kept => rfl
  | unattributed noAttribution => rfl
  | early attribution before => rfl
  | unrecorded attribution new left => rfl
  | @updated a e events r live attribution date found same written answer =>
    rw [eventByKey_updated written]
    cases hx : eventByKey s.events .apple key with
    | none => rfl
    | some x =>
      obtain ⟨hmem, -, hk⟩ := eventByKey_iff.mp hx
      obtain ⟨he, -, hek⟩ := eventByKey_iff.mp found
      have hid : x.id ≠ e.id := fun hid => hkey (by rw [← hk, event_eq_of_id hmem he hid, hek])
      simp [hid]
  | @inserted a t events r live attribution date new identity counts written answer =>
    rw [eventByKey_inserted written new, if_neg]
    exact fun hx => hkey hx.2

/-- Type, instant and owner of an event stay, and so does its key. -/
structure SameEvent (d e : ConversionEvent) : Prop where
  id : e.id = d.id
  attributionId : e.attributionId = d.attributionId
  conversionType : e.conversionType = d.conversionType
  provider : e.provider = d.provider
  externalEventKey : e.externalEventKey = d.externalEventKey
  occurredAt : e.occurredAt = d.occurredAt
  productId : e.productId = d.productId

theorem SameEvent.refl (e : ConversionEvent) : SameEvent e e := ⟨rfl, rfl, rfl, rfl, rfl, rfl, rfl⟩

theorem SameEvent.trans {d e f : ConversionEvent} (h : SameEvent d e) (h' : SameEvent e f) : SameEvent d f where
  id := h'.id.trans h.id
  attributionId := h'.attributionId.trans h.attributionId
  conversionType := h'.conversionType.trans h.conversionType
  provider := h'.provider.trans h.provider
  externalEventKey := h'.externalEventKey.trans h.externalEventKey
  occurredAt := h'.occurredAt.trans h.occurredAt
  productId := h'.productId.trans h.productId

/-- No event is lost, and none is dated anew. -/
theorem Recorded.kept (h : Recorded c apple s out s') {d : ConversionEvent} (hd : d ∈ s.events) :
    ∃ e ∈ s'.events, SameEvent d e := by
  cases h with
  | revoked date kept => exact ⟨d, hd, SameEvent.refl d⟩
  | unattributed noAttribution => exact ⟨d, hd, SameEvent.refl d⟩
  | early attribution before => exact ⟨d, hd, SameEvent.refl d⟩
  | unrecorded attribution new left => exact ⟨d, hd, SameEvent.refl d⟩
  | @updated a e events r live attribution date found same written answer =>
    refine ⟨_, Checked.mem_def.mpr (written ▸ Table.mem_update.mpr ⟨d, hd, rfl⟩), ?_⟩
    split_ifs
    · exact ⟨rfl, rfl, rfl, rfl, rfl, rfl, rfl⟩
    · exact SameEvent.refl d
  | @inserted a t events r live attribution date new identity counts written answer =>
    exact ⟨d, (Table.mem_insert (Checked.insert_ok written)).mpr (Or.inl hd), SameEvent.refl d⟩

/-- The event of an answer is in the ledger. -/
theorem Recorded.answered (h : Recorded c apple s out s') : ∀ r ∈ out, ∃ e ∈ s'.events, r.eventId = e.id ∧
    r.attributionId = e.attributionId ∧ r.occurredAt = e.occurredAt ∧ e.provider = .apple := by
  intro r hr
  cases h with
  | revoked date kept => exact absurd hr (by simp)
  | unattributed noAttribution => exact absurd hr (by simp)
  | early attribution before => exact absurd hr (by simp)
  | unrecorded attribution new left => exact absurd hr (by simp)
  | @updated a e events q live attribution date found same written answer =>
    obtain rfl : q = r := by simpa using hr
    obtain ⟨he, hprovider, -⟩ := eventByKey_iff.mp found
    refine ⟨_, Checked.mem_def.mpr (written ▸ Table.mem_update.mpr ⟨e, he, rfl⟩), ?_⟩
    rw [if_pos (by simp)]
    exact ⟨answer.eventId, answer.attributionId, answer.occurredAt, hprovider⟩
  | @inserted a t events q live attribution date new identity counts written answer =>
    obtain rfl : q = r := by simpa using hr
    exact ⟨_, (Table.mem_insert (Checked.insert_ok written)).mpr (Or.inr rfl), answer.eventId, answer.attributionId,
      answer.occurredAt, rfl⟩

end Completed

/-! ### When a call completes -/

section Completes

variable {c : AppleConversion} {s : Ledger}

/-- What the CHECKs of the event ask of a call. -/
structure Writable (c : AppleConversion) : Prop where
  key : textCheck (strip c.transactionId) = true
  productId : textCheck (strip c.productId) = true
  value : valueCheck c.economicState.status c.economicState.amount c.economicState.currency = true

/-- The transaction has no event of another attribution. -/
def Unclaimed (userId : ℤ) (transactionId : String) (s : Ledger) : Prop :=
  ∀ a, activeAttribution s.attributions userId = some a → ∀ e, eventByKey s.events .apple transactionId = some e →
    e.attributionId = a.id

theorem event_check {t : EventTable} {e : ConversionEvent} (he : e ∈ t) :
    textCheck e.externalEventKey = true ∧ e.productId.all textCheck = true ∧
      valueCheck e.economicStatus e.amount e.currency = true := by
  have h := Checked.check_of_mem he
  simp only [ConversionEvent.check, Bool.and_eq_true] at h
  exact ⟨h.1.1, h.1.2, h.2⟩

/-- The price recorded before is good for a refund and a revocation too. -/
theorem desiredValue_check {e : ConversionEvent} {state : AppleCreatorEconomicState}
    (hstate : valueCheck state.status state.amount state.currency = true)
    (he : valueCheck e.economicStatus e.amount e.currency = true) :
    valueCheck state.status (desiredValue state e).1 (desiredValue state e).2 = true := by
  unfold desiredValue
  split_ifs with hkept
  · have hamount : amountCurrencyCheck e.amount e.currency = true := (Bool.and_eq_true_iff.mp he).1
    have hstatus : state.status = .refunded ∨ state.status = .revoked := by simpa [isTakenBack] using hkept.1
    rcases hstatus with hs | hs <;> rw [hs] <;> simp [valueCheck, hamount, economicValueCheck]
  · exact hstate

theorem bringUpToDate_completes {state : AppleCreatorEconomicState} {e : ConversionEvent} {t : EventTable} (he : e ∈ t)
    (hstate : valueCheck state.status state.amount state.currency = true) : ∃ u, bringUpToDate state e t = .ok u := by
  unfold bringUpToDate
  split_ifs
  · have hcheck : ∀ x ∈ t, decide (x.id = e.id) = true →
        (x.withValue state.status (desiredValue state e)).check = true := by
      intro x hx hid
      obtain rfl := event_eq_of_id hx he (by simpa using hid)
      obtain ⟨hkey, hproduct, hvalue⟩ := event_check he
      simp [ConversionEvent.check, ConversionEvent.withValue, hkey, hproduct, desiredValue_check hstate hvalue]
    obtain ⟨u, hu⟩ := Checked.update_completes hcheck
    exact ⟨u, liftViolation_ok.mpr hu⟩
  · exact ⟨t, rfl⟩

theorem insertConversion_completes {a : CreatorAttribution} (t : ConversionType) (hw : Writable c)
    (hnew : eventByKey s.events .apple (strip c.transactionId) = none) :
    ∃ out, insertConversion c a t s = .ok out := by
  have hinsert : ∃ events, s.events.insert (newEvent (nextEventId s.events) c a t) = .ok events := by
    apply Checked.insert_completes
    · simp [ConversionEvent.check, newEvent, hw.key, hw.productId, hw.value]
    · simp [ConversionEvent.keys]
    · intro x hx k hk hk'
      simp only [ConversionEvent.keys, newEvent, List.mem_cons, List.not_mem_nil, or_false] at hk hk'
      rcases hk with rfl | rfl <;> rcases hk' with h | h
      · exact nextEventId_fresh hx (Sum.inl.inj h)
      · exact absurd h (by simp)
      · exact absurd h (by simp)
      · obtain ⟨hprovider, hkey⟩ := Prod.mk.inj (Sum.inr.inj h)
        have hsome := eventByKey_iff.mpr ⟨hx, hprovider, hkey⟩
        rw [hnew] at hsome
        exact absurd hsome (by simp)
  obtain ⟨events, hevents⟩ := hinsert
  unfold insertConversion
  dsimp only
  rw [hevents]
  exact ⟨_, rfl⟩

/-- A call with its arguments in order completes, unless the event of the
transaction is of another attribution. -/
theorem record_completes (apple : AppleTable) (hc : checkConversion c = .ok ()) (hw : Writable c)
    (hfree : Unclaimed c.userId (strip c.transactionId) s) : ∃ out, recordCreatorAppleConversion c apple s = .ok out := by
  unfold recordCreatorAppleConversion
  rw [hc]
  dsimp only [bind, Except.bind]
  split_ifs
  · exact ⟨_, rfl⟩
  · split
    · exact ⟨_, rfl⟩
    · next a ha =>
      unfold recordAttributed
      split_ifs
      · exact ⟨_, rfl⟩
      · split
        · next e he =>
          have hsame := hfree a ha e he
          obtain ⟨u, hu⟩ := bringUpToDate_completes (eventByKey_iff.mp he).1 hw.value
          unfold updateConversion
          rw [if_neg (not_not.mpr hsame), hu]
          exact ⟨_, rfl⟩
        · next he =>
          unfold recordNew
          split
          · exact ⟨_, rfl⟩
          · next t status _ =>
            split_ifs
            · exact ⟨_, rfl⟩
            · obtain ⟨out, hout⟩ := insertConversion_completes (a := a) t hw he
              rw [hout]
              exact ⟨_, rfl⟩

/-- Without an active attribution there is nothing to write. -/
theorem record_unattributed (apple : AppleTable) (hc : checkConversion c = .ok ())
    (hnone : activeAttribution s.attributions c.userId = none) :
    recordCreatorAppleConversion c apple s = .ok (none, s) := by
  unfold recordCreatorAppleConversion
  rw [hc, hnone]
  dsimp only [bind, Except.bind]
  split_ifs <;> rfl

end Completes

end Creator
end FuelNear

/-
# Applying a creator code

`apply_registration_creator_attribution`: the attribution of the user is
inserted unless there is one, and the promo reward follows it: an event is
acquired once for each attribution, and whoever acquires it inserts a reward
of seven days. One transaction does all of it.

A call reads the users, the campaigns and the Apple rows (`Catalog`), which
others change as they like between two calls, and writes the attributions,
the events, the rewards and the subscriptions (`State`).

Key definitions: `Catalog`, `State`, `applyCreatorAttribution`,
`acquireCreatorPromoRewardEvent`, `grantCreatorPlusDaysReward`,
`applyRegistrationCreatorAttribution`.
Key theorems: `acquired_of_ok`, `granted_of_ok`, `attributed_of_ok`.
-/
import FuelNear.Creator.Conversion
import FuelNear.Plus.Reconcile
import FuelNear.Plus.Rewards

namespace FuelNear
namespace Creator

open Sql Apple Text Plus

/-! ### Campaigns -/

inductive CampaignStatus where
  | draft
  | active
  | paused
  | ended
  deriving DecidableEq

/-- `CreatorCampaign`. -/
structure CreatorCampaign where
  id : ℤ
  creatorId : ℤ
  code : String
  status : CampaignStatus
  startsAt : Option ℤ
  endsAt : Option ℤ
  postRegistrationWindowHours : ℤ
  deriving DecidableEq

def CreatorCampaign.keys (c : CreatorCampaign) : List (ℤ ⊕ String) := [.inl c.id, .inr c.code]

inductive CreatorStatus where
  | active
  | paused
  | archived
  deriving DecidableEq

/-- A row of `creators`. -/
structure CreatorRow where
  id : ℤ
  status : CreatorStatus
  deriving DecidableEq

def CreatorRow.keys (c : CreatorRow) : List ℤ := [c.id]

/-- What a call reads and does not write. `createdAt` is the column of `users`. -/
structure Catalog where
  accounts : Accounts
  createdAt : ℤ → ℤ
  creators : Table CreatorRow CreatorRow.keys
  campaigns : Table CreatorCampaign CreatorCampaign.keys
  apple : AppleTable

/-- What a call writes. -/
structure State where
  ledger : Ledger
  rewards : StoredRewards
  subscriptions : SubscriptionTable

/-- The database of the reconciliation. -/
def Catalog.plusDb (w : Catalog) (s : State) : PlusDb := ⟨w.accounts, w.apple, s.rewards.rewards, s.subscriptions⟩

/-! ### The attribution -/

/-- The errors of an application, with the texts that are not the class's own. -/
inductive AttributionError where
  | codeFormatInvalid
  | codeNotFound
  | campaignNotActive
  | creatorNotActive
  | campaignNotStarted
  | campaignEnded
  | alreadySet
  | windowExpired
  | userNotFound
  | concurrency
  | promoRewardConflict
  | valueError (message : String)
  | runtimeError (message : String)
  | violation (v : Violation)
  | reconcile (e : ReconcileError)
  deriving DecidableEq

/-- `CREATOR_CODE_PATTERN`, on the whole text. -/
def isCreatorCode (x : String) : Bool :=
  9 ≤ x.toList.length && x.toList.length ≤ 32 && x.toList.all fun c => c.isUpper || c.isDigit

/-- `normalize_creator_code`. -/
def normalizeCreatorCode (creatorCode : String) : Except AttributionError String :=
  if isCreatorCode (upper (strip creatorCode)) then .ok (upper (strip creatorCode)) else .error .codeFormatInvalid

/-- `_fetch_creator_campaign`: the campaign of the code with the status of its creator. -/
def fetchCreatorCampaign (w : Catalog) (normalizedCode : String) :
    Except AttributionError (CreatorCampaign × CreatorStatus) :=
  match w.campaigns.find? fun c => c.code = normalizedCode with
  | none => .error .codeNotFound
  | some campaign =>
    match w.creators.find? fun c => c.id = campaign.creatorId with
    | none => .error .codeNotFound
    | some creator => .ok (campaign, creator.status)

/-- `_validate_creator_campaign`. -/
def validateCreatorCampaign (campaign : CreatorCampaign) (creatorStatus : CreatorStatus) (referenceDate : ℤ) :
    Except AttributionError Unit :=
  if campaign.status ≠ .active then .error .campaignNotActive
  else if creatorStatus ≠ .active then .error .creatorNotActive
  else if campaign.startsAt.any (referenceDate < ·) then .error .campaignNotStarted
  else if campaign.endsAt.any (· ≤ referenceDate) then .error .campaignEnded
  else .ok ()

/-- `validate_post_registration_window`; the instants are microseconds. -/
def validatePostRegistrationWindow (userCreatedAt : ℤ) (campaign : CreatorCampaign) (referenceDate : ℤ) :
    Except AttributionError Unit :=
  if referenceDate < userCreatedAt then .error (.valueError "reference_date must not precede user_created_at")
  else if userCreatedAt + campaign.postRegistrationWindowHours * 3600000000 ≤ referenceDate then .error .windowExpired
  else .ok ()

/-- `CreatorAttributionResult`. -/
structure CreatorAttributionResult where
  attributionId : ℤ
  campaignId : ℤ
  userId : ℤ
  codeUsed : String
  source : AttributionSource
  attributedAt : ℤ
  created : Bool
  idempotent : Bool
  deriving DecidableEq

/-- `_attribution_result`, of a row of the user. -/
def attributionResult (userId : ℤ) (a : CreatorAttribution) (created idempotent : Bool) : CreatorAttributionResult where
  attributionId := a.id
  campaignId := a.campaignId
  userId := userId
  codeUsed := a.codeUsed
  source := a.source
  attributedAt := a.attributedAt
  created
  idempotent

/-- `_resolve_existing_attribution`. -/
def resolveExistingAttribution (userId : ℤ) (a : CreatorAttribution) (campaignId : ℤ) :
    Except AttributionError CreatorAttributionResult :=
  if a.campaignId ≠ campaignId then .error .alreadySet else .ok (attributionResult userId a false true)

/-- `SELECT … FROM creator_attributions WHERE user_id = …`. -/
def attributionOf (t : AttributionTable) (userId : ℤ) : Option CreatorAttribution := t.find? fun a => a.userId = some userId

/-- An id later than every id of the table. -/
def nextAttributionId (t : AttributionTable) : ℤ := (t.rows.map (·.id)).foldr max 0 + 1

/-- The row of the INSERT. -/
def newAttribution (id campaignId userId : ℤ) (codeUsed : String) (source : AttributionSource) (now : ℤ) :
    CreatorAttribution where
  id := id
  campaignId := campaignId
  userId := some userId
  codeUsed := codeUsed
  source := source
  attributedAt := now
  plusConvertedAt := none
  paidPlusConvertedAt := none
  status := .active
  userDeleted := false

/-- The arguments of an application, and the start of its transaction. -/
structure ApplyCall where
  userId : ℤ
  creatorCode : String
  source : AttributionSource
  now : ℤ
  deriving DecidableEq

/-- The window is checked for codes that are entered after the registration. -/
def validateSource (userCreatedAt : ℤ) (campaign : CreatorCampaign) (c : ApplyCall) : Except AttributionError Unit :=
  if c.source = .postRegistration then validatePostRegistrationWindow userCreatedAt campaign c.now else .ok ()

/-- The INSERT of the attribution, and the row that it has to give way to. -/
def insertAttribution (a : CreatorAttribution) (userId : ℤ) (t : AttributionTable) :
    Except AttributionError (CreatorAttributionResult × AttributionTable) :=
  match t.insert? a with
  | some t' => .ok (attributionResult userId a true false, t')
  | none =>
    match attributionOf t userId with
    | none => .error .concurrency
    | some existing => do
      let result ← resolveExistingAttribution userId existing a.campaignId
      return (result, t)

/-- `apply_creator_attribution`. -/
def applyCreatorAttribution (w : Catalog) (c : ApplyCall) (t : AttributionTable) :
    Except AttributionError (CreatorAttributionResult × AttributionTable) := do
  let normalizedCode ← normalizeCreatorCode c.creatorCode
  if c.userId ≤ 0 then .error .userNotFound
  else if (w.accounts.user? c.userId).isNone then .error .userNotFound
  else
    let (campaign, creatorStatus) ← fetchCreatorCampaign w normalizedCode
    match attributionOf t c.userId with
    | some existing => do
      let result ← resolveExistingAttribution c.userId existing campaign.id
      return (result, t)
    | none => do
      validateCreatorCampaign campaign creatorStatus c.now
      validateSource (w.createdAt c.userId) campaign c
      insertAttribution (newAttribution (nextAttributionId t) campaign.id c.userId normalizedCode c.source c.now)
        c.userId t

/-! ### The promo event -/

/-- `CreatorPromoRewardEventResult`. -/
structure CreatorPromoRewardEventResult where
  eventId : ℤ
  attributionId : ℤ
  userId : ℤ
  occurredAt : ℤ
  created : Bool
  changed : Bool
  plusMilestoneChanged : Bool
  deriving DecidableEq

/-- `external_event_key`. -/
def promoKey (attributionId : ℤ) : String := "creator_reward:" ++ toString attributionId

/-- The row of the INSERT. -/
def newPromoEvent (id attributionId now : ℤ) : ConversionEvent where
  id := id
  attributionId := attributionId
  conversionType := .plusGranted
  provider := .internalPromo
  externalEventKey := promoKey attributionId
  occurredAt := now
  productId := none
  economicStatus := .nonEconomic
  amount := none
  currency := none

/-- What an event found under the key has to be. -/
def ConversionEvent.isPromoOf (attributionId : ℤ) (e : ConversionEvent) : Bool :=
  e.attributionId = attributionId && e.conversionType = .plusGranted && e.productId.isNone &&
    e.economicStatus = .nonEconomic && e.amount.isNone && e.currency.isNone

/-- INSERT … ON CONFLICT DO NOTHING: whether the event is new, the event, and the table. -/
def acquireEvent (attributionId now : ℤ) (t : EventTable) : Except AttributionError (Bool × ConversionEvent × EventTable) :=
  match t.insert (newPromoEvent (nextEventId t) attributionId now) with
  | .ok t' => .ok (true, newPromoEvent (nextEventId t) attributionId now, t')
  | .error .unique =>
    match eventByKey t .internalPromo (promoKey attributionId) with
    | none => .error .promoRewardConflict
    | some e => if e.isPromoOf attributionId then .ok (false, e, t) else .error .promoRewardConflict
  | .error v => .error (.violation v)

def CreatorAttribution.withPromo (occurredAt : ℤ) (a : CreatorAttribution) : CreatorAttribution :=
  { a with plusConvertedAt := earliest a.plusConvertedAt occurredAt }

theorem withPromo_keys (occurredAt : ℤ) (a : CreatorAttribution) : (a.withPromo occurredAt).keys.Sublist a.keys :=
  List.Sublist.refl _

/-- The WHERE of the UPDATE of the milestone. -/
def CreatorAttribution.promoMoves (attributionId userId occurredAt : ℤ) (a : CreatorAttribution) : Bool :=
  a.id = attributionId && a.isActive && a.userId = some userId && a.plusConvertedAt.all (occurredAt < ·)

/-- `acquire_creator_promo_reward_event`. -/
def acquireCreatorPromoRewardEvent (attributionId userId now : ℤ) (s : Ledger) :
    Except AttributionError (CreatorPromoRewardEventResult × Ledger) :=
  if attributionId ≤ 0 ∨ userId ≤ 0 then
    .error (.valueError "attribution_id and user_id must be positive integers")
  else
    match s.attributions.find? fun a => a.id = attributionId with
    | none => .error .promoRewardConflict
    | some a =>
      if a.userId ≠ some userId ∨ a.isActive = false then .error .promoRewardConflict
      else do
        let (created, event, events) ← acquireEvent attributionId now s.events
        let moves := CreatorAttribution.promoMoves attributionId userId event.occurredAt
        let plusMilestoneChanged := (s.attributions.find? moves).isSome
        return (
          { eventId := event.id
            attributionId
            userId
            occurredAt := event.occurredAt
            created
            changed := created || plusMilestoneChanged
            plusMilestoneChanged },
          ⟨s.attributions.update moves (·.withPromo event.occurredAt) (withPromo_keys _), events⟩)

/-! ### The reward -/

/-- The row of the INSERT: no referral, and days as text. -/
def promoReward (id userId occurredAt : ℤ) (days : ℕ) : StoredReward where
  id := id
  userId := userId
  rewardType := .plusDays
  rewardValue := toString days
  status := .granted
  grantedAt := some occurredAt
  referralId := none

/-- `grant_creator_plus_days_reward`, of a positive number of days: the id of the
reward, none if it was granted before. -/
def grantCreatorPlusDaysReward (w : Catalog) (attribution : CreatorAttributionResult) (days : ℕ) (now : ℤ) (s : State) :
    Except AttributionError (Option ℤ × State) := do
  let (event, ledger) ← acquireCreatorPromoRewardEvent attribution.attributionId attribution.userId now s.ledger
  if event.created = false then return (none, { s with ledger })
  else
    let reward := promoReward s.rewards.nextId attribution.userId event.occurredAt days
    match s.rewards.insert? reward with
    | none => .error (.violation .unique)
    | some rewards =>
      match reconcileUserPlusEntitlement attribution.userId event.occurredAt none true
          (w.plusDb { s with ledger, rewards }) with
      | .error e => .error (.reconcile e)
      | .ok (components, db) =>
        if components.subscription.isNone then
          .error (.runtimeError "Creator reward did not produce a Plus entitlement")
        else return (some reward.id, ⟨ledger, rewards, db.subscriptions⟩)

/-! ### The call -/

/-- `APIError`, or an error that is passed on. -/
inductive RegistrationError where
  | api (status : ℕ) (code message : String)
  | other (e : AttributionError)
  deriving DecidableEq

/-- The `except` clauses around `apply_creator_attribution`. -/
def AttributionError.toRegistrationError : AttributionError → RegistrationError
  | codeFormatInvalid => .api 400 "INVITE_CODE_INVALID" "Invalid invite code"
  | codeNotFound => .api 400 "CREATOR_CODE_NOT_FOUND" "Creator code was not found"
  | campaignNotActive => .api 400 "CREATOR_CODE_UNAVAILABLE" "Creator code is not available"
  | creatorNotActive => .api 400 "CREATOR_CODE_UNAVAILABLE" "Creator code is not available"
  | campaignNotStarted => .api 400 "CREATOR_CODE_UNAVAILABLE" "Creator code is not available"
  | campaignEnded => .api 400 "CREATOR_CODE_UNAVAILABLE" "Creator code is not available"
  | alreadySet => .api 409 "CREATOR_ATTRIBUTION_ALREADY_SET" "Creator attribution is already set"
  | windowExpired => .api 400 "CREATOR_ATTRIBUTION_WINDOW_EXPIRED" "The creator attribution window has expired"
  | e => .other e

/-- `apply_registration_creator_attribution`. What `mark_verified` adds is the
column `verified_at`, which none of this reads. -/
def applyRegistrationCreatorAttribution (w : Catalog) (c : ApplyCall) (s : State) :
    Except RegistrationError (CreatorAttributionResult × State) := do
  let (result, attributions) ← (applyCreatorAttribution w c s.ledger.attributions).mapError
    AttributionError.toRegistrationError
  let (_, s') ← (grantCreatorPlusDaysReward w result 7 c.now { s with ledger := { s.ledger with attributions } }).mapError
    RegistrationError.other
  return (result, s')

/-! ### What a completed call did -/

theorem attributionOf_spec {t : AttributionTable} {userId : ℤ} {a : CreatorAttribution}
    (h : attributionOf t userId = some a) : a ∈ t ∧ a.userId = some userId :=
  ⟨Table.find?_mem h, by simpa using Table.find?_prop h⟩

theorem attributionOf_of_mem {t : AttributionTable} {userId : ℤ} {a : CreatorAttribution} (ha : a ∈ t)
    (hu : a.userId = some userId) : attributionOf t userId = some a := by
  apply Table.find?_of_mem (k := .inr userId)
  · intro b hb
    simp only [decide_eq_true_eq] at hb
    simp [CreatorAttribution.keys, hb]
  · exact ha
  · simp [hu]

theorem attributionOf_eq_none {t : AttributionTable} {userId : ℤ} :
    attributionOf t userId = none ↔ ∀ a ∈ t, a.userId ≠ some userId := by
  unfold attributionOf
  rw [Table.find?_eq_none]
  simp only [decide_eq_false_iff_not]

theorem nextAttributionId_fresh {t : AttributionTable} {a : CreatorAttribution} (h : a ∈ t) : a.id ≠ nextAttributionId t := by
  have hle := foldr_max_ge (t.rows.map (·.id)) a.id (List.mem_map_of_mem h)
  unfold nextAttributionId
  omega

theorem nextAttributionId_pos (t : AttributionTable) : 0 < nextAttributionId t := by
  have hle : ∀ l : List ℤ, 0 ≤ l.foldr max 0 := by
    intro l
    induction l with
    | nil => exact le_rfl
    | cons a l ih => exact ih.trans (le_max_right _ _)
  have h := hle (t.rows.map (·.id))
  unfold nextAttributionId
  omega

/-- A completed application of a code: the attribution was there, or it is new. -/
inductive Attributed (c : ApplyCall) (t : AttributionTable) : CreatorAttributionResult → AttributionTable → Prop where
  | existing {a} (found : attributionOf t c.userId = some a) : Attributed c t (attributionResult c.userId a false true) t
  | created {campaignId code u} (new : attributionOf t c.userId = none)
      (inserts : t.insert? (newAttribution (nextAttributionId t) campaignId c.userId code c.source c.now) = some u) :
      Attributed c t (attributionResult c.userId
        (newAttribution (nextAttributionId t) campaignId c.userId code c.source c.now) true false) u

theorem resolve_ok {userId campaignId : ℤ} {a : CreatorAttribution} {r : CreatorAttributionResult}
    (h : resolveExistingAttribution userId a campaignId = .ok r) : r = attributionResult userId a false true := by
  unfold resolveExistingAttribution at h
  split_ifs at h
  exact (Except.ok.inj h).symm

theorem attributed_of_ok {w : Catalog} {c : ApplyCall} {t u : AttributionTable} {r : CreatorAttributionResult}
    (h : applyCreatorAttribution w c t = .ok (r, u)) : Attributed c t r u := by
  unfold applyCreatorAttribution at h
  obtain ⟨code, -, h⟩ := bind_eq_ok.mp h
  split_ifs at h
  obtain ⟨⟨campaign, status⟩, -, h⟩ := bind_eq_ok.mp h
  dsimp only at h
  split at h
  · next a ha =>
    obtain ⟨x, hx, h⟩ := bind_eq_ok.mp h
    obtain ⟨rfl, rfl⟩ := Prod.mk.inj (Except.ok.inj h)
    rw [resolve_ok hx]
    exact Attributed.existing ha
  · next hnone =>
    obtain ⟨-, -, h⟩ := bind_eq_ok.mp h
    obtain ⟨-, -, h⟩ := bind_eq_ok.mp h
    unfold insertAttribution at h
    split at h
    · next v hv =>
      obtain ⟨rfl, rfl⟩ := Prod.mk.inj (Except.ok.inj h)
      exact Attributed.created hnone hv
    · rw [hnone] at h
      exact absurd h (by simp)

/-- A completed acquisition: the event was there, or it is new. -/
inductive Acquired (attributionId userId now : ℤ) (s : Ledger) : CreatorPromoRewardEventResult → Ledger → Prop where
  | again {e r} (found : eventByKey s.events .internalPromo (promoKey attributionId) = some e)
      (promo : e.isPromoOf attributionId = true) (created : r.created = false) :
      Acquired attributionId userId now s r
        ⟨s.attributions.update (CreatorAttribution.promoMoves attributionId userId e.occurredAt)
          (·.withPromo e.occurredAt) (withPromo_keys _), s.events⟩
  | new {events r} (inserts : s.events.insert (newPromoEvent (nextEventId s.events) attributionId now) = .ok events)
      (created : r.created = true) (occurredAt : r.occurredAt = now) :
      Acquired attributionId userId now s r
        ⟨s.attributions.update (CreatorAttribution.promoMoves attributionId userId now) (·.withPromo now)
          (withPromo_keys _), events⟩

theorem acquired_of_ok {attributionId userId now : ℤ} {s s' : Ledger} {r : CreatorPromoRewardEventResult}
    (h : acquireCreatorPromoRewardEvent attributionId userId now s = .ok (r, s')) :
    Acquired attributionId userId now s r s' := by
  unfold acquireCreatorPromoRewardEvent at h
  split_ifs at h
  split at h
  · exact absurd h (by simp)
  · split_ifs at h
    obtain ⟨⟨created, event, events⟩, hacquire, h⟩ := bind_eq_ok.mp h
    obtain ⟨rfl, rfl⟩ := Prod.mk.inj (Except.ok.inj h)
    unfold acquireEvent at hacquire
    split at hacquire
    · next t ht =>
      simp only [Except.ok.injEq, Prod.mk.injEq] at hacquire
      obtain ⟨rfl, rfl, rfl⟩ := hacquire
      exact Acquired.new ht rfl rfl
    · split at hacquire
      · exact absurd hacquire (by simp)
      · next e he =>
        split_ifs at hacquire with hpromo
        simp only [Except.ok.injEq, Prod.mk.injEq] at hacquire
        obtain ⟨rfl, rfl, rfl⟩ := hacquire
        exact Acquired.again he hpromo rfl
    · exact absurd hacquire (by simp)

/-- A completed grant: there was a reward for the event, or it is new. -/
inductive Granted (attributionId userId : ℤ) (days : ℕ) (now : ℤ) (s : State) : State → Prop where
  | again {r ledger} (acquired : Acquired attributionId userId now s.ledger r ledger) (found : r.created = false) :
      Granted attributionId userId days now s { s with ledger }
  | new {r ledger rewards subscriptions} (acquired : Acquired attributionId userId now s.ledger r ledger)
      (created : r.created = true)
      (inserts : s.rewards.insert? (promoReward s.rewards.nextId userId r.occurredAt days) = some rewards) :
      Granted attributionId userId days now s ⟨ledger, rewards, subscriptions⟩

theorem granted_of_ok {w : Catalog} {attribution : CreatorAttributionResult} {days : ℕ} {now : ℤ} {s s' : State}
    {out : Option ℤ} (h : grantCreatorPlusDaysReward w attribution days now s = .ok (out, s')) :
    Granted attribution.attributionId attribution.userId days now s s' := by
  unfold grantCreatorPlusDaysReward at h
  obtain ⟨⟨r, ledger⟩, hacquire, h⟩ := bind_eq_ok.mp h
  have hacquired := acquired_of_ok hacquire
  dsimp only at h
  split_ifs at h with hcreated
  · obtain ⟨rfl, rfl⟩ := Prod.mk.inj (Except.ok.inj h)
    exact Granted.again hacquired hcreated
  · split at h
    · exact absurd h (by simp)
    · next rewards hrewards =>
      split at h
      · exact absurd h (by simp)
      · split_ifs at h
        obtain ⟨rfl, rfl⟩ := Prod.mk.inj (Except.ok.inj h)
        exact Granted.new hacquired (by simpa using hcreated) hrewards

/-- A completed call is an application and a grant. -/
theorem applied_of_ok {w : Catalog} {c : ApplyCall} {s s' : State} {r : CreatorAttributionResult}
    (h : applyRegistrationCreatorAttribution w c s = .ok (r, s')) :
    ∃ t, Attributed c s.ledger.attributions r t ∧
      Granted r.attributionId r.userId 7 c.now { s with ledger := { s.ledger with attributions := t } } s' := by
  unfold applyRegistrationCreatorAttribution at h
  obtain ⟨⟨x, t⟩, happly, h⟩ := bind_eq_ok.mp h
  obtain ⟨⟨o, z⟩, hgrant, h⟩ := bind_eq_ok.mp h
  obtain ⟨rfl, rfl⟩ := Prod.mk.inj (Except.ok.inj h)
  exact ⟨t, attributed_of_ok (mapError_eq_ok.mp happly), granted_of_ok (mapError_eq_ok.mp hgrant)⟩

end Creator
end FuelNear

/-
# The workers of a run, statement by statement

`process_price_notifications_for_run` reads the enabled preferences with their
positions once, and then takes one user after the other: it selects the active
devices, looks for the best price at the position, compares it with the latest
notification, claims the record of the run, pushes to the devices, takes the
answers one by one and finalizes the record. Each of these is a transaction,
so between any two of them the requests of users and the statements of other
workers may come.

What a worker counts on the way is its summary.

Key definitions: `Subject`, `selectSubjects`, `Summary`, `Worker`, `System`,
`Action`, `step`, `Turn`, `Effect`, `Seen`.
Key theorems: `step_effect`, `step_seen`, `turn_borders`.
-/
import FuelNear.Alerts.Settings
import FuelNear.Dict

namespace FuelNear
namespace Alerts

open Sql Text Notifications
open Stations (HttpException)

/-! ### The preferences of a run -/

/-- A row of the SELECT over the preferences: `location_updated_at` comes from
the same place as the coordinates. -/
structure Subject where
  userId : ℤ
  fuelType : String
  radiusKm : ℚ
  favoritesOnly : Bool
  latitude : Option ℚ
  longitude : Option ℚ
  locationUpdatedAt : Option ℤ
  deriving DecidableEq

/-- The LEFT JOIN with `user_locations`, and the COALESCEs. -/
def subjectOf (t : LocationTable) (p : Preferences) : Subject :=
  let l := t.find? fun l => l.userId = p.userId
  { userId := p.userId
    fuelType := (p.fuelType.filter (· ≠ "")).getD "benzina"
    radiusKm := p.radiusKm.getD 3
    favoritesOnly := p.favoritesOnly
    latitude := (l.map (·.lat)).or p.latitude
    longitude := (l.map (·.lng)).or p.longitude
    locationUpdatedAt := (l.map (·.updatedAt)).or p.locationUpdatedAt }

/-- `WHERE p.price_notifications_enabled = TRUE ORDER BY p.user_id`. -/
def selectSubjects (s : AlertStore) : List Subject :=
  (orderBy (Scan.table Preferences) (·.userId) (s.preferences.rows.filter (·.priceNotificationsEnabled))).map
    (subjectOf s.locations)

/-- `WHERE user_id = … AND platform = 'ios' AND is_active = TRUE ORDER BY
last_seen_at DESC`. -/
def activeDevices (userId : ℤ) (t : TokenTable) : List DeviceToken :=
  orderBy (Scan.table DeviceToken) (fun k => OrderDual.toDual k.lastSeenAt)
    (t.rows.filter fun k => k.userId = userId && k.platform = "ios" && k.isActive)

/-! ### What is counted -/

structure Summary where
  usersConsidered : ℕ
  attemptedCount : ℕ
  sentCount : ℕ
  failedCount : ℕ
  temporaryFailedCount : ℕ
  permanentFailedCount : ℕ
  retriedCount : ℕ
  skippedCount : ℕ
  invalidTokensCount : ℕ
  skippedSamePrice : ℕ
  skippedWorsePrice : ℕ
  skippedBelowThreshold : ℕ
  skippedStaleLocation : ℕ
  skipReasons : Counter String

def Summary.start (usersConsidered : ℕ) : Summary :=
  ⟨usersConsidered, 0, 0, 0, 0, 0, 0, 0, 0, 0, 0, 0, 0, Dict.empty⟩

/-- `skip`. -/
def Summary.skip (reason : String) (m : Summary) : Summary :=
  { m with
    skippedCount := m.skippedCount + 1
    skipReasons := m.skipReasons.increment reason
    skippedSamePrice := m.skippedSamePrice + if reason = "skipped_same_price" then 1 else 0
    skippedWorsePrice := m.skippedWorsePrice + if reason = "skipped_worse_price" then 1 else 0
    skippedBelowThreshold := m.skippedBelowThreshold + if reason = "skipped_below_threshold" then 1 else 0
    skippedStaleLocation := m.skippedStaleLocation + if reason = "skipped_stale_location" then 1 else 0 }

/-- The counts of one answer of the push client. -/
def Summary.result (r : SendResult) (m : Summary) : Summary :=
  { m with
    attemptedCount := m.attemptedCount + 1
    retriedCount := m.retriedCount + (max 1 r.attempts - 1)
    invalidTokensCount := m.invalidTokensCount + if r.invalidToken then 1 else 0
    temporaryFailedCount := m.temporaryFailedCount + if !r.success && r.temporaryError then 1 else 0
    permanentFailedCount := m.permanentFailedCount + if !r.success && !r.temporaryError then 1 else 0 }

/-- An `APNsConfigurationError`. -/
def Summary.configurationError (m : Summary) : Summary :=
  { m with permanentFailedCount := m.permanentFailedCount + 1 }

/-- The count of the final status. -/
def Summary.finalized (status : NotificationStatus) (m : Summary) : Summary :=
  { m with
    sentCount := m.sentCount + if status = .sent then 1 else 0
    failedCount := m.failedCount + if status = .sent then 0 else 1 }

/-! ### The workers -/

/-- How far a worker has come with a user. -/
inductive Phase where
  | next
  | located (u : Subject) (devices : List DeviceToken)
  | priced (u : Subject) (devices : List DeviceToken) (best : BestPrice)
  | worth (u : Subject) (devices : List DeviceToken) (best : BestPrice)
  | claimed (u : Subject) (devices : List DeviceToken) (notificationId : ℤ)
  /-- the outcomes of the pushes, and the answers that are still to be taken -/
  | reporting (u : Subject) (notificationId : ℤ) (outcomes : List (Option SendResult)) (todo : List (ℤ × SendResult))

/-- The user whose turn it is. -/
def Phase.subject? : Phase → Option Subject
  | .next => none
  | .located u _ => some u
  | .priced u _ _ => some u
  | .worth u _ _ => some u
  | .claimed u _ _ => some u
  | .reporting u _ _ _ => some u

structure Worker where
  mimitRunId : ℤ
  apnsConfigured : Bool
  todo : List Subject
  phase : Phase
  summary : Summary

/-- A worker that has read the preferences. -/
def Worker.start (mimitRunId : ℤ) (apnsConfigured : Bool) (todo : List Subject) : Worker :=
  { mimitRunId, apnsConfigured, todo, phase := .next, summary := .start todo.length }

/-- The users that a worker has still to do with. -/
def Worker.subjects (k : Worker) : List Subject := k.phase.subject?.toList ++ k.todo

/-- The worker is done with the user whose turn it was. -/
def Worker.skip (k : Worker) (reason : String) : Worker :=
  { k with phase := .next, summary := k.summary.skip reason }

structure System (ι : Type*) where
  store : AlertStore
  workers : ι → Option Worker

inductive Action (ι : Type*) where
  | request (q : Request)
  /-- the first transaction of a run; `successful` is what the SELECT of the MIMIT run finds -/
  | start (w : ι) (successful apnsConfigured : Bool) (now : ℤ) (recovery : Recovery)
  /-- the devices of the next user, at the instant `now` of the check of the position -/
  | select (w : ι) (now : ℤ)
  /-- `find_best_price_for_notification` -/
  | search (w : ι) (best : Option BestPrice)
  /-- the latest notification -/
  | compare (w : ι)
  | claim (w : ι) (newId now : ℤ)
  /-- `send_price_notification_to_devices`: the answers as they complete, or an
  `APNsConfigurationError` -/
  | push (w : ι) (answers : Option (List (ℤ × SendResult)))
  /-- the next answer is taken -/
  | report (w : ι) (now : ℤ)
  | finalize (w : ι) (now : ℤ)
  | finish (w : ι)
  | leave (w : ι)

/-- Why a claim raises. -/
inductive ClaimError where
  /-- the account is deleted -/
  | foreignKey
  | record (e : RecordError)

/-- What the log keeps of a step. -/
inductive Event where
  | answered
  | started (usersConsidered : ℕ)
  | skipped (userId : ℤ) (reason : String)
  /-- the user, with the devices that are pushed to if the price is worth it -/
  | selected (u : Subject) (devices : List String)
  | searched (userId : ℤ)
  | compared (userId : ℤ)
  | claimed (userId notificationId : ℤ)
  /-- the devices that a push was started for -/
  | pushed (userId : ℤ) (devices : List String)
  /-- an answer, and the device that it ends -/
  | reported (userId : ℤ) (result : SendResult) (invalid : Option String)
  | finalized (userId : ℤ) (status : NotificationStatus)
  | finished (summary : Summary)
  | raised (e : ClaimError)
  | gone

/-- Why a step cannot be taken. -/
inductive Refusal where
  | http (e : HttpException)
  | busy
  | notSuccessful
  | notNow

/-- Why the user is passed over before the best price is looked up. -/
def passedOver (g : Settings) (apnsConfigured : Bool) (now : ℤ) (u : Subject) (devices : List DeviceToken) :
    Option String :=
  if devices = [] then some "skipped_no_active_device"
  else if u.favoritesOnly then some "skipped_favorites_unsupported"
  else if u.latitude.isNone || u.longitude.isNone then some "skipped_no_location"
  else if !isUserLocationFresh g u.locationUpdatedAt now then some "skipped_stale_location"
  else if !apnsConfigured then some "skipped_apns_not_configured"
  else none

/-- The arguments of the claim. -/
def Subject.claim (u : Subject) (mimitRunId : ℤ) (best : BestPrice) : PriceClaim where
  userId := u.userId
  mimitRunId := mimitRunId
  fuelType := u.fuelType
  stationId := best.stationId
  price := Numeric.roundTo 3 best.price
  distanceKm := Numeric.roundTo 2 best.distanceKm

/-- The tables after the clean-up and the recovery that a run starts with. -/
def cleanedUp (g : Settings) (now : ℤ) (recovery : Recovery) (s : AlertStore) : AlertStore :=
  { s with
    locations := cleanupExpiredUserLocations g now s.locations
    preferences := cleanupExpiredLegacyNotificationLocations g now none s.preferences
    records := (recoverStalePriceNotifications g.pushNotificationMaxAttempts recovery s.records).2 }

section Step

variable {ι : Type*} [DecidableEq ι]

def System.put (s : System ι) (w : ι) (k : Option Worker) : System ι :=
  { s with workers := Function.update s.workers w k }

/-- The worker `w` goes on as `k`, and the store is `t`. -/
def System.goes (s : System ι) (w : ι) (k : Worker) (t : AlertStore) : System ι :=
  { store := t, workers := Function.update s.workers w (some k) }

/-- The transactions of a worker. -/
def workerStep (g : Settings) (s : System ι) (w : ι) (k : Worker) : Action ι → Except Refusal (Event × System ι)
  | .select _ now =>
    match k.phase, k.todo with
    | .next, u :: rest =>
      let devices := activeDevices u.userId s.store.tokens
      match passedOver g k.apnsConfigured now u devices with
      | some reason => .ok (.skipped u.userId reason, s.goes w ({ k with todo := rest }.skip reason) s.store)
      | none =>
        .ok (.selected u (devices.map (·.deviceToken)),
          s.goes w { k with todo := rest, phase := .located u devices } s.store)
    | _, _ => .error .notNow
  | .search _ best =>
    match k.phase with
    | .located u devices =>
      match u.latitude, u.longitude, best with
      | some _, some _, none => .ok (.skipped u.userId "skipped_no_price", s.goes w (k.skip "skipped_no_price") s.store)
      | some _, some _, some b => .ok (.searched u.userId, s.goes w { k with phase := .priced u devices b } s.store)
      | _, _, _ => .error .notNow
    | _ => .error .notNow
  | .compare _ =>
    match k.phase with
    | .priced u devices best =>
      match (lastNotification u.userId u.fuelType s.store.records).bind fun r =>
          improvementSkip g.toAlertSettings r.price (u.claim k.mimitRunId best).price with
      | some reason => .ok (.skipped u.userId reason, s.goes w (k.skip reason) s.store)
      | none => .ok (.compared u.userId, s.goes w { k with phase := .worth u devices best } s.store)
    | _ => .error .notNow
  | .claim _ newId now =>
    match k.phase with
    | .worth u devices best =>
      if (s.store.users.find? (· = u.userId)).isNone then .ok (.raised .foreignKey, s.put w none)
      else match claimPriceNotificationRecord g.pushNotificationMaxAttempts (u.claim k.mimitRunId best) newId now
          s.store.records with
      | .error e => .ok (.raised (.record e), s.put w none)
      | .ok (none, records) =>
        .ok (.skipped u.userId "skipped_duplicate_run",
          s.goes w (k.skip "skipped_duplicate_run") { s.store with records })
      | .ok (some id, records) =>
        .ok (.claimed u.userId id, s.goes w { k with phase := .claimed u devices id } { s.store with records })
    | _ => .error .notNow
  | .push _ answers =>
    match k.phase with
    | .claimed u devices id =>
      match answers with
      | none =>
        .ok (.pushed u.userId (devices.map (·.deviceToken)), s.goes w
          { k with phase := .reporting u id [none] [], summary := k.summary.configurationError } s.store)
      | some results =>
        if (results.map Prod.fst).Perm (devices.map (·.id)) then
          .ok (.pushed u.userId (devices.map (·.deviceToken)), s.goes w
            { k with phase := .reporting u id (results.map fun x => some x.2) results } s.store)
        else .error .notNow
    | _ => .error .notNow
  | .report _ now =>
    match k.phase with
    | .reporting u id outcomes ((tokenId, r) :: rest) =>
      let invalid := if r.invalidToken then s.store.tokens.find? fun d => d.id = tokenId else none
      let tokens := if r.invalidToken then deactivateInvalidDeviceToken tokenId now s.store.tokens else s.store.tokens
      .ok (.reported u.userId r (invalid.map (·.deviceToken)),
        s.goes w { k with phase := .reporting u id outcomes rest, summary := k.summary.result r }
          { s.store with tokens })
    | _ => .error .notNow
  | .finalize _ now =>
    match k.phase with
    | .reporting u id outcomes [] =>
      let f := finalization outcomes
      .ok (.finalized u.userId f.finalStatus,
        s.goes w { k with phase := .next, summary := k.summary.finalized f.finalStatus }
          { s.store with
            records := finalizePriceNotificationRecord g.pushNotificationMaxAttempts id f now s.store.records })
    | _ => .error .notNow
  | .finish _ =>
    match k.phase, k.todo with
    | .next, [] => .ok (.finished k.summary, s.put w none)
    | _, _ => .error .notNow
  | _ => .error .notNow

/-- The worker that takes the step. -/
def Action.worker? : Action ι → Option ι
  | .request _ => none
  | .start w _ _ _ _ => some w
  | .select w _ => some w
  | .search w _ => some w
  | .compare w => some w
  | .claim w _ _ => some w
  | .push w _ => some w
  | .report w _ => some w
  | .finalize w _ => some w
  | .finish w => some w
  | .leave w => some w

/-- One step of the system. -/
def step (g : Settings) (a : Action ι) (s : System ι) : Except Refusal (Event × System ι) :=
  match a with
  | .request q =>
    match serve g q s.store with
    | .error e => .error (.http e)
    | .ok t => .ok (.answered, { s with store := t })
  | .start w successful apnsConfigured now recovery =>
    if (s.workers w).isSome then .error .busy
    else if successful then
      let t := cleanedUp g now recovery s.store
      let todo := selectSubjects t
      .ok (.started todo.length, s.goes w (.start recovery.mimitRunId apnsConfigured todo) t)
    else .error .notSuccessful
  | .leave w => .ok (.gone, s.put w none)
  | a =>
    match a.worker? with
    | none => .error .notNow
    | some w =>
      match s.workers w with
      | none => .error .notNow
      | some k => workerStep g s w k a

/-! ### What a step does -/

/-- The devices that were selected for the user whose turn it is, before the
push to them. -/
def Phase.devices? : Phase → Option (List DeviceToken)
  | .located _ devices => some devices
  | .priced _ devices _ => some devices
  | .worth _ devices _ => some devices
  | .claimed _ devices _ => some devices
  | _ => none

/-- The action begins or ends the turn of a user, or pushes. -/
def Action.moves : Action ι → Bool
  | .start _ _ _ _ _ => true
  | .select _ _ => true
  | .push _ _ => true
  | .finish _ => true
  | .leave _ => true
  | _ => false

/-- The events of a turn that goes on. -/
inductive Goes (userId : ℤ) : Event → Prop where
  | searched : Goes userId (.searched userId)
  | compared : Goes userId (.compared userId)
  | claimed {notificationId} : Goes userId (.claimed userId notificationId)

/-- What the transaction of a worker does, case by case: the worker after it,
and the store. -/
inductive Turn (g : Settings) (s : AlertStore) (k : Worker) :
    Action ι → Event → Option Worker → AlertStore → Prop where
  | pass {w now u rest reason} (phase : k.phase = .next) (todo : k.todo = u :: rest)
      (why : passedOver g k.apnsConfigured now u (activeDevices u.userId s.tokens) = some reason) :
      Turn g s k (.select w now) (.skipped u.userId reason) (some ({ k with todo := rest }.skip reason)) s
  | select {w now u rest} (phase : k.phase = .next) (todo : k.todo = u :: rest)
      (why : passedOver g k.apnsConfigured now u (activeDevices u.userId s.tokens) = none) :
      Turn g s k (.select w now) (.selected u ((activeDevices u.userId s.tokens).map (·.deviceToken)))
        (some { k with todo := rest, phase := .located u (activeDevices u.userId s.tokens) }) s
  | skip {a u reason} (devices records) (subject : k.phase.subject? = some u) (held : k.phase.devices? = some devices)
      (turn : a.moves = false) :
      Turn g s k a (.skipped u.userId reason) (some (k.skip reason)) { s with records }
  | go {a u phase e} (devices records) (subject : k.phase.subject? = some u) (held : k.phase.devices? = some devices)
      (turn : a.moves = false) (goes : Goes u.userId e) (subject' : phase.subject? = some u)
      (held' : phase.devices? = some devices) : Turn g s k a e (some { k with phase := phase }) { s with records }
  | raise {w newId now e} : Turn g s k (.claim w newId now) (.raised e) none s
  | push {w answers u devices notificationId} (phase : k.phase = .claimed u devices notificationId)
      (todo : ∀ results, answers = some results → (results.map Prod.fst).Perm (devices.map (·.id))) :
      Turn g s k (.push w answers) (.pushed u.userId (devices.map (·.deviceToken)))
        (some { k with
          phase := .reporting u notificationId ((answers.map fun l => l.map fun x => some x.2).getD [none])
            (answers.getD [])
          summary := if answers.isSome then k.summary else k.summary.configurationError }) s
  | report {w now u notificationId outcomes tokenId r rest}
      (phase : k.phase = .reporting u notificationId outcomes ((tokenId, r) :: rest)) :
      Turn g s k (.report w now)
        (.reported u.userId r
          (if r.invalidToken then (s.tokens.find? fun d => d.id = tokenId).map (·.deviceToken) else none))
        (some { k with phase := .reporting u notificationId outcomes rest, summary := k.summary.result r })
        { s with tokens := if r.invalidToken then deactivateInvalidDeviceToken tokenId now s.tokens else s.tokens }
  | finalize {w now u notificationId outcomes records} (phase : k.phase = .reporting u notificationId outcomes []) :
      Turn g s k (.finalize w now) (.finalized u.userId (finalization outcomes).finalStatus)
        (some { k with phase := .next, summary := k.summary.finalized (finalization outcomes).finalStatus })
        { s with records }
  | finish {w} (phase : k.phase = .next) (todo : k.todo = []) : Turn g s k (.finish w) (.finished k.summary) none s


/-- What a step does: a request, the start of a worker, a transaction of one,
or its end. -/
inductive Effect (g : Settings) (s : System ι) : Action ι → Event → System ι → Prop where
  | request {q t} (served : serve g q s.store = .ok t) : Effect g s (.request q) .answered { s with store := t }
  | start {w configured now recovery} (idle : s.workers w = none) :
      Effect g s (.start w true configured now recovery)
        (.started (selectSubjects (cleanedUp g now recovery s.store)).length)
        (s.goes w (.start recovery.mimitRunId configured (selectSubjects (cleanedUp g now recovery s.store)))
          (cleanedUp g now recovery s.store))
  | turn {w k a e k' t} (takes : a.worker? = some w) (works : s.workers w = some k) (turn : Turn g s.store k a e k' t) :
      Effect g s a e ⟨t, Function.update s.workers w k'⟩
  | leave {w} : Effect g s (.leave w) .gone (s.put w none)

/-- A step as the worker `w` sees it: of others, or its start, a transaction of
its own, or its end. -/
inductive Seen (g : Settings) (s : System ι) (w : ι) : Action ι → Event → System ι → Prop where
  | other {a e s'} (takes : a.worker? ≠ some w) (same : s'.workers w = s.workers w) : Seen g s w a e s'
  | start {configured now recovery e s'}
      (after : s'.workers w =
        some (.start recovery.mimitRunId configured (selectSubjects (cleanedUp g now recovery s.store)))) :
      Seen g s w (.start w true configured now recovery) e s'
  | turn {a e k s'} (takes : a.worker? = some w) (works : s.workers w = some k)
      (turn : Turn g s.store k a e (s'.workers w) s'.store) : Seen g s w a e s'
  | leave {e s'} (after : s'.workers w = none) : Seen g s w (.leave w) e s'

variable {g : Settings} {s s' : System ι} {w : ι} {k : Worker} {a : Action ι} {e : Event}

theorem workerStep_turn (h : workerStep g s w k a = .ok (e, s')) :
    ∃ k' t, Turn g s.store k a e k' t ∧ s' = ⟨t, Function.update s.workers w k'⟩ := by
  cases a with
  | select _ now =>
    simp only [workerStep] at h
    split at h
    · next u rest hphase htodo =>
      split at h
      · next reason hwhy =>
        obtain ⟨rfl, rfl⟩ := Prod.mk.inj (Except.ok.inj h)
        exact ⟨_, _, Turn.pass hphase htodo hwhy, rfl⟩
      · next hwhy =>
        obtain ⟨rfl, rfl⟩ := Prod.mk.inj (Except.ok.inj h)
        exact ⟨_, _, Turn.select hphase htodo hwhy, rfl⟩
    · exact absurd h (by simp)
  | search _ best =>
    simp only [workerStep] at h
    split at h
    · next u devices hphase =>
      split at h
      · obtain ⟨rfl, rfl⟩ := Prod.mk.inj (Except.ok.inj h)
        exact ⟨_, _, Turn.skip devices s.store.records (by rw [hphase]; rfl) (by rw [hphase]; rfl) rfl, rfl⟩
      · obtain ⟨rfl, rfl⟩ := Prod.mk.inj (Except.ok.inj h)
        exact ⟨_, _, Turn.go devices s.store.records (by rw [hphase]; rfl) (by rw [hphase]; rfl) rfl Goes.searched
          rfl rfl, rfl⟩
      · exact absurd h (by simp)
    · exact absurd h (by simp)
  | compare _ =>
    simp only [workerStep] at h
    split at h
    · next u devices best hphase =>
      split at h
      · obtain ⟨rfl, rfl⟩ := Prod.mk.inj (Except.ok.inj h)
        exact ⟨_, _, Turn.skip devices s.store.records (by rw [hphase]; rfl) (by rw [hphase]; rfl) rfl, rfl⟩
      · obtain ⟨rfl, rfl⟩ := Prod.mk.inj (Except.ok.inj h)
        exact ⟨_, _, Turn.go devices s.store.records (by rw [hphase]; rfl) (by rw [hphase]; rfl) rfl Goes.compared
          rfl rfl, rfl⟩
    · exact absurd h (by simp)
  | claim _ newId now =>
    simp only [workerStep] at h
    split at h
    · next u devices best hphase =>
      split_ifs at h with hgone
      · obtain ⟨rfl, rfl⟩ := Prod.mk.inj (Except.ok.inj h)
        exact ⟨_, _, Turn.raise, rfl⟩
      · split at h
        · obtain ⟨rfl, rfl⟩ := Prod.mk.inj (Except.ok.inj h)
          exact ⟨_, _, Turn.raise, rfl⟩
        · next records hclaim =>
          obtain ⟨rfl, rfl⟩ := Prod.mk.inj (Except.ok.inj h)
          exact ⟨_, _, Turn.skip devices records (by rw [hphase]; rfl) (by rw [hphase]; rfl) rfl, rfl⟩
        · next id records hclaim =>
          obtain ⟨rfl, rfl⟩ := Prod.mk.inj (Except.ok.inj h)
          exact ⟨_, _, Turn.go devices records (by rw [hphase]; rfl) (by rw [hphase]; rfl) rfl Goes.claimed rfl rfl,
            rfl⟩
    · exact absurd h (by simp)
  | push _ answers =>
    simp only [workerStep] at h
    split at h
    · next u devices id hphase =>
      cases answers with
      | none =>
        obtain ⟨rfl, rfl⟩ := Prod.mk.inj (Except.ok.inj h)
        exact ⟨_, _, Turn.push hphase (by simp), rfl⟩
      | some results =>
        dsimp only at h
        split_ifs at h with hperm
        obtain ⟨rfl, rfl⟩ := Prod.mk.inj (Except.ok.inj h)
        exact ⟨_, _, Turn.push hphase (by simpa using hperm), rfl⟩
    · exact absurd h (by simp)
  | report _ now =>
    simp only [workerStep] at h
    split at h
    · next u id outcomes tokenId r rest hphase =>
      obtain ⟨rfl, rfl⟩ := Prod.mk.inj (Except.ok.inj h)
      refine ⟨_, _, ?_, rfl⟩
      convert Turn.report hphase using 1
      split_ifs <;> rfl
    · exact absurd h (by simp)
  | finalize _ now =>
    simp only [workerStep] at h
    split at h
    · next u id outcomes hphase =>
      obtain ⟨rfl, rfl⟩ := Prod.mk.inj (Except.ok.inj h)
      exact ⟨_, _, Turn.finalize hphase, rfl⟩
    · exact absurd h (by simp)
  | finish _ =>
    simp only [workerStep] at h
    split at h
    · next hphase htodo =>
      obtain ⟨rfl, rfl⟩ := Prod.mk.inj (Except.ok.inj h)
      exact ⟨_, _, Turn.finish hphase htodo, rfl⟩
    · exact absurd h (by simp)
  | request _ => exact absurd h (by simp [workerStep])
  | start _ _ _ _ _ => exact absurd h (by simp [workerStep])
  | leave _ => exact absurd h (by simp [workerStep])

theorem step_effect (h : step g a s = .ok (e, s')) : Effect g s a e s' := by
  have hturn : ∀ v k, a.worker? = some v → s.workers v = some k → workerStep g s v k a = .ok (e, s') →
      Effect g s a e s' := by
    intro v k hv hk hstep
    obtain ⟨k', t, hturn, rfl⟩ := workerStep_turn hstep
    exact Effect.turn hv hk hturn
  cases a with
  | request q =>
    simp only [step] at h
    split at h
    · exact absurd h (by simp)
    · next t ht =>
      obtain ⟨rfl, rfl⟩ := Prod.mk.inj (Except.ok.inj h)
      exact Effect.request ht
  | start v successful configured now recovery =>
    simp only [step] at h
    split_ifs at h with hbusy hsuccess
    obtain ⟨rfl, rfl⟩ := Prod.mk.inj (Except.ok.inj h)
    subst hsuccess
    exact Effect.start (by simpa using hbusy)
  | leave v =>
    obtain ⟨rfl, rfl⟩ := Prod.mk.inj (Except.ok.inj h)
    exact Effect.leave
  | select v _ | search v _ | compare v | claim v _ _ | push v _ | report v _ | finalize v _ | finish v =>
    simp only [step, Action.worker?] at h
    split at h
    · exact absurd h (by simp)
    · next k hk => exact hturn v k rfl hk h

theorem step_seen (h : step g a s = .ok (e, s')) (w : ι) : Seen g s w a e s' := by
  cases step_effect h with
  | request served => exact Seen.other (by simp [Action.worker?]) rfl
  | @start v configured now recovery idle =>
    by_cases hv : w = v
    · subst hv
      exact Seen.start (by simp [System.goes])
    · exact Seen.other (by simpa [Action.worker?] using Ne.symm hv) (by simp [System.goes, hv])
  | @turn v k a e k' t takes works turn =>
    by_cases hv : w = v
    · subst hv
      exact Seen.turn takes works (by simpa using turn)
    · exact Seen.other (by simpa [takes] using Ne.symm hv) (by simp [hv])
  | @leave v =>
    by_cases hv : w = v
    · subst hv
      exact Seen.leave (by simp [System.put])
    · exact Seen.other (by simpa [Action.worker?] using Ne.symm hv) (by simp [System.put, hv])

/-! ### When a worker starts and ends -/

/-- The entry is the start of `w`. -/
def starts (w : ι) (c : Action ι × Event) : Prop :=
  ∃ successful configured now recovery, c.1 = .start w successful configured now recovery

/-- The entry begins the work of `w`, or ends it. -/
def borders (w : ι) (c : Action ι × Event) : Prop :=
  match c.1 with
  | .start v _ _ _ _ => v = w
  | .finish v => v = w
  | .leave v => v = w
  | _ => False

omit [DecidableEq ι] in
theorem worker?_of_borders (h : borders w (a, e)) : a.worker? = some w := by
  cases a <;> first | exact h.elim | exact congrArg some h

omit [DecidableEq ι] in
/-- A transaction after which there is a worker neither starts nor ends it. -/
theorem turn_borders {t : AlertStore} {r : AlertStore} {k' : Worker} (h : Turn g r k a e (some k') t) :
    ¬ borders w (a, e) := by
  have hmoves : a.moves = false → ¬ borders w (a, e) := by
    intro hmoves
    cases a <;> first | exact id | exact absurd hmoves (by simp [Action.moves])
  cases h with
  | skip devices records subject held turn => exact hmoves turn
  | go devices records subject held turn => exact hmoves turn
  | pass | select | push | report | finalize => exact id

end Step

/-! ### A run -/

def sampleAlertSettings : Settings :=
  { toAlertSettings := sampleSettings, userLocationMaxAgeHours := 24, userLocationRetentionDays := 30 }

def noAlerts {ι : Type*} : System ι := ⟨⟨.empty, .empty, .empty, .empty, .empty⟩, fun _ => none⟩

/-- One user registers, posts a position and a device, and is alerted. -/
def sampleAlerts : List (Action Unit) :=
  [.request (.register 1), .request (.putLocation 1 10 ⟨.finite 45, .finite 9, none, none⟩),
    .request (.getPreferences 1 10), .request (.postToken 1 7 10 ⟨"a1", "ios", none, none, none⟩),
    .start () true true 20 ⟨5, 20, 900, fun _ => false⟩, .select () 30, .search () (some ⟨9, 1789 / 1000, 3 / 2⟩),
    .compare (), .claim () 1 30, .push () (some [(7, delivered)]), .report () 30, .finalize () 30, .finish ()]

def sampleAlertRun : List (Action Unit × Event) × System Unit :=
  execute (step sampleAlertSettings) noAlerts sampleAlerts

theorem run_sampleAlerts : Run (step sampleAlertSettings) noAlerts sampleAlertRun.1 sampleAlertRun.2 :=
  run_execute (step sampleAlertSettings) sampleAlerts noAlerts

/-- The user that was selected, with the devices. -/
def selection {ι : Type*} : Action ι × Event → Option (ℤ × List String)
  | (.select _ _, .selected u devices) => some (u.userId, devices)
  | _ => none

theorem selection_eq_some {ι : Type*} {c : Action ι × Event} {userId : ℤ} {devices : List String}
    (h : selection c = some (userId, devices)) :
    ∃ w now u, c = (.select w now, .selected u devices) ∧ u.userId = userId := by
  unfold selection at h
  split at h
  · next w now u d =>
    obtain ⟨rfl, rfl⟩ : u.userId = userId ∧ d = devices := by simpa using h
    exact ⟨w, now, u, rfl, rfl⟩
  · exact absurd h (by simp)

end Alerts
end FuelNear

/-
# What the alerts of a user depend on

Where a user is, what the user wants to hear of and which devices are the
user's: the tables `user_locations`, `price_notification_preferences` and
`user_device_tokens`, and the requests that write them. A position is kept in
one of two places: in a row of `user_locations`, or, as older apps send it, in
the preferences. Both are cleared by `DELETE /user/location`, and both are
dropped when they are older than the retention.

Key definitions: `AlertStore`, `upsertCurrentUserLocation`,
`deleteCurrentUserLocation`, `updateCurrentUserNotificationPreferences`,
`upsertCurrentUserDeviceToken`, `deactivateTestPushToken`, `serve`, `Served`.
Key theorems: `mem_upsert`, `served`.
-/
import FuelNear.Notifications.Improving
import FuelNear.Stations.Best

namespace FuelNear
namespace Alerts

open Sql Text Notifications
open Mimit (Number)
open Stations (HttpException normalizeNotificationFuelType)

/-! ### The tables -/

/-- A row of `user_locations`. -/
structure UserLocation where
  userId : ℤ
  lat : ℚ
  lng : ℚ
  accuracy : Option ℚ
  source : Option String
  createdAt : ℤ
  updatedAt : ℤ
  deriving DecidableEq

/-- `UNIQUE (user_id)`. -/
def UserLocation.keys (l : UserLocation) : List ℤ := [l.userId]

/-- A row of `price_notification_preferences`. -/
structure Preferences where
  userId : ℤ
  priceNotificationsEnabled : Bool
  fuelType : Option String
  radiusKm : Option ℚ
  favoritesOnly : Bool
  latitude : Option ℚ
  longitude : Option ℚ
  locationUpdatedAt : Option ℤ
  createdAt : ℤ
  updatedAt : ℤ
  deriving DecidableEq

/-- `UNIQUE (user_id)`. -/
def Preferences.keys (p : Preferences) : List ℤ := [p.userId]

/-- A row of `user_device_tokens`. -/
structure DeviceToken where
  id : ℤ
  userId : ℤ
  deviceToken : String
  platform : String
  environment : String
  appVersion : Option String
  deviceInfo : Option String
  isActive : Bool
  createdAt : ℤ
  updatedAt : ℤ
  lastSeenAt : ℤ
  deriving DecidableEq

/-- The primary key, and `device_token TEXT NOT NULL UNIQUE`. -/
def DeviceToken.keys (k : DeviceToken) : List (ℤ ⊕ String) := [.inl k.id, .inr k.deviceToken]

abbrev LocationTable := Table UserLocation UserLocation.keys

abbrev PreferencesTable := Table Preferences Preferences.keys

abbrev TokenTable := Table DeviceToken DeviceToken.keys

/-- The ids of the users, and the tables that refer to them. -/
structure AlertStore where
  users : Table ℤ fun u => [u]
  locations : LocationTable
  preferences : PreferencesTable
  tokens : TokenTable
  records : RecordTable

/-- The constants of the module. -/
structure Settings extends AlertSettings where
  userLocationMaxAgeHours : ℕ
  userLocationRetentionDays : ℕ

def Settings.maxAge (g : Settings) : ℤ := microsecondsOf (g.userLocationMaxAgeHours * 3600)

def Settings.retention (g : Settings) : ℤ := microsecondsOf (g.userLocationRetentionDays * 86400)

/-- `is_user_location_fresh`. -/
def isUserLocationFresh (g : Settings) (updatedAt : Option ℤ) (now : ℤ) : Bool :=
  updatedAt.any fun t => now - g.maxAge ≤ t

/-- `INSERT … ON CONFLICT DO UPDATE`: a row that meets the conflict is written
over, and without one there is a new row. -/
theorem mem_upsert {ρ κ : Type*} [DecidableEq κ] {keys : ρ → List κ} {t t' : Table ρ keys} {p : ρ → Bool} {f : ρ → ρ}
    {kept : ∀ r, (keys (f r)).Sublist (keys r)} {new r : ρ}
    (h : (if (t.find? p).isSome then some (t.update p f kept) else t.insert? new) = some t') (hr : r ∈ t') :
    (∃ x, p x = true ∧ r = f x) ∨ (r ∈ t ∧ p r = false) ∨ r = new := by
  split_ifs at h with hfound
  · rw [← Option.some.inj h] at hr
    obtain ⟨x, hx, hxr⟩ := Table.mem_update.mp hr
    by_cases hp : p x = true
    · rw [if_pos hp] at hxr
      exact Or.inl ⟨x, hp, hxr.symm⟩
    · rw [if_neg hp] at hxr
      subst hxr
      exact Or.inr (Or.inl ⟨hx, by simpa using hp⟩)
  · have hnone : t.find? p = none := by simpa using hfound
    rcases (Table.mem_insert h).mp hr with hr | rfl
    · exact Or.inr (Or.inl ⟨hr, Table.find?_eq_none.mp hnone r hr⟩)
    · exact Or.inr (Or.inr rfl)

/-! ### Positions -/

/-- `lat`, `lng` and `accuracy` of a row that is written over. -/
def UserLocation.moved (l new : UserLocation) : UserLocation :=
  { l with lat := new.lat, lng := new.lng, accuracy := new.accuracy, source := new.source, updatedAt := new.updatedAt }

theorem moved_keys (new l : UserLocation) : (l.moved new).keys.Sublist l.keys := List.Sublist.refl _

/-- The preferences hold something of a position. -/
def Preferences.located (p : Preferences) : Bool :=
  p.latitude.isSome || p.longitude.isSome || p.locationUpdatedAt.isSome

def Preferences.unlocated (p : Preferences) : Preferences :=
  { p with latitude := none, longitude := none, locationUpdatedAt := none }

theorem unlocated_keys (p : Preferences) : p.unlocated.keys.Sublist p.keys := List.Sublist.refl _

/-- `clear_legacy_notification_location`. -/
def clearLegacyNotificationLocation (userId : ℤ) (t : PreferencesTable) : PreferencesTable :=
  t.update (fun p => p.userId = userId && p.located) Preferences.unlocated unlocated_keys

/-- `cleanup_expired_user_locations`, at the instant `now`. -/
def cleanupExpiredUserLocations (g : Settings) (now : ℤ) (t : LocationTable) : LocationTable :=
  t.delete fun l => l.updatedAt < now - g.retention

/-- The position of the preferences is too old, or of no known age. -/
def Preferences.expired (g : Settings) (now : ℤ) (p : Preferences) : Bool :=
  p.located && p.locationUpdatedAt.all (· < now - g.retention)

/-- `cleanup_expired_legacy_notification_locations`, of one user or of all. -/
def cleanupExpiredLegacyNotificationLocations (g : Settings) (now : ℤ) (userId : Option ℤ) (t : PreferencesTable) :
    PreferencesTable :=
  t.update (fun p => p.expired g now && userId.all (p.userId = ·)) Preferences.unlocated unlocated_keys

/-! ### `/user/location` -/

structure UserLocationRequest where
  lat : Number
  lng : Number
  accuracy : Option Number
  source : Option String

/-- A finite coordinate between the bounds. -/
def coordinate? (bound : ℚ) : Number → Option ℚ
  | .finite q => if -bound ≤ q ∧ q ≤ bound then some q else none
  | _ => none

def checkCoordinate (bound : ℚ) (detail : String) (x : Number) : Except HttpException ℚ :=
  match coordinate? bound x with
  | some q => .ok q
  | none => .error ⟨400, detail⟩

def checkAccuracy : Option Number → Except HttpException (Option ℚ)
  | none => .ok none
  | some (.finite q) => if 0 < q then .ok (some q) else .error ⟨400, "Invalid location accuracy"⟩
  | some _ => .error ⟨400, "Invalid location accuracy"⟩

def checkSource (source : Option String) : Except HttpException (Option String) :=
  let normalized := source.bind strip?
  if normalized.any fun s => 100 < s.toList.length then .error ⟨400, "Invalid location source"⟩ else .ok normalized

/-- `INSERT … ON CONFLICT (user_id) DO UPDATE` of a position. -/
def upsertLocation (l : UserLocation) (t : LocationTable) : Option LocationTable :=
  if (t.find? fun x => x.userId = l.userId).isSome then
    some (t.update (fun x => x.userId = l.userId) (UserLocation.moved · l) (moved_keys l))
  else t.insert? l

/-- `upsert_current_user_location`. -/
def upsertCurrentUserLocation (userId now : ℤ) (payload : UserLocationRequest) (s : AlertStore) :
    Except HttpException AlertStore := do
  let lat ← checkCoordinate 90 "Invalid latitude" payload.lat
  let lng ← checkCoordinate 180 "Invalid longitude" payload.lng
  let accuracy ← checkAccuracy payload.accuracy
  let source ← checkSource payload.source
  -- a user that is gone by now violates the foreign key
  if (s.users.find? (· = userId)).isNone then .error ⟨500, "Location update failed"⟩
  else
    match upsertLocation ⟨userId, lat, lng, accuracy, source, now, now⟩ s.locations with
    | none => .error ⟨500, "Location update failed"⟩
    | some locations =>
      return { s with locations, preferences := clearLegacyNotificationLocation userId s.preferences }

/-- `get_current_user_location`: the position that is shown, and whether one is
too old to be. -/
def getCurrentUserLocation (g : Settings) (userId now : ℤ) (s : AlertStore) : Option UserLocation × Bool :=
  let location := s.locations.find? fun l => l.userId = userId
  let stale := location.any fun l => !isUserLocationFresh g (some l.updatedAt) now
  if stale then (none, true) else (location, false)

/-- `delete_current_user_location`, with `location_deleted`. -/
def deleteCurrentUserLocation (userId : ℤ) (s : AlertStore) : Bool × AlertStore :=
  let deleted := s.locations.rows.any fun l => l.userId = userId
  let legacyDeleted := s.preferences.rows.any fun p => p.userId = userId && p.located
  (deleted || legacyDeleted,
    { s with
      locations := s.locations.delete fun l => l.userId = userId
      preferences := clearLegacyNotificationLocation userId s.preferences })

/-! ### `/user/notification-preferences` -/

/-- A field of the request: not sent, null, or a value. -/
abbrev Field (α : Type) := Option (Option α)

structure NotificationPreferencesRequest where
  priceNotificationsEnabled : Field Bool
  fuelType : Field String
  radiusKm : Field Number
  favoritesOnly : Field Bool
  latitude : Field Number
  longitude : Field Number

/-- A position, and when it was sent. -/
structure Position where
  latitude : ℚ
  longitude : ℚ
  updatedAt : ℤ
  deriving DecidableEq

/-- `updates`: for each column, what is written, if anything. -/
structure Updates where
  priceNotificationsEnabled : Option Bool
  fuelType : Field String
  radiusKm : Field ℚ
  favoritesOnly : Option Bool
  position : Field Position
  deriving DecidableEq

/-- A flag that was sent may not be null. -/
def checkFlag (detail : String) : Field Bool → Except HttpException (Option Bool)
  | none => .ok none
  | some none => .error ⟨400, detail⟩
  | some (some b) => .ok (some b)

def checkFuelType : Field String → Except HttpException (Field String)
  | none => .ok none
  | some value => (normalizeNotificationFuelType value).map some

/-- `normalize_notification_radius_km`. -/
def normalizeNotificationRadiusKm : Option Number → Except HttpException (Option ℚ)
  | none => .ok none
  | some (.finite q) => if q ≤ 0 ∨ 100 < q then .error ⟨400, "Invalid radius_km"⟩ else .ok (some q)
  | some _ => .error ⟨400, "Invalid radius_km"⟩

def checkRadiusKm : Field Number → Except HttpException (Field ℚ)
  | none => .ok none
  | some value => (normalizeNotificationRadiusKm value).map some

/-- The coordinates come together; `clock` is `datetime.now`. -/
def checkPosition (clock : ℤ) : Field Number → Field Number → Except HttpException (Field Position)
  | none, none => .ok none
  | none, some _ => .error ⟨400, "Latitude and longitude must be provided together"⟩
  | some _, none => .error ⟨400, "Latitude and longitude must be provided together"⟩
  | some none, some none => .ok (some none)
  | some none, some (some _) => .error ⟨400, "Invalid notification location"⟩
  | some (some _), some none => .error ⟨400, "Invalid notification location"⟩
  | some (some latitude), some (some longitude) =>
    match coordinate? 90 latitude, coordinate? 180 longitude with
    | some lat, some lng => .ok (some (some ⟨lat, lng, clock⟩))
    | _, _ => .error ⟨400, "Invalid notification location"⟩

def checkUpdates (clock : ℤ) (payload : NotificationPreferencesRequest) : Except HttpException Updates := do
  let priceNotificationsEnabled ← checkFlag "Invalid price_notifications_enabled" payload.priceNotificationsEnabled
  let fuelType ← checkFuelType payload.fuelType
  let radiusKm ← checkRadiusKm payload.radiusKm
  let favoritesOnly ← checkFlag "Invalid favorites_only" payload.favoritesOnly
  let position ← checkPosition clock payload.latitude payload.longitude
  return { priceNotificationsEnabled, fuelType, radiusKm, favoritesOnly, position }

/-- The SET of the UPDATE. -/
def Preferences.updated (u : Updates) (now : ℤ) (p : Preferences) : Preferences :=
  { p with
    priceNotificationsEnabled := u.priceNotificationsEnabled.getD p.priceNotificationsEnabled
    fuelType := u.fuelType.getD p.fuelType
    radiusKm := u.radiusKm.getD p.radiusKm
    favoritesOnly := u.favoritesOnly.getD p.favoritesOnly
    latitude := (u.position.map fun x => x.map (·.latitude)).getD p.latitude
    longitude := (u.position.map fun x => x.map (·.longitude)).getD p.longitude
    locationUpdatedAt := (u.position.map fun x => x.map (·.updatedAt)).getD p.locationUpdatedAt
    updatedAt := now }

theorem updated_keys (u : Updates) (now : ℤ) (p : Preferences) : (p.updated u now).keys.Sublist p.keys :=
  List.Sublist.refl _

def noUpdates : Updates := ⟨none, none, none, none, none⟩

/-- The defaults of a user without preferences. -/
def defaultPreferences (userId now : ℤ) : Preferences := ⟨userId, true, none, none, false, none, none, none, now, now⟩

/-- `INSERT … ON CONFLICT (user_id)`, which keeps the row that is there. -/
def ensurePreferences (userId now : ℤ) (t : PreferencesTable) : Option PreferencesTable :=
  if (t.find? fun p => p.userId = userId).isSome then some t else t.insert? (defaultPreferences userId now)

/-- `if updates:`, the UPDATE of the user's row. -/
def applyUpdates (userId now : ℤ) (updates : Updates) (t : PreferencesTable) : PreferencesTable :=
  if updates = noUpdates then t
  else t.update (·.userId = userId) (·.updated updates now) (updated_keys updates now)

theorem mem_applyUpdates {userId now : ℤ} {updates : Updates} {t : PreferencesTable} {p : Preferences}
    (h : p ∈ applyUpdates userId now updates t) :
    p ∈ t ∨ ∃ r ∈ t, r.userId = userId ∧ p = r.updated updates now := by
  unfold applyUpdates at h
  split_ifs at h
  · exact Or.inl h
  · obtain ⟨r, hr, hrp⟩ := Table.mem_update.mp h
    by_cases hcond : r.userId = userId
    · rw [if_pos (by simpa using hcond)] at hrp
      exact Or.inr ⟨r, hr, hcond, hrp.symm⟩
    · rw [if_neg (by simpa using hcond)] at hrp
      exact Or.inl (hrp ▸ hr)

/-- `get_current_user_notification_preferences`. -/
def getCurrentUserNotificationPreferences (g : Settings) (userId now : ℤ) (s : AlertStore) :
    Except HttpException AlertStore :=
  let cleaned := cleanupExpiredLegacyNotificationLocations g now (some userId) s.preferences
  if (s.users.find? (· = userId)).isNone then .error ⟨500, "Notification preferences get failed"⟩
  else
    match ensurePreferences userId now cleaned with
    | none => .error ⟨500, "Notification preferences get failed"⟩
    | some preferences => .ok { s with preferences }

/-- `update_current_user_notification_preferences`. -/
def updateCurrentUserNotificationPreferences (g : Settings) (userId clock now : ℤ)
    (payload : NotificationPreferencesRequest) (s : AlertStore) : Except HttpException AlertStore := do
  let updates ← checkUpdates clock payload
  let cleaned := cleanupExpiredLegacyNotificationLocations g now (some userId) s.preferences
  if (s.users.find? (· = userId)).isNone then .error ⟨500, "Notification preferences update failed"⟩
  else
    match ensurePreferences userId now cleaned with
    | none => .error ⟨500, "Notification preferences update failed"⟩
    | some preferences => return { s with preferences := applyUpdates userId now updates preferences }

/-! ### `/user/device-token` -/

structure DeviceTokenRequest where
  deviceToken : String
  platform : String
  environment : Option String
  appVersion : Option String
  deviceInfo : Option String

/-- `normalize_device_token`. -/
def normalizeDeviceToken (value : String) : Except HttpException String :=
  if strip value = "" then .error ⟨400, "Device token is required"⟩ else .ok (strip value)

/-- `normalize_device_platform`. -/
def normalizeDevicePlatform (value : String) : Except HttpException String :=
  if lower (strip value) = "ios" then .ok "ios" else .error ⟨400, "Unsupported device platform"⟩

/-- `normalize_device_environment`. -/
def normalizeDeviceEnvironment (value : Option String) : Except HttpException String :=
  let environment := match value.filter (· ≠ "") with
    | some v => lower (strip v)
    | none => "production"
  if environment = "sandbox" ∨ environment = "production" then .ok environment
  else .error ⟨400, "Unsupported device environment"⟩

/-- The SET of `ON CONFLICT (device_token) DO UPDATE`. -/
def DeviceToken.registered (k new : DeviceToken) : DeviceToken :=
  { k with
    userId := new.userId
    platform := new.platform
    environment := new.environment
    appVersion := new.appVersion
    deviceInfo := new.deviceInfo
    isActive := true
    updatedAt := new.updatedAt
    lastSeenAt := new.lastSeenAt }

theorem registered_keys (new k : DeviceToken) : (k.registered new).keys.Sublist k.keys := List.Sublist.refl _

def upsertToken (new : DeviceToken) (t : TokenTable) : Option TokenTable :=
  if (t.find? fun k => k.deviceToken = new.deviceToken).isSome then
    some (t.update (fun k => k.deviceToken = new.deviceToken) (DeviceToken.registered · new) (registered_keys new))
  else t.insert? new

/-- The row of the INSERT. -/
def registration (userId newId now : ℤ) (payload : DeviceTokenRequest) (deviceToken platform environment : String) :
    DeviceToken where
  id := newId
  userId := userId
  deviceToken := deviceToken
  platform := platform
  environment := environment
  appVersion := payload.appVersion.bind strip?
  deviceInfo := payload.deviceInfo.bind strip?
  isActive := true
  createdAt := now
  updatedAt := now
  lastSeenAt := now

/-- `upsert_current_user_device_token`; the sequence gives `newId`. -/
def upsertCurrentUserDeviceToken (userId newId now : ℤ) (payload : DeviceTokenRequest) (s : AlertStore) :
    Except HttpException AlertStore := do
  let deviceToken ← normalizeDeviceToken payload.deviceToken
  let platform ← normalizeDevicePlatform payload.platform
  let environment ← normalizeDeviceEnvironment payload.environment
  if (s.users.find? (· = userId)).isNone then .error ⟨500, "Device token update failed"⟩
  else
    match upsertToken (registration userId newId now payload deviceToken platform environment) s.tokens with
    | none => .error ⟨500, "Device token update failed"⟩
    | some tokens => return { s with tokens }

/-- `is_active = FALSE`, with the other columns that an UPDATE sets. -/
def DeviceToken.deactivated (now : ℤ) (seen : Bool) (k : DeviceToken) : DeviceToken :=
  { k with isActive := false, updatedAt := now, lastSeenAt := if seen then now else k.lastSeenAt }

theorem deactivated_keys (now : ℤ) (seen : Bool) (k : DeviceToken) : (k.deactivated now seen).keys.Sublist k.keys :=
  List.Sublist.refl _

/-- `deactivate_current_user_device_token`. -/
def deactivateCurrentUserDeviceToken (userId now : ℤ) (deviceToken : String) (s : AlertStore) :
    Except HttpException AlertStore := do
  let token ← normalizeDeviceToken deviceToken
  return { s with
    tokens := s.tokens.update (fun k => k.userId = userId && k.deviceToken = token) (·.deactivated now true)
      (deactivated_keys now true) }

/-- The UPDATE of `admin_test_push`, for a token that Apple answers is invalid. -/
def deactivateTestPushToken (now : ℤ) (deviceToken : String) (s : AlertStore) : AlertStore :=
  { s with
    tokens := s.tokens.update (·.deviceToken = deviceToken) (·.deactivated now false) (deactivated_keys now false) }

/-- `deactivate_invalid_device_token`. -/
def deactivateInvalidDeviceToken (tokenId now : ℤ) (t : TokenTable) : TokenTable :=
  t.update (·.id = tokenId) (·.deactivated now false) (deactivated_keys now false)

/-! ### Accounts -/

/-- A user that is registered. -/
def registerUser (userId : ℤ) (s : AlertStore) : Except HttpException AlertStore :=
  match s.users.insert? userId with
  | none => .error ⟨409, "Email already registered"⟩
  | some users => .ok { s with users }

/-- The deletion of an account: each of the tables refers to `users` with
ON DELETE CASCADE. -/
def deleteAccount (userId : ℤ) (s : AlertStore) : Except HttpException AlertStore :=
  if (s.users.find? (· = userId)).isNone then .error ⟨404, "User not found"⟩
  else .ok {
    users := s.users.delete (· = userId)
    locations := s.locations.delete (·.userId = userId)
    preferences := s.preferences.delete (·.userId = userId)
    tokens := s.tokens.delete (·.userId = userId)
    records := s.records.delete (·.userId = userId) }

/-! ### The requests -/

inductive Request where
  | register (userId : ℤ)
  | deleteAccount (userId : ℤ)
  | putLocation (userId now : ℤ) (payload : UserLocationRequest)
  | deleteLocation (userId : ℤ)
  | getPreferences (userId now : ℤ)
  | putPreferences (userId clock now : ℤ) (payload : NotificationPreferencesRequest)
  | postToken (userId newId now : ℤ) (payload : DeviceTokenRequest)
  | deleteToken (userId now : ℤ) (deviceToken : String)
  | testPushInvalid (now : ℤ) (deviceToken : String)

def serve (g : Settings) : Request → AlertStore → Except HttpException AlertStore
  | .register u, s => registerUser u s
  | .deleteAccount u, s => deleteAccount u s
  | .putLocation u now payload, s => upsertCurrentUserLocation u now payload s
  | .deleteLocation u, s => .ok (deleteCurrentUserLocation u s).2
  | .getPreferences u now, s => getCurrentUserNotificationPreferences g u now s
  | .putPreferences u clock now payload, s => updateCurrentUserNotificationPreferences g u clock now payload s
  | .postToken u newId now payload, s => upsertCurrentUserDeviceToken u newId now payload s
  | .deleteToken u now token, s => deactivateCurrentUserDeviceToken u now token s
  | .testPushInvalid now token, s => .ok (deactivateTestPushToken now token s)

/-! ### What a request does -/

theorem coordinate?_eq_some {bound q : ℚ} {n : Number} (h : coordinate? bound n = some q) : n = .finite q := by
  cases n with
  | finite r =>
    rw [coordinate?] at h
    split_ifs at h
    rw [Option.some.inj h]
  | _ => exact absurd h (by simp [coordinate?])

theorem checkCoordinate_eq_ok {bound q : ℚ} {detail : String} {n : Number}
    (h : checkCoordinate bound detail n = .ok q) : n = .finite q := by
  unfold checkCoordinate at h
  split at h
  · next r hr =>
    rw [← Except.ok.inj h]
    exact coordinate?_eq_some hr
  · exact absurd h (by simp)

theorem normalizeDeviceToken_eq_ok {value token : String} (h : normalizeDeviceToken value = .ok token) :
    token = strip value := by
  unfold normalizeDeviceToken at h
  split_ifs at h
  exact (Except.ok.inj h).symm

/-- The tables after a request that completes. -/
inductive Served (g : Settings) (s : AlertStore) : Request → AlertStore → Prop where
  | register {u users} (new : s.users.insert? u = some users) : Served g s (.register u) { s with users }
  | deleteAccount {u} : Served g s (.deleteAccount u)
      { users := s.users.delete (· = u)
        locations := s.locations.delete (·.userId = u)
        preferences := s.preferences.delete (·.userId = u)
        tokens := s.tokens.delete (·.userId = u)
        records := s.records.delete (·.userId = u) }
  | putLocation {u now payload lat lng accuracy source locations} (hlat : payload.lat = .finite lat)
      (hlng : payload.lng = .finite lng)
      (upsert : upsertLocation ⟨u, lat, lng, accuracy, source, now, now⟩ s.locations = some locations) :
      Served g s (.putLocation u now payload)
        { s with locations, preferences := clearLegacyNotificationLocation u s.preferences }
  | deleteLocation {u} : Served g s (.deleteLocation u)
      { s with
        locations := s.locations.delete fun l => l.userId = u
        preferences := clearLegacyNotificationLocation u s.preferences }
  | getPreferences {u now preferences}
      (ensure : ensurePreferences u now (cleanupExpiredLegacyNotificationLocations g now (some u) s.preferences) =
        some preferences) :
      Served g s (.getPreferences u now) { s with preferences }
  | putPreferences {u clock now payload updates preferences} (hupdates : checkUpdates clock payload = .ok updates)
      (ensure : ensurePreferences u now (cleanupExpiredLegacyNotificationLocations g now (some u) s.preferences) =
        some preferences) :
      Served g s (.putPreferences u clock now payload)
        { s with preferences := applyUpdates u now updates preferences }
  | postToken {u newId now payload platform environment tokens}
      (upsert :
        upsertToken (registration u newId now payload (strip payload.deviceToken) platform environment) s.tokens =
          some tokens) :
      Served g s (.postToken u newId now payload) { s with tokens }
  | deleteToken {u now token} : Served g s (.deleteToken u now token)
      { s with
        tokens := s.tokens.update (fun k => k.userId = u && k.deviceToken = strip token) (·.deactivated now true)
          (deactivated_keys now true) }
  | testPushInvalid {now token} : Served g s (.testPushInvalid now token)
      { s with
        tokens := s.tokens.update (·.deviceToken = token) (·.deactivated now false) (deactivated_keys now false) }

variable {g : Settings} {s t : AlertStore} {q : Request}

theorem served (h : serve g q s = .ok t) : Served g s q t := by
  cases q with
  | register u =>
    have h : registerUser u s = .ok t := h
    unfold registerUser at h
    split at h
    · exact absurd h (by simp)
    · next users hnew =>
      rw [← Except.ok.inj h]
      exact Served.register hnew
  | deleteAccount u =>
    have h : deleteAccount u s = .ok t := h
    unfold deleteAccount at h
    split_ifs at h
    rw [← Except.ok.inj h]
    exact Served.deleteAccount
  | putLocation u now payload =>
    have h : upsertCurrentUserLocation u now payload s = .ok t := h
    unfold upsertCurrentUserLocation at h
    obtain ⟨lat, hlat, h1⟩ := bind_eq_ok.mp h
    obtain ⟨lng, hlng, h2⟩ := bind_eq_ok.mp h1
    obtain ⟨accuracy, -, h3⟩ := bind_eq_ok.mp h2
    obtain ⟨source, -, h4⟩ := bind_eq_ok.mp h3
    split_ifs at h4 with hgone
    split at h4
    · exact absurd h4 (by simp)
    · next locations hupsert =>
      rw [← Except.ok.inj h4]
      exact Served.putLocation (checkCoordinate_eq_ok hlat) (checkCoordinate_eq_ok hlng) hupsert
  | deleteLocation u =>
    rw [← Except.ok.inj h]
    exact Served.deleteLocation
  | getPreferences u now =>
    have h : getCurrentUserNotificationPreferences g u now s = .ok t := h
    unfold getCurrentUserNotificationPreferences at h
    dsimp only at h
    split_ifs at h with hgone
    split at h
    · exact absurd h (by simp)
    · next preferences hensure =>
      rw [← Except.ok.inj h]
      exact Served.getPreferences hensure
  | putPreferences u clock now payload =>
    have h : updateCurrentUserNotificationPreferences g u clock now payload s = .ok t := h
    unfold updateCurrentUserNotificationPreferences at h
    obtain ⟨updates, hupdates, h1⟩ := bind_eq_ok.mp h
    dsimp only at h1
    split_ifs at h1 with hgone
    split at h1
    · exact absurd h1 (by simp)
    · next preferences hensure =>
      rw [← Except.ok.inj h1]
      exact Served.putPreferences hupdates hensure
  | postToken u newId now payload =>
    have h : upsertCurrentUserDeviceToken u newId now payload s = .ok t := h
    unfold upsertCurrentUserDeviceToken at h
    obtain ⟨token, htoken, h1⟩ := bind_eq_ok.mp h
    obtain ⟨platform, -, h2⟩ := bind_eq_ok.mp h1
    obtain ⟨environment, -, h3⟩ := bind_eq_ok.mp h2
    split_ifs at h3 with hgone
    split at h3
    · exact absurd h3 (by simp)
    · next tokens hupsert =>
      rw [← Except.ok.inj h3]
      rw [normalizeDeviceToken_eq_ok htoken] at hupsert
      exact Served.postToken hupsert
  | deleteToken u now value =>
    have h : deactivateCurrentUserDeviceToken u now value s = .ok t := h
    unfold deactivateCurrentUserDeviceToken at h
    obtain ⟨token, htoken, h1⟩ := bind_eq_ok.mp h
    rw [← Except.ok.inj h1]
    obtain rfl := normalizeDeviceToken_eq_ok htoken
    exact Served.deleteToken
  | testPushInvalid now token =>
    rw [← Except.ok.inj h]
    exact Served.testPushInvalid

end Alerts
end FuelNear

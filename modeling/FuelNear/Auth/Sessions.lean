/-
# Login sessions

The tables that a session is checked against and the statements of
`create_user_session`, `refresh_user_session`, `get_current_user_from_token`
and `revoke_current_session`. A token is stored as its SHA-256 hash; `sha256`
stands for it, and the tokens that a call generates are arguments of the call.

Key definitions: `Store`, `insertSession`, `selectSession`, `judge`, `rotateSession`, `revokeByAccessToken`,
`currentUser`.
Key theorems: `selectSession_spec`, `judge_rotates`, `rotateSession_spec`, `mem_revokeSession`.
-/
import FuelNear.Sql
import FuelNear.Text
import Mathlib.Tactic

namespace FuelNear
namespace Auth

open Sql

/-! ### The tables -/

/-- A row of `users`. -/
structure UserRow where
  id : ℤ
  email : String
  passwordHash : Option String
  isEmailVerified : Bool
  isActive : Bool
  deriving DecidableEq

def UserRow.keys (u : UserRow) : List (ℤ ⊕ String) := [.inl u.id, .inr u.email]

inductive Provider where
  | apple
  | google
  deriving DecidableEq

/-- A row of `user_auth_providers`. -/
structure AuthProvider where
  id : ℤ
  userId : ℤ
  provider : Provider
  providerUserId : String
  email : Option String
  emailVerified : Bool
  appleRefreshTokenCiphertext : Option String
  deriving DecidableEq

def AuthProvider.keys (p : AuthProvider) : List (ℤ ⊕ Provider × String) :=
  [.inl p.id, .inr (p.provider, p.providerUserId)]

/-- A row of `user_sessions`. -/
structure UserSession where
  id : ℤ
  userId : ℤ
  accessTokenHash : String
  refreshTokenHash : String
  deviceInfo : Option String
  ipAddress : Option String
  accessExpiresAt : Option ℤ
  expiresAt : ℤ
  revokedAt : Option ℤ
  createdAt : ℤ
  deriving DecidableEq

/-- The primary key, and the two unique hashes. -/
def UserSession.keys (s : UserSession) : List (ℤ ⊕ String ⊕ String) :=
  [.inl s.id, .inr (.inl s.accessTokenHash), .inr (.inr s.refreshTokenHash)]

abbrev Sessions := Table UserSession UserSession.keys

structure Store where
  users : Table UserRow UserRow.keys
  providers : Table AuthProvider AuthProvider.keys
  sessions : Sessions
  deriving DecidableEq

def Store.user? (s : Store) (id : ℤ) : Option UserRow := s.users.find? fun u => u.id = id

/-- What the endpoints raise. -/
inductive AuthError where
  | api (status : ℕ) (code message : String)
  | http (status : ℕ) (detail : String)
  | valueError (message : String)
  | database (violation : Violation)
  | other (name : String)
  deriving DecidableEq

/-! ### Tokens -/

/-- The settings; a lifetime is in microseconds. -/
structure Settings where
  sha256 : String → String
  accessTokenTtl : ℤ
  refreshTokenTtl : ℤ

def hashToken (g : Settings) (token : String) : Except AuthError String :=
  if token = "" then .error (.valueError "Token cannot be empty") else .ok (g.sha256 token)

/-- `extract_bearer_token`. -/
def extractBearerToken (authorization : Option String) : Except AuthError String :=
  match authorization with
  | none => .error (.api 401 "AUTHORIZATION_REQUIRED" "Authorization is required")
  | some header =>
    if header = "" then .error (.api 401 "AUTHORIZATION_REQUIRED" "Authorization is required")
    else
      let stripped := (Text.strip header).toList
      let scheme := stripped.takeWhile (· ≠ ' ')
      let token := Text.strip (String.ofList (stripped.drop (scheme.length + 1)))
      if stripped.length = scheme.length || Text.lower (String.ofList scheme) ≠ "bearer" || token = "" then
        .error (.api 401 "ACCESS_TOKEN_INVALID" "Invalid Authorization header")
      else .ok token

/-- The tokens that a call generates. -/
structure TokenPair where
  access : String
  refresh : String
  deriving DecidableEq

/-- The hashes of the tokens of a session. -/
structure HashPair where
  access : String
  refresh : String
  deriving DecidableEq

/-- `hash_token` of the two tokens, which are not empty. -/
def TokenPair.hashes (g : Settings) (tokens : TokenPair) : HashPair := ⟨g.sha256 tokens.access, g.sha256 tokens.refresh⟩

/-- The hash that a bearer token is looked up by. -/
def bearerHash (g : Settings) (authorization : Option String) : Except AuthError String := do
  hashToken g (← extractBearerToken authorization)

/-! ### create_user_session -/

/-- The arguments, the tokens, and what the database gives: the next id and `NOW()`. -/
structure NewSession where
  userId : ℤ
  deviceInfo : Option String
  ipAddress : Option String
  tokens : TokenPair
  id : ℤ
  now : ℤ
  createdAt : ℤ
  deriving DecidableEq

def NewSession.row (g : Settings) (c : NewSession) : UserSession where
  id := c.id
  userId := c.userId
  accessTokenHash := (c.tokens.hashes g).access
  refreshTokenHash := (c.tokens.hashes g).refresh
  deviceInfo := c.deviceInfo
  ipAddress := c.ipAddress
  accessExpiresAt := some (c.now + g.accessTokenTtl)
  expiresAt := c.now + g.refreshTokenTtl
  revokedAt := none
  createdAt := c.createdAt

/-- `INSERT INTO user_sessions`. -/
def insertSession (g : Settings) (c : NewSession) (s : Store) : Except AuthError Store :=
  if (s.user? c.userId).isSome then
    match s.sessions.insert? (c.row g) with
    | some t => .ok { s with sessions := t }
    | none => .error (.database .unique)
  else .error (.database .foreignKey)

/-! ### refresh_user_session -/

/-- The row of the SELECT: the session, and what the user's row and providers say. -/
structure SessionView where
  session : UserSession
  isActive : Bool
  isEmailVerified : Bool
  hasVerifiedSocialProvider : Bool
  deriving DecidableEq

/-- `SELECT … FROM user_sessions s JOIN users u … WHERE s.refresh_token_hash = … FOR UPDATE OF s`. -/
def selectSession (hash : String) (s : Store) : Option SessionView := do
  let session ← s.sessions.find? fun x => x.refreshTokenHash = hash
  let user ← s.user? session.userId
  return {
    session := session
    isActive := user.isActive
    isEmailVerified := user.isEmailVerified
    hasVerifiedSocialProvider := s.providers.rows.any fun p => p.userId = user.id && p.emailVerified }

def refreshTokenReused : AuthError := .api 401 "REFRESH_TOKEN_REUSED" "Refresh token has already been used"

def accountInactive : AuthError := .api 403 "ACCOUNT_INACTIVE" "User account is inactive"

def emailNotVerified : AuthError := .api 403 "EMAIL_NOT_VERIFIED" "Email verification required"

/-- What comes of a refresh: an error, an UPDATE that revokes the session and
then an error, or new tokens. -/
inductive Verdict where
  | refused (error : AuthError)
  | revokes (session : UserSession) (error : AuthError)
  | rotates (session : UserSession)
  deriving DecidableEq

def judge (now : ℤ) : Option SessionView → Verdict
  | none => .refused refreshTokenReused
  | some v =>
    if v.session.revokedAt.isSome then .refused (.api 401 "SESSION_REVOKED" "Refresh token has been revoked")
    else if v.session.expiresAt ≤ now then .refused (.http 401 "Refresh token has expired")
    else if !v.isActive then .revokes v.session accountInactive
    else if !v.isEmailVerified && !v.hasVerifiedSocialProvider then .revokes v.session emailNotVerified
    else .rotates v.session

/-- The SET of the revocation. -/
def UserSession.revoke (now : ℤ) (x : UserSession) : UserSession := { x with revokedAt := some now }

theorem revoke_keys (now : ℤ) (x : UserSession) : (x.revoke now).keys.Sublist x.keys := List.Sublist.refl _

/-- `UPDATE user_sessions SET revoked_at = NOW() WHERE id = … AND revoked_at IS NULL`. -/
def revokeSession (id now : ℤ) (s : Store) : Store :=
  { s with sessions := s.sessions.update (fun x => x.id = id && x.revokedAt.isNone) (·.revoke now) (revoke_keys now) }

/-- The SET of the rotation. -/
def UserSession.rotate (g : Settings) (tokens : TokenPair) (now : ℤ) (x : UserSession) : UserSession :=
  { x with
    accessTokenHash := (tokens.hashes g).access
    refreshTokenHash := (tokens.hashes g).refresh
    accessExpiresAt := some (now + g.accessTokenTtl)
    expiresAt := now + g.refreshTokenTtl
    revokedAt := none }

/-- The WHERE of the rotation. -/
def rotates (id : ℤ) (hash : String) (x : UserSession) : Bool :=
  x.id = id && x.refreshTokenHash = hash && x.revokedAt.isNone

/-- The rotation; it has to reach one row. -/
def rotateSession (g : Settings) (id : ℤ) (hash : String) (tokens : TokenPair) (now : ℤ) (s : Store) :
    Except AuthError Store :=
  match s.sessions.update? (rotates id hash) (·.rotate g tokens now) with
  | none => .error (.database .unique)
  | some t => if s.sessions.rows.countP (rotates id hash) = 1 then .ok { s with sessions := t } else .error refreshTokenReused

/-! ### Access tokens -/

/-- The SELECT of `get_current_user_from_token`, and its checks. -/
def currentUser (g : Settings) (authorization : Option String) (now : ℤ) (s : Store) : Except AuthError UserRow := do
  let hash ← bearerHash g authorization
  let session := s.sessions.find? fun x =>
    x.accessTokenHash = hash && x.revokedAt.isNone && x.accessExpiresAt.any (now < ·)
  match session.bind fun x => s.user? x.userId with
  | none => throw (.api 401 "ACCESS_TOKEN_INVALID" "Invalid or expired access token")
  | some user => if user.isActive then return user else throw accountInactive

/-- The row that `revoke_current_session` updates. -/
def sessionOfAccessToken (hash : String) (s : Store) : Option UserSession :=
  s.sessions.find? fun x => x.accessTokenHash = hash && x.revokedAt.isNone

/-- The UPDATE of `revoke_current_session`, with the id it returns. -/
def revokeByAccessToken (hash : String) (now : ℤ) (s : Store) : Except AuthError (ℤ × Store) :=
  match sessionOfAccessToken hash s with
  | none => .error (.http 401 "Invalid or expired access token")
  | some x => .ok (x.id, revokeSession x.id now s)

/-! ### What the statements do -/

variable {g : Settings} {s t : Store} {v : SessionView} {hash : String} {now id : ℤ}

theorem selectSession_spec (h : selectSession hash s = some v) :
    v.session ∈ s.sessions ∧ v.session.refreshTokenHash = hash := by
  obtain ⟨x, hx, u, -, rfl⟩ : ∃ x, s.sessions.find? (fun x => x.refreshTokenHash = hash) = some x ∧
      ∃ u, s.user? x.userId = some u ∧ _ := by
    simpa [selectSession, Option.bind_eq_some_iff] using h
  exact ⟨Table.find?_mem hx, by simpa using Table.find?_prop hx⟩

/-- Only an unrevoked session is rotated. -/
theorem judge_rotates {x : UserSession} (h : judge now (some v) = .rotates x) : x = v.session ∧ x.revokedAt = none := by
  unfold judge at h
  dsimp only at h
  split_ifs at h with hrevoked
  obtain rfl := Verdict.rotates.inj h
  exact ⟨rfl, by simpa using hrevoked⟩

/-- Only an unrevoked session is revoked, and for one of the two reasons. -/
theorem judge_revokes {x : UserSession} {e : AuthError} (h : judge now (some v) = .revokes x e) :
    x = v.session ∧ x.revokedAt = none ∧ (e = accountInactive ∨ e = emailNotVerified) := by
  unfold judge at h
  dsimp only at h
  split_ifs at h with hrevoked
  · obtain ⟨rfl, rfl⟩ := Verdict.revokes.inj h
    exact ⟨rfl, by simpa using hrevoked, .inl rfl⟩
  · obtain ⟨rfl, rfl⟩ := Verdict.revokes.inj h
    exact ⟨rfl, by simpa using hrevoked, .inr rfl⟩

theorem insertSession_spec {c : NewSession} (h : insertSession g c s = .ok t) :
    t.users = s.users ∧ t.providers = s.providers ∧ s.sessions.insert? (c.row g) = some t.sessions := by
  unfold insertSession at h
  split_ifs at h
  split at h
  · next u hu =>
    obtain rfl := Except.ok.inj h
    exact ⟨rfl, rfl, hu⟩
  · exact absurd h (by simp)

theorem user?_spec {s : Store} {id : ℤ} {u : UserRow} (h : s.user? id = some u) : u ∈ s.users ∧ u.id = id :=
  ⟨Table.find?_mem h, by simpa using Table.find?_prop h⟩

/-- An id has one user. -/
theorem user_of_id {s : Store} {u v : UserRow} (hu : u ∈ s.users) (hv : v ∈ s.users) (h : u.id = v.id) : u = v :=
  Table.eq_of_key hu hv (show Sum.inl u.id ∈ u.keys by simp [UserRow.keys]) (by simp [UserRow.keys, h])

/-- An email has one user. -/
theorem user_of_email {s : Store} {u v : UserRow} (hu : u ∈ s.users) (hv : v ∈ s.users) (h : u.email = v.email) : u = v :=
  Table.eq_of_key hu hv (show Sum.inr u.email ∈ u.keys by simp [UserRow.keys]) (by simp [UserRow.keys, h])

/-- A session is the only one with its id. -/
theorem session_unique {x y : UserSession} (hx : x ∈ s.sessions) (hy : y ∈ s.sessions) (h : x.id = y.id) : x = y :=
  Table.eq_of_key hx hy (show Sum.inl x.id ∈ x.keys by simp [UserSession.keys]) (by simp [UserSession.keys, h])

theorem session_of_access {x y : UserSession} (hx : x ∈ s.sessions) (hy : y ∈ s.sessions)
    (h : x.accessTokenHash = y.accessTokenHash) : x = y :=
  Table.eq_of_key hx hy (show Sum.inr (Sum.inl x.accessTokenHash) ∈ x.keys by simp [UserSession.keys])
    (by simp [UserSession.keys, h])

/-- An UPDATE that reaches the session `x` alone. -/
theorem mem_map_session {x : UserSession} {p : UserSession → Bool} {f : UserSession → UserSession} (hx : x ∈ s.sessions)
    (hpx : p x = true) (hp : ∀ y, p y = true → y.id = x.id) (y : UserSession) :
    (∃ r ∈ s.sessions, (if p r then f r else r) = y) ↔ y = f x ∨ y ∈ s.sessions ∧ y.id ≠ x.id := by
  constructor
  · rintro ⟨r, hr, rfl⟩
    by_cases hpr : p r = true
    · rw [if_pos hpr, session_unique hr hx (hp r hpr)]
      exact .inl rfl
    · rw [if_neg hpr]
      exact .inr ⟨hr, fun hid => hpr (session_unique hr hx hid ▸ hpx)⟩
  · rintro (rfl | ⟨hy, hid⟩)
    · exact ⟨x, hx, if_pos hpx⟩
    · exact ⟨y, hy, if_neg fun hpy => hid (hp y hpy)⟩

/-- What a rotation of the session `x` leaves. -/
theorem rotateSession_spec {x : UserSession} {tokens : TokenPair} (hx : x ∈ s.sessions) (hr : x.revokedAt = none)
    (h : rotateSession g x.id x.refreshTokenHash tokens now s = .ok t) :
    t.users = s.users ∧ t.providers = s.providers ∧
      ∀ y, y ∈ t.sessions ↔ y = x.rotate g tokens now ∨ y ∈ s.sessions ∧ y.id ≠ x.id := by
  unfold rotateSession at h
  split at h
  · exact absurd h (by simp)
  · next u hu =>
    split_ifs at h
    obtain rfl := Except.ok.inj h
    refine ⟨rfl, rfl, fun y => ?_⟩
    rw [Table.mem_update? hu]
    apply mem_map_session hx
    · simp [rotates, hr]
    · intro z hz
      simp only [rotates, Bool.and_eq_true, decide_eq_true_eq] at hz
      exact hz.1.1

/-- What a revocation of the session `x` leaves. -/
theorem mem_revokeSession (now : ℤ) {x : UserSession} (hx : x ∈ s.sessions) (hr : x.revokedAt = none) (y : UserSession) :
    y ∈ (revokeSession x.id now s).sessions ↔ y = x.revoke now ∨ y ∈ s.sessions ∧ y.id ≠ x.id := by
  rw [revokeSession, Table.mem_update]
  apply mem_map_session hx
  · simp [hr]
  · intro z hz
    simp only [Bool.and_eq_true, decide_eq_true_eq] at hz
    exact hz.1

theorem sessionOfAccessToken_spec {x : UserSession} (h : sessionOfAccessToken hash s = some x) :
    x ∈ s.sessions ∧ x.accessTokenHash = hash ∧ x.revokedAt = none := by
  have hprop := Table.find?_prop h
  simp only [Bool.and_eq_true, decide_eq_true_eq, Option.isNone_iff_eq_none] at hprop
  exact ⟨Table.find?_mem h, hprop⟩

theorem revokeByAccessToken_spec (h : revokeByAccessToken hash now s = .ok (id, t)) :
    ∃ x ∈ s.sessions, x.accessTokenHash = hash ∧ x.revokedAt = none ∧ id = x.id ∧ t = revokeSession x.id now s := by
  unfold revokeByAccessToken at h
  split at h
  · exact absurd h (by simp)
  · next x hx =>
    obtain ⟨hmem, hhash, hlive⟩ := sessionOfAccessToken_spec hx
    obtain ⟨hid, ht⟩ := Prod.mk.inj (Except.ok.inj h)
    exact ⟨x, hmem, hhash, hlive, hid.symm, ht.symm⟩

/-- An access token that is let in is that of an unrevoked session. -/
theorem currentUser_spec {authorization : Option String} {u : UserRow} (hbearer : bearerHash g authorization = .ok hash)
    (h : currentUser g authorization now s = .ok u) :
    ∃ x ∈ s.sessions, x.accessTokenHash = hash ∧ x.revokedAt = none := by
  unfold currentUser at h
  rw [hbearer] at h
  cases hx : s.sessions.find? fun x => x.accessTokenHash = hash && x.revokedAt.isNone && x.accessExpiresAt.any (now < ·) with
  | none => exact absurd h (by simp [hx, bind, Except.bind, throw, throwThe, MonadExceptOf.throw])
  | some x =>
    have hprop := Table.find?_prop hx
    simp only [Bool.and_eq_true, decide_eq_true_eq, Option.isNone_iff_eq_none] at hprop
    exact ⟨x, Table.find?_mem hx, hprop.1⟩

/-! ### A sample -/

/-- An hour, and thirty days. -/
def sampleSettings : Settings := ⟨fun token => "#" ++ token, 3600000000, 2592000000000⟩

def sampleSession (tokens : TokenPair) : UserSession :=
  ⟨7, 1, "#" ++ tokens.access, "#" ++ tokens.refresh, none, none, some 3600000000, 2592000000000, none, 0⟩

/-- A user, active or not, with a session or none. -/
def sampleTables (isActive : Bool) (session : Option UserSession) : Store where
  users := ⟨[⟨1, "ada@example.org", none, true, isActive⟩], by simp [UserRow.keys]⟩
  providers := Table.empty
  sessions := session.elim Table.empty fun x => ⟨[x], by simp [UserSession.keys]⟩

def sampleView (isActive : Bool) : SessionView := ⟨sampleSession ⟨"a0", "r0"⟩, isActive, true, false⟩

end Auth
end FuelNear

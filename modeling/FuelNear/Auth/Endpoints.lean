/-
# Registration, login and provider sign-in

`register_user`, `resend_email_verification`, `login_user` and
`authenticate_with_provider` as far as they read and write the accounts, their
providers, their sessions and their verification tokens, and with
`verify_email` the calls of a run. A call is one transaction: an exception
leaves the store as it was. Referral and creator codes have their own tables
and are left out, as is everything that a call is refused for before it reads
an account. The claims of a provider are arguments: verifying its token is
done before.

Key definitions: `registerUser`, `resendEmailVerification`, `loginUser`, `authenticateWithProvider`, `Call`,
`respond`, `serve`.
Key theorems: `registerUser_spec`, `loginUser_spec`, `authenticateWithProvider_users`, `respond_users`, `respond_tokens`.
-/
import FuelNear.Auth.Verification
import FuelNear.Runs
import Mathlib.Tactic

namespace FuelNear
namespace Auth

open Sql

/-- The last `except` clause of an endpoint. -/
def serverError (message : String) : AuthError → AuthError
  | .valueError _ => .api 500 "SERVER_ERROR" message
  | .database _ => .api 500 "SERVER_ERROR" message
  | .other _ => .api 500 "SERVER_ERROR" message
  | e => e

/-- `validate_password_length`. -/
def validatePasswordLength (g : AccountSettings) (password : String) (checkMinimum : Bool) : Except AuthError Unit :=
  if checkMinimum && password.length < g.passwordMinLength then .error (.valueError "Password is too short")
  else if g.passwordMaxLength < password.length then .error (.valueError "Password is too long")
  else .ok ()

/-- `hash_password`. -/
def hashPassword (g : AccountSettings) (salt password : String) : Except AuthError String := do
  validatePasswordLength g password true
  return g.pbkdf2 salt password

def AccountStore.userByEmail? (s : AccountStore) (email : String) : Option UserRow := s.users.find? fun u => u.email = email

/-- `INSERT INTO users`. -/
def insertUser (u : UserRow) (s : AccountStore) : Except AuthError AccountStore :=
  match s.users.insert? u with
  | some t => .ok { s with users := t }
  | none => .error (.database .unique)

/-! ### register_user -/

structure Registration where
  email : String
  password : String
  salt : String
  userId : ℤ
  code : NewCode
  deriving DecidableEq

/-- The `except` clauses of the endpoint. -/
def registrationError (g : AccountSettings) : AuthError → AuthError
  | .valueError "Password is too short" =>
    .api 400 "PASSWORD_TOO_SHORT" s!"Password must be at least {g.passwordMinLength} characters long"
  | .valueError "Password is too long" =>
    .api 400 "PASSWORD_TOO_LONG" s!"Password must be at most {g.passwordMaxLength} characters long"
  | .valueError _ => .api 400 "INVALID_REQUEST" "Invalid registration request"
  | e => serverError "Registration failed" e

def Registration.user (r : Registration) (hash : String) : UserRow where
  id := r.userId
  email := normalizeEmail r.email
  passwordHash := some hash
  isEmailVerified := false
  isActive := true

def registerUser (g : AccountSettings) (r : Registration) (s : AccountStore) : Except AuthError (ℤ × AccountStore) :=
  if (s.userByEmail? (normalizeEmail r.email)).isSome then
    .error (.api 409 "EMAIL_ALREADY_EXISTS" "Email already registered")
  else
    (do
      let hash ← hashPassword g r.salt r.password
      let t ← insertUser (r.user hash) s
      let u ← createEmailVerificationToken g r.code r.userId t
      return (r.userId, u) : Except AuthError (ℤ × AccountStore)).mapError (registrationError g)

/-! ### resend_email_verification -/

structure Resend where
  email : String
  code : NewCode
  deriving DecidableEq

/-- The user that a new code is sent to, if any. -/
def resendEmailVerification (g : AccountSettings) (r : Resend) (s : AccountStore) :
    Except AuthError (Option ℤ × AccountStore) :=
  match (s.userByEmail? (normalizeEmail r.email)).filter fun u => u.isActive && !u.isEmailVerified with
  | none => .ok (none, s)
  | some u =>
    ((createEmailVerificationToken g r.code u.id s).map (some u.id, ·)).mapError
      (serverError "Email verification resend failed")

/-! ### login_user -/

/-- The tokens and the clocks of the session that a call creates. -/
structure SessionSeed where
  deviceInfo : Option String
  tokens : TokenPair
  id : ℤ
  now : ℤ
  createdAt : ℤ
  deriving DecidableEq

/-- `create_user_session(conn, user_id=…, device_info=…, ip_address=None)`. -/
def createUserSession (g : AccountSettings) (c : SessionSeed) (userId : ℤ) (s : AccountStore) :
    Except AuthError AccountStore :=
  (insertSession g.toSettings ⟨userId, c.deviceInfo, none, c.tokens, c.id, c.now, c.createdAt⟩ s.toStore).map
    fun t => { s with toStore := t }

structure Login where
  email : String
  password : String
  salt : String
  session : SessionSeed
  deriving DecidableEq

def invalidCredentials : AuthError := .api 401 "INVALID_CREDENTIALS" "Invalid email or password"

/-- The SET of a rehash. -/
def UserRow.rehash (hash : String) (u : UserRow) : UserRow := { u with passwordHash := some hash }

theorem rehash_keys (hash : String) (u : UserRow) : (u.rehash hash).keys.Sublist u.keys := List.Sublist.refl _

/-- The UPDATE of a legacy hash. -/
def rehashPassword (g : AccountSettings) (l : Login) (userId : ℤ) (hash : String) (s : AccountStore) :
    Except AuthError AccountStore :=
  if g.passwordHashIsLegacy hash then do
    let new ← hashPassword g l.salt l.password
    return { s with users := s.users.update (fun u => u.id = userId) (·.rehash new) (rehash_keys new) }
  else .ok s

/-- The checks of the user's row; the hash that the password was checked with. -/
def checkCredentials (g : AccountSettings) (l : Login) (user : Option UserRow) : Except AuthError (UserRow × String) :=
  match user with
  | none => .error invalidCredentials
  | some u =>
    match u.passwordHash with
    | none => .error invalidCredentials
    | some hash =>
      if hash = "" then .error invalidCredentials
      else if !g.verifyPassword l.password hash then .error invalidCredentials
      else if !u.isActive then .error accountInactive
      else if !u.isEmailVerified then .error emailNotVerified
      else .ok (u, hash)

def loginUser (g : AccountSettings) (l : Login) (s : AccountStore) : Except AuthError (ℤ × AccountStore) :=
  if g.passwordMaxLength < l.password.length then
    .error (.api 400 "PASSWORD_TOO_LONG" s!"Password must be at most {g.passwordMaxLength} characters long")
  else
    (do
      let (u, hash) ← checkCredentials g l (s.userByEmail? (normalizeEmail l.email))
      let t ← rehashPassword g l u.id hash s
      let t' ← createUserSession g l.session u.id t
      return (u.id, t') : Except AuthError (ℤ × AccountStore)).mapError (serverError "Login failed")

/-! ### authenticate_with_provider -/

/-- `provider_claims`, the encrypted Apple refresh token, the ids that the
sequences give, and the session. -/
structure SignIn where
  provider : Provider
  providerUserId : String
  email : Option String
  emailVerified : Bool
  ciphertext : Option String
  userId : ℤ
  providerRowId : ℤ
  session : SessionSeed
  deriving DecidableEq

/-- `provider = … AND provider_user_id = …`. -/
def SignIn.isFor (c : SignIn) (p : AuthProvider) : Bool := p.provider = c.provider && p.providerUserId = c.providerUserId

def userNotFound : AuthError := .http 404 "User not found"

/-- `is_email_verified = users.is_email_verified OR …`. -/
def UserRow.link (emailVerified : Bool) (u : UserRow) : UserRow :=
  { u with isEmailVerified := u.isEmailVerified || emailVerified }

theorem link_keys (emailVerified : Bool) (u : UserRow) : (u.link emailVerified).keys.Sublist u.keys :=
  List.Sublist.refl _

/-- The user with the email, linked, or a new one. -/
def linkOrCreateUser (c : SignIn) (email : String) (s : AccountStore) : Except AuthError (ℤ × AccountStore) :=
  match s.userByEmail? email with
  | some u =>
    if !c.emailVerified then .error (.http 401 "Unable to link provider account")
    else .ok (u.id, { s with users := s.users.update (fun x => x.id = u.id) (·.link c.emailVerified) (link_keys _) })
  | none => (insertUser ⟨c.userId, email, none, c.emailVerified, true⟩ s).map (c.userId, ·)

/-- The SET of ON CONFLICT (provider, provider_user_id). -/
def AuthProvider.relink (email : String) (emailVerified : Bool) (p : AuthProvider) : AuthProvider :=
  { p with email := some email, emailVerified := emailVerified }

theorem relink_keys (email : String) (emailVerified : Bool) (p : AuthProvider) :
    (p.relink email emailVerified).keys.Sublist p.keys := List.Sublist.refl _

/-- `INSERT INTO user_auth_providers … ON CONFLICT … DO UPDATE … RETURNING user_id`. -/
def insertProvider (c : SignIn) (email : String) (userId : ℤ) (s : AccountStore) : Except AuthError (ℤ × AccountStore) :=
  match s.providers.find? c.isFor with
  | some p =>
    .ok (p.userId, { s with
      providers := s.providers.update c.isFor (·.relink email c.emailVerified) (relink_keys email c.emailVerified) })
  | none =>
    match s.providers.insert? ⟨c.providerRowId, userId, c.provider, c.providerUserId, some email, c.emailVerified, none⟩ with
    | some t => .ok (userId, { s with providers := t })
    | none => .error (.database .unique)

def AuthProvider.store (ciphertext : String) (p : AuthProvider) : AuthProvider :=
  { p with appleRefreshTokenCiphertext := some ciphertext }

theorem store_keys (ciphertext : String) (p : AuthProvider) : (p.store ciphertext).keys.Sublist p.keys :=
  List.Sublist.refl _

/-- `if provider == "apple" and provider_token_ciphertext: UPDATE …`. -/
def storeCiphertext (c : SignIn) (s : AccountStore) : AccountStore :=
  match c.ciphertext.filter fun x => x ≠ "" && c.provider = .apple with
  | none => s
  | some x => { s with providers := s.providers.update c.isFor (·.store x) (store_keys x) }

/-- The user of the provider's row, or the one linked or created. -/
def resolveUser (c : SignIn) (s : AccountStore) : Except AuthError (ℤ × AccountStore) :=
  match s.providers.find? c.isFor with
  | some p => .ok (p.userId, s)
  | none =>
    match c.email.filter (· ≠ "") with
    | none => .error (.http 400 "Provider email is required for first sign-in")
    | some email => do
      let (userId, t) ← linkOrCreateUser c email s
      insertProvider c email userId t

/-- Its last `except` clause. -/
def providerError : AuthError → AuthError
  | .valueError _ => .http 500 "Provider authentication failed"
  | .database _ => .http 500 "Provider authentication failed"
  | .other _ => .http 500 "Provider authentication failed"
  | e => e

def authenticateWithProvider (g : AccountSettings) (c : SignIn) (s : AccountStore) : Except AuthError (ℤ × AccountStore) :=
  (do
    let (userId, t) ← resolveUser c s
    match t.user? userId with
    | none => throw userNotFound
    | some u =>
      let t' := storeCiphertext c t
      if u.isActive then
        let t'' ← createUserSession g c.session u.id t'
        return (u.id, t'')
      else throw (.http 403 "User account is inactive")
    : Except AuthError (ℤ × AccountStore)).mapError providerError

/-! ### Any sequence of calls -/

inductive Call where
  | register (r : Registration)
  | resend (r : Resend)
  | verify (r : VerifyRequest)
  | login (l : Login)
  | signIn (c : SignIn)

/-- The user that a call is about; a resend may be about none. -/
inductive Answer where
  | registered (userId : ℤ)
  | resent (userId : Option ℤ)
  | verified (user : UserRow)
  | loggedIn (userId : ℤ)
  | signedIn (userId : ℤ)
  deriving DecidableEq

/-- A call that raises leaves the store as it was. -/
def transact {α : Type} (f : α → Answer) (r : Except AuthError (α × AccountStore)) (s : AccountStore) :
    Except AuthError Answer × AccountStore :=
  match r with
  | .ok (a, t) => (.ok (f a), t)
  | .error e => (.error e, s)

/-- The answer to a call, and what is committed. -/
def respond (g : AccountSettings) (c : Call) (s : AccountStore) : Except AuthError Answer × AccountStore :=
  match c with
  | .register r => transact .registered (registerUser g r s) s
  | .resend r => transact .resent (resendEmailVerification g r s) s
  | .verify r => ((verifyEmail g r s).1.map .verified, (verifyEmail g r s).2)
  | .login l => transact .loggedIn (loginUser g l s) s
  | .signIn c => transact .signedIn (authenticateWithProvider g c s) s

/-- Every call is answered: with an error, or as it asks. -/
def serve (g : AccountSettings) (c : Call) (s : AccountStore) : Except Empty (Except AuthError Answer × AccountStore) :=
  .ok (respond g c s)

/-! ### What the calls do -/

theorem map_eq_ok {α β ε : Type} {x : Except ε α} {f : α → β} {b : β} : x.map f = .ok b ↔ ∃ a, x = .ok a ∧ f a = b := by
  cases x <;> simp [Except.map]

variable {g : AccountSettings} {s t : AccountStore} {id : ℤ}

theorem insertUser_spec {u : UserRow} (h : insertUser u s = .ok t) :
    s.users.insert? u = some t.users ∧ t = { s with users := t.users } := by
  unfold insertUser at h
  split at h
  · next v hv =>
    obtain rfl := Except.ok.inj h
    exact ⟨hv, rfl⟩
  · exact absurd h (by simp)

/-- A new code retires the unused ones of its user. -/
theorem createEmailVerificationToken_spec {c : NewCode} {userId : ℤ}
    (h : createEmailVerificationToken g c userId s = .ok t) :
    t = { s with verifications := t.verifications } ∧ ∃ code,
      (s.verifications.update (·.isUnusedOf userId) (·.retire c.transactionTime)
        (retire_keys c.transactionTime)).insert? (c.row g userId code) = some t.verifications := by
  unfold createEmailVerificationToken at h
  dsimp only at h
  split at h
  · exact absurd h (by simp)
  · next code _ =>
    split at h
    · next v hv =>
      obtain rfl := Except.ok.inj h
      exact ⟨rfl, code, hv⟩
    · exact absurd h (by simp)

theorem registerUser_spec {r : Registration} (h : registerUser g r s = .ok (id, t)) :
    id = r.userId ∧ ∃ hash u, insertUser (r.user hash) s = .ok u ∧ createEmailVerificationToken g r.code r.userId u = .ok t := by
  unfold registerUser at h
  split_ifs at h
  rw [mapError_eq_ok] at h
  obtain ⟨hash, -, h1⟩ := bind_eq_ok.mp h
  obtain ⟨u, hu, h2⟩ := bind_eq_ok.mp h1
  obtain ⟨v, hv, h3⟩ := bind_eq_ok.mp h2
  obtain ⟨rfl, rfl⟩ := Prod.mk.inj (Except.ok.inj h3)
  exact ⟨rfl, hash, u, hu, hv⟩

theorem resendEmailVerification_spec {r : Resend} {userId : Option ℤ} (h : resendEmailVerification g r s = .ok (userId, t)) :
    userId = none ∧ t = s ∨ ∃ u, userId = some u ∧ createEmailVerificationToken g r.code u s = .ok t := by
  unfold resendEmailVerification at h
  split at h
  · obtain ⟨rfl, rfl⟩ := Prod.mk.inj (Except.ok.inj h)
    exact .inl ⟨rfl, rfl⟩
  · next u _ =>
    rw [mapError_eq_ok, map_eq_ok] at h
    obtain ⟨v, hv, hp⟩ := h
    obtain ⟨rfl, rfl⟩ := Prod.mk.inj hp
    exact .inr ⟨u.id, rfl, hv⟩

theorem createUserSession_spec {c : SessionSeed} {userId : ℤ} (h : createUserSession g c userId s = .ok t) :
    t.users = s.users ∧ t.providers = s.providers ∧ t.verifications = s.verifications := by
  obtain ⟨u, hu, rfl⟩ := map_eq_ok.mp h
  obtain ⟨husers, hproviders, -⟩ := insertSession_spec hu
  exact ⟨husers, hproviders, rfl⟩

theorem checkCredentials_spec {l : Login} {user : Option UserRow} {u : UserRow} {hash : String}
    (h : checkCredentials g l user = .ok (u, hash)) :
    user = some u ∧ u.passwordHash = some hash ∧ u.isEmailVerified = true := by
  unfold checkCredentials at h
  split at h
  · exact absurd h (by simp)
  · next v =>
    split at h
    · exact absurd h (by simp)
    · next hash' hhash =>
      split_ifs at h with hempty hpassword hactive hverified
      obtain ⟨rfl, rfl⟩ := Prod.mk.inj (Except.ok.inj h)
      exact ⟨rfl, hhash, by simpa using hverified⟩

/-- A rehash changes the hash of a user that has one, and nothing else. -/
theorem rehashPassword_spec {l : Login} {hash : String} {userId : ℤ} (h : rehashPassword g l userId hash s = .ok t) :
    t.verifications = s.verifications ∧ t.providers = s.providers ∧ (t.users = s.users ∨
      ∃ new, t.users = s.users.update (fun u => u.id = userId) (·.rehash new) (rehash_keys new)) := by
  unfold rehashPassword at h
  split_ifs at h
  · obtain ⟨new, -, h1⟩ := bind_eq_ok.mp h
    obtain rfl := Except.ok.inj h1
    exact ⟨rfl, rfl, .inr ⟨new, rfl⟩⟩
  · obtain rfl := Except.ok.inj h
    exact ⟨rfl, rfl, .inl rfl⟩

/-- A login is of a verified user with a password. -/
theorem loginUser_spec {l : Login} (h : loginUser g l s = .ok (id, t)) :
    (∃ u ∈ s.users, u.id = id ∧ u.passwordHash.isSome ∧ u.isEmailVerified = true) ∧
      t.verifications = s.verifications ∧ (t.users = s.users ∨
        ∃ new, t.users = s.users.update (fun u => u.id = id) (·.rehash new) (rehash_keys new)) := by
  unfold loginUser at h
  split_ifs at h
  rw [mapError_eq_ok] at h
  obtain ⟨⟨u, hash⟩, hcheck, h1⟩ := bind_eq_ok.mp h
  obtain ⟨v, hrehash, h2⟩ := bind_eq_ok.mp h1
  obtain ⟨w, hsession, h3⟩ := bind_eq_ok.mp h2
  obtain ⟨rfl, rfl⟩ := Prod.mk.inj (Except.ok.inj h3)
  obtain ⟨hfind, hhash, hverified⟩ := checkCredentials_spec hcheck
  obtain ⟨husers, -, hverifications⟩ := createUserSession_spec hsession
  obtain ⟨hverifications', -, husers'⟩ := rehashPassword_spec hrehash
  refine ⟨⟨u, Table.find?_mem hfind, rfl, by simp [hhash], hverified⟩, hverifications.trans hverifications', ?_⟩
  rwa [husers]

/-- The user that a provider's first sign-in is linked to, or creates. -/
theorem linkOrCreateUser_spec {c : SignIn} {email : String} (h : linkOrCreateUser c email s = .ok (id, t)) :
    t.verifications = s.verifications ∧ t.providers = s.providers ∧
      ((∃ u ∈ s.users, u.email = email ∧ c.emailVerified = true ∧ u.id = id ∧
        t.users = s.users.update (fun x => x.id = u.id) (·.link c.emailVerified) (link_keys _)) ∨
      s.users.insert? ⟨c.userId, email, none, c.emailVerified, true⟩ = some t.users) := by
  unfold linkOrCreateUser at h
  split at h
  · next u hu =>
    split_ifs at h with hverified
    obtain ⟨rfl, rfl⟩ := Prod.mk.inj (Except.ok.inj h)
    exact ⟨rfl, rfl, .inl ⟨u, Table.find?_mem hu, by simpa using Table.find?_prop hu, by simpa using hverified, rfl, rfl⟩⟩
  · obtain ⟨v, hv, hp⟩ := map_eq_ok.mp h
    obtain ⟨rfl, rfl⟩ := Prod.mk.inj hp
    obtain ⟨hinsert, hsame⟩ := insertUser_spec hv
    exact ⟨by rw [hsame], by rw [hsame], .inr hinsert⟩

theorem insertProvider_spec {c : SignIn} {email : String} {userId : ℤ} (h : insertProvider c email userId s = .ok (id, t)) :
    t.users = s.users ∧ t.verifications = s.verifications ∧ (s.providers.find? c.isFor = none → id = userId) := by
  unfold insertProvider at h
  split at h
  · next p hp =>
    obtain ⟨-, rfl⟩ := Prod.mk.inj (Except.ok.inj h)
    exact ⟨rfl, rfl, fun hnone => absurd (hp.symm.trans hnone) (by simp)⟩
  · split at h
    · obtain ⟨hid, rfl⟩ := Prod.mk.inj (Except.ok.inj h)
      exact ⟨rfl, rfl, fun _ => hid.symm⟩
    · exact absurd h (by simp)

theorem storeCiphertext_spec (c : SignIn) (s : AccountStore) :
    (storeCiphertext c s).users = s.users ∧ (storeCiphertext c s).verifications = s.verifications := by
  unfold storeCiphertext
  split <;> exact ⟨rfl, rfl⟩

theorem user?_update_link {u : UserRow} (hu : u ∈ s.users) (emailVerified : Bool)
    (hv : t.users = s.users.update (fun x => x.id = u.id) (·.link emailVerified) (link_keys _)) :
    t.user? u.id = some (u.link emailVerified) := by
  have hq : ∀ x : UserRow, decide ((x.link emailVerified).id = u.id) = decide (x.id = u.id) := fun _ => rfl
  have hfind : s.users.find? (fun x => x.id = u.id) = some u :=
    Table.find?_of_mem (k := .inl u.id) (fun x hx => by simp [UserRow.keys, of_decide_eq_true hx]) hu (by simp)
  rw [Store.user?, hv, Table.find?_update hq, hfind]
  simp

/-- A sign-in with a provider changes the users at most by one link, of an
active user, or one new user. -/
theorem authenticateWithProvider_users {c : SignIn} (h : authenticateWithProvider g c s = .ok (id, t)) :
    t.verifications = s.verifications ∧ (t.users = s.users ∨ s.providers.find? c.isFor = none ∧
      ∃ email, c.email = some email ∧
        ((∃ u ∈ s.users, u.email = email ∧ c.emailVerified = true ∧ u.isActive = true ∧
          t.users = s.users.update (fun x => x.id = u.id) (·.link c.emailVerified) (link_keys _)) ∨
        s.users.insert? ⟨c.userId, email, none, c.emailVerified, true⟩ = some t.users)) := by
  unfold authenticateWithProvider at h
  rw [mapError_eq_ok] at h
  obtain ⟨⟨userId, v⟩, hresolve, h1⟩ := bind_eq_ok.mp h
  -- the ciphertext and the session come after the users
  have hlater : t.users = v.users ∧ t.verifications = v.verifications ∧ ∀ u, v.user? userId = some u → u.isActive = true := by
    dsimp only at h1
    split at h1
    · exact absurd h1 (by simp [throw, throwThe, MonadExceptOf.throw])
    · next u hu =>
      split_ifs at h1 with hactive
      obtain ⟨w, hsession, h2⟩ := bind_eq_ok.mp h1
      obtain ⟨-, rfl⟩ := Prod.mk.inj (Except.ok.inj h2)
      obtain ⟨husers, -, hverifications⟩ := createUserSession_spec hsession
      obtain ⟨husers', hverifications'⟩ := storeCiphertext_spec c v
      refine ⟨husers.trans husers', hverifications.trans hverifications', fun x hx => ?_⟩
      rwa [← Option.some.inj (hu.symm.trans hx)]
  obtain ⟨husers, hverifications, hactive⟩ := hlater
  rw [husers, hverifications]
  unfold resolveUser at hresolve
  split at hresolve
  · obtain ⟨-, rfl⟩ := Prod.mk.inj (Except.ok.inj hresolve)
    exact ⟨rfl, .inl rfl⟩
  · next hnone =>
    split at hresolve
    · exact absurd hresolve (by simp)
    · next email hemail =>
      obtain ⟨⟨userId', w⟩, hlink, hinsert⟩ := bind_eq_ok.mp hresolve
      obtain ⟨hverificationsw, hprovidersw, husersw⟩ := linkOrCreateUser_spec hlink
      obtain ⟨husersv, hverificationsv, hidv⟩ := insertProvider_spec hinsert
      obtain rfl : userId = userId' := hidv (by rw [hprovidersw]; exact hnone)
      refine ⟨hverificationsv.trans hverificationsw, .inr ⟨hnone, email, (Option.filter_eq_some_iff.mp hemail).1, ?_⟩⟩
      rcases husersw with ⟨u, hu, hue, hverified, rfl, hupdate⟩ | hnew
      · have hlinked := user?_update_link (t := v) hu c.emailVerified (husersv.trans hupdate)
        have huactive : (u.link c.emailVerified).isActive = true := hactive _ hlinked
        exact .inl ⟨u, hu, hue, hverified, huactive, husersv.trans hupdate⟩
      · exact .inr (husersv ▸ hnew)

/-! ### What any call does -/

/-- The call has made a new code for the user. -/
def Answer.issues (userId : ℤ) : Answer → Bool
  | .registered id => id = userId
  | .resent id => id = some userId
  | _ => false

/-- What a call with its answer makes of `users`. -/
inductive UserChange (g : AccountSettings) (s : AccountStore) :
    Call → Except AuthError Answer → Table UserRow UserRow.keys → Prop where
  | none {c out} : UserChange g s c out s.users
  | registered {r hash users} (new : s.users.insert? (r.user hash) = some users) :
      UserChange g s (.register r) (.ok (.registered r.userId)) users
  | verified {r x u}
      (row : (x, u) ∈ matching (g.sha256 r.credential) (isSixDigits r.credential) r.address s) :
      UserChange g s (.verify r) (.ok (.verified u.verify)) (markVerified u.id r.now s).users
  | rehashed {l u new} (mem : u ∈ s.users) (password : u.passwordHash.isSome) (verified : u.isEmailVerified = true) :
      UserChange g s (.login l) (.ok (.loggedIn u.id))
        (s.users.update (fun x => x.id = u.id) (·.rehash new) (rehash_keys new))
  | linked {d u out} (mem : u ∈ s.users) (email : d.email = some u.email) (verified : d.emailVerified = true)
      (active : u.isActive = true) (first : s.providers.find? d.isFor = .none) :
      UserChange g s (.signIn d) out
        (s.users.update (fun x => x.id = u.id) (·.link d.emailVerified) (link_keys d.emailVerified))
  | created {d email out users} (new : s.users.insert? ⟨d.userId, email, .none, d.emailVerified, true⟩ = some users) :
      UserChange g s (.signIn d) out users

/-- What a call with its answer makes of `email_verification_tokens`. -/
inductive TokenChange (g : AccountSettings) (s : AccountStore) :
    Except AuthError Answer → Table VerificationToken VerificationToken.keys → Prop where
  | none {out} : TokenChange g s out s.verifications
  | aged {out p f} (hk : ∀ r : VerificationToken, (f r).keys.Sublist r.keys) (ages : Ages f) :
    TokenChange g s out (s.verifications.update p f hk)
  | issued {a : Answer} {c : NewCode} {id code t} (new : a.issues id = true)
      (row : (s.verifications.update (·.isUnusedOf id) (·.retire c.transactionTime)
        (retire_keys c.transactionTime)).insert? (c.row g id code) = some t) : TokenChange g s (.ok a) t

theorem transact_cases {α : Type} (f : α → Answer) (r : Except AuthError (α × AccountStore)) (s : AccountStore) :
    (∃ e, transact f r s = (.error e, s)) ∨ ∃ a t, r = .ok (a, t) ∧ transact f r s = (.ok (f a), t) := by
  cases r with
  | error e => exact .inl ⟨e, rfl⟩
  | ok p => exact .inr ⟨p.1, p.2, rfl, rfl⟩

theorem respond_users (g : AccountSettings) (c : Call) (s : AccountStore) :
    UserChange g s c (respond g c s).1 (respond g c s).2.users := by
  cases c with
  | register r =>
    rcases transact_cases .registered (registerUser g r s) s with ⟨e, h⟩ | ⟨id, t, hr, h⟩
    · rw [respond, h]
      exact .none
    · obtain ⟨rfl, hash, u, hu, hcode⟩ := registerUser_spec hr
      rw [respond, h, (createEmailVerificationToken_spec hcode).1]
      exact .registered (insertUser_spec hu).1
  | resend r =>
    rcases transact_cases .resent (resendEmailVerification g r s) s with ⟨e, h⟩ | ⟨id, t, hr, h⟩
    · rw [respond, h]
      exact .none
    · rw [respond, h]
      rcases resendEmailVerification_spec hr with ⟨-, rfl⟩ | ⟨u, -, hcode⟩
      · exact .none
      · rw [(createEmailVerificationToken_spec hcode).1]
        exact .none
  | verify r =>
    rw [respond]
    rcases verifyEmail_cases g r s with h | ⟨id, h⟩ | ⟨id, h⟩ | ⟨x, u, hmem, h⟩
    · rw [h]
      exact .none
    · rw [h]
      exact .none
    · rw [h]
      exact .none
    · rw [h]
      exact .verified hmem
  | login l =>
    rcases transact_cases .loggedIn (loginUser g l s) s with ⟨e, h⟩ | ⟨id, t, hr, h⟩
    · rw [respond, h]
      exact .none
    · rw [respond, h]
      obtain ⟨⟨u, hu, rfl, hpassword, hverified⟩, -, hsame | ⟨new, hupdate⟩⟩ := loginUser_spec hr
      · rw [hsame]
        exact .none
      · rw [hupdate]
        exact .rehashed hu hpassword hverified
  | signIn d =>
    rcases transact_cases .signedIn (authenticateWithProvider g d s) s with ⟨e, h⟩ | ⟨id, t, hr, h⟩
    · rw [respond, h]
      exact .none
    · rw [respond, h]
      obtain ⟨-, hsame | ⟨hfirst, email, hemail, ⟨u, hu, rfl, hverified, hactive, hupdate⟩ | hnew⟩⟩ :=
        authenticateWithProvider_users hr
      · rw [hsame]
        exact .none
      · rw [hupdate]
        exact .linked hu hemail hverified hactive hfirst
      · exact .created hnew

theorem respond_tokens (g : AccountSettings) (c : Call) (s : AccountStore) :
    TokenChange g s (respond g c s).1 (respond g c s).2.verifications := by
  cases c with
  | register r =>
    rcases transact_cases .registered (registerUser g r s) s with ⟨e, h⟩ | ⟨id, t, hr, h⟩
    · rw [respond, h]
      exact .none
    · obtain ⟨rfl, hash, u, hu, hcode⟩ := registerUser_spec hr
      obtain ⟨-, code, hrow⟩ := createEmailVerificationToken_spec hcode
      rw [(insertUser_spec hu).2] at hrow
      rw [respond, h]
      exact .issued (by simp [Answer.issues]) hrow
  | resend r =>
    rcases transact_cases .resent (resendEmailVerification g r s) s with ⟨e, h⟩ | ⟨id, t, hr, h⟩
    · rw [respond, h]
      exact .none
    · rw [respond, h]
      rcases resendEmailVerification_spec hr with ⟨-, rfl⟩ | ⟨u, rfl, hcode⟩
      · exact .none
      · obtain ⟨-, code, hrow⟩ := createEmailVerificationToken_spec hcode
        exact .issued (by simp [Answer.issues]) hrow
  | verify r =>
    rw [respond]
    rcases verifyEmail_cases g r s with h | ⟨id, h⟩ | ⟨id, h⟩ | ⟨x, u, -, h⟩
    · rw [h]
      exact .none
    · rw [h]
      exact .aged (fail_keys g r.now) (ages_fail g r.now)
    · rw [h]
      exact .aged (lock_keys r.now) (ages_lock r.now)
    · rw [h]
      exact .aged (use_keys r.now) (ages_use r.now)
  | login l =>
    rcases transact_cases .loggedIn (loginUser g l s) s with ⟨e, h⟩ | ⟨id, t, hr, h⟩
    · rw [respond, h]
      exact .none
    · rw [respond, h, (loginUser_spec hr).2.1]
      exact .none
  | signIn d =>
    rcases transact_cases .signedIn (authenticateWithProvider g d s) s with ⟨e, h⟩ | ⟨id, t, hr, h⟩
    · rw [respond, h]
      exact .none
    · rw [respond, h, (authenticateWithProvider_users hr).1]
      exact .none

/-- A verified user stays so. -/
theorem UserChange.verified_mono {c : Call} {out : Except AuthError Answer} {users : Table UserRow UserRow.keys}
    (h : UserChange g s c out users) {u : UserRow} (hu : u ∈ s.users) (hverified : u.isEmailVerified = true) :
    ∃ v ∈ users, v.id = u.id ∧ v.isEmailVerified = true := by
  cases h with
  | none => exact ⟨u, hu, rfl, hverified⟩
  | registered new => exact ⟨u, (Table.mem_insert new).mpr (.inl hu), rfl, hverified⟩
  | created new => exact ⟨u, (Table.mem_insert new).mpr (.inl hu), rfl, hverified⟩
  | verified row =>
    refine ⟨_, Table.mem_update_of_mem verify_keys hu, ?_⟩
    split_ifs <;> simp [UserRow.verify, hverified]
  | rehashed mem password verified =>
    refine ⟨_, Table.mem_update_of_mem (rehash_keys _) hu, ?_⟩
    split_ifs <;> simp [UserRow.rehash, hverified]
  | linked mem email verified active first =>
    refine ⟨_, Table.mem_update_of_mem (link_keys _) hu, ?_⟩
    split_ifs <;> simp [UserRow.link, hverified]

/-! ### A sample -/

/-- Two attempts; a hash is the password or the token with a mark before it. -/
def sampleAccounts : AccountSettings where
  sha256 token := "#" ++ token
  accessTokenTtl := 3600000000
  refreshTokenTtl := 2592000000000
  verificationTtl := 86400000000
  maxAttempts := 2
  maxAttempts_pos := by decide
  passwordMinLength := 8
  passwordMaxLength := 128
  pbkdf2 _ password := "$" ++ password
  verifyPassword password hash := hash = "$" ++ password
  passwordHashIsLegacy _ := false

def emptyAccounts : AccountStore where
  users := Table.empty
  providers := Table.empty
  sessions := Table.empty
  verifications := Table.empty

end Auth
end FuelNear

/-
# Email verification

The statements of `create_email_verification_token`, `verify_email_token` and
`register_email_verification_failed_attempt`, and the endpoint
`POST /auth/verify-email`. A six-digit credential is looked up by `code_hash`,
any other by `token_hash`; the lookup has a filter by email only if the
request came with one, and so has the count of a failed attempt.

A request that the rate limit refuses, or that a failing server cuts short,
answers nothing and changes nothing: it is none of the requests here.

Key definitions: `VerificationToken`, `AccountStore`, `createEmailVerificationToken`, `verifyEmailToken`,
`registerFailedAttempt`, `verifyEmail`.
Key theorems: `Ages.isUnusedOf`, `mem_matching`, `newestUnused_spec`, `verifyEmail_cases`.
-/
import FuelNear.Auth.Sessions
import Mathlib.Data.Prod.Lex
import Mathlib.Tactic

namespace FuelNear
namespace Auth

open Sql

/-! ### The tables -/

/-- A row of `email_verification_tokens`; the attempts count from 0. -/
structure VerificationToken where
  id : ℤ
  userId : ℤ
  tokenHash : String
  codeHash : Option String
  expiresAt : ℤ
  failedAttempts : ℕ
  lockedAt : Option ℤ
  lastAttemptAt : Option ℤ
  usedAt : Option ℤ
  createdAt : ℤ
  deriving DecidableEq

/-- The primary key, the unique token, and the code of an unused row. -/
def VerificationToken.keys (r : VerificationToken) : List (ℤ ⊕ String ⊕ String) :=
  .inl r.id :: .inr (.inl r.tokenHash) ::
    if r.usedAt = none then r.codeHash.toList.map fun c => .inr (.inr c) else []

/-- The accounts, and the tokens sent to their addresses. -/
structure AccountStore extends Store where
  verifications : Table VerificationToken VerificationToken.keys
  deriving DecidableEq

/-- The settings of the accounts. The salt of a password hash is an argument. -/
structure AccountSettings extends Settings where
  verificationTtl : ℤ
  maxAttempts : ℕ
  maxAttempts_pos : 0 < maxAttempts
  passwordMinLength : ℕ
  passwordMaxLength : ℕ
  pbkdf2 : String → String → String
  verifyPassword : String → String → Bool
  passwordHashIsLegacy : String → Bool

/-- `normalize_email`. -/
def normalizeEmail (value : String) : String := Text.lower (Text.strip value)

example : normalizeEmail " ÉVA@example.org" = "éva@example.org" := by decide +kernel

def invalidCode (message : String) : AuthError := .api 400 "VERIFICATION_CODE_INVALID" message

def attemptsExceeded : AuthError :=
  .api 400 "VERIFICATION_ATTEMPTS_EXCEEDED" "Troppi tentativi. Richiedi un nuovo codice."

/-! ### create_email_verification_token -/

/-- What a call generates, the token and the candidates for the code, and the
clocks. -/
structure NewCode where
  token : String
  candidates : List String
  id : ℤ
  now : ℤ
  transactionTime : ℤ
  deriving DecidableEq

/-- The unused tokens of a user. -/
def VerificationToken.isUnusedOf (userId : ℤ) (r : VerificationToken) : Bool := r.userId = userId && r.usedAt = none

/-- The SET that retires them. -/
def VerificationToken.retire (now : ℤ) (r : VerificationToken) : VerificationToken :=
  { r with
    usedAt := some now
    lockedAt := some (r.lockedAt.getD now)
    lastAttemptAt := some (r.lastAttemptAt.getD now) }

theorem keys_sublist_of_used {r r' : VerificationToken} (hid : r'.id = r.id) (htoken : r'.tokenHash = r.tokenHash)
    (hused : r'.usedAt ≠ none) : r'.keys.Sublist r.keys := by
  simp [VerificationToken.keys, hid, htoken, hused]

theorem retire_keys (now : ℤ) (r : VerificationToken) : (r.retire now).keys.Sublist r.keys :=
  keys_sublist_of_used rfl rfl (by simp [VerificationToken.retire])

def NewCode.row (g : AccountSettings) (c : NewCode) (userId : ℤ) (code : String) : VerificationToken where
  id := c.id
  userId := userId
  tokenHash := g.sha256 c.token
  codeHash := some (g.sha256 code)
  expiresAt := c.now + g.verificationTtl
  failedAttempts := 0
  lockedAt := none
  lastAttemptAt := none
  usedAt := none
  createdAt := c.transactionTime

/-- The code conflicts with an unused one. -/
def codeTaken (g : AccountSettings) (t : Table VerificationToken VerificationToken.keys) (code : String) : Bool :=
  t.rows.any fun r => r.usedAt = none && r.codeHash = some (g.sha256 code)

/-- Ten candidates, each inserted ON CONFLICT DO NOTHING. -/
def createEmailVerificationToken (g : AccountSettings) (c : NewCode) (userId : ℤ) (s : AccountStore) :
    Except AuthError AccountStore :=
  let retired := s.verifications.update (·.isUnusedOf userId) (·.retire c.transactionTime) (retire_keys c.transactionTime)
  match (c.candidates.take 10).find? fun code => !codeTaken g retired code with
  | none => .error (.other "RuntimeError")
  | some code =>
    match retired.insert? (c.row g userId code) with
    | some t => .ok { s with verifications := t }
    | none => .error (.database .unique)

/-! ### register_email_verification_failed_attempt -/

/-- `SELECT … WHERE u.email = … AND evt.used_at IS NULL ORDER BY created_at DESC, id DESC LIMIT 1`. -/
def newestUnused (email : String) (s : AccountStore) : Option VerificationToken :=
  top (fun r => toLex (r.createdAt, r.id)) (s.verifications.rows.filter fun r =>
    (s.user? r.userId).any (·.email = email) && r.usedAt = none)

/-- The SET that counts an attempt, the last one included. -/
def VerificationToken.fail (g : AccountSettings) (now : ℤ) (r : VerificationToken) : VerificationToken :=
  { r with
    failedAttempts := r.failedAttempts + 1
    lastAttemptAt := some now
    lockedAt := if g.maxAttempts ≤ r.failedAttempts + 1 then some now else r.lockedAt
    usedAt := if g.maxAttempts ≤ r.failedAttempts + 1 then some now else r.usedAt }

theorem fail_keys (g : AccountSettings) (now : ℤ) (r : VerificationToken) : (r.fail g now).keys.Sublist r.keys := by
  by_cases h : g.maxAttempts ≤ r.failedAttempts + 1
  · exact keys_sublist_of_used rfl rfl (by simp [VerificationToken.fail, h])
  · simp [VerificationToken.keys, VerificationToken.fail, h]

/-- The error that it raises, if any, and what it has committed. -/
def registerFailedAttempt (g : AccountSettings) (email : Option String) (now : ℤ) (s : AccountStore) :
    Option AuthError × AccountStore :=
  match email.bind fun e => newestUnused e s with
  | none => (none, s)
  | some r =>
    if r.lockedAt.isSome then (some attemptsExceeded, s)
    else
      (if g.maxAttempts ≤ r.failedAttempts + 1 then some attemptsExceeded else none,
        { s with verifications := s.verifications.update (fun x => x.id = r.id) (·.fail g now) (fail_keys g now) })

/-! ### verify_email_token -/

/-- `re.fullmatch(r"\d{6}", …)`. -/
def isSixDigits (credential : String) : Bool :=
  credential.toList.length = 6 && credential.toList.all fun c => (Text.digit? c).isSome

/-- `code_hash = …`, or `token_hash = …`. -/
def VerificationToken.answers (hash : String) (six : Bool) (r : VerificationToken) : Bool :=
  if six then r.codeHash = some hash else r.tokenHash = hash

/-- The tokens of the SELECT, with their users. -/
def matching (hash : String) (six : Bool) (email : Option String) (s : AccountStore) : List (VerificationToken × UserRow) :=
  s.verifications.rows.filterMap fun r => (s.user? r.userId).bind fun u =>
    if r.answers hash six && email.all (u.email = ·) then some (r, u) else none

/-- The SET of a token that is locked. -/
def VerificationToken.lock (now : ℤ) (r : VerificationToken) : VerificationToken :=
  { r with lockedAt := some (r.lockedAt.getD now), usedAt := some (r.usedAt.getD now), lastAttemptAt := some now }

theorem lock_keys (now : ℤ) (r : VerificationToken) : (r.lock now).keys.Sublist r.keys :=
  keys_sublist_of_used rfl rfl (by simp [VerificationToken.lock])

def VerificationToken.use (now : ℤ) (r : VerificationToken) : VerificationToken := { r with usedAt := some now }

theorem use_keys (now : ℤ) (r : VerificationToken) : (r.use now).keys.Sublist r.keys :=
  keys_sublist_of_used rfl rfl (by simp [VerificationToken.use])

/-- `is_email_verified = TRUE`. -/
def UserRow.verify (u : UserRow) : UserRow := { u with isEmailVerified := true }

theorem verify_keys (u : UserRow) : u.verify.keys.Sublist u.keys := List.Sublist.refl _

/-- The two UPDATEs of a success. -/
def markVerified (userId now : ℤ) (s : AccountStore) : AccountStore :=
  { s with
    users := s.users.update (fun u => u.id = userId && u.isActive) UserRow.verify verify_keys
    verifications := s.verifications.update (·.isUnusedOf userId) (·.use now) (use_keys now) }

/-- The answer, and what is committed. -/
def verifyEmailToken (g : AccountSettings) (pick : Pick (VerificationToken × UserRow)) (credential : String)
    (email : Option String) (now : ℤ) (s : AccountStore) : Except AuthError UserRow × AccountStore :=
  let credential := Text.strip credential
  if credential = "" then (.error (invalidCode "Invalid verification code or token"), s)
  else
    match pick.pick (matching (g.sha256 credential) (isSixDigits credential) email s) with
    | none =>
      match registerFailedAttempt g email now s with
      | (some e, t) => (.error e, t)
      | (none, t) => (.error (invalidCode "Invalid verification code or token"), t)
    | some (r, u) =>
      if r.lockedAt.isSome || g.maxAttempts ≤ r.failedAttempts then
        (.error attemptsExceeded,
          { s with verifications := s.verifications.update (fun x => x.id = r.id) (·.lock now) (lock_keys now) })
      else if u.isEmailVerified then
        (.error (.api 409 "ACCOUNT_ALREADY_VERIFIED" "Email address is already verified"), s)
      else if r.expiresAt ≤ now then
        (.error (.api 400 "VERIFICATION_CODE_EXPIRED" "Verification code or token has expired"), s)
      else if r.usedAt.isSome then (.error (invalidCode "Invalid verification code or token"), s)
      else if !u.isActive then (.error accountInactive, s)
      else (.ok u.verify, markVerified u.id now s)

/-! ### POST /auth/verify-email -/

structure VerifyRequest where
  code : Option String
  token : Option String
  email : Option String
  pick : Pick (VerificationToken × UserRow)
  now : ℤ

/-- `(payload.code or payload.token or "").strip()`. -/
def VerifyRequest.credential (r : VerifyRequest) : String :=
  Text.strip (match r.code with
    | some code => if code = "" then r.token.getD "" else code
    | none => r.token.getD "")

/-- `normalize_email(str(payload.email)) if payload.email else None`. -/
def VerifyRequest.address (r : VerifyRequest) : Option String :=
  (r.email.filter (· ≠ "")).map normalizeEmail

/-- The checks before the lookup. -/
def VerifyRequest.refusal (r : VerifyRequest) : Option AuthError :=
  if r.credential = "" then some (invalidCode "Verification code or token is required")
  else if r.code.isSome && !isSixDigits r.credential then some (invalidCode "Verification code must contain 6 digits")
  else if r.code.isSome && r.address.isNone then some (invalidCode "Email is required for verification codes")
  else none

def verifyEmail (g : AccountSettings) (r : VerifyRequest) (s : AccountStore) : Except AuthError UserRow × AccountStore :=
  match r.refusal with
  | some e => (.error e, s)
  | none => verifyEmailToken g r.pick r.credential r.address r.now s

/-! ### Changes of a token -/

/-- A change that makes no token unused, and gives no attempt back. -/
structure Ages (f : VerificationToken → VerificationToken) : Prop where
  user : ∀ r, (f r).userId = r.userId
  used : ∀ r, (f r).usedAt = none → r.usedAt = none
  attempts : ∀ r, r.failedAttempts ≤ (f r).failedAttempts

theorem ages_retire (now : ℤ) : Ages (·.retire now) where
  user _ := rfl
  used r h := by simp [VerificationToken.retire] at h
  attempts _ := le_rfl

theorem ages_lock (now : ℤ) : Ages (·.lock now) where
  user _ := rfl
  used r h := by simp [VerificationToken.lock] at h
  attempts _ := le_rfl

theorem ages_use (now : ℤ) : Ages (·.use now) where
  user _ := rfl
  used r h := by simp [VerificationToken.use] at h
  attempts _ := le_rfl

theorem ages_fail (g : AccountSettings) (now : ℤ) : Ages (·.fail g now) where
  user _ := rfl
  used r h := by
    by_cases hmax : g.maxAttempts ≤ r.failedAttempts + 1
    · simp [VerificationToken.fail, hmax] at h
    · simpa [VerificationToken.fail, hmax] using h
  attempts _ := Nat.le_succ _

theorem Ages.isUnusedOf {f : VerificationToken → VerificationToken} (hf : Ages f) {id : ℤ} {r : VerificationToken}
    (h : (f r).isUnusedOf id = true) : r.isUnusedOf id = true := by
  simp only [VerificationToken.isUnusedOf, Bool.and_eq_true, decide_eq_true_eq] at h ⊢
  exact ⟨(hf.user r).symm.trans h.1, hf.used r h.2⟩

/-! ### What a verification does -/

section

variable {g : AccountSettings} {s : AccountStore}

theorem mem_matching {hash : String} {six : Bool} {email : Option String} {r : VerificationToken} {u : UserRow} :
    (r, u) ∈ matching hash six email s ↔ r ∈ s.verifications ∧ s.user? r.userId = some u ∧
      (r.answers hash six && email.all (u.email = ·)) = true := by
  simp only [matching, List.mem_filterMap, Option.bind_eq_some_iff, Table.mem_def]
  constructor
  · rintro ⟨x, hx, v, hv, hp⟩
    split_ifs at hp with h
    obtain ⟨rfl, rfl⟩ := Prod.mk.inj (Option.some.inj hp)
    exact ⟨hx, hv, h⟩
  · rintro ⟨hr, hu, h⟩
    exact ⟨r, hr, u, hu, if_pos h⟩

theorem newestUnused_spec {email : String} {r : VerificationToken} (h : newestUnused email s = some r) :
    r ∈ s.verifications ∧ (∃ u, s.user? r.userId = some u ∧ u.email = email) ∧ r.usedAt = none := by
  have hmem := top_mem _ h
  simp only [List.mem_filter, Bool.and_eq_true, Option.any_eq_true, decide_eq_true_eq] at hmem
  exact ⟨hmem.1, hmem.2.1, hmem.2.2⟩

/-- A user with an unused token has a newest one. -/
theorem newestUnused_isSome {r : VerificationToken} {u : UserRow} (hr : r ∈ s.verifications)
    (hu : s.user? r.userId = some u) (hunused : r.usedAt = none) : ∃ x, newestUnused u.email s = some x := by
  cases h : newestUnused u.email s with
  | some x => exact ⟨x, rfl⟩
  | none =>
    rw [newestUnused, top_eq_none_iff, List.filter_eq_nil_iff] at h
    exact absurd (by simp [hu, hunused]) (h r hr)

theorem mem_markVerified {v : UserRow} {id now : ℤ} : v ∈ (markVerified id now s).users ↔
    ∃ u ∈ s.users, (if (u.id = id && u.isActive) = true then u.verify else u) = v := by
  rw [markVerified, Table.mem_update]

/-- A request counts an attempt, locks a token, verifies a user, or changes nothing. -/
theorem verifyEmail_cases (g : AccountSettings) (r : VerifyRequest) (s : AccountStore) :
    (verifyEmail g r s).2 = s ∨
    (∃ id, (verifyEmail g r s).2 =
      { s with verifications := s.verifications.update (fun y => y.id = id) (·.fail g r.now) (fail_keys g r.now) }) ∨
    (∃ id, (verifyEmail g r s).2 =
      { s with verifications := s.verifications.update (fun y => y.id = id) (·.lock r.now) (lock_keys r.now) }) ∨
    ∃ x u, (x, u) ∈ matching (g.sha256 r.credential) (isSixDigits r.credential) r.address s ∧
      (verifyEmail g r s) = (.ok u.verify, markVerified u.id r.now s) := by
  unfold verifyEmail
  split
  · exact .inl rfl
  · unfold verifyEmailToken
    dsimp only
    split_ifs with hempty
    · exact .inl rfl
    · split
      · unfold registerFailedAttempt
        cases hx : r.address.bind fun e => newestUnused e s with
        | none => exact .inl rfl
        | some x =>
          dsimp only
          by_cases hlocked : x.lockedAt.isSome = true
          · rw [if_pos hlocked]
            exact .inl rfl
          · rw [if_neg hlocked]
            refine .inr (.inl ⟨x.id, ?_⟩)
            by_cases hmax : g.maxAttempts ≤ x.failedAttempts + 1
            · simp [if_pos hmax]
            · simp [if_neg hmax]
      · next x u hpick =>
        have hstrip : Text.strip r.credential = r.credential := Text.strip_strip _
        rw [hstrip] at hpick
        split_ifs
        · exact .inr (.inr (.inl ⟨x.id, rfl⟩))
        · exact .inl rfl
        · exact .inl rfl
        · exact .inl rfl
        · exact .inl rfl
        · exact .inr (.inr (.inr ⟨x, u, r.pick.pick_mem hpick, rfl⟩))

theorem credential_of_refusal {r : VerifyRequest} (h : r.refusal = none) : r.credential ≠ "" := by
  intro hempty
  simp [VerifyRequest.refusal, hempty] at h

/-- A credential that matches no token counts as an attempt at the newest one. -/
theorem verifyEmail_unmatched {r : VerifyRequest} {x : VerificationToken} (hr : r.refusal = none)
    (hp : r.pick.pick (matching (g.sha256 r.credential) (isSixDigits r.credential) r.address s) = none)
    (hx : r.address.bind (newestUnused · s) = some x) (hlocked : x.lockedAt = none) :
    (verifyEmail g r s).2 =
      { s with verifications := s.verifications.update (fun y => y.id = x.id) (·.fail g r.now) (fail_keys g r.now) } := by
  have hstrip : Text.strip r.credential = r.credential := Text.strip_strip _
  have hcount : registerFailedAttempt g r.address r.now s = (if g.maxAttempts ≤ x.failedAttempts + 1 then some attemptsExceeded else none,
      { s with verifications := s.verifications.update (fun y => y.id = x.id) (·.fail g r.now) (fail_keys g r.now) }) := by
    rw [registerFailedAttempt, hx]
    simp [hlocked]
  unfold verifyEmail verifyEmailToken
  rw [hr]
  dsimp only
  rw [hstrip, if_neg (credential_of_refusal hr), hp]
  dsimp only
  rw [hcount]
  by_cases hmax : g.maxAttempts ≤ x.failedAttempts + 1
  · simp [if_pos hmax]
  · simp [if_neg hmax]

/-- A credential that matches a token in order verifies its user. -/
theorem verifyEmail_matched {r : VerifyRequest} {x : VerificationToken} {u : UserRow} (hr : r.refusal = none)
    (hp : r.pick.pick (matching (g.sha256 r.credential) (isSixDigits r.credential) r.address s) = some (x, u))
    (hlocked : x.lockedAt = none) (hattempts : x.failedAttempts < g.maxAttempts) (hverified : u.isEmailVerified = false)
    (hexpires : r.now < x.expiresAt) (hunused : x.usedAt = none) (hactive : u.isActive = true) :
    verifyEmail g r s = (.ok u.verify, markVerified u.id r.now s) := by
  have hstrip : Text.strip r.credential = r.credential := Text.strip_strip _
  unfold verifyEmail verifyEmailToken
  rw [hr]
  dsimp only
  rw [hstrip, if_neg (credential_of_refusal hr), hp]
  simp [hlocked, not_le.mpr hattempts, hverified, not_le.mpr hexpires, hunused, hactive]

end

end Auth
end FuelNear

/-
# The refresh tokens of Sign in with Apple

`decrypt_apple_refresh_token`, `revoke_apple_refresh_token` and
`queue_apple_revocation`. The ciphers and the requests to Apple are
parameters: what a ciphertext opens to, and what each request comes to. A
revocation gives the requests that it made beside its result.

A reply settles a token if Apple has revoked it, knows it no longer, or
rejects it for good. A revocation that makes requests ends as revoked, already
invalid or rejected exactly if one of its replies settles the token
(`revokeAttempts_settles`), which is the first one that is not to be tried again
(`settling_reply_iff`).

Key definitions: `Apple`, `Reply.judge`, `revokeAppleRefreshToken`, `queueAppleRevocation`, `SettledBy`.
Key theorems: `revokeAttempts_settles`, `settling_reply_iff`, `queueAppleRevocation_pending`.
-/
import FuelNear.Auth.Verification
import Mathlib.Tactic

namespace FuelNear
namespace Auth

open Sql

/-- The exceptions of `apple_auth_service`; `other` is any other one. -/
inductive AppleError where
  | configuration
  | tokenEncryption
  | tokenRevocationTemporary
  | tokenRevocation
  | other (name : String)
  deriving DecidableEq

/-- What `load_apple_oauth_config` raises. -/
inductive ConfigError where
  | configuration
  | other (name : String)
  deriving DecidableEq

def ConfigError.apple : ConfigError → AppleError
  | .configuration => .configuration
  | .other name => .other name

/-- The `error` of a body; an object or a list cannot be looked up in a set. -/
inductive ErrorCode where
  | text (code : String)
  | unhashable
  | absent
  deriving DecidableEq

/-- What a request to Apple comes to. -/
inductive Reply where
  | raises
  | response (statusCode : ℕ) (errorCode : ErrorCode)
  deriving DecidableEq

/-- `AppleTokenRevocationResult.status`. -/
inductive RevocationStatus where
  | revoked
  | alreadyInvalid
  deriving DecidableEq

structure AppleTokenRevocationResult where
  status : RevocationStatus
  attempts : ℕ
  deriving DecidableEq

/-- `AppleOAuthConfig`, as far as a revocation reads it. -/
structure AppleOAuthConfig where
  revokeMaxAttempts : ℕ
  pos : 0 < revokeMaxAttempts

/-- What `load_apple_oauth_config` gives, whether the client secret can be
signed, the decoding and decryption of a ciphertext, Apple's replies
(`reply token n` is the one to the request `n` for the token), and the setting
APPLE_REVOCATION_RETENTION_DAYS, if it is a number. -/
structure Apple where
  config : Except ConfigError AppleOAuthConfig
  signs : Bool
  openCiphertext : String → Option String
  reply : String → ℕ → Reply
  retentionDays : Option ℤ

/-! ### decrypt_apple_refresh_token -/

def decryptAppleRefreshToken (apple : Apple) (ciphertext : String) : Except AppleError String :=
  if Text.strip ciphertext = "" then .error .tokenEncryption
  else
    match apple.config with
    | .error e => .error e.apple
    | .ok _ =>
      match apple.openCiphertext (Text.strip ciphertext) with
      | none => .error .tokenEncryption
      | some token => if token = "" then .error .tokenEncryption else .ok token

/-! ### revoke_apple_refresh_token -/

/-- What one reply decides: an exception, an end, or another attempt. -/
def Reply.judge : Reply → Except AppleError (Option RevocationStatus)
  | .raises => .ok none
  | .response status code =>
    if status = 200 then .ok (some .revoked)
    else if status = 400 && code = .unhashable then .error (.other "TypeError")
    else if status = 400 && (code = .text "invalid_grant" || code = .text "invalid_token") then .ok (some .alreadyInvalid)
    else if (status = 400 || status = 401) && code = .text "invalid_client" then .error .configuration
    else if !([429, 500, 502, 503, 504].contains status) then .error .tokenRevocation
    else .ok none

/-- `n` attempts from `attempt` on. The last one raises what stands after the loop. -/
def revokeAttempts (reply : ℕ → Reply) (attempt : ℕ) : ℕ → List Reply × Except AppleError AppleTokenRevocationResult
  | 0 => ([], .error .tokenRevocationTemporary)
  | n + 1 =>
    match (reply attempt).judge with
    | .error e => ([reply attempt], .error e)
    | .ok (some status) => ([reply attempt], .ok ⟨status, attempt⟩)
    | .ok none =>
      let (replies, result) := revokeAttempts reply (attempt + 1) n
      (reply attempt :: replies, result)

/-- A request to revoke a token, with its reply. -/
structure Sent where
  token : String
  reply : Reply
  deriving DecidableEq

def revokeAppleRefreshToken (apple : Apple) (refreshToken : String) :
    List Sent × Except AppleError AppleTokenRevocationResult :=
  if Text.strip refreshToken = "" then ([], .error .tokenRevocation)
  else
    match apple.config with
    | .error e => ([], .error e.apple)
    | .ok selected =>
      if apple.signs then
        let (replies, result) := revokeAttempts (apple.reply (Text.strip refreshToken)) 1 selected.revokeMaxAttempts
        (replies.map fun r => ⟨Text.strip refreshToken, r⟩, result)
      else ([], .error .configuration)

/-! ### queue_apple_revocation -/

inductive QueueStatus where
  | pending
  | failed
  deriving DecidableEq

/-- A row of `apple_token_revocations`. -/
structure RevocationRow where
  id : ℤ
  tokenFingerprint : String
  tokenCiphertext : String
  status : QueueStatus
  attempts : ℕ
  nextAttemptAt : ℤ
  lastErrorCode : Option String
  expiresAt : ℤ
  deriving DecidableEq

def RevocationRow.keys (r : RevocationRow) : List (ℤ ⊕ String) := [.inl r.id, .inr r.tokenFingerprint]

abbrev Revocations := Table RevocationRow RevocationRow.keys

/-- The SET of ON CONFLICT (token_fingerprint). -/
def RevocationRow.requeue (ciphertext : String) (now : ℤ) (r : RevocationRow) : RevocationRow :=
  { r with tokenCiphertext := ciphertext, status := .pending, nextAttemptAt := now }

theorem requeue_keys (ciphertext : String) (now : ℤ) (r : RevocationRow) :
    (r.requeue ciphertext now).keys.Sublist r.keys := List.Sublist.refl _

/-- A day in microseconds. -/
def dayMicros : ℤ := 86400000000

/-- The id that the sequence gives, and `NOW()`. -/
structure QueueCall where
  id : ℤ
  now : ℤ
  deriving DecidableEq

def queueAppleRevocation (g : Settings) (apple : Apple) (c : QueueCall) (ciphertext : String) (q : Revocations) :
    Except AuthError Revocations :=
  if ciphertext = "" then .error (.valueError "Encrypted Apple token is required")
  else
    match apple.retentionDays with
    | none => .error (.valueError "APPLE_REVOCATION_RETENTION_DAYS")
    | some days =>
      if (q.find? fun r => r.tokenFingerprint = g.sha256 ciphertext).isSome then
        .ok (q.update (fun r => r.tokenFingerprint = g.sha256 ciphertext) (·.requeue ciphertext c.now)
          (requeue_keys ciphertext c.now))
      else
        match q.insert? ⟨c.id, g.sha256 ciphertext, ciphertext, .pending, 0, c.now, none, c.now + max 1 days * dayMicros⟩ with
        | some t => .ok t
        | none => .error (.database .unique)

/-! ### What settles a token -/

/-- Revoked, already invalid, or rejected for good. -/
def Reply.settles (r : Reply) : Bool := r.judge.toOption.join.isSome || r.judge = .error .tokenRevocation

/-- A result of the same kinds. -/
def settledResult : Except AppleError AppleTokenRevocationResult → Bool
  | .ok _ => true
  | .error e => e = .tokenRevocation

/-- One of the first `n` replies settles the token, after some that are to be
tried again. -/
def SettledBy (reply : ℕ → Reply) (attempt n : ℕ) : Prop :=
  ∃ k < n, (reply (attempt + k)).settles = true ∧ ∀ j < k, (reply (attempt + j)).judge = .ok none

variable {reply : ℕ → Reply} {attempt n : ℕ}

theorem not_settles_of_retry {r : Reply} (h : r.judge = .ok none) : r.settles = false := by
  simp [Reply.settles, h, Except.toOption]

theorem settles_of_some {r : Reply} {status : RevocationStatus} (h : r.judge = .ok (some status)) : r.settles = true := by
  simp [Reply.settles, h, Except.toOption]

theorem settles_of_error {r : Reply} {e : AppleError} (h : r.judge = .error e) :
    r.settles = decide (e = .tokenRevocation) := by
  simp [Reply.settles, h, Except.toOption]

@[simp] theorem settledBy_zero : ¬SettledBy reply attempt 0 := by
  rintro ⟨k, hk, -⟩
  omega

theorem settledBy_succ_of_retry (h : (reply attempt).judge = .ok none) :
    SettledBy reply attempt (n + 1) ↔ SettledBy reply (attempt + 1) n := by
  constructor
  · rintro ⟨k, hk, hsettles, hretry⟩
    cases k with
    | zero => rw [Nat.add_zero, not_settles_of_retry h] at hsettles; exact absurd hsettles (by simp)
    | succ k =>
      refine ⟨k, by omega, by rwa [Nat.add_right_comm], fun j hj => ?_⟩
      have := hretry (j + 1) (by omega)
      rwa [Nat.add_right_comm]
  · rintro ⟨k, hk, hsettles, hretry⟩
    refine ⟨k + 1, by omega, by rwa [← Nat.add_assoc, Nat.add_right_comm], fun j hj => ?_⟩
    cases j with
    | zero => exact h
    | succ j =>
      have := hretry j (by omega)
      rwa [← Nat.add_assoc, Nat.add_right_comm]

theorem settledBy_succ_of_end (h : (reply attempt).judge ≠ .ok none) :
    SettledBy reply attempt (n + 1) ↔ (reply attempt).settles = true := by
  constructor
  · rintro ⟨k, hk, hsettles, hretry⟩
    cases k with
    | zero => exact hsettles
    | succ k => exact absurd (hretry 0 (by omega)) h
  · intro hsettles
    exact ⟨0, by omega, hsettles, fun j hj => absurd hj (by omega)⟩

/-- A revocation ends as revoked, already invalid or rejected exactly if one of
the replies settles the token. -/
theorem revokeAttempts_settles (reply : ℕ → Reply) : ∀ (n attempt : ℕ),
    settledResult (revokeAttempts reply attempt n).2 = true ↔ ∃ r ∈ (revokeAttempts reply attempt n).1, r.settles = true
  | 0, attempt => by simp [revokeAttempts, settledResult]
  | n + 1, attempt => by
    unfold revokeAttempts
    split
    · next e he => simp [settledResult, settles_of_error he]
    · next status hs => simp [settledResult, settles_of_some hs]
    · next hr => simp [not_settles_of_retry hr, revokeAttempts_settles reply n (attempt + 1)]

/-- The reply that settles a token is the first one that is not to be tried
again. -/
theorem settling_reply_iff (reply : ℕ → Reply) : ∀ (n attempt : ℕ),
    (∃ r ∈ (revokeAttempts reply attempt n).1, r.settles = true) ↔ SettledBy reply attempt n
  | 0, attempt => by simp [revokeAttempts]
  | n + 1, attempt => by
    unfold revokeAttempts
    split
    · next e he => rw [settledBy_succ_of_end (by simp [he])]; simp
    · next status hs => rw [settledBy_succ_of_end (by simp [hs])]; simp
    · next hr =>
      rw [settledBy_succ_of_retry hr, ← settling_reply_iff reply n (attempt + 1)]
      simp [not_settles_of_retry hr]

/-! ### What is pending -/

/-- A revocation of the ciphertext is pending. -/
def Pending (q : Revocations) (ciphertext : String) : Prop :=
  ∃ r ∈ q.rows, r.tokenCiphertext = ciphertext ∧ r.status = .pending

instance (q : Revocations) (ciphertext : String) : Decidable (Pending q ciphertext) :=
  inferInstanceAs (Decidable (∃ r ∈ q.rows, _))

/-- It is pending under another fingerprint than `hash`. -/
def PendingBeside (q : Revocations) (hash ciphertext : String) : Prop :=
  ∃ r ∈ q.rows, r.tokenCiphertext = ciphertext ∧ r.status = .pending ∧ r.tokenFingerprint ≠ hash

/-- What is pending after a ciphertext is queued. -/
theorem queueAppleRevocation_pending {g : Settings} {apple : Apple} {c : QueueCall} {ciphertext : String} {q q' : Revocations}
    (h : queueAppleRevocation g apple c ciphertext q = .ok q') (y : String) :
    Pending q' y ↔ y = ciphertext ∨ PendingBeside q (g.sha256 ciphertext) y := by
  unfold queueAppleRevocation at h
  split at h
  · exact absurd h (by simp)
  split at h
  · exact absurd h (by simp)
  · next days _ =>
    split at h
    · next hfound =>
      obtain rfl := Except.ok.inj h
      obtain ⟨x, hx⟩ := Option.isSome_iff_exists.mp hfound
      have hxmem := Table.find?_mem hx
      have hxhash : x.tokenFingerprint = g.sha256 ciphertext := by simpa using Table.find?_prop hx
      constructor
      · rintro ⟨r, hr, hry, hpending⟩
        rw [← Table.mem_def, Table.mem_update] at hr
        obtain ⟨s, hs, rfl⟩ := hr
        by_cases hfp : s.tokenFingerprint = g.sha256 ciphertext
        · rw [if_pos (by simpa using hfp)] at hry
          exact .inl hry.symm
        · rw [if_neg (by simpa using hfp)] at hry hpending
          exact .inr ⟨s, hs, hry, hpending, hfp⟩
      · rintro (rfl | ⟨r, hr, hry, hpending, hfp⟩)
        · refine ⟨_, Table.mem_update_of_mem (requeue_keys _ c.now) hxmem, ?_⟩
          simp [hxhash, RevocationRow.requeue]
        · refine ⟨_, Table.mem_update_of_mem (requeue_keys _ c.now) hr, ?_⟩
          rw [if_neg (by simpa using hfp)]
          exact ⟨hry, hpending⟩
    · next hfound =>
      split at h
      · next t ht =>
        obtain rfl := Except.ok.inj h
        have hnone : ∀ r ∈ q, r.tokenFingerprint ≠ g.sha256 ciphertext := by
          rw [Option.not_isSome_iff_eq_none, Table.find?_eq_none] at hfound
          exact fun r hr => by simpa using hfound r hr
        constructor
        · rintro ⟨r, hr, hry, hpending⟩
          rcases (Table.mem_insert ht).mp hr with hr | rfl
          · exact .inr ⟨r, hr, hry, hpending, hnone r hr⟩
          · exact .inl hry.symm
        · rintro (rfl | ⟨r, hr, hry, hpending, -⟩)
          · exact ⟨_, (Table.mem_insert ht).mpr (.inr rfl), rfl, rfl⟩
          · exact ⟨r, (Table.mem_insert ht).mpr (.inl hr), hry, hpending⟩
      · exact absurd h (by simp)

end Auth
end FuelNear

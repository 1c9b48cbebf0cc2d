/-
# The Apple tokens of a deleted account

`delete_current_account`: it authenticates, looks up an Apple ciphertext, has
its token revoked, and deletes the account, on three connections. Other calls
may change the accounts between them, so each phase has the store that it
finds. A revocation that has failed for a time is queued in the transaction
that deletes the account. The devices and the creator attributions of the user
have their own tables and are left out.

The lookup takes one row, before the revocation: of the ciphertexts that are
deleted with the account, exactly those are accounted for that are the one it
took, hold the token that Apple settled, or were pending already
(`deletion_accounts_iff`). The ciphertext of a second Apple id, and one that a
sign-in stores in between, are dropped (`deletion_drops_token`).

Key definitions: `DeletionStore`, `deleteCurrentAccount`, `StoredFor`, `Accounted`, `Covered`.
Key theorems: `revokeStored_spec`, `accounted_iff`, `deletion_accounts_iff`.
-/
import FuelNear.Auth.AppleTokens
import FuelNear.Auth.Endpoints
import Mathlib.Tactic

namespace FuelNear
namespace Auth

open Sql

/-- The accounts, and the revocations that are to be tried again. -/
structure DeletionStore extends AccountStore where
  revocations : Revocations
  deriving DecidableEq

/-! ### delete_current_account -/

/-- The SELECT of the lookup, and `provider_row[0]`; `limit` takes its one row. -/
def lookupCiphertext (limit : Pick AuthProvider) (userId : ℤ) (s : AccountStore) : Option String :=
  (limit.pick (s.providers.rows.filter fun p => p.userId = userId && p.provider = .apple)).bind
    (·.appleRefreshTokenCiphertext)

/-- The `except` clauses of the revocation: `pending_apple_revocation`. -/
def pendingAfter : AppleError → Except AuthError Bool
  | .configuration => .ok true
  | .tokenRevocationTemporary => .ok true
  | .tokenEncryption => .ok true
  | .tokenRevocation => .ok false
  | .other name => .error (.other name)

/-- The `try` of the revocation. -/
def revokeStored (apple : Apple) (ciphertext : String) : List Sent × Except AuthError Bool :=
  match decryptAppleRefreshToken apple ciphertext with
  | .error e => ([], pendingAfter e)
  | .ok token =>
    match revokeAppleRefreshToken apple token with
    | (sent, .ok _) => (sent, .ok false)
    | (sent, .error e) => (sent, pendingAfter e)

/-- `DELETE FROM users`, with what the foreign keys delete. -/
def AccountStore.deleteUser (userId : ℤ) (s : AccountStore) : AccountStore where
  users := s.users.delete fun u => u.id = userId
  providers := s.providers.delete fun p => p.userId = userId
  sessions := s.sessions.delete fun x => x.userId = userId
  verifications := s.verifications.delete fun r => r.userId = userId

/-- Its last `except` clause. -/
def deletionError : AuthError → AuthError
  | .valueError _ => .http 500 "Account deletion failed"
  | .database _ => .http 500 "Account deletion failed"
  | .other _ => .http 500 "Account deletion failed"
  | e => e

/-- The transaction of the deletion; `queued` is the ciphertext whose revocation is pending. -/
def deleteAccount (g : AccountSettings) (apple : Apple) (c : QueueCall) (queued : Option String) (userId : ℤ)
    (s : DeletionStore) : Except AuthError DeletionStore :=
  (do
    let revocations ← queued.elim (.ok s.revocations) fun y => queueAppleRevocation g.toSettings apple c y s.revocations
    if (s.user? userId).isSome then return ⟨s.toAccountStore.deleteUser userId, revocations⟩
    else throw userNotFound
    : Except AuthError DeletionStore).mapError deletionError

structure DeleteCall where
  authorization : Option String
  now : ℤ
  limit : Pick AuthProvider
  queue : QueueCall

/-- The stores that the three connections find. -/
structure Phases where
  authenticating : AccountStore
  lookingUp : AccountStore
  deleting : DeletionStore

/-- The requests to Apple, and the store that is committed. -/
def deleteCurrentAccount (g : AccountSettings) (apple : Apple) (c : DeleteCall) (p : Phases) :
    List Sent × Except AuthError DeletionStore :=
  match currentUser g.toSettings c.authorization c.now p.authenticating.toStore with
  | .error e => ([], .error e)
  | .ok user =>
    match (lookupCiphertext c.limit user.id p.lookingUp).filter (· ≠ "") with
    | none => ([], deleteAccount g apple c.queue none user.id p.deleting)
    | some ciphertext =>
      match revokeStored apple ciphertext with
      | (sent, .error e) => (sent, .error e)
      | (sent, .ok pending) =>
        (sent, deleteAccount g apple c.queue (if pending then some ciphertext else none) user.id p.deleting)

/-! ### What has become of a ciphertext -/

/-- A ciphertext is stored for the user. -/
def StoredFor (userId : ℤ) (s : AccountStore) (y : String) : Prop :=
  y ≠ "" ∧ ∃ p ∈ s.providers.rows, p.userId = userId ∧ p.provider = .apple ∧ p.appleRefreshTokenCiphertext = some y

instance (userId : ℤ) (s : AccountStore) (y : String) : Decidable (StoredFor userId s y) :=
  inferInstanceAs (Decidable (_ ∧ ∃ p ∈ s.providers.rows, _))

/-- The token of a ciphertext, as it is sent. -/
def Apple.tokenOf (apple : Apple) (y : String) : Option String := (apple.openCiphertext (Text.strip y)).map Text.strip

/-- Apple was asked to revoke its token and has settled it, or a revocation is pending. -/
def Accounted (apple : Apple) (sent : List Sent) (q : Revocations) (y : String) : Prop :=
  (∃ x ∈ sent, apple.tokenOf y = some x.token ∧ x.reply.settles = true) ∨ Pending q y

instance (apple : Apple) (sent : List Sent) (q : Revocations) (y : String) : Decidable (Accounted apple sent q y) :=
  inferInstanceAs (Decidable ((∃ x ∈ sent, _) ∨ _))

/-! ### When it is accounted for -/

/-- The ciphertext can be decrypted, and Apple settles its token. -/
def Apple.Settles (apple : Apple) (y : String) : Prop :=
  Text.strip y ≠ "" ∧ apple.signs = true ∧ ∃ config token, apple.config = .ok config ∧
    apple.openCiphertext (Text.strip y) = some token ∧ Text.strip token ≠ "" ∧
      SettledBy (apple.reply (Text.strip token)) 1 config.revokeMaxAttempts

/-- The ciphertext can be decrypted, but to blanks only: no request is made. -/
def Apple.Blank (apple : Apple) (y : String) : Prop :=
  Text.strip y ≠ "" ∧ ∃ config token, apple.config = .ok config ∧
    apple.openCiphertext (Text.strip y) = some token ∧ token ≠ "" ∧ Text.strip token = ""

/-- The deletion accounts for `y` when its lookup has found `found`, and the
transaction finds the queue `q`. -/
inductive Covered (g : Settings) (apple : Apple) (found : Option String) (q : Revocations) (y : String) : Prop where
  | found (same : found = some y) (nonblank : ¬apple.Blank y)
  | sameToken {c} (other : found = some c) (settles : apple.Settles c) (token : apple.tokenOf y = apple.tokenOf c)
  | pending {r} (mem : r ∈ q.rows) (ciphertext : r.tokenCiphertext = y) (status : r.status = .pending)
      (kept : ∀ c, found = some c → r.tokenFingerprint = g.sha256 c → apple.Settles c ∨ apple.Blank c)

variable {g : AccountSettings} {apple : Apple} {y c : String} {sent : List Sent} {pending : Bool}

theorem decrypt_ok {token : String} (h : decryptAppleRefreshToken apple c = .ok token) :
    Text.strip c ≠ "" ∧ (∃ config, apple.config = .ok config) ∧ apple.openCiphertext (Text.strip c) = some token ∧
      token ≠ "" := by
  unfold decryptAppleRefreshToken at h
  split at h
  · exact absurd h (by simp)
  · next hblank =>
    split at h
    · exact absurd h (by simp)
    · next config hconfig =>
      split at h
      · exact absurd h (by simp)
      · next x hx =>
        split_ifs at h with hempty
        obtain rfl := Except.ok.inj h
        exact ⟨hblank, ⟨config, hconfig⟩, hx, hempty⟩

/-- What can be decrypted is not refused. -/
theorem decrypt_of_open {token : String} {config : AppleOAuthConfig} (hblank : Text.strip c ≠ "")
    (hconfig : apple.config = .ok config) (hopen : apple.openCiphertext (Text.strip c) = some token) (htoken : token ≠ "") :
    decryptAppleRefreshToken apple c = .ok token := by
  rw [decryptAppleRefreshToken, if_neg hblank]
  simp [hconfig, hopen, htoken]

theorem decrypt_error {e : AppleError} (h : decryptAppleRefreshToken apple c = .error e) : e ≠ .tokenRevocation := by
  rintro rfl
  unfold decryptAppleRefreshToken at h
  split at h
  · exact absurd h (by simp)
  · split at h
    · next e _ => cases e <;> exact absurd h (by simp [ConfigError.apple])
    · split at h
      · exact absurd h (by simp)
      · split_ifs at h
        exact absurd h (by simp)

/-- A failed decryption is of no ciphertext that Apple settles. -/
theorem not_settles_of_decrypt {e : AppleError} (h : decryptAppleRefreshToken apple c = .error e) :
    ¬apple.Settles c ∧ ¬apple.Blank c := by
  constructor
  · rintro ⟨hblank, -, config, token, hconfig, hopen, htoken, -⟩
    have hne : token ≠ "" := fun h0 => htoken (by rw [h0]; rfl)
    rw [decrypt_of_open hblank hconfig hopen hne] at h
    exact absurd h (by simp)
  · rintro ⟨hblank, config, token, hconfig, hopen, htoken, -⟩
    rw [decrypt_of_open hblank hconfig hopen htoken] at h
    exact absurd h (by simp)

/-- Whether Apple settles what is in a ciphertext that can be decrypted. -/
theorem opened {token : String} (hc : Text.strip c ≠ "") (hopen : apple.openCiphertext (Text.strip c) = some token)
    (hblank : Text.strip token ≠ "") :
    ¬apple.Blank c ∧ (apple.Settles c ↔ apple.signs = true ∧ ∃ config, apple.config = .ok config ∧
      SettledBy (apple.reply (Text.strip token)) 1 config.revokeMaxAttempts) := by
  constructor
  · rintro ⟨-, config, token', -, hopen', -, hblank'⟩
    obtain rfl : token = token' := Option.some.inj (hopen.symm.trans hopen')
    exact hblank hblank'
  · constructor
    · rintro ⟨-, hsigns, config, token', hconfig, hopen', -, hsettled⟩
      obtain rfl : token = token' := Option.some.inj (hopen.symm.trans hopen')
      exact ⟨hsigns, config, hconfig, hsettled⟩
    · rintro ⟨hsigns, config, hconfig, hsettled⟩
      exact ⟨hc, hsigns, config, token, hconfig, hopen, hblank, hsettled⟩

theorem Apple.Settles.not_blank (h : apple.Settles c) : ¬apple.Blank c := by
  obtain ⟨hc, -, -, token, -, hopen, hblank, -⟩ := h
  exact (opened hc hopen hblank).1

theorem settledResult_apple (e : ConfigError) : settledResult (.error e.apple) = false := by
  cases e <;> rfl

/-- The requests of a revocation are for its token, and its result says whether
one of the replies has settled it. -/
theorem revoke_spec {token : String} {result : Except AppleError AppleTokenRevocationResult}
    (hblank : Text.strip token ≠ "") (h : revokeAppleRefreshToken apple token = (sent, result)) :
    (∀ x ∈ sent, x.token = Text.strip token) ∧ (settledResult result = true ↔ ∃ x ∈ sent, x.reply.settles = true) ∧
      (settledResult result = true ↔ apple.signs = true ∧ ∃ config, apple.config = .ok config ∧
        SettledBy (apple.reply (Text.strip token)) 1 config.revokeMaxAttempts) := by
  rw [revokeAppleRefreshToken, if_neg hblank] at h
  split at h
  · next e he =>
    obtain ⟨rfl, rfl⟩ := Prod.mk.inj h
    simp [settledResult_apple, he]
  · next config hconfig =>
    split at h
    · next hsigns =>
      have hattempts := revokeAttempts_settles (apple.reply (Text.strip token)) config.revokeMaxAttempts 1
      have hsettling := settling_reply_iff (apple.reply (Text.strip token)) config.revokeMaxAttempts 1
      obtain ⟨rfl, rfl⟩ := Prod.mk.inj h
      refine ⟨by simp, ?_, ?_⟩
      · rw [hattempts]
        simp
      · rw [hattempts, hsettling]
        simp [hsigns, hconfig]
    · next hsigns =>
      obtain ⟨rfl, rfl⟩ := Prod.mk.inj h
      simp [settledResult, hsigns]

/-- What the phase of the revocation leaves, when the deletion goes on. -/
inductive Revocation (apple : Apple) (c : String) (sent : List Sent) : Bool → Prop where
  | queued (unsettled : ¬apple.Settles c) (nonblank : ¬apple.Blank c) (replies : ∀ x ∈ sent, x.reply.settles = false) :
      Revocation apple c sent true
  | settled (settles : apple.Settles c) (tokens : ∀ x ∈ sent, apple.tokenOf c = some x.token)
      (replies : ∃ x ∈ sent, x.reply.settles = true) : Revocation apple c sent false
  | blank (blank : apple.Blank c) (none : sent = []) : Revocation apple c sent false

theorem pendingAfter_of_unsettled {e : AppleError} (h : pendingAfter e = .ok pending) (he : e ≠ .tokenRevocation) :
    pending = true := by
  cases e <;> simp_all [pendingAfter]

theorem revokeStored_spec (h : revokeStored apple c = (sent, .ok pending)) : Revocation apple c sent pending := by
  unfold revokeStored at h
  split at h
  · next e he =>
    obtain ⟨rfl, hpending⟩ := Prod.mk.inj h
    obtain ⟨hsettles, hblank⟩ := not_settles_of_decrypt he
    rw [pendingAfter_of_unsettled hpending (decrypt_error he)]
    exact .queued hsettles hblank (by simp)
  · next token htoken =>
    obtain ⟨hc, ⟨config, hconfig⟩, hopen, hne⟩ := decrypt_ok htoken
    by_cases hblank : Text.strip token = ""
    · rw [revokeAppleRefreshToken, if_pos hblank] at h
      obtain ⟨rfl, hpending⟩ := Prod.mk.inj h
      obtain rfl : false = pending := Except.ok.inj hpending
      exact .blank ⟨hc, config, token, hconfig, hopen, hne, hblank⟩ rfl
    · obtain ⟨hnonblank, hsettles⟩ := opened hc hopen hblank
      rcases hrevoke : revokeAppleRefreshToken apple token with ⟨sent', result⟩
      obtain ⟨htokens, hreplies, hsettled⟩ := revoke_spec hblank hrevoke
      rw [← hsettles] at hsettled
      rw [hrevoke] at h
      have hof : ∀ x ∈ sent', apple.tokenOf c = some x.token := fun x hx => by simp [Apple.tokenOf, hopen, htokens x hx]
      cases result with
      | ok r =>
        obtain ⟨rfl, hpending⟩ := Prod.mk.inj h
        obtain rfl : false = pending := Except.ok.inj hpending
        exact .settled (hsettled.mp rfl) hof (hreplies.mp rfl)
      | error e =>
        obtain ⟨rfl, hpending⟩ := Prod.mk.inj h
        by_cases he : e = .tokenRevocation
        · subst he
          obtain rfl : false = pending := Except.ok.inj hpending
          exact .settled (hsettled.mp rfl) hof (hreplies.mp rfl)
        · rw [pendingAfter_of_unsettled hpending he]
          have hnot : settledResult (.error e) ≠ true := by simpa [settledResult] using he
          refine .queued (fun hs => hnot (hsettled.mpr hs)) hnonblank fun x hx => ?_
          by_contra hr
          exact hnot (hreplies.mpr ⟨x, hx, by simpa using hr⟩)

theorem deleteAccount_revocations {d : QueueCall} {queued : Option String} {userId : ℤ} {s t : DeletionStore}
    (h : deleteAccount g apple d queued userId s = .ok t) :
    queued.elim (.ok s.revocations) (fun x => queueAppleRevocation g.toSettings apple d x s.revocations) =
      .ok t.revocations := by
  rw [deleteAccount, mapError_eq_ok] at h
  obtain ⟨q, hq, h1⟩ := bind_eq_ok.mp h
  split_ifs at h1
  obtain rfl := Except.ok.inj h1
  exact hq

/-- The requests and the commit of a deletion, by what its lookup found. -/
theorem deleteCurrentAccount_spec {d : DeleteCall} {p : Phases} {user : UserRow} {t : DeletionStore}
    (hu : currentUser g.toSettings d.authorization d.now p.authenticating.toStore = .ok user)
    (h : deleteCurrentAccount g apple d p = (sent, .ok t)) :
    ((lookupCiphertext d.limit user.id p.lookingUp).filter (· ≠ "") = none ∧ sent = [] ∧
      t.revocations = p.deleting.revocations) ∨
    ∃ x pending, (lookupCiphertext d.limit user.id p.lookingUp).filter (· ≠ "") = some x ∧
      Revocation apple x sent pending ∧
      if pending then queueAppleRevocation g.toSettings apple d.queue x p.deleting.revocations = .ok t.revocations
      else t.revocations = p.deleting.revocations := by
  unfold deleteCurrentAccount at h
  rw [hu] at h
  dsimp only at h
  split at h
  · next hnone =>
    obtain ⟨rfl, ht⟩ := Prod.mk.inj h
    exact .inl ⟨hnone, rfl, (Except.ok.inj (deleteAccount_revocations ht)).symm⟩
  · next x hx =>
    split at h
    · exact absurd (Prod.mk.inj h).2 (by simp)
    · next sent' pending hrevoke =>
      obtain ⟨rfl, ht⟩ := Prod.mk.inj h
      refine .inr ⟨x, pending, hx, revokeStored_spec hrevoke, ?_⟩
      have hq := deleteAccount_revocations ht
      cases pending with
      | true => exact hq
      | false => exact (Except.ok.inj hq).symm

/-- A stored ciphertext is accounted for exactly if it is covered. -/
theorem accounted_iff {d : DeleteCall} {p : Phases} {user : UserRow} {t : DeletionStore}
    (hu : currentUser g.toSettings d.authorization d.now p.authenticating.toStore = .ok user)
    (h : deleteCurrentAccount g apple d p = (sent, .ok t)) (y : String) :
    Accounted apple sent t.revocations y ↔
      Covered g.toSettings apple ((lookupCiphertext d.limit user.id p.lookingUp).filter (· ≠ "")) p.deleting.revocations y := by
  rcases deleteCurrentAccount_spec hu h with ⟨hfound, rfl, hq⟩ | ⟨x, pending, hfound, hrevocation, hq⟩
  · rw [hfound, hq]
    constructor
    · rintro (⟨x, hx, -⟩ | ⟨r, hr, hry, hpending⟩)
      · exact absurd hx List.not_mem_nil
      · exact .pending hr hry hpending (by simp)
    · rintro (⟨same, -⟩ | ⟨other, -, -⟩ | ⟨hr, hry, hpending, -⟩)
      · exact absurd same (by simp)
      · exact absurd other (by simp)
      · exact .inr ⟨_, hr, hry, hpending⟩
  · rw [hfound]
    cases hrevocation with
    | queued unsettled nonblank replies =>
      have hafter := queueAppleRevocation_pending hq y
      constructor
      · rintro (⟨z, hz, -, hsettles⟩ | hp)
        · exact absurd hsettles (by simp [replies z hz])
        · rcases hafter.mp hp with rfl | ⟨r, hr, hry, hpending, hfp⟩
          · exact .found rfl nonblank
          · refine .pending hr hry hpending fun c hc hsame => ?_
            obtain rfl := Option.some.inj hc
            exact absurd hsame hfp
      · rintro (⟨same, -⟩ | ⟨other, settles, -⟩ | ⟨hr, hry, hpending, kept⟩)
        · exact .inr (hafter.mpr (.inl (Option.some.inj same).symm))
        · obtain rfl := Option.some.inj other
          exact absurd settles unsettled
        · refine .inr (hafter.mpr (.inr ⟨_, hr, hry, hpending, fun hsame => ?_⟩))
          exact (kept x rfl hsame).elim unsettled nonblank
    | settled settles tokens replies =>
      obtain ⟨z, hz, hzsettles⟩ := replies
      have hq : t.revocations = p.deleting.revocations := hq
      rw [hq]
      constructor
      · rintro (⟨w, hw, htoken, -⟩ | ⟨r, hr, hry, hpending⟩)
        · exact .sameToken rfl settles (htoken.trans (tokens w hw).symm)
        · exact .pending hr hry hpending fun c hc _ => .inl (Option.some.inj hc ▸ settles)
      · rintro (⟨same, -⟩ | ⟨other, -, token⟩ | ⟨hr, hry, hpending, -⟩)
        · exact .inl ⟨z, hz, Option.some.inj same ▸ tokens z hz, hzsettles⟩
        · obtain rfl := Option.some.inj other
          exact .inl ⟨z, hz, token.trans (tokens z hz), hzsettles⟩
        · exact .inr ⟨_, hr, hry, hpending⟩
    | blank blank none =>
      have hq : t.revocations = p.deleting.revocations := hq
      rw [hq, none]
      constructor
      · rintro (⟨w, hw, -⟩ | ⟨r, hr, hry, hpending⟩)
        · exact absurd hw List.not_mem_nil
        · exact .pending hr hry hpending fun c hc _ => .inr (Option.some.inj hc ▸ blank)
      · rintro (⟨same, nonblank⟩ | ⟨other, settles, -⟩ | ⟨hr, hry, hpending, -⟩)
        · exact absurd (Option.some.inj same ▸ blank) nonblank
        · obtain rfl := Option.some.inj other
          exact absurd blank settles.not_blank
        · exact .inr ⟨_, hr, hry, hpending⟩

/-- **Which Apple tokens a deletion drops.** Other calls may run between its
phases. When it commits, every ciphertext stored for the user is accounted for,
exactly if each is the one that the lookup found (and not blank), holds its
token and Apple settled that, or was pending already. -/
theorem deletion_accounts_iff (g : AccountSettings) (apple : Apple) (d : DeleteCall) (p : Phases) {user : UserRow}
    {sent : List Sent} {t : DeletionStore}
    (hu : currentUser g.toSettings d.authorization d.now p.authenticating.toStore = .ok user)
    (h : deleteCurrentAccount g apple d p = (sent, .ok t)) :
    (∀ y, StoredFor user.id p.deleting.toAccountStore y → Accounted apple sent t.revocations y) ↔
      ∀ y, StoredFor user.id p.deleting.toAccountStore y →
        Covered g.toSettings apple ((lookupCiphertext d.limit user.id p.lookingUp).filter (· ≠ ""))
          p.deleting.revocations y := by
  refine forall_congr' fun y => forall_congr' fun _ => ?_
  exact accounted_iff hu h y

/-! ### Three deletions -/

/-- What the deletion of an account finds, if other calls run before its lookup
and before its transaction. -/
def phasesOf (g : AccountSettings) (first second : List Call) : Phases :=
  let lookingUp := first.foldl (fun s c => (respond g c s).2) emptyAccounts
  ⟨lookingUp, lookingUp, ⟨second.foldl (fun s c => (respond g c s).2) lookingUp, Table.empty⟩⟩

/-- A sign-in with the first Apple id of the user. -/
def firstSignIn (ciphertext access : String) (sessionId : ℤ) : Call :=
  .signIn ⟨.apple, "subject-1", some "ada@example.org", true, some ciphertext, 1, 1,
    ⟨none, ⟨access, access ++ "-refresh"⟩, sessionId, 0, 0⟩⟩

/-- A second Apple id with the same email. -/
def secondSignIn : Call :=
  .signIn ⟨.apple, "subject-2", some "ada@example.org", true, some "box:two", 2, 2, ⟨none, ⟨"a2", "r2"⟩, 8, 0, 0⟩⟩

/-- Two ciphertexts open, and Apple answers every request with the status. -/
def sampleApple (statusCode : ℕ) : Apple where
  config := .ok ⟨3, by decide⟩
  signs := true
  openCiphertext y := if y = "box:one" then some "one" else if y = "box:two" then some "two" else none
  reply _ _ := .response statusCode .absent
  retentionDays := some 30

def sampleDelete : DeleteCall := ⟨some "Bearer a1", 0, Pick.first _, ⟨1, 0⟩⟩

/-- One Apple id. -/
def oneId : Phases := phasesOf sampleAccounts [firstSignIn "box:one" "a1" 7] []

/-- Two Apple ids. -/
def twoIds : Phases := phasesOf sampleAccounts [firstSignIn "box:one" "a1" 7, secondSignIn] []

/-- A sign-in between the lookup and the deletion. -/
def signInBetween : Phases :=
  phasesOf sampleAccounts [firstSignIn "box:one" "a1" 7] [firstSignIn "box:two" "a2" 8]

/-- The requests of the sample deletion, and the store that it commits. -/
def requests (statusCode : ℕ) (p : Phases) : List Sent :=
  (deleteCurrentAccount sampleAccounts (sampleApple statusCode) sampleDelete p).1

def committed (statusCode : ℕ) (p : Phases) : DeletionStore :=
  (deleteCurrentAccount sampleAccounts (sampleApple statusCode) sampleDelete p).2.toOption.getD p.deleting

/-- One Apple id, and Apple is not available: the revocation is pending. -/
theorem deletion_accounts_sample : StoredFor 1 oneId.deleting.toAccountStore "box:one" ∧
    ∀ y, StoredFor 1 oneId.deleting.toAccountStore y →
      Accounted (sampleApple 503) (requests 503 oneId) (committed 503 oneId).revocations y := by
  have hu : currentUser sampleAccounts.toSettings sampleDelete.authorization sampleDelete.now oneId.authenticating.toStore =
      .ok ⟨1, "ada@example.org", none, true, true⟩ := by decide +kernel
  have hcommit : deleteCurrentAccount sampleAccounts (sampleApple 503) sampleDelete oneId =
      (requests 503 oneId, .ok (committed 503 oneId)) := by decide +kernel
  have hfound : (lookupCiphertext sampleDelete.limit 1 oneId.lookingUp).filter (· ≠ "") = some "box:one" := by decide +kernel
  have hrows : oneId.deleting.providers.rows.map (·.appleRefreshTokenCiphertext) = [some "box:one"] := by decide +kernel
  have hnonblank : ¬(sampleApple 503).Blank "box:one" := by
    rintro ⟨-, config, token, -, hopen, -, hblank⟩
    obtain rfl : "one" = token := Option.some.inj hopen
    exact absurd hblank (by decide)
  refine ⟨by decide +kernel,
    (deletion_accounts_iff sampleAccounts (sampleApple 503) sampleDelete oneId hu hcommit).mpr ?_⟩
  rintro y ⟨-, r, hr, -, -, hy⟩
  have hmem : some y ∈ oneId.deleting.providers.rows.map (·.appleRefreshTokenCiphertext) :=
    List.mem_map.mpr ⟨r, hr, hy⟩
  obtain rfl : y = "box:one" := by simpa [hrows] using hmem
  exact .found hfound hnonblank

/-- Apple revokes the token that it is sent, and the other ciphertext is gone. -/
theorem deletion_drops_token :
    (deleteCurrentAccount sampleAccounts (sampleApple 200) sampleDelete twoIds).2 = .ok (committed 200 twoIds) ∧
      StoredFor 1 twoIds.deleting.toAccountStore "box:two" ∧
      ¬Accounted (sampleApple 200) (requests 200 twoIds) (committed 200 twoIds).revocations "box:two" ∧
    (deleteCurrentAccount sampleAccounts (sampleApple 200) sampleDelete signInBetween).2 = .ok (committed 200 signInBetween) ∧
      StoredFor 1 signInBetween.deleting.toAccountStore "box:two" ∧
      ¬Accounted (sampleApple 200) (requests 200 signInBetween) (committed 200 signInBetween).revocations "box:two" := by
  decide +kernel

end Auth
end FuelNear

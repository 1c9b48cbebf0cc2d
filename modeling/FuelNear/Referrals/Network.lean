/-
# Invitations

Who invited whom: `users.referred_by_user_id`, the rows of `referrals`, and the
rewards for them. A new user comes with the code of another, from the
registration or from the first sign-in with a provider, or applies one within
a day; a batch of pending referrals is processed; an account is deleted, with
the trigger on `users` and what the foreign keys do. A call is one
transaction, and one that raises leaves the store as it was.

A creator code has tables of its own; of its attribution here is whether it
raises, and the reward that it inserts. The rate limits and the authentication
come before the transaction: the calls here have passed them.

Key definitions: `Member`, `ReferralRow`, `Network`, `classifyRegistrationInvite`, `registerUser`,
`authenticateWithProvider`, `applyCurrentUserReferralCode`, `processBatch`, `deleteUser`, `NetworkCall`.
Key theorems: `apply_store`, `overlay_store`.
-/
import FuelNear.Auth.Deletion
import FuelNear.Creator.Attribution
import FuelNear.Foreign
import FuelNear.Referrals.Batches

namespace FuelNear
namespace Referrals

open Sql Plus Auth Text

/-! ### The tables -/

/-- `PERSONAL_REFERRAL_CODE_PATTERN`, on the whole text. -/
def isValidPersonalReferralCode (x : String) : Bool :=
  x.toList.length = 8 && x.toList.all fun c => c.isUpper || c.isDigit

/-- A text with `users_referral_code_format_check`. -/
abbrev PersonalCode := { x : String // isValidPersonalReferralCode x = true }

/-- A row of `users`, with its columns of the referral program. -/
structure Member extends Auth.UserRow where
  referralCode : PersonalCode
  referredByUserId : Option ℤ
  createdAt : ℤ
  deriving DecidableEq

/-- The primary key, the email, and the code. -/
def Member.keys (m : Member) : List (ℤ ⊕ String ⊕ String) :=
  [.inl m.id, .inr (.inl m.email), .inr (.inr m.referralCode)]

/-- A row of `referrals`, with the column that the trigger sets. -/
structure ReferralRow extends Referral where
  referredUserDeleted : Bool
  deriving DecidableEq

def ReferralRow.keys (r : ReferralRow) : List (ℤ ⊕ ℤ) := r.toReferral.keys

structure Network where
  users : Table Member Member.keys
  providers : Table AuthProvider AuthProvider.keys
  sessions : Sessions
  verifications : Table VerificationToken VerificationToken.keys
  referrals : Table ReferralRow ReferralRow.keys
  rewards : StoredRewards
  deriving DecidableEq

theorem account_keys (m : Member) : ((m.toUserRow.keys).map (Sum.map id Sum.inl)).Sublist m.keys :=
  ((List.nil_sublist _).cons_cons _).cons_cons _

namespace Network

def empty : Network := ⟨.empty, .empty, .empty, .empty, .empty, .empty⟩

def user? (s : Network) (id : ℤ) : Option Member := s.users.find? fun u => u.id = id

def userByEmail? (s : Network) (email : String) : Option Member := s.users.find? fun u => u.email = email

/-- The columns of an account. -/
def accounts (s : Network) : AccountStore where
  users := s.users.project Member.toUserRow (Sum.map id Sum.inl) account_keys
  providers := s.providers
  sessions := s.sessions
  verifications := s.verifications

/-- The columns that the processing reads. -/
def store (s : Network) : Store where
  users := s.users.project (fun m => (⟨m.id, m.isActive, m.isEmailVerified⟩ : UserRow)) Sum.inl fun _ => by
    simp [UserRow.keys, Member.keys]
  referrals := s.referrals.project ReferralRow.toReferral id fun _ => by simp [ReferralRow.keys]
  rewards := s.rewards

/-! ### The codes -/

/-- `resolve_active_referrer_id`. -/
def resolveActiveReferrerId (s : Network) (code : PersonalCode) : Except AuthError ℤ :=
  match s.users.find? fun u => u.referralCode = code && u.isActive with
  | none => .error (.api 400 "REFERRAL_CODE_INVALID" "Invalid referral code")
  | some u => .ok u.id

/-- `generate_unique_referral_code`, with the codes that it draws. -/
def generateUniqueReferralCode (s : Network) (candidates : List PersonalCode) : Except AuthError PersonalCode :=
  match (candidates.take 20).find? fun code => (s.users.find? fun u => u.referralCode = code).isNone with
  | none => .error (.other "RuntimeError")
  | some code => .ok code

end Network

/-- `normalize_referral_code_input`. -/
def normalizeReferralCodeInput (referralCode : Option String) : Except AuthError (Option PersonalCode) :=
  let normalized := upper (strip (referralCode.getD ""))
  if normalized = "" then .ok none
  else if h : isValidPersonalReferralCode normalized = true then .ok (some ⟨normalized, h⟩)
  else .error (.api 400 "REFERRAL_CODE_INVALID" "Invalid referral code")

/-- `classify_registration_invite`: a personal code, or a creator code, or none. -/
def classifyRegistrationInvite (referralCode inviteCode : Option String) :
    Except AuthError (Option PersonalCode × Option String) :=
  let present (code : Option String) : Bool := strip (code.getD "") ≠ ""
  if present referralCode && present inviteCode then
    .error (.api 400 "INVITE_CODE_AMBIGUOUS" "Provide either referral_code or invite_code, not both")
  else if present referralCode then (normalizeReferralCodeInput referralCode).map (·, none)
  else if !present inviteCode then .ok (none, none)
  else
    let normalized := upper (strip (inviteCode.getD ""))
    if h : isValidPersonalReferralCode normalized = true then .ok (some ⟨normalized, h⟩, none)
    else
      match Creator.normalizeCreatorCode normalized with
      | .ok creatorCode => .ok (none, some creatorCode)
      | .error _ => .error (.api 400 "INVITE_CODE_INVALID" "Invalid invite code")

/-! ### The INSERTs -/

namespace Network

/-- `INSERT INTO users`, with the foreign key of the referrer. -/
def insertUser (m : Member) (s : Network) : Except AuthError Network :=
  match s.users.insert? m with
  | none => .error (.database .unique)
  | some users =>
    if m.referredByUserId.all fun i => (users.find? fun u => u.id = i).isSome then .ok { s with users }
    else .error (.database .foreignKey)

end Network

/-- The row of the INSERT, with the defaults of the table. -/
def newReferral (id referrerId referredId : ℤ) (code : PersonalCode) (now : ℤ) : ReferralRow where
  id := id
  referrerUserId := referrerId
  referredUserId := some referredId
  referralCodeUsed := code
  status := .pending
  statusReason := some "awaiting_eligibility"
  validatedAt := none
  createdAt := now
  updatedAt := now
  referredUserDeleted := false

namespace Network

/-- `create_pending_referral`; both users are there, or the INSERT violates a foreign key. -/
def createPendingReferral (id referrerId referredId : ℤ) (code : PersonalCode) (now : ℤ) (s : Network) :
    Except AuthError Network :=
  match s.referrals.insert? (newReferral id referrerId referredId code now) with
  | none => .error (.database .unique)
  | some referrals =>
    if (s.user? referrerId).isSome && (s.user? referredId).isSome then .ok { s with referrals }
    else .error (.database .foreignKey)

end Network

/-- The reward of a creator attribution. -/
structure CreatorGrant where
  rewardId : ℤ
  occurredAt : ℤ
  deriving DecidableEq

/-- `apply_registration_creator_attribution`, as far as it writes into these
tables; it may raise. -/
def Network.attributeCreator (attribution : Except AuthError CreatorGrant) (creatorCode : Option String) (userId : ℤ)
    (s : Network) : Except AuthError Network :=
  match creatorCode with
  | none => .ok s
  | some _ => do
    let grant ← attribution
    match s.rewards.insert? (Creator.promoReward grant.rewardId userId grant.occurredAt 7) with
    | some rewards => return { s with rewards }
    | none => throw (.database .unique)

/-! ### A new user -/

/-- What a new user comes with: the two codes as they were entered, the codes
drawn for the user, the id of the referral, and the outcome of the creator attribution. -/
structure Invite where
  referralCode : Option String
  inviteCode : Option String
  candidates : List PersonalCode
  referralId : ℤ
  attribution : Except AuthError CreatorGrant

/-- The referral of a new user, if a code was given. -/
def Network.createReferral (referralId : ℤ) (code : Option PersonalCode) (referrer : Option ℤ) (userId now : ℤ)
    (s : Network) : Except AuthError Network :=
  match code, referrer with
  | some code, some referrerId => s.createPendingReferral referralId referrerId userId code now
  | _, _ => .ok s

/-- The INSERT of the user, of the referral, and the creator attribution. -/
def Network.admit (i : Invite) (code : Option PersonalCode) (creatorCode : Option String) (referrer : Option ℤ)
    (account : Auth.UserRow) (now : ℤ) (s : Network) : Except AuthError Network := do
  let own ← s.generateUniqueReferralCode i.candidates
  let t ← s.insertUser { toUserRow := account, referralCode := own, referredByUserId := referrer, createdAt := now }
  let u ← t.createReferral i.referralId code referrer account.id now
  u.attributeCreator i.attribution creatorCode account.id

/-- The referrer whose code is given, if one is. -/
def Network.referrer (s : Network) : Option PersonalCode → Except AuthError (Option ℤ)
  | none => .ok none
  | some code => (s.resolveActiveReferrerId code).map some

structure MemberRegistration extends Registration, Invite

/-- `register_user`. -/
def registerUser (g : AccountSettings) (r : MemberRegistration) (s : Network) : Except AuthError (ℤ × Network) := do
  let (code, creatorCode) ← classifyRegistrationInvite r.referralCode r.inviteCode
  if (s.userByEmail? (normalizeEmail r.email)).isSome then
    throw (.api 409 "EMAIL_ALREADY_EXISTS" "Email already registered")
  else
    (do
      let referrer ← s.referrer code
      let hash ← hashPassword g r.salt r.password
      let t ← s.admit r.toInvite code creatorCode referrer (r.user hash) r.code.transactionTime
      let accounts ← createEmailVerificationToken g r.code r.userId t.accounts
      return (r.userId, { t with verifications := accounts.verifications }) :
      Except AuthError (ℤ × Network)).mapError (registrationError g)

structure MemberSignIn extends SignIn, Invite

def Member.link (emailVerified : Bool) (m : Member) : Member := { m with toUserRow := m.toUserRow.link emailVerified }

theorem Member.link_keys (emailVerified : Bool) (m : Member) : (m.link emailVerified).keys.Sublist m.keys :=
  List.Sublist.refl _

/-- The user with the email, linked, or a new one, invited. -/
def linkOrCreateUser (c : MemberSignIn) (code : Option PersonalCode) (creatorCode : Option String) (email : String)
    (s : Network) : Except AuthError (ℤ × Network) :=
  match s.userByEmail? email with
  | some u =>
    if !c.emailVerified then .error (.http 401 "Unable to link provider account")
    else
      .ok (u.id, { s with users := s.users.update (fun x => x.id = u.id) (·.link c.emailVerified) (Member.link_keys _) })
  | none => do
    let referrer ← s.referrer code
    let t ← s.admit c.toInvite code creatorCode referrer ⟨c.userId, email, none, c.emailVerified, true⟩ c.session.createdAt
    return (c.userId, t)

/-- The user of the provider's row, or the one linked or created. -/
def resolveUser (c : MemberSignIn) (code : Option PersonalCode) (creatorCode : Option String) (s : Network) :
    Except AuthError (ℤ × Network) :=
  match s.providers.find? c.isFor with
  | some p => .ok (p.userId, s)
  | none =>
    match c.email.filter (· ≠ "") with
    | none => .error (.http 400 "Provider email is required for first sign-in")
    | some email => do
      let (userId, t) ← linkOrCreateUser c code creatorCode email s
      let (linkedId, accounts) ← insertProvider c.toSignIn email userId t.accounts
      return (linkedId, { t with providers := accounts.providers })

/-- `authenticate_with_provider`. -/
def authenticateWithProvider (g : AccountSettings) (c : MemberSignIn) (s : Network) : Except AuthError (ℤ × Network) := do
  let (code, creatorCode) ← classifyRegistrationInvite c.referralCode c.inviteCode
  (do
    let (userId, t) ← resolveUser c code creatorCode s
    match t.user? userId with
    | none => throw userNotFound
    | some u =>
      let t' := { t with providers := (storeCiphertext c.toSignIn t.accounts).providers }
      if u.isActive then
        let accounts ← createUserSession g c.session u.id t'.accounts
        return (u.id, { t' with sessions := accounts.sessions })
      else throw (.http 403 "User account is inactive")
    : Except AuthError (ℤ × Network)).mapError providerError

/-! ### apply_current_user_referral_code -/

structure ApplyCode where
  userId : ℤ
  referralCode : Option String
  referralId : ℤ
  now : ℤ

def Member.refer (referrerId : ℤ) (m : Member) : Member := { m with referredByUserId := some referrerId }

theorem Member.refer_keys (referrerId : ℤ) (m : Member) : (m.refer referrerId).keys.Sublist m.keys := List.Sublist.refl _

/-- The UPDATE of `referred_by_user_id`. -/
def Network.refer (referrerId userId : ℤ) (s : Network) : Network :=
  { s with users := s.users.update (fun m => m.id = userId) (·.refer referrerId) (Member.refer_keys referrerId) }

def alreadyReferred : AuthError := .api 409 "REFERRAL_CODE_ALREADY_USED" "Referral code already applied"

/-- `already_referred`. -/
def Network.isReferred (s : Network) (m : Member) : Bool :=
  m.referredByUserId.any (· ≠ 0) || (s.referrals.find? fun r => r.referredUserId = some m.id).isSome

/-- The transaction, of a code that is there. -/
def Network.applyCode (c : ApplyCode) (code : PersonalCode) (s : Network) : Except AuthError Network :=
  match s.user? c.userId with
  | none => .error (.api 404 "ACCOUNT_NOT_FOUND" "User not found")
  | some m =>
    if s.isReferred m then .error alreadyReferred
    else if m.createdAt < c.now - day then
      .error (.api 400 "REFERRAL_WINDOW_EXPIRED" "Il periodo per inserire un codice invito è scaduto.")
    else
      match s.resolveActiveReferrerId code with
      | .error e => .error e
      | .ok referrerId =>
        if referrerId = c.userId then
          .error (.api 400 "REFERRAL_SELF_NOT_ALLOWED" "Cannot use your own referral code")
        else (s.refer referrerId c.userId).createPendingReferral c.referralId referrerId c.userId code c.now

/-- Its `except` clauses. -/
def applyError : AuthError → AuthError
  | .database .unique => alreadyReferred
  | e => serverError "Referral code apply failed" e

def applyCurrentUserReferralCode (c : ApplyCode) (s : Network) : Except AuthError Network := do
  match ← normalizeReferralCodeInput c.referralCode with
  | none => throw (.api 400 "REFERRAL_CODE_INVALID" "Referral code is required")
  | some code => (s.applyCode c code).mapError applyError

/-! ### A batch of process_pending_referrals -/

def ReferralRow.onReferral (f : Referral → Referral) (r : ReferralRow) : ReferralRow := { r with toReferral := f r.toReferral }

theorem ReferralRow.skip_keys (reason : String) (now : ℤ) (r : ReferralRow) :
    (r.onReferral (·.skipped reason now)).keys.Sublist r.keys := skipped_keys reason now r.toReferral

theorem ReferralRow.validate_keys (now : ℤ) (r : ReferralRow) : (r.onReferral (·.validated now)).keys.Sublist r.keys :=
  validated_keys now r.toReferral

namespace Network

/-- A statement of the batch. -/
def apply (now : ℤ) (s : Network) : Write → Option Network
  | .skip id reason =>
    some { s with
      referrals := s.referrals.update (·.isPending id) (·.onReferral (·.skipped reason now))
        (ReferralRow.skip_keys reason now) }
  | .validate id =>
    some { s with
      referrals := s.referrals.update (·.isPending id) (·.onReferral (·.validated now))
        (ReferralRow.validate_keys now) }
  | .reward w => (s.rewards.insert? w).map fun rewards => { s with rewards }

def overlay (now : ℤ) (writes : List Write) (s : Network) : Option Network := writes.foldlM (apply now) s

end Network

/-- What a batch depends on beside the store. -/
structure BatchCall where
  now : ℤ
  cursor : Option (ℤ ×ₗ ℤ)
  locked : List ℤ
  fate : ℤ → ItemFate

def BatchCall.rows (g : Settings) (b : BatchCall) (s : Network) : List Referral :=
  orderedBatch (pendingBatch g b.now b.cursor b.locked s.store)

/-- One batch: the items, and what is committed of them. -/
def processBatch (g : Settings) (b : BatchCall) (s : Network) : Option (List ItemStep × Network) :=
  let items := (processItems g b.now b.fate (b.rows g s) s.store).1
  (s.overlay b.now (committedWrites items)).map (items, ·)

/-! ### The deletion of an account -/

/-- The SET of the trigger. -/
def ReferralRow.forget (now : ℤ) (r : ReferralRow) : ReferralRow where
  toReferral := { r.toReferral with
    referredUserId := none
    statusReason := some "referred_user_deleted"
    updatedAt := now }
  referredUserDeleted := true

theorem ReferralRow.forget_keys (now : ℤ) (r : ReferralRow) : (r.forget now).keys.Sublist r.keys :=
  (List.nil_sublist _).cons_cons _

def Member.unrefer (m : Member) : Member := { m with referredByUserId := none }

theorem Member.unrefer_keys (m : Member) : m.unrefer.keys.Sublist m.keys := List.Sublist.refl _

def unreferReward (w : StoredReward) : StoredReward := { w with referralId := none }

theorem unreferReward_keys (w : StoredReward) : (unreferReward w).keys.Sublist w.keys := (List.nil_sublist _).cons_cons _

namespace Network

/-- `preserve_valid_referral_history_on_user_delete`. -/
def preserveValidReferralHistory (userId now : ℤ) (s : Network) : Table ReferralRow ReferralRow.keys :=
  (s.referrals.delete fun r => r.referredUserId = some userId && (r.status = .pending || r.status = .invalid)).update
    (fun r => r.referredUserId = some userId && r.status = .valid) (·.forget now) (ReferralRow.forget_keys now)

/-- `ON DELETE CASCADE` of `referrer_user_id`. -/
def keptReferrals (userId now : ℤ) (s : Network) : Table ReferralRow ReferralRow.keys :=
  (s.preserveValidReferralHistory userId now).delete fun r => r.referrerUserId = userId

/-- The referral is no longer there. -/
def lostReferral (userId now : ℤ) (s : Network) (id : ℤ) : Bool :=
  (s.referrals.find? fun r => r.id = id).isSome && ((s.keptReferrals userId now).find? fun r => r.id = id).isNone

/-- `DELETE FROM users`, with its trigger and what the foreign keys do. -/
def deleteUser (userId now : ℤ) (s : Network) : Network where
  users := (s.users.delete fun m => m.id = userId).update (fun m => m.referredByUserId = some userId) Member.unrefer
    Member.unrefer_keys
  providers := (s.accounts.deleteUser userId).providers
  sessions := (s.accounts.deleteUser userId).sessions
  verifications := (s.accounts.deleteUser userId).verifications
  referrals := s.keptReferrals userId now
  rewards := (s.rewards.delete fun w => w.userId = userId).update
    (fun w => w.referralId.any (s.lostReferral userId now)) unreferReward unreferReward_keys

end Network

/-! ### Any sequence of calls -/

/-- What the call of an account does to the columns of a user. -/
def Member.adopt (accounts : AccountStore) (m : Member) : Member :=
  match accounts.user? m.id with
  | some u => { m with passwordHash := u.passwordHash, isEmailVerified := u.isEmailVerified }
  | none => m

theorem Member.adopt_keys (accounts : AccountStore) (m : Member) : (m.adopt accounts).keys.Sublist m.keys := by
  unfold Member.adopt
  split <;> exact List.Sublist.refl _

def Network.adopt (accounts : AccountStore) (s : Network) : Network :=
  { s with
    users := s.users.update (fun _ => true) (·.adopt accounts) (Member.adopt_keys accounts)
    providers := accounts.providers
    sessions := accounts.sessions
    verifications := accounts.verifications }

inductive NetworkCall where
  | register (r : MemberRegistration)
  | signIn (c : MemberSignIn)
  | resend (r : Resend)
  | verify (r : VerifyRequest)
  | login (l : Login)
  | apply (c : ApplyCode)
  | process (b : BatchCall)
  | delete (userId now : ℤ)

/-- The settings of the accounts, and of the processing. -/
structure NetworkSettings where
  account : AccountSettings
  referral : Settings

/-- The store that a call leaves. -/
def networkCall (g : NetworkSettings) (call : NetworkCall) (s : Network) : Except AuthError (Unit × Network) :=
  match call with
  | .register r => (registerUser g.account r s).map fun x => ((), x.2)
  | .signIn c => (authenticateWithProvider g.account c s).map fun x => ((), x.2)
  | .resend r => (resendEmailVerification g.account r s.accounts).map fun x => ((), s.adopt x.2)
  | .verify r => .ok ((), s.adopt (verifyEmail g.account r s.accounts).2)
  | .login l => (loginUser g.account l s.accounts).map fun x => ((), s.adopt x.2)
  | .apply c => (applyCurrentUserReferralCode c s).map ((), ·)
  | .process b =>
    match processBatch g.referral b s with
    | some (_, t) => .ok ((), t)
    | none => .error (.database .unique)
  | .delete userId now => if (s.user? userId).isSome then .ok ((), s.deleteUser userId now) else .error userNotFound

/-! ### The statements of a batch on the columns that it reads -/

section Batch

variable {s t : Network} {now : ℤ}

theorem onReferral_store {p : Referral → Bool} {f : Referral → Referral} (l : List ReferralRow) :
    (l.map fun r => if p r.toReferral then r.onReferral f else r).map ReferralRow.toReferral =
      (l.map ReferralRow.toReferral).map fun r => if p r then f r else r := by
  rw [List.map_map, List.map_map]
  refine List.map_congr_left fun r _ => ?_
  show ReferralRow.toReferral (if p r.toReferral then r.onReferral f else r) = if p r.toReferral then f r.toReferral else _
  split_ifs <;> rfl

theorem apply_store (w : Write) : (s.apply now w).map Network.store = w.apply now s.store := by
  cases w with
  | skip id reason =>
    refine congrArg some (congrArg (fun t => (⟨s.store.users, t, s.rewards⟩ : Store)) (Table.ext ?_))
    exact onReferral_store (p := (·.isPending id)) (f := (·.skipped reason now)) s.referrals.rows
  | validate id =>
    refine congrArg some (congrArg (fun t => (⟨s.store.users, t, s.rewards⟩ : Store)) (Table.ext ?_))
    exact onReferral_store (p := (·.isPending id)) (f := (·.validated now)) s.referrals.rows
  | reward w =>
    show ((s.rewards.insert? w).map _).map _ = (s.rewards.insert? w).map _
    rw [Option.map_map]
    rfl

/-- The writes of a transaction do to the columns that it reads what they do there by themselves. -/
theorem overlay_store : ∀ (l : List Write) (s : Network), (s.overlay now l).map Network.store = overlay now l s.store
  | [], _ => rfl
  | w :: l, s => by
    show ((s.apply now w).bind (Network.overlay now l)).map _ = (w.apply now s.store).bind (overlay now l)
    rw [← apply_store]
    cases s.apply now w with
    | none => rfl
    | some u => exact overlay_store l u

end Batch

end Referrals
end FuelNear

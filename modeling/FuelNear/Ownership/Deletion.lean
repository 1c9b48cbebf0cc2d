/-
# A claimed guest, and the deletion of accounts

Guest sessions that are created and used again, and account deletions, beside
the saves, notifications and claims: any worker may run between two
statements of another. Deleting an account deletes its rows of
`apple_transactions` with it (ON DELETE CASCADE), and an identity that it had
claimed loses the user that claimed it (ON DELETE SET NULL). The other tables
that a deletion writes decide nothing here.

Whether a guest is claimed is read from that column alone. So a claimed guest
stays retired as long as the account that claimed it is there
(`claimed_guest_retired`); when the account is deleted the token resolves to
the guest again, and the guest can own purchases again
(`claimed_guest_returns`). Its sessions stay revoked in any run
(`claimed_guest_revoked`).

Key definitions: `AccountWorker`, `accountProtocol`, `Retired`, `Spared`.
Key theorems: `knows_leaves`, `account_lawful`, `Barred.resolve`, `Barred.released`,
`claimed_guest_revoked`, `claimed_guest_barred`, `claimed_guest_retired`.
-/
import FuelNear.Ownership.Serial

namespace FuelNear
namespace Ownership

open Sql Apple Locking

/-! ### The calls -/

/-- `create_guest_session`: what the sequences, the random generators and the
clock supply to it. -/
structure SessionCall where
  guestId : ℤ
  sessionId : ℤ
  appAccountToken : BitVec 128
  tokenHash : String
  expiresAt : ℤ

def createGuestSession (c : SessionCall) (s : Store) : Option Store := do
  let identities ← s.accounts.guestIdentities.insert? ⟨c.guestId, c.appAccountToken, none⟩
  let sessions ← s.sessions.insert? ⟨c.sessionId, c.guestId, c.tokenHash, c.expiresAt, none⟩
  return { s with accounts := ⟨s.accounts.users, identities⟩, sessions }

/-- `get_guest_by_token` with `touch`: the hash of the token, and the two
readings of the clock, the second with the days of a session added. -/
structure TouchCall where
  tokenHash : String
  now : ℤ
  extendedExpiry : ℤ

/-- `GREATEST(expires_at, …)`. -/
def touched (extendedExpiry : ℤ) (x : GuestSession) : GuestSession :=
  { x with expiresAt := max x.expiresAt extendedExpiry }

theorem touched_keys (extendedExpiry : ℤ) (x : GuestSession) : (touched extendedExpiry x).keys.Sublist x.keys :=
  List.Sublist.refl _

def touchSession (sessionId extendedExpiry : ℤ) (s : Store) : Store :=
  { s with sessions := s.sessions.update (·.id = sessionId) (touched extendedExpiry) (touched_keys extendedExpiry) }

/-- `claimed_user_id` of a deleted user. -/
def unclaimed (i : GuestIdentity) : GuestIdentity := { i with claimedUserId := none }

theorem unclaimed_keys (i : GuestIdentity) : (unclaimed i).keys.Sublist i.keys := List.Sublist.refl _

/-- `DELETE FROM users WHERE id = …`, with what the foreign keys do. -/
def deleteUser (userId : ℤ) (s : Store) : Store where
  accounts := ⟨s.accounts.users.delete (·.id = userId),
    s.accounts.guestIdentities.update (·.claimedUserId = some userId) unclaimed unclaimed_keys⟩
  sessions := s.sessions
  apple := s.apple.delete (·.userId = some userId)

/-- `SELECT id, claimed_user_id FROM guest_identities WHERE app_account_token = …`. -/
def guestByToken (a : Accounts) (token : BitVec 128) : Option GuestIdentity :=
  a.guestIdentities.find? fun i => i.appAccountToken = token

/-- `resolve_owner_by_app_account_token`: the users are read before the
identities. -/
def resolveOwnerByAppAccountToken (before a : Accounts) (token : BitVec 128) :
    Except ClaimError (Option AppleSubscriptionOwner) :=
  match tokenOwners (before.users.find? fun u => u.appAccountToken = token) (guestByToken a token) with
  | [] => .ok none
  | [o] => .ok (some o)
  | _ => .error (.guestOwnershipConflict "Apple app account token ownership is inconsistent")

/-! ### The workers -/

/-- A worker: one of a request that saves or claims, the creation of a guest
session, the use of one, or the deletion of an account. -/
inductive AccountWorker where
  | request (l : Worker)
  | session (c : SessionCall)
  | touch (c : TouchCall)
  | touching (c : TouchCall) (sessionId : ℤ)
  | delete (userId : ℤ)
  | deleting (userId : ℤ)

/-- A deletion holds the row of the user; its locks on other rows only rule
out interleavings that are allowed here. -/
def accountHeld (hash : String → ℤ) : AccountWorker → Set Lock
  | .request l => held hash l
  | .deleting u => {.user u}
  | _ => ∅

inductive AccountMove (s : Store) : AccountWorker → AccountWorker → Prop where
  | request {l l'} (h : Move s l l') : AccountMove s (.request l) (.request l')
  /-- the SELECT of `get_guest_by_token`, and a session that is active -/
  | touch {c x i} (session : sessionByHash s c.tokenHash = some x)
      (active : getGuestByToken s c.tokenHash c.now false = .ok i) : AccountMove s (.touch c) (.touching c x.id)
  /-- `DELETE FROM users … RETURNING id` -/
  | delete {u} (user : (s.accounts.user? u).isSome) : AccountMove s (.delete u) (.deleting u)

inductive AccountCommit (s : Store) : AccountWorker → Store → Prop where
  | request {l t} (h : Commit s l t) : AccountCommit s (.request l) t
  | session {c t} (created : createGuestSession c s = some t) : AccountCommit s (.session c) t
  | touched {c id} : AccountCommit s (.touching c id) (touchSession id c.extendedExpiry s)
  | deleted {u} : AccountCommit s (.deleting u) (deleteUser u s)

def AccountStarts : AccountWorker → Prop
  | .request l => Starts l
  | .session _ => True
  | .touch _ => True
  | .delete _ => True
  | _ => False

def accountProtocol (hash : String → ℤ) : Protocol Store AccountWorker Lock where
  held := accountHeld hash
  start := AccountStarts
  move := AccountMove
  commit := AccountCommit

variable {hash : String → ℤ} {s t : Store} {g : ℤ}

/-! ### What these commits leave -/

/-- What a commit under the locks `K` leaves, if it is of no request. -/
structure Leaves (K : Set Lock) (s t : Store) : Prop where
  user : ∀ u, Lock.user u ∉ K → t.accounts.user? u = s.accounts.user? u
  guest : ∀ g i, s.accounts.guest? g = some i → i.claimedUserId = none → t.accounts.guest? g = some i
  session : ∀ h x, sessionByHash s h = some x → ∃ y, sessionByHash t h = some y ∧ y.guestId = x.guestId ∧
    y.revokedAt = x.revokedAt ∧ x.expiresAt ≤ y.expiresAt
  rows : ∀ r ∈ t.apple, r ∈ s.apple
  kept : ∀ r ∈ s.apple, (∀ u, r.userId = some u → Lock.user u ∉ K) → r ∈ t.apple

theorem created_of_some {c : SessionCall} (h : createGuestSession c s = some t) : ∃ identities sessions,
    s.accounts.guestIdentities.insert? ⟨c.guestId, c.appAccountToken, none⟩ = some identities ∧
    s.sessions.insert? ⟨c.sessionId, c.guestId, c.tokenHash, c.expiresAt, none⟩ = some sessions ∧
    t = { s with accounts := ⟨s.accounts.users, identities⟩, sessions } := by
  unfold createGuestSession at h
  obtain ⟨identities, hidentities, h⟩ := Option.bind_eq_some_iff.mp h
  obtain ⟨sessions, hsessions, h⟩ := Option.bind_eq_some_iff.mp h
  exact ⟨identities, sessions, hidentities, hsessions, (Option.some.inj h).symm⟩

/-- An identity that is there stays when another is inserted. -/
theorem guest?_created {c : SessionCall} (h : createGuestSession c s = some t) {g : ℤ} {i : GuestIdentity}
    (hi : s.accounts.guest? g = some i) : t.accounts.guest? g = some i := by
  obtain ⟨identities, sessions, hidentities, -, rfl⟩ := created_of_some h
  exact Table.find?_insert_of_some hidentities hi

theorem leaves_created {c : SessionCall} (h : createGuestSession c s = some t) : Leaves ∅ s t := by
  have hguest : ∀ g i, s.accounts.guest? g = some i → t.accounts.guest? g = some i := fun _ _ => guest?_created h
  obtain ⟨identities, sessions, -, hsessions, rfl⟩ := created_of_some h
  refine ⟨fun _ _ => rfl, fun g i hi _ => hguest g i hi, fun k x hx => ⟨x, ?_, rfl, rfl, le_rfl⟩,
    fun _ hr => hr, fun _ hr _ => hr⟩
  exact Table.find?_insert_of_some hsessions hx

theorem leaves_touched (id extendedExpiry : ℤ) : Leaves ∅ s (touchSession id extendedExpiry s) := by
  refine ⟨fun _ _ => rfl, fun _ _ hi _ => hi, fun k x hx => ?_, fun _ hr => hr, fun _ hr _ => hr⟩
  have hq : ∀ x, decide ((touched extendedExpiry x).tokenHash = k) = decide (x.tokenHash = k) := fun _ => rfl
  have hfind : sessionByHash (touchSession id extendedExpiry s) k =
      some (if x.id = id then touched extendedExpiry x else x) := by
    unfold sessionByHash touchSession
    unfold sessionByHash at hx
    dsimp only
    rw [Table.find?_update hq, hx]
    simp
  refine ⟨_, hfind, ?_⟩
  split_ifs
  · exact ⟨rfl, rfl, le_max_left _ _⟩
  · exact ⟨rfl, rfl, le_rfl⟩

/-- The identity after the deletion of the user. -/
theorem guest?_deleted (u g : ℤ) : (deleteUser u s).accounts.guest? g =
    (s.accounts.guest? g).map fun i => if i.claimedUserId = some u then unclaimed i else i := by
  have hq : ∀ i, decide ((unclaimed i).id = g) = decide (i.id = g) := fun _ => rfl
  unfold deleteUser Accounts.guest?
  dsimp only
  rw [Table.find?_update hq]
  simp only [decide_eq_true_eq]

theorem mem_deleted {u : ℤ} {r : AppleRow} : r ∈ (deleteUser u s).apple ↔ r ∈ s.apple ∧ r.userId ≠ some u := by
  unfold deleteUser
  rw [Table.mem_delete, decide_eq_false_iff_not]

theorem leaves_deleted (u : ℤ) : Leaves {.user u} s (deleteUser u s) := by
  refine ⟨fun v hv => ?_, fun g i hi hfree => ?_, fun k x hx => ⟨x, hx, rfl, rfl, le_rfl⟩,
    fun r hr => (mem_deleted.mp hr).1, fun r hr hfree => mem_deleted.mpr ⟨hr, fun hu => hfree u hu rfl⟩⟩
  · have hvu : v ≠ u := fun h => hv (by rw [h]; rfl)
    apply Table.find?_delete
    intro x hx
    simp only [decide_eq_true_eq] at hx
    simp [hx, hvu]
  · rw [guest?_deleted, hi, Option.map_some, if_neg (by simp [hfree])]

/-- The rows of the guest have no user. -/
theorem Owned.userId_of_guest {a : AppleTable} (ho : Owned a) {r : AppleRow} (hr : r ∈ a) {g : ℤ}
    (hg : r.guestId = some g) : r.userId = none :=
  (ownerOf_eq.mp (ho.guest hr hg)).1

/-- A token of an unclaimed identity gives it while the session is active. -/
theorem getGuestByToken_free {tokenHash : String} {now : ℤ} {allow : Bool} {x : GuestSession} {i : GuestIdentity}
    (hx : sessionByHash s tokenHash = some x) (hi : s.accounts.guest? x.guestId = some i)
    (hfree : i.claimedUserId = none) :
    getGuestByToken s tokenHash now allow = .ok i ↔ x.revokedAt = none ∧ now < x.expiresAt := by
  unfold getGuestByToken
  rw [hx]
  dsimp only
  rw [hi]
  simp [hfree, Option.isSome_iff_ne_none]

section Stable

variable {K : Set Lock} (hl : Leaves K s t)
include hl

theorem Leaves.ownerReady {n : NormalizedTransaction} (hk : ownerLock n.owner ∉ K)
    (h : ownerReady s.accounts n = true) : ownerReady t.accounts n = true := by
  unfold Ownership.ownerReady ownerActive at h ⊢
  unfold NormalizedTransaction.userId NormalizedTransaction.guestId at h ⊢
  cases ho : n.owner with
  | user u =>
    rw [ho] at h hk
    simpa [AppleSubscriptionOwner.userId, AppleSubscriptionOwner.guestId, hl.user u hk] using h
  | guest g =>
    rw [ho] at h
    simp only [AppleSubscriptionOwner.userId, AppleSubscriptionOwner.guestId, Option.all_none, Option.all_some,
      Bool.true_and, Option.any_eq_true] at h ⊢
    obtain ⟨i, hi, hfree⟩ := h
    exact ⟨i, hl.guest g i hi (Option.isNone_iff_eq_none.mp hfree), hfree⟩

theorem Leaves.matched {n : NormalizedTransaction} {r : AppleRow} (hk : ownerLock n.owner ∉ K)
    (h : lookup n.transactionId s.apple = some r) (hsame : identityDiffers n r = false) :
    lookup n.transactionId t.apple = some r := by
  have hx := transactionId_of_lookup h
  have hown := (ownerOf_eq.mp (identityDiffers_eq_false hsame).1).1
  rw [← hx, ← mem_iff_lookup]
  apply hl.kept r (mem_of_lookup h)
  intro u hu
  cases ho : n.owner with
  | user v =>
    rw [ho] at hown hk
    obtain rfl : u = v := Option.some.inj (hu.symm.trans hown)
    exact hk
  | guest g => rw [ho, hu] at hown; simp [AppleSubscriptionOwner.userId] at hown

theorem Leaves.alone {n : NormalizedTransaction} (h : ownedByAnother n s.apple = false) :
    ownedByAnother n t.apple = false := by
  rw [ownedByAnother_eq_false] at h ⊢
  exact fun r hr => h r (hl.rows r hr)

/-- An active session stays active, and its identity what it is. -/
theorem Leaves.guestKnown {c : ClaimCall} {g : ℤ} (hk : Lock.user c.userId ∉ K) (h : GuestKnown s c g) :
    GuestKnown t c g := by
  obtain ⟨i, hi, hfree, rfl⟩ := h.guest
  obtain ⟨x, hx, hg, -⟩ := getGuestByToken_ok hi
  obtain ⟨y, hy, hguest, hrevoked, hexpires⟩ := hl.session _ x hx
  obtain ⟨hlive, hnow⟩ := (getGuestByToken_free hx hg hfree).mp hi
  refine ⟨h.positive, by rw [hl.user _ hk]; exact h.user, i, ?_, hfree, rfl⟩
  rw [getGuestByToken_free hy (hguest ▸ hl.guest _ i hg hfree) hfree]
  exact ⟨hrevoked.trans hlive, hnow.trans_le hexpires⟩

theorem Leaves.chainsKnown {c : ClaimCall} {g : ℤ} {done ids : List String} (ho : Owned s.apple)
    (h : ChainsKnown s c g done ids) : ChainsKnown t c g done ids := by
  refine ⟨h.nonempty, fun o => ?_, fun o ho => ?_⟩
  · rw [h.all, mem_originalIds, mem_originalIds]
    refine exists_congr fun r => ?_
    constructor
    · rintro ⟨hr, hg, he⟩
      exact ⟨hl.kept r hr fun u hu => absurd hu (by simp [ho.userId_of_guest hr hg]), hg, he⟩
    · rintro ⟨hr, hg, he⟩
      exact ⟨hl.rows r hr, hg, he⟩
  · have halone := ownedByThird_eq_false.mp (h.alone o ho)
    rw [ownedByThird_eq_false]
    exact fun r hr => halone r (hl.rows r hr)

/-- What a request knows under locks of its own, these commits do not touch. -/
theorem knows_leaves {m : Worker} (ho : Owned s.apple) (hd : Disjoint K (held hash m)) (h : Knows s m) :
    Knows t m := by
  have hfree : ∀ k ∈ held hash m, k ∉ K := fun k hk => Set.disjoint_right.mp hd hk
  cases m with
  | notification m point => trivial
  | save n point =>
    cases point with
    | start => trivial
    | owner => exact hl.ownerReady (hfree _ rfl) h
    | chain => exact hl.ownerReady (hfree _ (Or.inl rfl)) h
    | unmatched => exact hl.ownerReady (hfree _ (Or.inl rfl)) h
    | matched r =>
      obtain ⟨h1, h2, h3⟩ := h
      exact ⟨hl.ownerReady (hfree _ (Or.inl rfl)) h1, hl.matched (hfree _ (Or.inl rfl)) h2 h3, h3⟩
    | clear =>
      obtain ⟨h1, h2⟩ := h
      exact ⟨hl.ownerReady (hfree _ (Or.inl rfl)) h1, hl.alone h2⟩
  | claim c point =>
    cases point with
    | start => trivial
    | user => exact ⟨h.1, by rw [hl.user _ (hfree _ rfl)]; exact h.2⟩
    | guest g => exact hl.guestKnown (hfree _ (Or.inl rfl)) h
    | next g done todo => exact ⟨hl.guestKnown (hfree _ (Or.inl rfl)) h.1, hl.chainsKnown ho h.2⟩
    | locked g done o todo =>
      exact ⟨hl.guestKnown (hfree _ (Or.inl rfl)) h.1, hl.chainsKnown ho h.2⟩
    | ready g done => exact ⟨hl.guestKnown (hfree _ (Or.inl rfl)) h.1, hl.chainsKnown ho h.2⟩

end Stable

/-! ### Any interleaving -/

/-- Only a request knows anything: what a deletion writes does not depend on
what it has read. -/
def AccountKnows (s : Store) : AccountWorker → Prop
  | .request l => Knows s l
  | _ => True

/-- A commit that is of no request leaves what other requests know. -/
theorem commit_leaves (hash : String → ℤ) {l : AccountWorker} (h : AccountCommit s l t) :
    (∃ r, l = .request r ∧ Commit s r t) ∨ Leaves (accountHeld hash l) s t := by
  cases h with
  | request h => exact Or.inl ⟨_, rfl, h⟩
  | session created => exact Or.inr (leaves_created created)
  | touched => exact Or.inr (leaves_touched _ _)
  | deleted => exact Or.inr (leaves_deleted _)

theorem Owned.leaves {K : Set Lock} (ho : Owned s.apple) (hl : Leaves K s t) : Owned t.apple :=
  ⟨fun r hr => ho.single r (hl.rows r hr), fun r hr q hq => ho.chain r (hl.rows r hr) q (hl.rows q hq)⟩

theorem account_lawful (hash : String → ℤ) :
    Lawful (accountProtocol hash) (fun s => Owned s.apple) AccountKnows where
  start l hl := by
    cases l with
    | request l => exact (lawful hash).start l hl
    | session c => exact ⟨rfl, fun _ => trivial⟩
    | touch c => exact ⟨rfl, fun _ => trivial⟩
    | delete u => exact ⟨rfl, fun _ => trivial⟩
    | touching c id => exact hl.elim
    | deleting u => exact hl.elim
  move s l l' _ hk h := by
    cases h with
    | request h => exact knows_move hk h
    | touch session active => trivial
    | delete user => trivial
  commit s l t ho hk h := by
    rcases commit_leaves hash h with ⟨r, rfl, hc⟩ | hl
    · exact owned_commit ho hk hc
    · exact ho.leaves hl
  stable s l t m ho hk h hm hd := by
    cases m with
    | request m =>
      rcases commit_leaves hash h with ⟨r, rfl, hc⟩ | hl
      · exact knows_stable (commit_frame hk hc) hd hm
      · exact knows_leaves hl ho hd hm
    | session c => trivial
    | touch c => trivial
    | touching c id => trivial
    | delete u => trivial
    | deleting u => trivial

/-! ### The sessions of a claimed guest -/

theorem guest?_transfer_eq (userId guestId now g : ℤ) : (transfer userId guestId now s).accounts.guest? g =
    (s.accounts.guest? g).map fun i => if i.id = guestId && i.claimedUserId.isNone then claimedBy userId i else i := by
  have hq : ∀ i, decide ((claimedBy userId i).id = g) = decide (i.id = g) := fun _ => rfl
  unfold transfer claimIdentity Accounts.guest?
  dsimp only
  rw [Table.find?_update hq]

theorem mem_sessions_transfer {userId guestId now : ℤ} {x : GuestSession} :
    x ∈ (transfer userId guestId now s).sessions ↔
      ∃ y ∈ s.sessions, (if y.guestId = guestId then revoked now y else y) = x := by
  unfold transfer revokeSessions
  rw [Table.mem_update]
  simp only [decide_eq_true_eq]

theorem mem_sessions_touched {id extendedExpiry : ℤ} {x : GuestSession} :
    x ∈ (touchSession id extendedExpiry s).sessions ↔
      ∃ y ∈ s.sessions, (if y.id = id then touched extendedExpiry y else y) = x := by
  unfold touchSession
  rw [Table.mem_update]
  simp only [decide_eq_true_eq]

/-- The identity is there, and its sessions are revoked. -/
structure Revoked (g : ℤ) (s : Store) : Prop where
  identity : (s.accounts.guest? g).isSome
  sessions : ∀ x ∈ s.sessions, x.guestId = g → x.revokedAt.isSome

theorem revoked_transfer {userId g now : ℤ} (h : (s.accounts.guest? g).isSome) :
    Revoked g (transfer userId g now s) := by
  constructor
  · rw [guest?_transfer_eq, Option.isSome_map]
    exact h
  · intro x hx hg
    obtain ⟨y, hy, rfl⟩ := mem_sessions_transfer.mp hx
    by_cases hyg : y.guestId = g
    · simp [hyg, revoked]
    · simp [hyg] at hg

theorem Revoked.transfer (h : Revoked g s) (userId g' now : ℤ) : Revoked g (transfer userId g' now s) := by
  constructor
  · rw [guest?_transfer_eq, Option.isSome_map]
    exact h.identity
  · intro x hx hg
    obtain ⟨y, hy, rfl⟩ := mem_sessions_transfer.mp hx
    split_ifs at hg ⊢
    · rfl
    · exact h.sessions y hy hg

/-- A new session is of a new identity. -/
theorem Revoked.created (h : Revoked g s) {c : SessionCall} (hc : createGuestSession c s = some t) : Revoked g t := by
  obtain ⟨i, hi⟩ := Option.isSome_iff_exists.mp h.identity
  refine ⟨by rw [guest?_created hc hi]; rfl, fun x hx hg => ?_⟩
  obtain ⟨identities, sessions, hidentities, hsessions, rfl⟩ := created_of_some hc
  rcases (Table.mem_insert hsessions).mp hx with hx | rfl
  · exact h.sessions x hx hg
  · have hid : i.id = g := by simpa using Table.find?_prop hi
    have hnew := Table.insert?_fresh hidentities (Table.find?_mem hi) (k := .inl i.id) (by simp [GuestIdentity.keys])
    exact absurd (show Sum.inl i.id ∈ _ by simp [GuestIdentity.keys, hid, ← hg]) hnew

theorem Revoked.touched (h : Revoked g s) (id extendedExpiry : ℤ) : Revoked g (touchSession id extendedExpiry s) := by
  refine ⟨h.identity, fun x hx hg => ?_⟩
  obtain ⟨y, hy, rfl⟩ := mem_sessions_touched.mp hx
  split_ifs at hg ⊢ <;> exact h.sessions y hy hg

theorem Revoked.deleted (h : Revoked g s) (u : ℤ) : Revoked g (deleteUser u s) := by
  refine ⟨?_, h.sessions⟩
  rw [guest?_deleted, Option.isSome_map]
  exact h.identity

/-- Every commit keeps the sessions revoked. -/
theorem Revoked.commit (h : Revoked g s) {l : AccountWorker} (hc : AccountCommit s l t) : Revoked g t := by
  cases hc with
  | request hc =>
    cases hc with
    | merge save => exact ⟨h.identity, h.sessions⟩
    | insert save => exact ⟨h.identity, h.sessions⟩
    | claim => exact h.transfer _ _ _
  | session created => exact h.created created
  | touched => exact h.touched _ _
  | deleted => exact h.deleted _

/-- The token of a revoked session is refused, claimed or not. -/
theorem Revoked.refused (h : Revoked g s) {x : GuestSession} (hx : x ∈ s.sessions) (hg : x.guestId = g) (now : ℤ)
    (i : GuestIdentity) : getGuestByToken s x.tokenHash now false ≠ .ok i := by
  have hfind : sessionByHash s x.tokenHash = some x := by
    apply Table.find?_of_mem (k := .inr x.tokenHash)
    · intro y hy
      simp only [decide_eq_true_eq] at hy
      simp [GuestSession.keys, hy]
    · exact hx
    · simp
  obtain ⟨t, ht⟩ := Option.isSome_iff_exists.mp (h.sessions x hx hg)
  unfold getGuestByToken
  rw [hfind]
  dsimp only
  cases s.accounts.guest? x.guestId with
  | none => simp
  | some i =>
    dsimp only
    split_ifs with hclaimed hactive
    · simp
    · simp
    · simp [ht] at hactive

/-! ### The purchases and the token of a claimed guest -/

/-- The guest is claimed by the user, and has no purchase. -/
structure Barred (g u : ℤ) (s : Store) : Prop where
  claimed : ∃ i, s.accounts.guest? g = some i ∧ i.claimedUserId = some u
  rows : ∀ r ∈ s.apple, r.guestId ≠ some g

theorem barred_transfer {userId g now : ℤ} {i : GuestIdentity} (hi : s.accounts.guest? g = some i)
    (hfree : i.claimedUserId = none) : Barred g userId (transfer userId g now s) := by
  have hid : i.id = g := by simpa using Table.find?_prop hi
  constructor
  · refine ⟨claimedBy userId i, ?_, rfl⟩
    rw [guest?_transfer_eq, hi]
    simp [hid, hfree]
  · intro r hr
    rcases mem_transfer.mp hr with ⟨-, hg⟩ | ⟨q, -, -, rfl⟩
    · exact hg
    · simp [moved]

/-- Another guest is claimed. -/
theorem Barred.transfer {u userId g' now : ℤ} (h : Barred g u s) : Barred g u (transfer userId g' now s) := by
  obtain ⟨i, hi, hu⟩ := h.claimed
  constructor
  · refine ⟨i, ?_, hu⟩
    rw [guest?_transfer_eq, hi]
    simp [hu]
  · intro r hr
    rcases mem_transfer.mp hr with ⟨hr, -⟩ | ⟨q, -, -, rfl⟩
    · exact h.rows r hr
    · simp [moved]

/-- A save that completes is of an owner that is ready, which the guest is not. -/
theorem Barred.save {u : ℤ} (h : Barred g u s) {n : NormalizedTransaction} {t' : AppleTable}
    {out : AppleTransactionSaveResult} (hready : ownerReady s.accounts n = true)
    (hsave : SaveCompleted s.accounts n s.apple out t') : Barred g u { s with apple := t' } := by
  obtain ⟨i, hi, hu⟩ := h.claimed
  refine ⟨⟨i, hi, hu⟩, fun r hr hg => ?_⟩
  rcases (mem_save hsave).mp hr with rfl | ⟨hr, -⟩
  · have hown : n.guestId = some g := (ownerOf_eq.mp (owner_saved hsave).1).2.symm.trans hg
    unfold ownerReady ownerActive at hready
    simp [hown, hi, hu] at hready
  · exact h.rows r hr hg

theorem Barred.leaves {u : ℤ} (h : Barred g u s) {K : Set Lock} (hl : Leaves K s t)
    (hi : ∀ i, s.accounts.guest? g = some i → i.claimedUserId = some u → t.accounts.guest? g = some i) :
    Barred g u t := by
  obtain ⟨i, hi', hu⟩ := h.claimed
  exact ⟨⟨i, hi i hi' hu, hu⟩, fun r hr => h.rows r (hl.rows r hr)⟩

/-- Every commit keeps the guest barred, but for the deletion of the user. -/
theorem Barred.commit {u : ℤ} (h : Barred g u s) {l : AccountWorker} (hk : AccountKnows s l)
    (hspared : l ≠ .deleting u) (hc : AccountCommit s l t) : Barred g u t := by
  cases hc with
  | request hc =>
    cases hc with
    | merge save => exact h.save hk.1 (merge_completed hk.2.1 hk.2.2 save)
    | insert save => exact h.save hk.1 (insert_completed hk.2 save)
    | claim => exact h.transfer
  | session created => exact h.leaves (leaves_created created) fun i hi _ => guest?_created created hi
  | touched => exact h.leaves (leaves_touched _ _) fun i hi _ => hi
  | @deleted v =>
    apply h.leaves (leaves_deleted v)
    intro i hi hu
    have hne : u ≠ v := fun huv => hspared (by rw [huv])
    rw [guest?_deleted, hi]
    simp [hu, hne]

theorem tokenOwners_claimed {user : Option User} {i : GuestIdentity} {u : ℤ} (h : i.claimedUserId = some u) (g : ℤ) :
    AppleSubscriptionOwner.guest g ∉ tokenOwners user (some i) := by
  unfold tokenOwners
  cases user <;> simp [h]

/-- The token of a barred guest is not resolved to it. -/
theorem Barred.resolve {u : ℤ} (h : Barred g u s) (before : Accounts) (token : BitVec 128) :
    resolveOwnerByAppAccountToken before s.accounts token ≠ .ok (some (.guest g)) := by
  obtain ⟨i, hi, hu⟩ := h.claimed
  have hout : AppleSubscriptionOwner.guest g ∉ tokenOwners
      (before.users.find? fun x => x.appAccountToken = token) (guestByToken s.accounts token) := by
    cases hj : guestByToken s.accounts token with
    | none => simp [tokenOwners]
    | some j =>
      by_cases hji : j.id = g
      · -- the identity found is the claimed one
        have hj' : s.accounts.guest? g = some j := by
          apply Table.find?_of_mem (k := .inl g)
          · intro x hx
            simp only [decide_eq_true_eq] at hx
            simp [GuestIdentity.keys, hx]
          · exact Table.find?_mem hj
          · simpa using hji
        obtain rfl : i = j := Option.some.inj (hi.symm.trans hj')
        exact tokenOwners_claimed hu g
      · unfold tokenOwners
        cases hc : j.claimedUserId <;> cases before.users.find? fun x => x.appAccountToken = token <;>
          simp [hc, Ne.symm hji]
  unfold resolveOwnerByAppAccountToken
  split
  · simp
  · next o ho =>
    rw [ho, List.mem_singleton] at hout
    simpa using Ne.symm hout
  · simp

/-- The deletion of the user: the token of the guest is resolved to it again,
if it is not the token of a user too. -/
theorem Barred.released {u : ℤ} (h : Barred g u s) : ∃ token, ∀ before : Accounts,
    (before.users.find? fun x => x.appAccountToken = token) = none →
      resolveOwnerByAppAccountToken before (deleteUser u s).accounts token = .ok (some (.guest g)) := by
  obtain ⟨i, hi, hu⟩ := h.claimed
  have hid : i.id = g := by simpa using Table.find?_prop hi
  have hfind : guestByToken s.accounts i.appAccountToken = some i := by
    apply Table.find?_of_mem (k := .inr i.appAccountToken)
    · intro x hx
      simp only [decide_eq_true_eq] at hx
      simp [GuestIdentity.keys, hx]
    · exact Table.find?_mem hi
    · simp
  have hq : ∀ x, decide ((unclaimed x).appAccountToken = i.appAccountToken) =
      decide (x.appAccountToken = i.appAccountToken) := fun _ => rfl
  have hreleased : guestByToken (deleteUser u s).accounts i.appAccountToken = some (unclaimed i) := by
    unfold guestByToken at hfind
    unfold guestByToken deleteUser
    dsimp only
    rw [Table.find?_update hq, hfind]
    simp [hu]
  refine ⟨i.appAccountToken, fun before hnone => ?_⟩
  unfold resolveOwnerByAppAccountToken
  rw [hnone, hreleased]
  simp [tokenOwners, unclaimed, hid]

/-! ### In every run -/

/-- The guest owns nothing, its token is not resolved to it, and no session of
it is accepted. -/
structure Retired (g : ℤ) (s : Store) : Prop where
  rows : ∀ r ∈ s.apple, r.guestId ≠ some g
  resolve : ∀ before token, resolveOwnerByAppAccountToken before s.accounts token ≠ .ok (some (.guest g))
  sessions : ∀ x ∈ s.sessions, x.guestId = g → ∀ now i, getGuestByToken s x.tokenHash now false ≠ .ok i

variable {ι : Type*} [DecidableEq ι] {x y z v : System Store AccountWorker ι}

/-- A step that does not delete the user. -/
def Spared (u : ℤ) (_ : System Store AccountWorker ι) (a : Action AccountWorker ι) : Prop :=
  ∀ w, a ≠ .commit w (.deleting u)

/-- What the commit of a claim makes of the guest. -/
theorem claim_committed (hcoh : Coherent (accountProtocol hash) (fun s => Owned s.apple) AccountKnows y) {w : ι}
    {c : ClaimCall} {done : List String}
    (h : Step (accountProtocol hash) y (.commit w (.request (.claim c (.ready g done)))) z) :
    Revoked g z.store ∧ Barred g c.userId z.store := by
  cases h with
  | commit here commits =>
    obtain ⟨hknown, -⟩ : Knows y.store (.claim c (.ready g done)) := hcoh.knows _ _ here
    cases commits with
    | request h =>
      cases h with
      | claim =>
        obtain ⟨i, hi, hfree, rfl⟩ := hknown.guest
        obtain ⟨x, -, hx, hid⟩ := getGuestByToken_ok hi
        rw [← hid] at hx
        exact ⟨revoked_transfer (by rw [hx]; rfl), barred_transfer hx hfree⟩

/-- **The sessions of a claimed guest stay revoked**, whatever happens. -/
theorem claimed_guest_revoked (hash : String → ℤ) (hx : x.Idle) (ho : Owned x.store.apple)
    (h : Reaches (accountProtocol hash) x y) {w : ι} {c : ClaimCall} {done : List String}
    (hclaim : Step (accountProtocol hash) y (.commit w (.request (.claim c (.ready g done)))) z)
    (hrun : Reaches (accountProtocol hash) z v) : Revoked g v.store := by
  have hcoh := (account_lawful hash).reaches (coherent_of_idle hx ho) h
  have hnext := (account_lawful hash).step hcoh hclaim
  apply (account_lawful hash).keeps (fun _ _ _ _ _ _ _ hc hs => hs.commit hc) hnext hrun.unconditional
  exact (claim_committed hcoh hclaim).1

/-- As long as the user that claimed the guest is not deleted, it stays barred. -/
theorem claimed_guest_barred (hash : String → ℤ) (hx : x.Idle) (ho : Owned x.store.apple)
    (h : Reaches (accountProtocol hash) x y) {w : ι} {c : ClaimCall} {done : List String}
    (hclaim : Step (accountProtocol hash) y (.commit w (.request (.claim c (.ready g done)))) z)
    (hrun : ReachesBy (accountProtocol hash) (Spared c.userId) z v) : Barred g c.userId v.store := by
  have hcoh := (account_lawful hash).reaches (coherent_of_idle hx ho) h
  have hnext := (account_lawful hash).step hcoh hclaim
  refine (account_lawful hash).keeps (fun s w l t _ hk hspared hc hb => ?_) hnext hrun (claim_committed hcoh hclaim).2
  exact hb.commit hk (fun hl => hspared w (by rw [hl])) hc

/-- **A claimed guest stays retired while its user is there.** In every run of
guest sessions, saves, notifications, claims and deletions, from the commit of
the claim on, as long as no step deletes the user that claimed the guest: the
guest owns no purchase, its token is not resolved to it, and no session of it
is accepted. The step that deletes the user ends this: in the state it leads
to, a token is resolved to the guest, unless a user has that token. -/
theorem claimed_guest_retired (hash : String → ℤ) (hx : x.Idle) (ho : Owned x.store.apple)
    (h : Reaches (accountProtocol hash) x y) {w : ι} {c : ClaimCall} {done : List String}
    (hclaim : Step (accountProtocol hash) y (.commit w (.request (.claim c (.ready g done)))) z)
    (hrun : ReachesBy (accountProtocol hash) (Spared c.userId) z v) :
    Retired g v.store ∧
    ∀ w' v', Step (accountProtocol hash) v (.commit w' (.deleting c.userId)) v' →
      ∃ token, ∀ before : Accounts, (before.users.find? fun x => x.appAccountToken = token) = none →
        resolveOwnerByAppAccountToken before v'.store.accounts token = .ok (some (.guest g)) := by
  have hrevoked := claimed_guest_revoked hash hx ho h hclaim hrun.reaches
  have hbarred := claimed_guest_barred hash hx ho h hclaim hrun
  refine ⟨⟨hbarred.rows, hbarred.resolve, fun x hx hg => hrevoked.refused hx hg⟩, fun w' v' hdelete => ?_⟩
  cases hdelete with
  | commit here commits =>
    cases commits with
    | deleted => exact hbarred.released

/-! ### A run in which the user is deleted -/

/-- The user 1 and the guest 7, who has a session and a purchase. -/
def sampleAccountSystem : System Store AccountWorker ℕ := ⟨sampleSystem.store, fun _ => none⟩

/-- The claim is about to commit. -/
def claimingAccountSystem : System Store AccountWorker ℕ :=
  sampleAccountSystem.put 0 (some (.request (.claim sampleClaim (.ready 7 ["t"]))))

theorem request_moves {l l' : Worker} (h : Relation.ReflTransGen (Move s) l l') :
    Relation.ReflTransGen (AccountMove s) (.request l) (.request l') := by
  induction h with
  | refl => exact .refl
  | tail _ hm ih => exact ih.tail (.request hm)

theorem claimingAccountSystem_reached :
    Reaches (accountProtocol fun _ => 0) sampleAccountSystem claimingAccountSystem := by
  apply reaches_alone (l := .request (.claim sampleClaim .start)) (fun _ => rfl) 0 trivial
  exact request_moves sampleClaim_moves

/-- The state after the claim. -/
def claimedAccountSystem : System Store AccountWorker ℕ := ⟨transfer 1 7 0 sampleSystem.store, fun _ => none⟩

theorem claimedAccountSystem_step : Step (accountProtocol fun _ => 0) claimingAccountSystem
    (.commit 0 (.request (.claim sampleClaim (.ready 7 ["t"])))) claimedAccountSystem := by
  have h := Step.commit (P := accountProtocol fun _ => 0) (s := claimingAccountSystem) (w := 0)
    (l := .request (.claim sampleClaim (.ready 7 ["t"]))) (by simp [claimingAccountSystem, System.put])
    (.request .claim)
  have hworkers : Function.update claimingAccountSystem.workers 0 none = fun _ => none := by
    simp [claimingAccountSystem, sampleAccountSystem, System.put]
  rw [hworkers] at h
  exact h

/-- Another guest session is created after the claim. -/
theorem claimed_guest_retired_sample : ∃ v : System Store AccountWorker ℕ,
    ReachesBy (accountProtocol fun _ => 0) (Spared 1) claimedAccountSystem v ∧
    (v.store.accounts.guest? 8).isSome ∧ Retired 7 v.store := by
  have hcreated : (createGuestSession ⟨8, 2, 2, "k", 1000⟩ claimedAccountSystem.store).isSome := by decide +kernel
  obtain ⟨t, ht⟩ := Option.isSome_iff_exists.mp hcreated
  have hstart := Step.start (P := accountProtocol fun _ => 0) (s := claimedAccountSystem) (w := 0)
    (l := .session ⟨8, 2, 2, "k", 1000⟩) rfl trivial
  have hcommit := Step.commit (P := accountProtocol fun _ => 0) (w := 0) (t := t)
    (s := claimedAccountSystem.put 0 (some (.session ⟨8, 2, 2, "k", 1000⟩))) (by simp [System.put]) (.session ht)
  have hrun : ReachesBy (accountProtocol fun _ => 0) (Spared 1) claimedAccountSystem _ :=
    (ReachesBy.step .refl hstart fun _ => by simp).step hcommit fun _ => by simp
  refine ⟨_, hrun, ?_, ?_⟩
  · obtain ⟨identities, sessions, hidentities, -, rfl⟩ := created_of_some ht
    have hnone : claimedAccountSystem.store.accounts.guestIdentities.find? (fun i => i.id = 8) = none := by decide +kernel
    show (identities.find? fun i => i.id = 8).isSome
    rw [Table.find?_insert hidentities hnone]
    rfl
  · exact (claimed_guest_retired (fun _ => 0) (fun _ => rfl) sampleSystem_owned claimingAccountSystem_reached
      claimedAccountSystem_step hrun).1

/-- The account of the user is deleted after the claim. -/
def deletedStore : Store := deleteUser 1 claimedAccountSystem.store

def deletedAccountSystem : System Store AccountWorker ℕ := ⟨deletedStore, fun _ => none⟩

def guestPurchase : AppleTransaction := { samplePurchase with userId := none, guestId := some 7 }

/-- A purchase of the guest is saved there. -/
theorem guestPurchase_saved : ∃ n out apple, validateAppleTransaction guestPurchase = .ok n ∧
    ownerReady deletedStore.accounts n = true ∧ SaveCompleted deletedStore.accounts n deletedStore.apple out apple ∧
    ∃ r ∈ apple, r.guestId = some 7 := by
  have h : ((validateAppleTransaction guestPurchase).toOption.bind fun n =>
      (saveNormalized deletedStore.accounts n deletedStore.apple).toOption.map fun x =>
        (ownerReady deletedStore.accounts n, x.2.rows.any fun r => r.guestId = some 7)) = some (true, true) := by
    decide +kernel
  obtain ⟨n, hn, h⟩ := Option.bind_eq_some_iff.mp h
  obtain ⟨⟨out, apple⟩, hsave, h⟩ := Option.map_eq_some_iff.mp h
  obtain ⟨hready, hrow⟩ := Prod.mk.inj h
  obtain ⟨r, hr, hg⟩ := List.any_eq_true.mp hrow
  exact ⟨n, out, apple, toOption_eq_some.mp hn, hready, (saveCompleted_of_ok (toOption_eq_some.mp hsave)).2, r, hr,
    by simpa using hg⟩

/-- The user 1 claims the guest 7 and deletes the account: the token is
resolved to the guest, and the next purchase with it is the guest's. -/
theorem claimed_guest_returns : ∃ v : System Store AccountWorker ℕ,
    Reaches (accountProtocol fun _ => 0) sampleAccountSystem claimingAccountSystem ∧
    Step (accountProtocol fun _ => 0) claimingAccountSystem
      (.commit 0 (.request (.claim sampleClaim (.ready 7 ["t"])))) claimedAccountSystem ∧
    Reaches (accountProtocol fun _ => 0) claimedAccountSystem v ∧
    resolveOwnerByAppAccountToken v.store.accounts v.store.accounts 1#128 = .ok (some (.guest 7)) ∧
    ∃ r ∈ v.store.apple, r.guestId = some 7 := by
  have hdelete : Reaches (accountProtocol fun _ => 0) claimedAccountSystem deletedAccountSystem := by
    apply reaches_transaction (l := .delete 1) (fun _ => rfl) 0 trivial
    · exact .single (.delete (by decide +kernel))
    · exact .deleted
  obtain ⟨n, out, apple, hn, hready, hsave, hrow⟩ := guestPurchase_saved
  obtain ⟨l, hmoves, hcommit⟩ := save_moves hready hsave
  have hpurchase : Reaches (accountProtocol fun _ => 0) deletedAccountSystem
      { deletedAccountSystem with store := { deletedStore with apple } } := by
    have hstart : (accountProtocol fun _ => 0).start (.request (.save n .start)) := ⟨_, hn⟩
    apply reaches_transaction (fun _ => rfl) 0 hstart
    · exact request_moves hmoves
    · exact .request hcommit
  refine ⟨_, claimingAccountSystem_reached, claimedAccountSystem_step, hdelete.trans hpurchase, ?_, hrow⟩
  have hresolve : resolveOwnerByAppAccountToken deletedStore.accounts deletedStore.accounts 1#128 =
      .ok (some (.guest 7)) := by rfl
  exact hresolve

end Ownership
end FuelNear

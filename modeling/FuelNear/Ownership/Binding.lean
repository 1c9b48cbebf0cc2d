/-
# A purchase carries no token of another

A user or a guest has an app account token, which the app hands to Apple with
a purchase. `/subscription/apple/verify` accepts a signed transaction only
with a token that the owner holds: the user's own, or that of a guest that the
user has claimed. A notification is saved for the owner that the stored rows
and the token name. Between the read of a token and the save of the row other
workers may claim the guest, delete the user or create accounts.

What a worker relies on there is `Binds`: whoever has the token now is the
owner of its save, or a guest that the owner claimed, or the owner is a user
that is gone. The save locks the owner and finds it there, so in every state
no row carries the token of anybody but its owner (`token_bound`).

Key definitions: `BindingWorker`, `bindingProtocol`, `Binds`, `Bound`, `Genuine`.
Key theorems: `binding_lawful`, `Bound.save`, `Bound.transfer`, `relies_move`, `token_bound`.
-/
import FuelNear.Apple.Jws
import FuelNear.Ownership.Deletion

namespace FuelNear
namespace Ownership

open Sql Apple Locking

/-! ### The workers -/

/-- `get_allowed_app_account_tokens_for_user`. -/
def getAllowedAppAccountTokensForUser (a : Accounts) (userId : ℤ) : List (BitVec 128) :=
  ((a.users.rows.filter fun u => u.id = userId).map (·.appAccountToken) ++
    (a.guestIdentities.rows.filter fun i => i.claimedUserId = some userId).map (·.appAccountToken)).dedup

/-- A worker: one of an account; the registration of a user, with the id and
the token that the database generates; or a verification, before it has read
the tokens of its owner and after. -/
inductive BindingWorker where
  | account (l : AccountWorker)
  | register (u : User)
  | registering (u : User)
  | verifyUser (userId : ℤ) (signedTransaction : String)
  | verifyGuest (tokenHash : String) (now : ℤ) (signedTransaction : String)
  | verifying (o : AppleSubscriptionOwner) (tokens : List PyValue) (signedTransaction : String)

/-- The row of a user that is registered is locked until the commit. -/
def bindingHeld (hash : String → ℤ) : BindingWorker → Set Lock
  | .account l => accountHeld hash l
  | .registering u => {.user u.id}
  | _ => ∅

section Protocol

variable (jwt : JwtDecode) (repr : PyValue → String) (v : Jws.Verifiers) (hash : String → ℤ)

inductive BindingMove (s : Store) : BindingWorker → BindingWorker → Prop where
  | account {l l'} (h : AccountMove s l l') : BindingMove s (.account l) (.account l')
  /-- `INSERT INTO users …` -/
  | register {u} : BindingMove s (.register u) (.registering u)
  /-- `get_allowed_app_account_tokens_for_user` -/
  | readUser {userId signed} : BindingMove s (.verifyUser userId signed)
      (.verifying (.user userId) ((getAllowedAppAccountTokensForUser s.accounts userId).map .uuid) signed)
  /-- `get_guest_by_token`; that it touches the session is a worker of its own -/
  | readGuest {tokenHash now signed i} (guest : getGuestByToken s tokenHash now false = .ok i) :
      BindingMove s (.verifyGuest tokenHash now signed) (.verifying (.guest i.id) [.uuid i.appAccountToken] signed)
  /-- `_verify_and_process_apple_subscription` up to the save -/
  | verified {o tokens signed t n}
      (accepted : Jws.verifyExpected (Jws.verifyAppleSignedTransaction jwt repr v signed) tokens = .ok t)
      (valid : validateAppleTransaction (clientTransaction o t) = .ok n) :
      BindingMove s (.verifying o tokens signed) (.account (.request (.save n .start)))

inductive BindingCommit (s : Store) : BindingWorker → Store → Prop where
  | account {l t} (h : AccountCommit s l t) : BindingCommit s (.account l) t
  | registered {u users} (inserted : s.accounts.users.insert? u = some users) :
      BindingCommit s (.registering u) { s with accounts := ⟨users, s.accounts.guestIdentities⟩ }

/-- A save starts as a verification or as a notification. -/
def BindingStarts : BindingWorker → Prop
  | .account (.request (.save _ _)) => False
  | .account l => AccountStarts l
  | .register _ => True
  | .verifyUser _ _ => True
  | .verifyGuest _ _ _ => True
  | _ => False

def bindingProtocol : Protocol Store BindingWorker Lock where
  held := bindingHeld hash
  start := BindingStarts
  move := BindingMove jwt repr v
  commit := BindingCommit

end Protocol

/-! ### What the workers know -/

def BindingKnows (s : Store) : BindingWorker → Prop
  | .account l => AccountKnows s l
  | _ => True

variable {hash : String → ℤ} {s t : Store}

theorem user?_registered {a : Accounts} {u : User} {users : Table User User.keys} (h : a.users.insert? u = some users)
    {id : ℤ} (hid : id ≠ u.id) : (⟨users, a.guestIdentities⟩ : Accounts).user? id = a.user? id := by
  apply Table.find?_insert_of_false h
  simpa using Ne.symm hid

theorem leaves_registered {u : User} {users : Table User User.keys} (h : s.accounts.users.insert? u = some users) :
    Leaves {.user u.id} s { s with accounts := ⟨users, s.accounts.guestIdentities⟩ } := by
  refine ⟨fun id hid => ?_, fun _ _ hi _ => hi, fun _ x hx => ⟨x, hx, rfl, rfl, le_rfl⟩, fun _ hr => hr,
    fun _ hr _ => hr⟩
  exact user?_registered h fun heq => hid (by rw [heq]; rfl)

theorem binding_lawful (jwt : JwtDecode) (repr : PyValue → String) (v : Jws.Verifiers) (hash : String → ℤ) :
    Lawful (bindingProtocol jwt repr v hash) (fun s => Owned s.apple) BindingKnows where
  start l hl := by
    cases l with
    | account l =>
      cases l with
      | request l =>
        cases l with
        | save n point => exact hl.elim
        | notification m point => exact (account_lawful hash).start (.request (.notification m point)) hl
        | claim c point => exact (account_lawful hash).start (.request (.claim c point)) hl
      | session c => exact (account_lawful hash).start (.session c) hl
      | touch c => exact (account_lawful hash).start (.touch c) hl
      | touching c id => exact hl.elim
      | delete u => exact (account_lawful hash).start (.delete u) hl
      | deleting u => exact hl.elim
    | register u => exact ⟨rfl, fun _ => trivial⟩
    | registering u => exact hl.elim
    | verifyUser u signed => exact ⟨rfl, fun _ => trivial⟩
    | verifyGuest h now signed => exact ⟨rfl, fun _ => trivial⟩
    | verifying o tokens signed => exact hl.elim
  move s l l' hi hk h := by
    cases h with
    | account h => exact (account_lawful hash).move _ _ _ hi hk h
    | register => trivial
    | readUser => trivial
    | readGuest guest => trivial
    | verified accepted valid => trivial
  commit s l t ho hk h := by
    cases h with
    | account h => exact (account_lawful hash).commit _ _ _ ho hk h
    | registered inserted => exact ho
  stable s l t m ho hk h hm hd := by
    cases m with
    | account m =>
      cases h with
      | account h => exact (account_lawful hash).stable _ _ _ _ ho hk h hm hd
      | registered inserted =>
        cases m with
        | request m => exact knows_leaves (leaves_registered inserted) ho hd hm
        | _ => trivial
    | _ => trivial

/-! ### Whose a token is -/

/-- `resolve_owner_by_app_account_token`, of an identity. -/
def holder (i : GuestIdentity) : AppleSubscriptionOwner :=
  match i.claimedUserId with
  | some u => .user u
  | none => .guest i.id

/-- What a worker relies on that saves for `o` with the token `k`. -/
structure Binds (a : Accounts) (o : AppleSubscriptionOwner) (k : BitVec 128) : Prop where
  user : ∀ u ∈ a.users, u.appAccountToken = k → o = .user u.id
  guest : ∀ i ∈ a.guestIdentities, i.appAccountToken = k →
    o = .guest i.id ∨ ∃ u, o = .user u ∧ (i.claimedUserId = some u ∨ a.user? u = none)

/-- Nobody shares a token, and no row carries the token of anybody but its owner. -/
structure Bound (s : Store) : Prop where
  distinct : ∀ u ∈ s.accounts.users, ∀ i ∈ s.accounts.guestIdentities, u.appAccountToken ≠ i.appAccountToken
  user : ∀ r ∈ s.apple, ∀ u ∈ s.accounts.users, r.appAccountToken = some u.appAccountToken →
    ownerOf r = some (.user u.id)
  guest : ∀ r ∈ s.apple, ∀ i ∈ s.accounts.guestIdentities, r.appAccountToken = some i.appAccountToken →
    ownerOf r = some (holder i)

theorem user_of_token {a : Accounts} {u u' : User} (hu : u ∈ a.users) (hu' : u' ∈ a.users)
    (h : u.appAccountToken = u'.appAccountToken) : u = u' := by
  apply Table.eq_of_key hu hu' (k := .inr u.appAccountToken)
  · simp [User.keys]
  · simp [User.keys, h]

theorem guest_of_token {a : Accounts} {i i' : GuestIdentity} (hi : i ∈ a.guestIdentities) (hi' : i' ∈ a.guestIdentities)
    (h : i.appAccountToken = i'.appAccountToken) : i = i' := by
  apply Table.eq_of_key hi hi' (k := .inr i.appAccountToken)
  · simp [GuestIdentity.keys]
  · simp [GuestIdentity.keys, h]

theorem guest?_of_mem {a : Accounts} {i : GuestIdentity} (hi : i ∈ a.guestIdentities) : a.guest? i.id = some i := by
  apply Table.find?_of_mem (k := .inl i.id)
  · intro x hx
    simp only [decide_eq_true_eq] at hx
    simp [GuestIdentity.keys, hx]
  · exact hi
  · simp

/-- An owner that is ready is the holder of the token. -/
theorem Binds.holder {n : NormalizedTransaction} {k : BitVec 128} (h : Binds s.accounts n.owner k)
    (hready : ownerReady s.accounts n = true) {i : GuestIdentity} (hi : i ∈ s.accounts.guestIdentities)
    (hk : i.appAccountToken = k) : n.owner = holder i := by
  unfold ownerReady ownerActive NormalizedTransaction.userId NormalizedTransaction.guestId at hready
  rcases h.guest i hi hk with ho | ⟨u, ho, hclaimed | hgone⟩
  · rw [ho] at hready ⊢
    have hfree : i.claimedUserId = none := by
      simpa [AppleSubscriptionOwner.userId, AppleSubscriptionOwner.guestId, guest?_of_mem hi] using hready
    unfold Ownership.holder
    rw [hfree]
  · unfold Ownership.holder
    rw [hclaimed, ho]
  · rw [ho] at hready
    simp [AppleSubscriptionOwner.userId, AppleSubscriptionOwner.guestId, hgone] at hready

/-! ### What the commits do to a token -/

/-- A saved row carries the token that was sent, or one that a row of its
owner carried before. -/
theorem saved_token {a : Accounts} {n : NormalizedTransaction} {x x' : AppleTable} {out : AppleTransactionSaveResult}
    (h : SaveCompleted a n x out x') {k : BitVec 128} (hk : out.row.appAccountToken = some k) :
    n.appAccountToken = some k ∨ ∃ r ∈ x, r.appAccountToken = some k ∧ ownerOf r = some n.owner := by
  cases h with
  | @merged r found same =>
    have hgeneral := mergeRow_general n r (·.appAccountToken) (fun _ _ _ _ => rfl) fun _ _ _ _ => rfl
    have hold : r.appAccountToken = some k → ∃ r ∈ x, r.appAccountToken = some k ∧ ownerOf r = some n.owner :=
      fun hr => ⟨r, mem_of_lookup found, hr, (identityDiffers_eq_false same).1⟩
    dsimp only at hk
    rw [hgeneral] at hk
    split_ifs at hk
    · unfold updateGeneralContext at hk
      dsimp only at hk
      cases hn : n.appAccountToken with
      | none =>
        rw [hn, Option.none_or] at hk
        exact Or.inr (hold hk)
      | some k' =>
        rw [hn, Option.some_or] at hk
        exact Or.inl hk
    · exact Or.inr (hold hk)
  | inserted new alone inserts => exact Or.inl hk

theorem Bound.save (hb : Bound s) {n : NormalizedTransaction} {apple : AppleTable} {out : AppleTransactionSaveResult}
    (h : SaveCompleted s.accounts n s.apple out apple) (hready : ownerReady s.accounts n = true)
    (hbinds : ∀ k, n.appAccountToken = some k → Binds s.accounts n.owner k) : Bound { s with apple } := by
  refine ⟨hb.distinct, fun r hr u hu hk => ?_, fun r hr i hi hk => ?_⟩
  · rcases (mem_save h).mp hr with rfl | ⟨hr, -⟩
    · rw [(owner_saved h).1]
      rcases saved_token h hk with hn | ⟨q, hq, hqk, howner⟩
      · rw [(hbinds _ hn).user u hu rfl]
      · rw [← howner]
        exact hb.user q hq u hu hqk
    · exact hb.user r hr u hu hk
  · rcases (mem_save h).mp hr with rfl | ⟨hr, -⟩
    · rw [(owner_saved h).1]
      rcases saved_token h hk with hn | ⟨q, hq, hqk, howner⟩
      · rw [(hbinds _ hn).holder hready hi rfl]
      · rw [← howner]
        exact hb.guest q hq i hi hqk
    · exact hb.guest r hr i hi hk

theorem mem_guests_transfer {userId g now : ℤ} {i' : GuestIdentity} :
    i' ∈ (transfer userId g now s).accounts.guestIdentities ↔ ∃ i ∈ s.accounts.guestIdentities,
      (if i.id = g ∧ i.claimedUserId = none then claimedBy userId i else i) = i' := by
  unfold transfer claimIdentity
  rw [Table.mem_update]
  simp only [Bool.and_eq_true, decide_eq_true_eq, Option.isNone_iff_eq_none]

theorem Bound.transfer (hb : Bound s) (ho : Owned s.apple) {userId g now : ℤ} {i₀ : GuestIdentity}
    (hi₀ : s.accounts.guest? g = some i₀) (hfree : i₀.claimedUserId = none) : Bound (transfer userId g now s) := by
  have hid : i₀.id = g := by simpa using Table.find?_prop hi₀
  refine ⟨fun u hu i' hi' => ?_, fun r hr u hu hk => ?_, fun r hr i' hi' hk => ?_⟩
  · obtain ⟨i, hi, rfl⟩ := mem_guests_transfer.mp hi'
    have htoken : (if i.id = g ∧ i.claimedUserId = none then claimedBy userId i else i).appAccountToken =
        i.appAccountToken := by split_ifs <;> rfl
    rw [htoken]
    exact hb.distinct u hu i hi
  · rcases mem_transfer.mp hr with ⟨hr, -⟩ | ⟨q, hq, hguest, rfl⟩
    · exact hb.user r hr u hu hk
    · -- a row of the guest carries no token of a user
      have howner := hb.user q hq u hu hk
      rw [ho.guest hq hguest] at howner
      exact absurd howner (by simp)
  · obtain ⟨i, hi, rfl⟩ := mem_guests_transfer.mp hi'
    by_cases hig : i.id = g
    · -- the identity that is claimed: its rows are the guest's, and all move
      obtain rfl : i = i₀ := Option.some.inj ((guest?_of_mem hi).symm.trans (hig ▸ hi₀))
      rw [if_pos ⟨hig, hfree⟩] at hk ⊢
      have howner : ∀ q ∈ s.apple, q.appAccountToken = some i.appAccountToken → q.guestId = some g := by
        intro q hq hqk
        have h := hb.guest q hq i hi hqk
        unfold holder at h
        rw [hfree, hig] at h
        exact ownerOf_guest h
      rcases mem_transfer.mp hr with ⟨hr, hguest⟩ | ⟨q, -, -, rfl⟩
      · exact absurd (howner r hr hk) hguest
      · rw [ownerOf_moved]
        rfl
    · rw [if_neg fun h => hig h.1] at hk ⊢
      rcases mem_transfer.mp hr with ⟨hr, -⟩ | ⟨q, hq, hguest, rfl⟩
      · exact hb.guest r hr i hi hk
      · -- a row of the guest carries no token of another identity
        have howner := hb.guest q hq i hi hk
        rw [ho.guest hq hguest] at howner
        unfold holder at howner
        split at howner
        · exact absurd howner (by simp)
        · exact absurd (AppleSubscriptionOwner.guest.inj (Option.some.inj howner)).symm hig

/-- A token that nobody has and no row carries. -/
structure NewToken (s : Store) (k : BitVec 128) : Prop where
  row : ∀ r ∈ s.apple, r.appAccountToken ≠ some k
  user : ∀ u ∈ s.accounts.users, u.appAccountToken ≠ k
  guest : ∀ i ∈ s.accounts.guestIdentities, i.appAccountToken ≠ k

theorem Bound.created (hb : Bound s) {c : SessionCall} (h : createGuestSession c s = some t)
    (hnew : NewToken s c.appAccountToken) : Bound t := by
  obtain ⟨identities, sessions, hidentities, -, rfl⟩ := created_of_some h
  refine ⟨fun u hu i hi => ?_, hb.user, fun r hr i hi hk => ?_⟩
  · rcases (Table.mem_insert hidentities).mp hi with hi | rfl
    · exact hb.distinct u hu i hi
    · exact hnew.user u hu
  · rcases (Table.mem_insert hidentities).mp hi with hi | rfl
    · exact hb.guest r hr i hi hk
    · exact absurd hk (hnew.row r hr)

theorem Bound.registered (hb : Bound s) {u : User} {users : Table User User.keys}
    (h : s.accounts.users.insert? u = some users) (hnew : NewToken s u.appAccountToken) :
    Bound { s with accounts := ⟨users, s.accounts.guestIdentities⟩ } := by
  refine ⟨fun x hx i hi => ?_, fun r hr x hx hk => ?_, hb.guest⟩
  · rcases (Table.mem_insert h).mp hx with hx | rfl
    · exact hb.distinct x hx i hi
    · exact fun heq => hnew.guest i hi heq.symm
  · rcases (Table.mem_insert h).mp hx with hx | rfl
    · exact hb.user r hr x hx hk
    · exact absurd hk (hnew.row r hr)

theorem mem_guests_deleted {u : ℤ} {i' : GuestIdentity} : i' ∈ (deleteUser u s).accounts.guestIdentities ↔
    ∃ i ∈ s.accounts.guestIdentities, (if i.claimedUserId = some u then unclaimed i else i) = i' := by
  unfold deleteUser
  rw [Table.mem_update]
  simp only [decide_eq_true_eq]

theorem mem_users_deleted {u : ℤ} {x : User} :
    x ∈ (deleteUser u s).accounts.users ↔ x ∈ s.accounts.users ∧ x.id ≠ u := by
  unfold deleteUser
  rw [Table.mem_delete, decide_eq_false_iff_not]

theorem Bound.deleted (hb : Bound s) (u : ℤ) : Bound (deleteUser u s) := by
  refine ⟨fun x hx i' hi' => ?_, fun r hr x hx hk => ?_, fun r hr i' hi' hk => ?_⟩
  · obtain ⟨i, hi, rfl⟩ := mem_guests_deleted.mp hi'
    have htoken : (if i.claimedUserId = some u then unclaimed i else i).appAccountToken = i.appAccountToken := by
      split_ifs <;> rfl
    rw [htoken]
    exact hb.distinct x (mem_users_deleted.mp hx).1 i hi
  · exact hb.user r (mem_deleted.mp hr).1 x (mem_users_deleted.mp hx).1 hk
  · obtain ⟨i, hi, rfl⟩ := mem_guests_deleted.mp hi'
    obtain ⟨hr, hne⟩ := mem_deleted.mp hr
    split_ifs at hk ⊢ with hclaimed
    · -- the rows with the token of a released identity went with the user
      have howner := hb.guest r hr i hi hk
      unfold holder at howner
      rw [hclaimed] at howner
      exact absurd (ownerOf_eq.mp howner).1 hne
    · exact hb.guest r hr i hi hk

/-! ### What the commits do to what is relied on -/

variable {o : AppleSubscriptionOwner} {k : BitVec 128}

theorem Binds.transfer (h : Binds s.accounts o k) (userId g now : ℤ) :
    Binds (transfer userId g now s).accounts o k := by
  refine ⟨h.user, fun i' hi' hk => ?_⟩
  obtain ⟨i, hi, rfl⟩ := mem_guests_transfer.mp hi'
  split_ifs at hk ⊢ with hc
  · rcases h.guest i hi hk with ho | ⟨u, ho, hclaimed | hgone⟩
    · exact Or.inl ho
    · rw [hc.2] at hclaimed
      exact absurd hclaimed (by simp)
    · exact Or.inr ⟨u, ho, Or.inr hgone⟩
  · exact h.guest i hi hk

theorem Binds.created (h : Binds s.accounts o k) {c : SessionCall} (hc : createGuestSession c s = some t)
    (hne : c.appAccountToken ≠ k) : Binds t.accounts o k := by
  obtain ⟨identities, sessions, hidentities, -, rfl⟩ := created_of_some hc
  refine ⟨h.user, fun i hi hk => ?_⟩
  rcases (Table.mem_insert hidentities).mp hi with hi | rfl
  · exact h.guest i hi hk
  · exact absurd hk hne

theorem Binds.registered (h : Binds s.accounts o k) {u : User} {users : Table User User.keys}
    (hu : s.accounts.users.insert? u = some users) (hne : u.appAccountToken ≠ k) (ho : o ≠ .user u.id) :
    Binds ⟨users, s.accounts.guestIdentities⟩ o k := by
  refine ⟨fun x hx hk => ?_, fun i hi hk => ?_⟩
  · rcases (Table.mem_insert hu).mp hx with hx | rfl
    · exact h.user x hx hk
    · exact absurd hk hne
  · rcases h.guest i hi hk with hg | ⟨v, hv, hclaimed | hgone⟩
    · exact Or.inl hg
    · exact Or.inr ⟨v, hv, Or.inl hclaimed⟩
    · have hvu : v ≠ u.id := fun heq => ho (by rw [hv, heq])
      exact Or.inr ⟨v, hv, Or.inr ((user?_registered hu hvu).trans hgone)⟩

theorem user?_deleted (u : ℤ) : (deleteUser u s).accounts.user? u = none := by
  apply Table.find?_eq_none.mpr
  intro x hx
  simpa using (mem_users_deleted.mp hx).2

theorem user?_deleted_none {u v : ℤ} (h : s.accounts.user? v = none) : (deleteUser u s).accounts.user? v = none := by
  apply Table.find?_eq_none.mpr
  intro x hx
  exact Table.find?_eq_none.mp h x (mem_users_deleted.mp hx).1

theorem Binds.deleted (h : Binds s.accounts o k) (u : ℤ) : Binds (deleteUser u s).accounts o k := by
  refine ⟨fun x hx => h.user x (mem_users_deleted.mp hx).1, fun i' hi' hk => ?_⟩
  obtain ⟨i, hi, rfl⟩ := mem_guests_deleted.mp hi'
  have hold : i.appAccountToken = k := by
    split_ifs at hk <;> exact hk
  rcases h.guest i hi hold with hg | ⟨v, hv, hclaimed | hgone⟩
  · refine Or.inl ?_
    split_ifs <;> exact hg
  · by_cases hvu : v = u
    · exact Or.inr ⟨v, hv, Or.inr (hvu ▸ user?_deleted u)⟩
    · refine Or.inr ⟨v, hv, Or.inl ?_⟩
      rw [if_neg fun hc => hvu (Option.some.inj (hclaimed.symm.trans hc))]
      exact hclaimed
  · exact Or.inr ⟨v, hv, Or.inr (user?_deleted_none hgone)⟩

/-! ### What the workers rely on -/

/-- What is true of the token of a worker from the read of it on. -/
def Relies (s : Store) : BindingWorker → Prop
  | .account (.request (.save n _)) => ∀ k, n.appAccountToken = some k → Binds s.accounts n.owner k
  | .account (.request (.notification m (.guest _ user))) => ∀ k, m.appAccountToken = some k →
    ∀ u ∈ s.accounts.users, u.appAccountToken = k → user = some u
  | .verifying o tokens _ => PyValue.none ∉ tokens ∧ ∀ k, Jws.Held tokens (some k) → Binds s.accounts o k
  | _ => True

/-- The tokens that a worker has in hand. -/
def Carries : BindingWorker → BitVec 128 → Prop
  | .account (.request (.save n _)), k => n.appAccountToken = some k
  | .account (.request (.notification m _)), k => m.appAccountToken = some k
  | .verifying _ tokens _, k => Jws.Held tokens (some k)
  | _, _ => False

/-- The worker saves, or is about to, for the user. -/
def WorksFor : BindingWorker → ℤ → Prop
  | .account (.request (.save n _)), u => n.owner = .user u
  | .verifying o _ _, u => o = .user u
  | _, _ => False

variable {ι : Type*} [DecidableEq ι]

/-- What the generators supply is new: a token that is nowhere in the
database and in no worker's hand, and an id that nobody is working for. -/
def Genuine (s : System Store BindingWorker ι) : Action BindingWorker ι → Prop
  | .commit _ (.account (.session c)) => NewToken s.store c.appAccountToken ∧
    ∀ w l, s.workers w = some l → ¬ Carries l c.appAccountToken
  | .commit _ (.registering u) => (NewToken s.store u.appAccountToken ∧
    ∀ w l, s.workers w = some l → ¬ Carries l u.appAccountToken) ∧ ∀ w l, s.workers w = some l → ¬ WorksFor l u.id
  | _ => True

/-- Accounts that give every worker what it relies on. -/
theorem relies_mono {l : BindingWorker} (h : Relies s l)
    (hbinds : ∀ o k, Carries l k → (∀ u, o = .user u → WorksFor l u) → Binds s.accounts o k → Binds t.accounts o k)
    (husers : ∀ u ∈ t.accounts.users, Carries l u.appAccountToken → u ∈ s.accounts.users) : Relies t l := by
  unfold Relies at h ⊢
  split at h
  · next n point =>
    intro k hk
    exact hbinds _ k hk (fun _ hu => hu) (h k hk)
  · next m owners user =>
    intro k hk u hu htoken
    exact h k hk u (husers u hu (htoken ▸ hk)) htoken
  · next o tokens signed =>
    exact ⟨h.1, fun k hk => hbinds _ k hk (fun _ hu => hu) (h.2 k hk)⟩
  · trivial

/-! ### What the statements teach -/

/-- Validation keeps the owner and the token. -/
theorem validate_binding {m : AppleTransaction} {n : NormalizedTransaction} (h : validateAppleTransaction m = .ok n) :
    n.appAccountToken = m.appAccountToken ∧ n.owner.userId = m.userId ∧ n.owner.guestId = m.guestId := by
  unfold validateAppleTransaction at h
  obtain ⟨owner, howner, h⟩ := bind_eq_ok.mp h
  obtain ⟨productId, -, h⟩ := bind_eq_ok.mp h
  obtain ⟨transactionId, -, h⟩ := bind_eq_ok.mp h
  obtain ⟨originalTransactionId, -, h⟩ := bind_eq_ok.mp h
  obtain ⟨environment, -, h⟩ := bind_eq_ok.mp h
  obtain ⟨notification, -, h⟩ := bind_eq_ok.mp h
  obtain rfl := Except.ok.inj h
  refine ⟨rfl, ?_⟩
  unfold validateOwner at howner
  split_ifs at howner
  split at howner
  · next u hu hg =>
    rw [← Except.ok.inj howner, hu, hg]
    exact ⟨rfl, rfl⟩
  · next g hu hg =>
    rw [← Except.ok.inj howner, hu, hg]
    exact ⟨rfl, rfl⟩
  · exact absurd howner (by simp)

theorem owner_ext {o o' : AppleSubscriptionOwner} (h1 : o.userId = o'.userId) (h2 : o.guestId = o'.guestId) : o = o' := by
  cases o <;> cases o' <;>
    simp_all [AppleSubscriptionOwner.userId, AppleSubscriptionOwner.guestId]

/-- Every owner that the token names is the one that is resolved. -/
theorem resolveOwner_found {owners found : List AppleSubscriptionOwner} (h : resolveOwner owners found = some o) :
    ∀ x ∈ found, x = o := by
  unfold resolveOwner at h
  split_ifs at h with hone
  split at h
  · next o' hfold =>
    obtain rfl := Option.some.inj h
    intro x hx
    match found, hone with
    | [y], _ =>
      obtain rfl := List.mem_singleton.mp hx
      have hmem : x ∈ owners.insert x := List.mem_insert_self
      rw [show owners.insert x = [o'] from hfold] at hmem
      exact List.mem_singleton.mp hmem
  · exact absurd h (by simp)

theorem mem_tokenOwners_user {u : User} (guest : Option GuestIdentity) :
    AppleSubscriptionOwner.user u.id ∈ tokenOwners (some u) guest := by
  unfold tokenOwners
  cases guest with
  | none => simp
  | some g => cases hc : g.claimedUserId <;> simp [hc]

theorem mem_tokenOwners_guest (user : Option User) (i : GuestIdentity) : holder i ∈ tokenOwners user (some i) := by
  unfold tokenOwners holder
  cases hc : i.claimedUserId <;> simp [hc]

theorem find?_user {a : Accounts} {u : User} (hu : u ∈ a.users) :
    a.users.find? (fun x => x.appAccountToken = u.appAccountToken) = some u := by
  apply Table.find?_of_mem (k := .inr u.appAccountToken)
  · intro x hx
    simp only [decide_eq_true_eq] at hx
    simp [User.keys, hx]
  · exact hu
  · simp

theorem find?_guest {a : Accounts} {i : GuestIdentity} (hi : i ∈ a.guestIdentities) :
    a.guestIdentities.find? (fun x => x.appAccountToken = i.appAccountToken) = some i := by
  apply Table.find?_of_mem (k := .inr i.appAccountToken)
  · intro x hx
    simp only [decide_eq_true_eq] at hx
    simp [GuestIdentity.keys, hx]
  · exact hi
  · simp

/-- The owner that a notification is resolved to. -/
theorem binds_resolved {owners : List AppleSubscriptionOwner} {user : Option User}
    (huser : ∀ u ∈ s.accounts.users, u.appAccountToken = k → user = some u)
    (h : resolveOwner owners
      (tokenOwners user (s.accounts.guestIdentities.find? fun g => g.appAccountToken = k)) = some o) :
    Binds s.accounts o k := by
  have hfound := resolveOwner_found h
  refine ⟨fun u hu hk => ?_, fun i hi hk => ?_⟩
  · rw [huser u hu hk] at hfound
    exact (hfound _ (mem_tokenOwners_user _)).symm
  · rw [← hk, find?_guest hi] at hfound
    have howner := hfound _ (mem_tokenOwners_guest user i)
    unfold holder at howner
    split at howner
    · next u hc => exact Or.inr ⟨u, howner.symm, Or.inl hc⟩
    · exact Or.inl howner.symm

theorem held_uuid {tokens : List (BitVec 128)} : Jws.Held (tokens.map .uuid) (some k) ↔ k ∈ tokens := by
  unfold Jws.Held
  constructor
  · rintro ⟨value, hvalue, e, hexpected, hk⟩
    obtain ⟨x, hx, rfl⟩ := List.mem_map.mp hvalue
    obtain rfl : x = e := Option.some.inj (Except.ok.inj hexpected)
    rw [Option.some.inj hk]
    exact hx
  · exact fun hk => ⟨.uuid k, List.mem_map_of_mem hk, k, rfl, rfl⟩

/-- The tokens that a user may use are the user's own and those of its guests. -/
theorem binds_allowed (hb : Bound s) {userId : ℤ} (hk : k ∈ getAllowedAppAccountTokensForUser s.accounts userId) :
    Binds s.accounts (.user userId) k := by
  unfold getAllowedAppAccountTokensForUser at hk
  rw [List.mem_dedup, List.mem_append] at hk
  rcases hk with hk | hk
  · obtain ⟨u, hu, rfl⟩ := List.mem_map.mp hk
    obtain ⟨hu, hid⟩ := List.mem_filter.mp hu
    have hid : u.id = userId := by simpa using hid
    refine ⟨fun x hx hsame => ?_, fun i hi hsame => absurd hsame.symm (hb.distinct u hu i hi)⟩
    rw [user_of_token hx hu hsame, hid]
  · obtain ⟨i, hi, rfl⟩ := List.mem_map.mp hk
    obtain ⟨hi, hclaimed⟩ := List.mem_filter.mp hi
    have hclaimed : i.claimedUserId = some userId := by simpa using hclaimed
    refine ⟨fun x hx hsame => absurd hsame (hb.distinct x hx i hi), fun x hx hsame => ?_⟩
    rw [guest_of_token hx hi hsame]
    exact Or.inr ⟨userId, rfl, Or.inl hclaimed⟩

/-- The token of a guest whose session is active. -/
theorem binds_guest (hb : Bound s) {i : GuestIdentity} (hi : i ∈ s.accounts.guestIdentities) :
    Binds s.accounts (.guest i.id) i.appAccountToken := by
  refine ⟨fun x hx hsame => absurd hsame (hb.distinct x hx i hi), fun x hx hsame => ?_⟩
  rw [guest_of_token hx hi hsame]
  exact Or.inl rfl

theorem getGuestByToken_mem {tokenHash : String} {now : ℤ} {allow : Bool} {i : GuestIdentity}
    (h : getGuestByToken s tokenHash now allow = .ok i) : i ∈ s.accounts.guestIdentities := by
  unfold getGuestByToken at h
  split at h
  · exact absurd h (by simp)
  · split at h
    · exact absurd h (by simp)
    · next i' hfind =>
      dsimp only at h
      split_ifs at h
      rw [← Except.ok.inj h]
      exact Table.find?_mem hfind

section Run

variable {jwt : JwtDecode} {repr : PyValue → String} {v : Jws.Verifiers}

/-- A worker of an account learns nothing of a token but in a notification. -/
theorem relies_move_request {l l' : Worker} (hr : Relies s (.account (.request l))) (h : Move s l l') :
    Relies s (.account (.request l')) := by
  cases h with
  | lockOwner ready => exact hr
  | lockChain => exact hr
  | found row same => exact hr
  | notFound row => exact hr
  | noOther alone => exact hr
  | byTransaction row => trivial
  | byOriginal row => trivial
  | noToken absent one valid =>
    intro k hk
    rw [(validate_binding valid).1] at hk
    exact absurd (absent.symm.trans hk) (by simp)
  | @byUserToken m owners k token =>
    intro k' hk' u hu htoken
    obtain rfl : k = k' := Option.some.inj (token.symm.trans hk')
    rw [← htoken]
    exact find?_user hu
  | @byGuestToken m owners user k o n token one valid =>
    intro k' hk'
    obtain ⟨htoken, huser, hguest⟩ := validate_binding valid
    have howner : n.owner = o := owner_ext huser hguest
    obtain rfl : k = k' := Option.some.inj (token.symm.trans (htoken.symm.trans hk'))
    rw [howner]
    exact binds_resolved (fun u hu hu' => hr k token u hu hu') one
  | lockUser positive user => trivial
  | lockGuest guest free => trivial
  | selectChains rows nonempty => trivial
  | lockNext => trivial
  | checkNext alone => trivial
  | selectRows rows => trivial

theorem relies_move {l l' : BindingWorker} (hb : Bound s) (hr : Relies s l) (h : BindingMove jwt repr v s l l') :
    Relies s l' := by
  cases h with
  | account h =>
    cases h with
    | request h => exact relies_move_request hr h
    | touch session active => trivial
    | delete user => trivial
  | register => trivial
  | readUser => exact ⟨by simp, fun k hk => binds_allowed hb (held_uuid.mp hk)⟩
  | @readGuest tokenHash now signed i guest =>
    refine ⟨by simp, fun k hk => ?_⟩
    have hheld : Jws.Held ([i.appAccountToken].map .uuid) (some k) := hk
    obtain rfl : k = i.appAccountToken := List.mem_singleton.mp (held_uuid.mp hheld)
    exact binds_guest hb (getGuestByToken_mem guest)
  | @verified o tokens signed t n accepted valid =>
    intro k hk
    obtain ⟨htoken, huser, hguest⟩ := validate_binding valid
    have howner : n.owner = o := owner_ext huser hguest
    obtain ⟨payload, evidence, ids, -, hheld, hrest⟩ := (Jws.tokens_decide hr.1).2 t |>.mp accepted
    have hsame : ids.appAccountToken = some k :=
      ((Jws.readRest_token hrest).symm.trans htoken.symm).trans hk
    rw [hsame] at hheld
    rw [howner]
    exact hr.2 k hheld

theorem relies_start {l : BindingWorker} (h : BindingStarts l) : Relies s l := by
  cases l with
  | account l =>
    cases l with
    | request l =>
      cases l with
      | save n point => exact h.elim
      | notification m point =>
        cases point with
        | guest owners user => exact h.elim
        | _ => trivial
      | claim c point => trivial
    | _ => trivial
  | verifying o tokens signed => exact h.elim
  | _ => trivial

/-- The invariant of a run. -/
structure Kept (s : System Store BindingWorker ι) : Prop where
  bound : Bound s.store
  relies : ∀ w l, s.workers w = some l → Relies s.store l

variable {s s' : System Store BindingWorker ι}

omit [DecidableEq ι] in
/-- The commit of a worker leaves what the others rely on. -/
theorem relies_commit {w : ι} {l m : BindingWorker} {t : Store} (hgenuine : Genuine s (.commit w l))
    (h : BindingCommit s.store l t) {w' : ι} (hm : s.workers w' = some m) (hr : Relies s.store m) : Relies t m := by
  cases h with
  | account h =>
    cases h with
    | request h =>
      cases h with
      | merge save => exact relies_mono hr (fun _ _ _ _ hb => hb) fun _ hu _ => hu
      | insert save => exact relies_mono hr (fun _ _ _ _ hb => hb) fun _ hu _ => hu
      | claim => exact relies_mono hr (fun _ _ _ _ hb => hb.transfer _ _ _) fun _ hu _ => hu
    | session created =>
      obtain ⟨-, hfresh⟩ := hgenuine
      apply relies_mono hr
      · intro o k hcarries _ hb
        exact hb.created created fun heq => hfresh w' m hm (heq ▸ hcarries)
      · intro u hu _
        obtain ⟨identities, sessions, -, -, rfl⟩ := created_of_some created
        exact hu
    | touched => exact relies_mono hr (fun _ _ _ _ hb => hb) fun _ hu _ => hu
    | deleted => exact relies_mono hr (fun _ _ _ _ hb => hb.deleted _) fun u hu _ => (mem_users_deleted.mp hu).1
  | @registered u users inserted =>
    obtain ⟨⟨-, hfresh⟩, hid⟩ := hgenuine
    apply relies_mono hr
    · intro o k hcarries hworks hb
      exact hb.registered inserted (fun heq => hfresh w' m hm (heq ▸ hcarries)) fun ho => hid w' m hm (hworks _ ho)
    · intro x hx hcarries
      rcases (Table.mem_insert inserted).mp hx with hx | rfl
      · exact hx
      · exact absurd hcarries (hfresh w' m hm)

omit [DecidableEq ι] in
theorem bound_commit {w : ι} {l : BindingWorker} {t : Store} (ho : Owned s.store.apple) (hk : BindingKnows s.store l)
    (hb : Bound s.store) (hr : Relies s.store l) (hgenuine : Genuine s (.commit w l))
    (h : BindingCommit s.store l t) : Bound t := by
  cases h with
  | account h =>
    cases h with
    | request h =>
      cases h with
      | merge save => exact hb.save (merge_completed hk.2.1 hk.2.2 save) hk.1 hr
      | insert save => exact hb.save (insert_completed hk.2 save) hk.1 hr
      | claim =>
        obtain ⟨i, hi, hfree, rfl⟩ := hk.1.guest
        obtain ⟨x, -, hguest, hid⟩ := getGuestByToken_ok hi
        exact hb.transfer ho (hid ▸ hguest) hfree
    | session created => exact hb.created created hgenuine.1
    | touched => exact ⟨hb.distinct, hb.user, hb.guest⟩
    | deleted => exact hb.deleted _
  | registered inserted => exact hb.registered inserted hgenuine.1.1

/-- Every step keeps it. -/
theorem Kept.step (h : Kept s) (hcoh : Coherent (bindingProtocol jwt repr v hash) (fun s => Owned s.apple) BindingKnows s)
    {a : Action BindingWorker ι} (hs : Step (bindingProtocol jwt repr v hash) s a s') (hgenuine : Genuine s a) :
    Kept s' := by
  have hput : ∀ {w : ι} {x : Option BindingWorker}, (∀ l, x = some l → Relies s.store l) → Kept (s.put w x) := by
    intro w x hx
    refine ⟨h.bound, fun w' l hl => ?_⟩
    by_cases hw : w' = w
    · subst hw
      exact hx l (by simpa [System.put] using hl)
    · exact h.relies w' l (by simpa [System.put, hw] using hl)
  cases hs with
  | start idle begins =>
    apply hput
    intro l hl
    rw [← Option.some.inj hl]
    exact relies_start begins
  | @move w l l' here statement free =>
    apply hput
    intro x hx
    rw [← Option.some.inj hx]
    exact relies_move h.bound (h.relies w l here) statement
  | @commit w l t here commits =>
    refine ⟨bound_commit hcoh.inv (hcoh.knows w l here) h.bound (h.relies w l here) hgenuine commits, fun w' m hm => ?_⟩
    have hne : w' ≠ w := by
      rintro rfl
      simp at hm
    have hm' : s.workers w' = some m := by simpa [hne] using hm
    exact relies_commit hgenuine commits hm' (h.relies w' m hm')
  | leave =>
    apply hput
    intro l hl
    exact absurd hl (by simp)

/-- In every state of a run the tokens are bound. -/
theorem Kept.reaches (hidle : s.Idle) (ho : Owned s.store.apple) (hb : Bound s.store)
    (hr : ReachesBy (bindingProtocol jwt repr v hash) Genuine s s') : Kept s' := by
  have hcoh : Coherent (bindingProtocol jwt repr v hash) (fun s => Owned s.apple) BindingKnows s :=
    coherent_of_idle hidle ho
  induction hr with
  | refl => exact ⟨hb, fun w l hl => absurd hl (by simp [hidle w])⟩
  | tail hu hstep ih =>
    obtain ⟨a, ha, hgenuine⟩ := hstep
    exact ih.step ((binding_lawful jwt repr v hash).reaches hcoh (ReachesBy.reaches hu)) ha hgenuine

/-- A bound token is resolved to nobody or to the owner of the row. -/
theorem Bound.resolve {s : Store} (hb : Bound s) {r : AppleRow} (hr : r ∈ s.apple) {k : BitVec 128}
    (hk : r.appAccountToken = some k) : ∃ o, resolveOwnerByAppAccountToken s.accounts s.accounts k = .ok o ∧
      ∀ x, o = some x → ownerOf r = some x := by
  unfold resolveOwnerByAppAccountToken guestByToken
  cases huser : s.accounts.users.find? fun u => u.appAccountToken = k with
  | none =>
    cases hguest : s.accounts.guestIdentities.find? fun i => i.appAccountToken = k with
    | none => exact ⟨none, rfl, fun x hx => absurd hx (by simp)⟩
    | some i =>
      have htoken : i.appAccountToken = k := by simpa using Table.find?_prop hguest
      have howner := hb.guest r hr i (Table.find?_mem hguest) (hk.trans (congrArg some htoken.symm))
      unfold holder at howner
      cases hc : i.claimedUserId with
      | none =>
        rw [hc] at howner
        refine ⟨some (.guest i.id), by simp [tokenOwners, hc], fun x hx => ?_⟩
        rw [← hx]
        exact howner
      | some u =>
        rw [hc] at howner
        refine ⟨some (.user u), by simp [tokenOwners, hc], fun x hx => ?_⟩
        rw [← hx]
        exact howner
  | some u =>
    have htoken : u.appAccountToken = k := by simpa using Table.find?_prop huser
    have hnone : s.accounts.guestIdentities.find? (fun i => i.appAccountToken = k) = none := by
      apply Table.find?_eq_none.mpr
      intro i hi
      simpa [htoken] using (hb.distinct u (Table.find?_mem huser) i hi).symm
    rw [hnone]
    refine ⟨some (.user u.id), rfl, fun x hx => ?_⟩
    rw [← hx]
    exact hb.user r hr u (Table.find?_mem huser) (hk.trans (congrArg some htoken.symm))

/-- **No purchase carries the token of another.** However verifications,
notifications, claims, deletions, registrations and guest sessions interleave:
in every state that is reached, the token of a stored transaction is resolved
to the owner of that transaction or to nobody, and never in conflict. -/
theorem token_bound (jwt : JwtDecode) (repr : PyValue → String) (v : Jws.Verifiers) (hash : String → ℤ)
    (hidle : s.Idle) (ho : Owned s.store.apple) (hb : Bound s.store)
    (hr : ReachesBy (bindingProtocol jwt repr v hash) Genuine s s') :
    ∀ r ∈ s'.store.apple, ∀ k, r.appAccountToken = some k →
      ∃ o, resolveOwnerByAppAccountToken s'.store.accounts s'.store.accounts k = .ok o ∧
        ∀ x, o = some x → ownerOf r = some x := by
  intro r hrow k hk
  exact (Kept.reaches hidle ho hb hr).bound.resolve hrow hk

end Run

/-! ### A purchase of a guest -/

/-- The user 1 and the guest 7 with a session, and no purchase. -/
def boundSystem : System Store BindingWorker ℕ := ⟨{ sampleSystem.store with apple := .empty }, fun _ => none⟩

def guestTransactionPayload : JWSTransactionDecodedPayload :=
  { decodedTransactionPayload with appAccountToken := .str "00000000-0000-0000-0000-000000000001" }

/-- The production verifier finds another environment, the sandbox verifier the purchase. -/
def sandboxVerifiers : Jws.Verifiers where
  create _ := .error .other
  environ _ := none
  config := none
  verifier := none
  verifiers := some [
    (some "production", ⟨fun _ => .error .other, fun _ => .error (.verification .invalidEnvironment),
      fun _ => .error .other⟩),
    (some "sandbox", ⟨fun _ => .error .other, fun _ => .ok guestTransactionPayload, fun _ => .error .other⟩)]

def boundProtocol : Protocol Store BindingWorker Lock := bindingProtocol (fun _ => none) (fun _ => "") sandboxVerifiers fun _ => 0

theorem boundSystem_bound : Bound boundSystem.store := by
  refine ⟨?_, fun r hr => absurd hr List.not_mem_nil, fun r hr => absurd hr List.not_mem_nil⟩
  have h : ∀ u ∈ boundSystem.store.accounts.users.rows, ∀ i ∈ boundSystem.store.accounts.guestIdentities.rows,
      u.appAccountToken ≠ i.appAccountToken := by decide
  exact h

/-- The guest verifies the purchase. -/
theorem token_bound_sample : ∃ s' : System Store BindingWorker ℕ, ReachesBy boundProtocol Genuine boundSystem s' ∧
    ∃ r ∈ s'.store.apple, r.appAccountToken = some 1#128 ∧
      ∃ o, resolveOwnerByAppAccountToken s'.store.accounts s'.store.accounts 1#128 = .ok o ∧
        ∀ x, o = some x → ownerOf r = some x := by
  have hguest : getGuestByToken boundSystem.store "h" 0 false = .ok ⟨7, 1#128, none⟩ := by decide +kernel
  have h : ((Jws.verifyExpected (Jws.verifyAppleSignedTransaction (fun _ => none) (fun _ => "") sandboxVerifiers "signed")
      [.uuid 1#128]).toOption.bind fun t => (validateAppleTransaction (clientTransaction (.guest 7) t)).toOption.bind fun n =>
      (saveNormalized boundSystem.store.accounts n boundSystem.store.apple).toOption.map fun x =>
        (ownerReady boundSystem.store.accounts n, x.2.rows.any fun r => r.appAccountToken = some 1#128)) =
      some (true, true) := by decide +kernel
  obtain ⟨t, ht, h⟩ := Option.bind_eq_some_iff.mp h
  obtain ⟨n, hn, h⟩ := Option.bind_eq_some_iff.mp h
  obtain ⟨⟨out, apple⟩, hsave, h⟩ := Option.map_eq_some_iff.mp h
  obtain ⟨hready, hrow⟩ := Prod.mk.inj h
  obtain ⟨r, hr, hk⟩ := List.any_eq_true.mp hrow
  have hk : r.appAccountToken = some 1#128 := by simpa using hk
  obtain ⟨l, hmoves, hcommit⟩ := save_moves hready (saveCompleted_of_ok (toOption_eq_some.mp hsave)).2
  have hverify : Relation.ReflTransGen (BindingMove (fun _ => none) (fun _ => "") sandboxVerifiers boundSystem.store)
      (.verifyGuest "h" 0 "signed") (.account (.request (.save n .start))) :=
    .tail (.single (.readGuest hguest)) (.verified (toOption_eq_some.mp ht) (toOption_eq_some.mp hn))
  have hsaving : Relation.ReflTransGen (BindingMove (fun _ => none) (fun _ => "") sandboxVerifiers boundSystem.store)
      (.account (.request (.save n .start))) (.account (.request l)) :=
    (request_moves hmoves).lift BindingWorker.account fun _ _ hm => .account hm
  have hstart : boundProtocol.start (.verifyGuest "h" 0 "signed") := trivial
  have hrun : ReachesBy boundProtocol Genuine boundSystem { boundSystem with store := { boundSystem.store with apple } } :=
    reachesBy_transaction (fun _ => rfl) 0 hstart (fun _ _ => ⟨trivial, trivial⟩) (hverify.trans hsaving)
      (.account (.request hcommit)) trivial
  refine ⟨_, hrun, r, hr, hk, ?_⟩
  exact token_bound (fun _ => none) (fun _ => "") sandboxVerifiers (fun _ => 0) (fun _ => rfl) owned_empty
    boundSystem_bound hrun r hr _ hk

end Ownership
end FuelNear

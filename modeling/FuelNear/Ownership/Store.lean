/-
# Who owns an Apple subscription: saves and claims as atomic calls

The tables that decide ownership, and the two calls that write them, each as
if it ran alone: `process_apple_transaction` up to the save of the row, and
`claim_guest_subscription` up to the transfer. What they do afterwards, in
the creator ledger and the stored entitlement, touches none of these tables.

A table is `Owned` if every row has exactly one owner and the rows of one
original transaction have the same. Both calls keep it, a save leaves the
owner of every row, and a claim moves rows of the claimed guest to the user.

Key definitions: `Store`, `claimGuestSubscription`, `processTransaction`,
`ownerOf`, `Owned`.
Key theorems: `owned_save`, `owned_saves`, `owner_save`, `owned_transfer`,
`owner_transfer`.
-/
import FuelNear.Apple.Save

namespace FuelNear
namespace Ownership

open Sql Apple

/-! ### The store -/

/-- A row of `guest_sessions`. -/
structure GuestSession where
  id : ℤ
  guestId : ℤ
  tokenHash : String
  expiresAt : ℤ
  revokedAt : Option ℤ
  deriving DecidableEq

def GuestSession.keys (s : GuestSession) : List (ℤ ⊕ String) := [.inl s.id, .inr s.tokenHash]

structure Store where
  accounts : Accounts
  sessions : Table GuestSession GuestSession.keys
  apple : AppleTable

/-- The owner of a row, as `_owner_from_transaction_row` reads it; none if the
row has two owners or no owner. -/
def ownerOf (r : AppleRow) : Option AppleSubscriptionOwner :=
  match r.userId, r.guestId with
  | some u, none => some (.user u)
  | none, some g => some (.guest g)
  | _, _ => none

/-- Every row has exactly one owner, and an original transaction has one owner. -/
structure Owned (t : AppleTable) : Prop where
  single : ∀ r ∈ t, (ownerOf r).isSome
  chain : ∀ r ∈ t, ∀ q ∈ t, r.originalTransactionId = q.originalTransactionId → ownerOf r = ownerOf q

theorem owned_empty : Owned .empty :=
  ⟨fun _ h => absurd h List.not_mem_nil, fun _ h => absurd h List.not_mem_nil⟩

/-! ### The calls -/

/-- The errors of a claim, with their texts. -/
inductive ClaimError where
  | valueError (message : String)
  | guestUserNotFound (message : String)
  | guestSessionInvalid (message : String)
  | guestAlreadyClaimed (message : String)
  | guestSubscriptionNotFound (message : String)
  | guestOwnershipConflict (message : String)
  deriving DecidableEq

def sessionByHash (s : Store) (tokenHash : String) : Option GuestSession :=
  s.sessions.find? fun x => x.tokenHash = tokenHash

/-- `get_guest_by_token` at the instant `now`, of a token with the given hash. -/
def getGuestByToken (s : Store) (tokenHash : String) (now : ℤ) (allowClaimedSession : Bool) :
    Except ClaimError GuestIdentity :=
  match sessionByHash s tokenHash with
  | none => .error (.guestSessionInvalid "Guest session is invalid")
  | some session =>
    match s.accounts.guest? session.guestId with
    | none => .error (.guestSessionInvalid "Guest session is invalid")
    | some guest =>
      let claimed := guest.claimedUserId.isSome
      let sessionActive := session.revokedAt.isNone && session.expiresAt > now
      if claimed && !allowClaimedSession then
        .error (.guestAlreadyClaimed "Guest identity has already been claimed")
      else if !sessionActive && !(allowClaimedSession && claimed) then
        .error (.guestSessionInvalid "Guest session is invalid")
      else .ok guest

/-- `SELECT DISTINCT original_transaction_id … WHERE guest_id = …`. -/
def originalIds (t : AppleTable) (guestId : ℤ) : List String :=
  ((t.rows.filter fun r => r.guestId = some guestId).map (·.originalTransactionId)).dedup

/-- The original transaction has a row of neither the guest nor the user. -/
def ownedByThird (userId guestId : ℤ) (originalTransactionId : String) (t : AppleTable) : Bool :=
  (t.find? fun r => r.originalTransactionId = originalTransactionId ∧
    ¬ (r.guestId = some guestId ∨ (r.userId = some userId ∧ r.guestId = none))).isSome

/-- The row after the claim. -/
def moved (userId : ℤ) (r : AppleRow) : AppleRow := { r with userId := some userId, guestId := none }

def claimedBy (userId : ℤ) (i : GuestIdentity) : GuestIdentity := { i with claimedUserId := some userId }

/-- `COALESCE(revoked_at, NOW())`. -/
def revoked (now : ℤ) (x : GuestSession) : GuestSession := { x with revokedAt := some (x.revokedAt.getD now) }

theorem moved_keys (userId : ℤ) (r : AppleRow) : (moved userId r).keys.Sublist r.keys := List.Sublist.refl _

theorem claimedBy_keys (userId : ℤ) (i : GuestIdentity) : (claimedBy userId i).keys.Sublist i.keys :=
  List.Sublist.refl _

theorem revoked_keys (now : ℤ) (x : GuestSession) : (revoked now x).keys.Sublist x.keys := List.Sublist.refl _

def moveRows (userId guestId : ℤ) (t : AppleTable) : AppleTable :=
  t.update (fun r => r.guestId = some guestId) (moved userId) (moved_keys userId)

def claimIdentity (userId guestId : ℤ) (t : Table GuestIdentity GuestIdentity.keys) :
    Table GuestIdentity GuestIdentity.keys :=
  t.update (fun i => i.id = guestId && i.claimedUserId.isNone) (claimedBy userId) (claimedBy_keys userId)

def revokeSessions (guestId now : ℤ) (t : Table GuestSession GuestSession.keys) :
    Table GuestSession GuestSession.keys :=
  t.update (fun x => x.guestId = guestId) (revoked now) (revoked_keys now)

/-- The three UPDATEs of a claim. The identity is there and unclaimed, so the
rowcount of its UPDATE is 1. -/
def transfer (userId guestId now : ℤ) (s : Store) : Store where
  accounts := ⟨s.accounts.users, claimIdentity userId guestId s.accounts.guestIdentities⟩
  sessions := revokeSessions guestId now s.sessions
  apple := moveRows userId guestId s.apple

/-- The arguments of a claim: the user, the hash of the guest token, and the time. -/
structure ClaimCall where
  userId : ℤ
  tokenHash : String
  now : ℤ

/-- `GuestClaimResult`, without the entitlement. -/
structure GuestClaimResult where
  claimed : Bool
  guestId : ℤ
  userId : ℤ
  transferredTransactions : ℕ
  deriving DecidableEq

/-- `claim_guest_subscription`. -/
def claimGuestSubscription (c : ClaimCall) (s : Store) : Except ClaimError (GuestClaimResult × Store) :=
  if c.userId ≤ 0 then .error (.valueError "user_id must be a positive integer")
  else if (s.accounts.user? c.userId).isNone then .error (.guestUserNotFound "User not found")
  else do
    let guest ← getGuestByToken s c.tokenHash c.now true
    match guest.claimedUserId with
    | some claimedUserId =>
      if claimedUserId ≠ c.userId then .error (.guestAlreadyClaimed "Guest identity has already been claimed")
      else return (⟨false, guest.id, c.userId, 0⟩, s)
    | none =>
      if (originalIds s.apple guest.id).isEmpty then
        .error (.guestSubscriptionNotFound "Guest has no Apple subscription")
      else if (originalIds s.apple guest.id).any fun o => ownedByThird c.userId guest.id o s.apple then
        .error (.guestOwnershipConflict "Apple subscription belongs to another owner")
      else
        let transferred := s.apple.rows.countP fun r => r.guestId = some guest.id
        return (⟨true, guest.id, c.userId, transferred⟩, transfer c.userId guest.id c.now s)

/-- The errors of the processing of a transaction. -/
inductive ProcessError where
  | userNotFound (message : String)
  | repository (error : RepositoryError)
  deriving DecidableEq

/-- `process_apple_transaction`, from the validated transaction to the saved row;
the second validation changes nothing (`validate_validated`). -/
def processTransaction (n : NormalizedTransaction) (s : Store) :
    Except ProcessError (AppleTransactionSaveResult × Store) :=
  if n.userId.any fun u => (s.accounts.user? u).isNone then .error (.userNotFound "User not found")
  else
    match saveNormalized s.accounts n s.apple with
    | .ok (out, apple) => .ok (out, { s with apple })
    | .error e => .error (.repository e)

/-! ### Owners -/

theorem ownerOf_eq {r : AppleRow} {o : AppleSubscriptionOwner} :
    ownerOf r = some o ↔ r.userId = o.userId ∧ r.guestId = o.guestId := by
  unfold ownerOf
  cases o <;> cases r.userId <;> cases r.guestId <;>
    simp [AppleSubscriptionOwner.userId, AppleSubscriptionOwner.guestId]

theorem ownerOf_guest {r : AppleRow} {g : ℤ} (h : ownerOf r = some (.guest g)) : r.guestId = some g :=
  (ownerOf_eq.mp h).2

/-- Exactly one of the two columns is set. -/
theorem ownerOf_isSome {r : AppleRow} : (ownerOf r).isSome ↔ r.userId.isSome ≠ r.guestId.isSome := by
  unfold ownerOf
  cases r.userId <;> cases r.guestId <;> simp

/-- The owner decides both columns. -/
theorem columns_of_owner {r q : AppleRow} (h : (ownerOf r).isSome) (hrq : ownerOf q = ownerOf r) :
    q.userId = r.userId ∧ q.guestId = r.guestId := by
  obtain ⟨o, ho⟩ := Option.isSome_iff_exists.mp h
  obtain ⟨h1, h2⟩ := ownerOf_eq.mp ho
  obtain ⟨h3, h4⟩ := ownerOf_eq.mp (hrq.trans ho)
  exact ⟨h3.trans h1.symm, h4.trans h2.symm⟩

/-- A row of the guest in a table where every row has one owner. -/
theorem Owned.guest {t : AppleTable} (h : Owned t) {r : AppleRow} (hr : r ∈ t) {g : ℤ}
    (hg : r.guestId = some g) : ownerOf r = some (.guest g) := by
  obtain ⟨o, ho⟩ := Option.isSome_iff_exists.mp (h.single r hr)
  obtain ⟨h1, h2⟩ := ownerOf_eq.mp ho
  cases o with
  | user u => rw [hg] at h2; simp [AppleSubscriptionOwner.guestId] at h2
  | guest g' =>
    rw [hg] at h2
    rw [ho, Option.some.inj h2]

theorem ownerOf_moved (userId : ℤ) (r : AppleRow) : ownerOf (moved userId r) = some (.user userId) := rfl

/-! ### A save keeps the owners -/

section Save

variable {a : Accounts} {n : NormalizedTransaction} {t t' : AppleTable} {out : AppleTransactionSaveResult}

/-- A completed save changes the row of its transaction only. -/
theorem mem_save (h : SaveCompleted a n t out t') {x : AppleRow} :
    x ∈ t' ↔ x = out.row ∨ (x ∈ t ∧ x.transactionId ≠ n.transactionId) := by
  rw [mem_iff_lookup, mem_iff_lookup]
  by_cases hx : x.transactionId = n.transactionId
  · rw [hx, h.lookup_self]
    simp [eq_comm]
  · rw [h.lookup_of_ne hx]
    have hself := transactionId_of_lookup h.lookup_self
    constructor
    · exact fun hl => Or.inr ⟨hl, hx⟩
    · rintro (rfl | ⟨hl, -⟩)
      · exact absurd hself hx
      · exact hl

theorem identityDiffers_eq_false {r : AppleRow} (h : identityDiffers n r = false) :
    ownerOf r = some n.owner ∧ r.originalTransactionId = n.originalTransactionId := by
  unfold identityDiffers at h
  simp only [Bool.or_eq_false_iff, decide_eq_false_iff_not, not_not] at h
  exact ⟨ownerOf_eq.mpr ⟨h.1.1.1, h.1.1.2⟩, h.1.2⟩

theorem ownerOf_mergeRow (n : NormalizedTransaction) (r : AppleRow) : ownerOf (mergeRow n r) = ownerOf r := by
  unfold ownerOf
  rw [mergeRow_userId, mergeRow_guestId]

/-- The saved row is of the owner and the original transaction that were sent. -/
theorem owner_saved (h : SaveCompleted a n t out t') :
    ownerOf out.row = some n.owner ∧ out.row.originalTransactionId = n.originalTransactionId := by
  rcases h.row with ⟨r, -, hsame, hrow, -⟩ | ⟨id, -, hrow, -⟩ <;> rw [hrow]
  · rw [ownerOf_mergeRow, mergeRow_originalTransactionId]
    exact identityDiffers_eq_false hsame
  · exact ⟨ownerOf_eq.mpr ⟨rfl, rfl⟩, rfl⟩

theorem ownedByAnother_eq_false : ownedByAnother n t = false ↔
    ∀ r ∈ t, r.originalTransactionId = n.originalTransactionId → ownerOf r = some n.owner := by
  unfold ownedByAnother
  rw [Option.isSome_eq_false_iff, Option.isNone_iff_eq_none, Table.find?_eq_none]
  refine forall_congr' fun r => forall_congr' fun _ => ?_
  rw [ownerOf_eq]
  simp [NormalizedTransaction.userId, NormalizedTransaction.guestId]

/-- The whole original transaction is of the owner that was sent. -/
theorem chain_saved (ho : Owned t) (h : SaveCompleted a n t out t') {x : AppleRow} (hx : x ∈ t)
    (hchain : x.originalTransactionId = n.originalTransactionId) : ownerOf x = some n.owner := by
  cases h with
  | @merged r found same =>
    obtain ⟨h1, h2⟩ := identityDiffers_eq_false same
    rw [ho.chain x hx r (mem_of_lookup found) (hchain.trans h2.symm), h1]
  | inserted new alone inserts => exact ownedByAnother_eq_false.mp alone x hx hchain

theorem owned_save (ho : Owned t) (h : SaveCompleted a n t out t') : Owned t' := by
  obtain ⟨hrow, hchain⟩ := owner_saved h
  constructor
  · intro r hr
    rcases (mem_save h).mp hr with rfl | ⟨hr, -⟩
    · rw [hrow]
      rfl
    · exact ho.single r hr
  · intro r hr q hq hrq
    rcases (mem_save h).mp hr with rfl | ⟨hr, -⟩ <;> rcases (mem_save h).mp hq with rfl | ⟨hq, -⟩
    · rfl
    · rw [hrow, chain_saved ho h hq (hrq.symm.trans hchain)]
    · rw [hrow, chain_saved ho h hr (hrq.trans hchain)]
    · exact ho.chain r hr q hq hrq

/-- Unique owners are kept by any run of saves. -/
theorem owned_saves {log : List (SaveCall × AppleTransactionSaveResult)} (h : Run saveAppleTransaction t log t')
    (ho : Owned t) : Owned t' := by
  apply h.invariant _ ho
  intro c x out y hx hop
  obtain ⟨n, -, -, hsave⟩ := save_ok hop
  exact owned_save hx hsave

/-- Every stored row is still there, with its owner. -/
theorem owner_save (h : SaveCompleted a n t out t') {r : AppleRow} (hr : r ∈ t) :
    ∃ q ∈ t', q.id = r.id ∧ ownerOf q = ownerOf r := by
  by_cases hx : r.transactionId = n.transactionId
  · refine ⟨out.row, (mem_save h).mpr (Or.inl rfl), ?_⟩
    rcases h.row with ⟨r', hr', -, hrow, -⟩ | ⟨id, hnone, -, -⟩
    · rw [← hx, mem_iff_lookup.mp hr] at hr'
      rw [hrow, ← Option.some.inj hr', ownerOf_mergeRow, mergeRow_id]
      exact ⟨rfl, rfl⟩
    · rw [← hx, mem_iff_lookup.mp hr] at hnone
      simp at hnone
  · exact ⟨r, (mem_save h).mpr (Or.inr ⟨hr, hx⟩), rfl, rfl⟩

end Save

/-! ### A claim moves the rows of the guest -/

section Claim

variable {userId guestId now : ℤ} {s : Store}

theorem mem_transfer {x : AppleRow} : x ∈ (transfer userId guestId now s).apple ↔
    (x ∈ s.apple ∧ x.guestId ≠ some guestId) ∨ ∃ r ∈ s.apple, r.guestId = some guestId ∧ x = moved userId r := by
  show x ∈ moveRows userId guestId s.apple ↔ _
  unfold moveRows
  rw [Table.mem_update]
  constructor
  · rintro ⟨r, hr, rfl⟩
    by_cases hg : r.guestId = some guestId
    · exact Or.inr ⟨r, hr, hg, by simp [hg]⟩
    · exact Or.inl (by simpa [hg] using hr)
  · rintro (⟨hx, hg⟩ | ⟨r, hr, hg, rfl⟩)
    · exact ⟨x, hx, by simp [hg]⟩
    · exact ⟨r, hr, by simp [hg]⟩

/-- A claim leaves the other identities, and the sessions of the others. -/
theorem guest?_transfer {g : ℤ} (h : g ≠ guestId) :
    (transfer userId guestId now s).accounts.guest? g = s.accounts.guest? g := by
  have hq : ∀ i, decide ((claimedBy userId i).id = g) = decide (i.id = g) := fun _ => rfl
  show (claimIdentity userId guestId s.accounts.guestIdentities).find? _ = s.accounts.guestIdentities.find? _
  unfold claimIdentity
  rw [Table.find?_update (q := fun i : GuestIdentity => i.id = g) hq]
  cases hi : s.accounts.guestIdentities.find? fun i => i.id = g with
  | none => rfl
  | some i =>
    have : i.id = g := by simpa using Table.find?_prop hi
    simp [this, h]

theorem sessionByHash_transfer {h : String} {x : GuestSession} (hx : sessionByHash s h = some x)
    (hg : x.guestId ≠ guestId) : sessionByHash (transfer userId guestId now s) h = some x := by
  have hq : ∀ x, decide ((revoked now x).tokenHash = h) = decide (x.tokenHash = h) := fun _ => rfl
  unfold sessionByHash at hx
  show (revokeSessions guestId now s.sessions).find? _ = some x
  unfold revokeSessions
  rw [Table.find?_update (q := fun x : GuestSession => x.tokenHash = h) hq, hx]
  simp [hg]

/-- The rows of an original transaction are moved together. -/
theorem owned_transfer (ho : Owned s.apple) : Owned (transfer userId guestId now s).apple := by
  constructor
  · intro x hx
    rcases mem_transfer.mp hx with ⟨hx, -⟩ | ⟨r, -, -, rfl⟩
    · exact ho.single x hx
    · rfl
  · -- of two rows of one original transaction both are the guest's, or neither
    have hboth : ∀ r ∈ s.apple, ∀ q ∈ s.apple, r.originalTransactionId = q.originalTransactionId →
        r.guestId = some guestId → q.guestId = some guestId := fun r hr q hq hrq hg =>
      ownerOf_guest ((ho.chain r hr q hq hrq).symm.trans (ho.guest hr hg))
    intro x hx y hy hxy
    rcases mem_transfer.mp hx with ⟨hx, hxg⟩ | ⟨r, hr, hrg, rfl⟩ <;>
      rcases mem_transfer.mp hy with ⟨hy, hyg⟩ | ⟨q, hq, hqg, rfl⟩
    · exact ho.chain x hx y hy hxy
    · exact absurd (hboth q hq x hx hxy.symm hqg) hxg
    · exact absurd (hboth r hr y hy hxy hrg) hyg
    · rfl

/-- Every stored row is still there; its owner is the same, or it was the guest
and is the user now. -/
theorem owner_transfer (userId guestId now : ℤ) (ho : Owned s.apple) {r : AppleRow} (hr : r ∈ s.apple) :
    ∃ q ∈ (transfer userId guestId now s).apple, q.id = r.id ∧
      (ownerOf q = ownerOf r ∨ (ownerOf r = some (.guest guestId) ∧ ownerOf q = some (.user userId))) := by
  by_cases hg : r.guestId = some guestId
  · exact ⟨moved userId r, mem_transfer.mpr (Or.inr ⟨r, hr, hg, rfl⟩), rfl,
      Or.inr ⟨ho.guest hr hg, ownerOf_moved userId r⟩⟩
  · exact ⟨r, mem_transfer.mpr (Or.inl ⟨hr, hg⟩), rfl, Or.inl rfl⟩

end Claim

end Ownership
end FuelNear

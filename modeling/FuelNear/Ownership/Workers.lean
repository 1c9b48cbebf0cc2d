/-
# Saves, notifications and claims, statement by statement

The transactions of `process_apple_transaction` and
`claim_guest_subscription`, and the lookups of a notification before its
save, as a `Locking.Protocol`: between any two statements any other worker may
run. A statement reads what is committed when it completes. The locks are the
rows of `users` and `guest_identities` taken FOR UPDATE and the advisory lock
of an original transaction, whose key is a hash, `hash` here. Row locks on
`apple_transactions`, and on the session of a claim, only rule out
interleavings that are allowed here. An error, a deadlock, a crash and a claim
that has nothing to do are a worker that leaves.

Key definitions: `Worker`, `Lock`, `held`, `Move`, `Commit`, `protocol`.
-/
import FuelNear.Locking
import FuelNear.Ownership.Store
import Mathlib.Data.Prod.Lex
import Mathlib.Order.WithBot

namespace FuelNear
namespace Ownership

open Sql Apple

/-! ### The lookups of a notification -/

/-- `get_latest_transaction`. -/
def getLatestTransaction (originalTransactionId : String) (t : AppleTable) : Option AppleRow :=
  top (fun r => toLex (r.expiresDate.isNone, toLex ((r.expiresDate.elim ⊤ fun e => (e : WithTop ℤ)),
    toLex (r.purchaseDate, r.id)))) (t.rows.filter fun r => r.originalTransactionId = originalTransactionId)

/-- `owners.add(_owner_from_transaction_row(row))`; none is the error of a row
without exactly one owner. -/
def addOwner (owners : List AppleSubscriptionOwner) (row : Option AppleRow) :
    Option (List AppleSubscriptionOwner) :=
  match row with
  | none => some owners
  | some r => (ownerOf r).map fun o => owners.insert o

/-- `resolve_owner_by_app_account_token`, from the user and the identity found:
the owners, of which more than one is an error. -/
def tokenOwners (user : Option User) (guest : Option GuestIdentity) : List AppleSubscriptionOwner :=
  let users := user.toList.map fun u => AppleSubscriptionOwner.user u.id
  match guest with
  | none => users
  | some g =>
    match g.claimedUserId with
    | some u => users.insert (.user u)
    | none => users.insert (.guest g.id)

/-- `_resolve_owner`: the one owner that the lookups found. -/
def resolveOwner (owners found : List AppleSubscriptionOwner) : Option AppleSubscriptionOwner :=
  if found.length ≤ 1 then
    match found.foldl (fun l o => l.insert o) owners with
    | [o] => some o
    | _ => none
  else none

/-- `_to_apple_transaction`: the transaction of the notification, for the owner. -/
def toAppleTransaction (m : AppleTransaction) (o : AppleSubscriptionOwner) : AppleTransaction :=
  { m with userId := o.userId, guestId := o.guestId }

/-! ### The workers -/

/-- How far a save has come. -/
inductive SavePoint where
  | start
  | owner
  | chain
  | matched (r : AppleRow)
  | unmatched
  | clear

/-- How far the lookups of a notification have come, and the owners found. -/
inductive LookupPoint where
  | start
  | original (owners : List AppleSubscriptionOwner)
  | token (owners : List AppleSubscriptionOwner)
  | guest (owners : List AppleSubscriptionOwner) (user : Option User)

/-- How far a claim has come: the guest, and the original transactions done
and to do. -/
inductive ClaimPoint where
  | start
  | user
  | guest (guestId : ℤ)
  | next (guestId : ℤ) (done todo : List String)
  | locked (guestId : ℤ) (done : List String) (originalTransactionId : String) (todo : List String)
  | ready (guestId : ℤ) (done : List String)

/-- A worker: a save of a validated transaction; a notification, with the
transaction it reports; or a claim. -/
inductive Worker where
  | save (n : NormalizedTransaction) (point : SavePoint)
  | notification (m : AppleTransaction) (point : LookupPoint)
  | claim (c : ClaimCall) (point : ClaimPoint)

inductive Lock where
  | user (id : ℤ)
  | guest (id : ℤ)
  | chain (key : ℤ)
  deriving DecidableEq

/-- The row that a save locks first. -/
def ownerLock : AppleSubscriptionOwner → Lock
  | .user u => .user u
  | .guest g => .guest g

section

variable (hash : String → ℤ)

def saveLocks (n : NormalizedTransaction) : Set Lock :=
  {ownerLock n.owner, .chain (hash n.originalTransactionId)}

def claimLocks (userId guestId : ℤ) (chains : List String) : Set Lock :=
  {k | k = .user userId ∨ k = .guest guestId ∨ ∃ o ∈ chains, k = .chain (hash o)}

/-- The locks that a worker holds. -/
def held : Worker → Set Lock
  | .save _ .start => ∅
  | .save n .owner => {ownerLock n.owner}
  | .save n _ => saveLocks hash n
  | .notification _ _ => ∅
  | .claim _ .start => ∅
  | .claim c .user => {.user c.userId}
  | .claim c (.guest g) => claimLocks hash c.userId g []
  | .claim c (.next g done _) => claimLocks hash c.userId g done
  | .claim c (.locked g done o _) => claimLocks hash c.userId g (o :: done)
  | .claim c (.ready g done) => claimLocks hash c.userId g done

/-- The owner of a save is there: the user exists, the guest is unclaimed. -/
def ownerReady (a : Accounts) (n : NormalizedTransaction) : Bool :=
  n.userId.all (fun u => (a.user? u).isSome) && ownerActive a n

/-- One statement. -/
inductive Move (s : Store) : Worker → Worker → Prop where
  /-- `SELECT … FROM users` or `… FROM guest_identities … FOR UPDATE` -/
  | lockOwner {n} (ready : ownerReady s.accounts n = true) : Move s (.save n .start) (.save n .owner)
  /-- `SELECT pg_advisory_xact_lock(…)` -/
  | lockChain {n} : Move s (.save n .owner) (.save n .chain)
  /-- `SELECT … WHERE transaction_id = …`, and a row of the same identity -/
  | found {n r} (row : lookup n.transactionId s.apple = some r) (same : identityDiffers n r = false) :
      Move s (.save n .chain) (.save n (.matched r))
  | notFound {n} (row : lookup n.transactionId s.apple = none) : Move s (.save n .chain) (.save n .unmatched)
  /-- `SELECT … WHERE original_transaction_id = …`, and no other owner -/
  | noOther {n} (alone : ownedByAnother n s.apple = false) : Move s (.save n .unmatched) (.save n .clear)
  /-- `get_transaction` -/
  | byTransaction {m owners} (row : addOwner [] (lookup (Text.strip m.transactionId) s.apple) = some owners) :
      Move s (.notification m .start) (.notification m (.original owners))
  /-- `get_latest_transaction` -/
  | byOriginal {m owners owners'}
      (row : addOwner owners (getLatestTransaction (Text.strip m.originalTransactionId) s.apple) = some owners') :
      Move s (.notification m (.original owners)) (.notification m (.token owners'))
  | noToken {m owners o n} (absent : m.appAccountToken = none) (one : resolveOwner owners [] = some o)
      (valid : validateAppleTransaction (toAppleTransaction m o) = .ok n) :
      Move s (.notification m (.token owners)) (.save n .start)
  /-- `SELECT id FROM users WHERE app_account_token = …` -/
  | byUserToken {m owners k} (token : m.appAccountToken = some k) :
      Move s (.notification m (.token owners))
        (.notification m (.guest owners (s.accounts.users.find? fun u => u.appAccountToken = k)))
  /-- `SELECT … FROM guest_identities WHERE app_account_token = …` -/
  | byGuestToken {m owners user k o n} (token : m.appAccountToken = some k)
      (one : resolveOwner owners
        (tokenOwners user (s.accounts.guestIdentities.find? fun g => g.appAccountToken = k)) = some o)
      (valid : validateAppleTransaction (toAppleTransaction m o) = .ok n) :
      Move s (.notification m (.guest owners user)) (.save n .start)
  /-- `SELECT id FROM users WHERE id = … FOR UPDATE` -/
  | lockUser {c} (positive : 0 < c.userId) (user : (s.accounts.user? c.userId).isSome) :
      Move s (.claim c .start) (.claim c .user)
  /-- `get_guest_by_token`, FOR UPDATE, and an unclaimed identity -/
  | lockGuest {c i} (guest : getGuestByToken s c.tokenHash c.now true = .ok i) (free : i.claimedUserId = none) :
      Move s (.claim c .user) (.claim c (.guest i.id))
  /-- `SELECT DISTINCT original_transaction_id …`, in any order -/
  | selectChains {c g ids} (rows : ∀ o, o ∈ ids ↔ o ∈ originalIds s.apple g) (nonempty : ids ≠ []) :
      Move s (.claim c (.guest g)) (.claim c (.next g [] ids))
  /-- `SELECT pg_advisory_xact_lock(…)` -/
  | lockNext {c g done o todo} : Move s (.claim c (.next g done (o :: todo))) (.claim c (.locked g done o todo))
  /-- `SELECT … WHERE original_transaction_id = …`, and no third owner -/
  | checkNext {c g done o todo} (alone : ownedByThird c.userId g o s.apple = false) :
      Move s (.claim c (.locked g done o todo)) (.claim c (.next g (o :: done) todo))
  /-- `SELECT * … WHERE guest_id = … FOR UPDATE` -/
  | selectRows {c g done} (rows : originalIds s.apple g ≠ []) :
      Move s (.claim c (.next g done [])) (.claim c (.ready g done))

/-- The end of a transaction: what its UPDATEs or its INSERT do to the store. -/
inductive Commit (s : Store) : Worker → Store → Prop where
  | merge {n r out t} (save : saveExisting n r s.apple = .ok (out, t)) :
      Commit s (.save n (.matched r)) { s with apple := t }
  | insert {n t} (save : insertRow s.accounts (insertedRow (nextId s.apple) n) s.apple = .ok t) :
      Commit s (.save n .clear) { s with apple := t }
  | claim {c g done} : Commit s (.claim c (.ready g done)) (transfer c.userId g c.now s)

/-- A request starts with a validated transaction, a notification with the
lookups, a claim with nothing read. -/
def Starts : Worker → Prop
  | .save n .start => ∃ a, validateAppleTransaction a = .ok n
  | .notification _ .start => True
  | .claim _ .start => True
  | _ => False

def protocol : Locking.Protocol Store Worker Lock where
  held := held hash
  start := Starts
  move := Move
  commit := Commit

end

end Ownership
end FuelNear

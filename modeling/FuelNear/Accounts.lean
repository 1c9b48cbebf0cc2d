/-
# Users and guest identities

The accounts that can own an Apple subscription. Only the columns that the
modelled code reads are here.

Key definitions: `User`, `GuestIdentity`, `Accounts`.
-/
import FuelNear.Sql

namespace FuelNear

/-- A row of `users`. -/
structure User where
  id : ℤ
  appAccountToken : BitVec 128
  deriving DecidableEq

/-- A row of `guest_identities`; a claimed one names the user that claimed it. -/
structure GuestIdentity where
  id : ℤ
  appAccountToken : BitVec 128
  claimedUserId : Option ℤ
  deriving DecidableEq

def User.keys (u : User) : List (ℤ ⊕ BitVec 128) := [.inl u.id, .inr u.appAccountToken]

def GuestIdentity.keys (g : GuestIdentity) : List (ℤ ⊕ BitVec 128) := [.inl g.id, .inr g.appAccountToken]

structure Accounts where
  users : Sql.Table User User.keys
  guestIdentities : Sql.Table GuestIdentity GuestIdentity.keys

namespace Accounts

/-- `SELECT … FROM users WHERE id = …`. -/
def user? (a : Accounts) (id : ℤ) : Option User := a.users.find? fun u => u.id = id

/-- `SELECT … FROM guest_identities WHERE id = …`. -/
def guest? (a : Accounts) (id : ℤ) : Option GuestIdentity := a.guestIdentities.find? fun g => g.id = id

end Accounts

end FuelNear

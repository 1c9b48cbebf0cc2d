/-
# Pending referrals, statement by statement

A run of `process_pending_referrals` is one transaction after the other, each
with a batch of referrals. `protocol` has the statements of such a
transaction; between any two of them any other worker may run. A statement
sees what is committed when it completes, with the transaction's own writes
over it. The locks are the rows of `referrals` in the batch and the rows of
`users` of its referrers.

An item runs under a savepoint. Any of its statements may raise: then its
writes are undone and the locks it took are free again, and the batch goes on
with the next item. What an item writes beside `referrals` and `rewards`, in
the creator ledger and the subscriptions, other requests write too; a
statement finds those tables as they may be, and what is here of it is
whether it raises.

Key definitions: `recordCreatorReferralConversion`, `Batch`, `Worker`, `Move`,
`Commit`, `protocol`.
-/
import FuelNear.Creator.Attribution
import FuelNear.Locking
import FuelNear.Referrals.Store

namespace FuelNear
namespace Referrals

open Sql Plus Creator

/-! ### The conversion event of a reward -/

/-- `CreatorReferralConversionResult`. -/
structure CreatorReferralConversionResult where
  eventId : ℤ
  attributionId : ℤ
  occurredAt : ℤ
  created : Bool
  changed : Bool
  plusMilestoneSet : Bool
  deriving DecidableEq

inductive ConversionError where
  | referralConversionConflict
  | violation (v : Violation)
  deriving DecidableEq

/-- The row of the INSERT. -/
def newReferralEvent (id attributionId rewardId grantedAt : ℤ) : ConversionEvent where
  id := id
  attributionId := attributionId
  conversionType := .plusGranted
  provider := .internalReferral
  externalEventKey := "reward:" ++ toString rewardId
  occurredAt := grantedAt
  productId := none
  economicStatus := .nonEconomic
  amount := none
  currency := none

/-- What an event found under the key has to be. -/
def isReferralOf (attributionId grantedAt : ℤ) (e : ConversionEvent) : Bool :=
  e.attributionId = attributionId && e.conversionType = .plusGranted && e.occurredAt = grantedAt &&
    e.productId.isNone && e.economicStatus = .nonEconomic

/-- INSERT … ON CONFLICT DO NOTHING: whether the event is new, its id, and the table. -/
def insertReferralEvent (attributionId rewardId grantedAt : ℤ) (t : EventTable) :
    Except ConversionError (Bool × ℤ × EventTable) :=
  let e := newReferralEvent (nextEventId t) attributionId rewardId grantedAt
  match t.insert e with
  | .ok t' => .ok (true, e.id, t')
  | .error .unique =>
    match eventByKey t .internalReferral e.externalEventKey with
    | none => .error .referralConversionConflict
    | some d => if isReferralOf attributionId grantedAt d then .ok (false, d.id, t) else .error .referralConversionConflict
  | .error v => .error (.violation v)

/-- The WHERE of the UPDATE of the milestone. -/
def awaitsPlus (attributionId : ℤ) (a : CreatorAttribution) : Bool :=
  a.id = attributionId && a.isActive && a.userId.isSome && a.plusConvertedAt.isNone

def plusConverted (grantedAt : ℤ) (a : CreatorAttribution) : CreatorAttribution :=
  { a with plusConvertedAt := some grantedAt }

theorem plusConverted_keys (grantedAt : ℤ) (a : CreatorAttribution) : (plusConverted grantedAt a).keys.Sublist a.keys :=
  List.Sublist.refl _

/-- `record_creator_referral_conversion`. -/
def recordCreatorReferralConversion (reward : StoredReward) (s : Ledger) :
    Except ConversionError (Option CreatorReferralConversionResult × Ledger) :=
  if reward.id ≤ 0 ∨ reward.userId ≤ 0 ∨ reward.rewardType ≠ .plusDays ∨ reward.status ≠ .granted then .ok (none, s)
  else
    match reward.grantedAt with
    | none => .ok (none, s)
    | some grantedAt =>
      match activeAttribution s.attributions reward.userId with
      | none => .ok (none, s)
      | some a =>
        if grantedAt < a.attributedAt then .ok (none, s)
        else do
          let (created, eventId, events) ← insertReferralEvent a.id reward.id grantedAt s.events
          let plusMilestoneSet := (s.attributions.find? (awaitsPlus a.id)).isSome
          return (
            some ⟨eventId, a.id, grantedAt, created, created || plusMilestoneSet, plusMilestoneSet⟩,
            ⟨s.attributions.update (awaitsPlus a.id) (plusConverted grantedAt) (plusConverted_keys grantedAt), events⟩)

/-! ### The workers -/

/-- How far an item has come: the referrer as it was locked; the count; the
row that the UPDATE returned; the reward inserted, or found. -/
inductive ItemPoint where
  | referrer (user : Option UserRow)
  | counted (rewardCount : ℕ)
  | validated (referral : Referral)
  | inserted (reward : StoredReward)
  | recorded (reward : StoredReward)
  | found (referral : Referral) (reward : StoredReward)

/-- The item in hand, with the writes and the referrers locked at its savepoint. -/
structure Item where
  referral : Referral
  savepoint : List Write
  kept : List ℤ
  point : ItemPoint

/-- A transaction with its batch: its `NOW()`, the referrals locked, those to
do, what it has written, and the referrers locked. -/
structure Batch where
  now : ℤ
  ids : List ℤ
  todo : List Referral
  writes : List Write
  referrers : List ℤ
  item : Option Item

inductive Worker where
  | start (now : ℤ) (cursor : Option (ℤ ×ₗ ℤ))
  | batch (b : Batch)

inductive Lock where
  | referral (id : ℤ)
  | user (id : ℤ)
  deriving DecidableEq

def held : Worker → Set Lock
  | .start _ _ => ∅
  | .batch b => {k | (∃ id ∈ b.ids, k = .referral id) ∨ ∃ u ∈ b.referrers, k = .user u}

namespace Batch

/-- The item moves on. -/
def reach (b : Batch) (i : Item) (point : ItemPoint) : Batch := { b with item := some { i with point } }

/-- The item is done: RELEASE SAVEPOINT. -/
def done (b : Batch) : Batch := { b with item := none }

def write (b : Batch) (w : Write) : Batch := { b with writes := b.writes ++ [w] }

/-- ROLLBACK TO SAVEPOINT. -/
def rollback (b : Batch) (i : Item) : Batch := { b with writes := i.savepoint, referrers := i.kept, item := none }

/-- SAVEPOINT, and the referrer of the next item, FOR UPDATE. -/
def lockReferrer (b : Batch) (r : Referral) (todo : List Referral) (user : Option UserRow) : Batch :=
  { b with
    todo
    referrers := (user.map (·.id)).toList ++ b.referrers
    item := some ⟨r, b.writes, b.referrers, .referrer user⟩ }

end Batch

/-- One statement, and the SAVEPOINT, RELEASE and ROLLBACK beside it. -/
inductive Move (g : Settings) (s : Store) : Worker → Worker → Prop where
  /-- the SELECT of the batch, FOR UPDATE OF r SKIP LOCKED -/
  | select {now cursor locked} :
      Move g s (.start now cursor) (.batch
        { now
          ids := (pendingBatch g now cursor locked s).map (·.id)
          todo := orderedBatch (pendingBatch g now cursor locked s)
          writes := []
          referrers := []
          item := none })
  /-- `SELECT is_active, is_email_verified FROM users … FOR UPDATE` -/
  | lockReferrer {b r todo} (idle : b.item = none) (next : b.todo = r :: todo) :
      Move g s (.batch b) (.batch (b.lockReferrer r todo (s.user? r.referrerUserId)))
  | notVerified {b i user} (item : b.item = some i) (here : i.point = .referrer user)
      (unverified : user.any (fun u => u.isActive && u.isEmailVerified) = false) :
      Move g s (.batch b) (.batch (b.write (.skip i.referral.id "referrer_not_verified")).done)
  /-- `SELECT COUNT(*) … FROM rewards` -/
  | count {b i user v} (item : b.item = some i) (here : i.point = .referrer user)
      (verified : user.any (fun u => u.isActive && u.isEmailVerified) = true) (sees : overlay b.now b.writes s = some v) :
      Move g s (.batch b) (.batch (b.reach i (.counted
        (monthlyRewardCount g.calendar i.referral.referrerUserId (g.calendar.month b.now) v.rewards))))
  | monthlyLimit {b i n} (item : b.item = some i) (here : i.point = .counted n) (full : g.monthlyRewardLimit ≤ n) :
      Move g s (.batch b) (.batch (b.write (.skip i.referral.id "monthly_limit")).done)
  /-- `UPDATE referrals SET status = 'valid' … RETURNING` -/
  | validate {b i n v r} (item : b.item = some i) (here : i.point = .counted n) (free : n < g.monthlyRewardLimit)
      (sees : overlay b.now b.writes s = some v) (row : v.referrals.find? (·.isPending i.referral.id) = some r) :
      Move g s (.batch b) (.batch ((b.write (.validate i.referral.id)).reach i (.validated (r.validated b.now))))
  | noLongerPending {b i n v} (item : b.item = some i) (here : i.point = .counted n) (free : n < g.monthlyRewardLimit)
      (sees : overlay b.now b.writes s = some v) (none : v.referrals.find? (·.isPending i.referral.id) = none) :
      Move g s (.batch b) (.batch b.done)
  /-- `INSERT INTO rewards … ON CONFLICT DO NOTHING RETURNING`; the id is from a sequence -/
  | insert {b i r v id t} (item : b.item = some i) (here : i.point = .validated r) (days : 0 < g.rewardDays)
      (user : (s.user? r.referrerUserId).isSome) (sees : overlay b.now b.writes s = some v)
      (inserts : v.rewards.insert? (newReward g id r.referrerUserId r.id b.now) = some t) :
      Move g s (.batch b) (.batch ((b.write (.reward (newReward g id r.referrerUserId r.id b.now))).reach i
        (.inserted (newReward g id r.referrerUserId r.id b.now))))
  /-- the conflict, and `SELECT … FROM rewards WHERE referral_id = …` -/
  | found {b i r v w} (item : b.item = some i) (here : i.point = .validated r) (days : 0 < g.rewardDays)
      (user : (s.user? r.referrerUserId).isSome) (sees : overlay b.now b.writes s = some v)
      (existing : rewardOf v.rewards r.id = some w) : Move g s (.batch b) (.batch (b.reach i (.found r w)))
  /-- the statements of `record_creator_referral_conversion`, on the ledger as it is -/
  | record {b i w ledger out} (item : b.item = some i) (here : i.point = .inserted w)
      (recorded : recordCreatorReferralConversion w ledger = .ok out) : Move g s (.batch b) (.batch (b.reach i (.recorded w)))
  /-- the statements of `reconcile_user_plus_entitlement`, on the tables as they are -/
  | reconcile {b i w v accounts apple subscriptions reference components db} (item : b.item = some i)
      (here : i.point = .recorded w) (sees : overlay b.now b.writes s = some v)
      (reconciled : reconcileUserPlusEntitlement w.userId reference none true
        ⟨accounts, apple, v.rewards.rewards, subscriptions⟩ = .ok (components, db))
      (entitled : components.subscription.isSome) : Move g s (.batch b) (.batch b.done)
  | reconcileFound {b i r w v accounts apple subscriptions reference components db} (item : b.item = some i)
      (here : i.point = .found r w) (sees : overlay b.now b.writes s = some v)
      (reconciled : reconcileUserPlusEntitlement r.referrerUserId reference none true
        ⟨accounts, apple, v.rewards.rewards, subscriptions⟩ = .ok (components, db)) :
      Move g s (.batch b) (.batch b.done)
  /-- `except Exception`: ROLLBACK TO SAVEPOINT, whatever statement raised -/
  | fail {b i} (item : b.item = some i) : Move g s (.batch b) (.batch (b.rollback i))

/-- The end of `with conn`, after the last item of the batch. -/
inductive Commit (s : Store) : Worker → Store → Prop where
  | commit {b t} (idle : b.item = none) (last : b.todo = []) (writes : overlay b.now b.writes s = some t) :
      Commit s (.batch b) t

/-- A transaction starts at any instant, with the cursor of the one before. -/
def Starts : Worker → Prop
  | .start _ _ => True
  | .batch _ => False

def protocol (g : Settings) : Locking.Protocol Store Worker Lock where
  held := held
  start := Starts
  move := Move g
  commit := Commit

end Referrals
end FuelNear

/-
# Reconciling the Plus entitlement of a user

`reconcile_user_plus_entitlement` reads the Apple rows, the rewards and the
stored subscription, works out which components are active at the reference
date (`Entitlement`) and stores what they come to. What it stores is said
once: afterwards the active row is a `Snapshot` of the entitlement, and
nothing is written exactly if it was one before.

Key definitions: `legacyReferralExpiry`, `Entitlement`, `entitlement`,
`reconcileUserPlusEntitlement`, `Snapshot`.
Key theorems: `reconcile_ok`, `reconcile_completes`.
-/
import FuelNear.Plus.Tables

namespace FuelNear
namespace Plus

open Sql Apple

/-- The errors of the reconciliation, with their texts. The last two are
raised by the database. -/
inductive ReconcileError where
  | valueError (message : String)
  | foreignKeyViolation
  | uniqueViolation
  deriving DecidableEq

/-! ### The components -/

/-- `_legacy_referral_expiry`: the referral part of a subscription of a user
without rewards. -/
def legacyReferralExpiry (active : Option UserSubscription) (apple : Option AppleRow)
    (intervals : List Interval) (reference : ℤ) : Option ℤ :=
  match active with
  | none => none
  | some s =>
    if s.referralExpiresAt.any (· > reference) then s.referralExpiresAt
    else if s.expiresAt ≤ reference then none
    else if s.source = .referralReward ∨ s.source = .combined then
      match apple.bind (·.expiresDate) with
      | some e =>
        if s.expiresAt ≤ e then projectReferralExpiry reference (s.expiresAt - reference) intervals
        else some s.expiresAt
      | none => some s.expiresAt
    else none

/-- `apple_subscription`: the one given by the caller, or the active one. -/
def appleSubscription (t : AppleTable) (userId reference : ℤ) (given : Option AppleRow) : Option AppleRow :=
  match given with
  | some r => some r
  | none => loadActiveAppleSubscription t userId reference

/-- `referral_expires_at`, before it is compared with the reference date. -/
def referralExpiry (db : PlusDb) (userId reference : ℤ) (apple : Option AppleRow) : Option ℤ :=
  let intervals := (loadAppleIntervals db.apple userId).intervals
  let rewards := loadReferralRewards db.rewards userId
  if rewards.isEmpty then
    legacyReferralExpiry (loadActiveSubscription db.subscriptions userId) apple intervals reference
  else calculateReferralExpiry rewards intervals reference

/-- The active components of an entitlement. -/
structure Entitlement where
  apple : Option ℤ
  referral : Option ℤ
  originalTransactionId : Option String
  deriving DecidableEq

namespace Entitlement

/-- `source` and `expires_at`, the later component; none if there is none. -/
def held (e : Entitlement) : Option (SubscriptionSource × ℤ) :=
  match e.apple, e.referral with
  | some a, some f => some (.combined, max a f)
  | some a, none => some (.appleSubscription, a)
  | none, some f => some (.referralReward, f)
  | none, none => none

def source (e : Entitlement) : Option SubscriptionSource := e.held.map (·.1)

def expiresAt (e : Entitlement) : Option ℤ := e.held.map (·.2)

end Entitlement

/-- The components active at the reference date. -/
def entitlement (db : PlusDb) (userId reference : ℤ) (given : Option AppleRow) : Entitlement :=
  let apple := appleSubscription db.apple userId reference given
  let appleExpiresAt := (apple.bind (·.expiresDate)).filter (· > reference)
  { apple := appleExpiresAt
    referral := (referralExpiry db userId reference apple).filter (· > reference)
    originalTransactionId := if appleExpiresAt.isSome then apple.map (·.originalTransactionId) else none }

/-! ### Storing them -/

/-- An id later than every id of the table. -/
def nextSubscriptionId (t : SubscriptionTable) : ℤ := (t.rows.map (·.id)).foldr max 0 + 1

/-- The UPDATE of a subscription that grants nothing any more. -/
def UserSubscription.expire (reference : ℤ) (s : UserSubscription) : UserSubscription :=
  { s with status := .expired, expiresAt := min s.expiresAt reference }

/-- The UPDATE of the columns that mirror the entitlement. -/
def UserSubscription.refresh (e : Entitlement) (source : SubscriptionSource) (expiresAt : ℤ)
    (s : UserSubscription) : UserSubscription :=
  { s with
    source := source
    expiresAt := expiresAt
    originalTransactionId := e.originalTransactionId
    appleExpiresAt := e.apple
    referralExpiresAt := e.referral }

/-- `… IS DISTINCT FROM …`: some column is to be rewritten. -/
def UserSubscription.differs (e : Entitlement) (source : SubscriptionSource) (expiresAt : ℤ)
    (s : UserSubscription) : Bool :=
  s.source ≠ source || s.expiresAt ≠ expiresAt || s.originalTransactionId ≠ e.originalTransactionId ||
    s.appleExpiresAt ≠ e.apple || s.referralExpiresAt ≠ e.referral

theorem expire_keys (reference : ℤ) (s : UserSubscription) :
    (UserSubscription.keys (s.expire reference)).Sublist s.keys := by
  unfold UserSubscription.keys UserSubscription.expire
  simp

theorem refresh_keys (e : Entitlement) (source : SubscriptionSource) (expiresAt : ℤ) (s : UserSubscription) :
    (UserSubscription.keys (s.refresh e source expiresAt)).Sublist s.keys :=
  List.Sublist.refl _

/-- `min(starts_at_candidates)`. -/
def startsAt (reference : ℤ) (apple : Option AppleRow) (rewards : List (ℤ × ℤ)) : ℤ :=
  (apple.toList.map (·.purchaseDate) ++ (rewards.head?.map (·.1)).toList).foldl min reference

/-- The row of the INSERT. -/
def newSubscription (id userId starts : ℤ) (e : Entitlement) (source : SubscriptionSource) (expiresAt : ℤ) :
    UserSubscription :=
  { id, userId, source, status := .active, startsAt := starts, expiresAt,
    originalTransactionId := e.originalTransactionId, appleExpiresAt := e.apple, referralExpiresAt := e.referral }

/-- The INSERT, with the foreign key of the user and the unique indexes. -/
def insertSubscription (a : Accounts) (s : UserSubscription) (t : SubscriptionTable) :
    Except ReconcileError SubscriptionTable :=
  if (a.user? s.userId).isSome then
    match t.insert? s with
    | none => .error .uniqueViolation
    | some t' => .ok t'
  else .error .foreignKeyViolation

/-- The writing half of the reconciliation: whether a row changed, the row of
the answer, and the table. -/
def storeEntitlement (a : Accounts) (userId reference starts : ℤ) (e : Entitlement) (t : SubscriptionTable) :
    Except ReconcileError (Bool × Option UserSubscription × SubscriptionTable) :=
  match e.held, loadActiveSubscription t userId with
  | none, none => .ok (false, none, t)
  | none, some s =>
    .ok (true, none, t.update (fun x => x.id = s.id) (UserSubscription.expire reference) (expire_keys reference))
  | some (source, expiresAt), none => do
    let s := newSubscription (nextSubscriptionId t) userId starts e source expiresAt
    let t' ← insertSubscription a s t
    return (true, some s, t')
  | some (source, expiresAt), some s =>
    if s.differs e source expiresAt then
      .ok (true, some (s.refresh e source expiresAt),
        t.update (fun x => x.id = s.id) (UserSubscription.refresh e source expiresAt)
          (refresh_keys e source expiresAt))
    else .ok (false, some s, t)

/-- `PlusEntitlementComponents`. -/
structure PlusEntitlementComponents where
  isPlus : Bool
  expiresAt : Option ℤ
  appleActive : Bool
  appleExpiresAt : Option ℤ
  referralActive : Bool
  referralExpiresAt : Option ℤ
  source : Option SubscriptionSource
  changed : Bool
  subscription : Option UserSubscription
  deriving DecidableEq

/-- The answer of a reconciliation. -/
def components (e : Entitlement) (changed : Bool) (subscription : Option UserSubscription) :
    PlusEntitlementComponents :=
  { isPlus := e.expiresAt.isSome
    expiresAt := e.expiresAt
    appleActive := e.apple.isSome
    appleExpiresAt := e.apple
    referralActive := e.referral.isSome
    referralExpiresAt := e.referral
    source := e.source
    changed
    subscription }

/-- `reconcile_user_plus_entitlement`; `given` is its `apple_subscription`. -/
def reconcileUserPlusEntitlement (userId reference : ℤ) (given : Option AppleRow) (userLocked : Bool)
    (db : PlusDb) : Except ReconcileError (PlusEntitlementComponents × PlusDb) :=
  if userId ≤ 0 then .error (.valueError "user_id must be a positive integer")
  else if ¬ userLocked ∧ (db.accounts.user? userId).isNone then .error (.valueError "User not found")
  else do
    let e := entitlement db userId reference given
    let starts := startsAt reference (appleSubscription db.apple userId reference given)
      (loadReferralRewards db.rewards userId)
    let (changed, subscription, subscriptions) ←
      storeEntitlement db.accounts userId reference starts e db.subscriptions
    return (components e changed subscription, { db with subscriptions })

/-! ### What is stored -/

/-- The columns of the row mirror the entitlement. -/
structure Stores (e : Entitlement) (s : UserSubscription) : Prop where
  held : e.held = some (s.source, s.expiresAt)
  originalTransactionId : s.originalTransactionId = e.originalTransactionId
  apple : s.appleExpiresAt = e.apple
  referral : s.referralExpiresAt = e.referral

/-- The active row is what the entitlement comes to. -/
def Snapshot (e : Entitlement) : Option UserSubscription → Prop
  | none => e.held = none
  | some s => Stores e s

theorem differs_eq_false {e : Entitlement} {source : SubscriptionSource} {expiresAt : ℤ} {s : UserSubscription}
    (h : e.held = some (source, expiresAt)) : s.differs e source expiresAt = false ↔ Stores e s := by
  unfold UserSubscription.differs
  simp only [Bool.or_eq_false_iff, decide_eq_false_iff_not, not_not]
  constructor
  · rintro ⟨⟨⟨⟨h1, h2⟩, h3⟩, h4⟩, h5⟩
    exact ⟨by rw [h, h1, h2], h3, h4, h5⟩
  · intro hs
    obtain ⟨h1, h2⟩ : source = s.source ∧ expiresAt = s.expiresAt := by
      have := h.symm.trans hs.held
      simpa using this
    exact ⟨⟨⟨⟨h1.symm, h2.symm⟩, hs.originalTransactionId⟩, hs.apple⟩, hs.referral⟩

theorem nextSubscriptionId_fresh {t : SubscriptionTable} {s : UserSubscription} (h : s ∈ t) :
    s.id ≠ nextSubscriptionId t := by
  have := foldr_max_ge (t.rows.map (·.id)) s.id (List.mem_map_of_mem h)
  unfold nextSubscriptionId
  omega

theorem loadActive_expire {t : SubscriptionTable} {userId : ℤ} {s : UserSubscription} (reference : ℤ)
    (h : loadActiveSubscription t userId = some s) :
    loadActiveSubscription (t.update (fun x => x.id = s.id) (UserSubscription.expire reference)
      (expire_keys reference)) userId = none := by
  obtain ⟨hs, hu, ha⟩ := loadActiveSubscription_iff.mp h
  rw [loadActiveSubscription_eq_none]
  intro x hx hxu hxa
  obtain ⟨r, hr, rfl⟩ := Table.mem_update.mp hx
  by_cases hid : r.id = s.id
  · simp [hid, UserSubscription.expire] at hxa
  · simp only [hid, decide_false, Bool.false_eq_true, if_false] at hxu hxa
    exact hid (congrArg _ (active_unique hr hs hxa ha (hxu.trans hu.symm)))

theorem loadActive_refresh {t : SubscriptionTable} {userId : ℤ} {s : UserSubscription} (e : Entitlement)
    (source : SubscriptionSource) (expiresAt : ℤ) (h : loadActiveSubscription t userId = some s) :
    loadActiveSubscription (t.update (fun x => x.id = s.id) (UserSubscription.refresh e source expiresAt)
      (refresh_keys e source expiresAt)) userId = some (s.refresh e source expiresAt) := by
  obtain ⟨hs, hu, ha⟩ := loadActiveSubscription_iff.mp h
  exact loadActiveSubscription_iff.mpr ⟨Table.mem_update.mpr ⟨s, hs, by simp⟩, hu, ha⟩

/-- A user without an active row can be given one. -/
theorem insertSubscription_ok {a : Accounts} {t : SubscriptionTable} {userId : ℤ} (starts : ℤ) (e : Entitlement)
    (source : SubscriptionSource) (expiresAt : ℤ) (hu : (a.user? userId).isSome)
    (h : loadActiveSubscription t userId = none) :
    ∃ t', insertSubscription a (newSubscription (nextSubscriptionId t) userId starts e source expiresAt) t =
      .ok t' := by
  have hnone := loadActiveSubscription_eq_none.mp h
  have hins : (t.insert? (newSubscription (nextSubscriptionId t) userId starts e source expiresAt)).isSome := by
    apply Table.insert?_isSome
    · simp [UserSubscription.keys, newSubscription]
    · intro s hs k hk hk'
      simp only [UserSubscription.keys, newSubscription, if_true, List.mem_cons, List.not_mem_nil, or_false] at hk hk'
      rcases hk' with rfl | rfl
      · have : nextSubscriptionId t = s.id := by
          split_ifs at hk <;> simpa using hk
        exact nextSubscriptionId_fresh hs this.symm
      · split_ifs at hk with ha
        · have : userId = s.userId := by simpa using hk
          exact hnone s hs this.symm ha
        · simp at hk
  obtain ⟨t', ht'⟩ := Option.isSome_iff_exists.mp hins
  refine ⟨t', ?_⟩
  unfold insertSubscription
  rw [if_pos (by exact hu), ht']

theorem loadActive_insert {a : Accounts} {t t' : SubscriptionTable} {s : UserSubscription}
    (h : insertSubscription a s t = .ok t') (hs : s.status = .active) :
    loadActiveSubscription t' s.userId = some s := by
  unfold insertSubscription at h
  split_ifs at h
  cases hins : t.insert? s with
  | none => rw [hins] at h; simp at h
  | some u =>
    rw [hins] at h
    obtain rfl : u = t' := Except.ok.inj h
    exact loadActiveSubscription_iff.mpr ⟨(Table.mem_insert hins).mpr (Or.inr rfl), rfl, hs⟩

/-- What storing does: afterwards the active row, which is the one of the
answer, is a snapshot; and it changes nothing exactly if it was one before. -/
theorem storeEntitlement_ok {a : Accounts} {userId reference starts : ℤ} {e : Entitlement}
    {t t' : SubscriptionTable} {changed : Bool} {row : Option UserSubscription}
    (h : storeEntitlement a userId reference starts e t = .ok (changed, row, t')) :
    loadActiveSubscription t' userId = row ∧ Snapshot e row ∧
      (changed = false ↔ Snapshot e (loadActiveSubscription t userId)) ∧ (changed = false → t' = t) := by
  unfold storeEntitlement at h
  cases hheld : e.held with
  | none =>
    cases hl : loadActiveSubscription t userId with
    | none =>
      simp only [hheld, hl] at h
      obtain ⟨rfl, rfl, rfl⟩ : changed = false ∧ row = none ∧ t' = t := by simpa [eq_comm] using h
      exact ⟨hl, hheld, ⟨fun _ => hheld, fun _ => rfl⟩, fun _ => rfl⟩
    | some s =>
      simp only [hheld, hl] at h
      obtain ⟨rfl, rfl, rfl⟩ := by simpa using h
      refine ⟨loadActive_expire reference hl, hheld, ⟨by simp, fun hs => ?_⟩, by simp⟩
      have := hheld.symm.trans hs.held
      simp at this
  | some p =>
    obtain ⟨source, expiresAt⟩ := p
    cases hl : loadActiveSubscription t userId with
    | none =>
      simp only [hheld, hl] at h
      set s := newSubscription (nextSubscriptionId t) userId starts e source expiresAt with hs
      obtain ⟨u, hins, h⟩ := bind_eq_ok.mp h
      obtain ⟨rfl, rfl, rfl⟩ : true = changed ∧ some s = row ∧ u = t' := by simpa [pure, Except.pure] using h
      refine ⟨loadActive_insert hins rfl, ⟨hheld, rfl, rfl, rfl⟩, ⟨by simp, fun hn => ?_⟩, by simp⟩
      have := hheld.symm.trans hn
      simp at this
    | some s =>
      simp only [hheld, hl] at h
      split_ifs at h with hd
      · obtain ⟨rfl, rfl, rfl⟩ := by simpa using h
        refine ⟨loadActive_refresh e source expiresAt hl, ⟨hheld, rfl, rfl, rfl⟩, ⟨by simp, fun hs => ?_⟩, by simp⟩
        rw [(differs_eq_false hheld).mpr hs] at hd
        exact absurd hd (by simp)
      · obtain ⟨rfl, rfl, rfl⟩ : false = changed ∧ some s = row ∧ t = t' := by simpa using h
        have hs := (differs_eq_false hheld).mp (by simpa using hd)
        exact ⟨hl, hs, ⟨fun _ => hs, fun _ => rfl⟩, fun _ => rfl⟩

/-- Only the INSERT can fail, and only for want of the user. -/
theorem storeEntitlement_completes {a : Accounts} {userId : ℤ} (reference starts : ℤ) (e : Entitlement)
    (t : SubscriptionTable) (hu : (a.user? userId).isSome) :
    ∃ out, storeEntitlement a userId reference starts e t = .ok out := by
  unfold storeEntitlement
  cases hheld : e.held with
  | none => cases hl : loadActiveSubscription t userId <;> exact ⟨_, rfl⟩
  | some p =>
    cases hl : loadActiveSubscription t userId with
    | none =>
      obtain ⟨t', ht'⟩ := insertSubscription_ok starts e p.1 p.2 hu hl
      dsimp only
      rw [ht']
      exact ⟨_, rfl⟩
    | some s =>
      dsimp only
      split_ifs <;> exact ⟨_, rfl⟩

/-- **What a completed reconciliation does.** The answer reads the
entitlement off, the active row is then a snapshot of it, the other tables
stay, and nothing is written exactly if the row was a snapshot before. -/
structure Reconciled (userId : ℤ) (e : Entitlement) (db : PlusDb) (out : PlusEntitlementComponents)
    (db' : PlusDb) : Prop where
  answer : out = components e out.changed (loadActiveSubscription db'.subscriptions userId)
  snapshot : Snapshot e (loadActiveSubscription db'.subscriptions userId)
  changed : out.changed = false ↔ Snapshot e (loadActiveSubscription db.subscriptions userId)
  unchanged : out.changed = false → db' = db
  accounts : db'.accounts = db.accounts
  apple : db'.apple = db.apple
  rewards : db'.rewards = db.rewards

theorem reconcile_ok {userId reference : ℤ} {given : Option AppleRow} {userLocked : Bool} {db db' : PlusDb}
    {out : PlusEntitlementComponents}
    (h : reconcileUserPlusEntitlement userId reference given userLocked db = .ok (out, db')) :
    Reconciled userId (entitlement db userId reference given) db out db' := by
  unfold reconcileUserPlusEntitlement at h
  split_ifs at h
  obtain ⟨⟨changed, row, t⟩, hs, h⟩ := bind_eq_ok.mp h
  obtain ⟨rfl, rfl⟩ := Prod.mk.inj (Except.ok.inj h)
  obtain ⟨h1, h2, h3, h4⟩ := storeEntitlement_ok hs
  refine ⟨by rw [h1]; rfl, by rw [h1]; exact h2, h3, fun hc => ?_, rfl, rfl, rfl⟩
  rw [h4 hc]

/-- For a user that exists the reconciliation completes. -/
theorem reconcile_completes {userId : ℤ} (reference : ℤ) (given : Option AppleRow) (userLocked : Bool)
    {db : PlusDb} (hpos : 0 < userId) (hu : (db.accounts.user? userId).isSome) :
    ∃ out db', reconcileUserPlusEntitlement userId reference given userLocked db = .ok (out, db') := by
  obtain ⟨x, hx⟩ := storeEntitlement_completes reference
    (startsAt reference (appleSubscription db.apple userId reference given)
      (loadReferralRewards db.rewards userId)) (entitlement db userId reference given) db.subscriptions hu
  unfold reconcileUserPlusEntitlement
  rw [if_neg (not_le.mpr hpos), if_neg (by simp [Option.isSome_iff_ne_none.mp hu])]
  dsimp only
  rw [hx]
  exact ⟨_, _, rfl⟩

/-- A completed reconciliation that looks the user up found it. -/
theorem reconcile_user {userId reference : ℤ} {given : Option AppleRow} {db db' : PlusDb}
    {out : PlusEntitlementComponents}
    (h : reconcileUserPlusEntitlement userId reference given false db = .ok (out, db')) :
    0 < userId ∧ (db.accounts.user? userId).isSome := by
  unfold reconcileUserPlusEntitlement at h
  split_ifs at h with h1 h2
  exact ⟨not_le.mp h1, by simpa [Option.isSome_iff_ne_none] using h2⟩

end Plus
end FuelNear

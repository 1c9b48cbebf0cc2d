/-
# Referrals and the rewards for them

The tables that the processing of pending referrals reads and writes, its
queries, and what its statements write. A transaction keeps what it has
written to itself until it commits: `overlay` is the store as the transaction
sees it, and as its commit leaves it.

Months are those of Europe/Rome. The time zone is not part of the code;
`MonthCalendar` says what the code relies on: every instant is of one month,
and a month is the instants from its start up to the start of the next.

Key definitions: `Referral`, `Store`, `MonthCalendar`, `pendingBatch`,
`monthlyRewardCount`, `Write`, `overlay`.
Key theorems: `overlay_append`, `overlay_rewards`, `overlay_referrals`,
`monthlyRewardCount_overlay`.
-/
import FuelNear.Plus.Rewards

namespace FuelNear
namespace Referrals

open Sql Plus

/-! ### The tables -/

/-- `referrals_status_check`. -/
inductive ReferralStatus where
  | pending
  | valid
  | invalid
  deriving DecidableEq

/-- A row of `referrals`. -/
structure Referral where
  id : ℤ
  referrerUserId : ℤ
  referredUserId : Option ℤ
  referralCodeUsed : String
  status : ReferralStatus
  statusReason : Option String
  validatedAt : Option ℤ
  createdAt : ℤ
  updatedAt : ℤ
  deriving DecidableEq

/-- The primary key, and `UNIQUE (referred_user_id)`. -/
def Referral.keys (r : Referral) : List (ℤ ⊕ ℤ) := .inl r.id :: r.referredUserId.toList.map .inr

/-- A row of `users`. -/
structure UserRow where
  id : ℤ
  isActive : Bool
  isEmailVerified : Bool
  deriving DecidableEq

def UserRow.keys (u : UserRow) : List ℤ := [u.id]

structure Store where
  users : Table UserRow UserRow.keys
  referrals : Table Referral Referral.keys
  rewards : StoredRewards

def Store.user? (s : Store) (id : ℤ) : Option UserRow := s.users.find? fun u => u.id = id

/-- The months of a time zone: the month of an instant, and the instant at
which a month starts. -/
structure MonthCalendar where
  month : ℤ → ℤ
  start : ℤ → ℤ
  month_iff : ∀ t k, month t = k ↔ start k ≤ t ∧ t < start (k + 1)

/-- The settings, and the two arguments of `process_pending_referrals`. -/
structure Settings where
  calendar : MonthCalendar
  monthlyRewardLimit : ℕ
  batchSize : ℕ
  minAgeDays : ℕ
  rewardDays : ℕ

/-! ### The queries -/

/-- An instant is in microseconds. -/
def day : ℤ := 86400000000

/-- The position of a row in `ORDER BY created_at, id`. -/
def Referral.position (r : Referral) : ℤ ×ₗ ℤ := toLex (r.createdAt, r.id)

/-- The WHERE of the batch; the cursor is the last row of the batch before. -/
def eligible (g : Settings) (now : ℤ) (cursor : Option (ℤ ×ₗ ℤ)) (s : Store) (r : Referral) : Bool :=
  r.status = .pending && r.createdAt ≤ now - g.minAgeDays * day &&
    (r.referredUserId.bind s.user?).any (fun u => u.isActive && u.isEmailVerified) &&
    cursor.all (· < r.position)

/-- The batch, of the rows that no other transaction has locked (SKIP LOCKED). -/
def pendingBatch (g : Settings) (now : ℤ) (cursor : Option (ℤ ×ₗ ℤ)) (locked : List ℤ) (s : Store) : List Referral :=
  ((s.referrals.rows.filter fun r => eligible g now cursor s r && !locked.contains r.id).insertionSort
    fun a b => a.position ≤ b.position).take g.batchSize

/-- `sorted(batch, key=…)`. -/
def orderedBatch (batch : List Referral) : List Referral :=
  batch.insertionSort fun a b => toLex (a.referrerUserId, a.position) ≤ toLex (b.referrerUserId, b.position)

/-- The rows of the count: granted plus days of the user for a referral, in the month. -/
def countsFor (c : MonthCalendar) (userId month : ℤ) (w : StoredReward) : Bool :=
  w.userId = userId && w.rewardType = .plusDays && w.status = .granted && w.referralId.isSome &&
    w.grantedAt.any fun t => c.start month ≤ t && t < c.start (month + 1)

def monthlyRewardCount (c : MonthCalendar) (userId month : ℤ) (t : StoredRewards) : ℕ :=
  t.rows.countP (countsFor c userId month)

def rewardOf (t : StoredRewards) (referralId : ℤ) : Option StoredReward :=
  t.find? fun w => w.referralId = some referralId

/-! ### The statements that write -/

/-- `WHERE id = … AND status = 'pending'`. -/
def Referral.isPending (id : ℤ) (r : Referral) : Bool := r.id = id && r.status = .pending

def Referral.skipped (reason : String) (now : ℤ) (r : Referral) : Referral :=
  { r with statusReason := some reason, updatedAt := now }

def Referral.validated (now : ℤ) (r : Referral) : Referral :=
  { r with status := .valid, statusReason := some "reward_granted", validatedAt := some now, updatedAt := now }

/-- The row of the INSERT. -/
def newReward (g : Settings) (id userId referralId now : ℤ) : StoredReward where
  id := id
  userId := userId
  rewardType := .plusDays
  rewardValue := toString g.rewardDays
  status := .granted
  grantedAt := some now
  referralId := some referralId

/-- A statement of a transaction, with what it wrote. -/
inductive Write where
  | skip (referralId : ℤ) (reason : String)
  | validate (referralId : ℤ)
  | reward (w : StoredReward)
  deriving DecidableEq

theorem skipped_keys (reason : String) (now : ℤ) (r : Referral) : (r.skipped reason now).keys.Sublist r.keys :=
  List.Sublist.refl _

theorem validated_keys (now : ℤ) (r : Referral) : (r.validated now).keys.Sublist r.keys := List.Sublist.refl _

/-- The UPDATE of `referrals`, or the INSERT into `rewards`, at `NOW() = now`. -/
def Write.apply (now : ℤ) (s : Store) : Write → Option Store
  | .skip id reason =>
    some { s with referrals := s.referrals.update (·.isPending id) (·.skipped reason now) (skipped_keys reason now) }
  | .validate id => some { s with referrals := s.referrals.update (·.isPending id) (·.validated now) (validated_keys now) }
  | .reward w => (s.rewards.insert? w).map fun rewards => { s with rewards }

/-- The store with what a transaction that started at `now` has written. -/
def overlay (now : ℤ) (writes : List Write) (s : Store) : Option Store := writes.foldlM (Write.apply now) s

/-! ### What a transaction sees -/

variable {now : ℤ} {s t : Store} {l : List Write}

@[simp] theorem overlay_nil : overlay now [] s = some s := rfl

theorem overlay_append (l m : List Write) (s : Store) :
    overlay now (l ++ m) s = (overlay now l s).bind (overlay now m) := List.foldlM_append

theorem overlay_cons {w : Write} (h : overlay now (w :: l) s = some t) :
    ∃ u, w.apply now s = some u ∧ overlay now l u = some t := Option.bind_eq_some_iff.mp h

/-- What a statement makes of a row of `referrals`. -/
def Write.toRow (now : ℤ) : Write → Referral → Referral
  | .skip id reason, r => if r.isPending id then r.skipped reason now else r
  | .validate id, r => if r.isPending id then r.validated now else r
  | .reward _, r => r

/-- The reward that a statement inserts. -/
def Write.inserted : Write → Option StoredReward
  | .reward w => some w
  | _ => none

def rewardsIn (l : List Write) : List StoredReward := l.filterMap Write.inserted

@[simp] theorem rewardsIn_nil : rewardsIn [] = [] := rfl

theorem rewardsIn_append (l m : List Write) : rewardsIn (l ++ m) = rewardsIn l ++ rewardsIn m := List.filterMap_append

theorem apply_tables {w : Write} (h : w.apply now s = some t) :
    t.users = s.users ∧ t.referrals.rows = s.referrals.rows.map (w.toRow now) ∧
      t.rewards.rows = s.rewards.rows ++ rewardsIn [w] := by
  cases w with
  | skip id reason =>
    rw [← Option.some.inj h]
    exact ⟨rfl, rfl, (List.append_nil _).symm⟩
  | validate id =>
    rw [← Option.some.inj h]
    exact ⟨rfl, rfl, (List.append_nil _).symm⟩
  | reward w =>
    obtain ⟨rewards, hins, rfl⟩ := Option.map_eq_some_iff.mp h
    exact ⟨rfl, (List.map_id _).symm, Table.insert?_rows hins⟩

theorem overlay_rewards : ∀ {l : List Write} {s : Store}, overlay now l s = some t →
    t.rewards.rows = s.rewards.rows ++ rewardsIn l
  | [], _, h => by rw [← Option.some.inj h]; simp
  | w :: l, _, h => by
    obtain ⟨u, hu, h⟩ := overlay_cons h
    rw [overlay_rewards h, (apply_tables hu).2.2, List.append_assoc, ← rewardsIn_append]
    rfl

theorem overlay_referrals : ∀ {l : List Write} {s : Store}, overlay now l s = some t →
    t.referrals.rows = s.referrals.rows.map fun r => l.foldl (fun x w => w.toRow now x) r
  | [], _, h => by rw [← Option.some.inj h]; simp
  | w :: l, _, h => by
    obtain ⟨u, hu, h⟩ := overlay_cons h
    rw [overlay_referrals h, (apply_tables hu).2.1, List.map_map]
    rfl

theorem toRow_same (now : ℤ) (w : Write) (r : Referral) :
    (w.toRow now r).id = r.id ∧ (w.toRow now r).referrerUserId = r.referrerUserId := by
  cases w with
  | skip id reason => by_cases h : r.isPending id = true <;> simp [Write.toRow, h, Referral.skipped]
  | validate id => by_cases h : r.isPending id = true <;> simp [Write.toRow, h, Referral.validated]
  | reward w => exact ⟨rfl, rfl⟩

/-- A row is valid if it was, or if it was pending and a statement validated it. -/
theorem toRow_status (now : ℤ) (w : Write) (r : Referral) : (w.toRow now r).status =
    if r.status = .pending ∧ w = .validate r.id then .valid else r.status := by
  cases w with
  | skip id reason => by_cases h : r.isPending id = true <;> simp [Write.toRow, h, Referral.skipped]
  | validate id =>
    by_cases hid : r.id = id
    · by_cases hs : r.status = .pending <;> simp [Write.toRow, Referral.isPending, Referral.validated, hid, hs]
    · simp [Write.toRow, Referral.isPending, hid, Ne.symm hid]
  | reward w => simp [Write.toRow]

theorem foldl_same (now : ℤ) : ∀ (l : List Write) (r : Referral),
    (l.foldl (fun x w => w.toRow now x) r).id = r.id ∧
      (l.foldl (fun x w => w.toRow now x) r).referrerUserId = r.referrerUserId
  | [], _ => ⟨rfl, rfl⟩
  | w :: l, r => by
    obtain ⟨h1, h2⟩ := foldl_same now l (w.toRow now r)
    obtain ⟨h3, h4⟩ := toRow_same now w r
    exact ⟨h1.trans h3, h2.trans h4⟩

theorem foldl_status (now : ℤ) : ∀ (l : List Write) (r : Referral),
    (l.foldl (fun x w => w.toRow now x) r).status =
      if r.status = .pending ∧ .validate r.id ∈ l then .valid else r.status
  | [], r => by simp
  | w :: l, r => by
    rw [List.foldl_cons, foldl_status now l, (toRow_same now w r).1, toRow_status]
    by_cases hs : r.status = .pending
    · by_cases hw : w = .validate r.id
      · simp [hs, hw]
      · simp [hs, hw, Ne.symm hw]
    · simp [hs]

/-- Where a row of the overlay comes from. -/
theorem mem_overlay (h : overlay now l s = some t) {r : Referral} (hr : r ∈ t.referrals) :
    ∃ q ∈ s.referrals, q.id = r.id ∧ q.referrerUserId = r.referrerUserId ∧
      r.status = if q.status = .pending ∧ .validate r.id ∈ l then .valid else q.status := by
  rw [Table.mem_def, overlay_referrals h] at hr
  obtain ⟨q, hq, rfl⟩ := List.mem_map.mp hr
  obtain ⟨h1, h2⟩ := foldl_same now l q
  refine ⟨q, hq, h1.symm, h2.symm, ?_⟩
  rw [h1]
  exact foldl_status now l q

theorem mem_overlay_rewards (h : overlay now l s = some t) {w : StoredReward} :
    w ∈ t.rewards ↔ w ∈ s.rewards ∨ w ∈ rewardsIn l := by
  rw [Table.mem_def, overlay_rewards h, List.mem_append, ← Table.mem_def]

theorem monthlyRewardCount_overlay (c : MonthCalendar) (u k : ℤ) (h : overlay now l s = some t) :
    monthlyRewardCount c u k t.rewards = monthlyRewardCount c u k s.rewards + (rewardsIn l).countP (countsFor c u k) := by
  unfold monthlyRewardCount
  rw [overlay_rewards h, List.countP_append]

/-- A reward counts in the month of its instant alone. -/
theorem countsFor_month {c : MonthCalendar} {u k : ℤ} {w : StoredReward} (h : countsFor c u k w = true) :
    w.userId = u ∧ ∀ t, w.grantedAt = some t → c.month t = k := by
  simp only [countsFor, Bool.and_eq_true, decide_eq_true_eq, Option.any_eq_true] at h
  obtain ⟨⟨⟨⟨hu, -⟩, -⟩, -⟩, t, ht, hk⟩ := h
  refine ⟨hu, fun t' ht' => ?_⟩
  obtain rfl : t = t' := Option.some.inj (ht.symm.trans ht')
  exact (c.month_iff t k).mpr hk

end Referrals
end FuelNear

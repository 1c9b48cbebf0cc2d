/-
# The backfill of the component columns

Rows from before the component columns hold one aggregate expiry and a label.
`backfill_plus_entitlement_components` reconciles every user with such a row,
each at its own instant. Of a referral row without rewards the referral part
has to be guessed. Where Apple lasts as long as the row, what is left of the
row is projected past the coverage; elsewhere all of it is referral time. In
either case one component reaches the old expiry (`LegacyRow.reaches`).
The referral column is filled then, so the user is not selected again, and
reconciling other users leaves the user's rows alone (`Beside`).

Key definitions: `backfillPlusEntitlementComponents`, `LegacyRow`, `Beside`.
Key theorems: `reconcile_legacy`, `reconcileUsers_beside`,
`repeatBackfill_beside`, `backfill_keeps_legacy_time`.
-/
import FuelNear.Plus.Snapshot

namespace FuelNear
namespace Plus

open Sql Apple

/-! ### The backfill -/

/-- The WHERE of the query: an active row with neither component. -/
def isUnmigrated (s : UserSubscription) : Bool :=
  s.status = .active && s.appleExpiresAt.isNone && s.referralExpiresAt.isNone

/-- `SELECT DISTINCT user_id … ORDER BY user_id`. -/
def backfillUserIds (t : SubscriptionTable) : List ℤ :=
  ((t.rows.filter isUnmigrated).map (·.userId)).dedup.insertionSort (· ≤ ·)

/-- The loop: each user is reconciled at its own `now()`. -/
def reconcileUsers (now : ℤ → ℤ) : List ℤ → PlusDb → Except ReconcileError PlusDb
  | [], db => .ok db
  | userId :: userIds, db => do
    let (_, db') ← reconcileUserPlusEntitlement userId (now userId) none false db
    reconcileUsers now userIds db'

/-- `backfill_plus_entitlement_components`. -/
def backfillPlusEntitlementComponents (now : ℤ → ℤ) (db : PlusDb) : Except ReconcileError (ℕ × PlusDb) := do
  let userIds := backfillUserIds db.subscriptions
  let db' ← reconcileUsers now userIds db
  return (userIds.length, db')

/-- The backfill again and again, as at every start of the server. -/
def repeatBackfill : List (ℤ → ℤ) → PlusDb → Except ReconcileError PlusDb
  | [], db => .ok db
  | now :: later, db => do
    let (_, db') ← backfillPlusEntitlementComponents now db
    repeatBackfill later db'

theorem mem_backfillUserIds {t : SubscriptionTable} {userId : ℤ} :
    userId ∈ backfillUserIds t ↔ ∃ s ∈ t, s.userId = userId ∧ isUnmigrated s = true := by
  unfold backfillUserIds
  rw [(List.perm_insertionSort _ _).mem_iff, List.mem_dedup, List.mem_map]
  constructor
  · rintro ⟨s, hs, rfl⟩
    obtain ⟨hmem, hun⟩ := List.mem_filter.mp hs
    exact ⟨s, hmem, rfl, hun⟩
  · rintro ⟨s, hs, rfl, hun⟩
    exact ⟨s, List.mem_filter.mpr ⟨hs, hun⟩, rfl⟩

theorem backfillUserIds_nodup (t : SubscriptionTable) : (backfillUserIds t).Nodup :=
  (List.perm_insertionSort _ _).nodup_iff.mpr (List.nodup_dedup _)

/-! ### The rows of one user -/

def userRows (t : SubscriptionTable) (userId : ℤ) : List UserSubscription := t.rows.filter fun s => s.userId = userId

theorem mem_userRows {t : SubscriptionTable} {userId : ℤ} {s : UserSubscription} :
    s ∈ userRows t userId ↔ s ∈ t ∧ s.userId = userId := by
  simp [userRows, List.mem_filter, Table.mem_def]

theorem mem_of_userRows {t t' : SubscriptionTable} {s : UserSubscription}
    (h : userRows t' s.userId = userRows t s.userId) : s ∈ t' ↔ s ∈ t := by
  have hiff := fun u : SubscriptionTable => @mem_userRows u s.userId s
  constructor
  · intro hs
    exact ((hiff t).mp (h ▸ (hiff t').mpr ⟨hs, rfl⟩)).1
  · intro hs
    exact ((hiff t').mp (h ▸ (hiff t).mpr ⟨hs, rfl⟩)).1

/-- The rows of one user decide whether the backfill selects the user. -/
theorem mem_backfillUserIds_userRows {t : SubscriptionTable} {userId : ℤ} :
    userId ∈ backfillUserIds t ↔ ∃ s ∈ userRows t userId, isUnmigrated s = true := by
  rw [mem_backfillUserIds]
  constructor
  · rintro ⟨s, hs, hu, hun⟩
    exact ⟨s, mem_userRows.mpr ⟨hs, hu⟩, hun⟩
  · rintro ⟨s, hs, hun⟩
    obtain ⟨hmem, hu⟩ := mem_userRows.mp hs
    exact ⟨s, hmem, hu, hun⟩

/-- An UPDATE of a row of another user. -/
theorem userRows_update {t : SubscriptionTable} {s : UserSubscription} (hs : s ∈ t)
    {f : UserSubscription → UserSubscription} {hf : ∀ r, (UserSubscription.keys (f r)).Sublist r.keys}
    (huser : ∀ r, (f r).userId = r.userId) {userId : ℤ} (hu : userId ≠ s.userId) :
    userRows (t.update (fun x => x.id = s.id) f hf) userId = userRows t userId := by
  have hwhere : ((fun r : UserSubscription => decide (r.userId = userId)) ∘
      fun r => if decide (r.id = s.id) then f r else r) = fun r => decide (r.userId = userId) := by
    funext r
    by_cases h : r.id = s.id <;> simp [h, huser]
  unfold userRows Table.update
  dsimp only
  rw [List.filter_map, hwhere]
  refine (List.map_congr_left fun r hr => ?_).trans (List.map_id _)
  obtain ⟨hmem, hru⟩ := List.mem_filter.mp hr
  have hid : r.id ≠ s.id := by
    intro hid
    -- the primary key: it would be the row of the other user
    have hrs : r = s := Table.eq_of_key hmem hs (k := .inl s.id) (by simp [UserSubscription.keys, hid])
      (by simp [UserSubscription.keys])
    exact hu (hrs ▸ (by simpa using hru : r.userId = userId).symm)
  simp [hid]

/-- Storing the entitlement of a user leaves the rows of the others. -/
theorem storeEntitlement_userRows {a : Accounts} {userId reference starts : ℤ} {e : Entitlement}
    {t t' : SubscriptionTable} {changed : Bool} {row : Option UserSubscription}
    (h : storeEntitlement a userId reference starts e t = .ok (changed, row, t')) {other : ℤ}
    (hu : other ≠ userId) : userRows t' other = userRows t other := by
  unfold storeEntitlement at h
  cases hl : loadActiveSubscription t userId with
  | none =>
    cases hheld : e.held with
    | none =>
      simp only [hheld, hl] at h
      obtain ⟨-, -, rfl⟩ : changed = false ∧ row = none ∧ t' = t := by simpa [eq_comm] using h
      rfl
    | some p =>
      simp only [hheld, hl] at h
      obtain ⟨u, hins, h⟩ := bind_eq_ok.mp h
      obtain ⟨-, -, rfl⟩ : true = changed ∧ some _ = row ∧ u = t' := by simpa [pure, Except.pure] using h
      unfold insertSubscription at hins
      split_ifs at hins
      split at hins
      · exact absurd hins (by simp)
      · next v hv =>
        obtain rfl : v = u := Except.ok.inj hins
        simp [userRows, Table.insert?_rows hv, newSubscription, Ne.symm hu]
  | some s =>
    obtain ⟨hs, hsu, -⟩ := loadActiveSubscription_iff.mp hl
    cases hheld : e.held with
    | none =>
      simp only [hheld, hl] at h
      obtain ⟨-, -, rfl⟩ := by simpa using h
      exact userRows_update hs (f := UserSubscription.expire reference) (fun _ => rfl) (hsu ▸ hu)
    | some p =>
      simp only [hheld, hl] at h
      split_ifs at h
      · obtain ⟨-, -, rfl⟩ := by simpa using h
        exact userRows_update hs (f := UserSubscription.refresh e p.1 p.2) (fun _ => rfl) (hsu ▸ hu)
      · obtain ⟨-, -, rfl⟩ : false = changed ∧ some s = row ∧ t = t' := by simpa using h
        rfl

/-! ### What a backfill leaves alone -/

/-- From `db` to `db'` at most rows of the users in the list changed. -/
structure Beside (userIds : List ℤ) (db db' : PlusDb) : Prop where
  accounts : db'.accounts = db.accounts
  apple : db'.apple = db.apple
  rewards : db'.rewards = db.rewards
  rows : ∀ other, other ∉ userIds → userRows db'.subscriptions other = userRows db.subscriptions other

theorem Beside.refl (userIds : List ℤ) (db : PlusDb) : Beside userIds db db := ⟨rfl, rfl, rfl, fun _ _ => rfl⟩

theorem Beside.trans {userIds userIds' : List ℤ} {db db' db'' : PlusDb} (h : Beside userIds db db')
    (h' : Beside userIds' db' db'') : Beside (userIds ++ userIds') db db'' where
  accounts := h'.accounts.trans h.accounts
  apple := h'.apple.trans h.apple
  rewards := h'.rewards.trans h.rewards
  rows other ho := by
    rw [List.mem_append, not_or] at ho
    rw [h'.rows other ho.2, h.rows other ho.1]

theorem reconcile_beside {userId reference : ℤ} {given : Option AppleRow} {userLocked : Bool} {db db' : PlusDb}
    {out : PlusEntitlementComponents}
    (h : reconcileUserPlusEntitlement userId reference given userLocked db = .ok (out, db')) :
    Beside [userId] db db' := by
  have hr := reconcile_ok h
  refine ⟨hr.accounts, hr.apple, hr.rewards, fun other ho => ?_⟩
  unfold reconcileUserPlusEntitlement at h
  split_ifs at h
  obtain ⟨⟨changed, row, t⟩, hs, h⟩ := bind_eq_ok.mp h
  obtain ⟨-, rfl⟩ := Prod.mk.inj (Except.ok.inj h)
  exact storeEntitlement_userRows hs (List.ne_of_not_mem_cons ho)

theorem reconcileUsers_beside {now : ℤ → ℤ} : ∀ {userIds : List ℤ} {db db' : PlusDb},
    reconcileUsers now userIds db = .ok db' → Beside userIds db db'
  | [], db, db', h => by
    obtain rfl : db = db' := Except.ok.inj h
    exact .refl _ _
  | userId :: userIds, db, db', h => by
    obtain ⟨⟨out, mid⟩, hr, h⟩ := bind_eq_ok.mp h
    exact (reconcile_beside hr).trans (reconcileUsers_beside h)

theorem reconcileUsers_append (now : ℤ → ℤ) (db' : PlusDb) : ∀ (before after : List ℤ) (db : PlusDb),
    reconcileUsers now (before ++ after) db = .ok db' ↔
      ∃ mid, reconcileUsers now before db = .ok mid ∧ reconcileUsers now after mid = .ok db'
  | [], after, db => by simp [reconcileUsers]
  | userId :: before, after, db => by
    rw [List.cons_append, reconcileUsers, reconcileUsers, bind_eq_ok]
    simp only [bind_eq_ok, reconcileUsers_append now db' before after]
    constructor
    · rintro ⟨x, hx, mid, h1, h2⟩
      exact ⟨mid, ⟨x, hx, h1⟩, h2⟩
    · rintro ⟨mid, ⟨x, hx, h1⟩, h2⟩
      exact ⟨x, hx, mid, h1, h2⟩

/-- Where the users are distinct, a user of the list is reconciled once: the
rows are those from before, and they stay as they are then. -/
theorem reconcileUsers_at {now : ℤ → ℤ} {userIds : List ℤ} {db db' : PlusDb} {userId : ℤ}
    (h : reconcileUsers now userIds db = .ok db') (hn : userIds.Nodup) (hu : userId ∈ userIds) :
    ∃ before mid out mid', userId ∉ before ∧ Beside before db mid ∧
      reconcileUserPlusEntitlement userId (now userId) none false mid = .ok (out, mid') ∧
      userRows db'.subscriptions userId = userRows mid'.subscriptions userId := by
  obtain ⟨before, after, rfl⟩ := List.append_of_mem hu
  obtain ⟨mid, hbefore, h⟩ := (reconcileUsers_append now db' before (userId :: after) db).mp h
  obtain ⟨⟨out, mid'⟩, hr, hafter⟩ := bind_eq_ok.mp h
  obtain ⟨-, hn', hdisj⟩ := List.nodup_append.mp hn
  have hb : userId ∉ before := fun hm => hdisj userId hm userId List.mem_cons_self rfl
  have ha : userId ∉ after := (List.nodup_cons.mp hn').1
  exact ⟨before, mid, out, mid', hb, reconcileUsers_beside hbefore, hr, (reconcileUsers_beside hafter).rows userId ha⟩

/-! ### The backfill completes -/

/-- The foreign key of `user_id`; the ids of users are a BIGSERIAL. -/
def Referential (db : PlusDb) : Prop :=
  ∀ s ∈ db.subscriptions, 0 < s.userId ∧ (db.accounts.user? s.userId).isSome

theorem Referential.reconcile {userId reference : ℤ} {db db' : PlusDb} {out : PlusEntitlementComponents}
    (hdb : Referential db) (h : reconcileUserPlusEntitlement userId reference none false db = .ok (out, db')) :
    Referential db' := by
  intro s hs
  have hb := reconcile_beside h
  rw [hb.accounts]
  by_cases hu : s.userId = userId
  · rw [hu]
    exact reconcile_user h
  · exact hdb s ((mem_of_userRows (hb.rows s.userId (by simpa using hu))).mp hs)

theorem reconcileUsers_completes (now : ℤ → ℤ) : ∀ {userIds : List ℤ} {db : PlusDb}, Referential db →
    (∀ u ∈ userIds, 0 < u ∧ (db.accounts.user? u).isSome) →
    ∃ db', reconcileUsers now userIds db = .ok db' ∧ Referential db'
  | [], db, hdb, _ => ⟨db, rfl, hdb⟩
  | userId :: userIds, db, hdb, hu => by
    obtain ⟨hpos, huser⟩ := hu userId List.mem_cons_self
    obtain ⟨out, mid, hr⟩ := reconcile_completes (now userId) none false hpos huser
    have hrest : ∀ u ∈ userIds, 0 < u ∧ (mid.accounts.user? u).isSome := fun u hm => by
      rw [(reconcile_beside hr).accounts]
      exact hu u (List.mem_cons_of_mem _ hm)
    obtain ⟨db', h, hdb'⟩ := reconcileUsers_completes now (hdb.reconcile hr) hrest
    exact ⟨db', bind_eq_ok.mpr ⟨(out, mid), hr, h⟩, hdb'⟩

theorem backfill_completes (now : ℤ → ℤ) {db : PlusDb} (hdb : Referential db) :
    ∃ n db', backfillPlusEntitlementComponents now db = .ok (n, db') ∧ Referential db' := by
  have husers : ∀ u ∈ backfillUserIds db.subscriptions, 0 < u ∧ (db.accounts.user? u).isSome := fun u hu => by
    obtain ⟨s, hs, rfl, -⟩ := mem_backfillUserIds.mp hu
    exact hdb s hs
  obtain ⟨db', h, hdb'⟩ := reconcileUsers_completes now hdb husers
  exact ⟨_, db', bind_eq_ok.mpr ⟨db', h, rfl⟩, hdb'⟩

theorem repeatBackfill_completes : ∀ (clocks : List (ℤ → ℤ)) {db : PlusDb}, Referential db →
    ∃ db', repeatBackfill clocks db = .ok db'
  | [], db, _ => ⟨db, rfl⟩
  | now :: later, db, hdb => by
    obtain ⟨n, mid, h, hmid⟩ := backfill_completes now hdb
    obtain ⟨db', h'⟩ := repeatBackfill_completes later hmid
    exact ⟨db', bind_eq_ok.mpr ⟨(n, mid), h, h'⟩⟩

theorem backfill_loop {now : ℤ → ℤ} {n : ℕ} {db db' : PlusDb}
    (h : backfillPlusEntitlementComponents now db = .ok (n, db')) :
    reconcileUsers now (backfillUserIds db.subscriptions) db = .ok db' := by
  obtain ⟨mid, hr, h⟩ := bind_eq_ok.mp h
  obtain ⟨-, rfl⟩ := Prod.mk.inj (Except.ok.inj h)
  exact hr

/-- A user that the backfill does not select is not selected later either,
and keeps every row. -/
theorem repeatBackfill_beside {userId : ℤ} : ∀ {clocks : List (ℤ → ℤ)} {db db' : PlusDb},
    repeatBackfill clocks db = .ok db' → userId ∉ backfillUserIds db.subscriptions →
    db'.accounts = db.accounts ∧ db'.apple = db.apple ∧ db'.rewards = db.rewards ∧
      userRows db'.subscriptions userId = userRows db.subscriptions userId
  | [], db, db', h, _ => by
    obtain rfl : db = db' := Except.ok.inj h
    exact ⟨rfl, rfl, rfl, rfl⟩
  | now :: later, db, db', h, hu => by
    obtain ⟨⟨n, mid⟩, hb, h⟩ := bind_eq_ok.mp h
    have hbeside := reconcileUsers_beside (backfill_loop hb)
    have hrows := hbeside.rows userId hu
    have hmid : userId ∉ backfillUserIds mid.subscriptions := by
      rwa [mem_backfillUserIds_userRows, hrows, ← mem_backfillUserIds_userRows]
    obtain ⟨h1, h2, h3, h4⟩ := repeatBackfill_beside h hmid
    exact ⟨h1.trans hbeside.accounts, h2.trans hbeside.apple, h3.trans hbeside.rewards, h4.trans hrows⟩

/-! ### Legacy rows -/

/-- An active referral row from before the component columns, of a user whose
ledger has no rewards. -/
structure LegacyRow (db : PlusDb) (s : UserSubscription) : Prop where
  stored : s ∈ db.subscriptions
  active : s.status = .active
  source : s.source = .referralReward ∨ s.source = .combined
  apple : s.appleExpiresAt = none
  referral : s.referralExpiresAt = none
  rewards : loadReferralRewards db.rewards s.userId = []

theorem LegacyRow.load {db : PlusDb} {s : UserSubscription} (h : LegacyRow db s) :
    loadActiveSubscription db.subscriptions s.userId = some s :=
  loadActiveSubscription_iff.mpr ⟨h.stored, rfl, h.active⟩

theorem LegacyRow.selected {db : PlusDb} {s : UserSubscription} (h : LegacyRow db s) :
    s.userId ∈ backfillUserIds db.subscriptions :=
  mem_backfillUserIds.mpr ⟨s, h.stored, rfl, by simp [isUnmigrated, h.active, h.apple, h.referral]⟩

theorem LegacyRow.beside {userIds : List ℤ} {db db' : PlusDb} {s : UserSubscription} (h : LegacyRow db s)
    (hb : Beside userIds db db') (hu : s.userId ∉ userIds) : LegacyRow db' s :=
  ⟨(mem_of_userRows (hb.rows _ hu)).mpr h.stored, h.active, h.source, h.apple, h.referral, by
    rw [hb.rewards]; exact h.rewards⟩

/-- Of a labelled row that lasts there is a referral part; it reaches the old
expiry unless Apple does. -/
theorem legacyReferralExpiry_label {s : UserSubscription} {reference : ℤ} (apple : Option AppleRow)
    (intervals : List Interval) (hr : s.referralExpiresAt = none)
    (hs : s.source = .referralReward ∨ s.source = .combined) (hlt : reference < s.expiresAt) :
    ∃ f, legacyReferralExpiry (some s) apple intervals reference = some f ∧
      (s.expiresAt ≤ f ∨ ∃ a, apple.bind (·.expiresDate) = some a ∧ s.expiresAt ≤ a) := by
  unfold legacyReferralExpiry
  simp only [hr, Option.any_none, Bool.false_eq_true, if_false, not_le.mpr hlt, hs, if_true]
  cases ha : apple.bind (·.expiresDate) with
  | none => exact ⟨s.expiresAt, rfl, .inl le_rfl⟩
  | some a =>
    dsimp only
    split_ifs with hle
    · -- the rest of the row is projected past the coverage
      have hpos : ¬ s.expiresAt - reference ≤ 0 := by omega
      exact ⟨_, if_neg hpos, .inr ⟨a, rfl, hle⟩⟩
    · exact ⟨s.expiresAt, rfl, .inl le_rfl⟩

/-- **The later component is not before the old expiry.** -/
theorem LegacyRow.reaches {db : PlusDb} {s : UserSubscription} (h : LegacyRow db s) {reference : ℤ}
    (hlt : reference < s.expiresAt) :
    ∃ f x, (entitlement db s.userId reference none).referral = some f ∧
      (entitlement db s.userId reference none).expiresAt = some x ∧ s.expiresAt ≤ x := by
  obtain ⟨f, hf, hreach⟩ := legacyReferralExpiry_label (loadActiveAppleSubscription db.apple s.userId reference)
    (loadAppleIntervals db.apple s.userId).intervals h.referral h.source hlt
  have href : (entitlement db s.userId reference none).referral = some f := by
    rw [entitlement_referral, referralExpiry_of_legacy reference _ h.rewards, h.load]
    exact hf
  rw [← entitlement_apple] at hreach
  unfold Entitlement.expiresAt Entitlement.held
  rw [href]
  cases happle : (entitlement db s.userId reference none).apple with
  | none =>
    have hle : s.expiresAt ≤ f := hreach.resolve_right (by rw [happle]; rintro ⟨a, ha, -⟩; simp at ha)
    exact ⟨f, f, rfl, rfl, hle⟩
  | some a =>
    rw [happle] at hreach
    refine ⟨f, max a f, rfl, rfl, ?_⟩
    rcases hreach with hle | ⟨b, hb, hle⟩
    · exact hle.trans (le_max_right _ _)
    · obtain rfl : a = b := Option.some.inj hb
      exact hle.trans (le_max_left _ _)

/-- The user is Plus at `now`, at least until `old`. -/
def PlusUntil (t : SubscriptionTable) (userId now old : ℤ) : Prop :=
  ∃ s, getActivePlusStatus t userId now = some s ∧ now < s.expiresAt ∧ old ≤ s.expiresAt

/-- What reconciling the user of a legacy row leaves: Plus time up to the old
expiry, and no row for the backfill to select. -/
theorem reconcile_legacy {db db' : PlusDb} {s : UserSubscription} (h : LegacyRow db s) {reference : ℤ}
    (hlt : reference < s.expiresAt) {userLocked : Bool} {out : PlusEntitlementComponents}
    (hr : reconcileUserPlusEntitlement s.userId reference none userLocked db = .ok (out, db')) :
    PlusUntil db'.subscriptions s.userId reference s.expiresAt ∧ s.userId ∉ backfillUserIds db'.subscriptions := by
  obtain ⟨f, x, hf, hx, hle⟩ := h.reaches hlt
  have hsnap := (reconcile_ok hr).snapshot
  cases hl : loadActiveSubscription db'.subscriptions s.userId with
  | none =>
    rw [hl] at hsnap
    have hnone : (entitlement db s.userId reference none).held = none := hsnap
    simp [Entitlement.expiresAt, hnone] at hx
  | some s' =>
    rw [hl] at hsnap
    obtain rfl : s'.expiresAt = x := by
      simpa [Entitlement.expiresAt, hsnap.held] using hx
    have hnow := hlt.trans_le hle
    refine ⟨⟨s', ?_, hnow, hle⟩, fun hu => ?_⟩
    · rw [getActivePlusStatus_eq, hl]
      exact Option.filter_some_pos (by simpa using hnow)
    · -- the active row has a referral part, and it is the only active one
      obtain ⟨q, hq, hqu, hun⟩ := mem_backfillUserIds.mp hu
      simp only [isUnmigrated, Bool.and_eq_true, decide_eq_true_eq] at hun
      have hload := loadActiveSubscription_iff.mpr ⟨hq, hqu, hun.1.1⟩
      obtain rfl : s' = q := Option.some.inj (hl.symm.trans hload)
      rw [hsnap.referral, hf] at hun
      simp at hun

theorem plusUntil_userRows {t t' : SubscriptionTable} {userId : ℤ} (h : userRows t' userId = userRows t userId)
    {now old : ℤ} : PlusUntil t' userId now old ↔ PlusUntil t userId now old := by
  have hstatus : ∀ u : SubscriptionTable, getActivePlusStatus u userId now =
      top (fun s => s.expiresAt) ((userRows u userId).filter fun s => s.status = .active && s.expiresAt > now) := by
    intro u
    unfold getActivePlusStatus userRows
    rw [List.filter_filter]
    refine congrArg _ (List.filter_congr fun s _ => ?_)
    ac_rfl
  unfold PlusUntil
  rw [hstatus, hstatus, h]

/-- **No legacy time is lost.** The backfill completes. A user with a legacy
row that has not ended when the user's turn comes is then Plus, not less long
than the old row said, and so is after any reconciliation of the user alone.
However often the backfill is repeated, it completes, and what concerns the
user stays as the first left it. -/
theorem backfill_keeps_legacy_time {db : PlusDb} (hdb : Referential db) {s : UserSubscription}
    (h : LegacyRow db s) (now : ℤ → ℤ) (hlt : now s.userId < s.expiresAt) :
    (∃ out db', reconcileUserPlusEntitlement s.userId (now s.userId) none false db = .ok (out, db') ∧
      PlusUntil db'.subscriptions s.userId (now s.userId) s.expiresAt) ∧
    ∃ n db₁, backfillPlusEntitlementComponents now db = .ok (n, db₁) ∧
      PlusUntil db₁.subscriptions s.userId (now s.userId) s.expiresAt ∧
      ∀ later : List (ℤ → ℤ), ∃ db₂, repeatBackfill later db₁ = .ok db₂ ∧
        db₂.accounts = db₁.accounts ∧ db₂.apple = db₁.apple ∧ db₂.rewards = db₁.rewards ∧
        userRows db₂.subscriptions s.userId = userRows db₁.subscriptions s.userId := by
  obtain ⟨hpos, hu⟩ := hdb s h.stored
  obtain ⟨out, db', hr⟩ := reconcile_completes (now s.userId) none false hpos hu
  refine ⟨⟨out, db', hr, (reconcile_legacy h hlt hr).1⟩, ?_⟩
  obtain ⟨n, db₁, hb, hdb₁⟩ := backfill_completes now hdb
  obtain ⟨before, mid, out', mid', hbefore, hbeside, hr', hrows⟩ :=
    reconcileUsers_at (backfill_loop hb) (backfillUserIds_nodup _) h.selected
  obtain ⟨huntil, hselect⟩ := reconcile_legacy (h.beside hbeside hbefore) hlt hr'
  refine ⟨n, db₁, hb, (plusUntil_userRows hrows).mpr huntil, fun later => ?_⟩
  obtain ⟨db₂, hrep⟩ := repeatBackfill_completes later hdb₁
  refine ⟨db₂, hrep, repeatBackfill_beside hrep ?_⟩
  rwa [mem_backfillUserIds_userRows, hrows, ← mem_backfillUserIds_userRows]

/-- The user 1 has Apple coverage until 100, and a row from before the
component columns that says 60. -/
def mixedRow : UserSubscription := ⟨1, 1, .combined, .active, 0, 60, some "o", none, none⟩

def mixedDb : PlusDb where
  accounts := sampleAccounts
  apple := sampleTable
  rewards := .empty
  subscriptions := ⟨[mixedRow], by decide⟩

/-- At 10 the 50 that are left go behind the coverage. -/
theorem backfill_keeps_legacy_time_sample : ∃ n db₁,
    backfillPlusEntitlementComponents (fun _ => 10) mixedDb = .ok (n, db₁) ∧
      PlusUntil db₁.subscriptions 1 10 60 := by
  have hdb : Referential mixedDb := by
    intro s hs
    obtain rfl : s = mixedRow := List.mem_singleton.mp hs
    exact ⟨by decide, by decide +kernel⟩
  have hrow : LegacyRow mixedDb mixedRow :=
    ⟨List.mem_singleton_self _, rfl, .inr rfl, rfl, rfl, by decide⟩
  obtain ⟨-, n, db₁, hb, huntil, -⟩ := backfill_keeps_legacy_time hdb hrow (fun _ => 10) (by decide)
  exact ⟨n, db₁, hb, huntil⟩

example : (backfillPlusEntitlementComponents (fun _ => 10) mixedDb).toOption.map
    (fun p => p.2.subscriptions.rows.map fun s => (s.expiresAt, s.appleExpiresAt, s.referralExpiresAt)) =
    some [(150, some 100, some 150)] := by decide +kernel

end Plus
end FuelNear

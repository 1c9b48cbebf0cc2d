/-
# Referral rewards are paid once, and within the monthly limit

What a transaction has written is `Sound`: every referral that it validated
has its reward, but for the item in hand; every reward is of a referral that
it validated, for a referrer whose row it has locked, at its own `NOW()`; and
with the rewards committed so far those of the referrer in that month are
within the limit. A savepoint is sound with the locks of the items before it,
so a rollback keeps this; and no commit of another adds a reward for a
referrer whose row is locked, so it stays true until the commit.

Key definitions: `Sound`, `Knows`, `Since`, `Orderly`.
Key theorems: `knows_move`, `referral_lawful`, `commit_since`,
`referrals_paid_once`.
-/
import FuelNear.Referrals.Workers

namespace FuelNear
namespace Referrals

open Sql Plus Locking

variable {g : Settings} {s t : Store}

/-! ### What a transaction has written -/

/-- The rewards for the user that are written and not committed. -/
def newRewards (g : Settings) (now userId : ℤ) (writes : List Write) : ℕ :=
  (rewardsIn writes).countP (countsFor g.calendar userId (g.calendar.month now))

/-- The rewards of the user in the month of `now`, with those not committed. -/
def rewardsSeen (g : Settings) (s : Store) (now userId : ℤ) (writes : List Write) : ℕ :=
  monthlyRewardCount g.calendar userId (g.calendar.month now) s.rewards + newRewards g now userId writes

/-- What holds of the writes of a transaction with the referrals `ids` and the
users `referrers` locked; `unpaid` is the referral of the item in hand between
its UPDATE and its INSERT. -/
structure Sound (g : Settings) (s : Store) (now : ℤ) (ids : List ℤ) (writes : List Write) (referrers : List ℤ)
    (unpaid : Option ℤ) : Prop where
  validated : ∀ id, .validate id ∈ writes → id ∈ ids
  rewards : ∀ w ∈ rewardsIn writes, w.userId ∈ referrers ∧ w.grantedAt = some now ∧
    ∃ id, w.referralId = some id ∧ .validate id ∈ writes
  paid : ∀ id, .validate id ∈ writes → unpaid = some id ∨
    ∃ w, (w ∈ s.rewards ∨ w ∈ rewardsIn writes) ∧ w.referralId = some id
  limited : ∀ u, newRewards g now u writes = 0 ∨ rewardsSeen g s now u writes ≤ g.monthlyRewardLimit

section Writes

variable {now : ℤ} {ids : List ℤ} {writes : List Write} {referrers : List ℤ} {unpaid : Option ℤ}

theorem sound_nil : Sound g s now ids [] referrers none where
  validated _ h := absurd h List.not_mem_nil
  rewards _ h := absurd h List.not_mem_nil
  paid _ h := absurd h List.not_mem_nil
  limited _ := Or.inl rfl

theorem Sound.lock (h : Sound g s now ids writes referrers unpaid) (l : List ℤ) :
    Sound g s now ids writes (l ++ referrers) unpaid where
  validated := h.validated
  rewards w hw := by
    obtain ⟨hu, hrest⟩ := h.rewards w hw
    exact ⟨List.mem_append_right l hu, hrest⟩
  paid := h.paid
  limited := h.limited

theorem rewardsIn_skip (id : ℤ) (reason : String) : rewardsIn (writes ++ [.skip id reason]) = rewardsIn writes := by
  rw [rewardsIn_append]
  exact List.append_nil _

theorem rewardsIn_validate (id : ℤ) : rewardsIn (writes ++ [.validate id]) = rewardsIn writes := by
  rw [rewardsIn_append]
  exact List.append_nil _

theorem Sound.skip (h : Sound g s now ids writes referrers unpaid) (id : ℤ) (reason : String) :
    Sound g s now ids (writes ++ [.skip id reason]) referrers unpaid := by
  have hmem : ∀ x, Write.validate x ∈ writes ++ [.skip id reason] ↔ .validate x ∈ writes := by simp
  constructor
  · exact fun x hx => h.validated x ((hmem x).mp hx)
  · intro w hw
    rw [rewardsIn_skip] at hw
    obtain ⟨hu, hnow, x, hx, hv⟩ := h.rewards w hw
    exact ⟨hu, hnow, x, hx, (hmem x).mpr hv⟩
  · intro x hx
    rw [rewardsIn_skip]
    exact h.paid x ((hmem x).mp hx)
  · unfold rewardsSeen newRewards
    rw [rewardsIn_skip]
    exact h.limited

theorem Sound.validate (h : Sound g s now ids writes referrers none) {id : ℤ} (hid : id ∈ ids) :
    Sound g s now ids (writes ++ [.validate id]) referrers (some id) := by
  have hmem : ∀ x, Write.validate x ∈ writes ++ [.validate id] ↔ .validate x ∈ writes ∨ x = id := by simp
  constructor
  · intro x hx
    rcases (hmem x).mp hx with hx | rfl
    · exact h.validated x hx
    · exact hid
  · intro w hw
    rw [rewardsIn_validate] at hw
    obtain ⟨hu, hnow, x, hx, hv⟩ := h.rewards w hw
    exact ⟨hu, hnow, x, hx, (hmem x).mpr (Or.inl hv)⟩
  · intro x hx
    rw [rewardsIn_validate]
    rcases (hmem x).mp hx with hx | rfl
    · exact Or.inr ((h.paid x hx).resolve_left (by simp))
    · exact Or.inl rfl
  · unfold rewardsSeen newRewards
    rw [rewardsIn_validate]
    exact h.limited

/-- The INSERT for a referrer with room in the month. -/
theorem Sound.reward {id userId referralId : ℤ} (h : Sound g s now ids writes referrers (some referralId))
    (hu : userId ∈ referrers) (hv : .validate referralId ∈ writes)
    (hroom : rewardsSeen g s now userId writes < g.monthlyRewardLimit) :
    Sound g s now ids (writes ++ [.reward (newReward g id userId referralId now)]) referrers none := by
  have hmem : ∀ x, Write.validate x ∈ writes ++ [.reward (newReward g id userId referralId now)] ↔
      .validate x ∈ writes := by simp
  have hrewards : rewardsIn (writes ++ [.reward (newReward g id userId referralId now)]) =
      rewardsIn writes ++ [newReward g id userId referralId now] := rewardsIn_append _ _
  constructor
  · exact fun x hx => h.validated x ((hmem x).mp hx)
  · intro w hw
    rw [hrewards, List.mem_append, List.mem_singleton] at hw
    rcases hw with hw | rfl
    · obtain ⟨hu, hnow, x, hx, hv⟩ := h.rewards w hw
      exact ⟨hu, hnow, x, hx, (hmem x).mpr hv⟩
    · exact ⟨hu, rfl, referralId, rfl, (hmem _).mpr hv⟩
  · intro x hx
    rw [hrewards]
    refine Or.inr ?_
    rcases h.paid x ((hmem x).mp hx) with hx | ⟨w, hw, hx⟩
    · rw [← Option.some.inj hx]
      exact ⟨_, Or.inr (List.mem_append_right _ List.mem_cons_self), rfl⟩
    · exact ⟨w, hw.imp_right (List.mem_append_left _), hx⟩
  · intro u
    have hnew : newRewards g now u (writes ++ [.reward (newReward g id userId referralId now)]) =
        newRewards g now u writes + if u = userId then 1 else 0 := by
      have hmonth := (g.calendar.month_iff now (g.calendar.month now)).mp rfl
      unfold newRewards
      rw [hrewards, List.countP_append, List.countP_singleton]
      by_cases hu : u = userId
      · simp [hu, countsFor, newReward, hmonth]
      · simp [hu, Ne.symm hu, countsFor, newReward]
    unfold rewardsSeen at hroom ⊢
    rw [hnew]
    by_cases hu : u = userId
    · rw [if_pos hu, hu]
      right
      omega
    · rw [if_neg hu]
      have hlimited := h.limited u
      unfold rewardsSeen at hlimited
      simpa using hlimited

/-- The INSERT that found the reward of the referral. -/
theorem Sound.found {referralId : ℤ} (h : Sound g s now ids writes referrers (some referralId)) {w : StoredReward}
    (hw : w ∈ s.rewards ∨ w ∈ rewardsIn writes) (hid : w.referralId = some referralId) :
    Sound g s now ids writes referrers none where
  validated := h.validated
  rewards := h.rewards
  paid x hx := by
    rcases h.paid x hx with hx | hx
    · exact Or.inr ⟨w, hw, hid.trans hx⟩
    · exact Or.inr hx
  limited := h.limited

end Writes

/-! ### What a commit changes -/

/-- The row of the batch is of the referrer that the table has. -/
def SameReferrer (s : Store) (r : Referral) : Prop :=
  ∀ q ∈ s.referrals, q.id = r.id → q.referrerUserId = r.referrerUserId

/-- What a commit under the locks `K` does to the store. -/
structure Grows (g : Settings) (K : Set Lock) (s t : Store) : Prop where
  referrals : ∀ q ∈ t.referrals, ∃ p ∈ s.referrals, p.id = q.id ∧ p.referrerUserId = q.referrerUserId
  rewards : ∀ w ∈ s.rewards, w ∈ t.rewards
  counts : ∀ u k, Lock.user u ∉ K →
    monthlyRewardCount g.calendar u k t.rewards = monthlyRewardCount g.calendar u k s.rewards

theorem SameReferrer.grows {K : Set Lock} {r : Referral} (h : SameReferrer s r) (hg : Grows g K s t) :
    SameReferrer t r := by
  intro q hq hid
  obtain ⟨p, hp, hpid, hpq⟩ := hg.referrals q hq
  rw [← hpq]
  exact h p hp (hpid.trans hid)

theorem rewardsSeen_grows {K : Set Lock} (hg : Grows g K s t) {u : ℤ} (hu : Lock.user u ∉ K) (now : ℤ)
    (writes : List Write) : rewardsSeen g t now u writes = rewardsSeen g s now u writes := by
  unfold rewardsSeen
  rw [hg.counts u _ hu]

theorem Sound.grows {K : Set Lock} {now : ℤ} {ids : List ℤ} {writes : List Write} {referrers : List ℤ}
    {unpaid : Option ℤ} (h : Sound g s now ids writes referrers unpaid) (hg : Grows g K s t)
    (hfree : ∀ u ∈ referrers, Lock.user u ∉ K) : Sound g t now ids writes referrers unpaid where
  validated := h.validated
  rewards := h.rewards
  paid id hid := by
    rcases h.paid id hid with hid | ⟨w, hw, hid⟩
    · exact Or.inl hid
    · exact Or.inr ⟨w, hw.imp_left (hg.rewards w), hid⟩
  limited u := by
    by_cases hnew : newRewards g now u writes = 0
    · exact Or.inl hnew
    · -- the user has a reward here, so its row is locked
      obtain ⟨w, hw, hcounts⟩ := List.countP_pos_iff.mp (Nat.pos_of_ne_zero hnew)
      have hu : u ∈ referrers := (countsFor_month hcounts).1 ▸ (h.rewards w hw).1
      rw [rewardsSeen_grows hg (hfree u hu)]
      exact h.limited u

/-! ### What a worker knows -/

/-- What the item in hand knows at its point. -/
def KnowsPoint (g : Settings) (s : Store) (b : Batch) (i : Item) : Prop :=
  match i.point with
  | .referrer user => Sound g s b.now b.ids b.writes b.referrers none ∧
      (user.isSome → i.referral.referrerUserId ∈ b.referrers)
  | .counted n => Sound g s b.now b.ids b.writes b.referrers none ∧ i.referral.referrerUserId ∈ b.referrers ∧
      n = rewardsSeen g s b.now i.referral.referrerUserId b.writes
  | .validated r => Sound g s b.now b.ids b.writes b.referrers (some r.id) ∧ r.referrerUserId ∈ b.referrers ∧
      .validate r.id ∈ b.writes ∧ rewardsSeen g s b.now r.referrerUserId b.writes < g.monthlyRewardLimit
  | _ => Sound g s b.now b.ids b.writes b.referrers none

/-- What an item knows: its savepoint is sound with the locks of then. -/
structure KnowsItem (g : Settings) (s : Store) (b : Batch) (i : Item) : Prop where
  savepoint : Sound g s b.now b.ids i.savepoint i.kept none
  kept : ∀ u ∈ i.kept, u ∈ b.referrers
  id : i.referral.id ∈ b.ids
  same : SameReferrer s i.referral
  point : KnowsPoint g s b i

/-- What a batch knows: the rows to do are locked; and of its writes. -/
structure KnowsBatch (g : Settings) (s : Store) (b : Batch) : Prop where
  todo : ∀ r ∈ b.todo, r.id ∈ b.ids ∧ SameReferrer s r
  idle : b.item = none → Sound g s b.now b.ids b.writes b.referrers none
  item : ∀ i, b.item = some i → KnowsItem g s b i

def Knows (g : Settings) (s : Store) : Worker → Prop
  | .start _ _ => True
  | .batch b => KnowsBatch g s b

theorem Knows.grows {K : Set Lock} {m : Worker} (h : Knows g s m) (hg : Grows g K s t)
    (hd : Disjoint K (held m)) : Knows g t m := by
  cases m with
  | start now cursor => trivial
  | batch b =>
    have hfree : ∀ u ∈ b.referrers, Lock.user u ∉ K := fun u hu hk =>
      Set.disjoint_left.mp hd hk (Or.inr ⟨u, hu, rfl⟩)
    refine ⟨fun r hr => ?_, fun hidle => (h.idle hidle).grows hg hfree, fun i hi => ?_⟩
    · obtain ⟨hid, hsame⟩ := h.todo r hr
      exact ⟨hid, hsame.grows hg⟩
    · have hitem := h.item i hi
      refine ⟨hitem.savepoint.grows hg fun u hu => hfree u (hitem.kept u hu), hitem.kept, hitem.id,
        hitem.same.grows hg, ?_⟩
      have hpoint := hitem.point
      unfold KnowsPoint at hpoint ⊢
      cases hp : i.point with
      | referrer user =>
        rw [hp] at hpoint
        exact ⟨hpoint.1.grows hg hfree, hpoint.2⟩
      | counted n =>
        rw [hp] at hpoint
        obtain ⟨hsound, hu, hn⟩ := hpoint
        exact ⟨hsound.grows hg hfree, hu, by rw [rewardsSeen_grows hg (hfree _ hu)]; exact hn⟩
      | validated r =>
        rw [hp] at hpoint
        obtain ⟨hsound, hu, hv, hroom⟩ := hpoint
        exact ⟨hsound.grows hg hfree, hu, hv, by rw [rewardsSeen_grows hg (hfree _ hu)]; exact hroom⟩
      | inserted w =>
        rw [hp] at hpoint
        exact Sound.grows hpoint hg hfree
      | recorded w =>
        rw [hp] at hpoint
        exact Sound.grows hpoint hg hfree
      | found r w =>
        rw [hp] at hpoint
        exact Sound.grows hpoint hg hfree

/-! ### The statements -/

theorem mem_pendingBatch {now : ℤ} {cursor : Option (ℤ ×ₗ ℤ)} {locked : List ℤ} {r : Referral}
    (h : r ∈ pendingBatch g now cursor locked s) :
    r ∈ s.referrals ∧ eligible g now cursor s r = true ∧ r.id ∉ locked := by
  have h := List.mem_of_mem_take h
  rw [List.mem_insertionSort, List.mem_filter] at h
  simpa [Table.mem_def] using h

theorem referral_eq_of_id {q r : Referral} (hq : q ∈ s.referrals) (hr : r ∈ s.referrals) (h : q.id = r.id) : q = r :=
  Table.eq_of_key (k := .inl q.id) hq hr (by simp [Referral.keys]) (by simp [Referral.keys, h])

/-- An item that is done leaves its batch with sound writes. -/
theorem KnowsBatch.done {b : Batch} (h : KnowsBatch g s b) (hs : Sound g s b.now b.ids b.writes b.referrers none) :
    KnowsBatch g s b.done :=
  ⟨h.todo, fun _ => hs, fun _ hi => absurd hi (by simp [Batch.done])⟩

theorem KnowsBatch.skipped {b : Batch} (h : KnowsBatch g s b)
    (hs : Sound g s b.now b.ids b.writes b.referrers none) (id : ℤ) (reason : String) :
    KnowsBatch g s (b.write (.skip id reason)).done :=
  ⟨h.todo, fun _ => hs.skip id reason, fun _ hi => absurd hi (by simp [Batch.done])⟩

/-- An item that moves on knows what it has to at its new point. -/
theorem KnowsBatch.reach {b : Batch} (h : KnowsBatch g s b) {i : Item} (hi : b.item = some i) {writes : List Write}
    {point : ItemPoint}
    (hp : KnowsPoint g s ({ b with writes }.reach i point) { i with point }) :
    KnowsBatch g s ({ b with writes }.reach i point) := by
  obtain ⟨hsavepoint, hkept, hid, hsame, -⟩ := h.item i hi
  refine ⟨h.todo, fun hidle => absurd hidle (by simp [Batch.reach]), fun j hj => ?_⟩
  obtain rfl : { i with point } = j := Option.some.inj hj
  exact ⟨hsavepoint, hkept, hid, hsame, hp⟩

/-- A transaction sees the committed rewards of the month and its own. -/
theorem count_seen {now u : ℤ} {writes : List Write} {v : Store} (h : overlay now writes s = some v) :
    monthlyRewardCount g.calendar u (g.calendar.month now) v.rewards = rewardsSeen g s now u writes :=
  monthlyRewardCount_overlay _ _ _ h

/-- Every statement leaves its worker with what it needs to know there. -/
theorem knows_move {l l' : Worker} (hk : Knows g s l) (h : Move g s l l') : Knows g s l' := by
  cases h with
  | @select now cursor locked =>
    refine ⟨fun r hr => ?_, fun _ => sound_nil, fun i hi => absurd hi (by simp)⟩
    have hmem : r ∈ pendingBatch g now cursor locked s := (List.mem_insertionSort _).mp hr
    refine ⟨List.mem_map_of_mem hmem, fun q hq hid => ?_⟩
    rw [referral_eq_of_id hq (mem_pendingBatch hmem).1 hid]
  | @lockReferrer b r todo idle next =>
    have hsound := hk.idle idle
    obtain ⟨hid, hsame⟩ := hk.todo r (by rw [next]; exact List.mem_cons_self)
    refine ⟨fun q hq => hk.todo q (by rw [next]; exact List.mem_cons_of_mem r hq),
      fun hi => absurd hi (by simp [Batch.lockReferrer]), fun i hi => ?_⟩
    rw [← Option.some.inj hi]
    refine ⟨hsound, fun u hu => List.mem_append_right _ hu, hid, hsame, hsound.lock _, fun hsome => ?_⟩
    obtain ⟨u, hu⟩ := Option.isSome_iff_exists.mp hsome
    have huid : u.id = r.referrerUserId := by simpa using Table.find?_prop hu
    apply List.mem_append_left
    show r.referrerUserId ∈ ((s.user? r.referrerUserId).map (·.id)).toList
    rw [hu]
    simp [huid]
  | @notVerified b i user item here unverified =>
    have hpoint := (hk.item i item).point
    rw [KnowsPoint, here] at hpoint
    exact hk.skipped hpoint.1 _ _
  | @count b i user v item here verified sees =>
    have hpoint := (hk.item i item).point
    rw [KnowsPoint, here] at hpoint
    refine hk.reach item ⟨hpoint.1, hpoint.2 ?_, count_seen sees⟩
    cases user with
    | none => simp at verified
    | some u => rfl
  | @monthlyLimit b i n item here full =>
    have hpoint := (hk.item i item).point
    rw [KnowsPoint, here] at hpoint
    exact hk.skipped hpoint.1 _ _
  | @validate b i n v r item here free sees row =>
    obtain ⟨-, -, hid, hsame, hpoint⟩ := hk.item i item
    rw [KnowsPoint, here] at hpoint
    obtain ⟨hsound, hu, hn⟩ := hpoint
    have hrow := Table.find?_prop row
    simp only [Referral.isPending, Bool.and_eq_true, decide_eq_true_eq] at hrow
    obtain ⟨q, hq, hqid, hqu, -⟩ := mem_overlay sees (Table.find?_mem row)
    have hr : r.referrerUserId = i.referral.referrerUserId := by
      rw [← hqu]
      exact hsame q hq (hqid.trans hrow.1)
    have hseen : rewardsSeen g s b.now r.referrerUserId (b.writes ++ [.validate i.referral.id]) = n := by
      unfold rewardsSeen newRewards
      rw [rewardsIn_validate, hr, hn]
      rfl
    refine hk.reach item ⟨?_, ?_, ?_, ?_⟩
    · show Sound g s b.now b.ids (b.writes ++ [.validate i.referral.id]) b.referrers (some r.id)
      rw [hrow.1]
      exact hsound.validate hid
    · show r.referrerUserId ∈ b.referrers
      rw [hr]
      exact hu
    · show Write.validate r.id ∈ b.writes ++ [.validate i.referral.id]
      rw [hrow.1]
      exact List.mem_append_right _ List.mem_cons_self
    · exact hseen.trans_lt free
  | @noLongerPending b i n v item here free sees none =>
    have hpoint := (hk.item i item).point
    rw [KnowsPoint, here] at hpoint
    exact hk.done hpoint.1
  | @insert b i r v id t item here days user sees inserts =>
    have hpoint := (hk.item i item).point
    rw [KnowsPoint, here] at hpoint
    obtain ⟨hsound, hu, hv, hroom⟩ := hpoint
    exact hk.reach item (hsound.reward hu hv hroom)
  | @found b i r v w item here days user sees existing =>
    have hpoint := (hk.item i item).point
    rw [KnowsPoint, here] at hpoint
    obtain ⟨hsound, -⟩ := hpoint
    have hw := (mem_overlay_rewards sees).mp (Table.find?_mem existing)
    exact hk.reach item (hsound.found hw (by simpa using Table.find?_prop existing))
  | @record b i w ledger out item here recorded =>
    have hpoint := (hk.item i item).point
    rw [KnowsPoint, here] at hpoint
    exact hk.reach item hpoint
  | @reconcile b i w v accounts apple subscriptions reference components db item here sees reconciled entitled =>
    have hpoint := (hk.item i item).point
    rw [KnowsPoint, here] at hpoint
    exact hk.done hpoint
  | @reconcileFound b i r w v accounts apple subscriptions reference components db item here sees reconciled =>
    have hpoint := (hk.item i item).point
    rw [KnowsPoint, here] at hpoint
    exact hk.done hpoint
  | @fail b i item =>
    refine ⟨hk.todo, fun _ => (hk.item i item).savepoint, fun j hj => absurd hj (by simp [Batch.rollback])⟩

/-! ### The commits -/

/-- The new rewards are of referrers that are locked. -/
theorem newRewards_unlocked {b : Batch} (hs : Sound g s b.now b.ids b.writes b.referrers none) {u : ℤ}
    (hu : Lock.user u ∉ held (.batch b)) (k : ℤ) : (rewardsIn b.writes).countP (countsFor g.calendar u k) = 0 := by
  rw [List.countP_eq_zero]
  intro w hw hcounts
  have hmem := (hs.rewards w hw).1
  rw [(countsFor_month hcounts).1] at hmem
  exact hu (Or.inr ⟨u, hmem, rfl⟩)

theorem commit_grows {l : Worker} (hk : Knows g s l) (h : Commit s l t) : Grows g (held l) s t := by
  cases h with
  | @commit b t idle last writes =>
    refine ⟨fun q hq => ?_, fun w hw => (mem_overlay_rewards writes).mpr (Or.inl hw), fun u k hu => ?_⟩
    · obtain ⟨p, hp, hid, hreferrer, -⟩ := mem_overlay writes hq
      exact ⟨p, hp, hid, hreferrer⟩
    · rw [monthlyRewardCount_overlay _ _ _ writes, newRewards_unlocked (hk.idle idle) hu k, Nat.add_zero]

theorem referral_lawful (g : Settings) : Lawful (protocol g) (fun _ => True) (Knows g) where
  start l hl := by
    cases l with
    | start now cursor => exact ⟨rfl, fun _ => trivial⟩
    | batch b => exact hl.elim
  move _ _ _ _ hk h := knows_move hk h
  commit _ _ _ _ _ _ := trivial
  stable _ _ _ _ _ hk h hm hd := hm.grows (commit_grows hk h) hd

/-- What processing has made of the store `s`: in `t` every referral is as it
was, or it was pending and is valid with its reward; one that is pending has no
new reward; and a user has no more rewards in a month than the limit allows, if
`s` had no more. -/
structure Since (g : Settings) (s t : Store) : Prop where
  referral : ∀ r ∈ t.referrals, ∃ q ∈ s.referrals, q.id = r.id ∧ (r.status = q.status ∨
    (q.status = .pending ∧ r.status = .valid ∧ ∃ w ∈ t.rewards, w.referralId = some r.id))
  pending : ∀ r ∈ t.referrals, r.status = .pending → ∀ w ∈ t.rewards, w.referralId = some r.id → w ∈ s.rewards
  limit : ∀ u k, monthlyRewardCount g.calendar u k t.rewards ≤
    max g.monthlyRewardLimit (monthlyRewardCount g.calendar u k s.rewards)

theorem Since.refl (g : Settings) (s : Store) : Since g s s where
  referral r hr := ⟨r, hr, rfl, Or.inl rfl⟩
  pending _ _ _ _ hw _ := hw
  limit _ _ := le_max_right _ _

/-- The rewards of a user in a month after a commit. -/
theorem commit_limit {b : Batch} (hs : Sound g s b.now b.ids b.writes b.referrers none)
    (h : overlay b.now b.writes s = some t) (u k : ℤ) : monthlyRewardCount g.calendar u k t.rewards ≤
      max g.monthlyRewardLimit (monthlyRewardCount g.calendar u k s.rewards) := by
  rw [monthlyRewardCount_overlay _ _ _ h]
  by_cases hk : k = g.calendar.month b.now
  · subst hk
    have hlimited := hs.limited u
    unfold rewardsSeen newRewards at hlimited
    omega
  · -- every new reward is of the month of `NOW()`
    have hnone : (rewardsIn b.writes).countP (countsFor g.calendar u k) = 0 := by
      rw [List.countP_eq_zero]
      intro w hw hcounts
      exact hk ((countsFor_month hcounts).2 _ (hs.rewards w hw).2.1).symm
    omega

/-- A commit keeps what processing has made of the store. -/
theorem commit_since {x : Store} {l : Worker} (hk : Knows g s l) (h : Commit s l t) (hx : Since g x s) :
    Since g x t := by
  cases h with
  | @commit b t idle last writes =>
    have hs := hk.idle idle
    constructor
    · intro r hr
      obtain ⟨q, hq, hid, -, hstatus⟩ := mem_overlay writes hr
      obtain ⟨p, hp, hpid, hps⟩ := hx.referral q hq
      refine ⟨p, hp, hpid.trans hid, ?_⟩
      by_cases hand : q.status = .pending ∧ Write.validate r.id ∈ b.writes
      · rw [if_pos hand] at hstatus
        obtain ⟨w, hw, hwid⟩ := (hs.paid r.id hand.2).resolve_left (by simp)
        have hppending : p.status = .pending := by
          rcases hps with hps | ⟨hps, -⟩
          · exact hps.symm.trans hand.1
          · exact hps
        exact Or.inr ⟨hppending, hstatus, w, (mem_overlay_rewards writes).mpr hw, hwid⟩
      · rw [if_neg hand] at hstatus
        rcases hps with hps | ⟨hps, hvalid, w, hw, hwid⟩
        · exact Or.inl (hstatus.trans hps)
        · exact Or.inr ⟨hps, hstatus.trans hvalid, w, (mem_overlay_rewards writes).mpr (Or.inl hw), by rw [hwid, hid]⟩
    · intro r hr hpending w hw hwid
      obtain ⟨q, hq, hid, -, hstatus⟩ := mem_overlay writes hr
      rw [hpending] at hstatus
      split_ifs at hstatus with hand
      rcases (mem_overlay_rewards writes).mp hw with hw | hw
      · exact hx.pending q hq hstatus.symm w hw (by rw [hwid, hid])
      · obtain ⟨-, -, id, hwid', hv⟩ := hs.rewards w hw
        rw [← Option.some.inj (hwid.symm.trans hwid')] at hv
        exact absurd ⟨hstatus.symm, hv⟩ hand
    · intro u k
      calc monthlyRewardCount g.calendar u k t.rewards
          ≤ max g.monthlyRewardLimit (monthlyRewardCount g.calendar u k s.rewards) := commit_limit hs writes u k
        _ ≤ max g.monthlyRewardLimit (monthlyRewardCount g.calendar u k x.rewards) :=
            max_le (le_max_left _ _) (hx.limit u k)

/-! ### In every run -/

variable {ι : Type*} [DecidableEq ι] {x y : System Store Worker ι}

/-- A referral has at most one reward. -/
theorem reward_unique {w q : StoredReward} (hw : w ∈ s.rewards) (hq : q ∈ s.rewards) {id : ℤ}
    (hwid : w.referralId = some id) (hqid : q.referralId = some id) : w = q :=
  Table.eq_of_key (k := .inr id) hw hq (by simp [StoredReward.keys, hwid]) (by simp [StoredReward.keys, hqid])

/-- No pending referral has a reward, and no user has more rewards in a month
than the limit. -/
structure Orderly (g : Settings) (s : Store) : Prop where
  pending : ∀ r ∈ s.referrals, r.status = .pending → ∀ w ∈ s.rewards, w.referralId ≠ some r.id
  limit : ∀ u k, monthlyRewardCount g.calendar u k s.rewards ≤ g.monthlyRewardLimit

theorem Since.orderly (h : Since g s t) (ho : Orderly g s) : Orderly g t where
  pending r hr hpending w hw hwid := by
    obtain ⟨q, hq, hid, hsame | ⟨-, hvalid, -⟩⟩ := h.referral r hr
    · exact ho.pending q hq (hsame.symm.trans hpending) w (h.pending r hr hpending w hw hwid) (by rw [hwid, hid])
    · rw [hpending] at hvalid
      exact absurd hvalid (by simp)
  limit u k := (h.limit u k).trans (max_le le_rfl (ho.limit u k))

/-- **Referral rewards are paid once, and within the monthly limit.** Whatever
the interleaving of the transactions of any runs, with the items that fail in
them: in every committed state a referral has at most one reward; a referral
that processing has moved to valid has its reward, and one that is pending got
none; and no user has more rewards in a month than the limit, unless there were
more before the first run. From a store in order every state is in order. -/
theorem referrals_paid_once (g : Settings) (hx : x.Idle) (h : Reaches (protocol g) x y) :
    (∀ w ∈ y.store.rewards, ∀ q ∈ y.store.rewards, ∀ id, w.referralId = some id → q.referralId = some id → w = q) ∧
    Since g x.store y.store ∧ (Orderly g x.store → Orderly g y.store) := by
  have hsince : Since g x.store y.store := by
    refine (referral_lawful g).keeps (fun _ _ _ _ _ hk _ hc hs => commit_since hk hc hs)
      (coherent_of_idle hx trivial) h.unconditional (.refl g _)
  exact ⟨fun w hw q hq id hwid hqid => reward_unique hw hq hwid hqid, hsince, hsince.orderly⟩

/-- January 1970 is as in Europe/Rome. -/
def sampleCalendar : MonthCalendar where
  month t := (t + 3600000000) / 2678400000000
  start k := k * 2678400000000 - 3600000000
  month_iff t k := by omega

def sampleSettings : Settings := ⟨sampleCalendar, 1, 100, 7, 7⟩

/-- A referral of the user 1, ten days old. -/
def sampleReferral : Referral := ⟨5, 1, some 2, "CODE", .pending, some "awaiting_eligibility", none, 0, 0⟩

def sampleStore : Store where
  users := ⟨[⟨1, true, true⟩, ⟨2, true, true⟩], by decide⟩
  referrals := ⟨[sampleReferral], by decide⟩
  rewards := .empty

def sampleSystem : System Store Worker ℕ := ⟨sampleStore, fun _ => none⟩

def referrerAccounts : Accounts := ⟨⟨[⟨1, 10⟩, ⟨2, 20⟩], by decide⟩, .empty⟩

/-- The batch of the referral. -/
def sampleBatch : Batch := ⟨10 * day, [5], [sampleReferral], [], [], none⟩

/-- Its item at a point, after some writes. -/
def sampleItem (writes : List Write) (point : ItemPoint) : Batch :=
  ⟨10 * day, [5], [], writes, [1], some ⟨sampleReferral, [], [], point⟩⟩

def sampleReward : StoredReward := newReward sampleSettings 1 1 5 (10 * day)

def sampleWrites : List Write := [.validate 5, .reward sampleReward]

/-- The referral is valid. -/
def validatedStore : Store :=
  { sampleStore with
    referrals := sampleStore.referrals.update (·.isPending 5) (·.validated (10 * day)) (validated_keys (10 * day)) }

/-- And its reward is there. -/
def rewardedStore : Store := { validatedStore with rewards := ⟨[sampleReward], by decide⟩ }

theorem overlay_sampleWrites : overlay (10 * day) sampleWrites sampleStore = some rewardedStore := by
  have hinsert : validatedStore.rewards.insert? sampleReward = some rewardedStore.rewards := by
    have hsome : (validatedStore.rewards.insert? sampleReward).isSome := by decide +kernel
    obtain ⟨t, ht⟩ := Option.isSome_iff_exists.mp hsome
    rw [ht]
    exact congrArg some (Table.ext (Table.insert?_rows ht))
  show ((validatedStore.rewards.insert? sampleReward).map fun rewards => { validatedStore with rewards }) = _
  rw [hinsert]
  rfl

/-- The statements of the item, to its end. -/
theorem sample_moves : Relation.ReflTransGen (Move sampleSettings sampleStore) (.start (10 * day) none)
    (.batch ⟨10 * day, [5], [], sampleWrites, [1], none⟩) := by
  have hbatch : pendingBatch sampleSettings (10 * day) none [] sampleStore = [sampleReferral] := by decide +kernel
  have hordered : orderedBatch [sampleReferral] = [sampleReferral] := by decide +kernel
  have huser : sampleStore.user? 1 = some ⟨1, true, true⟩ := by decide +kernel
  have hrecord : recordCreatorReferralConversion sampleReward ⟨.empty, .empty⟩ = .ok (none, ⟨.empty, .empty⟩) := rfl
  have hrow : sampleStore.referrals.find? (·.isPending 5) = some sampleReferral := by decide +kernel
  have hinsert : (validatedStore.rewards.insert? sampleReward).isSome := by decide +kernel
  obtain ⟨t, ht⟩ := Option.isSome_iff_exists.mp hinsert
  have h1 : Move sampleSettings sampleStore (.start (10 * day) none) (.batch sampleBatch) := by
    have h := @Move.select sampleSettings sampleStore (10 * day) none []
    rw [hbatch, hordered] at h
    exact h
  have h2 : Move sampleSettings sampleStore (.batch sampleBatch)
      (.batch (sampleItem [] (.referrer (some ⟨1, true, true⟩)))) := by
    have h := @Move.lockReferrer sampleSettings sampleStore sampleBatch sampleReferral [] rfl rfl
    rw [show sampleReferral.referrerUserId = 1 from rfl, huser] at h
    exact h
  have h3 : Move sampleSettings sampleStore (.batch (sampleItem [] (.referrer (some ⟨1, true, true⟩))))
      (.batch (sampleItem [] (.counted 0))) :=
    Move.count (b := sampleItem [] (.referrer (some ⟨1, true, true⟩))) (v := sampleStore)
      (i := ⟨sampleReferral, [], [], .referrer (some ⟨1, true, true⟩)⟩) rfl rfl rfl rfl
  have h4 : Move sampleSettings sampleStore (.batch (sampleItem [] (.counted 0)))
      (.batch (sampleItem [.validate 5] (.validated (sampleReferral.validated (10 * day))))) :=
    Move.validate (b := sampleItem [] (.counted 0)) (n := 0) (v := sampleStore) (r := sampleReferral)
      (i := ⟨sampleReferral, [], [], .counted 0⟩) rfl rfl (by decide) rfl hrow
  have h5 : Move sampleSettings sampleStore
      (.batch (sampleItem [.validate 5] (.validated (sampleReferral.validated (10 * day)))))
      (.batch (sampleItem sampleWrites (.inserted sampleReward))) :=
    Move.insert (b := sampleItem [.validate 5] (.validated (sampleReferral.validated (10 * day))))
      (r := sampleReferral.validated (10 * day)) (v := validatedStore) (t := t)
      (i := ⟨sampleReferral, [], [], .validated (sampleReferral.validated (10 * day))⟩) rfl rfl (by decide)
      (congrArg Option.isSome huser) rfl ht
  have h6 : Move sampleSettings sampleStore (.batch (sampleItem sampleWrites (.inserted sampleReward)))
      (.batch (sampleItem sampleWrites (.recorded sampleReward))) :=
    Move.record (b := sampleItem sampleWrites (.inserted sampleReward)) (w := sampleReward)
      (i := ⟨sampleReferral, [], [], .inserted sampleReward⟩) rfl rfl hrecord
  have hreconcile : ((reconcileUserPlusEntitlement 1 (10 * day) none true
      ⟨referrerAccounts, .empty, rewardedStore.rewards.rewards, .empty⟩).toOption.any
        fun x => x.1.subscription.isSome) = true := by
    decide +kernel
  obtain ⟨⟨components, db⟩, hok, hentitled⟩ := (Option.any_eq_true _ _).mp hreconcile
  have hreconciled : reconcileUserPlusEntitlement 1 (10 * day) none true
      ⟨referrerAccounts, .empty, rewardedStore.rewards.rewards, .empty⟩ = .ok (components, db) :=
    toOption_eq_some.mp hok
  have h7 : Move sampleSettings sampleStore (.batch (sampleItem sampleWrites (.recorded sampleReward)))
      (.batch ⟨10 * day, [5], [], sampleWrites, [1], none⟩) :=
    Move.reconcile (b := sampleItem sampleWrites (.recorded sampleReward)) (w := sampleReward)
      (i := ⟨sampleReferral, [], [], .recorded sampleReward⟩) rfl rfl overlay_sampleWrites hreconciled hentitled
  exact .tail (.tail (.tail (.tail (.tail (.tail (.single h1) h2) h3) h4) h5) h6) h7

/-- One run over the referral: it is valid, and the next one in January would
be over the limit. -/
theorem referrals_paid_once_sample : ∃ y : System Store Worker ℕ, Reaches (protocol sampleSettings) sampleSystem y ∧
    (∃ r ∈ y.store.referrals, r.status = .valid) ∧
    monthlyRewardCount sampleCalendar 1 (sampleCalendar.month (10 * day)) y.store.rewards = 1 ∧
    Since sampleSettings sampleStore y.store ∧ Orderly sampleSettings y.store := by
  have hreach : Reaches (protocol sampleSettings) sampleSystem { sampleSystem with store := rewardedStore } := by
    apply reaches_transaction (l := .start (10 * day) none) (fun _ => rfl) 0 trivial sample_moves
    exact .commit rfl rfl overlay_sampleWrites
  obtain ⟨-, hsince, horderly⟩ := referrals_paid_once sampleSettings (fun _ => rfl) hreach
  refine ⟨_, hreach, ?_, ?_, hsince, horderly ⟨fun _ _ _ _ hw => absurd hw List.not_mem_nil, fun _ _ => Nat.zero_le _⟩⟩
  · have hmem : sampleReferral.validated (10 * day) ∈ rewardedStore.referrals.rows := by decide +kernel
    exact ⟨_, hmem, rfl⟩
  · decide +kernel

end Referrals
end FuelNear

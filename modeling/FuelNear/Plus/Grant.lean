/-
# A further reward and the Plus expiry

A granted reward fills the bucket of a user who has rewards already, and so
never brings the expiry forward. A user without rewards lives on the legacy
branch, which is left for good with the first reward: from then on the
referral time of the row counts no more. The first reward keeps the expiry
exactly if that time ends with Apple's or within the uncovered time of the
reward (`grant_extends_iff`).

Key definitions: `Reaches`, `RowReached`, `GrantReaches`.
Key theorems: `ledger_grant`, `first_grant`, `rowReached_iff`, `grant_extends_iff`.
-/
import FuelNear.Plus.Snapshot

namespace FuelNear
namespace Plus

open Sql Apple Meter

/-- An expiry that is there is kept or moved later. -/
def Extends (x y : Option ℤ) : Prop := ∀ a, x = some a → ∃ b, y = some b ∧ a ≤ b

/-- With the same Apple part, the aggregate is kept if and only if the
referral part is, or Apple's outlasts it. -/
theorem extends_expiresAt {e e' : Entitlement} (h : e'.apple = e.apple) : Extends e.expiresAt e'.expiresAt ↔
    ∀ f, e.referral = some f → (∃ a, e.apple = some a ∧ f ≤ a) ∨ ∃ f', e'.referral = some f' ∧ f ≤ f' := by
  unfold Extends Entitlement.expiresAt Entitlement.held
  rw [h]
  cases e.apple with
  | none => cases e.referral <;> cases e'.referral <;> simp
  | some a =>
    cases e.referral with
    | none => cases e'.referral <;> simp
    | some f =>
      cases e'.referral with
      | none => simp
      | some f' =>
        simp only [Option.map_some, Option.some.injEq, exists_eq_left', forall_eq']
        omega

/-! ### The two branches -/

/-- A further reward of a user who has some. -/
theorem ledger_grant {h h' : RewardHistory} {g days r : ℤ} (c : Coverage)
    (hp : h'.rewards.Perm ((g, days) :: h.rewards)) :
    Extends (calculateReferralExpiry h.rewards c.intervals r) (calculateReferralExpiry h'.rewards c.intervals r) := by
  intro x hx
  rw [calculateReferralExpiry_eq] at hx ⊢
  exact projectReferralExpiry_mono c (simulatedBalance_grant hp c r) hx

/-- A first reward lasts until `l` if and only if the uncovered time from its
grant up to then does not use it up. -/
theorem first_grant {h : RewardHistory} {g days r l : ℤ} (c : Coverage) (hh : h.rewards = [(g, days)])
    (hgr : g ≤ r) (hl : r < l) :
    (∃ x, calculateReferralExpiry h.rewards c.intervals r = some x ∧ l ≤ x) ↔
      c.uncovered g (l - 1) < days * day := by
  have hdays : 0 < days := h.positive (g, days) (by simp [hh])
  have hsum : c.uncovered g r + c.uncovered r (l - 1) = c.uncovered g (l - 1) :=
    openTicks_add c.covered hgr (by omega)
  have hu := c.uncovered_nonneg r (l - 1)
  rw [calculateReferralExpiry_eq, hh, simulatedBalance_single c hdays hgr]
  constructor
  · rintro ⟨x, hx, hlx⟩
    obtain ⟨hb, hrun⟩ := projectReferralExpiry_eq_some.mp hx
    have hlt := (hrun.le_iff hb hl).mp hlx
    change c.uncovered r (l - 1) < _ at hlt
    omega
  · intro hlt
    have hb : 0 < max 0 (days * day - c.uncovered g r) := by omega
    cases hx : projectReferralExpiry r (max 0 (days * day - c.uncovered g r)) c.intervals with
    | none =>
      rw [projectReferralExpiry_eq_none] at hx
      omega
    | some x =>
      refine ⟨x, rfl, ((projectReferralExpiry_eq_some.mp hx).2.le_iff hb hl).mpr ?_⟩
      show c.uncovered r (l - 1) < _
      omega

/-! ### The grant -/

/-- The `expires_date` of the active Apple row. -/
def appleEnd (db : PlusDb) (userId reference : ℤ) : Option ℤ :=
  (loadActiveAppleSubscription db.apple userId reference).bind (·.expiresDate)

/-- Apple's time lasts until `l`, or the uncovered time from the grant up to
then does not use up the reward. -/
def Reaches (db : PlusDb) (userId reference g days l : ℤ) : Prop :=
  (∃ a ∈ appleEnd db userId reference, l ≤ a) ∨
    (loadAppleIntervals db.apple userId).uncovered g (l - 1) < days * day

/-- The row has no referral time of its own that is to come, but a referral
label, and it has not ended: what is left of the row counts as referral time. -/
def CountsAggregate (reference : ℤ) (s : UserSubscription) : Prop :=
  (∀ x ∈ s.referralExpiresAt, x ≤ reference) ∧ (s.source = .referralReward ∨ s.source = .combined) ∧
    reference < s.expiresAt

/-- The referral time of the row is reached: its own; or the rest of the row,
where that outlasts Apple's; or, where Apple's lasts as long as the row, as much
uncovered time from the reference date on. -/
structure RowReached (db : PlusDb) (userId reference g days : ℤ) (s : UserSubscription) : Prop where
  stored : ∀ x ∈ s.referralExpiresAt, reference < x → Reaches db userId reference g days x
  outlasting : CountsAggregate reference s → (∀ a ∈ appleEnd db userId reference, a < s.expiresAt) →
    (loadAppleIntervals db.apple userId).uncovered g (s.expiresAt - 1) < days * day
  outlasted : CountsAggregate reference s → ∀ a ∈ appleEnd db userId reference, s.expiresAt ≤ a →
    s.expiresAt - reference ≤ (loadAppleIntervals db.apple userId).uncovered reference a ∨
      (loadAppleIntervals db.apple userId).uncovered g reference + (s.expiresAt - reference) ≤ days * day

/-- The user has rewards, or the active row's referral time, if there is such
a row, is reached. -/
def GrantReaches (db : PlusDb) (userId reference g days : ℤ) : Prop :=
  loadReferralRewards db.rewards userId ≠ [] ∨
    ∀ s ∈ loadActiveSubscription db.subscriptions userId, RowReached db userId reference g days s

/-- Where the projected expiry lies, by the uncovered time. -/
theorem reaches_projected {db : PlusDb} {userId r g days b a x : ℤ} (hgr : g ≤ r) (ha : appleEnd db userId r = some a)
    (hra : r ≤ a) (hx : projectReferralExpiry r b (loadAppleIntervals db.apple userId).intervals = some x) :
    Reaches db userId r g days x ↔ b ≤ (loadAppleIntervals db.apple userId).uncovered r a ∨
      (loadAppleIntervals db.apple userId).uncovered g r + b ≤ days * day := by
  obtain ⟨hb, hrun⟩ := projectReferralExpiry_eq_some.mp hx
  have hlast : (loadAppleIntervals db.apple userId).uncovered r (x - 1) = b - 1 := hrun.openTicks_pred hb
  have hsum : (loadAppleIntervals db.apple userId).uncovered g r +
      (loadAppleIntervals db.apple userId).uncovered r (x - 1) =
        (loadAppleIntervals db.apple userId).uncovered g (x - 1) :=
    openTicks_add _ hgr (by have := hrun.lt; omega)
  have hdry : x ≤ a ↔ b ≤ (loadAppleIntervals db.apple userId).uncovered r a := hrun.dry_iff hb hra
  unfold Reaches
  rw [ha, ← hdry]
  simp only [Option.mem_some_iff, exists_eq_left']
  omega

section Legacy

variable {s : UserSubscription} {apple : Option AppleRow} {r : ℤ}

/-- A row with a referral label is read as a whole where Apple's ends before it. -/
theorem legacyReferralExpiry_outlasting (h : CountsAggregate r s) (intervals : List Interval)
    (happle : ∀ a ∈ apple.bind (·.expiresDate), a < s.expiresAt) :
    legacyReferralExpiry (some s) apple intervals r = some s.expiresAt := by
  obtain ⟨hlapsed, hsrc, hend⟩ := h
  have hany : s.referralExpiresAt.any (· > r) = false := by
    simpa [Option.any_eq_false] using hlapsed
  unfold legacyReferralExpiry
  simp only [hany, Bool.false_eq_true, if_false, if_neg (not_le.mpr hend), if_pos hsrc]
  cases ha : apple.bind (·.expiresDate) with
  | none => rfl
  | some a => exact if_neg (not_le.mpr (happle a ha))

/-- What is left of it is projected where Apple's lasts as long. -/
theorem legacyReferralExpiry_outlasted (h : CountsAggregate r s) (intervals : List Interval) {a : ℤ}
    (ha : apple.bind (·.expiresDate) = some a) (hle : s.expiresAt ≤ a) :
    legacyReferralExpiry (some s) apple intervals r = projectReferralExpiry r (s.expiresAt - r) intervals := by
  obtain ⟨hlapsed, hsrc, hend⟩ := h
  have hany : s.referralExpiresAt.any (· > r) = false := by
    simpa [Option.any_eq_false] using hlapsed
  unfold legacyReferralExpiry
  simp only [hany, Bool.false_eq_true, if_false, if_neg (not_le.mpr hend), if_pos hsrc, ha, if_pos hle]

/-- Any other row whose own referral time has lapsed has none left. -/
theorem legacyReferralExpiry_none (h : ¬ CountsAggregate r s) (intervals : List Interval)
    (hlapsed : ∀ x ∈ s.referralExpiresAt, x ≤ r) : legacyReferralExpiry (some s) apple intervals r = none := by
  have hany : s.referralExpiresAt.any (· > r) = false := by
    simpa [Option.any_eq_false] using hlapsed
  unfold legacyReferralExpiry
  simp only [hany, Bool.false_eq_true, if_false]
  by_cases hend : s.expiresAt ≤ r
  · rw [if_pos hend]
  · have hsrc : ¬ (s.source = .referralReward ∨ s.source = .combined) := fun hsrc =>
      h ⟨hlapsed, hsrc, not_le.mp hend⟩
    rw [if_neg hend, if_neg hsrc]

end Legacy

section RowReached

variable {db : PlusDb} {userId r g days : ℤ} {s : UserSubscription}

/-- A referral time of its own decides. -/
theorem rowReached_stored {x : ℤ} (hx : s.referralExpiresAt = some x) (hrx : r < x) :
    RowReached db userId r g days s ↔ Reaches db userId r g days x := by
  have hnot : ¬ CountsAggregate r s := fun h => absurd (h.1 x hx) (not_le.mpr hrx)
  constructor
  · intro h
    exact h.stored x hx hrx
  · intro h
    refine ⟨fun y hy _ => ?_, fun hc => absurd hc hnot, fun hc => absurd hc hnot⟩
    obtain rfl : x = y := Option.some.inj (hx.symm.trans hy)
    exact h

theorem rowReached_outlasting (hcounts : CountsAggregate r s) (hshort : ∀ a ∈ appleEnd db userId r, a < s.expiresAt) :
    RowReached db userId r g days s ↔ Reaches db userId r g days s.expiresAt := by
  have hreach : Reaches db userId r g days s.expiresAt ↔
      (loadAppleIntervals db.apple userId).uncovered g (s.expiresAt - 1) < days * day :=
    or_iff_right fun ⟨a, ha, hle⟩ => absurd (hshort a ha) (not_lt.mpr hle)
  rw [hreach]
  constructor
  · intro h
    exact h.outlasting hcounts hshort
  · intro h
    exact ⟨fun x hx hlt => absurd (hcounts.1 x hx) (not_le.mpr hlt), fun _ _ => h,
      fun _ a ha hle => absurd (hshort a ha) (not_lt.mpr hle)⟩

theorem rowReached_outlasted (hgr : g ≤ r) (hcounts : CountsAggregate r s) {a x : ℤ}
    (ha : appleEnd db userId r = some a) (hle : s.expiresAt ≤ a)
    (hx : projectReferralExpiry r (s.expiresAt - r) (loadAppleIntervals db.apple userId).intervals = some x) :
    RowReached db userId r g days s ↔ Reaches db userId r g days x := by
  have hra : r ≤ a := hcounts.2.2.le.trans hle
  rw [reaches_projected hgr ha hra hx]
  constructor
  · intro h
    exact h.outlasted hcounts a ha hle
  · intro h
    refine ⟨fun x hx hlt => absurd (hcounts.1 x hx) (not_le.mpr hlt),
      fun _ hall => absurd (hall a ha) (not_lt.mpr hle), fun _ a' ha' _ => ?_⟩
    obtain rfl : a = a' := Option.some.inj (ha.symm.trans ha')
    exact h

/-- A row without referral time is reached. -/
theorem rowReached_of_none (hcounts : ¬ CountsAggregate r s) (hlapsed : ∀ x ∈ s.referralExpiresAt, x ≤ r) :
    RowReached db userId r g days s :=
  ⟨fun x hx hlt => absurd (hlapsed x hx) (not_le.mpr hlt), fun hc => absurd hc hcounts, fun hc => absurd hc hcounts⟩

/-- The legacy branch, by the columns of the row. -/
theorem rowReached_iff (hgr : g ≤ r) (s : UserSubscription) :
    (∀ l, legacyReferralExpiry (some s) (loadActiveAppleSubscription db.apple userId r)
      (loadAppleIntervals db.apple userId).intervals r = some l → Reaches db userId r g days l) ↔
        RowReached db userId r g days s := by
  by_cases hstored : ∃ x ∈ s.referralExpiresAt, r < x
  · obtain ⟨x, hx, hrx⟩ := hstored
    rw [legacyReferralExpiry_stored _ _ hx hrx, rowReached_stored hx hrx]
    simp
  have hlapsed : ∀ x ∈ s.referralExpiresAt, x ≤ r := fun x hx => not_lt.mp fun hlt => hstored ⟨x, hx, hlt⟩
  by_cases hcounts : CountsAggregate r s
  · by_cases hlong : ∃ a ∈ appleEnd db userId r, s.expiresAt ≤ a
    · obtain ⟨a, ha, hle⟩ := hlong
      rw [legacyReferralExpiry_outlasted hcounts _ ha hle]
      cases hx : projectReferralExpiry r (s.expiresAt - r) (loadAppleIntervals db.apple userId).intervals with
      | none =>
        have hpos := hcounts.2.2
        rw [projectReferralExpiry_eq_none] at hx
        omega
      | some x =>
        rw [rowReached_outlasted hgr hcounts ha hle hx]
        simp
    · have hshort : ∀ a ∈ appleEnd db userId r, a < s.expiresAt := fun a ha =>
        not_le.mp fun hle => hlong ⟨a, ha, hle⟩
      rw [legacyReferralExpiry_outlasting hcounts _ hshort, rowReached_outlasting hcounts hshort]
      simp
  · rw [legacyReferralExpiry_none hcounts _ hlapsed]
    exact iff_of_true (fun l hl => absurd hl (by simp)) (rowReached_of_none hcounts hlapsed)

/-- The first reward reaches what the legacy branch finds if and only if the
active row's referral time is reached. -/
theorem first_grant_legacy {h : RewardHistory} (hh : h.rewards = [(g, days)]) (hgr : g ≤ r) :
    (∀ l, legacyReferralExpiry (loadActiveSubscription db.subscriptions userId)
        (loadActiveAppleSubscription db.apple userId r) (loadAppleIntervals db.apple userId).intervals r = some l →
      (∃ a, appleEnd db userId r = some a ∧ l ≤ a) ∨
        ∃ x, calculateReferralExpiry h.rewards (loadAppleIntervals db.apple userId).intervals r = some x ∧ l ≤ x) ↔
      ∀ s ∈ loadActiveSubscription db.subscriptions userId, RowReached db userId r g days s := by
  have hreaches : ∀ l, legacyReferralExpiry (loadActiveSubscription db.subscriptions userId)
      (loadActiveAppleSubscription db.apple userId r) (loadAppleIntervals db.apple userId).intervals r = some l →
      (((∃ a, appleEnd db userId r = some a ∧ l ≤ a) ∨
        ∃ x, calculateReferralExpiry h.rewards (loadAppleIntervals db.apple userId).intervals r = some x ∧ l ≤ x) ↔
          Reaches db userId r g days l) := by
    intro l hl
    rw [first_grant (loadAppleIntervals db.apple userId) hh hgr (legacyReferralExpiry_some hl).1]
    rfl
  rw [forall₂_congr hreaches]
  cases hs : loadActiveSubscription db.subscriptions userId with
  | none => simp [legacyReferralExpiry]
  | some s =>
    simp only [Option.mem_some_iff, forall_eq']
    exact rowReached_iff hgr s

end RowReached

/-- The referral part of the entitlement of a user with rewards. -/
theorem entitlement_ledger {db : PlusDb} {userId r : ℤ} (hl : loadReferralRewards db.rewards userId ≠ []) :
    (entitlement db userId r none).referral = calculateReferralExpiry (referralHistory db.rewards userId).rewards
      (loadAppleIntervals db.apple userId).intervals r := by
  rw [entitlement_referral]
  exact referralExpiry_of_ledger r _ hl

/-- **A further reward and the expiry.** A granted reward of `days` days dated
`g` leaves the Plus expiry that a reconciliation at `r ≥ g` gives no earlier
than without it if and only if the user has rewards or the referral time of
the active row is reached. -/
theorem grant_extends_iff {db db' : PlusDb} {userId r g days : ℤ} {reward : Reward} {rewards : RewardTable}
    {out : PlusEntitlementComponents}
    (h : reconcileUserPlusEntitlement userId r none false db = .ok (out, db'))
    (hins : db.rewards.insert? reward = some rewards) (hr : isGrantedPlusDays userId reward = true)
    (hc : countedReward reward = some (g, days)) (hgr : g ≤ r) :
    ∃ granted db'', reconcileUserPlusEntitlement userId r none false { db with rewards } = .ok (granted, db'') ∧
      (Extends out.expiresAt granted.expiresAt ↔ GrantReaches db userId r g days) := by
  obtain ⟨hpos, hu⟩ := reconcile_user h
  have hu' : (({ db with rewards } : PlusDb).accounts.user? userId).isSome := hu
  obtain ⟨granted, db'', h'⟩ := reconcile_completes r none false hpos hu'
  refine ⟨granted, db'', h', ?_⟩
  have hout : out.expiresAt = (entitlement db userId r none).expiresAt := by rw [(reconcile_ok h).answer]; rfl
  have hout' : granted.expiresAt = (entitlement { db with rewards } userId r none).expiresAt := by
    rw [(reconcile_ok h').answer]
    rfl
  have happle : (entitlement { db with rewards } userId r none).apple = (entitlement db userId r none).apple := by
    rw [entitlement_apple, entitlement_apple]
  have hperm := referralHistory_grant hins hr hc
  have hne : loadReferralRewards rewards userId ≠ [] := by
    intro hnil
    have := hperm.length_eq
    simp [show (referralHistory rewards userId).rewards = [] from hnil] at this
  have href : (entitlement { db with rewards } userId r none).referral =
      calculateReferralExpiry (referralHistory rewards userId).rewards
        (loadAppleIntervals db.apple userId).intervals r :=
    entitlement_ledger hne
  rw [hout, hout', extends_expiresAt happle, href]
  unfold GrantReaches
  by_cases hl : loadReferralRewards db.rewards userId = []
  · -- the ledger takes over from the legacy row
    have hh : (referralHistory rewards userId).rewards = [(g, days)] := by
      have hnil : (referralHistory db.rewards userId).rewards = [] := hl
      rw [hnil] at hperm
      exact List.perm_singleton.mp hperm
    have hend : (entitlement db userId r none).apple = appleEnd db userId r := by
      rw [entitlement_apple]
      rfl
    rw [or_iff_right (not_not.mpr hl), hend, entitlement_referral, referralExpiry_of_legacy r _ hl]
    exact first_grant_legacy hh hgr
  · -- the ledger goes on
    refine ⟨fun _ => Or.inl hl, fun _ f hf => Or.inr ?_⟩
    rw [entitlement_ledger hl] at hf
    exact ledger_grant _ hperm f hf

/-- A reward of the user 1, granted at the instant 5. -/
def sampleReward (days : String) : Reward := ⟨2, 1, .plusDays, days, .granted, some 5⟩

/-- The user 1 with a row from before the ledger: thirty days of referral time. -/
def thirtyDaysDb : PlusDb where
  accounts := sampleAccounts
  apple := .empty
  rewards := .empty
  subscriptions := ⟨[⟨1, 1, .referralReward, .active, 0, 30 * day, none, none, none⟩], by decide⟩

/-- A first reward of forty days outlasts the thirty days of the row. -/
theorem grant_extends_sample : ∃ rewards, thirtyDaysDb.rewards.insert? (sampleReward "40") = some rewards ∧
    ∃ out db' granted db'', reconcileUserPlusEntitlement 1 10 none false thirtyDaysDb = .ok (out, db') ∧
      reconcileUserPlusEntitlement 1 10 none false { thirtyDaysDb with rewards } = .ok (granted, db'') ∧
      Extends out.expiresAt granted.expiresAt := by
  have hu : (thirtyDaysDb.accounts.user? 1).isSome := by decide +kernel
  have hins : (thirtyDaysDb.rewards.insert? (sampleReward "40")).isSome := by decide +kernel
  obtain ⟨rewards, hrewards⟩ := Option.isSome_iff_exists.mp hins
  obtain ⟨out, db', h⟩ := reconcile_completes 10 none false one_pos hu
  have hc : countedReward (sampleReward "40") = some (5, 40) := by decide +kernel
  obtain ⟨granted, db'', h', hiff⟩ := grant_extends_iff h hrewards (by decide) hc (by decide)
  have hend : appleEnd thirtyDaysDb 1 10 = none := by decide +kernel
  have hopen : (loadAppleIntervals thirtyDaysDb.apple 1).uncovered 5 (30 * day - 1) = 30 * day - 1 - 5 := by
    refine openTicks_of_open _ (by decide) fun t _ _ hcovered => ?_
    have hnil : (loadAppleIntervals thirtyDaysDb.apple 1).intervals = [] := by decide +kernel
    simp [Coverage.covered, hnil, covers] at hcovered
  refine ⟨rewards, hrewards, out, db', granted, db'', h, h', hiff.mpr (Or.inr fun s hs => ?_)⟩
  have hrow : loadActiveSubscription thirtyDaysDb.subscriptions 1 =
      some ⟨1, 1, .referralReward, .active, 0, 30 * day, none, none, none⟩ := by decide +kernel
  obtain rfl := Option.some.inj (hrow.symm.trans hs)
  refine ⟨fun x hx => by simp at hx, fun _ _ => ?_, fun _ a ha => by simp [hend] at ha⟩
  rw [hopen]
  decide

/-- A first reward of seven days takes thirty days of Plus down to seven. -/
theorem grant_shortens : isGrantedPlusDays 1 (sampleReward "7") = true ∧
    countedReward (sampleReward "7") = some (5, 7) ∧
    ∃ rewards, thirtyDaysDb.rewards.insert? (sampleReward "7") = some rewards ∧
    (reconcileUserPlusEntitlement 1 10 none false thirtyDaysDb).toOption.map (·.1.expiresAt) =
      some (some (30 * day)) ∧
    (reconcileUserPlusEntitlement 1 10 none false { thirtyDaysDb with rewards }).toOption.map (·.1.expiresAt) =
      some (some (5 + 7 * day)) := by
  refine ⟨by decide, by decide +kernel, ⟨[sampleReward "7"], by decide⟩, rfl, ?_, ?_⟩
  · decide +kernel
  · decide +kernel

end Plus
end FuelNear

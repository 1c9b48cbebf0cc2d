/-
# Referral time: the balance and its projected expiry

Referral rewards are Plus time to be used outside Apple coverage.
`_calculate_referral_expiry` runs over the rewards, draining the balance by
the uncovered time between them, and `_project_referral_expiry` walks the
coverage intervals to find the instant at which the balance is used up. Both
agree with a bucket that is filled at each grant and drains one microsecond
at each uncovered microsecond (`simulatedBalance`): the loop computes its
level at the reference date (`calculateReferralExpiry_eq`), the walk the
instant at which it runs dry (`projectReferralExpiry_eq_some`). What later
readings and further rewards do to the result follows from the bucket.

Key definitions: `projectReferralExpiry`, `calculateReferralExpiry`,
`RewardHistory`, `simulatedBalance`.
Key theorems: `calculateReferralExpiry_simulation`, `simulatedBalance_later`,
`calculateReferralExpiry_later`, `simulatedBalance_grant`.
-/
import FuelNear.Coverage

namespace FuelNear

open Meter

/-! ### The projection -/

/-- The loop of `_project_referral_expiry`. -/
def projectLoop (cursor remaining : ℤ) : List Interval → ℤ
  | [] => cursor + remaining
  | i :: l =>
    if i.2 ≤ cursor then projectLoop cursor remaining l
    else if i.1 > cursor then
      if remaining ≤ i.1 - cursor then cursor + remaining
      else projectLoop (max cursor i.2) (remaining - (i.1 - cursor)) l
    else projectLoop (max cursor i.2) remaining l

/-- `_project_referral_expiry`. -/
def projectReferralExpiry (reference remaining : ℤ) (intervals : List Interval) : Option ℤ :=
  if remaining ≤ 0 then none else some (projectLoop reference remaining intervals)

theorem covers_cons_of_le {i : Interval} (l : List Interval) {t : ℤ} (h : i.2 ≤ t) :
    covers l t ↔ covers (i :: l) t := by
  rw [covers_cons]
  exact ⟨Or.inr, fun h1 => h1.resolve_left (by omega)⟩

/-- Before the start of the first interval nothing is covered. -/
theorem SortedDisjoint.not_covers {i : Interval} {l : List Interval} (h : SortedDisjoint (i :: l)) {t : ℤ}
    (ht : t < i.1) : ¬ covers (i :: l) t := by
  rintro ⟨j, hj, h1, -⟩
  rcases List.mem_cons.mp hj with rfl | hj
  · omega
  · have := (List.pairwise_cons.mp h.sorted).1 j hj
    omega

/-- The walk stops where the remaining time is used up. -/
theorem projectLoop_runsOutAt : ∀ {l : List Interval}, SortedDisjoint l → ∀ (cursor : ℤ) {remaining : ℤ},
    0 < remaining → RunsOutAt (covers l) cursor remaining (projectLoop cursor remaining l)
  | [], _, cursor, remaining, hr => .of_open hr fun t _ _ => covers_nil t
  | i :: l, h, cursor, remaining, hr => by
    have hf := h.forward i List.mem_cons_self
    unfold projectLoop
    split_ifs with h1 h2 h3
    · exact (projectLoop_runsOutAt h.tail cursor hr).congr fun t ht => covers_cons_of_le l (h1.trans ht)
    · exact .of_open hr fun t _ h4 => h.not_covers (by omega)
    · -- the interval starts after the cursor: the gap is used up, the interval skipped
      have ho : openTicks (covers (i :: l)) cursor i.2 = i.1 - cursor := by
        have hgap : openTicks (covers (i :: l)) cursor i.1 = i.1 - cursor :=
          openTicks_of_open _ (le_of_lt h2) fun t _ h4 => h.not_covers h4
        have hskip : openTicks (covers (i :: l)) i.1 i.2 = 0 :=
          openTicks_of_covered _ fun t h4 h5 => (covers_cons i l t).mpr (Or.inl ⟨h4, h5⟩)
        calc openTicks (covers (i :: l)) cursor i.2
            = openTicks (covers (i :: l)) cursor i.1 + openTicks (covers (i :: l)) i.1 i.2 :=
              (openTicks_add _ (le_of_lt h2) hf).symm
          _ = i.1 - cursor := by rw [hgap, hskip, add_zero]
      rw [max_eq_right (by omega)]
      have hleft : 0 < remaining - (i.1 - cursor) := by omega
      have ih := (projectLoop_runsOutAt h.tail i.2 hleft).congr fun t ht => covers_cons_of_le l ht
      have := ih.earlier hleft (r := cursor) (by omega)
      rwa [ho, sub_add_cancel] at this
    · -- the cursor is in the interval: skip to its end
      have ho : openTicks (covers (i :: l)) cursor i.2 = 0 :=
        openTicks_of_covered _ fun t h4 h5 => (covers_cons i l t).mpr (Or.inl ⟨by omega, h5⟩)
      rw [max_eq_right (by omega)]
      have ih := (projectLoop_runsOutAt h.tail i.2 hr).congr fun t ht => covers_cons_of_le l ht
      have := ih.earlier hr (r := cursor) (by omega)
      rwa [ho, add_zero] at this

/-- With nothing left there is no expiry; otherwise it is where the uncovered
time used up is all that is left. -/
theorem projectReferralExpiry_eq_none (r b : ℤ) (l : List Interval) :
    projectReferralExpiry r b l = none ↔ b ≤ 0 := by
  unfold projectReferralExpiry
  split_ifs with h <;> simp [h]

theorem projectReferralExpiry_eq_some {c : Coverage} {r b x : ℤ} :
    projectReferralExpiry r b c.intervals = some x ↔ 0 < b ∧ RunsOutAt c.covered r b x := by
  unfold projectReferralExpiry
  split_ifs with h
  · simp only [false_iff, not_and]
    omega
  · have hr := projectLoop_runsOutAt c.ok r (not_le.mp h)
    rw [Option.some_inj]
    constructor
    · rintro rfl
      exact ⟨not_le.mp h, hr⟩
    · exact fun hx => hr.unique hx.2

/-! ### The balance -/

/-- What is left of a balance after the uncovered time of `[start, stop)`. -/
def consume (intervals : List Interval) (start stop balance : ℤ) : ℤ :=
  max 0 (balance - max 0 (stop - start - coveredSeconds start stop intervals))

/-- The balance just before a grant; there is no cursor before the first. -/
def balanceBefore (intervals : List Interval) (cursor : Option ℤ) (grantedAt balance : ℤ) : ℤ :=
  match cursor with
  | some c => if balance > 0 then consume intervals c grantedAt balance else balance
  | none => balance

/-- The loop of `_calculate_referral_expiry` over the rewards: the cursor (the
last grant not after the reference date) and the balance. -/
def grantLoop (intervals : List Interval) (reference : ℤ) :
    List (ℤ × ℤ) → Option ℤ → ℤ → Option ℤ × ℤ
  | [], cursor, balance => (cursor, balance)
  | (grantedAt, days) :: l, cursor, balance =>
    if grantedAt > reference then (cursor, balance)
    else
      grantLoop intervals reference l (some grantedAt)
        (balanceBefore intervals cursor grantedAt balance + days * day)

/-- The balance at the reference date, from the cursor and the balance there. -/
def settle (intervals : List Interval) (reference cursor balance : ℤ) : ℤ :=
  if balance > 0 ∧ reference > cursor then consume intervals cursor reference balance else balance

/-- `_calculate_referral_expiry`. -/
def calculateReferralExpiry (rewards : List (ℤ × ℤ)) (intervals : List Interval) (reference : ℤ) :
    Option ℤ :=
  match grantLoop intervals reference rewards none 0 with
  | (none, _) => none
  | (some cursor, balance) =>
    projectReferralExpiry reference (settle intervals reference cursor balance) intervals

/-- Granted rewards, each the instant and the days, in the order granted. -/
structure RewardHistory where
  rewards : List (ℤ × ℤ)
  sorted : rewards.Pairwise fun p q => p.1 ≤ q.1
  positive : ∀ p ∈ rewards, 0 < p.2

/-- A reward as a filling of the bucket: the days in microseconds. -/
def deposit (p : ℤ × ℤ) : ℤ × ℤ := (p.1, p.2 * day)

/-- The referral balance at `r`, simulated microsecond by microsecond from the
first grant on: each grant not after `r` adds its days, and every microsecond
outside Apple coverage takes one off while the balance is positive. -/
def simulatedBalance (rewards : List (ℤ × ℤ)) (c : Coverage) (r : ℤ) : ℤ :=
  match rewards with
  | [] => 0
  | (g, _) :: _ => if r < g then 0 else level c.covered (rewards.map deposit) g (r - g).toNat

theorem day_pos : 0 < day := by decide

theorem deposit_pos {p : ℤ × ℤ} (h : 0 < p.2) : 0 < (deposit p).2 := mul_pos h day_pos

theorem deposits_nonneg {p : List (ℤ × ℤ)} (h : ∀ x ∈ p, 0 < x.2) : ∀ d ∈ p.map deposit, 0 ≤ d.2 := by
  intro d hd
  obtain ⟨x, hx, rfl⟩ := List.mem_map.mp hd
  exact le_of_lt (deposit_pos (h x hx))

theorem deposits_time {p : List (ℤ × ℤ)} {q : ℤ → Prop} (h : ∀ x ∈ p, q x.1) : ∀ d ∈ p.map deposit, q d.1 := by
  intro d hd
  obtain ⟨x, hx, rfl⟩ := List.mem_map.mp hd
  exact h x hx

theorem consume_eq (c : Coverage) {s t b : ℤ} (h : s ≤ t) :
    consume c.intervals s t b = max 0 (b - c.uncovered s t) := by
  rw [consume, c.elapsed_eq h, max_eq_right (c.uncovered_nonneg s t)]

/-- A balance of zero stays zero, so the guards of the code do not matter. -/
theorem balanceBefore_eq (c : Coverage) {s t b : ℤ} (h : s ≤ t) (hb : 0 ≤ b) :
    balanceBefore c.intervals (some s) t b = max 0 (b - c.uncovered s t) := by
  have := c.uncovered_nonneg s t
  simp only [balanceBefore, consume_eq c h]
  split_ifs <;> omega

theorem settle_eq (c : Coverage) {s t b : ℤ} (h : s ≤ t) (hb : 0 ≤ b) :
    settle c.intervals t s b = max 0 (b - c.uncovered s t) := by
  have := c.uncovered_nonneg s t
  rcases eq_or_lt_of_le h with rfl | hlt
  · simp [settle, hb]
  · simp only [settle, consume_eq c h]
    split_ifs <;> omega

/-- Up to a later instant, with no grant in between, the simulated balance
drains by the uncovered time. -/
theorem level_later (c : Coverage) {ds : List (ℤ × ℤ)} (hd : ∀ d ∈ ds, 0 ≤ d.2) {o s t : ℤ} (ho : o ≤ s)
    (hst : s ≤ t) (h : ∀ d ∈ ds, d.1 ≤ s) : level c.covered ds o (t - o).toNat =
      max 0 (level c.covered ds o (s - o).toNat - c.uncovered s t) := by
  have hs : o + ((s - o).toNat : ℤ) = s := by omega
  have ht : s + ((t - s).toNat : ℤ) = t := by omega
  calc level c.covered ds o (t - o).toNat
      = level c.covered ds o ((s - o).toNat + (t - s).toNat) := by congr 1; omega
    _ = drain c.covered s (t - s).toNat (level c.covered ds o (s - o).toNat) := by
        rw [level_eq_drain c.covered (by rwa [hs]), hs]
    _ = max 0 (level c.covered ds o (s - o).toNat - c.uncovered s t) := by
        rw [drain_eq c.covered s (level_nonneg c.covered hd o _), ht]

/-- The loop carries the level of the bucket: if the balance at the cursor is
the level that the rewards `p` already read give there, what the loop and the
last settlement make of the rewards `l` still to read is the level at the
reference date that both give. -/
theorem grantLoop_level (c : Coverage) {o r : ℤ} : ∀ {l p : List (ℤ × ℤ)} {cur : ℤ}, o ≤ cur → cur ≤ r →
    (∀ x ∈ p, x.1 ≤ cur) → (∀ x ∈ l, cur ≤ x.1) → l.Pairwise (fun x y => x.1 ≤ y.1) →
    (∀ x ∈ p ++ l, 0 < x.2) →
    ∃ cur' b', grantLoop c.intervals r l (some cur) (level c.covered (p.map deposit) o (cur - o).toNat) =
        (some cur', b') ∧
      settle c.intervals r cur' b' = level c.covered ((p ++ l).map deposit) o (r - o).toNat
  | [], p, cur, ho, hr, hp, _, _, hpos => by
    have hd := deposits_nonneg (p := p) fun x hx => hpos x (List.mem_append_left _ hx)
    refine ⟨cur, _, rfl, ?_⟩
    rw [settle_eq c hr (level_nonneg _ hd _ _), List.append_nil,
      level_later c hd ho hr (deposits_time (q := (· ≤ cur)) hp)]
  | (g, n) :: l, p, cur, ho, hr, hp, hl, hs, hpos => by
    have hd := deposits_nonneg (p := p) fun x hx => hpos x (List.mem_append_left _ hx)
    have hg := hl _ List.mem_cons_self
    obtain ⟨hs1, hs2⟩ := List.pairwise_cons.mp hs
    rw [grantLoop]
    by_cases hgr : g > r
    · -- this grant and all after it are later than the reference date
      refine ⟨cur, _, if_pos hgr, ?_⟩
      have hlater : ∀ d ∈ ((g, n) :: l).map deposit, o + ((r - o).toNat : ℤ) < d.1 := by
        refine deposits_time (q := fun t => o + ((r - o).toNat : ℤ) < t) fun x hx => ?_
        rcases List.mem_cons.mp hx with rfl | hx
        · simp only; omega
        · have := hs1 x hx; simp only at this; omega
      rw [settle_eq c hr (level_nonneg _ hd _ _), List.map_append, level_append _ hlater,
        level_later c hd ho hr (deposits_time (q := (· ≤ cur)) hp)]
    · have hnow : level c.covered ((p ++ [(g, n)]).map deposit) o (g - o).toNat =
          max 0 (level c.covered (p.map deposit) o (cur - o).toNat - c.uncovered cur g) + n * day := by
        simp only at hg
        calc level c.covered ((p ++ [(g, n)]).map deposit) o (g - o).toNat
            = level c.covered (p.map deposit) o (g - o).toNat + n * day := by
              rw [List.map_append, List.map_singleton, deposit, level_append_now c.covered _ _ (by omega)]
          _ = _ := by rw [level_later c hd ho hg (deposits_time (q := (· ≤ cur)) hp)]
      have ih := grantLoop_level c (o := o) (r := r) (l := l) (p := p ++ [(g, n)])
        (ho.trans hg) (by omega) (fun x hx => ?_) hs1 hs2 (by simpa using hpos)
      · rw [hnow] at ih
        rw [if_neg hgr, balanceBefore_eq c hg (level_nonneg c.covered hd o _)]
        simpa using ih
      · rcases List.mem_append.mp hx with hx | hx
        · exact (hp x hx).trans hg
        · rw [List.mem_singleton.mp hx]

/-- `_calculate_referral_expiry` projects the simulated balance. -/
theorem calculateReferralExpiry_eq (h : RewardHistory) (c : Coverage) (r : ℤ) :
    calculateReferralExpiry h.rewards c.intervals r =
      projectReferralExpiry r (simulatedBalance h.rewards c r) c.intervals := by
  obtain ⟨rewards, hs, hpos⟩ := h
  cases rewards with
  | nil => rfl
  | cons x l =>
    obtain ⟨g, n⟩ := x
    obtain ⟨hs1, hs2⟩ := List.pairwise_cons.mp hs
    simp only [calculateReferralExpiry, simulatedBalance, grantLoop]
    by_cases hr : r < g
    · rw [if_pos hr, if_pos hr]
      rfl
    · rw [if_neg hr, if_neg hr]
      obtain ⟨cur, b, h1, h2⟩ := grantLoop_level c (o := g) (r := r) (l := l) (p := [(g, n)]) le_rfl
        (not_lt.mp hr) (by simp) hs1 hs2 (by simpa using hpos)
      have h0 : level c.covered ([(g, n)].map deposit) g (g - g).toNat =
          balanceBefore c.intervals none g 0 + n * day := by
        simp [level, filledAt, deposit, balanceBefore]
      rw [h0] at h1
      simp only [h1, h2]
      rfl

theorem simulatedBalance_of_lt {rewards : List (ℤ × ℤ)} {c : Coverage} {r : ℤ} (h : ∀ p ∈ rewards, r < p.1) :
    simulatedBalance rewards c r = 0 := by
  cases rewards with
  | nil => rfl
  | cons x l => exact if_pos (h x List.mem_cons_self)

theorem simulatedBalance_nonneg (h : RewardHistory) (c : Coverage) (r : ℤ) :
    0 ≤ simulatedBalance h.rewards c r := by
  unfold simulatedBalance
  split
  · exact le_rfl
  · split_ifs
    · exact le_rfl
    · exact level_nonneg c.covered (deposits_nonneg h.positive) _ _

/-- The simulation may start at any instant before the first grant. -/
theorem simulatedBalance_eq_level (h : RewardHistory) (c : Coverage) {o r : ℤ} (ho : ∀ p ∈ h.rewards, o ≤ p.1)
    (hor : o ≤ r) : simulatedBalance h.rewards c r = level c.covered (h.rewards.map deposit) o (r - o).toNat := by
  by_cases hlate : ∀ p ∈ h.rewards, r < p.1
  · have hd := deposits_time (q := fun t => o + ((r - o).toNat : ℤ) < t) fun p hp => by
      have := hlate p hp
      omega
    rw [simulatedBalance_of_lt hlate, ← List.nil_append (h.rewards.map deposit), level_append c.covered hd,
      level_nil]
  · obtain ⟨rewards, hs, hpos⟩ := h
    cases rewards with
    | nil => simp at hlate
    | cons x l =>
      obtain ⟨hs1, -⟩ := List.pairwise_cons.mp hs
      have hg : x.1 ≤ r := by
        by_contra hgr
        refine hlate fun p hp => ?_
        rcases List.mem_cons.mp hp with rfl | hp
        · omega
        · have := hs1 p hp
          omega
      have hox := ho x List.mem_cons_self
      have hd : ∀ d ∈ (x :: l).map deposit, x.1 ≤ d.1 := by
        refine deposits_time (q := (x.1 ≤ ·)) fun p hp => ?_
        rcases List.mem_cons.mp hp with rfl | hp
        · exact le_rfl
        · exact hs1 p hp
      have hshift := level_origin c.covered hd (x.1 - o).toNat (r - x.1).toNat
      have h1 : x.1 - ((x.1 - o).toNat : ℤ) = o := by omega
      have h2 : (r - x.1).toNat + (x.1 - o).toNat = (r - o).toNat := by omega
      rw [h1, h2] at hshift
      rw [hshift]
      exact if_neg (not_lt.mpr hg)

/-- An instant not after `r` and not after any grant. -/
def RewardHistory.origin (h : RewardHistory) (r : ℤ) : ℤ := (h.rewards.map (·.1)).foldr min r

theorem foldr_min_le : ∀ (l : List ℤ) (r : ℤ), l.foldr min r ≤ r ∧ ∀ x ∈ l, l.foldr min r ≤ x
  | [], r => by simp
  | a :: l, r => by
    obtain ⟨h1, h2⟩ := foldr_min_le l r
    rw [List.foldr_cons]
    refine ⟨(min_le_right _ _).trans h1, fun x hx => ?_⟩
    rcases List.mem_cons.mp hx with rfl | hx
    · exact min_le_left _ _
    · exact (min_le_right _ _).trans (h2 x hx)

theorem RewardHistory.origin_le (h : RewardHistory) (r : ℤ) : h.origin r ≤ r := (foldr_min_le _ r).1

theorem RewardHistory.origin_le_grant (h : RewardHistory) (r : ℤ) {p : ℤ × ℤ} (hp : p ∈ h.rewards) :
    h.origin r ≤ p.1 :=
  (foldr_min_le _ r).2 p.1 (List.mem_map_of_mem hp)

/-- **The expiry is the simulated one.** `_calculate_referral_expiry` gives
none if and only if the simulated balance at the reference date is zero (or
no reward was granted by then), and otherwise the first instant after the
reference date by which the uncovered time has used the balance up. -/
theorem calculateReferralExpiry_simulation (h : RewardHistory) (c : Coverage) (r : ℤ) :
    (calculateReferralExpiry h.rewards c.intervals r = none ↔
      simulatedBalance h.rewards c r = 0 ∨ ∀ p ∈ h.rewards, r < p.1) ∧
    ∀ x, calculateReferralExpiry h.rewards c.intervals r = some x →
      IsLeast {y | r < y ∧ c.uncovered r y = simulatedBalance h.rewards c r} x := by
  rw [calculateReferralExpiry_eq]
  refine ⟨?_, fun x hx => (projectReferralExpiry_eq_some.mp hx).2⟩
  rw [projectReferralExpiry_eq_none]
  have hnn := simulatedBalance_nonneg h c r
  constructor
  · intro hle
    exact Or.inl (by omega)
  · rintro (h0 | hlate)
    · omega
    · exact le_of_eq (simulatedBalance_of_lt hlate)

/-! ### Later readings -/

/-- With no reward dated after `r`, the balance later on is what the
uncovered time since `r` leaves. -/
theorem simulatedBalance_later (h : RewardHistory) (c : Coverage) {r t : ℤ} (hrt : r ≤ t)
    (hr : ∀ p ∈ h.rewards, p.1 ≤ r) :
    simulatedBalance h.rewards c t = max 0 (simulatedBalance h.rewards c r - c.uncovered r t) := by
  have hle := h.origin_le r
  rw [simulatedBalance_eq_level h c (fun p hp => h.origin_le_grant r hp) (hle.trans hrt),
    simulatedBalance_eq_level h c (fun p hp => h.origin_le_grant r hp) hle]
  exact level_later c (deposits_nonneg h.positive) hle hrt (deposits_time (q := (· ≤ r)) hr)

/-- The expiry does not drift: read again later, it is the same instant until
that instant is reached, and none from then on. -/
theorem calculateReferralExpiry_later (h : RewardHistory) (c : Coverage) {r t : ℤ} (hrt : r ≤ t)
    (hr : ∀ p ∈ h.rewards, p.1 ≤ r) : calculateReferralExpiry h.rewards c.intervals t =
      (calculateReferralExpiry h.rewards c.intervals r).filter fun x => t < x := by
  rw [calculateReferralExpiry_eq, calculateReferralExpiry_eq, simulatedBalance_later h c hrt hr]
  set b := simulatedBalance h.rewards c r with hb
  have hu := c.uncovered_nonneg r t
  cases hx : projectReferralExpiry r b c.intervals with
  | none =>
    rw [projectReferralExpiry_eq_none] at hx
    rw [Option.filter_none, projectReferralExpiry_eq_none]
    omega
  | some x =>
    obtain ⟨hpos, hrun⟩ := projectReferralExpiry_eq_some.mp hx
    by_cases htx : t < x
    · have hleft := hrun.left_pos hpos hrt htx
      rw [Option.filter_some_pos (by simpa using htx), max_eq_right (le_of_lt hleft),
        projectReferralExpiry_eq_some]
      exact ⟨hleft, hrun.later hrt htx⟩
    · have hleft := hrun.left_nonpos (not_lt.mp htx)
      rw [Option.filter_some_neg (by simpa using htx), projectReferralExpiry_eq_none]
      exact max_le le_rfl hleft

/-! ### One more reward -/

/-- The balance of a single reward. -/
theorem simulatedBalance_single (c : Coverage) {g n r : ℤ} (hn : 0 < n) (hr : g ≤ r) :
    simulatedBalance [(g, n)] c r = max 0 (n * day - c.uncovered g r) := by
  have hd : ∀ d ∈ [(g, n)].map deposit, 0 ≤ d.2 := deposits_nonneg (by simpa using hn)
  have hg : level c.covered ([(g, n)].map deposit) g (g - g).toNat = n * day := by
    simp [level, filledAt, deposit]
  rw [simulatedBalance, if_neg (not_lt.mpr hr), level_later c hd le_rfl hr (by simp [deposit]), hg]

theorem filledAt_perm {ds es : List (ℤ × ℤ)} (h : ds.Perm es) (t : ℤ) : filledAt ds t = filledAt es t :=
  ((h.filter _).map _).sum_eq

/-- A further reward never lowers the balance. -/
theorem simulatedBalance_grant {h h' : RewardHistory} {g n : ℤ} (hp : h'.rewards.Perm ((g, n) :: h.rewards))
    (c : Coverage) (r : ℤ) : simulatedBalance h.rewards c r ≤ simulatedBalance h'.rewards c r := by
  have hn : 0 < n := h'.positive (g, n) (hp.mem_iff.mpr List.mem_cons_self)
  have ho : ∀ p ∈ h.rewards, h'.origin r ≤ p.1 := fun p hp' =>
    h'.origin_le_grant r (hp.mem_iff.mpr (List.mem_cons_of_mem _ hp'))
  rw [simulatedBalance_eq_level h c ho (h'.origin_le r),
    simulatedBalance_eq_level h' c (fun p hp' => h'.origin_le_grant r hp') (h'.origin_le r)]
  refine level_mono c.covered (fun t => ?_) _ _
  rw [filledAt_perm (hp.map deposit) t, List.map_cons]
  have h0 : 0 ≤ filledAt [deposit (g, n)] t :=
    filledAt_nonneg (fun d hd => by rw [List.mem_singleton.mp hd]; exact le_of_lt (deposit_pos hn)) t
  have happ := filledAt_append [deposit (g, n)] (h.rewards.map deposit) t
  rw [List.singleton_append] at happ
  omega

/-! ### More coverage -/

/-- More coverage leaves more of the balance. -/
theorem simulatedBalance_cover (h : RewardHistory) {c d : Coverage} (hcd : ∀ t, c.covered t → d.covered t) (r : ℤ) :
    simulatedBalance h.rewards c r ≤ simulatedBalance h.rewards d r := by
  unfold simulatedBalance
  split
  · exact le_rfl
  · split_ifs
    · exact le_rfl
    · exact level_cover hcd (deposits_nonneg h.positive) _ _

/-- A higher balance under more coverage never runs out earlier. -/
theorem projectReferralExpiry_cover {c d : Coverage} (hcd : ∀ t, c.covered t → d.covered t) {r a b x : ℤ} (hab : a ≤ b)
    (hx : projectReferralExpiry r a c.intervals = some x) :
    ∃ y, projectReferralExpiry r b d.intervals = some y ∧ x ≤ y := by
  obtain ⟨ha, hrun⟩ := projectReferralExpiry_eq_some.mp hx
  cases hy : projectReferralExpiry r b d.intervals with
  | none => rw [projectReferralExpiry_eq_none] at hy; omega
  | some y => exact ⟨y, rfl, RunsOutAt.cover hcd hrun (projectReferralExpiry_eq_some.mp hy).2 ha hab⟩

/-- A higher balance never runs out earlier. -/
theorem projectReferralExpiry_mono (c : Coverage) {r a b x : ℤ} (hab : a ≤ b)
    (hx : projectReferralExpiry r a c.intervals = some x) :
    ∃ y, projectReferralExpiry r b c.intervals = some y ∧ x ≤ y :=
  projectReferralExpiry_cover (fun _ => id) hab hx

/-- More Apple coverage never brings the referral expiry forward. -/
theorem calculateReferralExpiry_cover (h : RewardHistory) {c d : Coverage} (hcd : ∀ t, c.covered t → d.covered t)
    {r x : ℤ} (hx : calculateReferralExpiry h.rewards c.intervals r = some x) :
    ∃ y, calculateReferralExpiry h.rewards d.intervals r = some y ∧ x ≤ y := by
  rw [calculateReferralExpiry_eq] at hx ⊢
  exact projectReferralExpiry_cover hcd (simulatedBalance_cover h hcd r) hx

end FuelNear

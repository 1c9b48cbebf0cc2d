/-
# The Apple coverage is exact

`_load_apple_intervals` merges the intervals of a user's transactions. The
merged list is in order, each interval has an instant, each ends strictly
before the next starts, and together they are the transactions' times: a
real instant lies in one of them exactly when some transaction was paid and
not revoked then. So the fold of `_covered_seconds` over the merged list is
the measure of those times in the stretch (`appleCoverage_exact`).

Key definitions: `appleCoverage`, `appleTime`, `Exact`.
Key theorems: `span_appleCoverage`, `coveredSeconds_eq`, `appleCoverage_exact`.
-/
import FuelNear.Plus.Tables
import FuelNear.Spans

namespace FuelNear
namespace Plus

open Sql Apple Spans MeasureTheory

/-! ### The transactions' times -/

/-- `[purchase_date, min(max(expires_date, grace_period_expires_date),
revocation_date))`; a date that is missing does not count, and a transaction
without an expiry has no time. -/
def appleTime (r : AppleRow) : Set ℝ :=
  match r.expiresDate with
  | none => ∅
  | some e =>
    let paid : ℝ := r.gracePeriodExpiresDate.elim e fun g => max e g
    Set.Ico r.purchaseDate (r.revocationDate.elim paid fun v => min paid v)

/-- The times of the transactions together. -/
def appleTimes (rows : List AppleRow) : Set ℝ := {t | ∃ r ∈ rows, t ∈ appleTime r}

/-- The Python part of `_load_apple_intervals`, on the rows of the query. -/
def appleCoverage (rows : List AppleRow) : Coverage :=
  Coverage.ofIntervals (rows.filterMap appleInterval) fun _ hi => by
    obtain ⟨_, _, h⟩ := List.mem_filterMap.mp hi
    exact appleInterval_proper h

theorem loadAppleIntervals_eq (t : AppleTable) (userId : ℤ) :
    loadAppleIntervals t userId = appleCoverage (t.rows.filter fun r => r.userId = some userId) := rfl

/-- Where the time of a transaction with an expiry ends. -/
def appleStop (r : AppleRow) (e : ℤ) : ℤ :=
  let paid := r.gracePeriodExpiresDate.elim e fun g => max e g
  r.revocationDate.elim paid fun v => min paid v

theorem appleTime_eq {r : AppleRow} {e : ℤ} (h : r.expiresDate = some e) :
    appleTime r = Set.Ico (r.purchaseDate : ℝ) (appleStop r e) := by
  unfold appleTime appleStop
  rw [h]
  cases r.gracePeriodExpiresDate <;> cases r.revocationDate <;> simp

theorem appleInterval_eq {r : AppleRow} {e : ℤ} (h : r.expiresDate = some e) :
    appleInterval r = if appleStop r e > r.purchaseDate then some (r.purchaseDate, appleStop r e) else none := by
  unfold appleInterval appleStop
  rw [h]
  cases r.gracePeriodExpiresDate <;> cases r.revocationDate <;> rfl

/-- A transaction has an interval when its time has an instant, and then the
interval is the time. -/
theorem mem_appleTime {r : AppleRow} {t : ℝ} :
    t ∈ appleTime r ↔ ∃ i, appleInterval r = some i ∧ t ∈ Set.Ico (i.1 : ℝ) i.2 := by
  cases he : r.expiresDate with
  | none => simp [appleTime, appleInterval, he]
  | some e =>
    rw [appleTime_eq he, appleInterval_eq he]
    by_cases hlt : appleStop r e > r.purchaseDate
    · simp [hlt]
    · simp [hlt]

theorem span_filterMap_appleInterval (rows : List AppleRow) :
    span (toReal (rows.filterMap appleInterval)) = appleTimes rows := by
  ext t
  simp only [span, toReal, appleTimes, Set.mem_ofPred_eq, mem_appleTime, List.mem_map, List.mem_filterMap]
  constructor
  · rintro ⟨_, ⟨i, ⟨r, hr, hi⟩, rfl⟩, ht⟩
    exact ⟨r, hr, i, hi, ht⟩
  · rintro ⟨r, hr, i, hi, ht⟩
    exact ⟨_, ⟨i, ⟨r, hr, hi⟩, rfl⟩, ht⟩

/-! ### The merged list -/

/-- **The merged intervals have the transactions' times.** -/
theorem span_appleCoverage (rows : List AppleRow) :
    span (toReal (appleCoverage rows).intervals) = appleTimes rows := by
  rw [← span_filterMap_appleInterval]
  refine span_toReal_congr (Set.ext fun t => ?_)
  exact Coverage.ofIntervals_covered _ _ t

theorem foldl_coveredStep_eq (start stop : ℤ) : ∀ (l : List Interval) (covered : ℤ),
    l.foldl (coveredStep start stop) covered = covered + sharedLength start stop l
  | [], covered => by simp
  | i :: l, covered => by
    rw [List.foldl_cons, foldl_coveredStep_eq start stop l, coveredStep_eq, sharedLength_cons, add_assoc]

theorem sharedLength_self (a : ℤ) : ∀ l : List Interval, sharedLength a a l = 0
  | [] => rfl
  | i :: l => by
    rw [sharedLength_cons, sharedLength_self a l]
    omega

/-- `_covered_seconds` adds up what the intervals share with the stretch. -/
theorem coveredSeconds_eq {start stop : ℤ} (h : start ≤ stop) (l : List Interval) :
    coveredSeconds start stop l = sharedLength start stop l := by
  unfold coveredSeconds
  split_ifs with hle
  · rw [show stop = start by omega, sharedLength_self]
  · rw [foldl_coveredStep_eq, zero_add]

theorem coveredSeconds_nonneg {start stop : ℤ} (h : start ≤ stop) (l : List Interval) :
    0 ≤ coveredSeconds start stop l := by
  rw [coveredSeconds_eq h]
  exact sharedLength_nonneg start stop l

/-- On a coverage, `_covered_seconds` is the measure of the covered instants
of the stretch. -/
theorem volume_coverage (c : Coverage) {start stop : ℤ} (h : start ≤ stop) :
    volume (span (toReal c.intervals) ∩ Set.Ico (start : ℝ) stop) =
      ENNReal.ofReal (coveredSeconds start stop c.intervals) := by
  rw [volume_span_inter _ _ (disjoint_toReal c.ok.disjoint), sharedLength_toReal, coveredSeconds_eq h]

/-! ### Exactness -/

/-- What the merged list of the transactions is. Times are in microseconds,
so `covered` measures in microseconds; `ENNReal.ofReal` loses nothing of a number
that is not negative. -/
structure Exact (rows : List AppleRow) (l : List Interval) : Prop where
  sorted : l.Pairwise fun i j => i.1 ≤ j.1
  nonempty : ∀ i ∈ l, i.1 < i.2
  apart : l.Pairwise fun i j => i.2 < j.1
  union : {t : ℝ | ∃ i ∈ l, t ∈ Set.Ico (i.1 : ℝ) i.2} = appleTimes rows
  covered : ∀ start stop : ℤ, start ≤ stop →
    0 ≤ coveredSeconds start stop l ∧
      volume (appleTimes rows ∩ Set.Ico (start : ℝ) stop) = ENNReal.ofReal (coveredSeconds start stop l)

theorem appleCoverage_exact (rows : List AppleRow) : Exact rows (appleCoverage rows).intervals := by
  have hproper : ∀ i ∈ rows.filterMap appleInterval, i.1 < i.2 := fun i hi => by
    obtain ⟨_, _, h⟩ := List.mem_filterMap.mp hi
    exact appleInterval_proper h
  obtain ⟨hapart, hnonempty⟩ := mergeIntervals_merged hproper
  refine ⟨(appleCoverage rows).ok.sorted, hnonempty, hapart, ?_, fun start stop h => ?_⟩
  · rw [← span_appleCoverage]
    simp [span, toReal]
  · rw [← span_appleCoverage]
    exact ⟨coveredSeconds_nonneg h _, volume_coverage _ h⟩

/-- **The coverage of every list of a user's transactions is exact**, and
`_load_apple_intervals` of a table with these transactions is that coverage. -/
theorem loadAppleIntervals_exact (rows : List AppleRow) :
    Exact rows (appleCoverage rows).intervals ∧
      ∀ (t : AppleTable) (userId : ℤ), (t.rows.filter fun r => r.userId = some userId) = rows →
        loadAppleIntervals t userId = appleCoverage rows :=
  ⟨appleCoverage_exact rows, fun t userId h => by rw [loadAppleIntervals_eq, h]⟩

end Plus
end FuelNear

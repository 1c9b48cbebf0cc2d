/-
# Apple coverage: intervals, their merge and the covered time

An instant is an integer, exact, in microseconds (the resolution of the
code's datetimes). An interval `(start, end)` is the time `[start, end)`.
`Coverage` is what `_load_apple_intervals` hands out: intervals sorted by
start, no two of them with an instant in common. `mergeIntervals` is its
merge loop, which makes a `Coverage` of any list of intervals with
`start < end`. On a `Coverage` the code's `_covered_seconds` is the part of
the stretch that the meter of open ticks does not count
(`coveredSeconds_add_openTicks`).

Key definitions: `Interval`, `covers`, `coveredSeconds`, `mergeIntervals`,
`Coverage`.
Key theorems: `coveredSeconds_add_openTicks`, `Coverage.ofIntervals`.
-/
import FuelNear.Meter
import Mathlib.Data.List.Sort
import Mathlib.Order.CompletePartialOrder

namespace FuelNear

/-- `timedelta(days=1)`. -/
def day : ℤ := 86400 * 1000000

/-- An Apple coverage interval: start and end. -/
abbrev Interval := ℤ × ℤ

open Meter

/-- Some interval covers the instant. -/
def covers (l : List Interval) (t : ℤ) : Prop := ∃ i ∈ l, i.1 ≤ t ∧ t < i.2

instance (l : List Interval) : DecidablePred (covers l) := fun _ => by
  unfold covers; infer_instance

theorem covers_nil (t : ℤ) : ¬ covers [] t := by simp [covers]

theorem covers_cons (i : Interval) (l : List Interval) (t : ℤ) :
    covers (i :: l) t ↔ (i.1 ≤ t ∧ t < i.2) ∨ covers l t := by
  simp [covers]

/-! ### Covered time -/

/-- One turn of the loop of `_covered_seconds`. -/
def coveredStep (start stop : ℤ) (covered : ℤ) (i : Interval) : ℤ :=
  let overlapStart := max start i.1
  let overlapEnd := min stop i.2
  if overlapEnd > overlapStart then covered + (overlapEnd - overlapStart) else covered

/-- `_covered_seconds`, in microseconds. -/
def coveredSeconds (start stop : ℤ) (intervals : List Interval) : ℤ :=
  if stop ≤ start then 0 else intervals.foldl (coveredStep start stop) 0

theorem coveredStep_eq (start stop : ℤ) (covered : ℤ) (i : Interval) :
    coveredStep start stop covered i = covered + max 0 (min stop i.2 - max start i.1) := by
  unfold coveredStep
  dsimp only
  split_ifs <;> omega

/-- Sorted by start, every interval runs forward, and no two share an instant. -/
structure SortedDisjoint (l : List Interval) : Prop where
  sorted : l.Pairwise fun i j => i.1 ≤ j.1
  forward : ∀ i ∈ l, i.1 ≤ i.2
  disjoint : l.Pairwise fun i j => Disjoint (Set.Ico i.1 i.2) (Set.Ico j.1 j.2)

theorem SortedDisjoint.tail {i : Interval} {l : List Interval} (h : SortedDisjoint (i :: l)) :
    SortedDisjoint l :=
  ⟨(List.pairwise_cons.mp h.sorted).2, fun j hj => h.forward j (List.mem_cons_of_mem _ hj),
    (List.pairwise_cons.mp h.disjoint).2⟩

/-- What the first interval covers no later one does. -/
theorem SortedDisjoint.head_not_covered {i : Interval} {l : List Interval} (h : SortedDisjoint (i :: l))
    {t : ℤ} (h1 : i.1 ≤ t) (h2 : t < i.2) : ¬ covers l t := by
  rintro ⟨j, hj, h3, h4⟩
  exact Set.disjoint_left.mp ((List.pairwise_cons.mp h.disjoint).1 j hj) ⟨h1, h2⟩ ⟨h3, h4⟩

theorem foldl_coveredStep {start stop : ℤ} (hs : start ≤ stop) : ∀ {l : List Interval},
    SortedDisjoint l → ∀ covered, l.foldl (coveredStep start stop) covered + openTicks (covers l) start stop =
      covered + (stop - start)
  | [], _, covered => by
    rw [List.foldl_nil, openTicks_of_open _ hs fun t _ _ => covers_nil t]
  | i :: l, h, covered => by
    have ih := foldl_coveredStep hs h.tail (coveredStep start stop covered i)
    have hc := openTicks_cover (covers l) (covers (i :: l)) (a := start) (b := stop) (s := i.1) (e := i.2)
      (covers_cons i l) fun t => h.head_not_covered
    rw [coveredStep_eq] at ih
    rw [List.foldl_cons, coveredStep_eq]
    omega

/-- Covered and open time make up the stretch. -/
theorem coveredSeconds_add_openTicks {l : List Interval} (h : SortedDisjoint l) {start stop : ℤ}
    (hs : start ≤ stop) : coveredSeconds start stop l + openTicks (covers l) start stop = stop - start := by
  unfold coveredSeconds
  split_ifs with hle
  · have : start = stop := by omega
    subst this
    simp
  · rw [foldl_coveredStep hs h 0, zero_add]

/-! ### The merge -/

/-- One turn of the merge loop of `_load_apple_intervals`; `merged` is in
reverse, its last interval first. -/
def mergeStep (merged : List Interval) (i : Interval) : List Interval :=
  match merged with
  | [] => [i]
  | last :: before =>
    if i.1 > last.2 then i :: last :: before else (last.1, max last.2 i.2) :: before

/-- `intervals.sort(key=lambda item: (item[0], item[1]))`. -/
def sortIntervals (l : List Interval) : List Interval :=
  l.insertionSort fun i j => i.1 < j.1 ∨ (i.1 = j.1 ∧ i.2 ≤ j.2)

/-- The sort and the merge loop of `_load_apple_intervals`. -/
def mergeIntervals (l : List Interval) : List Interval := ((sortIntervals l).foldl mergeStep []).reverse

/-- What the merge loop keeps: every interval has an instant, each ends
before the next starts (the list is in reverse), and none starts after `s`. -/
structure Merged (s : ℤ) (m : List Interval) : Prop where
  apart : m.Pairwise fun i j => j.2 < i.1
  proper : ∀ i ∈ m, i.1 < i.2
  start_le : ∀ i ∈ m, i.1 ≤ s

theorem Merged.step {s : ℤ} {m : List Interval} (h : Merged s m) {i : Interval} (hi : i.1 < i.2)
    (hs : s ≤ i.1) : Merged i.1 (mergeStep m i) := by
  cases m with
  | nil => exact ⟨List.pairwise_singleton _ _, by simpa [mergeStep] using hi, by simp [mergeStep]⟩
  | cons last before =>
    obtain ⟨ha, hb⟩ := List.pairwise_cons.mp h.apart
    have hp := h.proper last List.mem_cons_self
    have hlast := h.start_le last List.mem_cons_self
    have hpb : ∀ j ∈ before, j.1 < j.2 := fun j hj => h.proper j (List.mem_cons_of_mem _ hj)
    unfold mergeStep
    dsimp only
    split_ifs with hgt
    · refine ⟨List.pairwise_cons.mpr ⟨fun j hj => ?_, h.apart⟩, fun j hj => ?_, fun j hj => ?_⟩
      · rcases List.mem_cons.mp hj with rfl | hj
        · exact hgt
        · have := ha j hj
          omega
      · rcases List.mem_cons.mp hj with rfl | hj
        · exact hi
        · exact h.proper j hj
      · rcases List.mem_cons.mp hj with rfl | hj
        · exact le_rfl
        · exact (h.start_le j hj).trans hs
    · refine ⟨List.pairwise_cons.mpr ⟨ha, hb⟩, fun j hj => ?_, fun j hj => ?_⟩
      · rcases List.mem_cons.mp hj with rfl | hj
        · exact lt_of_lt_of_le hp (le_max_left _ _)
        · exact hpb j hj
      · rcases List.mem_cons.mp hj with rfl | hj
        · exact hlast.trans hs
        · exact (h.start_le j (List.mem_cons_of_mem _ hj)).trans hs

theorem Merged.foldl : ∀ {l : List Interval} {s : ℤ} {m : List Interval}, Merged s m →
    (∀ i ∈ l, i.1 < i.2) → (∀ i ∈ l, s ≤ i.1) → l.Pairwise (fun i j => i.1 ≤ j.1) →
    ∃ s', Merged s' (l.foldl mergeStep m)
  | [], s, m, h, _, _, _ => ⟨s, h⟩
  | i :: l, s, m, h, hp, hs, hsort => by
    obtain ⟨h1, h2⟩ := List.pairwise_cons.mp hsort
    exact (h.step (hp i List.mem_cons_self) (hs i List.mem_cons_self)).foldl
      (fun j hj => hp j (List.mem_cons_of_mem _ hj)) h1 h2

theorem mem_sortIntervals {l : List Interval} {i : Interval} : i ∈ sortIntervals l ↔ i ∈ l :=
  (List.perm_insertionSort _ l).mem_iff

theorem sortIntervals_sorted (l : List Interval) : (sortIntervals l).Pairwise fun i j => i.1 ≤ j.1 := by
  have : Std.Total fun i j : Interval => i.1 < j.1 ∨ (i.1 = j.1 ∧ i.2 ≤ j.2) := ⟨fun i j => by omega⟩
  have : IsTrans Interval fun i j => i.1 < j.1 ∨ (i.1 = j.1 ∧ i.2 ≤ j.2) := ⟨fun i j k => by omega⟩
  exact (List.pairwise_insertionSort _ l).imp fun h => by omega

/-- The merged intervals of proper ones are proper, and each ends before the
next starts. -/
theorem mergeIntervals_merged {l : List Interval} (h : ∀ i ∈ l, i.1 < i.2) :
    (mergeIntervals l).Pairwise (fun i j => i.2 < j.1) ∧ ∀ i ∈ mergeIntervals l, i.1 < i.2 := by
  have hp : ∀ i ∈ sortIntervals l, i.1 < i.2 := fun i hi => h i (mem_sortIntervals.mp hi)
  have hM : ∃ s, Merged s ((sortIntervals l).foldl mergeStep []) := by
    cases hl : sortIntervals l with
    | nil => exact ⟨0, List.Pairwise.nil, by simp, by simp⟩
    | cons i r =>
      have hsort := sortIntervals_sorted l
      rw [hl] at hp hsort
      refine Merged.foldl (s := i.1) ⟨List.Pairwise.nil, by simp, by simp⟩ hp (fun j hj => ?_) hsort
      rcases List.mem_cons.mp hj with rfl | hj
      · exact le_rfl
      · exact (List.pairwise_cons.mp hsort).1 j hj
  obtain ⟨s, hs⟩ := hM
  refine ⟨?_, fun i hi => hs.proper i (List.mem_reverse.mp hi)⟩
  rw [mergeIntervals, List.pairwise_reverse]
  exact hs.apart

/-- One turn of the merge covers what was covered and the interval. -/
theorem covers_mergeStep {s : ℤ} {m : List Interval} (h : Merged s m) {i : Interval} (hs : s ≤ i.1) (t : ℤ) :
    covers (mergeStep m i) t ↔ covers m t ∨ (i.1 ≤ t ∧ t < i.2) := by
  cases m with
  | nil => simp [mergeStep, covers]
  | cons last before =>
    have hlast := h.start_le last List.mem_cons_self
    unfold mergeStep
    dsimp only
    split_ifs with hgt
    · rw [covers_cons, or_comm]
    · have hjoined : last.1 ≤ t ∧ t < max last.2 i.2 ↔ (last.1 ≤ t ∧ t < last.2) ∨ (i.1 ≤ t ∧ t < i.2) := by omega
      rw [covers_cons, covers_cons, hjoined]
      tauto

theorem covers_foldl_mergeStep : ∀ {l : List Interval} {s : ℤ} {m : List Interval}, Merged s m →
    (∀ i ∈ l, i.1 < i.2) → (∀ i ∈ l, s ≤ i.1) → l.Pairwise (fun i j => i.1 ≤ j.1) → ∀ t,
    covers (l.foldl mergeStep m) t ↔ covers m t ∨ covers l t
  | [], s, m, _, _, _, _, t => by simp [covers]
  | i :: l, s, m, h, hp, hs, hsort, t => by
    obtain ⟨h1, h2⟩ := List.pairwise_cons.mp hsort
    have hi := hp i List.mem_cons_self
    have hsi := hs i List.mem_cons_self
    have ih := covers_foldl_mergeStep (h.step hi hsi) (fun j hj => hp j (List.mem_cons_of_mem _ hj)) h1 h2 t
    rw [List.foldl_cons, ih, covers_mergeStep h hsi, covers_cons, or_assoc]

/-- **The merge covers what the intervals cover.** -/
theorem covers_mergeIntervals {l : List Interval} (h : ∀ i ∈ l, i.1 < i.2) (t : ℤ) :
    covers (mergeIntervals l) t ↔ covers l t := by
  have hmem : ∀ m : List Interval, (∀ i, i ∈ m ↔ i ∈ l) → (covers m t ↔ covers l t) := fun m hm => by
    unfold covers
    simp only [hm]
  have hsorted : covers (sortIntervals l) t ↔ covers l t := hmem _ fun _ => mem_sortIntervals
  have hreverse : covers (mergeIntervals l) t ↔ covers ((sortIntervals l).foldl mergeStep []) t := by
    unfold covers mergeIntervals
    simp only [List.mem_reverse]
  rw [hreverse, ← hsorted]
  have hp : ∀ i ∈ sortIntervals l, i.1 < i.2 := fun i hi => h i (mem_sortIntervals.mp hi)
  have hsort := sortIntervals_sorted l
  cases hl : sortIntervals l with
  | nil => rfl
  | cons i r =>
    rw [hl] at hp hsort
    have hstart : ∀ j ∈ i :: r, i.1 ≤ j.1 := by
      intro j hj
      rcases List.mem_cons.mp hj with rfl | hj
      · exact le_rfl
      · exact (List.pairwise_cons.mp hsort).1 j hj
    rw [covers_foldl_mergeStep (s := i.1) ⟨List.Pairwise.nil, by simp, by simp⟩ hp hstart hsort]
    simp [covers_nil]

theorem SortedDisjoint.of_merged {m : List Interval} (ha : m.Pairwise fun i j => i.2 < j.1)
    (hp : ∀ i ∈ m, i.1 < i.2) : SortedDisjoint m where
  sorted := ha.imp_of_mem fun {i} _ hi _ h => by have := hp i hi; omega
  forward i hi := le_of_lt (hp i hi)
  disjoint := ha.imp fun {i j} h => by
    rw [Set.disjoint_left]
    rintro t ⟨-, h2⟩ ⟨h3, -⟩
    omega

/-- A sorted list of pairwise disjoint intervals. -/
structure Coverage where
  intervals : List Interval
  ok : SortedDisjoint intervals

namespace Coverage

/-- The instant lies in Apple coverage. -/
def covered (c : Coverage) (t : ℤ) : Prop := covers c.intervals t

instance (c : Coverage) : DecidablePred c.covered := inferInstanceAs (DecidablePred (covers c.intervals))

/-- The Apple-uncovered time in `[a, b)`. -/
abbrev uncovered (c : Coverage) (a b : ℤ) : ℤ := openTicks c.covered a b

theorem uncovered_nonneg (c : Coverage) (a b : ℤ) : 0 ≤ c.uncovered a b := openTicks_nonneg _ a b

theorem elapsed_eq (c : Coverage) {a b : ℤ} (h : a ≤ b) :
    b - a - coveredSeconds a b c.intervals = c.uncovered a b := by
  have := coveredSeconds_add_openTicks c.ok h
  simp only [uncovered]
  change b - a - coveredSeconds a b c.intervals = openTicks (covers c.intervals) a b
  omega

/-- The coverage of a list of proper intervals. -/
def ofIntervals (l : List Interval) (h : ∀ i ∈ l, i.1 < i.2) : Coverage :=
  ⟨mergeIntervals l, .of_merged (mergeIntervals_merged h).1 (mergeIntervals_merged h).2⟩

theorem ofIntervals_covered (l : List Interval) (h : ∀ i ∈ l, i.1 < i.2) (t : ℤ) :
    (ofIntervals l h).covered t ↔ covers l t :=
  covers_mergeIntervals h t

end Coverage
end FuelNear

/-
# Spans of half-open intervals and their length

The span of a list of intervals `[a, b)` is the set of points in one of
them. Cut to a window, the span of pairwise disjoint intervals has as
Lebesgue measure the sum of what each shares with the window
(`volume_span_inter`). Intervals with integer ends may be read over the
integers or over the reals: a real lies in the real span when its floor lies
in the integer one (`mem_span_toReal`), and the shared lengths are the same
(`sharedLength_toReal`).

Key definitions: `span`, `sharedLength`, `toReal`.
Key theorems: `volume_span_inter`, `mem_span_toReal`, `sharedLength_toReal`.
-/
import Mathlib.MeasureTheory.Measure.Lebesgue.Basic
import Mathlib.Order.CompletePartialOrder

namespace FuelNear
namespace Spans

section Order

variable {α : Type*} [Preorder α]

/-- The points of the intervals. -/
def span (l : List (α × α)) : Set α := {t | ∃ i ∈ l, t ∈ Set.Ico i.1 i.2}

@[simp] theorem span_nil : span ([] : List (α × α)) = ∅ := by simp [span]

@[simp] theorem span_cons (i : α × α) (l : List (α × α)) : span (i :: l) = Set.Ico i.1 i.2 ∪ span l := by
  ext t
  simp [span]

/-- An interval apart from each of the list is apart from their span. -/
theorem disjoint_span {i : α × α} {l : List (α × α)}
    (h : ∀ j ∈ l, Disjoint (Set.Ico i.1 i.2) (Set.Ico j.1 j.2)) : Disjoint (Set.Ico i.1 i.2) (span l) := by
  rw [Set.disjoint_left]
  rintro t ht ⟨j, hj, htj⟩
  exact Set.disjoint_left.mp (h j hj) ht htj

end Order

/-! ### The length -/

/-- What the intervals share with `[a, b)`, added up. -/
def sharedLength {α : Type*} [AddCommGroup α] [LinearOrder α] (a b : α) (l : List (α × α)) : α :=
  (l.map fun i => max 0 (min b i.2 - max a i.1)).sum

section Length

variable {α : Type*} [AddCommGroup α] [LinearOrder α]

@[simp] theorem sharedLength_nil (a b : α) : sharedLength a b [] = 0 := rfl

@[simp] theorem sharedLength_cons (a b : α) (i : α × α) (l : List (α × α)) :
    sharedLength a b (i :: l) = max 0 (min b i.2 - max a i.1) + sharedLength a b l := rfl

theorem sharedLength_nonneg [IsOrderedAddMonoid α] (a b : α) (l : List (α × α)) : 0 ≤ sharedLength a b l := by
  refine List.sum_nonneg fun x hx => ?_
  obtain ⟨i, -, rfl⟩ := List.mem_map.mp hx
  exact le_max_left _ _

end Length

open MeasureTheory

theorem measurableSet_span : ∀ l : List (ℝ × ℝ), MeasurableSet (span l)
  | [] => by rw [span_nil]; exact MeasurableSet.empty
  | i :: l => by rw [span_cons]; exact measurableSet_Ico.union (measurableSet_span l)

theorem volume_Ico_inter (i : ℝ × ℝ) (a b : ℝ) :
    volume (Set.Ico i.1 i.2 ∩ Set.Ico a b) = ENNReal.ofReal (max 0 (min b i.2 - max a i.1)) := by
  rw [Set.Ico_inter_Ico, Real.volume_Ico, sup_comm, inf_comm, ENNReal.ofReal_max, ENNReal.ofReal_zero]
  simp

/-- **The span of disjoint intervals, cut to a window, measures what they
share with it.** -/
theorem volume_span_inter (a b : ℝ) : ∀ {l : List (ℝ × ℝ)},
    l.Pairwise (fun i j => Disjoint (Set.Ico i.1 i.2) (Set.Ico j.1 j.2)) →
    volume (span l ∩ Set.Ico a b) = ENNReal.ofReal (sharedLength a b l)
  | [], _ => by simp
  | i :: l, h => by
    obtain ⟨hi, hl⟩ := List.pairwise_cons.mp h
    have hapart : Disjoint (Set.Ico i.1 i.2 ∩ Set.Ico a b) (span l ∩ Set.Ico a b) :=
      (disjoint_span hi).mono Set.inter_subset_left Set.inter_subset_left
    rw [span_cons, Set.union_inter_distrib_right,
      measure_union hapart ((measurableSet_span l).inter measurableSet_Ico), volume_Ico_inter,
      volume_span_inter a b hl, sharedLength_cons,
      ENNReal.ofReal_add (le_max_left _ _) (sharedLength_nonneg a b l)]

/-! ### Integer ends -/

/-- The intervals over the reals. -/
def toReal (l : List (ℤ × ℤ)) : List (ℝ × ℝ) := l.map fun i => ((i.1 : ℝ), (i.2 : ℝ))

theorem mem_Ico_cast {a b : ℤ} {t : ℝ} : t ∈ Set.Ico (a : ℝ) b ↔ ⌊t⌋ ∈ Set.Ico a b := by
  rw [Set.mem_Ico, Set.mem_Ico, Int.le_floor, Int.floor_lt]

theorem mem_span_toReal {l : List (ℤ × ℤ)} {t : ℝ} : t ∈ span (toReal l) ↔ ⌊t⌋ ∈ span l := by
  simp [span, toReal, Int.le_floor, Int.floor_lt]

theorem span_toReal_congr {l m : List (ℤ × ℤ)} (h : span l = span m) : span (toReal l) = span (toReal m) := by
  ext t
  rw [mem_span_toReal, mem_span_toReal, h]

theorem sharedLength_toReal (a b : ℤ) (l : List (ℤ × ℤ)) :
    sharedLength (a : ℝ) b (toReal l) = ((sharedLength a b l : ℤ) : ℝ) := by
  induction l with
  | nil => simp [toReal]
  | cons i l ih =>
    rw [toReal, List.map_cons, sharedLength_cons, sharedLength_cons]
    push_cast
    exact congrArg _ ih

/-- Integer intervals that are disjoint stay so over the reals. -/
theorem disjoint_toReal {l : List (ℤ × ℤ)}
    (h : l.Pairwise fun i j => Disjoint (Set.Ico i.1 i.2) (Set.Ico j.1 j.2)) :
    (toReal l).Pairwise fun i j => Disjoint (Set.Ico i.1 i.2) (Set.Ico j.1 j.2) := by
  rw [toReal, List.pairwise_map]
  refine h.imp fun {i j} hij => ?_
  rw [Set.disjoint_left]
  intro t hi hj
  exact Set.disjoint_left.mp hij (mem_Ico_cast.mp hi) (mem_Ico_cast.mp hj)

end Spans
end FuelNear

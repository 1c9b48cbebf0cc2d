/-
# Counts in windows that do not overlap

Entries stand in windows: each entry has a time and the start of its window,
the window is `w` long and the entry in it, and two windows do not overlap. A
stretch of time as long as a window meets at most two of them, so what no
window has more than `n` of, no such stretch has more than `2n` of. If the
entries of a window are numbered, at most `n` of them have a number up to `n`.

Key definitions: `Windowed`.
Key theorems: `Windowed.append`, `Windowed.countP_interval_le`, `countP_number_le`.
-/
import Mathlib.Algebra.Order.Group.Defs
import Mathlib.Order.Interval.Finset.Nat
import Mathlib.Tactic

namespace FuelNear

section Windows

variable {α T : Type*} [AddCommGroup T] [LinearOrder T]

/-- Each entry is in its window, and the windows do not overlap. -/
structure Windowed (time start : α → T) (w : T) (l : List α) : Prop where
  inside : ∀ x ∈ l, start x ≤ time x ∧ time x < start x + w
  apart : ∀ x ∈ l, ∀ y ∈ l, start x < start y → start x + w ≤ start y

variable {time start : α → T} {w : T} {l : List α}

theorem Windowed.filter (h : Windowed time start w l) (p : α → Bool) : Windowed time start w (l.filter p) where
  inside x hx := h.inside x (List.mem_filter.mp hx).1
  apart x hx y hy := h.apart x (List.mem_filter.mp hx).1 y (List.mem_filter.mp hy).1

/-- One more entry, in the last window or in a later one. -/
theorem Windowed.append {x : α} (h : Windowed time start w l) (hx : start x ≤ time x ∧ time x < start x + w)
    (hlast : ∀ y ∈ l, start y = start x ∨ start y + w ≤ start x) : Windowed time start w (l ++ [x]) where
  inside y hy := by
    rcases List.mem_append.mp hy with hy | hy
    · exact h.inside y hy
    · rw [List.mem_singleton.mp hy]
      exact hx
  apart y hy z hz hlt := by
    rcases List.mem_append.mp hy with hy | hy <;> rcases List.mem_append.mp hz with hz | hz
    · exact h.apart y hy z hz hlt
    · rw [List.mem_singleton.mp hz] at hlt ⊢
      exact (hlast y hy).resolve_left hlt.ne
    · rw [List.mem_singleton.mp hy] at hlt
      have hinside := h.inside z hz
      rcases hlast z hz with hsame | hbefore
      · exact absurd hsame hlt.ne'
      · exact absurd ((hinside.1.trans_lt hinside.2).trans_le hbefore) hlt.not_gt
    · rw [List.mem_singleton.mp hy, List.mem_singleton.mp hz] at hlt
      exact absurd hlt (lt_irrefl _)

variable [IsOrderedAddMonoid T]

/-- Of three windows, the first and the last are further apart than a window is long. -/
theorem Windowed.lt_of_three (h : Windowed time start w l) {x y z : α} (hx : x ∈ l) (hy : y ∈ l) (hz : z ∈ l)
    (hxy : start x < start y) (hyz : start y < start z) : time x + w < time z := by
  calc time x + w < start x + w + w := add_lt_add_left (h.inside x hx).2 w
    _ ≤ start y + w := add_le_add_left (h.apart x hx y hy hxy) w
    _ ≤ start z := h.apart y hy z hz hyz
    _ ≤ time z := (h.inside z hz).1

/-- What no window has more than `n` of, no stretch of its length has more than `2n` of. -/
theorem Windowed.countP_interval_le (h : Windowed time start w l) {n : ℕ}
    (hn : ∀ s, (l.countP fun x => start x = s) ≤ n) (a : T) :
    (l.countP fun x => a ≤ time x ∧ time x ≤ a + w) ≤ 2 * n := by
  set m := l.filter fun x => decide (a ≤ time x ∧ time x ≤ a + w) with hm
  have hmem : ∀ x ∈ m, x ∈ l ∧ a ≤ time x ∧ time x ≤ a + w := by
    intro x hx
    simpa [hm] using hx
  have hsub : ∀ s, (m.countP fun x => start x = s) ≤ n := fun s => List.filter_sublist.countP_le.trans (hn s)
  rw [List.countP_eq_length_filter, ← hm]
  by_cases hne : m = []
  · rw [hne]
    exact Nat.zero_le _
  -- the first and the last window that the stretch meets
  have hstarts : ((m.map start).toFinset).Nonempty := by simpa [List.toFinset_nonempty_iff] using hne
  obtain ⟨s, hs, hfirst⟩ := Finset.exists_min_image _ id hstarts
  obtain ⟨s', hs', hlast⟩ := Finset.exists_max_image _ id hstarts
  obtain ⟨x, hx, rfl⟩ := List.mem_map.mp (List.mem_toFinset.mp hs)
  obtain ⟨z, hz, rfl⟩ := List.mem_map.mp (List.mem_toFinset.mp hs')
  have htwo : ∀ y ∈ m, start y = start x ∨ start y = start z := by
    intro y hy
    have hymem : start y ∈ (m.map start).toFinset := List.mem_toFinset.mpr (List.mem_map.mpr ⟨y, hy, rfl⟩)
    by_contra hneither
    push Not at hneither
    have hxy : start x < start y := lt_of_le_of_ne (hfirst _ hymem) hneither.1.symm
    have hyz : start y < start z := lt_of_le_of_ne (hlast _ hymem) hneither.2
    have hfar := h.lt_of_three (hmem x hx).1 (hmem y hy).1 (hmem z hz).1 hxy hyz
    have hnear : time z ≤ time x + w := (hmem z hz).2.2.trans (add_le_add_left (hmem x hx).2.1 w)
    exact absurd hfar (not_lt.mpr hnear)
  have hrest : (m.countP fun y => ¬ decide (start y = start x) = true) ≤ m.countP fun y => start y = start z := by
    apply List.countP_mono_left
    intro y hy hne
    simpa using (htwo y hy).resolve_left (by simpa using hne)
  calc m.length = (m.countP fun y => start y = start x) + m.countP fun y => ¬ decide (start y = start x) = true :=
        List.length_eq_countP_add_countP _
    _ ≤ (m.countP fun y => start y = start x) + m.countP fun y => start y = start z := Nat.add_le_add_left hrest _
    _ ≤ n + n := Nat.add_le_add (hsub _) (hsub _)
    _ = 2 * n := (two_mul n).symm

/-- Of entries with different positive numbers, at most `n` have a number up to `n`. -/
theorem countP_number_le {number : α → ℕ} (hpos : ∀ x ∈ l, 1 ≤ number x) (hnodup : (l.map number).Nodup) (n : ℕ) :
    (l.countP fun x => number x ≤ n) ≤ n := by
  have hsub : ((l.filter fun x => number x ≤ n).map number).Nodup :=
    hnodup.sublist (List.filter_sublist.map number)
  have hin : ((l.filter fun x => number x ≤ n).map number) ⊆ List.range' 1 n := by
    intro k hk
    obtain ⟨x, hx, rfl⟩ := List.mem_map.mp hk
    obtain ⟨hxl, hxn⟩ := List.mem_filter.mp hx
    rw [List.mem_range'_1]
    have hx1 := hpos x hxl
    have hxn : number x ≤ n := by simpa using hxn
    omega
  have hle := (List.subperm_of_subset hsub hin).length_le
  rw [List.length_map, List.length_range'] at hle
  rw [List.countP_eq_length_filter]
  exact hle

end Windows
end FuelNear

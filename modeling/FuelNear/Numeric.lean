/-
# What a NUMERIC column keeps of a number

A value written to a column of type NUMERIC(p, s) is rounded to `s` places,
half away from zero, and refused if it then has more than `p` digits. A number
that fits is kept as it is (`stored_of_fits`). Python's `round` goes to
the nearest number of `d` places too, but from the middle to the even one.

Key definitions: `Fits`, `stored`, `roundTo`.
Key theorems: `stored_of_fits`, `fits_of_units`, `roundTo_units`.
-/
import Mathlib.Algebra.Order.Floor.Ring
import Mathlib.Data.Rat.Floor
import Mathlib.Tactic

namespace FuelNear
namespace Numeric

variable {p s : ℕ} {x y : ℚ}

/-- A whole number of units of the last place, of at most `p` digits. -/
def Fits (p s : ℕ) (x : ℚ) : Prop := ∃ n : ℤ, x * 10 ^ s = n ∧ |n| < 10 ^ p

/-- The value that is stored; `none` is the overflow. -/
def stored (p s : ℕ) (x : ℚ) : Option ℚ :=
  let units : ℤ := if 0 ≤ x then ⌊x * 10 ^ s + 1 / 2⌋ else ⌈x * 10 ^ s - 1 / 2⌉
  if |units| < 10 ^ p then some (units / 10 ^ s) else none

theorem stored_of_fits (h : Fits p s x) : stored p s x = some x := by
  obtain ⟨n, hn, hlt⟩ := h
  have hfloor : ⌊(n : ℚ) + 1 / 2⌋ = n := by
    rw [Int.floor_eq_iff]
    constructor <;> norm_num
  have hceil : ⌈(n : ℚ) - 1 / 2⌉ = n := by
    rw [Int.ceil_eq_iff]
    constructor <;> norm_num
  have hx : (n : ℚ) / 10 ^ s = x := by
    rw [← hn]
    exact mul_div_cancel_right₀ x (by positivity)
  unfold stored
  rw [hn, hfloor, hceil, ite_self, if_pos hlt, hx]

/-- A number of `k` places fits if the column has as many, and the digits. -/
theorem fits_of_units {n : ℤ} {k : ℕ} (hk : k ≤ s) (hn : |n| * 10 ^ (s - k) < 10 ^ p) :
    Fits p s (n / 10 ^ k) := by
  refine ⟨n * 10 ^ (s - k), ?_, ?_⟩
  · have hpow : (10 : ℚ) ^ s = 10 ^ k * 10 ^ (s - k) := by
      rw [← pow_add, Nat.add_sub_cancel' hk]
    rw [hpow, ← mul_assoc, div_mul_cancel₀ _ (by positivity)]
    push_cast
    rfl
  · rw [abs_mul, abs_of_pos (show (0 : ℤ) < 10 ^ (s - k) by positivity)]
    exact hn

/-- `round(x, d)`, in units of the last place. -/
def roundUnits (d : ℕ) (x : ℚ) : ℤ :=
  let below := ⌊x * 10 ^ d⌋
  let rest := x * 10 ^ d - below
  if rest < 1 / 2 then below
  else if 1 / 2 < rest then below + 1
  else if below % 2 = 0 then below
  else below + 1

/-- `round(x, d)`. -/
def roundTo (d : ℕ) (x : ℚ) : ℚ := roundUnits d x / 10 ^ d

/-- A number of `d` places is rounded to itself. -/
theorem roundTo_units (d : ℕ) (n : ℤ) : roundTo d (n / 10 ^ d) = n / 10 ^ d := by
  have hcancel : (n : ℚ) / 10 ^ d * 10 ^ d = n := div_mul_cancel₀ _ (by positivity)
  have hunits : roundUnits d (n / 10 ^ d) = n := by
    unfold roundUnits
    rw [hcancel, Int.floor_intCast]
    simp
  rw [roundTo, hunits]

end Numeric
end FuelNear

/-
# Foreign keys

A column of one table that names rows of another: NULL names none. What a
statement may do without breaking the reference: insert a row that names rows
which are there, change rows without renaming, insert or change rows of the
table referred to.

Key definitions: `References`.
Key theorems: `References.append`, `References.of_rows`, `References.mono`.
-/
import Mathlib.Data.List.Basic
import Mathlib.Tactic

namespace FuelNear
namespace Sql

variable {α β κ : Type*} {fk : α → Option κ} {pk : β → κ} {t t' : List α} {u u' : List β}

/-- `FOREIGN KEY (fk) REFERENCES u(pk)`. -/
def References (t : List α) (fk : α → Option κ) (u : List β) (pk : β → κ) : Prop :=
  ∀ r ∈ t, ∀ k ∈ fk r, ∃ p ∈ u, pk p = k

namespace References

theorem nil : References [] fk u pk := fun _ h => absurd h List.not_mem_nil

/-- The rows of the table may change, as long as they name what some row named. -/
theorem of_rows (h : References t fk u pk) (hrows : ∀ r' ∈ t', ∀ k ∈ fk r', ∃ r ∈ t, k ∈ fk r) :
    References t' fk u pk := by
  intro r' hr' k hk
  obtain ⟨r, hr, hkr⟩ := hrows r' hr' k hk
  exact h r hr k hkr

theorem append (h : References t fk u pk) {r : α} (hr : ∀ k ∈ fk r, ∃ p ∈ u, pk p = k) :
    References (t ++ [r]) fk u pk := by
  intro q hq k hk
  rcases List.mem_append.mp hq with hq | hq
  · exact h q hq k hk
  · obtain rfl := List.mem_singleton.mp hq
    exact hr k hk

/-- The table referred to may get rows, and its rows may change beside the key. -/
theorem mono (h : References t fk u pk) (hkeys : ∀ p ∈ u, ∃ p' ∈ u', pk p' = pk p) : References t fk u' pk := by
  intro r hr k hk
  obtain ⟨p, hp, rfl⟩ := h r hr k hk
  obtain ⟨p', hp', heq⟩ := hkeys p hp
  exact ⟨p', hp', heq⟩

end References

end Sql
end FuelNear

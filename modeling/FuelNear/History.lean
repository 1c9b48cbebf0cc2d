/-
# Rows that are never deleted

A table whose rows change one by one, and which gets new rows at its end: each
of its rows is found in a later table, in a later version. What versions can
differ in is a relation on rows; where it composes, so do the histories. A
count of rows that no later version leaves does not fall.

Key definitions: `Grows`.
Key theorems: `forall₂_trans`, `Grows.trans`, `Grows.mem`, `Grows.countP_le`.
-/
import Mathlib.Data.List.Forall2
import Mathlib.Tactic

namespace FuelNear
namespace History

variable {α : Type*} {R : α → α → Prop} {l l' m : List α}

theorem forall₂_trans (htrans : ∀ a b c, R a b → R b c → R a c) (h : List.Forall₂ R l l') (h' : List.Forall₂ R l' m) :
    List.Forall₂ R l m := by
  induction h generalizing m with
  | nil => exact h'
  | cons hab _ ih =>
    cases h' with
    | cons hbc htail => exact List.Forall₂.cons (htrans _ _ _ hab hbc) (ih htail)

/-- Rows that change one by one. -/
theorem forall₂_map {g : α → α} (h : ∀ a ∈ l, R a (g a)) : List.Forall₂ R l (l.map g) := by
  rw [List.forall₂_map_right_iff, List.forall₂_same]
  exact h

/-- A row of the later list comes from one of the list before. -/
theorem forall₂_origin (h : List.Forall₂ R l l') {b : α} (hb : b ∈ l') : ∃ a ∈ l, R a b := by
  induction h with
  | nil => exact absurd hb List.not_mem_nil
  | @cons x y _ _ hxy _ ih =>
    rcases List.mem_cons.mp hb with rfl | hb
    · exact ⟨x, List.mem_cons_self, hxy⟩
    · obtain ⟨a, ha, hab⟩ := ih hb
      exact ⟨a, List.mem_cons_of_mem _ ha, hab⟩

/-- And every row of the list before has its later version. -/
theorem forall₂_successor (h : List.Forall₂ R l l') {a : α} (ha : a ∈ l) : ∃ b ∈ l', R a b := by
  induction h with
  | nil => exact absurd ha List.not_mem_nil
  | @cons x y _ _ hxy _ ih =>
    rcases List.mem_cons.mp ha with rfl | ha
    · exact ⟨y, List.mem_cons_self, hxy⟩
    · obtain ⟨b, hb, hab⟩ := ih ha
      exact ⟨b, List.mem_cons_of_mem _ hb, hab⟩

theorem forall₂_append_left : ∀ {l₁ l₂ l' : List α}, List.Forall₂ R (l₁ ++ l₂) l' →
    ∃ a b, l' = a ++ b ∧ List.Forall₂ R l₁ a ∧ List.Forall₂ R l₂ b
  | [], _, l', h => ⟨[], l', rfl, List.Forall₂.nil, h⟩
  | _ :: _, _, _, h => by
    cases h with
    | cons hab htail =>
      obtain ⟨a, b, rfl, ha, hb⟩ := forall₂_append_left htail
      exact ⟨_ :: a, b, rfl, List.Forall₂.cons hab ha, hb⟩

theorem forall₂_filter {p : α → Bool} (h : List.Forall₂ R l l') (hp : ∀ a b, R a b → p b = p a) :
    List.Forall₂ R (l.filter p) (l'.filter p) := by
  induction h with
  | nil => exact List.Forall₂.nil
  | @cons a b _ _ hab _ ih =>
    have hsame := hp a b hab
    by_cases hpa : p a = true
    · rw [List.filter_cons_of_pos hpa, List.filter_cons_of_pos (hsame.trans hpa)]
      exact List.Forall₂.cons hab ih
    · rw [List.filter_cons_of_neg hpa, List.filter_cons_of_neg (by rwa [hsame])]
      exact ih

/-- A column that no version changes. -/
theorem forall₂_column {β : Type*} {f : α → β} (h : List.Forall₂ R l l') (hf : ∀ a b, R a b → f b = f a) :
    l'.map f = l.map f := by
  induction h with
  | nil => rfl
  | @cons a b _ _ hab _ ih => rw [List.map_cons, List.map_cons, hf a b hab, ih]

/-- The rows of `l`, each in its later version, and new ones after them. -/
def Grows (R : α → α → Prop) (l l' : List α) : Prop := ∃ old new, l' = old ++ new ∧ List.Forall₂ R l old

theorem Grows.of_forall₂ (h : List.Forall₂ R l l') : Grows R l l' := ⟨l', [], (List.append_nil _).symm, h⟩

theorem Grows.refl (hrefl : ∀ a, R a a) (l : List α) : Grows R l l :=
  Grows.of_forall₂ (List.forall₂_same.mpr fun a _ => hrefl a)

theorem Grows.append (hrefl : ∀ a, R a a) (l new : List α) : Grows R l (l ++ new) :=
  ⟨l, new, rfl, List.forall₂_same.mpr fun a _ => hrefl a⟩

/-- Histories compose. -/
theorem Grows.trans (htrans : ∀ a b c, R a b → R b c → R a c) (h : Grows R l l') (h' : Grows R l' m) : Grows R l m := by
  obtain ⟨old, new, rfl, hold⟩ := h
  obtain ⟨old', new', rfl, hold'⟩ := h'
  obtain ⟨a, b, rfl, ha, -⟩ := forall₂_append_left hold'
  exact ⟨a, b ++ new', List.append_assoc a b new', forall₂_trans htrans hold ha⟩

/-- No row is lost. -/
theorem Grows.mem (h : Grows R l l') {a : α} (ha : a ∈ l) : ∃ b ∈ l', R a b := by
  obtain ⟨old, new, rfl, hold⟩ := h
  obtain ⟨b, hb, hab⟩ := forall₂_successor hold ha
  exact ⟨b, List.mem_append_left _ hb, hab⟩

theorem countP_le_of_forall₂ {p q : α → Bool} (h : List.Forall₂ R l l') (hpq : ∀ a b, R a b → p a = true → q b = true) :
    l.countP p ≤ l'.countP q := by
  induction h with
  | nil => exact le_rfl
  | @cons a b _ _ hab _ ih =>
    have himp := hpq a b hab
    rw [List.countP_cons, List.countP_cons]
    by_cases hp : p a = true
    · rw [if_pos hp, if_pos (himp hp)]
      omega
    · rw [if_neg hp]
      omega

/-- A count that every later version stays in does not fall. -/
theorem Grows.countP_le {p q : α → Bool} (h : Grows R l l') (hpq : ∀ a b, R a b → p a = true → q b = true) :
    l.countP p ≤ l'.countP q := by
  obtain ⟨old, new, rfl, hold⟩ := h
  rw [List.countP_append]
  exact (countP_le_of_forall₂ hold hpq).trans (Nat.le_add_right _ _)

/-- The rows of a kind that no version changes. -/
theorem Grows.filter {p : α → Bool} (h : Grows R l l') (hp : ∀ a b, R a b → p b = p a) :
    Grows R (l.filter p) (l'.filter p) := by
  obtain ⟨old, new, rfl, hold⟩ := h
  exact ⟨old.filter p, new.filter p, List.filter_append _ _, forall₂_filter hold hp⟩

end History
end FuelNear

/-
# Economic adjustments: refunds, revokes and reversals

`reduce_apple_economic_adjustment` folds the economic notifications of one
transaction, in the order they arrive, into an adjustment and a watermark
(the signed date of the newest one). An older notification is dropped,
unless it is a revoke; one of the same date counts only if it is stronger; a
newer one always moves the watermark.

What one step does is said once (`reduceDated_cases`). From it: the
watermark only grows, a revoke stays, and a notification already reduced is
settled for good (`Settled`): reducing it again changes nothing, and if it
was refused it is refused again.

Key definitions: `EconomicAdjustment`, `nextAppleEconomicAdjustment`,
`reduceAppleEconomicAdjustment`, `Settled`.
Key theorems: `reduceDated_cases`, `settled_reduceDated`, `Settled.step`,
`reduceDated_of_settled`.
-/
import Mathlib.Data.Fintype.Option
import Mathlib.Tactic

namespace FuelNear
namespace Apple

/-- `APPLE_ECONOMIC_ADJUSTMENTS`. -/
inductive EconomicAdjustment where
  | refund
  | revoke
  | refundReversed
  | revocationUnknown
  deriving DecidableEq, Repr

namespace EconomicAdjustment

instance : Fintype EconomicAdjustment :=
  ⟨{refund, revoke, refundReversed, revocationUnknown}, fun a => by cases a <;> decide⟩

/-- The stored text. -/
def text : EconomicAdjustment → String
  | refund => "refund"
  | revoke => "revoke"
  | refundReversed => "refund_reversed"
  | revocationUnknown => "revocation_unknown"

def ofText? (s : String) : Option EconomicAdjustment :=
  if s = "refund" then some refund
  else if s = "revoke" then some revoke
  else if s = "refund_reversed" then some refundReversed
  else if s = "revocation_unknown" then some revocationUnknown
  else none

theorem ofText?_text (a : EconomicAdjustment) : ofText? a.text = some a := by
  cases a <;> decide

end EconomicAdjustment

open EconomicAdjustment

/-- `APPLE_ECONOMIC_ADJUSTMENT_PRIORITY`. -/
def adjustmentPriority : Option EconomicAdjustment → ℕ
  | none => 0
  | some refundReversed => 1
  | some revocationUnknown => 2
  | some refund => 3
  | some revoke => 4

/-- `_next_apple_economic_adjustment`. -/
def nextAppleEconomicAdjustment (current : Option EconomicAdjustment) (incoming : EconomicAdjustment) :
    EconomicAdjustment :=
  if current = some revoke ∨ incoming = revoke then revoke
  else if incoming = refund then refund
  else if incoming = refundReversed then
    if current = some refund then refundReversed else revocationUnknown
  else if current = some refund then refund
  else revocationUnknown

/-- `AppleEconomicAdjustmentReduction`. -/
structure AdjustmentReduction where
  economicAdjustment : Option EconomicAdjustment
  economicNotificationSignedAt : Option ℤ
  incomingAccepted : Bool
  changed : Bool
  deriving DecidableEq

/-- `reduce_apple_economic_adjustment` of a dated notification: its branches
for an older, an equal and a newer signed date. -/
def reduceDated (current : Option EconomicAdjustment) (currentAt : Option ℤ) (incoming : EconomicAdjustment)
    (incomingAt : ℤ) : AdjustmentReduction :=
  if currentAt.any (incomingAt < ·) then
    if incoming = revoke ∧ current ≠ some revoke then ⟨some revoke, currentAt, true, true⟩
    else ⟨current, currentAt, false, false⟩
  else if currentAt = some incomingAt then
    if some incoming = current then ⟨current, currentAt, true, false⟩
    else
      let candidate := nextAppleEconomicAdjustment current incoming
      if adjustmentPriority (some candidate) > adjustmentPriority current then
        ⟨some candidate, currentAt, true, true⟩
      else ⟨current, currentAt, false, false⟩
  else
    let next := nextAppleEconomicAdjustment current incoming
    ⟨some next, some incomingAt, true, some next ≠ current ∨ some incomingAt ≠ currentAt⟩

/-- `reduce_apple_economic_adjustment`; the error is the text of the
`AppleTransactionValidationError`. -/
def reduceAppleEconomicAdjustment (current : Option EconomicAdjustment) (currentAt : Option ℤ)
    (incoming : Option EconomicAdjustment) (incomingAt : Option ℤ) : Except String AdjustmentReduction :=
  match incoming, incomingAt with
  | none, some _ => .error "economic_notification_signed_at requires economic_adjustment"
  | none, none => .ok ⟨current, currentAt, false, false⟩
  | some _, none => .error "economic_notification_signed_at is required for economic_adjustment"
  | some a, some t => .ok (reduceDated current currentAt a t)

/-! ### What one step does -/

section Step

variable {c : Option EconomicAdjustment} {w : Option ℤ} {a : EconomicAdjustment} {t : ℤ}

/-- The signed date is later than the stored one, or none is stored. -/
def Newer (w : Option ℤ) (t : ℤ) : Prop := ∀ x ∈ w, x < t

theorem newer_none (t : ℤ) : Newer none t := by simp [Newer]

theorem newer_some {x t : ℤ} : Newer (some x) t ↔ x < t := by simp [Newer]

/-- The notification counts: it is newer than the stored one, or of the same
date and stronger. -/
def Applies (c : Option EconomicAdjustment) (w : Option ℤ) (a : EconomicAdjustment) (t : ℤ) : Prop :=
  Newer w t ∨ (w = some t ∧ some a ≠ c ∧
    adjustmentPriority c < adjustmentPriority (some (nextAppleEconomicAdjustment c a)))

/-- A step in four cases: the notification counts; it repeats the stored one;
it is an older revoke; it is dropped. -/
theorem reduceDated_cases (c : Option EconomicAdjustment) (w : Option ℤ) (a : EconomicAdjustment) (t : ℤ) :
    (Applies c w a t ∧ reduceDated c w a t = ⟨some (nextAppleEconomicAdjustment c a), some t, true, true⟩) ∨
    (w = some t ∧ some a = c ∧ reduceDated c w a t = ⟨c, w, true, false⟩) ∨
    ((∃ x, w = some x ∧ t < x) ∧ a = revoke ∧ c ≠ some revoke ∧
      reduceDated c w a t = ⟨some revoke, w, true, true⟩) ∨
    (((∃ x, w = some x ∧ t < x ∧ (a = revoke → c = some revoke)) ∨
        (w = some t ∧ some a ≠ c ∧
          adjustmentPriority (some (nextAppleEconomicAdjustment c a)) ≤ adjustmentPriority c)) ∧
      reduceDated c w a t = ⟨c, w, false, false⟩) := by
  cases w with
  | none => exact Or.inl ⟨Or.inl (newer_none t), by simp [reduceDated]⟩
  | some x =>
    rcases lt_trichotomy t x with hlt | rfl | hgt
    · have hred : reduceDated c (some x) a t =
          if a = revoke ∧ c ≠ some revoke then ⟨some revoke, some x, true, true⟩
          else ⟨c, some x, false, false⟩ := by simp [reduceDated, hlt]
      by_cases h : a = revoke ∧ c ≠ some revoke
      · exact Or.inr (Or.inr (Or.inl ⟨⟨x, rfl, hlt⟩, h.1, h.2, by rw [hred, if_pos h]⟩))
      · exact Or.inr (Or.inr (Or.inr ⟨Or.inl ⟨x, rfl, hlt, by tauto⟩, by rw [hred, if_neg h]⟩))
    · by_cases h : some a = c
      · exact Or.inr (Or.inl ⟨rfl, h, by simp [reduceDated, h]⟩)
      · by_cases hp : adjustmentPriority c < adjustmentPriority (some (nextAppleEconomicAdjustment c a))
        · exact Or.inl ⟨Or.inr ⟨rfl, h, hp⟩, by simp [reduceDated, h, hp]⟩
        · exact Or.inr (Or.inr (Or.inr ⟨Or.inr ⟨rfl, h, not_lt.mp hp⟩, by simp [reduceDated, h, hp]⟩))
    · have h1 : ¬ t < x := not_lt.mpr (le_of_lt hgt)
      have h2 : x ≠ t := ne_of_lt hgt
      exact Or.inl ⟨Or.inl (newer_some.mpr hgt), by simp [reduceDated, h1, h2, Ne.symm h2]⟩

/-- A newer notification always counts. -/
theorem reduceDated_newer (c : Option EconomicAdjustment) {w : Option ℤ} (a : EconomicAdjustment) {t : ℤ}
    (h : Newer w t) : reduceDated c w a t = ⟨some (nextAppleEconomicAdjustment c a), some t, true, true⟩ := by
  rcases reduceDated_cases c w a t with ⟨-, hr⟩ | ⟨rfl, -, -⟩ | ⟨⟨x, rfl, hx⟩, -⟩ | ⟨hd, -⟩
  · exact hr
  · exact absurd (newer_some.mp h) (lt_irrefl t)
  · exact absurd (newer_some.mp h) (not_lt.mpr (le_of_lt hx))
  · rcases hd with ⟨x, rfl, hx, -⟩ | ⟨rfl, -⟩
    · exact absurd (newer_some.mp h) (not_lt.mpr (le_of_lt hx))
    · exact absurd (newer_some.mp h) (lt_irrefl t)

/-- An older one is dropped, unless it is a revoke. -/
theorem reduceDated_older (c : Option EconomicAdjustment) {a : EconomicAdjustment} (ha : a ≠ revoke) {t x : ℤ}
    (h : t < x) : reduceDated c (some x) a t = ⟨c, some x, false, false⟩ := by
  simp [reduceDated, h, ha]

/-- The first notification always counts. -/
theorem reduceDated_first (a : EconomicAdjustment) (t : ℤ) :
    reduceDated none none a t = ⟨some (nextAppleEconomicAdjustment none a), some t, true, true⟩ :=
  reduceDated_newer none a (newer_none t)

/-- The watermark never moves back, and it is at least the date reduced. -/
theorem reduceDated_watermark (c : Option EconomicAdjustment) (w : Option ℤ) (a : EconomicAdjustment) (t : ℤ) :
    (reduceDated c w a t).economicNotificationSignedAt = some (w.elim t (max t)) := by
  rcases reduceDated_cases c w a t with ⟨h, hr⟩ | ⟨rfl, -, hr⟩ | ⟨⟨x, rfl, hx⟩, -, -, hr⟩ | ⟨h, hr⟩ <;> rw [hr]
  · rcases h with h | ⟨rfl, -⟩
    · cases w with
      | none => rfl
      | some x => simp [max_eq_left (le_of_lt (newer_some.mp h))]
    · simp
  · simp
  · simp [max_eq_right (le_of_lt hx)]
  · rcases h with ⟨x, rfl, hx, -⟩ | ⟨rfl, -⟩
    · simp [max_eq_right (le_of_lt hx)]
    · simp

end Step

/-! ### A notification already reduced -/

/-- The notification `(a, t)` can do nothing to the stored pair: it is of the
watermark's date and no stronger than what is stored, or older; a revoke is
already stored. -/
def Settled (a : EconomicAdjustment) (t : ℤ) (c : Option EconomicAdjustment) (w : Option ℤ) : Prop :=
  (a = revoke → c = some revoke) ∧
  ∃ x, w = some x ∧ t ≤ x ∧ (t = x → some a = c ∨
    adjustmentPriority (some (nextAppleEconomicAdjustment c a)) ≤ adjustmentPriority c)

/-- Settled, and refused when reduced again. -/
def Refused (a : EconomicAdjustment) (t : ℤ) (c : Option EconomicAdjustment) (w : Option ℤ) : Prop :=
  (a = revoke → c = some revoke) ∧
  ∃ x, w = some x ∧ t ≤ x ∧ (t = x → some a ≠ c ∧
    adjustmentPriority (some (nextAppleEconomicAdjustment c a)) ≤ adjustmentPriority c)

theorem Refused.settled {a : EconomicAdjustment} {t : ℤ} {c : Option EconomicAdjustment} {w : Option ℤ}
    (h : Refused a t c w) : Settled a t c w := by
  obtain ⟨h1, x, hw, ht, h2⟩ := h
  exact ⟨h1, x, hw, ht, fun he => Or.inr (h2 he).2⟩

theorem reduceDated_of_settled {a : EconomicAdjustment} {t : ℤ} {c : Option EconomicAdjustment} {w : Option ℤ}
    (h : Settled a t c w) : (reduceDated c w a t).changed = false := by
  obtain ⟨hrev, x, rfl, ht, heq⟩ := h
  rcases reduceDated_cases c (some x) a t with ⟨h, hr⟩ | ⟨-, -, hr⟩ | ⟨-, h1, h2, hr⟩ | ⟨-, hr⟩ <;> rw [hr]
  · rcases h with h | ⟨hx, hne, hlt⟩
    · have := newer_some.mp h
      omega
    · rcases heq (Option.some.inj hx).symm with h | h
      · exact absurd h hne
      · omega
  · exact absurd (hrev h1) h2

theorem reduceDated_of_refused {a : EconomicAdjustment} {t : ℤ} {c : Option EconomicAdjustment} {w : Option ℤ}
    (h : Refused a t c w) : reduceDated c w a t = ⟨c, w, false, false⟩ := by
  have hs := reduceDated_of_settled h.settled
  obtain ⟨hrev, x, rfl, ht, heq⟩ := h
  rcases reduceDated_cases c (some x) a t with ⟨-, hr⟩ | ⟨hx, h1, -⟩ | ⟨-, -, -, hr⟩ | ⟨-, hr⟩
  · simp [hr] at hs
  · exact absurd h1 (heq (Option.some.inj hx).symm).1
  · simp [hr] at hs
  · exact hr

/-- The table of strengths, by cases: a notification just applied is no
stronger than what it left. -/
theorem next_settled : ∀ (c : Option EconomicAdjustment) (a : EconomicAdjustment),
    some a = some (nextAppleEconomicAdjustment c a) ∨
    adjustmentPriority (some (nextAppleEconomicAdjustment (some (nextAppleEconomicAdjustment c a)) a)) ≤
      adjustmentPriority (some (nextAppleEconomicAdjustment c a)) := by
  decide

/-- What is stronger than the stored adjustment does not revive a weaker one. -/
theorem next_settled_mono : ∀ (c : Option EconomicAdjustment) (a b : EconomicAdjustment),
    adjustmentPriority c < adjustmentPriority (some (nextAppleEconomicAdjustment c b)) →
    (some a = c ∨ adjustmentPriority (some (nextAppleEconomicAdjustment c a)) ≤ adjustmentPriority c) →
    (some a = some (nextAppleEconomicAdjustment c b) ∨
      adjustmentPriority (some (nextAppleEconomicAdjustment (some (nextAppleEconomicAdjustment c b)) a)) ≤
        adjustmentPriority (some (nextAppleEconomicAdjustment c b))) := by
  decide

theorem next_refused_mono : ∀ (c : Option EconomicAdjustment) (a b : EconomicAdjustment),
    adjustmentPriority c < adjustmentPriority (some (nextAppleEconomicAdjustment c b)) →
    (some a ≠ c ∧ adjustmentPriority (some (nextAppleEconomicAdjustment c a)) ≤ adjustmentPriority c) →
    (some a ≠ some (nextAppleEconomicAdjustment c b) ∧
      adjustmentPriority (some (nextAppleEconomicAdjustment (some (nextAppleEconomicAdjustment c b)) a)) ≤
        adjustmentPriority (some (nextAppleEconomicAdjustment c b))) := by
  decide

theorem next_revoke (c : Option EconomicAdjustment) : nextAppleEconomicAdjustment c revoke = revoke := by
  simp [nextAppleEconomicAdjustment]

theorem next_of_revoke (a : EconomicAdjustment) : nextAppleEconomicAdjustment (some revoke) a = revoke := by
  simp [nextAppleEconomicAdjustment]

section Later

variable {c : Option EconomicAdjustment} {w : Option ℤ} {a b : EconomicAdjustment} {t u : ℤ}

/-- A revoke stays. -/
theorem reduceDated_keeps_revoke (h : c = some revoke) :
    (reduceDated c w b u).economicAdjustment = some revoke := by
  subst h
  rcases reduceDated_cases (some revoke) w b u with ⟨-, hr⟩ | ⟨-, -, hr⟩ | ⟨-, -, h, -⟩ | ⟨-, hr⟩
  · rw [hr, next_of_revoke]
  · rw [hr]
  · exact absurd rfl h
  · rw [hr]

/-- A revoke is stored however late it comes. -/
theorem reduceDated_revoke : (reduceDated c w revoke u).economicAdjustment = some revoke := by
  rcases reduceDated_cases c w revoke u with ⟨-, hr⟩ | ⟨-, hc, hr⟩ | ⟨-, -, -, hr⟩ | ⟨h, hr⟩ <;> rw [hr]
  · rw [next_revoke]
  · exact hc.symm
  · rcases h with ⟨x, -, -, hc⟩ | ⟨-, hne, hle⟩
    · exact hc rfl
    · rw [next_revoke] at hle
      cases c with
      | none => exact absurd hle (by decide)
      | some d => cases d <;> first | rfl | exact absurd hle (by decide)

/-- What was just reduced is settled. -/
theorem settled_reduceDated (c : Option EconomicAdjustment) (w : Option ℤ) (a : EconomicAdjustment) (t : ℤ) :
    Settled a t (reduceDated c w a t).economicAdjustment (reduceDated c w a t).economicNotificationSignedAt := by
  refine ⟨fun ha => by rw [ha]; exact reduceDated_revoke, ?_⟩
  rcases reduceDated_cases c w a t with ⟨-, hr⟩ | ⟨hw, hc, hr⟩ | ⟨⟨x, hw, hx⟩, -, -, hr⟩ | ⟨h, hr⟩ <;> rw [hr]
  · exact ⟨t, rfl, le_rfl, fun _ => next_settled c a⟩
  · exact ⟨t, hw, le_rfl, fun _ => Or.inl hc⟩
  · exact ⟨x, hw, le_of_lt hx, fun he => absurd he (ne_of_lt hx)⟩
  · rcases h with ⟨x, hw, hx, -⟩ | ⟨hw, -, hle⟩
    · exact ⟨x, hw, le_of_lt hx, fun he => absurd he (ne_of_lt hx)⟩
    · exact ⟨t, hw, le_rfl, fun _ => Or.inr hle⟩

/-- What was refused is refused from then on. -/
theorem refused_reduceDated (h : (reduceDated c w a t).incomingAccepted = false) : Refused a t c w := by
  rcases reduceDated_cases c w a t with ⟨-, hr⟩ | ⟨-, -, hr⟩ | ⟨-, -, -, hr⟩ | ⟨hd, hr⟩
  · simp [hr] at h
  · simp [hr] at h
  · simp [hr] at h
  · have hrev : a = revoke → c = some revoke := fun ha => by
      have := reduceDated_revoke (c := c) (w := w) (u := t)
      rw [← ha, hr] at this
      exact this.trans (congrArg some ha)
    rcases hd with ⟨x, hw, hx, -⟩ | ⟨hw, hne, hle⟩
    · exact ⟨hrev, x, hw, le_of_lt hx, fun he => absurd he (ne_of_lt hx)⟩
    · exact ⟨hrev, t, hw, le_rfl, fun _ => ⟨hne, hle⟩⟩

/-- Settled stays settled, whatever is reduced next. -/
theorem Settled.step (h : Settled a t c w) (b : EconomicAdjustment) (u : ℤ) :
    Settled a t (reduceDated c w b u).economicAdjustment (reduceDated c w b u).economicNotificationSignedAt := by
  obtain ⟨hrev, x, rfl, htx, heq⟩ := h
  refine ⟨fun ha => reduceDated_keeps_revoke (hrev ha), ?_⟩
  rcases reduceDated_cases c (some x) b u with ⟨hap, hr⟩ | ⟨-, -, hr⟩ | ⟨-, -, -, hr⟩ | ⟨-, hr⟩ <;> rw [hr]
  · rcases hap with hn | ⟨hx, -, hlt⟩
    · have := newer_some.mp hn
      exact ⟨u, rfl, by omega, fun he => by omega⟩
    · obtain rfl := Option.some.inj hx
      exact ⟨x, rfl, htx, fun he => next_settled_mono c a b hlt (heq he)⟩
  · exact ⟨x, rfl, htx, heq⟩
  · refine ⟨x, rfl, htx, fun _ => ?_⟩
    rw [next_of_revoke]
    exact Or.inr le_rfl
  · exact ⟨x, rfl, htx, heq⟩

/-- Refused stays refused. -/
theorem Refused.step (h : Refused a t c w) (b : EconomicAdjustment) (u : ℤ) :
    Refused a t (reduceDated c w b u).economicAdjustment (reduceDated c w b u).economicNotificationSignedAt := by
  obtain ⟨hrev, x, rfl, htx, heq⟩ := h
  refine ⟨fun ha => reduceDated_keeps_revoke (hrev ha), ?_⟩
  rcases reduceDated_cases c (some x) b u with ⟨hap, hr⟩ | ⟨-, -, hr⟩ | ⟨-, -, hne, hr⟩ | ⟨-, hr⟩ <;> rw [hr]
  · rcases hap with hn | ⟨hx, -, hlt⟩
    · have := newer_some.mp hn
      exact ⟨u, rfl, by omega, fun he => by omega⟩
    · obtain rfl := Option.some.inj hx
      exact ⟨x, rfl, htx, fun he => next_refused_mono c a b hlt (heq he)⟩
  · exact ⟨x, rfl, htx, heq⟩
  · refine ⟨x, rfl, htx, fun _ => ⟨fun ha => hne (hrev (Option.some.inj ha)), ?_⟩⟩
    rw [next_of_revoke]
  · exact ⟨x, rfl, htx, heq⟩

end Later

end Apple
end FuelNear

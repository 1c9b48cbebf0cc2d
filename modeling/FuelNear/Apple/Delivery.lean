/-
# The delivery order of economic notifications

What is stored of one transaction's economic notifications is the fold of
the reduction over them, in the order they were saved
(`adjustmentState_run`); saves without a notification and of other
transactions do not take part. `DeliveryLaw` says what the fold comes to:
which of the notifications were there decides it, not their order nor how
often each came, except between a reversal and an unknown revocation.

Key definitions: `adjustmentState`, `notifications`, `DeliveryLaw`.
Key theorems: `adjustmentState_run`, `deliveryLaw_foldl`,
`adjustment_delivery_order`.
-/
import FuelNear.Apple.Save

namespace FuelNear
namespace Apple

open EconomicAdjustment

/-! ### The fold -/

/-- The stored adjustment of a transaction and its date. -/
def adjustmentState (x : String) (t : AppleTable) : Option EconomicAdjustment × Option ℤ :=
  match lookup x t with
  | none => (none, none)
  | some r => (r.economicAdjustment, r.economicNotificationSignedAt)

/-- The reduction, as a step of the stored pair. -/
def reduceStep (s : Option EconomicAdjustment × Option ℤ) (e : EconomicAdjustment × ℤ) :
    Option EconomicAdjustment × Option ℤ :=
  ((reduceDated s.1 s.2 e.1 e.2).economicAdjustment, (reduceDated s.1 s.2 e.1 e.2).economicNotificationSignedAt)

/-- The economic notification that a call saves for the transaction `x`. -/
def notificationOf (x : String) (c : SaveCall) : Option (EconomicAdjustment × ℤ) :=
  (recordOf x c).bind (·.notification)

/-- The economic notifications of the transaction `x` among the completed
saves, in the order they were saved. -/
def notifications (x : String) (log : List (SaveCall × AppleTransactionSaveResult)) :
    List (EconomicAdjustment × ℤ) :=
  (log.map (·.1)).filterMap (notificationOf x)

theorem adjustmentState_mergeRow (n : NormalizedTransaction) (r : AppleRow) :
    ((mergeRow n r).economicAdjustment, (mergeRow n r).economicNotificationSignedAt) =
      n.notification.elim (r.economicAdjustment, r.economicNotificationSignedAt)
        (reduceStep (r.economicAdjustment, r.economicNotificationSignedAt)) := by
  rw [mergeRow_economicAdjustment, mergeRow_economicNotificationSignedAt]
  cases hn : n.notification with
  | none => rw [rowReduction_none hn]; rfl
  | some e => rw [rowReduction_some hn]; rfl

theorem adjustmentState_insertedRow (id : ℤ) (n : NormalizedTransaction) :
    ((insertedRow id n).economicAdjustment, (insertedRow id n).economicNotificationSignedAt) =
      n.notification.elim (none, none) (reduceStep (none, none)) := by
  unfold insertedRow newRow NormalizedTransaction.reduction
  cases n.notification <;> rfl

theorem adjustmentState_of_some {x : String} {t : AppleTable} {r : AppleRow} (h : lookup x t = some r) :
    adjustmentState x t = (r.economicAdjustment, r.economicNotificationSignedAt) := by
  unfold adjustmentState
  rw [h]

theorem adjustmentState_of_none {x : String} {t : AppleTable} (h : lookup x t = none) :
    adjustmentState x t = (none, none) := by
  unfold adjustmentState
  rw [h]

/-- A completed save steps the stored pair by its notification, if it has one. -/
theorem adjustmentState_save {x : String} {c : SaveCall} {t t' : AppleTable} {out : AppleTransactionSaveResult}
    (h : saveAppleTransaction c t = .ok (out, t')) :
    adjustmentState x t' = (notificationOf x c).elim (adjustmentState x t) (reduceStep (adjustmentState x t)) := by
  obtain ⟨n, hn, -, hsave⟩ := save_ok h
  unfold notificationOf
  by_cases hx : n.transactionId = x
  · subst hx
    rw [recordOf_eq_some.mpr ⟨hn, rfl⟩, adjustmentState_of_some hsave.lookup_self]
    rcases hsave.row with ⟨r, hr, -, hrow, -⟩ | ⟨id, hr, hrow, -⟩ <;> rw [hrow]
    · rw [adjustmentState_of_some hr]
      exact adjustmentState_mergeRow n r
    · rw [adjustmentState_of_none hr]
      exact adjustmentState_insertedRow id n
  · have hrec : recordOf x c = none := by
      unfold recordOf
      rw [hn]
      exact if_neg hx
    unfold adjustmentState
    rw [hrec, hsave.lookup_of_ne (Ne.symm hx)]
    rfl

/-- The answer says whether the reduction of the stored pair accepted the
notification. -/
theorem save_accepted {x : String} {c : SaveCall} {t t' : AppleTable} {out : AppleTransactionSaveResult}
    {n : NormalizedTransaction} (h : saveAppleTransaction c t = .ok (out, t')) (hn : recordOf x c = some n) :
    out.economicAdjustmentAccepted =
      (n.reduction (adjustmentState x t).1 (adjustmentState x t).2).incomingAccepted := by
  obtain ⟨n', hn', -, hsave⟩ := save_ok h
  obtain ⟨hv, rfl⟩ := recordOf_eq_some.mp hn
  obtain rfl : n = n' := by rw [hv] at hn'; exact Except.ok.inj hn'
  rcases hsave.row with ⟨r, hr, -, -, hacc⟩ | ⟨id, hr, -, hacc⟩ <;> rw [hacc]
  · rw [adjustmentState_of_some hr]
    rfl
  · rw [adjustmentState_of_none hr]

/-- Over a run the stored pair is the fold of the notifications. -/
theorem adjustmentState_run {s t : AppleTable} {log : List (SaveCall × AppleTransactionSaveResult)}
    (h : Run saveAppleTransaction s log t) (x : String) :
    adjustmentState x t = (notifications x log).foldl reduceStep (adjustmentState x s) := by
  rw [h.foldl (adjustmentState x) (fun p c => (notificationOf x c).elim p (reduceStep p))
    fun c u out v hop => adjustmentState_save hop]
  unfold notifications
  rw [List.foldl_filterMap]
  congr 1
  funext p c
  cases notificationOf x c <;> rfl

/-! ### The law -/

/-- What the notifications `E` leave: the greatest date, and an adjustment
that depends on them in the order revoke, refund, anything else. -/
structure DeliveryLaw (E : List (EconomicAdjustment × ℤ)) (c : Option EconomicAdjustment) (w : ℤ) : Prop where
  greatest : IsGreatest {t | ∃ a, (a, t) ∈ E} w
  stored : c ≠ none
  revoked : c = some revoke ↔ ∃ t, (revoke, t) ∈ E
  refunded : (∀ t, (revoke, t) ∉ E) → (c = some refund ↔ (refund, w) ∈ E)

theorem mem_snoc {α : Type*} {l : List α} {x y : α} : y ∈ l ++ [x] ↔ y ∈ l ∨ y = x := by simp

/-- The greatest date after one more notification. -/
theorem isGreatest_snoc {E : List (EconomicAdjustment × ℤ)} {w : ℤ} (h : IsGreatest {t | ∃ a, (a, t) ∈ E} w)
    (a : EconomicAdjustment) (t : ℤ) : IsGreatest {u | ∃ b, (b, u) ∈ E ++ [(a, t)]} (max t w) := by
  constructor
  · rcases le_total t w with hle | hle
    · rw [max_eq_right hle]
      obtain ⟨b, hb⟩ := h.1
      exact ⟨b, mem_snoc.mpr (Or.inl hb)⟩
    · rw [max_eq_left hle]
      exact ⟨a, mem_snoc.mpr (Or.inr rfl)⟩
  · rintro u ⟨b, hb⟩
    rcases mem_snoc.mp hb with hb | hb
    · exact (h.2 ⟨b, hb⟩).trans (le_max_right _ _)
    · rw [(Prod.mk.inj hb).2]
      exact le_max_left _ _

/-- With no revoke around, the next adjustment is a refund only by a refund. -/
theorem next_eq_refund : ∀ (c : Option EconomicAdjustment) (a : EconomicAdjustment), c ≠ some revoke →
    a ≠ revoke → a ≠ revocationUnknown → (nextAppleEconomicAdjustment c a = refund ↔ a = refund) := by
  decide

theorem next_eq_revoke : ∀ (c : Option EconomicAdjustment) (a : EconomicAdjustment),
    nextAppleEconomicAdjustment c a = revoke ↔ c = some revoke ∨ a = revoke := by
  decide

/-- A refund of the stored date is refused only by a revoke. -/
theorem refund_refused : ∀ c : Option EconomicAdjustment, some refund ≠ c →
    adjustmentPriority (some (nextAppleEconomicAdjustment c refund)) ≤ adjustmentPriority c → c = some revoke := by
  decide

/-- Only a weaker adjustment gives way to one of the same date. -/
theorem stronger_ne_refund : ∀ (c : Option EconomicAdjustment) (a : EconomicAdjustment), a ≠ revoke →
    adjustmentPriority c < adjustmentPriority (some (nextAppleEconomicAdjustment c a)) → c ≠ some refund := by
  decide

/-- The first notification. -/
theorem deliveryLaw_single {a : EconomicAdjustment} (ha : a ≠ revocationUnknown) (t : ℤ) :
    ∃ c, reduceStep (none, none) (a, t) = (c, some t) ∧ DeliveryLaw [(a, t)] c t := by
  refine ⟨some (nextAppleEconomicAdjustment none a), by rw [reduceStep, reduceDated_first], ?_, by simp, ?_, ?_⟩
  · exact ⟨⟨a, by simp⟩, by rintro u ⟨b, hb⟩; simp_all⟩
  · rw [Option.some_inj, next_eq_revoke]
    simp [eq_comm]
  · intro hno
    have hrev : a ≠ revoke := fun h => hno t (by simp [h])
    rw [Option.some_inj, next_eq_refund none a (by simp) hrev ha]
    simp [eq_comm]

/-- One more notification. -/
theorem DeliveryLaw.step {E : List (EconomicAdjustment × ℤ)} {c : Option EconomicAdjustment} {w : ℤ}
    (h : DeliveryLaw E c w) {a : EconomicAdjustment} (ha : a ≠ revocationUnknown) (t : ℤ) :
    ∃ c', reduceStep (c, some w) (a, t) = (c', some (max t w)) ∧ DeliveryLaw (E ++ [(a, t)]) c' (max t w) := by
  refine ⟨(reduceDated c (some w) a t).economicAdjustment, ?_, isGreatest_snoc h.greatest a t, ?_, ?_, ?_⟩
  · unfold reduceStep
    rw [reduceDated_watermark]
    rfl
  · rcases reduceDated_cases c (some w) a t with ⟨-, hr⟩ | ⟨-, -, hr⟩ | ⟨-, -, -, hr⟩ | ⟨-, hr⟩ <;> rw [hr]
    · simp
    · exact h.stored
    · simp
    · exact h.stored
  · -- a revoke is stored if and only if one came
    have hmem : (∃ u, (revoke, u) ∈ E ++ [(a, t)]) ↔ c = some revoke ∨ a = revoke := by
      rw [h.revoked]
      simp only [mem_snoc, Prod.mk.injEq, exists_or, exists_and_left, exists_eq', and_true, eq_comm]
    rw [hmem]
    constructor
    · intro hc
      rcases reduceDated_cases c (some w) a t with ⟨-, hr⟩ | ⟨-, -, hr⟩ | ⟨-, h1, -, -⟩ | ⟨-, hr⟩
      · rw [hr] at hc
        exact (next_eq_revoke c a).mp (Option.some.inj hc)
      · rw [hr] at hc
        exact Or.inl hc
      · exact Or.inr h1
      · rw [hr] at hc
        exact Or.inl hc
    · rintro (hc | rfl)
      · exact reduceDated_keeps_revoke hc
      · exact reduceDated_revoke
  · intro hno
    have hE : ∀ u, (revoke, u) ∉ E := fun u hu => hno u (mem_snoc.mpr (Or.inl hu))
    have hrev : a ≠ revoke := fun he => hno t (mem_snoc.mpr (Or.inr (by rw [he])))
    have hc : c ≠ some revoke := fun he => by
      obtain ⟨u, hu⟩ := h.revoked.mp he
      exact hE u hu
    have ih := h.refunded hE
    have hle : ∀ u, (refund, u) ∈ E → u ≤ w := fun u hu => h.greatest.2 ⟨refund, hu⟩
    rw [mem_snoc, Prod.mk.injEq]
    rcases reduceDated_cases c (some w) a t with ⟨hap, hr⟩ | ⟨hw, hac, hr⟩ | ⟨-, h1, -, -⟩ | ⟨hdrop, hr⟩
    · rw [hr]
      dsimp only
      rw [Option.some_inj, next_eq_refund c a hc hrev ha]
      rcases hap with hnew | ⟨hw, -, hlt⟩
      · -- a newer one: no refund of its date was there before
        have htw := newer_some.mp hnew
        rw [max_eq_left (le_of_lt htw)]
        constructor
        · exact fun he => Or.inr ⟨he.symm, rfl⟩
        · rintro (hu | ⟨he, -⟩)
          · have := hle t hu
            omega
          · exact he.symm
      · -- a stronger one of the same date: what gave way was no refund
        obtain rfl := Option.some.inj hw
        have hnot : (refund, w) ∉ E := fun hu => stronger_ne_refund c a hrev hlt (ih.mpr hu)
        rw [max_self]
        constructor
        · exact fun he => Or.inr ⟨he.symm, rfl⟩
        · rintro (hu | ⟨he, -⟩)
          · exact absurd hu hnot
          · exact he.symm
    · obtain rfl := Option.some.inj hw
      rw [hr, max_self, ih]
      constructor
      · exact Or.inl
      · rintro (hu | ⟨he, -⟩)
        · exact hu
        · rw [← ih, ← hac, he]
    · exact absurd h1 hrev
    · rw [hr]
      dsimp only
      rcases hdrop with ⟨x, hx, htx, -⟩ | ⟨hw, hne, hweak⟩
      · obtain rfl := Option.some.inj hx
        rw [max_eq_right (le_of_lt htx), ih]
        constructor
        · exact Or.inl
        · rintro (hu | ⟨-, he⟩)
          · exact hu
          · omega
      · obtain rfl := Option.some.inj hw
        rw [max_self, ih]
        constructor
        · exact Or.inl
        · rintro (hu | ⟨he, -⟩)
          · exact hu
          · subst he
            exact absurd (refund_refused c hne hweak) hc

/-- The law holds of the fold of any notifications, in any order. -/
theorem deliveryLaw_foldl {E : List (EconomicAdjustment × ℤ)} (hne : E ≠ [])
    (hE : ∀ e ∈ E, e.1 ≠ revocationUnknown) :
    ∃ c w, E.foldl reduceStep (none, none) = (c, some w) ∧ DeliveryLaw E c w := by
  induction E using List.reverseRecOn with
  | nil => exact absurd rfl hne
  | append_singleton E e ih =>
    have he : e.1 ≠ revocationUnknown := hE e (by simp)
    rw [List.foldl_append, List.foldl_cons, List.foldl_nil]
    rcases eq_or_ne E [] with rfl | hE'
    · obtain ⟨c, h1, h2⟩ := deliveryLaw_single he e.2
      exact ⟨c, e.2, h1, h2⟩
    · obtain ⟨c, w, h1, h2⟩ := ih hE' fun e' he' => hE e' (List.mem_append_left _ he')
      obtain ⟨c', h3, h4⟩ := h2.step he e.2
      rw [h1]
      exact ⟨c', max e.2 w, h3, h4⟩

/-! ### The watermark along a run -/

theorem reduceStep_watermark (s : Option EconomicAdjustment × Option ℤ) (e : EconomicAdjustment × ℤ) :
    ∀ w ∈ s.2, ∃ w' ∈ (reduceStep s e).2, w ≤ w' := by
  intro w hw
  refine ⟨max e.2 w, ?_, le_max_right _ _⟩
  unfold reduceStep
  rw [reduceDated_watermark, hw]
  rfl

/-- The date of the stored adjustment never goes back. -/
theorem adjustmentState_watermark {s t : AppleTable} {log : List (SaveCall × AppleTransactionSaveResult)}
    (h : Run saveAppleTransaction s log t) (x : String) :
    ∀ w ∈ (adjustmentState x s).2, ∃ w' ∈ (adjustmentState x t).2, w ≤ w' := by
  rw [adjustmentState_run h x]
  generalize adjustmentState x s = p
  induction notifications x log generalizing p with
  | nil => exact fun w hw => ⟨w, hw, le_rfl⟩
  | cons e l ih =>
    intro w hw
    obtain ⟨w₁, h1, hle⟩ := reduceStep_watermark p e w hw
    obtain ⟨w₂, h2, hle'⟩ := ih (reduceStep p e) w₁ h1
    exact ⟨w₂, h2, hle.trans hle'⟩

/-- **Delivery order.** From a table with no adjustment stored for the
transaction `x`, after any saves that include at least one notification of
`x` (refunds, revokes and reversals, in any order, any of them again, other
saves in between): the adjustment is a revoke if and only if one came; with
no revoke it is a refund if and only if a refund carries the greatest date;
otherwise it is a reversal or an unknown revocation. The date of the
adjustment never goes back on the way and ends at the greatest date. -/
theorem adjustment_delivery_order {s t : AppleTable} {log : List (SaveCall × AppleTransactionSaveResult)}
    (h : Run saveAppleTransaction s log t) {x : String}
    (hs : ∀ r, lookup x s = some r → r.economicAdjustment = none ∧ r.economicNotificationSignedAt = none)
    (hne : notifications x log ≠ []) (hkind : ∀ e ∈ notifications x log, e.1 ≠ revocationUnknown) :
    (∃ r w, lookup x t = some r ∧
      (r.economicAdjustment = some revoke ↔ ∃ u, (revoke, u) ∈ notifications x log) ∧
      ((∀ u, (revoke, u) ∉ notifications x log) →
        (r.economicAdjustment = some refund ↔
          ∃ u, (refund, u) ∈ notifications x log ∧ ∀ e ∈ notifications x log, e.2 ≤ u) ∧
        (r.economicAdjustment ≠ some refund →
          r.economicAdjustment = some refundReversed ∨ r.economicAdjustment = some revocationUnknown)) ∧
      r.economicNotificationSignedAt = some w ∧ IsGreatest {u | ∃ e ∈ notifications x log, e.2 = u} w) ∧
    ∀ l m k u v, log = l ++ m ++ k → Run saveAppleTransaction s l u → Run saveAppleTransaction u m v →
      Run saveAppleTransaction v k t →
      ∀ w ∈ (adjustmentState x u).2, ∃ w' ∈ (adjustmentState x v).2, w ≤ w' := by
  refine ⟨?_, fun l m k u v _ _ hm _ => adjustmentState_watermark hm x⟩
  have hstart : adjustmentState x s = (none, none) := by
    cases hr : lookup x s with
    | none => exact adjustmentState_of_none hr
    | some r => obtain ⟨h1, h2⟩ := hs r hr; rw [adjustmentState_of_some hr, h1, h2]
  obtain ⟨c, w, hfold, hlaw⟩ := deliveryLaw_foldl hne hkind
  have hend : adjustmentState x t = (c, some w) := by rw [adjustmentState_run h x, hstart, hfold]
  cases hr : lookup x t with
  | none => rw [adjustmentState_of_none hr] at hend; simp at hend
  | some r =>
    rw [adjustmentState_of_some hr] at hend
    obtain ⟨hc, hw⟩ := Prod.mk.inj hend
    have hgreat : IsGreatest {u | ∃ e ∈ notifications x log, e.2 = u} w := by
      obtain ⟨⟨a, ha⟩, hub⟩ := hlaw.greatest
      refine ⟨⟨(a, w), ha, rfl⟩, ?_⟩
      rintro u ⟨e, he, rfl⟩
      exact hub ⟨e.1, he⟩
    refine ⟨r, w, rfl, ?_, fun hno => ⟨?_, fun hnr => ?_⟩, hw, hgreat⟩
    · rw [hc]
      exact hlaw.revoked
    · rw [hc, hlaw.refunded hno]
      constructor
      · exact fun hm => ⟨w, hm, fun e he => hgreat.2 ⟨e, he, rfl⟩⟩
      · rintro ⟨u, hm, hub⟩
        obtain ⟨e, he, hew⟩ := hgreat.1
        have h1 := hub e he
        have h2 := hgreat.2 ⟨_, hm, rfl⟩
        simp only at h2
        obtain rfl : u = w := by omega
        exact hm
    · have hnv : c ≠ some revoke := fun he => by
        obtain ⟨u, hu⟩ := hlaw.revoked.mp he
        exact hno u hu
      rw [hc] at hnr ⊢
      have hst := hlaw.stored
      cases c with
      | none => exact absurd rfl hst
      | some a => cases a <;> simp_all

/-- A reversal, an older revoke and an older refund. -/
def lateRevoke : List AppleTransaction :=
  [sampleNotification "refund_reversed" 5 none, sampleNotification "revoke" 4 (some 4),
    sampleNotification "refund" 3 (some 3)]

theorem adjustment_delivery_order_sample :
    ∃ r w, lookup "t" (sampleSaves sampleTable lateRevoke).2 = some r ∧
      (r.economicAdjustment = some revoke ↔
        ∃ u, (revoke, u) ∈ notifications "t" (sampleSaves sampleTable lateRevoke).1) ∧
      r.economicNotificationSignedAt = some w ∧
      IsGreatest {u | ∃ e ∈ notifications "t" (sampleSaves sampleTable lateRevoke).1, e.2 = u} w := by
  obtain ⟨r₀, hr₀, h1, h2, -⟩ := sampleTable_row
  obtain ⟨⟨r, w, hr, hrev, -, hw⟩, -⟩ := adjustment_delivery_order (x := "t") (run_sampleSaves sampleTable lateRevoke)
    (fun q hq => by rw [hr₀] at hq; rw [← Option.some.inj hq]; exact ⟨h1, h2⟩) (by decide +kernel) (by decide +kernel)
  exact ⟨r, w, hr, hrev, hw⟩

end Apple
end FuelNear

/-
# Refunded and revoked purchases never entitle

A row whose adjustment is a refund or a revoke has a revocation date, if
every notification of a refund or a revoke brings one (`RevocationDated`):
the merge takes the date with the adjustment, and afterwards keeps it for as
long as the adjustment stays. The readers leave such a row out, and a revoke
stays for good.

Key definitions: `RevocationDated`, `CarriesRevocation`, `Entitles`.
Key theorems: `RevocationDated.step`, `refunded_never_entitles`.
-/
import FuelNear.Apple.Readers
import FuelNear.Apple.Save

namespace FuelNear
namespace Apple

open EconomicAdjustment

/-- Refunded or revoked. -/
def IsRefund (c : Option EconomicAdjustment) : Prop := c = some refund ∨ c = some revoke

instance (c : Option EconomicAdjustment) : Decidable (IsRefund c) := instDecidableOr

/-- A refunded or revoked row has a revocation date. -/
def RevocationDated (r : AppleRow) : Prop := IsRefund r.economicAdjustment → r.revocationDate ≠ none

/-- A notification of a refund or a revoke carries a revocation date. -/
def CarriesRevocation (n : NormalizedTransaction) : Prop :=
  IsRefund n.economicAdjustment → n.revocationDate ≠ none

instance (n : NormalizedTransaction) : Decidable (CarriesRevocation n) := inferInstanceAs (Decidable (_ → _))

/-- A notification that leaves a refund or a revoke either brought it, and is
applied, or found it stored. -/
theorem applied_or_found : ∀ (c : Option EconomicAdjustment) (a : EconomicAdjustment) (w : Option ℤ),
    IsRefund (some (nextAppleEconomicAdjustment c a)) →
    (IsRefund (some a) ∧ applyIncomingRevocation (some a) c
      ⟨some (nextAppleEconomicAdjustment c a), w, true, true⟩ = true) ∨
    (IsRefund c ∧ applyIncomingRevocation (some a) c
      ⟨some (nextAppleEconomicAdjustment c a), w, true, true⟩ = false) := by
  intro c a w
  rcases c with _ | (_ | _ | _ | _) <;> cases a <;>
    simp [IsRefund, nextAppleEconomicAdjustment, applyIncomingRevocation]

/-- The merge keeps refunded rows dated. -/
theorem RevocationDated.step {n : NormalizedTransaction} {r : AppleRow} (hr : RevocationDated r)
    (hn : CarriesRevocation n) : RevocationDated (mergeRow n r) := by
  intro href
  rw [mergeRow_economicAdjustment] at href
  rw [mergeRow_revocationDate]
  cases hnot : n.notification with
  | none =>
    -- no notification: a stored refund or revoke preserves the stored date
    rw [rowReduction_none hnot] at href ⊢
    have hadj : n.economicAdjustment = none := by simp [NormalizedTransaction.economicAdjustment, hnot]
    have hpre : ∀ w, preservePersistedRevocation none r.economicAdjustment
        ⟨r.economicAdjustment, w, false, false⟩ = true := by
      intro w
      rcases href with h | h <;> simp only at h <;> rw [h] <;> rfl
    simp only [hadj, hpre, Bool.false_and, Bool.false_eq_true, if_false, Bool.not_true, Bool.and_false]
    exact hr href
  | some e =>
    obtain ⟨a, t⟩ := e
    have hadj : n.economicAdjustment = some a := by simp [NormalizedTransaction.economicAdjustment, hnot]
    have hbrings : IsRefund (some a) → n.revocationDate ≠ none := fun h => hn (by rw [hadj]; exact h)
    rw [rowReduction_some hnot] at href ⊢
    rw [hadj]
    rcases reduceDated_cases r.economicAdjustment r.economicNotificationSignedAt a t with
      ⟨-, hred⟩ | ⟨-, hac, hred⟩ | ⟨-, ha, -, hred⟩ | ⟨-, hred⟩ <;> rw [hred] at href ⊢
    · rcases applied_or_found r.economicAdjustment a (some t) href with ⟨h1, h2⟩ | ⟨h1, h2⟩
      · simp only [h2, Bool.and_self, if_true]
        exact hbrings h1
      · have hpre : preservePersistedRevocation (some a) r.economicAdjustment
            ⟨some (nextAppleEconomicAdjustment r.economicAdjustment a), some t, true, true⟩ = true := by
          simp [preservePersistedRevocation, h2]
        simp only [h2, hpre, Bool.and_false, Bool.false_eq_true, if_false, Bool.not_true]
        exact hr h1
    · -- the same adjustment at the same date: either date will do
      simp only [Bool.false_and, Bool.false_eq_true, if_false]
      split_ifs
      · exact hbrings (hac ▸ href)
      · exact hr href
    · subst ha
      simp only [applyIncomingRevocation, Bool.true_and]
      exact hbrings (Or.inr rfl)
    · simp only [Bool.false_and, Bool.false_eq_true, if_false, generalContextApplies, hadj, Option.isNone_some,
        Bool.or_self]
      exact hr href

/-- An inserted row is dated. -/
theorem revocationDated_insertedRow {n : NormalizedTransaction} (hn : CarriesRevocation n) (id : ℤ) :
    RevocationDated (insertedRow id n) := by
  intro href
  simp only [insertedRow, newRow] at href ⊢
  cases hnot : n.notification with
  | none => simp [NormalizedTransaction.reduction, hnot, IsRefund] at href
  | some e =>
    obtain ⟨a, t⟩ := e
    have hadj : n.economicAdjustment = some a := by simp [NormalizedTransaction.economicAdjustment, hnot]
    rw [NormalizedTransaction.reduction, hnot] at href
    dsimp only at href
    rw [reduceDated_first] at href
    dsimp only at href
    refine hn ?_
    rw [hadj]
    cases a with
    | refund => exact Or.inl rfl
    | revoke => exact Or.inr rfl
    | refundReversed => exact absurd href (by decide)
    | revocationUnknown => exact absurd href (by decide)

/-- A reader returns the row, for some user at some reference date. -/
def Entitles (t : AppleTable) (r : AppleRow) : Prop :=
  ∃ userId reference q, (getActiveSubscriptionForUser t userId reference = some q ∨
    loadActiveAppleSubscription t userId reference = some q) ∧ q.id = r.id

/-- A row with a revocation date entitles nobody. -/
theorem not_entitles {t : AppleTable} {r : AppleRow} (hr : r ∈ t) (h : r.revocationDate ≠ none) :
    ¬ Entitles t r := by
  rintro ⟨userId, reference, q, hq | hq, hid⟩
  · obtain ⟨h1, -, h3⟩ := getActiveSubscriptionForUser_spec hq
    obtain rfl : q = r := Sql.Table.eq_of_key h1 hr (k := .inl q.id) (by simp [AppleRow.keys])
      (by simp [AppleRow.keys, hid])
    exact h h3
  · obtain ⟨p, h1, h2, h3⟩ := loadActiveAppleSubscription_spec hq
    obtain rfl : p = r := Sql.Table.eq_of_key h1 hr (k := .inl p.id) (by simp [AppleRow.keys])
      (by simp [AppleRow.keys, h2, hid])
    exact h h3

/-- **Refunded purchases never entitle.** In every table reached by saves
from the empty one, if every refund and revoke among them carried a
revocation date: a row whose adjustment is a refund or a revoke has a
revocation date and is returned by neither reader; and a row that was a
revoke at some point of the run still is one at the end, and is returned by
neither reader. -/
theorem refunded_never_entitles {t : AppleTable} {log : List (SaveCall × AppleTransactionSaveResult)}
    (h : Run saveAppleTransaction Sql.Table.empty log t)
    (hcarries : ∀ e ∈ log, ∀ n, validateAppleTransaction e.1.2 = .ok n → CarriesRevocation n) :
    (∀ r ∈ t, IsRefund r.economicAdjustment → r.revocationDate ≠ none ∧ ¬ Entitles t r) ∧
    ∀ l m u, log = l ++ m → Run saveAppleTransaction Sql.Table.empty l u → Run saveAppleTransaction u m t →
      ∀ r ∈ u, r.economicAdjustment = some revoke →
      ∃ r' ∈ t, r'.transactionId = r.transactionId ∧ r'.economicAdjustment = some revoke ∧ ¬ Entitles t r' := by
  have hdated : ∀ r ∈ t, RevocationDated r := rows_invariant h
    (fun e he n hn => ⟨fun r hr => hr.step (hcarries e he n hn),
      revocationDated_insertedRow (hcarries e he n hn)⟩) (by simp [Sql.Table.mem_def, Sql.Table.empty])
  refine ⟨fun r hr href => ⟨hdated r hr href, not_entitles hr (hdated r hr href)⟩, ?_⟩
  intro l m u _ _ hrun r hr hrev
  obtain ⟨r', hr', hrev'⟩ := lookup_invariant (P := fun r => r.economicAdjustment = some revoke) hrun
    (fun n _ q hq => by
      rw [mergeRow_economicAdjustment]
      cases hnot : n.notification with
      | none => rw [rowReduction_none hnot]; exact hq
      | some e => rw [rowReduction_some hnot]; exact reduceDated_keeps_revoke hq)
    ⟨r, mem_iff_lookup.mp hr, hrev⟩
  have hmem := mem_of_lookup hr'
  exact ⟨r', hmem, transactionId_of_lookup hr', hrev', not_entitles hmem (hdated r' hmem (Or.inr hrev'))⟩

/-- The purchase, refunded. -/
def refundedPurchase : List AppleTransaction := [samplePurchase, sampleNotification "refund" 1 (some 1)]

theorem refunded_never_entitles_sample : ∃ r, lookup "t" (sampleSaves .empty refundedPurchase).2 = some r ∧
    r.revocationDate ≠ none ∧ ¬ Entitles (sampleSaves .empty refundedPurchase).2 r := by
  have hlog : ∀ e ∈ (sampleSaves .empty refundedPurchase).1,
      (validateAppleTransaction e.1.2).toOption.all (fun n => CarriesRevocation n) := by decide +kernel
  have hrow : ((lookup "t" (sampleSaves .empty refundedPurchase).2).map (·.economicAdjustment)) =
      some (some refund) := by decide +kernel
  obtain ⟨r, hr, hrefund⟩ := Option.map_eq_some_iff.mp hrow
  refine ⟨r, hr, (refunded_never_entitles (run_sampleSaves .empty refundedPurchase) fun e he n hn => ?_).1 r
    (mem_of_lookup hr) (Or.inl hrefund)⟩
  have h := hlog e he
  rw [hn] at h
  simpa [Except.toOption] using h

end Apple
end FuelNear

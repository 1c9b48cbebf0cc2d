/-
# Redelivery: a transaction saved again changes nothing

After a completed save the row has taken in all that the transaction can
give (`Absorbed`): its notification is settled, its general columns are no
later than the row's (or the notification is refused for good), its price is
stored or has lost to another. The merge of any other transaction keeps
this, and merging an absorbed transaction again reports no change.

Key definitions: `Absorbed`.
Key theorems: `absorbed_mergeRow`, `Absorbed.step`, `Absorbed.unchanged`,
`save_redelivered`.
-/
import FuelNear.Apple.Save

namespace FuelNear
namespace Apple

open EconomicAdjustment

/-! ### Ages -/

theorem isLater_self (x : Option ℤ) : isLater x x = false := by
  cases x <;> simp [isLater]

/-- What is not later than the stored date is not later than a later one. -/
theorem isLater_trans {x y z : Option ℤ} (h : isLater x z = false) (hy : isLater y z = true) :
    isLater x y = false := by
  cases x with
  | none => rfl
  | some t =>
    cases y with
    | none => simp [isLater] at hy
    | some u =>
      cases z with
      | none => simp [isLater] at h
      | some v =>
        simp [isLater] at h hy ⊢
        omega

/-- The signed date of the row moves to a later one or stays. -/
theorem isLater_mergeRow_signedDate {x : Option ℤ} {r : AppleRow} (h : isLater x r.signedDate = false)
    (m : NormalizedTransaction) : isLater x (mergeRow m r).signedDate = false := by
  rw [mergeRow_signedDate]
  split_ifs with hg
  · exact isLater_trans h (Bool.and_eq_true_iff.mp hg).2
  · exact h

/-! ### The price -/

/-- A price is stored, and the transaction's is another one or no later. -/
def PriceAbsorbed (n : NormalizedTransaction) (r : AppleRow) : Prop :=
  ∀ p c, n.price = some (p, c) → ¬ (r.priceMilliunits = none ∧ r.currency = none) ∧
    (r.priceMilliunits = some p ∧ r.currency = some c →
      isLater n.economicTransactionSignedAt r.economicTransactionSignedAt = false)

theorem PriceAbsorbed.congr {n : NormalizedTransaction} {r s : AppleRow} (h : PriceAbsorbed n r)
    (hrs : priceColumns s = priceColumns r) : PriceAbsorbed n s := by
  simp only [priceColumns, Prod.mk.injEq] at hrs
  obtain ⟨h1, h2, h3⟩ := hrs
  unfold PriceAbsorbed
  rw [h1, h2, h3]
  exact h

theorem priceAbsorbed_updatePrice (n : NormalizedTransaction) (r : AppleRow) :
    PriceAbsorbed n (updatePrice n r).1 := by
  intro p c hn
  unfold updatePrice
  rw [hn]
  dsimp only
  split_ifs with h1 h2 h3
  · exact ⟨by simp, fun _ => isLater_self _⟩
  · exact ⟨h1, fun _ => isLater_self _⟩
  · exact ⟨h1, fun _ => by simpa using h3⟩
  · exact ⟨h1, fun h => absurd h h2⟩

/-- The price rule of another transaction moves the date of the price only. -/
theorem PriceAbsorbed.updatePrice {n : NormalizedTransaction} {r : AppleRow} (h : PriceAbsorbed n r)
    (m : NormalizedTransaction) : PriceAbsorbed n (updatePrice m r).1 := by
  intro p c hn
  obtain ⟨hknown, hage⟩ := h p c hn
  unfold Apple.updatePrice
  split
  · exact ⟨hknown, hage⟩
  · split_ifs with h2 h3
    · exact ⟨hknown, fun heq => isLater_trans (hage heq) h3⟩
    · exact ⟨hknown, hage⟩
    · exact ⟨hknown, hage⟩

theorem PriceAbsorbed.unchanged {n : NormalizedTransaction} {r : AppleRow} (h : PriceAbsorbed n r) :
    (Apple.updatePrice n r).2 = false := by
  unfold Apple.updatePrice
  cases hn : n.price with
  | none => rfl
  | some x =>
    obtain ⟨p, c⟩ := x
    obtain ⟨hknown, hage⟩ := h p c hn
    dsimp only
    rw [if_neg hknown]
    split_ifs with h1 h2
    · exact absurd (hage h1) (by simp [h2])
    · rfl
    · rfl

/-! ### All three rules -/

/-- Merging the transaction into the row again changes nothing, now and after
any other merges. -/
structure Absorbed (n : NormalizedTransaction) (r : AppleRow) : Prop where
  adjustment : ∀ a t, n.notification = some (a, t) →
    Settled a t r.economicAdjustment r.economicNotificationSignedAt
  general : isLater n.signedDate r.signedDate = false ∨ ∃ a t, n.notification = some (a, t) ∧
    Refused a t r.economicAdjustment r.economicNotificationSignedAt
  price : PriceAbsorbed n r

/-- What was merged is absorbed. -/
theorem absorbed_mergeRow (n : NormalizedTransaction) (r : AppleRow) : Absorbed n (mergeRow n r) where
  adjustment a t hn := by
    rw [mergeRow_economicAdjustment, mergeRow_economicNotificationSignedAt, rowReduction_some hn]
    exact settled_reduceDated _ _ a t
  general := by
    by_cases hg : generalContextApplies n (rowReduction n r) r = true
    · refine Or.inl ?_
      rw [mergeRow_signedDate, if_pos hg]
      exact isLater_self _
    · have hoff := hg
      simp only [generalContextApplies, Bool.and_eq_true, Bool.or_eq_true, not_and, Bool.not_eq_true] at hoff
      cases hn : n.notification with
      | none =>
        refine Or.inl ?_
        rw [mergeRow_signedDate, if_neg hg]
        exact hoff (Or.inl (by simp [NormalizedTransaction.economicAdjustment, hn]))
      | some x =>
        obtain ⟨a, t⟩ := x
        cases hacc : (rowReduction n r).incomingAccepted with
        | true =>
          refine Or.inl ?_
          rw [mergeRow_signedDate, if_neg hg]
          exact hoff (Or.inr hacc)
        | false =>
          refine Or.inr ⟨a, t, rfl, ?_⟩
          rw [mergeRow_economicAdjustment, mergeRow_economicNotificationSignedAt]
          rw [rowReduction_some hn] at hacc ⊢
          exact (refused_reduceDated hacc).step a t
  price := (priceAbsorbed_updatePrice n r).congr (mergeRow_price n r)

theorem absorbed_insertedRow (id : ℤ) (n : NormalizedTransaction) : Absorbed n (insertedRow id n) where
  adjustment a t hn := by
    have h := settled_reduceDated none none a t
    simpa [insertedRow, newRow, NormalizedTransaction.reduction, hn] using h
  general := Or.inl (isLater_self _)
  price p c hn := by
    simp only [insertedRow, newRow, NormalizedTransaction.priceMilliunits, NormalizedTransaction.currency, hn]
    exact ⟨by simp, fun _ => isLater_self _⟩

/-- The merge of any transaction keeps what is absorbed. -/
theorem Absorbed.step {n : NormalizedTransaction} {r : AppleRow} (h : Absorbed n r) (m : NormalizedTransaction) :
    Absorbed n (mergeRow m r) where
  adjustment a t hn := by
    rw [mergeRow_economicAdjustment, mergeRow_economicNotificationSignedAt]
    have hs := h.adjustment a t hn
    cases hm : m.notification with
    | none => rw [rowReduction_none hm]; exact hs
    | some x => rw [rowReduction_some hm]; exact hs.step x.1 x.2
  general := by
    rcases h.general with hold | ⟨a, t, hn, href⟩
    · exact Or.inl (isLater_mergeRow_signedDate hold m)
    · refine Or.inr ⟨a, t, hn, ?_⟩
      rw [mergeRow_economicAdjustment, mergeRow_economicNotificationSignedAt]
      cases hm : m.notification with
      | none => rw [rowReduction_none hm]; exact href
      | some x => rw [rowReduction_some hm]; exact href.step x.1 x.2
  price := (h.price.updatePrice m).congr (mergeRow_price m r)

/-- Merging what is absorbed reports no change. -/
theorem Absorbed.unchanged {n : NormalizedTransaction} {r : AppleRow} (h : Absorbed n r) :
    (persist n (rowReduction n r) r).2 = false := by
  have hgen : generalContextApplies n (rowReduction n r) r = false := by
    rcases h.general with hold | ⟨a, t, hn, href⟩
    · simp [generalContextApplies, hold]
    · have hsome : n.economicAdjustment.isNone = false := by simp [NormalizedTransaction.economicAdjustment, hn]
      rw [generalContextApplies, rowReduction_some hn, reduceDated_of_refused href, hsome]
      rfl
  have hred : (rowReduction n r).changed = false := by
    cases hn : n.notification with
    | none => rw [rowReduction_none hn]
    | some x => rw [rowReduction_some hn]; exact reduceDated_of_settled (h.adjustment x.1 x.2 hn)
  simp only [persist, hgen, hred, Bool.false_eq_true, if_false, h.price.unchanged, Bool.or_self]

/-! ### Over a run -/

/-- The row of the answer has absorbed the transaction. -/
theorem SaveCompleted.absorbed {a : Accounts} {n : NormalizedTransaction} {t t' : AppleTable}
    {out : AppleTransactionSaveResult} (h : SaveCompleted a n t out t') : Absorbed n out.row := by
  rcases h.row with ⟨r, -, -, hrow, -⟩ | ⟨id, -, hrow, -⟩ <;> rw [hrow]
  · exact absorbed_mergeRow n r
  · exact absorbed_insertedRow id n

/-- Saving an absorbed transaction reports no change and changes nothing. -/
theorem saveExisting_absorbed {n : NormalizedTransaction} {r : AppleRow} {t : AppleTable} (hr : r ∈ t)
    (h : Absorbed n r) (hi : identityDiffers n r = false) :
    saveExisting n r t = .ok (⟨false, false, r, (rowReduction n r).incomingAccepted⟩, t) := by
  have hself : mergeRow n r = r := persist_unchanged n r h.unchanged
  have htable : t.update (fun x => x.id = r.id) (fun x => (persist n (rowReduction n r) x).1)
      (fun x => by rw [persist_keys]) = t := by
    refine Sql.Table.update_eq_self fun x hx hid => ?_
    obtain rfl : x = r := Sql.Table.eq_of_key hx hr (k := .inl x.id) (by simp [AppleRow.keys])
      (by simpa [AppleRow.keys] using hid)
    exact hself
  rw [saveExisting_eq t hi, h.unchanged, hself, htable]

/-- **Redelivery.** In every run of saves, a call that completed may be made
again at the end, whatever was saved in between and whatever became of the
accounts: it answers that nothing was created or changed, with the row that
is stored, and leaves the table as it was; or it is refused with an identity
conflict. -/
theorem save_redelivered {s t : AppleTable} {log : List (SaveCall × AppleTransactionSaveResult)}
    (h : Run saveAppleTransaction s log t) {c : SaveCall} {out : AppleTransactionSaveResult}
    (hc : (c, out) ∈ log) (a : Accounts) :
    (∃ r accepted, lookup out.row.transactionId t = some r ∧
      saveAppleTransaction (a, c.2) t = .ok (⟨false, false, r, accepted⟩, t)) ∨
    ∃ message, saveAppleTransaction (a, c.2) t = .error (.identityConflict message) := by
  obtain ⟨-, log', u, v, -, -, hop, hrun⟩ := h.split hc
  obtain ⟨n, hn, -, hsave⟩ := save_ok hop
  obtain ⟨r, hr, habs⟩ := lookup_invariant (P := Absorbed n) hrun (fun m _ r hr => hr.step m)
    ⟨out.row, hsave.lookup_self, hsave.absorbed⟩
  have hid : out.row.transactionId = n.transactionId := transactionId_of_lookup hsave.lookup_self
  have hcall : saveAppleTransaction (a, c.2) t = saveNormalized a n t := by
    unfold saveAppleTransaction
    rw [hn]
    rfl
  rw [hcall, hid]
  unfold saveNormalized
  rw [hr]
  dsimp only
  split_ifs with hact
  · cases hi : identityDiffers n r with
    | true =>
      refine Or.inr ⟨"transaction_id is already associated with a different Apple subscription", ?_⟩
      simp [saveExisting, hi]
    | false =>
      exact Or.inl ⟨r, _, rfl, saveExisting_absorbed (mem_of_lookup hr) habs hi⟩
  · exact Or.inr ⟨_, rfl⟩

/-- A purchase, its refund, the reversal of the refund, and a restore. -/
def sampleHistory : List AppleTransaction :=
  [samplePurchase, sampleNotification "refund" 10 (some 5), sampleNotification "refund_reversed" 20 none,
    sampleRestore 30 none]

/-- The refund is sent again after the reversal and the restore; the row they left
is not revoked. -/
theorem save_redelivered_sample :
    (lookup "t" (sampleSaves .empty sampleHistory).2).map (fun r => (r.signedDate, r.revocationDate)) =
      some (some 30, none) ∧
    ((∃ r accepted, lookup "t" (sampleSaves .empty sampleHistory).2 = some r ∧
      saveAppleTransaction (sampleAccounts, sampleNotification "refund" 10 (some 5))
          (sampleSaves .empty sampleHistory).2 =
        .ok (⟨false, false, r, accepted⟩, (sampleSaves .empty sampleHistory).2)) ∨
    ∃ message, saveAppleTransaction (sampleAccounts, sampleNotification "refund" 10 (some 5))
      (sampleSaves .empty sampleHistory).2 = .error (.identityConflict message)) := by
  refine ⟨by decide +kernel, ?_⟩
  have hlog : (sampleSaves .empty sampleHistory).1.map (fun e => (e.1.2, e.2.row.transactionId)) =
      sampleHistory.map (·, "t") := by decide +kernel
  have hsent : (sampleNotification "refund" 10 (some 5), "t") ∈ sampleHistory.map (·, "t") := by simp [sampleHistory]
  rw [← hlog] at hsent
  obtain ⟨⟨c, out⟩, hmem, he⟩ := List.mem_map.mp hsent
  obtain ⟨hc, hid⟩ := Prod.mk.inj he
  have hre := save_redelivered (run_sampleSaves .empty sampleHistory) hmem sampleAccounts
  rw [hc, hid] at hre
  exact hre

end Apple
end FuelNear

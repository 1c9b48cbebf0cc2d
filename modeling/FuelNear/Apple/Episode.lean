/-
# Refund episodes

One transaction is refunded and the refund reversed, perhaps several times,
and clients restore it meanwhile; the messages arrive in any order, any of
them again. `RefundEpisode` says what the messages are. The end is decided
when the newest economic notification is first saved: from there on the
older ones are dropped, and the row stays in one of three states
(`StandingRefund`, `LiftedRefund`, `StuckRevocation`). A newest refund
leaves a revocation date. A newest reversal removes it if a refund was
stored, and otherwise leaves the date as it finds it.

Key definitions: `RefundEpisode`, `FirstSaved`.
Key theorems: `StandingRefund.step`, `LiftedRefund.step`,
`StuckRevocation.step`, `refund_episode_end`, `refund_episode`.
-/
import FuelNear.Apple.Delivery

namespace FuelNear
namespace Apple

open EconomicAdjustment

/-! ### The messages -/

/-- A REFUND notification: with a revocation date. -/
def IsRefundNotification (n : NormalizedTransaction) : Prop :=
  ∃ d, n.notification = some (refund, d) ∧ n.signedDate = some d ∧ n.revocationDate ≠ none

/-- A REFUND_REVERSED notification: without one. -/
def IsReversalNotification (n : NormalizedTransaction) : Prop :=
  ∃ d, n.notification = some (refundReversed, d) ∧ n.signedDate = some d ∧ n.revocationDate = none

/-- The economic notifications among some records. -/
def notices (S : List NormalizedTransaction) : List (EconomicAdjustment × ℤ) := S.filterMap (·.notification)

/-- The latest of the economic notifications signed before `d` is a refund. -/
def RefundedBefore (S : List NormalizedTransaction) (d : ℤ) : Prop :=
  ∃ u, (refund, u) ∈ notices S ∧ u < d ∧ ∀ e ∈ notices S, e.2 < d → e.2 ≤ u

/-- A client restore: with a revocation date if and only if the latest
notification signed before it is a refund. -/
def IsClientRestore (S : List NormalizedTransaction) (n : NormalizedTransaction) : Prop :=
  n.notification = none ∧ ∃ d, n.signedDate = some d ∧ (n.revocationDate ≠ none ↔ RefundedBefore S d)

/-- The records of a refund episode of the stored row `r`: refunds, reversals
and restores, at least one of them economic, of pairwise distinct signed
dates later than the stored one. -/
structure RefundEpisode (r : AppleRow) (S : List NormalizedTransaction) : Prop where
  kinds : ∀ n ∈ S, IsRefundNotification n ∨ IsReversalNotification n ∨ IsClientRestore S n
  distinct : ∀ m ∈ S, ∀ n ∈ S, m.signedDate = n.signedDate → m = n
  later : ∀ n ∈ S, isLater n.signedDate r.signedDate = true
  economic : ∃ n ∈ S, n.notification ≠ none

theorem mem_notices {S : List NormalizedTransaction} {e : EconomicAdjustment × ℤ} :
    e ∈ notices S ↔ ∃ n ∈ S, n.notification = some e := by
  simp [notices]

theorem notices_records (x : String) (log : List (SaveCall × AppleTransactionSaveResult)) :
    notices (records x log) = notifications x log := by
  unfold notices records notifications notificationOf
  rw [List.filterMap_filterMap]

namespace RefundEpisode

variable {r : AppleRow} {S : List NormalizedTransaction}

/-- An economic record is signed at the date of its notification, and is a
refund or a reversal. -/
theorem notification (h : RefundEpisode r S) {n : NormalizedTransaction} (hn : n ∈ S) {a : EconomicAdjustment}
    {d : ℤ} (hnot : n.notification = some (a, d)) :
    n.signedDate = some d ∧ ((a = refund ∧ n.revocationDate ≠ none) ∨ (a = refundReversed ∧ n.revocationDate = none)) := by
  rcases h.kinds n hn with ⟨d', h1, h2, h3⟩ | ⟨d', h1, h2, h3⟩ | ⟨h1, -⟩ <;> rw [h1] at hnot
  · obtain ⟨rfl, rfl⟩ := Prod.mk.inj (Option.some.inj hnot)
    exact ⟨h2, Or.inl ⟨rfl, h3⟩⟩
  · obtain ⟨rfl, rfl⟩ := Prod.mk.inj (Option.some.inj hnot)
    exact ⟨h2, Or.inr ⟨rfl, h3⟩⟩
  · exact absurd hnot (by simp)

/-- Two economic records of one date are the same record. -/
theorem eq_of_date (h : RefundEpisode r S) {m n : NormalizedTransaction} (hm : m ∈ S) (hn : n ∈ S)
    {a b : EconomicAdjustment} {d : ℤ} (hmd : m.notification = some (a, d)) (hnd : n.notification = some (b, d)) :
    m = n :=
  h.distinct m hm n hn ((h.notification hm hmd).1.trans (h.notification hn hnd).1.symm)

/-- A restore that is signed after a reversal, the newest notification, has no
revocation date. -/
theorem restore_clear (h : RefundEpisode r S) {n k : NormalizedTransaction} {M d : ℤ} (hn : n ∈ S)
    (hrev : n.notification = some (refundReversed, M)) (hM : ∀ e ∈ notices S, e.2 ≤ M) (hk : k ∈ S)
    (hnone : k.notification = none) (hd : k.signedDate = some d) (hlt : M < d) : k.revocationDate = none := by
  rcases h.kinds k hk with ⟨d', h1, -⟩ | ⟨d', h1, -⟩ | ⟨-, d', h2, h3⟩
  · rw [hnone] at h1; exact absurd h1 (by simp)
  · rw [hnone] at h1; exact absurd h1 (by simp)
  · obtain rfl : d = d' := by rw [hd] at h2; exact Option.some.inj h2
    by_contra hne
    obtain ⟨u, hu, -, hlatest⟩ := h3.mp hne
    have hle := hlatest _ (mem_notices.mpr ⟨n, hn, hrev⟩) hlt
    have hge := hM _ hu
    simp only at hle hge
    obtain rfl : u = M := by omega
    obtain ⟨m, hm, hmu⟩ := mem_notices.mp hu
    have := h.eq_of_date hm hn hmu hrev
    subst this
    rw [hmu] at hrev
    exact absurd hrev (by simp)

end RefundEpisode

/-! ### Before the newest notification -/

/-- What is stored is older than `M`, and no revoke. -/
structure BeforeNewest (M : ℤ) (r : AppleRow) : Prop where
  older : Newer r.economicNotificationSignedAt M
  noRevoke : r.economicAdjustment ≠ some revoke

theorem next_ne_revoke {c : Option EconomicAdjustment} {a : EconomicAdjustment} (hc : c ≠ some revoke)
    (ha : a ≠ revoke) : nextAppleEconomicAdjustment c a ≠ revoke := fun h =>
  ((next_eq_revoke c a).mp h).elim hc ha

theorem BeforeNewest.step {M : ℤ} {r : AppleRow} (h : BeforeNewest M r) {n : NormalizedTransaction}
    (hn : ∀ a d, n.notification = some (a, d) → a ≠ revoke ∧ d < M) : BeforeNewest M (mergeRow n r) := by
  cases hnot : n.notification with
  | none =>
    refine ⟨?_, ?_⟩
    · rw [mergeRow_economicNotificationSignedAt, rowReduction_none hnot]
      exact h.older
    · rw [mergeRow_economicAdjustment, rowReduction_none hnot]
      exact h.noRevoke
  | some e =>
    obtain ⟨a, d⟩ := e
    obtain ⟨ha, hd⟩ := hn a d hnot
    refine ⟨?_, ?_⟩
    · rw [mergeRow_economicNotificationSignedAt, rowReduction_some hnot, reduceDated_watermark, newer_some]
      cases hw : r.economicNotificationSignedAt with
      | none => exact hd
      | some w =>
        have hwM : w < M := h.older w hw
        exact max_lt hd hwM
    · rw [mergeRow_economicAdjustment, rowReduction_some hnot]
      rcases reduceDated_cases r.economicAdjustment r.economicNotificationSignedAt a d with
        ⟨-, hr⟩ | ⟨-, -, hr⟩ | ⟨-, hrev, -⟩ | ⟨-, hr⟩
      · rw [hr]
        exact fun he => next_ne_revoke h.noRevoke ha (Option.some.inj he)
      · rw [hr]; exact h.noRevoke
      · exact absurd hrev ha
      · rw [hr]; exact h.noRevoke

/-! ### From the newest notification on -/

/-- The newest notification is a refund, and it stands. -/
structure StandingRefund (M : ℤ) (r : AppleRow) : Prop where
  adjustment : r.economicAdjustment = some refund
  date : r.economicNotificationSignedAt = some M
  revoked : r.revocationDate ≠ none

/-- The newest notification is a reversal, and it lifted the refund. -/
structure LiftedRefund (M : ℤ) (r : AppleRow) : Prop where
  adjustment : r.economicAdjustment = some refundReversed
  date : r.economicNotificationSignedAt = some M
  clear : r.revocationDate = none
  signed : ∃ s, r.signedDate = some s ∧ M ≤ s

/-- The newest notification is a reversal that found no refund stored; the
revocation date stays what it was then. -/
structure StuckRevocation (M : ℤ) (v : Option ℤ) (r : AppleRow) : Prop where
  adjustment : r.economicAdjustment = some revocationUnknown
  date : r.economicNotificationSignedAt = some M
  kept : r.revocationDate = v

section Newest

variable {r₀ : AppleRow} {S : List NormalizedTransaction} {n k : NormalizedTransaction} {M : ℤ} {r : AppleRow}

/-- An economic record other than the newest is dropped. -/
theorem reduction_older (h : RefundEpisode r₀ S) (hn : n ∈ S) {a b : EconomicAdjustment} {d : ℤ}
    (hnot : n.notification = some (a, M)) (hM : ∀ e ∈ notices S, e.2 ≤ M) (hk : k ∈ S) (hne : k ≠ n)
    (hknot : k.notification = some (b, d)) (hdate : r.economicNotificationSignedAt = some M) :
    rowReduction k r = ⟨r.economicAdjustment, r.economicNotificationSignedAt, false, false⟩ := by
  have hle : d ≤ M := hM _ (mem_notices.mpr ⟨k, hk, hknot⟩)
  have hlt : d < M := lt_of_le_of_ne hle fun he => hne (h.eq_of_date hk hn (he ▸ hknot) hnot)
  have hb : b ≠ revoke := by
    rcases (h.notification hk hknot).2 with ⟨rfl, -⟩ | ⟨rfl, -⟩ <;> decide
  rw [rowReduction_some hknot, hdate, reduceDated_older _ hb hlt]

theorem StandingRefund.step (hr : StandingRefund M r) (h : RefundEpisode r₀ S) (hn : n ∈ S)
    (hnot : n.notification = some (refund, M)) (hM : ∀ e ∈ notices S, e.2 ≤ M) (hk : k ∈ S) :
    StandingRefund M (mergeRow k r) := by
  cases hknot : k.notification with
  | none =>
    have hred := rowReduction_none hknot r
    have hpre : preservePersistedRevocation k.economicAdjustment r.economicAdjustment (rowReduction k r) = true := by
      rw [hred, hr.adjustment, NormalizedTransaction.economicAdjustment, hknot]
      rfl
    refine ⟨?_, ?_, ?_⟩
    · rw [mergeRow_economicAdjustment, hred]; exact hr.adjustment
    · rw [mergeRow_economicNotificationSignedAt, hred]; exact hr.date
    · rw [(mergeRow_preserved hpre).1]; exact hr.revoked
  | some e =>
    obtain ⟨b, d⟩ := e
    by_cases hne : k = n
    · -- the refund again: either date will do
      subst hne
      have hred : rowReduction k r = ⟨some refund, some M, true, false⟩ := by
        rw [rowReduction_some hnot, hr.adjustment, hr.date]
        simp [reduceDated]
      refine ⟨?_, ?_, ?_⟩
      · rw [mergeRow_economicAdjustment, hred]
      · rw [mergeRow_economicNotificationSignedAt, hred]
      · rw [mergeRow_revocationDate, hred]
        simp only [Bool.false_and, Bool.false_eq_true, if_false]
        have hrev : k.revocationDate ≠ none := by
          rcases (h.notification hk hnot).2 with ⟨-, h1⟩ | ⟨h1, -⟩
          · exact h1
          · exact absurd h1 (by decide)
        split_ifs
        · exact hrev
        · exact hr.revoked
    · have hred := reduction_older h hn hnot hM hk hne hknot hr.date
      refine ⟨?_, ?_, ?_⟩
      · rw [mergeRow_economicAdjustment, hred]; exact hr.adjustment
      · rw [mergeRow_economicNotificationSignedAt, hred]; exact hr.date
      · rw [(mergeRow_dropped (by simp [hknot]) (by rw [hred])).1]; exact hr.revoked

theorem LiftedRefund.step (hr : LiftedRefund M r) (h : RefundEpisode r₀ S) (hn : n ∈ S)
    (hnot : n.notification = some (refundReversed, M)) (hM : ∀ e ∈ notices S, e.2 ≤ M) (hk : k ∈ S) :
    LiftedRefund M (mergeRow k r) := by
  obtain ⟨s, hs, hMs⟩ := hr.signed
  cases hknot : k.notification with
  | none =>
    have hred := rowReduction_none hknot r
    obtain ⟨h1, h2⟩ := mergeRow_restore hknot (Or.inr hr.adjustment)
    have hadj : (mergeRow k r).economicAdjustment = some refundReversed := by
      rw [mergeRow_economicAdjustment, hred]; exact hr.adjustment
    have hdate : (mergeRow k r).economicNotificationSignedAt = some M := by
      rw [mergeRow_economicNotificationSignedAt, hred]; exact hr.date
    by_cases hl : isLater k.signedDate r.signedDate = true
    · -- a later restore: it is signed after the reversal
      obtain ⟨d, hd⟩ : ∃ d, k.signedDate = some d := by
        rcases h.kinds k hk with ⟨d, -, hd, -⟩ | ⟨d, -, hd, -⟩ | ⟨-, d, hd, -⟩ <;> exact ⟨d, hd⟩
      have hsd : s < d := by simpa [isLater, hd, hs] using hl
      rw [if_pos hl] at h1 h2
      exact ⟨hadj, hdate, h1.trans (h.restore_clear hn hnot hM hk hknot hd (by omega)),
        d, h2.trans hd, by omega⟩
    · rw [if_neg hl] at h1 h2
      exact ⟨hadj, hdate, h1.trans hr.clear, s, h2.trans hs, hMs⟩
  | some e =>
    obtain ⟨b, d⟩ := e
    by_cases hne : k = n
    · -- the reversal again: it is no later than the row
      subst hne
      have hred : rowReduction k r = ⟨some refundReversed, some M, true, false⟩ := by
        rw [rowReduction_some hnot, hr.adjustment, hr.date]
        simp [reduceDated]
      have hpre : preservePersistedRevocation k.economicAdjustment r.economicAdjustment (rowReduction k r) = true := by
        rw [hred, hr.adjustment, NormalizedTransaction.economicAdjustment, hnot]
        rfl
      have hgen : generalContextApplies k (rowReduction k r) r = false := by
        rw [generalContextApplies, (h.notification hk hnot).1, hs]
        simp [isLater, hMs]
      refine ⟨?_, ?_, ?_, s, ?_, hMs⟩
      · rw [mergeRow_economicAdjustment, hred]
      · rw [mergeRow_economicNotificationSignedAt, hred]
      · rw [(mergeRow_preserved hpre).1]; exact hr.clear
      · rw [mergeRow_signedDate, hgen]; exact hs
    · have hred := reduction_older h hn hnot hM hk hne hknot hr.date
      obtain ⟨h1, -, h2⟩ := mergeRow_dropped (n := k) (r := r) (by simp [hknot]) (by rw [hred])
      refine ⟨?_, ?_, h1.trans hr.clear, s, h2.trans hs, hMs⟩
      · rw [mergeRow_economicAdjustment, hred]; exact hr.adjustment
      · rw [mergeRow_economicNotificationSignedAt, hred]; exact hr.date

theorem StuckRevocation.step {v : Option ℤ} (hr : StuckRevocation M v r) (h : RefundEpisode r₀ S) (hn : n ∈ S)
    (hnot : n.notification = some (refundReversed, M)) (hM : ∀ e ∈ notices S, e.2 ≤ M) (hk : k ∈ S) :
    StuckRevocation M v (mergeRow k r) := by
  cases hknot : k.notification with
  | none =>
    have hred := rowReduction_none hknot r
    have hpre : preservePersistedRevocation k.economicAdjustment r.economicAdjustment (rowReduction k r) = true := by
      rw [hred, hr.adjustment, NormalizedTransaction.economicAdjustment, hknot]
      rfl
    refine ⟨?_, ?_, ?_⟩
    · rw [mergeRow_economicAdjustment, hred]; exact hr.adjustment
    · rw [mergeRow_economicNotificationSignedAt, hred]; exact hr.date
    · rw [(mergeRow_preserved hpre).1]; exact hr.kept
  | some e =>
    obtain ⟨b, d⟩ := e
    have hred : rowReduction k r = ⟨r.economicAdjustment, r.economicNotificationSignedAt, false, false⟩ := by
      by_cases hne : k = n
      · -- the reversal again: no stronger than what is stored
        subst hne
        rw [rowReduction_some hnot, hr.adjustment, hr.date]
        simp [reduceDated, nextAppleEconomicAdjustment]
      · exact reduction_older h hn hnot hM hk hne hknot hr.date
    refine ⟨?_, ?_, ?_⟩
    · rw [mergeRow_economicAdjustment, hred]; exact hr.adjustment
    · rw [mergeRow_economicNotificationSignedAt, hred]; exact hr.date
    · rw [(mergeRow_dropped (by simp [hknot]) (by rw [hred])).1]; exact hr.kept

/-- The newest notification, when it is first merged. -/
theorem newest_refund_first (hr : BeforeNewest M r) (h : RefundEpisode r₀ S) (hn : n ∈ S)
    (hnot : n.notification = some (refund, M)) : StandingRefund M (mergeRow n r) := by
  have hnext : nextAppleEconomicAdjustment r.economicAdjustment refund = refund :=
    (next_eq_refund _ _ hr.noRevoke (by decide) (by decide)).mpr rfl
  have hred : rowReduction n r = ⟨some refund, some M, true, true⟩ := by
    rw [rowReduction_some hnot, reduceDated_newer _ _ hr.older, hnext]
  have happ : applyIncomingRevocation n.economicAdjustment r.economicAdjustment (rowReduction n r) = true := by
    rw [hred, NormalizedTransaction.economicAdjustment, hnot]
    rfl
  refine ⟨?_, ?_, ?_⟩
  · rw [mergeRow_economicAdjustment, hred]
  · rw [mergeRow_economicNotificationSignedAt, hred]
  · rw [(mergeRow_applied (by rw [hred]) happ).1]
    rcases (h.notification hn hnot).2 with ⟨-, h1⟩ | ⟨h1, -⟩
    · exact h1
    · exact absurd h1 (by decide)

theorem newest_reversal_first (hr : BeforeNewest M r) (h : RefundEpisode r₀ S) (hn : n ∈ S)
    (hnot : n.notification = some (refundReversed, M)) :
    (r.economicAdjustment = some refund → LiftedRefund M (mergeRow n r)) ∧
    (r.economicAdjustment ≠ some refund → StuckRevocation M r.revocationDate (mergeRow n r)) := by
  have hred := reduceDated_newer r.economicAdjustment refundReversed hr.older
  rw [← rowReduction_some hnot] at hred
  refine ⟨fun hc => ?_, fun hc => ?_⟩
  · rw [hc] at hred
    have happ : applyIncomingRevocation n.economicAdjustment r.economicAdjustment (rowReduction n r) = true := by
      rw [hred, hc, NormalizedTransaction.economicAdjustment, hnot]
      rfl
    obtain ⟨hsigned, hkind⟩ := h.notification hn hnot
    refine ⟨?_, ?_, ?_, ?_⟩
    · rw [mergeRow_economicAdjustment, hred]; rfl
    · rw [mergeRow_economicNotificationSignedAt, hred]
    · rw [(mergeRow_applied (by rw [hred]) happ).1]
      rcases hkind with ⟨h1, -⟩ | ⟨-, h1⟩
      · exact absurd h1 (by decide)
      · exact h1
    · rw [mergeRow_signedDate]
      split_ifs with hg
      · exact ⟨M, hsigned, le_rfl⟩
      · rw [generalContextApplies, hred, hsigned] at hg
        cases hs : r.signedDate with
        | none => simp [isLater, hs] at hg
        | some s => exact ⟨s, rfl, by simpa [isLater, hs] using hg⟩
  · have hnext : nextAppleEconomicAdjustment r.economicAdjustment refundReversed = revocationUnknown := by
      have := hr.noRevoke
      simp [nextAppleEconomicAdjustment, hc, this]
    rw [hnext] at hred
    have hpre : preservePersistedRevocation n.economicAdjustment r.economicAdjustment (rowReduction n r) = true := by
      rw [hred, NormalizedTransaction.economicAdjustment, hnot]
      simp [preservePersistedRevocation, applyIncomingRevocation]
    refine ⟨?_, ?_, (mergeRow_preserved hpre).1⟩
    · rw [mergeRow_economicAdjustment, hred]
    · rw [mergeRow_economicNotificationSignedAt, hred]

end Newest

/-! ### Whole runs -/

section Whole

variable {s t : AppleTable} {log : List (SaveCall × AppleTransactionSaveResult)} {x : String}

/-- The row of `x` that the record `n` found when it was first saved. -/
def FirstSaved (s t : AppleTable) (log : List (SaveCall × AppleTransactionSaveResult)) (x : String)
    (n : NormalizedTransaction) (q : AppleRow) : Prop :=
  ∃ l c out m u v, log = l ++ (c, out) :: m ∧ Run saveAppleTransaction s l u ∧
    saveAppleTransaction c u = .ok (out, v) ∧ Run saveAppleTransaction v m t ∧
    recordOf x c = some n ∧ n ∉ records x l ∧ lookup x u = some q

/-- Every saved record of a stored transaction was saved a first time. -/
theorem exists_firstSaved (h : Run saveAppleTransaction s log t) {r₀ : AppleRow} (hr₀ : lookup x s = some r₀)
    {n : NormalizedTransaction} (hn : n ∈ records x log) : ∃ q, FirstSaved s t log x n q := by
  obtain ⟨e, he, hrec⟩ := mem_records.mp hn
  obtain ⟨l, c, out, m, u, v, hlog, hc, hl, hu, hop, hm⟩ :=
    h.split_first (p := fun e => recordOf x e.1 = some n) ⟨e, he, by simpa using hrec⟩
  obtain ⟨q, hq, -⟩ := lookup_invariant (P := fun _ => True) hu (fun _ _ _ _ => trivial) ⟨r₀, hr₀, trivial⟩
  refine ⟨q, l, c, out, m, u, v, hlog, hu, hop, hm, by simpa using hc, fun hmem => ?_, hq⟩
  obtain ⟨e', he', hrec'⟩ := mem_records.mp hmem
  simpa [hrec'] using hl e' he'

/-- What the newest notification leaves at the end. -/
theorem refund_episode_end {r₀ q : AppleRow} (hr₀ : lookup x s = some r₀) (hadj : r₀.economicAdjustment = none)
    (hdate : r₀.economicNotificationSignedAt = none) (hep : RefundEpisode r₀ (records x log))
    {n : NormalizedTransaction} {a : EconomicAdjustment} {M : ℤ} (hnot : n.notification = some (a, M))
    (hM : ∀ e ∈ notices (records x log), e.2 ≤ M) (hfirst : FirstSaved s t log x n q) :
    ∃ r, lookup x t = some r ∧ (a = refund → r.revocationDate ≠ none) ∧
      (a = refundReversed → (r.revocationDate = none ↔
        q.economicAdjustment = some refund ∨ q.revocationDate = none)) := by
  obtain ⟨l, c, out, m, u, v, rfl, hu, hop, hm, hrec, hnew, hq⟩ := hfirst
  have hrecords : records x (l ++ (c, out) :: m) = records x l ++ n :: records x m := by
    rw [records_append]
    simp [records, hrec]
  rw [hrecords] at hep hM
  have hn : n ∈ records x l ++ n :: records x m := by simp
  have hsub : ∀ k ∈ records x m, k ∈ records x l ++ n :: records x m := fun k hk => by simp [hk]
  -- before: everything stored is older
  have hbefore : BeforeNewest M q := by
    obtain ⟨q', hq', hb⟩ := lookup_invariant (P := BeforeNewest M) hu (fun k hk r hr => hr.step fun b d hknot => by
        have hk' : k ∈ records x l ++ n :: records x m := List.mem_append_left _ hk
        refine ⟨?_, lt_of_le_of_ne (hM _ (mem_notices.mpr ⟨k, hk', hknot⟩)) fun he => ?_⟩
        · rcases (hep.notification hk' hknot).2 with ⟨rfl, -⟩ | ⟨rfl, -⟩ <;> decide
        · exact hnew (hep.eq_of_date hk' hn (he ▸ hknot) hnot ▸ hk))
      ⟨r₀, hr₀, by rw [hdate]; exact newer_none M, by rw [hadj]; simp⟩
    rw [hq] at hq'
    exact Option.some.inj hq' ▸ hb
  have hv : lookup x v = some (mergeRow n q) := by
    rw [lookup_save hop hq, hrec]
    rfl
  cases a with
  | refund =>
    obtain ⟨r, hr, hst⟩ := lookup_invariant (P := StandingRefund M) hm
      (fun k hk r hr => hr.step hep hn hnot hM (hsub k hk)) ⟨_, hv, newest_refund_first hbefore hep hn hnot⟩
    exact ⟨r, hr, fun _ => hst.revoked, fun h => absurd h (by decide)⟩
  | refundReversed =>
    obtain ⟨h1, h2⟩ := newest_reversal_first hbefore hep hn hnot
    by_cases hc : q.economicAdjustment = some refund
    · obtain ⟨r, hr, hst⟩ := lookup_invariant (P := LiftedRefund M) hm
        (fun k hk r hr => hr.step hep hn hnot hM (hsub k hk)) ⟨_, hv, h1 hc⟩
      exact ⟨r, hr, fun h => absurd h (by decide), fun _ => iff_of_true hst.clear (Or.inl hc)⟩
    · obtain ⟨r, hr, hst⟩ := lookup_invariant (P := StuckRevocation M q.revocationDate) hm
        (fun k hk r hr => hr.step hep hn hnot hM (hsub k hk)) ⟨_, hv, h2 hc⟩
      refine ⟨r, hr, fun h => absurd h (by decide), fun _ => ?_⟩
      rw [hst.kept]
      exact ⟨Or.inr, fun h => h.resolve_left hc⟩
  | revoke =>
    rcases (hep.notification hn hnot).2 with ⟨h, -⟩ | ⟨h, -⟩ <;> exact absurd h (by decide)
  | revocationUnknown =>
    rcases (hep.notification hn hnot).2 with ⟨h, -⟩ | ⟨h, -⟩ <;> exact absurd h (by decide)

/-- **Refund episodes.** After the messages of a refund episode of a stored
transaction without revocation or adjustment, saved in any order, any of them
again and other transactions in between: the revocation date is gone if and
only if the newest economic notification is a reversal that, when it was
first saved, found a refund stored or no revocation date. -/
theorem refund_episode (h : Run saveAppleTransaction s log t) {r₀ : AppleRow} (hr₀ : lookup x s = some r₀)
    (hadj : r₀.economicAdjustment = none) (hdate : r₀.economicNotificationSignedAt = none)
    (hep : RefundEpisode r₀ (records x log)) :
    ∃ r, lookup x t = some r ∧ (r.revocationDate = none ↔
      ∃ n M q, n.notification = some (refundReversed, M) ∧ (∀ e ∈ notifications x log, e.2 ≤ M) ∧
        FirstSaved s t log x n q ∧ (q.economicAdjustment = some refund ∨ q.revocationDate = none)) := by
  rw [← notices_records]
  have hne : notices (records x log) ≠ [] := by
    obtain ⟨n, hn, hnot⟩ := hep.economic
    obtain ⟨e, he⟩ := Option.ne_none_iff_exists'.mp hnot
    exact List.ne_nil_of_mem (mem_notices.mpr ⟨n, hn, he⟩)
  have hkind : ∀ e ∈ notices (records x log), e.1 ≠ revocationUnknown := by
    intro e he
    obtain ⟨n, hn, hnot⟩ := mem_notices.mp he
    rcases (hep.notification hn hnot).2 with ⟨h1, -⟩ | ⟨h1, -⟩ <;> rw [h1] <;> decide
  obtain ⟨c, M, -, hlaw⟩ := deliveryLaw_foldl hne hkind
  obtain ⟨⟨a, ha⟩, hub⟩ := hlaw.greatest
  have hM : ∀ e ∈ notices (records x log), e.2 ≤ M := fun e he => hub ⟨e.1, he⟩
  obtain ⟨n, hn, hnot⟩ := mem_notices.mp ha
  obtain ⟨q, hq⟩ := exists_firstSaved h hr₀ hn
  obtain ⟨r, hr, hrefund, hreversed⟩ := refund_episode_end hr₀ hadj hdate hep hnot hM hq
  refine ⟨r, hr, fun hclear => ?_, ?_⟩
  · rcases (hep.notification hn hnot).2 with ⟨rfl, -⟩ | ⟨rfl, -⟩
    · exact absurd hclear (hrefund rfl)
    · exact ⟨n, M, q, hnot, hM, hq, (hreversed rfl).mp hclear⟩
  · rintro ⟨n', M', q', hnot', hM', hq', hstate⟩
    obtain ⟨r', hr', -, hreversed'⟩ := refund_episode_end hr₀ hadj hdate hep hnot' hM' hq'
    rw [hr] at hr'
    rw [Option.some.inj hr']
    exact (hreversed' rfl).mpr hstate

end Whole

/-! ### A reversal that overtakes its refund -/

/-- The restore shows the revocation, the reversal arrives before its refund. -/
def overtakenRefund : List AppleTransaction :=
  [sampleRestore 2 (some 1), sampleNotification "refund_reversed" 3 none, sampleNotification "refund" 1 (some 1)]

/-- The columns of some records that an episode is about. -/
def episodeColumns (S : List NormalizedTransaction) :
    List (Option (EconomicAdjustment × ℤ) × Option ℤ × Option ℤ) :=
  S.map fun n => (n.notification, n.signedDate, n.revocationDate)

theorem refundEpisode_of_columns {r : AppleRow} (hr : r.signedDate = some 0) {S : List NormalizedTransaction}
    (h : episodeColumns S =
      [(none, some 2, some 1), (some (refundReversed, 3), some 3, none), (some (refund, 1), some 1, some 1)]) :
    RefundEpisode r S := by
  simp only [episodeColumns, List.map_eq_cons_iff, List.map_eq_nil_iff, Prod.mk.injEq] at h
  obtain ⟨n₁, _, rfl, ⟨h₁, h₁', h₁''⟩, n₂, _, rfl, ⟨h₂, h₂', h₂''⟩, n₃, _, rfl, ⟨h₃, h₃', h₃''⟩, rfl⟩ := h
  have hnotices : notices [n₁, n₂, n₃] = [(refundReversed, 3), (refund, 1)] := by
    simp [notices, h₁, h₂, h₃]
  refine ⟨?_, ?_, ?_, n₂, by simp, by simp [h₂]⟩
  · intro n hn
    simp only [List.mem_cons, List.not_mem_nil, or_false] at hn
    rcases hn with rfl | rfl | rfl
    · refine Or.inr (Or.inr ⟨h₁, 2, h₁', iff_of_true (by simp [h₁'']) ⟨1, ?_⟩⟩)
      rw [hnotices]
      refine ⟨by simp, by decide, ?_⟩
      simp
    · exact Or.inr (Or.inl ⟨3, h₂, h₂', h₂''⟩)
    · exact Or.inl ⟨1, h₃, h₃', by simp [h₃'']⟩
  · intro m hm n hn heq
    simp only [List.mem_cons, List.not_mem_nil, or_false] at hm hn
    rcases hm with rfl | rfl | rfl <;> rcases hn with rfl | rfl | rfl <;> simp_all
  · intro n hn
    simp only [List.mem_cons, List.not_mem_nil, or_false] at hn
    rcases hn with rfl | rfl | rfl <;> simp [isLater, hr, h₁', h₂', h₃']

theorem overtakenRefund_episode : ∃ r₀, lookup "t" sampleTable = some r₀ ∧ r₀.economicAdjustment = none ∧
    r₀.economicNotificationSignedAt = none ∧ r₀.revocationDate = none ∧
    RefundEpisode r₀ (records "t" (sampleSaves sampleTable overtakenRefund).1) := by
  obtain ⟨r₀, hr₀, h1, h2, h3, h4⟩ := sampleTable_row
  exact ⟨r₀, hr₀, h1, h2, h3, refundEpisode_of_columns h4 (by decide +kernel)⟩

/-- In this episode the reversal found no refund stored, but a date. -/
theorem refund_episode_sample :
    ∃ r, lookup "t" (sampleSaves sampleTable overtakenRefund).2 = some r ∧ (r.revocationDate = none ↔
      ∃ n M q, n.notification = some (refundReversed, M) ∧
        (∀ e ∈ notifications "t" (sampleSaves sampleTable overtakenRefund).1, e.2 ≤ M) ∧
        FirstSaved sampleTable (sampleSaves sampleTable overtakenRefund).2
          (sampleSaves sampleTable overtakenRefund).1 "t" n q ∧
        (q.economicAdjustment = some refund ∨ q.revocationDate = none)) := by
  obtain ⟨r₀, hr₀, h1, h2, -, hep⟩ := overtakenRefund_episode
  exact refund_episode (run_sampleSaves sampleTable overtakenRefund) hr₀ h1 h2 hep

/-- Not every episode whose newest notification is a reversal ends without a
revocation date. -/
theorem refund_episode_overtaken : ¬ ∀ (s t : AppleTable) (log : List (SaveCall × AppleTransactionSaveResult))
    (x : String) (r₀ : AppleRow), Run saveAppleTransaction s log t → lookup x s = some r₀ →
    r₀.economicAdjustment = none → r₀.economicNotificationSignedAt = none → r₀.revocationDate = none →
    RefundEpisode r₀ (records x log) →
    ∃ r, lookup x t = some r ∧ (r.revocationDate = none ↔
      ∃ M, (refundReversed, M) ∈ notifications x log ∧ ∀ e ∈ notifications x log, e.2 ≤ M) := by
  intro hclaim
  obtain ⟨r₀, hr₀, h1, h2, h3, hep⟩ := overtakenRefund_episode
  obtain ⟨r, hr, hiff⟩ := hclaim _ _ _ "t" r₀ (run_sampleSaves sampleTable overtakenRefund) hr₀ h1 h2 h3 hep
  have hnot : notifications "t" (sampleSaves sampleTable overtakenRefund).1 = [(refundReversed, 3), (refund, 1)] := by
    decide +kernel
  have hend : (lookup "t" (sampleSaves sampleTable overtakenRefund).2).map (·.revocationDate) = some (some 1) := by
    decide +kernel
  rw [hr, Option.map_some, Option.some_inj] at hend
  rw [hnot, hend] at hiff
  exact absurd (hiff.mpr ⟨3, by simp, by simp⟩) (by simp)

end Apple
end FuelNear

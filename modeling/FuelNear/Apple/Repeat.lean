/-
# The latest notification, signed again

After the newest accepted economic notification of a row, only itself and
older ones can still be accepted, and of the older ones only a revoke
(`AfterNewest`). Signed again under a later date it is reduced once more:
every adjustment is a fixed point of its own transition but the reversal,
which a second reversal turns into an unknown revocation. The revocation and
the price stay; what the row is worth can only follow its context.

Key definitions: `NewestAccepted`, `resigned`, `withContext`, `Unchanged`.
Key theorems: `next_fixed`, `AfterNewest.step_refused`, `AfterNewest.step_older`,
`AfterNewest.step_self`, `afterNewest_run`, `derive_withContext_iff`, `resigned_unchanged_iff`.
-/
import FuelNear.Apple.Delivery
import FuelNear.Apple.Economics
import FuelNear.Apple.Redelivery
import FuelNear.Apple.Refunded

namespace FuelNear
namespace Apple

open EconomicAdjustment

/-! ### The repeat -/

/-- The accepted economic records of the transaction `x`. -/
def acceptedRecords (x : String) (log : List (SaveCall × AppleTransactionSaveResult)) : List NormalizedTransaction :=
  records x (log.filter fun e => e.2.economicAdjustmentAccepted)

/-- `n` brought the notification `(a, d)`, it was accepted, and every other
accepted notification of the transaction is older. Of two accepted notifications
with the same date, the latest of all, neither is the newest. -/
def NewestAccepted (x : String) (log : List (SaveCall × AppleTransactionSaveResult)) (n : NormalizedTransaction)
    (a : EconomicAdjustment) (d : ℤ) : Prop :=
  n ∈ acceptedRecords x log ∧ n.notification = some (a, d) ∧
    ∀ m ∈ acceptedRecords x log, m ≠ n → ∀ e ∈ m.notification, e.2 < d

instance (x : String) (log : List (SaveCall × AppleTransactionSaveResult)) (n : NormalizedTransaction)
    (a : EconomicAdjustment) (d : ℤ) : Decidable (NewestAccepted x log n a d) :=
  inferInstanceAs (Decidable (_ ∧ _ ∧ _))

/-- The same event signed again: only the dates of the signatures differ. -/
def resigned (n : NormalizedTransaction) (a : EconomicAdjustment) (d : ℤ) (signedDate priceSignedAt : Option ℤ) :
    NormalizedTransaction :=
  { n with signedDate, economicTransactionSignedAt := priceSignedAt, notification := some (a, d) }

/-- The row with the environment, the ownership type and the reason that the
record reports, as the general rule writes them. -/
def withContext (n : NormalizedTransaction) (r : AppleRow) : AppleRow :=
  { r with
    environment := n.environment
    ownershipType := n.ownershipType.or r.ownershipType
    transactionReason := n.transactionReason.or r.transactionReason }

/-- What the creator state shows of the base status, below an adjustment: below an
unknown revocation whether it is not economic, below the others whether it is a
candidate for a confirmed one. -/
def baseShown (adjustment : Option EconomicAdjustment) (base : AppleBaseEconomicStatus) : Bool :=
  match adjustment with
  | some revocationUnknown => base = .nonEconomic
  | _ => base = .confirmedCandidate

/-- The adjustment, the revocation and what the row is worth are the same. -/
def Unchanged (r r' : AppleRow) : Prop :=
  r'.economicAdjustment = r.economicAdjustment ∧ r'.revocationDate = r.revocationDate ∧
    r'.revocationReason = r.revocationReason ∧
    deriveAppleCreatorEconomicState r' = deriveAppleCreatorEconomicState r

instance (r r' : AppleRow) : Decidable (Unchanged r r') := inferInstanceAs (Decidable (_ ∧ _ ∧ _ ∧ _))

/-! ### After the newest notification -/

/-- Reducing an adjustment that it left changes nothing, for every
notification but a reversal that lifted a refund. -/
theorem next_fixed : ∀ (c : Option EconomicAdjustment) (a : EconomicAdjustment),
    (nextAppleEconomicAdjustment c a = refundReversed ∧ a = refundReversed) ∨
    (nextAppleEconomicAdjustment c a ≠ refundReversed ∧
      nextAppleEconomicAdjustment (some (nextAppleEconomicAdjustment c a)) a = nextAppleEconomicAdjustment c a) := by
  decide

/-- What the newest accepted notification `(a, d)` of the record `n` leaves,
for as long as it stays the newest. -/
structure AfterNewest (n : NormalizedTransaction) (a : EconomicAdjustment) (d : ℤ) (r : AppleRow) : Prop where
  date : r.economicNotificationSignedAt = some d
  fixed : ∃ c, r.economicAdjustment = some c ∧ ((c = refundReversed ∧ a = refundReversed) ∨
    (c ≠ refundReversed ∧ nextAppleEconomicAdjustment (some c) a = c))
  revocation : IsRefund (some a) → r.economicAdjustment = some a →
    r.revocationDate = n.revocationDate ∧ r.revocationReason = n.revocationReason
  price : PriceAbsorbed n r

theorem isRefund_applied : ∀ a : EconomicAdjustment, IsRefund (some a) → ∀ c w changed,
    applyIncomingRevocation (some a) c ⟨some a, w, true, changed⟩ = true := by
  intro a ha c w changed
  rcases ha with ha | ha <;> rw [Option.some_inj] at ha <;> subst ha <;> simp [applyIncomingRevocation]

/-- The newest notification, when it is first accepted. -/
theorem afterNewest_mergeRow {n : NormalizedTransaction} {a : EconomicAdjustment} {d : ℤ} {r : AppleRow}
    (hn : n.notification = some (a, d)) (hold : Newer r.economicNotificationSignedAt d) :
    AfterNewest n a d (mergeRow n r) := by
  have hred := reduceDated_newer r.economicAdjustment a hold
  rw [← rowReduction_some hn] at hred
  refine ⟨?_, ⟨_, by rw [mergeRow_economicAdjustment, hred], next_fixed _ a⟩, fun ha hadj => ?_,
    (priceAbsorbed_updatePrice n r).congr (mergeRow_price n r)⟩
  · rw [mergeRow_economicNotificationSignedAt, hred]
  · rw [mergeRow_economicAdjustment, hred] at hadj
    dsimp only at hadj
    refine mergeRow_applied (by rw [hred]) ?_
    rw [hred, NormalizedTransaction.economicAdjustment, hn, hadj]
    exact isRefund_applied a ha _ _ _

theorem afterNewest_insertedRow {n : NormalizedTransaction} {a : EconomicAdjustment} {d : ℤ}
    (hn : n.notification = some (a, d)) (id : ℤ) : AfterNewest n a d (insertedRow id n) := by
  have hred : n.reduction none none = ⟨some (nextAppleEconomicAdjustment none a), some d, true, true⟩ := by
    unfold NormalizedTransaction.reduction
    rw [hn]
    exact reduceDated_first a d
  refine ⟨?_, ⟨_, ?_, next_fixed none a⟩, fun _ _ => ⟨rfl, rfl⟩, (absorbed_insertedRow id n).price⟩
  · simp [insertedRow, newRow, hred]
  · simp [insertedRow, newRow, hred]

section Step

variable {n k : NormalizedTransaction} {a : EconomicAdjustment} {d : ℤ} {r : AppleRow}

/-- A record that is not accepted leaves it so. -/
theorem AfterNewest.step_refused (hr : AfterNewest n a d r) (hk : (rowReduction k r).incomingAccepted = false) :
    AfterNewest n a d (mergeRow k r) := by
  have hred := rowReduction_refused hk
  have hadj : (mergeRow k r).economicAdjustment = r.economicAdjustment := by
    rw [mergeRow_economicAdjustment, hred]
  refine ⟨?_, by rw [hadj]; exact hr.fixed, fun ha hadj' => ?_, (hr.price.updatePrice k).congr (mergeRow_price k r)⟩
  · rw [mergeRow_economicNotificationSignedAt, hred]
    exact hr.date
  · rw [hadj] at hadj'
    obtain ⟨h1, h2⟩ := hr.revocation ha hadj'
    by_cases hnot : k.notification = none
    · have hpre : preservePersistedRevocation k.economicAdjustment r.economicAdjustment (rowReduction k r) = true := by
        rw [hred, hadj', NormalizedTransaction.economicAdjustment, hnot]
        rcases ha with ha | ha <;> rw [ha] <;> rfl
      exact ⟨(mergeRow_preserved hpre).1.trans h1, (mergeRow_preserved hpre).2.trans h2⟩
    · obtain ⟨h3, h4, -⟩ := mergeRow_dropped hnot hk
      exact ⟨h3.trans h1, h4.trans h2⟩

/-- An older notification leaves it so, even an older revoke. -/
theorem AfterNewest.step_older (hr : AfterNewest n a d r) {b : EconomicAdjustment} {u : ℤ}
    (hk : k.notification = some (b, u)) (hu : u < d) : AfterNewest n a d (mergeRow k r) := by
  rcases reduceDated_cases r.economicAdjustment r.economicNotificationSignedAt b u with
    ⟨hap, -⟩ | ⟨hw, -, -⟩ | ⟨-, -, hne, hred⟩ | ⟨-, hred⟩
  · rw [hr.date] at hap
    rcases hap with hap | ⟨hap, -⟩
    · exact absurd (newer_some.mp hap) (not_lt.mpr (le_of_lt hu))
    · exact absurd (Option.some.inj hap) (ne_of_gt hu)
  · rw [hr.date] at hw
    exact absurd (Option.some.inj hw) (ne_of_gt hu)
  · -- the older revoke: from now on the row is revoked
    rw [← rowReduction_some hk] at hred
    have hadj : (mergeRow k r).economicAdjustment = some revoke := by rw [mergeRow_economicAdjustment, hred]
    refine ⟨?_, ⟨revoke, hadj, Or.inr ⟨by decide, next_of_revoke a⟩⟩, fun _ ha => ?_,
      (hr.price.updatePrice k).congr (mergeRow_price k r)⟩
    · rw [mergeRow_economicNotificationSignedAt, hred]
      exact hr.date
    · rw [hadj, Option.some_inj] at ha
      subst ha
      obtain ⟨c, hc, h | h⟩ := hr.fixed
      · exact absurd h.2 (by decide)
      · rw [next_revoke] at h
        exact absurd (hc.trans (congrArg some h.2.symm)) hne
  · rw [← rowReduction_some hk] at hred
    exact hr.step_refused (by rw [hred])

/-- The notification itself, saved again, leaves it so. -/
theorem AfterNewest.step_self (hr : AfterNewest n a d r) (hn : n.notification = some (a, d)) :
    AfterNewest n a d (mergeRow n r) := by
  obtain ⟨c, hc, hfix⟩ := hr.fixed
  rcases reduceDated_cases r.economicAdjustment r.economicNotificationSignedAt a d with
    ⟨hap, -⟩ | ⟨-, hac, hred⟩ | ⟨⟨x, hx, hlt⟩, -⟩ | ⟨-, hred⟩
  · rw [hr.date, hc] at hap
    rcases hap with hap | ⟨-, hne, hlt⟩
    · exact absurd (newer_some.mp hap) (lt_irrefl d)
    · rcases hfix with ⟨h1, h2⟩ | ⟨-, h2⟩
      · exact absurd (congrArg some (h2.trans h1.symm)) hne
      · rw [h2] at hlt
        exact absurd hlt (lt_irrefl _)
  · -- the same adjustment at the same date
    rw [← rowReduction_some hn] at hred
    refine ⟨?_, ⟨c, by rw [mergeRow_economicAdjustment, hred]; exact hc, hfix⟩, fun ha hadj => ?_,
      (hr.price.updatePrice n).congr (mergeRow_price n r)⟩
    · rw [mergeRow_economicNotificationSignedAt, hred]
      exact hr.date
    · obtain ⟨h1, h2⟩ := hr.revocation ha hac.symm
      rw [mergeRow_revocationDate, mergeRow_revocationReason, hred]
      simp only [Bool.false_and, Bool.false_eq_true, h1, h2, ite_self, and_self]
  · rw [hr.date] at hx
    exact absurd (Option.some.inj hx) (ne_of_lt hlt)
  · rw [← rowReduction_some hn] at hred
    exact hr.step_refused (by rw [hred])

end Step

/-! ### Over a run -/

section Whole

variable {s t : AppleTable} {log : List (SaveCall × AppleTransactionSaveResult)} {x : String}
  {n : NormalizedTransaction} {a : EconomicAdjustment} {d : ℤ}

theorem mem_acceptedRecords {m : NormalizedTransaction} : m ∈ acceptedRecords x log ↔
    ∃ e ∈ log, e.2.economicAdjustmentAccepted = true ∧ recordOf x e.1 = some m := by
  simp only [acceptedRecords, mem_records, List.mem_filter]
  constructor
  · rintro ⟨e, ⟨h1, h2⟩, h3⟩
    exact ⟨e, h1, h2, h3⟩
  · rintro ⟨e, h1, h2, h3⟩
    exact ⟨e, ⟨h1, h2⟩, h3⟩

/-- If every accepted notification is older than `d`, what is stored is. -/
theorem newer_run (h : Run saveAppleTransaction s log t) (hs : Newer (adjustmentState x s).2 d)
    (hold : ∀ m ∈ acceptedRecords x log, ∀ e ∈ m.notification, e.2 < d) : Newer (adjustmentState x t).2 d := by
  refine h.invariant_of_mem (P := fun u => Newer (adjustmentState x u).2 d) ?_ hs
  intro c u out v hc hu hop
  rw [adjustmentState_save hop]
  unfold notificationOf
  cases hrec : recordOf x c with
  | none => exact hu
  | some m =>
    cases hnot : m.notification with
    | none => simpa [hnot] using hu
    | some e =>
      obtain ⟨b, w⟩ := e
      have hred : m.reduction (adjustmentState x u).1 (adjustmentState x u).2 =
          reduceDated (adjustmentState x u).1 (adjustmentState x u).2 b w := by
        unfold NormalizedTransaction.reduction
        rw [hnot]
      simp only [Option.bind_some, hnot, Option.elim_some, reduceStep]
      cases hacc : out.economicAdjustmentAccepted with
      | true =>
        have hlt := hold m (mem_acceptedRecords.mpr ⟨_, hc, hacc, hrec⟩) (b, w) (by simp [hnot])
        rw [reduceDated_watermark, newer_some]
        cases hw : (adjustmentState x u).2 with
        | none => exact hlt
        | some y => exact max_lt hlt (hu y hw)
      | false =>
        rw [save_accepted hop hrec, hred] at hacc
        rw [reduceDated_of_refused (refused_reduceDated hacc)]
        exact hu

/-- From the empty table, the row of the newest accepted notification. -/
theorem afterNewest_run (h : Run saveAppleTransaction Sql.Table.empty log t) (hnew : NewestAccepted x log n a d) :
    ∃ r, lookup x t = some r ∧ AfterNewest n a d r := by
  obtain ⟨hmem, hn, hold⟩ := hnew
  obtain ⟨e, he, hacc, hrec⟩ := mem_acceptedRecords.mp hmem
  obtain ⟨l, c, out, m, u, v, hlog, hc, hl, hu, hop, hm⟩ := h.split_first
    (p := fun e => e.2.economicAdjustmentAccepted && recordOf x e.1 = some n) ⟨e, he, by simp [hacc, hrec]⟩
  obtain ⟨-, hcrec⟩ : out.economicAdjustmentAccepted = true ∧ recordOf x c = some n := by simpa using hc
  -- before it was first accepted everything stored is older
  have hbefore : Newer (adjustmentState x u).2 d := by
    refine newer_run hu (newer_none d) fun k hk e' he' => ?_
    obtain ⟨f, hf, hfacc, hfrec⟩ := mem_acceptedRecords.mp hk
    refine hold k (mem_acceptedRecords.mpr ⟨f, by rw [hlog]; exact List.mem_append_left _ hf, hfacc, hfrec⟩)
      (fun hkn => ?_) e' he'
    have := hl f hf
    rw [hfacc, hfrec, hkn] at this
    simp at this
  have hfirst : ∃ r, lookup x v = some r ∧ AfterNewest n a d r := by
    obtain ⟨n', hn', -, hsave⟩ := save_ok hop
    obtain ⟨hv, rfl⟩ := recordOf_eq_some.mp hcrec
    obtain rfl : n = n' := by rw [hv] at hn'; exact Except.ok.inj hn'
    refine ⟨out.row, hsave.lookup_self, ?_⟩
    rcases hsave.row with ⟨r, hr, -, hrow, -⟩ | ⟨id, -, hrow, -⟩ <;> rw [hrow]
    · rw [adjustmentState_of_some hr] at hbefore
      exact afterNewest_mergeRow hn hbefore
    · exact afterNewest_insertedRow hn id
  -- from then on it stays the newest
  refine hm.invariant_of_mem (P := fun w => ∃ r, lookup x w = some r ∧ AfterNewest n a d r) ?_ hfirst
  rintro c' w out' z hc' ⟨r, hr, hafter⟩ hop'
  refine ⟨_, lookup_save hop' hr, ?_⟩
  cases hrec' : recordOf x c' with
  | none => exact hafter
  | some k =>
    simp only [Option.elim_some]
    rcases eq_or_ne k n with rfl | hkn
    · exact hafter.step_self hn
    · cases hacc' : out'.economicAdjustmentAccepted with
      | false =>
        rw [save_accepted hop' hrec', adjustmentState_of_some hr] at hacc'
        exact hafter.step_refused hacc'
      | true =>
        cases hknot : k.notification with
        | none => exact hafter.step_refused (by rw [rowReduction_none hknot])
        | some f =>
          have hmem' : k ∈ acceptedRecords x log :=
            mem_acceptedRecords.mpr ⟨(c', out'), by rw [hlog]; simp [hc'], hacc', hrec'⟩
          exact hafter.step_older hknot (hold k hmem' hkn f (by simp [hknot]))

end Whole

/-! ### The repeat, reduced once more -/

section Resigned

variable {n : NormalizedTransaction} {a : EconomicAdjustment} {d d' : ℤ} {s e : Option ℤ} {r : AppleRow}

theorem rowReduction_resigned (hr : AfterNewest n a d r) (hd : d < d') :
    rowReduction (resigned n a d' s e) r =
      ⟨some (nextAppleEconomicAdjustment r.economicAdjustment a), some d', true, true⟩ := by
  rw [rowReduction_some (a := a) (t := d') rfl, reduceDated_newer]
  rw [hr.date]
  exact newer_some.mpr hd

/-- A notification that is applied and leaves the adjustment as it is, is the
stored refund or revoke. -/
theorem applied_fixed (c : Option EconomicAdjustment) (a : EconomicAdjustment) (w : Option ℤ)
    (h : applyIncomingRevocation (some a) c ⟨c, w, true, true⟩ = true) : IsRefund (some a) ∧ c = some a := by
  rcases c with _ | (_ | _ | _ | _) <;> cases a <;> simp_all [applyIncomingRevocation, IsRefund]

/-- With the adjustment kept, the revocation is kept: what the repeat applies
is what it had applied before. -/
theorem resigned_revocation (hr : AfterNewest n a d r) (hd : d < d')
    (hfix : some (nextAppleEconomicAdjustment r.economicAdjustment a) = r.economicAdjustment) :
    (mergeRow (resigned n a d' s e) r).revocationDate = r.revocationDate ∧
      (mergeRow (resigned n a d' s e) r).revocationReason = r.revocationReason := by
  have hred := rowReduction_resigned (s := s) (e := e) hr hd
  have hadj : (resigned n a d' s e).economicAdjustment = some a := rfl
  cases happ : applyIncomingRevocation (resigned n a d' s e).economicAdjustment r.economicAdjustment
      (rowReduction (resigned n a d' s e) r) with
  | true =>
    obtain ⟨h1, h2⟩ := mergeRow_applied (by rw [hred]) happ
    rw [hred, hadj, hfix] at happ
    obtain ⟨ha, hsame⟩ := applied_fixed r.economicAdjustment a (some d') happ
    obtain ⟨h3, h4⟩ := hr.revocation ha hsame
    exact ⟨h1.trans h3.symm, h2.trans h4.symm⟩
  | false =>
    refine mergeRow_preserved ?_
    rw [preservePersistedRevocation, happ, hadj]
    rfl

/-- With the adjustment kept, only the context can change what the row is
worth. -/
theorem resigned_derive (hr : AfterNewest n a d r) (hd : d < d')
    (hfix : some (nextAppleEconomicAdjustment r.economicAdjustment a) = r.economicAdjustment) :
    deriveAppleCreatorEconomicState (mergeRow (resigned n a d' s e) r) =
      if isLater s r.signedDate then deriveAppleCreatorEconomicState (withContext n r)
      else deriveAppleCreatorEconomicState r := by
  have hred := rowReduction_resigned (s := s) (e := e) hr hd
  have hgen : generalContextApplies (resigned n a d' s e) (rowReduction (resigned n a d' s e) r) r =
      isLater s r.signedDate := by
    rw [generalContextApplies, hred]
    simp [resigned]
  have hadj : (mergeRow (resigned n a d' s e) r).economicAdjustment = r.economicAdjustment := by
    rw [mergeRow_economicAdjustment, hred, hfix]
  obtain ⟨hp, hc⟩ : (mergeRow (resigned n a d' s e) r).priceMilliunits = r.priceMilliunits ∧
      (mergeRow (resigned n a d' s e) r).currency = r.currency := by
    have hprice := mergeRow_price (resigned n a d' s e) r
    simp only [priceColumns, Prod.mk.injEq] at hprice
    rw [hprice.1, hprice.2.1]
    unfold updatePrice
    cases hn : n.price with
    | none => simp [resigned, hn]
    | some y =>
      have hknown := (hr.price y.1 y.2 hn).1
      simp only [resigned, hn, if_neg hknown]
      split_ifs <;> exact ⟨rfl, rfl⟩
  have henv := mergeRow_general (resigned n a d' s e) r (fun q => (q.environment, q.ownershipType, q.transactionReason))
    (fun _ _ _ _ => rfl) fun _ _ _ _ => rfl
  rw [hgen] at henv
  by_cases hl : isLater s r.signedDate = true
  · rw [if_pos hl] at henv ⊢
    obtain ⟨h1, h2, h3⟩ : _ ∧ _ ∧ _ := by simpa only [Prod.mk.injEq] using henv
    exact deriveAppleCreatorEconomicState_congr h1 h2 h3 hp hc hadj
  · rw [if_neg hl] at henv ⊢
    obtain ⟨h1, h2, h3⟩ : _ ∧ _ ∧ _ := by simpa only [Prod.mk.injEq] using henv
    exact deriveAppleCreatorEconomicState_congr h1 h2 h3 hp hc hadj

/-- A candidate for a confirmed status has an amount. -/
theorem amount_of_confirmedCandidate (h : deriveAppleBaseEconomicStatus r = .confirmedCandidate) :
    (rowEvidence r).amount ≠ none := by
  have hvalid : (rowEvidence r).isValid = true := by
    unfold deriveAppleBaseEconomicStatus at h
    dsimp only at h
    split_ifs at h with _ _ _ hinvalid
    simpa using hinvalid
  cases hev : rowEvidence r with
  | valid p c hp hc => simp [AppleEconomicEvidence.amount, AppleEconomicEvidence.priceMilliunits]
  | absent => simp [hev, AppleEconomicEvidence.isValid] at hvalid
  | invalid reason => simp [hev, AppleEconomicEvidence.isValid] at hvalid

/-- Another context leaves the creator state as it is, if the adjustment shows the
same of its base status. -/
theorem derive_withContext_iff {c : EconomicAdjustment} (hc : r.economicAdjustment = some c)
    (hne : c ≠ refundReversed) :
    deriveAppleCreatorEconomicState (withContext n r) = deriveAppleCreatorEconomicState r ↔
      baseShown r.economicAdjustment (deriveAppleBaseEconomicStatus (withContext n r)) =
        baseShown r.economicAdjustment (deriveAppleBaseEconomicStatus r) := by
  have hadj : (withContext n r).economicAdjustment = some c := hc
  have hold := fun h => amount_of_confirmedCandidate (r := r) h
  have hnew : deriveAppleBaseEconomicStatus (withContext n r) = .confirmedCandidate → (rowEvidence r).amount ≠ none :=
    fun h => amount_of_confirmedCandidate (r := withContext n r) h
  have hev : rowEvidence (withContext n r) = rowEvidence r := rfl
  unfold deriveAppleCreatorEconomicState
  rw [hadj, hc, hev]
  generalize deriveAppleBaseEconomicStatus (withContext n r) = b' at *
  generalize deriveAppleBaseEconomicStatus r = b at *
  cases c with
  | refundReversed => exact absurd rfl hne
  | refund => cases b <;> cases b' <;> simp_all [baseShown, eq_comm]
  | revoke => cases b <;> cases b' <;> simp_all [baseShown, eq_comm]
  | revocationUnknown => cases b <;> cases b' <;> simp [baseShown]

/-- **The newest notification signed again.** In every run of saves from the
empty table, let `n` be the record of the newest accepted notification of the
transaction `x`, and save it again under a later date. Adjustment, revocation
and creator state stay the same if and only if the stored adjustment is not a
reversal and the context that the repeat reports (if its signed date is later
than the row's) does not change what the adjustment shows of the base status. -/
theorem resigned_unchanged_iff {t t' : AppleTable} {log : List (SaveCall × AppleTransactionSaveResult)} {x : String}
    (h : Run saveAppleTransaction Sql.Table.empty log t) (hnew : NewestAccepted x log n a d) (hd : d < d')
    {c : SaveCall} {out : AppleTransactionSaveResult} (hrec : recordOf x c = some (resigned n a d' s e))
    (hsave : saveAppleTransaction c t = .ok (out, t')) :
    ∃ r r', lookup x t = some r ∧ lookup x t' = some r' ∧
      (Unchanged r r' ↔ r.economicAdjustment ≠ some refundReversed ∧
        (isLater s r.signedDate = true →
          baseShown r.economicAdjustment (deriveAppleBaseEconomicStatus (withContext n r)) =
            baseShown r.economicAdjustment (deriveAppleBaseEconomicStatus r))) := by
  obtain ⟨r, hr, hafter⟩ := afterNewest_run h hnew
  have hr' : lookup x t' = some (mergeRow (resigned n a d' s e) r) := by
    rw [lookup_save hsave hr, hrec]
    rfl
  refine ⟨r, _, hr, hr', ?_⟩
  have hadj : (mergeRow (resigned n a d' s e) r).economicAdjustment =
      some (nextAppleEconomicAdjustment r.economicAdjustment a) := by
    rw [mergeRow_economicAdjustment, rowReduction_resigned hafter hd]
  obtain ⟨c', hc', ⟨h1, h2⟩ | ⟨h1, h2⟩⟩ := hafter.fixed
  · -- a reversal on a reversal
    subst h1 h2
    refine iff_of_false (fun hu => ?_) fun hne => hne.1 hc'
    have := hu.1
    rw [hadj, hc'] at this
    exact absurd this (by decide)
  · have hfix : some (nextAppleEconomicAdjustment r.economicAdjustment a) = r.economicAdjustment := by
      rw [hc', h2]
    obtain ⟨hdate, hreason⟩ := resigned_revocation (s := s) (e := e) hafter hd hfix
    have hne : r.economicAdjustment ≠ some refundReversed := by
      rw [hc']
      exact fun heq => h1 (Option.some.inj heq)
    have hder := resigned_derive (s := s) (e := e) hafter hd hfix
    constructor
    · intro hu
      refine ⟨hne, fun hl => ?_⟩
      have hsame := hu.2.2.2
      rw [hder, if_pos hl] at hsame
      exact (derive_withContext_iff hc' h1).mp hsame
    · rintro ⟨-, hctx⟩
      refine ⟨hadj.trans hfix, hdate, hreason, ?_⟩
      rw [hder]
      split_ifs with hl
      · exact (derive_withContext_iff hc' h1).mpr (hctx hl)
      · rfl

/-- A refund, reversed. -/
def reversedRefund : List AppleTransaction :=
  [samplePurchase, sampleNotification "refund" 1 (some 1), sampleNotification "refund_reversed" 2 none]

/-- The record of the reversal. -/
def reversalRecord : NormalizedTransaction :=
  (recordOf "t" (sampleAccounts, sampleNotification "refund_reversed" 2 none)).get (by decide +kernel)

theorem reversalRecord_newest :
    NewestAccepted "t" (sampleSaves .empty reversedRefund).1 reversalRecord refundReversed 2 := by
  decide +kernel

theorem reversalRecord_resigned : recordOf "t" (sampleAccounts, sampleNotification "refund_reversed" 3 none) =
    some (resigned reversalRecord refundReversed 3 (some 3) (some 0)) := by
  decide +kernel

/-- Whether saving `c` leaves the transaction as it is, if it is stored and the
save completes. -/
def savedUnchanged (x : String) (c : SaveCall) (t : AppleTable) : Bool :=
  match lookup x t, saveAppleTransaction c t with
  | some r, .ok (_, t') => (lookup x t').any fun r' => Unchanged r r'
  | _, _ => true

theorem reversalRecord_changes : savedUnchanged "t" (sampleAccounts, sampleNotification "refund_reversed" 3 none)
    (sampleSaves .empty reversedRefund).2 = false := by
  decide +kernel

theorem resigned_unchanged_sample : ∃ out t' r r',
    saveAppleTransaction (sampleAccounts, sampleNotification "refund_reversed" 3 none)
      (sampleSaves .empty reversedRefund).2 = .ok (out, t') ∧
    lookup "t" (sampleSaves .empty reversedRefund).2 = some r ∧ lookup "t" t' = some r' ∧
    (Unchanged r r' ↔ r.economicAdjustment ≠ some refundReversed ∧
      (isLater (some 3) r.signedDate = true →
        baseShown r.economicAdjustment (deriveAppleBaseEconomicStatus (withContext reversalRecord r)) =
          baseShown r.economicAdjustment (deriveAppleBaseEconomicStatus r))) := by
  cases hsave : saveAppleTransaction (sampleAccounts, sampleNotification "refund_reversed" 3 none)
      (sampleSaves .empty reversedRefund).2 with
  | error e =>
    have := reversalRecord_changes
    rw [savedUnchanged, hsave] at this
    split at this <;> simp_all
  | ok p =>
    obtain ⟨r, r', hr, hr', hiff⟩ := resigned_unchanged_iff (run_sampleSaves .empty reversedRefund)
      reversalRecord_newest (by decide) reversalRecord_resigned hsave
    exact ⟨p.1, p.2, r, r', rfl, hr, hr', hiff⟩

/-- A reversal signed again does not leave everything as it is. -/
theorem resigned_reversal_changes : ¬ ∀ (t t' : AppleTable) (log : List (SaveCall × AppleTransactionSaveResult))
    (x : String) (n : NormalizedTransaction) (a : EconomicAdjustment) (d d' : ℤ) (s e : Option ℤ) (c : SaveCall)
    (out : AppleTransactionSaveResult), Run saveAppleTransaction Sql.Table.empty log t →
    NewestAccepted x log n a d → d < d' → recordOf x c = some (resigned n a d' s e) →
    saveAppleTransaction c t = .ok (out, t') →
    ∃ r r', lookup x t = some r ∧ lookup x t' = some r' ∧ Unchanged r r' := by
  intro hclaim
  have hfail := reversalRecord_changes
  unfold savedUnchanged at hfail
  split at hfail
  next r out t' hr hsave =>
    obtain ⟨q, q', hq, hq', hu⟩ := hclaim _ _ _ "t" _ _ _ _ _ _ _ out
      (run_sampleSaves .empty reversedRefund) reversalRecord_newest (by decide) reversalRecord_resigned hsave
    rw [hr] at hq
    obtain rfl := Option.some.inj hq
    rw [hq'] at hfail
    simp [hu] at hfail
  next => exact absurd hfail (by decide)

end Resigned

end Apple
end FuelNear

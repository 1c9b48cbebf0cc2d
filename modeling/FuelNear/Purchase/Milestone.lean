/-
# The paid milestone of an attribution, over purchases and claims

`paid_plus_converted_at` in a run of processed transactions and claims: it is
set if and only if an event of the attribution was ever stored as confirmed,
and then to the earliest of them. A refund or a revocation confirms nothing,
and an event that was confirmed before does not move it again. A reversal can:
where the refund came first, the reversal is what confirms the event.

A call makes its conversions one after the other, each from the ledger that
the one before left (`handle_executes`); what an event was ever stored as is
read off these ledgers.

Key definitions: `Call.conversions`, `ConfirmsIn`, `EverConfirmed`, `TakesBack`, `MilestoneHistory`.
Key theorems: `handle_executes`, `everConfirmed_iff`, `takesBack_confirms_nothing`, `milestone_history`.
-/
import FuelNear.Purchase.Process

namespace FuelNear
namespace Purchase

open Sql Apple Text Creator Plus Ownership EconomicAdjustment

/-! ### The conversions of a call -/

/-- The conversion of a saved transaction, if the call makes it, with the Apple
table that it reads. -/
def savedConversions (userId : ℤ) (notificationType : Option String) (saved : AppleTransactionSaveResult)
    (apple : AppleTable) : List (AppleConversion × AppleTable) :=
  if shouldRecordCreator notificationType saved then [(conversionOf userId saved.row, apple)] else []

/-- Those of the transferred transactions. -/
def rowConversions (userId : ℤ) (apple : AppleTable) (rows : List AppleRow) : List (AppleConversion × AppleTable) :=
  rows.map fun r => (conversionOf userId r, apple)

/-- The conversions that `process_apple_transaction` makes. -/
def ProcessCall.conversions (c : ProcessCall) (db : Db) : List (AppleConversion × AppleTable) :=
  match validateAppleTransaction c.transaction with
  | .error _ => []
  | .ok n =>
    match processTransaction n db.store with
    | .error _ => []
    | .ok (saved, store) =>
      match n.owner with
      | .user userId => savedConversions userId c.notificationType saved store.apple
      | .guest _ => []

/-- Those that `claim_guest_subscription` makes. -/
def Claim.conversions (c : Claim) (db : Db) : List (AppleConversion × AppleTable) :=
  match Ownership.claimGuestSubscription c.toClaimCall db.store with
  | .error _ => []
  | .ok (result, store) =>
    rowConversions c.userId store.apple (if result.claimed then guestTransactions db.apple result.guestId else [])

def Call.conversions : Call → Db → List (AppleConversion × AppleTable)
  | .process c, db => c.conversions db
  | .claim c, db => c.conversions db

theorem recordSaved_executes {userId : ℤ} {notificationType : Option String} {saved : AppleTransactionSaveResult}
    {apple : AppleTable} {s s' : Ledger} {l : List CreatorAppleConversionResult}
    (h : recordSaved userId notificationType saved apple s = .ok (l, s')) :
    (execute recordCall s (savedConversions userId notificationType saved apple)).2 = s' ∧
      conversionsOf (execute recordCall s (savedConversions userId notificationType saved apple)).1 = l := by
  unfold recordSaved at h
  unfold savedConversions
  split_ifs at h ⊢
  · obtain ⟨⟨out, s₁⟩, hrecord, h⟩ := bind_eq_ok.mp h
    obtain ⟨rfl, rfl⟩ := Prod.mk.inj (Except.ok.inj h)
    have hcall : recordCall (conversionOf userId saved.row, apple) s = .ok (out, s₁) := hrecord
    simp [execute, hcall, conversionsOf]
  · obtain ⟨rfl, rfl⟩ := Prod.mk.inj (Except.ok.inj h)
    exact ⟨rfl, rfl⟩

theorem recordRows_executes {userId : ℤ} {apple : AppleTable} : ∀ {rows : List AppleRow} {s s' : Ledger}
    {l : List CreatorAppleConversionResult}, recordRows userId apple rows s = .ok (l, s') →
    (execute recordCall s (rowConversions userId apple rows)).2 = s' ∧
      conversionsOf (execute recordCall s (rowConversions userId apple rows)).1 = l
  | [], s, s', l, h => by
    obtain ⟨rfl, rfl⟩ := Prod.mk.inj (Except.ok.inj h)
    exact ⟨rfl, rfl⟩
  | r :: rows, s, s', l, h => by
    rw [recordRows] at h
    obtain ⟨⟨out, s₁⟩, hrecord, h⟩ := bind_eq_ok.mp h
    obtain ⟨⟨rest, s₂⟩, hrows, h⟩ := bind_eq_ok.mp h
    obtain ⟨rfl, rfl⟩ := Prod.mk.inj (Except.ok.inj h)
    obtain ⟨hlast, hlog⟩ := recordRows_executes hrows
    have hcall : recordCall (conversionOf userId r, apple) s = .ok (out, s₁) := hrecord
    simp only [rowConversions, List.map_cons, execute, hcall]
    refine ⟨hlast, ?_⟩
    rw [← hlog]
    rfl

/-- A completed call makes its conversions one after the other, and its answer
lists what they answer. -/
theorem handle_executes {c : Call} {db db' : Db} {out : Answer} (h : handle c db = .ok (out, db')) :
    (execute recordCall db.ledger (c.conversions db)).2 = db'.ledger ∧
      conversionsOf (execute recordCall db.ledger (c.conversions db)).1 = out.conversions := by
  cases c with
  | process c =>
    obtain ⟨x, hop, rfl⟩ := handle_process h
    unfold processAppleTransaction at hop
    obtain ⟨n, hn, hop⟩ := bind_eq_ok.mp hop
    obtain ⟨⟨saved, store⟩, hsave, hop⟩ := bind_eq_ok.mp hop
    have hconversions : (Call.process c).conversions db = match n.owner with
        | .user userId => savedConversions userId c.notificationType saved store.apple
        | .guest _ => [] := by
      show c.conversions db = _
      unfold ProcessCall.conversions
      rw [within_ok.mp hn]
      dsimp only
      rw [within_ok.mp hsave]
    rw [hconversions]
    cases howner : n.owner with
    | user userId =>
      rw [howner] at hop
      obtain ⟨⟨conversions, ledger⟩, hrecord, hop⟩ := bind_eq_ok.mp hop
      obtain ⟨⟨entitlement, plus⟩, hreconcile, hop⟩ := bind_eq_ok.mp hop
      obtain ⟨rfl, rfl⟩ := Prod.mk.inj (Except.ok.inj hop)
      exact recordSaved_executes (within_ok.mp hrecord)
    | guest guestId =>
      rw [howner] at hop
      obtain ⟨rfl, rfl⟩ := Prod.mk.inj (Except.ok.inj hop)
      exact ⟨rfl, rfl⟩
  | claim c =>
    obtain ⟨x, hop, rfl⟩ := handle_claim h
    obtain ⟨store, hclaimed⟩ := claimed_of_ok hop
    have hconversions : (Call.claim c).conversions db = rowConversions c.userId store.apple
        (if x.result.claimed then guestTransactions db.apple x.result.guestId else []) := by
      show c.conversions db = _
      unfold Claim.conversions
      rw [hclaimed.claim]
    rw [hconversions]
    exact recordRows_executes hclaimed.record

/-! ### What was ever confirmed -/

/-- A conversion of the call stores the event as confirmed, for the attribution. -/
def ConfirmsIn (attributionId eventId : ℤ) (c : Call) (db : Db) : Prop :=
  ∃ k ∈ trace recordCall db.ledger (c.conversions db), ∃ s, recordCall k.call k.before = .ok (k.answer, s) ∧
    Confirms attributionId eventId k.before k.answer s

/-- In some call of the log the event was recorded or updated with the status
`confirmed`, for the attribution. -/
def EverConfirmed (attributionId : ℤ) (db : Db) (log : CallLog) (eventId : ℤ) : Prop :=
  ∃ l₁ c out l₂ x, log = l₁ ++ (c, out) :: l₂ ∧ Run handle db l₁ x ∧ ConfirmsIn attributionId eventId c x

/-- The paid milestone of the active attribution of a user. -/
def paidMilestone (userId : ℤ) (db : Db) : Option ℤ :=
  (activeAttribution db.ledger.attributions userId).bind (·.paidPlusConvertedAt)

/-- A notification of a refund or a revocation. -/
def TakesBack : Call → Prop
  | .process c => isEconomicNotification c.notificationType = true ∧
    ∃ n, validateAppleTransaction c.transaction = .ok n ∧
      (n.economicAdjustment = some refund ∨ n.economicAdjustment = some revoke)
  | .claim _ => False

/-- What holds of the attribution `a` of the user, and of the events, after a run. -/
structure MilestoneHistory (userId : ℤ) (a : CreatorAttribution) (db : Db) (log : CallLog) (db' : Db) : Prop where
  active : ∃ b, activeAttribution db'.ledger.attributions userId = some b ∧ b.id = a.id
  unset : paidMilestone userId db' = none ↔ ∀ eventId, ¬ EverConfirmed a.id db log eventId
  earliest : ∀ m, paidMilestone userId db' = some m →
    IsLeast {t | ∃ e ∈ db'.ledger.events, EverConfirmed a.id db log e.id ∧ e.occurredAt = t} m
  decreases : ∀ l₁ l₂ x m, log = l₁ ++ l₂ → Run handle db l₁ x → paidMilestone userId x = some m →
    ∃ m', paidMilestone userId db' = some m' ∧ m' ≤ m
  unmoved : ∀ l₁ c out l₂ x y, log = l₁ ++ (c, out) :: l₂ → Run handle db l₁ x → handle c x = .ok (out, y) →
    (TakesBack c ∨ ∀ eventId, ConfirmsIn a.id eventId c x → EverConfirmed a.id db l₁ eventId) →
    paidMilestone userId y = paidMilestone userId x
  oneEvent : ∀ d ∈ db'.ledger.events, ∀ e ∈ db'.ledger.events, d.provider = .apple → e.provider = .apple →
    d.externalEventKey = e.externalEventKey → d = e
  dated : ∀ l₁ l₂ x, log = l₁ ++ l₂ → Run handle db l₁ x → ∀ d ∈ x.ledger.events,
    ∃ e ∈ db'.ledger.events, e.id = d.id ∧ e.externalEventKey = d.externalEventKey ∧ e.occurredAt = d.occurredAt

/-! ### A refund confirms nothing -/

/-- An accepted refund or revocation leaves one of the two. -/
theorem accepted_takesBack {n : NormalizedTransaction} {c : Option EconomicAdjustment} {w : Option ℤ}
    (hn : n.economicAdjustment = some refund ∨ n.economicAdjustment = some revoke)
    (h : (n.reduction c w).incomingAccepted = true) :
    (n.reduction c w).economicAdjustment = some refund ∨ (n.reduction c w).economicAdjustment = some revoke := by
  unfold NormalizedTransaction.reduction at h ⊢
  unfold NormalizedTransaction.economicAdjustment at hn
  cases hnot : n.notification with
  | none => simp [hnot] at hn
  | some x =>
    obtain ⟨a, t⟩ := x
    have ha : a = refund ∨ a = revoke := by simpa [hnot] using hn
    rw [hnot] at h
    dsimp only at h ⊢
    have hnext : nextAppleEconomicAdjustment c a = refund ∨ nextAppleEconomicAdjustment c a = revoke := by
      unfold nextAppleEconomicAdjustment
      rcases ha with rfl | rfl
      · by_cases hc : c = some revoke <;> simp [hc]
      · simp
    rcases reduceDated_cases c w a t with ⟨-, hr⟩ | ⟨-, hc, hr⟩ | ⟨-, -, -, hr⟩ | ⟨-, hr⟩ <;> rw [hr] at h ⊢
    · simpa using hnext
    · rw [← hc]
      simpa using ha
    · exact Or.inr rfl
    · exact absurd h (by simp)

theorem takenBack_not_confirmed {r : AppleRow}
    (h : r.economicAdjustment = some refund ∨ r.economicAdjustment = some revoke) :
    (deriveAppleCreatorEconomicState r).status ≠ .confirmed := by
  unfold deriveAppleCreatorEconomicState
  rcases h with h | h <;> rw [h] <;> simp

/-- The adjustment of a saved row is what the reduction of the old one gave. -/
theorem saved_reduction {a : Accounts} {n : NormalizedTransaction} {t t' : AppleTable}
    {saved : AppleTransactionSaveResult} (h : SaveCompleted a n t saved t') :
    ∃ c w, saved.row.economicAdjustment = (n.reduction c w).economicAdjustment ∧
      saved.economicAdjustmentAccepted = (n.reduction c w).incomingAccepted := by
  rcases h.row with ⟨r, -, -, hrow, haccepted⟩ | ⟨id, -, hrow, haccepted⟩
  · exact ⟨r.economicAdjustment, r.economicNotificationSignedAt, by rw [hrow, mergeRow_economicAdjustment]; rfl,
      haccepted⟩
  · exact ⟨none, none, by rw [hrow]; rfl, haccepted⟩

/-- A refund or a revocation confirms no event. -/
theorem takesBack_confirms_nothing {c : Call} {db db' : Db} {out : Answer} (h : handle c db = .ok (out, db'))
    (hback : TakesBack c) : ∀ r ∈ out.conversions, r.economicStatus ≠ .confirmed := by
  cases c with
  | claim c => exact absurd hback id
  | process c =>
    obtain ⟨x, hop, rfl⟩ := handle_process h
    obtain ⟨n, saved, hprocessed⟩ := processed_of_ok hop
    obtain ⟨htype, m, hm, hadjustment⟩ := hback
    obtain rfl : n = m := by
      have := hprocessed.validated.symm.trans hm
      exact Except.ok.inj this
    intro r hr
    cases howner : n.owner with
    | guest guestId =>
      obtain ⟨-, hnone⟩ := hprocessed.ofGuest (by rw [NormalizedTransaction.userId, howner]; rfl)
      have hr' : r ∈ x.conversions := hr
      rw [hnone] at hr'
      exact absurd hr' List.not_mem_nil
    | user userId =>
      have hrecord := hprocessed.ofUser userId howner
      unfold recordSaved at hrecord
      split_ifs at hrecord with hshould
      · obtain ⟨⟨o, s₁⟩, hrec, hrecord⟩ := bind_eq_ok.mp hrecord
        obtain ⟨hout, -⟩ := Prod.mk.inj (Except.ok.inj hrecord)
        have ho : o = some r := by
          have hr' : r ∈ x.conversions := hr
          rw [← hout] at hr'
          simpa using hr'
        obtain ⟨k, w, hrow, haccepted⟩ := saved_reduction hprocessed.save
        have hacc : saved.economicAdjustmentAccepted = true := by
          simpa [shouldRecordCreator, htype] using hshould
        have hstatus := takenBack_not_confirmed (hrow ▸ accepted_takesBack hadjustment (haccepted ▸ hacc))
        rw [ho] at hrec
        cases recorded_of_ok hrec with
        | updated _ _ _ _ _ _ answer => rw [answer.economicStatus]; exact hstatus
        | inserted _ _ _ _ _ _ _ answer => rw [answer.economicStatus]; exact hstatus
      · obtain ⟨hout, -⟩ := Prod.mk.inj (Except.ok.inj hrecord)
        have hr' : r ∈ x.conversions := hr
        rw [← hout] at hr'
        exact absurd hr' List.not_mem_nil

/-! ### The milestone of a run -/

section Whole

variable {userId : ℤ} {a : CreatorAttribution} {db db' : Db} {log : CallLog}

theorem paidMilestone_of_active (h : activeAttribution db.ledger.attributions userId = some a) :
    paidMilestone userId db = a.paidPlusConvertedAt := by
  unfold paidMilestone
  rw [h]
  rfl

/-- A run of conversions, seen from the milestone. -/
theorem paidMilestone_records {l : RecordLog} (ha : activeAttribution db.ledger.attributions userId = some a)
    (h : Run recordCall db.ledger l db'.ledger) :
    (∃ b, activeAttribution db'.ledger.attributions userId = some b ∧ b.id = a.id) ∧
      paidMilestone userId db' =
        (confirmations a.id (conversionsOf l)).foldl earliest (paidMilestone userId db) := by
  obtain ⟨b, hb, hsame, hpaid⟩ := paid_run h ha
  refine ⟨⟨b, hb, hsame.id⟩, ?_⟩
  rw [paidMilestone_of_active hb, paidMilestone_of_active ha, hpaid]

/-- The milestone after a run of requests. -/
theorem paidMilestone_run (ha : activeAttribution db.ledger.attributions userId = some a) (h : Run handle db log db') :
    (∃ b, activeAttribution db'.ledger.attributions userId = some b ∧ b.id = a.id) ∧
      paidMilestone userId db' = (confirmations a.id (recorded log)).foldl earliest (paidMilestone userId db) := by
  obtain ⟨l, hrun, hl⟩ := run_records h
  rw [← hl]
  exact paidMilestone_records ha hrun

/-- The event of an answer, in the ledger at the end. -/
theorem event_of_answer (h : Run handle db log db') {r : CreatorAppleConversionResult} (hr : r ∈ recorded log)
    {e : ConversionEvent} (he : e ∈ db'.ledger.events) (hid : r.eventId = e.id) : r.occurredAt = e.occurredAt := by
  obtain ⟨l, hrun, hl⟩ := run_records h
  obtain ⟨d, hd, hrd, -, hat, -⟩ := answered_run hrun r (hl ▸ hr)
  rw [hat, event_eq_of_id hd he (hrd.symm.trans hid)]

/-- A completed call confirms the events that it answers as confirmed. -/
theorem confirmsIn_iff {c : Call} {out : Answer} {x y : Db} {attributionId eventId : ℤ}
    (h : handle c x = .ok (out, y)) : ConfirmsIn attributionId eventId c x ↔
      ∃ r ∈ out.conversions, r.eventId = eventId ∧ r.attributionId = attributionId ∧ r.economicStatus = .confirmed := by
  obtain ⟨-, hanswers⟩ := handle_executes h
  have hmem : ∀ r, r ∈ out.conversions ↔ ∃ k ∈ trace recordCall x.ledger (c.conversions x), r ∈ k.answer := by
    intro r
    rw [← hanswers, execute_log, conversionsOf, List.mem_flatMap]
    simp
  constructor
  · rintro ⟨k, hk, s, hop, hconfirms⟩
    obtain ⟨r, hr, hconfirmed⟩ := (recorded_of_ok hop).confirms_iff.mp hconfirms
    exact ⟨r, (hmem r).mpr ⟨k, hk, hr⟩, hconfirmed⟩
  · rintro ⟨r, hr, hconfirmed⟩
    obtain ⟨k, hk, hrk⟩ := (hmem r).mp hr
    obtain ⟨-, s, hop⟩ := trace_spec (P := fun _ => True) (fun _ _ _ _ _ _ => trivial) _ _ trivial k hk
    exact ⟨k, hk, s, hop, (recorded_of_ok hop).confirms_iff.mpr ⟨r, hrk, hconfirmed⟩⟩

/-- What was ever stored as confirmed was answered so. -/
theorem everConfirmed_iff (h : Run handle db log db') {attributionId eventId : ℤ} :
    EverConfirmed attributionId db log eventId ↔
      ∃ r ∈ recorded log, r.eventId = eventId ∧ r.attributionId = attributionId ∧ r.economicStatus = .confirmed := by
  constructor
  · rintro ⟨l₁, c, out, l₂, x, rfl, hx, hconfirms⟩
    obtain ⟨y, hop, -⟩ := h.call_at hx
    obtain ⟨r, hr, hconfirmed⟩ := (confirmsIn_iff hop).mp hconfirms
    refine ⟨r, ?_, hconfirmed⟩
    rw [recorded_append]
    exact List.mem_append_right _ (List.mem_flatMap.mpr ⟨(c, out), List.mem_cons_self, hr⟩)
  · rintro ⟨r, hr, hconfirmed⟩
    obtain ⟨⟨c, out⟩, hcall, hr⟩ := List.mem_flatMap.mp hr
    obtain ⟨l₁, l₂, x, y, hlog, hx, hop, -⟩ := h.split hcall
    exact ⟨l₁, c, out, l₂, x, hlog, hx, (confirmsIn_iff hop).mpr ⟨r, hr, hconfirmed⟩⟩

/-- The confirmed instants are those of the events that were ever confirmed. -/
theorem mem_confirmations_iff (h : Run handle db log db') (t : ℤ) : t ∈ confirmations a.id (recorded log) ↔
    ∃ e ∈ db'.ledger.events, EverConfirmed a.id db log e.id ∧ e.occurredAt = t := by
  rw [mem_confirmations]
  constructor
  · intro ⟨r, hr, hattribution, hstatus, hat⟩
    obtain ⟨l, hrun, hl⟩ := run_records h
    obtain ⟨e, he, hid, -, heat, -⟩ := answered_run hrun r (hl ▸ hr)
    exact ⟨e, he, (everConfirmed_iff h).mpr ⟨r, hr, hid, hattribution, hstatus⟩, heat.symm.trans hat⟩
  · intro ⟨e, he, hever, hat⟩
    obtain ⟨r, hr, hid, hattribution, hstatus⟩ := (everConfirmed_iff h).mp hever
    exact ⟨r, hr, hattribution, hstatus, (event_of_answer h hr he hid).trans hat⟩

/-- The events after a request are those before it, brought up to date, and new ones. -/
theorem kept_of_run (h : Run handle db log db') {d : ConversionEvent} (hd : d ∈ db.ledger.events) :
    ∃ e ∈ db'.ledger.events, SameEvent d e := by
  obtain ⟨l, hrun, -⟩ := run_records h
  exact kept_run hrun hd

/-- An event confirmed before and confirmed again has not changed its instant. -/
theorem confirmed_again {l : CallLog} {c : Call} {out : Answer} {x y : Db} (hx : Run handle db l x)
    (hop : handle c x = .ok (out, y)) {q r : CreatorAppleConversionResult} (hq : q ∈ recorded l)
    (hr : r ∈ out.conversions) (hid : q.eventId = r.eventId) : q.occurredAt = r.occurredAt := by
  have hy : Run handle db (l ++ [(c, out)]) y := hx.done hop
  have hmem : ∀ z, z ∈ recorded l ∨ z ∈ out.conversions → z ∈ recorded (l ++ [(c, out)]) := by
    intro z hz
    rw [recorded_append]
    simpa [recorded] using hz
  obtain ⟨k, hrun, hk⟩ := run_records hy
  obtain ⟨e, he, hre, -, hat, -⟩ := answered_run hrun r (hk ▸ hmem r (Or.inr hr))
  rw [event_of_answer hy (hmem q (Or.inl hq)) he (hid.trans hre), hat]

/-- A call that confirms nothing new leaves the milestone. -/
theorem paidMilestone_unmoved (ha : activeAttribution db.ledger.attributions userId = some a) {l : CallLog} {c : Call}
    {out : Answer} {x y : Db} (hx : Run handle db l x) (hop : handle c x = .ok (out, y))
    (hold : ∀ eventId, ConfirmsIn a.id eventId c x → EverConfirmed a.id db l eventId) :
    paidMilestone userId y = paidMilestone userId x := by
  obtain ⟨⟨b, hb, hid⟩, hpaid⟩ := paidMilestone_run ha hx
  obtain ⟨k, hrun, hk⟩ := handle_records hop
  obtain ⟨-, hstep⟩ := paidMilestone_records hb hrun
  rw [hstep, hk, hid]
  apply foldl_earliest_absorb
  intro t ht
  obtain ⟨r, hr, hattribution, hstatus, hat⟩ := mem_confirmations.mp ht
  have hever := hold r.eventId ((confirmsIn_iff hop).mpr ⟨r, hr, rfl, hattribution, hstatus⟩)
  obtain ⟨q, hq, hqid, hqattribution, hqstatus⟩ := (everConfirmed_iff hx).mp hever
  have hmem : q.occurredAt ∈ confirmations a.id (recorded l) :=
    mem_confirmations.mpr ⟨q, hq, hqattribution, hqstatus, rfl⟩
  cases hm : paidMilestone userId x with
  | none =>
    rw [hpaid, foldl_earliest_eq_none] at hm
    rw [hm.2] at hmem
    exact absurd hmem List.not_mem_nil
  | some m =>
    rw [hpaid] at hm
    refine ⟨m, rfl, ?_⟩
    calc m ≤ q.occurredAt := (foldl_earliest_spec hm).2.1 _ hmem
      _ = r.occurredAt := confirmed_again hx hop hq hr hqid
      _ = t := hat

/-- A milestone that is set stays set, at this instant or an earlier one. -/
theorem paidMilestone_decreases (ha : activeAttribution db.ledger.attributions userId = some a)
    (h : Run handle db log db') {m : ℤ} (hm : paidMilestone userId db = some m) :
    ∃ m', paidMilestone userId db' = some m' ∧ m' ≤ m := by
  obtain ⟨-, hstep⟩ := paidMilestone_run ha h
  rw [hm] at hstep
  cases hm' : paidMilestone userId db' with
  | none =>
    rw [hstep, foldl_earliest_eq_none] at hm'
    exact absurd hm'.1 (by simp)
  | some m' =>
    rw [hstep] at hm'
    exact ⟨m', rfl, (foldl_earliest_spec hm').2.2 m rfl⟩

/-- Nothing was confirmed if and only if no instant was. -/
theorem confirmations_eq_nil_iff (h : Run handle db log db') :
    confirmations a.id (recorded log) = [] ↔ ∀ eventId, ¬ EverConfirmed a.id db log eventId := by
  rw [List.eq_nil_iff_forall_not_mem]
  constructor
  · intro hnone eventId hever
    obtain ⟨r, hr, -, hattribution, hstatus⟩ := (everConfirmed_iff h).mp hever
    exact hnone r.occurredAt (mem_confirmations.mpr ⟨r, hr, hattribution, hstatus, rfl⟩)
  · intro hnever t ht
    obtain ⟨e, -, hever, -⟩ := (mem_confirmations_iff h t).mp ht
    exact hnever e.id hever

end Whole

/-- **The paid milestone is the earliest instant ever confirmed.** It stays
unset as long as nothing is confirmed, never moves to a later instant, and
neither refunds and revocations nor events confirmed before move it; there is
one event for each transaction, and its instant stays. -/
theorem milestone_history {userId : ℤ} {a : CreatorAttribution} {db db' : Db} {log : CallLog}
    (ha : activeAttribution db.ledger.attributions userId = some a) (hunset : a.paidPlusConvertedAt = none)
    (h : Run handle db log db') : MilestoneHistory userId a db log db' := by
  obtain ⟨hactive, hpaid⟩ := paidMilestone_run ha h
  rw [paidMilestone_of_active ha, hunset] at hpaid
  refine ⟨hactive, ?_, ?_, ?_, ?_, ?_, ?_⟩
  · rw [hpaid, foldl_earliest_eq_none, ← confirmations_eq_nil_iff h]
    exact and_iff_right rfl
  · intro m hm
    rw [hpaid] at hm
    obtain ⟨hmem, hleast, -⟩ := foldl_earliest_spec hm
    have hmem' : m ∈ confirmations a.id (recorded log) := by simpa using hmem
    exact ⟨(mem_confirmations_iff h m).mp hmem', fun t ht => hleast t ((mem_confirmations_iff h t).mpr ht)⟩
  · intro l₁ l₂ x m hlog hx hm
    subst hlog
    obtain ⟨x', hx', hrest⟩ := h.split_append
    obtain rfl := hx.unique hx'
    obtain ⟨⟨b, hb, -⟩, -⟩ := paidMilestone_run ha hx
    exact paidMilestone_decreases hb hrest hm
  · intro l₁ c out l₂ x y hlog hx hop hold
    apply paidMilestone_unmoved ha hx hop
    rcases hold with hback | hold
    · intro eventId hconfirms
      obtain ⟨r, hr, -, -, hstatus⟩ := (confirmsIn_iff hop).mp hconfirms
      exact absurd hstatus (takesBack_confirms_nothing hop hback r hr)
    · exact hold
  · intro d hd e he hdp hep hkey
    have hde := eventByKey_iff.mpr ⟨hd, hdp, rfl⟩
    rw [eventByKey_iff.mpr ⟨he, hep, hkey.symm⟩] at hde
    exact (Option.some.inj hde).symm
  · intro l₁ l₂ x hlog hx d hd
    subst hlog
    obtain ⟨x', hx', hrest⟩ := h.split_append
    obtain rfl := hx.unique hx'
    obtain ⟨e, he, hsame⟩ := kept_of_run hrest hd
    exact ⟨e, he, hsame.id, hsame.externalEventKey, hsame.occurredAt⟩

/-! ### A refund that comes first -/

/-- The refund of a purchase that was not reported before. -/
def earlyRefund : Call := .process (sampleEconomic "REFUND" "refund" 1 (some 1))

/-- Its reversal. -/
def lateReversal : Call := .process (sampleEconomic "REFUND_REVERSED" "refund_reversed" 2 none)

/-- The user after the refund. -/
def refundedDb : Db := (execute handle attributedDb [earlyRefund]).2

theorem run_refundedDb : Run handle attributedDb (execute handle attributedDb [earlyRefund]).1 refundedDb :=
  run_execute _ _ _

/-- A reversal moves the milestone, where it is the first to confirm the event. -/
theorem reversal_moves_milestone : ∃ log out db',
    activeAttribution attributedDb.ledger.attributions 1 = some sampleAttribution ∧
    sampleAttribution.paidPlusConvertedAt = none ∧ Run handle attributedDb log refundedDb ∧
    handle lateReversal refundedDb = .ok (out, db') ∧ paidMilestone 1 refundedDb = none ∧
    paidMilestone 1 db' = some 0 := by
  have hmoved : (handle lateReversal refundedDb).toOption.bind (fun x => paidMilestone 1 x.2) = some 0 := by
    decide +kernel
  cases hop : handle lateReversal refundedDb with
  | error e =>
    rw [hop] at hmoved
    exact absurd hmoved (by simp [Except.toOption])
  | ok x =>
    rw [hop] at hmoved
    exact ⟨_, x.1, x.2, by decide +kernel, rfl, run_refundedDb, rfl, by decide +kernel, hmoved⟩

/-- The history of the refund and its reversal. -/
theorem milestone_history_sample : ∃ log db', log.length = 2 ∧ MilestoneHistory 1 sampleAttribution attributedDb log db' :=
  ⟨_, _, by decide +kernel,
    milestone_history (a := sampleAttribution) (by decide +kernel) rfl
      (run_execute handle [earlyRefund, lateReversal] attributedDb)⟩

end Purchase
end FuelNear

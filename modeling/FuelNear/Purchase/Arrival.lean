/-
# Conversion events and the order of arrival

New transactions of one user, processed one after the other. What a call adds
to the creator ledger depends on its transaction and, for a renewal, on whether
a purchase of its chain is stored by then: a renewal that comes before is left
out, and nothing makes up for it later. So two orders in which the same
renewals come after a purchase of their chain record the same events, and set
the same paid milestone.

Key definitions: `RecordedEvent`, `wouldRecord`, `Contributes`, `SameFollowing`.
Key theorems: `arrival_step`, `arrival_run`, `events_of_order`.
-/
import FuelNear.Purchase.Milestone

namespace FuelNear
namespace Purchase

open Sql Apple Text Creator Plus Ownership EconomicAdjustment

/-! ### What is recorded of a transaction -/

/-- An event without its id: the transaction, the type, the instant, the status
and the value, and whose it is. -/
structure RecordedEvent where
  attributionId : ℤ
  transactionId : String
  conversionType : ConversionType
  occurredAt : ℤ
  economicStatus : AppleCreatorEconomicStatus
  amount : Option ℚ
  currency : Option String
  deriving DecidableEq

def content (e : ConversionEvent) : RecordedEvent :=
  ⟨e.attributionId, e.externalEventKey, e.conversionType, e.occurredAt, e.economicStatus, e.amount, e.currency⟩

/-- The Apple events of a ledger. -/
def appleEvents (s : Ledger) : Set RecordedEvent := {x | ∃ e ∈ s.events, e.provider = .apple ∧ content e = x}

/-- What is recorded of a new transaction; `counts` says whether a renewal of
its chain counts. -/
def wouldRecord (a : CreatorAttribution) (counts : Bool) (notificationType : Option String)
    (n : NormalizedTransaction) : Option RecordedEvent :=
  let r := insertedRow 0 n
  let state := deriveAppleCreatorEconomicState r
  if isEconomicNotification notificationType && !(n.reduction none none).incomingAccepted then none
  else if r.revocationDate.isSome && !isTakenBack state.status then none
  else if n.purchaseDate < a.attributedAt then none
  else
    match appleConversionIdentity (normalizeAppleConversionValue n.transactionReason)
        (normalizeAppleConversionValue n.ownershipType) with
    | none => none
    | some (conversionType, _) =>
      if normalizeAppleConversionValue n.transactionReason = some "RENEWAL" ∧ counts = false then none
      else some ⟨a.id, n.transactionId, conversionType, n.purchaseDate, state.status, state.amount, state.currency⟩

/-- Only a renewal has to count. -/
theorem wouldRecord_counts {a : CreatorAttribution} {k k' : Bool} {notificationType : Option String}
    {n : NormalizedTransaction} (h : normalizeAppleConversionValue n.transactionReason = some "RENEWAL" → k = k') :
    wouldRecord a k notificationType n = wouldRecord a k' notificationType n := by
  by_cases hrenewal : normalizeAppleConversionValue n.transactionReason = some "RENEWAL"
  · rw [h hrenewal]
  · simp [wouldRecord, hrenewal]

/-- The id of the row does not matter. -/
theorem derived_insertedRow (id : ℤ) (n : NormalizedTransaction) :
    deriveAppleCreatorEconomicState (insertedRow id n) = deriveAppleCreatorEconomicState (insertedRow 0 n) :=
  deriveAppleCreatorEconomicState_congr rfl rfl rfl rfl rfl rfl

/-! ### The chain of a transaction -/

/-- The purchase date of a purchase of the original transaction. -/
def purchaseOf (originalTransactionId : String) (n : NormalizedTransaction) : Option ℤ :=
  if n.originalTransactionId = originalTransactionId ∧
    normalizeAppleConversionValue n.transactionReason = some "PURCHASE" then some n.purchaseDate else none

/-- The transaction of a call. -/
def sent (c : ProcessCall) : Option NormalizedTransaction := (validateAppleTransaction c.transaction).toOption

theorem sent_eq_some {c : ProcessCall} {n : NormalizedTransaction} :
    sent c = some n ↔ validateAppleTransaction c.transaction = .ok n := by
  unfold sent
  cases validateAppleTransaction c.transaction <;> simp [Except.toOption]

/-- A log of processed transactions. -/
abbrev ProcessLog := List (ProcessCall × ProcessAnswer)

/-- The purchases of an original transaction among some calls. -/
def sentPurchases (originalTransactionId : String) (log : ProcessLog) : List ℤ :=
  (log.filterMap fun e => sent e.1).filterMap (purchaseOf originalTransactionId)

theorem sentPurchases_append (originalTransactionId : String) (l m : ProcessLog) :
    sentPurchases originalTransactionId (l ++ m) =
      sentPurchases originalTransactionId l ++ sentPurchases originalTransactionId m := by
  simp [sentPurchases]

theorem sentPurchases_single {originalTransactionId : String} {c : ProcessCall} {out : ProcessAnswer}
    {n : NormalizedTransaction} (h : validateAppleTransaction c.transaction = .ok n) :
    sentPurchases originalTransactionId [(c, out)] = (purchaseOf originalTransactionId n).toList := by
  have hsent : sent c = some n := sent_eq_some.mpr h
  unfold sentPurchases
  cases hp : purchaseOf originalTransactionId n <;> simp [hsent, hp]

/-- Whether a renewal of the chain counts, after the calls `l`. -/
def chainCounts (a : CreatorAttribution) (db : Db) (l : ProcessLog) (n : NormalizedTransaction) : Bool :=
  renewalCounts a.attributedAt
    (purchaseDates n.originalTransactionId db.apple ++ sentPurchases n.originalTransactionId l)

/-- The event comes from one of the calls. -/
def Contributes (a : CreatorAttribution) (db : Db) (log : ProcessLog) (x : RecordedEvent) : Prop :=
  ∃ l₁ c out l₂ n, log = l₁ ++ (c, out) :: l₂ ∧ validateAppleTransaction c.transaction = .ok n ∧
    wouldRecord a (chainCounts a db l₁ n) c.notificationType n = some x

/-- New transactions of the user, from the attribution on: each is valid, none
is stored or recorded, and no two are the same. -/
structure NewTransactions (userId attributedAt : ℤ) (db : Db) (calls : List ProcessCall) : Prop where
  new : ∀ c ∈ calls, ∃ n, validateAppleTransaction c.transaction = .ok n ∧ n.owner = .user userId ∧
    attributedAt ≤ n.purchaseDate ∧ lookup n.transactionId db.apple = none ∧
    eventByKey db.ledger.events .apple n.transactionId = none
  distinct : calls.Pairwise fun c d => ∀ n m, validateAppleTransaction c.transaction = .ok n →
    validateAppleTransaction d.transaction = .ok m → n.transactionId ≠ m.transactionId

/-- The condition on one of the calls, as it is computed. -/
def isNew (userId attributedAt : ℤ) (db : Db) (c : ProcessCall) : Bool :=
  (sent c).any fun n => n.owner = .user userId && attributedAt ≤ n.purchaseDate &&
    (lookup n.transactionId db.apple).isNone && (eventByKey db.ledger.events .apple n.transactionId).isNone

theorem newTransactions_of_check {userId attributedAt : ℤ} {db : Db} {calls : List ProcessCall}
    (h : calls.all (isNew userId attributedAt db) = true)
    (hdistinct : (calls.map fun c => (sent c).map (·.transactionId)).Nodup) :
    NewTransactions userId attributedAt db calls := by
  constructor
  · intro c hc
    have hnew := List.all_eq_true.mp h c hc
    obtain ⟨n, hn, hcheck⟩ := Option.any_eq_true _ _ |>.mp hnew
    simp only [Bool.and_eq_true, decide_eq_true_eq, Option.isNone_iff_eq_none] at hcheck
    exact ⟨n, sent_eq_some.mp hn, hcheck.1.1.1, hcheck.1.1.2, hcheck.1.2, hcheck.2⟩
  · refine (List.pairwise_map.mp hdistinct).imp ?_
    intro c d hcd n m hn hm hid
    apply hcd
    rw [sent_eq_some.mpr hn, sent_eq_some.mpr hm, Option.map_some, Option.map_some, hid]

/-! ### One call -/

section Step

variable {c : ProcessCall} {n : NormalizedTransaction} {saved : AppleTransactionSaveResult} {db db' : Db}
  {out : ProcessAnswer} {userId : ℤ} {a : CreatorAttribution}

/-- A new transaction is stored as it was sent, at the end of the table. -/
theorem new_row {accounts : Accounts} {t t' : AppleTable} (h : SaveCompleted accounts n t saved t')
    (hnew : lookup n.transactionId t = none) : (∃ id, saved.row = insertedRow id n) ∧
      t'.rows = t.rows ++ [saved.row] ∧
      saved.economicAdjustmentAccepted = (n.reduction none none).incomingAccepted := by
  cases h with
  | merged found same =>
    rw [hnew] at found
    exact absurd found (by simp)
  | inserted new alone inserts => exact ⟨⟨_, rfl⟩, Table.insert?_rows inserts, rfl⟩

theorem purchaseDates_new {accounts : Accounts} {t t' : AppleTable} (h : SaveCompleted accounts n t saved t')
    (hnew : lookup n.transactionId t = none) (originalTransactionId : String) :
    purchaseDates originalTransactionId t' =
      purchaseDates originalTransactionId t ++ (purchaseOf originalTransactionId n).toList := by
  obtain ⟨⟨id, hrow⟩, hrows, -⟩ := new_row h hnew
  unfold purchaseDates purchaseOf
  rw [hrows, List.filter_append, List.map_append, hrow]
  congr 1
  by_cases hp : n.originalTransactionId = originalTransactionId ∧
      normalizeAppleConversionValue n.transactionReason = some "PURCHASE"
  · rw [if_pos hp]
    simp [insertedRow, newRow, hp.1, hp.2]
  · rw [if_neg hp]
    have hfalse : (decide ((insertedRow id n).originalTransactionId = originalTransactionId) &&
        decide (normalizeAppleConversionValue (insertedRow id n).transactionReason = some "PURCHASE")) = false := by
      rw [Bool.and_eq_false_iff]
      exact (not_and_or.mp hp).imp decide_eq_false decide_eq_false
    rw [List.filter_cons_of_neg (by simp [hfalse])]
    rfl

/-- A conversion of a new transaction adds what would be recorded of it, and
nothing else. -/
theorem recorded_new {apple : AppleTable} {s s' : Ledger} {o : Option CreatorAppleConversionResult} {id : ℤ}
    (h : Recorded (conversionOf userId (insertedRow id n)) apple s o s')
    (ha : activeAttribution s.attributions userId = some a)
    (hids : strip n.transactionId = n.transactionId ∧ strip n.originalTransactionId = n.originalTransactionId)
    (hnew : eventByKey s.events .apple n.transactionId = none) {notificationType : Option String}
    (hshould : (isEconomicNotification notificationType && !(n.reduction none none).incomingAccepted) = false) :
    (wouldRecord a (renewalCounts a.attributedAt (purchaseDates n.originalTransactionId apple)) notificationType n = none ∧
      o = none ∧ s' = s) ∨
    ∃ x r, wouldRecord a (renewalCounts a.attributedAt (purchaseDates n.originalTransactionId apple)) notificationType n =
        some x ∧ o = some r ∧ r.attributionId = a.id ∧ r.economicStatus = x.economicStatus ∧
      r.occurredAt = x.occurredAt ∧ appleEvents s' = insert x (appleEvents s) := by
  unfold wouldRecord
  dsimp only
  rw [hshould, if_neg (by simp), ← derived_insertedRow id n]
  cases h with
  | revoked date kept =>
    refine Or.inl ⟨if_pos ?_, rfl, rfl⟩
    have hdate : (insertedRow 0 n).revocationDate.isSome = true := date
    have hkept : isTakenBack (deriveAppleCreatorEconomicState (insertedRow id n)).status = false := kept
    rw [hdate, hkept]
    rfl
  | unattributed noAttribution => exact absurd (noAttribution.symm.trans ha) (by simp)
  | @early a' attribution before =>
    obtain rfl : a' = a := Option.some.inj (attribution.symm.trans ha)
    have hbefore : n.purchaseDate < a'.attributedAt := before
    refine Or.inl ⟨?_, rfl, rfl⟩
    rw [if_pos hbefore, ite_self]
  | @updated a' e events q live attribution date found same written answer =>
    have hfound : eventByKey s.events .apple (strip n.transactionId) = some e := found
    rw [hids.1, hnew] at hfound
    exact absurd hfound (by simp)
  | @unrecorded a' attribution new left =>
    obtain rfl : a' = a := Option.some.inj (attribution.symm.trans ha)
    refine Or.inl ⟨?_, rfl, rfl⟩
    have hleft : ∀ t, appleConversionIdentity (normalizeAppleConversionValue n.transactionReason)
        (normalizeAppleConversionValue n.ownershipType) = some t →
        normalizeAppleConversionValue n.transactionReason = some "RENEWAL" ∧
          renewalCounts a'.attributedAt (purchaseDates (strip n.originalTransactionId) apple) = false := left
    rw [hids.2] at hleft
    cases hidentity : appleConversionIdentity (normalizeAppleConversionValue n.transactionReason)
        (normalizeAppleConversionValue n.ownershipType) with
    | none => simp
    | some t => simp [hleft t hidentity]
  | @inserted a' t events q live attribution date new identity counts written answer =>
    obtain rfl : a' = a := Option.some.inj (attribution.symm.trans ha)
    have hlive : n.revocationDate = none ∨
        isTakenBack (deriveAppleCreatorEconomicState (insertedRow id n)).status = true := live
    have hdate : a'.attributedAt ≤ n.purchaseDate := date
    have hidentity : appleConversionIdentity (normalizeAppleConversionValue n.transactionReason)
        (normalizeAppleConversionValue n.ownershipType) = some t := identity
    have hcounts : normalizeAppleConversionValue n.transactionReason = some "RENEWAL" →
        renewalCounts a'.attributedAt (purchaseDates (strip n.originalTransactionId) apple) = true := counts
    rw [hids.2] at hcounts
    have hnotRevoked : ¬ ((insertedRow 0 n).revocationDate.isSome &&
        !isTakenBack (deriveAppleCreatorEconomicState (insertedRow id n)).status) = true := by
      rcases hlive with hlive | hlive
      · simp [insertedRow, newRow, hlive]
      · simp [hlive]
    have hcounted : ¬ (normalizeAppleConversionValue n.transactionReason = some "RENEWAL" ∧
        renewalCounts a'.attributedAt (purchaseDates n.originalTransactionId apple) = false) := by
      intro hboth
      rw [hcounts hboth.1] at hboth
      exact absurd hboth.2 (by simp)
    rw [if_neg hnotRevoked, if_neg (not_lt.mpr hdate), hidentity]
    dsimp only
    rw [if_neg hcounted]
    refine Or.inr ⟨_, q, rfl, rfl, answer.attributionId, answer.economicStatus, answer.occurredAt, ?_⟩
    set event := newEvent (nextEventId s.events) (conversionOf userId (insertedRow id n)) a' t.1 with hevent
    have hcontent : content event = ⟨a'.id, n.transactionId, t.1, n.purchaseDate,
        (deriveAppleCreatorEconomicState (insertedRow id n)).status,
        (deriveAppleCreatorEconomicState (insertedRow id n)).amount,
        (deriveAppleCreatorEconomicState (insertedRow id n)).currency⟩ := by
      simp only [content, hevent, newEvent, conversionOf, insertedRow, newRow, hids.1]
    ext x
    simp only [appleEvents, Set.mem_ofPred_eq, Set.mem_insert_iff, ← hcontent]
    constructor
    · rintro ⟨e, he, hprovider, hx⟩
      rcases (Table.mem_insert (Checked.insert_ok written)).mp he with he | rfl
      · exact Or.inr ⟨e, he, hprovider, hx⟩
      · exact Or.inl hx.symm
    · intro hx
      rcases hx with rfl | ⟨e, he, hprovider, hx⟩
      · exact ⟨event, (Table.mem_insert (Checked.insert_ok written)).mpr (Or.inr rfl), rfl, rfl⟩
      · exact ⟨e, (Table.mem_insert (Checked.insert_ok written)).mpr (Or.inl he), hprovider, hx⟩

/-- One call on a new transaction: what it adds to the events, and which
instants it confirms. -/
theorem arrival_step (h : Processed c n saved db out db') (howner : n.owner = .user userId)
    (ha : activeAttribution db.ledger.attributions userId = some a)
    (hnew : lookup n.transactionId db.apple = none)
    (hunrecorded : eventByKey db.ledger.events .apple n.transactionId = none) {k : Bool}
    (hk : normalizeAppleConversionValue n.transactionReason = some "RENEWAL" →
      k = renewalCounts a.attributedAt (purchaseDates n.originalTransactionId db'.apple)) :
    (∀ x, x ∈ appleEvents db'.ledger ↔
      x ∈ appleEvents db.ledger ∨ wouldRecord a k c.notificationType n = some x) ∧
    ∀ t, t ∈ confirmations a.id out.conversions ↔ ∃ x, wouldRecord a k c.notificationType n = some x ∧
      x.economicStatus = .confirmed ∧ x.occurredAt = t := by
  obtain ⟨⟨id, hrow⟩, -, haccepted⟩ := new_row h.save hnew
  have hrecord := h.ofUser userId howner
  rw [wouldRecord_counts hk]
  unfold recordSaved shouldRecordCreator at hrecord
  cases hskip : isEconomicNotification c.notificationType && !(n.reduction none none).incomingAccepted with
  | true =>
    rw [haccepted, hskip, if_neg (by simp)] at hrecord
    obtain ⟨hconversions, hledger⟩ := Prod.mk.inj (Except.ok.inj hrecord)
    have hnone : wouldRecord a (renewalCounts a.attributedAt (purchaseDates n.originalTransactionId db'.apple))
        c.notificationType n = none := by
      unfold wouldRecord
      dsimp only
      rw [hskip, if_pos rfl]
    rw [hnone, ← hledger, ← hconversions]
    exact ⟨fun x => by simp, fun t => by simp [confirmations]⟩
  | false =>
    rw [haccepted, hskip, if_pos (by simp)] at hrecord
    obtain ⟨⟨o, s₁⟩, hrec, hrecord⟩ := bind_eq_ok.mp hrecord
    obtain ⟨hconversions, rfl⟩ := Prod.mk.inj (Except.ok.inj hrecord)
    rw [hrow] at hrec
    rw [← hconversions]
    rcases recorded_new (recorded_of_ok hrec) ha (stripped_ids h.validated) hunrecorded hskip with
      ⟨hnone, rfl, hsame⟩ | ⟨x, r, hx, rfl, hattribution, hstatus, hat, hevents⟩
    · rw [hnone, hsame]
      exact ⟨fun x => by simp, fun t => by simp [confirmations]⟩
    · rw [hx, hevents]
      refine ⟨fun y => ?_, fun t => ?_⟩
      · rw [Set.mem_insert_iff, or_comm, Option.some_inj, eq_comm]
      · rw [mem_confirmations]
        simp [hattribution, hstatus, hat]

end Step

/-! ### All calls -/

section Whole

variable {userId : ℤ} {a : CreatorAttribution} {db db' : Db} {log : ProcessLog}

theorem NewTransactions.of_append {l m : List ProcessCall} (h : NewTransactions userId a.attributedAt db (l ++ m)) :
    NewTransactions userId a.attributedAt db l :=
  ⟨fun c hc => h.new c (List.mem_append_left _ hc), (List.pairwise_append.mp h.distinct).1⟩

/-- The last of some new transactions is still new when its turn comes. -/
theorem NewTransactions.last_ne {l : List ProcessCall} {c : ProcessCall} {n : NormalizedTransaction}
    (h : NewTransactions userId a.attributedAt db (l ++ [c])) (hn : validateAppleTransaction c.transaction = .ok n) :
    ∀ d ∈ l, ∀ m, validateAppleTransaction d.transaction = .ok m → n.transactionId ≠ m.transactionId := by
  intro d hd m hm
  exact ((List.pairwise_append.mp h.distinct).2.2 d hd c List.mem_cons_self m n hm hn).symm

/-- What holds after some new transactions, beside the events. -/
structure AfterNew (userId : ℤ) (a : CreatorAttribution) (db : Db) (log : ProcessLog) (db' : Db) : Prop where
  active : ∃ b, activeAttribution db'.ledger.attributions userId = some b ∧ SameAttribution a b
  dates : ∀ o, purchaseDates o db'.apple = purchaseDates o db.apple ++ sentPurchases o log
  others : ∀ key, (∀ e ∈ log, ∀ m, validateAppleTransaction e.1.transaction = .ok m → key ≠ m.transactionId) →
    lookup key db'.apple = lookup key db.apple ∧
      eventByKey db'.ledger.events .apple key = eventByKey db.ledger.events .apple key

theorem wouldRecord_same {b : CreatorAttribution} (h : SameAttribution a b) (k : Bool) (notificationType : Option String)
    (n : NormalizedTransaction) : wouldRecord b k notificationType n = wouldRecord a k notificationType n := by
  unfold wouldRecord
  rw [h.id, h.attributedAt]

/-- What comes from one more call. -/
theorem contributes_done {c : ProcessCall} {out : ProcessAnswer} {n : NormalizedTransaction}
    (hn : validateAppleTransaction c.transaction = .ok n) (x : RecordedEvent) :
    Contributes a db (log ++ [(c, out)]) x ↔ Contributes a db log x ∨
      wouldRecord a (chainCounts a db log n) c.notificationType n = some x := by
  constructor
  · intro ⟨l₁, d, o, l₂, m, hl, hm, hx⟩
    rcases List.eq_nil_or_concat l₂ with rfl | ⟨l₃, e, rfl⟩
    · obtain ⟨rfl, hlast⟩ := List.append_inj' hl rfl
      obtain ⟨rfl, -⟩ : c = d ∧ out = o := by simpa using hlast
      obtain rfl : n = m := Except.ok.inj (hn.symm.trans hm)
      exact Or.inr hx
    · refine Or.inl ⟨l₁, d, o, l₃, m, ?_, hm, hx⟩
      have hl' : log ++ [(c, out)] = (l₁ ++ (d, o) :: l₃) ++ [e] := by simpa using hl
      exact (List.append_inj' hl' rfl).1
  · intro hx
    rcases hx with ⟨l₁, d, o, l₂, m, hl, hm, hx⟩ | hx
    · exact ⟨l₁, d, o, l₂ ++ [(c, out)], m, by simp [hl], hm, hx⟩
    · exact ⟨log, c, out, [], n, rfl, hn, hx⟩

/-- **What a run of new transactions records.** -/
theorem arrival_run (ha : activeAttribution db.ledger.attributions userId = some a)
    (h : Run processAppleTransaction db log db')
    (hnew : NewTransactions userId a.attributedAt db (log.map (·.1))) :
    AfterNew userId a db log db' ∧
    (∀ x, x ∈ appleEvents db'.ledger ↔ x ∈ appleEvents db.ledger ∨ Contributes a db log x) ∧
    ∀ t, t ∈ confirmations a.id (log.flatMap (·.2.conversions)) ↔
      ∃ x, Contributes a db log x ∧ x.economicStatus = .confirmed ∧ x.occurredAt = t := by
  induction h with
  | start =>
    have hnone : ∀ x, ¬ Contributes a db [] x := fun x ⟨l₁, c, out, l₂, n, hl, _⟩ => by simp at hl
    refine ⟨⟨⟨a, ha, SameAttribution.refl a⟩, fun o => by simp [sentPurchases], fun key _ => ⟨rfl, rfl⟩⟩, ?_, ?_⟩
    · intro x
      simp [hnone x]
    · intro t
      simp [confirmations, hnone]
  | refused _ _ ih => exact ih hnew
  | @done log y c out z hrun hop ih =>
    rw [List.map_append] at hnew
    obtain ⟨hafter, hevents, hconfirmed⟩ := ih hnew.of_append
    obtain ⟨n, saved, hprocessed⟩ := processed_of_ok hop
    obtain ⟨m, hm, howner, -, hstored, hrecorded⟩ := hnew.new c (by simp)
    obtain rfl : n = m := Except.ok.inj (hprocessed.validated.symm.trans hm)
    obtain ⟨b, hb, hsame⟩ := hafter.active
    obtain ⟨hlookup, hevent⟩ := hafter.others n.transactionId fun e he m hm =>
      hnew.last_ne hprocessed.validated e.1 (List.mem_map_of_mem he) m hm
    rw [hstored] at hlookup
    rw [hrecorded] at hevent
    have hdates := purchaseDates_new hprocessed.save hlookup
    have hcounts : normalizeAppleConversionValue n.transactionReason = some "RENEWAL" →
        chainCounts a db log n = renewalCounts b.attributedAt (purchaseDates n.originalTransactionId z.apple) := by
      intro hrenewal
      rw [hdates, hafter.dates, hsame.attributedAt]
      simp [chainCounts, purchaseOf, hrenewal]
    obtain ⟨hstep, hstep'⟩ := arrival_step hprocessed howner hb hlookup hevent hcounts
    refine ⟨⟨?_, ?_, ?_⟩, ?_, ?_⟩
    · obtain ⟨b', hb', hsame'⟩ := hprocessed.attribution hb
      exact ⟨b', hb', hsame.trans hsame'⟩
    · intro o
      rw [hdates, hafter.dates, sentPurchases_append, sentPurchases_single hm, List.append_assoc]
    · intro key hkey
      have hne : key ≠ n.transactionId := hkey (c, out) (by simp) n hm
      obtain ⟨h1, h2⟩ := hafter.others key fun e he => hkey e (List.mem_append_left _ he)
      exact ⟨(hprocessed.save.lookup_of_ne hne).trans h1, (hprocessed.event_of_ne hne).trans h2⟩
    · intro x
      rw [hstep x, hevents x, contributes_done hm x, wouldRecord_same hsame, or_assoc]
    · intro t
      rw [List.flatMap_append, confirmations_append, List.mem_append, hconfirmed t]
      have hlast : t ∈ confirmations a.id ([(c, out)].flatMap (·.2.conversions)) ↔
          ∃ x, wouldRecord a (chainCounts a db log n) c.notificationType n = some x ∧
            x.economicStatus = .confirmed ∧ x.occurredAt = t := by
        have hstep' := hstep' t
        rw [hsame.id] at hstep'
        simp only [wouldRecord_same hsame] at hstep'
        simpa using hstep'
      rw [hlast]
      simp only [contributes_done hm, or_and_right, exists_or]

end Whole

/-! ### Any order -/

/-- A purchase of the chain is stored before, or among the calls `l`. -/
def Preceded (db : Db) (l : ProcessLog) (n : NormalizedTransaction) : Prop :=
  purchaseDates n.originalTransactionId db.apple ≠ [] ∨ sentPurchases n.originalTransactionId l ≠ []

/-- The two orders put the same renewals after a purchase of their chain. -/
def SameFollowing (db : Db) (log₁ log₂ : ProcessLog) : Prop :=
  ∀ l₁ c out l₂ m₁ out' m₂ n, log₁ = l₁ ++ (c, out) :: l₂ → log₂ = m₁ ++ (c, out') :: m₂ →
    validateAppleTransaction c.transaction = .ok n →
    normalizeAppleConversionValue n.transactionReason = some "RENEWAL" → (Preceded db l₁ n ↔ Preceded db m₁ n)

section Orders

variable {userId : ℤ} {a : CreatorAttribution} {db : Db}

theorem NewTransactions.perm {l m : List ProcessCall} (h : NewTransactions userId a.attributedAt db l)
    (hperm : l.Perm m) : NewTransactions userId a.attributedAt db m :=
  ⟨fun c hc => h.new c (hperm.mem_iff.mpr hc),
    (hperm.pairwise_iff fun hcd n m hn hm => (hcd m n hm hn).symm).mp h.distinct⟩

/-- The purchases of new transactions are from the attribution on. -/
theorem sentPurchases_ge {l : ProcessLog} (h : NewTransactions userId a.attributedAt db (l.map (·.1))) (o : String) :
    ∀ d ∈ sentPurchases o l, a.attributedAt ≤ d := by
  intro d hd
  obtain ⟨n, hn, hpurchase⟩ := List.mem_filterMap.mp hd
  obtain ⟨e, he, hsent⟩ := List.mem_filterMap.mp hn
  obtain ⟨m, hm, -, hdate, -⟩ := h.new e.1 (List.mem_map_of_mem he)
  obtain rfl : n = m := Except.ok.inj ((sent_eq_some.mp hsent).symm.trans hm)
  unfold purchaseOf at hpurchase
  split_ifs at hpurchase
  rw [← Option.some.inj hpurchase]
  exact hdate

/-- Whether a renewal counts depends on what is stored at the start, and on
whether a purchase precedes it. -/
theorem renewalCounts_append {t : ℤ} {dates l : List ℤ} (hl : ∀ d ∈ l, t ≤ d) :
    renewalCounts t (dates ++ l) = true ↔ (∀ d ∈ dates, t ≤ d) ∧ (dates ≠ [] ∨ l ≠ []) := by
  unfold renewalCounts
  simp only [List.any_append, Bool.and_eq_true, Bool.not_eq_true', Bool.or_eq_false_iff, List.any_eq_false,
    decide_eq_true_eq, not_lt, Bool.or_eq_true, List.any_eq_true]
  constructor
  · intro ⟨⟨hdates, _⟩, hany⟩
    refine ⟨hdates, ?_⟩
    rcases hany with ⟨d, hd, _⟩ | ⟨d, hd, _⟩
    · exact Or.inl (List.ne_nil_of_mem hd)
    · exact Or.inr (List.ne_nil_of_mem hd)
  · intro ⟨hdates, hne⟩
    refine ⟨⟨hdates, hl⟩, ?_⟩
    rcases hne with hne | hne
    · obtain ⟨d, hd⟩ := List.exists_mem_of_ne_nil dates hne
      exact Or.inl ⟨d, hd, hdates d hd⟩
    · obtain ⟨d, hd⟩ := List.exists_mem_of_ne_nil l hne
      exact Or.inr ⟨d, hd, hl d hd⟩

theorem chainCounts_eq {l m : ProcessLog} (hl : NewTransactions userId a.attributedAt db (l.map (·.1)))
    (hm : NewTransactions userId a.attributedAt db (m.map (·.1))) {n : NormalizedTransaction}
    (h : Preceded db l n ↔ Preceded db m n) : chainCounts a db l n = chainCounts a db m n := by
  unfold chainCounts
  rw [Bool.eq_iff_iff, renewalCounts_append (sentPurchases_ge hl _), renewalCounts_append (sentPurchases_ge hm _)]
  exact and_congr_right fun _ => h

/-- What one order records, another with the same renewals in place does too. -/
theorem Contributes.other_order {log₁ log₂ : ProcessLog} {x : RecordedEvent}
    (h₁ : NewTransactions userId a.attributedAt db (log₁.map (·.1)))
    (h₂ : NewTransactions userId a.attributedAt db (log₂.map (·.1)))
    (hperm : (log₁.map (·.1)).Perm (log₂.map (·.1))) (hfollow : SameFollowing db log₁ log₂)
    (h : Contributes a db log₁ x) : Contributes a db log₂ x := by
  obtain ⟨l₁, c, out, l₂, n, rfl, hn, hx⟩ := h
  have hc : c ∈ log₂.map (·.1) := hperm.mem_iff.mp (by simp)
  obtain ⟨⟨c', out'⟩, hmem, hcc : c' = c⟩ := List.mem_map.mp hc
  subst hcc
  obtain ⟨m₁, m₂, rfl⟩ := List.append_of_mem hmem
  refine ⟨m₁, c', out', m₂, n, rfl, hn, ?_⟩
  rw [← hx]
  apply wouldRecord_counts
  intro hrenewal
  have hl : NewTransactions userId a.attributedAt db (l₁.map (·.1)) := by
    rw [List.map_append] at h₁
    exact h₁.of_append
  have hm : NewTransactions userId a.attributedAt db (m₁.map (·.1)) := by
    rw [List.map_append] at h₂
    exact h₂.of_append
  exact (chainCounts_eq hl hm (hfollow l₁ c' out l₂ m₁ out' m₂ n rfl rfl hn hrenewal)).symm

theorem SameFollowing.symm {log₁ log₂ : ProcessLog} (h : SameFollowing db log₁ log₂) : SameFollowing db log₂ log₁ :=
  fun l₁ c out l₂ m₁ out' m₂ n h₁ h₂ hn hr => (h m₁ c out' m₂ l₁ out l₂ n h₂ h₁ hn hr).symm

/-- A renewal of the chain of the first call comes after its purchase. -/
theorem preceded_of_first {c₀ : ProcessCall} {n₀ : NormalizedTransaction} {log : ProcessLog} {l : List ProcessCall}
    (hlog : log.map (·.1) = c₀ :: l) (hn₀ : validateAppleTransaction c₀.transaction = .ok n₀)
    (hpurchase : normalizeAppleConversionValue n₀.transactionReason = some "PURCHASE") {l₁ l₂ : ProcessLog}
    {c : ProcessCall} {out : ProcessAnswer} {n : NormalizedTransaction} (h : log = l₁ ++ (c, out) :: l₂)
    (hn : validateAppleTransaction c.transaction = .ok n) (hchain : n.originalTransactionId = n₀.originalTransactionId)
    (hrenewal : normalizeAppleConversionValue n.transactionReason = some "RENEWAL") : Preceded db l₁ n := by
  subst h
  cases l₁ with
  | nil =>
    obtain ⟨rfl, -⟩ : c = c₀ ∧ _ := by simpa using hlog
    obtain rfl : n₀ = n := Except.ok.inj (hn₀.symm.trans hn)
    rw [hpurchase] at hrenewal
    exact absurd hrenewal (by decide)
  | cons e l₃ =>
    have hfirst : e.1 = c₀ := by
      rw [List.cons_append, List.map_cons] at hlog
      exact (List.cons.inj hlog).1
    have hsent : sent e.1 = some n₀ := by rw [hfirst, sent_eq_some, hn₀]
    refine Or.inr ?_
    simp [sentPurchases, hsent, purchaseOf, hchain, hpurchase]

/-- Orders of one chain that begin with its purchase. -/
theorem sameFollowing_of_first {c₀ : ProcessCall} {n₀ : NormalizedTransaction} {log₁ log₂ : ProcessLog}
    {l m : List ProcessCall} (h₁ : log₁.map (·.1) = c₀ :: l) (h₂ : log₂.map (·.1) = c₀ :: m)
    (hn₀ : validateAppleTransaction c₀.transaction = .ok n₀)
    (hpurchase : normalizeAppleConversionValue n₀.transactionReason = some "PURCHASE")
    (hchain : ∀ e ∈ log₁, ∀ n, validateAppleTransaction e.1.transaction = .ok n →
      n.originalTransactionId = n₀.originalTransactionId) : SameFollowing db log₁ log₂ := by
  intro l₁ c out l₂ m₁ out' m₂ n hl hm hn hrenewal
  have hsame : n.originalTransactionId = n₀.originalTransactionId := hchain (c, out) (by simp [hl]) n hn
  exact iff_of_true (preceded_of_first h₁ hn₀ hpurchase hl hn hsame hrenewal)
    (preceded_of_first h₂ hn₀ hpurchase hm hn hsame hrenewal)

theorem foldl_earliest_congr {p : Option ℤ} {l m : List ℤ} (h : ∀ t, t ∈ l ↔ t ∈ m) :
    l.foldl earliest p = m.foldl earliest p := by
  have hle : ∀ {l m : List ℤ} {x y : ℤ}, (∀ t, t ∈ l ↔ t ∈ m) → l.foldl earliest p = some x →
      m.foldl earliest p = some y → x ≤ y := by
    intro l m x y h hx hy
    obtain ⟨-, hl, hp⟩ := foldl_earliest_spec hx
    rcases (foldl_earliest_spec hy).1 with hy | hy
    · exact hp y hy
    · exact hl y ((h y).mpr hy)
  have hnone : l.foldl earliest p = none ↔ m.foldl earliest p = none := by
    rw [foldl_earliest_eq_none, foldl_earliest_eq_none, List.eq_nil_iff_forall_not_mem, List.eq_nil_iff_forall_not_mem]
    simp only [h]
  cases hx : l.foldl earliest p with
  | none => rw [hnone.mp hx]
  | some x =>
    cases hy : m.foldl earliest p with
    | none =>
      rw [hnone.mpr hy] at hx
      exact absurd hx (by simp)
    | some y => rw [le_antisymm (hle h hx hy) (hle (fun t => (h t).symm) hy hx)]

/-- A run of processed transactions is a run of requests. -/
theorem run_handle {db' : Db} {log : ProcessLog} (h : Run processAppleTransaction db log db') :
    Run handle db (log.map fun e => (.process e.1, .processed e.2)) db' := by
  induction h with
  | start => exact Run.start
  | @done log x c out y _ hop ih =>
    rw [List.map_append]
    refine ih.done ?_
    show (processAppleTransaction c x >>= fun z => Except.ok (Answer.processed z.1, z.2)) = _
    rw [hop]
    rfl
  | @refused log x c e _ hop ih =>
    refine ih.refused (a := .process c) (e := e) ?_
    show (processAppleTransaction c x >>= fun z => Except.ok (Answer.processed z.1, z.2)) = _
    rw [hop]
    rfl

/-- The paid milestone after new transactions. -/
theorem paidMilestone_process {db' : Db} {log : ProcessLog} (ha : activeAttribution db.ledger.attributions userId = some a)
    (h : Run processAppleTransaction db log db') : paidMilestone userId db' =
      (confirmations a.id (log.flatMap (·.2.conversions))).foldl earliest (paidMilestone userId db) := by
  rw [(paidMilestone_run ha (run_handle h)).2]
  congr 2
  unfold recorded
  rw [List.flatMap_map]
  rfl

/-- **The events do not depend on the order**, as long as the same renewals
come after a purchase of their chain; and neither does the paid milestone. -/
theorem events_of_order {db₁ db₂ : Db} {log₁ log₂ : ProcessLog}
    (ha : activeAttribution db.ledger.attributions userId = some a)
    (h₁ : Run processAppleTransaction db log₁ db₁) (h₂ : Run processAppleTransaction db log₂ db₂)
    (hnew : NewTransactions userId a.attributedAt db (log₁.map (·.1)))
    (hperm : (log₁.map (·.1)).Perm (log₂.map (·.1))) (hfollow : SameFollowing db log₁ log₂) :
    appleEvents db₁.ledger = appleEvents db₂.ledger ∧ paidMilestone userId db₁ = paidMilestone userId db₂ := by
  have hnew₂ := hnew.perm hperm
  obtain ⟨-, hevents₁, hconfirmed₁⟩ := arrival_run ha h₁ hnew
  obtain ⟨-, hevents₂, hconfirmed₂⟩ := arrival_run ha h₂ hnew₂
  have hsame : ∀ x, Contributes a db log₁ x ↔ Contributes a db log₂ x := fun x =>
    ⟨Contributes.other_order hnew hnew₂ hperm hfollow, Contributes.other_order hnew₂ hnew hperm.symm hfollow.symm⟩
  constructor
  · ext x
    rw [hevents₁, hevents₂, hsame]
  · rw [paidMilestone_process ha h₁, paidMilestone_process ha h₂]
    apply foldl_earliest_congr
    intro t
    rw [hconfirmed₁, hconfirmed₂]
    simp only [hsame]

end Orders

/-! ### A purchase and its renewals -/

/-- A renewal of the sample purchase. -/
def sampleRenewal (transactionId : String) (d : ℤ) : ProcessCall :=
  sampleRequest { samplePurchase with
    transactionId
    purchaseDate := d
    expiresDate := some (d + 100)
    signedDate := some d
    transactionReason := some "RENEWAL"
    economicTransactionSignedAt := some d }

/-- The renewal that is processed before its purchase is not recorded. -/
theorem renewal_first_is_lost : ∃ log₁ db₁ log₂ db₂,
    activeAttribution attributedDb.ledger.attributions 1 = some sampleAttribution ∧
    NewTransactions 1 0 attributedDb (log₁.map (·.1)) ∧ Run processAppleTransaction attributedDb log₁ db₁ ∧
    Run processAppleTransaction attributedDb log₂ db₂ ∧ log₁.length = 2 ∧ (log₁.map (·.1)).Perm (log₂.map (·.1)) ∧
    appleEvents db₁.ledger ≠ appleEvents db₂.ledger := by
  set one := execute processAppleTransaction attributedDb [sampleRequest samplePurchase, sampleRenewal "r" 50] with hone
  set two := execute processAppleTransaction attributedDb [sampleRenewal "r" 50, sampleRequest samplePurchase] with htwo
  have hcalls₁ : one.1.map (·.1) = [sampleRequest samplePurchase, sampleRenewal "r" 50] := by decide +kernel
  have hcalls₂ : two.1.map (·.1) = [sampleRenewal "r" 50, sampleRequest samplePurchase] := by decide +kernel
  have hrecorded : (eventByKey one.2.ledger.events .apple "r").isSome = true := by decide +kernel
  have hlost : eventByKey two.2.ledger.events .apple "r" = none := by decide +kernel
  refine ⟨one.1, one.2, two.1, two.2, by decide +kernel, ?_, run_execute _ _ _, run_execute _ _ _, by decide +kernel,
    ?_, fun hsame => ?_⟩
  · rw [hcalls₁]
    exact newTransactions_of_check (by decide +kernel) (by decide +kernel)
  · rw [hcalls₁, hcalls₂]
    exact List.Perm.swap _ _ _
  · obtain ⟨e, he⟩ := Option.isSome_iff_exists.mp hrecorded
    obtain ⟨hmem, hprovider, hkey⟩ := eventByKey_iff.mp he
    have hx : content e ∈ appleEvents two.2.ledger := hsame ▸ ⟨e, hmem, hprovider, rfl⟩
    obtain ⟨d, hd, hdprovider, hcontent⟩ := hx
    have hdkey : d.externalEventKey = "r" := (congrArg RecordedEvent.transactionId hcontent).trans hkey
    rw [eventByKey_iff.mpr ⟨hd, hdprovider, hdkey⟩] at hlost
    exact absurd hlost (by simp)

/-- A purchase and two renewals, the renewals in either order. -/
theorem events_of_order_sample : ∃ log₁ db₁ log₂ db₂, log₁.length = 3 ∧
    Run processAppleTransaction attributedDb log₁ db₁ ∧ Run processAppleTransaction attributedDb log₂ db₂ ∧
    (eventByKey db₁.ledger.events .apple "s").isSome ∧
    appleEvents db₁.ledger = appleEvents db₂.ledger ∧ paidMilestone 1 db₁ = paidMilestone 1 db₂ := by
  set one := execute processAppleTransaction attributedDb
    [sampleRequest samplePurchase, sampleRenewal "r" 50, sampleRenewal "s" 90] with hone
  set two := execute processAppleTransaction attributedDb
    [sampleRequest samplePurchase, sampleRenewal "s" 90, sampleRenewal "r" 50] with htwo
  have hcalls₁ : one.1.map (·.1) = [sampleRequest samplePurchase, sampleRenewal "r" 50, sampleRenewal "s" 90] := by
    decide +kernel
  have hcalls₂ : two.1.map (·.1) = [sampleRequest samplePurchase, sampleRenewal "s" 90, sampleRenewal "r" 50] := by
    decide +kernel
  have hrun₁ : Run processAppleTransaction attributedDb one.1 one.2 := run_execute _ _ _
  have hrun₂ : Run processAppleTransaction attributedDb two.1 two.2 := run_execute _ _ _
  obtain ⟨n₀, hn₀, hpurchase, horiginal⟩ : ∃ n, validateAppleTransaction (sampleRequest samplePurchase).transaction =
      .ok n ∧ normalizeAppleConversionValue n.transactionReason = some "PURCHASE" ∧ n.originalTransactionId = "t" := by
    have hsent : (sent (sampleRequest samplePurchase)).map (fun n =>
        (normalizeAppleConversionValue n.transactionReason, n.originalTransactionId)) = some (some "PURCHASE", "t") := by
      decide +kernel
    obtain ⟨n, hn, hcols⟩ := Option.map_eq_some_iff.mp hsent
    simp only [Prod.mk.injEq] at hcols
    exact ⟨n, sent_eq_some.mp hn, hcols⟩
  have hchain : ∀ e ∈ one.1, ∀ n, validateAppleTransaction e.1.transaction = .ok n →
      n.originalTransactionId = n₀.originalTransactionId := by
    have hall : (one.1.map (·.1)).all (fun c => (sent c).all (·.originalTransactionId = "t")) = true := by
      rw [hcalls₁]
      decide +kernel
    intro e he n hn
    have hcheck := List.all_eq_true.mp hall e.1 (List.mem_map_of_mem he)
    rw [sent_eq_some.mpr hn] at hcheck
    rw [horiginal]
    simpa using hcheck
  refine ⟨one.1, one.2, two.1, two.2, by decide +kernel, hrun₁, hrun₂, by decide +kernel,
    events_of_order (a := sampleAttribution) (by decide +kernel) hrun₁ hrun₂ ?_ ?_
      (sameFollowing_of_first hcalls₁ hcalls₂ hn₀ hpurchase hchain)⟩
  · rw [hcalls₁]
    exact newTransactions_of_check (by decide +kernel) (by decide +kernel)
  · rw [hcalls₁, hcalls₂]
    exact (List.Perm.swap _ _ _).cons _

end Purchase
end FuelNear

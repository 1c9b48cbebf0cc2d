/-
# The records of sent price notifications

`sent_price_notifications` holds one record for each user and import run. Its
three statements are here, each one transaction by itself: a worker claims a
record before it pushes, a recovery takes records back that have been
processing for too long, and the worker finalizes the record that it claimed.
A claim either inserts the record or takes over one that failed for a while.

The attempts are counted at the claim, or already at the recovery before it;
`last_reason` says which.

Key definitions: `NotificationRecord`, `claimPriceNotificationRecord`,
`recoverStalePriceNotifications`, `finalizePriceNotificationRecord`, `Report`.
Key theorems: `claim_cases`, `mem_recover`, `mem_finalize`, `finalization_reason`.
-/
import FuelNear.Sql
import FuelNear.Runs

namespace FuelNear
namespace Notifications

open Sql

/-! ### Records -/

inductive NotificationStatus where
  | processing
  | sent
  | failed
  deriving DecidableEq

/-- A row of `sent_price_notifications`. -/
structure NotificationRecord where
  id : ℤ
  userId : ℤ
  mimitRunId : ℤ
  fuelType : String
  stationId : Option ℤ
  price : ℚ
  distanceKm : ℚ
  sendAttempts : ℕ
  processingAttempts : ℕ
  lastErrorTemporary : Option Bool
  lastStatusCode : Option ℤ
  lastReason : Option String
  processingStartedAt : Option ℤ
  sentAt : Option ℤ
  status : NotificationStatus
  createdAt : ℤ
  updatedAt : ℤ
  deriving DecidableEq

/-- The primary key, and `UNIQUE (user_id, mimit_run_id)`. -/
def NotificationRecord.keys (r : NotificationRecord) : List (ℤ ⊕ ℤ × ℤ) := [.inl r.id, .inr (r.userId, r.mimitRunId)]

abbrev RecordTable := Table NotificationRecord NotificationRecord.keys

/-- The record is the one of this user and run. -/
def NotificationRecord.isFor (userId mimitRunId : ℤ) (r : NotificationRecord) : Bool :=
  r.userId = userId && r.mimitRunId = mimitRunId

theorem isFor_iff {u m : ℤ} {r : NotificationRecord} : r.isFor u m = true ↔ r.userId = u ∧ r.mimitRunId = m := by
  simp [NotificationRecord.isFor]

/-- The record of a user and run. -/
def record? (t : RecordTable) (userId mimitRunId : ℤ) : Option NotificationRecord :=
  t.find? fun r => r.isFor userId mimitRunId

theorem record?_of_mem {t : RecordTable} {r : NotificationRecord} (h : r ∈ t) :
    record? t r.userId r.mimitRunId = some r := by
  apply Table.find?_of_mem (k := .inr (r.userId, r.mimitRunId))
  · intro s hs
    obtain ⟨hu, hm⟩ := isFor_iff.mp hs
    simp [NotificationRecord.keys, hu, hm]
  · exact h
  · simp [isFor_iff]

theorem mem_of_record? {t : RecordTable} {u m : ℤ} {r : NotificationRecord} (h : record? t u m = some r) :
    r ∈ t ∧ r.userId = u ∧ r.mimitRunId = m :=
  ⟨Table.find?_mem h, isFor_iff.mp (Table.find?_prop h)⟩

theorem eq_of_id {t : RecordTable} {r s : NotificationRecord} (hr : r ∈ t) (hs : s ∈ t) (h : r.id = s.id) : r = s :=
  Table.eq_of_key (k := .inl r.id) hr hs (by simp [NotificationRecord.keys]) (by simp [NotificationRecord.keys, h])

theorem eq_of_pair {t : RecordTable} {r s : NotificationRecord} (hr : r ∈ t) (hs : s ∈ t)
    (hu : r.userId = s.userId) (hm : r.mimitRunId = s.mimitRunId) : r = s :=
  Table.eq_of_key (k := .inr (r.userId, r.mimitRunId)) hr hs (by simp [NotificationRecord.keys])
    (by simp [NotificationRecord.keys, hu, hm])

/-- Id, user, run and creation stay as they are in every update. -/
structure SameRecord (r s : NotificationRecord) : Prop where
  id : s.id = r.id
  userId : s.userId = r.userId
  mimitRunId : s.mimitRunId = r.mimitRunId

theorem SameRecord.keys_sublist {r s : NotificationRecord} (h : SameRecord r s) : s.keys.Sublist r.keys := by
  simp [NotificationRecord.keys, h.id, h.userId, h.mimitRunId]

/-- `max(1, max_attempts)`. -/
def selectedMaxAttempts (maxAttempts : ℕ) : ℕ := max 1 maxAttempts

def staleProcessingRecovered : String := "StaleProcessingRecovered"

def processingAttemptsExceeded : String := "ProcessingAttemptsExceeded"

/-! ### Claiming -/

/-- The arguments of `claim_price_notification_record`. -/
structure PriceClaim where
  userId : ℤ
  mimitRunId : ℤ
  fuelType : String
  stationId : ℤ
  price : ℚ
  distanceKm : ℚ
  deriving DecidableEq

/-- A violated CHECK, or a unique index. -/
inductive RecordError where
  | check
  | unique
  deriving DecidableEq

/-- The inserted row. -/
def newRecord (c : PriceClaim) (id now : ℤ) : NotificationRecord where
  id := id
  userId := c.userId
  mimitRunId := c.mimitRunId
  fuelType := c.fuelType
  stationId := some c.stationId
  price := c.price
  distanceKm := c.distanceKm
  sendAttempts := 0
  processingAttempts := 1
  lastErrorTemporary := none
  lastStatusCode := none
  lastReason := none
  processingStartedAt := some now
  sentAt := none
  status := .processing
  createdAt := now
  updatedAt := now

/-- The WHERE of `DO UPDATE`: the record failed, for a while only. -/
def retryable (maxAttempts : ℕ) (r : NotificationRecord) : Bool :=
  r.status = .failed && r.lastErrorTemporary = some true && r.processingAttempts ≤ maxAttempts

/-- The SET of `DO UPDATE`: a recovery has counted the attempt already. -/
def claimedRecord (c : PriceClaim) (now : ℤ) (r : NotificationRecord) : NotificationRecord :=
  { r with
    fuelType := c.fuelType
    stationId := some c.stationId
    price := c.price
    distanceKm := c.distanceKm
    status := .processing
    processingStartedAt := some now
    processingAttempts :=
      if r.lastReason = some staleProcessingRecovered then r.processingAttempts else r.processingAttempts + 1
    lastErrorTemporary := none
    lastStatusCode := none
    lastReason := none
    updatedAt := now }

theorem claimedRecord_same (c : PriceClaim) (now : ℤ) (r : NotificationRecord) : SameRecord r (claimedRecord c now r) :=
  ⟨rfl, rfl, rfl⟩

/-- `claim_price_notification_record`: `newId` is the id that the sequence
gives to an inserted row. -/
def claimPriceNotificationRecord (maxAttempts : ℕ) (c : PriceClaim) (newId now : ℤ) (t : RecordTable) :
    Except RecordError (Option ℤ × RecordTable) :=
  if c.price ≤ 0 ∨ c.distanceKm < 0 then .error .check
  else
    match record? t c.userId c.mimitRunId with
    | none =>
      match t.insert? (newRecord c newId now) with
      | none => .error .unique
      | some u => .ok (some newId, u)
    | some r =>
      if retryable (selectedMaxAttempts maxAttempts) r then
        .ok (some r.id, t.update (fun s => s.id = r.id) (claimedRecord c now)
          fun s => (claimedRecord_same c now s).keys_sublist)
      else .ok (none, t)

/-! ### Recovering -/

def microsecondsOf (seconds : ℕ) : ℤ := seconds * 1000000

/-- The WHERE of the common table expression: the record has been processing
since before the cutoff. -/
def isStale (mimitRunId cutoff : ℤ) (r : NotificationRecord) : Bool :=
  r.mimitRunId = mimitRunId && r.status = .processing && r.processingStartedAt.getD r.updatedAt < cutoff

/-- The SET of the recovery. -/
def recoveredRecord (maxAttempts : ℕ) (now : ℤ) (r : NotificationRecord) : NotificationRecord :=
  { r with
    status := .failed
    processingAttempts := if r.processingAttempts < maxAttempts then r.processingAttempts + 1 else r.processingAttempts
    lastErrorTemporary := some (r.processingAttempts < maxAttempts)
    lastStatusCode := none
    lastReason :=
      some (if r.processingAttempts < maxAttempts then staleProcessingRecovered else processingAttemptsExceeded)
    processingStartedAt := none
    updatedAt := now }

theorem recoveredRecord_same (m : ℕ) (now : ℤ) (r : NotificationRecord) : SameRecord r (recoveredRecord m now r) :=
  ⟨rfl, rfl, rfl⟩

/-- The answer of a recovery. -/
structure RecoverySummary where
  staleProcessingFoundCount : ℕ
  staleProcessingRecoveredCount : ℕ
  staleProcessingTerminalCount : ℕ
  cutoff : ℤ
  deriving DecidableEq

/-- The arguments of a recovery, and the rows that it skips because another
transaction has them locked. -/
structure Recovery where
  mimitRunId : ℤ
  referenceDate : ℤ
  staleSeconds : ℕ
  locked : ℤ → Bool

def Recovery.cutoff (c : Recovery) : ℤ := c.referenceDate - microsecondsOf (max 60 c.staleSeconds)

/-- The record is among those that the recovery takes. -/
def Recovery.takes (c : Recovery) (r : NotificationRecord) : Bool :=
  isStale c.mimitRunId c.cutoff r && !c.locked r.id

/-- `recover_stale_price_notifications`. -/
def recoverStalePriceNotifications (maxAttempts : ℕ) (c : Recovery) (t : RecordTable) :
    RecoverySummary × RecordTable :=
  let rows := (t.rows.filter c.takes).map (recoveredRecord (selectedMaxAttempts maxAttempts) c.referenceDate)
  let recoveredCount := rows.countP fun r => r.lastErrorTemporary = some true
  ({ staleProcessingFoundCount := rows.length
     staleProcessingRecoveredCount := recoveredCount
     staleProcessingTerminalCount := rows.length - recoveredCount
     cutoff := c.cutoff },
   t.update c.takes (recoveredRecord (selectedMaxAttempts maxAttempts) c.referenceDate)
    fun s => (recoveredRecord_same _ _ s).keys_sublist)

/-! ### Finalizing -/

/-- The arguments of `finalize_price_notification_record`. -/
structure Finalization where
  finalStatus : NotificationStatus
  sendAttempts : ℕ
  temporaryFailure : Bool
  lastStatusCode : Option ℤ
  lastReason : Option String
  deriving DecidableEq

/-- The SET of the finalization. -/
def finalizedRecord (maxAttempts : ℕ) (f : Finalization) (now : ℤ) (r : NotificationRecord) : NotificationRecord :=
  { r with
    status := f.finalStatus
    sentAt := if f.finalStatus = .sent then some now else none
    sendAttempts := r.sendAttempts + f.sendAttempts
    lastErrorTemporary :=
      if f.finalStatus = .sent then none
      else if maxAttempts ≤ r.processingAttempts then some false
      else some f.temporaryFailure
    lastStatusCode := if f.finalStatus = .sent then none else f.lastStatusCode
    lastReason :=
      if f.finalStatus = .sent then none
      else if f.temporaryFailure ∧ maxAttempts ≤ r.processingAttempts then some processingAttemptsExceeded
      else f.lastReason
    processingStartedAt := none
    updatedAt := now }

theorem finalizedRecord_same (m : ℕ) (f : Finalization) (now : ℤ) (r : NotificationRecord) :
    SameRecord r (finalizedRecord m f now r) :=
  ⟨rfl, rfl, rfl⟩

/-- `finalize_price_notification_record`: the row is addressed by its id. -/
def finalizePriceNotificationRecord (maxAttempts : ℕ) (notificationId : ℤ) (f : Finalization) (now : ℤ)
    (t : RecordTable) : RecordTable :=
  t.update (fun r => r.id = notificationId) (finalizedRecord (selectedMaxAttempts maxAttempts) f now)
    fun s => (finalizedRecord_same _ _ _ s).keys_sublist

/-! ### What the statements do -/

variable {t u : RecordTable} {m : ℕ} {now : ℤ}

theorem mem_recover {c : Recovery} {s : NotificationRecord} :
    s ∈ (recoverStalePriceNotifications m c t).2 ↔
      ∃ r ∈ t, (if c.takes r then recoveredRecord (selectedMaxAttempts m) c.referenceDate r else r) = s := by
  simp [recoverStalePriceNotifications, Table.mem_update]

theorem mem_finalize {id : ℤ} {f : Finalization} {s : NotificationRecord} :
    s ∈ finalizePriceNotificationRecord m id f now t ↔
      ∃ r ∈ t, (if r.id = id then finalizedRecord (selectedMaxAttempts m) f now r else r) = s := by
  simp [finalizePriceNotificationRecord, Table.mem_update]

/-- A claim inserts the record, or takes over one that failed for a while, or
changes nothing. -/
theorem claim_cases {c : PriceClaim} {newId : ℤ} {out : Option ℤ}
    (h : claimPriceNotificationRecord m c newId now t = .ok (out, u)) :
    (out = some newId ∧ record? t c.userId c.mimitRunId = none ∧ t.insert? (newRecord c newId now) = some u) ∨
    (∃ r ∈ t, out = some r.id ∧ r.userId = c.userId ∧ r.mimitRunId = c.mimitRunId ∧
      retryable (selectedMaxAttempts m) r = true ∧
      ∀ s, s ∈ u ↔ ∃ x ∈ t, (if x.id = r.id then claimedRecord c now x else x) = s) ∨
    (out = none ∧ u = t) := by
  unfold claimPriceNotificationRecord at h
  split_ifs at h with hc
  split at h
  · next hn =>
    split at h
    · exact absurd h (by simp)
    · next v hv =>
      obtain ⟨rfl, rfl⟩ : some newId = out ∧ v = u := by simpa using h
      exact Or.inl ⟨rfl, hn, hv⟩
  · next r hr =>
    obtain ⟨hmem, huser, hrun⟩ := mem_of_record? hr
    split_ifs at h with hretry
    · simp only [Except.ok.injEq, Prod.mk.injEq] at h
      obtain ⟨rfl, rfl⟩ := h
      exact Or.inr (Or.inl ⟨r, hmem, rfl, huser, hrun, hretry, fun s => by simp [Table.mem_update]⟩)
    · obtain ⟨rfl, rfl⟩ : none = out ∧ t = u := by simpa using h
      exact Or.inr (Or.inr ⟨rfl, rfl⟩)

/-! ### What a worker reports -/

/-- The answer of the push client for one device. -/
structure SendResult where
  success : Bool
  statusCode : Option ℤ
  reason : Option String
  invalidToken : Bool
  temporaryError : Bool
  attempts : ℕ
  deriving DecidableEq

/-- `str(result["reason"] or "")[:128] or None`. -/
def reasonText (reason : Option String) : Option String :=
  let text := String.ofList ((reason.getD "").toList.take 128)
  if text = "" then none else some text

/-- The loop over the results of a claim. -/
structure Report where
  anySent : Bool
  anyTemporaryFailed : Bool
  lastStatusCode : Option ℤ
  lastReason : Option String
  sendAttempts : ℕ
  deriving DecidableEq

/-- One turn of the loop. -/
def Report.add (p : Report) (r : SendResult) : Report where
  anySent := p.anySent || r.success
  anyTemporaryFailed := p.anyTemporaryFailed || (!r.success && r.temporaryError)
  lastStatusCode := if r.success then p.lastStatusCode else r.statusCode
  lastReason := if r.success then p.lastReason else reasonText r.reason
  sendAttempts := p.sendAttempts + max 1 r.attempts

/-- What the worker passes to the finalization: `none` is the
`APNsConfigurationError` of a push, after which there are no results. -/
def finalization (outcomes : List (Option SendResult)) : Finalization :=
  let configurationError := outcomes.any Option.isNone
  let results := if configurationError then [] else outcomes.filterMap id
  let report := results.foldl Report.add
    { anySent := false, anyTemporaryFailed := false, lastStatusCode := none,
      lastReason := if configurationError then some "APNsConfigurationError" else none, sendAttempts := 0 }
  { finalStatus := if report.anySent then .sent else .failed
    sendAttempts := report.sendAttempts
    temporaryFailure := report.anyTemporaryFailed
    lastStatusCode := report.lastStatusCode
    lastReason := report.lastReason }

/-- A worker reports `sent` or `failed`. -/
theorem finalization_status (outcomes : List (Option SendResult)) :
    (finalization outcomes).finalStatus = .sent ∨ (finalization outcomes).finalStatus = .failed := by
  unfold finalization
  dsimp only
  split_ifs <;> simp

theorem foldl_reason : ∀ (l : List SendResult) (p : Report),
    (l.foldl Report.add p).lastReason = p.lastReason ∨
      ∃ r ∈ l, (l.foldl Report.add p).lastReason = reasonText r.reason
  | [], _ => Or.inl rfl
  | r :: l, p => by
    rw [List.foldl_cons]
    rcases foldl_reason l (p.add r) with h | ⟨s, hs, h⟩
    · by_cases hr : r.success = true
      · exact Or.inl (by rw [h]; simp [Report.add, hr])
      · exact Or.inr ⟨r, by simp, by rw [h]; simp [Report.add, hr]⟩
    · exact Or.inr ⟨s, by simp [hs], h⟩

/-- A reason of up to 128 characters is reported as it is, or not at all. -/
theorem reasonText_eq_some {reason : Option String} {text : String} (h : reasonText reason = some text)
    (hlen : text.toList.length < 128) : reason = some text := by
  unfold reasonText at h
  dsimp only at h
  split_ifs at h with he
  have ht : (reason.getD "").toList.take 128 = text.toList := by rw [← Option.some.inj h, String.toList_ofList]
  have hall : (reason.getD "").toList = text.toList := by
    rw [← ht, List.length_take] at hlen
    rw [← ht, List.take_of_length_le (by omega)]
  have heq : reason.getD "" = text := String.toList_injective hall
  cases reason with
  | none => exact absurd rfl he
  | some r => rw [← heq, Option.getD_some]

/-- A reported reason is the one of a result, or of the missing configuration. -/
theorem finalization_reason {outcomes : List (Option SendResult)} {text : String}
    (h : (finalization outcomes).lastReason = some text) (hlen : text.toList.length < 128) :
    text = "APNsConfigurationError" ∨ ∃ r, some r ∈ outcomes ∧ r.reason = some text := by
  unfold finalization at h
  dsimp only at h
  set results := if outcomes.any Option.isNone = true then [] else outcomes.filterMap id with hresults
  rcases foldl_reason results _ with hr | ⟨r, hr, hreason⟩
  · rw [hr] at h
    split_ifs at h
    exact Or.inl (Option.some.inj h).symm
  · rw [hreason] at h
    refine Or.inr ⟨r, ?_, reasonText_eq_some h hlen⟩
    rw [hresults] at hr
    split_ifs at hr
    · exact absurd hr (by simp)
    · simpa using hr

end Notifications
end FuelNear

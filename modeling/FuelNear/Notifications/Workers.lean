/-
# The workers of a notification run

Any number of workers go through `process_price_notifications_for_run` at
once. A worker recovers stale records, then claims the record of one user
after the other, pushes to the devices and finalizes what it claimed. Each
statement on the records is a transaction, so a run is a sequence of atomic
steps in any order. A push may come at any time after the claim, and a worker
may be gone without a report. A worker goes by the id that its claim returned,
whatever has happened to the record since.

The log of a run says who claimed which record, what was recovered, pushed and
reported.

Key definitions: `System`, `step`, `Effect`, `Entry`, `claims`, `overtaken`.
Key theorems: `step_effect`, `held_records`.
-/
import FuelNear.Notifications.Record
import Mathlib.Data.List.DropRight

namespace FuelNear
namespace Notifications

open Sql

/-- What a worker remembers after a claim: the id that it got, the devices to
push to, and the outcome of each push so far. -/
structure Handling where
  userId : ℤ
  mimitRunId : ℤ
  notificationId : ℤ
  devices : List ℤ
  outcomes : List (Option SendResult)
  deriving DecidableEq

structure System (ι : Type*) where
  records : RecordTable
  workers : ι → Option Handling

/-- No worker has a claim in its hands. -/
def System.Idle {ι : Type*} (s : System ι) : Prop := ∀ w, s.workers w = none

inductive Action (ι : Type*) where
  | recover (c : Recovery)
  | claim (w : ι) (c : PriceClaim) (devices : List ℤ) (newId now : ℤ)
  | push (w : ι) (device : ℤ) (outcome : Option SendResult)
  | finalize (w : ι) (now : ℤ)
  | leave (w : ι)

/-- What the log keeps of a step: the ids that it was about. -/
inductive Answer where
  | recovered (ids : List ℤ)
  | claimed (notificationId : Option ℤ)
  | pushed (notificationId : ℤ)
  | finalized (notificationId : ℤ) (status : NotificationStatus)
  | gone
  deriving DecidableEq

/-- Why a step cannot be taken. -/
inductive Refusal where
  | busy
  | noDevice
  | nothingClaimed
  | stillPushing
  | record (e : RecordError)
  deriving DecidableEq

section

variable {ι : Type*} [DecidableEq ι]

/-- The worker `w` now has `h` in its hands. -/
def System.put (s : System ι) (w : ι) (h : Option Handling) : System ι :=
  { s with workers := Function.update s.workers w h }

/-- One step of one worker, with `max_attempts` the same for all. -/
def step (maxAttempts : ℕ) : Action ι → System ι → Except Refusal (Answer × System ι)
  | .recover c, s =>
    .ok (.recovered ((s.records.rows.filter c.takes).map (·.id)),
      { s with records := (recoverStalePriceNotifications maxAttempts c s.records).2 })
  | .claim w c devices newId now, s =>
    if (s.workers w).isSome then .error .busy
    else if devices = [] then .error .noDevice
    else
      match claimPriceNotificationRecord maxAttempts c newId now s.records with
      | .error e => .error (.record e)
      | .ok (none, t) => .ok (.claimed none, { s with records := t })
      | .ok (some id, t) =>
        .ok (.claimed (some id), System.put { s with records := t } w (some
          { userId := c.userId, mimitRunId := c.mimitRunId, notificationId := id, devices := devices, outcomes := [] }))
  | .push w device outcome, s =>
    match s.workers w with
    | none => .error .nothingClaimed
    | some h =>
      if device ∈ h.devices then
        .ok (.pushed h.notificationId, s.put w (some
          { h with devices := h.devices.erase device, outcomes := h.outcomes ++ [outcome] }))
      else .error .noDevice
  | .finalize w now, s =>
    match s.workers w with
    | none => .error .nothingClaimed
    | some h =>
      if h.devices = [] then
        .ok (.finalized h.notificationId (finalization h.outcomes).finalStatus, System.put
          { s with records :=
              finalizePriceNotificationRecord maxAttempts h.notificationId (finalization h.outcomes) now s.records }
          w none)
      else .error .stillPushing
  | .leave w, s => .ok (.gone, s.put w none)

/-- What a step does, case by case. -/
inductive Effect (m : ℕ) (s : System ι) : Action ι → Answer → System ι → Prop where
  | recover {c} : Effect m s (.recover c) (.recovered ((s.records.rows.filter c.takes).map (·.id)))
      { s with records := (recoverStalePriceNotifications m c s.records).2 }
  | insert {w c devices newId now t} (idle : s.workers w = none)
      (absent : record? s.records c.userId c.mimitRunId = none)
      (inserted : s.records.insert? (newRecord c newId now) = some t) :
      Effect m s (.claim w c devices newId now) (.claimed (some newId)) (System.put { s with records := t } w (some
        { userId := c.userId, mimitRunId := c.mimitRunId, notificationId := newId, devices := devices, outcomes := [] }))
  | retake {w c devices newId now r t} (idle : s.workers w = none) (row : r ∈ s.records)
      (user : r.userId = c.userId) (run : r.mimitRunId = c.mimitRunId)
      (retry : retryable (selectedMaxAttempts m) r = true)
      (rows : ∀ x, x ∈ t ↔ ∃ y ∈ s.records, (if y.id = r.id then claimedRecord c now y else y) = x) :
      Effect m s (.claim w c devices newId now) (.claimed (some r.id)) (System.put { s with records := t } w (some
        { userId := c.userId, mimitRunId := c.mimitRunId, notificationId := r.id, devices := devices, outcomes := [] }))
  | decline {w c devices newId now} : Effect m s (.claim w c devices newId now) (.claimed none) s
  | push {w device outcome h} (holds : s.workers w = some h) :
      Effect m s (.push w device outcome) (.pushed h.notificationId) (s.put w (some
        { h with devices := h.devices.erase device, outcomes := h.outcomes ++ [outcome] }))
  | finalize {w now h} (holds : s.workers w = some h) (pushed : h.devices = []) :
      Effect m s (.finalize w now) (.finalized h.notificationId (finalization h.outcomes).finalStatus) (System.put
        { s with records :=
            finalizePriceNotificationRecord m h.notificationId (finalization h.outcomes) now s.records } w none)
  | leave {w} : Effect m s (.leave w) .gone (s.put w none)

theorem step_effect {m : ℕ} {a : Action ι} {s t : System ι} {out : Answer} (h : step m a s = .ok (out, t)) :
    Effect m s a out t := by
  cases a with
  | recover c =>
    obtain ⟨rfl, rfl⟩ : _ = out ∧ _ = t := by simpa [step] using h
    exact Effect.recover
  | claim w c devices newId now =>
    simp only [step] at h
    split_ifs at h with hbusy hdev
    have hidle : s.workers w = none := by simpa using hbusy
    split at h
    · exact absurd h (by simp)
    · next u hu =>
      simp only [Except.ok.injEq, Prod.mk.injEq] at h
      obtain ⟨rfl, rfl⟩ := h
      rcases claim_cases hu with ⟨ho, -⟩ | ⟨r, -, ho, -⟩ | ⟨-, rfl⟩
      · exact absurd ho (by simp)
      · exact absurd ho (by simp)
      · exact Effect.decline
    · next id u hu =>
      simp only [Except.ok.injEq, Prod.mk.injEq] at h
      obtain ⟨rfl, rfl⟩ := h
      rcases claim_cases hu with ⟨ho, hn, hi⟩ | ⟨r, hr, ho, huser, hrun, hretry, hrows⟩ | ⟨ho, -⟩
      · rw [Option.some.inj ho]
        exact Effect.insert hidle hn hi
      · rw [Option.some.inj ho]
        exact Effect.retake hidle hr huser hrun hretry hrows
      · exact absurd ho (by simp)
  | push w device outcome =>
    simp only [step] at h
    split at h
    · exact absurd h (by simp)
    · next k hk =>
      split_ifs at h
      simp only [Except.ok.injEq, Prod.mk.injEq] at h
      obtain ⟨rfl, rfl⟩ := h
      exact Effect.push hk
  | finalize w now =>
    simp only [step] at h
    split at h
    · exact absurd h (by simp)
    · next k hk =>
      split_ifs at h with hdev
      simp only [Except.ok.injEq, Prod.mk.injEq] at h
      obtain ⟨rfl, rfl⟩ := h
      exact Effect.finalize hk hdev
  | leave w =>
    obtain ⟨rfl, rfl⟩ : _ = out ∧ _ = t := by simpa [step] using h
    exact Effect.leave

/-! ### The log -/

abbrev Entry (ι : Type*) := Action ι × Answer

/-- The worker that claimed a record in this step, and the record's id. -/
def claimant : Entry ι → Option (ι × ℤ)
  | (.claim w _ _ _ _, .claimed (some id)) => some (w, id)
  | _ => none

/-- The step claimed the record of the user and run. -/
def claims (userId mimitRunId : ℤ) : Entry ι → Bool
  | (.claim _ c _ _ _, .claimed (some _)) => c.userId = userId && c.mimitRunId = mimitRunId
  | _ => false

/-- The step took the record back. -/
def recovers (id : ℤ) : Entry ι → Bool
  | (_, .recovered ids) => id ∈ ids
  | _ => false

/-- What was logged since the last claim of `w`. -/
def sinceClaim (w : ι) (log : List (Entry ι)) : List (Entry ι) :=
  log.rtakeWhile fun e => (claimant e).map (·.1) ≠ some w

/-- Since the last claim of `w`, the record was reported as sent. -/
def overtaken (w : ι) (id : ℤ) (log : List (Entry ι)) : Bool :=
  (sinceClaim w log).any fun e => e.2 = .finalized id .sent

/-! ### What a step leaves -/

variable {m : ℕ} {s t : System ι} {a : Action ι} {out : Answer}

@[simp] theorem put_records (s : System ι) (w : ι) (h : Option Handling) : (s.put w h).records = s.records := rfl

@[simp] theorem put_self (s : System ι) (w : ι) (h : Option Handling) : (s.put w h).workers w = h := by
  simp [System.put]

theorem put_of_ne (s : System ι) {v w : ι} (h : Option Handling) (hv : v ≠ w) :
    (s.put w h).workers v = s.workers v := by
  simp [System.put, hv]

/-- The two handlings are of one record. -/
structure SameClaim (h k : Handling) : Prop where
  id : k.notificationId = h.notificationId
  userId : k.userId = h.userId
  mimitRunId : k.mimitRunId = h.mimitRunId

omit [DecidableEq ι] in
@[simp] theorem claimant_claimed (w : ι) (c : PriceClaim) (devices : List ℤ) (newId now id : ℤ) :
    claimant (.claim w c devices newId now, .claimed (some id)) = some (w, id) := rfl

omit [DecidableEq ι] in
theorem claims_claim {u r : ℤ} {w : ι} {c : PriceClaim} {devices : List ℤ} {newId now id : ℤ} :
    claims u r ((.claim w c devices newId now, .claimed (some id)) : Entry ι) = true ↔
      c.userId = u ∧ c.mimitRunId = r := by
  simp [claims]

omit [DecidableEq ι] in
theorem out_of_claimant {w : ι} {id : ℤ} (h : claimant ((a, out) : Entry ι) = some (w, id)) :
    out = .claimed (some id) := by
  unfold claimant at h
  split at h
  · next heq =>
    have hout := (Prod.mk.inj heq).2
    rw [hout, (Prod.mk.inj (Option.some.inj h)).2]
  · exact absurd h (by simp)

/-- A worker with a claim in its hands had it before, or has just got it. -/
theorem Effect.holder (h : Effect m s a out t) {w : ι} {k : Handling} (hw : t.workers w = some k) :
    (∃ k₀, s.workers w = some k₀ ∧ SameClaim k₀ k ∧ (claimant (a, out)).map (·.1) ≠ some w) ∨
    (s.workers w = none ∧ claimant (a, out) = some (w, k.notificationId)) := by
  have hput : ∀ {v : ι} {x : Option Handling} {u : System ι}, u.workers = s.workers → (u.put v x).workers w = some k →
      (v = w ∧ x = some k) ∨ (v ≠ w ∧ s.workers w = some k) := by
    intro v x u hu hx
    by_cases hv : v = w
    · exact Or.inl ⟨hv, by simpa [hv] using hx⟩
    · exact Or.inr ⟨hv, by rwa [put_of_ne _ _ (Ne.symm hv), hu] at hx⟩
  cases h with
  | recover => exact Or.inl ⟨k, hw, ⟨rfl, rfl, rfl⟩, by simp [claimant]⟩
  | @insert v c devices newId now u idle absent inserted =>
    rcases hput rfl hw with ⟨rfl, hx⟩ | ⟨hv, hx⟩
    · rw [← Option.some.inj hx]
      exact Or.inr ⟨idle, rfl⟩
    · exact Or.inl ⟨k, hx, ⟨rfl, rfl, rfl⟩, by simpa using hv⟩
  | @retake v c devices newId now r u idle row user run retry rows =>
    rcases hput rfl hw with ⟨rfl, hx⟩ | ⟨hv, hx⟩
    · rw [← Option.some.inj hx]
      exact Or.inr ⟨idle, rfl⟩
    · exact Or.inl ⟨k, hx, ⟨rfl, rfl, rfl⟩, by simpa using hv⟩
  | decline => exact Or.inl ⟨k, hw, ⟨rfl, rfl, rfl⟩, by simp [claimant]⟩
  | @push v device outcome x holds =>
    rcases hput rfl hw with ⟨rfl, hx⟩ | ⟨-, hx⟩
    · rw [← Option.some.inj hx]
      exact Or.inl ⟨x, holds, ⟨rfl, rfl, rfl⟩, by simp [claimant]⟩
    · exact Or.inl ⟨k, hx, ⟨rfl, rfl, rfl⟩, by simp [claimant]⟩
  | finalize holds pushed =>
    rcases hput rfl hw with ⟨-, hx⟩ | ⟨-, hx⟩
    · exact absurd hx (by simp)
    · exact Or.inl ⟨k, hx, ⟨rfl, rfl, rfl⟩, by simp [claimant]⟩
  | leave =>
    rcases hput rfl hw with ⟨-, hx⟩ | ⟨-, hx⟩
    · exact absurd hx (by simp)
    · exact Or.inl ⟨k, hx, ⟨rfl, rfl, rfl⟩, by simp [claimant]⟩

/-- No step removes a record. -/
theorem Effect.kept (h : Effect m s a out t) {r : NotificationRecord} (hr : r ∈ s.records) :
    ∃ r' ∈ t.records, SameRecord r r' := by
  have hsame : SameRecord r r := ⟨rfl, rfl, rfl⟩
  cases h with
  | @recover c =>
    refine ⟨_, mem_recover.mpr ⟨r, hr, rfl⟩, ?_⟩
    split_ifs
    · exact recoveredRecord_same _ _ _
    · exact hsame
  | insert idle absent inserted => exact ⟨r, (Table.mem_insert inserted).mpr (Or.inl hr), hsame⟩
  | retake idle row user run retry rows =>
    refine ⟨_, (rows _).mpr ⟨r, hr, rfl⟩, ?_⟩
    split_ifs
    · exact claimedRecord_same _ _ _
    · exact hsame
  | decline => exact ⟨r, hr, hsame⟩
  | push holds => exact ⟨r, hr, hsame⟩
  | finalize holds pushed =>
    refine ⟨_, mem_finalize.mpr ⟨r, hr, rfl⟩, ?_⟩
    split_ifs
    · exact finalizedRecord_same _ _ _ _
    · exact hsame
  | leave => exact ⟨r, hr, hsame⟩

/-- How the status of a record comes about: by a claim, by a recovery, by the
report of a worker, or from before. -/
theorem Effect.record (h : Effect m s a out t) {r' : NotificationRecord} (hr' : r' ∈ t.records) :
    (out = .claimed (some r'.id) ∧ r'.status = .processing ∧ ∀ r ∈ s.records, r.id = r'.id → r.status = .failed) ∨
    ∃ r ∈ s.records, r.id = r'.id ∧ out ≠ .claimed (some r'.id) ∧
      ((r' = r ∧ recovers r.id (a, out) = false) ∨
        (recovers r.id (a, out) = true ∧ r.status = .processing ∧ r'.status = .failed) ∨
        ∃ w now k, a = .finalize w now ∧ s.workers w = some k ∧ t.workers w = none ∧ k.notificationId = r.id ∧
          out = .finalized r.id (finalization k.outcomes).finalStatus ∧
          r'.status = (finalization k.outcomes).finalStatus) := by
  cases h with
  | @recover c =>
    obtain ⟨r, hr, hx⟩ := mem_recover.mp hr'
    have hids : recovers r.id ((.recover c, .recovered ((s.records.rows.filter c.takes).map (·.id))) : Entry ι) =
        c.takes r := by
      cases hc : c.takes r with
      | true =>
        simp only [recovers, List.mem_map, List.mem_filter, decide_eq_true_eq]
        exact ⟨r, ⟨hr, hc⟩, rfl⟩
      | false =>
        simp only [recovers, List.mem_map, List.mem_filter, decide_eq_false_iff_not]
        intro ⟨y, ⟨hy, hty⟩, hid⟩
        rw [eq_of_id hy hr hid, hc] at hty
        exact absurd hty (by simp)
    by_cases hc : c.takes r = true
    · rw [if_pos hc] at hx
      have hstale : r.status = .processing := by
        simp only [Recovery.takes, isStale, Bool.and_eq_true, decide_eq_true_eq] at hc
        exact hc.1.1.2
      exact Or.inr ⟨r, hr, by rw [← hx]; rfl, by simp, Or.inr (Or.inl ⟨hids.trans hc, hstale, by rw [← hx]; rfl⟩)⟩
    · rw [if_neg hc] at hx
      exact Or.inr ⟨r, hr, by rw [hx], by simp, Or.inl ⟨hx.symm, hids.trans (by simpa using hc)⟩⟩
  | @insert w c devices newId now u idle absent inserted =>
    rcases (Table.mem_insert inserted).mp hr' with hr | rfl
    · have hfresh := Table.insert?_fresh inserted hr (k := .inl r'.id) (by simp [NotificationRecord.keys])
      have hne : newId ≠ r'.id := fun hid => hfresh (by simp [NotificationRecord.keys, newRecord, hid])
      exact Or.inr ⟨r', hr, rfl, by simpa using hne, Or.inl ⟨rfl, rfl⟩⟩
    · refine Or.inl ⟨rfl, rfl, fun r hr hid => ?_⟩
      have hfresh := Table.insert?_fresh inserted hr (k := .inl r.id) (by simp [NotificationRecord.keys])
      exact absurd (by simp [NotificationRecord.keys, hid]) hfresh
  | @retake w c devices newId now r u idle row user run retry rows =>
    obtain ⟨y, hy, hx⟩ := (rows r').mp hr'
    by_cases hid : y.id = r.id
    · rw [if_pos hid] at hx
      have hyr := eq_of_id hy row hid
      subst hx hyr
      refine Or.inl ⟨rfl, rfl, fun x hx hxid => ?_⟩
      rw [eq_of_id hx row hxid]
      simp only [retryable, Bool.and_eq_true, decide_eq_true_eq] at retry
      exact retry.1.1
    · rw [if_neg hid] at hx
      subst hx
      exact Or.inr ⟨y, hy, rfl, by simpa using Ne.symm hid, Or.inl ⟨rfl, rfl⟩⟩
  | decline => exact Or.inr ⟨r', hr', rfl, by simp, Or.inl ⟨rfl, rfl⟩⟩
  | push holds => exact Or.inr ⟨r', hr', rfl, by simp, Or.inl ⟨rfl, rfl⟩⟩
  | @finalize w now k holds pushed =>
    obtain ⟨r, hr, hx⟩ := mem_finalize.mp hr'
    by_cases hid : r.id = k.notificationId
    · rw [if_pos hid] at hx
      refine Or.inr ⟨r, hr, by rw [← hx]; rfl, by simp, Or.inr (Or.inr ⟨w, now, k, rfl, holds, by simp, hid.symm, ?_, ?_⟩)⟩
      · rw [hid]
      · rw [← hx]; rfl
    · rw [if_neg hid] at hx
      exact Or.inr ⟨r, hr, by rw [hx], by simp, Or.inl ⟨hx.symm, rfl⟩⟩
  | leave => exact Or.inr ⟨r', hr', rfl, by simp, Or.inl ⟨rfl, rfl⟩⟩

/-- A worker's claim is of a record that is there. -/
def Known (s : System ι) : Prop :=
  ∀ w k, s.workers w = some k →
    ∃ r ∈ s.records, r.id = k.notificationId ∧ r.userId = k.userId ∧ r.mimitRunId = k.mimitRunId

omit [DecidableEq ι] in
theorem known_of_idle (h : s.Idle) : Known s := fun w k hk => by simp [h w] at hk

/-- A record that a step has just claimed is there. -/
theorem Effect.claimed_record (h : Effect m s a out t) {w : ι} {k : Handling} (hidle : s.workers w = none)
    (hw : t.workers w = some k) :
    ∃ r ∈ t.records, r.id = k.notificationId ∧ r.userId = k.userId ∧ r.mimitRunId = k.mimitRunId := by
  have hput : ∀ {v : ι} {x : Option Handling} {u : System ι}, u.workers = s.workers → (u.put v x).workers w = some k →
      x = some k := by
    intro v x u hu hx
    by_cases hv : v = w
    · simpa [hv] using hx
    · rw [put_of_ne _ _ (Ne.symm hv), hu, hidle] at hx
      exact absurd hx (by simp)
  cases h with
  | recover => simp [hidle] at hw
  | @insert v c devices newId now u idle absent inserted =>
    rw [← Option.some.inj (hput rfl hw)]
    exact ⟨newRecord c newId now, (Table.mem_insert inserted).mpr (Or.inr rfl), rfl, rfl, rfl⟩
  | @retake v c devices newId now r u idle row user run retry rows =>
    rw [← Option.some.inj (hput rfl hw)]
    exact ⟨claimedRecord c now r, (rows _).mpr ⟨r, row, by simp⟩, rfl, user, run⟩
  | decline => simp [hidle] at hw
  | @push v device outcome x holds =>
    by_cases hv : v = w
    · rw [hv, hidle] at holds
      exact absurd holds (by simp)
    · rw [put_of_ne _ _ (Ne.symm hv), hidle] at hw
      exact absurd hw (by simp)
  | finalize holds pushed => exact absurd (hput rfl hw) (by simp)
  | leave => exact absurd (hput rfl hw) (by simp)

theorem Known.step (hk : Known s) (h : Effect m s a out t) : Known t := by
  intro w k hw
  rcases h.holder hw with ⟨k₀, h₀, hsame, -⟩ | ⟨hidle, -⟩
  · obtain ⟨r, hr, hid, hu, hm⟩ := hk w k₀ h₀
    obtain ⟨r', hr', hrr⟩ := h.kept hr
    refine ⟨r', hr', ?_, ?_, ?_⟩
    · rw [hrr.id, hid, hsame.id]
    · rw [hrr.userId, hu, hsame.userId]
    · rw [hrr.mimitRunId, hm, hsame.mimitRunId]
  · exact h.claimed_record hidle hw

/-- In every run, a claim in a worker's hands is of a record that is there. -/
theorem held_records {l : List (Entry ι)} (hr : Run (step m) s l t) (hs : s.Idle) : Known t :=
  hr.invariant (fun _ _ _ _ hk hop => hk.step (step_effect hop)) (known_of_idle hs)

end

/-! ### A sample -/

def sampleClaim : PriceClaim where
  userId := 1
  mimitRunId := 5
  fuelType := "benzina"
  stationId := 3
  price := 1789 / 1000
  distanceKm := 2 / 5

def sampleRecovery (referenceDate : ℤ) : Recovery where
  mimitRunId := 5
  referenceDate := referenceDate
  staleSeconds := 900
  locked _ := false

def delivered : SendResult where
  success := true
  statusCode := some 200
  reason := none
  invalidToken := false
  temporaryError := false
  attempts := 1

def unavailable : SendResult where
  success := false
  statusCode := some 503
  reason := some "ServiceUnavailable"
  invalidToken := false
  temporaryError := true
  attempts := 3

/-- No records, and nobody at work. -/
def sampleSystem : System ℕ := ⟨Table.empty, fun _ => none⟩

end Notifications
end FuelNear

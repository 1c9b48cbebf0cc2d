/-
# Successive alerts improve

`process_price_notifications_for_run` looks at one user after the other: it
compares the best price with the latest notification that the user was sent
for the fuel, claims the record of the run, pushes and finalizes. Each of
these is a transaction, and the process may be gone in between; the record is
then taken back by a later call for the same run.

Only a report of success makes a record one that is sent, and only a record
that is not sent is claimed. So when runs do not overlap, a sent record stays
as it is, and a new one is sent at a price that was compared with the latest.

Key definitions: `Turn`, `processTurn`, `processPriceNotificationsForRun`,
`sentPrices`, `Improving`.
Key theorems: `processTurn_improving`, `run_improving`, `alerts_improve`.
-/
import FuelNear.Notifications.Attempts
import FuelNear.Numeric

namespace FuelNear
namespace Notifications

open Sql

/-! ### One call -/

structure AlertSettings where
  pushNotificationMaxAttempts : ℕ
  priceNotificationMinImprovementEur : ℚ

/-- The row of `find_best_price_for_notification`. -/
structure BestPrice where
  stationId : ℤ
  price : ℚ
  distanceKm : ℚ
  deriving DecidableEq

/-- What the queries and the pushes of one user's turn give. -/
structure Turn where
  userId : ℤ
  fuelType : String
  favoritesOnly : Bool
  located : Bool
  locationFresh : Bool
  deviceTokens : List ℤ
  apnsConfigured : Bool
  bestPrice : Option BestPrice
  newId : ℤ
  claimedAt : ℤ
  /-- for each device; `none` is an `APNsConfigurationError` -/
  outcomes : List (Option SendResult)
  /-- the process ends before the record is finalized -/
  abandoned : Bool
  finalizedAt : ℤ

inductive TurnOutcome where
  | skipped (reason : String)
  | finalized (notificationId : ℤ) (status : NotificationStatus)
  | abandoned (notificationId : ℤ)
  | raised (e : RecordError)
  deriving DecidableEq

/-- The record was sent to the user for the fuel. -/
def NotificationRecord.isSentOf (userId : ℤ) (fuelType : String) (r : NotificationRecord) : Bool :=
  r.userId = userId && r.fuelType = fuelType && r.status = .sent

/-- The `ORDER BY sent_at DESC, id DESC` key; NULL comes first. -/
def sentOrder (r : NotificationRecord) : WithTop ℤ ×ₗ ℤ := toLex ((r.sentAt : WithTop ℤ), r.id)

/-- The latest notification of the user and the fuel. -/
def lastNotification (userId : ℤ) (fuelType : String) (t : RecordTable) : Option NotificationRecord :=
  top sentOrder (t.rows.filter (·.isSentOf userId fuelType))

/-- Why the price is not worth another notification. -/
def improvementSkip (g : AlertSettings) (lastPrice currentPrice : ℚ) : Option String :=
  let lastNotifiedPrice := Numeric.roundTo 3 lastPrice
  let improvement := lastNotifiedPrice - currentPrice
  if |improvement| < 5 / 10000 then some "skipped_same_price"
  else if improvement < 0 then some "skipped_worse_price"
  else if improvement + 1 / 10 ^ 9 < g.priceNotificationMinImprovementEur then some "skipped_below_threshold"
  else none

/-- Why the user is passed over before the best price is looked up. -/
def Turn.skip (u : Turn) : Option String :=
  if u.deviceTokens = [] then some "skipped_no_active_device"
  else if u.favoritesOnly then some "skipped_favorites_unsupported"
  else if !u.located then some "skipped_no_location"
  else if !u.locationFresh then some "skipped_stale_location"
  else if !u.apnsConfigured then some "skipped_apns_not_configured"
  else none

/-- The arguments of the claim. -/
def Turn.claim (u : Turn) (mimitRunId : ℤ) (best : BestPrice) : PriceClaim where
  userId := u.userId
  mimitRunId := mimitRunId
  fuelType := u.fuelType
  stationId := best.stationId
  price := Numeric.roundTo 3 best.price
  distanceKm := Numeric.roundTo 2 best.distanceKm

/-- A turn of the loop over the users. -/
def processTurn (g : AlertSettings) (mimitRunId : ℤ) (u : Turn) (t : RecordTable) : TurnOutcome × RecordTable :=
  match u.skip, u.bestPrice with
  | some reason, _ => (.skipped reason, t)
  | none, none => (.skipped "skipped_no_price", t)
  | none, some best =>
    match (lastNotification u.userId u.fuelType t).bind fun r =>
        improvementSkip g r.price (u.claim mimitRunId best).price with
    | some reason => (.skipped reason, t)
    | none =>
      match claimPriceNotificationRecord g.pushNotificationMaxAttempts (u.claim mimitRunId best) u.newId u.claimedAt t with
      | .error e => (.raised e, t)
      | .ok (none, s) => (.skipped "skipped_duplicate_run", s)
      | .ok (some notificationId, s) =>
        if u.abandoned then (.abandoned notificationId, s)
        else
          (.finalized notificationId (finalization u.outcomes).finalStatus,
            finalizePriceNotificationRecord g.pushNotificationMaxAttempts notificationId (finalization u.outcomes)
              u.finalizedAt s)

/-- The process goes on with the next user. -/
def TurnOutcome.goesOn : TurnOutcome → Bool
  | .skipped _ | .finalized _ _ => true
  | .abandoned _ | .raised _ => false

/-- The loop over the users. -/
def processTurns (g : AlertSettings) (mimitRunId : ℤ) : List Turn → RecordTable → List TurnOutcome × RecordTable
  | [], t => ([], t)
  | u :: us, t =>
    let turn := processTurn g mimitRunId u t
    if turn.1.goesOn then
      let rest := processTurns g mimitRunId us turn.2
      (turn.1 :: rest.1, rest.2)
    else ([turn.1], turn.2)

/-- A call, with what it finds. -/
structure RunCall where
  /-- the MIMIT run is there and successful -/
  successful : Bool
  recovery : Recovery
  /-- the users whose turn comes before the process ends -/
  turns : List Turn

/-- `ValueError("MIMIT run is not successful")`. -/
inductive RunError where
  | runNotSuccessful
  deriving DecidableEq

def processPriceNotificationsForRun (g : AlertSettings) (c : RunCall) (t : RecordTable) :
    Except RunError ((RecoverySummary × List TurnOutcome) × RecordTable) :=
  if c.successful then
    let recovered := recoverStalePriceNotifications g.pushNotificationMaxAttempts c.recovery t
    let processed := processTurns g c.recovery.mimitRunId c.turns recovered.2
    .ok ((recovered.1, processed.1), processed.2)
  else .error .runNotSuccessful

/-- The prices that the user was sent for the fuel, in the order of `sent_at`. -/
def sentPrices (t : RecordTable) (userId : ℤ) (fuelType : String) : List ℚ :=
  ((t.rows.filter (·.isSentOf userId fuelType)).mergeSort fun a b => a.sentAt.getD 0 ≤ b.sentAt.getD 0).map (·.price)

/-! ### One price after another -/

/-- The second price is lower than the first, by the least improvement; by up
to a billionth less if that is not a whole number of thousandths. -/
structure Improves (g : AlertSettings) (p q : ℚ) : Prop where
  lower : q < p
  near : g.priceNotificationMinImprovementEur ≤ p - q + 1 / 10 ^ 9
  least : (∃ n : ℤ, g.priceNotificationMinImprovementEur = n / 10 ^ 3) → g.priceNotificationMinImprovementEur ≤ p - q

theorem Improves.of_le {g : AlertSettings} {p p' q : ℚ} (h : Improves g p q) (hp : p ≤ p') : Improves g p' q where
  lower := h.lower.trans_le hp
  near := h.near.trans (by linarith)
  least hn := (h.least hn).trans (by linarith)

/-- What is not skipped improves, on prices in thousandths. -/
theorem improves_of_skip {g : AlertSettings} {n k : ℤ}
    (h : improvementSkip g (n / 10 ^ 3) (k / 10 ^ 3) = none) : Improves g (n / 10 ^ 3) (k / 10 ^ 3) := by
  unfold improvementSkip at h
  rw [Numeric.roundTo_units] at h
  dsimp only at h
  split_ifs at h with hsame hworse hbelow
  have hpos : 0 < (n : ℚ) / 10 ^ 3 - k / 10 ^ 3 := by
    rcases lt_or_eq_of_le (not_lt.mp hworse) with hlt | heq
    · exact hlt
    · rw [← heq] at hsame
      exact absurd (by norm_num) hsame
  refine ⟨by linarith, not_lt.mp hbelow, ?_⟩
  rintro ⟨m, hm⟩
  rw [hm] at hbelow ⊢
  have hthousandths : (m : ℚ) < (n - k : ℤ) + 1 := by
    push_cast
    linarith
  have hle : m ≤ n - k := Int.lt_add_one_iff.mp (by exact_mod_cast hthousandths)
  have hcast : (m : ℚ) ≤ n - k := by exact_mod_cast hle
  linarith

/-! ### What a call does to the sent records -/

section Sent

variable {g : AlertSettings} {t s : RecordTable} {r : NotificationRecord}

/-- A recovery makes no record a sent one. -/
theorem recover_sent {m : ℕ} {c : Recovery} (hr : r ∈ (recoverStalePriceNotifications m c t).2)
    (hsent : r.status = .sent) : r ∈ t := by
  obtain ⟨x, hx, hxr⟩ := mem_recover.mp hr
  split_ifs at hxr
  · rw [← hxr] at hsent
    exact absurd hsent (by simp [recoveredRecord])
  · exact hxr ▸ hx

/-- Nor does a claim; the claimed record has the price and the fuel of the claim. -/
theorem claim_sent {m : ℕ} {c : PriceClaim} {newId now id : ℤ}
    (h : claimPriceNotificationRecord m c newId now t = .ok (some id, s)) :
    (∀ r ∈ s, r.status = .sent → r ∈ t) ∧
      ∃ r ∈ s, r.id = id ∧ r.userId = c.userId ∧ r.mimitRunId = c.mimitRunId ∧ r.fuelType = c.fuelType ∧
        r.price = c.price := by
  rcases claim_cases h with ⟨hid, -, hinsert⟩ | ⟨r₀, hr₀, hid, huser, hrun, -, hrows⟩ | ⟨hid, -⟩
  · obtain rfl := Option.some.inj hid
    refine ⟨fun r hr hsent => ?_, _, (Table.mem_insert hinsert).mpr (.inr rfl), rfl, rfl, rfl, rfl, rfl⟩
    rcases (Table.mem_insert hinsert).mp hr with hr | rfl
    · exact hr
    · exact absurd hsent (by simp [newRecord])
  · obtain rfl := Option.some.inj hid
    refine ⟨fun r hr hsent => ?_, claimedRecord c now r₀, (hrows _).mpr ⟨r₀, hr₀, if_pos rfl⟩, rfl, huser, hrun, rfl, rfl⟩
    obtain ⟨x, hx, hxr⟩ := (hrows r).mp hr
    split_ifs at hxr
    · rw [← hxr] at hsent
      exact absurd hsent (by simp [claimedRecord])
    · exact hxr ▸ hx
  · exact absurd hid (by simp)

/-- A report makes the claimed record a sent one, or none. -/
theorem finalize_sent {m : ℕ} {f : Finalization} {now : ℤ} {r₀ : NotificationRecord} (hr₀ : r₀ ∈ s)
    (hr : r ∈ finalizePriceNotificationRecord m r₀.id f now s) (hsent : r.status = .sent) :
    r ∈ s ∨ f.finalStatus = .sent ∧ r = finalizedRecord (selectedMaxAttempts m) f now r₀ := by
  obtain ⟨x, hx, hxr⟩ := mem_finalize.mp hr
  split_ifs at hxr with hid
  · obtain rfl := eq_of_id hx hr₀ hid
    rw [← hxr] at hsent
    exact .inr ⟨hsent, hxr.symm⟩
  · exact .inl (hxr ▸ hx)

/-- A turn leaves the sent records, and may add one at a price that was compared
with the latest. -/
theorem processTurn_sent {mimitRunId : ℤ} {u : Turn} (hr : r ∈ (processTurn g mimitRunId u t).2)
    (hsent : r.status = .sent) :
    r ∈ t ∨ r.userId = u.userId ∧ r.mimitRunId = mimitRunId ∧ r.fuelType = u.fuelType ∧
      r.sentAt = some u.finalizedAt ∧ (∃ k : ℤ, r.price = k / 10 ^ 3) ∧
      ∀ l, lastNotification u.userId u.fuelType t = some l → improvementSkip g l.price r.price = none := by
  unfold processTurn at hr
  split at hr
  · exact .inl hr
  · exact .inl hr
  next best _ _ =>
    split at hr
    · exact .inl hr
    next hskip =>
      split at hr
      · exact .inl hr
      · next s hclaim =>
        rcases claim_cases hclaim with ⟨hid, -⟩ | ⟨_, -, hid, -⟩ | ⟨-, rfl⟩
        · exact absurd hid (by simp)
        · exact absurd hid (by simp)
        · exact .inl hr
      · next id s hclaim =>
        obtain ⟨hold, r₀, hr₀, rfl, huser, hrun, hfuel, hprice⟩ := claim_sent hclaim
        split at hr
        · exact .inl (hold r hr hsent)
        · rcases finalize_sent hr₀ hr hsent with hr | ⟨hreport, rfl⟩
          · exact .inl (hold r hr hsent)
          · refine .inr ⟨huser, hrun, hfuel, if_pos hreport, ⟨_, hprice⟩, fun l hl => ?_⟩
            rw [hl] at hskip
            have hcompared : improvementSkip g l.price (u.claim mimitRunId best).price = none := hskip
            rw [← hprice] at hcompared
            exact hcompared

end Sent

/-! ### Runs -/

section Runs

variable {g : AlertSettings} {t t' : RecordTable} {times times' : List ℤ}

/-- The sent records, with the times of the reports so far: later ones improve
on earlier ones of the same user and fuel. -/
structure Improving (g : AlertSettings) (times : List ℤ) (t : RecordTable) : Prop where
  sentAt : ∀ r ∈ t, r.status = .sent → ∃ a ∈ times, r.sentAt = some a
  rounded : ∀ r ∈ t, r.status = .sent → ∃ n : ℤ, r.price = n / 10 ^ 3
  improves : ∀ r ∈ t, ∀ s ∈ t, r.status = .sent → s.status = .sent → r.userId = s.userId → r.fuelType = s.fuelType →
    ∀ a b, r.sentAt = some a → s.sentAt = some b → (a < b → Improves g r.price s.price) ∧ (a = b → r = s)

theorem empty_improving (g : AlertSettings) : Improving g [] Table.empty where
  sentAt r hr := absurd hr (by simp [Table.mem_def, Table.empty])
  rounded r hr := absurd hr (by simp [Table.mem_def, Table.empty])
  improves r hr := absurd hr (by simp [Table.mem_def, Table.empty])

theorem Improving.subset (h : Improving g times t) (ht : ∀ r ∈ t', r.status = .sent → r ∈ t) (htimes : times ⊆ times') :
    Improving g times' t' where
  sentAt r hr hsent := by
    obtain ⟨a, ha, hr'⟩ := h.sentAt r (ht r hr hsent) hsent
    exact ⟨a, htimes ha, hr'⟩
  rounded r hr hsent := h.rounded r (ht r hr hsent) hsent
  improves r hr s hs hr' hs' := h.improves r (ht r hr hr') s (ht s hs hs') hr' hs'

theorem isSentOf_iff {u : ℤ} {fuel : String} {r : NotificationRecord} :
    r.isSentOf u fuel = true ↔ r.userId = u ∧ r.fuelType = fuel ∧ r.status = .sent := by
  simp [NotificationRecord.isSentOf, and_assoc]

/-- A price that was compared with the latest improves on every earlier one. -/
theorem Improving.improves_of_compared (h : Improving g times t) {u : ℤ} {fuel : String} {k : ℤ}
    (hskip : ∀ l, lastNotification u fuel t = some l → improvementSkip g l.price (k / 10 ^ 3) = none)
    {r : NotificationRecord} (hr : r ∈ t) (huser : r.userId = u) (hfuel : r.fuelType = fuel)
    (hsent : r.status = .sent) : Improves g r.price (k / 10 ^ 3) := by
  have hfilter : r ∈ t.rows.filter (·.isSentOf u fuel) := List.mem_filter.mpr ⟨hr, isSentOf_iff.mpr ⟨huser, hfuel, hsent⟩⟩
  obtain ⟨l, hl⟩ : ∃ l, lastNotification u fuel t = some l := by
    apply Option.ne_none_iff_exists'.mp
    intro hnone
    rw [lastNotification, top_eq_none_iff] at hnone
    rw [hnone] at hfilter
    exact absurd hfilter (by simp)
  obtain ⟨hlt, hlsent⟩ := List.mem_filter.mp (top_mem _ hl)
  obtain ⟨hluser, hlfuel, hlsent⟩ := isSentOf_iff.mp hlsent
  obtain ⟨n, hn⟩ := h.rounded l hlt hlsent
  have hlast : Improves g l.price (k / 10 ^ 3) := by
    have hcompared := hskip l hl
    rw [hn] at hcompared ⊢
    exact improves_of_skip hcompared
  obtain ⟨a, -, ha⟩ := h.sentAt r hr hsent
  obtain ⟨b, -, hb⟩ := h.sentAt l hlt hlsent
  have horder : sentOrder r ≤ sentOrder l := top_ge _ hl r hfilter
  obtain ⟨hlater, hsame⟩ := h.improves r hr l hlt hsent hlsent (by rw [huser, hluser]) (by rw [hfuel, hlfuel]) a b ha hb
  have hab : a ≤ b := by
    rw [sentOrder, sentOrder, ha, hb, Prod.Lex.toLex_le_toLex] at horder
    rcases horder with hlt | ⟨heq, -⟩
    · exact (WithTop.coe_lt_coe.mp hlt).le
    · exact (WithTop.coe_inj.mp heq).le
  rcases lt_or_eq_of_le hab with hlt | heq
  · exact hlast.of_le (hlater hlt).lower.le
  · rw [hsame heq]
    exact hlast

/-- One turn, at a time after those before. -/
theorem processTurn_improving (h : Improving g times t) (mimitRunId : ℤ) (u : Turn)
    (hclock : ∀ a ∈ times, a < u.finalizedAt) :
    Improving g (times ++ [u.finalizedAt]) (processTurn g mimitRunId u t).2 := by
  have hbefore : ∀ r ∈ t, r.status = .sent → ∀ a, r.sentAt = some a → a < u.finalizedAt := by
    intro r hr hsent a ha
    obtain ⟨a', ha', hr'⟩ := h.sentAt r hr hsent
    rw [ha] at hr'
    exact hclock a (Option.some.inj hr' ▸ ha')
  constructor
  · intro r hr hsent
    rcases processTurn_sent hr hsent with hr | ⟨-, -, -, hat, -⟩
    · obtain ⟨a, ha, hr'⟩ := h.sentAt r hr hsent
      exact ⟨a, List.mem_append_left _ ha, hr'⟩
    · exact ⟨_, by simp, hat⟩
  · intro r hr hsent
    rcases processTurn_sent hr hsent with hr | ⟨-, -, -, -, hprice, -⟩
    · exact h.rounded r hr hsent
    · exact hprice
  · intro r hr s hs hrsent hssent huser hfuel a b ha hb
    -- a record that is sent after the turn is an old one, or the one of the turn
    rcases processTurn_sent hr hrsent with hrold | ⟨hru, hrr, -, hrat, -⟩ <;>
      rcases processTurn_sent hs hssent with hsold | ⟨hsu, hsr, hsf, hsat, ⟨k, hsk⟩, hsskip⟩
    · exact h.improves r hrold s hsold hrsent hssent huser hfuel a b ha hb
    · have hlt : a < b := by
        rw [hb] at hsat
        rw [Option.some.inj hsat]
        exact hbefore r hrold hrsent a ha
      refine ⟨fun _ => ?_, fun heq => absurd heq hlt.ne⟩
      rw [hsk] at hsskip ⊢
      exact h.improves_of_compared hsskip hrold (huser.trans hsu) (hfuel.trans hsf) hrsent
    · have hlt : b < a := by
        rw [ha] at hrat
        rw [Option.some.inj hrat]
        exact hbefore s hsold hssent b hb
      exact ⟨fun hab => absurd hab hlt.asymm, fun heq => absurd heq hlt.ne'⟩
    · rw [ha] at hrat
      rw [hb] at hsat
      refine ⟨fun hab => absurd hab ?_, fun _ => ?_⟩
      · rw [Option.some.inj hrat, Option.some.inj hsat]
        exact lt_irrefl _
      · exact eq_of_pair hr hs huser (hrr.trans hsr.symm)

theorem processTurns_improving : ∀ (us : List Turn) {times : List ℤ} {t : RecordTable} (mimitRunId : ℤ),
    Improving g times t → (times ++ us.map (·.finalizedAt)).Pairwise (· < ·) →
    Improving g (times ++ us.map (·.finalizedAt)) (processTurns g mimitRunId us t).2
  | [], times, t, _, h, _ => by
    rw [List.map_nil, List.append_nil]
    exact h
  | u :: us, times, t, mimitRunId, h, hclock => by
    rw [List.map_cons, List.append_cons] at hclock ⊢
    have hturn := processTurn_improving h mimitRunId u fun a ha =>
      (List.pairwise_append.mp (List.pairwise_append.mp hclock).1).2.2 a ha _ (by simp)
    unfold processTurns
    dsimp only
    split_ifs
    · exact processTurns_improving us mimitRunId hturn hclock
    · exact hturn.subset (fun r hr _ => hr) (List.subset_append_left _ _)

/-- The times at which the turns of a log report, in order. -/
def reportTimes {ρ : Type*} (log : List (RunCall × ρ)) : List ℤ := log.flatMap fun e => e.1.turns.map (·.finalizedAt)

/-- Calls one after the other, whatever they find and wherever they end. -/
theorem run_improving {log : List (RunCall × (RecoverySummary × List TurnOutcome))}
    (h : Run (processPriceNotificationsForRun g) Table.empty log t) (hclock : (reportTimes log).Pairwise (· < ·)) :
    Improving g (reportTimes log) t := by
  induction h with
  | start => exact empty_improving g
  | @done log t c out t' _ hcall ih =>
    have htimes : reportTimes (log ++ [(c, out)]) = reportTimes log ++ c.turns.map (·.finalizedAt) := by
      simp [reportTimes]
    rw [htimes] at hclock ⊢
    unfold processPriceNotificationsForRun at hcall
    split_ifs at hcall
    obtain ⟨-, rfl⟩ := Prod.mk.inj (Except.ok.inj hcall)
    have hrecovered : Improving g (reportTimes log)
        (recoverStalePriceNotifications g.pushNotificationMaxAttempts c.recovery t).2 :=
      (ih (List.pairwise_append.mp hclock).1).subset (fun r => recover_sent) (List.Subset.refl _)
    exact processTurns_improving c.turns c.recovery.mimitRunId hrecovered hclock
  | refused _ _ ih => exact ih hclock

/-- In the order of `sent_at`, each price improves on those before. -/
theorem Improving.sentPrices_pairwise (h : Improving g times t) (userId : ℤ) (fuelType : String) :
    (sentPrices t userId fuelType).Pairwise (Improves g) := by
  unfold sentPrices
  rw [List.pairwise_map]
  set rows := t.rows.filter (·.isSentOf userId fuelType) with hrows
  have hperm := List.mergeSort_perm rows fun a b => decide (a.sentAt.getD 0 ≤ b.sentAt.getD 0)
  have hsorted : (rows.mergeSort fun a b => decide (a.sentAt.getD 0 ≤ b.sentAt.getD 0)).Pairwise
      fun a b => a.sentAt.getD 0 ≤ b.sentAt.getD 0 := by
    refine (List.pairwise_mergeSort (fun a b c hab hbc => ?_) (fun a b => ?_) rows).imp fun h => of_decide_eq_true h
    · simpa using (of_decide_eq_true hab).trans (of_decide_eq_true hbc)
    · simpa using le_total (a.sentAt.getD 0) (b.sentAt.getD 0)
  have hnodup := hperm.nodup_iff.mpr ((t.rows_nodup fun r => List.cons_ne_nil _ _).filter fun r => r.isSentOf userId fuelType)
  refine (hsorted.and hnodup).imp_of_mem fun {r s} hr hs hle => ?_
  obtain ⟨hrt, hrsent⟩ := List.mem_filter.mp (hperm.mem_iff.mp hr)
  obtain ⟨hst, hssent⟩ := List.mem_filter.mp (hperm.mem_iff.mp hs)
  obtain ⟨hru, hrf, hrsent⟩ := isSentOf_iff.mp hrsent
  obtain ⟨hsu, hsf, hssent⟩ := isSentOf_iff.mp hssent
  obtain ⟨a, -, ha⟩ := h.sentAt r hrt hrsent
  obtain ⟨b, -, hb⟩ := h.sentAt s hst hssent
  rw [ha, hb] at hle
  obtain ⟨hlater, hsame⟩ := h.improves r hrt s hst hrsent hssent (hru.trans hsu.symm) (hrf.trans hsf.symm) a b ha hb
  exact hlater (lt_of_le_of_ne hle.1 fun heq => hle.2 (hsame heq))

/-- **Successive alerts improve.** After any calls that do not overlap, for
whatever runs and wherever the process ended, the prices that a user was sent
for a fuel, in the order of `sent_at`, are whole thousandths, strictly
decreasing, and each lower than the one before by the least improvement. The
database's clock advances from one report to the next. -/
theorem alerts_improve {log : List (RunCall × (RecoverySummary × List TurnOutcome))}
    (h : Run (processPriceNotificationsForRun g) Table.empty log t) (hclock : (reportTimes log).Pairwise (· < ·))
    (userId : ℤ) (fuelType : String) :
    (∀ p ∈ sentPrices t userId fuelType, ∃ n : ℤ, p = n / 10 ^ 3) ∧
      (sentPrices t userId fuelType).Pairwise (Improves g) := by
  have himproving := run_improving h hclock
  refine ⟨fun p hp => ?_, himproving.sentPrices_pairwise userId fuelType⟩
  obtain ⟨r, hr, rfl⟩ := List.mem_map.mp hp
  obtain ⟨hrt, hrsent⟩ := List.mem_filter.mp ((List.mergeSort_perm _ _).mem_iff.mp hr)
  exact himproving.rounded r hrt (isSentOf_iff.mp hrsent).2.2

end Runs

def sampleSettings : AlertSettings := ⟨3, 1 / 100⟩

/-- The user 1 near a station with this price. -/
def sampleTurn (price : ℚ) (newId finalizedAt : ℤ) (outcome : SendResult) : Turn where
  userId := 1
  fuelType := "benzina"
  favoritesOnly := false
  located := true
  locationFresh := true
  deviceTokens := [11]
  apnsConfigured := true
  bestPrice := some ⟨3, price, 2 / 5⟩
  newId := newId
  claimedAt := finalizedAt - 1
  outcomes := [some outcome]
  abandoned := false
  finalizedAt := finalizedAt

/-- Sent, not delivered for a while, sent in the next call for the same run,
and not worth a third alert. -/
def sampleRuns : List RunCall :=
  [⟨true, ⟨5, 0, 900, fun _ => false⟩, [sampleTurn (1789 / 1000) 1 10 delivered]⟩,
    ⟨true, ⟨6, 0, 900, fun _ => false⟩, [sampleTurn (1779 / 1000) 2 20 unavailable]⟩,
    ⟨true, ⟨6, 0, 900, fun _ => false⟩, [sampleTurn (1769 / 1000) 3 30 delivered]⟩,
    ⟨true, ⟨7, 0, 900, fun _ => false⟩, [sampleTurn (1760 / 1000) 4 40 delivered]⟩]

theorem sample_alerts_improve :
    (execute (processPriceNotificationsForRun sampleSettings) Table.empty sampleRuns).1.map (·.2.2) =
        [[.finalized 1 .sent], [.finalized 2 .failed], [.finalized 2 .sent], [.skipped "skipped_below_threshold"]] ∧
      (sentPrices (execute (processPriceNotificationsForRun sampleSettings) Table.empty sampleRuns).2 1
        "benzina").Pairwise (Improves sampleSettings) :=
  ⟨by decide +kernel, (alerts_improve (run_execute _ sampleRuns Table.empty) (by decide +kernel) 1 "benzina").2⟩

end Notifications
end FuelNear

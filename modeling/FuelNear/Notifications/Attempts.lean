/-
# Claims of a record are bounded, and exclusive until a recovery

Every claim of a record is paid for by an attempt, at the claim itself or at
the recovery before it. `Counted` says what the columns of a record know about
the claims so far; each statement keeps it, whatever a late worker reports, as
long as nobody but the recovery writes the reason of a recovery. That reason
would have to come from the push service, which does not have it.

A worker that holds a claim keeps the record `processing` until a recovery
takes it, so a second worker can only come in after one.

Key definitions: `Counted`, `successfulClaims`, `processingAttempts`, `Exclusive`.
Key theorems: `counted_run`, `exclusive_run`, `claims_bounded`.
-/
import FuelNear.Notifications.Workers

namespace FuelNear
namespace Notifications

open Sql

/-! ### Counting the attempts -/

/-- What a record that was claimed `n` times knows: every claim took an
attempt, a recovered record has one more, and one that may be claimed has an
attempt left. -/
structure Counted (maxAttempts n : ℕ) (r : NotificationRecord) : Prop where
  claims : n ≤ r.processingAttempts
  bound : r.processingAttempts ≤ maxAttempts
  recovered : r.lastReason = some staleProcessingRecovered → n + 1 ≤ r.processingAttempts
  left : r.status = .failed → r.lastErrorTemporary = some true →
    r.processingAttempts < maxAttempts ∨ r.lastReason = some staleProcessingRecovered

section Counted

variable {maxAttempts n : ℕ} {r : NotificationRecord}

theorem counted_new (c : PriceClaim) (id now : ℤ) (h : 1 ≤ maxAttempts) : Counted maxAttempts 1 (newRecord c id now) where
  claims := le_rfl
  bound := h
  recovered hr := by simp [newRecord] at hr
  left hs := by simp [newRecord] at hs

theorem Counted.claimed (h : Counted maxAttempts n r) (hr : retryable maxAttempts r = true) (c : PriceClaim) (now : ℤ) :
    Counted maxAttempts (n + 1) (claimedRecord c now r) := by
  simp only [retryable, Bool.and_eq_true, decide_eq_true_eq] at hr
  obtain ⟨⟨hstatus, htemp⟩, -⟩ := hr
  have hattempts : n + 1 ≤ (claimedRecord c now r).processingAttempts ∧
      (claimedRecord c now r).processingAttempts ≤ maxAttempts := by
    by_cases hreason : r.lastReason = some staleProcessingRecovered
    · simp only [claimedRecord, if_pos hreason]
      exact ⟨h.recovered hreason, h.bound⟩
    · simp only [claimedRecord, if_neg hreason]
      have hlt := (h.left hstatus htemp).resolve_right hreason
      have := h.claims
      omega
  refine ⟨hattempts.1, hattempts.2, fun hx => ?_, fun hx => ?_⟩
  · simp [claimedRecord] at hx
  · simp [claimedRecord] at hx

theorem Counted.recover (h : Counted maxAttempts n r) (now : ℤ) :
    Counted maxAttempts n (recoveredRecord maxAttempts now r) := by
  have hclaims := h.claims
  have hbound := h.bound
  by_cases hlt : r.processingAttempts < maxAttempts
  · have hattempts : (recoveredRecord maxAttempts now r).processingAttempts = r.processingAttempts + 1 := by
      simp [recoveredRecord, hlt]
    refine ⟨?_, ?_, fun _ => ?_, fun _ _ => Or.inr (by simp [recoveredRecord, hlt])⟩
    · rw [hattempts]; omega
    · rw [hattempts]; omega
    · rw [hattempts]; omega
  · have hattempts : (recoveredRecord maxAttempts now r).processingAttempts = r.processingAttempts := by
      simp [recoveredRecord, hlt]
    refine ⟨hattempts ▸ hclaims, hattempts ▸ hbound, fun hx => ?_, fun _ hx => ?_⟩
    · simp [recoveredRecord, hlt, staleProcessingRecovered, processingAttemptsExceeded] at hx
    · simp [recoveredRecord, hlt] at hx

/-- A report, however late, does not spoil the count. -/
theorem Counted.finalize (h : Counted maxAttempts n r) {f : Finalization}
    (hf : f.lastReason ≠ some staleProcessingRecovered) (now : ℤ) :
    Counted maxAttempts n (finalizedRecord maxAttempts f now r) := by
  have hreason : (finalizedRecord maxAttempts f now r).lastReason ≠ some staleProcessingRecovered := by
    unfold finalizedRecord
    dsimp only
    split_ifs
    · simp
    · simp [staleProcessingRecovered, processingAttemptsExceeded]
    · exact hf
  refine ⟨h.claims, h.bound, fun hx => absurd hx hreason, fun hstatus htemp => Or.inl ?_⟩
  by_contra hge
  have hsent : f.finalStatus ≠ .sent := by
    intro hsent
    simp [finalizedRecord, hsent] at hstatus
  have hmax : maxAttempts ≤ r.processingAttempts := by simpa [finalizedRecord] using hge
  simp [finalizedRecord, hsent, hmax] at htemp

end Counted

/-! ### Every step keeps the count -/

section

variable {ι : Type*} [DecidableEq ι] {m : ℕ} {s t : System ι} {a : Action ι} {out : Answer} {l : List (Entry ι)}

/-- The number of successful claims of a user's record. -/
def successfulClaims (userId mimitRunId : ℤ) (log : List (Entry ι)) : ℕ := log.countP (claims userId mimitRunId)

/-- The attempts of the record of a user and run, none before there is one. -/
def processingAttempts (userId mimitRunId : ℤ) (s : System ι) : ℕ :=
  (record? s.records userId mimitRunId).elim 0 (·.processingAttempts)

/-- The record of a user and run knows its claims, and is there once claimed. -/
structure CountedIn (maxAttempts : ℕ) (userId mimitRunId : ℤ) (log : List (Entry ι)) (s : System ι) : Prop where
  record : ∀ r ∈ s.records, r.isFor userId mimitRunId = true →
    Counted maxAttempts (successfulClaims userId mimitRunId log) r
  absent : record? s.records userId mimitRunId = none → successfulClaims userId mimitRunId log = 0

/-- The outcomes of the pushes are answers of the push service. -/
def Answered (apns : SendResult → Prop) (s : System ι) : Prop :=
  ∀ w k, s.workers w = some k → ∀ r, some r ∈ k.outcomes → apns r

omit [DecidableEq ι] in
theorem successfulClaims_snoc (u r : ℤ) (log : List (Entry ι)) (e : Entry ι) :
    successfulClaims u r (log ++ [e]) = successfulClaims u r log + if claims u r e then 1 else 0 := by
  rw [successfulClaims, List.countP_append, List.countP_singleton]
  rfl

theorem Answered.step {apns : SendResult → Prop} (hs : Answered apns s) (h : Effect m s a out t)
    (hpush : ∀ w d r, a = .push w d (some r) → apns r) : Answered apns t := by
  have hput : ∀ {v w : ι} {x : Option Handling} {k : Handling} {u : System ι}, u.workers = s.workers →
      (u.put v x).workers w = some k → x = some k ∨ s.workers w = some k := by
    intro v w x k u hu hx
    by_cases hv : v = w
    · exact Or.inl (by simpa [hv] using hx)
    · exact Or.inr (by rwa [put_of_ne _ _ (Ne.symm hv), hu] at hx)
  intro w k hw r hr
  cases h with
  | recover => exact hs w k hw r hr
  | insert idle absent inserted =>
    rcases hput rfl hw with hx | hx
    · rw [← Option.some.inj hx] at hr
      exact absurd hr (by simp)
    · exact hs w k hx r hr
  | retake idle row user run retry rows =>
    rcases hput rfl hw with hx | hx
    · rw [← Option.some.inj hx] at hr
      exact absurd hr (by simp)
    · exact hs w k hx r hr
  | decline => exact hs w k hw r hr
  | @push v device outcome y holds =>
    rcases hput rfl hw with hx | hx
    · rw [← Option.some.inj hx] at hr
      rcases List.mem_append.mp hr with hold | hnew
      · exact hs v y holds r hold
      · exact hpush v device r (by rw [List.mem_singleton.mp hnew])
    · exact hs w k hx r hr
  | finalize holds pushed =>
    rcases hput rfl hw with hx | hx
    · exact absurd hx (by simp)
    · exact hs w k hx r hr
  | leave =>
    rcases hput rfl hw with hx | hx
    · exact absurd hx (by simp)
    · exact hs w k hx r hr

/-- An update that keeps the records' users and runs keeps the absence of one. -/
theorem absent_of_absent (h : Effect m s a out t) {u r : ℤ} (ht : record? t.records u r = none) :
    record? s.records u r = none := by
  by_contra hs
  obtain ⟨x, hx⟩ := Option.ne_none_iff_exists'.mp hs
  obtain ⟨hmem, hu, hr⟩ := mem_of_record? hx
  obtain ⟨y, hy, hsame⟩ := h.kept hmem
  have hfound := record?_of_mem hy
  rw [hsame.userId, hsame.mimitRunId, hu, hr, ht] at hfound
  exact absurd hfound (by simp)

/-- A successful claim leaves its record. -/
theorem present_of_claims (h : Effect m s a out t) {u r : ℤ} (hc : claims u r (a, out) = true) :
    record? t.records u r ≠ none := by
  cases h with
  | @insert w c devices newId now v idle absent inserted =>
    obtain ⟨hu, hr⟩ := claims_claim.mp hc
    have hmem : newRecord c newId now ∈ v := (Table.mem_insert inserted).mpr (Or.inr rfl)
    have hfound := record?_of_mem hmem
    rw [show (newRecord c newId now).userId = u from hu, show (newRecord c newId now).mimitRunId = r from hr] at hfound
    simp [hfound]
  | @retake w c devices newId now x v idle row user run retry rows =>
    obtain ⟨hu, hr⟩ := claims_claim.mp hc
    have hmem : claimedRecord c now x ∈ v := (rows _).mpr ⟨x, row, by simp⟩
    have hfound := record?_of_mem hmem
    rw [show (claimedRecord c now x).userId = u from user.trans hu,
      show (claimedRecord c now x).mimitRunId = r from run.trans hr] at hfound
    simp [hfound]
  | recover => simp [claims] at hc
  | decline => simp [claims] at hc
  | push holds => simp [claims] at hc
  | finalize holds pushed => simp [claims] at hc
  | leave => simp [claims] at hc

/-- The count of a record after a step, from the record before. -/
theorem counted_record (h : Effect m s a out t)
    (hreason : ∀ w k, s.workers w = some k → (finalization k.outcomes).lastReason ≠ some staleProcessingRecovered)
    {y : NotificationRecord} (hy : y ∈ t.records) :
    (∃ x ∈ s.records, SameRecord x y ∧ claims y.userId y.mimitRunId (a, out) = false ∧
      ∀ n, Counted (selectedMaxAttempts m) n x → Counted (selectedMaxAttempts m) n y) ∨
    (∃ x ∈ s.records, SameRecord x y ∧ claims y.userId y.mimitRunId (a, out) = true ∧
      ∀ n, Counted (selectedMaxAttempts m) n x → Counted (selectedMaxAttempts m) (n + 1) y) ∨
    (record? s.records y.userId y.mimitRunId = none ∧ claims y.userId y.mimitRunId (a, out) = true ∧
      Counted (selectedMaxAttempts m) 1 y) := by
  have hrefl : ∀ x : NotificationRecord, SameRecord x x := fun _ => ⟨rfl, rfl, rfl⟩
  cases h with
  | @recover c =>
    obtain ⟨x, hx, rfl⟩ := mem_recover.mp hy
    refine Or.inl ⟨x, hx, ?_⟩
    by_cases htake : c.takes x = true
    · rw [if_pos htake]
      exact ⟨recoveredRecord_same _ _ _, rfl, fun _ hn => hn.recover _⟩
    · rw [if_neg htake]
      exact ⟨hrefl x, rfl, fun _ hn => hn⟩
  | @insert w c devices newId now v idle absent inserted =>
    rcases (Table.mem_insert inserted).mp hy with hold | rfl
    · refine Or.inl ⟨y, hold, hrefl y, ?_, fun _ hn => hn⟩
      by_contra hclaims
      obtain ⟨hu, hr⟩ := claims_claim.mp (by simpa using hclaims)
      have hfound := record?_of_mem hold
      rw [← hu, ← hr, absent] at hfound
      exact absurd hfound (by simp)
    · exact Or.inr (Or.inr ⟨absent, claims_claim.mpr ⟨rfl, rfl⟩, counted_new c newId now (le_max_left 1 m)⟩)
  | @retake w c devices newId now r v idle row user run retry rows =>
    obtain ⟨x, hx, rfl⟩ := (rows y).mp hy
    by_cases hid : x.id = r.id
    · rw [if_pos hid, eq_of_id hx row hid]
      exact Or.inr (Or.inl ⟨r, row, claimedRecord_same _ _ _, claims_claim.mpr ⟨user.symm, run.symm⟩,
        fun _ hn => hn.claimed retry c now⟩)
    · rw [if_neg hid]
      refine Or.inl ⟨x, hx, hrefl x, ?_, fun _ hn => hn⟩
      by_contra hclaims
      obtain ⟨hu, hr⟩ := claims_claim.mp (by simpa using hclaims)
      exact hid (by rw [eq_of_pair hx row (hu ▸ user.symm) (hr ▸ run.symm)])
  | decline => exact Or.inl ⟨y, hy, hrefl y, rfl, fun _ hn => hn⟩
  | push holds => exact Or.inl ⟨y, hy, hrefl y, rfl, fun _ hn => hn⟩
  | @finalize w now k holds pushed =>
    obtain ⟨x, hx, rfl⟩ := mem_finalize.mp hy
    refine Or.inl ⟨x, hx, ?_⟩
    by_cases hid : x.id = k.notificationId
    · rw [if_pos hid]
      exact ⟨finalizedRecord_same _ _ _ _, rfl, fun _ hn => hn.finalize (hreason w k holds) now⟩
    · rw [if_neg hid]
      exact ⟨hrefl x, rfl, fun _ hn => hn⟩
  | leave => exact Or.inl ⟨y, hy, hrefl y, rfl, fun _ hn => hn⟩

theorem CountedIn.step {u r : ℤ} (hc : CountedIn (selectedMaxAttempts m) u r l s) (h : Effect m s a out t)
    (hreason : ∀ w k, s.workers w = some k → (finalization k.outcomes).lastReason ≠ some staleProcessingRecovered) :
    CountedIn (selectedMaxAttempts m) u r (l ++ [(a, out)]) t where
  record y hy hfor := by
    obtain ⟨rfl, rfl⟩ := isFor_iff.mp hfor
    rw [successfulClaims_snoc]
    rcases counted_record h hreason hy with ⟨x, hx, hsame, hno, hn⟩ | ⟨x, hx, hsame, hyes, hn⟩ | ⟨hnone, hyes, hn⟩
    · rw [hno]
      exact hn _ (hc.record x hx (isFor_iff.mpr ⟨hsame.userId.symm, hsame.mimitRunId.symm⟩))
    · rw [hyes]
      exact hn _ (hc.record x hx (isFor_iff.mpr ⟨hsame.userId.symm, hsame.mimitRunId.symm⟩))
    · rw [hyes, hc.absent hnone]
      exact hn
  absent ht := by
    rw [successfulClaims_snoc, hc.absent (absent_of_absent h ht)]
    by_cases hclaims : claims u r (a, out) = true
    · exact absurd ht (present_of_claims h hclaims)
    · simp [hclaims]

/-- In every run from a state without the record, the record counts its
claims. -/
theorem counted_run {u r : ℤ} {apns : SendResult → Prop} (hidle : s.Idle) (hnone : record? s.records u r = none)
    (hapns : ∀ x, apns x → x.reason ≠ some staleProcessingRecovered) (hrun : Run (step m) s l t)
    (hpush : ∀ e ∈ l, ∀ w d x, e.1 = .push w d (some x) → apns x) :
    CountedIn (selectedMaxAttempts m) u r l t ∧ Answered apns t := by
  induction hrun with
  | start =>
    refine ⟨⟨fun x hx hfor => ?_, fun _ => rfl⟩, fun w k hk => by simp [hidle w] at hk⟩
    obtain ⟨rfl, rfl⟩ := isFor_iff.mp hfor
    rw [record?_of_mem hx] at hnone
    exact absurd hnone (by simp)
  | @done log s' a out s'' _ hop ih =>
    obtain ⟨hc, ha⟩ := ih fun e he => hpush e (List.mem_append_left _ he)
    have heff := step_effect hop
    refine ⟨hc.step heff fun w k hk hreason => ?_, ha.step heff fun w d x hx => ?_⟩
    · rcases finalization_reason hreason (by decide) with htext | ⟨x, hx, hxr⟩
      · exact absurd htext (by decide)
      · exact hapns x (ha w k hk x hx) hxr
    · exact hpush (a, out) (by simp) w d x hx
  | refused _ _ ih => exact ih hpush

/-! ### Two claims at once -/

/-- The record was recovered before the later one of the claims that `v` and
`w` have in their hands. -/
def RecoveredBetween (id : ℤ) (v w : ι) (log : List (Entry ι)) : Prop :=
  ∃ l₁ e l₂ c l₃, log = l₁ ++ e :: l₂ ++ c :: l₃ ∧ recovers id e = true ∧
    (claimant c = some (v, id) ∨ claimant c = some (w, id)) ∧
    ∀ x ∈ l₃, (claimant x).map (·.1) ≠ some v ∧ (claimant x).map (·.1) ≠ some w

omit [DecidableEq ι] in
/-- Other workers' steps do not change which claim is the later one. -/
theorem RecoveredBetween.snoc {id : ℤ} {v w : ι} {x : Entry ι} (h : RecoveredBetween id v w l)
    (hv : (claimant x).map (·.1) ≠ some v) (hw : (claimant x).map (·.1) ≠ some w) :
    RecoveredBetween id v w (l ++ [x]) := by
  obtain ⟨l₁, e, l₂, c, l₃, rfl, he, hc, hlast⟩ := h
  refine ⟨l₁, e, l₂, c, l₃ ++ [x], by simp, he, hc, fun y hy => ?_⟩
  rcases List.mem_append.mp hy with hold | hnew
  · exact hlast y hold
  · rw [List.mem_singleton.mp hnew]
    exact ⟨hv, hw⟩

/-- As long as a record is not recovered, its claim belongs to one worker and
keeps it processing; two claims of it are apart by a recovery. -/
structure Exclusive (log : List (Entry ι)) (s : System ι) : Prop where
  known : Known s
  processing : ∀ w k, s.workers w = some k → (∀ e ∈ log, recovers k.notificationId e = false) →
    ∀ r ∈ s.records, r.id = k.notificationId → r.status = .processing
  alone : ∀ v w j k, s.workers v = some j → s.workers w = some k → j.notificationId = k.notificationId →
    (∀ e ∈ log, recovers k.notificationId e = false) → v = w
  between : ∀ v w j k, v ≠ w → s.workers v = some j → s.workers w = some k → j.notificationId = k.notificationId →
    RecoveredBetween k.notificationId v w log

/-- A record that is claimed while another worker has it was recovered. -/
theorem recovered_of_claim (hx : Exclusive l s) (h : Effect m s a out t) {v w : ι} {j k : Handling}
    (hv : s.workers v = some j) (hidle : s.workers w = none) (hw : t.workers w = some k)
    (hid : j.notificationId = k.notificationId) (hout : out = .claimed (some k.notificationId)) :
    ∃ e ∈ l, recovers k.notificationId e = true := by
  by_contra hnone
  have hno : ∀ e ∈ l, recovers j.notificationId e = false := by
    intro e he
    rw [hid]
    by_contra hrec
    exact hnone ⟨e, he, by simpa using hrec⟩
  obtain ⟨x, hxmem, hxid, -, -⟩ := hx.known v j hv
  obtain ⟨y, hy, hyid, -, -⟩ := h.claimed_record hidle hw
  have hprocessing := hx.processing v j hv hno x hxmem hxid
  rcases h.record hy with ⟨-, -, hfailed⟩ | ⟨-, -, -, hne, -⟩
  · rw [hfailed x hxmem (by rw [hxid, hid, hyid])] at hprocessing
    exact absurd hprocessing (by simp)
  · exact hne (by rw [hout, hyid])

theorem Exclusive.step (hx : Exclusive l s) (h : Effect m s a out t) : Exclusive (l ++ [(a, out)]) t := by
  have hno : ∀ {id : ℤ}, (∀ e ∈ l ++ [(a, out)], recovers id e = false) →
      (∀ e ∈ l, recovers id e = false) ∧ recovers id (a, out) = false := fun hall =>
    ⟨fun e he => hall e (List.mem_append_left _ he), hall _ (by simp)⟩
  have halone : ∀ v w j k, t.workers v = some j → t.workers w = some k → j.notificationId = k.notificationId →
      (∀ e ∈ l ++ [(a, out)], recovers k.notificationId e = false) → v = w := by
    intro v w j k hv hw hid hall
    obtain ⟨hold, -⟩ := hno hall
    have hrec : ¬∃ e ∈ l, recovers k.notificationId e = true := fun ⟨e, he, het⟩ => by simp [hold e he] at het
    rcases h.holder hv with ⟨j₀, hv₀, hj, -⟩ | ⟨hvidle, hvc⟩
    · rcases h.holder hw with ⟨k₀, hw₀, hk, -⟩ | ⟨hwidle, hwc⟩
      · exact hx.alone v w j₀ k₀ hv₀ hw₀ (by rw [← hj.id, ← hk.id, hid]) (by rwa [← hk.id])
      · exact absurd (recovered_of_claim hx h hv₀ hwidle hw (by rw [← hj.id, hid]) (out_of_claimant hwc)) hrec
    · rcases h.holder hw with ⟨k₀, hw₀, hk, -⟩ | ⟨-, hwc⟩
      · have hfound := recovered_of_claim hx h hw₀ hvidle hv (by rw [← hk.id, hid]) (out_of_claimant hvc)
        rw [hid] at hfound
        exact absurd hfound hrec
      · rw [hwc] at hvc
        exact (Prod.mk.inj (Option.some.inj hvc)).1.symm
  refine ⟨hx.known.step h, fun w k hw hall r hr hid => ?_, halone, fun v w j k hvw hv hw hid => ?_⟩
  · obtain ⟨hold, hnew⟩ := hno hall
    rcases h.record hr with ⟨-, hprocessing, -⟩ | ⟨r₀, hr₀, hid₀, hne, hcases⟩
    · exact hprocessing
    · rcases h.holder hw with ⟨k₀, hw₀, hk, -⟩ | ⟨-, hwc⟩
      · have hid₁ : r₀.id = k₀.notificationId := by rw [hid₀, hid, hk.id]
        have hstatus := hx.processing w k₀ hw₀ (by rwa [← hk.id]) r₀ hr₀ hid₁
        rcases hcases with ⟨rfl, -⟩ | ⟨hrec, -, -⟩ | ⟨v, -, j, -, hv, hgone, hjid, -, -⟩
        · exact hstatus
        · rw [hid₀, hid, hnew] at hrec
          exact absurd hrec (by simp)
        · have hvw := hx.alone v w j k₀ hv hw₀ (by rw [hjid, hid₁]) (by rwa [← hk.id])
          rw [hvw, hw] at hgone
          exact absurd hgone (by simp)
      · exact absurd (out_of_claimant hwc) (by rw [← hid]; exact hne)
  · rcases h.holder hv with ⟨j₀, hv₀, hj, hvc⟩ | ⟨hvidle, hvc⟩
    · rcases h.holder hw with ⟨k₀, hw₀, hk, hwc⟩ | ⟨hwidle, hwc⟩
      · have hbefore := hx.between v w j₀ k₀ hvw hv₀ hw₀ (by rw [← hj.id, ← hk.id, hid])
        rw [← hk.id] at hbefore
        exact hbefore.snoc hvc hwc
      · obtain ⟨e, he, hrec⟩ := recovered_of_claim hx h hv₀ hwidle hw (by rw [← hj.id, hid]) (out_of_claimant hwc)
        obtain ⟨l₁, l₂, rfl⟩ := List.append_of_mem he
        exact ⟨l₁, e, l₂, (a, out), [], by simp, hrec, Or.inr hwc, by simp⟩
    · rcases h.holder hw with ⟨k₀, hw₀, hk, hwc⟩ | ⟨-, hwc⟩
      · obtain ⟨e, he, hrec⟩ := recovered_of_claim hx h hw₀ hvidle hv (by rw [← hk.id, hid]) (out_of_claimant hvc)
        obtain ⟨l₁, l₂, rfl⟩ := List.append_of_mem he
        exact ⟨l₁, e, l₂, (a, out), [], by simp, hid ▸ hrec, Or.inl (hid ▸ hvc), by simp⟩
      · rw [hwc] at hvc
        exact absurd (Prod.mk.inj (Option.some.inj hvc)).1.symm hvw

theorem exclusive_run (hidle : s.Idle) (hrun : Run (step m) s l t) : Exclusive l t := by
  induction hrun with
  | start =>
    refine ⟨known_of_idle hidle, ?_, ?_, ?_⟩
    · intro w k hw
      simp [hidle w] at hw
    · intro v w j k hv
      simp [hidle v] at hv
    · intro v w j k _ hv
      simp [hidle v] at hv
  | done _ hop ih => exact ih.step (step_effect hop)
  | refused _ _ ih => exact ih

/-- **Claims are bounded and exclusive.** In every run from a state in which
nobody has a claim and the user has no record for the import run, the record's
successful claims are at most its attempts, and these at most `max_attempts`.
Two workers have a claim of one record in their hands only if it was recovered
before the later claim. The push service never answers with the reason that
the recovery writes. -/
theorem claims_bounded {u r : ℤ} {apns : SendResult → Prop} (hmax : 1 ≤ m) (hidle : s.Idle)
    (hnone : record? s.records u r = none) (hapns : ∀ x, apns x → x.reason ≠ some staleProcessingRecovered)
    (hrun : Run (step m) s l t) (hpush : ∀ e ∈ l, ∀ w d x, e.1 = .push w d (some x) → apns x) :
    successfulClaims u r l ≤ processingAttempts u r t ∧ processingAttempts u r t ≤ m ∧
      ∀ v w j k, v ≠ w → t.workers v = some j → t.workers w = some k → j.notificationId = k.notificationId →
        RecoveredBetween k.notificationId v w l := by
  obtain ⟨hc, -⟩ := counted_run hidle hnone hapns hrun hpush
  rw [show selectedMaxAttempts m = m from max_eq_right hmax] at hc
  have hcount : successfulClaims u r l ≤ processingAttempts u r t ∧ processingAttempts u r t ≤ m := by
    unfold processingAttempts
    cases hx : record? t.records u r with
    | none => exact ⟨(hc.absent hx).le, Nat.zero_le m⟩
    | some x =>
      obtain ⟨hmem, hu, hr⟩ := mem_of_record? hx
      have hx := hc.record x hmem (isFor_iff.mpr ⟨hu, hr⟩)
      exact ⟨hx.claims, hx.bound⟩
  exact ⟨hcount.1, hcount.2, (exclusive_run hidle hrun).between⟩

end

/-- The worker 0 claims and fails for a while, claims again and stalls; the
record is recovered, and the worker 1 claims it. -/
def retries : List (Action ℕ) :=
  [.claim 0 sampleClaim [11] 1 0, .push 0 11 (some unavailable), .finalize 0 1000000,
    .claim 0 sampleClaim [11] 2 2000000, .recover (sampleRecovery 1000000000), .claim 1 sampleClaim [11] 3 1001000000]

/-- Some of the answers of the push service. -/
def knownAnswer (x : SendResult) : Prop :=
  x.reason ∈ [none, some "BadDeviceToken", some "Unregistered", some "TooManyRequests", some "ServiceUnavailable"]

theorem claims_bounded_sample :
    successfulClaims 1 5 (execute (step 3) sampleSystem retries).1 ≤
        processingAttempts 1 5 (execute (step 3) sampleSystem retries).2 ∧
      processingAttempts 1 5 (execute (step 3) sampleSystem retries).2 ≤ 3 ∧
      ∀ v w j k, v ≠ w → (execute (step 3) sampleSystem retries).2.workers v = some j →
        (execute (step 3) sampleSystem retries).2.workers w = some k → j.notificationId = k.notificationId →
        RecoveredBetween k.notificationId v w (execute (step 3) sampleSystem retries).1 := by
  have hreason : ∀ x, knownAnswer x → x.reason ≠ some staleProcessingRecovered := by
    intro x hx hreason
    rw [knownAnswer, hreason] at hx
    exact absurd hx (by decide)
  have hpush : ∀ e ∈ (execute (step 3) sampleSystem retries).1, ∀ w d x, e.1 = .push w d (some x) → knownAnswer x := by
    intro e he w d x hx
    have hmem := mem_execute he
    rw [hx] at hmem
    obtain ⟨-, -, rfl⟩ : w = 0 ∧ d = 11 ∧ x = unavailable := by simpa [retries] using hmem
    simp [knownAnswer, unavailable]
  exact claims_bounded (by decide) (fun _ => rfl) rfl hreason (run_execute (step 3) retries sampleSystem) hpush

example : successfulClaims 1 5 (execute (step 3) sampleSystem retries).1 = 3 ∧
    processingAttempts 1 5 (execute (step 3) sampleSystem retries).2 = 3 := by decide +kernel

end Notifications
end FuelNear

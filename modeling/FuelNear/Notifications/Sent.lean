/-
# When a sent record stays sent

A worker finalizes by the id that its claim returned and does not look at the
record again. A slow worker whose record was recovered, claimed by another and
reported as sent still pushes, and its report of a failure overwrites the
success. A record is final once sent exactly in the runs in which no worker
that was overtaken like this pushes or reports a failure.

Key definitions: `SentIsFinal`, `NotOvertaken`.
Key theorems: `sentIsFinal_iff`, `slow_worker_overwrites`.
-/
import FuelNear.Notifications.Workers

namespace FuelNear
namespace Notifications

open Sql

section

variable {ι : Type*} [DecidableEq ι] {m : ℕ} {s t : System ι} {a : Action ι} {out : Answer} {l : List (Entry ι)}

/-- A record that is sent at some point of the run stays sent, and is neither
claimed nor pushed again. -/
def SentIsFinal (m : ℕ) (s : System ι) (l : List (Entry ι)) : Prop :=
  ∀ l₁ l₂ l₃ x y, l = l₁ ++ l₂ ++ l₃ → Run (step m) s l₁ x → Run (step m) x l₂ y →
    ∀ r ∈ x.records, r.status = .sent →
      (∃ r' ∈ y.records, SameRecord r r' ∧ r'.status = .sent) ∧
      ∀ e ∈ l₂, claims r.userId r.mimitRunId e = false ∧ e.2 ≠ .pushed r.id

/-- The worker does not push, and does not report a failure, when another has
reported the record as sent since its claim. -/
def NotOvertaken (log : List (Entry ι)) (s : System ι) : Action ι → Prop
  | .push w _ _ => ∀ k, s.workers w = some k → overtaken w k.notificationId log = false
  | .finalize w _ => ∀ k, s.workers w = some k → (finalization k.outcomes).finalStatus = .failed →
      overtaken w k.notificationId log = false
  | _ => True

/-- A worker whose record is sent was overtaken. -/
def SentOvertakes (log : List (Entry ι)) (s : System ι) : Prop :=
  ∀ w k, s.workers w = some k → ∀ r ∈ s.records, r.id = k.notificationId → r.status = .sent →
    overtaken w k.notificationId log = true

theorem overtaken_snoc {w : ι} {id : ℤ} {e : Entry ι} (h : (claimant e).map (·.1) ≠ some w) :
    overtaken w id (l ++ [e]) = (overtaken w id l || decide (e.2 = .finalized id .sent)) := by
  rw [overtaken, sinceClaim, List.rtakeWhile_concat_pos _ _ _ (by simpa using h), List.any_append, List.any_cons,
    List.any_nil, Bool.or_false]
  rfl

theorem SentOvertakes.step (hs : SentOvertakes l s) (h : Effect m s a out t) : SentOvertakes (l ++ [(a, out)]) t := by
  intro w k hw r' hr' hid hsent
  rcases h.record hr' with ⟨-, hprocessing, -⟩ | ⟨r, hr, hrid, hne, hcases⟩
  · rw [hprocessing] at hsent
    exact absurd hsent (by simp)
  · rcases h.holder hw with ⟨k₀, hw₀, hk, hc⟩ | ⟨-, hc⟩
    · rw [overtaken_snoc hc, Bool.or_eq_true]
      rcases hcases with ⟨rfl, -⟩ | ⟨-, -, hfailed⟩ | ⟨-, -, j, -, -, -, -, hout, hstatus⟩
      · left
        rw [hk.id]
        exact hs w k₀ hw₀ r' hr (by rw [hid, hk.id]) hsent
      · rw [hfailed] at hsent
        exact absurd hsent (by simp)
      · right
        rw [hstatus] at hsent
        rw [decide_eq_true_eq, hout, hsent, hrid, hid]
    · exact absurd (out_of_claimant hc) (by rw [← hid]; exact hne)

theorem sentOvertakes_run (hidle : s.Idle) (hrun : Run (step m) s l t) : SentOvertakes l t := by
  induction hrun with
  | start =>
    intro w k hw
    simp [hidle w] at hw
  | done _ hop ih => exact ih.step (step_effect hop)
  | refused _ _ ih => exact ih

/-! ### Without overtaken workers -/

/-- A sent record is not claimed. -/
theorem not_claimed_of_sent (h : Effect m s a out t) {r : NotificationRecord} (hr : r ∈ s.records)
    (hsent : r.status = .sent) : claims r.userId r.mimitRunId (a, out) = false := by
  cases h with
  | @insert w c devices newId now v idle absent inserted =>
    by_contra hclaims
    obtain ⟨hu, hm⟩ := claims_claim.mp (by simpa using hclaims)
    have hfound := record?_of_mem hr
    rw [← hu, ← hm, absent] at hfound
    exact absurd hfound (by simp)
  | @retake w c devices newId now x v idle row user run retry rows =>
    by_contra hclaims
    obtain ⟨hu, hm⟩ := claims_claim.mp (by simpa using hclaims)
    rw [← eq_of_pair hr row (by rw [user, hu]) (by rw [run, hm])] at retry
    simp [retryable, hsent] at retry
  | recover => rfl
  | decline => rfl
  | push holds => rfl
  | finalize holds pushed => rfl
  | leave => rfl

/-- A sent record is not pushed by a worker that was not overtaken. -/
theorem not_pushed_of_sent (hs : SentOvertakes l s) (h : Effect m s a out t) (hc : NotOvertaken l s a)
    {r : NotificationRecord} (hr : r ∈ s.records) (hsent : r.status = .sent) : out ≠ .pushed r.id := by
  cases h with
  | @push w device outcome k holds =>
    intro hout
    have hid : k.notificationId = r.id := by simpa using hout
    have hover := hs w k holds r hr hid.symm hsent
    rw [hc k holds] at hover
    exact absurd hover (by simp)
  | recover => simp
  | insert idle absent inserted => simp
  | retake idle row user run retry rows => simp
  | decline => simp
  | finalize holds pushed => simp
  | leave => simp

/-- A sent record stays sent if no overtaken worker reports a failure. -/
theorem stays_sent (hs : SentOvertakes l s) (h : Effect m s a out t) (hc : NotOvertaken l s a)
    {r : NotificationRecord} (hr : r ∈ s.records) (hsent : r.status = .sent) :
    ∃ r' ∈ t.records, SameRecord r r' ∧ r'.status = .sent := by
  obtain ⟨r', hr', hsame⟩ := h.kept hr
  refine ⟨r', hr', hsame, ?_⟩
  rcases h.record hr' with ⟨-, -, hfailed⟩ | ⟨r₀, hr₀, hid, -, hcases⟩
  · rw [hfailed r hr hsame.id.symm] at hsent
    exact absurd hsent (by simp)
  · have hr₀r : r₀ = r := eq_of_id hr₀ hr (by rw [hid, hsame.id])
    subst hr₀r
    rcases hcases with ⟨rfl, -⟩ | ⟨-, hprocessing, -⟩ | ⟨w, now, k, rfl, hw, -, hkid, -, hstatus⟩
    · exact hsent
    · rw [hprocessing] at hsent
      exact absurd hsent (by simp)
    · rw [hstatus]
      rcases finalization_status k.outcomes with hyes | hfailed
      · exact hyes
      · have hover := hs w k hw r₀ hr hkid.symm hsent
        rw [hc k hw hfailed] at hover
        exact absurd hover (by simp)

/-- In a run without overtaken workers, a sent record is final. -/
theorem sentIsFinal_of_notOvertaken (hidle : s.Idle) (h : EveryCall (step m) s NotOvertaken l) : SentIsFinal m s l := by
  intro l₁ l₂ l₃ x y hl hx hxy r hr hsent
  rw [hl] at h
  have hcalls : EveryCall (step m) s NotOvertaken (l₁ ++ l₂) := h.of_append
  clear hl h
  induction hxy with
  | start => exact ⟨⟨r, hr, ⟨rfl, rfl, rfl⟩, hsent⟩, fun e he => absurd he (by simp)⟩
  | @done log u a out v hrun hop ih =>
    rw [← List.append_assoc] at hcalls
    obtain ⟨⟨r', hr', hsame, hsent'⟩, hlog⟩ := ih hcalls.of_append
    have hu := hx.trans hrun
    have hc := hcalls (l₁ ++ log) a out [] u rfl hu
    have hs := sentOvertakes_run hidle hu
    have heff := step_effect hop
    refine ⟨?_, fun e he => ?_⟩
    · obtain ⟨r'', hr'', hsame', hsent''⟩ := stays_sent hs heff hc hr' hsent'
      refine ⟨r'', hr'', ⟨?_, ?_, ?_⟩, hsent''⟩
      · rw [hsame'.id, hsame.id]
      · rw [hsame'.userId, hsame.userId]
      · rw [hsame'.mimitRunId, hsame.mimitRunId]
    · rcases List.mem_append.mp he with hold | hnew
      · exact hlog e hold
      · rw [List.mem_singleton.mp hnew]
        have hclaim := not_claimed_of_sent heff hr' hsent'
        have hpush := not_pushed_of_sent hs heff hc hr' hsent'
        rw [hsame.userId, hsame.mimitRunId] at hclaim
        rw [hsame.id] at hpush
        exact ⟨hclaim, hpush⟩
  | refused _ _ ih => exact ih hcalls

/-! ### With an overtaken worker -/

/-- A record that was just reported as sent is sent. -/
theorem sent_of_report (hk : Known s) {id : ℤ} (h : Effect m s a (.finalized id .sent) t) :
    ∃ r ∈ t.records, r.id = id ∧ r.status = .sent := by
  generalize hout : Answer.finalized id NotificationStatus.sent = out at h
  cases h with
  | @finalize w now k holds pushed =>
    obtain ⟨hid, hstatus⟩ := Answer.finalized.inj hout
    obtain ⟨r, hr, hrid, -, -⟩ := hk w k holds
    refine ⟨_, mem_finalize.mpr ⟨r, hr, rfl⟩, ?_, ?_⟩
    · rw [if_pos hrid, hid]
      exact hrid
    · rw [if_pos hrid]
      exact hstatus.symm
  | recover => exact absurd hout (by simp)
  | insert idle absent inserted => exact absurd hout (by simp)
  | retake idle row user run retry rows => exact absurd hout (by simp)
  | decline => exact absurd hout (by simp)
  | push holds => exact absurd hout (by simp)
  | leave => exact absurd hout (by simp)

/-- The point of the run at which an overtaken worker's record was sent. -/
theorem report_of_overtaken (hidle : s.Idle) (hrun : Run (step m) s l t) {w : ι} {id : ℤ}
    (hover : overtaken w id l = true) :
    ∃ l₁ l₂ x, l = l₁ ++ l₂ ∧ Run (step m) s l₁ x ∧ Run (step m) x l₂ t ∧ ∃ r ∈ x.records, r.id = id ∧ r.status = .sent := by
  obtain ⟨e, he, hreport⟩ := List.any_eq_true.mp hover
  have hmem : e ∈ l := (List.rtakeWhile_suffix _ _).subset he
  obtain ⟨l₁, l₂, x, y, hl, hx, hop, hy⟩ := hrun.split hmem
  have hout : e.2 = .finalized id .sent := by simpa using hreport
  rw [hout] at hop
  refine ⟨l₁ ++ [e], l₂, y, by rw [hl]; simp, ?_, hy, ?_⟩
  · rw [← hout] at hop
    exact hx.done hop
  · exact sent_of_report (held_records hx hidle) (step_effect hop)

/-- An overtaken worker that goes on pushes for a sent record, or takes back
the success. -/
theorem notOvertaken_of_sentIsFinal (hidle : s.Idle) (hrun : Run (step m) s l t) (h : SentIsFinal m s l) :
    EveryCall (step m) s NotOvertaken l := by
  intro l₁ a out l₂ x hl hx
  rw [hl] at hrun h
  obtain ⟨y, hop, -⟩ := hrun.call_at hx
  have heff := step_effect hop
  have hsent : ∀ {w : ι} {k : Handling}, overtaken w k.notificationId l₁ = true →
      (∃ r ∈ y.records, r.id = k.notificationId ∧ r.status = .sent) ∧ out ≠ .pushed k.notificationId := by
    intro w k hover
    obtain ⟨p, q, z, rfl, hz, hzx, r, hr, hid, hstatus⟩ := report_of_overtaken hidle hx hover
    obtain ⟨⟨r', hr', hsame, hsent⟩, hlog⟩ := h p (q ++ [(a, out)]) l₂ z y (by simp) hz (hzx.done hop) r hr hstatus
    refine ⟨⟨r', hr', by rw [hsame.id, hid], hsent⟩, ?_⟩
    rw [← hid]
    exact (hlog (a, out) (by simp)).2
  generalize ha : a = act at heff
  cases heff with
  | @push w device outcome k holds =>
    intro k' hk'
    rw [holds] at hk'
    by_contra hover
    exact (hsent (Bool.eq_true_of_not_eq_false hover)).2 (by rw [Option.some.inj hk'])
  | @finalize w now k holds pushed =>
    intro k' hk' hfailed
    rw [holds] at hk'
    obtain rfl := Option.some.inj hk'
    by_contra hover
    obtain ⟨⟨r', hr', hid, hstatus⟩, -⟩ := hsent (Bool.eq_true_of_not_eq_false hover)
    obtain ⟨r, hr, hx⟩ := mem_finalize.mp hr'
    have hrid : r.id = k.notificationId := by
      by_contra hne
      rw [if_neg hne] at hx
      exact hne (by rw [hx, hid])
    rw [if_pos hrid] at hx
    rw [← hx] at hstatus
    exact absurd (hfailed.symm.trans hstatus) (by simp)
  | recover => trivial
  | insert idle absent inserted => trivial
  | retake idle row user run retry rows => trivial
  | decline => trivial
  | leave => trivial

/-- **When 'sent' is final.** In a run from a state in which nobody has a
claim, a record that is sent stays sent, and is neither claimed nor pushed
again, if and only if no worker pushes or reports a failure for a record that
another worker has reported as sent since its own claim. -/
theorem sentIsFinal_iff (hidle : s.Idle) (hrun : Run (step m) s l t) :
    SentIsFinal m s l ↔ EveryCall (step m) s NotOvertaken l :=
  ⟨notOvertaken_of_sentIsFinal hidle hrun, sentIsFinal_of_notOvertaken hidle⟩

end

/-! ### A slow worker -/

/-- The worker 0 claims and stalls; the record is recovered after a quarter of
an hour, and the worker 1 claims it, pushes and reports the success. -/
def stalled : List (Action ℕ) :=
  [.claim 0 sampleClaim [11] 1 0, .recover (sampleRecovery 1000000000), .claim 1 sampleClaim [11] 2 1001000000,
    .push 1 11 (some delivered), .finalize 1 1002000000]

/-- The worker 0 pushes in vain and reports the failure; the next claim gets
the record, and the user a second push. -/
def resumed : List (Action ℕ) :=
  [.push 0 11 (some unavailable), .finalize 0 1003000000, .claim 1 sampleClaim [11] 3 1004000000,
    .push 1 11 (some delivered)]

theorem sentIsFinal_iff_sample :
    SentIsFinal 3 sampleSystem (execute (step 3) sampleSystem stalled).1 ↔
      EveryCall (step 3) sampleSystem NotOvertaken (execute (step 3) sampleSystem stalled).1 :=
  sentIsFinal_iff (fun _ => rfl) (run_execute (step 3) stalled sampleSystem)

/-- Not every run keeps a sent record: the slow worker takes back the success,
and the user is notified twice. -/
theorem slow_worker_overwrites :
    sampleSystem.Idle ∧
      ((record? (execute (step 3) sampleSystem stalled).2.records 1 5).map (·.status) = some .sent ∧
        (execute (step 3) (execute (step 3) sampleSystem stalled).2 resumed).1.map (·.2) =
          [.pushed 1, .finalized 1 .failed, .claimed (some 1), .pushed 1]) ∧
      ¬SentIsFinal 3 sampleSystem (execute (step 3) sampleSystem (stalled ++ resumed)).1 := by
  have hlog : (execute (step 3) (execute (step 3) sampleSystem stalled).2 resumed).1.map (·.2) =
      [.pushed 1, .finalized 1 .failed, .claimed (some 1), .pushed 1] := by decide +kernel
  have hstatus : (record? (execute (step 3) sampleSystem stalled).2.records 1 5).map (fun r => (r.id, r.status)) =
      some (1, .sent) := by decide +kernel
  refine ⟨fun _ => rfl, ⟨by decide +kernel, hlog⟩, fun h => ?_⟩
  obtain ⟨r, hr, hrow⟩ := Option.map_eq_some_iff.mp hstatus
  obtain ⟨hid, hsent⟩ := Prod.mk.inj hrow
  rw [execute_append] at h
  obtain ⟨-, hfinal⟩ := h _ _ [] _ _ (List.append_nil _).symm (run_execute _ _ _) (run_execute _ _ _) r
    (mem_of_record? hr).1 hsent
  have hpush : Answer.pushed 1 ∈ (execute (step 3) (execute (step 3) sampleSystem stalled).2 resumed).1.map (·.2) := by
    rw [hlog]
    simp
  obtain ⟨e, he, hout⟩ := List.mem_map.mp hpush
  exact (hfinal e he).2 (by rw [hout, hid])

end Notifications
end FuelNear

/-
# What a run reports

A worker that finishes has settled every user of its SELECT, in the order of
the SELECT and each once: it passed the user over, or pushed and finalized the
record. Its summary counts exactly its own steps since its start, whatever
others did in between. So the users that were skipped, sent to and failed add
up to the users considered, and the reasons add up to those skipped.

Key definitions: `Tallied`, `skips`, `results`, `statuses`, `settled`, `Counts`,
`Told`.
Key theorems: `Tallied.total`, `length_settled`, `turn_told`, `told_since`,
`finished_summary`.
-/
import FuelNear.Alerts.Worker
import FuelNear.Since

namespace FuelNear
namespace Alerts

open Sql Notifications

/-! ### The summary of events -/

/-- The summary of a run over `n` users counts what there was. -/
structure Tallied (n : ℕ) (skips : List String) (results : List SendResult) (statuses : List NotificationStatus)
    (configurationErrors : ℕ) (m : Summary) : Prop where
  considered : m.usersConsidered = n
  attempted : m.attemptedCount = results.length
  sent : m.sentCount = statuses.countP (· = .sent)
  failed : m.failedCount = statuses.countP (· ≠ .sent)
  temporary : m.temporaryFailedCount = results.countP fun r => !r.success && r.temporaryError
  permanent : m.permanentFailedCount = (results.countP fun r => !r.success && !r.temporaryError) + configurationErrors
  retried : m.retriedCount = (results.map fun r => max 1 r.attempts - 1).sum
  skipped : m.skippedCount = skips.length
  invalid : m.invalidTokensCount = results.countP fun r => r.invalidToken
  samePrice : m.skippedSamePrice = skips.count "skipped_same_price"
  worsePrice : m.skippedWorsePrice = skips.count "skipped_worse_price"
  belowThreshold : m.skippedBelowThreshold = skips.count "skipped_below_threshold"
  staleLocation : m.skippedStaleLocation = skips.count "skipped_stale_location"
  reasons : m.skipReasons = Counter.of skips

section Tally

variable {n errors : ℕ} {ss : List String} {rs : List SendResult} {ts : List NotificationStatus} {m : Summary}

theorem tallied_start (n : ℕ) : Tallied n [] [] [] 0 (.start n) := by
  constructor <;> rfl

theorem counter_of_append (l : List String) (reason : String) :
    Counter.of (l ++ [reason]) = (Counter.of l).increment reason := by
  rw [Counter.of, List.foldl_append]
  rfl

/-- A user that is passed over is counted, with the reason. -/
theorem Tallied.skip (h : Tallied n ss rs ts errors m) (reason : String) :
    Tallied n (ss ++ [reason]) rs ts errors (m.skip reason) := by
  have hcount : ∀ x, (ss ++ [reason]).count x = ss.count x + if reason = x then 1 else 0 := by
    intro x
    rw [List.count_append, List.count_singleton]
    simp only [beq_iff_eq]
  exact {
    h with
    skipped := by rw [List.length_append, ← h.skipped]; rfl
    samePrice := by rw [hcount, ← h.samePrice]; rfl
    worsePrice := by rw [hcount, ← h.worsePrice]; rfl
    belowThreshold := by rw [hcount, ← h.belowThreshold]; rfl
    staleLocation := by rw [hcount, ← h.staleLocation]; rfl
    reasons := by rw [counter_of_append, ← h.reasons]; rfl }

/-- An answer is counted. -/
theorem Tallied.result (h : Tallied n ss rs ts errors m) (r : SendResult) :
    Tallied n ss (rs ++ [r]) ts errors (m.result r) := by
  have hcount : ∀ p : SendResult → Bool, (rs ++ [r]).countP p = rs.countP p + if p r then 1 else 0 := by
    intro p
    rw [List.countP_append, List.countP_singleton]
  exact {
    h with
    attempted := by rw [List.length_append, ← h.attempted]; rfl
    temporary := by rw [hcount, ← h.temporary]; rfl
    permanent := by
      have hperm := h.permanent
      rw [hcount]
      simp only [Summary.result]
      omega
    retried := by rw [List.map_append, List.sum_append, ← h.retried]; rfl
    invalid := by rw [hcount, ← h.invalid]; rfl }

/-- The final status of a record is counted. -/
theorem Tallied.finalized (h : Tallied n ss rs ts errors m) (status : NotificationStatus) :
    Tallied n ss rs (ts ++ [status]) errors (m.finalized status) := by
  have hcount : ∀ p : NotificationStatus → Bool, (ts ++ [status]).countP p = ts.countP p + if p status then 1 else 0 := by
    intro p
    rw [List.countP_append, List.countP_singleton]
  exact {
    h with
    sent := by rw [hcount, ← h.sent]; simp [Summary.finalized]
    failed := by rw [hcount, ← h.failed]; simp [Summary.finalized] }

theorem Tallied.configurationError (h : Tallied n ss rs ts errors m) :
    Tallied n ss rs ts (errors + 1) m.configurationError := by
  have hperm := h.permanent
  exact { h with permanent := by simp only [Summary.configurationError]; omega }

/-- Every record is sent or failed. -/
theorem Tallied.statuses (h : Tallied n ss rs ts errors m) : m.sentCount + m.failedCount = ts.length := by
  rw [h.sent, h.failed, List.length_eq_countP_add_countP (· = NotificationStatus.sent)]
  simp

/-- The reasons add up to the users that were passed over. -/
theorem Tallied.total (h : Tallied n ss rs ts errors m) : m.skipReasons.values.sum = m.skippedCount := by
  rw [h.reasons, h.skipped, Counter.sum_of]

end Tally

/-! ### The events of a worker -/

section Events

variable {ι : Type*}

def skipOf : Event → Option String
  | .skipped _ reason => some reason
  | _ => none

def resultOf : Event → Option SendResult
  | .reported _ r _ => some r
  | _ => none

def statusOf : Event → Option NotificationStatus
  | .finalized _ status => some status
  | _ => none

/-- The user that an event is the last of. -/
def settledBy : Event → Option ℤ
  | .skipped userId _ => some userId
  | .finalized userId _ => some userId
  | _ => none

def isConfigurationError : Action ι → Bool
  | .push _ none => true
  | _ => false

/-- The reasons of the users that were passed over. -/
def skips (l : List (Action ι × Event)) : List String := l.filterMap fun c => skipOf c.2

/-- The answers of the push client. -/
def results (l : List (Action ι × Event)) : List SendResult := l.filterMap fun c => resultOf c.2

/-- The final status of each record. -/
def statuses (l : List (Action ι × Event)) : List NotificationStatus := l.filterMap fun c => statusOf c.2

/-- The users that are done with. -/
def settled (l : List (Action ι × Event)) : List ℤ := l.filterMap fun c => settledBy c.2

def configurationErrors (l : List (Action ι × Event)) : ℕ := l.countP fun c => isConfigurationError c.1

/-- A summary of events. -/
def Counts (n : ℕ) (l : List (Action ι × Event)) (m : Summary) : Prop :=
  Tallied n (skips l) (results l) (statuses l) (configurationErrors l) m

/-- An event settles its user by a reason or by a status. -/
theorem length_settled (l : List (Action ι × Event)) : (settled l).length = (skips l).length + (statuses l).length := by
  induction l with
  | nil => rfl
  | cons c l ih =>
    obtain ⟨a, e⟩ := c
    cases e with
    | skipped userId reason =>
      show (settled l).length + 1 = (skips l).length + 1 + (statuses l).length
      omega
    | finalized userId status =>
      show (settled l).length + 1 = (skips l).length + ((statuses l).length + 1)
      omega
    | _ => exact ih

variable {n : ℕ} {l : List (Action ι × Event)} {m : Summary} {a : Action ι} {e : Event}

/-- The lists of one more entry. -/
theorem counts_append (h : Tallied n (skips l ++ (skipOf e).toList) (results l ++ (resultOf e).toList)
    (statuses l ++ (statusOf e).toList) (configurationErrors l + if isConfigurationError a then 1 else 0) m) :
    Counts n (l ++ [(a, e)]) m := by
  have h1 : skips (l ++ [(a, e)]) = skips l ++ (skipOf e).toList := by
    cases hs : skipOf e <;> simp [skips, List.filterMap_append, hs]
  have h2 : results (l ++ [(a, e)]) = results l ++ (resultOf e).toList := by
    cases hs : resultOf e <;> simp [results, List.filterMap_append, hs]
  have h3 : statuses (l ++ [(a, e)]) = statuses l ++ (statusOf e).toList := by
    cases hs : statusOf e <;> simp [statuses, List.filterMap_append, hs]
  have h4 : configurationErrors (l ++ [(a, e)]) =
      configurationErrors l + if isConfigurationError a then 1 else 0 := by
    rw [configurationErrors, List.countP_append, List.countP_singleton]
    rfl
  rw [Counts, h1, h2, h3, h4]
  exact h

theorem settled_append (l : List (Action ι × Event)) (a : Action ι) (e : Event) :
    settled (l ++ [(a, e)]) = settled l ++ (settledBy e).toList := by
  cases hs : settledBy e <;> simp [settled, List.filterMap_append, hs]

/-- What the events since the start of a worker say about it: the users that
are settled and those still to come are the users it started with. -/
structure Told (users : List ℤ) (l : List (Action ι × Event)) (k : Worker) : Prop where
  counts : Counts users.length l k.summary
  users : settled l ++ k.subjects.map (·.userId) = users

/-- A transaction of the worker tells of one more event. -/
theorem turn_told {g : Settings} {s t : AlertStore} {k k' : Worker} {users : List ℤ} (h : Turn g s k a e (some k') t)
    (hk : Told users l k) : Told users (l ++ [(a, e)]) k' := by
  obtain ⟨hcounts, husers⟩ := hk
  unfold Counts at hcounts
  have hsubjects : ∀ u, k.phase.subject? = some u → k.subjects = u :: k.todo := by
    intro u hu
    rw [Worker.subjects, hu]
    rfl
  cases h with
  | pass phase todo why =>
    refine ⟨counts_append ?_, ?_⟩
    · simpa [skipOf, resultOf, statusOf, isConfigurationError, Worker.skip] using hcounts.skip _
    · rw [settled_append, ← husers]
      simp [settledBy, Worker.subjects, Worker.skip, phase, todo, Phase.subject?]
  | select phase todo why =>
    refine ⟨counts_append ?_, ?_⟩
    · simpa [skipOf, resultOf, statusOf, isConfigurationError] using hcounts
    · rw [settled_append, ← husers]
      simp [settledBy, Worker.subjects, phase, todo, Phase.subject?]
  | skip devices records subject held turn =>
    have hpush : isConfigurationError a = false := by
      cases a <;> first | rfl | exact absurd turn (by simp [Action.moves])
    refine ⟨counts_append ?_, ?_⟩
    · simpa [skipOf, resultOf, statusOf, hpush, Worker.skip] using hcounts.skip _
    · rw [settled_append, ← husers, hsubjects _ subject]
      simp [settledBy, Worker.subjects, Worker.skip, Phase.subject?]
  | go devices records subject held turn goes subject' held' =>
    have hpush : isConfigurationError a = false := by
      cases a <;> first | rfl | exact absurd turn (by simp [Action.moves])
    have hnone : skipOf e = none ∧ resultOf e = none ∧ statusOf e = none ∧ settledBy e = none := by
      cases goes <;> exact ⟨rfl, rfl, rfl, rfl⟩
    obtain ⟨h1, h2, h3, h4⟩ := hnone
    refine ⟨counts_append ?_, ?_⟩
    · simpa [h1, h2, h3, hpush] using hcounts
    · rw [settled_append, ← husers, hsubjects _ subject]
      simp [h4, Worker.subjects, subject']
  | @push w answers u devices id phase todo =>
    refine ⟨counts_append ?_, ?_⟩
    · cases answers with
      | none => simpa [skipOf, resultOf, statusOf, isConfigurationError] using hcounts.configurationError
      | some answers => simpa [skipOf, resultOf, statusOf, isConfigurationError] using hcounts
    · rw [settled_append, ← husers, hsubjects u (by rw [phase]; rfl)]
      simp [settledBy, Worker.subjects, Phase.subject?]
  | @report w now u id outcomes tokenId r rest phase =>
    refine ⟨counts_append ?_, ?_⟩
    · simpa [skipOf, resultOf, statusOf, isConfigurationError] using hcounts.result r
    · rw [settled_append, ← husers, hsubjects u (by rw [phase]; rfl)]
      simp [settledBy, Worker.subjects, Phase.subject?]
  | @finalize w now u id outcomes records phase =>
    refine ⟨counts_append ?_, ?_⟩
    · simpa [skipOf, resultOf, statusOf, isConfigurationError] using hcounts.finalized _
    · rw [settled_append, ← husers, hsubjects u (by rw [phase]; rfl)]
      simp [settledBy, Worker.subjects, Phase.subject?]

end Events

/-! ### Runs -/

section Runs

variable {ι : Type*} [DecidableEq ι] {g : Settings} {s₀ s₁ : System ι} {w : ι} {log : List (Action ι × Event)}

/-- The steps of one worker. -/
def stepsOf (w : ι) (l : List (Action ι × Event)) : List (Action ι × Event) := l.filter fun c => c.1.worker? = some w

theorem stepsOf_append (w : ι) (l : List (Action ι × Event)) (a : Action ι) (e : Event) :
    stepsOf w (l ++ [(a, e)]) = stepsOf w l ++ if a.worker? = some w then [(a, e)] else [] := by
  unfold stepsOf
  rw [List.filter_append]
  split_ifs with h <;> simp [h]

omit [DecidableEq ι] in
theorem forall_append {P : Action ι × Event → Prop} {l : List (Action ι × Event)} {c : Action ι × Event}
    (h : ∀ b ∈ l, P b) (hc : P c) : ∀ b ∈ l ++ [c], P b := by
  intro b hb
  rcases List.mem_append.mp hb with hb | hb
  · exact h b hb
  · exact (List.mem_singleton.mp hb) ▸ hc

/-- The users of the SELECT that a start finds. -/
def selectedUsers (g : Settings) (now : ℤ) (recovery : Recovery) (s : AlertStore) : List ℤ :=
  (selectSubjects (cleanedUp g now recovery s)).map (·.userId)

/-- A user has one row of preferences. -/
theorem selectSubjects_nodup (s : AlertStore) : ((selectSubjects s).map (·.userId)).Nodup := by
  have hunique : (s.preferences.rows.map (·.userId)).Nodup := by
    have hkeys := s.preferences.unique
    rw [List.map_eq_flatMap]
    exact hkeys
  have hmap : (selectSubjects s).map (·.userId) =
      (orderBy (Scan.table Preferences) (·.userId) (s.preferences.rows.filter (·.priceNotificationsEnabled))).map
        (·.userId) := by
    rw [selectSubjects, List.map_map]
    rfl
  rw [hmap]
  exact (orderBy_perm.map _).nodup_iff.mpr (hunique.sublist (List.filter_sublist.map _))

/-- The entry is a start of `w`, and what the steps of `w` after it tell of `w`. -/
def ToldSince (g : Settings) (s₀ : System ι) (w : ι) (before : List (Action ι × Event)) (c : Action ι × Event)
    (after : List (Action ι × Event)) (k : Worker) : Prop :=
  ∃ configured now recovery e x, c = (.start w true configured now recovery, e) ∧ Run (step g) s₀ before x ∧
    (∀ b ∈ after, ¬ borders w b) ∧ Told (selectedUsers g now recovery x.store) (stepsOf w after) k

theorem told_since (hidle : ∀ w, s₀.workers w = none) (h : Run (step g) s₀ log s₁) {k : Worker}
    (hk : s₁.workers w = some k) :
    ∃ before c after, log = before ++ c :: after ∧ ToldSince g s₀ w before c after k := by
  have hsince := h.since_with (P := fun s => ∃ k, s.workers w = some k)
    (Q := fun before c after s => ∃ k, s.workers w = some k ∧ ToldSince g s₀ w before c after k)
    (by rintro ⟨k, hk⟩; rw [hidle] at hk; exact absurd hk (by simp)) (fun l x a e y hrun hop hy => ?_) ⟨k, hk⟩
  · obtain ⟨before, c, after, hlog, k', hk', htold⟩ := hsince
    obtain rfl : k = k' := Option.some.inj (hk.symm.trans hk')
    exact ⟨before, c, after, hlog, htold⟩
  · obtain ⟨k', hk'⟩ := hy
    cases step_seen hop w with
    | other takes same =>
      refine Or.inr ⟨⟨k', same ▸ hk'⟩, ?_⟩
      rintro before c after ⟨j, hj, configured, now, recovery, e', x', hc, hx', hnone, htold⟩
      refine ⟨j, same.trans hj, configured, now, recovery, e', x', hc, hx', ?_, ?_⟩
      · exact forall_append hnone fun hb => takes (worker?_of_borders hb)
      · rwa [stepsOf_append, if_neg takes, List.append_nil]
    | @start configured now recovery e y after =>
      refine Or.inl ⟨_, after, configured, now, recovery, e, x, rfl, hrun, by simp, ?_, ?_⟩
      · have hlength : (selectedUsers g now recovery x.store).length =
            (selectSubjects (cleanedUp g now recovery x.store)).length := List.length_map _
        rw [hlength]
        exact tallied_start _
      · rfl
    | turn takes works turn =>
      refine Or.inr ⟨⟨_, works⟩, ?_⟩
      rintro before c after ⟨j, hj, configured, now, recovery, e', x', hc, hx', hnone, htold⟩
      obtain rfl := Option.some.inj (works.symm.trans hj)
      rw [hk'] at turn
      refine ⟨k', hk', configured, now, recovery, e', x', hc, hx', forall_append hnone (turn_borders turn), ?_⟩
      rw [stepsOf_append, if_pos takes]
      exact turn_told turn htold
    | leave after => exact absurd (after.symm.trans hk') (by simp)

/-- A worker that finishes has settled the users of its SELECT one by one, its
summary counts its steps since its start, and the counts add up. -/
theorem finished_summary (hidle : ∀ w, s₀.workers w = none) (h : Run (step g) s₀ log s₁) :
    ∀ l₁ w m l₂, log = l₁ ++ (.finish w, .finished m) :: l₂ →
      ∃ before configured now recovery e after x,
        l₁ = before ++ (.start w true configured now recovery, e) :: after ∧ Run (step g) s₀ before x ∧
        (∀ b ∈ after, ¬ borders w b) ∧
        settled (stepsOf w after) = selectedUsers g now recovery x.store ∧ (settled (stepsOf w after)).Nodup ∧
        Counts (selectedUsers g now recovery x.store).length (stepsOf w after) m ∧
        m.skippedCount + m.sentCount + m.failedCount = m.usersConsidered ∧
        m.skipReasons.values.sum = m.skippedCount := by
  rintro l₁ w m l₂ rfl
  rw [List.append_cons] at h
  obtain ⟨y, hrun, -⟩ := h.split_append
  obtain ⟨z, hz, hop⟩ := hrun.last
  cases step_effect hop with
  | turn takes works turn =>
    obtain rfl := Option.some.inj takes
    cases turn with
    | go devices records subject held turn goes => exact absurd turn (by simp [Action.moves])
    | finish phase todo =>
      obtain ⟨before, c, after, rfl, configured, now, recovery, e, x, rfl, hx, hnone, hcounts,
        husers⟩ := told_since hidle hz works
      have hdone : settled (stepsOf w after) = selectedUsers g now recovery x.store := by
        rw [← husers, Worker.subjects, phase, todo]
        simp [Phase.subject?]
      have hnodup := selectSubjects_nodup (cleanedUp g now recovery x.store)
      refine ⟨before, configured, now, recovery, e, after, x, rfl, hx, hnone, hdone, hdone ▸ hnodup, hcounts, ?_,
        hcounts.total⟩
      calc
        _ = (skips (stepsOf w after)).length + (statuses (stepsOf w after)).length := by
          rw [hcounts.skipped, add_assoc, hcounts.statuses]
        _ = (settled (stepsOf w after)).length := (length_settled _).symm
        _ = _ := by rw [hdone, hcounts.considered]

end Runs

/-- The users of a finished run, and those sent to. -/
def finishOf {ι : Type*} : Action ι × Event → Option (ℕ × ℕ)
  | (.finish _, .finished m) => some (m.usersConsidered, m.sentCount)
  | _ => none

theorem finishOf_eq_some {ι : Type*} {c : Action ι × Event} {considered sent : ℕ} (h : finishOf c = some (considered, sent)) :
    ∃ w m, c = (.finish w, .finished m) ∧ m.usersConsidered = considered ∧ m.sentCount = sent := by
  unfold finishOf at h
  split at h
  · next w m =>
    obtain ⟨hconsidered, hsent⟩ : m.usersConsidered = considered ∧ m.sentCount = sent := by simpa using h
    exact ⟨w, m, rfl, hconsidered, hsent⟩
  · exact absurd h (by simp)

theorem finished_summary_sample : ∃ l₁ m l₂, sampleAlertRun.1 = l₁ ++ (.finish (), .finished m) :: l₂ ∧
    m.sentCount = 1 ∧ m.skippedCount + m.sentCount + m.failedCount = m.usersConsidered ∧
    ∃ before after now recovery configured e x, l₁ = before ++ (.start () true configured now recovery, e) :: after ∧
      Run (step sampleAlertSettings) noAlerts before x ∧
      settled (stepsOf () after) = selectedUsers sampleAlertSettings now recovery x.store := by
  have hsome : ∃ c ∈ sampleAlertRun.1, finishOf c = some (1, 1) := by decide +kernel
  obtain ⟨c, hc, hfinish⟩ := hsome
  obtain ⟨w, m, rfl, -, hsent⟩ := finishOf_eq_some hfinish
  obtain ⟨l₁, l₂, hl⟩ := List.append_of_mem hc
  obtain ⟨before, configured, now, recovery, e, after, x, hstart, hx, -, hsettled, -, -, hsum, -⟩ :=
    finished_summary (fun _ => rfl) run_sampleAlerts l₁ () m l₂ hl
  exact ⟨l₁, m, l₂, hl, hsent, hsum, before, after, now, recovery, configured, e, x, hstart, hx, hsettled⟩

end Alerts
end FuelNear

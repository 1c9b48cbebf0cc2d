/-
# The rate limit of an endpoint

`check_auth_rate_limit` counts the calls of an endpoint and bucket in one row
of `auth_rate_limits`. The first call after the window has run out starts
another window, denied calls are counted too, and one call in a hundred
deletes the rows that nobody has called for the time of the retention. The
windows of a key therefore do not overlap: the row is deleted no earlier than
its window has run out (`Counts.cleanup`).

Key definitions: `checkAuthRateLimit`, `Counts`.
Key theorems: `Counts.call`, `run_counts`, `rate_limit_bounds`.
-/
import FuelNear.Dict
import FuelNear.Runs
import FuelNear.Windows
import Mathlib.Tactic

namespace FuelNear
namespace RateLimit

structure RateLimitRow where
  windowStart : ℤ
  requestCount : ℕ
  updatedAt : ℤ
  deriving DecidableEq

/-- The table, UNIQUE (endpoint, bucket_hash). -/
abbrev AuthRateLimits := Dict (String × String) RateLimitRow

structure Settings where
  sha256 : String → String
  authRateLimitRetentionHours : ℕ

structure APIError where
  statusCode : ℕ
  code : String
  message : String
  headers : List (String × String)
  deriving DecidableEq

/-- What ends a call before its COMMIT. -/
inductive Failure where
  | valueError (message : String)
  | integerOutOfRange
  deriving DecidableEq

/-- A call; the times are in microseconds. -/
structure CheckCall where
  endpoint : String
  bucket : String
  limit : ℕ
  windowSeconds : ℕ
  /-- `NOW()`, the time of the transaction -/
  now : ℤ
  /-- `secrets.randbelow(100)` -/
  draw : ℕ

def second : ℤ := 1000000

def hour : ℤ := 3600 * second

def hashToken (g : Settings) (token : String) : Except Failure String :=
  if token = "" then .error (.valueError "Token cannot be empty") else .ok (g.sha256 token)

def maybeCleanupAuthRateLimits (g : Settings) (c : CheckCall) (t : AuthRateLimits) : AuthRateLimits :=
  if c.draw ≠ 0 then t
  else t.filter fun e => !decide (e.2.updatedAt < c.now - g.authRateLimitRetentionHours * hour)

/-- The row that the INSERT … ON CONFLICT DO UPDATE writes. -/
def countedRow (c : CheckCall) : Option RateLimitRow → Except Failure RateLimitRow
  | none => .ok ⟨c.now, 1, c.now⟩
  | some r =>
    if r.windowStart ≤ c.now - c.windowSeconds * second then .ok ⟨c.now, 1, c.now⟩
    else if 2147483647 < r.requestCount + 1 then .error .integerOutOfRange
    else .ok ⟨r.windowStart, r.requestCount + 1, c.now⟩

def rateLimited (c : CheckCall) : APIError where
  statusCode := 429
  code := "RATE_LIMITED"
  message := "Troppi tentativi. Riprova più tardi."
  headers := [("Retry-After", toString c.windowSeconds)]

/-- The row that was written, and what is raised after the COMMIT. -/
structure CheckResult where
  row : RateLimitRow
  raised : Option APIError
  deriving DecidableEq

def checkAuthRateLimit (g : Settings) (c : CheckCall) (t : AuthRateLimits) :
    Except Failure (CheckResult × AuthRateLimits) := do
  let bucketHash ← hashToken g c.bucket
  let kept := maybeCleanupAuthRateLimits g c t
  let row ← countedRow c (kept.get? (c.endpoint, bucketHash))
  let raised := if c.limit < row.requestCount then some (rateLimited c) else none
  return (⟨row, raised⟩, kept.set (c.endpoint, bucketHash) row)

/-! ### What a call does to the row of a key -/

/-- A call that was counted, with its result. -/
abbrev Counted := CheckCall × CheckResult

def CheckCall.key (g : Settings) (c : CheckCall) : String × String := (c.endpoint, g.sha256 c.bucket)

theorem check_ok {g : Settings} {c : CheckCall} {t t' : AuthRateLimits} {res : CheckResult}
    (h : checkAuthRateLimit g c t = .ok (res, t')) :
    countedRow c ((maybeCleanupAuthRateLimits g c t).get? (c.key g)) = .ok res.row ∧
      res.raised = (if c.limit < res.row.requestCount then some (rateLimited c) else none) ∧
      t' = (maybeCleanupAuthRateLimits g c t).set (c.key g) res.row := by
  obtain ⟨hash, hhash, h⟩ := bind_eq_ok.mp h
  obtain ⟨row, hrow, h⟩ := bind_eq_ok.mp h
  obtain ⟨rfl, rfl⟩ := Prod.mk.inj (Except.ok.inj h)
  unfold hashToken at hhash
  split_ifs at hhash
  obtain rfl := Except.ok.inj hhash
  exact ⟨hrow, rfl, rfl⟩

/-- The clean-up deletes a row, or leaves it. -/
theorem cleanup_get? (g : Settings) (c : CheckCall) (t : AuthRateLimits) (k : String × String) :
    (maybeCleanupAuthRateLimits g c t).get? k = t.get? k ∨
      (maybeCleanupAuthRateLimits g c t).get? k = none ∧
        ∀ r, t.get? k = some r → r.updatedAt < c.now - g.authRateLimitRetentionHours * hour := by
  unfold maybeCleanupAuthRateLimits
  split_ifs with hdraw
  · exact .inl rfl
  · rw [Dict.get?_filter]
    cases hget : t.get? k with
    | none => exact .inl rfl
    | some r =>
      by_cases hold : r.updatedAt < c.now - g.authRateLimitRetentionHours * hour
      · refine .inr ⟨by simp [Option.filter, hold], fun r' hr' => ?_⟩
        rw [← Option.some.inj hr']
        exact hold
      · exact .inl (by simp [Option.filter, hold])

/-- The call starts a window, or is one more in the window of the row. -/
theorem countedRow_ok {c : CheckCall} {o : Option RateLimitRow} {row : RateLimitRow} (h : countedRow c o = .ok row) :
    (row = ⟨c.now, 1, c.now⟩ ∧ ∀ r, o = some r → r.windowStart + c.windowSeconds * second ≤ c.now) ∨
      ∃ r, o = some r ∧ c.now < r.windowStart + c.windowSeconds * second ∧
        row = ⟨r.windowStart, r.requestCount + 1, c.now⟩ := by
  cases o with
  | none => exact .inl ⟨(Except.ok.inj h).symm, fun r hr => absurd hr (by simp)⟩
  | some r =>
    rw [countedRow] at h
    split_ifs at h with hout
    · refine .inl ⟨(Except.ok.inj h).symm, fun r' hr' => ?_⟩
      rw [← Option.some.inj hr']
      omega
    · exact .inr ⟨r, rfl, by omega, (Except.ok.inj h).symm⟩

/-! ### The windows of a key -/

def Counted.start (e : Counted) : ℤ := e.2.row.windowStart

def Counted.time (e : Counted) : ℤ := e.1.now

def Counted.number (e : Counted) : ℕ := e.2.row.requestCount

def Counted.allowed (e : Counted) : Bool := e.2.raised.isNone

/-- The counted calls of one key up to the time `T`, and its row: the calls
stand in windows of length `w`, numbered within each, and the row is that of
the last window, or there is none and the last window has run out. -/
structure Counts (w T : ℤ) (l : List Counted) (row : Option RateLimitRow) : Prop where
  windowed : Windowed Counted.time Counted.start w l
  numbered : ∀ e ∈ l, 1 ≤ e.number
  once : (l.map fun e => (e.start, e.number)).Nodup
  recent : ∀ r ∈ row, r.windowStart ≤ r.updatedAt ∧ r.updatedAt ≤ T
  current : ∀ r ∈ row, ∀ e ∈ l, e.time ≤ r.updatedAt ∧
    (e.start = r.windowStart ∧ e.number ≤ r.requestCount ∨ e.start + w ≤ r.windowStart)
  gone : row = none → ∀ e ∈ l, e.start + w ≤ T

namespace Counts

variable {w T T' : ℤ} {l : List Counted} {row : Option RateLimitRow}

theorem start (w T : ℤ) : Counts w T [] none where
  windowed := ⟨fun x hx => absurd hx (by simp), fun x hx => absurd hx (by simp)⟩
  numbered e he := absurd he (by simp)
  once := List.nodup_nil
  recent r hr := absurd hr (by simp)
  current r hr := absurd hr (by simp)
  gone _ e he := absurd he (by simp)

theorem mono (h : Counts w T l row) (hT : T ≤ T') : Counts w T' l row where
  windowed := h.windowed
  numbered := h.numbered
  once := h.once
  recent r hr := ⟨(h.recent r hr).1, (h.recent r hr).2.trans hT⟩
  current := h.current
  gone hnone e he := (h.gone hnone e he).trans hT

/-- A row that is deleted has not been written for longer than its window. -/
theorem cleanup {g : Settings} {c : CheckCall} {t : AuthRateLimits} {k : String × String}
    (hw : w ≤ g.authRateLimitRetentionHours * hour) (h : Counts w c.now l (t.get? k)) :
    Counts w c.now l ((maybeCleanupAuthRateLimits g c t).get? k) := by
  rcases cleanup_get? g c t k with hkept | ⟨hdeleted, hold⟩
  · rw [hkept]
    exact h
  · rw [hdeleted]
    refine { windowed := h.windowed, numbered := h.numbered, once := h.once, recent := ?_, current := ?_, gone := ?_ }
    · exact fun r hr => absurd hr (by simp)
    · exact fun r hr => absurd hr (by simp)
    · intro _ e he
      cases hget : t.get? k with
      | none => exact h.gone hget e he
      | some r =>
        have hstart := (h.windowed.inside e he).1
        have htime := (h.current r hget e he).1
        have hupdated := hold r hget
        omega

/-- One more call, in a later window or with the next number in the last. -/
theorem append {c : CheckCall} {res : CheckResult} (h : Counts w c.now l row)
    (hinside : res.row.windowStart ≤ c.now ∧ c.now < res.row.windowStart + w) (hnumber : 1 ≤ res.row.requestCount)
    (hupdated : res.row.updatedAt = c.now)
    (hlast : ∀ e ∈ l, e.time ≤ c.now ∧
      (e.start = res.row.windowStart ∧ e.number < res.row.requestCount ∨ e.start + w ≤ res.row.windowStart)) :
    Counts w c.now (l ++ [(c, res)]) (some res.row) := by
  have hmem : ∀ {e : Counted}, e ∈ l ++ [(c, res)] → e ∈ l ∨ e = (c, res) := by simp
  constructor
  case windowed => exact h.windowed.append hinside fun e he => (hlast e he).2.imp_left And.left
  case numbered =>
    intro e he
    rcases hmem he with he | rfl
    · exact h.numbered e he
    · exact hnumber
  case once =>
    rw [List.map_append, List.map_singleton]
    refine h.once.append (List.nodup_singleton _) ?_
    rw [List.disjoint_singleton]
    intro hin
    obtain ⟨e, he, heq⟩ := List.mem_map.mp hin
    obtain ⟨hstart, hnum⟩ := Prod.mk.inj heq
    rcases (hlast e he).2 with ⟨-, hlt⟩ | hbefore
    · exact absurd hnum hlt.ne
    · have hsame : e.start = res.row.windowStart := hstart
      have := h.windowed.inside e he
      omega
  case recent =>
    intro r hr
    rw [← Option.some.inj hr, hupdated]
    exact ⟨hinside.1, le_rfl⟩
  case current =>
    intro r hr e he
    rw [← Option.some.inj hr, hupdated]
    rcases hmem he with he | rfl
    · obtain ⟨htime, hwindow⟩ := hlast e he
      exact ⟨htime, hwindow.imp (fun hsame => ⟨hsame.1, hsame.2.le⟩) id⟩
    · exact ⟨le_rfl, .inl ⟨rfl, le_rfl⟩⟩
  case gone => exact fun hnone => absurd hnone (by simp)

/-- A first call of a window: every window before has run out. -/
theorem opened {c : CheckCall} {res : CheckResult} (hw : 0 < w) (h : Counts w c.now l row)
    (hrow : res.row = ⟨c.now, 1, c.now⟩) (hout : ∀ r ∈ row, r.windowStart + w ≤ c.now) :
    Counts w c.now (l ++ [(c, res)]) (some res.row) := by
  have hpast : ∀ e ∈ l, e.start + w ≤ c.now := by
    intro e he
    cases hr : row with
    | none => exact h.gone hr e he
    | some r =>
      have hr' := hout r hr
      rcases (h.current r hr e he).2 with ⟨hsame, -⟩ | hbefore
      · rw [hsame]
        exact hr'
      · omega
  apply h.append
  · rw [hrow]
    exact ⟨le_rfl, lt_add_of_pos_right c.now hw⟩
  · rw [hrow]
  · rw [hrow]
  · intro e he
    rw [hrow]
    exact ⟨(h.windowed.inside e he).2.le.trans (hpast e he), .inr (hpast e he)⟩

/-- One more call in the window of the row. -/
theorem counted {c : CheckCall} {res : CheckResult} {r : RateLimitRow} (h : Counts w c.now l (some r))
    (hin : c.now < r.windowStart + w) (hrow : res.row = ⟨r.windowStart, r.requestCount + 1, c.now⟩) :
    Counts w c.now (l ++ [(c, res)]) (some res.row) := by
  have hrecent := h.recent r rfl
  apply h.append
  · rw [hrow]
    exact ⟨hrecent.1.trans hrecent.2, hin⟩
  · rw [hrow]
    exact Nat.le_add_left 1 _
  · rw [hrow]
  · intro e he
    obtain ⟨htime, hwindow⟩ := h.current r rfl e he
    rw [hrow]
    exact ⟨htime.trans hrecent.2, hwindow.imp (fun hsame => ⟨hsame.1, Nat.lt_succ_of_le hsame.2⟩) id⟩

/-- A call, of the key or of another one. -/
theorem call {g : Settings} {c : CheckCall} {res : CheckResult} {t t' : AuthRateLimits} {k : String × String}
    (hpos : 0 < w) (hw : w ≤ g.authRateLimitRetentionHours * hour) (h : Counts w c.now l (t.get? k))
    (hwindow : c.key g = k → c.windowSeconds * second = w) (hcheck : checkAuthRateLimit g c t = .ok (res, t')) :
    Counts w c.now (if c.key g = k then l ++ [(c, res)] else l) (t'.get? k) := by
  obtain ⟨hrow, -, rfl⟩ := check_ok hcheck
  have hclean := h.cleanup hw
  rw [Dict.get?_set]
  split_ifs with hk hk' hk'
  · rw [hk] at hrow
    rcases countedRow_ok hrow with ⟨hnew, hout⟩ | ⟨r, hr, hin, hnext⟩
    · rw [hwindow hk] at hout
      exact hclean.opened hpos hnew hout
    · rw [hwindow hk] at hin
      rw [hr] at hclean
      exact hclean.counted hin hnext
  · exact absurd hk.symm hk'
  · exact absurd hk'.symm hk
  · exact hclean

end Counts

/-! ### Runs -/

/-- The counted calls of a key. -/
def countedAt (g : Settings) (k : String × String) (log : List Counted) : List Counted :=
  log.filter fun e => e.1.key g = k

/-- The windows of a key after any run at non-decreasing times. -/
theorem run_counts {g : Settings} {k : String × String} {w : ℤ} {log : List Counted} {t : AuthRateLimits}
    (hpos : 0 < w) (hw : w ≤ g.authRateLimitRetentionHours * hour)
    (h : Run (checkAuthRateLimit g) Dict.empty log t) (htimes : (log.map Counted.time).Pairwise (· ≤ ·))
    (hwindow : ∀ e ∈ log, e.1.key g = k → e.1.windowSeconds * second = w) {T : ℤ} (hT : ∀ e ∈ log, e.time ≤ T) :
    Counts w T (countedAt g k log) (t.get? k) := by
  induction h generalizing T with
  | start => exact Counts.start w T
  | @done log t c res t' _ hcheck ih =>
    rw [List.map_append, List.pairwise_append] at htimes
    have hbefore : ∀ e ∈ log, Counted.time e ≤ c.now := fun e he =>
      htimes.2.2 (Counted.time e) (List.mem_map.mpr ⟨e, he, rfl⟩) c.now (by simp [Counted.time])
    have hcounts := ih htimes.1 (fun e he => hwindow e (List.mem_append_left _ he)) hbefore
    have hnext := hcounts.call hpos hw (hwindow (c, res) (by simp)) hcheck
    have hlog : countedAt g k (log ++ [(c, res)]) =
        if c.key g = k then countedAt g k log ++ [(c, res)] else countedAt g k log := by
      unfold countedAt
      rw [List.filter_append]
      split_ifs with hk
      · rw [List.filter_cons_of_pos (by simpa using hk), List.filter_nil]
      · rw [List.filter_cons_of_neg (by simpa using hk), List.filter_nil, List.append_nil]
    rw [hlog]
    exact hnext.mono (hT (c, res) (by simp))
  | refused _ _ ih => exact ih htimes hwindow hT

/-- A logged call was allowed exactly if its number is within its limit. -/
theorem allowed_iff {g : Settings} {log : List Counted} {s t : AuthRateLimits} (h : Run (checkAuthRateLimit g) s log t)
    {e : Counted} (he : e ∈ log) : e.allowed = true ↔ e.number ≤ e.1.limit := by
  obtain ⟨-, -, x, y, -, -, hcheck, -⟩ := h.split he
  rw [Counted.allowed, Counted.number, (check_ok hcheck).2.1]
  split_ifs with hlt
  · simpa using hlt
  · simpa using hlt

/-- Of the calls in one window, at most `limit` are allowed. -/
theorem Counts.allowed_le {w T : ℤ} {l : List Counted} {row : Option RateLimitRow} (h : Counts w T l row) {limit : ℕ}
    (hlimit : ∀ e ∈ l, e.allowed = true → e.number ≤ limit) (s : ℤ) :
    ((l.filter Counted.allowed).countP fun e => e.start = s) ≤ limit := by
  have hnodup : ((l.filter fun e => e.start = s).map Counted.number).Nodup := by
    apply List.Nodup.of_map fun n => (s, n)
    have hsub : ((l.filter fun e => e.start = s).map fun e => (e.start, e.number)).Nodup :=
      h.once.sublist (List.filter_sublist.map _)
    rw [List.map_map]
    convert hsub using 1
    apply List.map_congr_left
    intro e he
    have hs : e.start = s := by simpa using (List.mem_filter.mp he).2
    rw [Function.comp, hs]
  have hle := countP_number_le (fun e he => h.numbered e (List.mem_filter.mp he).1) hnodup limit
  refine le_trans ?_ hle
  rw [List.countP_filter, List.countP_filter]
  apply List.countP_mono_left
  intro e he hboth
  simp only [Bool.and_eq_true, decide_eq_true_eq] at hboth ⊢
  exact ⟨hlimit e he hboth.2, hboth.1⟩

/-- A call that finds no row of its key, or one whose window has run out, is allowed. -/
theorem allowed_after_window {g : Settings} {c : CheckCall} {t : AuthRateLimits} (hbucket : c.bucket ≠ "")
    (hlimit : 1 ≤ c.limit) (hout : ∀ r, t.get? (c.key g) = some r → r.windowStart + c.windowSeconds * second ≤ c.now) :
    ∃ res t', checkAuthRateLimit g c t = .ok (res, t') ∧ Counted.allowed (c, res) = true := by
  have hrow : countedRow c ((maybeCleanupAuthRateLimits g c t).get? (c.key g)) = .ok ⟨c.now, 1, c.now⟩ := by
    rcases cleanup_get? g c t (c.key g) with hkept | ⟨hdeleted, -⟩
    · rw [hkept]
      cases hget : t.get? (c.key g) with
      | none => rfl
      | some r =>
        have := hout r hget
        rw [countedRow, if_pos (by omega)]
    · rw [hdeleted]
      rfl
  have hhash : hashToken g c.bucket = .ok (g.sha256 c.bucket) := if_neg hbucket
  refine ⟨⟨⟨c.now, 1, c.now⟩, none⟩, (maybeCleanupAuthRateLimits g c t).set (c.key g) ⟨c.now, 1, c.now⟩, ?_, rfl⟩
  have hnot : ¬ c.limit < 1 := by omega
  unfold checkAuthRateLimit
  rw [hhash, bind_eq_ok]
  refine ⟨_, rfl, bind_eq_ok.mpr ⟨_, hrow, ?_⟩⟩
  simp only [if_neg hnot]
  rfl

/-- **The bounds of the rate limit.** In every run at non-decreasing times,
among calls of any other keys and whatever is cleaned up, a stretch of time as
long as the window holds at most `2 * limit` allowed calls of an endpoint and
bucket, and a window at most `limit`. A call a window after the stored start
is allowed. -/
theorem rate_limit_bounds {g : Settings} {endpoint bucket : String} {limit windowSeconds : ℕ} (hbucket : bucket ≠ "")
    (hlimit : 1 ≤ limit) (hwindow : 0 < windowSeconds)
    (hretention : windowSeconds * second ≤ g.authRateLimitRetentionHours * hour) :
    (∀ (log : List Counted) (t : AuthRateLimits), Run (checkAuthRateLimit g) Dict.empty log t →
      (log.map Counted.time).Pairwise (· ≤ ·) →
      (∀ e ∈ log, e.1.key g = (endpoint, g.sha256 bucket) → e.1.limit = limit ∧ e.1.windowSeconds = windowSeconds) →
      (∀ a, ((countedAt g (endpoint, g.sha256 bucket) log).countP fun e : Counted =>
        e.allowed && decide (a ≤ e.time ∧ e.time ≤ a + windowSeconds * second)) ≤ 2 * limit) ∧
      ∀ s, ((countedAt g (endpoint, g.sha256 bucket) log).countP fun e : Counted =>
        e.allowed && decide (e.start = s)) ≤ limit) ∧
    ∀ (c : CheckCall) (t : AuthRateLimits), c.endpoint = endpoint → c.bucket = bucket → c.limit = limit →
      c.windowSeconds = windowSeconds →
      (∀ r, t.get? (endpoint, g.sha256 bucket) = some r → r.windowStart + windowSeconds * second ≤ c.now) →
      ∃ res t', checkAuthRateLimit g c t = .ok (res, t') ∧ Counted.allowed (c, res) = true := by
  constructor
  · intro log t hrun htimes hsame
    have hpos : 0 < (windowSeconds : ℤ) * second := by
      unfold second
      omega
    obtain ⟨T, hT⟩ : ∃ T, ∀ e ∈ log, Counted.time e ≤ T := by
      obtain ⟨T, hT⟩ := (log.map Counted.time).toFinset.exists_le
      exact ⟨T, fun e he => hT _ (List.mem_toFinset.mpr (List.mem_map.mpr ⟨e, he, rfl⟩))⟩
    have hcounts := run_counts (k := (endpoint, g.sha256 bucket)) hpos hretention hrun htimes
      (fun e he hk => by rw [(hsame e he hk).2]) hT
    have hnumber : ∀ e ∈ countedAt g (endpoint, g.sha256 bucket) log, e.allowed = true → e.number ≤ limit := by
      intro e he hallowed
      obtain ⟨hlog, hk⟩ := List.mem_filter.mp he
      rw [← (hsame e hlog (by simpa using hk)).1]
      exact (allowed_iff hrun hlog).mp hallowed
    have hwindow := hcounts.allowed_le hnumber
    constructor
    · intro a
      have hstretch := (hcounts.windowed.filter Counted.allowed).countP_interval_le hwindow a
      rw [List.countP_filter] at hstretch
      simpa only [Bool.and_comm] using hstretch
    · intro s
      have hle := hwindow s
      rw [List.countP_filter] at hle
      simpa only [Bool.and_comm] using hle
  · rintro c t rfl rfl rfl rfl hout
    exact allowed_after_window hbucket hlimit hout

def sampleSettings : Settings := ⟨id, 48⟩

/-- Three calls in a window of a minute and at its end, with limit 1. -/
def sampleCalls : List CheckCall :=
  [0, 59, 60].map fun seconds : ℤ => ⟨"/auth/guest", "10.0.0.1", 1, 60, seconds * second, 1⟩

/-- The calls of the closed minute, of which two are allowed. -/
theorem sample_rate_limit :
    (execute (checkAuthRateLimit sampleSettings) Dict.empty sampleCalls).1.map Counted.allowed = [true, false, true] ∧
      ((countedAt sampleSettings ("/auth/guest", "10.0.0.1")
        (execute (checkAuthRateLimit sampleSettings) Dict.empty sampleCalls).1).countP fun e : Counted =>
          e.allowed && decide (0 ≤ e.time ∧ e.time ≤ 0 + 60 * second)) ≤ 2 * 1 := by
  have hbounds := @rate_limit_bounds sampleSettings "/auth/guest" "10.0.0.1" 1 60 (by decide) le_rfl (by decide) (by decide)
  exact ⟨by decide, (hbounds.1 _ _ (run_execute _ sampleCalls Dict.empty) (by decide) (by decide)).1 0⟩

end RateLimit
end FuelNear

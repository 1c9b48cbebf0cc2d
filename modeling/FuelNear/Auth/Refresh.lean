/-
# A refused refresh

`POST /auth/refresh` runs `refresh_user_session` in a `with conn:` of its own.
For an account that is inactive or unverified, `refresh_user_session` updates
the session to revoked and then raises; the exception leaves the `with`, and
what it did is rolled back. So nothing that is refused is committed
(`refresh_error_commits_nothing`): the answers ACCOUNT_INACTIVE and
EMAIL_NOT_VERIFIED come with a session that stays as it was, and is rotated
as soon as the account is in order again.

Key definitions: `refreshUserSession`, `refreshLoginSession`, `Refusable`, `RefusalRevokes`.
Key theorems: `refresh_error_commits_nothing`, `refresh_refuses`, `refusal_revokes_iff`.
-/
import FuelNear.Auth.Sessions
import FuelNear.Connection
import Mathlib.Tactic

namespace FuelNear
namespace Auth

open Sql Connection

/-! ### The endpoint -/

/-- A request: the token, the tokens it would generate, the two clocks, what
the steps raise, and the id of its log entry. -/
structure RefreshCall where
  token : String
  tokens : TokenPair
  now : ℤ
  transactionTime : ℤ
  fault : ℕ → Option String
  requestId : String

/-- The database or the network raises nothing of the endpoint's own. -/
def RefreshCall.faults (c : RefreshCall) (n : ℕ) : Option AuthError := (c.fault n).map .other

/-- `session_id`, and the new tokens. -/
structure Refreshed where
  sessionId : ℤ
  tokens : TokenPair
  accessExpiresAt : ℤ
  refreshExpiresAt : ℤ
  deriving DecidableEq

/-- What the verdict on the session makes the transaction do. -/
def settle (g : Settings) (c : RefreshCall) (hash : String) : Verdict → Script AuthError Store Refreshed
  | .refused e => throw e
  | .revokes x e => do
    statement c.faults fun _ s => .ok ((), revokeSession x.id c.transactionTime s)
    throw e
  | .rotates x => do
    statement c.faults fun _ s => (rotateSession g x.id hash c.tokens c.now s).map ((), ·)
    return ⟨x.id, c.tokens, c.now + g.accessTokenTtl, c.now + g.refreshTokenTtl⟩

/-- `refresh_user_session`. -/
def refreshUserSession (g : Settings) (c : RefreshCall) : Script AuthError Store Refreshed := do
  let hash ← compute c.faults (hashToken g c.token)
  let session ← statement c.faults fun _ s => .ok (selectSession hash s, s)
  settle g c hash (judge c.now session)

/-- The `except` clauses of the endpoint. -/
def refreshError (c : RefreshCall) : AuthError → AuthError
  | .api status code message => .api status code message
  | .http status detail => .http status detail
  | .valueError _ => .http 400 ("Invalid refresh request. request_id=" ++ c.requestId)
  | .database _ => .http 500 ("Refresh failed. request_id=" ++ c.requestId)
  | .other _ => .http 500 ("Refresh failed. request_id=" ++ c.requestId)

/-- `refresh_login_session`. -/
def refreshLoginSession (g : Settings) (c : RefreshCall) : Script AuthError Store Refreshed := fun s =>
  match closing (within c.faults (refreshUserSession g c)) s with
  | .ok a t => .ok a t
  | .error e t => .error (refreshError c e) t

/-- The two answers. -/
def isRefusal (e : AuthError) : Bool := e = accountInactive || e = emailNotVerified

/-! ### Nothing refused is committed -/

variable {g : Settings} {c : RefreshCall} {db : Store} {e : AuthError} {t : Session Store}

theorem settle_tentative (g : Settings) (c : RefreshCall) (hash : String) :
    ∀ v, Tentative c.faults (settle g c hash v)
  | .refused _ => fun _ => rfl
  | .revokes _ _ => (Tentative.statement _).bind fun _ _ => rfl
  | .rotates _ => (Tentative.statement _).bind fun _ => Tentative.pure _

theorem refreshUserSession_tentative (g : Settings) (c : RefreshCall) : Tentative c.faults (refreshUserSession g c) := by
  refine (Tentative.compute _).bind fun hash => ?_
  refine (Tentative.statement _).bind fun session => ?_
  exact settle_tentative g c hash _

/-- What is refused, for whatever reason, commits nothing. -/
theorem refresh_error_commits_nothing (h : refreshLoginSession g c (.opened db) = .error e t) : t.committed = db := by
  have hends := within_atomic (refreshUserSession_tentative g c) (.opened db)
  unfold refreshLoginSession closing at h
  cases hrun : within c.faults (refreshUserSession g c) (.opened db) with
  | ok a u =>
    rw [hrun] at h
    exact absurd h (by simp)
  | error e' u =>
    rw [hrun] at h hends
    obtain ⟨-, rfl⟩ := EStateM.Result.error.inj h
    exact hends

/-! ### When an account is refused -/

/-- The request reaches an UPDATE that revokes: no step to its rollback fails,
and the token is of an unrevoked, unexpired session whose account is not in
order. -/
structure Refusable (g : Settings) (c : RefreshCall) (db : Store) : Prop where
  nonempty : c.token ≠ ""
  quiet : ∀ n < 4, c.fault n = none
  refused : ∃ v, selectSession (g.sha256 c.token) db = some v ∧ v.session.revokedAt = none ∧
    c.now < v.session.expiresAt ∧
    (v.isActive = false ∨ v.isEmailVerified = false ∧ v.hasVerifiedSocialProvider = false)

/-- What the claim says of a request: refused so, its session is revoked in
what is committed. -/
def RefusalRevokes (g : Settings) (c : RefreshCall) (db : Store) : Prop :=
  ∀ e t, refreshLoginSession g c (.opened db) = .error e t → isRefusal e = true →
    ∀ x ∈ db.sessions, x.refreshTokenHash = g.sha256 c.token →
      ∃ y ∈ t.committed.sessions, y.id = x.id ∧ y.revokedAt ≠ none

/-- When an account is refused, and its session updated. -/
theorem judge_revokes_iff {v : SessionView} {now : ℤ} : (∃ e, judge now (some v) = .revokes v.session e) ↔
    v.session.revokedAt = none ∧ now < v.session.expiresAt ∧
      (v.isActive = false ∨ v.isEmailVerified = false ∧ v.hasVerifiedSocialProvider = false) := by
  unfold judge
  dsimp only
  split_ifs with hrevoked hexpired hactive hverified
  · simp [Option.isSome_iff_ne_none.mp hrevoked]
  · simp [not_lt.mpr hexpired]
  · simp_all
  · simp_all
  · simp_all

/-- An unrevoked, unexpired session is updated for nothing else. -/
theorem judge_refused {session : Option SessionView} {now : ℤ} (h : judge now session = .refused e) :
    isRefusal e = false := by
  unfold judge at h
  cases session with
  | none => rw [← Verdict.refused.inj h]; decide
  | some v =>
    dsimp only at h
    split_ifs at h
    · rw [← Verdict.refused.inj h]; decide
    · rw [← Verdict.refused.inj h]; decide

theorem rotateSession_error {id now : ℤ} {hash : String} {tokens : TokenPair}
    (h : rotateSession g id hash tokens now db = .error e) : isRefusal e = false := by
  unfold rotateSession at h
  split at h
  · rw [← Except.error.inj h]; decide
  · split_ifs at h
    rw [← Except.error.inj h]; decide

/-- A fault of the server is none of the two answers. -/
theorem faults_isRefusal {n : ℕ} (h : c.faults n = some e) : isRefusal e = false := by
  obtain ⟨name, -, rfl⟩ := Option.map_eq_some_iff.mp h
  rfl

theorem fault_none {n : ℕ} (h : c.faults n = none) : c.fault n = none := Option.map_eq_none_iff.mp h

/-- The `except` clauses make neither of the two answers of another exception. -/
theorem refreshError_isRefusal (h : isRefusal (refreshError c e) = true) : refreshError c e = e := by
  cases e with
  | api | http => rfl
  | valueError | database | other => simp [refreshError, isRefusal, accountInactive, emailNotVerified] at h

theorem hashToken_error {token : String} (h : hashToken g token = .error e) : isRefusal e = false := by
  unfold hashToken at h
  split_ifs at h
  rw [← Except.error.inj h]; rfl

theorem hashToken_ok {token hash : String} (h : hashToken g token = .ok hash) : token ≠ "" ∧ hash = g.sha256 token := by
  unfold hashToken at h
  split_ifs at h with htoken
  exact ⟨htoken, (Except.ok.inj h).symm⟩

/-- Only the verdict to revoke ends in one of the two answers, after its UPDATE. -/
theorem settle_refusal {hash : String} {session : Option SessionView} {s u : Session Store}
    (h : settle g c hash (judge c.now session) s = .error e u) (he : isRefusal e = true) :
    (∃ x, judge c.now session = .revokes x e) ∧ c.faults s.steps = none ∧ u.steps = s.steps + 1 := by
  cases hv : judge c.now session with
  | refused e' =>
    rw [hv] at h
    obtain ⟨rfl, -⟩ := EStateM.Result.error.inj (show EStateM.Result.error e' s = .error e u from h)
    simp [judge_refused hv] at he
  | revokes x e' =>
    rw [hv] at h
    obtain hupdate | ⟨_, v, hupdate, hthrow⟩ := bind_error h
    · obtain hfault | ⟨-, hn⟩ := statement_error hupdate
      · simp [faults_isRefusal hfault] at he
      · exact absurd hn (by simp)
    · obtain ⟨hquiet, -, hsteps⟩ := statement_ok hupdate
      obtain ⟨rfl, rfl⟩ := EStateM.Result.error.inj (show EStateM.Result.error e' v = .error e u from hthrow)
      exact ⟨⟨x, rfl⟩, hquiet, hsteps⟩
  | rotates x =>
    rw [hv] at h
    obtain hupdate | ⟨_, v, -, hpure⟩ := bind_error h
    · obtain hfault | ⟨-, hn⟩ := statement_error hupdate
      · simp [faults_isRefusal hfault] at he
      · cases hr : rotateSession g x.id hash c.tokens c.now s.working with
        | ok d =>
          rw [hr] at hn
          exact absurd hn (by simp [Except.map])
        | error e' =>
          rw [hr] at hn
          rw [← Except.error.inj hn] at he
          simp [rotateSession_error hr] at he
    · exact absurd (show EStateM.Result.ok _ v = .error e u from hpure) (by simp)

/-- One of the two answers is that of a session that was updated. -/
theorem refusable_of_refusal (h : refreshLoginSession g c (.opened db) = .error e t) (he : isRefusal e = true) :
    Refusable g c db := by
  have hclosing : closing (within c.faults (refreshUserSession g c)) (.opened db) = .error e t := by
    unfold refreshLoginSession at h
    split at h
    · exact absurd h (by simp)
    · next e' u hu =>
      obtain ⟨rfl, rfl⟩ := EStateM.Result.error.inj h
      rw [refreshError_isRefusal he]
      exact hu
  obtain ⟨s₀, hwithin⟩ := closing_error hclosing
  obtain ⟨n, hn⟩ | ⟨s₁, hbody, hq₃⟩ := within_error hwithin
  · simp [faults_isRefusal hn] at he
  obtain hhash | ⟨hash, s₂, hhash, hrest⟩ := bind_error hbody
  · obtain hn | htoken := compute_error hhash
    · simp [faults_isRefusal hn] at he
    · simp [hashToken_error htoken] at he
  obtain ⟨hq₀, htoken, hw, hsteps₂⟩ := compute_ok hhash
  obtain ⟨hnonempty, rfl⟩ := hashToken_ok htoken
  obtain hselect | ⟨session, s₃, hselect, hsettle⟩ := bind_error hrest
  · obtain hn | ⟨-, hn⟩ := statement_error hselect
    · simp [faults_isRefusal hn] at he
    · exact absurd hn (by simp)
  obtain ⟨hq₁, hrow, hsteps₃⟩ := statement_ok hselect
  obtain ⟨⟨x, hx⟩, hq₂, hsteps₁⟩ := settle_refusal hsettle he
  have hsession : selectSession (g.sha256 c.token) db = session := by
    rw [hw] at hrow
    exact (Prod.mk.inj (Except.ok.inj hrow)).1
  obtain ⟨v, rfl⟩ : ∃ v, session = some v := by
    cases session with
    | none => exact absurd hx (by simp [judge])
    | some v => exact ⟨v, rfl⟩
  obtain rfl := (judge_revokes hx).1
  refine ⟨hnonempty, fun n hn => fault_none ?_, v, hsession, judge_revokes_iff.mp ⟨e, hx⟩⟩
  have h0 : (Session.opened db).steps = 0 := rfl
  rw [h0] at hq₀ hsteps₂
  rw [hsteps₂] at hq₁ hsteps₃
  rw [hsteps₃] at hq₂ hsteps₁
  rw [hsteps₁] at hq₃
  interval_cases n <;> assumption

/-- Such a session is updated, and refused, and the UPDATE undone. -/
theorem refresh_refuses (h : Refusable g c db) :
    ∃ e t, refreshLoginSession g c (.opened db) = .error e t ∧ isRefusal e = true := by
  obtain ⟨v, hv, hlive⟩ := h.refused
  obtain ⟨e, he⟩ := judge_revokes_iff.mpr hlive
  have hhash : hashToken g c.token = .ok (g.sha256 c.token) := if_neg h.nonempty
  have h0 := h.quiet 0 (by omega)
  have h1 := h.quiet 1 (by omega)
  have h2 := h.quiet 2 (by omega)
  have h3 := h.quiet 3 (by omega)
  have hreason := (judge_revokes he).2.2
  have hkept : refreshError c e = e := by rcases hreason with rfl | rfl <;> rfl
  have hthrow : ∀ s, (throw e : Script AuthError Store Refreshed) s = .error e s := fun _ => rfl
  refine ⟨e, ⟨db, db, 4⟩, ?_, by rcases hreason with rfl | rfl <;> rfl⟩
  simp [refreshLoginSession, closing, within, refreshUserSession, bind, EStateM.bind, compute, statement, step, rollback,
    settle, RefreshCall.faults, Session.opened, Except.map, hthrow, hhash, hv, he, h0, h1, h2, h3, hkept]

/-- **A refused refresh revokes nothing.** The endpoint does what the claim says
exactly where it does not refuse: at every refusal the session stays unrevoked. -/
theorem refusal_revokes_iff (g : Settings) (c : RefreshCall) (db : Store) :
    RefusalRevokes g c db ↔ ¬Refusable g c db := by
  constructor
  · intro hclaim hrefusable
    obtain ⟨e, t, hrun, he⟩ := refresh_refuses hrefusable
    obtain ⟨v, hv, hlive, -⟩ := hrefusable.refused
    obtain ⟨hmem, hhash⟩ := selectSession_spec hv
    obtain ⟨y, hy, hid, hrevoked⟩ := hclaim e t hrun he v.session hmem hhash
    rw [refresh_error_commits_nothing hrun] at hy
    exact hrevoked (session_unique hy hmem hid ▸ hlive)
  · intro hnot e t hrun he
    exact absurd (refusable_of_refusal hrun he) hnot

def sampleRefresh : RefreshCall := ⟨"r0", ⟨"a1", "r1"⟩, 0, 0, fun _ => none, "1"⟩

/-- A session of an inactive user: refused, it is as it was, and once the user
is active again the token is accepted. -/
theorem refused_session_survives :
    ¬RefusalRevokes sampleSettings sampleRefresh (sampleTables false (some (sampleSession ⟨"a0", "r0"⟩))) ∧
      ∃ r t, refreshLoginSession sampleSettings sampleRefresh
        (.opened (sampleTables true (some (sampleSession ⟨"a0", "r0"⟩)))) = .ok r t := by
  constructor
  · intro hclaim
    have hrow : selectSession "#r0" (sampleTables false (some (sampleSession ⟨"a0", "r0"⟩))) = some (sampleView false) := by
      decide +kernel
    obtain ⟨e, t, hrun, he⟩ := refresh_refuses (g := sampleSettings) (c := sampleRefresh)
      ⟨by decide, fun _ _ => rfl, sampleView false, hrow, rfl, by decide, .inl rfl⟩
    obtain ⟨y, hy, -, hrevoked⟩ := hclaim e t hrun he (sampleSession ⟨"a0", "r0"⟩) (List.mem_singleton.mpr rfl) rfl
    rw [refresh_error_commits_nothing hrun] at hy
    rw [List.mem_singleton.mp hy] at hrevoked
    exact hrevoked rfl
  · have hok : (match refreshLoginSession sampleSettings sampleRefresh
        (.opened (sampleTables true (some (sampleSession ⟨"a0", "r0"⟩)))) with
      | .ok _ _ => true
      | .error _ _ => false) = true := by decide +kernel
    split at hok
    · next r t hrun => exact ⟨r, t, hrun⟩
    · exact absurd hok (by decide)

end Auth
end FuelNear

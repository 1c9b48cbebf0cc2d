/-
# Rotation of session tokens

`create_user_session`, `refresh_user_session`, `revoke_current_session` and
`get_current_user_from_token` of any number of clients, as a
`Locking.Protocol`. The lock is the row of `user_sessions` that a refresh
selects FOR UPDATE or a logout updates. A refresh that is refused raises, so
its transaction rolls back: that worker leaves. The rows of `users` and
`user_auth_providers` change as they may.

The history records what was committed: the tokens issued for a session, and
the hashes that calls were let in with. The tokens are random: `Fresh` says
that a commit issues none whose hash was issued before.

Key definitions: `SessionEvent`, `Server`, `Worker`, `protocol`, `Fresh`, `Rotates`, `Consistent`.
Key theorems: `commit_effect`, `Consistent.append`, `session_rotation`.
-/
import FuelNear.Auth.Sessions
import FuelNear.Locking
import Mathlib.Tactic

namespace FuelNear
namespace Auth

open Sql

/-! ### The history -/

def UserSession.hashes (x : UserSession) : HashPair := ⟨x.accessTokenHash, x.refreshTokenHash⟩

/-- A committed call. `presented` is the hash of the token it came with. -/
inductive SessionEvent where
  | created (id : ℤ) (new : HashPair)
  | refreshed (id : ℤ) (presented : String) (old new : HashPair)
  | revoked (id : ℤ) (presented : String)
  | authenticated (presented : String)
  deriving DecidableEq

/-- The token that was accepted. -/
def SessionEvent.accepts : SessionEvent → Option String
  | .created _ _ => none
  | .refreshed _ presented _ _ => some presented
  | .revoked _ presented => some presented
  | .authenticated presented => some presented

/-- The token that a refresh accepted. -/
def SessionEvent.refreshes : SessionEvent → Option String
  | .refreshed _ presented _ _ => some presented
  | _ => none

theorem SessionEvent.refreshes_eq {e : SessionEvent} {k : String} (h : e.refreshes = some k) :
    ∃ id old new, e = .refreshed id k old new := by
  cases e with
  | refreshed id presented old new => exact ⟨id, old, new, by rw [Option.some.inj h]⟩
  | created id new => exact absurd h (by simp [SessionEvent.refreshes])
  | revoked id presented => exact absurd h (by simp [SessionEvent.refreshes])
  | authenticated presented => exact absurd h (by simp [SessionEvent.refreshes])

/-- The tokens that were issued, with their session. -/
def SessionEvent.issues : SessionEvent → List (ℤ × HashPair)
  | .created id new => [(id, new)]
  | .refreshed id _ _ new => [(id, new)]
  | _ => []

def HashPair.toList (p : HashPair) : List String := [p.access, p.refresh]

def issued (history : List SessionEvent) : List (ℤ × HashPair) := history.flatMap SessionEvent.issues

def issuedHashes (history : List SessionEvent) : List String := (issued history).flatMap fun i => i.2.toList

/-- What the claim of rotation says of a history. -/
structure Rotates (history : List SessionEvent) : Prop where
  /-- A refresh token is accepted by at most one refresh. -/
  once : (history.filterMap SessionEvent.refreshes).Nodup
  /-- After a refresh the old tokens are accepted by nothing. -/
  spent : history.Pairwise fun e f => ∀ id presented old new, e = .refreshed id presented old new →
    ∀ k ∈ old.toList, f.accepts ≠ some k
  /-- After a revocation no token of the session is accepted, whenever it was issued. -/
  revoked : history.Pairwise fun e f => ∀ id presented, e = .revoked id presented →
    ∀ p, (id, p) ∈ issued history → ∀ k ∈ p.toList, f.accepts ≠ some k

/-! ### The protocol -/

/-- The tables, and what was committed. -/
structure Server where
  tables : Store
  history : List SessionEvent

/-- A call, and how far it has come. -/
inductive Worker where
  | create (c : NewSession)
  | refresh (token : String) (tokens : TokenPair) (now : ℤ)
  | rotating (presented : String) (v : SessionView) (tokens : TokenPair) (now : ℤ)
  | revoke (authorization : Option String) (now : ℤ)
  | revoking (presented : String) (x : UserSession) (now : ℤ)
  | authenticate (authorization : Option String) (now : ℤ)
  | accounts (users : Table UserRow UserRow.keys) (providers : Table AuthProvider AuthProvider.keys)

/-- The rows that a worker has locked. -/
def Worker.held : Worker → Set ℤ
  | .rotating _ v _ _ => {v.session.id}
  | .revoking _ x _ => {x.id}
  | _ => ∅

def Worker.starts : Worker → Prop
  | .rotating _ _ _ _ => False
  | .revoking _ _ _ => False
  | _ => True

/-- The tokens that a commit issues. -/
def Worker.tokens : Worker → Option TokenPair
  | .create c => some c.tokens
  | .rotating _ _ tokens _ => some tokens
  | _ => none

section

variable (g : Settings)

/-- One statement. -/
inductive Move (s : Server) : Worker → Worker → Prop where
  /-- `SELECT … FOR UPDATE OF s`, and no check fails -/
  | select {token tokens now hash v} (nonempty : hashToken g token = .ok hash)
      (row : selectSession hash s.tables = some v) (goes : judge now (some v) = .rotates v.session) :
      Move s (.refresh token tokens now) (.rotating hash v tokens now)
  /-- `UPDATE user_sessions SET revoked_at = NOW() WHERE access_token_hash = …` -/
  | reach {authorization now hash x} (bearer : bearerHash g authorization = .ok hash)
      (row : sessionOfAccessToken hash s.tables = some x) :
      Move s (.revoke authorization now) (.revoking hash x now)

/-- The end of a call that succeeds. -/
inductive Commit (s : Server) : Worker → Server → Prop where
  | create {c t} (insert : insertSession g c s.tables = .ok t) :
      Commit s (.create c) ⟨t, s.history ++ [.created c.id (c.tokens.hashes g)]⟩
  | rotate {hash v tokens now t} (update : rotateSession g v.session.id hash tokens now s.tables = .ok t) :
      Commit s (.rotating hash v tokens now)
        ⟨t, s.history ++ [.refreshed v.session.id hash v.session.hashes (tokens.hashes g)]⟩
  | revoke {hash x now id t} (update : revokeByAccessToken hash now s.tables = .ok (id, t)) :
      Commit s (.revoking hash x now) ⟨t, s.history ++ [.revoked id hash]⟩
  | authenticate {authorization now hash u} (bearer : bearerHash g authorization = .ok hash)
      (row : currentUser g authorization now s.tables = .ok u) :
      Commit s (.authenticate authorization now) ⟨s.tables, s.history ++ [.authenticated hash]⟩
  | accounts {users providers} :
      Commit s (.accounts users providers) ⟨{ s.tables with users := users, providers := providers }, s.history⟩

def protocol : Locking.Protocol Server Worker ℤ where
  held := Worker.held
  start := Worker.starts
  move := Move g
  commit := Commit g

/-- The random tokens of a commit are distinct from each other and from all before. -/
def Fresh {ι : Type*} (s : Locking.System Server Worker ι) : Locking.Action Worker ι → Prop
  | .commit _ l => ∀ tokens, l.tokens = some tokens →
      (tokens.hashes g).toList.Nodup ∧ ∀ k ∈ (tokens.hashes g).toList, k ∉ issuedHashes s.store.history
  | _ => True

end

/-- Any accounts, and no session yet. -/
def opening (users : Table UserRow UserRow.keys) (providers : Table AuthProvider AuthProvider.keys) : Server where
  tables := { users := users, providers := providers, sessions := Table.empty }
  history := []

/-! ### What a commit does -/

variable {g : Settings} {s t : Server}

/-- A call that has its row has an unrevoked session with the hash. -/
def Knows (s : Server) : Worker → Prop
  | .rotating hash v _ _ => v.session ∈ s.tables.sessions ∧ v.session.revokedAt = none ∧ v.session.refreshTokenHash = hash
  | .revoking hash x _ => x ∈ s.tables.sessions ∧ x.accessTokenHash = hash ∧ x.revokedAt = none
  | _ => True

/-- What a commit with the event `e` does to the sessions. -/
structure Effect (s t : Server) (e : SessionEvent) : Prop where
  history : t.history = s.history ++ [e]
  /-- It lets in only with a token of an unrevoked session. -/
  live : ∀ k, e.accepts = some k → ∃ x ∈ s.tables.sessions, x.revokedAt = none ∧ k ∈ x.hashes.toList
  /-- A session keeps its tokens, or has those that are issued. -/
  rows : ∀ y ∈ t.tables.sessions,
    (∃ x ∈ s.tables.sessions, x.id = y.id ∧ x.hashes = y.hashes) ∨ (y.id, y.hashes) ∈ e.issues
  /-- A revoked session stays. -/
  kept : ∀ x ∈ s.tables.sessions, x.revokedAt ≠ none → x ∈ t.tables.sessions
  /-- A refresh gives the tokens of its session up. -/
  spent : ∀ id presented old new, e = .refreshed id presented old new → presented = old.refresh ∧
    (∃ x ∈ s.tables.sessions, x.id = id ∧ x.hashes = old) ∧
      ∀ y ∈ t.tables.sessions, y.id = id → y.hashes = new
  /-- A logout revokes its session. -/
  revokes : ∀ id presented, e = .revoked id presented → ∃ y ∈ t.tables.sessions, y.id = id ∧ y.revokedAt ≠ none

/-- The hashes that an event issues. -/
def SessionEvent.news (e : SessionEvent) : List String := e.issues.flatMap fun i => i.2.toList

/-- The history agrees with the tables. -/
structure Consistent (s : Server) : Prop where
  rows : ∀ x ∈ s.tables.sessions, (x.id, x.hashes) ∈ issued s.history
  nodup : (issuedHashes s.history).Nodup
  accepted : ∀ e ∈ s.history, ∀ k, e.accepts = some k → k ∈ issuedHashes s.history
  spent : ∀ id presented old new, .refreshed id presented old new ∈ s.history → presented = old.refresh ∧
    (id, old) ∈ issued s.history ∧ ∀ x ∈ s.tables.sessions, ∀ k ∈ old.toList, k ∉ x.hashes.toList
  revoked : ∀ id presented, .revoked id presented ∈ s.history →
    ∃ x ∈ s.tables.sessions, x.id = id ∧ x.revokedAt ≠ none
  rotates : Rotates s.history

theorem issued_append (history : List SessionEvent) (e : SessionEvent) : issued (history ++ [e]) = issued history ++ e.issues := by
  simp [issued]

theorem issuedHashes_append (history : List SessionEvent) (e : SessionEvent) :
    issuedHashes (history ++ [e]) = issuedHashes history ++ e.news := by
  simp [issuedHashes, issued_append, SessionEvent.news]

theorem mem_issuedHashes {history : List SessionEvent} {i : ℤ × HashPair} {k : String} (hi : i ∈ issued history)
    (hk : k ∈ i.2.toList) : k ∈ issuedHashes history :=
  List.mem_flatMap.mpr ⟨i, hi, hk⟩

theorem mem_news {e : SessionEvent} {i : ℤ × HashPair} {k : String} (hi : i ∈ e.issues) (hk : k ∈ i.2.toList) : k ∈ e.news :=
  List.mem_flatMap.mpr ⟨i, hi, hk⟩

/-- A hash was issued once. -/
theorem Consistent.issued_unique (h : Consistent s) {i j : ℤ × HashPair} {k : String} (hi : i ∈ issued s.history)
    (hj : j ∈ issued s.history) (hki : k ∈ i.2.toList) (hkj : k ∈ j.2.toList) : i = j :=
  Table.nodup_of_flatMap_keys h.nodup hi hj hki hkj

variable {e : SessionEvent}

/-- What is accepted is no token that a refresh gave up. -/
theorem Consistent.accepts_spent (h : Consistent s) (he : Effect s t e) {id : ℤ} {presented : String}
    {old new : HashPair} (hmem : .refreshed id presented old new ∈ s.history) {k : String} (hk : k ∈ old.toList) :
    e.accepts ≠ some k := by
  intro hacc
  obtain ⟨x, hx, -, hkx⟩ := he.live k hacc
  exact (h.spent id presented old new hmem).2.2 x hx k hk hkx

/-- What is accepted is no token of a session that was revoked. -/
theorem Consistent.accepts_revoked (h : Consistent s) (he : Effect s t e) {id : ℤ} {presented : String}
    (hmem : .revoked id presented ∈ s.history) {p : HashPair} (hp : (id, p) ∈ issued s.history) {k : String}
    (hk : k ∈ p.toList) : e.accepts ≠ some k := by
  intro hacc
  obtain ⟨x, hx, hlive, hkx⟩ := he.live k hacc
  obtain ⟨y, hy, hid, hrevoked⟩ := h.revoked id presented hmem
  have hsame : (x.id, x.hashes) = (id, p) := h.issued_unique (h.rows x hx) hp hkx hk
  have hxy : x = y := session_unique hx hy ((Prod.mk.inj hsame).1.trans hid.symm)
  exact hrevoked (hxy ▸ hlive)

/-- What an event accepts was issued before. -/
theorem Consistent.accepts_issued (h : Consistent s) (he : Effect s t e) {k : String} (hk : e.accepts = some k) :
    k ∈ issuedHashes s.history := by
  obtain ⟨x, hx, -, hkx⟩ := he.live k hk
  exact mem_issuedHashes (h.rows x hx) hkx

/-- The history with one more event. -/
theorem Rotates.append (h : Consistent s) (he : Effect s t e) (hfresh : ∀ k ∈ e.news, k ∉ issuedHashes s.history) :
    Rotates (s.history ++ [e]) where
  once := by
    rw [List.filterMap_append, List.nodup_append]
    refine ⟨h.rotates.once, ?_, ?_⟩
    · cases hr : e.refreshes <;> simp [hr]
    · intro a ha b hb hab
      obtain ⟨d, hd, hda⟩ := List.mem_filterMap.mp ha
      obtain ⟨f, hf, hfb⟩ := List.mem_filterMap.mp hb
      obtain ⟨id, old, new, rfl⟩ := SessionEvent.refreshes_eq hda
      obtain ⟨id', old', new', rfl⟩ := SessionEvent.refreshes_eq hfb
      have hold : a ∈ old.toList := by simp [(h.spent id a old new hd).1, HashPair.toList]
      apply h.accepts_spent he hd hold
      rw [← List.mem_singleton.mp hf, SessionEvent.accepts, hab]
  spent := by
    rw [List.pairwise_append]
    refine ⟨h.rotates.spent, List.pairwise_singleton _ _, fun d hd f hf => ?_⟩
    rw [List.mem_singleton.mp hf]
    rintro id presented old new rfl k hk
    exact h.accepts_spent he hd hk
  revoked := by
    rw [List.pairwise_append]
    refine ⟨?_, List.pairwise_singleton _ _, fun d hd f hf => ?_⟩
    · -- a token issued now is none that was accepted before
      refine h.rotates.revoked.imp_of_mem fun {d f} hd hf hdf id presented hid p hp k hk hacc => ?_
      rw [issued_append, List.mem_append] at hp
      rcases hp with hp | hp
      · exact hdf id presented hid p hp k hk hacc
      · exact hfresh k (mem_news hp hk) (h.accepted f hf k hacc)
    · rw [List.mem_singleton.mp hf]
      rintro id presented rfl p hp k hk hacc
      rw [issued_append, List.mem_append] at hp
      rcases hp with hp | hp
      · exact h.accepts_revoked he hd hp hk hacc
      · exact hfresh k (mem_news hp hk) (h.accepts_issued he hacc)

/-- A row of the new tables has its tokens from the new history. -/
theorem Effect.row_issued (he : Effect s t e) (h : Consistent s) {y : UserSession} (hy : y ∈ t.tables.sessions) :
    (y.id, y.hashes) ∈ issued (s.history ++ [e]) := by
  rw [issued_append, List.mem_append]
  rcases he.rows y hy with ⟨x, hx, hid, hhashes⟩ | hnew
  · exact .inl (hid ▸ hhashes ▸ h.rows x hx)
  · exact .inr hnew

/-- Tokens that are in no row come back into none. -/
theorem Effect.not_revived (he : Effect s t e)
    (hfresh : ∀ k ∈ e.news, k ∉ issuedHashes s.history) {i : ℤ × HashPair} (hi : i ∈ issued s.history) {k : String}
    (hk : k ∈ i.2.toList) (hgone : ∀ x ∈ s.tables.sessions, k ∉ x.hashes.toList) {y : UserSession}
    (hy : y ∈ t.tables.sessions) : k ∉ y.hashes.toList := by
  intro hky
  rcases he.rows y hy with ⟨x, hx, -, hhashes⟩ | hnew
  · exact hgone x hx (hhashes ▸ hky)
  · exact hfresh k (mem_news hnew hky) (mem_issuedHashes hi hk)

/-- **One more commit.** -/
theorem Consistent.append (h : Consistent s) (he : Effect s t e) (hnodup : e.news.Nodup)
    (hfresh : ∀ k ∈ e.news, k ∉ issuedHashes s.history) : Consistent t where
  rows y hy := he.history ▸ he.row_issued h hy
  nodup := by
    rw [he.history, issuedHashes_append, List.nodup_append]
    exact ⟨h.nodup, hnodup, fun a ha b hb hab => hfresh b hb (hab ▸ ha)⟩
  accepted d hd k hk := by
    rw [he.history, issuedHashes_append]
    rw [he.history, List.mem_append, List.mem_singleton] at hd
    rcases hd with hd | rfl
    · exact List.mem_append_left _ (h.accepted d hd k hk)
    · exact List.mem_append_left _ (h.accepts_issued he hk)
  spent id presented old new hd := by
    rw [he.history, List.mem_append, List.mem_singleton] at hd
    rw [he.history, issued_append]
    rcases hd with hd | hd
    · obtain ⟨hpresented, hold, hgone⟩ := h.spent id presented old new hd
      refine ⟨hpresented, List.mem_append_left _ hold, fun y hy k hk => ?_⟩
      exact he.not_revived hfresh hold hk (fun x hx => hgone x hx k hk) hy
    · obtain ⟨hpresented, ⟨x, hx, rfl, rfl⟩, hnew⟩ := he.spent id presented old new hd.symm
      refine ⟨hpresented, List.mem_append_left _ (h.rows x hx), fun y hy k hk hky => ?_⟩
      -- another row with the token would be this session, which has the new tokens
      have hissue : (x.id, new) ∈ e.issues := by simp [← hd, SessionEvent.issues]
      by_cases hid : y.id = x.id
      · rw [hnew y hy hid] at hky
        exact hfresh k (mem_news hissue hky) (mem_issuedHashes (h.rows x hx) hk)
      · rcases he.rows y hy with ⟨z, hz, hzid, hhashes⟩ | hin
        · have hsame := h.issued_unique (h.rows z hz) (h.rows x hx) (hhashes ▸ hky) hk
          exact hid (hzid ▸ (Prod.mk.inj hsame).1)
        · exact hfresh k (mem_news hin hky) (mem_issuedHashes (h.rows x hx) hk)
  revoked id presented hd := by
    rw [he.history, List.mem_append, List.mem_singleton] at hd
    rcases hd with hd | hd
    · obtain ⟨x, hx, hid, hrevoked⟩ := h.revoked id presented hd
      exact ⟨x, he.kept x hx hrevoked, hid, hrevoked⟩
    · exact he.revokes id presented hd.symm
  rotates := he.history ▸ Rotates.append h he hfresh

/-! ### Every commit has its effect -/

theorem effect_create {c : NewSession} {u : Store} (h : insertSession g c s.tables = .ok u) :
    Effect s ⟨u, s.history ++ [.created c.id (c.tokens.hashes g)]⟩ (.created c.id (c.tokens.hashes g)) where
  history := rfl
  live k hk := absurd hk (by simp [SessionEvent.accepts])
  rows y hy := by
    obtain ⟨-, -, hinsert⟩ := insertSession_spec h
    rcases (Table.mem_insert hinsert).mp hy with hy | rfl
    · exact .inl ⟨y, hy, rfl, rfl⟩
    · exact .inr (List.mem_singleton.mpr rfl)
  kept x hx _ := (Table.mem_insert (insertSession_spec h).2.2).mpr (.inl hx)
  spent id presented old new he := by simp at he
  revokes id presented he := by simp at he

theorem effect_rotate {v : SessionView} {hash : String} {tokens : TokenPair} {now : ℤ} {u : Store}
    (hv : v.session ∈ s.tables.sessions) (hlive : v.session.revokedAt = none) (hhash : v.session.refreshTokenHash = hash)
    (h : rotateSession g v.session.id hash tokens now s.tables = .ok u) :
    Effect s ⟨u, s.history ++ [.refreshed v.session.id hash v.session.hashes (tokens.hashes g)]⟩
      (.refreshed v.session.id hash v.session.hashes (tokens.hashes g)) := by
  subst hhash
  obtain ⟨-, -, hmem⟩ := rotateSession_spec hv hlive h
  constructor
  case history => rfl
  case live =>
    intro k hk
    refine ⟨v.session, hv, hlive, ?_⟩
    simp [← Option.some.inj hk, UserSession.hashes, HashPair.toList]
  case rows =>
    intro y hy
    rcases (hmem y).mp hy with rfl | ⟨hold, -⟩
    · exact .inr (List.mem_singleton.mpr rfl)
    · exact .inl ⟨y, hold, rfl, rfl⟩
  case kept =>
    intro x hx hrevoked
    refine (hmem x).mpr (.inr ⟨hx, fun hid => hrevoked ?_⟩)
    rw [session_unique hx hv hid, hlive]
  case spent =>
    intro id presented old new he
    obtain ⟨rfl, rfl, rfl, rfl⟩ := SessionEvent.refreshed.inj he
    refine ⟨rfl, ⟨v.session, hv, rfl, rfl⟩, fun y hy hid => ?_⟩
    rcases (hmem y).mp hy with rfl | ⟨-, hne⟩
    · rfl
    · exact absurd hid hne
  case revokes =>
    intro id presented he
    simp at he

theorem effect_revoke {hash : String} {now id : ℤ} {u : Store}
    (h : revokeByAccessToken hash now s.tables = .ok (id, u)) :
    Effect s ⟨u, s.history ++ [.revoked id hash]⟩ (.revoked id hash) := by
  obtain ⟨x, hx, hhash, hlive, rfl, rfl⟩ := revokeByAccessToken_spec h
  have hmem := mem_revokeSession now hx hlive
  constructor
  case history => rfl
  case live =>
    intro k hk
    refine ⟨x, hx, hlive, ?_⟩
    simp [← Option.some.inj hk, ← hhash, UserSession.hashes, HashPair.toList]
  case rows =>
    intro y hy
    rcases (hmem y).mp hy with rfl | ⟨hold, -⟩
    · exact .inl ⟨x, hx, rfl, rfl⟩
    · exact .inl ⟨y, hold, rfl, rfl⟩
  case kept =>
    intro y hy hrevoked
    refine (hmem y).mpr (.inr ⟨hy, fun hid => hrevoked ?_⟩)
    rw [session_unique hy hx hid, hlive]
  case spent =>
    intro id' presented old new he
    simp at he
  case revokes =>
    intro id' presented he
    obtain ⟨rfl, -⟩ := SessionEvent.revoked.inj he
    exact ⟨x.revoke now, (hmem _).mpr (.inl rfl), rfl, by simp [UserSession.revoke]⟩

theorem effect_authenticate {authorization : Option String} {hash : String} {now : ℤ} {u : UserRow}
    (hbearer : bearerHash g authorization = .ok hash) (h : currentUser g authorization now s.tables = .ok u) :
    Effect s ⟨s.tables, s.history ++ [.authenticated hash]⟩ (.authenticated hash) where
  history := rfl
  live k hk := by
    obtain ⟨x, hx, hhash, hlive⟩ := currentUser_spec hbearer h
    refine ⟨x, hx, hlive, ?_⟩
    simp [← Option.some.inj hk, ← hhash, UserSession.hashes, HashPair.toList]
  rows y hy := .inl ⟨y, hy, rfl, rfl⟩
  kept x hx _ := hx
  spent id presented old new he := by simp at he
  revokes id presented he := by simp at he

/-- What a call accepts and issues, it commits as one event; accounts change without one. -/
theorem commit_effect {l : Worker} (hk : Knows s l) (h : Commit g s l t) :
    (∃ e, Effect s t e ∧ e.news = l.tokens.elim [] fun p => (p.hashes g).toList) ∨
      t.tables.sessions = s.tables.sessions ∧ t.history = s.history := by
  cases h with
  | create insert => exact .inl ⟨_, effect_create insert, by simp [SessionEvent.news, SessionEvent.issues, Worker.tokens]⟩
  | rotate update =>
    obtain ⟨hv, hlive, hhash⟩ := hk
    exact .inl ⟨_, effect_rotate hv hlive hhash update, by simp [SessionEvent.news, SessionEvent.issues, Worker.tokens]⟩
  | revoke update => exact .inl ⟨_, effect_revoke update, by simp [SessionEvent.news, SessionEvent.issues, Worker.tokens]⟩
  | authenticate bearer row =>
    exact .inl ⟨_, effect_authenticate bearer row, by simp [SessionEvent.news, SessionEvent.issues, Worker.tokens]⟩
  | accounts => exact .inr ⟨rfl, rfl⟩

/-! ### The locks -/

/-- A commit leaves an unrevoked session as it is, unless it has its row. -/
theorem commit_frame {l : Worker} (hk : Knows s l) (h : Commit g s l t) {x : UserSession}
    (hx : x ∈ s.tables.sessions) (hfree : x.id ∉ l.held) : x ∈ t.tables.sessions := by
  cases h with
  | create insert => exact (Table.mem_insert (insertSession_spec insert).2.2).mpr (.inl hx)
  | rotate update =>
    obtain ⟨hv, hlive, rfl⟩ := hk
    exact ((rotateSession_spec hv hlive update).2.2 x).mpr (.inr ⟨hx, hfree⟩)
  | @revoke hash z now id u update =>
    obtain ⟨hz, hhash, -⟩ := hk
    obtain ⟨y, hy, hyhash, hlive, -, rfl⟩ := revokeByAccessToken_spec update
    refine (mem_revokeSession now hy hlive x).mpr (.inr ⟨hx, fun hid => hfree ?_⟩)
    rw [hid, session_of_access hy hz (hyhash.trans hhash.symm)]
    exact rfl
  | authenticate bearer row => exact hx
  | accounts => exact hx

theorem lawful : Locking.Lawful (protocol g) (fun _ => True) Knows where
  start l hl := by
    cases l <;> first | exact ⟨rfl, fun _ => trivial⟩ | exact absurd hl id
  move s l l' _ _ h := by
    cases h with
    | select nonempty row goes =>
      obtain ⟨hv, hhash⟩ := selectSession_spec row
      exact ⟨hv, (judge_rotates goes).2, hhash⟩
    | reach bearer row => exact sessionOfAccessToken_spec row
  commit _ _ _ _ _ _ := trivial
  stable s l t m _ hk hc hm hdisjoint := by
    cases m with
    | rotating hash v tokens now =>
      obtain ⟨hv, hlive, hhash⟩ := hm
      refine ⟨commit_frame hk hc hv fun hheld => ?_, hlive, hhash⟩
      exact Set.disjoint_left.mp hdisjoint hheld rfl
    | revoking hash x now =>
      obtain ⟨hx, hhash, hlive⟩ := hm
      refine ⟨commit_frame hk hc hx fun hheld => ?_, hhash, hlive⟩
      exact Set.disjoint_left.mp hdisjoint hheld rfl
    | _ => trivial

/-! ### Runs -/

theorem consistent_opening (users : Table UserRow UserRow.keys) (providers : Table AuthProvider AuthProvider.keys) :
    Consistent (opening users providers) where
  rows _ hx := absurd hx List.not_mem_nil
  nodup := List.nodup_nil
  accepted _ he := absurd he List.not_mem_nil
  spent _ _ _ _ he := absurd he List.not_mem_nil
  revoked _ _ he := absurd he List.not_mem_nil
  rotates := ⟨List.nodup_nil, List.Pairwise.nil, List.Pairwise.nil⟩

/-- A change of the accounts keeps what only the sessions and the history say. -/
theorem Consistent.of_eq (h : Consistent s) (hsessions : t.tables.sessions = s.tables.sessions)
    (hhistory : t.history = s.history) : Consistent t where
  rows := hsessions ▸ hhistory ▸ h.rows
  nodup := hhistory ▸ h.nodup
  accepted := hhistory ▸ h.accepted
  spent := hsessions ▸ hhistory ▸ h.spent
  revoked := hsessions ▸ hhistory ▸ h.revoked
  rotates := hhistory ▸ h.rotates

variable {ι : Type}

/-- A commit of fresh tokens keeps the history and the tables consistent. -/
theorem Consistent.commit {s : Locking.System Server Worker ι} {w : ι} {l : Worker} (h : Consistent s.store)
    (hk : Knows s.store l) (hfresh : Fresh g s (.commit w l)) (hc : Commit g s.store l t) : Consistent t := by
  rcases commit_effect hk hc with ⟨e, he, hnews⟩ | ⟨hsessions, hhistory⟩
  · have hnew : e.news.Nodup ∧ ∀ k ∈ e.news, k ∉ issuedHashes s.store.history := by
      rw [hnews]
      cases htokens : l.tokens with
      | none => exact ⟨List.nodup_nil, fun k hk => absurd hk List.not_mem_nil⟩
      | some tokens => exact hfresh tokens htokens
    exact h.append he hnew.1 hnew.2
  · exact h.of_eq hsessions hhistory

/-- **Session rotation**: in every run of calls with distinct random tokens, in
any order and interleaving, the history rotates. -/
theorem session_rotation [DecidableEq ι] (g : Settings) (users : Table UserRow UserRow.keys)
    (providers : Table AuthProvider AuthProvider.keys) {s : Locking.System Server Worker ι}
    (h : Locking.ReachesBy (protocol g) (Fresh g) ⟨opening users providers, fun _ => none⟩ s) :
    Rotates s.store.history := by
  have hcoherent : Locking.Coherent (protocol g) (fun _ => True) Knows
      (⟨opening users providers, fun _ => none⟩ : Locking.System Server Worker ι) :=
    Locking.coherent_of_idle (fun _ => rfl) trivial
  have hconsistent : Consistent s.store := by
    refine lawful.keeps ?_ hcoherent h (consistent_opening users providers)
    intro s w l t _ hk hfresh hc hs
    exact hs.commit hk hfresh hc
  exact hconsistent.rotates

/-! ### A sample -/

def sampleLogin : NewSession := ⟨1, none, none, ⟨"a0", "r0"⟩, 7, 0, 0⟩

/-- A login, a refresh and a logout. -/
def sampleHistory : List SessionEvent :=
  [.created 7 ⟨"#a0", "#r0"⟩, .refreshed 7 "#r0" ⟨"#a0", "#r0"⟩ ⟨"#a1", "#r1"⟩, .revoked 7 "#a1"]

/-- A call with no other in progress. -/
theorem reachesBy_call {g : Settings} {s t : Server} {l l' : Worker} (hl : l.starts)
    (h : Relation.ReflTransGen (Move g s) l l') (hc : Commit g s l' t)
    (hfresh : ∀ tokens, l'.tokens = some tokens →
      (tokens.hashes g).toList.Nodup ∧ ∀ k ∈ (tokens.hashes g).toList, k ∉ issuedHashes s.history) :
    Locking.ReachesBy (protocol g) (Fresh g) (⟨s, fun _ => none⟩ : Locking.System Server Worker ℕ)
      ⟨t, fun _ => none⟩ :=
  Locking.reachesBy_transaction (P := protocol g) (fun _ => rfl) 0 hl (fun _ _ => ⟨trivial, trivial⟩) h hc hfresh

theorem session_rotation_sample : ∃ s : Locking.System Server Worker ℕ,
    Locking.ReachesBy (protocol sampleSettings) (Fresh sampleSettings)
      ⟨opening (sampleTables true none).users Table.empty, fun _ => none⟩ s ∧
    s.store.history = sampleHistory ∧ Rotates s.store.history := by
  have hcreate : insertSession sampleSettings sampleLogin (sampleTables true none) =
      .ok (sampleTables true (some (sampleSession ⟨"a0", "r0"⟩))) := by decide +kernel
  have hselect : selectSession "#r0" (sampleTables true (some (sampleSession ⟨"a0", "r0"⟩))) = some (sampleView true) := by
    decide +kernel
  have hrotate : rotateSession sampleSettings 7 "#r0" ⟨"a1", "r1"⟩ 0 (sampleTables true (some (sampleSession ⟨"a0", "r0"⟩))) =
      .ok (sampleTables true (some (sampleSession ⟨"a1", "r1"⟩))) := by decide +kernel
  have hbearer : bearerHash sampleSettings (some "Bearer a1") = .ok "#a1" := by decide +kernel
  have hreach : sessionOfAccessToken "#a1" (sampleTables true (some (sampleSession ⟨"a1", "r1"⟩))) =
      some (sampleSession ⟨"a1", "r1"⟩) := by decide +kernel
  have hrevoke : revokeByAccessToken "#a1" 5 (sampleTables true (some (sampleSession ⟨"a1", "r1"⟩))) =
      .ok (7, sampleTables true (some ((sampleSession ⟨"a1", "r1"⟩).revoke 5))) := by decide +kernel
  have h1 := reachesBy_call (g := sampleSettings) (s := ⟨sampleTables true none, []⟩) (l := .create sampleLogin) trivial .refl
    (.create hcreate) (by rintro _ ⟨⟩; decide +kernel)
  have h2 := reachesBy_call (g := sampleSettings) (l := .refresh "r0" ⟨"a1", "r1"⟩ 0)
    (s := ⟨sampleTables true (some (sampleSession ⟨"a0", "r0"⟩)), sampleHistory.take 1⟩) trivial
    (.single (.select rfl hselect (by decide +kernel))) (.rotate hrotate) (by rintro _ ⟨⟩; decide +kernel)
  have h3 := reachesBy_call (g := sampleSettings) (l := .revoke (some "Bearer a1") 5)
    (s := ⟨sampleTables true (some (sampleSession ⟨"a1", "r1"⟩)), sampleHistory.take 2⟩) trivial
    (.single (.reach hbearer hreach)) (.revoke hrevoke) (by rintro _ ⟨⟩)
  have hrun := (h1.trans h2).trans h3
  exact ⟨_, hrun, rfl, session_rotation sampleSettings _ _ hrun⟩

end Auth
end FuelNear

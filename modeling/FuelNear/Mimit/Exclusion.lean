/-
# Only one MIMIT update runs

A call that has the advisory lock has it on a connection that no other call
uses, until it unlocks; a lock check may unlock later, on a connection that it
has returned, but then only what it took itself. So of all calls one at most
is past `try_acquire_mimit_update_lock`, in all processes together. While it is
there, no one else records a run, or marks the run of the worker
(`only_one_update`).

The lock of the process has no part in this: it is the database's lock that
keeps the updates apart.

Key definitions: `Point.updating`, `Point.executing`, `Point.claims`, `Sound`.
Key theorems: `sound_step`, `updating_le_one`, `only_one_update`.
-/
import FuelNear.Mimit.Updates

namespace FuelNear
namespace MimitUpdate

/-! ### What a point has -/

/-- The update has the advisory lock: from `pg_try_advisory_lock` to `pg_advisory_unlock`. -/
def Point.updating : Point → Bool
  | .acquired | .reconciling | .orphaning _ | .creating | .committing _ | .scheduling _ | .handedOff _
  | .abandoned _ | .failing _ _ | .recording _ _ | .recorded _ _ | .unrecorded _ _ | .importing _ | .finishing _
  | .finished _ | .notifying _ | .refreshing _ | .releasing _ => true
  | _ => false

/-- `run_mimit_update_background` is executing, and has not released its lock. -/
def Point.executing : Point → Bool
  | .importing _ | .finishing _ | .finished _ | .notifying _ | .refreshing _ | .failing _ .worker
  | .recording _ .worker | .recorded _ .worker | .unrecorded _ .worker | .releasing (some _) => true
  | _ => false

/-- It has taken the advisory lock and will give it back, or has lost it for good. -/
def Point.claims : Point → Bool
  | .probed b | .marking b _ | .unlocking b | .probeFailed b | .probeReturning b => b
  | .stale => true
  | a => a.updating

/-- Its connection is its own. -/
def Point.owns : Point → Bool
  | .stale => false
  | _ => true

/-- The run of an update, once it has an id. -/
def Point.run? : Point → Option ℤ
  | .committing run | .scheduling run | .handedOff run | .abandoned run | .recording run _ | .recorded run _
  | .unrecorded run _ | .importing run | .finishing run | .finished run | .notifying run | .refreshing run => some run
  | .failing run _ | .releasing run | .released run | .leaving run => run
  | _ => none

/-- Its transaction has written no row that is running. -/
def Point.quiet : Point → Bool
  | .committing _ | .failing _ _ => false
  | _ => true

theorem executing_updating {a : Point} (h : a.executing = true) : a.updating = true := by
  cases a <;> simp_all [Point.executing, Point.updating]

theorem updating_claims {a : Point} (h : a.updating = true) : a.claims = true := by
  cases a <;> simp_all [Point.claims, Point.updating]

theorem updating_owns {a : Point} (h : a.updating = true) : a.owns = true := by
  cases a <;> simp_all [Point.owns, Point.updating]

/-! ### What a step of a call can be -/

section Steps

variable {π : Type*} [DecidableEq π] {s : Shared π} {x y : Session π} {a : Point} {e : Effect} {next : Option Point}

theorem run?_next (o : Origin) (run : ℤ) : (o.next run).run? = some run := by
  rcases o with ⟨_ | _⟩ | _ <;> rfl

/-- A connection that is closed is not the call's own any more. -/
theorem Moves.owns (h : Moves s x a e next) (hn : next.any Point.owns = true) : a.owns = true ∧ ∀ keep, e ≠ .close keep := by
  cases h with
  | @probeReturn acquired => cases acquired <;> simp_all [Point.owns]
  | _ => simp_all [Point.owns]

/-- Only an unlock or nothing is done on a connection of somebody else. -/
theorem Moves.owns_of_effect (h : Moves s x a e next) (hnone : e ≠ .none) (hunlock : e ≠ .advisoryUnlock) : a.owns = true := by
  cases h <;> simp_all [Point.owns]

/-- The lock that a call has was taken by its `pg_try_advisory_lock`. -/
theorem Moves.claims (h : Moves s x a e next) (htry : e ≠ .tryAdvisory) (hn : next.any Point.claims = true) :
    a.claims = true := by
  cases h with
  | @probeReturn acquired => cases acquired <;> simp_all [Point.claims]
  | _ => simp_all [Point.claims, Point.updating]

theorem Moves.granted (h : Moves s x a .tryAdvisory next) : (tryAdvisoryLock x s.advisory).isSome ∧ a.owns = true ∧
    a.run? = none := by
  cases h <;> simp_all [Point.owns, Point.run?]

/-- An unlock gives back a lock that was taken. -/
theorem Moves.unlocks (h : Moves s x a .advisoryUnlock next) : a.claims = true ∧ next.any Point.claims = false := by
  cases h <;> simp_all [Point.claims, Point.updating]

/-- A call writes while it has the lock, and then rows that are not running. -/
theorem Moves.writes {id : ℤ} {row : ImportRun} (h : Moves s x a (.write id row) next) :
    a.claims = true ∧ a.owns = true ∧ row.status ≠ .running := by
  cases h <;> simp_all [Point.claims, Point.owns, Point.updating, ImportRun.orphan, ImportRun.markOrphaned, ImportRun.finish,
    ImportRun.fail]

/-- A row that is written was there. -/
theorem Moves.written {id : ℤ} {row : ImportRun} (h : Moves s x a (.write id row) next) :
    ∃ r, s.runs.get? id = some r ∨ (s.view x).get? id = some r := by
  cases h with
  | orphan free h still => exact ⟨_, .inl h⟩
  | mark free h still => exact ⟨_, .inl h⟩
  | record free h => exact ⟨_, .inr h⟩
  | finish free h => exact ⟨_, .inr h⟩

theorem Moves.inserts {row : ImportRun} (h : Moves s x a (.insert row) next) :
    a = .creating ∧ next = some (.committing s.nextRun) ∧ ∃ now, row = .create now := by
  cases h
  exact ⟨rfl, rfl, _, rfl⟩

/-- A point that has written no running row comes after such a one, or after
the end of a transaction. -/
theorem Moves.quiet {q : Point} (h : Moves s x a e next) (hn : next = some q) (hq : q.quiet = true) :
    a.quiet = true ∨ e = .commit ∨ e = .rollback := by
  cases h with
  | committingRaises =>
    obtain rfl := Option.some.inj hn
    exact absurd hq (by simp [Point.quiet])
  | _ => simp_all [Point.quiet]

theorem Moves.commits (h : Moves s x a .commit next) : a.owns = true ∧ (a.quiet = true ∨ ∃ run, a = .committing run) := by
  cases h <;> simp [Point.quiet, Point.owns]

/-- The run of a call is the one that it inserted. -/
theorem Moves.run? {run : ℤ} (h : Moves s x a e next) (hn : next.bind Point.run? = some run) :
    a.run? = some run ∨ ∃ row, e = .insert row ∧ run = s.nextRun := by
  cases h with
  | @recordCommit _ o => exact .inl ((run?_next o _).symm.trans hn)
  | @unrecorded _ o => exact .inl ((run?_next o _).symm.trans hn)
  | @probeReturn acquired => cases acquired <;> simp_all [Point.run?]
  | _ => simp_all [Point.run?]

end Steps

/-! ### Connections and locks -/

section Locks

variable {π : Type*} [DecidableEq π] {s t : System π} {x y : Session π} {a : Point} {next : Option Point}
  {l₁ l₂ l : List (Call π)}

/-- The calls on a connection whose point is of a kind. -/
def count (f : Point → Bool) (x : Session π) (l : List (Call π)) : ℕ := l.countP fun c => c.session = x && f c.point

/-- A step takes a call from one point to the next. -/
theorem count_call (f : Point → Bool) (x y : Session π) (a : Point) (next : Option Point) (l₁ l₂ : List (Call π)) :
    count f y (l₁ ++ (next.map (Call.mk x)).toList ++ l₂) + (if x = y ∧ f a = true then 1 else 0) =
      count f y (l₁ ++ ⟨x, a⟩ :: l₂) + if x = y ∧ next.any f = true then 1 else 0 := by
  cases next with
  | none =>
    simp only [count, List.countP_append, List.countP_cons, Option.map_none, Option.toList_none, List.countP_nil,
      Option.any_none, Bool.false_eq_true, and_false, if_false, Bool.and_eq_true, decide_eq_true_eq]
    omega
  | some q =>
    simp only [count, List.countP_append, List.countP_cons, Option.map_some, Option.toList_some, List.countP_nil,
      Option.any_some, Bool.and_eq_true, decide_eq_true_eq]
    omega

theorem count_pos {f : Point → Bool} {c : Call π} (hc : c ∈ l) (hf : f c.point = true) : 0 < count f c.session l :=
  List.countP_pos_iff.mpr ⟨c, hc, by simp [hf]⟩

/-- Two calls on one connection. -/
theorem two_le_count {f : Point → Bool} {c d : Call π} (hd : d ∈ l₁ ++ l₂) (hx : d.session = c.session)
    (hc : f c.point = true) (hfd : f d.point = true) : 2 ≤ count f c.session (l₁ ++ c :: l₂) := by
  have h : 0 < count f c.session (l₁ ++ l₂) := hx ▸ count_pos hd hfd
  simp only [count, List.countP_append, List.countP_cons, hc, decide_true, Bool.and_self, if_true] at h ⊢
  omega

/-- A connection has one call at most that owns it, and the calls that have
taken the advisory lock on an open one are no more than the times it has it. -/
structure Guarded (s : System π) : Prop where
  owned : ∀ x, count Point.owns x s.calls ≤ if s.shared.sessions x = .taken then 1 else 0
  claimed : ∀ x, s.shared.sessions x ≠ .closed → count Point.claims x s.calls ≤ held s.shared.advisory x

theorem Guarded.taken (h : Guarded s) {c : Call π} (hc : c ∈ s.calls) (hown : c.point.owns = true) :
    s.shared.sessions c.session = .taken := by
  by_contra hne
  have hle := h.owned c.session
  rw [if_neg hne] at hle
  have := count_pos hc hown
  omega

/-- A call that owns its connection, and has taken the lock, has it. -/
theorem Guarded.held (h : Guarded s) {c : Call π} (hc : c ∈ s.calls) (hown : c.point.owns = true)
    (hclaims : c.point.claims = true) : 0 < held s.shared.advisory c.session := by
  have hopen : s.shared.sessions c.session ≠ .closed := by
    rw [h.taken hc hown]
    exact SessionState.noConfusion
  exact (count_pos hc hclaims).trans_le (h.claimed c.session hopen)

/-- Two calls that own their connections have different ones. -/
theorem Guarded.apart (h : Guarded s) {c d : Call π} (here : s.calls = l₁ ++ c :: l₂) (hd : d ∈ l₁ ++ l₂)
    (hc : c.point.owns = true) (hown : d.point.owns = true) : d.session ≠ c.session := by
  intro hx
  have htwo := two_le_count hd hx hc hown
  have hle := h.owned c.session
  rw [← here] at htwo
  split_ifs at hle <;> omega

theorem close_sessions (s : Shared π) (x y : Session π) (keep : Bool) :
    (s.close x keep).sessions y = if y = x then if keep then .idle else .closed else s.sessions y := by
  by_cases hy : y = x <;> simp [Shared.close, hy]

theorem close_held (s : Shared π) (x y : Session π) (keep : Bool) :
    held (s.close x keep).advisory y = if keep = false ∧ y = x then 0 else held s.advisory y := by
  cases keep with
  | true => simp [Shared.close]
  | false =>
    have h := held_filter s.advisory (fun z => decide (z ≠ x)) y
    by_cases hy : y = x
    · simpa [Shared.close, hy] using h
    · simpa [Shared.close, hy] using h

/-- What a step does to the lock covers what it does to the calls. -/
theorem claimed_call {e : Effect} (h : Guarded s) (here : s.calls = l₁ ++ ⟨x, a⟩ :: l₂)
    (moves : Moves s.shared x a e next) (hopen : (e.run x s.shared).sessions y ≠ .closed) :
    count Point.claims y (l₁ ++ (next.map (Call.mk x)).toList ++ l₂) ≤ held (e.run x s.shared).advisory y := by
  have hcount := count_call Point.claims x y a next l₁ l₂
  rw [← here] at hcount
  have hclaimed := h.claimed y
  by_cases htry : e = .tryAdvisory
  · subst htry
    have hle := hclaimed hopen
    have hheld := held_tryAdvisoryLock moves.granted.1 y
    show _ ≤ held (tryAdvisoryLock x s.shared.advisory) y
    rw [hheld]
    by_cases hxy : x = y
    · subst hxy
      simp only [true_and, if_true] at hcount ⊢
      split_ifs at hcount <;> omega
    · simp only [hxy, false_and, if_false] at hcount
      omega
  have hkeeps : next.any Point.claims = true → a.claims = true := moves.claims htry
  have hle' : count Point.claims y (l₁ ++ (next.map (Call.mk x)).toList ++ l₂) ≤ count Point.claims y s.calls := by
    by_cases hn : x = y ∧ next.any Point.claims = true
    · rw [if_pos hn, if_pos ⟨hn.1, hkeeps hn.2⟩] at hcount
      omega
    · rw [if_neg hn] at hcount
      omega
  by_cases hunlock : e = .advisoryUnlock
  · subst hunlock
    have hle := hclaimed hopen
    obtain ⟨hclaims, hnext⟩ := moves.unlocks
    show _ ≤ held (advisoryUnlock x s.shared.advisory) y
    rw [held_advisoryUnlock]
    by_cases hxy : x = y
    · subst hxy
      simp only [hclaims, hnext, true_and, and_false, if_true, if_false, Bool.false_eq_true] at hcount ⊢
      omega
    · rw [if_neg (Ne.symm hxy)]
      omega
  by_cases hclose : ∃ keep, e = .close keep
  · obtain ⟨keep, rfl⟩ := hclose
    show _ ≤ held (s.shared.close x keep).advisory y
    rw [close_held]
    have hopen : (s.shared.close x keep).sessions y ≠ .closed := hopen
    rw [close_sessions] at hopen
    by_cases hxy : y = x
    · subst hxy
      have htaken := h.taken (c := ⟨y, a⟩) (by simp [here]) (moves.owns_of_effect Effect.noConfusion Effect.noConfusion)
      have hkeep : keep ≠ false := by
        rintro rfl
        simp at hopen
      rw [if_neg fun hk => hkeep hk.1]
      refine hle'.trans (hclaimed ?_)
      rw [htaken]
      exact SessionState.noConfusion
    · rw [if_neg hxy] at hopen
      rw [if_neg fun hk => hxy hk.2]
      exact hle'.trans (hclaimed hopen)
  · rw [not_exists] at hclose
    rw [run_sessions e hclose] at hopen
    rw [run_advisory e htry hunlock hclose]
    exact hle'.trans (hclaimed hopen)

theorem owned_call {e : Effect} (h : Guarded s) (here : s.calls = l₁ ++ ⟨x, a⟩ :: l₂) (moves : Moves s.shared x a e next)
    (y : Session π) : count Point.owns y (l₁ ++ (next.map (Call.mk x)).toList ++ l₂) ≤
      if (e.run x s.shared).sessions y = .taken then 1 else 0 := by
  have hcount := count_call Point.owns x y a next l₁ l₂
  rw [← here] at hcount
  have hle := h.owned y
  by_cases hclose : ∃ keep, e = .close keep
  · obtain ⟨keep, rfl⟩ := hclose
    have hnext : next.any Point.owns = false := by
      by_contra hn
      exact (moves.owns (by simpa using hn)).2 keep rfl
    have hown : a.owns = true := moves.owns_of_effect Effect.noConfusion Effect.noConfusion
    show _ ≤ if (s.shared.close x keep).sessions y = .taken then 1 else 0
    rw [close_sessions]
    by_cases hxy : y = x
    · subst hxy
      simp only [hown, hnext, true_and, and_false, if_true, if_false, Bool.false_eq_true] at hcount
      have hone : (if s.shared.sessions y = .taken then 1 else 0) ≤ 1 := by split_ifs <;> omega
      omega
    · rw [if_neg hxy]
      simp only [Ne.symm hxy, false_and, if_false] at hcount
      omega
  · rw [not_exists] at hclose
    rw [run_sessions e hclose]
    by_cases hn : x = y ∧ next.any Point.owns = true
    · rw [if_pos hn, if_pos ⟨hn.1, (moves.owns hn.2).1⟩] at hcount
      omega
    · rw [if_neg hn] at hcount
      omega

theorem guarded_call {e : Effect} (h : Guarded s) (here : s.calls = l₁ ++ ⟨x, a⟩ :: l₂) (moves : Moves s.shared x a e next) :
    Guarded ⟨e.run x s.shared, l₁ ++ (next.map (Call.mk x)).toList ++ l₂⟩ :=
  ⟨owned_call h here moves, fun _ hopen => claimed_call h here moves hopen⟩

theorem guarded_begin (h : Guarded s) (ready : s.shared.sessions x = .unused ∨ s.shared.sessions x = .idle)
    (starts : a = .requested ∨ a = .probing) : Guarded ⟨s.shared.take x, s.calls ++ [⟨x, a⟩]⟩ := by
  have howns : a.owns = true := by rcases starts with rfl | rfl <;> rfl
  have hclaims : a.claims = false := by rcases starts with rfl | rfl <;> rfl
  constructor
  · intro y
    have hle := h.owned y
    simp only [count, List.countP_append, List.countP_singleton, Shared.take] at hle ⊢
    by_cases hxy : y = x
    · subst hxy
      have hfree : s.shared.sessions y ≠ .taken := by rcases ready with hr | hr <;> simp [hr]
      rw [if_neg hfree] at hle
      simpa [howns] using hle
    · simpa [hxy, Ne.symm hxy] using hle
  · intro y hopen
    have hopen' : s.shared.sessions y ≠ .closed := by
      by_cases hxy : y = x
      · subst hxy
        rcases ready with hr | hr <;> simp [hr]
      · simpa [Shared.take, hxy] using hopen
    have hle := h.claimed y hopen'
    simpa [count, List.countP_append, List.countP_singleton, Shared.take, hclaims] using hle

theorem guarded_drop (h : Guarded s) (idle : s.shared.sessions x = .idle) : Guarded ⟨s.shared.close x false, s.calls⟩ := by
  constructor
  · intro y
    have hle := h.owned y
    show _ ≤ if (s.shared.close x false).sessions y = .taken then 1 else 0
    rw [close_sessions]
    by_cases hxy : y = x
    · subst hxy
      simpa [idle] using hle
    · rwa [if_neg hxy]
  · intro y hopen
    have hopen : (s.shared.close x false).sessions y ≠ .closed := hopen
    rw [close_sessions] at hopen
    show _ ≤ held (s.shared.close x false).advisory y
    rw [close_held]
    by_cases hxy : y = x
    · simp [hxy] at hopen
    · rw [if_neg fun hk => hxy hk.2]
      rw [if_neg hxy] at hopen
      exact h.claimed y hopen

theorem count_crash (f : Point → Bool) (p : π) (y : Session π) (l : List (Call π)) :
    count f y (l.filter fun c => c.session.process ≠ p) = if y.process = p then 0 else count f y l := by
  rw [count, List.countP_filter]
  by_cases hp : y.process = p
  · rw [if_pos hp, List.countP_eq_zero]
    rintro c -
    simp only [Bool.and_eq_true, decide_eq_true_eq, not_and, and_imp]
    rintro rfl -
    simpa using hp
  · rw [if_neg hp, count]
    apply List.countP_congr
    rintro c -
    simp only [Bool.and_eq_true, decide_eq_true_eq, and_iff_left_iff_imp, and_imp]
    rintro rfl -
    simpa using hp

theorem guarded_crash (h : Guarded s) (p : π) :
    Guarded ⟨s.shared.crash p, s.calls.filter fun c => c.session.process ≠ p⟩ := by
  constructor
  · intro y
    have hle := h.owned y
    show count _ _ _ ≤ _
    rw [count_crash]
    by_cases hp : y.process = p
    · simp [hp]
    · simpa [hp, Shared.crash] using hle
  · intro y hopen
    show count _ _ _ ≤ _
    rw [count_crash]
    by_cases hp : y.process = p
    · simp [hp]
    · have hheld := held_filter s.shared.advisory (fun z => decide (z.process ≠ p)) y
      rw [if_pos (by simpa using hp)] at hheld
      rw [if_neg hp]
      show _ ≤ held (s.shared.advisory.filter fun e => e.1.process ≠ p) y
      rw [hheld]
      exact h.claimed y (by simpa [Shared.crash, hp] using hopen)

end Locks

/-! ### The runs -/

section Runs

variable {π : Type*} {s t : System π} {u u' : Shared π} {x y : Session π} {a : Point} {next : Option Point}
  {e : Effect} {l₁ l₂ : List (Call π)}

/-- What an update knows of the rows that its transaction sees running. -/
def Sees (u : Shared π) (x : Session π) : Point → Prop
  | .orphaning todo => ∀ i, Running (u.view x) i → i ∈ todo
  | .creating => ∀ i, ¬Running (u.view x) i
  | .committing run => ∀ i, Running (u.view x) i → i = run
  | _ => True

/-- A row that is committed, or written in a transaction. -/
def Known (u : Shared π) (i : ℤ) (r : ImportRun) : Prop := u.runs.get? i = some r ∨ ∃ x, (i, r) ∈ u.pending x

theorem Sees.mono {p : Point} (h : Sees u x p) (hview : ∀ i, Running (u'.view x) i → Running (u.view x) i) : Sees u' x p := by
  cases p with
  | orphaning todo => exact fun i hi => h i (hview i hi)
  | creating => exact fun i hi => h i (hview i hi)
  | committing run => exact fun i hi => h i (hview i hi)
  | _ => trivial

/-- A call that knows something of the rows is an update. -/
theorem sees_of_not_updating {p : Point} (h : p.updating = false) : Sees u x p := by
  cases p <;> trivial

theorem sees_next (o : Origin) (run : ℤ) : Sees u x (o.next run) := by
  rcases o with ⟨_ | _⟩ | _ <;> trivial

theorem known_of_view {i : ℤ} {r : ImportRun} (h : (u.view x).get? i = some r) : Known u i r :=
  (get?_foldl_cases _ _ _ _ h).imp id fun hr => ⟨x, hr⟩

/-- The calls after a step: the others, and the one that has moved. -/
theorem mem_moved {d : Call π} : d ∈ l₁ ++ (next.map (Call.mk x)).toList ++ l₂ ↔ d ∈ l₁ ++ l₂ ∨ ∃ q, next = some q ∧ d = ⟨x, q⟩ := by
  cases next with
  | none => simp
  | some q =>
    simp only [Option.map_some, Option.toList_some, List.mem_append, List.mem_singleton, Option.some.injEq, exists_eq_left']
    tauto

theorem mem_others {c d : Call π} (here : s.calls = l₁ ++ c :: l₂) (hd : d ∈ l₁ ++ l₂) : d ∈ s.calls := by
  rw [here]
  rcases List.mem_append.mp hd with hd | hd <;> simp [hd]

variable [DecidableEq π]

structure Sound (s : System π) : Prop extends Guarded s where
  untouched : ∀ x, s.shared.sessions x ≠ .taken → s.shared.pending x = []
  rows : ∀ i r, Known s.shared i r → i < s.shared.nextRun ∧ (r.status = .running → r.completedAt = none)
  quiet : ∀ c ∈ s.calls, c.point.owns = true → c.point.quiet = true → ∀ e ∈ s.shared.pending c.session,
    e.2.status ≠ .running
  sees : ∀ c ∈ s.calls, Sees s.shared c.session c.point
  single : ∀ i j, Running s.shared.runs i → Running s.shared.runs j → i = j
  unmarked : ∀ c ∈ s.calls, c.point.owns = true → ∀ run, c.point.run? = some run →
    0 < held s.shared.advisory c.session → ∀ y, y ≠ c.session → run ∉ (s.shared.pending y).map Prod.fst

/-- The transaction of another call is its own. -/
theorem Guarded.pending_other (h : Guarded s) (here : s.calls = l₁ ++ ⟨x, a⟩ :: l₂) (moves : Moves s.shared x a e next)
    {d : Call π} (hd : d ∈ l₁ ++ l₂) (hown : d.point.owns = true) :
    (e.run x s.shared).pending d.session = s.shared.pending d.session := by
  by_cases hsame : e = .none ∨ e = .advisoryUnlock
  · rcases hsame with rfl | rfl <;> rfl
  · rw [not_or] at hsame
    exact run_pending_of_ne e (h.apart here hd (moves.owns_of_effect hsame.1 hsame.2) hown)

theorem untouched_call (h : Sound s) (here : s.calls = l₁ ++ ⟨x, a⟩ :: l₂) (moves : Moves s.shared x a e next)
    (hy : (e.run x s.shared).sessions y ≠ .taken) : (e.run x s.shared).pending y = [] := by
  by_cases hclose : ∃ keep, e = .close keep
  · obtain ⟨keep, rfl⟩ := hclose
    have hy : (s.shared.close x keep).sessions y ≠ .taken := hy
    rw [close_sessions] at hy
    show Function.update s.shared.pending x [] y = []
    by_cases hxy : y = x
    · rw [hxy, Function.update_self]
    · rw [if_neg hxy] at hy
      rw [Function.update_of_ne hxy]
      exact h.untouched y hy
  · rw [not_exists] at hclose
    rw [run_sessions e hclose] at hy
    by_cases hsame : e = .none ∨ e = .advisoryUnlock
    · rcases hsame with rfl | rfl <;> exact h.untouched y hy
    · rw [not_or] at hsame
      have htaken := h.taken (c := ⟨x, a⟩) (by simp [here]) (moves.owns_of_effect hsame.1 hsame.2)
      have hxy : y ≠ x := by
        rintro rfl
        exact hy htaken
      rw [run_pending_of_ne e hxy]
      exact h.untouched y hy

/-- A row after a step is an old one, or one that the step writes. -/
theorem known_run {i : ℤ} {r : ImportRun} (h : Known (e.run x u) i r) :
    Known u i r ∨ e = .write i r ∨ e = .insert r ∧ i = u.nextRun := by
  rcases h with h | ⟨y, h⟩
  · by_cases hcommit : e = .commit
    · subst hcommit
      exact .inl (known_of_view h)
    · rw [run_runs e hcommit] at h
      exact .inl (.inl h)
  · by_cases hxy : y = x
    · subst hxy
      exact (mem_run_pending h).imp (fun hold => .inr ⟨y, hold⟩) id
    · rw [run_pending_of_ne e hxy] at h
      exact .inl (.inr ⟨y, h⟩)

theorem nextRun_le (e : Effect) : u.nextRun ≤ (e.run x u).nextRun := by
  cases e <;> simp [Effect.run, Shared.setPending, Shared.close]

theorem rows_call (h : Sound s) (moves : Moves s.shared x a e next) {i : ℤ} {r : ImportRun}
    (hr : Known (e.run x s.shared) i r) :
    i < (e.run x s.shared).nextRun ∧ (r.status = .running → r.completedAt = none) := by
  rcases known_run hr with hold | rfl | ⟨rfl, rfl⟩
  · obtain ⟨hlt, hopen⟩ := h.rows i r hold
    exact ⟨hlt.trans_le (nextRun_le e), hopen⟩
  · obtain ⟨old, hold⟩ := moves.written
    have hknown : Known s.shared i old := hold.elim .inl known_of_view
    exact ⟨(h.rows i old hknown).1.trans_le (nextRun_le _), fun hrunning => absurd hrunning moves.writes.2.2⟩
  · obtain ⟨-, -, now, rfl⟩ := moves.inserts
    exact ⟨by simp [Effect.run], fun _ => rfl⟩

theorem quiet_call (h : Sound s) (here : s.calls = l₁ ++ ⟨x, a⟩ :: l₂) (moves : Moves s.shared x a e next) {d : Call π}
    (hd : d ∈ l₁ ++ (next.map (Call.mk x)).toList ++ l₂) (hown : d.point.owns = true) (hquiet : d.point.quiet = true) :
    ∀ w ∈ (e.run x s.shared).pending d.session, w.2.status ≠ .running := by
  intro w hw
  rcases mem_moved.mp hd with hd | ⟨q, hq, rfl⟩
  · rw [h.pending_other here moves hd hown] at hw
    exact h.quiet d (mem_others here hd) hown hquiet w hw
  · have hnext : next.any Point.owns = true := by simpa [hq] using hown
    rcases moves.quiet hq hquiet with ha | rfl | rfl
    · rcases mem_run_pending hw with hw | rfl | ⟨rfl, -⟩
      · exact h.quiet ⟨x, a⟩ (by simp [here]) (moves.owns hnext).1 ha w hw
      · exact moves.writes.2.2
      · obtain ⟨-, hcommitting, -⟩ := moves.inserts
        obtain rfl : q = .committing s.shared.nextRun := Option.some.inj (hq.symm.trans hcommitting)
        exact absurd hquiet (by simp [Point.quiet])
    · simp [Effect.run, Shared.setPending] at hw
    · simp [Effect.run, Shared.setPending] at hw

/-- Two updates are not there at once. -/
theorem Guarded.alone (h : Guarded s) {c d : Call π} (here : s.calls = l₁ ++ c :: l₂) (hc : c.point.updating = true)
    (hd : d ∈ l₁ ++ l₂) : d.point.updating = false := by
  by_contra hupdating
  rw [Bool.not_eq_false] at hupdating
  have hcheld := h.held (c := c) (by simp [here]) (updating_owns hc) (updating_claims hc)
  have hdheld := h.held (mem_others here hd) (updating_owns hupdating) (updating_claims hupdating)
  exact h.apart here hd (updating_owns hc) (updating_owns hupdating) (held_unique hdheld hcheld)

/-- A commit makes no row run, but that of the update that records its run. -/
theorem Sound.commit_cases (h : Sound s) (here : s.calls = l₁ ++ ⟨x, a⟩ :: l₂) (moves : Moves s.shared x a .commit next) :
    (∀ i, Running (s.shared.view x) i → Running s.shared.runs i) ∨
      a.updating = true ∧ ∃ run, ∀ i, Running (s.shared.view x) i → i = run := by
  have hmem : (⟨x, a⟩ : Call π) ∈ s.calls := by simp [here]
  obtain ⟨hown, hquiet | ⟨run, rfl⟩⟩ := moves.commits
  · exact .inl fun i hi => running_foldl_quiet _ _ i (h.quiet _ hmem hown hquiet) hi
  · exact .inr ⟨rfl, run, h.sees _ hmem⟩

theorem sees_other (h : Sound s) (here : s.calls = l₁ ++ ⟨x, a⟩ :: l₂) (moves : Moves s.shared x a e next) {d : Call π}
    (hd : d ∈ l₁ ++ l₂) : Sees (e.run x s.shared) d.session d.point := by
  by_cases hupdating : d.point.updating = true
  · have hsees := h.sees d (mem_others here hd)
    have hpending := h.pending_other here moves hd (updating_owns hupdating)
    by_cases hcommit : e = .commit
    · subst hcommit
      rcases h.commit_cases here moves with hshrinks | ⟨ha, -⟩
      · refine hsees.mono fun i hi => ?_
        rw [Shared.view, hpending] at hi
        exact running_foldl_mono _ _ _ hshrinks i hi
      · exact absurd hupdating (by simp [h.alone here ha hd])
    · refine hsees.mono fun i hi => ?_
      rwa [Shared.view, hpending, run_runs e hcommit] at hi
  · exact sees_of_not_updating (by simpa using hupdating)

theorem view_write {id : ℤ} {row : ImportRun} : ((Effect.write id row).run x u).view x = (u.view x).set id row := by
  simp [Shared.view, Effect.run, Shared.setPending]

theorem view_insert {row : ImportRun} : ((Effect.insert row).run x u).view x = (u.view x).set u.nextRun row := by
  simp [Shared.view, Effect.run, Shared.setPending]

/-- A row that a quiet transaction sees running is committed, and open. -/
theorem Sound.open_of_running (h : Sound s) {c : Call π} (hc : c ∈ s.calls) (hown : c.point.owns = true)
    (hquiet : c.point.quiet = true) {i : ℤ} (hi : Running (s.shared.view c.session) i) :
    ∃ r, s.shared.runs.get? i = some r ∧ r.isOpen = true := by
  obtain ⟨r, hr, hrunning⟩ := running_foldl_quiet _ _ i (h.quiet c hc hown hquiet) hi
  exact ⟨r, hr, by simp [ImportRun.isOpen, hrunning, (h.rows i r (.inl hr)).2 hrunning]⟩

theorem sees_moved (h : Sound s) (here : s.calls = l₁ ++ ⟨x, a⟩ :: l₂) {q : Point} (moves : Moves s.shared x a e (some q)) :
    Sees (e.run x s.shared) x q := by
  have hmem : (⟨x, a⟩ : Call π) ∈ s.calls := by simp [here]
  have hsees := h.sees _ hmem
  by_cases hupdating : q.updating = true
  · generalize hnext : some q = next at moves
    cases moves with
    | reconcile =>
      obtain rfl := Option.some.inj hnext
      exact fun i hi => mem_openRuns.mpr (h.open_of_running hmem rfl rfl hi)
    | @orphan id todo r now free hr still =>
      obtain rfl := Option.some.inj hnext
      intro i hi
      rw [view_write, running_set] at hi
      split_ifs at hi with hid
      · exact absurd hi (by simp [ImportRun.orphan])
      · exact (List.mem_cons.mp (hsees i hi)).resolve_left hid
    | @skip id todo free hclosed =>
      obtain rfl := Option.some.inj hnext
      intro i hi
      refine (List.mem_cons.mp (hsees i hi)).resolve_left ?_
      rintro rfl
      obtain ⟨r, hr, hopen⟩ := h.open_of_running hmem rfl rfl hi
      exact absurd hopen (by simp [hclosed r hr])
    | reconciled =>
      obtain rfl := Option.some.inj hnext
      exact fun i hi => absurd (hsees i hi) List.not_mem_nil
    | create =>
      obtain rfl := Option.some.inj hnext
      intro i hi
      rw [view_insert, running_set] at hi
      split_ifs at hi with hid
      · exact hid
      · exact absurd hi (hsees i)
    | @recordCommit run o =>
      obtain rfl := Option.some.inj hnext
      exact sees_next o run
    | @unrecorded run o =>
      obtain rfl := Option.some.inj hnext
      exact sees_next o run
    | @probeReturn acquired keep =>
      cases acquired with
      | true =>
        obtain rfl := Option.some.inj hnext
        trivial
      | false => exact absurd hnext (by simp)
    | _ => first | cases hnext; trivial | cases hnext
  · exact sees_of_not_updating (by simpa using hupdating)

theorem sees_call (h : Sound s) (here : s.calls = l₁ ++ ⟨x, a⟩ :: l₂) (moves : Moves s.shared x a e next) {d : Call π}
    (hd : d ∈ l₁ ++ (next.map (Call.mk x)).toList ++ l₂) : Sees (e.run x s.shared) d.session d.point := by
  rcases mem_moved.mp hd with hd | ⟨q, rfl, rfl⟩
  · exact sees_other h here moves hd
  · exact sees_moved h here moves

theorem single_call (h : Sound s) (here : s.calls = l₁ ++ ⟨x, a⟩ :: l₂) (moves : Moves s.shared x a e next) {i j : ℤ}
    (hi : Running (e.run x s.shared).runs i) (hj : Running (e.run x s.shared).runs j) : i = j := by
  by_cases hcommit : e = .commit
  · subst hcommit
    rcases h.commit_cases here moves with hshrinks | ⟨-, run, hrun⟩
    · exact h.single i j (hshrinks i hi) (hshrinks j hj)
    · rw [hrun i hi, hrun j hj]
  · rw [run_runs e hcommit] at hi hj
    exact h.single i j hi hj

/-- A connection gets the advisory lock by `pg_try_advisory_lock` alone. -/
theorem held_of_run (htry : e ≠ .tryAdvisory ∨ y ≠ x) (htaken : e = .tryAdvisory → (tryAdvisoryLock x u.advisory).isSome)
    (h : 0 < held (e.run x u).advisory y) : 0 < held u.advisory y := by
  by_cases hcases : e = .tryAdvisory
  · subst hcases
    have h : 0 < held (tryAdvisoryLock x u.advisory) y := h
    rw [held_tryAdvisoryLock (htaken rfl), if_neg (htry.resolve_left (fun hne => hne rfl))] at h
    exact h
  by_cases hunlock : e = .advisoryUnlock
  · subst hunlock
    have h : 0 < held (advisoryUnlock x u.advisory) y := h
    rw [held_advisoryUnlock] at h
    omega
  by_cases hclose : ∃ keep, e = .close keep
  · obtain ⟨keep, rfl⟩ := hclose
    have h : 0 < held (u.close x keep).advisory y := h
    rw [close_held] at h
    split_ifs at h
    · exact absurd h (lt_irrefl 0)
    · exact h
  · rw [not_exists] at hclose
    rwa [run_advisory e hcases hunlock hclose] at h

/-- Whoever writes a row has the lock. -/
theorem Sound.writer_held (h : Sound s) (here : s.calls = l₁ ++ ⟨x, a⟩ :: l₂) (moves : Moves s.shared x a e next)
    (hwrites : (∃ id row, e = .write id row) ∨ ∃ row, e = .insert row) : 0 < held s.shared.advisory x := by
  have hmem : (⟨x, a⟩ : Call π) ∈ s.calls := by simp [here]
  rcases hwrites with ⟨id, row, rfl⟩ | ⟨row, rfl⟩
  · obtain ⟨hclaims, hown, -⟩ := moves.writes
    exact h.held hmem hown hclaims
  · obtain ⟨rfl, -, -⟩ := moves.inserts
    exact h.held hmem rfl rfl

theorem unmarked_other (h : Sound s) (here : s.calls = l₁ ++ ⟨x, a⟩ :: l₂) (moves : Moves s.shared x a e next) {d : Call π}
    (hd : d ∈ l₁ ++ l₂) (hown : d.point.owns = true) {run : ℤ} (hrun : d.point.run? = some run)
    (hheld : 0 < held (e.run x s.shared).advisory d.session) (hy : y ≠ d.session) :
    run ∉ ((e.run x s.shared).pending y).map Prod.fst := by
  have htry : e ≠ .tryAdvisory ∨ d.session ≠ x := by
    by_cases he : e = .tryAdvisory
    · subst he
      exact .inr (h.apart here hd moves.granted.2.1 hown)
    · exact .inl he
  have hheld' : 0 < held s.shared.advisory d.session :=
    held_of_run htry (fun he => by subst he; exact moves.granted.1) hheld
  have hold := h.unmarked d (mem_others here hd) hown run hrun hheld'
  intro hmem
  by_cases hxy : y = x
  · subst hxy
    obtain ⟨w, hw, rfl⟩ := List.mem_map.mp hmem
    rcases mem_run_pending hw with hw | he | ⟨he, -⟩
    · exact hold y hy (List.mem_map.mpr ⟨w, hw, rfl⟩)
    · exact hy (held_unique (h.writer_held here moves (.inl ⟨_, _, he⟩)) hheld')
    · exact hy (held_unique (h.writer_held here moves (.inr ⟨_, he⟩)) hheld')
  · rw [run_pending_of_ne e hxy] at hmem
    exact hold y hy hmem

theorem unmarked_moved (h : Sound s) (here : s.calls = l₁ ++ ⟨x, a⟩ :: l₂) {q : Point} (moves : Moves s.shared x a e (some q))
    (hown : q.owns = true) {run : ℤ} (hrun : q.run? = some run) (hheld : 0 < held (e.run x s.shared).advisory x)
    (hy : y ≠ x) : run ∉ ((e.run x s.shared).pending y).map Prod.fst := by
  rw [run_pending_of_ne e hy]
  rcases moves.run? hrun with ha | ⟨row, rfl, rfl⟩
  · have htry : e ≠ .tryAdvisory := by
      rintro rfl
      rw [moves.granted.2.2] at ha
      exact absurd ha (by simp)
    have hheld' : 0 < held s.shared.advisory x := held_of_run (.inl htry) (fun he => absurd he htry) hheld
    exact h.unmarked ⟨x, a⟩ (by simp [here]) (moves.owns hown).1 run ha hheld' y hy
  · intro hmem
    obtain ⟨w, hw, hid⟩ := List.mem_map.mp hmem
    have hlt := (h.rows w.1 w.2 (.inr ⟨y, hw⟩)).1
    rw [hid] at hlt
    exact absurd hlt (lt_irrefl _)

theorem sound_call (h : Sound s) (here : s.calls = l₁ ++ ⟨x, a⟩ :: l₂) (moves : Moves s.shared x a e next) :
    Sound ⟨e.run x s.shared, l₁ ++ (next.map (Call.mk x)).toList ++ l₂⟩ where
  toGuarded := guarded_call h.toGuarded here moves
  untouched _ hy := untouched_call h here moves hy
  rows _ _ hr := rows_call h moves hr
  quiet _ hd hown hquiet := quiet_call h here moves hd hown hquiet
  sees _ hd := sees_call h here moves hd
  single _ _ hi hj := single_call h here moves hi hj
  unmarked d hd hown run hrun hheld y hy := by
    rcases mem_moved.mp hd with hd | ⟨q, rfl, rfl⟩
    · exact unmarked_other h here moves hd hown hrun hheld hy
    · exact unmarked_moved h here moves hown hrun hheld hy

theorem sound_begin (h : Sound s) (ready : s.shared.sessions x = .unused ∨ s.shared.sessions x = .idle)
    (starts : a = .requested ∨ a = .probing) : Sound ⟨s.shared.take x, s.calls ++ [⟨x, a⟩]⟩ where
  toGuarded := guarded_begin h.toGuarded ready starts
  untouched y hy := by
    apply h.untouched y
    intro htaken
    by_cases hxy : y = x
    · subst hxy
      rcases ready with hr | hr <;> simp [hr] at htaken
    · exact hy (by simpa [Shared.take, hxy] using htaken)
  rows i r hr := h.rows i r hr
  quiet d hd hown hquiet := by
    rcases List.mem_append.mp hd with hd | hd
    · exact h.quiet d hd hown hquiet
    · obtain rfl := List.mem_singleton.mp hd
      have hnone : s.shared.pending x = [] := h.untouched x (by rcases ready with hr | hr <;> simp [hr])
      intro w hw
      have hw : w ∈ s.shared.pending x := hw
      simp [hnone] at hw
  sees d hd := by
    rcases List.mem_append.mp hd with hd | hd
    · exact h.sees d hd
    · obtain rfl := List.mem_singleton.mp hd
      rcases starts with rfl | rfl <;> trivial
  single := h.single
  unmarked d hd hown run hrun hheld y hy := by
    rcases List.mem_append.mp hd with hd | hd
    · exact h.unmarked d hd hown run hrun hheld y hy
    · obtain rfl := List.mem_singleton.mp hd
      rcases starts with rfl | rfl <;> exact absurd hrun (by simp [Point.run?])

theorem sound_drop (h : Sound s) (idle : s.shared.sessions x = .idle) : Sound ⟨s.shared.close x false, s.calls⟩ := by
  have hnone : s.shared.pending x = [] := h.untouched x (by simp [idle])
  have hpending : (s.shared.close x false).pending = s.shared.pending := by
    show Function.update s.shared.pending x [] = s.shared.pending
    rw [← hnone, Function.update_eq_self]
  refine ⟨guarded_drop h.toGuarded idle, fun y hy => ?_, fun i r hr => ?_, fun d hd hown hquiet => ?_, fun d hd => ?_,
    h.single, fun d hd hown run hrun hheld y hy => ?_⟩
  · show (s.shared.close x false).pending y = []
    rw [hpending]
    by_cases hxy : y = x
    · rw [hxy, hnone]
    · have hy : (s.shared.close x false).sessions y ≠ .taken := hy
      rw [close_sessions, if_neg hxy] at hy
      exact h.untouched y hy
  · apply h.rows i r
    rcases hr with hr | ⟨z, hz⟩
    · exact .inl hr
    · have hz : (i, r) ∈ (s.shared.close x false).pending z := hz
      rw [hpending] at hz
      exact .inr ⟨z, hz⟩
  · show ∀ w ∈ (s.shared.close x false).pending d.session, _
    rw [hpending]
    exact h.quiet d hd hown hquiet
  · refine (h.sees d hd).mono fun i hi => ?_
    rwa [Shared.view, hpending] at hi
  · show run ∉ ((s.shared.close x false).pending y).map Prod.fst
    rw [hpending]
    have hheld : 0 < held (s.shared.close x false).advisory d.session := hheld
    rw [close_held] at hheld
    split_ifs at hheld with hclosed
    · exact absurd hheld (lt_irrefl 0)
    · exact h.unmarked d hd hown run hrun hheld y hy

theorem sound_crash (h : Sound s) (p : π) : Sound ⟨s.shared.crash p, s.calls.filter fun c => c.session.process ≠ p⟩ := by
  have hpending : ∀ y, (s.shared.crash p).pending y = if y.process = p then [] else s.shared.pending y := fun _ => rfl
  have hmem : ∀ d ∈ s.calls.filter fun c => decide (c.session.process ≠ p), d ∈ s.calls ∧ d.session.process ≠ p :=
    fun d hd => by simpa using hd
  refine ⟨guarded_crash h.toGuarded p, fun y hy => ?_, fun i r hr => ?_, fun d hd hown hquiet => ?_, fun d hd => ?_,
    h.single, fun d hd hown run hrun hheld y hy => ?_⟩
  · show (s.shared.crash p).pending y = []
    rw [hpending]
    split_ifs with hp
    · rfl
    · exact h.untouched y (by simpa [Shared.crash, hp] using hy)
  · apply h.rows i r
    rcases hr with hr | ⟨z, hz⟩
    · exact .inl hr
    · have hz : (i, r) ∈ (s.shared.crash p).pending z := hz
      rw [hpending] at hz
      split_ifs at hz
      · exact absurd hz List.not_mem_nil
      · exact .inr ⟨z, hz⟩
  · obtain ⟨hd, hp⟩ := hmem d hd
    show ∀ w ∈ (s.shared.crash p).pending d.session, _
    rw [hpending, if_neg hp]
    exact h.quiet d hd hown hquiet
  · obtain ⟨hd, hp⟩ := hmem d hd
    refine (h.sees d hd).mono fun i hi => ?_
    rwa [Shared.view, hpending, if_neg hp] at hi
  · obtain ⟨hd, hp⟩ := hmem d hd
    show run ∉ ((s.shared.crash p).pending y).map Prod.fst
    rw [hpending]
    have hfilter := held_filter s.shared.advisory (fun z => decide (z.process ≠ p)) d.session
    rw [if_pos (by simpa using hp)] at hfilter
    have hheld : 0 < held (s.shared.advisory.filter fun e => e.1.process ≠ p) d.session := hheld
    rw [hfilter] at hheld
    split_ifs
    · simp
    · exact h.unmarked d hd hown run hrun hheld y hy

/-- **Every step keeps the calls sound.** -/
theorem sound_step {o : Option (Session π)} (h : Sound s) (hs : Step s o t) : Sound t := by
  cases hs with
  | call here moves => exact sound_call h here moves
  | begin ready starts => exact sound_begin h ready starts
  | drop idle => exact sound_drop h idle
  | crash p => exact sound_crash h p

theorem sound_initial : Sound (initial π) where
  owned x := by simp [initial, count]
  claimed x _ := by simp [initial, count]
  untouched _ _ := rfl
  rows i r h := by
    rcases h with h | ⟨x, h⟩
    · exact absurd h (by simp [initial, Dict.get?])
    · exact absurd h List.not_mem_nil
  quiet c hc := absurd hc List.not_mem_nil
  sees c hc := absurd hc List.not_mem_nil
  single i j := by
    rintro ⟨r, hr, -⟩
    exact absurd hr (by simp [initial, Dict.get?])
  unmarked c hc := absurd hc List.not_mem_nil

theorem sound_reaches (h : Reaches (initial π) s) : Sound s := by
  induction h with
  | refl => exact sound_initial
  | tail _ hs ih =>
    obtain ⟨o, hs⟩ := hs
    exact sound_step ih hs

end Runs

/-! ### One update -/

section Update

variable {π : Type*} [DecidableEq π] {s t : System π}

/-- One update at most has the advisory lock, in all processes. -/
theorem updating_le_one (h : Sound s) : s.calls.countP (fun c => c.point.updating) ≤ 1 := by
  by_cases hsome : ∃ c ∈ s.calls, c.point.updating = true
  · obtain ⟨c, hc, hupdating⟩ := hsome
    obtain ⟨l₁, l₂, here⟩ := List.append_of_mem hc
    have hothers : (l₁ ++ l₂).countP (fun d => d.point.updating) = 0 := by
      rw [List.countP_eq_zero]
      intro d hd
      simp [h.alone here hupdating hd]
    rw [List.countP_append] at hothers
    rw [here, List.countP_append, List.countP_cons, if_pos hupdating]
    omega
  · have hnone : s.calls.countP (fun c => c.point.updating) = 0 := by
      rw [List.countP_eq_zero]
      exact fun c hc hupdating => hsome ⟨c, hc, hupdating⟩
    omega

theorem owns_of_run? {a : Point} {run : ℤ} (h : a.run? = some run) : a.owns = true := by
  cases a <;> first | rfl | exact absurd h (by simp [Point.run?])

/-- A row changes by the commit of a transaction that has written it. -/
theorem get?_step {o : Option (Session π)} {run : ℤ} (hs : Step s o t)
    (h : ∀ x, o = some x → run ∉ (s.shared.pending x).map Prod.fst) : t.shared.runs.get? run = s.shared.runs.get? run := by
  cases hs with
  | @call l₁ l₂ c e next here moves =>
    by_cases hcommit : e = .commit
    · subst hcommit
      exact get?_foldl_set _ _ _ (h c.session rfl)
    · show (e.run c.session s.shared).runs.get? run = _
      rw [run_runs e hcommit]
  | begin ready starts => rfl
  | drop idle => rfl
  | crash p => rfl

/-- **Only one MIMIT update runs.** In every state that any requests, workers,
lock checks and crashes of any processes lead to: one update at most is
executing; one row at most of the table is running; and while the connection of
an update has the advisory lock, its run is marked by nobody else, neither in a
transaction that is open nor by a step that is next. -/
theorem only_one_update (h : Reaches (initial π) s) :
    s.calls.countP (fun c => c.point.executing) ≤ 1 ∧
    (∀ i j, Running s.shared.runs i → Running s.shared.runs j → i = j) ∧
    ∀ w ∈ s.calls, ∀ run, w.point.run? = some run → 0 < held s.shared.advisory w.session →
      (∀ y, y ≠ w.session → run ∉ (s.shared.pending y).map Prod.fst) ∧
      ∀ o t, Step s o t → o ≠ some w.session → t.shared.runs.get? run = s.shared.runs.get? run := by
  have hsound := sound_reaches h
  refine ⟨?_, hsound.single, fun w hw run hrun hheld => ?_⟩
  · refine le_trans ?_ (updating_le_one hsound)
    exact List.countP_mono_left fun c _ hc => executing_updating hc
  · have hunmarked := hsound.unmarked w hw (owns_of_run? hrun) run hrun hheld
    refine ⟨hunmarked, fun o t hs ho => get?_step hs fun x hx => hunmarked x ?_⟩
    rintro rfl
    exact ho hx

/-- A step of the only call. -/
theorem Reaches.alone {x : Session π} {a q : Point} {e : Effect} (h : Reaches (initial π) s) (hcalls : s.calls = [⟨x, a⟩])
    (moves : Moves s.shared x a e (some q)) : Reaches (initial π) ⟨e.run x s.shared, [⟨x, q⟩]⟩ := by
  have here : s.calls = [] ++ ⟨x, a⟩ :: [] := hcalls
  exact h.tail ⟨some x, .call here moves⟩

/-- An update that has got to its import. -/
theorem importing_reached : ∃ s : System ℕ, Reaches (initial ℕ) s ∧ s.calls = [⟨⟨0, 0⟩, .importing 1⟩] := by
  have h0 : Reaches (initial ℕ) ⟨(initial ℕ).shared.take ⟨0, 0⟩, [⟨⟨0, 0⟩, .requested⟩]⟩ :=
    .single ⟨_, .begin (.inl rfl) (.inl rfl)⟩
  have h1 := ((h0.alone rfl (.lock rfl)).alone rfl (.acquire rfl)).alone rfl .returns
  have h2 := (h1.alone rfl .reconcile).alone rfl .reconciled
  have hcreate := h2.alone rfl (.create : Moves _ _ .creating (.insert (.create 0)) _)
  have h3 := ((hcreate.alone rfl .commit).alone rfl .schedule).alone rfl .start
  exact ⟨_, h3, rfl⟩

theorem only_one_update_sample : ∃ s : System ℕ, s.calls.countP (fun c => c.point.executing) = 1 ∧
    ∀ i j, Running s.shared.runs i → Running s.shared.runs j → i = j := by
  obtain ⟨s, hs, hcalls⟩ := importing_reached
  exact ⟨s, by rw [hcalls]; rfl, (only_one_update hs).2.1⟩

end Update

end MimitUpdate
end FuelNear

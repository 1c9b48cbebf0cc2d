/-
# Scripts on a database connection

A script runs on one connection. Its statements change what the open
transaction sees (`working`), a commit publishes that, a rollback drops it.
Any step may raise: `faults` says at which steps, by their number, and with
what. A script that commits nothing before its last step, under a handler
that rolls back and a `finally` that closes the connection, commits all or
nothing (`all_or_nothing`): after an exception the committed data are as they
were, and after a success they are what the statements made of them, with no
step having raised.

What a script does to the data is read off step by step with `Yields`, and
what it raises with `bind_error`, `statement_error` and `within_error`.

Key definitions: `Script`, `statement`, `require`, `rollingBack`, `within`, `closing`, `Tentative`, `Atomic`,
`Yields`.
Key theorems: `all_or_nothing`, `within_atomic`, `within_error`, `Ends.bind`, `Tentative.foldlM`, `Yields.bind`,
`Yields.foldlM`.
-/
import Mathlib.Tactic

namespace FuelNear
namespace Connection

/-- What is committed, what the open transaction sees, and the number of steps made. -/
structure Session (σ : Type) where
  committed : σ
  working : σ
  steps : ℕ

/-- A connection as it is handed out: no transaction is open. -/
def Session.opened {σ : Type} (x : σ) : Session σ := ⟨x, x, 0⟩

/-- A script; an exception leaves the session as it found it. -/
abbrev Script (ε σ α : Type) := EStateM ε (Session σ) α

variable {ε σ α β γ : Type} (faults : ℕ → Option ε)

/-! ### The steps -/

/-- A step of the script: it may raise. -/
def step : Script ε σ Unit := fun s =>
  match faults s.steps with
  | none => .ok () { s with steps := s.steps + 1 }
  | some e => .error e { s with steps := s.steps + 1 }

/-- A statement of the transaction. What it takes from the server beside the
data, such as the next value of a sequence, may depend on the step. -/
def statement (f : ℕ → σ → Except ε (α × σ)) : Script ε σ α := fun s =>
  match step faults s with
  | .error e t => .error e t
  | .ok _ t =>
    match f s.steps s.working with
    | .error e => .error e t
    | .ok (a, x) => .ok a { t with working := x }

/-- A computation beside the connection. -/
def compute (c : Except ε α) : Script ε σ α := statement faults fun _ x => c.map (·, x)

/-- `if not p: raise e`. -/
def require (p : Prop) [Decidable p] (e : ε) : Script ε σ Unit := if p then pure () else throw e

def commit : Script ε σ Unit := fun s =>
  match step faults s with
  | .error e t => .error e t
  | .ok _ t => .ok () { t with committed := t.working }

def rollback : Script ε σ Unit := fun s =>
  match step faults s with
  | .error e t => .error e t
  | .ok _ t => .ok () { t with working := t.committed }

/-- `try: … except …: conn.rollback(); raise`; `catches` says which exceptions
the handler is for. -/
def rollingBack (catches : ε → Bool) (m : Script ε σ α) : Script ε σ α := fun s =>
  match m s with
  | .ok a t => .ok a t
  | .error e t => if catches e then (rollback faults >>= fun _ => throw e) t else .error e t

/-- `with conn: …`: a commit on the normal exit, a rollback on an exception. -/
def within (m : Script ε σ α) : Script ε σ α := fun s =>
  match m s with
  | .ok a t => (commit faults >>= fun _ => pure a) t
  | .error e t => (rollback faults >>= fun _ => throw e) t

/-- `try: … finally: conn.close()`; a connection is rolled back as it is closed. -/
def closing (m : Script ε σ α) : Script ε σ α := fun s =>
  match m s with
  | .ok a t => .ok a { t with working := t.committed }
  | .error e t => .error e { t with working := t.committed }

/-! ### Scripts that commit nothing before their end -/

/-- No step from `s` to `t` raises. -/
structure Quiet (s t : Session σ) : Prop where
  steps : s.steps ≤ t.steps
  quiet : ∀ n, s.steps ≤ n → n < t.steps → faults n = none

/-- The script completes only as `R` says, and commits nothing if it raises. -/
def Ends (R : Session σ → Session σ → Prop) (m : Script ε σ α) : Prop :=
  ∀ s, match m s with
    | .ok _ t => R s t
    | .error _ t => t.committed = s.committed

/-- The script commits nothing, and completes only if none of its steps raises. -/
def Tentative (m : Script ε σ α) : Prop := Ends (fun s t => t.committed = s.committed ∧ Quiet faults s t) m

/-- The script commits all it did, and that only if none of its steps raises. -/
def Atomic (m : Script ε σ α) : Prop := Ends (fun s t => t.committed = t.working ∧ Quiet faults s t) m

variable {faults} {m : Script ε σ α} {f : α → Script ε σ β} {s t u : Session σ} {x y : σ} {a : α} {b : β}

theorem Quiet.refl (s : Session σ) : Quiet faults s s :=
  ⟨le_rfl, fun _ h h' => absurd (lt_of_le_of_lt h h') (lt_irrefl _)⟩

theorem Quiet.trans (h : Quiet faults s t) (h' : Quiet faults t u) : Quiet faults s u where
  steps := h.steps.trans h'.steps
  quiet n hs hu := by
    by_cases hn : n < t.steps
    · exact h.quiet n hs hn
    · exact h'.quiet n (not_lt.mp hn) hu

theorem step_ok (h : step faults s = .ok () t) :
    t.committed = s.committed ∧ t.working = s.working ∧ Quiet faults s t := by
  unfold step at h
  split at h
  · next hf =>
    obtain ⟨-, rfl⟩ := EStateM.Result.ok.inj h
    refine ⟨rfl, rfl, Nat.le_succ _, fun n hs hn => ?_⟩
    obtain rfl : n = s.steps := by
      have hn' : n < s.steps + 1 := hn
      omega
    exact hf
  · exact absurd h (by simp)

theorem step_error {e : ε} (h : step faults s = .error e t) : t.committed = s.committed := by
  unfold step at h
  split at h
  · exact absurd h (by simp)
  · obtain ⟨-, rfl⟩ := EStateM.Result.error.inj h
    rfl

/-- What comes first commits nothing: the rest decides how the script ends. -/
theorem Ends.bind {R : Session σ → Session σ → Prop} (hm : Tentative faults m) (hf : ∀ a, Ends R (f a))
    (hR : ∀ s t u, t.committed = s.committed → Quiet faults s t → R t u → R s u) : Ends R (m >>= f) := by
  intro s
  have h := hm s
  have hbind : (m >>= f) s = EStateM.bind m f s := rfl
  rw [hbind, EStateM.bind]
  cases hms : m s with
  | error e t =>
    rw [hms] at h
    exact h
  | ok a t =>
    rw [hms] at h
    obtain ⟨hc, hq⟩ := h
    have h' := hf a t
    cases hft : f a t with
    | error e u =>
      rw [hft] at h'
      simp only [hft]
      exact h'.trans hc
    | ok b u =>
      rw [hft] at h'
      simp only [hft]
      exact hR s t u hc hq h'

namespace Tentative

theorem pure (a : α) : Tentative faults (Pure.pure a : Script ε σ α) := fun s => ⟨rfl, Quiet.refl s⟩

theorem require (p : Prop) [Decidable p] (e : ε) :
    Tentative faults (Connection.require p e : Script ε σ Unit) := by
  unfold Connection.require
  split_ifs
  · exact pure ()
  · exact fun _ => rfl

theorem bind (hm : Tentative faults m) (hf : ∀ a, Tentative faults (f a)) : Tentative faults (m >>= f) :=
  Ends.bind hm hf fun _ _ _ hc hq h => ⟨h.1.trans hc, hq.trans h.2⟩

/-- A script may start with what commits nothing. -/
theorem bind_atomic (hm : Tentative faults m) (hf : ∀ a, Atomic faults (f a)) : Atomic faults (m >>= f) :=
  Ends.bind hm hf fun _ _ _ _ hq h => ⟨h.1, hq.trans h.2⟩

theorem statement (f : ℕ → σ → Except ε (α × σ)) : Tentative faults (Connection.statement faults f) := by
  intro s
  unfold Connection.statement
  cases hs : step faults s with
  | error e t => exact step_error hs
  | ok _ t =>
    obtain ⟨hc, -, hq⟩ := step_ok hs
    dsimp only
    cases f s.steps s.working with
    | error e => exact hc
    | ok p => exact ⟨hc, hq.steps, hq.quiet⟩

theorem compute (c : Except ε α) : Tentative faults (Connection.compute faults c : Script ε σ α) := statement _

theorem foldlM {g : β → γ → Script ε σ β} (hg : ∀ b c, Tentative faults (g b c)) :
    ∀ (l : List γ) (b : β), Tentative faults (l.foldlM g b)
  | [], b => pure b
  | c :: l, b => by
    rw [List.foldlM_cons]
    exact bind (hg b c) fun b' => foldlM hg l b'

theorem forM {g : γ → Script ε σ PUnit} (hg : ∀ c, Tentative faults (g c)) :
    ∀ l : List γ, Tentative faults (l.forM g)
  | [] => pure _
  | c :: l => bind (hg c) fun _ => forM hg l

end Tentative

/-- A commit, and the answer. -/
theorem atomic_commit (a : α) : Atomic faults (commit faults >>= fun _ => (pure a : Script ε σ α)) := by
  intro s
  have hbind : (commit faults >>= fun _ => (pure a : Script ε σ α)) s =
      EStateM.bind (commit faults) (fun _ => pure a) s := rfl
  rw [hbind, EStateM.bind, commit]
  cases hs : step faults s with
  | error e t => exact step_error hs
  | ok _ t =>
    obtain ⟨-, -, hq⟩ := step_ok hs
    exact ⟨rfl, hq.steps, hq.quiet⟩

/-! ### Runs of a script -/

section

variable {e : ε}

theorem bind_ok (h : (m >>= f) s = .ok b u) : ∃ a t, m s = .ok a t ∧ f a t = .ok b u := by
  have hbind : EStateM.bind m f s = .ok b u := h
  rw [EStateM.bind] at hbind
  cases hms : m s with
  | error e t =>
    rw [hms] at hbind
    exact absurd hbind (by simp)
  | ok a t =>
    rw [hms] at hbind
    exact ⟨a, t, rfl, hbind⟩

theorem bind_error (h : (m >>= f) s = .error e u) :
    m s = .error e u ∨ ∃ a t, m s = .ok a t ∧ f a t = .error e u := by
  have hbind : EStateM.bind m f s = .error e u := h
  rw [EStateM.bind] at hbind
  cases hms : m s with
  | error e' t =>
    rw [hms] at hbind
    obtain ⟨rfl, rfl⟩ := EStateM.Result.error.inj hbind
    exact .inl rfl
  | ok a t =>
    rw [hms] at hbind
    exact .inr ⟨a, t, rfl, hbind⟩

theorem step_cases (faults : ℕ → Option ε) (s : Session σ) :
    (∃ e, faults s.steps = some e ∧ step faults s = .error e { s with steps := s.steps + 1 }) ∨
      faults s.steps = none ∧ step faults s = .ok () { s with steps := s.steps + 1 } := by
  cases hfs : faults s.steps with
  | some e => exact .inl ⟨e, rfl, by simp [step, hfs]⟩
  | none => exact .inr ⟨rfl, by simp [step, hfs]⟩

theorem statement_ok {g : ℕ → σ → Except ε (α × σ)} (h : statement faults g s = .ok a t) :
    faults s.steps = none ∧ g s.steps s.working = .ok (a, t.working) ∧ t.steps = s.steps + 1 := by
  unfold statement at h
  rcases step_cases faults s with ⟨e, -, hs⟩ | ⟨hquiet, hs⟩
  · rw [hs] at h
    exact absurd h (by simp)
  · rw [hs] at h
    dsimp only at h
    cases hg : g s.steps s.working with
    | error e' =>
      rw [hg] at h
      exact absurd h (by simp)
    | ok p =>
      rw [hg] at h
      obtain ⟨rfl, rfl⟩ := EStateM.Result.ok.inj h
      exact ⟨hquiet, rfl, rfl⟩

/-- What a statement raises is the fault of its step, or its own. -/
theorem statement_error {g : ℕ → σ → Except ε (α × σ)} (h : statement faults g s = .error e t) :
    faults s.steps = some e ∨ faults s.steps = none ∧ g s.steps s.working = .error e := by
  unfold statement at h
  rcases step_cases faults s with ⟨e', hfault, hs⟩ | ⟨hquiet, hs⟩
  · rw [hs] at h
    exact .inl (hfault.trans (congrArg some (EStateM.Result.error.inj h).1))
  · rw [hs] at h
    dsimp only at h
    cases hg : g s.steps s.working with
    | error e' =>
      rw [hg] at h
      exact .inr ⟨hquiet, congrArg Except.error (EStateM.Result.error.inj h).1⟩
    | ok p =>
      rw [hg] at h
      exact absurd h (by simp)

theorem compute_ok {c : Except ε α} (h : (compute faults c : Script ε σ α) s = .ok a t) :
    faults s.steps = none ∧ c = .ok a ∧ t.working = s.working ∧ t.steps = s.steps + 1 := by
  obtain ⟨hquiet, hc, hsteps⟩ := statement_ok h
  cases c with
  | error e => exact absurd hc (by simp [Except.map])
  | ok b =>
    obtain ⟨rfl, hw⟩ := Prod.mk.inj (Except.ok.inj hc)
    exact ⟨hquiet, rfl, hw.symm, hsteps⟩

theorem compute_error {c : Except ε α} (h : (compute faults c : Script ε σ α) s = .error e t) :
    faults s.steps = some e ∨ c = .error e := by
  rcases statement_error h with hfault | ⟨-, hc⟩
  · exact .inl hfault
  · cases c with
    | error e' => exact .inr (congrArg Except.error (Except.error.inj hc))
    | ok b => exact absurd hc (by simp [Except.map])

theorem commit_error (h : commit faults s = .error e t) : faults s.steps = some e := by
  unfold commit at h
  rcases step_cases faults s with ⟨e', hfault, hs⟩ | ⟨-, hs⟩
  · rw [hs] at h
    exact hfault.trans (congrArg some (EStateM.Result.error.inj h).1)
  · rw [hs] at h
    exact absurd h (by simp)

theorem rollback_error (h : rollback faults s = .error e t) : faults s.steps = some e := by
  unfold rollback at h
  rcases step_cases faults s with ⟨e', hfault, hs⟩ | ⟨-, hs⟩
  · rw [hs] at h
    exact hfault.trans (congrArg some (EStateM.Result.error.inj h).1)
  · rw [hs] at h
    exact absurd h (by simp)

theorem rollback_ok (h : rollback faults s = .ok () t) : faults s.steps = none := by
  unfold rollback at h
  rcases step_cases faults s with ⟨e, -, hs⟩ | ⟨hquiet, -⟩
  · rw [hs] at h
    exact absurd h (by simp)
  · exact hquiet

/-- What is raised out of a `with conn:` is a fault, or what its body raised
before a rollback that went well. -/
theorem within_error (h : within faults m s = .error e u) :
    (∃ n, faults n = some e) ∨ ∃ t, m s = .error e t ∧ faults t.steps = none := by
  unfold within at h
  cases hms : m s with
  | ok a t =>
    rw [hms] at h
    rcases bind_error h with hc | ⟨_, v, -, hp⟩
    · exact .inl ⟨_, commit_error hc⟩
    · exact absurd (show EStateM.Result.ok a v = .error e u from hp) (by simp)
  | error e' t =>
    rw [hms] at h
    rcases bind_error h with hr | ⟨_, v, hr, hthrow⟩
    · exact .inl ⟨_, rollback_error hr⟩
    · obtain ⟨rfl, -⟩ := EStateM.Result.error.inj (show EStateM.Result.error e' v = .error e u from hthrow)
      exact .inr ⟨t, rfl, rollback_ok hr⟩

theorem closing_error (h : closing m s = .error e u) : ∃ t, m s = .error e t := by
  unfold closing at h
  cases hms : m s with
  | ok a t =>
    rw [hms] at h
    exact absurd h (by simp)
  | error e' t =>
    rw [hms] at h
    exact ⟨t, by rw [(EStateM.Result.error.inj h).1]⟩

end

/-! ### What a script makes of the data -/

/-- Run on the data `x`, the script completes with `a` and leaves `y`. -/
def Yields (m : Script ε σ α) (x : σ) (a : α) (y : σ) : Prop :=
  ∃ s t, m s = .ok a t ∧ s.working = x ∧ t.working = y

namespace Yields

theorem pure {a' : α} (h : Yields (Pure.pure a : Script ε σ α) x a' y) : a' = a ∧ y = x := by
  obtain ⟨s, t, hst, rfl, rfl⟩ := h
  obtain ⟨rfl, rfl⟩ := EStateM.Result.ok.inj hst
  exact ⟨rfl, rfl⟩

theorem require {p : Prop} [Decidable p] {e : ε} {r : Unit}
    (h : Yields (Connection.require p e : Script ε σ Unit) x r y) : p ∧ y = x := by
  unfold Connection.require at h
  split_ifs at h with hp
  · exact ⟨hp, (pure h).2⟩
  · obtain ⟨s, t, hst, -, -⟩ := h
    have hthrow : EStateM.Result.error e s = .ok r t := hst
    exact absurd hthrow (by simp)

/-- The script `m >>= f` completes through what `m` answers and leaves. -/
theorem bind (h : Yields (m >>= f) x b y) : ∃ a z, Yields m x a z ∧ Yields (f a) z b y := by
  obtain ⟨s, u, hsu, rfl, rfl⟩ := h
  obtain ⟨a, t, hst, htu⟩ := bind_ok hsu
  exact ⟨a, t.working, ⟨s, t, hst, rfl, rfl⟩, t, u, htu, rfl, rfl⟩

theorem statement {g : ℕ → σ → Except ε (α × σ)} (h : Yields (Connection.statement faults g) x a y) :
    ∃ n, g n x = .ok (a, y) := by
  obtain ⟨s, t, hst, rfl, rfl⟩ := h
  exact ⟨_, (statement_ok hst).2.1⟩

theorem compute {c : Except ε α} (h : Yields (Connection.compute faults c : Script ε σ α) x a y) :
    c = .ok a ∧ y = x := by
  obtain ⟨-, hn⟩ := statement h
  cases c with
  | error e => exact absurd hn (by simp [Except.map])
  | ok c =>
    obtain ⟨rfl, rfl⟩ : c = a ∧ x = y := by simpa [Except.map] using hn
    exact ⟨rfl, rfl⟩

theorem commit {r : Unit} (h : Yields (Connection.commit faults : Script ε σ Unit) x r y) : y = x := by
  obtain ⟨s, t, hst, rfl, rfl⟩ := h
  unfold Connection.commit at hst
  split at hst
  · exact absurd hst (by simp)
  · next hs =>
    obtain ⟨-, rfl⟩ := EStateM.Result.ok.inj hst
    exact (step_ok hs).2.1

/-- What each turn of a loop keeps holds after the loop; `I` reads the items done. -/
theorem foldlM {g : β → γ → Script ε σ β} {I : List γ → β → σ → Prop}
    (hg : ∀ done c b x b' y, I done b x → Yields (g b c) x b' y → I (done ++ [c]) b' y) :
    ∀ (l : List γ) {done : List γ} {b b' : β} {x y : σ}, I done b x → Yields (l.foldlM g b) x b' y → I (done ++ l) b' y
  | [], done, b, b', x, y, hI, h => by
    obtain ⟨rfl, rfl⟩ := pure h
    rwa [List.append_nil]
  | c :: l, done, b, b', x, y, hI, h => by
    rw [List.foldlM_cons] at h
    obtain ⟨b₁, z, h1, h2⟩ := bind h
    rw [List.append_cons]
    exact foldlM hg l (hg done c b x b₁ z hI h1) h2

/-- As `foldlM`, for a loop that carries nothing. -/
theorem forM {g : γ → Script ε σ PUnit} {I : List γ → σ → Prop}
    (hg : ∀ done c x r y, I done x → Yields (g c) x r y → I (done ++ [c]) y) :
    ∀ (l : List γ) {done : List γ} {r : PUnit} {x y : σ}, I done x → Yields (l.forM g) x r y → I (done ++ l) y
  | [], done, r, x, y, hI, h => by
    obtain ⟨-, rfl⟩ := pure h
    rwa [List.append_nil]
  | c :: l, done, r, x, y, hI, h => by
    have hbind : Yields (g c >>= fun _ => l.forM g) x r y := h
    obtain ⟨r₁, z, h1, h2⟩ := bind hbind
    rw [List.append_cons]
    exact forM hg l (hg done c x r₁ z hI h1) h2

end Yields

/-! ### All or nothing -/

/-- A rollback before the exception goes on publishes nothing. -/
theorem rollback_throw (faults : ℕ → Option ε) (α : Type) (e : ε) (s : Session σ) :
    match (rollback faults >>= fun _ => (throw e : Script ε σ α)) s with
    | .ok _ _ => False
    | .error _ t => t.committed = s.committed := by
  have hbind : (rollback faults >>= fun _ => (throw e : Script ε σ α)) s =
      EStateM.bind (rollback faults) (fun _ => throw e) s := rfl
  rw [hbind, EStateM.bind, rollback]
  cases hs : step faults s with
  | error e' t => exact step_error hs
  | ok _ t => exact (step_ok hs).1

/-- The handler publishes nothing: an exception goes on to the caller. -/
theorem rollingBack_ends {R : Session σ → Session σ → Prop} (hm : Ends R m) (catches : ε → Bool) :
    Ends R (rollingBack faults catches m) := by
  intro s
  have h := hm s
  unfold rollingBack
  cases hms : m s with
  | ok a t =>
    rw [hms] at h
    exact h
  | error e t =>
    rw [hms] at h
    dsimp only
    by_cases hc : catches e = true
    · rw [if_pos hc]
      have hr := rollback_throw faults α e t
      cases hrt : (rollback faults >>= fun _ => (throw e : Script ε σ α)) t with
      | ok a u =>
        rw [hrt] at hr
        exact hr.elim
      | error e' u =>
        rw [hrt] at hr
        exact hr.trans h
    · rw [if_neg hc]
      exact h

/-- A `with conn:` commits all that the script did, or nothing. -/
theorem within_atomic (hm : Tentative faults m) : Atomic faults (within faults m) := by
  intro s
  have h := hm s
  unfold within
  cases hms : m s with
  | ok a t =>
    rw [hms] at h
    dsimp only
    have hcommit := (atomic_commit a : Atomic faults (commit faults >>= fun _ => (pure a : Script ε σ α))) t
    cases hct : (commit faults >>= fun _ => (pure a : Script ε σ α)) t with
    | ok b u =>
      rw [hct] at hcommit
      exact ⟨hcommit.1, h.2.trans hcommit.2⟩
    | error e u =>
      rw [hct] at hcommit
      exact hcommit.trans h.1
  | error e t =>
    rw [hms] at h
    dsimp only
    have hr := rollback_throw faults α e t
    cases hrt : (rollback faults >>= fun _ => (throw e : Script ε σ α)) t with
    | ok a u =>
      rw [hrt] at hr
      exact hr.elim
    | error e' u =>
      rw [hrt] at hr
      exact hr.trans h

/-- **All or nothing.** A script that commits only at its end, run on a fresh
connection under `except: rollback; raise` and `finally: close`, publishes
what its statements yield and no step raised, or it raises and publishes
nothing. -/
theorem all_or_nothing (hm : Atomic faults m) (catches : ε → Bool) (x : σ) :
    match closing (rollingBack faults catches m) (.opened x) with
    | .ok a t => Yields m x a t.committed ∧ ∀ n < t.steps, faults n = none
    | .error _ t => t.committed = x := by
  have h : match rollingBack faults catches m (.opened x) with
      | .ok _ t => t.committed = t.working ∧ Quiet faults (.opened x) t
      | .error _ t => t.committed = x := rollingBack_ends hm catches (.opened x)
  unfold closing
  cases hrb : rollingBack faults catches m (.opened x) with
  | error e t =>
    rw [hrb] at h
    exact h
  | ok a t =>
    rw [hrb] at h
    obtain ⟨hc, hq⟩ := h
    refine ⟨?_, fun n hn => hq.quiet n (Nat.zero_le n) hn⟩
    -- a completed script completed by itself: the handler answers nothing
    unfold rollingBack at hrb
    cases hms : m (.opened x) with
    | ok a' t' =>
      rw [hms] at hrb
      obtain ⟨rfl, rfl⟩ := EStateM.Result.ok.inj hrb
      exact ⟨_, _, hms, rfl, hc.symm⟩
    | error e t' =>
      rw [hms] at hrb
      dsimp only at hrb
      split_ifs at hrb
      have hbind : EStateM.bind (rollback faults) (fun _ => throw e) t' = .ok a t := hrb
      rw [EStateM.bind] at hbind
      split at hbind
      · have hthrow : EStateM.Result.error e _ = .ok a t := hbind
        exact absurd hthrow (by simp)
      · exact absurd hbind (by simp)

end Connection
end FuelNear

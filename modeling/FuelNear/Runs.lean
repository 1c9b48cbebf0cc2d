/-
# Runs of calls on a state

A call either completes, with an answer and a new state, or is refused and
leaves the state as it was: the work of each call is one transaction. `Run`
is any sequence of calls, with the log of those that completed and their
answers. A run goes on from where another ended, splits at any logged call,
keeps what every completed call keeps, and can be watched through a
projection that each call steps. `trace` lists the completed calls of a run
with the state that each found.

Key definitions: `Run`, `EveryCall`, `EveryStep`, `execute`, `trace`.
Key theorems: `bind_eq_ok`, `mapError_eq_ok`, `toOption_eq_some`, `Run.trans`,
`Run.invariant`, `Run.unique`, `Run.split`, `Run.split_first`, `Run.foldl`, `run_execute`, `trace_spec`,
`everyCall_of_trace`, `trace_from`.
-/
import Mathlib.Data.List.Basic
import Mathlib.Tactic

namespace FuelNear

/-- A computation completes if both of its parts do. -/
theorem bind_eq_ok.{u, v} {ε : Type u} {α β : Type v} {x : Except ε α} {f : α → Except ε β} {b : β} :
    (x >>= f) = .ok b ↔ ∃ a, x = .ok a ∧ f a = .ok b := by
  cases x <;> simp [bind, Except.bind]

theorem bind_eq_error.{u, v} {ε : Type u} {α β : Type v} {x : Except ε α} {f : α → Except ε β} {e : ε} :
    x >>= f = .error e ↔ x = .error e ∨ ∃ a, x = .ok a ∧ f a = .error e := by
  cases x <;> simp [bind, Except.bind]

theorem mapError_eq_ok {ε δ α : Type*} {x : Except ε α} {f : ε → δ} {a : α} : x.mapError f = .ok a ↔ x = .ok a := by
  cases x <;> simp [Except.mapError]

theorem toOption_eq_some {ε α : Type*} {x : Except ε α} {a : α} : x.toOption = some a ↔ x = .ok a := by
  cases x <;> simp [Except.toOption]

/-- The state `s'` reached from `s` by calls of `op`, and the log of the
completed calls with their answers. -/
inductive Run {σ α ε ρ : Type*} (op : α → σ → Except ε (ρ × σ)) (s : σ) : List (α × ρ) → σ → Prop where
  | start : Run op s [] s
  | done {log s' a out s''} : Run op s log s' → op a s' = .ok (out, s'') → Run op s (log ++ [(a, out)]) s''
  | refused {log s' a e} : Run op s log s' → op a s' = .error e → Run op s log s'

namespace Run

variable {σ α ε ρ : Type*} {op : α → σ → Except ε (ρ × σ)} {s t u : σ} {l m : List (α × ρ)}

/-- A run of one completed call. -/
theorem single {a : α} {out : ρ} (h : op a s = .ok (out, t)) : Run op s [(a, out)] t :=
  start.done h

/-- A run may go on from where another ended. -/
theorem trans (h : Run op s l t) (h' : Run op t m u) : Run op s (l ++ m) u := by
  induction h' with
  | start => rw [List.append_nil]; exact h
  | done _ hop ih => rw [← List.append_assoc]; exact ih.done hop
  | refused _ hop ih => exact ih.refused hop

/-- What every completed call keeps, a run keeps. -/
theorem invariant {P : σ → Prop} (hstep : ∀ a x out y, P x → op a x = .ok (out, y) → P y)
    (h : Run op s l t) (h0 : P s) : P t := by
  induction h with
  | start => exact h0
  | done _ hop ih => exact hstep _ _ _ _ ih hop
  | refused _ _ ih => exact ih

/-- As `invariant`, for calls known to be among the logged ones. -/
theorem invariant_of_mem {P : σ → Prop} (h : Run op s l t)
    (hstep : ∀ a x out y, (a, out) ∈ l → P x → op a x = .ok (out, y) → P y) (h0 : P s) : P t := by
  induction h with
  | start => exact h0
  | done _ hop ih =>
    exact hstep _ _ _ _ (by simp) (ih fun a x out y ha => hstep a x out y (List.mem_append_left _ ha)) hop
  | refused _ _ ih => exact ih hstep

/-- The last logged call gave the final state. -/
theorem last {a : α} {out : ρ} (h : Run op s (l ++ [(a, out)]) u) :
    ∃ x, Run op s l x ∧ op a x = .ok (out, u) := by
  generalize hk : l ++ [(a, out)] = k at h
  induction h with
  | start => simp at hk
  | @done k' x b o y hrun hop _ =>
    obtain ⟨rfl, hx⟩ := List.append_inj' hk rfl
    obtain ⟨rfl, rfl⟩ : a = b ∧ out = o := by simpa using hx
    exact ⟨x, hrun, hop⟩
  | refused _ _ ih => exact ih hk

/-- A run splits where its log splits. -/
theorem split_append : ∀ {m : List (α × ρ)} {u : σ}, Run op s (l ++ m) u → ∃ t, Run op s l t ∧ Run op t m u := by
  intro m
  induction m using List.reverseRecOn with
  | nil =>
    intro u h
    rw [List.append_nil] at h
    exact ⟨u, h, start⟩
  | append_singleton m x ih =>
    intro u h
    rw [← List.append_assoc] at h
    obtain ⟨y, h1, hop⟩ := last h
    obtain ⟨t, h2, h3⟩ := ih h1
    exact ⟨t, h2, h3.done hop⟩

/-- The log determines the state. -/
theorem unique : ∀ {l : List (α × ρ)} {t u : σ}, Run op s l t → Run op s l u → t = u := by
  intro l
  induction l using List.reverseRecOn with
  | nil =>
    have hstart : ∀ {l : List (α × ρ)} {x : σ}, Run op s l x → l = [] → x = s := by
      intro l x h
      induction h with
      | start => exact fun _ => rfl
      | done _ _ _ => exact fun hl => absurd hl (by simp)
      | refused _ _ ih => exact ih
    intro t u ht hu
    rw [hstart ht rfl, hstart hu rfl]
  | append_singleton l e ih =>
    intro t u ht hu
    obtain ⟨x, hx, hxt⟩ := last ht
    obtain ⟨y, hy, hyu⟩ := last hu
    rw [ih hx hy, hyu] at hxt
    exact (Prod.mk.inj (Except.ok.inj hxt)).2.symm

/-- A run splits at a logged call. -/
theorem split {a : α} {out : ρ} (h : Run op s l u) (ha : (a, out) ∈ l) :
    ∃ l₁ l₂ x y, l = l₁ ++ (a, out) :: l₂ ∧ Run op s l₁ x ∧ op a x = .ok (out, y) ∧ Run op y l₂ u := by
  obtain ⟨l₁, l₂, rfl⟩ := List.append_of_mem ha
  rw [List.append_cons] at h
  obtain ⟨y, h1, h2⟩ := split_append h
  obtain ⟨x, h3, hop⟩ := last h1
  exact ⟨l₁, l₂, x, y, rfl, h3, hop, h2⟩

/-- The call at a place of the log, from the state that the log before leads to. -/
theorem call_at {a : α} {out : ρ} {x : σ} (h : Run op s (l ++ (a, out) :: m) u) (hx : Run op s l x) :
    ∃ y, op a x = .ok (out, y) ∧ Run op y m u := by
  rw [List.append_cons] at h
  obtain ⟨y, h1, h2⟩ := split_append h
  obtain ⟨x', h3, hop⟩ := last h1
  rw [unique h3 hx] at hop
  exact ⟨y, hop, h2⟩

/-- A run splits at the first logged call of a kind. -/
theorem split_first {p : α × ρ → Bool} (h : Run op s l u) (hp : ∃ e ∈ l, p e = true) :
    ∃ l₁ a out l₂ x y, l = l₁ ++ (a, out) :: l₂ ∧ p (a, out) = true ∧ (∀ e ∈ l₁, p e = false) ∧
      Run op s l₁ x ∧ op a x = .ok (out, y) ∧ Run op y l₂ u := by
  obtain ⟨e, he⟩ := Option.isSome_iff_exists.mp (List.find?_isSome.mpr hp)
  obtain ⟨hpe, l₁, l₂, rfl, hl₁⟩ := List.find?_eq_some_iff_append.mp he
  rw [List.append_cons] at h
  obtain ⟨y, h1, h2⟩ := split_append h
  obtain ⟨x, h3, hop⟩ := last h1
  exact ⟨l₁, e.1, e.2, l₂, x, y, rfl, hpe, fun b hb => by simpa using hl₁ b hb, h3, hop, h2⟩

/-- A projection that every completed call steps is folded over the log. -/
theorem foldl {β : Type*} (π : σ → β) (f : β → α → β)
    (hstep : ∀ a x out y, op a x = .ok (out, y) → π y = f (π x) a) (h : Run op s l t) :
    π t = (l.map (·.1)).foldl f (π s) := by
  induction h with
  | start => rfl
  | done _ hop ih => rw [List.map_append, List.foldl_append, ← ih, hstep _ _ _ _ hop]; rfl
  | refused _ _ ih => exact ih

end Run

/-- Every logged call of a run from `s` met the condition, which may look at
the log and the state before the call. -/
def EveryCall {σ α ε ρ : Type*} (op : α → σ → Except ε (ρ × σ)) (s : σ) (C : List (α × ρ) → σ → α → Prop)
    (l : List (α × ρ)) : Prop :=
  ∀ l₁ a out l₂ x, l = l₁ ++ (a, out) :: l₂ → Run op s l₁ x → C l₁ x a

theorem EveryCall.of_append {σ α ε ρ : Type*} {op : α → σ → Except ε (ρ × σ)} {s : σ}
    {C : List (α × ρ) → σ → α → Prop} {l m : List (α × ρ)} (h : EveryCall op s C (l ++ m)) : EveryCall op s C l := by
  intro l₁ a out l₂ x hl hx
  exact h l₁ a out (l₂ ++ m) x (by simp [hl]) hx

/-- Every logged call of a run from `s` did what `D` asks of the state it found
and the state it left. -/
def EveryStep {σ α ε ρ : Type*} (op : α → σ → Except ε (ρ × σ)) (s : σ) (D : σ → α → ρ → σ → Prop)
    (l : List (α × ρ)) : Prop :=
  ∀ l₁ a out l₂ x y, l = l₁ ++ (a, out) :: l₂ → Run op s l₁ x → op a x = .ok (out, y) → D x a out y

/-- The calls of a list, one after the other: the log and the final state. -/
def execute {σ α ε ρ : Type*} (op : α → σ → Except ε (ρ × σ)) : σ → List α → List (α × ρ) × σ
  | s, [] => ([], s)
  | s, a :: l =>
    match op a s with
    | .ok (out, t) => ((a, out) :: (execute op t l).1, (execute op t l).2)
    | .error _ => execute op s l

theorem run_execute {σ α ε ρ : Type*} (op : α → σ → Except ε (ρ × σ)) : ∀ (l : List α) (s : σ),
    Run op s (execute op s l).1 (execute op s l).2
  | [], _ => .start
  | a :: l, s => by
    unfold execute
    cases h : op a s with
    | ok x => exact (Run.single h).trans (run_execute op l x.2)
    | error e => simpa using (Run.start.refused h).trans (run_execute op l s)

theorem execute_append {σ α ε ρ : Type*} (op : α → σ → Except ε (ρ × σ)) : ∀ (l m : List α) (s : σ),
    (execute op s (l ++ m)).1 = (execute op s l).1 ++ (execute op (execute op s l).2 m).1
  | [], _, _ => rfl
  | a :: l, m, s => by
    rw [List.cons_append, execute, execute]
    cases op a s with
    | ok x => exact congrArg ((a, x.1) :: ·) (execute_append op l m x.2)
    | error e => exact execute_append op l m s

/-- Only calls of the list are logged. -/
theorem mem_execute {σ α ε ρ : Type*} {op : α → σ → Except ε (ρ × σ)} {e : α × ρ} : ∀ {l : List α} {s : σ},
    e ∈ (execute op s l).1 → e.1 ∈ l
  | [], _, h => by simp [execute] at h
  | a :: l, s, h => by
    unfold execute at h
    cases hop : op a s with
    | ok x =>
      rw [hop] at h
      rcases List.mem_cons.mp h with rfl | hmem
      · exact List.mem_cons_self
      · exact List.mem_cons_of_mem _ (mem_execute hmem)
    | error err =>
      rw [hop] at h
      exact List.mem_cons_of_mem _ (mem_execute h)

/-! ### The states in between -/

/-- A completed call, with the state it found and its answer. -/
structure Event (σ α ρ : Type*) where
  before : σ
  call : α
  answer : ρ

section Trace

variable {σ α ε ρ : Type*} (op : α → σ → Except ε (ρ × σ))

/-- The completed calls of a list, each with the state it found. -/
def trace : σ → List α → List (Event σ α ρ)
  | _, [] => []
  | s, a :: l =>
    match op a s with
    | .ok (out, t) => ⟨s, a, out⟩ :: trace t l
    | .error _ => trace s l

variable {op} {P : σ → Prop}

theorem trace_cons_ok {s t : σ} {a : α} {out : ρ} (l : List α) (h : op a s = .ok (out, t)) :
    trace op s (a :: l) = ⟨s, a, out⟩ :: trace op t l := by
  rw [trace, h]

theorem trace_cons_error {s : σ} {a : α} {e : ε} (l : List α) (h : op a s = .error e) :
    trace op s (a :: l) = trace op s l := by
  rw [trace, h]

/-- The log of the calls of a list is what their trace shows. -/
theorem execute_log : ∀ (l : List α) (s : σ), (execute op s l).1 = (trace op s l).map fun e => (e.call, e.answer)
  | [], _ => rfl
  | a :: l, s => by
    rw [execute, trace]
    cases op a s with
    | ok x => exact congrArg ((a, x.1) :: ·) (execute_log l x.2)
    | error e => exact execute_log l s

/-- Every event is a completed call, on a state with what every call keeps. -/
theorem trace_spec (hstep : ∀ a x out y, P x → op a x = .ok (out, y) → P y) : ∀ (l : List α) (s : σ), P s →
    ∀ e ∈ trace op s l, P e.before ∧ ∃ t, op e.call e.before = .ok (e.answer, t)
  | [], _, _, e, he => by simp [trace] at he
  | a :: l, s, hs, e, he => by
    cases hop : op a s with
    | error err =>
      rw [trace_cons_error l hop] at he
      exact trace_spec hstep l s hs e he
    | ok x =>
      obtain ⟨out, t⟩ := x
      rw [trace_cons_ok l hop] at he
      rcases List.mem_cons.mp he with rfl | he
      · exact ⟨hs, t, hop⟩
      · exact trace_spec hstep l t (hstep a s out t hs hop) e he

/-- A logged call is in the trace, with the state that it found. -/
theorem mem_trace_of_log : ∀ {l : List α} {s x : σ} {l₁ l₂ : List (α × ρ)} {a : α} {out : ρ},
    (execute op s l).1 = l₁ ++ (a, out) :: l₂ → Run op s l₁ x → ⟨x, a, out⟩ ∈ trace op s l
  | [], _, _, _, _, _, _, hlog, _ => by simp [execute] at hlog
  | b :: l, s, x, l₁, l₂, a, out, hlog, hx => by
    unfold execute at hlog
    cases hop : op b s with
    | error e =>
      rw [hop] at hlog
      rw [trace_cons_error l hop]
      exact mem_trace_of_log hlog hx
    | ok y =>
      obtain ⟨o, t⟩ := y
      rw [hop] at hlog
      rw [trace_cons_ok l hop]
      cases l₁ with
      | nil =>
        obtain ⟨hhead, -⟩ := List.cons.inj hlog
        obtain ⟨rfl, rfl⟩ := Prod.mk.inj hhead
        obtain rfl : s = x := Run.start.unique hx
        exact List.mem_cons_self
      | cons e l₁ =>
        obtain ⟨rfl, htail⟩ := List.cons.inj hlog
        obtain ⟨t', ht, hrest⟩ := Run.call_at (l := []) hx .start
        obtain rfl : t = t' := by
          rw [hop] at ht
          exact (Prod.mk.inj (Except.ok.inj ht)).2
        exact List.mem_cons_of_mem _ (mem_trace_of_log htail hrest)

/-- A condition on every event of the trace is one on every logged call. -/
theorem everyCall_of_trace {C : σ → α → Prop} {l : List α} {s : σ} (h : ∀ e ∈ trace op s l, C e.before e.call) :
    EveryCall op s (fun _ x a => C x a) (execute op s l).1 := by
  intro l₁ a out l₂ x hlog hx
  exact h _ (mem_trace_of_log hlog hx)

/-- If the events of the kind `K` bring about `Q`, which every call keeps and
under which every call is of the kind `G`, then after `K` there is only `G`. -/
theorem trace_from {K G : Event σ α ρ → Prop} {Q : σ → Prop}
    (hkeep : ∀ a x out y, Q x → op a x = .ok (out, y) → Q y)
    (hgood : ∀ a x out y, Q x → op a x = .ok (out, y) → G ⟨x, a, out⟩) : ∀ (l : List α) (s : σ),
    (∀ e ∈ trace op s l, K e → ∀ t, op e.call e.before = .ok (e.answer, t) → Q t) →
    (trace op s l).Pairwise fun e e' => K e → G e'
  | [], _, _ => List.Pairwise.nil
  | a :: l, s, hK => by
    cases hop : op a s with
    | error err =>
      rw [trace_cons_error l hop] at hK ⊢
      exact trace_from hkeep hgood l s hK
    | ok x =>
      obtain ⟨out, t⟩ := x
      rw [trace_cons_ok l hop] at hK ⊢
      refine List.pairwise_cons.mpr ⟨fun e he hk => ?_, trace_from hkeep hgood l t fun e he => ?_⟩
      · have hQ : Q t := hK _ List.mem_cons_self hk t hop
        obtain ⟨hb, y, hy⟩ := trace_spec hkeep l t hQ e he
        exact hgood e.call e.before e.answer y hb hy
      · exact hK e (List.mem_cons_of_mem _ he)

end Trace

end FuelNear

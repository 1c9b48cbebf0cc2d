/-
# Transactions under locks

Workers run transactions on one shared store. A transaction passes through
private states: each statement reads the store as it is committed and may
take locks that no other worker holds. In the end it commits, which changes
the store at once, or leaves without effect; either way its locks are free
again.

What a worker has read stays true as long as its locks keep the commits of
the others off it. `Lawful` states this as obligations on single statements
and commits; from them every reachable state is `Coherent`, and the commits,
in the order they happen, are a run of atomic calls (`Lawful.serial`).

Key definitions: `Protocol`, `System`, `Step`, `Reaches`, `ReachesBy`,
`Lawful`, `Coherent`.
Key theorems: `Lawful.reaches`, `Lawful.keeps`, `Lawful.serial`,
`Step.store_eq`, `reachesBy_transaction`.
-/
import FuelNear.Runs
import Mathlib.Data.Set.Basic
import Mathlib.Order.CompletePartialOrder
import Mathlib.Logic.Relation

namespace FuelNear
namespace Locking

/-- The transactions of a kind: the locks a private state holds, the states in
which a transaction starts, its statements, and its commit. -/
structure Protocol (σ τ κ : Type*) where
  held : τ → Set κ
  start : τ → Prop
  move : σ → τ → τ → Prop
  commit : σ → τ → σ → Prop

/-- The store, and the private state of every worker in a transaction. -/
structure System (σ τ ι : Type*) where
  store : σ
  workers : ι → Option τ

inductive Action (τ ι : Type*) where
  | start (w : ι) (l : τ)
  | move (w : ι) (l : τ)
  | commit (w : ι) (l : τ)
  | leave (w : ι)

section

variable {σ τ κ ι : Type*} [DecidableEq ι]

/-- The worker `w` is now in the state `l`. -/
def System.put (s : System σ τ ι) (w : ι) (l : Option τ) : System σ τ ι :=
  { s with workers := Function.update s.workers w l }

/-- No worker is in a transaction. -/
def System.Idle (s : System σ τ ι) : Prop := ∀ w, s.workers w = none

/-- One step of one worker. -/
inductive Step (P : Protocol σ τ κ) (s : System σ τ ι) : Action τ ι → System σ τ ι → Prop where
  | start {w l} (idle : s.workers w = none) (begins : P.start l) : Step P s (.start w l) (s.put w (some l))
  | move {w l l'} (here : s.workers w = some l) (statement : P.move s.store l l')
      (free : ∀ v m, v ≠ w → s.workers v = some m → Disjoint (P.held l') (P.held m)) :
      Step P s (.move w l') (s.put w (some l'))
  | commit {w l t} (here : s.workers w = some l) (commits : P.commit s.store l t) :
      Step P s (.commit w l) { store := t, workers := Function.update s.workers w none }
  | leave {w} : Step P s (.leave w) (s.put w none)

/-- Any number of steps of any workers, in any order. -/
def Reaches (P : Protocol σ τ κ) : System σ τ ι → System σ τ ι → Prop :=
  Relation.ReflTransGen fun s s' => ∃ a, Step P s a s'

/-- Any number of steps that all meet a condition. -/
def ReachesBy (P : Protocol σ τ κ) (C : System σ τ ι → Action τ ι → Prop) : System σ τ ι → System σ τ ι → Prop :=
  Relation.ReflTransGen fun s s' => ∃ a, Step P s a s' ∧ C s a

theorem ReachesBy.reaches {P : Protocol σ τ κ} {C : System σ τ ι → Action τ ι → Prop} {s s' : System σ τ ι}
    (h : ReachesBy P C s s') : Reaches P s s' := by
  induction h with
  | refl => exact .refl
  | tail _ hs ih =>
    obtain ⟨a, ha, -⟩ := hs
    exact ih.tail ⟨a, ha⟩

theorem ReachesBy.step {P : Protocol σ τ κ} {C : System σ τ ι → Action τ ι → Prop} {s s' s'' : System σ τ ι}
    {a : Action τ ι} (h : ReachesBy P C s s') (hs : Step P s' a s'') (hC : C s' a) : ReachesBy P C s s'' :=
  .tail h ⟨a, hs, hC⟩

theorem Reaches.unconditional {P : Protocol σ τ κ} {s s' : System σ τ ι} (h : Reaches P s s') :
    ReachesBy P (fun _ _ => True) s s' := by
  induction h with
  | refl => exact .refl
  | tail _ hs ih =>
    obtain ⟨a, ha⟩ := hs
    exact ih.tail ⟨a, ha, trivial⟩

/-- Only a commit changes the store. -/
theorem Step.store_eq {P : Protocol σ τ κ} {s s' : System σ τ ι} {a : Action τ ι} (h : Step P s a s') :
    s'.store = s.store ∨ ∃ w l, a = .commit w l ∧ s.workers w = some l ∧ P.commit s.store l s'.store := by
  cases h with
  | start idle begins => exact Or.inl rfl
  | move here statement free => exact Or.inl rfl
  | commit here commits => exact Or.inr ⟨_, _, rfl, here, commits⟩
  | leave => exact Or.inl rfl

theorem System.put_put (s : System σ τ ι) (w : ι) (l l' : Option τ) : (s.put w l).put w l' = s.put w l' := by
  simp [System.put]

/-- A worker that is alone is never kept waiting. -/
theorem reachesBy_alone {P : Protocol σ τ κ} {C : System σ τ ι → Action τ ι → Prop} {s : System σ τ ι} (hi : s.Idle)
    (w : ι) {l l' : τ} (hl : P.start l) (hC : ∀ u m, C u (.start w m) ∧ C u (.move w m))
    (h : Relation.ReflTransGen (P.move s.store) l l') : ReachesBy P C s (s.put w (some l')) := by
  induction h with
  | refl => exact .single ⟨_, .start (hi w) hl, (hC _ _).1⟩
  | @tail m m' _ hmove ih =>
    refine ih.tail ⟨.move w m', ?_, (hC _ _).2⟩
    rw [← System.put_put s w (some m) (some m')]
    apply Step.move (l := m)
    · simp [System.put]
    · exact hmove
    · intro v x hv hx
      simp [System.put, hv, hi v] at hx

/-- A whole transaction of a worker that is alone. -/
theorem reachesBy_transaction {P : Protocol σ τ κ} {C : System σ τ ι → Action τ ι → Prop} {s : System σ τ ι}
    (hi : s.Idle) (w : ι) {l l' : τ} {t : σ} (hl : P.start l) (hC : ∀ u m, C u (.start w m) ∧ C u (.move w m))
    (h : Relation.ReflTransGen (P.move s.store) l l') (hc : P.commit s.store l' t)
    (hcommit : C (s.put w (some l')) (.commit w l')) : ReachesBy P C s { s with store := t } := by
  refine (reachesBy_alone hi w hl hC h).tail ⟨.commit w l', ?_, hcommit⟩
  have hworkers : Function.update (s.put w (some l')).workers w none = s.workers := by
    simp [System.put, ← hi w]
  rw [← hworkers]
  exact .commit (by simp [System.put]) hc

theorem reaches_alone {P : Protocol σ τ κ} {s : System σ τ ι} (hi : s.Idle) (w : ι) {l l' : τ} (hl : P.start l)
    (h : Relation.ReflTransGen (P.move s.store) l l') : Reaches P s (s.put w (some l')) := by
  apply ReachesBy.reaches (C := fun _ _ => True)
  exact reachesBy_alone hi w hl (fun _ _ => ⟨trivial, trivial⟩) h

theorem reaches_transaction {P : Protocol σ τ κ} {s : System σ τ ι} (hi : s.Idle) (w : ι) {l l' : τ} {t : σ}
    (hl : P.start l) (h : Relation.ReflTransGen (P.move s.store) l l') (hc : P.commit s.store l' t) :
    Reaches P s { s with store := t } := by
  apply ReachesBy.reaches (C := fun _ _ => True)
  exact reachesBy_transaction hi w hl (fun _ _ => ⟨trivial, trivial⟩) h hc trivial

/-! ### What the workers know -/

/-- The obligations: what a transaction knows at its start, which is nothing
about the store; what its statements teach it; and that the commits keep the
invariant and what others know under locks of their own. -/
structure Lawful (P : Protocol σ τ κ) (Inv : σ → Prop) (Knows : σ → τ → Prop) : Prop where
  start : ∀ l, P.start l → P.held l = ∅ ∧ ∀ s, Knows s l
  move : ∀ s l l', Inv s → Knows s l → P.move s l l' → Knows s l'
  commit : ∀ s l t, Inv s → Knows s l → P.commit s l t → Inv t
  stable : ∀ s l t m, Inv s → Knows s l → P.commit s l t → Knows s m → Disjoint (P.held l) (P.held m) → Knows t m

/-- The invariant holds, every worker knows what it should, and no lock is
held twice. -/
structure Coherent (P : Protocol σ τ κ) (Inv : σ → Prop) (Knows : σ → τ → Prop) (s : System σ τ ι) : Prop where
  inv : Inv s.store
  knows : ∀ w l, s.workers w = some l → Knows s.store l
  exclusive : ∀ v w l m, v ≠ w → s.workers v = some l → s.workers w = some m → Disjoint (P.held l) (P.held m)

variable {P : Protocol σ τ κ} {Inv : σ → Prop} {Knows : σ → τ → Prop} {s s' : System σ τ ι}

omit [DecidableEq ι] in
theorem coherent_of_idle (hi : s.Idle) (h : Inv s.store) : Coherent P Inv Knows s where
  inv := h
  knows w l hl := by simp [hi w] at hl
  exclusive v w l m _ hl := by simp [hi v] at hl

/-- A worker that moves on keeps the system coherent if it knows what it
should there and takes no lock of another. -/
theorem Coherent.put (h : Coherent P Inv Knows s) {w : ι} {l : Option τ} (hk : ∀ x, l = some x → Knows s.store x)
    (hfree : ∀ x, l = some x → ∀ v m, v ≠ w → s.workers v = some m → Disjoint (P.held x) (P.held m)) :
    Coherent P Inv Knows (s.put w l) where
  inv := h.inv
  knows v x hx := by
    by_cases hv : v = w
    · subst hv
      exact hk x (by simpa [System.put] using hx)
    · exact h.knows v x (by simpa [System.put, hv] using hx)
  exclusive u v x y huv hx hy := by
    by_cases hu : u = w
    · subst hu
      exact hfree x (by simpa [System.put] using hx) v y huv.symm (by simpa [System.put, huv.symm] using hy)
    · by_cases hv : v = w
      · subst hv
        exact (hfree y (by simpa [System.put] using hy) u x hu (by simpa [System.put, hu] using hx)).symm
      · exact h.exclusive u v x y huv (by simpa [System.put, hu] using hx) (by simpa [System.put, hv] using hy)

/-- Every step keeps the system coherent. -/
theorem Lawful.step (L : Lawful P Inv Knows) (h : Coherent P Inv Knows s) {a : Action τ ι} (hs : Step P s a s') :
    Coherent P Inv Knows s' := by
  cases hs with
  | @start w l idle begins =>
    obtain ⟨hheld, hknows⟩ := L.start l begins
    apply h.put
    · intro x hx
      rw [← Option.some.inj hx]
      exact hknows _
    · intro x hx v m _ _
      rw [← Option.some.inj hx, hheld]
      exact Set.empty_disjoint _
  | @move w l l' here statement free =>
    apply h.put
    · intro x hx
      rw [← Option.some.inj hx]
      exact L.move _ l l' h.inv (h.knows w l here) statement
    · intro x hx
      rw [← Option.some.inj hx]
      exact free
  | @commit w l t here commits =>
    have hleft : Coherent P Inv Knows (s.put w none) :=
      h.put (fun x hx => by simp at hx) fun x hx => by simp at hx
    refine ⟨L.commit _ l t h.inv (h.knows w l here) commits, fun v m hm => ?_, hleft.exclusive⟩
    have hvw : v ≠ w := fun hv => by simp [hv] at hm
    have hm' : s.workers v = some m := by simpa [hvw] using hm
    exact L.stable _ l t m h.inv (h.knows w l here) commits (h.knows v m hm')
      (h.exclusive w v l m hvw.symm here hm')
  | leave => exact h.put (fun x hx => by simp at hx) fun x hx => by simp at hx

theorem Lawful.reaches (L : Lawful P Inv Knows) (h : Coherent P Inv Knows s) (hr : Reaches P s s') :
    Coherent P Inv Knows s' := by
  induction hr with
  | refl => exact h
  | tail _ hs ih => exact L.step ih hs.choose_spec

/-- What every commit that meets the condition keeps, a run of such steps keeps. -/
theorem Lawful.keeps {C : System σ τ ι → Action τ ι → Prop} {J : σ → Prop} (L : Lawful P Inv Knows)
    (hJ : ∀ (s : System σ τ ι) w l t, Inv s.store → Knows s.store l → C s (.commit w l) → P.commit s.store l t →
      J s.store → J t)
    (h : Coherent P Inv Knows s) (hr : ReachesBy P C s s') (h0 : J s.store) : J s'.store := by
  induction hr with
  | refl => exact h0
  | @tail u v hu hs ih =>
    obtain ⟨a, ha, hC⟩ := hs
    have hcoh := L.reaches h (ReachesBy.reaches hu)
    rcases ha.store_eq with hsame | ⟨w, l, rfl, hl, hc⟩
    · rw [hsame]
      exact ih
    · exact hJ u w l _ hcoh.inv (hcoh.knows w l hl) hC hc ih

/-- **Serialization.** If every commit does what an atomic call does to the
store that it finds, the store went through a run of atomic calls. -/
theorem Lawful.serial {α ε ρ : Type*} {op : α → σ → Except ε (ρ × σ)} (L : Lawful P Inv Knows)
    (hop : ∀ s l t, Inv s → Knows s l → P.commit s l t → ∃ a out, op a s = .ok (out, t))
    (h : Coherent P Inv Knows s) (hr : Reaches P s s') : ∃ log, Run op s.store log s'.store := by
  induction hr with
  | refl => exact ⟨[], .start⟩
  | @tail u v hu hs ih =>
    obtain ⟨log, hrun⟩ := ih
    obtain ⟨a, ha⟩ := hs
    have hcoh := L.reaches h hu
    rcases ha.store_eq with hsame | ⟨w, l, -, hl, hc⟩
    · exact ⟨log, hsame ▸ hrun⟩
    · obtain ⟨b, out, hb⟩ := hop _ l _ hcoh.inv (hcoh.knows w l hl) hc
      exact ⟨log ++ [(b, out)], hrun.done hb⟩

end

end Locking
end FuelNear

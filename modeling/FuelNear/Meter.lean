/-
# A meter that runs on the open ticks of the integer line

A set `C` of covered ticks splits the integers: a tick `t` is the time
`[t, t + 1)`, covered or open. `openTicks C a b` counts the open ticks of
`[a, b)`. A bucket filled at some instants drains one unit at each open tick
while it holds something (`level`); between two fillings its level is what
the open ticks leave (`drain_eq`). `RunsOutAt C r b x` says that `x` is the
first instant after `r` with `b` open ticks in between, which is when a
bucket of level `b` at `r` runs dry.

Key definitions: `openTicks`, `level`, `RunsOutAt`.
Key theorems: `drain_eq`, `level_eq_drain`, `RunsOutAt.later`, `RunsOutAt.cover`,
`RunsOutAt.le_iff`, `RunsOutAt.dry_iff`.
-/
import Mathlib.Data.Int.Init
import Mathlib.Order.Bounds.Basic
import Mathlib.Tactic

namespace FuelNear
namespace Meter

variable (C : ℤ → Prop) [DecidablePred C]

/-! ### Counting open ticks -/

/-- The number of open ticks in `[a, b)`. -/
def openTicks (a b : ℤ) : ℤ := ((List.range (b - a).toNat).countP fun n : ℕ => ¬ C (a + n) : ℕ)

theorem openTicks_nonneg (a b : ℤ) : 0 ≤ openTicks C a b := Int.natCast_nonneg _

theorem openTicks_of_le {a b : ℤ} (h : b ≤ a) : openTicks C a b = 0 := by
  rw [openTicks, Int.toNat_eq_zero.mpr (by omega)]
  rfl

@[simp] theorem openTicks_self (a : ℤ) : openTicks C a a = 0 := openTicks_of_le C le_rfl

theorem openTicks_succ {a b : ℤ} (h : a ≤ b) :
    openTicks C a (b + 1) = openTicks C a b + if C b then 0 else 1 := by
  have hn : (b + 1 - a).toNat = (b - a).toNat + 1 := by omega
  have hb : a + ((b - a).toNat : ℤ) = b := by omega
  rw [openTicks, hn, List.range_succ, List.countP_append, List.countP_singleton, hb]
  by_cases hC : C b <;> simp [openTicks, hC]

/-- The meter is additive over adjacent stretches of time. -/
theorem openTicks_add {a b c : ℤ} (hab : a ≤ b) (hbc : b ≤ c) :
    openTicks C a b + openTicks C b c = openTicks C a c := by
  induction c, hbc using Int.leInduction with
  | base => rw [openTicks_self, add_zero]
  | succ c hbc ih => rw [openTicks_succ C hbc, openTicks_succ C (hab.trans hbc), ← ih, add_assoc]

theorem openTicks_mono {a b c : ℤ} (h : b ≤ c) : openTicks C a b ≤ openTicks C a c := by
  rcases le_total a b with hab | hab
  · rw [← openTicks_add C hab h]
    have := openTicks_nonneg C b c
    omega
  · rw [openTicks_of_le C hab]
    exact openTicks_nonneg C a c

/-- With no covered tick in between the meter runs at full speed. -/
theorem openTicks_of_open {a b : ℤ} (hab : a ≤ b) (h : ∀ t, a ≤ t → t < b → ¬ C t) :
    openTicks C a b = b - a := by
  induction b, hab using Int.leInduction with
  | base => simp
  | succ b hab ih =>
    rw [openTicks_succ C hab, ih fun t h1 h2 => h t h1 (by omega), if_neg (h b hab (by omega))]
    ring

/-- While every tick is covered the meter stands still. -/
theorem openTicks_of_covered {a b : ℤ} (h : ∀ t, a ≤ t → t < b → C t) : openTicks C a b = 0 := by
  rcases le_total b a with hba | hab
  · exact openTicks_of_le C hba
  induction b, hab using Int.leInduction with
  | base => simp
  | succ b hab ih => rw [openTicks_succ C hab, ih fun t h1 h2 => h t h1 (by omega), if_pos (h b hab (by omega)),
      add_zero]

theorem openTicks_congr (D : ℤ → Prop) [DecidablePred D] {a b : ℤ}
    (h : ∀ t, a ≤ t → t < b → (C t ↔ D t)) : openTicks C a b = openTicks D a b := by
  rw [openTicks, openTicks]
  congr 1
  refine List.countP_congr fun n hn => ?_
  rw [List.mem_range] at hn
  simp [h (a + n) (by omega) (by omega)]

/-- Covering `[s, e)` as well, where nothing was covered, takes the overlap
of `[s, e)` with `[a, b)` off the meter. -/
theorem openTicks_cover (D : ℤ → Prop) [DecidablePred D] {s e a b : ℤ}
    (hD : ∀ t, D t ↔ (s ≤ t ∧ t < e) ∨ C t) (hC : ∀ t, s ≤ t → t < e → ¬ C t) :
    openTicks D a b + max 0 (min b e - max a s) = openTicks C a b := by
  set lo := max a s with hlo
  set hi := min b e with hhi
  rcases le_total hi lo with h | h
  · rw [max_eq_left (by omega), add_zero]
    refine openTicks_congr D C fun t h1 h2 => ?_
    rw [hD t]
    constructor
    · rintro (⟨h3, h4⟩ | h3)
      · exact absurd (le_trans (max_le h1 h3) (le_refl t)) (by omega)
      · exact h3
    · exact Or.inr
  · have hal : a ≤ lo := le_max_left _ _
    have hhb : hi ≤ b := min_le_left _ _
    have hsl : s ≤ lo := le_max_right _ _
    have hhe : hi ≤ e := min_le_right _ _
    have e1 : openTicks D a lo = openTicks C a lo :=
      openTicks_congr D C fun t h1 h2 => by
        rw [hD t]; exact ⟨fun h3 => h3.resolve_left (by omega), Or.inr⟩
    have e2 : openTicks D hi b = openTicks C hi b :=
      openTicks_congr D C fun t h1 h2 => by
        rw [hD t]; exact ⟨fun h3 => h3.resolve_left (by omega), Or.inr⟩
    have e3 : openTicks D lo hi = 0 :=
      openTicks_of_covered D fun t h1 h2 => (hD t).mpr (Or.inl ⟨by omega, by omega⟩)
    have e4 : openTicks C lo hi = hi - lo :=
      openTicks_of_open C h fun t h1 h2 => hC t (by omega) (by omega)
    rw [max_eq_right (by omega)]
    calc openTicks D a b + (hi - lo)
        = openTicks D a lo + (openTicks D lo hi + openTicks D hi b) + (hi - lo) := by
          rw [openTicks_add D h hhb, openTicks_add D hal (h.trans hhb)]
      _ = openTicks C a lo + ((hi - lo) + openTicks C hi b) := by rw [e1, e2, e3]; ring
      _ = openTicks C a lo + (openTicks C lo hi + openTicks C hi b) := by rw [e4]
      _ = openTicks C a b := by rw [openTicks_add C h hhb, openTicks_add C hal (h.trans hhb)]

/-! ### A bucket that drains at the open ticks -/

/-- What tick `t` leaves of a level `b`: one unit less if the tick is open
and the bucket holds something. -/
def tick (t b : ℤ) : ℤ := if C t then b else max 0 (b - 1)

/-- The level after the `n` ticks from `a` on, with no filling. -/
def drain (a : ℤ) : ℕ → ℤ → ℤ
  | 0, b => b
  | n + 1, b => tick C (a + n) (drain a n b)

/-- What the fillings `ds`, each an instant and an amount, add at `t`. -/
def filledAt (ds : List (ℤ × ℤ)) (t : ℤ) : ℤ := ((ds.filter fun d => d.1 = t).map (·.2)).sum

/-- The level at `o + n` of a bucket that was empty before `o`: the fillings
of an instant are added after the tick that ends there. -/
def level (ds : List (ℤ × ℤ)) (o : ℤ) : ℕ → ℤ
  | 0 => filledAt ds o
  | n + 1 => tick C (o + n) (level ds o n) + filledAt ds (o + (n + 1))

/-- Between fillings the level is what the open ticks leave. -/
theorem drain_eq (a : ℤ) {b : ℤ} (hb : 0 ≤ b) : ∀ n : ℕ,
    drain C a n b = max 0 (b - openTicks C a (a + n))
  | 0 => by simp [drain, hb]
  | n + 1 => by
    have h : a + ((n + 1 : ℕ) : ℤ) = a + n + 1 := by push_cast; ring
    rw [drain, drain_eq a hb n, h, openTicks_succ C (by omega), tick]
    split_ifs
    · rw [add_zero]
    · omega

theorem filledAt_nil (t : ℤ) : filledAt [] t = 0 := rfl

theorem filledAt_append (ds es : List (ℤ × ℤ)) (t : ℤ) :
    filledAt (ds ++ es) t = filledAt ds t + filledAt es t := by
  simp [filledAt, List.filter_append]

theorem filledAt_of_ne (ds : List (ℤ × ℤ)) {t : ℤ} (h : ∀ d ∈ ds, d.1 ≠ t) : filledAt ds t = 0 := by
  rw [filledAt, List.filter_eq_nil_iff.mpr fun d hd => by simpa using h d hd]
  rfl

theorem filledAt_nonneg {ds : List (ℤ × ℤ)} (h : ∀ d ∈ ds, 0 ≤ d.2) (t : ℤ) : 0 ≤ filledAt ds t :=
  List.sum_nonneg fun x hx => by
    obtain ⟨d, hd, rfl⟩ := List.mem_map.mp hx
    exact h d (List.mem_filter.mp hd).1

theorem tick_nonneg {t b : ℤ} (hb : 0 ≤ b) : 0 ≤ tick C t b := by
  unfold tick; split_ifs
  · exact hb
  · exact le_max_left _ _

theorem tick_mono {t b c : ℤ} (h : b ≤ c) : tick C t b ≤ tick C t c := by
  unfold tick; split_ifs
  · exact h
  · omega

theorem level_nonneg {ds : List (ℤ × ℤ)} (h : ∀ d ∈ ds, 0 ≤ d.2) (o : ℤ) : ∀ n, 0 ≤ level C ds o n
  | 0 => filledAt_nonneg h o
  | n + 1 => add_nonneg (tick_nonneg C (level_nonneg h o n)) (filledAt_nonneg h _)

theorem level_nil (o : ℤ) : ∀ n, level C [] o n = 0
  | 0 => rfl
  | n + 1 => by simp [level, level_nil o n, filledAt_nil, tick]

/-- Fillings after an instant do not show in the level at that instant. -/
theorem level_append {ds es : List (ℤ × ℤ)} {o : ℤ} : ∀ {n : ℕ}, (∀ d ∈ es, o + n < d.1) →
    level C (ds ++ es) o n = level C ds o n
  | 0, h => by
    rw [level, level, filledAt_append, filledAt_of_ne es, add_zero]
    intro d hd he
    have := h d hd
    push_cast at this
    omega
  | n + 1, h => by
    rw [level, level, filledAt_append, filledAt_of_ne es, add_zero, level_append]
    · intro d hd
      have := h d hd
      push_cast at this
      omega
    · intro d hd he
      have := h d hd
      push_cast at this
      omega

/-- A filling at an instant adds to the level there. -/
theorem level_append_now (ds : List (ℤ × ℤ)) {o g : ℤ} (x : ℤ) : ∀ {n : ℕ}, o + n = g →
    level C (ds ++ [(g, x)]) o n = level C ds o n + x
  | 0, h => by
    obtain rfl : o = g := by simpa using h
    simp [level, filledAt]
  | n + 1, h => by
    have hlt : ∀ d ∈ [(g, x)], o + (n : ℤ) < d.1 := by
      simp only [List.mem_singleton, forall_eq]
      push_cast at h
      omega
    have hx : filledAt [(g, x)] (o + (n + 1)) = x := by
      push_cast at h
      simp [filledAt, h]
    rw [level, level, level_append C hlt, filledAt_append, hx, add_assoc]

/-- From the last filling on the level only drains. -/
theorem level_eq_drain {ds : List (ℤ × ℤ)} {o : ℤ} {n : ℕ} (h : ∀ d ∈ ds, d.1 ≤ o + n) : ∀ k : ℕ,
    level C ds o (n + k) = drain C (o + n) k (level C ds o n)
  | 0 => rfl
  | k + 1 => by
    rw [← add_assoc, level, drain, level_eq_drain h k, filledAt_of_ne ds, add_zero]
    · push_cast; rw [add_assoc]
    · intro d hd he
      have := h d hd
      push_cast at he
      omega

/-- Watching from an earlier instant changes nothing: the bucket is empty
until its first filling. -/
theorem level_origin {ds : List (ℤ × ℤ)} {o : ℤ} (h : ∀ d ∈ ds, o ≤ d.1) (k : ℕ) : ∀ n : ℕ,
    level C ds (o - k) (n + k) = level C ds o n := by
  have hempty : ∀ j : ℕ, j < k → level C ds (o - k) j = 0 := by
    intro j hj
    induction j with
    | zero => exact filledAt_of_ne ds fun d hd he => by have := h d hd; omega
    | succ j ih =>
      rw [level, ih (by omega), filledAt_of_ne ds fun d hd he => by have := h d hd; omega]
      simp [tick]
  intro n
  induction n with
  | zero =>
    rw [Nat.zero_add, level]
    cases k with
    | zero => simp [level]
    | succ k =>
      have ho : o - ((k + 1 : ℕ) : ℤ) + (k + 1) = o := by push_cast; ring
      rw [level, hempty k (by omega), ho]
      simp [tick]
  | succ n ih =>
    have h1 : o - (k : ℤ) + ((n + k : ℕ) : ℤ) = o + n := by push_cast; ring
    have h2 : o - (k : ℤ) + (((n + k : ℕ) : ℤ) + 1) = o + (n + 1) := by push_cast; ring
    rw [Nat.succ_add_eq_add_succ, Nat.add_succ, level, level, ih, h1, h2]

/-- More or larger fillings leave a higher level. -/
theorem level_mono {ds es : List (ℤ × ℤ)} (h : ∀ t, filledAt ds t ≤ filledAt es t) (o : ℤ) :
    ∀ n, level C ds o n ≤ level C es o n
  | 0 => h o
  | n + 1 => add_le_add (tick_mono C (level_mono h o n)) (h _)

/-! ### Running dry -/

/-- `x` is the first instant after `r` with `b` open ticks in between. -/
def RunsOutAt (r b x : ℤ) : Prop := IsLeast {y | r < y ∧ openTicks C r y = b} x

variable {C}

theorem RunsOutAt.lt {r b x : ℤ} (h : RunsOutAt C r b x) : r < x := h.1.1

theorem RunsOutAt.openTicks_eq {r b x : ℤ} (h : RunsOutAt C r b x) : openTicks C r x = b := h.1.2

theorem RunsOutAt.unique {r b x y : ℤ} (hx : RunsOutAt C r b x) (hy : RunsOutAt C r b y) : x = y :=
  IsLeast.unique hx hy

/-- Only what is covered from `r` on counts. -/
theorem RunsOutAt.congr {D : ℤ → Prop} [DecidablePred D] {r b x : ℤ} (h : RunsOutAt C r b x)
    (hCD : ∀ t, r ≤ t → (C t ↔ D t)) : RunsOutAt D r b x := by
  have he : ∀ y, openTicks C r y = openTicks D r y := fun y => openTicks_congr C D fun t h1 _ => hCD t h1
  exact ⟨⟨h.lt, he x ▸ h.openTicks_eq⟩, fun y ⟨hy, hyb⟩ => h.2 ⟨hy, (he y).trans hyb⟩⟩

/-- With no covered tick before `r + b`, `b` open ticks take `b` ticks. -/
theorem RunsOutAt.of_open {r b : ℤ} (hb : 0 < b) (h : ∀ t, r ≤ t → t < r + b → ¬ C t) :
    RunsOutAt C r b (r + b) := by
  have he := openTicks_of_open C (by omega) h
  refine ⟨⟨by omega, by omega⟩, fun y ⟨hy, hyb⟩ => ?_⟩
  by_contra hlt
  have := openTicks_of_open C (le_of_lt hy) fun t h1 h2 => h t h1 (by omega)
  omega

/-- The first `k` open ticks may be counted apart from the rest. -/
theorem RunsOutAt.earlier {r r' b x : ℤ} (h : RunsOutAt C r' b x) (hb : 0 < b) (hr : r ≤ r') :
    RunsOutAt C r (b + openTicks C r r') x := by
  have hx := h.lt
  refine ⟨⟨by omega, ?_⟩, fun y ⟨hy, hyb⟩ => ?_⟩
  · rw [← openTicks_add C hr (le_of_lt hx), h.openTicks_eq, add_comm]
  · have hry : r' < y := by
      by_contra hle
      have := openTicks_mono C (a := r) (not_lt.mp hle)
      omega
    have := openTicks_add C hr (le_of_lt hry)
    exact h.2 ⟨hry, by omega⟩

/-- Seen from a later instant before `x`, what is left runs out at `x` too. -/
theorem RunsOutAt.later {r t b x : ℤ} (h : RunsOutAt C r b x) (hrt : r ≤ t) (htx : t < x) :
    RunsOutAt C t (b - openTicks C r t) x := by
  have hadd := openTicks_add C hrt (le_of_lt htx)
  have hx := h.openTicks_eq
  refine ⟨⟨htx, by omega⟩, fun y ⟨hy, hyb⟩ => h.2 ⟨by omega, ?_⟩⟩
  have := openTicks_add C hrt (le_of_lt hy)
  omega

/-- Something is left at every instant before `x`. -/
theorem RunsOutAt.left_pos {r t b x : ℤ} (h : RunsOutAt C r b x) (hb : 0 < b) (hrt : r ≤ t) (htx : t < x) :
    0 < b - openTicks C r t := by
  have h1 := openTicks_mono C (a := r) (le_of_lt htx)
  have hx := h.openTicks_eq
  rcases eq_or_lt_of_le hrt with rfl | hlt
  · simpa using hb
  · by_contra hle
    have : x ≤ t := h.2 ⟨hlt, by omega⟩
    omega

/-- Nothing is left at `x` and later. -/
theorem RunsOutAt.left_nonpos {r t b x : ℤ} (h : RunsOutAt C r b x) (hxt : x ≤ t) :
    b - openTicks C r t ≤ 0 := by
  have := openTicks_mono C (a := r) hxt
  have hx := h.openTicks_eq
  omega

/-- A bucket lasts until `y` if and only if the open ticks up to the last one
before `y` do not use it up. -/
theorem RunsOutAt.le_iff {r b x y : ℤ} (h : RunsOutAt C r b x) (hb : 0 < b) (hy : r < y) :
    y ≤ x ↔ openTicks C r (y - 1) < b := by
  constructor
  · intro hyx
    have := h.left_pos hb (t := y - 1) (by omega) (by omega)
    omega
  · intro hlt
    by_contra hxy
    have := h.left_nonpos (t := y - 1) (by omega)
    omega

/-- The bucket is dry at `y` exactly if the open ticks up to there are enough. -/
theorem RunsOutAt.dry_iff {r b x y : ℤ} (h : RunsOutAt C r b x) (hb : 0 < b) (hy : r ≤ y) :
    x ≤ y ↔ b ≤ openTicks C r y := by
  have hle := h.le_iff hb (y := y + 1) (by omega)
  rw [add_sub_cancel_right] at hle
  omega

/-- The last tick before the bucket runs dry is open. -/
theorem RunsOutAt.openTicks_pred {r b x : ℤ} (h : RunsOutAt C r b x) (hb : 0 < b) :
    openTicks C r (x - 1) = b - 1 := by
  have hrx := h.lt
  have hlt : openTicks C r (x - 1) < b := (h.le_iff hb hrx).mp le_rfl
  have hstep := openTicks_succ C (show r ≤ x - 1 by omega)
  rw [sub_add_cancel, h.openTicks_eq] at hstep
  split_ifs at hstep <;> omega

/-! ### Covering more -/

section Cover

variable {D : ℤ → Prop} [DecidablePred D]

/-- The more is covered, the fewer ticks are open. -/
theorem openTicks_anti (h : ∀ t, C t → D t) (a b : ℤ) : openTicks D a b ≤ openTicks C a b := by
  unfold openTicks
  have hcount : (List.range (b - a).toNat).countP (fun n : ℕ => decide (¬ D (a + n))) ≤
      (List.range (b - a).toNat).countP (fun n : ℕ => decide (¬ C (a + n))) := by
    apply List.countP_mono_left
    intro n _ hn
    rw [decide_eq_true_eq] at hn ⊢
    exact fun hC => hn (h _ hC)
  exact_mod_cast hcount

theorem tick_cover (h : ∀ t, C t → D t) (t : ℤ) {b : ℤ} (hb : 0 ≤ b) : tick C t b ≤ tick D t b := by
  unfold tick
  by_cases hC : C t
  · rw [if_pos hC, if_pos (h t hC)]
  · rw [if_neg hC]
    split_ifs
    · omega
    · exact le_rfl

/-- The more is covered, the more is left. -/
theorem level_cover (h : ∀ t, C t → D t) {ds : List (ℤ × ℤ)} (hd : ∀ d ∈ ds, 0 ≤ d.2) (o : ℤ) :
    ∀ n, level C ds o n ≤ level D ds o n
  | 0 => le_rfl
  | n + 1 => by
    have ih := level_cover h hd o n
    have hstep : tick C (o + n) (level C ds o n) ≤ tick D (o + n) (level D ds o n) :=
      calc tick C (o + n) (level C ds o n) ≤ tick C (o + n) (level D ds o n) := tick_mono C ih
        _ ≤ tick D (o + n) (level D ds o n) := tick_cover h _ (level_nonneg D hd o n)
    exact add_le_add hstep le_rfl

/-- A fuller bucket lasts longer, and so does one under more cover. -/
theorem RunsOutAt.cover (h : ∀ t, C t → D t) {r b c x y : ℤ} (hx : RunsOutAt C r b x) (hy : RunsOutAt D r c y)
    (hb : 0 < b) (hbc : b ≤ c) : x ≤ y := by
  have hlt := hx.left_pos hb (t := x - 1) (by have := hx.lt; omega) (by omega)
  have hanti := openTicks_anti h r (x - 1)
  rw [hy.le_iff (by omega) hx.lt]
  omega

end Cover

/-- A bucket lasts at least as many ticks as it holds. -/
theorem RunsOutAt.le {r b x : ℤ} (h : RunsOutAt C r b x) (hb : 0 < b) : r + b ≤ x :=
  RunsOutAt.cover (C := fun _ => False) (fun _ hf => hf.elim) (RunsOutAt.of_open hb fun _ _ _ => id) h hb le_rfl

end Meter
end FuelNear

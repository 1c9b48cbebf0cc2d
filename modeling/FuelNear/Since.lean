/-
# What is so since

A log shows that something is so since an entry that brought it about: no entry
after that one has ended it. `Since mark breaks` is this of a log. The mark may
look at the log before it, so what one entry found can itself be so since an
earlier one.

A property of the states of a run that a call can only bring about by an entry
with the mark, and that no call ends without an entry that breaks, is so since
such an entry, or since the start of the run.

Key definitions: `Since`, `SinceStart`.
Key theorems: `since_snoc`, `Since.mono`, `SinceStart.of_break`, `Run.since`,
`Run.since_with`.
-/
import FuelNear.Runs

namespace FuelNear

section Log

variable {α : Type*}

/-- An entry has the mark, and none after it breaks. -/
def Since (mark : List α → α → Prop) (breaks : α → Prop) (l : List α) : Prop :=
  ∃ before x after, l = before ++ x :: after ∧ mark before x ∧ ∀ e ∈ after, ¬ breaks e

/-- As `Since`, or it was so at the start, and no entry breaks. -/
def SinceStart (start : Prop) (mark : List α → α → Prop) (breaks : α → Prop) (l : List α) : Prop :=
  Since mark breaks l ∨ start ∧ ∀ e ∈ l, ¬ breaks e

variable {mark mark' : List α → α → Prop} {breaks breaks' : α → Prop} {l m : List α} {x : α} {start : Prop}

/-- The last entry has the mark. -/
theorem Since.marked (h : mark l x) : Since mark breaks (l ++ [x]) :=
  ⟨l, x, [], rfl, h, by simp⟩

/-- It goes on through entries that do not break. -/
theorem Since.append (h : Since mark breaks l) (hm : ∀ e ∈ m, ¬ breaks e) : Since mark breaks (l ++ m) := by
  obtain ⟨before, y, after, rfl, hy, hafter⟩ := h
  refine ⟨before, y, after ++ m, by simp, hy, fun e he => ?_⟩
  rcases List.mem_append.mp he with he | he
  · exact hafter e he
  · exact hm e he

theorem since_snoc : Since mark breaks (l ++ [x]) ↔ mark l x ∨ Since mark breaks l ∧ ¬ breaks x := by
  constructor
  · rintro ⟨before, y, after, h, hy, hafter⟩
    rcases List.eq_nil_or_concat after with rfl | ⟨after, z, rfl⟩
    · obtain ⟨rfl, hxy⟩ := List.append_inj' h rfl
      obtain rfl : x = y := by simpa using hxy
      exact Or.inl hy
    · rw [List.concat_eq_append] at h hafter
      rw [← List.cons_append, ← List.append_assoc] at h
      obtain ⟨rfl, hxz⟩ := List.append_inj' h rfl
      obtain rfl : x = z := by simpa using hxz
      exact Or.inr ⟨⟨before, y, after, rfl, hy, fun e he => hafter e (by simp [he])⟩, hafter x (by simp)⟩
  · rintro (h | ⟨h, hx⟩)
    · exact Since.marked h
    · exact h.append (by simpa using hx)

theorem Since.mono (h : Since mark breaks l)
    (hmark : ∀ before y after, l = before ++ y :: after → mark before y → mark' before y)
    (hbreaks : ∀ e, breaks' e → breaks e) : Since mark' breaks' l := by
  obtain ⟨before, y, after, hl, hy, hafter⟩ := h
  exact ⟨before, y, after, hl, hmark before y after hl hy, fun e he hb => hafter e he (hbreaks e hb)⟩

/-- After an entry that breaks, it has been brought about again. -/
theorem SinceStart.of_break (h : SinceStart start mark breaks (l ++ x :: m)) (hx : breaks x) (hmark : ¬ mark l x) :
    ∃ before y after, m = before ++ y :: after ∧ mark (l ++ x :: before) y ∧ ∀ e ∈ after, ¬ breaks e := by
  induction m using List.reverseRecOn with
  | nil =>
    rcases h with h | ⟨-, h⟩
    · rcases since_snoc.mp h with h | ⟨-, h⟩
      · exact absurd h hmark
      · exact absurd hx h
    · exact absurd hx (h x (by simp))
  | append_singleton m z ih =>
    have hcons : l ++ x :: (m ++ [z]) = (l ++ x :: m) ++ [z] := by simp
    rw [hcons] at h
    rcases h with h | ⟨-, h⟩
    · rcases since_snoc.mp h with h | ⟨h, hz⟩
      · exact ⟨m, z, [], rfl, h, by simp⟩
      · obtain ⟨before, y, after, rfl, hy, hafter⟩ := ih (Or.inl h)
        refine ⟨before, y, after ++ [z], by simp, hy, fun e he => ?_⟩
        rcases List.mem_append.mp he with he | he
        · exact hafter e he
        · exact (List.mem_singleton.mp he) ▸ hz
    · exact absurd hx (h x (by simp))

end Log

section Run

variable {σ α ε ρ : Type*} {op : α → σ → Except ε (ρ × σ)} {s t : σ} {l : List (α × ρ)}
  {mark : List (α × ρ) → α × ρ → Prop} {breaks : α × ρ → Prop}

/-- What only marked entries bring about, and what no entry that breaks leaves,
is so since a marked entry. -/
theorem Run.since {P : σ → Prop} (h : Run op s l t)
    (hstep : ∀ l x a out y, Run op s l x → op a x = .ok (out, y) → P y → mark l (a, out) ∨ P x ∧ ¬ breaks (a, out))
    (ht : P t) : SinceStart (P s) mark breaks l := by
  induction h with
  | start => exact Or.inr ⟨ht, by simp⟩
  | @done l x a out y hrun hop ih =>
    rcases hstep l x a out y hrun hop ht with hmark | ⟨hx, hbreaks⟩
    · exact Or.inl (Since.marked hmark)
    · rcases ih hx with hsince | ⟨hs, hnone⟩
      · exact Or.inl (since_snoc.mpr (Or.inr ⟨hsince, hbreaks⟩))
      · refine Or.inr ⟨hs, fun e he => ?_⟩
        rcases List.mem_append.mp he with he | he
        · exact hnone e he
        · exact (List.mem_singleton.mp he) ▸ hbreaks
  | refused _ _ ih => exact ih ht

/-- As `since`, of a property that also looks at the entries since the mark. -/
theorem Run.since_with {P : σ → Prop} {Q : List (α × ρ) → α × ρ → List (α × ρ) → σ → Prop} (h : Run op s l t)
    (hs : ¬ P s)
    (hstep : ∀ l x a out y, Run op s l x → op a x = .ok (out, y) → P y → Q l (a, out) [] y ∨
      P x ∧ ∀ before c after, Q before c after x → Q before c (after ++ [(a, out)]) y)
    (ht : P t) : ∃ before c after, l = before ++ c :: after ∧ Q before c after t := by
  induction h with
  | start => exact absurd ht hs
  | @done l x a out y hrun hop ih =>
    rcases hstep l x a out y hrun hop ht with hmark | ⟨hx, hgo⟩
    · exact ⟨l, (a, out), [], rfl, hmark⟩
    · obtain ⟨before, c, after, rfl, hQ⟩ := ih hx
      exact ⟨before, c, after ++ [(a, out)], by simp, hgo before c after hQ⟩
  | refused _ _ ih => exact ih ht

end Run

end FuelNear

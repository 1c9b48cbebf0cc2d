/-
# Batches after a cursor

A loop that queries a store page by page: the rows that match, after the
last key of the page before, in the order of their keys, up to a limit. It
does something with each page, while others change the store between the
pages, and ends with the page that is empty.

No key comes twice, whatever happens to the rows in between. A key that is
passed over was missing from the matches of some query. The loop ends if from
some page on the store gets no new keys.

Key definitions: `Pager`, `Pager.page`, `Pager.pages`, `Pager.Loop`, `Pager.Settles`.
Key theorems: `Pager.Loop.pages`, `Pager.Loop.increasing`, `Pager.Loop.passed_over`,
`Pager.loop_exists`.
-/
import Mathlib.Data.List.Sort
import Mathlib.Order.Defs.LinearOrder
import Mathlib.Tactic

namespace FuelNear
namespace Paging

/-- What the `k`-th query finds, what is done with its page, and what others
do before it. -/
structure Pager (σ α κ : Type*) where
  key : α → κ
  limit : ℕ
  found : ℕ → σ → List α
  visit : ℕ → List α → σ → σ
  between : ℕ → σ → σ

/-- A page, with the store that its query found and the one it left. -/
structure Page (σ α : Type*) where
  index : ℕ
  before : σ
  rows : List α
  after : σ

namespace Pager

variable {σ α κ : Type*} [LinearOrder κ] (P : Pager σ α κ)

/-- The rows after the cursor, in order. -/
def ahead (k : ℕ) (cursor : Option κ) (s : σ) : List α :=
  ((P.found k s).filter fun r => cursor.all (· < P.key r)).insertionSort fun a b => P.key a ≤ P.key b

/-- `WHERE … AND key > cursor ORDER BY key LIMIT limit`. -/
def page (k : ℕ) (cursor : Option κ) (s : σ) : List α := (P.ahead k cursor s).take P.limit

/-- `while True`; `none` is out of fuel. -/
def pages : ℕ → ℕ → Option κ → σ → Option (List (Page σ α) × σ)
  | 0, _, _, _ => none
  | fuel + 1, k, cursor, s =>
    let before := P.between k s
    let rows := P.page k cursor before
    match rows.getLast? with
    | none => some ([], before)
    | some last =>
      let after := P.visit k rows before
      (pages fuel (k + 1) (some (P.key last)) after).map fun rest => (⟨k, before, rows, after⟩ :: rest.1, rest.2)

/-- The loop from the `k`-th query on, to its end. -/
inductive Loop : ℕ → Option κ → σ → List (Page σ α) → σ → Prop where
  | stop {k cursor s} (empty : P.page k cursor (P.between k s) = []) : Loop k cursor s [] (P.between k s)
  | next {k cursor s final last rest} (some_last : (P.page k cursor (P.between k s)).getLast? = some last)
      (tail : Loop (k + 1) (some (P.key last)) (P.visit k (P.page k cursor (P.between k s)) (P.between k s)) rest final) :
      Loop k cursor s (⟨k, P.between k s, P.page k cursor (P.between k s),
        P.visit k (P.page k cursor (P.between k s)) (P.between k s)⟩ :: rest) final

variable {P} {k : ℕ} {cursor : Option κ} {s final : σ} {l : List (Page σ α)}

/-- And a loop to its end is returned, given more fuel than it has pages. -/
theorem Loop.pages (h : P.Loop k cursor s l final) : ∀ {fuel : ℕ}, l.length < fuel →
    P.pages fuel k cursor s = some (l, final) := by
  induction h with
  | @stop k cursor s empty =>
    intro fuel hfuel
    obtain ⟨n, rfl⟩ : ∃ n, fuel = n + 1 := ⟨fuel - 1, by omega⟩
    rw [Pager.pages]
    dsimp only
    rw [empty]
    rfl
  | @next k cursor s final last rest some_last tail ih =>
    intro fuel hfuel
    obtain ⟨n, rfl⟩ : ∃ n, fuel = n + 1 := ⟨fuel - 1, by omega⟩
    have hn : rest.length < n := by
      rw [List.length_cons] at hfuel
      omega
    rw [Pager.pages]
    dsimp only
    rw [some_last]
    dsimp only
    rw [ih hn]
    rfl

/-! ### One page -/

section Page

variable {r last : α}

theorem mem_ahead : r ∈ P.ahead k cursor s ↔ r ∈ P.found k s ∧ cursor.all (· < P.key r) = true := by
  unfold ahead
  rw [List.mem_insertionSort, List.mem_filter]

theorem mem_page (h : r ∈ P.page k cursor s) : r ∈ P.found k s ∧ cursor.all (· < P.key r) = true :=
  mem_ahead.mp (List.mem_of_mem_take h)

/-- The rows that a query finds have different keys. -/
def Distinct (P : Pager σ α κ) : Prop := ∀ k s, (P.found k s).Pairwise fun a b => P.key a ≠ P.key b

theorem ahead_sorted (hd : P.Distinct) (k : ℕ) (cursor : Option κ) (s : σ) :
    (P.ahead k cursor s).Pairwise fun a b => P.key a < P.key b := by
  have hle : (P.ahead k cursor s).Pairwise fun a b => P.key a ≤ P.key b := by
    have : Std.Total fun a b : α => P.key a ≤ P.key b := ⟨fun a b => le_total _ _⟩
    have : IsTrans α fun a b => P.key a ≤ P.key b := ⟨fun a b c => le_trans⟩
    exact List.pairwise_insertionSort _ _
  have hne : (P.ahead k cursor s).Pairwise fun a b => P.key a ≠ P.key b := by
    have hfilter := (hd k s).filter fun r => cursor.all (· < P.key r)
    exact (List.perm_insertionSort _ _).pairwise_iff (fun hab => hab.symm) |>.mpr hfilter
  exact (hle.and hne).imp fun hab => lt_of_le_of_ne hab.1 hab.2

theorem page_sorted (hd : P.Distinct) (k : ℕ) (cursor : Option κ) (s : σ) :
    (P.page k cursor s).Pairwise fun a b => P.key a < P.key b :=
  (ahead_sorted hd k cursor s).sublist (List.take_sublist _ _)

theorem le_last (hd : P.Distinct) (hlast : (P.page k cursor s).getLast? = some last) (hr : r ∈ P.page k cursor s) :
    P.key r ≤ P.key last := by
  obtain ⟨init, hinit⟩ := List.getLast?_eq_some_iff.mp hlast
  have hsorted := page_sorted hd k cursor s
  rw [hinit] at hr hsorted
  rcases List.mem_append.mp hr with hr | hr
  · exact ((List.pairwise_append.mp hsorted).2.2 r hr last (List.mem_singleton_self last)).le
  · rw [List.mem_singleton.mp hr]

/-- A row that the limit cuts off comes after the page. -/
theorem last_lt (hd : P.Distinct) (hlast : (P.page k cursor s).getLast? = some last) (hr : r ∈ P.ahead k cursor s)
    (hout : r ∉ P.page k cursor s) : P.key last < P.key r := by
  have hsorted := ahead_sorted hd k cursor s
  rw [← List.take_append_drop P.limit (P.ahead k cursor s)] at hr hsorted
  have hdrop := (List.mem_append.mp hr).resolve_left hout
  exact (List.pairwise_append.mp hsorted).2.2 last (List.mem_of_getLast? hlast) r hdrop

theorem ahead_of_empty (hlimit : 1 ≤ P.limit) (h : P.page k cursor s = []) : P.ahead k cursor s = [] := by
  rcases List.take_eq_nil_iff.mp h with hzero | hnil
  · omega
  · exact hnil

end Page

/-! ### The whole loop -/

/-- The rows that a loop visited, in its order. -/
def visited (l : List (Page σ α)) : List α := l.flatMap (·.rows)

/-- Every key that is visited is after the cursor. -/
theorem Loop.after_cursor (h : P.Loop k cursor s l final) :
    ∀ r ∈ visited l, cursor.all (· < P.key r) = true := by
  induction h with
  | stop empty => exact fun r hr => absurd hr List.not_mem_nil
  | @next k cursor s final last rest some_last tail ih =>
    intro r hr
    rcases List.mem_append.mp (show r ∈ P.page k cursor (P.between k s) ++ visited rest from hr) with hr | hr
    · exact (mem_page hr).2
    · have hlast := (mem_page (List.mem_of_getLast? some_last)).2
      have hlt : P.key last < P.key r := by simpa using ih r hr
      cases cursor with
      | none => rfl
      | some c =>
        have hc : c < P.key last := by simpa using hlast
        simpa using hc.trans hlt

/-- **No key comes twice**: the keys of the pages increase. -/
theorem Loop.increasing (hd : P.Distinct) (h : P.Loop k cursor s l final) :
    (visited l).Pairwise fun a b => P.key a < P.key b := by
  induction h with
  | stop empty => exact List.Pairwise.nil
  | @next k cursor s final last rest some_last tail ih =>
    refine List.pairwise_append.mpr ⟨page_sorted hd k cursor _, ih, fun a ha b hb => ?_⟩
    have hlt : P.key last < P.key b := by simpa using tail.after_cursor b hb
    exact (le_last hd some_last ha).trans_lt hlt

/-- **A key that is passed over was missing**: after the cursor and not visited,
it was not among the matches of some page, or of the last query. -/
theorem Loop.passed_over (hd : P.Distinct) (hlimit : 1 ≤ P.limit) (h : P.Loop k cursor s l final) {x : κ}
    (hx : cursor.all (· < x) = true) (hout : ∀ r ∈ visited l, P.key r ≠ x) :
    (∃ p ∈ l, ∀ r ∈ P.found p.index p.before, P.key r ≠ x) ∨ ∀ r ∈ P.found (k + l.length) final, P.key r ≠ x := by
  induction h with
  | @stop k cursor s empty =>
    refine Or.inr fun r hr hkey => ?_
    have hmem : r ∈ P.ahead k cursor (P.between k s) := mem_ahead.mpr ⟨hr, by rw [hkey]; exact hx⟩
    rw [ahead_of_empty hlimit empty] at hmem
    exact absurd hmem List.not_mem_nil
  | @next k cursor s final last rest some_last tail ih =>
    by_cases hmissing : ∀ r ∈ P.found k (P.between k s), P.key r ≠ x
    · exact Or.inl ⟨_, List.mem_cons_self, hmissing⟩
    · push Not at hmissing
      obtain ⟨r, hr, hkey⟩ := hmissing
      have hmem : r ∈ P.ahead k cursor (P.between k s) := mem_ahead.mpr ⟨hr, by rw [hkey]; exact hx⟩
      have hcut : r ∉ P.page k cursor (P.between k s) := fun hin =>
        hout r (List.mem_flatMap.mpr ⟨_, List.mem_cons_self, hin⟩) hkey
      have hlt : P.key last < x := hkey ▸ last_lt hd some_last hmem hcut
      have hrest : ∀ r ∈ visited rest, P.key r ≠ x := fun r hr => hout r (List.mem_append_right _ hr)
      rcases ih (by simpa using hlt) hrest with ⟨p, hp, hmiss⟩ | hmiss
      · exact Or.inl ⟨p, List.mem_cons_of_mem _ hp, hmiss⟩
      · rw [List.length_cons, ← add_assoc, add_right_comm]
        exact Or.inr hmiss

/-! ### That the loop ends -/

/-- From the page `n` on, a query finds keys of the store only, and nothing adds one. -/
structure Settles (P : Pager σ α κ) (keys : σ → List κ) (n : ℕ) : Prop where
  found : ∀ k s, ∀ r ∈ P.found k s, P.key r ∈ keys s
  between : ∀ k s, n ≤ k → keys (P.between k s) ⊆ keys s
  visit : ∀ k rows s, keys (P.visit k rows s) ⊆ keys s

/-- The keys of the store that are left to the loop. -/
def left (keys : σ → List κ) (cursor : Option κ) (s : σ) : Finset κ :=
  (keys s).toFinset.filter fun x => cursor.all (· < x) = true

theorem mem_left {keys : σ → List κ} {x : κ} : x ∈ left keys cursor s ↔ x ∈ keys s ∧ cursor.all (· < x) = true := by
  simp [left]

/-- A page leaves fewer keys to the loop. -/
theorem left_lt {keys : σ → List κ} {n : ℕ} (hset : P.Settles keys n) (hn : n ≤ k) {last : α}
    (hlast : (P.page k cursor (P.between k s)).getLast? = some last) :
    (left keys (some (P.key last)) (P.visit k (P.page k cursor (P.between k s)) (P.between k s))).card <
      (left keys cursor s).card := by
  obtain ⟨hfound, hcursor⟩ := mem_page (List.mem_of_getLast? hlast)
  apply Finset.card_lt_card
  rw [Finset.ssubset_iff_of_subset]
  · refine ⟨P.key last, mem_left.mpr ⟨hset.between k s hn (hset.found k _ last hfound), hcursor⟩, fun h => ?_⟩
    exact absurd (mem_left.mp h).2 (by simp)
  · intro x hx
    obtain ⟨hkeys, hlt⟩ := mem_left.mp hx
    have hlt : P.key last < x := by simpa using hlt
    refine mem_left.mpr ⟨hset.between k s hn (hset.visit _ _ _ hkeys), ?_⟩
    cases cursor with
    | none => rfl
    | some c =>
      have hc : c < P.key last := by simpa using hcursor
      simpa using hc.trans hlt

theorem loop_exists_of_settled {keys : σ → List κ} {n : ℕ} (hset : P.Settles keys n) (m : ℕ) : ∀ (k : ℕ)
    (cursor : Option κ) (s : σ), n ≤ k → (left keys cursor s).card ≤ m → ∃ l final, P.Loop k cursor s l final := by
  induction m with
  | zero =>
    intro k cursor s hn hm
    cases hlast : (P.page k cursor (P.between k s)).getLast? with
    | none => exact ⟨_, _, Loop.stop (List.getLast?_eq_none_iff.mp hlast)⟩
    | some last =>
      have hlt := left_lt hset hn hlast
      omega
  | succ m ih =>
    intro k cursor s hn hm
    cases hlast : (P.page k cursor (P.between k s)).getLast? with
    | none => exact ⟨_, _, Loop.stop (List.getLast?_eq_none_iff.mp hlast)⟩
    | some last =>
      have hlt := left_lt hset hn hlast
      obtain ⟨l, final, hloop⟩ := ih (k + 1) (some (P.key last))
        (P.visit k (P.page k cursor (P.between k s)) (P.between k s)) (by omega) (by omega)
      exact ⟨_, _, Loop.next hlast hloop⟩

/-- **The loop ends**, once the store gets no new keys. -/
theorem loop_exists {keys : σ → List κ} {n : ℕ} (hset : P.Settles keys n) (k : ℕ) (cursor : Option κ) (s : σ) :
    ∃ l final, P.Loop k cursor s l final := by
  -- on the pages before the store settles
  obtain ⟨d, hd⟩ : ∃ d, n ≤ k + d := ⟨n, by omega⟩
  induction d generalizing k cursor s with
  | zero => exact loop_exists_of_settled hset _ k cursor s (by omega) le_rfl
  | succ d ih =>
    cases hlast : (P.page k cursor (P.between k s)).getLast? with
    | none => exact ⟨_, _, Loop.stop (List.getLast?_eq_none_iff.mp hlast)⟩
    | some last =>
      obtain ⟨l, final, hloop⟩ := ih (k + 1) (some (P.key last))
        (P.visit k (P.page k cursor (P.between k s)) (P.between k s)) (by omega)
      exact ⟨_, _, Loop.next hlast hloop⟩

end Pager

end Paging
end FuelNear

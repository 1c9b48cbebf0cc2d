/-
# Which price row is chosen does not depend on the order of the rows

Among the dated rows of one station, fuel and service mode, `candidateWins` is
a strict linear order (`preference`): two rows that neither beats the other
are the same row. So the loop leaves the best row of each key, and the sorted
list depends only on which rows there are.

A row whose `dtComu` is blank has no date: `reported_at` is NaT, which neither
beats a row nor is beaten. Such a row beside another one of its key stays if it
comes first and is dropped if it comes later. This is the only way in which the
order of the rows shows (`selection_determined_iff`).

Key definitions: `preference`, `Determined`.
Key theorems: `candidateWins_eq`, `selection_determined_iff`.
-/
import FuelNear.Mimit.Prices
import Mathlib.Data.Prod.Lex
import Mathlib.Data.String.Basic
import Mathlib.Tactic

namespace FuelNear
namespace Mimit

variable {py : Python} {rows rows' : List NormalizedMimitPrice} {a b r : NormalizedMimitPrice}

/-! ### The order of preference -/

/-- The least row is the best: the latest, then the lowest priority of the
name, then the smallest of normalized name, price and raw name. A row without
a date comes last. -/
def preference (py : Python) (r : NormalizedMimitPrice) : Bool ×ₗ ℤ ×ₗ ℕ ×ₗ String ×ₗ ℚ ×ₗ String :=
  toLex (r.reportedAt.isNone, toLex (-r.reportedAt.getD 0,
    toLex (getCanonicalFuelPriority py r.rawFuel r.fuelType,
      toLex (normalizeMimitFuelName py r.rawFuel, toLex (r.price, r.rawFuel)))))

/-- Rows of one key that are preferred alike are one row. -/
theorem eq_of_preference (hk : a.key = b.key) (h : preference py a = preference py b) : a = b := by
  obtain ⟨hm, hf, hs⟩ : a.mimitId = b.mimitId ∧ a.fuelType = b.fuelType ∧ a.isSelfService = b.isSelfService := by
    simpa [NormalizedMimitPrice.key] using hk
  obtain ⟨hn, ht, -, -, hp, hr⟩ : a.reportedAt.isNone = b.reportedAt.isNone ∧
      a.reportedAt.getD 0 = b.reportedAt.getD 0 ∧ _ ∧ _ ∧ a.price = b.price ∧ a.rawFuel = b.rawFuel := by
    simpa [preference] using h
  have hreported : a.reportedAt = b.reportedAt := by
    cases ha : a.reportedAt <;> cases hb : b.reportedAt <;> simp_all
  cases a
  cases b
  simp_all

/-- To compare pairs, compare the first parts and, where they agree, the second. -/
theorem decide_lex {α β : Type*} [LinearOrder α] [LinearOrder β] (a b : α) (x y : β) :
    decide (toLex (a, x) < toLex (b, y)) = if a ≠ b then decide (a < b) else decide (x < y) := by
  by_cases h : a = b
  · simp [h, Prod.Lex.toLex_lt_toLex]
  · simp [h, Prod.Lex.toLex_lt_toLex]

/-- On dated rows the comparison is the order of preference. -/
theorem candidateWins_eq (ha : a.reportedAt ≠ none) (hb : b.reportedAt ≠ none) :
    candidateWins py a b = decide (preference py a < preference py b) := by
  obtain ⟨t, ht⟩ := Option.ne_none_iff_exists'.mp ha
  obtain ⟨u, hu⟩ := Option.ne_none_iff_exists'.mp hb
  unfold preference candidateWins
  simp only [decide_lex, ht, hu, Datetime.ne, Datetime.lt]
  simp

/-- A row without a date is beaten by none. -/
theorem candidateWins_undated (hb : b.reportedAt = none) : candidateWins py a b = false := by
  cases ha : a.reportedAt <;> simp [candidateWins, ha, hb, Datetime.ne, Datetime.lt]

/-- A row without a date beats none. -/
theorem undated_candidateWins (ha : a.reportedAt = none) : candidateWins py a b = false := by
  cases hb : b.reportedAt <;> simp [candidateWins, ha, hb, Datetime.ne, Datetime.lt]

/-! ### The list of the winners -/

/-- The winner of a key. -/
def winner (py : Python) (rows : List NormalizedMimitPrice) (k : ℤ × FuelType × Bool) : Option NormalizedMimitPrice :=
  (rows.foldl (selectRow py) Dict.empty).get? k

theorem selectRow_eq (py : Python) : selectRow py = fun d r => d.keepBy NormalizedMimitPrice.key (candidateWins py) r := by
  funext d r
  unfold selectRow Dict.keepBy
  cases d.get? r.key <;> rfl

theorem winner_eq (rows : List NormalizedMimitPrice) (k : ℤ × FuelType × Bool) :
    winner py rows k = (rows.filter fun r => r.key = k).foldl (Dict.keep (candidateWins py)) none := by
  rw [winner, selectRow_eq, Dict.get?_foldl_keepBy]
  rfl

theorem mem_select : r ∈ selectDeterministicPriceRows py rows ↔ winner py rows r.key = some r := by
  unfold selectDeterministicPriceRows winner
  set d := rows.foldl (selectRow py) Dict.empty with hd
  have hkeyed : ∀ e ∈ d.entries, e.2.key = e.1 := selected_keyed py rows (by simp)
  rw [(List.mergeSort_perm _ _).mem_iff, Dict.values, List.mem_map, Dict.get?_eq_some]
  constructor
  · rintro ⟨e, he, rfl⟩
    rwa [hkeyed e he]
  · exact fun h => ⟨_, h, rfl⟩

/-- The sort key of a row, as a linear order. -/
def sortKey (r : NormalizedMimitPrice) : ℤ ×ₗ String ×ₗ Bool :=
  toLex (r.mimitId, toLex (r.fuelType.name, r.isSelfService))

theorem key_eq_of_sortKey (h : sortKey a = sortKey b) : a.key = b.key := by
  obtain ⟨hm, hf, hs⟩ : a.mimitId = b.mimitId ∧ a.fuelType.name = b.fuelType.name ∧
      a.isSelfService = b.isSelfService := by
    simpa [sortKey] using h
  rw [NormalizedMimitPrice.key, NormalizedMimitPrice.key, hm, FuelType.name_injective hf, hs]

/-- Rows of different keys are sorted by their keys alone. -/
theorem sortsBefore_eq (h : a.key ≠ b.key) : sortsBefore py a b = decide (sortKey a < sortKey b) := by
  unfold sortsBefore sortKey
  rw [decide_lex, decide_lex]
  by_cases hm : a.mimitId = b.mimitId
  · by_cases hf : a.fuelType = b.fuelType
    · have hs : a.isSelfService ≠ b.isSelfService := by
        intro hs
        exact h (by rw [NormalizedMimitPrice.key, NormalizedMimitPrice.key, hm, hf, hs])
      have hlt : b.isSelfService = decide (a.isSelfService < b.isSelfService) := by
        cases ha : a.isSelfService <;> cases hb : b.isSelfService <;> simp_all
      rw [if_neg (by simpa using hm), if_neg (by simpa using hf), if_pos hs, if_neg (by simpa using hm),
        if_neg (by simp [hf])]
      exact hlt
    · have hname : a.fuelType.name ≠ b.fuelType.name := fun hn => hf (FuelType.name_injective hn)
      rw [if_neg (by simpa using hm), if_pos hf, if_neg (by simpa using hm), if_pos hname]
  · rw [if_pos hm, if_pos hm]

theorem sortsBefore_self : sortsBefore py a a = false := by
  simp [sortsBefore]

/-- The sort of rows of different keys is the sort by their keys. -/
theorem sorted_select (rows : List NormalizedMimitPrice) :
    (selectDeterministicPriceRows py rows).Pairwise fun a b => sortKey a ≤ sortKey b := by
  have hnodup : ((rows.foldl (selectRow py) Dict.empty).values.map (·.key)).Nodup := by
    rw [Dict.map_values (selected_keyed py rows (by simp))]
    exact Dict.keys_nodup _
  unfold selectDeterministicPriceRows
  generalize (rows.foldl (selectRow py) Dict.empty).values = l at hnodup
  have hcongr : l.mergeSort (fun a b => !sortsBefore py b a) = l.mergeSort fun a b => decide (sortKey a ≤ sortKey b) := by
    have hmap := List.map_mergeSort (f := id) (r := fun a b => !sortsBefore py b a)
      (s := fun a b => decide (sortKey a ≤ sortKey b)) (l := l) ?_
    · simpa using hmap
    · intro a ha b hb
      by_cases hab : a = b
      · subst hab
        simp [sortsBefore_self]
      · have hk : b.key ≠ a.key := fun hk => hab (List.inj_on_of_nodup_map hnodup ha hb hk.symm)
        rw [sortsBefore_eq hk]
        simp [← not_le]
  rw [hcongr]
  refine (List.pairwise_mergeSort (fun a b c hab hbc => ?_) (fun a b => ?_) l).imp fun h => of_decide_eq_true h
  · simpa using (of_decide_eq_true hab).trans (of_decide_eq_true hbc)
  · simpa using le_total (sortKey a) (sortKey b)

/-- The list is determined by the winners. -/
theorem select_eq (h : ∀ k, winner py rows' k = winner py rows k) :
    selectDeterministicPriceRows py rows' = selectDeterministicPriceRows py rows := by
  have hnodup : ∀ l, (selectDeterministicPriceRows py l).Nodup := fun l => (select_keys_nodup py l).of_map
  have hperm : (selectDeterministicPriceRows py rows').Perm (selectDeterministicPriceRows py rows) := by
    rw [List.perm_ext_iff_of_nodup (hnodup _) (hnodup _)]
    intro r
    rw [mem_select, mem_select, h]
  refine hperm.eq_of_pairwise (fun a b ha hb hab hba => ?_) (sorted_select rows') (sorted_select rows)
  exact List.inj_on_of_nodup_map (select_keys_nodup py rows) (hperm.mem_iff.mp ha) hb
    (key_eq_of_sortKey (le_antisymm hab hba))

/-! ### What the order of the rows decides -/

/-- A row without a date is alone under its key. -/
def UndatedAlone (rows : List NormalizedMimitPrice) : Prop :=
  ∀ r ∈ rows, r.reportedAt = none → ∀ r' ∈ rows, r'.key = r.key → r' = r

/-- The choice depends on the rows only, not on their order or repetition; it
has one row for each key that there is, and that is the best of its key. -/
structure Determined (py : Python) (rows : List NormalizedMimitPrice) : Prop where
  order : ∀ rows', (∀ r, r ∈ rows' ↔ r ∈ rows) →
    selectDeterministicPriceRows py rows' = selectDeterministicPriceRows py rows
  once : ((selectDeterministicPriceRows py rows).map (·.key)).Nodup
  keys : ∀ k, k ∈ (selectDeterministicPriceRows py rows).map (·.key) ↔ k ∈ rows.map (·.key)
  best : ∀ r ∈ selectDeterministicPriceRows py rows, r ∈ rows ∧
    ∀ r' ∈ rows, r'.key = r.key → preference py r ≤ preference py r'

theorem winner_none {k : ℤ × FuelType × Bool} (h : k ∉ rows.map (·.key)) : winner py rows k = none := by
  have hnone : (rows.filter fun r => r.key = k) = [] := by
    rw [List.filter_eq_nil_iff]
    intro r hr hk
    exact h (List.mem_map.mpr ⟨r, hr, by simpa using hk⟩)
  rw [winner_eq, hnone]
  rfl

/-- A key that there is has a winner, the best row of the key. -/
theorem winner_best (py : Python) (h : UndatedAlone rows) {k : ℤ × FuelType × Bool} (hk : k ∈ rows.map (·.key)) :
    ∃ m ∈ rows, m.key = k ∧ winner py rows k = some m ∧
      ∀ r ∈ rows, r.key = k → preference py m ≤ preference py r := by
  have hmem : ∀ r, r ∈ (rows.filter fun r => r.key = k) ↔ r ∈ rows ∧ r.key = k := by simp
  obtain ⟨x, hx, hxk⟩ := List.mem_map.mp hk
  rw [winner_eq]
  cases hf : rows.filter fun r => r.key = k with
  | nil => exact absurd ((hmem x).mpr ⟨hx, hxk⟩) (by simp [hf])
  | cons c l =>
    rw [hf] at hmem
    have hc := (hmem c).mp List.mem_cons_self
    have hfirst : (c :: l).foldl (Dict.keep (candidateWins py)) none = l.foldl (Dict.keep (candidateWins py)) (some c) := rfl
    rw [hfirst]
    by_cases hdated : ∀ r ∈ c :: l, r.reportedAt ≠ none
    · obtain ⟨m, hm, hfold, hleast⟩ := Dict.foldl_keep_least (preference py)
        fun a ha b hb => candidateWins_eq (hdated a ha) (hdated b hb)
      obtain ⟨hmrows, hmk⟩ := (hmem m).mp hm
      exact ⟨m, hmrows, hmk, hfold, fun r hr hrk => hleast r ((hmem r).mpr ⟨hr, hrk⟩)⟩
    · -- a row without a date is the only one
      push Not at hdated
      obtain ⟨u, hu, hnone⟩ := hdated
      obtain ⟨hurows, huk⟩ := (hmem u).mp hu
      have hall : ∀ r ∈ rows, r.key = k → r = u := fun r hr hrk => h u hurows hnone r hr (hrk.trans huk.symm)
      have hcu : c = u := hall c hc.1 hc.2
      refine ⟨c, hc.1, hc.2, ?_, fun r hr hrk => ?_⟩
      · exact Dict.foldl_keep_of_unbeaten fun a _ => candidateWins_undated (hcu ▸ hnone)
      · rw [hall r hr hrk, hcu]

theorem undatedAlone_congr (h : ∀ r, r ∈ rows' ↔ r ∈ rows) (hu : UndatedAlone rows) : UndatedAlone rows' :=
  fun r hr hn r' hr' hk => hu r ((h r).mp hr) hn r' ((h r').mp hr') hk

/-- Rows of which none without a date has company determine the choice. -/
theorem determined_of_undatedAlone (h : UndatedAlone rows) : Determined py rows where
  order rows' hrows := by
    apply select_eq
    intro k
    by_cases hk : k ∈ rows.map (·.key)
    · have hk' : k ∈ rows'.map (·.key) := by
        obtain ⟨x, hx, hxk⟩ := List.mem_map.mp hk
        exact List.mem_map.mpr ⟨x, (hrows x).mpr hx, hxk⟩
      obtain ⟨m, hm, hmk, hw, hbest⟩ := winner_best py h hk
      obtain ⟨m', hm', hmk', hw', hbest'⟩ := winner_best py (undatedAlone_congr hrows h) hk'
      have hle : preference py m ≤ preference py m' := hbest m' ((hrows m').mp hm') hmk'
      have hge : preference py m' ≤ preference py m := hbest' m ((hrows m).mpr hm) hmk
      rw [hw, hw', eq_of_preference (hmk'.trans hmk.symm) (le_antisymm hge hle)]
    · have hk' : k ∉ rows'.map (·.key) := by
        intro hk'
        obtain ⟨x, hx, hxk⟩ := List.mem_map.mp hk'
        exact hk (List.mem_map.mpr ⟨x, (hrows x).mp hx, hxk⟩)
      rw [winner_none hk, winner_none hk']
  once := select_keys_nodup py rows
  keys k := by
    constructor
    · intro hk
      by_contra hn
      obtain ⟨r, hr, rfl⟩ := List.mem_map.mp hk
      rw [mem_select, winner_none hn] at hr
      exact absurd hr (by simp)
    · intro hk
      obtain ⟨m, -, hmk, hw, -⟩ := winner_best py h hk
      exact List.mem_map.mpr ⟨m, mem_select.mpr (by rw [hmk, hw]), hmk⟩
  best r hr := by
    rw [mem_select] at hr
    have hk : r.key ∈ rows.map (·.key) := by
      by_contra hn
      rw [winner_none hn] at hr
      exact absurd hr (by simp)
    obtain ⟨m, hm, -, hw, hbest⟩ := winner_best py h hk
    obtain rfl := Option.some.inj (hw.symm.trans hr)
    exact ⟨hm, hbest⟩

/-- A row without a date that comes first stays. -/
theorem winner_undated_first (h : a.reportedAt = none) : winner py (a :: rows) a.key = some a := by
  rw [winner_eq, List.filter_cons_of_pos (by simp), List.foldl_cons]
  exact Dict.foldl_keep_of_unbeaten fun b _ => candidateWins_undated h

/-- A row without a date that is not the first of its key goes. -/
theorem winner_not_undated (hb : b.reportedAt = none) (h : winner py (a :: rows) a.key = some b) : b = a := by
  rw [winner_eq, List.filter_cons_of_pos (by simp), List.foldl_cons] at h
  rcases Dict.foldl_keep_beats h with hba | ⟨x, hx⟩
  · exact hba
  · rw [undated_candidateWins hb] at hx
    exact absurd hx (by simp)

/-- **When the selection is deterministic.** The choice is independent of the
order and the repetition of the rows, with one row for each key, the best of
it, exactly if no row without a date shares its key with another row. -/
theorem selection_determined_iff (py : Python) (rows : List NormalizedMimitPrice) :
    Determined py rows ↔ UndatedAlone rows := by
  constructor
  · intro h r hr hnone r' hr' hk
    have hsame : ∀ x ∈ rows, selectDeterministicPriceRows py (x :: rows) = selectDeterministicPriceRows py rows := by
      intro x hx
      apply h.order
      intro y
      constructor
      · intro hy
        rcases List.mem_cons.mp hy with rfl | hy
        · exact hx
        · exact hy
      · exact List.mem_cons_of_mem x
    -- put first, the row without a date is chosen; so it is with the other row first
    have hchosen : r ∈ selectDeterministicPriceRows py (r :: rows) := mem_select.mpr (winner_undated_first hnone)
    rw [hsame r hr, ← hsame r' hr', mem_select, ← hk] at hchosen
    exact (winner_not_undated hnone hchosen).symm
  · exact determined_of_undatedAlone

namespace Sample

def dated : NormalizedMimitPrice := ⟨7, "Benzina", .benzina, 9 / 5, true, some 1782892800⟩

/-- Of the same station, fuel and mode, with a blank `dtComu`. -/
def undated : NormalizedMimitPrice := ⟨7, "Benzina", .benzina, 17 / 10, true, none⟩

end Sample

/-- Of a dated row and one without a date, the first is chosen. -/
theorem selection_order_dependent : ¬ Determined Sample.python [Sample.dated, Sample.undated] := by
  intro h
  have hswap := h.order [Sample.undated, Sample.dated] fun r => by
    rw [List.mem_pair, List.mem_pair, or_comm]
  exact absurd hswap (by decide +kernel)

end Mimit
end FuelNear

/-
# Python's dict and Counter

A `Dict` lists its entries in the order in which their keys were first
written and carries the proof that no key occurs twice. A write to a key that
is there replaces the value and keeps the place. A `Counter` is a dict of
numbers in which a missing key counts zero.

`Dict.keepBy` is the turn of a loop that keeps the winner for each key, and
`Dict.alter` of one that brings each key up to date. Where the turns commute,
the order of the elements shows only in the order of the keys
(`Dict.get?_foldl_alter_perm`).

Key definitions: `Dict`, `Dict.get?`, `Dict.set`, `Dict.keepBy`, `Dict.alter`, `Counter`, `Counter.count`.
Key theorems: `Dict.get?_eq_some`, `Dict.mem_set`, `Dict.get?_set`, `Dict.get?_filter`, `Dict.map_values`, `Dict.sum_set`,
`Dict.get?_foldl_keepBy`, `Dict.foldl_keep_least`, `Dict.get?_foldl_alter_perm`, `Dict.entries_perm`,
`Counter.count_of`, `Counter.sum_of`, `Counter.repeated_of_nodup`.
-/
import Mathlib.Data.List.Nodup
import Mathlib.Tactic

namespace FuelNear

/-- Entries in insertion order, one for each key. -/
structure Dict (κ α : Type*) where
  entries : List (κ × α)
  nodup : (entries.map Prod.fst).Nodup

namespace Dict

variable {κ α : Type*}

def empty : Dict κ α := ⟨[], List.nodup_nil⟩

/-- `d.keys()`. -/
def keys (d : Dict κ α) : List κ := d.entries.map Prod.fst

/-- `d.values()`. -/
def values (d : Dict κ α) : List α := d.entries.map Prod.snd

@[simp] theorem entries_empty : (empty : Dict κ α).entries = [] := rfl
@[simp] theorem keys_empty : (empty : Dict κ α).keys = [] := rfl

theorem keys_nodup (d : Dict κ α) : d.keys.Nodup := d.nodup

theorem mem_keys {d : Dict κ α} {k : κ} : k ∈ d.keys ↔ ∃ a, (k, a) ∈ d.entries := by
  simp [keys]

/-- A key has one value. -/
theorem value_unique {d : Dict κ α} {k : κ} {a b : α} (ha : (k, a) ∈ d.entries) (hb : (k, b) ∈ d.entries) :
    a = b :=
  (Prod.mk.inj (List.inj_on_of_nodup_map d.nodup ha hb rfl)).2

/-- If each value knows its key, the values are keyed as the dict is. -/
theorem map_values {d : Dict κ α} {key : α → κ} (h : ∀ e ∈ d.entries, key e.2 = e.1) : d.values.map key = d.keys := by
  rw [values, keys, List.map_map]
  exact List.map_congr_left h

variable [DecidableEq κ]

/-- `d.get(k)`. -/
def get? (d : Dict κ α) (k : κ) : Option α := (d.entries.find? fun e => e.1 = k).map Prod.snd

/-- `k in d`. -/
def contains (d : Dict κ α) (k : κ) : Bool := (d.get? k).isSome

theorem get?_eq_some {d : Dict κ α} {k : κ} {a : α} : d.get? k = some a ↔ (k, a) ∈ d.entries := by
  constructor
  · intro h
    obtain ⟨e, he, rfl⟩ := Option.map_eq_some_iff.mp h
    have hk : e.1 = k := by simpa using List.find?_some he
    rw [← hk]
    exact List.mem_of_find?_eq_some he
  · intro h
    have hsome : (d.entries.find? fun e => decide (e.1 = k)).isSome := List.find?_isSome.mpr ⟨_, h, by simp⟩
    obtain ⟨e, he⟩ := Option.isSome_iff_exists.mp hsome
    have hk : e.1 = k := by simpa using List.find?_some he
    have ha : e.2 = a := value_unique (hk ▸ List.mem_of_find?_eq_some he) h
    rw [get?, he, Option.map_some, ha]

theorem get?_eq_none {d : Dict κ α} {k : κ} : d.get? k = none ↔ k ∉ d.keys := by
  rw [mem_keys, Option.eq_none_iff_forall_ne_some]
  simp only [ne_eq, get?_eq_some, not_exists]

/-- The entries with `k` written. -/
def setEntries (l : List (κ × α)) (k : κ) (a : α) : List (κ × α) :=
  if k ∈ l.map Prod.fst then l.map fun e => if e.1 = k then (k, a) else e else l ++ [(k, a)]

theorem map_fst_setEntries (l : List (κ × α)) (k : κ) (a : α) :
    (setEntries l k a).map Prod.fst = if k ∈ l.map Prod.fst then l.map Prod.fst else l.map Prod.fst ++ [k] := by
  unfold setEntries
  split_ifs with h
  · rw [List.map_map]
    apply List.map_congr_left
    intro e _
    by_cases he : e.1 = k <;> simp [he]
  · simp

/-- `d[k] = a`. -/
def set (d : Dict κ α) (k : κ) (a : α) : Dict κ α where
  entries := setEntries d.entries k a
  nodup := by
    rw [map_fst_setEntries]
    split_ifs with h
    · exact d.nodup
    · exact d.nodup.append (List.nodup_singleton k) (by simpa using h)

theorem keys_set (d : Dict κ α) (k : κ) (a : α) : (d.set k a).keys = if k ∈ d.keys then d.keys else d.keys ++ [k] :=
  map_fst_setEntries d.entries k a

theorem mem_set {d : Dict κ α} {k : κ} {a : α} {e : κ × α} :
    e ∈ (d.set k a).entries ↔ e = (k, a) ∨ e ∈ d.entries ∧ e.1 ≠ k := by
  show e ∈ setEntries d.entries k a ↔ _
  unfold setEntries
  split_ifs with h
  · obtain ⟨x, hx, hxk⟩ := List.mem_map.mp h
    rw [List.mem_map]
    constructor
    · rintro ⟨y, hy, rfl⟩
      by_cases hk : y.1 = k
      · exact .inl (if_pos hk)
      · rw [if_neg hk]
        exact .inr ⟨hy, hk⟩
    · rintro (rfl | ⟨he, hk⟩)
      · exact ⟨x, hx, if_pos hxk⟩
      · exact ⟨e, he, if_neg hk⟩
  · have hne : ∀ x ∈ d.entries, x.1 ≠ k := fun x hx hk => h (List.mem_map.mpr ⟨x, hx, hk⟩)
    rw [List.mem_append, List.mem_singleton]
    constructor
    · rintro (he | rfl)
      · exact .inr ⟨he, hne e he⟩
      · exact .inl rfl
    · rintro (rfl | ⟨he, -⟩)
      · exact .inr rfl
      · exact .inl he

theorem mem_keys_set {d : Dict κ α} {k j : κ} {a : α} : j ∈ (d.set k a).keys ↔ j = k ∨ j ∈ d.keys := by
  rw [keys_set]
  split_ifs with h
  · exact ⟨.inr, fun hj => hj.elim (fun he => he ▸ h) id⟩
  · rw [List.mem_append, List.mem_singleton, or_comm]

theorem get?_set (d : Dict κ α) (k j : κ) (a : α) : (d.set k a).get? j = if j = k then some a else d.get? j := by
  split_ifs with h
  · rw [get?_eq_some, mem_set]
    exact .inl (by rw [h])
  · ext b
    rw [get?_eq_some, get?_eq_some, mem_set]
    simp [h]

/-- A total over the values: the old value of the key goes, the new one comes. -/
theorem sum_set (d : Dict κ α) (k : κ) (a : α) (f : α → ℕ) :
    ((d.set k a).values.map f).sum + ((d.get? k).map f).getD 0 = (d.values.map f).sum + f a := by
  by_cases hk : k ∈ d.keys
  · obtain ⟨b, hb⟩ := mem_keys.mp hk
    obtain ⟨l₁, l₂, hl⟩ := List.append_of_mem hb
    have hnodup := d.nodup
    rw [hl, List.map_append, List.map_cons] at hnodup
    obtain ⟨h₁, h₂⟩ : k ∉ l₁.map Prod.fst ∧ k ∉ l₂.map Prod.fst := by
      have hdisj := List.disjoint_of_nodup_append hnodup
      exact ⟨fun h => hdisj h List.mem_cons_self, (List.nodup_cons.mp (List.nodup_append.mp hnodup).2.1).1⟩
    have hkeep : ∀ l : List (κ × α), k ∉ l.map Prod.fst → (l.map fun e => if e.1 = k then (k, a) else e) = l := by
      intro l h
      conv_rhs => rw [← List.map_id l]
      exact List.map_congr_left fun e he => if_neg fun hek => h (List.mem_map.mpr ⟨e, he, hek⟩)
    have hset : (d.set k a).entries = l₁ ++ (k, a) :: l₂ := by
      have hmap : (d.set k a).entries = d.entries.map fun e => if e.1 = k then (k, a) else e := if_pos hk
      rw [hmap, hl, List.map_append, List.map_cons, hkeep l₁ h₁, hkeep l₂ h₂]
      simp
    rw [values, values, hset, hl, get?_eq_some.mpr hb]
    simp
    omega
  · have hset : (d.set k a).entries = d.entries ++ [(k, a)] := if_neg hk
    rw [values, values, hset, get?_eq_none.mpr hk]
    simp

/-- The dict without the entries that fail the test. -/
def filter (d : Dict κ α) (p : κ × α → Bool) : Dict κ α :=
  ⟨d.entries.filter p, d.nodup.sublist (List.filter_sublist.map Prod.fst)⟩

theorem get?_filter (d : Dict κ α) (p : κ × α → Bool) (k : κ) :
    (d.filter p).get? k = (d.get? k).filter fun a => p (k, a) := by
  ext a
  rw [get?_eq_some, Option.filter_eq_some_iff, get?_eq_some]
  exact List.mem_filter

/-- To look up each key is to go through the entries. -/
theorem filterMap_keys {β : Type*} (d : Dict κ α) (g : κ → α → β) :
    (d.keys.filterMap fun k => (d.get? k).map (g k)) = d.entries.map fun e => g e.1 e.2 := by
  rw [keys, List.filterMap_map, ← List.filterMap_eq_map]
  refine List.filterMap_congr fun e he => ?_
  simp [get?_eq_some.mpr he]

/-- Two dicts that answer alike differ in the order of their entries only. -/
theorem entries_perm {d d' : Dict κ α} (h : ∀ k, d.get? k = d'.get? k) : d.entries.Perm d'.entries := by
  rw [List.perm_ext_iff_of_nodup d.nodup.of_map d'.nodup.of_map]
  rintro ⟨k, a⟩
  rw [← get?_eq_some, ← get?_eq_some, h]

/-! ### Loops that bring each key up to date -/

section Alter

variable {β : Type*} (key : β → κ) (f : Option α → β → α)

/-- A turn of a loop that brings the value of one key up to date. -/
def alter (d : Dict κ α) (b : β) : Dict κ α := d.set (key b) (f (d.get? (key b)) b)

variable {key f}

/-- The loop makes the value of each key from the elements with that key alone. -/
theorem get?_foldl_alter (k : κ) : ∀ (l : List β) (d : Dict κ α),
    (l.foldl (alter key f) d).get? k = (l.filter fun b => key b = k).foldl (fun o b => some (f o b)) (d.get? k)
  | [], _ => rfl
  | b :: l, d => by
    rw [List.foldl_cons, get?_foldl_alter k l, alter, get?_set]
    by_cases hk : key b = k
    · rw [if_pos hk.symm, List.filter_cons_of_pos (by simpa using hk), List.foldl_cons, hk]
    · rw [if_neg (Ne.symm hk), List.filter_cons_of_neg (by simpa using hk)]

/-- Where the turns of one key commute, the order of the elements does not
show in the answers. -/
theorem get?_foldl_alter_perm {l l' : List β} (h : l.Perm l')
    (hcomm : ∀ o b c, key b = key c → f (some (f o b)) c = f (some (f o c)) b) (d : Dict κ α) (k : κ) :
    (l.foldl (alter key f) d).get? k = (l'.foldl (alter key f) d).get? k := by
  rw [get?_foldl_alter, get?_foldl_alter]
  refine (h.filter _).foldl_eq' (fun b hb c hc o => ?_) _
  have hbk : key b = k := by simpa using (List.mem_filter.mp hb).2
  have hck : key c = k := by simpa using (List.mem_filter.mp hc).2
  rw [hcomm o b c (hbk.trans hck.symm)]

end Alter

/-! ### The winner for each key -/

section Winner

variable (key : α → κ) (wins : α → α → Bool)

/-- The current winner after one more candidate. -/
def keep : Option α → α → Option α
  | none, a => some a
  | some c, a => if wins a c then some a else some c

/-- A turn of a loop that keeps the winner for each key. -/
def keepBy (d : Dict κ α) (a : α) : Dict κ α :=
  match d.get? (key a) with
  | none => d.set (key a) a
  | some c => if wins a c then d.set (key a) a else d

variable {key wins}

theorem get?_keepBy (d : Dict κ α) (a : α) (k : κ) :
    (d.keepBy key wins a).get? k = if key a = k then keep wins (d.get? k) a else d.get? k := by
  unfold keepBy
  by_cases hk : key a = k
  · subst hk
    rw [if_pos rfl]
    cases hd : d.get? (key a) with
    | none => simp [get?_set, keep]
    | some c => by_cases hw : wins a c = true <;> simp [hw, get?_set, keep, hd]
  · have hset : (d.set (key a) a).get? k = d.get? k := by
      rw [get?_set, if_neg (Ne.symm hk)]
    rw [if_neg hk]
    split
    · exact hset
    · split
      · exact hset
      · rfl

/-- The loop decides each key by the candidates with that key alone. -/
theorem get?_foldl_keepBy (k : κ) : ∀ (l : List α) (d : Dict κ α),
    (l.foldl (keepBy key wins) d).get? k = (l.filter fun a => key a = k).foldl (keep wins) (d.get? k)
  | [], _ => rfl
  | a :: l, d => by
    rw [List.foldl_cons, get?_foldl_keepBy k l, get?_keepBy]
    by_cases hk : key a = k
    · rw [if_pos hk, List.filter_cons_of_pos (by simpa using hk), List.foldl_cons]
    · rw [if_neg hk, List.filter_cons_of_neg (by simpa using hk)]

/-- A candidate that none of the others beats stays. -/
theorem foldl_keep_of_unbeaten {c : α} : ∀ {l : List α}, (∀ a ∈ l, wins a c = false) →
    l.foldl (keep wins) (some c) = some c
  | [], _ => rfl
  | a :: l, h => by
    have ha : keep wins (some c) a = some c := by simp [keep, h a List.mem_cons_self]
    rw [List.foldl_cons, ha]
    exact foldl_keep_of_unbeaten fun b hb => h b (List.mem_cons_of_mem _ hb)

/-- A candidate that is left at the end was the first, or has beaten another. -/
theorem foldl_keep_beats : ∀ {l : List α} {c m : α}, l.foldl (keep wins) (some c) = some m → m = c ∨ ∃ b, wins m b = true
  | [], c, m, h => .inl (Option.some.inj h).symm
  | a :: l, c, m, h => by
    rw [List.foldl_cons] at h
    by_cases hw : wins a c = true
    · rw [keep, if_pos hw] at h
      rcases foldl_keep_beats h with rfl | hb
      · exact .inr ⟨c, hw⟩
      · exact .inr hb
    · rw [keep, if_neg hw] at h
      exact foldl_keep_beats h

/-- The winner was there, or is a candidate. -/
theorem foldl_keep_mem : ∀ {l : List α} {o : Option α} {m : α}, l.foldl (keep wins) o = some m → o = some m ∨ m ∈ l
  | [], _, _, h => .inl h
  | a :: l, o, m, h => by
    rw [List.foldl_cons] at h
    rcases foldl_keep_mem h with h | h
    · cases o with
      | none =>
        obtain rfl := Option.some.inj h
        exact .inr List.mem_cons_self
      | some c =>
        rw [keep] at h
        split_ifs at h
        · obtain rfl := Option.some.inj h
          exact .inr List.mem_cons_self
        · exact .inl h
    · exact .inr (List.mem_cons_of_mem a h)

/-- Where `wins` is a linear order on the candidates, the least of them is left. -/
theorem foldl_keep_least {π : Type*} [LinearOrder π] (rank : α → π) : ∀ {l : List α} {c : α},
    (∀ a ∈ c :: l, ∀ b ∈ c :: l, wins a b = decide (rank a < rank b)) →
    ∃ m ∈ c :: l, l.foldl (keep wins) (some c) = some m ∧ ∀ a ∈ c :: l, rank m ≤ rank a
  | [], c, _ => ⟨c, List.mem_cons_self, rfl, fun a ha => by rw [List.mem_singleton.mp ha]⟩
  | b :: l, c, h => by
    have hbc : wins b c = decide (rank b < rank c) := h b (by simp) c (by simp)
    -- the winner of the first two goes on, and is not behind either
    obtain ⟨w, hw, hkeep, hwb, hwc⟩ :
        ∃ w, (w = b ∨ w = c) ∧ keep wins (some c) b = some w ∧ rank w ≤ rank b ∧ rank w ≤ rank c := by
      by_cases hlt : rank b < rank c
      · exact ⟨b, .inl rfl, by simp [keep, hbc, hlt], le_rfl, hlt.le⟩
      · exact ⟨c, .inr rfl, by simp [keep, hbc, hlt], not_lt.mp hlt, le_rfl⟩
    have hsub : ∀ a ∈ w :: l, a ∈ c :: b :: l := by
      intro a ha
      rcases List.mem_cons.mp ha with rfl | ha
      · rcases hw with rfl | rfl <;> simp
      · simp [ha]
    obtain ⟨m, hm, hfold, hleast⟩ := foldl_keep_least rank fun x hx y hy => h x (hsub x hx) y (hsub y hy)
    refine ⟨m, hsub m hm, by rw [List.foldl_cons, hkeep, hfold], fun a ha => ?_⟩
    have hmw : rank m ≤ rank w := hleast w List.mem_cons_self
    rcases List.mem_cons.mp ha with rfl | ha
    · exact hmw.trans hwc
    · rcases List.mem_cons.mp ha with rfl | ha
      · exact hmw.trans hwb
      · exact hleast a (List.mem_cons_of_mem _ ha)

end Winner

end Dict

/-! ### Counter -/

abbrev Counter (κ : Type*) := Dict κ ℕ

namespace Counter

variable {κ : Type*} [DecidableEq κ]

/-- `c[k]`. -/
def count (c : Counter κ) (k : κ) : ℕ := (c.get? k).getD 0

/-- `c[k] += 1`. -/
def increment (c : Counter κ) (k : κ) : Counter κ := c.set k (count c k + 1)

/-- `Counter(l)`. -/
def of (l : List κ) : Counter κ := l.foldl increment Dict.empty

/-- The number of keys that count more than once. -/
def repeated (c : Counter κ) : ℕ := c.values.countP (1 < ·)

theorem count_increment (c : Counter κ) (k j : κ) : count (increment c k) j = count c j + if j = k then 1 else 0 := by
  unfold increment
  rw [count, Dict.get?_set]
  by_cases h : j = k
  · simp [h]
  · simp [h, count]

theorem count_foldl (l : List κ) (k : κ) : ∀ c : Counter κ, count (l.foldl increment c) k = count c k + l.count k := by
  induction l with
  | nil => simp
  | cons j l ih =>
    intro c
    rw [List.foldl_cons, ih, count_increment, List.count_cons]
    by_cases h : j = k
    · subst h
      simp only [beq_self_eq_true, if_true]
      omega
    · simp [h, Ne.symm h]

/-- The counter of a list counts it. -/
theorem count_of (l : List κ) (k : κ) : count (of l) k = l.count k := by
  have hempty : count (Dict.empty : Counter κ) k = 0 := rfl
  rw [of, count_foldl, hempty, zero_add]

/-- What the counter of a list counts adds up to the list. -/
theorem sum_foldl : ∀ (l : List κ) (c : Counter κ), (l.foldl increment c).values.sum = c.values.sum + l.length
  | [], _ => rfl
  | k :: l, c => by
    have hset := c.sum_set k (count c k + 1) id
    have hcount : ((c.get? k).map id).getD 0 = count c k := by rw [Option.map_id]; rfl
    rw [hcount, List.map_id, List.map_id] at hset
    rw [List.foldl_cons, sum_foldl l, increment, List.length_cons]
    simp only [id] at hset
    omega

theorem sum_of (l : List κ) : (of l).values.sum = l.length := by
  rw [of, sum_foldl]
  exact Nat.zero_add _

theorem count_of_mem {c : Counter κ} {k : κ} {n : ℕ} (h : (k, n) ∈ c.entries) : count c k = n := by
  rw [count, Dict.get?_eq_some.mpr h, Option.getD_some]

/-- No key of a list without duplicates counts more than once. -/
theorem repeated_of_nodup {l : List κ} (h : l.Nodup) : repeated (of l) = 0 := by
  rw [repeated, List.countP_eq_zero]
  intro n hn
  obtain ⟨⟨k, m⟩, he, rfl⟩ := List.mem_map.mp hn
  have hle : l.count k ≤ 1 := List.nodup_iff_count_le_one.mp h k
  have hm : l.count k = m := (count_of l k).symm.trans (count_of_mem he)
  simp only [decide_eq_true_eq, not_lt]
  omega

end Counter
end FuelNear

/-
# The little of SQL the code relies on

Tables with unique indexes, `UPDATE … WHERE`, `INSERT`, `GREATEST`,
`ORDER BY` and `ORDER BY … DESC LIMIT 1`. A table carries the proof that its unique
indexes hold: `keys` lists the index entries of a row (a row outside a
partial index has no entry there), and no entry occurs twice in the table. A
`Checked` table also carries the proof that every row passes its CHECK.

Key definitions: `Table`, `Table.update`, `Table.project`, `Table.insert?`, `Checked`, `top`, `Pick`, `orderBy`,
`greatest`.
Key theorems: `Table.eq_of_key`, `Table.find?_update`, `Table.find?_insert`,
`top_mem`, `top_ge`, `top_filter`, `top_congr`, `orderBy_head`.
-/
import Mathlib.Data.List.Basic
import Mathlib.Data.List.Nodup
import Mathlib.Order.Defs.LinearOrder
import Mathlib.Tactic

namespace FuelNear
namespace Sql

/-- `GREATEST(a, b)`: a NULL argument is ignored. -/
def greatest {α : Type*} [Max α] : Option α → Option α → Option α
  | some a, some b => some (max a b)
  | some a, none => some a
  | none, b => b

/-! ### ORDER BY key DESC LIMIT 1 -/

section Top

variable {α κ : Type*} [LinearOrder κ] (key : α → κ)

/-- The first row of `ORDER BY key DESC`; rows of one key stay in list order. -/
def top : List α → Option α
  | [] => none
  | a :: l =>
    match top l with
    | none => some a
    | some b => if key b ≤ key a then some a else some b

@[simp] theorem top_nil : top key [] = none := rfl

theorem top_cons_of_none {a : α} {l : List α} (h : top key l = none) : top key (a :: l) = some a := by
  rw [top, h]

theorem top_cons_of_some {a b : α} {l : List α} (h : top key l = some b) :
    top key (a :: l) = if key b ≤ key a then some a else some b := by
  rw [top, h]

theorem top_eq_none_iff : ∀ {l : List α}, top key l = none ↔ l = []
  | [] => by simp
  | a :: l => by
    cases h : top key l with
    | none => simp [top_cons_of_none key h]
    | some b => rw [top_cons_of_some key h]; split_ifs <;> simp

theorem top_mem : ∀ {l : List α} {a : α}, top key l = some a → a ∈ l
  | [], _, h => by simp at h
  | x :: l, a, h => by
    cases hl : top key l with
    | none => rw [top_cons_of_none key hl] at h; simp_all
    | some b =>
      rw [top_cons_of_some key hl] at h
      split_ifs at h with hk
      · simp_all
      · have := top_mem hl; simp_all

theorem top_ge : ∀ {l : List α} {a : α}, top key l = some a → ∀ b ∈ l, key b ≤ key a
  | [], _, h => by simp at h
  | x :: l, a, h => by
    cases hl : top key l with
    | none =>
      rw [top_cons_of_none key hl] at h
      rw [top_eq_none_iff] at hl
      simp_all
    | some y =>
      have ih := top_ge hl
      rw [top_cons_of_some key hl] at h
      split_ifs at h with hk
      · obtain rfl : x = a := by simpa using h
        intro b hb
        rcases List.mem_cons.mp hb with rfl | hb
        · exact le_rfl
        · exact (ih b hb).trans hk
      · obtain rfl : y = a := by simpa using h
        intro b hb
        rcases List.mem_cons.mp hb with rfl | hb
        · exact le_of_lt (not_le.mp hk)
        · exact ih b hb

/-- A narrower WHERE that keeps the first row keeps it first. -/
theorem top_filter {p : α → Bool} : ∀ {l : List α} {a : α}, top key l = some a → p a = true →
    top key (l.filter p) = some a
  | [], _, h, _ => by simp at h
  | x :: l, a, h, hp => by
    cases hl : top key l with
    | none =>
      rw [top_cons_of_none key hl] at h
      rw [top_eq_none_iff] at hl
      obtain rfl : x = a := by simpa using h
      simp [hl, hp, top]
    | some y =>
      rw [top_cons_of_some key hl] at h
      split_ifs at h with hk
      · obtain rfl : x = a := by simpa using h
        rw [List.filter_cons_of_pos hp]
        cases hf : top key (l.filter p) with
        | none => exact top_cons_of_none key hf
        | some z =>
          have hz := top_ge key hl z (List.mem_filter.mp (top_mem key hf)).1
          rw [top_cons_of_some key hf, if_pos (hz.trans hk)]
      · obtain rfl : y = a := by simpa using h
        have ih := top_filter hl hp
        by_cases hx : p x = true
        · rw [List.filter_cons_of_pos hx, top_cons_of_some key ih, if_neg hk]
        · rw [List.filter_cons_of_neg hx, ih]

/-- Two keys that put the rows in the same order have the same first row. -/
theorem top_congr {μ : Type*} [LinearOrder μ] {key' : α → μ} : ∀ {l : List α},
    (∀ a ∈ l, ∀ b ∈ l, (key b ≤ key a ↔ key' b ≤ key' a)) → top key l = top key' l
  | [], _ => rfl
  | x :: l, h => by
    have ih : top key l = top key' l :=
      top_congr fun a ha b hb => h a (List.mem_cons_of_mem x ha) b (List.mem_cons_of_mem x hb)
    cases hl : top key' l with
    | none => rw [top_cons_of_none key' hl, top_cons_of_none key (ih.trans hl)]
    | some b =>
      have hb := List.mem_cons_of_mem x (top_mem key' hl)
      rw [top_cons_of_some key' hl, top_cons_of_some key (ih.trans hl)]
      exact if_congr (h x List.mem_cons_self b hb) rfl rfl

end Top

/-- `LIMIT 1` without an ORDER BY: the database gives any one of the rows. -/
structure Pick (α : Type*) where
  pick : List α → Option α
  pick_mem : ∀ {l : List α} {a : α}, pick l = some a → a ∈ l
  pick_none : ∀ {l : List α}, pick l = none → l = []

/-- The first row in the order of the table. -/
def Pick.first (α : Type*) : Pick α := ⟨List.head?, List.mem_of_head?, List.head?_eq_none_iff.mp⟩

/-! ### ORDER BY -/

/-- The order in which the database comes upon the rows. -/
structure Scan (α : Type*) where
  scan : List α → List α
  perm : ∀ l, (scan l).Perm l

/-- In the order of the table. -/
def Scan.table (α : Type*) : Scan α := ⟨id, fun _ => List.Perm.refl _⟩

section OrderBy

variable {α κ : Type*} [LinearOrder κ] {scan : Scan α} {key : α → κ} {l : List α}

/-- `ORDER BY key`: rows of one key stay as the database came upon them. -/
def orderBy (scan : Scan α) (key : α → κ) (l : List α) : List α :=
  (scan.scan l).insertionSort fun a b => key a ≤ key b

theorem orderBy_perm : (orderBy scan key l).Perm l := (List.perm_insertionSort _ _).trans (scan.perm l)

theorem orderBy_pairwise : (orderBy scan key l).Pairwise fun a b => key a ≤ key b := by
  have : Std.Total fun a b : α => key a ≤ key b := ⟨fun a b => le_total _ _⟩
  have : IsTrans α fun a b => key a ≤ key b := ⟨fun a b c => le_trans⟩
  exact List.pairwise_insertionSort _ _

theorem orderBy_head_none : (orderBy scan key l).head? = none ↔ l = [] := by
  rw [List.head?_eq_none_iff, ← List.length_eq_zero_iff, orderBy_perm.length_eq, List.length_eq_zero_iff]

/-- The first row is among the least. -/
theorem orderBy_head {a : α} (h : (orderBy scan key l).head? = some a) : a ∈ l ∧ ∀ b ∈ l, key a ≤ key b := by
  obtain ⟨tail, htail⟩ := List.head?_eq_some_iff.mp h
  have hmem : ∀ b, b ∈ l ↔ b ∈ a :: tail := fun b => by rw [← htail]; exact orderBy_perm.mem_iff.symm
  have hsorted := @orderBy_pairwise α κ _ scan key l
  rw [htail, List.pairwise_cons] at hsorted
  refine ⟨(hmem a).mpr List.mem_cons_self, fun b hb => ?_⟩
  rcases List.mem_cons.mp ((hmem b).mp hb) with rfl | hb
  · exact le_rfl
  · exact hsorted.1 b hb

end OrderBy

/-- The greatest id of a table bounds every id. -/
theorem foldr_max_ge : ∀ (l : List ℤ) (x : ℤ), x ∈ l → x ≤ l.foldr max 0
  | [], x, h => by simp at h
  | a :: l, x, h => by
    rw [List.foldr_cons]
    rcases List.mem_cons.mp h with rfl | h
    · exact le_max_left _ _
    · exact (foldr_max_ge l x h).trans (le_max_right _ _)

/-! ### Tables with unique indexes -/

/-- Rows in which no entry of a unique index occurs twice. -/
structure Table (ρ : Type*) {κ : Type*} (keys : ρ → List κ) where
  rows : List ρ
  unique : (rows.flatMap keys).Nodup

namespace Table

variable {ρ κ : Type*} {keys : ρ → List κ}

/-- The table with no rows. -/
def empty : Table ρ keys := ⟨[], List.nodup_nil⟩

instance : Membership ρ (Table ρ keys) := ⟨fun t r => r ∈ t.rows⟩

theorem mem_def {t : Table ρ keys} {r : ρ} : r ∈ t ↔ r ∈ t.rows := Iff.rfl

@[ext] theorem ext {t u : Table ρ keys} (h : t.rows = u.rows) : t = u := by
  cases t; cases u; cases h; rfl

theorem nodup_of_flatMap_keys : ∀ {l : List ρ} {r s : ρ} {k : κ}, (l.flatMap keys).Nodup → r ∈ l → s ∈ l →
    k ∈ keys r → k ∈ keys s → r = s
  | [], _, _, _, _, hr, _, _, _ => by simp at hr
  | x :: l, r, s, k, h, hr, hs, hkr, hks => by
    rw [List.flatMap_cons, List.nodup_append] at h
    obtain ⟨-, hl, hd⟩ := h
    rcases List.mem_cons.mp hr with hrx | hrl <;> rcases List.mem_cons.mp hs with hsx | hsl
    · rw [hrx, hsx]
    · exact absurd rfl (hd k (hrx ▸ hkr) k (List.mem_flatMap.mpr ⟨s, hsl, hks⟩))
    · exact absurd rfl (hd k (hsx ▸ hks) k (List.mem_flatMap.mpr ⟨r, hrl, hkr⟩))
    · exact nodup_of_flatMap_keys hl hrl hsl hkr hks

instance [DecidableEq ρ] : DecidableEq (Table ρ keys) := fun _ _ => decidable_of_iff _ Table.ext_iff.symm

/-- A unique index identifies the row. -/
theorem eq_of_key {t : Table ρ keys} {r s : ρ} {k : κ} (hr : r ∈ t) (hs : s ∈ t) (hkr : k ∈ keys r)
    (hks : k ∈ keys s) : r = s :=
  nodup_of_flatMap_keys t.unique hr hs hkr hks

theorem rows_nodup (t : Table ρ keys) (h : ∀ r, keys r ≠ []) : t.rows.Nodup := by
  refine (List.nodup_flatMap.mp t.unique).2.imp fun {r s} hdisj heq => ?_
  subst heq
  obtain ⟨k, hk⟩ := List.exists_mem_of_ne_nil _ (h r)
  exact hdisj hk hk

/-- `SELECT … WHERE p LIMIT 1`. -/
def find? (t : Table ρ keys) (p : ρ → Bool) : Option ρ := t.rows.find? p

theorem find?_mem {t : Table ρ keys} {p : ρ → Bool} {r : ρ} (h : t.find? p = some r) : r ∈ t :=
  List.mem_of_find?_eq_some h

theorem find?_prop {t : Table ρ keys} {p : ρ → Bool} {r : ρ} (h : t.find? p = some r) : p r = true :=
  List.find?_some h

theorem find?_eq_none {t : Table ρ keys} {p : ρ → Bool} : t.find? p = none ↔ ∀ r ∈ t, p r = false := by
  simp [find?, mem_def]

/-- A search by a unique index finds the row that is there. -/
theorem find?_of_mem {t : Table ρ keys} {p : ρ → Bool} {k : κ} (hp : ∀ r, p r = true → k ∈ keys r)
    {r : ρ} (hr : r ∈ t) (h : p r = true) : t.find? p = some r := by
  cases hf : t.find? p with
  | none => rw [find?_eq_none] at hf; simp [hf r hr] at h
  | some s => rw [eq_of_key (find?_mem hf) hr (hp s (find?_prop hf)) (hp r h)]

theorem flatMap_map_sublist (f : ρ → ρ) (hf : ∀ r, (keys (f r)).Sublist (keys r)) : ∀ l : List ρ,
    ((l.map f).flatMap keys).Sublist (l.flatMap keys)
  | [] => List.Sublist.refl _
  | x :: l => by
    simp only [List.map_cons, List.flatMap_cons]
    exact (hf x).append (flatMap_map_sublist f hf l)

/-- `UPDATE … WHERE p`, of columns that bring no new index entry. -/
def update (t : Table ρ keys) (p : ρ → Bool) (f : ρ → ρ) (hf : ∀ r, (keys (f r)).Sublist (keys r)) :
    Table ρ keys where
  rows := t.rows.map fun r => if p r then f r else r
  unique := t.unique.sublist (flatMap_map_sublist _ (fun r => by
    by_cases h : p r
    · simpa [h] using hf r
    · simp [h]) _)

theorem mem_update {t : Table ρ keys} {p : ρ → Bool} {f : ρ → ρ} {hf : ∀ r, (keys (f r)).Sublist (keys r)}
    {s : ρ} : s ∈ t.update p f hf ↔ ∃ r ∈ t, (if p r then f r else r) = s := by
  simp [mem_def, update]

theorem mem_update_of_mem {t : Table ρ keys} {p : ρ → Bool} {f : ρ → ρ} (hf : ∀ r, (keys (f r)).Sublist (keys r))
    {r : ρ} (h : r ∈ t) : (if p r then f r else r) ∈ t.update p f hf :=
  mem_update.mpr ⟨r, h, rfl⟩

/-- An update that changes no row it reaches changes nothing. -/
theorem update_eq_self {t : Table ρ keys} {p : ρ → Bool} {f : ρ → ρ}
    {hf : ∀ r, (keys (f r)).Sublist (keys r)} (h : ∀ r ∈ t, p r = true → f r = r) : t.update p f hf = t := by
  refine Table.ext ?_
  refine (List.map_congr_left fun r hr => ?_).trans (List.map_id t.rows)
  by_cases hp : p r = true
  · simp [hp, h r hr hp]
  · simp [hp]

/-- An update of columns that the search does not read finds the same row,
updated if it is reached. -/
theorem find?_update {t : Table ρ keys} {p q : ρ → Bool} {f : ρ → ρ}
    {hf : ∀ r, (keys (f r)).Sublist (keys r)} (hq : ∀ r, q (f r) = q r) :
    (t.update p f hf).find? q = (t.find? q).map fun r => if p r then f r else r := by
  have hg : (q ∘ fun r => if p r then f r else r) = q := by
    funext r
    by_cases h : p r <;> simp [h, hq]
  simp only [find?, update, List.find?_map, hg]

theorem nodup_project {τ κ' : Type*} {keys' : τ → List κ'} {f : ρ → τ} {g : κ' → κ}
    (hf : ∀ r, ((keys' (f r)).map g).Sublist (keys r)) (t : Table ρ keys) : ((t.rows.map f).flatMap keys').Nodup := by
  apply List.Nodup.of_map g
  have hsub : ∀ l : List ρ, (((l.map f).flatMap keys').map g).Sublist (l.flatMap keys) := by
    intro l
    induction l with
    | nil => exact List.Sublist.refl _
    | cons r l ih =>
      simp only [List.map_cons, List.flatMap_cons, List.map_append]
      exact (hf r).append ih
  exact t.unique.sublist (hsub t.rows)

/-- The columns of the rows that a query reads, with their unique indexes. -/
def project {τ κ' : Type*} {keys' : τ → List κ'} (t : Table ρ keys) (f : ρ → τ) (g : κ' → κ)
    (hf : ∀ r, ((keys' (f r)).map g).Sublist (keys r)) : Table τ keys' :=
  ⟨t.rows.map f, nodup_project hf t⟩

theorem find?_project {τ κ' : Type*} {keys' : τ → List κ'} {t : Table ρ keys} {f : ρ → τ} {g : κ' → κ}
    {hf : ∀ r, ((keys' (f r)).map g).Sublist (keys r)} (p : τ → Bool) :
    (t.project f g hf).find? p = (t.find? (p ∘ f)).map f :=
  List.find?_map

/-- `DELETE … WHERE p`. -/
def delete (t : Table ρ keys) (p : ρ → Bool) : Table ρ keys where
  rows := t.rows.filter fun r => !p r
  unique := t.unique.sublist (List.filter_sublist.flatMap keys)

theorem mem_delete {t : Table ρ keys} {p : ρ → Bool} {r : ρ} : r ∈ t.delete p ↔ r ∈ t ∧ p r = false := by
  simp [mem_def, delete]

/-- A search for rows that are not deleted finds what it found. -/
theorem find?_delete {t : Table ρ keys} {p q : ρ → Bool} (h : ∀ r, q r = true → p r = false) :
    (t.delete p).find? q = t.find? q := by
  have hq : (fun r => decide ((!p r) = true ∧ q r = true)) = q := by
    funext r
    cases hr : q r with
    | false => simp
    | true => simp [h r hr]
  unfold find? delete
  dsimp only
  rw [List.find?_filter, hq]

/-- `UPDATE … WHERE p`, of columns with a unique index: `none` is its violation. -/
def update? [DecidableEq κ] (t : Table ρ keys) (p : ρ → Bool) (f : ρ → ρ) : Option (Table ρ keys) :=
  if h : ((t.rows.map fun r => if p r then f r else r).flatMap keys).Nodup then some ⟨_, h⟩ else none

theorem update?_rows [DecidableEq κ] {t u : Table ρ keys} {p : ρ → Bool} {f : ρ → ρ} (h : t.update? p f = some u) :
    u.rows = t.rows.map fun r => if p r then f r else r := by
  unfold update? at h
  split_ifs at h
  rw [← Option.some.inj h]

theorem mem_update? [DecidableEq κ] {t u : Table ρ keys} {p : ρ → Bool} {f : ρ → ρ} {s : ρ}
    (h : t.update? p f = some u) : s ∈ u ↔ ∃ r ∈ t, (if p r then f r else r) = s := by
  simp [mem_def, update?_rows h]

/-- `INSERT`: `none` is the violation of a unique index. -/
def insert? [DecidableEq κ] (t : Table ρ keys) (r : ρ) : Option (Table ρ keys) :=
  if h : ((t.rows ++ [r]).flatMap keys).Nodup then some ⟨t.rows ++ [r], h⟩ else none

variable [DecidableEq κ]

theorem insert?_rows {t u : Table ρ keys} {r : ρ} (h : t.insert? r = some u) : u.rows = t.rows ++ [r] := by
  unfold insert? at h
  split_ifs at h
  rw [← Option.some.inj h]

theorem mem_insert {t u : Table ρ keys} {r s : ρ} (h : t.insert? r = some u) : s ∈ u ↔ s ∈ t ∨ s = r := by
  simp [mem_def, insert?_rows h]

/-- The index entries of an inserted row are new to the table. -/
theorem insert?_fresh {t u : Table ρ keys} {r s : ρ} {k : κ} (h : t.insert? r = some u) (hs : s ∈ t)
    (hk : k ∈ keys s) : k ∉ keys r := by
  unfold insert? at h
  split_ifs at h with hn
  rw [List.flatMap_append, List.flatMap_singleton, List.nodup_append] at hn
  exact fun hr => hn.2.2 k (List.mem_flatMap.mpr ⟨s, hs, hk⟩) k hr rfl

/-- A row whose index entries are new to the table can be inserted. -/
theorem insert?_isSome {t : Table ρ keys} {r : ρ} (hr : (keys r).Nodup)
    (h : ∀ s ∈ t, ∀ k ∈ keys s, k ∉ keys r) : (t.insert? r).isSome := by
  have hn : ((t.rows ++ [r]).flatMap keys).Nodup := by
    rw [List.flatMap_append, List.flatMap_singleton, List.nodup_append]
    refine ⟨t.unique, hr, fun a ha b hb hab => ?_⟩
    obtain ⟨s, hs, hk⟩ := List.mem_flatMap.mp ha
    exact h s hs a hk (hab ▸ hb)
  rw [insert?, dif_pos hn]
  rfl

/-- An insertion is one of the columns that a query reads. -/
theorem insert?_project {τ κ' : Type*} [DecidableEq κ'] {keys' : τ → List κ'} {t u : Table ρ keys} {r : ρ} {f : ρ → τ}
    {g : κ' → κ} {hf : ∀ r, ((keys' (f r)).map g).Sublist (keys r)} (h : t.insert? r = some u) :
    (t.project f g hf).insert? (f r) = some (u.project f g hf) := by
  have hrows : (t.project f g hf).rows ++ [f r] = u.rows.map f := by
    rw [insert?_rows h, List.map_append]
    rfl
  have hn : (((t.project f g hf).rows ++ [f r]).flatMap keys').Nodup := by
    rw [hrows]
    exact nodup_project hf u
  rw [insert?, dif_pos hn]
  exact congrArg some (ext hrows)

theorem find?_insert {t u : Table ρ keys} {r : ρ} {p : ρ → Bool} (h : t.insert? r = some u)
    (hn : t.find? p = none) : u.find? p = if p r then some r else none := by
  rw [find?] at hn
  rw [find?, insert?_rows h, List.find?_append, hn]
  cases hp : p r <;> simp [hp]

theorem find?_insert_of_some {t u : Table ρ keys} {r s : ρ} {p : ρ → Bool} (h : t.insert? r = some u)
    (hs : t.find? p = some s) : u.find? p = some s := by
  rw [find?] at hs
  rw [find?, insert?_rows h, List.find?_append, hs]
  rfl

/-- A search that the inserted row does not answer, and the order of the rows
does not change, finds what it found. -/
theorem find?_insert_of_false {t u : Table ρ keys} {r : ρ} {p : ρ → Bool} (h : t.insert? r = some u)
    (hp : p r = false) : u.find? p = t.find? p := by
  rw [find?, find?, insert?_rows h, List.find?_append]
  simp [hp]

end Table

/-! ### Tables with a CHECK constraint -/

/-- What the database raises at a write. -/
inductive Violation where
  | check
  | unique
  | foreignKey
  deriving DecidableEq

/-- A table whose rows all pass their CHECK. -/
structure Checked (ρ : Type*) {κ : Type*} (keys : ρ → List κ) (check : ρ → Bool) extends Table ρ keys where
  checked : ∀ r ∈ rows, check r = true

namespace Checked

variable {ρ κ : Type*} {keys : ρ → List κ} {check : ρ → Bool}

def empty : Checked ρ keys check := ⟨Table.empty, fun _ h => absurd h List.not_mem_nil⟩

instance : Membership ρ (Checked ρ keys check) := ⟨fun t r => r ∈ t.toTable⟩

theorem mem_def {t : Checked ρ keys check} {r : ρ} : r ∈ t ↔ r ∈ t.toTable := Iff.rfl

theorem check_of_mem {t : Checked ρ keys check} {r : ρ} (h : r ∈ t) : check r = true := t.checked r h

/-- `UPDATE … WHERE p`; an updated row has to pass the CHECK. -/
def update (t : Checked ρ keys check) (p : ρ → Bool) (f : ρ → ρ) (hf : ∀ r, (keys (f r)).Sublist (keys r)) :
    Except Violation (Checked ρ keys check) :=
  if h : ∀ r ∈ t.rows, check (if p r then f r else r) = true then
    .ok ⟨t.toTable.update p f hf, fun r hr => by
      obtain ⟨x, hx, rfl⟩ := List.mem_map.mp hr
      exact h x hx⟩
  else .error .check

theorem update_ok {t u : Checked ρ keys check} {p : ρ → Bool} {f : ρ → ρ}
    {hf : ∀ r, (keys (f r)).Sublist (keys r)} (h : t.update p f hf = .ok u) :
    u.toTable = t.toTable.update p f hf := by
  unfold update at h
  split_ifs at h
  rw [← Except.ok.inj h]

/-- An update to rows that pass the CHECK completes. -/
theorem update_completes {t : Checked ρ keys check} {p : ρ → Bool} {f : ρ → ρ}
    {hf : ∀ r, (keys (f r)).Sublist (keys r)} (h : ∀ r ∈ t, p r = true → check (f r) = true) :
    ∃ u, t.update p f hf = .ok u := by
  have hall : ∀ r ∈ t.rows, check (if p r then f r else r) = true := by
    intro r hr
    by_cases hp : p r = true
    · rw [if_pos hp]
      exact h r hr hp
    · rw [if_neg hp]
      exact t.checked r hr
  rw [update, dif_pos hall]
  exact ⟨_, rfl⟩

variable [DecidableEq κ]

/-- `INSERT`: the CHECK comes before the unique indexes. -/
def insert (t : Checked ρ keys check) (r : ρ) : Except Violation (Checked ρ keys check) :=
  if hc : check r = true then
    match hu : t.toTable.insert? r with
    | none => .error .unique
    | some u => .ok ⟨u, fun x hx => by
        rcases (Table.mem_insert hu).mp hx with hx | rfl
        · exact t.checked x hx
        · exact hc⟩
  else .error .check

theorem insert_ok {t u : Checked ρ keys check} {r : ρ} (h : t.insert r = .ok u) :
    t.toTable.insert? r = some u.toTable := by
  unfold insert at h
  split_ifs at h
  split at h
  · exact absurd h (by simp)
  · next v hv => rw [hv, ← Except.ok.inj h]

/-- An INSERT that does not meet a unique index fails by the CHECK. -/
theorem insert_error {t : Checked ρ keys check} {r : ρ} {v : Violation} (h : t.insert r = .error v) :
    v = .unique ∨ v = .check ∧ check r = false := by
  unfold insert at h
  split_ifs at h with hc
  · split at h
    · exact .inl (Except.error.inj h).symm
    · exact absurd h (by simp)
  · exact .inr ⟨(Except.error.inj h).symm, by simpa using hc⟩

/-- A row that passes the CHECK, with new index entries, can be inserted. -/
theorem insert_completes {t : Checked ρ keys check} {r : ρ} (hc : check r = true) (hr : (keys r).Nodup)
    (h : ∀ s ∈ t, ∀ k ∈ keys s, k ∉ keys r) : ∃ u, t.insert r = .ok u := by
  have hsome : (t.toTable.insert? r).isSome := Table.insert?_isSome hr h
  rw [insert, dif_pos hc]
  split
  · next hn => simp [hn] at hsome
  · exact ⟨_, rfl⟩

/-- A row with an index entry that is taken cannot be inserted. -/
theorem insert_conflict {t : Checked ρ keys check} {r s : ρ} {k : κ} (hc : check r = true) (hs : s ∈ t)
    (hk : k ∈ keys s) (hk' : k ∈ keys r) : t.insert r = .error .unique := by
  rw [insert, dif_pos hc]
  split
  · rfl
  · next u hu => exact absurd hk' (Table.insert?_fresh hu hs hk)

end Checked

end Sql
end FuelNear

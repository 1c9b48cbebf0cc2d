/-
# The register of national averages keeps the newest snapshot

`mimit_national_average_snapshot` has one row. `save_snapshot` is one guarded
upsert: the row gives way only to a snapshot of a later reference date, or of
the same date and a fetch that started later. The upsert locks the row, so the
calls of concurrent fetchers act one after the other, in the order in which
they get the lock; a call that raises, or is rolled back, leaves no trace.

`newest` says what the register is for: of the snapshots saved it keeps the
greatest by (reference date, start of the fetch). The register is its columns
after every run (`register_newest`).

Key definitions: `saveSnapshot`, `newest`.
Key theorems: `saveSnapshot_spec`, `register_newest`, `newest_greatest`, `register_keeps_newest`.
-/
import FuelNear.Dict
import FuelNear.Runs
import FuelNear.Sql
import Mathlib.Algebra.Order.Floor.Ring
import Mathlib.Data.Prod.Lex
import Mathlib.Data.Rat.Floor
import Mathlib.Tactic

namespace FuelNear
namespace Averages

open Sql

/-! ### The table -/

structure Price where
  current : ℚ
  previous : ℚ
  change : ℚ
  deriving DecidableEq

structure Snapshot where
  referenceDate : ℤ
  benzina : Price
  gasolio : Price
  deriving DecidableEq

/-- The columns of the row but for its id, which is 1. -/
structure Columns where
  referenceDate : ℤ
  fetchStartedAt : ℤ
  acquiredAt : ℤ
  benzina : Price
  gasolio : Price
  deriving DecidableEq

/-- The CHECKs of one fuel's columns. -/
def Price.passes (p : Price) : Bool :=
  0 < p.current && p.current < 100 && 0 < p.previous && p.previous < 100 && p.current - p.previous = p.change

/-- The CHECKs of the table. -/
def Columns.passes (c : Columns) : Bool := c.benzina.passes && c.gasolio.passes && c.fetchStartedAt ≤ c.acquiredAt

/-- The one row of the table, if it is there. -/
abbrev Register := Option { c : Columns // c.passes = true }

/-- A value as NUMERIC(6,3) stores it: to three places, half away from zero;
`none` is the overflow. -/
def numeric63 (x : ℚ) : Option ℚ :=
  let thousandths : ℤ := if 0 ≤ x then ⌊x * 1000 + 1 / 2⌋ else ⌈x * 1000 - 1 / 2⌉
  if |thousandths| < 1000000 then some (thousandths / 1000) else none

def Price.stored (p : Price) : Option Price := do
  let current ← numeric63 p.current
  let previous ← numeric63 p.previous
  let change ← numeric63 p.change
  return { current, previous, change }

/-! ### The upsert -/

/-- The arguments of `save_snapshot`. -/
structure SaveCall where
  snapshot : Snapshot
  fetchStartedAt : ℤ
  acquiredAt : ℤ
  deriving DecidableEq

inductive Raised where
  | numericValueOutOfRange
  | database (violation : Violation)
  deriving DecidableEq

/-- The row of the INSERT. -/
def SaveCall.columns (c : SaveCall) : Option Columns := do
  let benzina ← c.snapshot.benzina.stored
  let gasolio ← c.snapshot.gasolio.stored
  return {
    referenceDate := c.snapshot.referenceDate
    fetchStartedAt := c.fetchStartedAt
    acquiredAt := c.acquiredAt
    benzina := benzina
    gasolio := gasolio }

/-- The WHERE of `ON CONFLICT (id) DO UPDATE`. -/
def replaces (excluded old : Columns) : Bool :=
  old.referenceDate < excluded.referenceDate ||
    (excluded.referenceDate = old.referenceDate && old.fetchStartedAt < excluded.fetchStartedAt)

def saveSnapshot (call : SaveCall) (register : Register) : Except Raised (Bool × Register) :=
  match call.columns with
  | none => .error .numericValueOutOfRange
  | some excluded =>
    if h : excluded.passes = true then
      match register with
      | none => .ok (true, some ⟨excluded, h⟩)
      | some old => if replaces excluded old.1 then .ok (true, some ⟨excluded, h⟩) else .ok (false, some old)
    else .error (.database .check)

/-! ### What the register is for -/

/-- What decides between two snapshots. -/
def SaveCall.stamp (c : SaveCall) : ℤ ×ₗ ℤ := toLex (c.snapshot.referenceDate, c.fetchStartedAt)

def Columns.stamp (c : Columns) : ℤ ×ₗ ℤ := toLex (c.referenceDate, c.fetchStartedAt)

def SaveCall.newer (a b : SaveCall) : Bool := b.stamp < a.stamp

/-- The snapshot kept of those saved. -/
def newest (calls : List SaveCall) : Option SaveCall := calls.foldl (Dict.keep SaveCall.newer) none

/-- Of some snapshots one is kept, and it has the greatest stamp. -/
theorem newest_cons (c : SaveCall) (l : List SaveCall) :
    ∃ m ∈ c :: l, newest (c :: l) = some m ∧ ∀ a ∈ c :: l, a.stamp ≤ m.stamp := by
  have hrank : ∀ a ∈ c :: l, ∀ b ∈ c :: l,
      a.newer b = decide (OrderDual.toDual a.stamp < OrderDual.toDual b.stamp) := by
    intro a _ b _
    simp [SaveCall.newer]
  obtain ⟨m, hm, hfold, hleast⟩ := Dict.foldl_keep_least (fun a : SaveCall => OrderDual.toDual a.stamp) hrank
  exact ⟨m, hm, hfold, fun a ha => OrderDual.toDual_le_toDual.mp (hleast a ha)⟩

theorem newest_greatest {calls : List SaveCall} {m : SaveCall} (h : newest calls = some m) :
    m ∈ calls ∧ ∀ c ∈ calls, c.stamp ≤ m.stamp := by
  cases calls with
  | nil => exact absurd h (by simp [newest])
  | cons c l =>
    obtain ⟨w, hw, hkept, hmax⟩ := newest_cons c l
    obtain rfl := Option.some.inj (hkept.symm.trans h)
    exact ⟨hw, hmax⟩

theorem newest_append (calls : List SaveCall) (c : SaveCall) :
    newest (calls ++ [c]) = Dict.keep SaveCall.newer (newest calls) c := by
  simp [newest]

/-! ### The register is the newest snapshot -/

theorem columns_stamp {c : SaveCall} {x : Columns} (h : c.columns = some x) : x.stamp = c.stamp := by
  obtain ⟨b, -, g, -, rfl⟩ : ∃ b, c.snapshot.benzina.stored = some b ∧ ∃ g, c.snapshot.gasolio.stored = some g ∧ _ := by
    simpa [SaveCall.columns, Option.bind_eq_some_iff] using h
  rfl

theorem replaces_iff {x y : Columns} : replaces x y = true ↔ y.stamp < x.stamp := by
  rw [replaces, Columns.stamp, Columns.stamp, Prod.Lex.toLex_lt_toLex]
  simp only [Bool.or_eq_true, Bool.and_eq_true, decide_eq_true_eq]
  rw [@eq_comm _ x.referenceDate y.referenceDate]

/-- A call that completes is accepted exactly if its stamp is greater than the
stored one, or there is none; then all columns are its own, and else nothing
changes. -/
theorem saveSnapshot_spec {call : SaveCall} {register register' : Register} {accepted : Bool}
    (h : saveSnapshot call register = .ok (accepted, register')) :
    (accepted = true ↔ ∀ old, register = some old → old.1.stamp < call.stamp) ∧
      if accepted then ∃ row, register' = some row ∧ call.columns = some row.1 else register' = register := by
  unfold saveSnapshot at h
  split at h
  · exact absurd h (by simp)
  · next x hx =>
    have hstamp := columns_stamp hx
    split_ifs at h with hp
    cases register with
    | none =>
      obtain ⟨rfl, rfl⟩ := Prod.mk.inj (Except.ok.inj h)
      exact ⟨by simp, _, rfl, hx⟩
    | some old =>
      by_cases hr : replaces x old.1 = true
      · simp only [hr, if_true] at h
        obtain ⟨rfl, rfl⟩ := Prod.mk.inj (Except.ok.inj h)
        rw [replaces_iff, hstamp] at hr
        exact ⟨by simp [hr], _, rfl, hx⟩
      · simp only [hr] at h
        obtain ⟨rfl, rfl⟩ := Prod.mk.inj (Except.ok.inj h)
        rw [replaces_iff, hstamp] at hr
        exact ⟨by simpa using hr, rfl⟩

/-- After a run from an empty table the register holds the columns of the
newest snapshot saved. -/
theorem register_newest {log : List (SaveCall × Bool)} {register : Register} (h : Run saveSnapshot none log register) :
    Option.Rel (fun row m => m.columns = some row.1) register (newest (log.map (·.1))) := by
  induction h with
  | start => exact .none
  | refused _ _ ih => exact ih
  | @done log x call accepted y _ hop ih =>
    obtain ⟨hacc, hy⟩ := saveSnapshot_spec hop
    rw [List.map_append, List.map_singleton, newest_append]
    generalize newest (log.map (·.1)) = n at ih
    cases ih with
    | none =>
      have htrue : accepted = true := hacc.mpr (by simp)
      rw [if_pos htrue] at hy
      obtain ⟨row, rfl, hrow⟩ := hy
      exact .some hrow
    | @some old m hm =>
      have hstamp : old.1.stamp = m.stamp := columns_stamp hm
      by_cases hlt : m.stamp < call.stamp
      · have htrue : accepted = true := hacc.mpr (by simp [hstamp, hlt])
        have hkeep : Dict.keep SaveCall.newer (some m) call = some call := by simp [Dict.keep, SaveCall.newer, hlt]
        rw [if_pos htrue] at hy
        obtain ⟨row, rfl, hrow⟩ := hy
        rw [hkeep]
        exact .some hrow
      · have hfalse : ¬ accepted = true := fun ha => hlt (hstamp ▸ hacc.mp ha old rfl)
        have hkeep : Dict.keep SaveCall.newer (some m) call = some m := by simp [Dict.keep, SaveCall.newer, hlt]
        rw [if_neg hfalse] at hy
        rw [hkeep, hy]
        exact .some hm

/-- **The register keeps the newest snapshot.** In any run of calls, in any
order and with any repetition, every state's row is the columns of one call
saved, whose pair (reference date, start of the fetch) is the greatest of
those saved; and a call is accepted exactly if its pair is greater than the
stored one or there is none. -/
theorem register_keeps_newest {log : List (SaveCall × Bool)} {register : Register}
    (h : Run saveSnapshot none log register) :
    (register = none ↔ log = []) ∧
    (∀ row, register = some row → ∃ c ∈ log.map (·.1), c.columns = some row.1 ∧ ∀ c' ∈ log.map (·.1), c'.stamp ≤ c.stamp) ∧
    ∀ call accepted register', saveSnapshot call register = .ok (accepted, register') →
      (accepted = true ↔ ∀ old, register = some old → old.1.stamp < call.stamp) := by
  have hrel := register_newest h
  refine ⟨?_, ?_, fun call accepted register' hop => (saveSnapshot_spec hop).1⟩
  · generalize hn : newest (log.map (·.1)) = n at hrel
    cases hrel with
    | none =>
      cases log with
      | nil => simp
      | cons e l =>
        obtain ⟨w, -, hkept, -⟩ := newest_cons e.1 (l.map (·.1))
        exact absurd (hn.symm.trans hkept) (by simp)
    | some hm =>
      have hne : log ≠ [] := by
        rintro rfl
        exact absurd hn (by simp [newest])
      simp [hne]
  · rintro row rfl
    generalize hn : newest (log.map (·.1)) = n at hrel
    cases hrel with
    | some hm =>
      obtain ⟨hmem, hmax⟩ := newest_greatest hn
      exact ⟨_, hmem, hm, hmax⟩

namespace Sample

def snapshot (referenceDate : ℤ) : Snapshot where
  referenceDate := referenceDate
  benzina := ⟨2154 / 1000, 2155 / 1000, -1 / 1000⟩
  gasolio := ⟨2338 / 1000, 2340 / 1000, -2 / 1000⟩

/-- Two fetches of one day that end in the wrong order, one of the day before, and a repetition. -/
def calls : List SaveCall :=
  [⟨snapshot 20720, 200, 210⟩, ⟨snapshot 20720, 100, 300⟩, ⟨snapshot 20719, 400, 410⟩, ⟨snapshot 20720, 200, 210⟩]

end Sample

theorem register_keeps_newest_sample :
    (execute saveSnapshot none Sample.calls).1.map (·.2) = [true, false, false, false] ∧
    ((execute saveSnapshot none Sample.calls).2 = none ↔ (execute saveSnapshot none Sample.calls).1 = []) :=
  ⟨by decide +kernel, (register_keeps_newest (run_execute saveSnapshot Sample.calls none)).1⟩

end Averages
end FuelNear

/-
# Saving an Apple transaction

`_save_apple_transaction`. A transaction already stored is merged into its
row, if the row is of the same owner, original transaction and token. A new
one is inserted, unless another owner has the same original transaction.

What a completed save does to the table is said once (`SaveCompleted`):
the row found is replaced by `mergeRow`, or `insertedRow` is added; every
other row stays.

Key definitions: `saveAppleTransaction`, `SaveCompleted`.
Key theorems: `save_ok`, `SaveCompleted.lookup_self`,
`SaveCompleted.lookup_of_ne`, `SaveCompleted.row`, `lookup_invariant`,
`rows_invariant`.
-/
import FuelNear.Accounts
import FuelNear.Apple.Merge
import FuelNear.Runs

namespace FuelNear
namespace Apple

open EconomicAdjustment

/-- `AppleTransactionSaveResult`. -/
structure AppleTransactionSaveResult where
  created : Bool
  changed : Bool
  row : AppleRow
  economicAdjustmentAccepted : Bool
  deriving DecidableEq

/-! ### The save -/

/-- `SELECT … WHERE transaction_id = …`. -/
def lookup (transactionId : String) (t : AppleTable) : Option AppleRow :=
  t.find? fun r => r.transactionId = transactionId

/-- A guest owner must exist and be unclaimed. -/
def ownerActive (a : Accounts) (n : NormalizedTransaction) : Bool :=
  n.guestId.all fun g => (a.guest? g).any fun i => i.claimedUserId.isNone

/-- The stored row is of another owner, another original transaction or
another app account token. -/
def identityDiffers (n : NormalizedTransaction) (r : AppleRow) : Bool :=
  r.userId ≠ n.userId || r.guestId ≠ n.guestId || r.originalTransactionId ≠ n.originalTransactionId ||
    (n.appAccountToken.isSome && r.appAccountToken.isSome && r.appAccountToken ≠ n.appAccountToken)

/-- The save of a transaction that is stored as `r`. -/
def saveExisting (n : NormalizedTransaction) (r : AppleRow) (t : AppleTable) :
    Except RepositoryError (AppleTransactionSaveResult × AppleTable) :=
  if identityDiffers n r then
    .error (.identityConflict "transaction_id is already associated with a different Apple subscription")
  else
    match reduceAppleEconomicAdjustment r.economicAdjustment r.economicNotificationSignedAt
        n.economicAdjustment n.economicNotificationSignedAt with
    | .error message => .error (.validation message)
    | .ok reduction =>
      let p := persist n reduction r
      .ok (⟨false, p.2, p.1, reduction.incomingAccepted⟩,
        t.update (fun x => x.id = r.id) (fun x => (persist n reduction x).1)
          fun x => by rw [persist_keys])

/-- Another owner has the original transaction. -/
def ownedByAnother (n : NormalizedTransaction) (t : AppleTable) : Bool :=
  (t.find? fun r => r.originalTransactionId = n.originalTransactionId ∧
    ¬ (r.userId = n.userId ∧ r.guestId = n.guestId)).isSome

/-- The INSERT, with the foreign key of the user and the unique indexes. -/
def insertRow (a : Accounts) (r : AppleRow) (t : AppleTable) : Except RepositoryError AppleTable :=
  if r.userId.all fun u => (a.user? u).isSome then
    match t.insert? r with
    | none => .error .uniqueViolation
    | some t' => .ok t'
  else .error .foreignKeyViolation

/-- The save of a transaction that is not stored. -/
def saveNew (a : Accounts) (n : NormalizedTransaction) (t : AppleTable) :
    Except RepositoryError (AppleTransactionSaveResult × AppleTable) :=
  match reduceAppleEconomicAdjustment none none n.economicAdjustment n.economicNotificationSignedAt with
  | .error message => .error (.validation message)
  | .ok reduction =>
    if ownedByAnother n t then
      .error (.originalTransactionOwnershipConflict
        "original_transaction_id is already associated with another user")
    else do
      let r := newRow (nextId t) n reduction
      let t' ← insertRow a r t
      return (⟨true, true, r, reduction.incomingAccepted⟩, t')

/-- `_save_apple_transaction` after the validation. -/
def saveNormalized (a : Accounts) (n : NormalizedTransaction) (t : AppleTable) :
    Except RepositoryError (AppleTransactionSaveResult × AppleTable) :=
  if ownerActive a n then
    match lookup n.transactionId t with
    | some r => saveExisting n r t
    | none => saveNew a n t
  else .error (.identityConflict "Guest Apple subscription ownership is no longer active")

/-- A call of the save: the accounts as it finds them, and the transaction. -/
abbrev SaveCall := Accounts × AppleTransaction

/-- `_save_apple_transaction`. -/
def saveAppleTransaction (call : SaveCall) (t : AppleTable) :
    Except RepositoryError (AppleTransactionSaveResult × AppleTable) := do
  let n ← validateAppleTransaction call.2
  saveNormalized call.1 n t

/-! ### What a completed save does -/

/-- A completed save of `n` on the table `t`, its answer and the table after. -/
inductive SaveCompleted (a : Accounts) (n : NormalizedTransaction) (t : AppleTable) :
    AppleTransactionSaveResult → AppleTable → Prop where
  | merged {r : AppleRow} (found : lookup n.transactionId t = some r) (same : identityDiffers n r = false) :
      SaveCompleted a n t
        ⟨false, (persist n (rowReduction n r) r).2, mergeRow n r, (rowReduction n r).incomingAccepted⟩
        (t.update (fun x => x.id = r.id) (fun x => (persist n (rowReduction n r) x).1)
          fun x => by rw [persist_keys])
  | inserted {t' : AppleTable} (new : lookup n.transactionId t = none) (alone : ownedByAnother n t = false)
      (inserts : t.insert? (insertedRow (nextId t) n) = some t') :
      SaveCompleted a n t
        ⟨true, true, insertedRow (nextId t) n, (n.reduction none none).incomingAccepted⟩ t'

theorem saveExisting_eq {n : NormalizedTransaction} {r : AppleRow} (t : AppleTable)
    (h : identityDiffers n r = false) : saveExisting n r t =
      .ok (⟨false, (persist n (rowReduction n r) r).2, mergeRow n r, (rowReduction n r).incomingAccepted⟩,
        t.update (fun x => x.id = r.id) (fun x => (persist n (rowReduction n r) x).1)
          fun x => by rw [persist_keys]) := by
  unfold saveExisting
  rw [h, reduce_normalized]
  rfl

theorem insertRow_ok {a : Accounts} {r : AppleRow} {t t' : AppleTable} (h : insertRow a r t = .ok t') :
    t.insert? r = some t' := by
  unfold insertRow at h
  split_ifs at h
  cases hins : t.insert? r with
  | none => rw [hins] at h; simp at h
  | some u =>
    rw [hins] at h
    rw [Except.ok.inj h]

/-- A save that completes is one of the two. -/
theorem saveCompleted_of_ok {a : Accounts} {n : NormalizedTransaction} {t t' : AppleTable}
    {out : AppleTransactionSaveResult} (h : saveNormalized a n t = .ok (out, t')) :
    ownerActive a n = true ∧ SaveCompleted a n t out t' := by
  unfold saveNormalized at h
  split_ifs at h with hact
  refine ⟨hact, ?_⟩
  cases hl : lookup n.transactionId t with
  | some r =>
    rw [hl] at h
    dsimp only at h
    cases hi : identityDiffers n r with
    | true => simp [saveExisting, hi] at h
    | false =>
      rw [saveExisting_eq t hi] at h
      obtain ⟨rfl, rfl⟩ := Prod.mk.inj (Except.ok.inj h)
      exact .merged hl hi
  | none =>
    rw [hl] at h
    dsimp only at h
    unfold saveNew at h
    rw [reduce_normalized] at h
    dsimp only at h
    split_ifs at h with ho
    obtain ⟨u, hins, h⟩ := bind_eq_ok.mp h
    obtain ⟨rfl, rfl⟩ := Prod.mk.inj (Except.ok.inj h)
    exact .inserted hl (by simpa using ho) (insertRow_ok hins)

theorem save_ok {c : SaveCall} {t t' : AppleTable} {out : AppleTransactionSaveResult}
    (h : saveAppleTransaction c t = .ok (out, t')) :
    ∃ n, validateAppleTransaction c.2 = .ok n ∧ ownerActive c.1 n = true ∧ SaveCompleted c.1 n t out t' := by
  obtain ⟨n, hn, h⟩ := bind_eq_ok.mp h
  exact ⟨n, hn, saveCompleted_of_ok h⟩

theorem mem_iff_lookup {t : AppleTable} {r : AppleRow} : r ∈ t ↔ lookup r.transactionId t = some r := by
  constructor
  · intro h
    exact Sql.Table.find?_of_mem (k := .inr r.transactionId)
      (fun x hx => by rw [of_decide_eq_true hx |>.symm]; simp [AppleRow.keys]) h (by simp)
  · exact Sql.Table.find?_mem

theorem transactionId_of_lookup {t : AppleTable} {x : String} {r : AppleRow} (h : lookup x t = some r) :
    r.transactionId = x := by
  simpa using Sql.Table.find?_prop h

theorem mem_of_lookup {t : AppleTable} {x : String} {r : AppleRow} (h : lookup x t = some r) : r ∈ t :=
  Sql.Table.find?_mem h

/-- The saved transaction is found with the row of the answer. -/
theorem SaveCompleted.lookup_self {a : Accounts} {n : NormalizedTransaction} {t t' : AppleTable}
    {out : AppleTransactionSaveResult} (h : SaveCompleted a n t out t') :
    lookup n.transactionId t' = some out.row := by
  cases h with
  | @merged r found same =>
    unfold lookup at found ⊢
    rw [Sql.Table.find?_update fun x => by rw [persist_transactionId], found]
    simp [mergeRow]
  | inserted new alone inserts =>
    unfold lookup at new ⊢
    rw [Sql.Table.find?_insert inserts new]
    simp [insertedRow, newRow]

/-- Every other transaction is found as before. -/
theorem SaveCompleted.lookup_of_ne {a : Accounts} {n : NormalizedTransaction} {t t' : AppleTable}
    {out : AppleTransactionSaveResult} (h : SaveCompleted a n t out t') {x : String} (hx : x ≠ n.transactionId) :
    lookup x t' = lookup x t := by
  cases h with
  | @merged r found same =>
    have hr := transactionId_of_lookup found
    unfold lookup
    rw [Sql.Table.find?_update fun y => by rw [persist_transactionId]]
    cases hl : t.find? fun y => y.transactionId = x with
    | none => rfl
    | some y =>
      have hy : y.transactionId = x := transactionId_of_lookup hl
      have hne : y.id ≠ r.id := fun he => hx (by
        rw [← hy, ← hr, Sql.Table.eq_of_key (mem_of_lookup hl) (mem_of_lookup found) (k := .inl y.id)
          (by simp [AppleRow.keys]) (by simp [AppleRow.keys, he])])
      simp [hne]
  | inserted new alone inserts =>
    unfold lookup
    cases hl : t.find? fun y => y.transactionId = x with
    | none =>
      rw [Sql.Table.find?_insert inserts hl]
      simp [insertedRow, newRow, Ne.symm hx]
    | some y => exact Sql.Table.find?_insert_of_some inserts hl

/-- The row of the answer: merged into the row found, or new. -/
theorem SaveCompleted.row {a : Accounts} {n : NormalizedTransaction} {t t' : AppleTable}
    {out : AppleTransactionSaveResult} (h : SaveCompleted a n t out t') :
    (∃ r, lookup n.transactionId t = some r ∧ identityDiffers n r = false ∧ out.row = mergeRow n r ∧
      out.economicAdjustmentAccepted = (rowReduction n r).incomingAccepted) ∨
    (∃ id, lookup n.transactionId t = none ∧ out.row = insertedRow id n ∧
      out.economicAdjustmentAccepted = (n.reduction none none).incomingAccepted) := by
  cases h with
  | merged found same => exact Or.inl ⟨_, found, same, rfl, rfl⟩
  | inserted new alone inserts => exact Or.inr ⟨_, new, rfl, rfl⟩

/-! ### Rows over a run -/

/-- The record that a call saves, if it is of the transaction `x`. -/
def recordOf (x : String) (c : SaveCall) : Option NormalizedTransaction :=
  match validateAppleTransaction c.2 with
  | .ok n => if n.transactionId = x then some n else none
  | .error _ => none

/-- The records of the transaction `x` among the completed saves, in the order
they were saved. -/
def records (x : String) (log : List (SaveCall × AppleTransactionSaveResult)) : List NormalizedTransaction :=
  (log.map (·.1)).filterMap (recordOf x)

theorem recordOf_eq_some {x : String} {c : SaveCall} {n : NormalizedTransaction} :
    recordOf x c = some n ↔ validateAppleTransaction c.2 = .ok n ∧ n.transactionId = x := by
  unfold recordOf
  cases validateAppleTransaction c.2 with
  | error e => simp
  | ok m =>
    by_cases hx : m.transactionId = x
    · simp only [hx, if_true, Option.some_inj, Except.ok.injEq]
      exact ⟨fun h => ⟨h, h ▸ hx⟩, And.left⟩
    · simp only [hx, if_false, Except.ok.injEq, reduceCtorEq, false_iff, not_and]
      rintro rfl
      exact hx

theorem mem_records {x : String} {log : List (SaveCall × AppleTransactionSaveResult)} {n : NormalizedTransaction} :
    n ∈ records x log ↔ ∃ e ∈ log, recordOf x e.1 = some n := by
  simp [records]

theorem records_append (x : String) (l m : List (SaveCall × AppleTransactionSaveResult)) :
    records x (l ++ m) = records x l ++ records x m := by
  simp [records]

section Rows

variable {s t : AppleTable} {log : List (SaveCall × AppleTransactionSaveResult)} {P : AppleRow → Prop}

/-- A completed save merges the record of `x` into its row, and leaves the row
to every other call. -/
theorem lookup_save {x : String} {c : SaveCall} {out : AppleTransactionSaveResult}
    (h : saveAppleTransaction c s = .ok (out, t)) {r : AppleRow} (hr : lookup x s = some r) :
    lookup x t = some ((recordOf x c).elim r fun n => mergeRow n r) := by
  obtain ⟨n, hn, -, hsave⟩ := save_ok h
  by_cases hx : n.transactionId = x
  · subst hx
    rw [recordOf_eq_some.mpr ⟨hn, rfl⟩, hsave.lookup_self]
    rcases hsave.row with ⟨r', hr', -, hrow, -⟩ | ⟨id, hnone, -⟩
    · rw [hr] at hr'
      rw [hrow, ← Option.some.inj hr']
      rfl
    · rw [hr] at hnone
      exact absurd hnone (by simp)
  · have hrec : recordOf x c = none := by
      unfold recordOf
      rw [hn]
      exact if_neg hx
    rw [hrec, hsave.lookup_of_ne (Ne.symm hx), hr]
    rfl

/-- A stored row stays stored, and keeps what the merges of its records keep. -/
theorem lookup_invariant {x : String} (h : Run saveAppleTransaction s log t)
    (hP : ∀ n ∈ records x log, ∀ r, P r → P (mergeRow n r))
    (hs : ∃ r, lookup x s = some r ∧ P r) : ∃ r, lookup x t = some r ∧ P r := by
  refine h.invariant_of_mem (P := fun u => ∃ r, lookup x u = some r ∧ P r) ?_ hs
  rintro c u out v hc ⟨r, hr, hPr⟩ hop
  refine ⟨_, lookup_save hop hr, ?_⟩
  cases hrec : recordOf x c with
  | none => exact hPr
  | some n => exact hP n (mem_records.mpr ⟨_, hc, hrec⟩) r hPr

/-- What every merge and every insertion gives, every row of the table has. -/
theorem rows_invariant (h : Run saveAppleTransaction s log t)
    (hP : ∀ e ∈ log, ∀ n, validateAppleTransaction e.1.2 = .ok n →
      (∀ r, P r → P (mergeRow n r)) ∧ ∀ id, P (insertedRow id n))
    (hs : ∀ r ∈ s, P r) : ∀ r ∈ t, P r := by
  refine h.invariant_of_mem (P := fun u => ∀ r ∈ u, P r) ?_ hs
  intro c u out v hc hu hop r hr
  obtain ⟨n, hn, -, hsave⟩ := save_ok hop
  rw [mem_iff_lookup] at hr
  by_cases hx : r.transactionId = n.transactionId
  · rw [hx, hsave.lookup_self] at hr
    rw [← Option.some.inj hr]
    rcases hsave.row with ⟨r', hr', -, hrow, -⟩ | ⟨id, -, hrow, -⟩ <;> rw [hrow]
    · exact (hP _ hc n hn).1 r' (hu r' (mem_of_lookup hr'))
    · exact (hP _ hc n hn).2 id
  · rw [hsave.lookup_of_ne hx] at hr
    exact hu r (mem_of_lookup hr)

end Rows

/-! ### A purchase to run the model on -/

/-- One user, no guest. -/
def sampleAccounts : Accounts := ⟨⟨[⟨1, 0⟩], by decide⟩, .empty⟩

/-- A purchase of the user 1, as the client sends it at the instant 0. -/
def samplePurchase : AppleTransaction where
  userId := some 1
  productId := "MB.FuelNear.plus.monthly"
  transactionId := "t"
  originalTransactionId := "t"
  purchaseDate := 0
  environment := "Production"
  expiresDate := some 100
  ownershipType := some "PURCHASED"
  transactionReason := some "PURCHASE"
  signedDate := some 0
  priceMilliunits := some 4990
  currency := some "EUR"
  economicTransactionSignedAt := some 0

/-- The client restores the purchase. -/
def sampleRestore (d : ℤ) (revocationDate : Option ℤ) : AppleTransaction :=
  { samplePurchase with signedDate := some d, revocationDate }

/-- An economic notification about the purchase. -/
def sampleNotification (adjustment : String) (d : ℤ) (revocationDate : Option ℤ) : AppleTransaction :=
  { samplePurchase with
    signedDate := some d
    revocationDate
    economicAdjustment := some adjustment
    economicNotificationSignedAt := some d }

/-- The user 1 saves some transactions, one after the other. -/
def sampleSaves (t : AppleTable) (l : List AppleTransaction) :
    List (SaveCall × AppleTransactionSaveResult) × AppleTable :=
  execute saveAppleTransaction t (l.map fun a => (sampleAccounts, a))

/-- The table with the purchase. -/
def sampleTable : AppleTable := (sampleSaves .empty [samplePurchase]).2

theorem sampleTable_row : ∃ r, lookup "t" sampleTable = some r ∧ r.economicAdjustment = none ∧
    r.economicNotificationSignedAt = none ∧ r.revocationDate = none ∧ r.signedDate = some 0 := by
  have h : (lookup "t" sampleTable).map (fun r => (r.economicAdjustment, r.economicNotificationSignedAt,
      r.revocationDate, r.signedDate)) = some (none, none, none, some 0) := by decide +kernel
  obtain ⟨r, hr, hcols⟩ := Option.map_eq_some_iff.mp h
  simp only [Prod.mk.injEq] at hcols
  exact ⟨r, hr, hcols⟩

theorem run_sampleSaves (t : AppleTable) (l : List AppleTransaction) :
    Run saveAppleTransaction t (sampleSaves t l).1 (sampleSaves t l).2 :=
  run_execute _ _ _

end Apple
end FuelNear

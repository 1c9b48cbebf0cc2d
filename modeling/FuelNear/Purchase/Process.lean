/-
# Purchases and claims, from the request to the answer

`process_apple_transaction` and `claim_guest_subscription` as a whole: the save
or the transfer of the rows, the creator ledger, and the entitlement, all in
one transaction. What a completed call did to each table is said once
(`Processed`, `Claimed`); the ledgers and the entitlement are compared with
that alone.

The answers list, beside what the caller gets, what the creator ledger
answered on the way.

Key definitions: `Db`, `getGuestSubscriptionStatus`, `reconcileAppleEntitlement`,
`processAppleTransaction`, `claimGuestSubscription`.
Key theorems: `entitlement_ok`, `processed_of_ok`, `claimed_of_ok`, `handle_records`, `run_records`.
-/
import FuelNear.Creator.Milestone
import FuelNear.Ownership.Store
import FuelNear.Plus.Snapshot

namespace FuelNear
namespace Purchase

open Sql Apple Text Creator Plus Ownership

/-! ### The database and the errors -/

/-- The tables that a purchase or a claim reads or writes. -/
structure Db extends PlusDb where
  sessions : Table GuestSession GuestSession.keys
  ledger : Ledger

/-- The tables that decide ownership. -/
def Db.store (db : Db) : Store := ⟨db.accounts, db.sessions, db.apple⟩

/-- The errors of `reconcile_apple_entitlement`, with their texts. -/
inductive EntitlementError where
  | valueError (message : String)
  | userNotFound (message : String)
  | missingExpiration (message : String)
  | reconcile (error : ReconcileError)
  deriving DecidableEq

inductive PurchaseError where
  | repository (error : RepositoryError)
  | conversion (error : ConversionError)
  | entitlement (error : EntitlementError)
  | claim (error : ClaimError)
  deriving DecidableEq

/-- A call within the transaction: its error ends the transaction. -/
def within {ε α : Type*} (f : ε → PurchaseError) : Except ε α → Except PurchaseError α
  | .ok x => .ok x
  | .error e => .error (f e)

theorem within_ok {ε α : Type*} {f : ε → PurchaseError} {x : Except ε α} {y : α} :
    within f x = .ok y ↔ x = .ok y := by
  cases x <;> simp [within]

/-! ### The status of a guest -/

/-- `status` of `GuestSubscriptionStatus`. -/
inductive GuestStatus where
  | absent
  | revoked
  | expired
  | active
  deriving DecidableEq

/-- `GuestSubscriptionStatus`. -/
structure GuestSubscriptionStatus where
  isPlus : Bool
  productId : Option String
  expiresAt : Option ℤ
  status : GuestStatus
  deriving DecidableEq

/-- The first key of the ORDER BY, three-valued: the comparison of a grace
period that is NULL is NULL, and so is the key if nothing else decides it. -/
def activeKey (reference : ℤ) (r : AppleRow) : Option Bool :=
  if r.revocationDate.isSome then some false
  else
    match r.expiresDate with
    | none => some true
    | some e => if e > reference then some true else r.gracePeriodExpiresDate.map fun g => decide (g > reference)

/-- `… DESC` of a boolean: NULL comes first, then true, then false. -/
def boolDesc : Option Bool → ℕ
  | none => 2
  | some true => 1
  | some false => 0

/-- The row that decides the status of a guest. -/
def latestGuestRow (t : AppleTable) (guestId reference : ℤ) : Option AppleRow :=
  top (fun r => toLex (boolDesc (activeKey reference r), toLex (r.expiresDate.isNone, toLex (expirationKey r,
    toLex (r.purchaseDate, r.id))))) (t.rows.filter fun r => r.guestId = some guestId)

/-- `get_guest_subscription_status`, of a guest id that is positive. -/
def getGuestSubscriptionStatus (guestId reference : ℤ) (t : AppleTable) : GuestSubscriptionStatus :=
  match latestGuestRow t guestId reference with
  | none => ⟨false, none, none, .absent⟩
  | some latest =>
    let expiry := effectiveSubscriptionExpiration latest
    let status : GuestStatus :=
      if latest.revocationDate.isSome then .revoked
      else if expiry.any (· ≤ reference) then .expired
      else .active
    ⟨status = .active, some latest.productId, expiry, status⟩

/-! ### The entitlement of a user -/

/-- `AppleEntitlementReconciliationResult`. -/
structure AppleEntitlementReconciliationResult where
  isPlus : Bool
  expiresAt : Option ℤ
  appleActive : Bool
  changed : Bool
  deriving DecidableEq

/-- `effective_apple_subscription`: the active row with its effective expiry. -/
def effectiveAppleSubscription (t : AppleTable) (userId reference : ℤ) : Except EntitlementError (Option AppleRow) :=
  match getActiveSubscriptionForUser t userId reference with
  | none => .ok none
  | some r =>
    match effectiveSubscriptionExpiration r with
    | none => .error (.missingExpiration
        "An active Apple subscription requires expires_date for entitlement reconciliation")
    | some e => .ok (some { r with expiresDate := some e })

def liftReconcile {α : Type*} : Except ReconcileError α → Except EntitlementError α
  | .ok x => .ok x
  | .error e => .error (.reconcile e)

theorem liftReconcile_ok {α : Type*} {x : Except ReconcileError α} {y : α} : liftReconcile x = .ok y ↔ x = .ok y := by
  cases x <;> simp [liftReconcile]

/-- `reconcile_apple_entitlement`. -/
def reconcileAppleEntitlement (userId reference : ℤ) (db : PlusDb) :
    Except EntitlementError (AppleEntitlementReconciliationResult × PlusDb) :=
  if userId ≤ 0 then .error (.valueError "user_id must be a positive integer")
  else if (db.accounts.user? userId).isNone then .error (.userNotFound "User not found")
  else do
    let subscription ← effectiveAppleSubscription db.apple userId reference
    let (components, db') ← liftReconcile (reconcileUserPlusEntitlement userId reference subscription true db)
    return (⟨components.isPlus, components.expiresAt, components.appleActive, components.changed⟩, db')

/-- A completed reconciliation: it stored what the active row comes to. -/
structure Entitled (userId reference : ℤ) (db : PlusDb) (out : AppleEntitlementReconciliationResult)
    (db' : PlusDb) : Prop where
  answer : ∃ subscription components, effectiveAppleSubscription db.apple userId reference = .ok subscription ∧
    Reconciled userId (Plus.entitlement db userId reference subscription) db components db' ∧
    out = ⟨components.isPlus, components.expiresAt, components.appleActive, components.changed⟩
  accounts : db'.accounts = db.accounts
  apple : db'.apple = db.apple
  rewards : db'.rewards = db.rewards

theorem entitlement_ok {userId reference : ℤ} {db db' : PlusDb} {out : AppleEntitlementReconciliationResult}
    (h : reconcileAppleEntitlement userId reference db = .ok (out, db')) : Entitled userId reference db out db' := by
  unfold reconcileAppleEntitlement at h
  split_ifs at h
  obtain ⟨subscription, hsub, h⟩ := bind_eq_ok.mp h
  obtain ⟨⟨components, db₁⟩, hrec, h⟩ := bind_eq_ok.mp h
  obtain ⟨rfl, rfl⟩ := Prod.mk.inj (Except.ok.inj h)
  have hreconciled := reconcile_ok (liftReconcile_ok.mp hrec)
  exact ⟨⟨subscription, components, hsub, hreconciled, rfl⟩, hreconciled.accounts, hreconciled.apple,
    hreconciled.rewards⟩

/-! ### Processing a transaction -/

/-- A call of `process_apple_transaction`, and the time of its reconciliation. -/
structure ProcessCall where
  transaction : AppleTransaction
  notificationType : Option String
  reference : ℤ
  deriving DecidableEq

/-- `ApplePurchaseProcessingResult`. -/
structure ApplePurchaseProcessingResult where
  created : Bool
  transactionId : String
  originalTransactionId : String
  isPlus : Bool
  expiresAt : Option ℤ
  changed : Bool
  deriving DecidableEq

/-- The answer, and what the creator ledger answered. -/
structure ProcessAnswer where
  result : ApplePurchaseProcessingResult
  conversions : List CreatorAppleConversionResult
  deriving DecidableEq

/-- `_ECONOMIC_NOTIFICATION_TYPES`. -/
def economicNotificationTypes : List String := ["REFUND", "REVOKE", "REFUND_REVERSED"]

/-- `normalized_notification_type in _ECONOMIC_NOTIFICATION_TYPES`. -/
def isEconomicNotification (notificationType : Option String) : Bool :=
  notificationType.any fun x => upper (strip x) ∈ economicNotificationTypes

/-- `should_record_creator`. -/
def shouldRecordCreator (notificationType : Option String) (saved : AppleTransactionSaveResult) : Bool :=
  !(isEconomicNotification notificationType && !saved.economicAdjustmentAccepted)

def ProcessError.toPurchaseError : ProcessError → PurchaseError
  | .userNotFound message => .entitlement (.userNotFound message)
  | .repository e => .repository e

/-- The creator ledger after the save of a transaction of a user. -/
def recordSaved (userId : ℤ) (notificationType : Option String) (saved : AppleTransactionSaveResult)
    (apple : AppleTable) (s : Ledger) : Except ConversionError (List CreatorAppleConversionResult × Ledger) :=
  if shouldRecordCreator notificationType saved then do
    let (result, s') ← recordCreatorAppleConversion (conversionOf userId saved.row) apple s
    return (result.toList, s')
  else .ok ([], s)

/-- `process_apple_transaction`. -/
def processAppleTransaction (c : ProcessCall) (db : Db) : Except PurchaseError (ProcessAnswer × Db) := do
  let n ← within .repository (validateAppleTransaction c.transaction)
  let (saved, store) ← within ProcessError.toPurchaseError (processTransaction n db.store)
  match n.owner with
  | .user userId => do
    let (conversions, ledger) ← within .conversion
      (recordSaved userId c.notificationType saved store.apple db.ledger)
    let (entitlement, plus) ← within .entitlement
      (reconcileAppleEntitlement userId c.reference { db.toPlusDb with apple := store.apple })
    return (
      { result :=
          { created := saved.created
            transactionId := saved.row.transactionId
            originalTransactionId := saved.row.originalTransactionId
            isPlus := entitlement.isPlus
            expiresAt := entitlement.expiresAt
            changed := entitlement.changed }
        conversions },
      { plus with sessions := db.sessions, ledger })
  | .guest guestId =>
    let status := getGuestSubscriptionStatus guestId c.reference store.apple
    return (
      { result :=
          { created := saved.created
            transactionId := saved.row.transactionId
            originalTransactionId := saved.row.originalTransactionId
            isPlus := status.isPlus
            expiresAt := status.expiresAt
            changed := saved.changed }
        conversions := [] },
      { db with apple := store.apple })

/-! ### Claiming -/

/-- A call of `claim_guest_subscription`, and the time of its reconciliation. -/
structure Claim extends ClaimCall where
  reference : ℤ

/-- `GuestClaimResult`, and what the creator ledger answered. -/
structure ClaimAnswer where
  result : GuestClaimResult
  isPlus : Bool
  expiresAt : Option ℤ
  changed : Bool
  conversions : List CreatorAppleConversionResult
  deriving DecidableEq

/-- `ORDER BY original_transaction_id, purchase_date, id`. -/
def chainOrder (r q : AppleRow) : Prop :=
  r.originalTransactionId < q.originalTransactionId ∨ (r.originalTransactionId = q.originalTransactionId ∧
    (r.purchaseDate < q.purchaseDate ∨ (r.purchaseDate = q.purchaseDate ∧ r.id ≤ q.id)))

instance : DecidableRel chainOrder := fun _ _ => inferInstanceAs (Decidable (_ ∨ _))

/-- `guest_transactions`. -/
def guestTransactions (t : AppleTable) (guestId : ℤ) : List AppleRow :=
  (t.rows.filter fun r => r.guestId = some guestId).insertionSort chainOrder

/-- The loop over the transferred transactions. -/
def recordRows (userId : ℤ) (apple : AppleTable) :
    List AppleRow → Ledger → Except ConversionError (List CreatorAppleConversionResult × Ledger)
  | [], s => .ok ([], s)
  | r :: rows, s => do
    let (result, s') ← recordCreatorAppleConversion (conversionOf userId r) apple s
    let (results, s'') ← recordRows userId apple rows s'
    return (result.toList ++ results, s'')

/-- `claim_guest_subscription`. -/
def claimGuestSubscription (c : Claim) (db : Db) : Except PurchaseError (ClaimAnswer × Db) := do
  let (result, store) ← within .claim (Ownership.claimGuestSubscription c.toClaimCall db.store)
  let rows := if result.claimed then guestTransactions db.apple result.guestId else []
  let (conversions, ledger) ← within .conversion (recordRows c.userId store.apple rows db.ledger)
  let (entitlement, plus) ← within .entitlement (reconcileAppleEntitlement c.userId c.reference
    { db.toPlusDb with accounts := store.accounts, apple := store.apple })
  return (
    { result
      isPlus := entitlement.isPlus
      expiresAt := entitlement.expiresAt
      changed := entitlement.changed
      conversions },
    { plus with sessions := store.sessions, ledger })

/-! ### What the calls do to each table -/

/-- A completed call of `process_apple_transaction`. -/
structure Processed (c : ProcessCall) (n : NormalizedTransaction) (saved : AppleTransactionSaveResult) (db : Db)
    (out : ProcessAnswer) (db' : Db) : Prop where
  validated : validateAppleTransaction c.transaction = .ok n
  save : SaveCompleted db.accounts n db.apple saved db'.apple
  accounts : db'.accounts = db.accounts
  rewards : db'.rewards = db.rewards
  sessions : db'.sessions = db.sessions
  ofGuest : n.userId = none → db'.ledger = db.ledger ∧ out.conversions = []
  ofUser : ∀ userId, n.owner = .user userId →
    recordSaved userId c.notificationType saved db'.apple db.ledger = .ok (out.conversions, db'.ledger)

theorem processTransaction_ok {n : NormalizedTransaction} {s s' : Store} {saved : AppleTransactionSaveResult}
    (h : processTransaction n s = .ok (saved, s')) :
    SaveCompleted s.accounts n s.apple saved s'.apple ∧ s' = { s with apple := s'.apple } := by
  unfold processTransaction at h
  split_ifs at h
  split at h
  · next out apple hsave =>
    obtain ⟨rfl, rfl⟩ := Prod.mk.inj (Except.ok.inj h)
    exact ⟨(saveCompleted_of_ok hsave).2, rfl⟩
  · exact absurd h (by simp)

theorem processed_of_ok {c : ProcessCall} {db db' : Db} {out : ProcessAnswer}
    (h : processAppleTransaction c db = .ok (out, db')) : ∃ n saved, Processed c n saved db out db' := by
  unfold processAppleTransaction at h
  obtain ⟨n, hn, h⟩ := bind_eq_ok.mp h
  obtain ⟨⟨saved, store⟩, hsave, h⟩ := bind_eq_ok.mp h
  obtain ⟨hcompleted, hstore⟩ := processTransaction_ok (within_ok.mp hsave)
  refine ⟨n, saved, ?_⟩
  cases howner : n.owner with
  | user userId =>
    rw [howner] at h
    obtain ⟨⟨conversions, ledger⟩, hrecord, h⟩ := bind_eq_ok.mp h
    obtain ⟨⟨entitlement, plus⟩, hreconcile, h⟩ := bind_eq_ok.mp h
    obtain ⟨rfl, rfl⟩ := Prod.mk.inj (Except.ok.inj h)
    have hentitled := entitlement_ok (within_ok.mp hreconcile)
    refine ⟨within_ok.mp hn, ?_, hentitled.accounts, hentitled.rewards, rfl, ?_, ?_⟩
    · show SaveCompleted db.accounts n db.apple saved plus.apple
      rw [hentitled.apple]
      exact hcompleted
    · intro hguest
      rw [NormalizedTransaction.userId, howner] at hguest
      exact absurd hguest (by simp [AppleSubscriptionOwner.userId])
    · intro u hu
      obtain rfl : userId = u := by
        rw [howner] at hu
        exact AppleSubscriptionOwner.user.inj hu
      show recordSaved userId c.notificationType saved plus.apple db.ledger = .ok (conversions, ledger)
      rw [hentitled.apple]
      exact within_ok.mp hrecord
  | guest guestId =>
    rw [howner] at h
    obtain ⟨rfl, rfl⟩ := Prod.mk.inj (Except.ok.inj h)
    refine ⟨within_ok.mp hn, hcompleted, rfl, rfl, rfl, fun _ => ⟨rfl, rfl⟩, fun u hu => ?_⟩
    rw [howner] at hu
    exact absurd hu (by simp)

/-- A completed call of `claim_guest_subscription`. -/
structure Claimed (c : Claim) (store : Store) (db : Db) (out : ClaimAnswer) (db' : Db) : Prop where
  claim : Ownership.claimGuestSubscription c.toClaimCall db.store = .ok (out.result, store)
  record : recordRows c.userId store.apple
    (if out.result.claimed then guestTransactions db.apple out.result.guestId else []) db.ledger =
      .ok (out.conversions, db'.ledger)
  accounts : db'.accounts = store.accounts
  apple : db'.apple = store.apple
  sessions : db'.sessions = store.sessions
  rewards : db'.rewards = db.rewards
  entitled : ∃ entitlement, Entitled c.userId c.reference
      { db.toPlusDb with accounts := store.accounts, apple := store.apple } entitlement db'.toPlusDb ∧
    out.isPlus = entitlement.isPlus ∧ out.expiresAt = entitlement.expiresAt

theorem claimed_of_ok {c : Claim} {db db' : Db} {out : ClaimAnswer}
    (h : claimGuestSubscription c db = .ok (out, db')) : ∃ store, Claimed c store db out db' := by
  unfold claimGuestSubscription at h
  obtain ⟨⟨result, store⟩, hclaim, h⟩ := bind_eq_ok.mp h
  obtain ⟨⟨conversions, ledger⟩, hrecord, h⟩ := bind_eq_ok.mp h
  obtain ⟨⟨entitlement, plus⟩, hreconcile, h⟩ := bind_eq_ok.mp h
  obtain ⟨rfl, rfl⟩ := Prod.mk.inj (Except.ok.inj h)
  have hentitled := entitlement_ok (within_ok.mp hreconcile)
  exact ⟨store, within_ok.mp hclaim, within_ok.mp hrecord, hentitled.accounts, hentitled.apple, rfl,
    hentitled.rewards, entitlement, hentitled, rfl, rfl⟩

/-! ### Both calls -/

inductive Call where
  | process (c : ProcessCall)
  | claim (c : Claim)

/-- The answer of either call. -/
inductive Answer where
  | processed (out : ProcessAnswer)
  | claimed (out : ClaimAnswer)

def Answer.conversions : Answer → List CreatorAppleConversionResult
  | .processed out => out.conversions
  | .claimed out => out.conversions

def handle : Call → Db → Except PurchaseError (Answer × Db)
  | .process c, db => do
    let (out, db') ← processAppleTransaction c db
    return (.processed out, db')
  | .claim c, db => do
    let (out, db') ← claimGuestSubscription c db
    return (.claimed out, db')

/-- A completed `.process` request is a completed transaction. -/
theorem handle_process {c : ProcessCall} {db db' : Db} {out : Answer} (h : handle (.process c) db = .ok (out, db')) :
    ∃ x, processAppleTransaction c db = .ok (x, db') ∧ out = .processed x := by
  obtain ⟨⟨x, db₁⟩, hop, h⟩ := bind_eq_ok.mp h
  obtain ⟨rfl, rfl⟩ := Prod.mk.inj (Except.ok.inj h)
  exact ⟨x, hop, rfl⟩

/-- A completed `.claim` request is a completed claim. -/
theorem handle_claim {c : Claim} {db db' : Db} {out : Answer} (h : handle (.claim c) db = .ok (out, db')) :
    ∃ x, claimGuestSubscription c db = .ok (x, db') ∧ out = .claimed x := by
  obtain ⟨⟨x, db₁⟩, hop, h⟩ := bind_eq_ok.mp h
  obtain ⟨rfl, rfl⟩ := Prod.mk.inj (Except.ok.inj h)
  exact ⟨x, hop, rfl⟩

/-! ### The creator ledger of a run

What a request does to the creator ledger is a run of recorded conversions. -/

theorem recordSaved_records {userId : ℤ} {notificationType : Option String} {saved : AppleTransactionSaveResult}
    {apple : AppleTable} {s s' : Ledger} {l : List CreatorAppleConversionResult}
    (h : recordSaved userId notificationType saved apple s = .ok (l, s')) :
    ∃ log, Run recordCall s log s' ∧ conversionsOf log = l := by
  unfold recordSaved at h
  split_ifs at h
  · obtain ⟨⟨out, s₁⟩, hrecord, h⟩ := bind_eq_ok.mp h
    obtain ⟨rfl, rfl⟩ := Prod.mk.inj (Except.ok.inj h)
    have hcall : recordCall (conversionOf userId saved.row, apple) s = .ok (out, s₁) := hrecord
    exact ⟨_, Run.single hcall, by simp [conversionsOf]⟩
  · obtain ⟨rfl, rfl⟩ := Prod.mk.inj (Except.ok.inj h)
    exact ⟨[], Run.start, rfl⟩

theorem recordRows_records {userId : ℤ} {apple : AppleTable} : ∀ {rows : List AppleRow} {s s' : Ledger}
    {l : List CreatorAppleConversionResult}, recordRows userId apple rows s = .ok (l, s') →
    ∃ log, Run recordCall s log s' ∧ conversionsOf log = l
  | [], s, s', l, h => by
    obtain ⟨rfl, rfl⟩ := Prod.mk.inj (Except.ok.inj h)
    exact ⟨[], Run.start, rfl⟩
  | r :: rows, s, s', l, h => by
    rw [recordRows] at h
    obtain ⟨⟨out, s₁⟩, hrecord, h⟩ := bind_eq_ok.mp h
    obtain ⟨⟨rest, s₂⟩, hrows, h⟩ := bind_eq_ok.mp h
    obtain ⟨rfl, rfl⟩ := Prod.mk.inj (Except.ok.inj h)
    obtain ⟨log, hrun, hlog⟩ := recordRows_records hrows
    have hcall : recordCall (conversionOf userId r, apple) s = .ok (out, s₁) := hrecord
    refine ⟨_, (Run.single hcall).trans hrun, ?_⟩
    rw [conversionsOf_append, hlog]
    simp [conversionsOf]

theorem Processed.records {c : ProcessCall} {n : NormalizedTransaction} {saved : AppleTransactionSaveResult}
    {db db' : Db} {out : ProcessAnswer} (h : Processed c n saved db out db') :
    ∃ log, Run recordCall db.ledger log db'.ledger ∧ conversionsOf log = out.conversions := by
  cases howner : n.owner with
  | user userId => exact recordSaved_records (h.ofUser userId howner)
  | guest guestId =>
    obtain ⟨hledger, hnone⟩ := h.ofGuest (by rw [NormalizedTransaction.userId, howner]; rfl)
    rw [hledger, hnone]
    exact ⟨[], Run.start, rfl⟩

/-- The conversions of a completed call. -/
theorem handle_records {c : Call} {db db' : Db} {out : Answer} (h : handle c db = .ok (out, db')) :
    ∃ log, Run recordCall db.ledger log db'.ledger ∧ conversionsOf log = out.conversions := by
  cases c with
  | process c =>
    obtain ⟨x, hop, rfl⟩ := handle_process h
    obtain ⟨n, saved, hprocessed⟩ := processed_of_ok hop
    exact hprocessed.records
  | claim c =>
    obtain ⟨x, hop, rfl⟩ := handle_claim h
    obtain ⟨store, hclaimed⟩ := claimed_of_ok hop
    exact recordRows_records hclaimed.record

/-- A log of requests with their answers. -/
abbrev CallLog := List (Call × Answer)

/-- What the creator ledger answered over a run. -/
def recorded (log : CallLog) : List CreatorAppleConversionResult := log.flatMap (·.2.conversions)

theorem recorded_append (l m : CallLog) : recorded (l ++ m) = recorded l ++ recorded m := by
  simp [recorded]

/-- The conversions of a run of requests. -/
theorem run_records {db db' : Db} {log : CallLog} (h : Run handle db log db') :
    ∃ l, Run recordCall db.ledger l db'.ledger ∧ conversionsOf l = recorded log := by
  induction h with
  | start => exact ⟨[], Run.start, rfl⟩
  | @done log x c out y _ hop ih =>
    obtain ⟨l, hrun, hl⟩ := ih
    obtain ⟨m, hrun', hm⟩ := handle_records hop
    refine ⟨l ++ m, hrun.trans hrun', ?_⟩
    rw [conversionsOf_append, hl, hm, recorded_append]
    simp [recorded]
  | refused _ _ ih => exact ih

/-! ### The row of a call and its event -/

section Row

variable {c : ProcessCall} {n : NormalizedTransaction} {saved : AppleTransactionSaveResult} {db db' : Db}
  {out : ProcessAnswer}

/-- Validation strips the two ids. -/
theorem stripped_ids {x : AppleTransaction} (h : validateAppleTransaction x = .ok n) :
    strip n.transactionId = n.transactionId ∧ strip n.originalTransactionId = n.originalTransactionId :=
  ⟨normalizeRequiredText_strip (validated_of_ok h).transactionId,
    normalizeRequiredText_strip (validated_of_ok h).originalTransactionId⟩

theorem saved_transactionId {a : Accounts} {t t' : AppleTable} (h : SaveCompleted a n t saved t') :
    saved.row.transactionId = n.transactionId :=
  transactionId_of_lookup h.lookup_self

/-- The call reaches the creator ledger, or leaves it. -/
theorem recordSaved_cases {v : ℤ} {notificationType : Option String} {apple : AppleTable} {s s' : Ledger}
    {l : List CreatorAppleConversionResult} (h : recordSaved v notificationType saved apple s = .ok (l, s')) :
    (shouldRecordCreator notificationType saved = true ∧ ∃ o, Recorded (conversionOf v saved.row) apple s o s') ∨
      (shouldRecordCreator notificationType saved = false ∧ s' = s) := by
  unfold recordSaved at h
  split_ifs at h with hshould
  · obtain ⟨⟨o, s₁⟩, hrecord, h⟩ := bind_eq_ok.mp h
    obtain ⟨-, rfl⟩ := Prod.mk.inj (Except.ok.inj h)
    exact Or.inl ⟨hshould, o, recorded_of_ok hrecord⟩
  · obtain ⟨-, rfl⟩ := Prod.mk.inj (Except.ok.inj h)
    exact Or.inr ⟨by simpa using hshould, rfl⟩

/-- A call writes the event of its own transaction only. -/
theorem Processed.event_of_ne (h : Processed c n saved db out db') {key : String} (hkey : key ≠ n.transactionId) :
    eventByKey db'.ledger.events .apple key = eventByKey db.ledger.events .apple key := by
  cases howner : n.owner with
  | guest guestId => rw [(h.ofGuest (by rw [NormalizedTransaction.userId, howner]; rfl)).1]
  | user v =>
    rcases recordSaved_cases (h.ofUser v howner) with ⟨-, o, hrecorded⟩ | ⟨-, hsame⟩
    · apply hrecorded.event_of_ne
      show key ≠ strip saved.row.transactionId
      rwa [saved_transactionId h.save, (stripped_ids h.validated).1]
    · rw [hsame]

/-- The attribution of a user stays, whatever is processed. -/
theorem Processed.attribution (h : Processed c n saved db out db') {userId : ℤ} {a : CreatorAttribution}
    (ha : activeAttribution db.ledger.attributions userId = some a) :
    ∃ b, activeAttribution db'.ledger.attributions userId = some b ∧ SameAttribution a b := by
  obtain ⟨l, hrun, -⟩ := h.records
  obtain ⟨b, hb, hsame, -⟩ := paid_run hrun ha
  exact ⟨b, hb, hsame⟩

end Row

/-! ### A user to run the model on -/

/-- The attribution of the user 1, from the instant 0 on. -/
def sampleAttribution : CreatorAttribution :=
  ⟨1, 1, some 1, "FUEL", .emailRegistration, 0, none, none, .active, false⟩

/-- One user, with an attribution and nothing bought. -/
def attributedDb : Db where
  accounts := sampleAccounts
  apple := .empty
  rewards := .empty
  subscriptions := .empty
  sessions := .empty
  ledger := ⟨⟨[sampleAttribution], by decide⟩, .empty⟩

/-- The user 1 reports a transaction. -/
def sampleRequest (a : AppleTransaction) : ProcessCall := ⟨a, none, 10⟩

/-- A notification about the purchase of the user 1. -/
def sampleEconomic (notificationType adjustment : String) (d : ℤ) (revocationDate : Option ℤ) : ProcessCall :=
  ⟨sampleNotification adjustment d revocationDate, some notificationType, 10⟩

end Purchase
end FuelNear

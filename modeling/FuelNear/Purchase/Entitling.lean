/-
# No active row of a user lacks its expiry

The save and the transfer of a guest's rows accept a transaction without
`expires_date`. A user never keeps one that is not revoked: before it commits,
a transaction that writes rows of a user reconciles the entitlement of that
user, which fails on such a row, and the transaction with it.

Requests run statement by statement here, as in Ownership/Deletion, with the
creation and the use of guest sessions and the deletion of accounts among
them. `reconcile_apple_entitlement` is one statement more: it reads what is
committed, under what its own transaction has written. What it has read stays
true until the commit, because only the worker that holds the row of the user
writes rows of the user (`guarded_stable`). Failures, here and in the creator
ledger, are workers that leave.

Key definitions: `Request`, `entitlementProtocol`, `Guarded`.
Key theorems: `guarded_of_reconcile`, `dated_commit`, `guarded_stable`,
`handle_reaches`, `apple_component_agrees`.
-/
import FuelNear.Apple.Dated
import FuelNear.Ownership.Deletion
import FuelNear.Purchase.Claiming

namespace FuelNear
namespace Purchase

open Sql Apple Plus Ownership Locking

/-! ### The reconciliation and the readers -/

section Effective

variable {t : AppleTable} {userId reference : ℤ}

/-- A reconciliation that does not fail has seen no row without an expiry. -/
theorem dated_of_effective {subscription : Option AppleRow}
    (h : effectiveAppleSubscription t userId reference = .ok subscription) : Dated t userId := by
  apply dated_of_active reference
  intro r hr
  unfold effectiveAppleSubscription at h
  rw [hr] at h
  dsimp only at h
  cases he : effectiveSubscriptionExpiration r with
  | none =>
    rw [he] at h
    exact absurd h (by simp)
  | some e =>
    by_contra hnone
    have hnone : r.expiresDate = none := by simpa using hnone
    unfold effectiveSubscriptionExpiration at he
    rw [hnone] at he
    exact absurd he (by simp)

/-- On dated rows the purchase path hands on what the referral path looks up. -/
theorem effectiveAppleSubscription_eq (h : Dated t userId) (reference : ℤ) :
    effectiveAppleSubscription t userId reference = .ok (loadActiveAppleSubscription t userId reference) := by
  rw [loadActiveAppleSubscription_eq h]
  unfold effectiveAppleSubscription
  cases hr : getActiveSubscriptionForUser t userId reference with
  | none => rfl
  | some r =>
    obtain ⟨hmem, hu, hv⟩ := getActiveSubscriptionForUser_spec hr
    obtain ⟨e, he⟩ := effective_isSome (h r hmem hu hv)
    dsimp only [Option.map_some]
    rw [he]

/-- The reconciliation itself looks up what it is not handed. -/
theorem entitlement_loaded (db : PlusDb) (userId reference : ℤ) :
    Plus.entitlement db userId reference (loadActiveAppleSubscription db.apple userId reference) =
      Plus.entitlement db userId reference none := by
  have hsame : appleSubscription db.apple userId reference (loadActiveAppleSubscription db.apple userId reference) =
      appleSubscription db.apple userId reference none := by
    unfold appleSubscription
    cases h : loadActiveAppleSubscription db.apple userId reference with
    | none => rfl
    | some r => rfl
  unfold Plus.entitlement
  rw [hsame]

end Effective

/-! ### The workers -/

/-- The user whose entitlement a request reconciles before it commits. -/
def reconciledUser : Worker → Option ℤ
  | .save n _ => n.userId
  | .notification _ _ => none
  | .claim c _ => some c.userId

/-- A worker, or one that has reconciled and has only to commit. -/
inductive Request where
  | working (l : AccountWorker)
  | reconciled (l : Worker)

def requestHeld (hash : String → ℤ) : Request → Set Lock
  | .working l => accountHeld hash l
  | .reconciled l => held hash l

inductive RequestMove (s : Store) : Request → Request → Prop where
  | statement {l l'} (h : AccountMove s l l') : RequestMove s (.working l) (.working l')
  /-- `reconcile_apple_entitlement`, of what is committed under what the request wrote -/
  | reconcile {l t userId reference subscription} (writes : Commit s l t) (user : reconciledUser l = some userId)
      (dated : effectiveAppleSubscription t.apple userId reference = .ok subscription) :
      RequestMove s (.working (.request l)) (.reconciled l)

inductive RequestCommit (s : Store) : Request → Store → Prop where
  | entitled {l t} (h : Commit s l t) : RequestCommit s (.reconciled l) t
  | ofGuest {l t} (guest : reconciledUser l = none) (h : Commit s l t) : RequestCommit s (.working (.request l)) t
  | account {l t} (other : ∀ m, l ≠ .request m) (h : AccountCommit s l t) : RequestCommit s (.working l) t

def RequestStarts : Request → Prop
  | .working l => AccountStarts l
  | .reconciled _ => False

def entitlementProtocol (hash : String → ℤ) : Protocol Store Request Lock where
  held := requestHeld hash
  start := RequestStarts
  move := RequestMove
  commit := RequestCommit

/-! ### What the reconciliation has read -/

/-- The row that a save writes, and the other rows of its user, are dated. -/
def SaveGuarded (s : Store) (n : NormalizedTransaction) (written : AppleRow) : Prop :=
  ∀ u, n.userId = some u → RowDated written ∧
    ∀ r ∈ s.apple, r.userId = some u → r.transactionId ≠ n.transactionId → RowDated r

/-- The rows that the user of a request will own are dated. -/
def Guarded (s : Store) : Worker → Prop
  | .save n (.matched r) => SaveGuarded s n (mergeRow n r)
  | .save n .clear => SaveGuarded s n (insertedRow 0 n)
  | .claim c (.ready g _) => ∀ r ∈ s.apple, r.userId = some c.userId ∨ r.guestId = some g → RowDated r
  | _ => True

/-- What a worker has read and still relies on. -/
def RequestKnows (s : Store) : Request → Prop
  | .working l => AccountKnows s l
  | .reconciled l => Knows s l ∧ Guarded s l

/-- Unique owners, and no active row of a user without its expiry. -/
structure Entitling (s : Store) : Prop where
  owned : Owned s.apple
  dated : ∀ u, Dated s.apple u

variable {hash : String → ℤ} {s t : Store}

/-- A request that reconciles nobody writes no row of a user. -/
theorem guarded_of_guest {l : Worker} (h : reconciledUser l = none) : Guarded s l := by
  cases l with
  | notification m point => trivial
  | claim c point => exact absurd h (by simp [reconciledUser])
  | save n point =>
    have hnone : n.userId = none := h
    have hguarded : ∀ r, SaveGuarded s n r := fun r u hu => absurd (hnone.symm.trans hu) (by simp)
    cases point with
    | matched r => exact hguarded _
    | clear => exact hguarded _
    | start => trivial
    | owner => trivial
    | chain => trivial
    | unmatched => trivial

/-- The commit of a save completes it, and what is guarded is the row it writes. -/
theorem commit_save {n : NormalizedTransaction} {point : SavePoint} (hk : Knows s (.save n point))
    (h : Commit s (.save n point) t) : ∃ out, SaveCompleted s.accounts n s.apple out t.apple ∧
      (Guarded s (.save n point) ↔ SaveGuarded s n out.row) := by
  cases h with
  | @merge _ r out t' save =>
    obtain ⟨-, hrow, hsame⟩ := hk
    have hout : out.row = mergeRow n r := by
      rw [saveExisting_eq s.apple hsame] at save
      rw [← (Prod.mk.inj (Except.ok.inj save)).1]
    refine ⟨out, merge_completed hrow hsame save, ?_⟩
    rw [hout]
    rfl
  | insert save => exact ⟨_, insert_completed hk.2 save, Iff.rfl⟩

/-- The first lock of a save for a user is the row of that user. -/
theorem ownerLock_of_userId {n : NormalizedTransaction} {u : ℤ} (h : n.userId = some u) :
    ownerLock n.owner = .user u := by
  unfold NormalizedTransaction.userId at h
  cases ho : n.owner with
  | user v =>
    rw [ho] at h
    exact congrArg Lock.user (Option.some.inj h)
  | guest g =>
    rw [ho] at h
    exact absurd h (by simp [AppleSubscriptionOwner.userId])

/-- The saved row is of the user of the save. -/
theorem saved_userId {n : NormalizedTransaction} {out : AppleTransactionSaveResult} {a : Accounts}
    {x x' : AppleTable} (h : SaveCompleted a n x out x') : out.row.userId = n.userId :=
  (ownerOf_eq.mp (owner_saved h).1).1

/-- **What the reconciliation has seen**: if it does not fail, the rows that the
request will leave to the user are dated. -/
theorem guarded_of_reconcile {l : Worker} {u : ℤ} (hk : Knows s l) (h : Commit s l t)
    (hu : reconciledUser l = some u) (hd : Dated t.apple u) : Guarded s l := by
  cases l with
  | notification m point => trivial
  | save n point =>
    obtain ⟨out, hsave, hguarded⟩ := commit_save hk h
    have hn : n.userId = some u := hu
    rw [hguarded]
    intro v hv
    obtain rfl : v = u := Option.some.inj (hv.symm.trans hn)
    refine ⟨?_, fun r hr hru hx => ?_⟩
    · exact hd out.row ((mem_save hsave).mpr (Or.inl rfl)) ((saved_userId hsave).trans hn)
    · exact hd r ((mem_save hsave).mpr (Or.inr ⟨hr, hx⟩)) hru
  | claim c point =>
    cases h with
    | @claim _ g done =>
      obtain rfl : c.userId = u := Option.some.inj hu
      intro r hr howner
      by_cases hg : r.guestId = some g
      · have hmoved := hd (moved c.userId r) (mem_transfer.mpr (Or.inr ⟨r, hr, hg, rfl⟩)) rfl
        exact hmoved
      · exact hd r (mem_transfer.mpr (Or.inl ⟨hr, hg⟩)) (howner.resolve_right hg)

/-- **A guarded commit** leaves no active row of a user without its expiry. -/
theorem dated_commit {l : Worker} (hs : ∀ u, Dated s.apple u) (hk : Knows s l) (hg : Guarded s l)
    (h : Commit s l t) : ∀ u, Dated t.apple u := by
  intro u r hr hu
  cases l with
  | notification m point => cases h
  | save n point =>
    obtain ⟨out, hsave, hguarded⟩ := commit_save hk h
    rcases (mem_save hsave).mp hr with rfl | ⟨hr, -⟩
    · exact (hguarded.mp hg u ((saved_userId hsave).symm.trans hu)).1
    · exact hs u r hr hu
  | claim c point =>
    cases h with
    | @claim _ g done =>
      rcases mem_transfer.mp hr with ⟨hr, -⟩ | ⟨q, hq, hqg, rfl⟩
      · exact hs u r hr hu
      · exact hg q hq (Or.inr hqg)

/-! ### It stays true -/

/-- Only the worker that holds the row of a user gives the user a row. -/
theorem commit_userRows {l : Worker} {u : ℤ} (hk : Knows s l) (h : Commit s l t) (hu : Lock.user u ∉ held hash l)
    {r : AppleRow} (hr : r ∈ t.apple) (hru : r.userId = some u) : r ∈ s.apple := by
  cases l with
  | notification m point => cases h
  | save n point =>
    obtain ⟨out, hsave, -⟩ := commit_save hk h
    rcases (mem_save hsave).mp hr with rfl | ⟨hr, -⟩
    · have hlock := ownerLock_of_userId ((saved_userId hsave).symm.trans hru)
      have hheld : Lock.user u ∈ held hash (.save n point) := by
        cases h with
        | merge save => exact Or.inl hlock.symm
        | insert save => exact Or.inl hlock.symm
      exact absurd hheld hu
    · exact hr
  | claim c point =>
    cases h with
    | @claim _ g done =>
      rcases mem_transfer.mp hr with ⟨hr, -⟩ | ⟨q, hq, hqg, rfl⟩
      · exact hr
      · have hcu : c.userId = u := Option.some.inj hru
        exact absurd (Or.inl (congrArg Lock.user hcu.symm)) hu

/-- A commit that gives the request none of the rows it relies on keeps it guarded. -/
theorem Guarded.mono (hash : String → ℤ) {m : Worker} (hg : Guarded s m)
    (huser : ∀ u, Lock.user u ∈ held hash m → ∀ r ∈ t.apple, r.userId = some u → r ∈ s.apple)
    (hguest : ∀ g, Lock.guest g ∈ held hash m → ∀ r ∈ t.apple, r.guestId = some g → r ∈ s.apple) : Guarded t m := by
  have hsave : ∀ n written, ownerLock n.owner ∈ held hash m → SaveGuarded s n written → SaveGuarded t n written := by
    intro n written hlock h u hu
    have hheld : Lock.user u ∈ held hash m := by
      rw [← ownerLock_of_userId hu]
      exact hlock
    exact ⟨(h u hu).1, fun r hr hru => (h u hu).2 r (huser u hheld r hr hru) hru⟩
  cases m with
  | notification m point => trivial
  | save n point =>
    cases point with
    | matched r => exact hsave n _ (Or.inl rfl) hg
    | clear => exact hsave n _ (Or.inl rfl) hg
    | start => trivial
    | owner => trivial
    | chain => trivial
    | unmatched => trivial
  | claim c point =>
    cases point with
    | ready g done =>
      intro r hr howner
      apply hg r _ howner
      rcases howner with hu | hgr
      · exact huser c.userId (Or.inl rfl) r hr hu
      · exact hguest g (Or.inr (Or.inl rfl)) r hr hgr
    | start => trivial
    | user => trivial
    | guest g => trivial
    | next g done todo => trivial
    | locked g done o todo => trivial

/-- What the reconciliation has read, the commits of others leave. -/
theorem guarded_stable {l m : Worker} (hk : Knows s l) (h : Commit s l t)
    (hd : Disjoint (held hash l) (held hash m)) (hg : Guarded s m) : Guarded t m := by
  have hfree : ∀ k ∈ held hash m, k ∉ held hash l := fun k hk => Set.disjoint_right.mp hd hk
  apply hg.mono hash
  · intro u hu r hr hru
    exact commit_userRows hk h (hfree _ hu) hr hru
  · intro g hlock r hr hrg
    exact ((commit_frame hk h).guestRows r g hrg (hfree _ hlock)).mp hr

/-- The commit of a request is one of a worker that has reconciled, or that has
nobody to reconcile; or it is of no request. -/
theorem requestCommit_cases (hash : String → ℤ) {l : Request} (hk : RequestKnows s l) (h : RequestCommit s l t) :
    (∃ m, Commit s m t ∧ Knows s m ∧ Guarded s m ∧ requestHeld hash l = held hash m) ∨
      Leaves (requestHeld hash l) s t := by
  cases h with
  | entitled h => exact Or.inl ⟨_, h, hk.1, hk.2, rfl⟩
  | ofGuest guest h => exact Or.inl ⟨_, h, hk, guarded_of_guest guest, rfl⟩
  | @account l _ other h =>
    rcases commit_leaves hash h with ⟨m, rfl, -⟩ | hl
    · exact absurd rfl (other m)
    · exact Or.inr hl

theorem entitlement_lawful (hash : String → ℤ) : Lawful (entitlementProtocol hash) Entitling RequestKnows where
  start l hl := by
    cases l with
    | working l => exact (account_lawful hash).start l hl
    | reconciled l => exact hl.elim
  move s l l' hs hk h := by
    cases h with
    | statement h => exact (account_lawful hash).move s _ _ hs.owned hk h
    | reconcile writes user dated => exact ⟨hk, guarded_of_reconcile hk writes user (dated_of_effective dated)⟩
  commit s l t hs hk h := by
    rcases requestCommit_cases hash hk h with ⟨m, hc, hm, hg, -⟩ | hl
    · exact ⟨owned_commit hs.owned hm hc, dated_commit hs.dated hm hg hc⟩
    · exact ⟨hs.owned.leaves hl, fun u r hr => hs.dated u r (hl.rows r hr)⟩
  stable s l t m hs hk h hm hd := by
    have hd : Disjoint (requestHeld hash l) (requestHeld hash m) := hd
    rcases requestCommit_cases hash hk h with ⟨x, hc, hx, -, hlocks⟩ | hl
    · rw [hlocks] at hd
      cases m with
      | working m =>
        cases m with
        | request m => exact knows_stable (commit_frame hx hc) hd hm
        | session c => trivial
        | touch c => trivial
        | touching c id => trivial
        | delete u => trivial
        | deleting u => trivial
      | reconciled m => exact ⟨knows_stable (commit_frame hx hc) hd hm.1, guarded_stable hx hc hd hm.2⟩
    · cases m with
      | working m =>
        cases m with
        | request m => exact knows_leaves hl hs.owned hd hm
        | session c => trivial
        | touch c => trivial
        | touching c id => trivial
        | delete u => trivial
        | deleting u => trivial
      | reconciled m =>
        refine ⟨knows_leaves hl hs.owned hd hm.1, hm.2.mono hash ?_ ?_⟩
        · exact fun u _ r hr _ => hl.rows r hr
        · exact fun g _ r hr _ => hl.rows r hr

/-! ### The calls are transactions of it -/

/-- A request of its own among the statements. -/
theorem requestMove_lift {l l' : Worker} (h : Relation.ReflTransGen (Move s) l l') :
    Relation.ReflTransGen (RequestMove s) (.working (.request l)) (.working (.request l')) := by
  induction h with
  | refl => exact .refl
  | tail _ hm ih => exact ih.tail (.statement (.request hm))

theorem save_of_moves {n : NormalizedTransaction} {l : Worker}
    (h : Relation.ReflTransGen (Move s) (.save n .start) l) : ∃ point, l = .save n point := by
  induction h with
  | refl => exact ⟨_, rfl⟩
  | tail _ hm ih =>
    obtain ⟨point, rfl⟩ := ih
    cases hm <;> exact ⟨_, rfl⟩

/-- The checks of a call that completes: its owner is ready, and the
reconciliation does not fail on the rows it leaves. -/
theorem process_checks {c : ProcessCall} {db db' : Db} {out : ProcessAnswer} {n : NormalizedTransaction}
    (h : processAppleTransaction c db = .ok (out, db')) (hn : validateAppleTransaction c.transaction = .ok n) :
    ownerReady db.accounts n = true ∧ ∀ u, n.userId = some u →
      ∃ subscription, effectiveAppleSubscription db'.apple u c.reference = .ok subscription := by
  unfold processAppleTransaction at h
  rw [hn] at h
  obtain ⟨m, hm, h⟩ := bind_eq_ok.mp h
  obtain rfl : n = m := Except.ok.inj hm
  obtain ⟨⟨saved, store⟩, hsave, h⟩ := bind_eq_ok.mp h
  have hready : ownerReady db.accounts n = true := by
    have hprocess := within_ok.mp hsave
    unfold processTransaction at hprocess
    split_ifs at hprocess with huser
    split at hprocess
    · next saved' apple hnormalized =>
      have hactive : ownerActive db.accounts n = true := (saveCompleted_of_ok hnormalized).1
      unfold ownerReady
      rw [hactive, Bool.and_true]
      cases hu : n.userId with
      | none => rfl
      | some u =>
        rw [hu] at huser
        simpa [Option.isSome_iff_ne_none, Db.store] using huser
    · exact absurd hprocess (by simp)
  refine ⟨hready, fun u hu => ?_⟩
  unfold NormalizedTransaction.userId at hu
  cases howner : n.owner with
  | guest g =>
    rw [howner] at hu
    exact absurd hu (by simp [AppleSubscriptionOwner.userId])
  | user v =>
    rw [howner] at h hu
    obtain rfl : v = u := Option.some.inj hu
    obtain ⟨⟨conversions, ledger⟩, -, h⟩ := bind_eq_ok.mp h
    obtain ⟨⟨entitlement, plus⟩, hreconcile, h⟩ := bind_eq_ok.mp h
    obtain ⟨-, rfl⟩ := Prod.mk.inj (Except.ok.inj h)
    have hentitled := entitlement_ok (within_ok.mp hreconcile)
    obtain ⟨subscription, components, hsubscription, -⟩ := hentitled.answer
    refine ⟨subscription, ?_⟩
    show effectiveAppleSubscription plus.apple v c.reference = .ok subscription
    rw [hentitled.apple]
    exact hsubscription

section Whole

variable {ι : Type*} [DecidableEq ι] {x y : System Store Request ι}

/-- No request is running. -/
def resting (ι : Type*) (db : Db) : System Store Request ι := ⟨db.store, fun _ => none⟩

/-- **A completed call is a transaction** of a worker that is alone. -/
theorem handle_reaches (hash : String → ℤ) (w : ι) {c : Call} {db db' : Db} {out : Answer}
    (h : handle c db = .ok (out, db')) :
    Reaches (entitlementProtocol hash) (resting ι db) (resting ι db') := by
  cases c with
  | process c =>
    obtain ⟨o, hcall, -⟩ := handle_process h
    obtain ⟨n, saved, hp⟩ := processed_of_ok hcall
    obtain ⟨hready, hreconcile⟩ := process_checks hcall hp.validated
    obtain ⟨l, hmoves, hcommit⟩ := save_moves (s := db.store) hready hp.save
    obtain ⟨point, rfl⟩ := save_of_moves hmoves
    have hstart : (entitlementProtocol hash).start (.working (.request (.save n .start))) :=
      ⟨c.transaction, hp.validated⟩
    have hrun : Relation.ReflTransGen ((entitlementProtocol hash).move db.store) _ _ := requestMove_lift hmoves
    have hstore : db'.store = { db.store with apple := db'.apple } := by
      unfold Db.store
      rw [hp.accounts, hp.sessions]
    unfold resting
    rw [hstore]
    cases hu : n.userId with
    | none =>
      have hcommits : (entitlementProtocol hash).commit db.store (.working (.request (.save n point))) _ :=
        RequestCommit.ofGuest hu hcommit
      exact reaches_transaction (fun _ => rfl) w hstart hrun hcommits
    | some u =>
      obtain ⟨subscription, hsubscription⟩ := hreconcile u hu
      have hcommits : (entitlementProtocol hash).commit db.store _ _ := RequestCommit.entitled hcommit
      exact reaches_transaction (fun _ => rfl) w hstart
        (hrun.tail (RequestMove.reconcile hcommit (show reconciledUser (.save n point) = some u from hu)
          hsubscription)) hcommits
  | claim c =>
    obtain ⟨o, hcall, -⟩ := handle_claim h
    obtain ⟨store, hclaimed⟩ := claimed_of_ok hcall
    have hstore : db'.store = store := by
      unfold Db.store
      rw [hclaimed.accounts, hclaimed.sessions, hclaimed.apple]
    unfold resting
    rw [hstore]
    rcases claim_moves hclaimed.claim with hsame | ⟨g, done, hmoves, htransfer⟩
    · rw [hsame]
      exact .refl
    · obtain ⟨entitlement, hentitled, -⟩ := hclaimed.entitled
      obtain ⟨subscription, components, hsubscription, -⟩ := hentitled.answer
      rw [htransfer] at hsubscription ⊢
      have hstart : (entitlementProtocol hash).start (.working (.request (.claim c.toClaimCall .start))) := trivial
      have hcommit : Commit db.store (.claim c.toClaimCall (.ready g done)) (transfer c.userId g c.now db.store) :=
        .claim
      have hrun : Relation.ReflTransGen ((entitlementProtocol hash).move db.store) _ _ := requestMove_lift hmoves
      have hcommits : (entitlementProtocol hash).commit db.store _ _ := RequestCommit.entitled hcommit
      exact reaches_transaction (fun _ => rfl) w hstart
        (hrun.tail (RequestMove.reconcile hcommit rfl hsubscription)) hcommits

/-- A run of whole calls, one after the other, is an interleaving. -/
theorem run_reaches (hash : String → ℤ) (w : ι) {db db' : Db} {log : CallLog} (h : Run handle db log db') :
    Reaches (entitlementProtocol hash) (resting ι db) (resting ι db') := by
  induction h with
  | start => exact .refl
  | done _ hop ih => exact ih.trans (handle_reaches hash w hop)
  | refused _ _ ih => exact ih

/-- **Every interleaving keeps the expiries.** -/
theorem dated_reaches (hash : String → ℤ) (hx : x.Idle) (he : x.store.apple = .empty)
    (h : Reaches (entitlementProtocol hash) x y) : ∀ u, Dated y.store.apple u := by
  have hstart : Entitling x.store := by
    constructor
    · rw [he]
      exact owned_empty
    · intro u r hr
      rw [he] at hr
      exact absurd hr List.not_mem_nil
  exact ((entitlement_lawful hash).reaches (coherent_of_idle hx hstart) h).inv.dated

/-- **No active row of a user lacks its expiry, and the readers agree.** In every
state that any interleaving of purchases, notifications, restores and claims
commits, from an empty table, the query of the purchases and the query of the
referrals select the same transaction of every user at every date, with the
same effective expiry, which is there; so a purchase hands the reconciliation
a row from which it computes what it computes for a referral. -/
theorem apple_component_agrees (hash : String → ℤ) (hx : x.Idle) (he : x.store.apple = .empty)
    (h : Reaches (entitlementProtocol hash) x y) :
    (∀ r ∈ y.store.apple, r.userId.isSome → r.revocationDate = none → r.expiresDate.isSome) ∧
    ∀ userId reference,
      (loadActiveAppleSubscription y.store.apple userId reference =
        (getActiveSubscriptionForUser y.store.apple userId reference).map fun r =>
          { r with expiresDate := effectiveSubscriptionExpiration r }) ∧
      (∀ r, getActiveSubscriptionForUser y.store.apple userId reference = some r →
        (effectiveSubscriptionExpiration r).isSome) ∧
      ∀ db : PlusDb, db.apple = y.store.apple → ∃ subscription,
        effectiveAppleSubscription db.apple userId reference = .ok subscription ∧
        Plus.entitlement db userId reference subscription = Plus.entitlement db userId reference none := by
  have hdated := dated_reaches hash hx he h
  refine ⟨fun r hr hu hv => ?_, fun userId reference => ⟨?_, fun r hr => ?_, fun db hdb => ?_⟩⟩
  · obtain ⟨u, hu⟩ := Option.isSome_iff_exists.mp hu
    exact hdated u r hr hu hv
  · exact loadActiveAppleSubscription_eq (hdated userId) reference
  · obtain ⟨hmem, hu, hv⟩ := getActiveSubscriptionForUser_spec hr
    obtain ⟨e, he⟩ := effective_isSome (hdated userId r hmem hu hv)
    rw [he]
    rfl
  · refine ⟨loadActiveAppleSubscription db.apple userId reference, ?_, entitlement_loaded db userId reference⟩
    apply effectiveAppleSubscription_eq
    rw [hdb]
    exact hdated userId

end Whole

/-- The guest 7 buys, the user 1 claims, and then reports a transaction without
an expiry, which is refused. -/
def entitledDb : Db := (execute handle guestDb [.process (guestPurchase "g" (some 200)), .claim sampleClaim,
  .process (sampleRequest { samplePurchase with expiresDate := none })]).2

theorem apple_component_agrees_sample :
    (getActiveSubscriptionForUser entitledDb.apple 1 20).map (·.transactionId) = some "g" ∧
    (loadActiveAppleSubscription entitledDb.apple 1 20 =
      (getActiveSubscriptionForUser entitledDb.apple 1 20).map fun r =>
        { r with expiresDate := effectiveSubscriptionExpiration r }) ∧
    ∃ subscription, effectiveAppleSubscription entitledDb.apple 1 20 = .ok subscription ∧
      Plus.entitlement entitledDb.toPlusDb 1 20 subscription = Plus.entitlement entitledDb.toPlusDb 1 20 none := by
  have hreaches := run_reaches (fun _ => 0) (0 : ℕ) (run_execute handle [.process (guestPurchase "g" (some 200)),
    .claim sampleClaim, .process (sampleRequest { samplePurchase with expiresDate := none })] guestDb)
  obtain ⟨-, hagrees⟩ := apple_component_agrees (fun _ => 0) (fun _ => rfl) rfl hreaches
  obtain ⟨hload, -, hcomponent⟩ := hagrees 1 20
  exact ⟨by decide +kernel, hload, hcomponent entitledDb.toPlusDb rfl⟩

end Purchase
end FuelNear

/-
# Claiming a guest's purchases

`claim_guest_subscription` moves the rows first and can still fail
afterwards, in the creator ledger or in the entitlement; the connection rolls
back then, so that nothing is committed (`withConnection_claim`).

If the guest is signed in, owns rows, shares no original transaction with a
third owner, and no event of its transactions is another attribution's, then
the claim completes and nobody loses: the entitlement lasts as long as the
guest's did and as the user's did (`claim_preserves`). This needs the rows to
be as a save stores them, ids that the creator ledger can hold, and an
expiry: a row without one is active for a guest, and an error for a user.

Key definitions: `withConnection`, `claimWork`, `Claimable`, `Orderly`.
Key theorems: `withConnection_claim`, `recordRows_completes`,
`effectiveAppleSubscription_covers`, `claim_preserves`.
-/
import FuelNear.Purchase.Process
import FuelNear.Plus.Transfer

namespace FuelNear
namespace Purchase

open Sql Apple Text Creator Plus Ownership

/-! ### The working tables of the connection -/

/-- `with conn:` commits the working tables, or rolls them back. -/
def withConnection {α : Type*} (work : Db → Except PurchaseError α × Db) (db : Db) : Except PurchaseError α × Db :=
  match work db with
  | (.ok x, working) => (.ok x, working)
  | (.error e, _) => (.error e, db)

/-- The loop over the transferred transactions, with the ledger it leaves when
it fails. -/
def recordRowsWork (userId : ℤ) (apple : AppleTable) :
    List AppleRow → Ledger → Except ConversionError (List CreatorAppleConversionResult) × Ledger
  | [], s => (.ok [], s)
  | r :: rows, s =>
    match recordCreatorAppleConversion (conversionOf userId r) apple s with
    | .error e => (.error e, s)
    | .ok (result, s') =>
      match recordRowsWork userId apple rows s' with
      | (.ok results, s'') => (.ok (result.toList ++ results), s'')
      | (.error e, s'') => (.error e, s'')

/-- `claim_guest_subscription` on the working tables: the rows are moved, the
ledger is written, the identity and the sessions follow, and the entitlement
comes last. -/
def claimWork (c : Claim) (db : Db) : Except PurchaseError ClaimAnswer × Db :=
  match Ownership.claimGuestSubscription c.toClaimCall db.store with
  | .error e => (.error (.claim e), db)
  | .ok (result, store) =>
    let rows := if result.claimed then guestTransactions db.apple result.guestId else []
    match recordRowsWork c.userId store.apple rows db.ledger with
    | (.error e, ledger) => (.error (.conversion e), { db with apple := store.apple, ledger })
    | (.ok conversions, ledger) =>
      match reconcileAppleEntitlement c.userId c.reference
          { db.toPlusDb with accounts := store.accounts, apple := store.apple } with
      | .error e => (.error (.entitlement e),
          { db with accounts := store.accounts, apple := store.apple, sessions := store.sessions, ledger })
      | .ok (entitlement, plus) => (.ok {
          result
          isPlus := entitlement.isPlus
          expiresAt := entitlement.expiresAt
          changed := entitlement.changed
          conversions }, { plus with sessions := store.sessions, ledger })

theorem recordRowsWork_eq (userId : ℤ) (apple : AppleTable) : ∀ (rows : List AppleRow) (s : Ledger),
    recordRows userId apple rows s = (recordRowsWork userId apple rows s).1.map fun l =>
      (l, (recordRowsWork userId apple rows s).2)
  | [], s => rfl
  | r :: rows, s => by
    rw [recordRows, recordRowsWork]
    cases recordCreatorAppleConversion (conversionOf userId r) apple s with
    | error e => rfl
    | ok x =>
      dsimp only [bind, Except.bind]
      rw [recordRowsWork_eq userId apple rows x.2]
      cases h : recordRowsWork userId apple rows x.2 with
      | mk out s' => cases out <;> rfl

/-- **A claim is all or nothing**: what is committed is the completed claim, or
the tables as they were. -/
theorem withConnection_claim (c : Claim) (db : Db) : withConnection (claimWork c) db =
    match claimGuestSubscription c db with
    | .ok (out, db') => (.ok out, db')
    | .error e => (.error e, db) := by
  unfold withConnection claimWork claimGuestSubscription
  cases Ownership.claimGuestSubscription c.toClaimCall db.store with
  | error e => rfl
  | ok x =>
    obtain ⟨result, store⟩ := x
    dsimp only [within, bind, Except.bind]
    rw [recordRowsWork_eq]
    cases hrows : recordRowsWork c.userId store.apple
        (if result.claimed then guestTransactions db.apple result.guestId else []) db.ledger with
    | mk out ledger =>
      cases out with
      | error e => rfl
      | ok conversions =>
        dsimp only [Except.map]
        cases reconcileAppleEntitlement c.userId c.reference
            { db.toPlusDb with accounts := store.accounts, apple := store.apple } with
        | error e => rfl
        | ok y => rfl

/-! ### When a claim has its way -/

/-- A guest that is signed in, with rows that the user may claim. -/
structure Claimable (c : Claim) (guest : GuestIdentity) (db : Db) : Prop where
  positive : 0 < c.userId
  user : (db.accounts.user? c.userId).isSome
  signedIn : getGuestByToken db.store c.tokenHash c.now false = .ok guest
  owns : ∃ r ∈ db.apple, r.guestId = some guest.id
  noThirdOwner : ∀ r ∈ db.apple, r.guestId = some guest.id → ∀ q ∈ db.apple,
    q.originalTransactionId = r.originalTransactionId →
    q.guestId = some guest.id ∨ (q.userId = some c.userId ∧ q.guestId = none)
  unclaimed : ∀ r ∈ db.apple, r.guestId = some guest.id → Unclaimed c.userId r.transactionId db.ledger

/-- What validation makes of the texts of a row. -/
structure Stored (r : AppleRow) : Prop where
  transactionId : strip r.transactionId = r.transactionId ∧ r.transactionId ≠ ""
  originalTransactionId : strip r.originalTransactionId = r.originalTransactionId ∧ r.originalTransactionId ≠ ""
  productId : r.productId ∈ supportedAppleProductIds

/-- The rows are as they were saved; none of an owner that is not revoked lacks
its expiry; and ids that go to the creator ledger fit its column. -/
structure Orderly (c : Claim) (guest : GuestIdentity) (db : Db) : Prop where
  stored : ∀ r ∈ db.apple, r.guestId = some guest.id → Stored r
  dated : ∀ r ∈ db.apple, r.guestId = some guest.id ∨ r.userId = some c.userId → r.revocationDate = none →
    r.expiresDate.isSome
  short : (activeAttribution db.ledger.attributions c.userId).isSome → ∀ r ∈ db.apple, r.guestId = some guest.id →
    r.transactionId.toList.length ≤ 255

/-! ### The transfer -/

section Transfer

variable {c : Claim} {guest : GuestIdentity} {db : Db}

/-- A guest that is signed in is not claimed, and a claim finds it. -/
theorem getGuestByToken_signedIn {s : Store} {tokenHash : String} {now : ℤ}
    (h : getGuestByToken s tokenHash now false = .ok guest) :
    getGuestByToken s tokenHash now true = .ok guest ∧ guest.claimedUserId = none := by
  unfold getGuestByToken at h ⊢
  split at h
  · exact absurd h (by simp)
  · split at h
    · exact absurd h (by simp)
    · next session hs found hf =>
      dsimp only at h ⊢
      split_ifs at h with hclaimed hactive
      obtain rfl : found = guest := Except.ok.inj h
      have hnone : found.claimedUserId = none := by simpa using hclaimed
      simp only [Bool.not_false, Bool.false_and, Bool.and_true, Bool.not_eq_true', Bool.not_eq_false] at hactive
      simp [hnone, hactive]

theorem originalIds_isEmpty {t : AppleTable} {g : ℤ} (h : ∃ r ∈ t, r.guestId = some g) :
    (originalIds t g).isEmpty = false := by
  obtain ⟨r, hr, hg⟩ := h
  rw [List.isEmpty_eq_false_iff_exists_mem]
  refine ⟨r.originalTransactionId, List.mem_dedup.mpr (List.mem_map.mpr ⟨r, ?_, rfl⟩)⟩
  rw [List.mem_filter, decide_eq_true_eq]
  exact ⟨hr, hg⟩

/-- The transfer of a claim completes. -/
theorem Claimable.transfers (h : Claimable c guest db) : Ownership.claimGuestSubscription c.toClaimCall db.store =
    .ok (⟨true, guest.id, c.userId, db.apple.rows.countP fun r => r.guestId = some guest.id⟩,
      transfer c.userId guest.id c.now db.store) := by
  obtain ⟨htoken, hunclaimed⟩ := getGuestByToken_signedIn h.signedIn
  have huser : (db.store.accounts.user? c.userId).isNone = false := by
    rw [Option.isNone_eq_false_iff]
    exact h.user
  have hids : (originalIds db.store.apple guest.id).isEmpty = false := originalIds_isEmpty h.owns
  have hthird : ((originalIds db.store.apple guest.id).any fun o => ownedByThird c.userId guest.id o db.store.apple) =
      false := by
    rw [List.any_eq_false]
    intro o ho
    obtain ⟨r, hr, rfl⟩ := List.mem_map.mp (List.mem_dedup.mp ho)
    rw [List.mem_filter, decide_eq_true_eq] at hr
    rw [ownedByThird, Bool.not_eq_true, Option.isSome_eq_false_iff, Option.isNone_iff_eq_none, Table.find?_eq_none]
    intro q hq
    rw [decide_eq_false_iff_not]
    exact fun hx => hx.2 (h.noThirdOwner r hr.1 hr.2 q hq hx.1)
  unfold Ownership.claimGuestSubscription
  rw [if_neg (not_le.mpr h.positive), huser, if_neg Bool.false_ne_true, htoken]
  dsimp only [bind, Except.bind]
  rw [hunclaimed]
  dsimp only
  rw [hids, if_neg Bool.false_ne_true, hthird, if_neg Bool.false_ne_true]
  rfl

end Transfer

/-! ### The creator ledger of a claim -/

section Record

variable {userId : ℤ} {r : AppleRow}

theorem Stored.check (h : Stored r) (hpos : 0 < userId) : checkConversion (conversionOf userId r) = .ok () := by
  have hproduct : ∀ p ∈ supportedAppleProductIds, strip p ≠ "" := by decide
  have htransaction : strip r.transactionId ≠ "" := by
    rw [h.transactionId.1]
    exact h.transactionId.2
  have horiginal : strip r.originalTransactionId ≠ "" := by
    rw [h.originalTransactionId.1]
    exact h.originalTransactionId.2
  unfold checkConversion conversionOf
  dsimp only
  rw [if_neg (not_le.mpr hpos), if_neg htransaction, if_neg horiginal, if_neg (hproduct _ h.productId)]

/-- A stripped text that is not empty and not too long passes its CHECK. -/
theorem textCheck_of_stripped {x : String} (hstrip : strip x = x) (hne : x ≠ "") (hlength : x.toList.length ≤ 255) :
    textCheck x = true := by
  have hspace : isSpace ' ' = true := by decide
  have hends := stripped_ends hstrip ' '
  have hpos : 0 < x.toList.length := by
    rw [List.length_pos_iff, Ne, String.toList_eq_nil_iff]
    exact hne
  unfold textCheck
  simp only [Bool.and_eq_true, decide_eq_true_eq]
  refine ⟨⟨⟨fun hhead => ?_, fun hlast => ?_⟩, hpos⟩, hlength⟩
  · exact absurd (hends.1 hhead) (by rw [hspace]; simp)
  · exact absurd (hends.2 hlast) (by rw [hspace]; simp)

theorem Stored.writable (h : Stored r) (hlength : r.transactionId.toList.length ≤ 255) :
    Writable (conversionOf userId r) := by
  have hproduct : ∀ p ∈ supportedAppleProductIds, textCheck (strip p) = true := by decide
  refine ⟨?_, hproduct _ h.productId, derived_valueCheck r⟩
  show textCheck (strip r.transactionId) = true
  rw [h.transactionId.1]
  exact textCheck_of_stripped h.transactionId.1 h.transactionId.2 hlength

/-- The loop over stored rows completes: without an attribution it writes
nothing, and with one no event that it meets is another attribution's. -/
theorem recordRows_completes (apple : AppleTable) (hpos : 0 < userId) : ∀ (rows : List AppleRow) (s : Ledger),
    (∀ r ∈ rows, Stored r) →
    ((activeAttribution s.attributions userId).isSome → ∀ r ∈ rows, r.transactionId.toList.length ≤ 255) →
    (∀ r ∈ rows, Unclaimed userId r.transactionId s) → ∃ out, recordRows userId apple rows s = .ok out
  | [], s, _, _, _ => ⟨_, rfl⟩
  | r :: rows, s, hstored, hshort, hfree => by
    have hr := hstored r List.mem_cons_self
    obtain ⟨⟨out, s'⟩, hrecord⟩ : ∃ x, recordCreatorAppleConversion (conversionOf userId r) apple s = .ok x := by
      cases ha : activeAttribution s.attributions userId with
      | none => exact ⟨_, record_unattributed apple (hr.check hpos) ha⟩
      | some a =>
        apply record_completes apple (hr.check hpos)
        · exact hr.writable (hshort (by rw [ha]; rfl) r List.mem_cons_self)
        · show Unclaimed userId (strip r.transactionId) s
          rw [hr.transactionId.1]
          exact hfree r List.mem_cons_self
    have hrecorded := recorded_of_ok hrecord
    have hattributed : (activeAttribution s'.attributions userId).isSome → (activeAttribution s.attributions userId).isSome := by
      intro hsome
      cases ha : activeAttribution s.attributions userId with
      | some a => rfl
      | none =>
        rw [record_unattributed apple (hr.check hpos) ha] at hrecord
        obtain ⟨-, rfl⟩ := Prod.mk.inj (Except.ok.inj hrecord)
        rw [ha] at hsome
        exact absurd hsome (by simp)
    obtain ⟨⟨results, s''⟩, hrows⟩ := recordRows_completes apple hpos rows s'
      (fun q hq => hstored q (List.mem_cons_of_mem r hq))
      (fun hsome q hq => hshort (hattributed hsome) q (List.mem_cons_of_mem r hq))
      (fun q hq => hrecorded.unclaimed (hfree q (List.mem_cons_of_mem r hq)))
    rw [recordRows, hrecord]
    dsimp only [bind, Except.bind]
    rw [hrows]
    exact ⟨_, rfl⟩

/-- A purchase that the ledger records under the attribution, whatever else is stored. -/
structure Converts (a : CreatorAttribution) (r : AppleRow) : Prop where
  date : a.attributedAt ≤ r.purchaseDate
  live : r.revocationDate = none
  identity : (appleConversionIdentity (normalizeAppleConversionValue r.transactionReason)
    (normalizeAppleConversionValue r.ownershipType)).isSome
  purchase : normalizeAppleConversionValue r.transactionReason ≠ some "RENEWAL"

/-- The ledger has recorded such a purchase, so its id fits the column. -/
theorem Converts.textCheck {a : CreatorAttribution} (h : Converts a r) {apple : AppleTable} {s s' : Ledger}
    {out : Option CreatorAppleConversionResult} (ha : activeAttribution s.attributions userId = some a)
    (hrecorded : Recorded (conversionOf userId r) apple s out s') : Creator.textCheck (strip r.transactionId) = true := by
  cases hrecorded with
  | revoked date kept =>
    rw [show (conversionOf userId r).revocationDate = none from h.live] at date
    exact absurd date (by simp)
  | unattributed noAttribution => exact absurd (ha.symm.trans noAttribution) (by simp)
  | @early b attribution before =>
    obtain rfl : a = b := Option.some.inj (ha.symm.trans attribution)
    exact absurd h.date (not_le.mpr before)
  | @unrecorded b attribution new left =>
    obtain ⟨t, ht⟩ := Option.isSome_iff_exists.mp h.identity
    exact absurd (left t ht).1 h.purchase
  | updated live attribution date found same written answer =>
    obtain ⟨he, -, hkey⟩ := eventByKey_iff.mp found
    rw [show strip r.transactionId = _ from hkey.symm]
    exact (event_check he).1
  | inserted live attribution date new identity counts written answer =>
    exact (event_check (Checked.mem_def.mpr ((Table.mem_insert (Checked.insert_ok written)).mpr (Or.inr rfl)))).1

/-- The loop fails at an id that does not fit. -/
theorem recordRows_short {apple : AppleTable} : ∀ {rows : List AppleRow} {s s' : Ledger}
    {l : List CreatorAppleConversionResult}, recordRows userId apple rows s = .ok (l, s') → ∀ {a : CreatorAttribution},
    activeAttribution s.attributions userId = some a → ∀ r ∈ rows, Converts a r →
      Creator.textCheck (strip r.transactionId) = true
  | [], _, _, _, _, _, _, _, hr, _ => absurd hr List.not_mem_nil
  | q :: rows, s, s', l, h, a, ha, r, hr, hcounts => by
    rw [recordRows] at h
    obtain ⟨⟨out, s₁⟩, hrecord, h⟩ := bind_eq_ok.mp h
    obtain ⟨⟨rest, s₂⟩, hrows, -⟩ := bind_eq_ok.mp h
    have hrecorded := recorded_of_ok hrecord
    rcases List.mem_cons.mp hr with rfl | hr
    · exact hcounts.textCheck ha hrecorded
    · obtain ⟨b, hb, hsame, -⟩ := hrecorded.paid ha
      refine recordRows_short hrows hb r hr ⟨?_, hcounts.live, hcounts.identity, hcounts.purchase⟩
      rw [hsame.attributedAt]
      exact hcounts.date

theorem mem_guestTransactions {t : AppleTable} {g : ℤ} {q : AppleRow} :
    q ∈ guestTransactions t g ↔ q ∈ t ∧ q.guestId = some g := by
  unfold guestTransactions
  rw [(List.perm_insertionSort chainOrder _).mem_iff, List.mem_filter, decide_eq_true_eq]
  exact Iff.rfl

end Record

/-! ### The Apple part of a user -/

section Effective

variable {t : AppleTable} {userId reference : ℤ}

theorem effective_isSome {r : AppleRow} (h : r.expiresDate.isSome) :
    ∃ e, effectiveSubscriptionExpiration r = some e := by
  obtain ⟨e, he⟩ := Option.isSome_iff_exists.mp h
  unfold effectiveSubscriptionExpiration
  rw [he]
  cases r.gracePeriodExpiresDate <;> exact ⟨_, rfl⟩

/-- No row of the user that counts at the reference date ends later. -/
def Covers (t : AppleTable) (userId reference : ℤ) (apple : Option AppleRow) : Prop :=
  ∀ r ∈ t, r.userId = some userId → r.revocationDate = none → ∀ e, effectiveSubscriptionExpiration r = some e →
    reference < e → ∃ x, apple.bind (·.expiresDate) = some x ∧ e ≤ x

/-- If no row that counts lacks its expiry, the active row is found, and no row
that counts ends later. -/
theorem effectiveAppleSubscription_covers (reference : ℤ)
    (hdated : ∀ r ∈ t, r.userId = some userId → r.revocationDate = none → r.expiresDate.isSome) :
    ∃ subscription, effectiveAppleSubscription t userId reference = .ok subscription ∧
      Covers t userId reference subscription := by
  unfold effectiveAppleSubscription
  cases hactive : getActiveSubscriptionForUser t userId reference with
  | none =>
    refine ⟨none, rfl, fun r hr huser hrev e he hlt => ?_⟩
    have hempty := (top_eq_none_iff _).mp hactive
    have hmem : r ∈ t.rows.filter fun r => r.userId = some userId && r.revocationDate.isNone &&
        (r.expiresDate.isNone || expiresAfter r reference) := by
      have hafter := (expiresAfter_iff (hdated r hr huser hrev) reference).mpr ⟨e, he, hlt⟩
      rw [List.mem_filter]
      exact ⟨hr, by simp [huser, hrev, hafter]⟩
    rw [hempty] at hmem
    exact absurd hmem (by simp)
  | some q =>
    obtain ⟨hq, hquser, hqrev⟩ := getActiveSubscriptionForUser_spec hactive
    obtain ⟨x, hx⟩ := effective_isSome (hdated q hq hquser hqrev)
    dsimp only
    rw [hx]
    refine ⟨_, rfl, fun r hr huser hrev e he hlt => ⟨x, rfl, ?_⟩⟩
    have hrdated := hdated r hr huser hrev
    have hafter := (expiresAfter_iff hrdated reference).mpr ⟨e, he, hlt⟩
    have hge := top_ge _ hactive r (by rw [List.mem_filter]; exact ⟨hr, by simp [huser, hrev, hafter]⟩)
    -- neither row lacks its expiry, so the expiries are compared
    have hnone : r.expiresDate.isNone = q.expiresDate.isNone := by
      rw [Option.isNone_eq_false_iff.mpr hrdated, Option.isNone_eq_false_iff.mpr (hdated q hq hquser hqrev)]
    rw [Prod.Lex.toLex_le_toLex, hnone] at hge
    have hkey := (Prod.Lex.toLex_le_toLex.mp (hge.resolve_left (lt_irrefl _)).2)
    rw [expirationKey_eq he, expirationKey_eq hx, WithTop.coe_lt_coe, WithTop.coe_inj] at hkey
    rcases hkey with hlt' | ⟨heq, -⟩ <;> omega

/-- The reconciliation looks for a row itself if it is handed none. -/
theorem Covers.given {apple : Option AppleRow} (h : Covers t userId reference apple) :
    Covers t userId reference (appleSubscription t userId reference apple) := by
  intro r hr huser hrev e he hlt
  obtain ⟨x, hx, hle⟩ := h r hr huser hrev e he hlt
  obtain ⟨q, rfl, hq⟩ := Option.bind_eq_some_iff.mp hx
  exact ⟨x, hq, hle⟩

/-- The entitlement lasts as long as a row that counts. -/
theorem Covers.entitlement {db : PlusDb} {given : Option AppleRow} (h : Covers db.apple userId reference given)
    {r : AppleRow} (hr : r ∈ db.apple) (huser : r.userId = some userId) (hrev : r.revocationDate = none) {e : ℤ}
    (he : effectiveSubscriptionExpiration r = some e) (hlt : reference < e) :
    Extends (some e) (Plus.entitlement db userId reference given).expiresAt := by
  obtain ⟨x, hx, hle⟩ := h.given r hr huser hrev e he hlt
  have happle : (Plus.entitlement db userId reference given).apple = some x :=
    Option.filter_eq_some_iff.mpr ⟨hx, by rw [decide_eq_true_eq]; omega⟩
  intro z hz
  obtain rfl : e = z := Option.some.inj hz
  unfold Entitlement.expiresAt Entitlement.held
  rw [happle]
  cases (Plus.entitlement db userId reference given).referral with
  | none => exact ⟨x, rfl, hle⟩
  | some f => exact ⟨max x f, rfl, hle.trans (le_max_left _ _)⟩

end Effective

/-! ### What a claim preserves -/

section Preserve

variable {c : Claim} {guest : GuestIdentity} {db : Db}

/-- The database of the reconciliation: the rows are moved, the identity is claimed. -/
def afterTransfer (c : Claim) (guest : GuestIdentity) (db : Db) : PlusDb :=
  { db.toPlusDb with
    accounts := (transfer c.userId guest.id c.now db.store).accounts
    apple := (transfer c.userId guest.id c.now db.store).apple }

theorem rows_transfer (userId g now : ℤ) (s : Store) : (transfer userId g now s).apple.rows =
    s.apple.rows.map fun r => if r.guestId = some g then moved userId r else r := by
  show (moveRows userId g s.apple).rows = _
  unfold moveRows Table.update
  simp only [decide_eq_true_eq]

theorem mem_afterTransfer {x : AppleRow} : x ∈ (afterTransfer c guest db).apple ↔
    (x ∈ db.apple ∧ x.guestId ≠ some guest.id) ∨ ∃ r ∈ db.apple, r.guestId = some guest.id ∧ x = moved c.userId r :=
  @mem_transfer _ _ c.now db.store x

/-- The user keeps every row with its dates. -/
theorem gains_transfer (c : Claim) (guest : GuestIdentity) (db : Db) :
    Gains c.userId db.apple (afterTransfer c guest db).apple := by
  intro r hr huser
  by_cases hg : r.guestId = some guest.id
  · exact ⟨moved c.userId r, mem_afterTransfer.mpr (Or.inr ⟨r, hr, hg, rfl⟩), rfl, rfl, rfl, rfl, rfl⟩
  · exact ⟨r, mem_afterTransfer.mpr (Or.inl ⟨hr, hg⟩), huser, SameDates.refl r⟩

/-- No row that the user owns afterwards, and that is not revoked, lacks its expiry. -/
theorem Orderly.dated_transfer (h : Orderly c guest db) : ∀ r ∈ (afterTransfer c guest db).apple,
    r.userId = some c.userId → r.revocationDate = none → r.expiresDate.isSome := by
  intro r hr huser hrev
  rcases mem_afterTransfer.mp hr with ⟨hr, -⟩ | ⟨q, hq, hg, rfl⟩
  · exact h.dated r hr (Or.inr huser) hrev
  · exact h.dated q hq (Or.inl hg) hrev

/-- A claim in order completes. -/
theorem Claimable.completes (h : Claimable c guest db) (ho : Orderly c guest db) :
    ∃ out db', claimGuestSubscription c db = .ok (out, db') := by
  obtain ⟨⟨conversions, ledger⟩, hrows⟩ := recordRows_completes (transfer c.userId guest.id c.now db.store).apple
    h.positive (guestTransactions db.apple guest.id) db.ledger
    (fun r hr => ho.stored r (mem_guestTransactions.mp hr).1 (mem_guestTransactions.mp hr).2)
    (fun hsome r hr => ho.short hsome r (mem_guestTransactions.mp hr).1 (mem_guestTransactions.mp hr).2)
    (fun r hr => h.unclaimed r (mem_guestTransactions.mp hr).1 (mem_guestTransactions.mp hr).2)
  obtain ⟨subscription, hsubscription, -⟩ := effectiveAppleSubscription_covers c.reference ho.dated_transfer
  have huser : ((afterTransfer c guest db).accounts.user? c.userId).isSome := h.user
  obtain ⟨out, db₁, hreconcile⟩ := reconcile_completes c.reference subscription true h.positive huser
  obtain ⟨x, hentitled⟩ : ∃ x, reconcileAppleEntitlement c.userId c.reference (afterTransfer c guest db) = .ok x := by
    have huser : ((afterTransfer c guest db).accounts.user? c.userId).isNone = false := by
      rw [Option.isNone_eq_false_iff]
      exact h.user
    unfold reconcileAppleEntitlement
    rw [if_neg (not_le.mpr h.positive), huser, if_neg Bool.false_ne_true, hsubscription]
    dsimp only [bind, Except.bind]
    rw [hreconcile]
    exact ⟨_, rfl⟩
  unfold afterTransfer at hentitled
  unfold claimGuestSubscription
  rw [h.transfers]
  dsimp only [within, bind, Except.bind]
  rw [if_pos rfl, hrows]
  dsimp only
  rw [hentitled]
  exact ⟨_, _, rfl⟩

/-- A claim does not complete with an id that the creator ledger cannot hold. -/
theorem Claimable.refused (h : Claimable c guest db) {a : CreatorAttribution}
    (ha : activeAttribution db.ledger.attributions c.userId = some a) {r : AppleRow} (hr : r ∈ db.apple)
    (hg : r.guestId = some guest.id) (hcounts : Converts a r) (hlong : textCheck (strip r.transactionId) = false) :
    ∃ e, withConnection (claimWork c) db = (.error e, db) := by
  rw [withConnection_claim]
  cases hclaim : claimGuestSubscription c db with
  | error e => exact ⟨e, rfl⟩
  | ok x =>
    obtain ⟨store, hclaimed⟩ := claimed_of_ok (show claimGuestSubscription c db = .ok (x.1, x.2) from hclaim)
    obtain ⟨hresult, -⟩ := Prod.mk.inj (Except.ok.inj (hclaimed.claim.symm.trans h.transfers))
    have hrecord := hclaimed.record
    rw [hresult, if_pos rfl] at hrecord
    have hshort := recordRows_short hrecord ha r (mem_guestTransactions.mpr ⟨hr, hg⟩) hcounts
    rw [hlong] at hshort
    exact absurd hshort (by simp)

/-- The status of a guest that has Plus: an unrevoked row that ends after the
reference date. -/
theorem status_isPlus {t : AppleTable} {g reference : ℤ}
    (hdated : ∀ r ∈ t, r.guestId = some g → r.revocationDate = none → r.expiresDate.isSome)
    (h : (getGuestSubscriptionStatus g reference t).isPlus = true) :
    ∃ r ∈ t, r.guestId = some g ∧ r.revocationDate = none ∧ ∃ e, effectiveSubscriptionExpiration r = some e ∧
      reference < e ∧ (getGuestSubscriptionStatus g reference t).expiresAt = some e := by
  unfold getGuestSubscriptionStatus at h ⊢
  split at h
  · exact absurd h (by simp)
  · next latest hlatest =>
    have hmem := top_mem _ hlatest
    rw [List.mem_filter, decide_eq_true_eq] at hmem
    dsimp only at h ⊢
    rw [decide_eq_true_eq] at h
    split_ifs at h with hrev hexpired
    have hnone : latest.revocationDate = none := by simpa using hrev
    obtain ⟨e, he⟩ := effective_isSome (hdated latest hmem.1 hmem.2 hnone)
    refine ⟨latest, hmem.1, hmem.2, hnone, e, he, ?_, he⟩
    rw [he] at hexpired
    simpa using hexpired

/-- A completed claim: the guest's rows are the user's, every other row is as
it was, and the user has no less than the guest and the user had. -/
structure Preserved (c : Claim) (guest : GuestIdentity) (db : Db) (out : ClaimAnswer) (db' : Db) : Prop where
  result : out.result = ⟨true, guest.id, c.userId, db.apple.rows.countP fun r => r.guestId = some guest.id⟩
  rows : db'.apple.rows = db.apple.rows.map fun r => if r.guestId = some guest.id then moved c.userId r else r
  guest : (getGuestSubscriptionStatus guest.id c.reference db.apple).isPlus = true →
    out.isPlus = true ∧ Extends (getGuestSubscriptionStatus guest.id c.reference db.apple).expiresAt out.expiresAt
  user : ∀ own db₁, reconcileUserPlusEntitlement c.userId c.reference none false db.toPlusDb = .ok (own, db₁) →
    (own.isPlus = true → out.isPlus = true) ∧ Extends own.expiresAt out.expiresAt
  stored : (loadActiveSubscription db'.subscriptions c.userId).map (·.expiresAt) = out.expiresAt

/-- The active row stores the expiry of the entitlement. -/
theorem Snapshot.expiresAt {e : Entitlement} {s : Option UserSubscription} (h : Plus.Snapshot e s) :
    s.map (·.expiresAt) = e.expiresAt := by
  unfold Entitlement.expiresAt
  cases s with
  | none =>
    rw [show e.held = none from h]
    rfl
  | some s =>
    rw [Stores.held h]
    rfl

theorem isPlus_of_extends {x y : Option ℤ} (h : Extends x y) (hx : x.isSome) : y.isSome := by
  obtain ⟨a, ha⟩ := Option.isSome_iff_exists.mp hx
  obtain ⟨b, hb, -⟩ := h a ha
  rw [hb]
  rfl

section Kept

variable {subscription : Option AppleRow}

/-- The user has Plus for as long as the guest had. -/
theorem Orderly.guest_kept (ho : Orderly c guest db)
    (hcovers : Covers (afterTransfer c guest db).apple c.userId c.reference subscription)
    (hactive : (getGuestSubscriptionStatus guest.id c.reference db.apple).isPlus = true) :
    (Plus.entitlement (afterTransfer c guest db) c.userId c.reference subscription).expiresAt.isSome ∧
      Extends (getGuestSubscriptionStatus guest.id c.reference db.apple).expiresAt
        (Plus.entitlement (afterTransfer c guest db) c.userId c.reference subscription).expiresAt := by
  have hdated : ∀ r ∈ db.apple, r.guestId = some guest.id → r.revocationDate = none → r.expiresDate.isSome :=
    fun r hr hg hrev => ho.dated r hr (Or.inl hg) hrev
  obtain ⟨r, hr, hg, hrev, x, hx, hlt, hstatus⟩ := status_isPlus hdated hactive
  have hextends := hcovers.entitlement (mem_afterTransfer.mpr (Or.inr ⟨r, hr, hg, rfl⟩)) rfl hrev hx hlt
  rw [hstatus]
  exact ⟨isPlus_of_extends hextends rfl, hextends⟩

/-- The user has Plus for as long as before. -/
theorem user_kept (hcovers : Covers (afterTransfer c guest db).apple c.userId c.reference subscription) :
    Extends (Plus.entitlement db.toPlusDb c.userId c.reference none).expiresAt
      (Plus.entitlement (afterTransfer c guest db) c.userId c.reference subscription).expiresAt := by
  apply entitlement_gains (gains_transfer c guest db) rfl rfl
  intro x hx
  obtain ⟨q, hq, hqx⟩ := Option.bind_eq_some_iff.mp hx
  obtain ⟨r, hr, rfl⟩ := Option.map_eq_some_iff.mp hq
  obtain ⟨hmem, huser, hrev, hsome, hafter⟩ := activeAppleRow_spec hr
  obtain ⟨z, hz, hlt⟩ := (expiresAfter_iff hsome c.reference).mp hafter
  obtain rfl : z = x := Option.some.inj (hz.symm.trans hqx)
  obtain ⟨p, hp, hpuser, hdates⟩ := gains_transfer c guest db r hmem huser
  exact hcovers.given p hp hpuser (hdates.revocationDate.trans hrev) z (hdates.effective.trans hz) hlt

end Kept

/-- What a completed claim in order preserves. -/
theorem Claimable.preserves (h : Claimable c guest db) (ho : Orderly c guest db) {out : ClaimAnswer} {db' : Db}
    (hclaim : claimGuestSubscription c db = .ok (out, db')) : Preserved c guest db out db' := by
  obtain ⟨store, hclaimed⟩ := claimed_of_ok hclaim
  obtain ⟨hresult, rfl⟩ := Prod.mk.inj (Except.ok.inj (hclaimed.claim.symm.trans h.transfers))
  obtain ⟨entitled, hentitled, hplus, hexpires⟩ := hclaimed.entitled
  obtain ⟨subscription, components, hsubscription, hreconciled, hout⟩ := hentitled.answer
  obtain ⟨found, hfound, hcovers⟩ := effectiveAppleSubscription_covers c.reference ho.dated_transfer
  obtain rfl : found = subscription := Except.ok.inj (hfound.symm.trans hsubscription)
  have hanswer : out.isPlus = (Plus.entitlement (afterTransfer c guest db) c.userId c.reference found).expiresAt.isSome ∧
      out.expiresAt = (Plus.entitlement (afterTransfer c guest db) c.userId c.reference found).expiresAt := by
    rw [hplus, hexpires, hout, hreconciled.answer]
    exact ⟨rfl, rfl⟩
  refine ⟨hresult, ?_, ?_, fun own db₁ hown => ?_, ?_⟩
  · rw [hclaimed.apple]
    exact rows_transfer c.userId guest.id c.now db.store
  · rw [hanswer.1, hanswer.2]
    exact ho.guest_kept hcovers
  · have hkept := user_kept hcovers
    rw [hanswer.1, hanswer.2, (reconcile_ok hown).answer]
    exact ⟨isPlus_of_extends hkept, hkept⟩
  · rw [hanswer.2]
    exact Snapshot.expiresAt hreconciled.snapshot

/-- **A claim preserves the entitlement of both, and is all or nothing.** -/
theorem claim_preserves (c : Claim) (db : Db) :
    (∀ guest, Claimable c guest db → Orderly c guest db → ∃ out db',
      withConnection (claimWork c) db = (.ok out, db') ∧ Preserved c guest db out db') ∧
    ∀ e db', withConnection (claimWork c) db = (.error e, db') → db' = db := by
  rw [withConnection_claim]
  constructor
  · intro guest h ho
    obtain ⟨out, db', hclaim⟩ := h.completes ho
    refine ⟨out, db', ?_, h.preserves ho hclaim⟩
    rw [hclaim]
  · intro e db' h
    split at h
    · exact absurd h (by simp)
    · exact (Prod.mk.inj h).2.symm

end Preserve

/-! ### Rows stay as they were saved -/

theorem mem_supported (n : NormalizedTransaction) (r : AppleRow) (hr : r.productId ∈ supportedAppleProductIds) :
    (mergeRow n r).productId ∈ supportedAppleProductIds := by
  rw [mergeRow_general n r (·.productId) (fun _ _ _ _ => rfl) fun _ _ _ _ => rfl]
  split_ifs
  · exact n.supported
  · exact hr

theorem nonblank_ids {x : AppleTransaction} {n : NormalizedTransaction} (h : validateAppleTransaction x = .ok n) :
    n.transactionId ≠ "" ∧ n.originalTransactionId ≠ "" :=
  ⟨(normalizeRequiredText_ok (validated_of_ok h).transactionId).2,
    (normalizeRequiredText_ok (validated_of_ok h).originalTransactionId).2⟩

theorem stored_moved {r : AppleRow} (userId : ℤ) (h : Stored r) : Stored (moved userId r) :=
  ⟨h.transactionId, h.originalTransactionId, h.productId⟩

/-- A saved row is stored as validation made it. -/
theorem Processed.stored {c : ProcessCall} {n : NormalizedTransaction} {saved : AppleTransactionSaveResult} {db db' : Db}
    {out : ProcessAnswer} (h : Processed c n saved db out db') (hs : ∀ r ∈ db.apple, Stored r) :
    ∀ r ∈ db'.apple, Stored r := by
  obtain ⟨hstrip, hstrip'⟩ := stripped_ids h.validated
  obtain ⟨hne, hne'⟩ := nonblank_ids h.validated
  intro r hr
  rcases (mem_save h.save).mp hr with rfl | ⟨hr, -⟩
  · rcases h.save.row with ⟨q, hq, -, hrow, -⟩ | ⟨id, -, hrow, -⟩ <;> rw [hrow]
    · have hstored := hs q (mem_of_lookup hq)
      refine ⟨?_, ?_, mem_supported n q hstored.productId⟩
      · rw [mergeRow_transactionId]
        exact hstored.transactionId
      · rw [mergeRow_originalTransactionId]
        exact hstored.originalTransactionId
    · exact ⟨⟨hstrip, hne⟩, ⟨hstrip', hne'⟩, n.supported⟩
  · exact hs r hr

/-- A completed claim leaves the store, or transfers the rows of a guest. -/
theorem claim_store {c : ClaimCall} {s s' : Store} {out : GuestClaimResult}
    (h : Ownership.claimGuestSubscription c s = .ok (out, s')) : s' = s ∨ ∃ g, s' = transfer c.userId g c.now s := by
  unfold Ownership.claimGuestSubscription at h
  split_ifs at h
  obtain ⟨guest, -, h⟩ := bind_eq_ok.mp h
  split at h <;> split_ifs at h
  · exact Or.inl (Prod.mk.inj (Except.ok.inj h)).2.symm
  · exact Or.inr ⟨guest.id, (Prod.mk.inj (Except.ok.inj h)).2.symm⟩

/-- **Every run keeps the rows stored.** -/
theorem stored_run {db db' : Db} {log : CallLog} (h : Run handle db log db') (hs : ∀ r ∈ db.apple, Stored r) :
    ∀ r ∈ db'.apple, Stored r := by
  refine h.invariant (P := fun x => ∀ r ∈ x.apple, Stored r) ?_ hs
  intro c x out y hx hop
  cases c with
  | process c =>
    obtain ⟨o, hcall, rfl⟩ := handle_process hop
    obtain ⟨n, saved, hprocessed⟩ := processed_of_ok hcall
    exact hprocessed.stored hx
  | claim c =>
    obtain ⟨o, hcall, rfl⟩ := handle_claim hop
    obtain ⟨store, hclaimed⟩ := claimed_of_ok hcall
    intro r hr
    rw [hclaimed.apple] at hr
    rcases claim_store hclaimed.claim with hsame | ⟨g, hmoved⟩
    · rw [hsame] at hr
      exact hx r hr
    · rw [hmoved] at hr
      rcases mem_transfer.mp hr with ⟨hr, -⟩ | ⟨q, hq, -, rfl⟩
      · exact hx r hr
      · exact stored_moved c.userId (hx q hq)

/-! ### A guest to run the model on -/

theorem guest_keys : ([(⟨7, 70, none⟩ : GuestIdentity)].flatMap GuestIdentity.keys).Nodup := by decide

theorem guestSession_keys : ([(⟨1, 7, "h", 1000, none⟩ : GuestSession)].flatMap GuestSession.keys).Nodup := by decide

/-- The user 1 with an attribution, and the guest 7 who is signed in. -/
def guestDb : Db :=
  { attributedDb with
    accounts := { sampleAccounts with guestIdentities := ⟨[⟨7, 70, none⟩], guest_keys⟩ }
    sessions := ⟨[⟨1, 7, "h", 1000, none⟩], guestSession_keys⟩ }

/-- The guest reports a purchase. -/
def guestPurchase (transactionId : String) (expiresDate : Option ℤ) : ProcessCall :=
  sampleRequest { samplePurchase with
    userId := none
    guestId := some 7
    transactionId
    originalTransactionId := transactionId
    expiresDate }

def sampleClaim : Claim := ⟨⟨1, "h", 20⟩, 20⟩

theorem claimable_of_check {c : Claim} {guest : GuestIdentity} {db : Db} (hpos : 0 < c.userId)
    (huser : (db.accounts.user? c.userId).isSome) (hsigned : getGuestByToken db.store c.tokenHash c.now false = .ok guest)
    (howns : (db.apple.rows.any fun r => r.guestId = some guest.id) = true)
    (hothers : ∀ r ∈ db.apple.rows, r.guestId = some guest.id ∨ (r.userId = some c.userId ∧ r.guestId = none))
    (hnew : ∀ r ∈ db.apple.rows, r.guestId = some guest.id →
      eventByKey db.ledger.events .apple r.transactionId = none) : Claimable c guest db := by
  refine ⟨hpos, huser, hsigned, ?_, fun r _ _ q hq _ => hothers q hq, fun r hr hg a _ e he => ?_⟩
  · obtain ⟨r, hr, hg⟩ := List.any_eq_true.mp howns
    exact ⟨r, hr, by simpa using hg⟩
  · rw [hnew r hr hg] at he
    exact absurd he (by simp)

/-- The error of a claim. -/
def claimError (c : Claim) (db : Db) : Option PurchaseError :=
  match claimGuestSubscription c db with
  | .ok _ => none
  | .error e => some e

theorem withConnection_of_error {c : Claim} {db : Db} {e : PurchaseError} (h : claimError c db = some e) :
    withConnection (claimWork c) db = (.error e, db) := by
  rw [withConnection_claim]
  unfold claimError at h
  split at h
  · exact absurd h (by simp)
  · next d hd => rw [hd, Option.some.inj h]

/-- The database after calls of the guest and the user. -/
def claimDb (l : List ProcessCall) : Db := (execute handle guestDb (l.map .process)).2

theorem claimDb_stored (l : List ProcessCall) : ∀ r ∈ (claimDb l).apple, Stored r := by
  apply stored_run (run_execute handle (l.map .process) guestDb)
  intro r hr
  exact absurd hr List.not_mem_nil

/-- A transaction id of 256 characters. -/
def longId : String := String.ofList (List.replicate 256 'g')

/-- The row of a guest's purchase with the long id. -/
def longRow : AppleRow where
  id := 1
  userId := none
  guestId := some 7
  productId := "MB.FuelNear.plus.monthly"
  transactionId := longId
  originalTransactionId := "g"
  purchaseDate := 0
  expiresDate := some 100
  gracePeriodExpiresDate := none
  environment := "Production"
  ownershipType := some "PURCHASED"
  transactionReason := some "PURCHASE"
  revocationDate := none
  revocationReason := none
  appAccountToken := none
  signedDate := some 0
  storefront := none
  offerType := none
  priceMilliunits := none
  currency := none
  economicTransactionSignedAt := none
  economicAdjustment := none
  economicNotificationSignedAt := none

def longDb : Db := { guestDb with apple := ⟨[longRow], by simp [AppleRow.keys]⟩ }

theorem textCheck_replicate {n : ℕ} (h : 255 < n) : textCheck (strip (String.ofList (List.replicate n 'g'))) = false := by
  have hspace : isSpace 'g' = false := by decide
  have hstrip : stripList (List.replicate n 'g') = List.replicate n 'g' := by
    unfold stripList List.rdropWhile
    simp [hspace]
  unfold strip textCheck
  simp only [String.toList_ofList, hstrip, List.length_replicate]
  simp [h]

/-- Two claims that fail: a purchase without an expiry is active for the guest
and an error for the user, and a transaction id of 256 characters does not fit
the creator ledger. -/
theorem claim_can_fail :
    (Claimable sampleClaim ⟨7, 70, none⟩ (claimDb [guestPurchase "g" none]) ∧
      (getGuestSubscriptionStatus 7 20 (claimDb [guestPurchase "g" none]).apple).isPlus = true ∧
      withConnection (claimWork sampleClaim) (claimDb [guestPurchase "g" none]) =
        (.error (.entitlement (.missingExpiration
          "An active Apple subscription requires expires_date for entitlement reconciliation")),
          claimDb [guestPurchase "g" none])) ∧
    Claimable sampleClaim ⟨7, 70, none⟩ longDb ∧
      ∃ e, withConnection (claimWork sampleClaim) longDb = (.error e, longDb) := by
  have hlong : Claimable sampleClaim ⟨7, 70, none⟩ longDb :=
    claimable_of_check (by decide) (by decide +kernel) (by decide +kernel) (by decide +kernel) (by decide +kernel)
      (by decide +kernel)
  refine ⟨⟨?_, by decide +kernel, withConnection_of_error (by decide +kernel)⟩, hlong, ?_⟩
  · exact claimable_of_check (by decide) (by decide +kernel) (by decide +kernel) (by decide +kernel) (by decide +kernel)
      (by decide +kernel)
  · apply hlong.refused (a := sampleAttribution) (by decide +kernel) (r := longRow) List.mem_cons_self rfl
    · exact ⟨by decide, rfl, by decide, by decide⟩
    · exact textCheck_replicate (by omega)

/-- The guest's purchase outlasts the user's own, and the user keeps the later one. -/
theorem claim_preserves_sample : ∃ db out db', withConnection (claimWork sampleClaim) db = (.ok out, db') ∧
    out.result.transferredTransactions = 1 ∧ (getGuestSubscriptionStatus 7 20 db.apple).expiresAt = some 200 ∧
    (∃ own db₁, reconcileUserPlusEntitlement 1 20 none false db.toPlusDb = .ok (own, db₁) ∧ own.expiresAt = some 100 ∧
      Extends own.expiresAt out.expiresAt) ∧ Extends (some 200) out.expiresAt ∧
    Preserved sampleClaim ⟨7, 70, none⟩ db out db' := by
  set db := claimDb [sampleRequest samplePurchase, guestPurchase "g" (some 200)] with hdb
  have hclaimable : Claimable sampleClaim ⟨7, 70, none⟩ db :=
    claimable_of_check (by decide) (by decide +kernel) (by decide +kernel) (by decide +kernel) (by decide +kernel)
      (by decide +kernel)
  have hdated : ∀ r ∈ db.apple.rows, r.expiresDate.isSome ∧ r.transactionId.toList.length ≤ 255 := by
    decide +kernel
  have horderly : Orderly sampleClaim ⟨7, 70, none⟩ db :=
    ⟨fun r hr _ => claimDb_stored _ r hr, fun r hr _ _ => (hdated r hr).1, fun _ r hr _ => (hdated r hr).2⟩
  obtain ⟨out, db', hclaim, hpreserved⟩ := (claim_preserves sampleClaim db).1 _ hclaimable horderly
  have hstatus : (getGuestSubscriptionStatus 7 20 db.apple) = ⟨true, some "MB.FuelNear.plus.monthly", some 200, .active⟩ := by
    decide +kernel
  have hown : (entitlement db.toPlusDb 1 20 none).expiresAt = some 100 := by decide +kernel
  have huser : (db.toPlusDb.accounts.user? 1).isSome := by decide +kernel
  obtain ⟨own, db₁, hreconcile⟩ := reconcile_completes 20 none false (by decide) huser
  have hguest : Extends (getGuestSubscriptionStatus 7 20 db.apple).expiresAt out.expiresAt :=
    (hpreserved.guest (congrArg GuestSubscriptionStatus.isPlus hstatus)).2
  rw [hstatus] at hguest
  refine ⟨db, out, db', hclaim, ?_, by rw [hstatus], ⟨own, db₁, hreconcile, ?_, (hpreserved.user own db₁ hreconcile).2⟩,
    hguest, hpreserved⟩
  · rw [hpreserved.result]
    decide +kernel
  · rw [(reconcile_ok hreconcile).answer]
    exact hown

end Purchase
end FuelNear

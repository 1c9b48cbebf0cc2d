/-
# Ownership under any interleaving

A commit changes only what its locks cover (`Frame`): the rows of its
original transactions, the rows of its guest, that identity and its sessions.
So what a worker has read under locks of its own stays true until it commits
(`knows_stable`), and its commit does what the save or the claim would do
alone on the store it finds (`commit_atomic`). Every interleaving is then a
run of whole saves and claims, and ownership is what they make of it.

Key definitions: `Frame`, `Knows`, `StoreCall`.
Key theorems: `commit_frame`, `knows_stable`, `commit_atomic`,
`ownership_serial`, `ownership_moves_by_claim`.
-/
import FuelNear.Ownership.Workers

namespace FuelNear
namespace Ownership

open Sql Apple Locking

variable {hash : String → ℤ} {s t : Store}

/-! ### What a commit leaves -/

/-- What a commit under the locks `K` leaves as it is. -/
structure Frame (hash : String → ℤ) (K : Set Lock) (s t : Store) : Prop where
  users : t.accounts.users = s.accounts.users
  guest : ∀ g, Lock.guest g ∉ K → t.accounts.guest? g = s.accounts.guest? g
  session : ∀ h x, sessionByHash s h = some x → Lock.guest x.guestId ∉ K → sessionByHash t h = some x
  chainRows : ∀ r : AppleRow, Lock.chain (hash r.originalTransactionId) ∉ K → (r ∈ t.apple ↔ r ∈ s.apple)
  guestRows : ∀ (r : AppleRow) g, r.guestId = some g → Lock.guest g ∉ K → (r ∈ t.apple ↔ r ∈ s.apple)

/-- A save writes a row of the original transaction and the owner it locked. -/
theorem save_frame {n : NormalizedTransaction} {t' : AppleTable} {out : AppleTransactionSaveResult}
    (h : SaveCompleted s.accounts n s.apple out t')
    (hold : ∀ r ∈ s.apple, r.transactionId = n.transactionId →
      ownerOf r = some n.owner ∧ r.originalTransactionId = n.originalTransactionId) :
    Frame hash (saveLocks hash n) s { s with apple := t' } := by
  obtain ⟨hrow, hchain⟩ := owner_saved h
  have hkeep : ∀ r : AppleRow, (r.originalTransactionId ≠ n.originalTransactionId ∨ ownerOf r ≠ some n.owner) →
      (r ∈ t' ↔ r ∈ s.apple) := by
    intro r hr
    rw [mem_save h]
    constructor
    · rintro (rfl | ⟨hm, -⟩)
      · exact absurd hr (by simp [hrow, hchain])
      · exact hm
    · intro hm
      refine Or.inr ⟨hm, fun hx => ?_⟩
      obtain ⟨h1, h2⟩ := hold r hm hx
      exact absurd hr (by simp [h1, h2])
  refine ⟨rfl, fun _ _ => rfl, fun _ _ hx _ => hx, fun r hk => hkeep r (Or.inl fun he => ?_),
    fun r g hg hk => hkeep r (Or.inr fun he => ?_)⟩
  · exact hk (by rw [he]; exact Or.inr rfl)
  · have hguest := (ownerOf_eq.mp he).2.symm.trans hg
    cases ho : n.owner with
    | user u => rw [ho] at hguest; simp [AppleSubscriptionOwner.guestId] at hguest
    | guest g' =>
      rw [ho] at hguest
      obtain rfl : g' = g := Option.some.inj hguest
      exact hk (by rw [saveLocks, ho]; exact Or.inl rfl)

theorem mem_originalIds {t : AppleTable} {g : ℤ} {o : String} :
    o ∈ originalIds t g ↔ ∃ r ∈ t, r.guestId = some g ∧ r.originalTransactionId = o := by
  simp [originalIds, Table.mem_def, and_assoc]

/-- A claim writes the rows of the guest, whose original transactions it
locked, the identity and its sessions. -/
theorem claim_frame {userId g now : ℤ} {done : List String}
    (hall : ∀ r ∈ s.apple, r.guestId = some g → r.originalTransactionId ∈ done) :
    Frame hash (claimLocks hash userId g done) s (transfer userId g now s) := by
  have hne : ∀ g', Lock.guest g' ∉ claimLocks hash userId g done → g' ≠ g := by
    rintro g' hk rfl
    exact hk (Or.inr (Or.inl rfl))
  refine ⟨rfl, fun g' hk => guest?_transfer (hne g' hk), fun h x hx hk => sessionByHash_transfer hx (hne _ hk),
    fun r hk => ?_, fun r g' hg hk => ?_⟩
  · have hout : r.originalTransactionId ∉ done := fun ho => hk (Or.inr (Or.inr ⟨_, ho, rfl⟩))
    rw [mem_transfer]
    constructor
    · rintro (⟨hr, -⟩ | ⟨q, hq, hg, rfl⟩)
      · exact hr
      · exact absurd (hall q hq hg) hout
    · exact fun hr => Or.inl ⟨hr, fun hg => hout (hall r hr hg)⟩
  · rw [mem_transfer]
    constructor
    · rintro (⟨hr, -⟩ | ⟨q, hq, -, rfl⟩)
      · exact hr
      · simp [moved] at hg
    · exact fun hr => Or.inl ⟨hr, fun hg' => hne g' hk (Option.some.inj (hg.symm.trans hg'))⟩

/-! ### What the workers know -/

/-- The claiming user exists, and the token's identity is `g`, unclaimed. -/
structure GuestKnown (s : Store) (c : ClaimCall) (g : ℤ) : Prop where
  positive : 0 < c.userId
  user : (s.accounts.user? c.userId).isSome
  guest : ∃ i, getGuestByToken s c.tokenHash c.now true = .ok i ∧ i.claimedUserId = none ∧ i.id = g

/-- The original transactions of the guest, of which those done have no third owner. -/
structure ChainsKnown (s : Store) (c : ClaimCall) (g : ℤ) (done ids : List String) : Prop where
  nonempty : ids ≠ []
  all : ∀ o, o ∈ ids ↔ o ∈ originalIds s.apple g
  alone : ∀ o ∈ done, ownedByThird c.userId g o s.apple = false

/-- What a worker has read and still relies on. -/
def Knows (s : Store) : Worker → Prop
  | .save _ .start => True
  | .save n (.matched r) =>
    ownerReady s.accounts n = true ∧ lookup n.transactionId s.apple = some r ∧ identityDiffers n r = false
  | .save n .clear => ownerReady s.accounts n = true ∧ ownedByAnother n s.apple = false
  | .save n _ => ownerReady s.accounts n = true
  | .notification _ _ => True
  | .claim _ .start => True
  | .claim c .user => 0 < c.userId ∧ (s.accounts.user? c.userId).isSome
  | .claim c (.guest g) => GuestKnown s c g
  | .claim c (.next g done todo) => GuestKnown s c g ∧ ChainsKnown s c g done (done ++ todo)
  | .claim c (.locked g done o todo) => GuestKnown s c g ∧ ChainsKnown s c g done (done ++ o :: todo)
  | .claim c (.ready g done) => GuestKnown s c g ∧ ChainsKnown s c g done done

theorem ownedByThird_eq_false {userId g : ℤ} {o : String} {t : AppleTable} : ownedByThird userId g o t = false ↔
    ∀ r ∈ t, r.originalTransactionId = o → r.guestId = some g ∨ (r.userId = some userId ∧ r.guestId = none) := by
  unfold ownedByThird
  rw [Option.isSome_eq_false_iff, Option.isNone_iff_eq_none, Table.find?_eq_none]
  refine forall_congr' fun r => forall_congr' fun _ => ?_
  rw [decide_eq_false_iff_not, not_and_not_right]

/-- An identity that a token gives is the one of its session. -/
theorem getGuestByToken_ok {c : ClaimCall} {i : GuestIdentity}
    (h : getGuestByToken s c.tokenHash c.now true = .ok i) :
    ∃ x, sessionByHash s c.tokenHash = some x ∧ s.accounts.guest? x.guestId = some i ∧ i.id = x.guestId := by
  unfold getGuestByToken at h
  cases hx : sessionByHash s c.tokenHash with
  | none => rw [hx] at h; simp at h
  | some x =>
    rw [hx] at h
    dsimp only at h
    cases hi : s.accounts.guest? x.guestId with
    | none => rw [hi] at h; simp at h
    | some i' =>
      rw [hi] at h
      dsimp only at h
      split_ifs at h
      obtain rfl : i' = i := Except.ok.inj h
      exact ⟨x, rfl, hi, by simpa using Table.find?_prop hi⟩

section Stable

variable {K : Set Lock} (hf : Frame hash K s t)
include hf

theorem Frame.user (u : ℤ) : t.accounts.user? u = s.accounts.user? u := by
  unfold Accounts.user?
  rw [hf.users]

theorem ownerReady_stable {n : NormalizedTransaction} (hk : ownerLock n.owner ∉ K)
    (h : ownerReady s.accounts n = true) : ownerReady t.accounts n = true := by
  unfold ownerReady ownerActive at h ⊢
  unfold NormalizedTransaction.userId NormalizedTransaction.guestId at h ⊢
  cases ho : n.owner with
  | user u =>
    rw [ho] at h
    simpa [AppleSubscriptionOwner.userId, AppleSubscriptionOwner.guestId, hf.user] using h
  | guest g =>
    rw [ho] at h hk
    simpa [AppleSubscriptionOwner.userId, AppleSubscriptionOwner.guestId, hf.guest g hk] using h

theorem lookup_stable {n : NormalizedTransaction} {r : AppleRow}
    (hk : Lock.chain (hash n.originalTransactionId) ∉ K) (h : lookup n.transactionId s.apple = some r)
    (hsame : identityDiffers n r = false) : lookup n.transactionId t.apple = some r := by
  have hx := transactionId_of_lookup h
  have hchain := (identityDiffers_eq_false hsame).2
  rw [← hx, ← mem_iff_lookup, hf.chainRows r (by rwa [hchain])]
  exact mem_of_lookup h

theorem ownedByAnother_stable {n : NormalizedTransaction} (hk : Lock.chain (hash n.originalTransactionId) ∉ K)
    (h : ownedByAnother n s.apple = false) : ownedByAnother n t.apple = false := by
  rw [ownedByAnother_eq_false] at h ⊢
  intro r hr hchain
  exact h r ((hf.chainRows r (by rwa [hchain])).mp hr) hchain

theorem guestKnown_stable {c : ClaimCall} {g : ℤ} (hk : Lock.guest g ∉ K) (h : GuestKnown s c g) :
    GuestKnown t c g := by
  obtain ⟨i, hi, hfree, rfl⟩ := h.guest
  obtain ⟨x, hx, hg, hid⟩ := getGuestByToken_ok hi
  refine ⟨h.positive, by rw [hf.user]; exact h.user, i, ?_, hfree, rfl⟩
  rw [hid] at hk
  rw [← hi]
  unfold getGuestByToken
  rw [hf.session _ x hx hk, hx]
  dsimp only
  rw [hf.guest _ hk]

theorem chainsKnown_stable {c : ClaimCall} {g : ℤ} {done ids : List String} (hk : Lock.guest g ∉ K)
    (hc : ∀ o ∈ done, Lock.chain (hash o) ∉ K) (h : ChainsKnown s c g done ids) : ChainsKnown t c g done ids := by
  refine ⟨h.nonempty, fun o => ?_, fun o ho => ?_⟩
  · rw [h.all, mem_originalIds, mem_originalIds]
    refine exists_congr fun r => ?_
    constructor
    · rintro ⟨hr, hg, he⟩
      exact ⟨(hf.guestRows r g hg hk).mpr hr, hg, he⟩
    · rintro ⟨hr, hg, he⟩
      exact ⟨(hf.guestRows r g hg hk).mp hr, hg, he⟩
  · have halone := ownedByThird_eq_false.mp (h.alone o ho)
    rw [ownedByThird_eq_false]
    intro r hr he
    exact halone r ((hf.chainRows r (by rw [he]; exact hc o ho)).mp hr) he

/-- What a worker knows, no commit under other locks touches. -/
theorem knows_stable {m : Worker} (hd : Disjoint K (held hash m)) (h : Knows s m) : Knows t m := by
  have hfree : ∀ k ∈ held hash m, k ∉ K := fun k hk => Set.disjoint_right.mp hd hk
  cases m with
  | notification m point => trivial
  | save n point =>
    cases point with
    | start => trivial
    | owner => exact ownerReady_stable hf (hfree _ rfl) h
    | chain => exact ownerReady_stable hf (hfree _ (Or.inl rfl)) h
    | unmatched => exact ownerReady_stable hf (hfree _ (Or.inl rfl)) h
    | matched r =>
      obtain ⟨h1, h2, h3⟩ := h
      exact ⟨ownerReady_stable hf (hfree _ (Or.inl rfl)) h1, lookup_stable hf (hfree _ (Or.inr rfl)) h2 h3, h3⟩
    | clear =>
      obtain ⟨h1, h2⟩ := h
      exact ⟨ownerReady_stable hf (hfree _ (Or.inl rfl)) h1, ownedByAnother_stable hf (hfree _ (Or.inr rfl)) h2⟩
  | claim c point =>
    cases point with
    | start => trivial
    | user => exact ⟨h.1, by rw [hf.user]; exact h.2⟩
    | guest g => exact guestKnown_stable hf (hfree _ (Or.inr (Or.inl rfl))) h
    | next g done todo =>
      have hg := hfree (.guest g) (Or.inr (Or.inl rfl))
      exact ⟨guestKnown_stable hf hg h.1,
        chainsKnown_stable hf hg (fun o ho => hfree _ (Or.inr (Or.inr ⟨o, ho, rfl⟩))) h.2⟩
    | locked g done o todo =>
      have hg := hfree (.guest g) (Or.inr (Or.inl rfl))
      exact ⟨guestKnown_stable hf hg h.1, chainsKnown_stable hf hg
        (fun o' ho => hfree _ (Or.inr (Or.inr ⟨o', List.mem_cons_of_mem _ ho, rfl⟩))) h.2⟩
    | ready g done =>
      have hg := hfree (.guest g) (Or.inr (Or.inl rfl))
      exact ⟨guestKnown_stable hf hg h.1,
        chainsKnown_stable hf hg (fun o ho => hfree _ (Or.inr (Or.inr ⟨o, ho, rfl⟩))) h.2⟩

end Stable

/-! ### A commit is a whole call -/

/-- The pending UPDATE of a save completes it. -/
theorem merge_completed {a : Accounts} {n : NormalizedTransaction} {r : AppleRow} {t t' : AppleTable}
    {out : AppleTransactionSaveResult} (hrow : lookup n.transactionId t = some r)
    (hsame : identityDiffers n r = false) (h : saveExisting n r t = .ok (out, t')) : SaveCompleted a n t out t' := by
  rw [saveExisting_eq t hsame] at h
  obtain ⟨rfl, rfl⟩ := Prod.mk.inj (Except.ok.inj h)
  exact .merged hrow hsame

/-- The unique index: the transaction of an inserted row was not there. -/
theorem lookup_of_insertRow {a : Accounts} {r : AppleRow} {t t' : AppleTable} (h : insertRow a r t = .ok t') :
    lookup r.transactionId t = none := by
  cases hl : lookup r.transactionId t with
  | none => rfl
  | some q =>
    have hq := transactionId_of_lookup hl
    exact absurd (show Sum.inr r.transactionId ∈ r.keys by simp [AppleRow.keys])
      (Table.insert?_fresh (insertRow_ok h) (mem_of_lookup hl) (by simp [AppleRow.keys, hq]))

/-- The pending INSERT of a save completes it. -/
theorem insert_completed {a : Accounts} {n : NormalizedTransaction} {t t' : AppleTable}
    (halone : ownedByAnother n t = false) (h : insertRow a (insertedRow (nextId t) n) t = .ok t') :
    SaveCompleted a n t ⟨true, true, insertedRow (nextId t) n, (n.reduction none none).incomingAccepted⟩ t' := by
  exact .inserted (lookup_of_insertRow h) halone (insertRow_ok h)

/-- A save that completes is a transaction of a worker that is alone. -/
theorem save_moves {n : NormalizedTransaction} {t' : AppleTable} {out : AppleTransactionSaveResult}
    (hready : ownerReady s.accounts n = true) (h : SaveCompleted s.accounts n s.apple out t') :
    ∃ l, Relation.ReflTransGen (Move s) (.save n .start) l ∧ Commit s l { s with apple := t' } := by
  have hchain : Relation.ReflTransGen (Move s) (.save n .start) (.save n .chain) :=
    .tail (.single (.lockOwner hready)) .lockChain
  cases h with
  | @merged r found same => exact ⟨_, hchain.tail (.found found same), .merge (saveExisting_eq s.apple same)⟩
  | inserted new alone inserts =>
    refine ⟨_, (hchain.tail (.notFound new)).tail (.noOther alone), .insert ?_⟩
    have huser : (insertedRow (nextId s.apple) n).userId.all (fun u => (s.accounts.user? u).isSome) = true := by
      rw [ownerReady, Bool.and_eq_true] at hready
      exact hready.1
    rw [insertRow, if_pos huser, inserts]

theorem commit_frame {l : Worker} (hk : Knows s l) (h : Commit s l t) : Frame hash (held hash l) s t := by
  cases h with
  | @merge n r out t' save =>
    obtain ⟨-, hrow, hsame⟩ := hk
    apply save_frame (merge_completed hrow hsame save)
    intro q hq hx
    rw [mem_iff_lookup, hx, hrow] at hq
    rw [← Option.some.inj hq]
    exact identityDiffers_eq_false hsame
  | @insert n t' save =>
    apply save_frame (insert_completed hk.2 save)
    intro q hq hx
    rw [mem_iff_lookup, hx] at hq
    have hnone : lookup n.transactionId s.apple = none := lookup_of_insertRow save
    rw [hnone] at hq
    simp at hq
  | @claim c g done =>
    apply claim_frame
    intro r hr hg
    exact (hk.2.all _).mpr (mem_originalIds.mpr ⟨r, hr, hg, rfl⟩)

/-- A whole save or claim. -/
inductive StoreCall where
  | save (n : NormalizedTransaction)
  | claim (c : ClaimCall)

inductive StoreAnswer where
  | saved (result : AppleTransactionSaveResult)
  | claimed (result : GuestClaimResult)

inductive StoreError where
  | process (error : ProcessError)
  | claim (error : ClaimError)

def storeCall : StoreCall → Store → Except StoreError (StoreAnswer × Store)
  | .save n, s =>
    match processTransaction n s with
    | .ok (out, t) => .ok (.saved out, t)
    | .error e => .error (.process e)
  | .claim c, s =>
    match claimGuestSubscription c s with
    | .ok (out, t) => .ok (.claimed out, t)
    | .error e => .error (.claim e)

/-- With the owner ready, the whole save is the save of the row. -/
theorem processTransaction_ok {n : NormalizedTransaction} {t' : AppleTable} {out : AppleTransactionSaveResult}
    (hready : ownerReady s.accounts n = true) (h : (match lookup n.transactionId s.apple with
      | some r => saveExisting n r s.apple
      | none => saveNew s.accounts n s.apple) = .ok (out, t')) :
    processTransaction n s = .ok (out, { s with apple := t' }) := by
  unfold ownerReady at hready
  rw [Bool.and_eq_true] at hready
  have huser : (n.userId.any fun u => (s.accounts.user? u).isNone) = false := by
    cases hu : n.userId with
    | none => rfl
    | some u => simpa [hu, Option.isSome_iff_ne_none] using hready.1
  have hsave : saveNormalized s.accounts n s.apple = .ok (out, t') := by
    unfold saveNormalized
    rw [if_pos hready.2]
    exact h
  unfold processTransaction
  rw [huser, hsave]
  rfl

/-- The original transactions of a claim, one after the other. -/
theorem chains_moves {c : ClaimCall} {g : ℤ} : ∀ {todo done : List String},
    (∀ o ∈ todo, ownedByThird c.userId g o s.apple = false) →
    Relation.ReflTransGen (Move s) (.claim c (.next g done todo)) (.claim c (.next g (todo.reverse ++ done) []))
  | [], done, _ => .refl
  | o :: todo, done, h => by
    have ih : Relation.ReflTransGen (Move s) (.claim c (.next g (o :: done) todo))
        (.claim c (.next g (todo.reverse ++ o :: done) [])) :=
      chains_moves fun x hx => h x (List.mem_cons_of_mem o hx)
    rw [List.reverse_cons, List.append_assoc]
    exact .head .lockNext (.head (.checkNext (h o List.mem_cons_self)) ih)

/-- A claim that completes has nothing to do, or is a transaction of a worker
that is alone. -/
theorem claim_moves {c : ClaimCall} {out : GuestClaimResult} (h : claimGuestSubscription c s = .ok (out, t)) :
    t = s ∨ ∃ g done, Relation.ReflTransGen (Move s) (.claim c .start) (.claim c (.ready g done)) ∧
      t = transfer c.userId g c.now s := by
  unfold claimGuestSubscription at h
  split_ifs at h with hpos huser
  obtain ⟨i, hi, h⟩ := bind_eq_ok.mp h
  cases hclaimed : i.claimedUserId with
  | some u =>
    rw [hclaimed] at h
    dsimp only at h
    split_ifs at h
    exact Or.inl (Prod.mk.inj (Except.ok.inj h)).2.symm
  | none =>
    rw [hclaimed] at h
    dsimp only at h
    split_ifs at h with hids hthird
    have hne : originalIds s.apple i.id ≠ [] := by simpa using hids
    have halone : ∀ o ∈ originalIds s.apple i.id, ownedByThird c.userId i.id o s.apple = false := by
      simpa using hthird
    have huser : (s.accounts.user? c.userId).isSome := by simpa [Option.isSome_iff_ne_none] using huser
    have hstart : Relation.ReflTransGen (Move s) (.claim c .start)
        (.claim c (.next i.id [] (originalIds s.apple i.id))) :=
      .tail (.tail (.single (.lockUser (not_le.mp hpos) huser)) (.lockGuest hi hclaimed))
        (.selectChains (fun _ => Iff.rfl) hne)
    refine Or.inr ⟨i.id, _, (hstart.trans (chains_moves halone)).tail (.selectRows hne), ?_⟩
    exact (Prod.mk.inj (Except.ok.inj h)).2.symm

/-- With the guest known and every original transaction cleared, the whole
claim is the transfer. -/
theorem claimGuestSubscription_ok {c : ClaimCall} {g : ℤ} {done : List String} (hg : GuestKnown s c g)
    (hc : ChainsKnown s c g done done) : ∃ transferred, claimGuestSubscription c s =
      .ok (⟨true, g, c.userId, transferred⟩, transfer c.userId g c.now s) := by
  obtain ⟨i, hi, hfree, rfl⟩ := hg.guest
  have hne : (originalIds s.apple i.id).isEmpty = false := by
    obtain ⟨o, ho⟩ := List.exists_mem_of_ne_nil _ hc.nonempty
    rw [List.isEmpty_eq_false_iff]
    exact List.ne_nil_of_mem ((hc.all o).mp ho)
  have hany : ((originalIds s.apple i.id).any fun o => ownedByThird c.userId i.id o s.apple) = false := by
    rw [List.any_eq_false]
    intro o ho
    rw [hc.alone o ((hc.all o).mpr ho)]
    simp
  unfold claimGuestSubscription
  rw [if_neg (not_le.mpr hg.positive), if_neg (by simp [Option.isSome_iff_ne_none.mp hg.user]), hi]
  simp only [bind, Except.bind, hfree, hne, hany, Bool.false_eq_true, if_false]
  exact ⟨_, rfl⟩

/-- **A commit is a whole call.** What a commit does to the store, the save or
the claim does alone on the store that the commit finds. -/
theorem commit_atomic {l : Worker} (hk : Knows s l) (h : Commit s l t) :
    ∃ call out, storeCall call s = .ok (out, t) := by
  cases h with
  | @merge n r out t' save =>
    obtain ⟨hready, hrow, -⟩ := hk
    have h : processTransaction n s = .ok (out, { s with apple := t' }) :=
      processTransaction_ok hready (by rw [hrow]; exact save)
    exact ⟨.save n, .saved out, by rw [storeCall, h]⟩
  | @insert n t' save =>
    have hnew : saveNew s.accounts n s.apple = .ok (⟨true, true, insertedRow (nextId s.apple) n,
        (n.reduction none none).incomingAccepted⟩, t') := by
      unfold saveNew
      rw [reduce_normalized]
      dsimp only
      rw [if_neg (by simp [hk.2])]
      show (insertRow s.accounts (insertedRow (nextId s.apple) n) s.apple).bind _ = _
      rw [save]
      rfl
    have hnone : lookup n.transactionId s.apple = none := lookup_of_insertRow save
    have h := processTransaction_ok hk.1 (by rw [hnone]; exact hnew)
    exact ⟨.save n, .saved _, by rw [storeCall, h]⟩
  | @claim c g done =>
    obtain ⟨transferred, h⟩ := claimGuestSubscription_ok hk.1 hk.2
    exact ⟨.claim c, .claimed _, by rw [storeCall, h]⟩

/-! ### Every interleaving -/

/-- A statement leaves its worker with what it needs to know there. -/
theorem knows_move {l l' : Worker} (hk : Knows s l) (h : Move s l l') : Knows s l' := by
  cases h with
  | lockOwner ready => exact ready
  | lockChain => exact hk
  | found row same => exact ⟨hk, row, same⟩
  | notFound row => exact hk
  | noOther alone => exact ⟨hk, alone⟩
  | byTransaction row => trivial
  | byOriginal row => trivial
  | noToken absent one valid => trivial
  | byUserToken token => trivial
  | byGuestToken token one valid => trivial
  | lockUser positive user => exact ⟨positive, user⟩
  | lockGuest guest free => exact ⟨hk.1, hk.2, _, guest, free, rfl⟩
  | selectChains rows nonempty => exact ⟨hk, nonempty, rows, by simp⟩
  | lockNext => exact hk
  | @checkNext c g done o todo alone =>
    obtain ⟨hg, hne, hall, halone⟩ := hk
    refine ⟨hg, by simp, fun x => ?_, fun x hx => ?_⟩
    · rw [← hall]
      simp only [List.cons_append, List.mem_cons, List.mem_append]
      tauto
    · rcases List.mem_cons.mp hx with rfl | hx
      · exact alone
      · exact halone x hx
  | selectRows rows => simpa [Knows] using hk

theorem owned_commit {l : Worker} (ho : Owned s.apple) (hk : Knows s l) (h : Commit s l t) : Owned t.apple := by
  cases h with
  | merge save => exact owned_save (a := s.accounts) ho (merge_completed hk.2.1 hk.2.2 save)
  | insert save => exact owned_save (a := s.accounts) ho (insert_completed hk.2 save)
  | claim => exact owned_transfer ho

theorem lawful (hash : String → ℤ) : Lawful (protocol hash) (fun s => Owned s.apple) Knows where
  start l hl := by
    cases l with
    | save n point => cases point <;> first | exact ⟨rfl, fun _ => trivial⟩ | exact hl.elim
    | notification m point => exact ⟨rfl, fun _ => trivial⟩
    | claim c point => cases point <;> first | exact ⟨rfl, fun _ => trivial⟩ | exact hl.elim
  move _ _ _ _ hk h := knows_move hk h
  commit _ _ _ ho hk h := owned_commit ho hk h
  stable _ _ _ _ _ hk h hm hd := knows_stable (commit_frame hk h) hd hm

variable {ι : Type*} [DecidableEq ι] {x y : System Store Worker ι}

/-- **Serialization.** Whatever the interleaving, the store went through a run
of whole saves and claims. -/
theorem ownership_serial (hash : String → ℤ) (hx : x.Idle) (ho : Owned x.store.apple)
    (h : Reaches (protocol hash) x y) : ∃ log, Run storeCall x.store log y.store :=
  (lawful hash).serial (fun _ _ _ _ hk hc => commit_atomic hk hc) (coherent_of_idle hx ho) h

/-- The owner of every stored row is kept by a commit, but for the rows that a
claim moves from its guest to its user. -/
theorem owner_commit {l : Worker} (ho : Owned s.apple) (hk : Knows s l) (h : Commit s l t) {r : AppleRow}
    (hr : r ∈ s.apple) : ∃ q ∈ t.apple, q.id = r.id ∧ (ownerOf q = ownerOf r ∨
      ∃ c g done n, l = .claim c (.ready g done) ∧ claimGuestSubscription c s = .ok (⟨true, g, c.userId, n⟩, t) ∧
        ownerOf r = some (.guest g) ∧ ownerOf q = some (.user c.userId)) := by
  cases h with
  | merge save =>
    obtain ⟨q, hq, hid, hown⟩ := owner_save (a := s.accounts) (merge_completed hk.2.1 hk.2.2 save) hr
    exact ⟨q, hq, hid, Or.inl hown⟩
  | insert save =>
    obtain ⟨q, hq, hid, hown⟩ := owner_save (a := s.accounts) (insert_completed hk.2 save) hr
    exact ⟨q, hq, hid, Or.inl hown⟩
  | @claim c g done =>
    obtain ⟨q, hq, hid, hown⟩ := owner_transfer c.userId g c.now ho hr
    obtain ⟨n, hclaim⟩ := claimGuestSubscription_ok hk.1 hk.2
    exact ⟨q, hq, hid, hown.imp_right fun hmoved => ⟨c, g, done, n, rfl, hclaim, hmoved⟩⟩

/-- **Ownership is unique and moves only by claim.** In every state that any
interleaving of saves, notifications and claims reaches from a table with
unique owners, every row has exactly one owner and the rows of one original
transaction the same; and in the next step, whichever it is, every row is
kept, with its owner, unless the step is the commit of a successful claim and
the row goes from the claimed guest to the claiming user. The tables are those
of a run of whole saves and claims. -/
theorem ownership_moves_by_claim (hash : String → ℤ) (hx : x.Idle) (ho : Owned x.store.apple)
    (h : Reaches (protocol hash) x y) :
    (∀ r ∈ y.store.apple, r.userId.isSome ≠ r.guestId.isSome) ∧
    (∀ r ∈ y.store.apple, ∀ q ∈ y.store.apple, r.originalTransactionId = q.originalTransactionId →
      r.userId = q.userId ∧ r.guestId = q.guestId) ∧
    (∀ a z, Step (protocol hash) y a z → ∀ r ∈ y.store.apple, ∃ q ∈ z.store.apple, q.id = r.id ∧
      ((q.userId = r.userId ∧ q.guestId = r.guestId) ∨
        ∃ w c g done n, a = .commit w (.claim c (.ready g done)) ∧
          claimGuestSubscription c y.store = .ok (⟨true, g, c.userId, n⟩, z.store) ∧
          (r.userId = none ∧ r.guestId = some g) ∧ (q.userId = some c.userId ∧ q.guestId = none))) ∧
    ∃ log, Run storeCall x.store log y.store := by
  have hcoh := (lawful hash).reaches (coherent_of_idle hx ho) h
  have howned : Owned y.store.apple := hcoh.inv
  refine ⟨fun r hr => ownerOf_isSome.mp (howned.single r hr), fun r hr q hq hrq => ?_, fun a z hstep r hr => ?_,
    ownership_serial hash hx ho h⟩
  · exact columns_of_owner (howned.single q hq) (howned.chain r hr q hq hrq)
  · rcases hstep.store_eq with hsame | ⟨w, l, rfl, hl, hcommit⟩
    · rw [hsame]
      exact ⟨r, hr, rfl, Or.inl ⟨rfl, rfl⟩⟩
    · obtain ⟨q, hq, hid, hown⟩ := owner_commit howned (hcoh.knows w l hl) hcommit hr
      refine ⟨q, hq, hid, ?_⟩
      rcases hown with hown | ⟨c, g, done, n, rfl, hclaim, hrg, hqu⟩
      · exact Or.inl (columns_of_owner (howned.single r hr) hown)
      · exact Or.inr ⟨w, c, g, done, n, rfl, hclaim, ownerOf_eq.mp hrg, ownerOf_eq.mp hqu⟩

/-- The user 1 and the guest 7. -/
def guestAccounts : Accounts := ⟨sampleAccounts.users, ⟨[⟨7, 1#128, none⟩], by decide⟩⟩

/-- The guest has a session and a purchase; no request is running. -/
def sampleSystem : System Store Worker ℕ where
  store :=
    { accounts := guestAccounts
      sessions := ⟨[⟨1, 7, "h", 1000, none⟩], by decide⟩
      apple := (execute saveAppleTransaction .empty
        [(guestAccounts, { samplePurchase with userId := none, guestId := some 7 })]).2 }
  workers _ := none

def sampleClaim : ClaimCall := ⟨1, "h", 0⟩

theorem sampleSystem_owned : Owned sampleSystem.store.apple :=
  owned_saves (run_execute saveAppleTransaction _ .empty) owned_empty

/-- The claim is about to commit. -/
def claimingSystem : System Store Worker ℕ := sampleSystem.put 0 (some (.claim sampleClaim (.ready 7 ["t"])))

/-- The statements of the claim. -/
theorem sampleClaim_moves :
    Relation.ReflTransGen (Move sampleSystem.store) (.claim sampleClaim .start) (.claim sampleClaim (.ready 7 ["t"])) := by
  have hguest : getGuestByToken sampleSystem.store "h" 0 true = .ok ⟨7, 1#128, none⟩ := by decide +kernel
  have hids : originalIds sampleSystem.store.apple 7 = ["t"] := by decide +kernel
  have h1 : Move sampleSystem.store (.claim sampleClaim .start) (.claim sampleClaim .user) :=
    .lockUser (by decide) (by decide +kernel)
  have h2 : Move sampleSystem.store (.claim sampleClaim .user) (.claim sampleClaim (.guest 7)) :=
    Move.lockGuest (c := sampleClaim) (i := ⟨7, 1#128, none⟩) hguest rfl
  have h3 : Move sampleSystem.store (.claim sampleClaim (.guest 7)) (.claim sampleClaim (.next 7 [] ["t"])) :=
    .selectChains (by simp [hids]) (by simp)
  have h4 : Move sampleSystem.store (.claim sampleClaim (.next 7 [] ["t"]))
      (.claim sampleClaim (.locked 7 [] "t" [])) := .lockNext
  have h5 : Move sampleSystem.store (.claim sampleClaim (.locked 7 [] "t" []))
      (.claim sampleClaim (.next 7 ["t"] [])) := .checkNext (by decide +kernel)
  have h6 : Move sampleSystem.store (.claim sampleClaim (.next 7 ["t"] []))
      (.claim sampleClaim (.ready 7 ["t"])) := .selectRows (by simp [hids])
  exact .tail (.tail (.tail (.tail (.tail (.single h1) h2) h3) h4) h5) h6

/-- One hash for every original transaction. -/
theorem claimingSystem_reached : Reaches (protocol fun _ => 0) sampleSystem claimingSystem := by
  apply reaches_alone (l := .claim sampleClaim .start) (fun _ => rfl) 0 trivial
  exact sampleClaim_moves

/-- The commit of the claim keeps the purchase and gives it to the user. -/
theorem ownership_moves_by_claim_sample : ∃ z,
    Step (protocol fun _ => 0) claimingSystem (.commit 0 (.claim sampleClaim (.ready 7 ["t"]))) z ∧
    ∀ r ∈ claimingSystem.store.apple, ∃ q ∈ z.store.apple, q.id = r.id ∧
      ((q.userId = r.userId ∧ q.guestId = r.guestId) ∨
        (r.userId = none ∧ r.guestId = some 7) ∧ (q.userId = some 1 ∧ q.guestId = none)) := by
  have hcommit := Step.commit (P := protocol fun _ => 0) (s := claimingSystem) (w := 0)
    (l := .claim sampleClaim (.ready 7 ["t"])) (by simp [claimingSystem, System.put]) .claim
  refine ⟨_, hcommit, fun r hr => ?_⟩
  obtain ⟨-, -, hnext, -⟩ :=
    ownership_moves_by_claim (fun _ => 0) (fun _ => rfl) sampleSystem_owned claimingSystem_reached
  obtain ⟨q, hq, hid, hown | ⟨w, c, g, done, n, ha, -, hr', hq'⟩⟩ := hnext _ _ hcommit r hr
  · exact ⟨q, hq, hid, Or.inl hown⟩
  · cases ha
    exact ⟨q, hq, hid, Or.inr ⟨hr', hq'⟩⟩

end Ownership
end FuelNear

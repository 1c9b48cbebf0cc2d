/-
# The referral graph over whole runs

Whatever calls come in whatever order, the rows of `referrals` are the edges
that `users.referred_by_user_id` names, nobody refers themselves, every row
was made within a day of the registration and with the code of its referrer,
and a referral is valid exactly if there is a reward for it, which is its
referrer's (`SoundNetwork`).

Every call but a deletion is a sequence of changes of a few kinds (`Change`);
the invariants are proved of these and of `deleteUser`.

Key definitions: `Referenced`, `Edges`, `Paid`, `SoundNetwork`, `Change`.
Key theorems: `Change.sound`, `deleteUser_sound`, `processBatch_spec`, `changes_of_ok`, `referral_graph`.
-/
import FuelNear.Referrals.Network
import FuelNear.History

namespace FuelNear
namespace Referrals

open Sql Plus Auth History

/-! ### What holds at any time -/

/-- The edge of a referral, from its referrer to the user it names. -/
def ReferralRow.Links (r : ReferralRow) (referrerId referredId : ℤ) : Prop :=
  r.referrerUserId = referrerId ∧ r.referredUserId = some referredId

/-- The foreign keys. -/
structure Referenced (s : Network) : Prop where
  inviter : References s.users.rows (·.referredByUserId) s.users.rows (·.id)
  referrer : References s.referrals.rows (fun r => some r.referrerUserId) s.users.rows (·.id)
  referred : References s.referrals.rows (·.referredUserId) s.users.rows (·.id)
  payee : References s.rewards.rows (fun w => some w.userId) s.users.rows (·.id)
  rewarded : References s.rewards.rows (·.referralId) s.referrals.rows (·.id)

/-- The rows and `referred_by_user_id` are one graph, of edges made within a day. -/
structure Edges (s : Network) : Prop where
  edge : ∀ m ∈ s.users, ∀ i, m.referredByUserId = some i ↔ ∃ r ∈ s.referrals, r.Links i m.id
  irreflexive : ∀ r ∈ s.referrals, ¬ r.Links r.referrerUserId r.referrerUserId
  code : ∀ r ∈ s.referrals, ∀ i ∈ s.users, r.referrerUserId = i.id → r.referralCodeUsed = i.referralCode
  window : ∀ r ∈ s.referrals, ∀ m ∈ s.users, r.referredUserId = some m.id → r.createdAt ≤ m.createdAt + day
  deleted : ∀ r ∈ s.referrals, r.referredUserId = none ↔ r.referredUserDeleted = true

/-- A referral is valid if and only if it is rewarded. -/
structure Paid (s : Network) : Prop where
  history : ∀ r ∈ s.referrals, r.referredUserDeleted = true → r.status = .valid
  stamped : ∀ r ∈ s.referrals, r.status = .valid ↔ r.validatedAt.isSome
  rewarded : ∀ r ∈ s.referrals, r.status = .valid ↔ ∃ w ∈ s.rewards, w.referralId = some r.id
  payee : ∀ r ∈ s.referrals, ∀ w ∈ s.rewards, w.referralId = some r.id → w.userId = r.referrerUserId

structure SoundNetwork (s : Network) : Prop where
  keys : Referenced s
  edges : Edges s
  paid : Paid s

theorem soundNetwork_empty : SoundNetwork Network.empty := by
  have hrows : ∀ r : ReferralRow, r ∉ Network.empty.referrals := fun _ => List.not_mem_nil
  have husers : ∀ m : Member, m ∉ Network.empty.users := fun _ => List.not_mem_nil
  exact ⟨⟨References.nil, References.nil, References.nil, References.nil, References.nil⟩,
    ⟨fun m hm => absurd hm (husers m), fun r hr => absurd hr (hrows r), fun r hr => absurd hr (hrows r),
      fun r hr => absurd hr (hrows r), fun r hr => absurd hr (hrows r)⟩,
    ⟨fun r hr => absurd hr (hrows r), fun r hr => absurd hr (hrows r), fun r hr => absurd hr (hrows r),
      fun r hr => absurd hr (hrows r)⟩⟩

/-! ### The kinds of changes -/

/-- What a call leaves of a user. -/
structure SameMember (m m' : Member) : Prop where
  id : m'.id = m.id
  referralCode : m'.referralCode = m.referralCode
  referredByUserId : m'.referredByUserId = m.referredByUserId
  createdAt : m'.createdAt = m.createdAt

/-- A new row, of a referrer and a user it brought within a day. -/
structure NewRow (i m : Member) (r : ReferralRow) : Prop where
  links : r.Links i.id m.id
  other : i.id ≠ m.id
  code : r.referralCodeUsed = i.referralCode
  window : r.createdAt ≤ m.createdAt + day
  pending : r.status = .pending
  present : r.referredUserDeleted = false
  unstamped : r.validatedAt = none

inductive Change (s t : Network) : Prop where
  /-- an account changes, in other columns -/
  | account (users : List.Forall₂ SameMember s.users.rows t.users.rows) (referrals : t.referrals = s.referrals)
      (rewards : t.rewards = s.rewards)
  /-- a user that nobody referred -/
  | enrol {m} (users : s.users.insert? m = some t.users) (alone : m.referredByUserId = none)
      (referrals : t.referrals = s.referrals) (rewards : t.rewards = s.rewards)
  /-- a user with its referral -/
  | invite {i m r} (users : s.users.insert? m = some t.users) (inviter : i ∈ s.users)
      (named : m.referredByUserId = some i.id) (row : s.referrals.insert? r = some t.referrals) (new : NewRow i m r)
      (rewards : t.rewards = s.rewards)
  /-- a user applies a code -/
  | refer {i m r} (user : m ∈ s.users) (inviter : i ∈ s.users) (unreferred : s.isReferred m = false)
      (users : t.users = (s.refer i.id m.id).users) (row : s.referrals.insert? r = some t.referrals) (new : NewRow i m r)
      (rewards : t.rewards = s.rewards)
  /-- a reward that is for no referral -/
  | grant {w} (free : w.referralId = none) (user : ∃ m ∈ s.users, m.id = w.userId)
      (inserts : s.rewards.insert? w = some t.rewards) (users : t.users = s.users) (referrals : t.referrals = s.referrals)
  | skip {now id reason} (write : s.apply now (.skip id reason) = some t)
  /-- a referral becomes valid, with its reward -/
  | reward {now r w u} (row : r ∈ s.referrals) (pending : r.status = .pending) (for_row : w.referralId = some r.id)
      (payee : w.userId = r.referrerUserId) (validates : s.apply now (.validate r.id) = some u)
      (inserts : u.apply now (.reward w) = some t)
  /-- or with the reward that is there -/
  | found {now r w} (row : r ∈ s.referrals) (reward : w ∈ s.rewards) (for_row : w.referralId = some r.id)
      (validates : s.apply now (.validate r.id) = some t)

/-- Changes one after the other. -/
abbrev Changes : Network → Network → Prop := Relation.ReflTransGen Change

/-! ### Rows -/

section Rows

variable {s t : Network}

theorem member_eq_of_id {m n : Member} (hm : m ∈ s.users) (hn : n ∈ s.users) (h : m.id = n.id) : m = n :=
  Table.eq_of_key hm hn (k := .inl m.id) (by simp [Member.keys]) (by simp [Member.keys, h])

theorem row_eq_of_id {q r : ReferralRow} (hq : q ∈ s.referrals) (hr : r ∈ s.referrals) (h : q.id = r.id) : q = r :=
  Table.eq_of_key hq hr (k := .inl q.id) (by simp [ReferralRow.keys, Referral.keys])
    (by simp [ReferralRow.keys, Referral.keys, h])

/-- What the processing leaves of a row. -/
structure SameEdge (r r' : ReferralRow) : Prop where
  id : r'.id = r.id
  referrerUserId : r'.referrerUserId = r.referrerUserId
  referredUserId : r'.referredUserId = r.referredUserId
  referralCodeUsed : r'.referralCodeUsed = r.referralCodeUsed
  createdAt : r'.createdAt = r.createdAt
  referredUserDeleted : r'.referredUserDeleted = r.referredUserDeleted

/-- And of a row that it does not validate. -/
structure SameRow (r r' : ReferralRow) : Prop extends SameEdge r r' where
  status : r'.status = r.status
  validatedAt : r'.validatedAt = r.validatedAt

theorem SameEdge.refl (r : ReferralRow) : SameEdge r r := ⟨rfl, rfl, rfl, rfl, rfl, rfl⟩

theorem SameMember.refl (m : Member) : SameMember m m := ⟨rfl, rfl, rfl, rfl⟩

theorem SameEdge.links {r r' : ReferralRow} (h : SameEdge r r') {i m : ℤ} : r'.Links i m ↔ r.Links i m := by
  unfold ReferralRow.Links
  rw [h.referrerUserId, h.referredUserId]

/-- The graph is in these columns alone. -/
theorem Edges.congr (h : Edges s) (husers : List.Forall₂ SameMember s.users.rows t.users.rows)
    (hrows : List.Forall₂ SameEdge s.referrals.rows t.referrals.rows) : Edges t where
  edge m' hm' i := by
    obtain ⟨m, hm, hsame⟩ := forall₂_origin husers hm'
    rw [hsame.referredByUserId, hsame.id, h.edge m hm i]
    constructor
    · rintro ⟨r, hr, hlinks⟩
      obtain ⟨r', hr', hedge⟩ := forall₂_successor hrows hr
      exact ⟨r', hr', hedge.links.mpr hlinks⟩
    · rintro ⟨r', hr', hlinks⟩
      obtain ⟨r, hr, hedge⟩ := forall₂_origin hrows hr'
      exact ⟨r, hr, hedge.links.mp hlinks⟩
  irreflexive r' hr' := by
    obtain ⟨r, hr, hedge⟩ := forall₂_origin hrows hr'
    rw [hedge.links, hedge.referrerUserId]
    exact h.irreflexive r hr
  code r' hr' i' hi' heq := by
    obtain ⟨r, hr, hedge⟩ := forall₂_origin hrows hr'
    obtain ⟨i, hi, hsame⟩ := forall₂_origin husers hi'
    rw [hedge.referrerUserId, hsame.id] at heq
    rw [hedge.referralCodeUsed, hsame.referralCode]
    exact h.code r hr i hi heq
  window r' hr' m' hm' heq := by
    obtain ⟨r, hr, hedge⟩ := forall₂_origin hrows hr'
    obtain ⟨m, hm, hsame⟩ := forall₂_origin husers hm'
    rw [hedge.referredUserId, hsame.id] at heq
    rw [hedge.createdAt, hsame.createdAt]
    exact h.window r hr m hm heq
  deleted r' hr' := by
    obtain ⟨r, hr, hedge⟩ := forall₂_origin hrows hr'
    rw [hedge.referredUserId, hedge.referredUserDeleted]
    exact h.deleted r hr

theorem Referenced.congr (h : Referenced s) (husers : List.Forall₂ SameMember s.users.rows t.users.rows)
    (hrows : List.Forall₂ SameEdge s.referrals.rows t.referrals.rows) (hrewards : t.rewards = s.rewards) :
    Referenced t := by
  have hids : ∀ m ∈ s.users.rows, ∃ m' ∈ t.users.rows, m'.id = m.id := fun m hm => by
    obtain ⟨m', hm', hsame⟩ := forall₂_successor husers hm
    exact ⟨m', hm', hsame.id⟩
  have hrow : ∀ r' ∈ t.referrals.rows, ∃ r ∈ s.referrals.rows, SameEdge r r' := fun r' hr' => forall₂_origin hrows hr'
  refine ⟨(h.inviter.of_rows fun m' hm' i hi => ?_).mono hids, (h.referrer.of_rows fun r' hr' i hi => ?_).mono hids,
    (h.referred.of_rows fun r' hr' i hi => ?_).mono hids, ?_, ?_⟩
  · obtain ⟨m, hm, hsame⟩ := forall₂_origin husers hm'
    exact ⟨m, hm, hsame.referredByUserId ▸ hi⟩
  · obtain ⟨r, hr, hedge⟩ := hrow r' hr'
    exact ⟨r, hr, hedge.referrerUserId ▸ hi⟩
  · obtain ⟨r, hr, hedge⟩ := hrow r' hr'
    exact ⟨r, hr, hedge.referredUserId ▸ hi⟩
  · rw [hrewards]
    exact h.payee.mono hids
  · rw [hrewards]
    refine h.rewarded.mono fun r hr => ?_
    obtain ⟨r', hr', hedge⟩ := forall₂_successor hrows hr
    exact ⟨r', hr', hedge.id⟩

/-- Rewards for no referral do not count. -/
theorem Paid.congr (h : Paid s) (hrows : List.Forall₂ SameRow s.referrals.rows t.referrals.rows)
    (hrewards : ∀ w id, w.referralId = some id → (w ∈ t.rewards ↔ w ∈ s.rewards)) : Paid t where
  history r' hr' := by
    obtain ⟨r, hr, hsame⟩ := forall₂_origin hrows hr'
    rw [hsame.referredUserDeleted, hsame.status]
    exact h.history r hr
  stamped r' hr' := by
    obtain ⟨r, hr, hsame⟩ := forall₂_origin hrows hr'
    rw [hsame.status, hsame.validatedAt]
    exact h.stamped r hr
  rewarded r' hr' := by
    obtain ⟨r, hr, hsame⟩ := forall₂_origin hrows hr'
    rw [hsame.status, hsame.id, h.rewarded r hr]
    constructor
    · intro hpaid
      obtain ⟨w, hw, heq⟩ := hpaid
      exact ⟨w, (hrewards w _ heq).mpr hw, heq⟩
    · intro hpaid
      obtain ⟨w, hw, heq⟩ := hpaid
      exact ⟨w, (hrewards w _ heq).mp hw, heq⟩
  payee r' hr' w hw heq := by
    obtain ⟨r, hr, hsame⟩ := forall₂_origin hrows hr'
    rw [hsame.id] at heq
    rw [hsame.referrerUserId]
    exact h.payee r hr w ((hrewards w _ heq).mp hw) heq

end Rows

/-! ### New rows -/

section New

variable {s t : Network} {i m : Member} {r : ReferralRow}

theorem rows_refl (l : List ReferralRow) : List.Forall₂ SameRow l l :=
  List.forall₂_same.mpr fun r _ => ⟨SameEdge.refl r, rfl, rfl⟩

theorem members_refl (l : List Member) : List.Forall₂ SameMember l l := List.forall₂_same.mpr fun m _ => SameMember.refl m

/-- A pending row has no reward: no reward names a row that is not there. -/
theorem Paid.insert (h : Paid s) (hk : Referenced s) (hrow : s.referrals.insert? r = some t.referrals)
    (hnew : NewRow i m r) (hrewards : t.rewards = s.rewards) : Paid t := by
  have hmem : ∀ q, q ∈ t.referrals ↔ q ∈ s.referrals ∨ q = r := fun q => Table.mem_insert hrow
  have hunpaid : ∀ w ∈ t.rewards, w.referralId ≠ some r.id := by
    intro w hw heq
    rw [hrewards] at hw
    obtain ⟨q, hq, hid⟩ := hk.rewarded w hw r.id heq
    refine Table.insert?_fresh hrow (s := q) (k := .inl q.id) hq (by simp [ReferralRow.keys, Referral.keys]) ?_
    simp [ReferralRow.keys, Referral.keys, hid]
  refine ⟨fun q hq => ?_, fun q hq => ?_, fun q hq => ?_, fun q hq w hw heq => ?_⟩
  · rcases (hmem q).mp hq with hq | rfl
    · exact h.history q hq
    · simp [hnew.present]
  · rcases (hmem q).mp hq with hq | rfl
    · exact h.stamped q hq
    · simp [hnew.pending, hnew.unstamped]
  · rcases (hmem q).mp hq with hq | rfl
    · rw [hrewards]
      exact h.rewarded q hq
    · rw [hnew.pending]
      refine ⟨fun hvalid => absurd hvalid (by simp), fun hpaid => ?_⟩
      obtain ⟨w, hw, heq⟩ := hpaid
      exact absurd heq (hunpaid w hw)
  · rcases (hmem q).mp hq with hq | rfl
    · rw [hrewards] at hw
      exact h.payee q hq w hw heq
    · exact absurd heq (hunpaid w hw)

/-- The users of a store with a row more. -/
theorem Referenced.insert (hk : Referenced s) (hids : ∀ n ∈ s.users.rows, ∃ n' ∈ t.users.rows, n'.id = n.id)
    (hinviter : References t.users.rows (·.referredByUserId) t.users.rows (·.id)) (hi : ∃ n ∈ t.users.rows, n.id = i.id)
    (hm : ∃ n ∈ t.users.rows, n.id = m.id) (hrow : s.referrals.insert? r = some t.referrals) (hnew : NewRow i m r)
    (hrewards : t.rewards = s.rewards) : Referenced t := by
  have hrows := Table.insert?_rows hrow
  refine ⟨hinviter, ?_, ?_, ?_, ?_⟩
  · rw [hrows]
    refine (hk.referrer.mono hids).append fun k hk => ?_
    rw [← Option.some.inj hk, hnew.links.1]
    exact hi
  · rw [hrows]
    refine (hk.referred.mono hids).append fun k hk => ?_
    rw [hnew.links.2] at hk
    rw [← Option.some.inj hk]
    exact hm
  · rw [hrewards]
    exact hk.payee.mono hids
  · rw [hrewards, hrows]
    exact hk.rewarded.mono fun q hq => ⟨q, List.mem_append_left _ hq, rfl⟩

/-- The new edge is the only one of its user. -/
theorem Edges.insert (h : Edges s) (hother : ∀ n ∈ t.users, n.id ≠ m.id → n ∈ s.users)
    (hself : ∀ n ∈ t.users, n.id = m.id →
      n.referredByUserId = some i.id ∧ n.createdAt = m.createdAt ∧ n.referralCode = m.referralCode)
    (hcode : ∀ q ∈ s.referrals, q.referrerUserId = m.id → q.referralCodeUsed = m.referralCode) (hi : i ∈ s.users)
    (hrow : s.referrals.insert? r = some t.referrals) (hnew : NewRow i m r) : Edges t := by
  have hmem : ∀ q, q ∈ t.referrals ↔ q ∈ s.referrals ∨ q = r := fun q => Table.mem_insert hrow
  have hfree : ∀ q ∈ s.referrals, q.referredUserId ≠ some m.id := by
    intro q hq heq
    refine Table.insert?_fresh hrow (s := q) (k := .inr m.id) hq (by simp [ReferralRow.keys, Referral.keys, heq]) ?_
    simp [ReferralRow.keys, Referral.keys, hnew.links.2]
  have hnamed : ∀ j n, r.Links j n ↔ j = i.id ∧ n = m.id := by
    intro j n
    unfold ReferralRow.Links
    rw [hnew.links.1, hnew.links.2, Option.some.injEq, eq_comm (a := i.id), eq_comm (a := m.id)]
  refine ⟨fun n hn j => ?_, fun q hq => ?_, fun q hq n hn heq => ?_, fun q hq n hn heq => ?_, fun q hq => ?_⟩
  · by_cases hid : n.id = m.id
    · rw [(hself n hn hid).1, hid, Option.some.injEq]
      constructor
      · rintro rfl
        exact ⟨r, (hmem r).mpr (Or.inr rfl), hnew.links⟩
      · rintro ⟨q, hq, hlinks⟩
        rcases (hmem q).mp hq with hq | rfl
        · exact absurd hlinks.2 (hfree q hq)
        · exact ((hnamed _ _).mp hlinks).1.symm
    · rw [h.edge n (hother n hn hid) j]
      constructor
      · rintro ⟨q, hq, hlinks⟩
        exact ⟨q, (hmem q).mpr (Or.inl hq), hlinks⟩
      · rintro ⟨q, hq, hlinks⟩
        rcases (hmem q).mp hq with hq | rfl
        · exact ⟨q, hq, hlinks⟩
        · exact absurd ((hnamed _ _).mp hlinks).2 hid
  · rcases (hmem q).mp hq with hq | rfl
    · exact h.irreflexive q hq
    · intro hlinks
      obtain ⟨h1, h2⟩ := (hnamed _ _).mp hlinks
      exact hnew.other (h1.symm.trans h2)
  · rcases (hmem q).mp hq with hq | rfl
    · by_cases hid : n.id = m.id
      · rw [(hself n hn hid).2.2]
        exact hcode q hq (heq.trans hid)
      · exact h.code q hq n (hother n hn hid) heq
    · rw [hnew.links.1] at heq
      have hid : n.id ≠ m.id := fun hid => hnew.other (heq.trans hid)
      rw [hnew.code, member_eq_of_id hi (hother n hn hid) heq]
  · rcases (hmem q).mp hq with hq | rfl
    · have hid : n.id ≠ m.id := fun hid => hfree q hq (heq.trans (congrArg some hid))
      exact h.window q hq n (hother n hn hid) heq
    · rw [hnew.links.2, Option.some.injEq] at heq
      rw [(hself n hn heq.symm).2.1]
      exact hnew.window
  · rcases (hmem q).mp hq with hq | rfl
    · exact h.deleted q hq
    · simp [hnew.links.2, hnew.present]

end New

/-! ### Each kind of change -/

section Kinds

variable {s t : Network} {m : Member}

theorem Referenced.enrol (hk : Referenced s) (husers : s.users.insert? m = some t.users)
    (hm : ∀ k ∈ m.referredByUserId, ∃ n ∈ s.users, n.id = k) :
    (∀ n ∈ s.users.rows, ∃ n' ∈ t.users.rows, n'.id = n.id) ∧
      References t.users.rows (·.referredByUserId) t.users.rows (·.id) := by
  have hrows := Table.insert?_rows husers
  have hids : ∀ n ∈ s.users.rows, ∃ n' ∈ t.users.rows, n'.id = n.id := fun n hn => by
    rw [hrows]
    exact ⟨n, List.mem_append_left _ hn, rfl⟩
  refine ⟨hids, ?_⟩
  have happend := (hk.inviter.mono hids).append (r := m) fun k hkm => by
    obtain ⟨n, hn, rfl⟩ := hm k hkm
    exact hids n hn
  rwa [← hrows] at happend

theorem insert_fresh_id (husers : s.users.insert? m = some t.users) : ∀ n ∈ s.users, n.id ≠ m.id := by
  intro n hn hid
  refine Table.insert?_fresh husers (k := .inl n.id) hn (by simp [Member.keys]) ?_
  simp [Member.keys, hid]

/-- A new user that nobody referred. -/
theorem SoundNetwork.enrol (h : SoundNetwork s) (husers : s.users.insert? m = some t.users)
    (halone : m.referredByUserId = none) (hreferrals : t.referrals = s.referrals) (hrewards : t.rewards = s.rewards) :
    SoundNetwork t := by
  obtain ⟨hids, hinviter⟩ := h.keys.enrol husers (by simp [halone])
  have hmem : ∀ n, n ∈ t.users ↔ n ∈ s.users ∨ n = m := fun n => Table.mem_insert husers
  have hfresh := insert_fresh_id husers
  -- a row that names the new user would have named nobody before
  have hunnamed : ∀ r ∈ s.referrals, r.referredUserId ≠ some m.id ∧ r.referrerUserId ≠ m.id := by
    intro r hr
    refine ⟨fun heq => ?_, fun heq => ?_⟩
    · obtain ⟨n, hn, hid⟩ := h.keys.referred r hr m.id heq
      exact hfresh n hn hid
    · obtain ⟨n, hn, hid⟩ := h.keys.referrer r hr _ rfl
      exact hfresh n hn (hid.trans heq)
  refine ⟨⟨hinviter, ?_, ?_, ?_, ?_⟩, ⟨fun n hn i => ?_, ?_, fun r hr n hn heq => ?_, fun r hr n hn heq => ?_, ?_⟩,
    h.paid.congr (hreferrals ▸ rows_refl _) fun _ _ _ => by rw [hrewards]⟩
  · rw [hreferrals]
    exact h.keys.referrer.mono hids
  · rw [hreferrals]
    exact h.keys.referred.mono hids
  · rw [hrewards]
    exact h.keys.payee.mono hids
  · rw [hrewards, hreferrals]
    exact h.keys.rewarded
  · rw [hreferrals]
    rcases (hmem n).mp hn with hn | rfl
    · exact h.edges.edge n hn i
    · rw [halone]
      refine ⟨fun heq => absurd heq (by simp), fun hex => ?_⟩
      obtain ⟨r, hr, hlinks⟩ := hex
      exact absurd hlinks.2 (hunnamed r hr).1
  · rw [hreferrals]
    exact h.edges.irreflexive
  · rw [hreferrals] at hr
    rcases (hmem n).mp hn with hn | rfl
    · exact h.edges.code r hr n hn heq
    · exact absurd heq (hunnamed r hr).2
  · rw [hreferrals] at hr
    rcases (hmem n).mp hn with hn | rfl
    · exact h.edges.window r hr n hn heq
    · exact absurd heq (hunnamed r hr).1
  · rw [hreferrals]
    exact h.edges.deleted

/-- A new user with its referral. -/
theorem SoundNetwork.invite (h : SoundNetwork s) {i : Member} {r : ReferralRow}
    (husers : s.users.insert? m = some t.users) (hi : i ∈ s.users) (hnamed : m.referredByUserId = some i.id)
    (hrow : s.referrals.insert? r = some t.referrals) (hnew : NewRow i m r) (hrewards : t.rewards = s.rewards) :
    SoundNetwork t := by
  obtain ⟨hids, hinviter⟩ := h.keys.enrol husers fun k hk => by
    rw [hnamed] at hk
    exact ⟨i, hi, Option.some.inj hk⟩
  have hmem : ∀ n, n ∈ t.users ↔ n ∈ s.users ∨ n = m := fun n => Table.mem_insert husers
  have hfresh := insert_fresh_id husers
  refine ⟨h.keys.insert hids hinviter (hids i hi) ⟨m, (hmem m).mpr (Or.inr rfl), rfl⟩ hrow hnew hrewards,
    h.edges.insert (fun n hn hid => ?_) (fun n hn hid => ?_) (fun q hq heq => ?_) hi hrow hnew,
    h.paid.insert h.keys hrow hnew hrewards⟩
  · rcases (hmem n).mp hn with hn | rfl
    · exact hn
    · exact absurd rfl hid
  · rcases (hmem n).mp hn with hn | rfl
    · exact absurd hid (hfresh n hn)
    · exact ⟨hnamed, rfl, rfl⟩
  · obtain ⟨n, hn, hid⟩ := h.keys.referrer q hq _ rfl
    exact absurd (hid.trans heq) (hfresh n hn)

theorem mem_refer {n : Member} {referrerId userId : ℤ} : n ∈ (s.refer referrerId userId).users ↔
    ∃ m ∈ s.users, (if m.id = userId then m.refer referrerId else m) = n := by
  unfold Network.refer
  rw [Table.mem_update]
  simp only [decide_eq_true_eq]

/-- A user applies a code. -/
theorem SoundNetwork.refer (h : SoundNetwork s) {i : Member} {r : ReferralRow} (hm : m ∈ s.users) (hi : i ∈ s.users)
    (husers : t.users = (s.refer i.id m.id).users) (hrow : s.referrals.insert? r = some t.referrals) (hnew : NewRow i m r)
    (hrewards : t.rewards = s.rewards) : SoundNetwork t := by
  have hmem : ∀ n, n ∈ t.users ↔ ∃ q ∈ s.users, (if q.id = m.id then q.refer i.id else q) = n := fun n => by
    rw [husers]
    exact mem_refer
  have hids : ∀ n ∈ s.users.rows, ∃ n' ∈ t.users.rows, n'.id = n.id := by
    intro n hn
    refine ⟨_, (hmem _).mpr ⟨n, hn, rfl⟩, ?_⟩
    split_ifs <;> rfl
  refine ⟨h.keys.insert hids (fun n hn k hk => ?_) (hids i hi) (hids m hm) hrow hnew hrewards,
    h.edges.insert (fun n hn hid => ?_) (fun n hn hid => ?_) (fun q hq heq => h.edges.code q hq m hm heq) hi hrow hnew,
    h.paid.insert h.keys hrow hnew hrewards⟩
  · obtain ⟨q, hq, rfl⟩ := (hmem n).mp hn
    by_cases hid : q.id = m.id
    · rw [if_pos hid] at hk
      obtain rfl : i.id = k := Option.some.inj hk
      exact hids i hi
    · rw [if_neg hid] at hk
      exact (h.keys.inviter.mono hids) q hq k hk
  · obtain ⟨q, hq, rfl⟩ := (hmem n).mp hn
    by_cases hqm : q.id = m.id
    · rw [if_pos hqm] at hid
      exact absurd hqm hid
    · rwa [if_neg hqm]
  · obtain ⟨q, hq, rfl⟩ := (hmem n).mp hn
    by_cases hqm : q.id = m.id
    · obtain rfl := member_eq_of_id hq hm hqm
      rw [if_pos rfl]
      exact ⟨rfl, rfl, rfl⟩
    · rw [if_neg hqm] at hid
      exact absurd hid hqm

/-- A reward that is for no referral. -/
theorem SoundNetwork.grant (h : SoundNetwork s) {w : StoredReward} (hfree : w.referralId = none)
    (hu : ∃ m ∈ s.users, m.id = w.userId) (hinserts : s.rewards.insert? w = some t.rewards) (husers : t.users = s.users)
    (hreferrals : t.referrals = s.referrals) : SoundNetwork t := by
  have hrows := Table.insert?_rows hinserts
  refine ⟨⟨?_, ?_, ?_, ?_, ?_⟩, h.edges.congr (husers ▸ members_refl _) (hreferrals ▸ (rows_refl _).imp fun _ _ => SameRow.toSameEdge),
    h.paid.congr (hreferrals ▸ rows_refl _) fun v id hv => ?_⟩
  · rw [husers]
    exact h.keys.inviter
  · rw [husers, hreferrals]
    exact h.keys.referrer
  · rw [husers, hreferrals]
    exact h.keys.referred
  · rw [husers, hrows]
    refine h.keys.payee.append fun k hk => ?_
    rw [← Option.some.inj hk]
    exact hu
  · rw [hreferrals, hrows]
    exact h.keys.rewarded.append fun k hk => by simp [hfree] at hk
  · rw [Table.mem_insert hinserts, or_iff_left]
    rintro rfl
    simp [hfree] at hv

/-- The statement of a skip. -/
theorem SoundNetwork.skip (h : SoundNetwork s) {now id : ℤ} {reason : String}
    (hwrite : s.apply now (.skip id reason) = some t) : SoundNetwork t := by
  obtain rfl := Option.some.inj hwrite
  have hrows : List.Forall₂ SameRow s.referrals.rows (s.referrals.rows.map fun r =>
        if r.isPending id then r.onReferral (·.skipped reason now) else r) := by
    refine forall₂_map fun r _ => ?_
    split_ifs
    · exact ⟨⟨rfl, rfl, rfl, rfl, rfl, rfl⟩, rfl, rfl⟩
    · exact ⟨SameEdge.refl r, rfl, rfl⟩
  have hedges := hrows.imp fun _ _ => SameRow.toSameEdge
  exact ⟨h.keys.congr (members_refl _) hedges rfl, h.edges.congr (members_refl _) hedges,
    h.paid.congr hrows fun _ _ _ => Iff.rfl⟩

theorem isPending_iff {id : ℤ} {r : ReferralRow} : r.isPending id = true ↔ r.id = id ∧ r.status = .pending := by
  unfold Referral.isPending
  rw [Bool.and_eq_true, decide_eq_true_eq, decide_eq_true_eq]

/-- The statement that validates. -/
theorem validate_rows {now id : ℤ} (h : s.apply now (.validate id) = some t) :
    t.users = s.users ∧ t.rewards = s.rewards ∧
      t.referrals.rows = s.referrals.rows.map fun r => if r.isPending id then r.onReferral (·.validated now) else r := by
  rw [← Option.some.inj h]
  exact ⟨rfl, rfl, rfl⟩

theorem validate_edges {now id : ℤ} (h : s.apply now (.validate id) = some t) :
    List.Forall₂ SameEdge s.referrals.rows t.referrals.rows := by
  rw [(validate_rows h).2.2]
  refine forall₂_map fun r _ => ?_
  split_ifs
  · exact ⟨rfl, rfl, rfl, rfl, rfl, rfl⟩
  · exact SameEdge.refl r

/-- A rewarded referral is not pending: nothing is validated twice. -/
theorem SoundNetwork.found (h : SoundNetwork s) {now : ℤ} {r : ReferralRow} {w : StoredReward} (hr : r ∈ s.referrals)
    (hw : w ∈ s.rewards) (hfor : w.referralId = some r.id) (hvalidates : s.apply now (.validate r.id) = some t) : t = s := by
  have hvalid := (h.paid.rewarded r hr).mpr ⟨w, hw, hfor⟩
  rw [← Option.some.inj hvalidates, Table.update_eq_self]
  intro q hq hpending
  obtain ⟨hid, hstatus⟩ := isPending_iff.mp hpending
  rw [row_eq_of_id hq hr hid, hvalid] at hstatus
  exact absurd hstatus (by simp)

/-- A referral becomes valid, and its reward is inserted. -/
theorem SoundNetwork.reward (h : SoundNetwork s) {u : Network} {now : ℤ} {r : ReferralRow} {w : StoredReward}
    (hr : r ∈ s.referrals) (hpending : r.status = .pending) (hfor : w.referralId = some r.id)
    (hpayee : w.userId = r.referrerUserId) (hvalidates : s.apply now (.validate r.id) = some u)
    (hinserts : u.apply now (.reward w) = some t) : SoundNetwork t := by
  obtain ⟨husers, hrewards, hrows⟩ := validate_rows hvalidates
  have hedges := validate_edges hvalidates
  have hmembers : List.Forall₂ SameMember s.users.rows u.users.rows := husers ▸ members_refl _
  obtain ⟨rewards, hinsert, rfl⟩ := Option.map_eq_some_iff.mp hinserts
  have hkeys := h.keys.congr hmembers hedges hrewards
  obtain ⟨r', hr', hsame⟩ := forall₂_successor hedges hr
  have hmem : ∀ v, v ∈ rewards ↔ v ∈ s.rewards ∨ v = w := fun v => by rw [Table.mem_insert hinsert, hrewards]
  -- the row itself, and the others as they were
  have horigin : ∀ q' ∈ u.referrals, ∃ q ∈ s.referrals, q'.id = q.id ∧ q'.referrerUserId = q.referrerUserId ∧
      ((q = r ∧ q'.status = .valid ∧ q'.validatedAt.isSome) ∨ (q.id ≠ r.id ∧ q' = q)) := by
    intro q' hq'
    rw [Table.mem_def, hrows] at hq'
    obtain ⟨q, hq, rfl⟩ := List.mem_map.mp hq'
    by_cases hid : q.id = r.id
    · obtain rfl := row_eq_of_id hq hr hid
      rw [if_pos (isPending_iff.mpr ⟨rfl, hpending⟩)]
      exact ⟨q, hq, rfl, rfl, Or.inl ⟨rfl, rfl, rfl⟩⟩
    · rw [if_neg fun hpend => hid (isPending_iff.mp hpend).1]
      exact ⟨q, hq, rfl, rfl, Or.inr ⟨hid, rfl⟩⟩
  refine ⟨⟨hkeys.inviter, hkeys.referrer, hkeys.referred, ?_, ?_⟩, h.edges.congr hmembers hedges,
    fun q' hq' hdeleted => ?_, fun q' hq' => ?_, fun q' hq' => ?_, fun q' hq' v hv heq => ?_⟩
  · rw [Table.insert?_rows hinsert]
    refine hkeys.payee.append fun k hk => ?_
    rw [← Option.some.inj hk, hpayee]
    obtain ⟨n, hn, hid⟩ := hkeys.referrer r' hr' _ rfl
    exact ⟨n, hn, hid.trans hsame.referrerUserId⟩
  · rw [Table.insert?_rows hinsert]
    refine hkeys.rewarded.append fun k hk => ?_
    rw [hfor] at hk
    rw [← Option.some.inj hk]
    exact ⟨r', hr', hsame.id⟩
  · obtain ⟨q, hq, -, -, ⟨-, hvalid, -⟩ | ⟨-, rfl⟩⟩ := horigin q' hq'
    · exact hvalid
    · exact h.paid.history q' hq hdeleted
  · obtain ⟨q, hq, -, -, ⟨-, hvalid, hstamp⟩ | ⟨-, rfl⟩⟩ := horigin q' hq'
    · simp [hvalid, hstamp]
    · exact h.paid.stamped q' hq
  · obtain ⟨q, hq, hid, -, ⟨rfl, hvalid, -⟩ | ⟨hne, rfl⟩⟩ := horigin q' hq'
    · rw [hid]
      exact ⟨fun _ => ⟨w, (hmem w).mpr (Or.inr rfl), hfor⟩, fun _ => hvalid⟩
    · rw [h.paid.rewarded q' hq]
      constructor
      · rintro ⟨v, hv, heq⟩
        exact ⟨v, (hmem v).mpr (Or.inl hv), heq⟩
      · rintro ⟨v, hv, heq⟩
        rcases (hmem v).mp hv with hv | rfl
        · exact ⟨v, hv, heq⟩
        · exact absurd (Option.some.inj (hfor.symm.trans heq)).symm hne
  · obtain ⟨q, hq, hid, hreferrer, -⟩ := horigin q' hq'
    rw [hid] at heq
    rw [hreferrer]
    rcases (hmem v).mp hv with hv | rfl
    · exact h.paid.payee q hq v hv heq
    · rw [hpayee, row_eq_of_id hq hr (Option.some.inj (heq.symm.trans hfor))]

/-- **What a change keeps.** -/
theorem Change.sound (hc : Change s t) (h : SoundNetwork s) : SoundNetwork t := by
  cases hc with
  | account users referrals rewards =>
    have hrows : List.Forall₂ SameRow s.referrals.rows t.referrals.rows := by
      rw [referrals]
      exact rows_refl _
    have hedges := hrows.imp fun _ _ => SameRow.toSameEdge
    exact ⟨h.keys.congr users hedges rewards, h.edges.congr users hedges, h.paid.congr hrows fun _ _ _ => by rw [rewards]⟩
  | enrol users alone referrals rewards => exact h.enrol users alone referrals rewards
  | invite users inviter named row new rewards => exact h.invite users inviter named row new rewards
  | refer user inviter unreferred users row new rewards => exact h.refer user inviter users row new rewards
  | grant free user inserts users referrals => exact h.grant free user inserts users referrals
  | skip write => exact h.skip write
  | reward row pending for_row payee validates inserts => exact h.reward row pending for_row payee validates inserts
  | found row reward for_row validates => exact (h.found row reward for_row validates) ▸ h

end Kinds

/-! ### The deletion of an account -/

section Delete

variable {s : Network} {userId now : ℤ}

/-- What the trigger and the cascade keep: the rows of other referrers, and of the
deleted user's own referral the history, if it was valid. -/
theorem mem_kept {r' : ReferralRow} : r' ∈ s.keptReferrals userId now ↔ ∃ r ∈ s.referrals, r.referrerUserId ≠ userId ∧
    ((r.referredUserId ≠ some userId ∧ r' = r) ∨
      (r.referredUserId = some userId ∧ r.status = .valid ∧ r' = r.forget now)) := by
  unfold Network.keptReferrals Network.preserveValidReferralHistory
  rw [Table.mem_delete, Table.mem_update, decide_eq_false_iff_not]
  constructor
  · rintro ⟨⟨r, hr, rfl⟩, hreferrer⟩
    obtain ⟨hmem, hstays⟩ := Table.mem_delete.mp hr
    by_cases hown : r.referredUserId = some userId
    · have hvalid : r.status = .valid := by cases hs : r.status <;> simp [hown, hs] at hstays ⊢
      rw [if_pos (by simp [hown, hvalid])] at hreferrer ⊢
      exact ⟨r, hmem, hreferrer, Or.inr ⟨hown, hvalid, rfl⟩⟩
    · rw [if_neg (by simp [hown])] at hreferrer ⊢
      exact ⟨r, hmem, hreferrer, Or.inl ⟨hown, rfl⟩⟩
  · rintro ⟨r, hr, hreferrer, ⟨hother, rfl⟩ | ⟨hown, hvalid, rfl⟩⟩
    · refine ⟨⟨r', Table.mem_delete.mpr ⟨hr, by simp [hother]⟩, ?_⟩, hreferrer⟩
      rw [if_neg (by simp [hother])]
    · refine ⟨⟨r, Table.mem_delete.mpr ⟨hr, by simp [hvalid]⟩, ?_⟩, hreferrer⟩
      rw [if_pos (by simp [hown, hvalid])]

theorem mem_deleted_users {m' : Member} : m' ∈ (s.deleteUser userId now).users ↔ ∃ m ∈ s.users, m.id ≠ userId ∧
    (if m.referredByUserId = some userId then m.unrefer else m) = m' := by
  unfold Network.deleteUser
  rw [Table.mem_update]
  simp only [Table.mem_delete, decide_eq_false_iff_not, decide_eq_true_eq, and_assoc]

/-- A referral that is still there is not lost. -/
theorem kept_not_lost {r' : ReferralRow} (hr' : r' ∈ s.keptReferrals userId now) :
    s.lostReferral userId now r'.id = false := by
  have hfound : ((s.keptReferrals userId now).find? fun r => r.id = r'.id).isSome := by
    rw [Table.find?_of_mem (k := .inl r'.id) (fun r hr => by simp [ReferralRow.keys, Referral.keys, of_decide_eq_true hr]) hr'
      (by simp)]
    rfl
  unfold Network.lostReferral
  rw [Option.isNone_eq_false_iff.mpr hfound, Bool.and_false]

theorem mem_deleted_rewards {w' : StoredReward} : w' ∈ (s.deleteUser userId now).rewards ↔ ∃ w ∈ s.rewards,
    w.userId ≠ userId ∧ (if w.referralId.any (s.lostReferral userId now) then unreferReward w else w) = w' := by
  unfold Network.deleteUser
  rw [Table.mem_update]
  simp only [Table.mem_delete, decide_eq_false_iff_not, and_assoc]

/-- A reward that names a referral afterwards is as it was, and the referral is there. -/
theorem deleted_reward (hk : Referenced s) {w' : StoredReward} {id : ℤ} (hw' : w' ∈ (s.deleteUser userId now).rewards)
    (hid : w'.referralId = some id) : w' ∈ s.rewards ∧ w'.userId ≠ userId ∧
      ∃ r' ∈ s.keptReferrals userId now, r'.id = id := by
  obtain ⟨w, hw, huser, rfl⟩ := mem_deleted_rewards.mp hw'
  split_ifs at hid ⊢ with hlost
  · exact absurd hid (by simp [unreferReward])
  · refine ⟨hw, huser, ?_⟩
    obtain ⟨r, hr, rfl⟩ := hk.rewarded w hw id hid
    rw [hid, Option.any_some] at hlost
    have hfound : (s.referrals.find? fun q => q.id = r.id).isSome := by
      rw [Table.find?_of_mem (k := .inl r.id) (fun q hq => by simp [ReferralRow.keys, Referral.keys, of_decide_eq_true hq]) hr
        (by simp)]
      rfl
    unfold Network.lostReferral at hlost
    rw [hfound, Bool.true_and, Bool.not_eq_true, Option.isNone_eq_false_iff, Option.isSome_iff_exists] at hlost
    obtain ⟨r', hr'⟩ := hlost
    exact ⟨r', Table.find?_mem hr', by simpa using Table.find?_prop hr'⟩

/-- And a reward for a referral that is kept stays, if it is not the deleted user's. -/
theorem reward_kept {w : StoredReward} {r' : ReferralRow} (hw : w ∈ s.rewards) (huser : w.userId ≠ userId)
    (hr' : r' ∈ s.keptReferrals userId now) (hid : w.referralId = some r'.id) : w ∈ (s.deleteUser userId now).rewards := by
  refine mem_deleted_rewards.mpr ⟨w, hw, huser, if_neg ?_⟩
  rw [hid, Option.any_some, kept_not_lost hr']
  simp

theorem deleteUser_referenced (h : Referenced s) : Referenced (s.deleteUser userId now) := by
  have hids : ∀ k, k ≠ userId → (∃ m ∈ s.users.rows, m.id = k) → ∃ m' ∈ (s.deleteUser userId now).users.rows, m'.id = k := by
    rintro k hk ⟨m, hm, rfl⟩
    refine ⟨_, mem_deleted_users.mpr ⟨m, hm, hk, rfl⟩, ?_⟩
    split_ifs <;> rfl
  refine ⟨fun m' hm' k hkm => ?_, fun r' hr' k hk => ?_, fun r' hr' k hk => ?_, fun w' hw' k hk => ?_, fun w' hw' k hk => ?_⟩
  · obtain ⟨m, hm, -, rfl⟩ := mem_deleted_users.mp hm'
    split_ifs at hkm with hgone
    · exact absurd hkm (by simp [Member.unrefer])
    · exact hids k (fun heq => hgone (heq ▸ hkm)) (h.inviter m hm k hkm)
  · obtain ⟨r, hr, hreferrer, ⟨-, rfl⟩ | ⟨-, -, rfl⟩⟩ := mem_kept.mp hr'
    · obtain rfl : r'.referrerUserId = k := Option.some.inj hk
      exact hids _ hreferrer (h.referrer r' hr _ rfl)
    · obtain rfl : r.referrerUserId = k := Option.some.inj hk
      exact hids _ hreferrer (h.referrer r hr _ rfl)
  · obtain ⟨r, hr, -, ⟨hother, rfl⟩ | ⟨-, -, rfl⟩⟩ := mem_kept.mp hr'
    · exact hids k (fun heq => hother (heq ▸ hk)) (h.referred r' hr k hk)
    · exact absurd hk (by simp [ReferralRow.forget])
  · obtain ⟨w, hw, huser, rfl⟩ := mem_deleted_rewards.mp hw'
    have hkw : w.userId = k := by
      split_ifs at hk
      · exact Option.some.inj hk
      · exact Option.some.inj hk
    exact hids k (hkw ▸ huser) (h.payee w hw k (congrArg some hkw))
  · obtain ⟨-, -, r', hr', hid⟩ := deleted_reward h hw' hk
    exact ⟨r', hr', hid⟩

theorem deleteUser_edges (h : Edges s) : Edges (s.deleteUser userId now) where
  edge m' hm' i := by
    obtain ⟨m, hm, hmid, rfl⟩ := mem_deleted_users.mp hm'
    have hid : (if m.referredByUserId = some userId then m.unrefer else m).id = m.id := by split_ifs <;> rfl
    have hnamed : (if m.referredByUserId = some userId then m.unrefer else m).referredByUserId = some i ↔
        m.referredByUserId = some i ∧ i ≠ userId := by
      split_ifs with hgone
      · refine ⟨fun heq => absurd heq (by simp [Member.unrefer]), fun hkept => absurd ?_ hkept.2⟩
        exact Option.some.inj (hkept.1.symm.trans hgone)
      · exact ⟨fun heq => ⟨heq, fun hi => hgone (hi ▸ heq)⟩, And.left⟩
    rw [hnamed, hid, h.edge m hm i]
    constructor
    · rintro ⟨⟨r, hr, hlinks⟩, hi⟩
      refine ⟨r, mem_kept.mpr ⟨r, hr, fun heq => hi (hlinks.1.symm.trans heq), Or.inl ⟨fun heq => hmid ?_, rfl⟩⟩, hlinks⟩
      exact Option.some.inj (hlinks.2.symm.trans heq)
    · rintro ⟨r', hr', hlinks⟩
      obtain ⟨r, hr, hreferrer, ⟨-, rfl⟩ | ⟨-, -, rfl⟩⟩ := mem_kept.mp hr'
      · exact ⟨⟨r', hr, hlinks⟩, fun hi => hreferrer (hlinks.1.trans hi)⟩
      · exact absurd hlinks.2 (by simp [ReferralRow.forget])
  irreflexive r' hr' := by
    obtain ⟨r, hr, -, ⟨-, rfl⟩ | ⟨-, -, rfl⟩⟩ := mem_kept.mp hr'
    · exact h.irreflexive r' hr
    · exact fun hlinks => absurd hlinks.2 (by simp [ReferralRow.forget])
  code r' hr' i' hi' heq := by
    obtain ⟨i, hi, -, rfl⟩ := mem_deleted_users.mp hi'
    have hsame : (if i.referredByUserId = some userId then i.unrefer else i).id = i.id ∧
        (if i.referredByUserId = some userId then i.unrefer else i).referralCode = i.referralCode := by
      split_ifs <;> exact ⟨rfl, rfl⟩
    rw [hsame.1] at heq
    rw [hsame.2]
    obtain ⟨r, hr, -, ⟨-, rfl⟩ | ⟨-, -, rfl⟩⟩ := mem_kept.mp hr'
    · exact h.code r' hr i hi heq
    · exact h.code r hr i hi heq
  window r' hr' m' hm' heq := by
    obtain ⟨m, hm, -, rfl⟩ := mem_deleted_users.mp hm'
    have hsame : (if m.referredByUserId = some userId then m.unrefer else m).id = m.id ∧
        (if m.referredByUserId = some userId then m.unrefer else m).createdAt = m.createdAt := by
      split_ifs <;> exact ⟨rfl, rfl⟩
    rw [hsame.1] at heq
    rw [hsame.2]
    obtain ⟨r, hr, -, ⟨-, rfl⟩ | ⟨-, -, rfl⟩⟩ := mem_kept.mp hr'
    · exact h.window r' hr m hm heq
    · exact absurd heq (by simp [ReferralRow.forget])
  deleted r' hr' := by
    obtain ⟨r, hr, -, ⟨-, rfl⟩ | ⟨-, -, rfl⟩⟩ := mem_kept.mp hr'
    · exact h.deleted r' hr
    · simp [ReferralRow.forget]

theorem deleteUser_paid (h : Paid s) (hk : Referenced s) : Paid (s.deleteUser userId now) where
  history r' hr' hdeleted := by
    obtain ⟨r, hr, -, ⟨-, rfl⟩ | ⟨-, hvalid, rfl⟩⟩ := mem_kept.mp hr'
    · exact h.history r' hr hdeleted
    · exact hvalid
  stamped r' hr' := by
    obtain ⟨r, hr, -, ⟨-, rfl⟩ | ⟨-, -, rfl⟩⟩ := mem_kept.mp hr'
    · exact h.stamped r' hr
    · exact h.stamped r hr
  rewarded r' hr' := by
    obtain ⟨r, hr, hreferrer, hcase⟩ := mem_kept.mp hr'
    have hsame : r'.id = r.id ∧ r'.status = r.status := by
      rcases hcase with ⟨-, rfl⟩ | ⟨-, -, rfl⟩
      · exact ⟨rfl, rfl⟩
      · exact ⟨rfl, rfl⟩
    rw [hsame.2, h.rewarded r hr]
    constructor
    · rintro ⟨w, hw, hid⟩
      have huser : w.userId ≠ userId := by
        rw [h.payee r hr w hw hid]
        exact hreferrer
      rw [← hsame.1] at hid
      exact ⟨w, reward_kept hw huser hr' hid, hid⟩
    · rintro ⟨w, hw, hid⟩
      exact ⟨w, (deleted_reward hk hw hid).1, hsame.1 ▸ hid⟩
  payee r' hr' w' hw' hid := by
    obtain ⟨hw, -⟩ := deleted_reward hk hw' hid
    obtain ⟨r, hr, -, ⟨-, rfl⟩ | ⟨-, -, rfl⟩⟩ := mem_kept.mp hr'
    · exact h.payee r' hr w' hw hid
    · exact h.payee r hr w' hw hid

/-- **What a deletion keeps.** -/
theorem deleteUser_sound (h : SoundNetwork s) : SoundNetwork (s.deleteUser userId now) :=
  ⟨deleteUser_referenced h.keys, deleteUser_edges h.edges, deleteUser_paid h.paid h.keys⟩

end Delete

/-! ### What the calls do -/

section Calls

variable {s t u : Network} {g : AccountSettings}

theorem insertUser_ok {m : Member} (h : s.insertUser m = .ok t) :
    s.users.insert? m = some t.users ∧ t.referrals = s.referrals ∧ t.rewards = s.rewards := by
  unfold Network.insertUser at h
  cases hinsert : s.users.insert? m with
  | none => simp [hinsert] at h
  | some users =>
    rw [hinsert] at h
    dsimp only at h
    split_ifs at h
    obtain rfl := Except.ok.inj h
    exact ⟨rfl, rfl, rfl⟩

theorem createPendingReferral_ok {id referrerId referredId now : ℤ} {code : PersonalCode}
    (h : s.createPendingReferral id referrerId referredId code now = .ok t) :
    s.referrals.insert? (newReferral id referrerId referredId code now) = some t.referrals ∧ t.users = s.users ∧
      t.rewards = s.rewards := by
  unfold Network.createPendingReferral at h
  cases hinsert : s.referrals.insert? (newReferral id referrerId referredId code now) with
  | none => simp [hinsert] at h
  | some referrals =>
    rw [hinsert] at h
    dsimp only at h
    split_ifs at h
    obtain rfl := Except.ok.inj h
    exact ⟨rfl, rfl, rfl⟩

theorem resolveActiveReferrerId_ok {code : PersonalCode} {id : ℤ} (h : s.resolveActiveReferrerId code = .ok id) :
    ∃ i ∈ s.users, i.id = id ∧ i.referralCode = code := by
  unfold Network.resolveActiveReferrerId at h
  cases hfind : s.users.find? fun u => u.referralCode = code && u.isActive with
  | none => simp [hfind] at h
  | some i =>
    rw [hfind] at h
    have hprop := Table.find?_prop hfind
    rw [Bool.and_eq_true, decide_eq_true_eq] at hprop
    exact ⟨i, Table.find?_mem hfind, Except.ok.inj h, hprop.1⟩

/-- Other columns, and other tables. -/
theorem Change.of_same (husers : t.users = s.users) (hreferrals : t.referrals = s.referrals)
    (hrewards : t.rewards = s.rewards) : Change s t :=
  .account (husers ▸ members_refl _) hreferrals hrewards

theorem attributeCreator_changes {attribution : Except AuthError CreatorGrant} {creatorCode : Option String} {userId : ℤ}
    (hu : ∃ m ∈ s.users, m.id = userId) (h : s.attributeCreator attribution creatorCode userId = .ok t) : Changes s t := by
  unfold Network.attributeCreator at h
  cases creatorCode with
  | none =>
    obtain rfl := Except.ok.inj h
    exact .refl
  | some code =>
    obtain ⟨grant, -, h⟩ := bind_eq_ok.mp h
    cases hinsert : s.rewards.insert? (Creator.promoReward grant.rewardId userId grant.occurredAt 7) with
    | none => simp [hinsert, throw, throwThe, MonadExceptOf.throw] at h
    | some rewards =>
      rw [hinsert] at h
      obtain rfl := Except.ok.inj h
      exact .single (.grant rfl hu hinsert rfl rfl)

/-- A new user: alone, or with its referral; then perhaps the reward of a creator code. -/
theorem admit_changes {i : Invite} {code : Option PersonalCode} {creatorCode : Option String} {referrer : Option ℤ}
    {account : Auth.UserRow} {now : ℤ} (href : s.referrer code = .ok referrer)
    (h : s.admit i code creatorCode referrer account now = .ok t) : Changes s t := by
  unfold Network.admit at h
  obtain ⟨own, -, h⟩ := bind_eq_ok.mp h
  obtain ⟨v, hinsert, h⟩ := bind_eq_ok.mp h
  obtain ⟨w, hreferral, hattribute⟩ := bind_eq_ok.mp h
  obtain ⟨husers, hreferrals, hrewards⟩ := insertUser_ok hinsert
  have hmem : ∃ m ∈ v.users, m.id = account.id := ⟨_, (Table.mem_insert husers).mpr (Or.inr rfl), rfl⟩
  cases code with
  | none =>
    obtain rfl : none = referrer := Except.ok.inj href
    obtain rfl : v = w := Except.ok.inj hreferral
    exact (Relation.ReflTransGen.single (Change.enrol husers rfl hreferrals hrewards)).trans (attributeCreator_changes hmem hattribute)
  | some code =>
    obtain ⟨referrerId, hresolve, rfl⟩ := map_eq_ok.mp href
    obtain ⟨j, hj, rfl, hcode⟩ := resolveActiveReferrerId_ok hresolve
    obtain ⟨hrow, husers', hrewards'⟩ := createPendingReferral_ok hreferral
    rw [hreferrals] at hrow
    have hnew : NewRow j { toUserRow := account, referralCode := own, referredByUserId := some j.id, createdAt := now }
        (newReferral i.referralId j.id account.id code now) :=
      { links := ⟨rfl, rfl⟩
        other := insert_fresh_id husers j hj
        code := congrArg Subtype.val hcode.symm
        window := by
          show now ≤ now + day
          unfold day
          omega
        pending := rfl
        present := rfl
        unstamped := rfl }
    have hinvite : Change s w := .invite (husers'.symm ▸ husers) hj rfl hrow hnew (hrewards'.trans hrewards)
    exact (Relation.ReflTransGen.single hinvite).trans (attributeCreator_changes (husers'.symm ▸ hmem) hattribute)

theorem registerUser_changes {r : MemberRegistration} {id : ℤ} (h : registerUser g r s = .ok (id, t)) : Changes s t := by
  unfold registerUser at h
  obtain ⟨⟨code, creatorCode⟩, -, h⟩ := bind_eq_ok.mp h
  dsimp only at h
  split_ifs at h
  rw [mapError_eq_ok] at h
  obtain ⟨referrer, href, h⟩ := bind_eq_ok.mp h
  obtain ⟨hash, -, h⟩ := bind_eq_ok.mp h
  obtain ⟨v, hadmit, h⟩ := bind_eq_ok.mp h
  obtain ⟨accounts, -, h⟩ := bind_eq_ok.mp h
  obtain ⟨-, rfl⟩ := Prod.mk.inj (Except.ok.inj h)
  exact (admit_changes href hadmit).tail (.of_same rfl rfl rfl)

theorem linkOrCreateUser_changes {c : MemberSignIn} {code : Option PersonalCode} {creatorCode : Option String}
    {email : String} {id : ℤ} (h : linkOrCreateUser c code creatorCode email s = .ok (id, t)) : Changes s t := by
  unfold linkOrCreateUser at h
  cases huser : s.userByEmail? email with
  | some m =>
    rw [huser] at h
    dsimp only at h
    split_ifs at h
    obtain ⟨-, rfl⟩ := Prod.mk.inj (Except.ok.inj h)
    refine .single (.account (forall₂_map fun n _ => ?_) rfl rfl)
    split_ifs
    · exact ⟨rfl, rfl, rfl, rfl⟩
    · exact SameMember.refl n
  | none =>
    rw [huser] at h
    obtain ⟨referrer, href, h⟩ := bind_eq_ok.mp h
    obtain ⟨v, hadmit, h⟩ := bind_eq_ok.mp h
    obtain ⟨-, rfl⟩ := Prod.mk.inj (Except.ok.inj h)
    exact admit_changes href hadmit

theorem resolveUser_changes {c : MemberSignIn} {code : Option PersonalCode} {creatorCode : Option String} {id : ℤ}
    (h : resolveUser c code creatorCode s = .ok (id, t)) : Changes s t := by
  unfold resolveUser at h
  cases hprovider : s.providers.find? c.isFor with
  | some p =>
    rw [hprovider] at h
    obtain ⟨-, rfl⟩ := Prod.mk.inj (Except.ok.inj h)
    exact .refl
  | none =>
    rw [hprovider] at h
    cases hemail : c.email.filter (· ≠ "") with
    | none =>
      rw [hemail] at h
      exact absurd h (by simp)
    | some email =>
      rw [hemail] at h
      obtain ⟨⟨userId, v⟩, hlink, h⟩ := bind_eq_ok.mp h
      obtain ⟨⟨linkedId, accounts⟩, -, h⟩ := bind_eq_ok.mp h
      obtain ⟨-, rfl⟩ := Prod.mk.inj (Except.ok.inj h)
      exact (linkOrCreateUser_changes hlink).tail (.of_same rfl rfl rfl)

theorem authenticateWithProvider_changes {c : MemberSignIn} {id : ℤ} (h : authenticateWithProvider g c s = .ok (id, t)) :
    Changes s t := by
  unfold authenticateWithProvider at h
  obtain ⟨⟨code, creatorCode⟩, -, h⟩ := bind_eq_ok.mp h
  rw [mapError_eq_ok] at h
  obtain ⟨⟨userId, v⟩, hresolve, h⟩ := bind_eq_ok.mp h
  have hchanges := resolveUser_changes hresolve
  cases huser : v.user? userId with
  | none => simp [huser, throw, throwThe, MonadExceptOf.throw] at h
  | some m =>
    simp only [huser] at h
    split_ifs at h
    obtain ⟨accounts, -, h⟩ := bind_eq_ok.mp h
    obtain ⟨-, rfl⟩ := Prod.mk.inj (Except.ok.inj h)
    exact hchanges.tail (.of_same rfl rfl rfl)

theorem adopt_change (accounts : AccountStore) (s : Network) : Change s (s.adopt accounts) := by
  refine .account (forall₂_map fun m _ => ?_) rfl rfl
  rw [if_pos rfl]
  show SameMember m (m.adopt accounts)
  unfold Member.adopt
  split
  · exact ⟨rfl, rfl, rfl, rfl⟩
  · exact SameMember.refl m

/-- A code that is applied. -/
theorem applyCode_changes {c : ApplyCode} (h : applyCurrentUserReferralCode c s = .ok t) : Changes s t := by
  unfold applyCurrentUserReferralCode at h
  obtain ⟨code, -, h⟩ := bind_eq_ok.mp h
  cases code with
  | none => simp [throw, throwThe, MonadExceptOf.throw] at h
  | some code =>
    dsimp only at h
    rw [mapError_eq_ok] at h
    unfold Network.applyCode at h
    cases huser : s.user? c.userId with
    | none => simp [huser] at h
    | some m =>
      rw [huser] at h
      dsimp only at h
      have hm := Table.find?_mem huser
      have hid : m.id = c.userId := by simpa using Table.find?_prop huser
      split_ifs at h with hreferred hwindow
      cases hresolve : s.resolveActiveReferrerId code with
      | error e => simp [hresolve] at h
      | ok referrerId =>
        rw [hresolve] at h
        dsimp only at h
        split_ifs at h with hself
        obtain ⟨i, hi, rfl, hcode⟩ := resolveActiveReferrerId_ok hresolve
        obtain ⟨hrow, husers, hrewards⟩ := createPendingReferral_ok h
        have hnew : NewRow i m (newReferral c.referralId i.id c.userId code c.now) :=
          { links := ⟨rfl, congrArg some hid.symm⟩
            other := fun heq => hself (heq.trans hid)
            code := congrArg Subtype.val hcode.symm
            window := by
              show c.now ≤ m.createdAt + day
              omega
            pending := rfl
            present := rfl
            unstamped := rfl }
        refine .single (.refer hm hi (Bool.not_eq_true _ ▸ hreferred) ?_ hrow hnew hrewards)
        rw [husers, hid]

end Calls

/-! ### A batch -/

section Batch

variable {s t : Network} {g : Settings} {now : ℤ} {fate : ItemFate} {r : Referral}

theorem Network.overlay_append (l m : List Write) (s : Network) :
    s.overlay now (l ++ m) = (s.overlay now l).bind (Network.overlay now m) := List.foldlM_append

/-- The row of `referrals` behind one of the batch's. -/
theorem mem_store {q : Referral} (hq : q ∈ s.store.referrals) : ∃ row ∈ s.referrals, row.toReferral = q :=
  List.mem_map.mp hq

/-- The grant of a referral that has just been validated. -/
theorem grant_changes {rewardId : ℤ} {row : ReferralRow} {u : Network} (hrow : row ∈ s.referrals)
    (hpending : row.status = .pending) (hu : s.apply now (.validate row.id) = some u)
    (hok : (grantPlusDaysReward g now rewardId row.toReferral s.store).result.isOk) :
    ∃ t, u.overlay now (grantPlusDaysReward g now rewardId row.toReferral s.store).writes = some t ∧ Changes s t := by
  have hrewards := (validate_rows hu).2.1
  unfold grantPlusDaysReward at hok ⊢
  split_ifs at hok ⊢ with hdays huser
  · exact absurd hok (by simp [Except.isOk, Except.toBool])
  · exact absurd hok (by simp [Except.isOk, Except.toBool])
  · dsimp only at hok ⊢
    cases hinsert : s.store.rewards.insert? (newReward g rewardId row.referrerUserId row.id now) with
    | some rewards =>
      have happly : u.apply now (.reward (newReward g rewardId row.referrerUserId row.id now)) = some { u with rewards } := by
        show (u.rewards.insert? _).map _ = _
        rw [hrewards]
        exact congrArg (Option.map _) hinsert
      refine ⟨_, ?_, .single (.reward hrow hpending rfl rfl hu happly)⟩
      simp [Network.overlay, happly]
    | none =>
      rw [hinsert] at hok
      cases hfound : rewardOf s.store.rewards row.id with
      | none =>
        rw [hfound] at hok
        exact absurd hok (by simp [Except.isOk, Except.toBool])
      | some w =>
        have hfor : w.referralId = some row.id := by simpa using Table.find?_prop hfound
        exact ⟨u, rfl, .single (.found hrow (Table.find?_mem hfound) hfor hu)⟩

/-- One item that returned. -/
theorem item_changes (hok : (processPendingReferral g now fate r s.store).result.isOk) :
    ∃ t, s.overlay now (processPendingReferral g now fate r s.store).writes = some t ∧ Changes s t := by
  unfold processPendingReferral at hok ⊢
  cases hf : fate.raisesAfter with
  | some n =>
    rw [hf] at hok
    exact absurd hok (by simp [Except.isOk, Except.toBool])
  | none =>
    rw [hf] at hok
    dsimp only at hok ⊢
    unfold itemStatements at hok ⊢
    split_ifs at hok ⊢ with hverified hlimit
    · obtain ⟨t, ht⟩ : ∃ t, s.apply now (.skip r.id "monthly_limit") = some t := ⟨_, rfl⟩
      exact ⟨t, ht, .single (.skip ht)⟩
    · cases hrow : s.store.referrals.find? (·.isPending r.id) with
      | none => exact ⟨s, rfl, .refl⟩
      | some q =>
        rw [hrow] at hok
        obtain ⟨row, hmem, rfl⟩ := mem_store (Table.find?_mem hrow)
        obtain ⟨hid, hpending⟩ := isPending_iff.mp (Table.find?_prop hrow)
        obtain ⟨u, hu⟩ : ∃ u, s.apply now (.validate r.id) = some u := ⟨_, rfl⟩
        obtain ⟨t, ht, hchanges⟩ := grant_changes hmem hpending (hid.symm ▸ hu) hok
        refine ⟨t, ?_, hchanges⟩
        dsimp only
        show (s.apply now (.validate r.id)).bind (Network.overlay now _) = _
        rw [hu]
        exact ht
    · obtain ⟨t, ht⟩ : ∃ t, s.apply now (.skip r.id "referrer_not_verified") = some t := ⟨_, rfl⟩
      exact ⟨t, ht, .single (.skip ht)⟩

/-- What a batch commits. -/
theorem items_changes (g : Settings) (now : ℤ) (fate : ℤ → ItemFate) : ∀ (l : List Referral) (s : Network),
    ∃ t, s.overlay now (committedWrites (processItems g now fate l s.store).1) = some t ∧ Changes s t ∧
      t.store = (processItems g now fate l s.store).2
  | [], s => ⟨s, rfl, .refl, rfl⟩
  | r :: rest, s => by
    unfold committedWrites
    rw [processItems]
    cases hok : (processPendingReferral g now (fate r.id) r s.store).result.isOk with
    | false =>
      obtain ⟨t, ht, hchanges, hstore⟩ := items_changes g now fate rest s
      unfold committedWrites at ht
      exact ⟨t, by simpa [hok, ItemStep.raised] using ht, hchanges, by simpa [hok] using hstore⟩
    | true =>
      obtain ⟨u, hu, hchanges⟩ := item_changes hok
      have hafter : overlay now (processPendingReferral g now (fate r.id) r s.store).writes s.store = some u.store := by
        rw [← overlay_store, hu]
        rfl
      obtain ⟨t, ht, hrest, hstore⟩ := items_changes g now fate rest u
      unfold committedWrites at ht
      refine ⟨t, ?_, hchanges.trans hrest, ?_⟩
      · simpa [hok, ItemStep.raised, Network.overlay_append, hu, hafter] using ht
      · simpa [hok, hafter] using hstore

/-- **A batch on the network is the batch on the columns it reads**, and a sequence of changes. -/
theorem processBatch_spec (g : Settings) (b : BatchCall) (s : Network) : ∃ t,
    processBatch g b s = some ((processItems g b.now b.fate (b.rows g s) s.store).1, t) ∧ Changes s t ∧
      t.store = (processItems g b.now b.fate (b.rows g s) s.store).2 := by
  obtain ⟨t, ht, hchanges, hstore⟩ := items_changes g b.now b.fate (b.rows g s) s
  refine ⟨t, ?_, hchanges, hstore⟩
  unfold processBatch
  dsimp only
  rw [ht]
  rfl

end Batch

/-! ### Runs -/

section Run

variable {g : NetworkSettings} {call : NetworkCall} {s t x : Network} {u : Unit} {l m : List (NetworkCall × Unit)}

/-- **What a call does**: changes, or a deletion. -/
theorem changes_of_ok (h : networkCall g call s = .ok (u, t)) :
    (∃ userId now, call = .delete userId now ∧ t = s.deleteUser userId now) ∨ Changes s t := by
  cases call with
  | register r =>
    obtain ⟨⟨id, v⟩, hregister, hv⟩ := map_eq_ok.mp h
    obtain rfl : v = t := (Prod.mk.inj hv).2
    exact Or.inr (registerUser_changes hregister)
  | signIn c =>
    obtain ⟨⟨id, v⟩, hsignIn, hv⟩ := map_eq_ok.mp h
    obtain rfl : v = t := (Prod.mk.inj hv).2
    exact Or.inr (authenticateWithProvider_changes hsignIn)
  | resend r =>
    unfold networkCall at h
    obtain ⟨v, -, hv⟩ := map_eq_ok.mp h
    obtain rfl : s.adopt v.2 = t := (Prod.mk.inj hv).2
    exact Or.inr (.single (adopt_change _ _))
  | verify r =>
    obtain rfl := (Prod.mk.inj (Except.ok.inj h)).2
    exact Or.inr (.single (adopt_change _ _))
  | login l =>
    unfold networkCall at h
    obtain ⟨v, -, hv⟩ := map_eq_ok.mp h
    obtain rfl : s.adopt v.2 = t := (Prod.mk.inj hv).2
    exact Or.inr (.single (adopt_change _ _))
  | apply c =>
    unfold networkCall at h
    obtain ⟨v, happly, hv⟩ := map_eq_ok.mp h
    have hv : ((), v) = (u, t) := hv
    obtain rfl : v = t := (Prod.mk.inj hv).2
    exact Or.inr (applyCode_changes happly)
  | process b =>
    obtain ⟨v, hbatch, hchanges, -⟩ := processBatch_spec g.referral b s
    simp only [networkCall, hbatch] at h
    obtain rfl := (Prod.mk.inj (Except.ok.inj h)).2
    exact Or.inr hchanges
  | delete userId now =>
    unfold networkCall at h
    dsimp only at h
    split_ifs at h
    exact Or.inl ⟨userId, now, rfl, (Prod.mk.inj (Except.ok.inj h)).2.symm⟩

theorem Changes.sound (hc : Changes s t) (h : SoundNetwork s) : SoundNetwork t := by
  induction hc with
  | refl => exact h
  | tail _ hstep ih => exact hstep.sound ih

theorem sound_of_ok (h : networkCall g call s = .ok (u, t)) (hs : SoundNetwork s) : SoundNetwork t := by
  rcases changes_of_ok h with ⟨userId, now, -, rfl⟩ | hchanges
  · exact deleteUser_sound hs
  · exact hchanges.sound hs

/-- **The referral graph.** In every state of every run the rows and
`referred_by_user_id` are one graph of live users, with one referral a user and none
of oneself, each made within a day of the registration with the code of its
referrer; and a referral is valid if and only if its referrer has a reward for it. -/
theorem referral_graph (h : Run (networkCall g) s l t) (hs : SoundNetwork s) : SoundNetwork t :=
  h.invariant (fun _ _ _ _ hx hop => sound_of_ok hop hx) hs

end Run

end Referrals
end FuelNear

/-
# The history of a referral

Over time a row of `referrals` keeps its edge and becomes valid at most; a
valid one stays, with its reward, until the account of its referrer is
deleted, though the account that it brought may go. What the app shows a user
is the same count twice: the valid referrals, and the rewards for referrals.

Key definitions: `LaterRow`, `Survives`, `Deletes`, `getCurrentUserReferrals`, `getCurrentUserRewards`.
Key theorems: `Change.later`, `Survives.delete`, `referral_history`, `referral_summary`.
-/
import FuelNear.Referrals.Graph

namespace FuelNear
namespace Referrals

open Sql Plus Auth History

/-! ### The history of a referral -/

/-- A later version of a row: the same edge, or what is left of it. -/
structure LaterRow (r r' : ReferralRow) : Prop where
  id : r'.id = r.id
  referrerUserId : r'.referrerUserId = r.referrerUserId
  referralCodeUsed : r'.referralCodeUsed = r.referralCodeUsed
  createdAt : r'.createdAt = r.createdAt
  referred : r'.referredUserId = r.referredUserId ∨ r'.referredUserId = none ∧ r'.referredUserDeleted = true
  deleted : r.referredUserDeleted = true → r'.referredUserDeleted = true
  status : r'.status = r.status ∨ r.status = .pending ∧ r'.status = .valid
  validatedAt : ∀ t ∈ r.validatedAt, t ∈ r'.validatedAt

/-- The account was deleted in the run. -/
def Deletes (l : List (NetworkCall × Unit)) (userId : ℤ) : Prop := ∃ now, (NetworkCall.delete userId now, ()) ∈ l

section History

variable {g : NetworkSettings} {s t x : Network} {l m : List (NetworkCall × Unit)}

theorem LaterRow.refl (r : ReferralRow) : LaterRow r r :=
  ⟨rfl, rfl, rfl, rfl, Or.inl rfl, fun hd => hd, Or.inl rfl, fun _ ht => ht⟩

theorem LaterRow.trans {p q r : ReferralRow} (h : LaterRow p q) (h' : LaterRow q r) : LaterRow p r where
  id := h'.id.trans h.id
  referrerUserId := h'.referrerUserId.trans h.referrerUserId
  referralCodeUsed := h'.referralCodeUsed.trans h.referralCodeUsed
  createdAt := h'.createdAt.trans h.createdAt
  referred := by
    rcases h'.referred with hr | hr
    · rcases h.referred with hq | hq
      · exact Or.inl (hr.trans hq)
      · exact Or.inr ⟨hr.trans hq.1, h'.deleted hq.2⟩
    · exact Or.inr hr
  deleted hp := h'.deleted (h.deleted hp)
  status := by
    rcases h.status with hq | ⟨hp, hq⟩
    · rw [← hq]
      exact h'.status
    · rcases h'.status with hr | ⟨hpending, -⟩
      · exact Or.inr ⟨hp, hr.trans hq⟩
      · rw [hq] at hpending
        exact absurd hpending (by simp)
  validatedAt t ht := h'.validatedAt t (h.validatedAt t ht)

theorem SameRow.later {r r' : ReferralRow} (h : SameRow r r') : LaterRow r r' where
  id := h.id
  referrerUserId := h.referrerUserId
  referralCodeUsed := h.referralCodeUsed
  createdAt := h.createdAt
  referred := Or.inl h.referredUserId
  deleted hr := h.referredUserDeleted.trans hr
  status := Or.inl h.status
  validatedAt _ ht := h.validatedAt ▸ ht

/-- A later store: every row in a later version, and every reward. -/
structure LaterNetwork (s t : Network) : Prop where
  rows : ∀ r ∈ s.referrals, ∃ r' ∈ t.referrals, LaterRow r r'
  rewards : ∀ w ∈ s.rewards, w ∈ t.rewards

theorem LaterNetwork.of_rows (hrows : t.referrals = s.referrals) (hrewards : ∀ w ∈ s.rewards, w ∈ t.rewards) :
    LaterNetwork s t :=
  ⟨fun r hr => ⟨r, hrows.symm ▸ hr, LaterRow.refl r⟩, hrewards⟩

theorem LaterNetwork.of_insert {r : ReferralRow} (hrow : s.referrals.insert? r = some t.referrals)
    (hrewards : t.rewards = s.rewards) : LaterNetwork s t :=
  ⟨fun q hq => ⟨q, (Table.mem_insert hrow).mpr (Or.inl hq), LaterRow.refl q⟩, fun _ hw => hrewards.symm ▸ hw⟩

theorem Change.later (hc : Change s t) (h : SoundNetwork s) : LaterNetwork s t := by
  cases hc with
  | account users referrals rewards => exact LaterNetwork.of_rows referrals fun _ hw => rewards.symm ▸ hw
  | enrol users alone referrals rewards => exact LaterNetwork.of_rows referrals fun _ hw => rewards.symm ▸ hw
  | invite users inviter named row new rewards => exact LaterNetwork.of_insert row rewards
  | refer user inviter unreferred users row new rewards => exact LaterNetwork.of_insert row rewards
  | grant free user inserts users referrals =>
    exact LaterNetwork.of_rows referrals fun v hv => (Table.mem_insert inserts).mpr (Or.inl hv)
  | @skip now id reason write =>
    refine ⟨fun r hr => ?_, fun w hw => ?_⟩
    · rw [← Option.some.inj write]
      refine ⟨_, Table.mem_update_of_mem (ReferralRow.skip_keys reason now) hr, ?_⟩
      split_ifs
      · exact SameRow.later ⟨⟨rfl, rfl, rfl, rfl, rfl, rfl⟩, rfl, rfl⟩
      · exact LaterRow.refl r
    · rwa [← Option.some.inj write]
  | @reward now r w u row pending for_row payee validates inserts =>
    obtain ⟨-, hrewards, hrows⟩ := validate_rows validates
    obtain ⟨rewards, hinsert, rfl⟩ := Option.map_eq_some_iff.mp inserts
    refine ⟨fun q hq => ?_, fun v hv => (Table.mem_insert hinsert).mpr (Or.inl (hrewards.symm ▸ hv))⟩
    refine ⟨if q.isPending r.id then q.onReferral (·.validated now) else q, ?_, ?_⟩
    · show _ ∈ u.referrals.rows
      rw [hrows]
      exact List.mem_map_of_mem hq
    · split_ifs with hpending
      · have hstatus := (isPending_iff.mp hpending).2
        refine ⟨rfl, rfl, rfl, rfl, Or.inl rfl, fun hd => hd, Or.inr ⟨hstatus, rfl⟩, fun t ht => ?_⟩
        -- a pending row has no stamp
        have hstamp := (h.paid.stamped q hq).mpr (by rw [Option.mem_def.mp ht]; rfl)
        rw [hstatus] at hstamp
        exact absurd hstamp (by simp)
      · exact LaterRow.refl q
  | found row reward for_row validates =>
    obtain rfl := h.found row reward for_row validates
    exact LaterNetwork.of_rows rfl fun _ hw => hw

theorem LaterNetwork.trans (h : LaterNetwork s x) (h' : LaterNetwork x t) : LaterNetwork s t := by
  refine ⟨fun r hr => ?_, fun w hw => h'.rewards w (h.rewards w hw)⟩
  obtain ⟨q, hq, hlater⟩ := h.rows r hr
  obtain ⟨r', hr', hlater'⟩ := h'.rows q hq
  exact ⟨r', hr', hlater.trans hlater'⟩

theorem Changes.later (hc : Changes s t) (h : SoundNetwork s) : LaterNetwork s t := by
  induction hc with
  | refl => exact LaterNetwork.of_rows rfl fun _ hw => hw
  | tail hfirst hstep ih => exact ih.trans (hstep.later (Changes.sound hfirst h))

theorem Deletes.append {userId : ℤ} (h : Deletes l userId) (m : List (NetworkCall × Unit)) : Deletes (l ++ m) userId := by
  obtain ⟨now, hmem⟩ := h
  exact ⟨now, List.mem_append_left m hmem⟩

/-- A later version of the row, with its reward. -/
def Survives (x t : Network) (r : ReferralRow) : Prop :=
  ∃ r' ∈ t.referrals, LaterRow r r' ∧ ∀ w ∈ x.rewards, w.referralId = some r.id → w ∈ t.rewards

/-- A deletion takes a referral that survived so far only with its referrer, or
with the user it named, if it is not valid. -/
theorem Survives.delete {y : Network} {r : ReferralRow} (h : Survives x y r) (hy : SoundNetwork y) (userId now : ℤ) :
    Survives x (y.deleteUser userId now) r ∨ r.referrerUserId = userId ∨
      r.status ≠ .valid ∧ r.referredUserId = some userId := by
  obtain ⟨r', hr', hlater, hrewards⟩ := h
  by_cases hreferrer : r'.referrerUserId = userId
  · exact Or.inr (Or.inl (hlater.referrerUserId.symm.trans hreferrer))
  have hstays : ∀ q ∈ y.keptReferrals userId now, q.id = r'.id → ∀ w ∈ x.rewards, w.referralId = some r.id →
      w ∈ (y.deleteUser userId now).rewards := by
    intro q hq hid w hw hfor
    have hfor' : w.referralId = some r'.id := by rw [hfor, hlater.id]
    refine reward_kept (hrewards w hw hfor) ?_ hq (hfor'.trans (congrArg some hid.symm))
    rw [hy.paid.payee r' hr' w (hrewards w hw hfor) hfor']
    exact hreferrer
  by_cases hown : r'.referredUserId = some userId
  · by_cases hvalid : r'.status = .valid
    · have hkept : r'.forget now ∈ y.keptReferrals userId now := mem_kept.mpr ⟨r', hr', hreferrer, Or.inr ⟨hown, hvalid, rfl⟩⟩
      have hforget : LaterRow r' (r'.forget now) :=
        ⟨rfl, rfl, rfl, rfl, Or.inr ⟨rfl, rfl⟩, fun _ => rfl, Or.inl rfl, fun _ ht => ht⟩
      exact Or.inl ⟨r'.forget now, hkept, hlater.trans hforget, hstays _ hkept rfl⟩
    · refine Or.inr (Or.inr ⟨?_, ?_⟩)
      · rcases hlater.status with hs | ⟨-, hs⟩
        · rwa [← hs]
        · exact absurd hs hvalid
      · rcases hlater.referred with hr | hr
        · exact hr.symm.trans hown
        · rw [hr.1] at hown
          exact absurd hown (by simp)
  · have hkept : r' ∈ y.keptReferrals userId now := mem_kept.mpr ⟨r', hr', hreferrer, Or.inl ⟨hown, rfl⟩⟩
    exact Or.inl ⟨r', hkept, hlater, hstays r' hkept rfl⟩

/-- **The history of a referral.** It keeps its edge, and becomes valid at most; a
reward once granted stays with it. It is lost only with the account of its referrer,
or, if it is not valid, with that of the user who was referred. -/
theorem referral_history (h : Run (networkCall g) s l x) (h' : Run (networkCall g) x m t) (hs : SoundNetwork s)
    {r : ReferralRow} (hr : r ∈ x.referrals) : Survives x t r ∨ Deletes m r.referrerUserId ∨
      r.status ≠ .valid ∧ ∃ userId, r.referredUserId = some userId ∧ Deletes m userId := by
  have hx := referral_graph h hs
  induction h' with
  | start => exact Or.inl ⟨r, hr, LaterRow.refl r, fun w hw _ => hw⟩
  | @done m y call out t hrun hop ih =>
    have hy := referral_graph hrun hx
    rcases ih with hsurvives | hdeleted | ⟨hstatus, userId, hreferred, hdeleted⟩
    · rcases changes_of_ok hop with ⟨userId, now, rfl, rfl⟩ | hchanges
      · have hmem : Deletes (m ++ [(.delete userId now, out)]) userId := ⟨now, List.mem_append_right m List.mem_cons_self⟩
        rcases hsurvives.delete hy userId now with hsurvives | hreferrer | ⟨hstatus, hreferred⟩
        · exact Or.inl hsurvives
        · exact Or.inr (Or.inl (hreferrer ▸ hmem))
        · exact Or.inr (Or.inr ⟨hstatus, userId, hreferred, hmem⟩)
      · obtain ⟨r', hr', hlater, hrewards⟩ := hsurvives
        have hnext := hchanges.later hy
        obtain ⟨r'', hr'', hlater'⟩ := hnext.rows r' hr'
        exact Or.inl ⟨r'', hr'', hlater.trans hlater', fun w hw hfor => hnext.rewards w (hrewards w hw hfor)⟩
    · exact Or.inr (Or.inl (hdeleted.append _))
    · exact Or.inr (Or.inr ⟨hstatus, userId, hreferred, hdeleted.append _⟩)
  | refused _ _ ih => exact ih

end History

/-! ### What the app shows -/

/-- `summary`. -/
structure ReferralCounts where
  pendingCount : ℕ
  validCount : ℕ
  invalidCount : ℕ
  totalCount : ℕ
  deriving DecidableEq

/-- An item, without the user that was referred. -/
structure ReferralItem where
  id : ℤ
  referralCodeUsed : String
  status : ReferralStatus
  statusReason : Option String
  referredUserDeleted : Bool
  validatedAt : Option ℤ
  createdAt : ℤ
  updatedAt : ℤ
  deriving DecidableEq

def ReferralRow.item (r : ReferralRow) : ReferralItem where
  id := r.id
  referralCodeUsed := r.referralCodeUsed
  status := r.status
  statusReason := r.statusReason
  referredUserDeleted := r.referredUserDeleted
  validatedAt := r.validatedAt
  createdAt := r.createdAt
  updatedAt := r.updatedAt

/-- `WHERE referrer_user_id = …`. -/
def Network.referralsOf (s : Network) (userId : ℤ) : List ReferralRow :=
  s.referrals.rows.filter fun r => r.referrerUserId = userId

/-- The COUNTs. -/
def countsOf (rows : List ReferralRow) : ReferralCounts where
  pendingCount := rows.countP fun r => r.status = .pending
  validCount := rows.countP fun r => r.status = .valid
  invalidCount := rows.countP fun r => r.status = .invalid
  totalCount := rows.length

/-- `get_current_user_referrals`: the summary, and the items from the newest on. -/
def getCurrentUserReferrals (scan : Scan ReferralRow) (userId : ℤ) (s : Network) : ReferralCounts × List ReferralItem :=
  (countsOf (s.referralsOf userId), (orderBy scan (fun r => -r.createdAt) (s.referralsOf userId)).map ReferralRow.item)

/-- `WHERE user_id = …`. -/
def Network.rewardsOf (s : Network) (userId : ℤ) : List StoredReward := s.rewards.rows.filter fun w => w.userId = userId

/-- `get_current_user_rewards`: the count, and the items; a reward is created at
the instant at which it is granted. -/
def getCurrentUserRewards (scan : Scan StoredReward) (userId : ℤ) (s : Network) : ℕ × List StoredReward :=
  ((s.rewardsOf userId).length, orderBy scan (fun w => -w.grantedAt.getD 0) (s.rewardsOf userId))

section Shown

variable {g : NetworkSettings} {s t : Network} {l : List (NetworkCall × Unit)} {userId : ℤ}

theorem mem_referralsOf {r : ReferralRow} : r ∈ t.referralsOf userId ↔ r ∈ t.referrals ∧ r.referrerUserId = userId := by
  unfold Network.referralsOf
  rw [List.mem_filter, decide_eq_true_eq]
  rfl

theorem mem_rewardsOf {w : StoredReward} : w ∈ t.rewardsOf userId ↔ w ∈ t.rewards ∧ w.userId = userId := by
  unfold Network.rewardsOf
  rw [List.mem_filter, decide_eq_true_eq]
  rfl

theorem referralIds_nodup (t : Network) : (t.referrals.rows.map (·.id)).Nodup := by
  rw [List.Nodup, List.pairwise_map]
  refine (List.nodup_flatMap.mp t.referrals.unique).2.imp fun {q r} hdisj heq => ?_
  exact hdisj (a := .inl q.id) (by simp [ReferralRow.keys, Referral.keys])
    (by simp [ReferralRow.keys, Referral.keys, heq])

theorem rewardedIds_nodup (t : Network) : (t.rewards.rows.filterMap (·.referralId)).Nodup := by
  have hsub : ∀ l : List StoredReward,
      ((l.filterMap (·.referralId)).map (Sum.inr : ℤ → ℤ ⊕ ℤ)).Sublist (l.flatMap StoredReward.keys) := by
    intro l
    induction l with
    | nil => exact List.Sublist.refl _
    | cons w l ih =>
      rw [List.flatMap_cons, List.filterMap_cons]
      cases hid : w.referralId with
      | none => exact ih.trans (List.sublist_append_right _ _)
      | some id =>
        have hkeys : StoredReward.keys w = [.inl w.id, .inr id] := by simp [StoredReward.keys, hid]
        rw [hkeys]
        exact (ih.cons_cons _).cons _
  exact (t.rewards.unique.sublist (hsub _)).of_map _

/-- The valid referrals of a user are those that the user has a reward for. -/
theorem SoundNetwork.valid_ids (h : SoundNetwork t) (userId : ℤ) :
    (((t.referralsOf userId).filter fun r => r.status = .valid).map (·.id)).Perm
      ((t.rewardsOf userId).filterMap (·.referralId)) := by
  have hleft : (((t.referralsOf userId).filter fun r => r.status = .valid).map (·.id)).Nodup :=
    (referralIds_nodup t).sublist ((List.filter_sublist.trans List.filter_sublist).map _)
  have hright : ((t.rewardsOf userId).filterMap (·.referralId)).Nodup :=
    (rewardedIds_nodup t).sublist (List.filter_sublist.filterMap _)
  refine (List.perm_ext_iff_of_nodup hleft hright).mpr fun id => ?_
  simp only [List.mem_map, List.mem_filter, List.mem_filterMap, mem_referralsOf, mem_rewardsOf, decide_eq_true_eq]
  constructor
  · rintro ⟨r, ⟨⟨hr, hreferrer⟩, hvalid⟩, rfl⟩
    obtain ⟨w, hw, hfor⟩ := (h.paid.rewarded r hr).mp hvalid
    exact ⟨w, ⟨hw, (h.paid.payee r hr w hw hfor).trans hreferrer⟩, hfor⟩
  · rintro ⟨w, ⟨hw, huser⟩, hfor⟩
    obtain ⟨r, hr, rfl⟩ := h.keys.rewarded w hw id hfor
    exact ⟨r, ⟨⟨hr, (h.paid.payee r hr w hw hfor).symm.trans huser⟩, (h.paid.rewarded r hr).mpr ⟨w, hw, hfor⟩⟩, rfl⟩

theorem countsOf_total (rows : List ReferralRow) : (countsOf rows).totalCount =
    (countsOf rows).pendingCount + (countsOf rows).validCount + (countsOf rows).invalidCount := by
  unfold countsOf
  induction rows with
  | nil => rfl
  | cons r rows ih =>
    dsimp only at ih ⊢
    rw [List.length_cons, List.countP_cons, List.countP_cons, List.countP_cons, ih]
    cases r.status <;> simp <;> omega

theorem length_filterMap_isSome (l : List StoredReward) :
    (l.filterMap (·.referralId)).length = l.countP (·.referralId.isSome) := by
  induction l with
  | nil => rfl
  | cons w l ih =>
    rw [List.filterMap_cons, List.countP_cons, ← ih]
    cases w.referralId <;> rfl

/-- **The two screens agree.** In every state of a run the summary of a user's
referrals adds up, its items are its rows, the newest first, and it counts as many
valid referrals as there are rewards for referrals among the user's rewards. -/
theorem referral_summary (h : Run (networkCall g) s l t) (hs : SoundNetwork s) (scan : Scan ReferralRow)
    (scan' : Scan StoredReward) (userId : ℤ) :
    let (counts, items) := getCurrentUserReferrals scan userId t
    let (count, rewards) := getCurrentUserRewards scan' userId t
    counts.totalCount = counts.pendingCount + counts.validCount + counts.invalidCount ∧
      counts.totalCount = items.length ∧ items.Pairwise (fun a b => b.createdAt ≤ a.createdAt) ∧
      count = rewards.length ∧ counts.validCount = rewards.countP (·.referralId.isSome) := by
  have ht := referral_graph h hs
  have hitems : (orderBy scan (fun r => -r.createdAt) (t.referralsOf userId)).Perm (t.referralsOf userId) := orderBy_perm
  have hrewards : (orderBy scan' (fun w => -w.grantedAt.getD 0) (t.rewardsOf userId)).Perm (t.rewardsOf userId) :=
    orderBy_perm
  refine ⟨countsOf_total _, ?_, ?_, hrewards.length_eq.symm, ?_⟩
  · rw [List.length_map, hitems.length_eq]
    rfl
  · rw [List.pairwise_map]
    refine orderBy_pairwise.imp fun {a b} hab => ?_
    show b.createdAt ≤ a.createdAt
    omega
  · show (t.referralsOf userId).countP _ = _
    rw [hrewards.countP_eq, ← length_filterMap_isSome, ← (ht.valid_ids userId).length_eq, List.length_map,
      List.countP_eq_length_filter]

end Shown

/-! ### A network to run the model on -/

def sampleNetwork : NetworkSettings := ⟨Auth.sampleAccounts, sampleSettings⟩

def sampleCode (n : ℕ) : PersonalCode := if n = 1 then ⟨"AAAAAAA1", by decide +kernel⟩ else ⟨"AAAAAAA2", by decide +kernel⟩

/-- A user signs in with Google for the first time, perhaps with a code. -/
def sampleSignIn (id now : ℤ) (email token : String) (code : Option String) : MemberSignIn where
  provider := .google
  providerUserId := token
  email := some email
  emailVerified := true
  ciphertext := none
  userId := id
  providerRowId := id
  session := ⟨none, ⟨token, token ++ "r"⟩, id, now, now⟩
  referralCode := none
  inviteCode := code
  candidates := [sampleCode id.toNat]
  referralId := id
  attribution := .error (.other "no creator code")

/-- The user 1 invites the user 2. -/
def sampleInvited : List NetworkCall := [
  .signIn (sampleSignIn 1 1 "ada@x.it" "a" none),
  .signIn (sampleSignIn 2 2 "eve@x.it" "b" (some " aaaaaaa1 "))]

/-- The referral is processed a week later; then the user 2 leaves. -/
def sampleLeft : List NetworkCall := [
  .apply ⟨1, some "AAAAAAA1", 3, 3⟩,
  .process ⟨7 * day + 2, none, [], fun _ => ⟨1, none⟩⟩,
  .delete 2 (8 * day)]

def sampleInvitedStore : Network := (execute (networkCall sampleNetwork) Network.empty sampleInvited).2

def sampleLeftStore : Network := (execute (networkCall sampleNetwork) sampleInvitedStore sampleLeft).2

theorem sampleInvited_run : Run (networkCall sampleNetwork) Network.empty
    (execute (networkCall sampleNetwork) Network.empty sampleInvited).1 sampleInvitedStore := run_execute _ _ _

theorem sampleLeft_run : Run (networkCall sampleNetwork) sampleInvitedStore
    (execute (networkCall sampleNetwork) sampleInvitedStore sampleLeft).1 sampleLeftStore := run_execute _ _ _

/-- The referral of the sample at its end. -/
theorem referral_graph_sample : SoundNetwork sampleLeftStore ∧
    sampleLeftStore.referrals.rows.map (fun r => (r.id, r.referrerUserId, r.referredUserId, r.status)) =
      [(2, 1, none, .valid)] :=
  ⟨referral_graph (sampleInvited_run.trans sampleLeft_run) soundNetwork_empty, by decide +kernel⟩

/-- It was pending before, and the user 1 has not left. -/
theorem referral_history_sample : ∃ r ∈ sampleInvitedStore.referrals, r.status = .pending ∧
    (Survives sampleInvitedStore sampleLeftStore r ∨
      Deletes (execute (networkCall sampleNetwork) sampleInvitedStore sampleLeft).1 r.referrerUserId ∨
      r.status ≠ .valid ∧ ∃ userId, r.referredUserId = some userId ∧
        Deletes (execute (networkCall sampleNetwork) sampleInvitedStore sampleLeft).1 userId) := by
  have hrow : (sampleInvitedStore.referrals.find? fun r => r.status = .pending).isSome := by decide +kernel
  obtain ⟨r, hr⟩ := Option.isSome_iff_exists.mp hrow
  have hmem := Table.find?_mem hr
  exact ⟨r, hmem, by simpa using Table.find?_prop hr,
    referral_history sampleInvited_run sampleLeft_run soundNetwork_empty hmem⟩

/-- One valid referral, one reward. -/
theorem referral_summary_sample :
    (getCurrentUserReferrals (Scan.table _) 1 sampleLeftStore).1 = ⟨0, 1, 0, 1⟩ ∧
      (getCurrentUserReferrals (Scan.table _) 1 sampleLeftStore).1.validCount =
        (getCurrentUserRewards (Scan.table _) 1 sampleLeftStore).2.countP (·.referralId.isSome) := by
  obtain ⟨-, -, -, -, hcount⟩ := referral_summary (sampleInvited_run.trans sampleLeft_run) soundNetwork_empty
    (Scan.table _) (Scan.table _) 1
  exact ⟨by decide +kernel, hcount⟩

end Referrals
end FuelNear

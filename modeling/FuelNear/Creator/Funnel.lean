/-
# The funnel of a campaign

What moves an attribution along: the code that is applied, the conversions that
are recorded, the batches of the milestone worker, the deletion of the account.
All of them write the one table, in any order, while administrators create
campaigns and move their status; `programCall` is one transaction of any of
them.

What one transaction can do to a row is said once (`Evolves`). From it: the row
keeps its identity and its stamps (`Later`), a row is active exactly while it
has its user, and a qualified one is verified (`Sound`).

Key definitions: `Program`, `FunnelRow`, `programCall`, `Evolves`, `Sound`, `Later`,
`getCreatorCampaignSummary`.
Key theorems: `stepped_of_ok`, `sound_run`, `extends_run`, `funnel_ordered`, `funnel_history`,
`ended_run`, `campaign_life`.
-/
import FuelNear.Creator.Campaigns
import FuelNear.Creator.FirstTouch
import FuelNear.History
import FuelNear.Referrals.Workers

namespace FuelNear
namespace Creator

open Sql Apple Text Plus History
open Referrals (UserRow day recordCreatorReferralConversion awaitsPlus plusConverted plusConverted_keys)

/-! ### The rows -/

/-- The columns of `creator_attributions` that only the funnel writes. -/
structure Stamps where
  verifiedAt : Option ℤ
  qualifiedAt : Option ℤ
  anonymizedAt : Option ℤ
  deriving DecidableEq

/-- The tables of the creator program; `stamps` are columns of the attributions, by the id. -/
structure Program where
  roster : Roster
  ledger : Ledger
  stamps : ℤ → Stamps

/-- A whole row of `creator_attributions`. -/
structure FunnelRow where
  attribution : CreatorAttribution
  stamps : Stamps
  deriving DecidableEq

def Program.rows (s : Program) : List FunnelRow := s.ledger.attributions.rows.map fun a => ⟨a, s.stamps a.id⟩

theorem Program.mem_rows {s : Program} {r : FunnelRow} :
    r ∈ s.rows ↔ r.attribution ∈ s.ledger.attributions ∧ r.stamps = s.stamps r.attribution.id := by
  unfold Program.rows
  rw [List.mem_map]
  constructor
  · rintro ⟨a, ha, rfl⟩
    exact ⟨ha, rfl⟩
  · intro ⟨ha, hstamps⟩
    exact ⟨r.attribution, ha, by rw [← hstamps]⟩

/-- Before the first creator. -/
def Program.empty : Program := ⟨.empty, ⟨.empty, .empty⟩, fun _ => ⟨none, none, none⟩⟩

/-! ### Applying a code -/

/-- What an application finds in the other tables. -/
structure Elsewhere where
  accounts : Accounts
  createdAt : ℤ → ℤ
  apple : AppleTable
  rewards : StoredRewards
  subscriptions : SubscriptionTable

theorem creatorRow_keys (c : CreatorRecord) : ((CreatorRow.keys c.toCreatorRow).map Sum.inl).Sublist c.keys :=
  List.sublist_append_left [Sum.inl c.id] [Sum.inr c.slug]

theorem creatorCampaign_keys (c : CampaignRecord) : ((CreatorCampaign.keys c.toCreatorCampaign).map id).Sublist c.keys := by
  rw [List.map_id]
  exact List.Sublist.refl _

/-- The catalog that an application reads. -/
def Program.catalog (s : Program) (o : Elsewhere) : Catalog where
  accounts := o.accounts
  createdAt := o.createdAt
  creators := s.roster.creators.project CreatorRecord.toCreatorRow Sum.inl creatorRow_keys
  campaigns := s.roster.campaigns.project CampaignRecord.toCreatorCampaign id creatorCampaign_keys
  apple := o.apple

/-- The stamps of a new row; `mark_verified` sets the first. -/
def newStamps (now : ℤ) (markVerified : Bool) : Stamps := ⟨if markVerified then some now else none, none, none⟩

/-- `apply_registration_creator_attribution`, with the stamps. -/
def applyCreatorCode (o : Elsewhere) (c : ApplyCall) (markVerified : Bool) (s : Program) :
    Except RegistrationError (CreatorAttributionResult × Program) := do
  let (result, t) ← applyRegistrationCreatorAttribution (s.catalog o) c ⟨s.ledger, o.rewards, o.subscriptions⟩
  let stamps := if result.created then Function.update s.stamps result.attributionId (newStamps c.now markVerified)
    else s.stamps
  return (result, { s with ledger := t.ledger, stamps })

/-! ### The milestone worker -/

abbrev UserTable := Table UserRow UserRow.keys

/-- `attributed_user.id = attribution.user_id`. -/
def userOf (users : UserTable) (a : CreatorAttribution) : Option UserRow :=
  a.userId.bind fun id => users.find? fun u => u.id = id

def awaitsVerification (u : UserRow) (m : Stamps) : Bool := m.verifiedAt.isNone && u.isEmailVerified

def awaitsQualification (days : ℕ) (now : ℤ) (u : UserRow) (r : FunnelRow) : Bool :=
  r.stamps.qualifiedAt.isNone && u.isActive && u.isEmailVerified && r.attribution.attributedAt + days * day ≤ now

/-- The condition of the SELECT, and of the UPDATE of `updated_at`. -/
def isDue (days : ℕ) (now : ℤ) (u : UserRow) (r : FunnelRow) : Bool :=
  awaitsVerification u r.stamps || awaitsQualification days now u r

/-- A row of the SELECT. -/
structure MilestoneRow where
  id : ℤ
  verifiedAt : Option ℤ
  qualifiedAt : Option ℤ
  deriving DecidableEq

/-- What a batch finds: its CURRENT_TIMESTAMP, the users at its SELECT and at the
UPDATE of a row, the rows that others have locked, and the UPDATEs that raise. -/
structure BatchView where
  now : ℤ
  users : UserTable
  usersAt : ℤ → UserTable
  locked : List ℤ
  raises : ℤ → Bool

/-- The SELECT without the cursor and the limit. -/
def foundRow (days : ℕ) (view : BatchView) (r : FunnelRow) : Option MilestoneRow :=
  if r.attribution.isActive && (userOf view.users r.attribution).any (isDue days view.now · r) &&
      !view.locked.contains r.attribution.id then
    some ⟨r.attribution.id, r.stamps.verifiedAt, r.stamps.qualifiedAt⟩
  else none

def foundRows (days : ℕ) (view : BatchView) (s : Program) : List MilestoneRow := s.rows.filterMap (foundRow days view)

/-- The CASE expressions of the UPDATE; all of them see the row as it was. -/
def stamped (days : ℕ) (now : ℤ) (u : UserRow) (r : FunnelRow) : Stamps :=
  { r.stamps with
    verifiedAt := if awaitsVerification u r.stamps then some now else r.stamps.verifiedAt
    qualifiedAt := if awaitsQualification days now u r then some now else r.stamps.qualifiedAt }

/-- The row that the UPDATE of an id reaches, with its user. -/
def reachedRow (users : UserTable) (id : ℤ) (s : Program) : Option (FunnelRow × UserRow) :=
  (s.rows.find? fun r => r.attribution.id = id && r.attribution.isActive).bind fun r =>
    (userOf users r.attribution).map fun u => (r, u)

/-- `UPDATE creator_attributions … RETURNING verified_at, qualified_at`. -/
def stampAttribution (days : ℕ) (now : ℤ) (users : UserTable) (id : ℤ) (s : Program) : Option Stamps × Program :=
  match reachedRow users id s with
  | none => (none, s)
  | some (r, u) =>
    (some (stamped days now u r), { s with stamps := Function.update s.stamps id (stamped days now u r) })

/-- The counts of a call. -/
structure MilestoneCounts where
  scanned : ℕ
  processed : ℕ
  verified : ℕ
  qualified : ℕ
  skipped : ℕ
  failed : ℕ
  batches : ℕ
  deriving DecidableEq

def MilestoneCounts.zero : MilestoneCounts := ⟨0, 0, 0, 0, 0, 0, 0⟩

def verifiedChanged (row : MilestoneRow) (m : Stamps) : Bool := row.verifiedAt.isNone && m.verifiedAt.isSome

def qualifiedChanged (row : MilestoneRow) (m : Stamps) : Bool := row.qualifiedAt.isNone && m.qualifiedAt.isSome

/-- The counts after an UPDATE that returned `updated`. -/
def MilestoneCounts.add (row : MilestoneRow) (updated : Option Stamps) (c : MilestoneCounts) : MilestoneCounts :=
  match updated with
  | none => { c with skipped := c.skipped + 1 }
  | some m =>
    { c with
      processed := c.processed + 1
      verified := c.verified + (verifiedChanged row m).toNat
      qualified := c.qualified + (qualifiedChanged row m).toNat
      skipped := c.skipped + (!verifiedChanged row m && !qualifiedChanged row m).toNat }

/-- One row of a batch, under its savepoint. -/
def processMilestone (days : ℕ) (view : BatchView) (row : MilestoneRow) (c : MilestoneCounts × Program) :
    MilestoneCounts × Program :=
  if view.raises row.id then ({ c.1 with failed := c.1.failed + 1 }, c.2)
  else
    let (updated, s) := stampAttribution days view.now (view.usersAt row.id) row.id c.2
    (c.1.add row updated, s)

/-- The rows of a batch, one after the other. -/
def processMilestones (days : ℕ) (view : BatchView) (batch : List MilestoneRow) (c : MilestoneCounts × Program) :
    MilestoneCounts × Program :=
  batch.foldl (fun c row => processMilestone days view row c) c

/-! ### The deletion of an account -/

def CreatorAttribution.anonymized (a : CreatorAttribution) : CreatorAttribution :=
  { a with userId := none, status := .anonymized, userDeleted := true }

theorem anonymized_keys (a : CreatorAttribution) : a.anonymized.keys.Sublist a.keys :=
  List.sublist_append_left [Sum.inl a.id] (a.userId.toList.map Sum.inr)

/-- The attributions in the transaction of the account deletion. It is rolled
back if the user is not found. -/
def anonymizeCreatorAttributions (userFound : Bool) (userId now : ℤ) (s : Program) : Except String (Unit × Program) :=
  if userFound then
    .ok ((), { s with
      ledger := { s.ledger with
        attributions := s.ledger.attributions.update (fun a => a.userId = some userId) (·.anonymized) anonymized_keys }
      stamps := fun id => if s.ledger.attributions.rows.any fun a => a.id = id && a.userId = some userId then
          { s.stamps id with anonymizedAt := some now }
        else s.stamps id })
  else .error "User not found"

/-! ### The transactions -/

/-- A transaction on the tables of the program, with what it finds elsewhere. -/
inductive ProgramCall where
  | createCreator (name slug : String) (now : ℤ)
  | createCampaign (r : CampaignRequest) (now : ℤ)
  | updateStatus (campaignId : ℤ) (status : String) (now : ℤ)
  | apply (o : Elsewhere) (c : ApplyCall) (markVerified : Bool)
  | appleConversion (apple : AppleTable) (c : AppleConversion)
  | referralConversion (reward : StoredReward)
  | milestones (days : ℕ) (view : BatchView) (batch : List MilestoneRow)
  | deleteAccount (userFound : Bool) (userId now : ℤ)

/-- The state that a call leaves, without its answer. -/
def leaves {ε ρ σ τ : Type*} (f : σ → τ) : Except ε (ρ × σ) → Except Unit (Unit × τ)
  | .ok (_, s) => .ok ((), f s)
  | .error _ => .error ()

theorem leaves_ok {ε ρ σ τ : Type*} {f : σ → τ} {x : Except ε (ρ × σ)} {t : τ} {u : Unit}
    (h : leaves f x = .ok (u, t)) : ∃ out s, x = .ok (out, s) ∧ f s = t := by
  cases x with
  | error e => exact absurd h (by simp [leaves])
  | ok y => exact ⟨y.1, y.2, rfl, (Prod.mk.inj (Except.ok.inj h)).2⟩

def programCall (call : ProgramCall) (s : Program) : Except Unit (Unit × Program) :=
  match call with
  | .createCreator name slug now => leaves (fun roster => { s with roster }) (createCreator name slug now s.roster)
  | .createCampaign r now => leaves (fun roster => { s with roster }) (createCreatorCampaign r now s.roster)
  | .updateStatus campaignId status now =>
    leaves (fun roster => { s with roster }) (updateCreatorCampaignStatus campaignId status now s.roster)
  | .apply o c markVerified => leaves id (applyCreatorCode o c markVerified s)
  | .appleConversion apple c => leaves (fun ledger => { s with ledger }) (recordCreatorAppleConversion c apple s.ledger)
  | .referralConversion reward =>
    leaves (fun ledger => { s with ledger }) (recordCreatorReferralConversion reward s.ledger)
  | .milestones days view batch => .ok ((), (processMilestones days view batch (.zero, s)).2)
  | .deleteAccount userFound userId now => leaves id (anonymizeCreatorAttributions userFound userId now s)

/-! ### The summary of a campaign -/

/-- `current_funnel`, `historical_funnel`. -/
structure FunnelCounts where
  attributed : ℕ
  verified : ℕ
  qualified : ℕ
  plusConverted : ℕ
  paidPlusConverted : ℕ
  deriving DecidableEq

/-- `status_counts`. -/
structure StatusCounts where
  activeCount : ℕ
  anonymizedCount : ℕ
  invalidCount : ℕ
  deriving DecidableEq

structure CampaignSummary where
  creator : CreatorRecord
  campaign : CampaignRecord
  currentFunnel : FunnelCounts
  historicalFunnel : FunnelCounts
  statusCounts : StatusCounts

/-- `status = 'active' AND user_deleted = FALSE AND user_id IS NOT NULL`. -/
def FunnelRow.isCurrent (r : FunnelRow) : Bool := r.attribution.isActive && r.attribution.userId.isSome

/-- `status IN ('active', 'anonymized')`. -/
def FunnelRow.isHistorical (r : FunnelRow) : Bool :=
  r.attribution.status = .active || r.attribution.status = .anonymized

/-- The counts over the rows of a kind. -/
def funnelCounts (kind : FunnelRow → Bool) (rows : List FunnelRow) : FunnelCounts where
  attributed := rows.countP kind
  verified := rows.countP fun r => kind r && r.stamps.verifiedAt.isSome
  qualified := rows.countP fun r => kind r && r.stamps.qualifiedAt.isSome
  plusConverted := rows.countP fun r => kind r && r.attribution.plusConvertedAt.isSome
  paidPlusConverted := rows.countP fun r => kind r && r.attribution.paidPlusConvertedAt.isSome

def statusCounts (rows : List FunnelRow) : StatusCounts where
  activeCount := rows.countP fun r => r.attribution.status = .active
  anonymizedCount := rows.countP fun r => r.attribution.status = .anonymized
  invalidCount := rows.countP fun r => r.attribution.status = .invalid

/-- `FROM creator_attributions WHERE campaign_id = …`. -/
def Program.rowsOf (s : Program) (campaignId : ℤ) : List FunnelRow :=
  s.rows.filter fun r => r.attribution.campaignId = campaignId

/-- `get_creator_campaign_summary`. -/
def getCreatorCampaignSummary (campaignId : ℤ) (s : Program) : Except AdminError CampaignSummary :=
  if campaignId ≤ 0 then .error (.validation "campaign_id is invalid")
  else
    match s.roster.campaign? campaignId with
    | none => .error .campaignNotFound
    | some campaign =>
      match s.roster.creator? campaign.creatorId with
      | none => .error .campaignNotFound
      | some creator =>
        .ok {
          creator
          campaign
          currentFunnel := funnelCounts FunnelRow.isCurrent (s.rowsOf campaignId)
          historicalFunnel := funnelCounts FunnelRow.isHistorical (s.rowsOf campaignId)
          statusCounts := statusCounts (s.rowsOf campaignId) }

/-! ### What happens to a row -/

/-- The instant is kept, or moved to an earlier one. -/
def NotLater (p q : Option ℤ) : Prop := ∀ x ∈ p, ∃ y ∈ q, y ≤ x

theorem NotLater.refl (p : Option ℤ) : NotLater p p := fun x hx => ⟨x, hx, le_rfl⟩

theorem NotLater.trans {p q r : Option ℤ} (h : NotLater p q) (h' : NotLater q r) : NotLater p r := by
  intro x hx
  obtain ⟨y, hy, hyx⟩ := h x hx
  obtain ⟨z, hz, hzy⟩ := h' y hy
  exact ⟨z, hz, hzy.trans hyx⟩

theorem NotLater.isSome {p q : Option ℤ} (h : NotLater p q) (hp : p.isSome = true) : q.isSome = true := by
  obtain ⟨x, rfl⟩ := Option.isSome_iff_exists.mp hp
  obtain ⟨y, hy, -⟩ := h x rfl
  rw [Option.mem_def.mp hy]
  rfl

/-- The milestones of an active attribution move, and nothing else does. -/
structure Advances (a b : CreatorAttribution) : Prop where
  same : SameAttribution a b
  plus : NotLater a.plusConvertedAt b.plusConvertedAt
  paid : NotLater a.paidPlusConvertedAt b.paidPlusConvertedAt
  frozen : a.isActive = false → b = a

theorem Advances.refl (a : CreatorAttribution) : Advances a a :=
  ⟨SameAttribution.refl a, NotLater.refl _, NotLater.refl _, fun _ => rfl⟩

theorem SameAttribution.isActive {a b : CreatorAttribution} (h : SameAttribution a b) : b.isActive = a.isActive := by
  unfold CreatorAttribution.isActive
  rw [h.status, h.userDeleted]

theorem Advances.trans {a b c : CreatorAttribution} (h : Advances a b) (h' : Advances b c) : Advances a c where
  same := h.same.trans h'.same
  plus := h.plus.trans h'.plus
  paid := h.paid.trans h'.paid
  frozen := fun ha => (h'.frozen (h.same.isActive.trans ha)).trans (h.frozen ha)

/-- The rows of a table after some of them have advanced. -/
def Advanced (t u : AttributionTable) : Prop :=
  ∃ g : CreatorAttribution → CreatorAttribution, u.rows = t.rows.map g ∧ ∀ a ∈ t, Advances a (g a)

theorem Advanced.refl (t : AttributionTable) : Advanced t t := ⟨id, (List.map_id _).symm, fun a _ => Advances.refl a⟩

theorem Advanced.trans {t u v : AttributionTable} (h : Advanced t u) (h' : Advanced u v) : Advanced t v := by
  obtain ⟨g, hg, hadv⟩ := h
  obtain ⟨k, hk, hadv'⟩ := h'
  refine ⟨k ∘ g, by rw [hk, hg, List.map_map], fun a ha => (hadv a ha).trans (hadv' (g a) ?_)⟩
  rw [Table.mem_def, hg]
  exact List.mem_map_of_mem ha

theorem Advanced.update {t : AttributionTable} {p : CreatorAttribution → Bool}
    {f : CreatorAttribution → CreatorAttribution} (hf : ∀ r, (f r).keys.Sublist r.keys)
    (h : ∀ a ∈ t, p a = true → Advances a (f a)) : Advanced t (t.update p f hf) := by
  refine ⟨_, rfl, fun a ha => ?_⟩
  by_cases hp : p a = true
  · rw [if_pos hp]
    exact h a ha hp
  · rw [if_neg hp]
    exact Advances.refl a

theorem setPlus_advanced (attributionId occurredAt : ℤ) (conversionType : ConversionType) (reason : Option String)
    (status : AppleCreatorEconomicStatus) (t : AttributionTable) :
    Advanced t (setPlusConversionMilestone attributionId occurredAt conversionType reason status t).2 := by
  unfold setPlusConversionMilestone
  split_ifs
  · exact Advanced.refl t
  · exact Advanced.refl t
  · exact Advanced.refl t
  · refine Advanced.update (withPlus_keys occurredAt) fun a _ hp => ?_
    simp only [CreatorAttribution.isLive, Bool.and_eq_true, Option.isNone_iff_eq_none] at hp
    refine ⟨⟨rfl, rfl, rfl, rfl, rfl, rfl, rfl, rfl⟩, ?_, NotLater.refl _, fun hfalse => ?_⟩
    · rw [hp.2]
      exact fun x hx => absurd hx (by simp)
    · rw [hp.1.1.2] at hfalse
      exact absurd hfalse (by simp)

theorem earliest_notLater (p : Option ℤ) (x : ℤ) : NotLater p (earliest p x) := by
  intro y hy
  rw [Option.mem_def.mp hy]
  exact ⟨min y x, rfl, min_le_left y x⟩

theorem updatePaid_advanced (attributionId occurredAt : ℤ) (t : AttributionTable) :
    Advanced t (updatePaidPlusConversionMilestone attributionId occurredAt t).2 := by
  unfold updatePaidPlusConversionMilestone
  refine Advanced.update (withPaid_keys occurredAt) fun a _ hp => ?_
  simp only [CreatorAttribution.isLive, Bool.and_eq_true] at hp
  refine ⟨⟨rfl, rfl, rfl, rfl, rfl, rfl, rfl, rfl⟩, NotLater.refl _, earliest_notLater _ _, fun hfalse => ?_⟩
  rw [hp.1.1.2] at hfalse
  exact absurd hfalse (by simp)

theorem milestones_advanced (attributionId occurredAt : ℤ) (conversionType : ConversionType) (reason : Option String)
    (status : AppleCreatorEconomicStatus) (t : AttributionTable) :
    Advanced t (milestones attributionId occurredAt conversionType reason status t).2.2 := by
  have hplus := setPlus_advanced attributionId occurredAt conversionType reason status t
  unfold milestones
  dsimp only
  by_cases hconfirmed : status = .confirmed
  · rw [if_pos hconfirmed]
    exact hplus.trans (updatePaid_advanced attributionId occurredAt _)
  · rw [if_neg hconfirmed]
    exact hplus

/-- An Apple conversion advances the attributions. -/
theorem Recorded.advanced {c : AppleConversion} {apple : AppleTable} {s s' : Ledger}
    {out : Option CreatorAppleConversionResult} (h : Recorded c apple s out s') :
    Advanced s.attributions s'.attributions := by
  cases h with
  | revoked date kept => exact Advanced.refl _
  | unattributed noAttribution => exact Advanced.refl _
  | early attribution before => exact Advanced.refl _
  | unrecorded attribution new left => exact Advanced.refl _
  | updated live attribution date found same written answer => exact milestones_advanced _ _ _ _ _ _
  | inserted live attribution date new identity counts written answer => exact milestones_advanced _ _ _ _ _ _

/-- So does a referral conversion. -/
theorem referral_advanced {reward : StoredReward} {s s' : Ledger} {out : Option Referrals.CreatorReferralConversionResult}
    (h : recordCreatorReferralConversion reward s = .ok (out, s')) : Advanced s.attributions s'.attributions := by
  unfold recordCreatorReferralConversion at h
  split_ifs at h
  · obtain ⟨-, rfl⟩ := Prod.mk.inj (Except.ok.inj h)
    exact Advanced.refl _
  · split at h
    · obtain ⟨-, rfl⟩ := Prod.mk.inj (Except.ok.inj h)
      exact Advanced.refl _
    · split at h
      · obtain ⟨-, rfl⟩ := Prod.mk.inj (Except.ok.inj h)
        exact Advanced.refl _
      · split_ifs at h
        · obtain ⟨-, rfl⟩ := Prod.mk.inj (Except.ok.inj h)
          exact Advanced.refl _
        · obtain ⟨⟨created, eventId, events⟩, -, h⟩ := bind_eq_ok.mp h
          obtain ⟨-, rfl⟩ := Prod.mk.inj (Except.ok.inj h)
          refine Advanced.update (plusConverted_keys _) fun a _ hp => ?_
          simp only [awaitsPlus, Bool.and_eq_true, Option.isNone_iff_eq_none] at hp
          refine ⟨⟨rfl, rfl, rfl, rfl, rfl, rfl, rfl, rfl⟩, ?_, NotLater.refl _, fun hfalse => ?_⟩
          · rw [hp.2]
            exact fun x hx => absurd hx (by simp)
          · rw [hp.1.1.2] at hfalse
            exact absurd hfalse (by simp)

/-- And so does the promo event, of its attribution. -/
theorem promo_advances {attributionId userId occurredAt : ℤ} {a : CreatorAttribution}
    (h : a.promoMoves attributionId userId occurredAt = true) : Advances a (a.withPromo occurredAt) := by
  simp only [CreatorAttribution.promoMoves, Bool.and_eq_true] at h
  refine ⟨⟨rfl, rfl, rfl, rfl, rfl, rfl, rfl, rfl⟩, earliest_notLater _ _, NotLater.refl _, fun hfalse => ?_⟩
  rw [h.1.1.2] at hfalse
  exact absurd hfalse (by simp)

theorem Acquired.attributions {attributionId userId now : ℤ} {s s' : Ledger} {r : CreatorPromoRewardEventResult}
    (h : Acquired attributionId userId now s r s') : ∃ occurredAt, s'.attributions =
      s.attributions.update (CreatorAttribution.promoMoves attributionId userId occurredAt) (·.withPromo occurredAt)
        (withPromo_keys _) := by
  cases h with
  | again found promo created => exact ⟨_, rfl⟩
  | new inserts created occurredAt => exact ⟨_, rfl⟩

theorem Granted.attributions {attributionId userId now : ℤ} {days : ℕ} {s s' : State}
    (h : Granted attributionId userId days now s s') : ∃ occurredAt, s'.ledger.attributions =
      s.ledger.attributions.update (CreatorAttribution.promoMoves attributionId userId occurredAt) (·.withPromo occurredAt)
        (withPromo_keys _) := by
  cases h with
  | again acquired found => exact acquired.attributions
  | new acquired created inserts => exact acquired.attributions

/-- What a transaction can do to a row: its milestones advance, the worker stamps
it, or the account is deleted. -/
inductive Evolves : FunnelRow → FunnelRow → Prop where
  | advanced {a b m} (h : Advances a b) : Evolves ⟨a, m⟩ ⟨b, m⟩
  | stamped {a m} (days now u) (active : a.isActive = true) : Evolves ⟨a, m⟩ ⟨a, stamped days now u ⟨a, m⟩⟩
  | anonymized {a m} (now) (user : a.userId.isSome = true) :
      Evolves ⟨a, m⟩ ⟨a.anonymized, { m with anonymizedAt := some now }⟩

/-- Any number of such changes. -/
abbrev EvolvesTo : FunnelRow → FunnelRow → Prop := Relation.ReflTransGen Evolves

/-- A row is active exactly while it has its user; it has the plus milestone from
the start; and a qualified one is verified. -/
structure Sound (r : FunnelRow) : Prop where
  active : r.attribution.status = .active ↔ r.attribution.userId.isSome = true
  deleted : r.attribution.userDeleted = true ↔ r.attribution.status = .anonymized
  valid : r.attribution.status ≠ .invalid
  anonymized : r.stamps.anonymizedAt.isSome = true ↔ r.attribution.status = .anonymized
  plus : r.attribution.plusConvertedAt.isSome = true
  qualified : r.stamps.qualifiedAt.isSome = true → r.stamps.verifiedAt.isSome = true
  positive : 0 < r.attribution.id

theorem Sound.isActive {r : FunnelRow} (h : Sound r) : r.attribution.isActive = true ↔ r.attribution.status = .active := by
  unfold CreatorAttribution.isActive
  rw [Bool.and_eq_true, decide_eq_true_eq, Bool.not_eq_true', and_iff_left_iff_imp]
  intro hactive
  rw [← Bool.not_eq_true, h.deleted, hactive]
  simp

/-- A qualification comes with a verification, or after one. -/
theorem stamped_qualified {days : ℕ} {now : ℤ} {u : UserRow} {r : FunnelRow}
    (h : r.stamps.qualifiedAt.isSome = true → r.stamps.verifiedAt.isSome = true)
    (hq : (stamped days now u r).qualifiedAt.isSome = true) : (stamped days now u r).verifiedAt.isSome = true := by
  unfold stamped at hq ⊢
  dsimp only at hq ⊢
  by_cases hv : awaitsVerification u r.stamps = true
  · rw [if_pos hv]
    rfl
  · rw [if_neg hv]
    by_cases hawaits : awaitsQualification days now u r = true
    · -- the user is verified, and the row awaits no verification
      simp only [awaitsQualification, Bool.and_eq_true] at hawaits
      by_contra hnone
      rw [Bool.not_eq_true, Option.isSome_eq_false_iff] at hnone
      exact hv (by simp [awaitsVerification, hnone, hawaits.1.2])
    · rw [if_neg hawaits] at hq
      exact h hq

theorem Evolves.sound {r r' : FunnelRow} (h : Evolves r r') (hs : Sound r) : Sound r' := by
  cases h with
  | @advanced a b m h =>
    exact ⟨by rw [h.same.status, h.same.userId]; exact hs.active, by rw [h.same.status, h.same.userDeleted]; exact hs.deleted,
      by rw [h.same.status]; exact hs.valid, by rw [h.same.status]; exact hs.anonymized, h.plus.isSome hs.plus,
      hs.qualified, by rw [h.same.id]; exact hs.positive⟩
  | stamped days now u active =>
    exact ⟨hs.active, hs.deleted, hs.valid, hs.anonymized, hs.plus, stamped_qualified hs.qualified, hs.positive⟩
  | anonymized now user =>
    exact ⟨by simp [CreatorAttribution.anonymized], by simp [CreatorAttribution.anonymized],
      by simp [CreatorAttribution.anonymized], by simp [CreatorAttribution.anonymized], hs.plus, hs.qualified,
      hs.positive⟩

/-- A later version of a row. -/
structure Later (r r' : FunnelRow) : Prop where
  id : r'.attribution.id = r.attribution.id
  campaignId : r'.attribution.campaignId = r.attribution.campaignId
  codeUsed : r'.attribution.codeUsed = r.attribution.codeUsed
  source : r'.attribution.source = r.attribution.source
  attributedAt : r'.attribution.attributedAt = r.attribution.attributedAt
  status : r'.attribution.status = r.attribution.status ∨ r'.attribution.status = .anonymized
  plus : NotLater r.attribution.plusConvertedAt r'.attribution.plusConvertedAt
  paid : NotLater r.attribution.paidPlusConvertedAt r'.attribution.paidPlusConvertedAt
  verified : ∀ t ∈ r.stamps.verifiedAt, t ∈ r'.stamps.verifiedAt
  qualified : ∀ t ∈ r.stamps.qualifiedAt, t ∈ r'.stamps.qualifiedAt
  frozen : r.attribution.status = .anonymized → r' = r

theorem Later.refl (r : FunnelRow) : Later r r :=
  ⟨rfl, rfl, rfl, rfl, rfl, Or.inl rfl, NotLater.refl _, NotLater.refl _, fun _ h => h, fun _ h => h, fun _ => rfl⟩

theorem Later.trans {r r' r'' : FunnelRow} (h : Later r r') (h' : Later r' r'') : Later r r'' where
  id := h'.id.trans h.id
  campaignId := h'.campaignId.trans h.campaignId
  codeUsed := h'.codeUsed.trans h.codeUsed
  source := h'.source.trans h.source
  attributedAt := h'.attributedAt.trans h.attributedAt
  status := by
    rcases h'.status with heq | heq
    · rw [heq]
      exact h.status
    · exact Or.inr heq
  plus := h.plus.trans h'.plus
  paid := h.paid.trans h'.paid
  verified := fun t ht => h'.verified t (h.verified t ht)
  qualified := fun t ht => h'.qualified t (h.qualified t ht)
  frozen := fun ha => by
    have heq := h.frozen ha
    rw [h'.frozen (heq ▸ ha), heq]

theorem Evolves.later {r r' : FunnelRow} (h : Evolves r r') (hs : Sound r) : Later r r' := by
  cases h with
  | @advanced a b m h =>
    refine ⟨h.same.id, h.same.campaignId, h.same.codeUsed, h.same.source, h.same.attributedAt, Or.inl h.same.status,
      h.plus, h.paid, fun _ ht => ht, fun _ ht => ht, fun hanonymized => ?_⟩
    have hinactive : a.isActive = false := by
      rw [← Bool.not_eq_true, hs.isActive, hanonymized]
      simp
    rw [h.frozen hinactive]
  | @stamped a m days now u active =>
    refine ⟨rfl, rfl, rfl, rfl, rfl, Or.inl rfl, NotLater.refl _, NotLater.refl _, fun t ht => ?_, fun t ht => ?_,
      fun hanonymized => ?_⟩
    · have hm : m.verifiedAt = some t := ht
      have hset : awaitsVerification u m = false := by simp [awaitsVerification, hm]
      unfold Creator.stamped
      rwa [hset, if_neg Bool.false_ne_true]
    · have hm : m.qualifiedAt = some t := ht
      have hset : awaitsQualification days now u ⟨a, m⟩ = false := by simp [awaitsQualification, hm]
      unfold Creator.stamped
      rwa [hset, if_neg Bool.false_ne_true]
    · rw [hs.isActive.mp active] at hanonymized
      exact absurd hanonymized (by simp)
  | @anonymized a m now user =>
    refine ⟨rfl, rfl, rfl, rfl, rfl, Or.inr rfl, NotLater.refl _, NotLater.refl _, fun _ ht => ht, fun _ ht => ht,
      fun hanonymized => ?_⟩
    rw [hs.active.mpr user] at hanonymized
    exact absurd hanonymized (by simp)

theorem EvolvesTo.sound_later {r r' : FunnelRow} (h : EvolvesTo r r') (hs : Sound r) : Sound r' ∧ Later r r' := by
  induction h with
  | refl => exact ⟨hs, Later.refl r⟩
  | tail _ hstep ih => exact ⟨hstep.sound ih.1, ih.2.trans (hstep.later ih.1)⟩

/-! ### What a transaction does -/

/-- The campaign of a row, at an instant of its dates. -/
structure Belongs (c : CampaignRecord) (r : FunnelRow) : Prop where
  id : r.attribution.campaignId = c.id
  code : r.attribution.codeUsed = c.code
  started : ∀ t ∈ c.startsAt, t ≤ r.attribution.attributedAt
  running : ∀ t ∈ c.endsAt, r.attribution.attributedAt < t

/-- A row that a transaction has added: its campaign is active. -/
structure NewRow (s : Program) (r : FunnelRow) : Prop where
  fresh : ∀ r' ∈ s.rows, r'.attribution.id ≠ r.attribution.id
  sound : Sound r
  campaign : ∃ c ∈ s.roster.campaigns, c.status = .active ∧ Belongs c r

/-- A completed transaction: the rows have evolved, or there is a new one. -/
inductive Stepped (s s' : Program) : Prop where
  | evolved (roster : s.roster.Kept s'.roster) (rows : List.Forall₂ EvolvesTo s.rows s'.rows)
  | created {r} (roster : s'.roster = s.roster) (rows : s'.rows = s.rows ++ [r]) (new : NewRow s r)

section Steps

variable {s s' : Program}

theorem row_eq_of_id {r r' : FunnelRow} (hr : r ∈ s.rows) (hr' : r' ∈ s.rows)
    (h : r.attribution.id = r'.attribution.id) : r = r' := by
  obtain ⟨ha, hm⟩ := Program.mem_rows.mp hr
  obtain ⟨ha', hm'⟩ := Program.mem_rows.mp hr'
  have heq := attribution_eq_of_id ha ha' h
  cases r
  cases r'
  simp_all

theorem rows_advanced {ledger : Ledger} (h : Advanced s.ledger.attributions ledger.attributions) :
    List.Forall₂ EvolvesTo s.rows (Program.rows { s with ledger }) := by
  obtain ⟨g, hg, hadv⟩ := h
  have hrows : Program.rows { s with ledger } = s.rows.map fun r => ⟨g r.attribution, r.stamps⟩ := by
    unfold Program.rows
    rw [List.map_map, hg, List.map_map]
    refine List.map_congr_left fun a ha => ?_
    have hid : (g a).id = a.id := (hadv a ha).same.id
    simp only [Function.comp_apply, hid]
  rw [hrows]
  refine forall₂_map fun r hr => ?_
  exact Relation.ReflTransGen.single (Evolves.advanced (hadv r.attribution (Program.mem_rows.mp hr).1))

/-- New stamps of one row. -/
theorem rows_update (s : Program) (id : ℤ) (m : Stamps) :
    Program.rows { s with stamps := Function.update s.stamps id m } =
      s.rows.map fun r => if r.attribution.id = id then ⟨r.attribution, m⟩ else r := by
  unfold Program.rows
  rw [List.map_map]
  refine List.map_congr_left fun a ha => ?_
  by_cases hid : a.id = id
  · simp [hid]
  · simp [hid]

theorem reachedRow_spec {users : UserTable} {id : ℤ} {r : FunnelRow} {u : UserRow}
    (h : reachedRow users id s = some (r, u)) :
    r ∈ s.rows ∧ r.attribution.id = id ∧ r.attribution.isActive = true ∧ userOf users r.attribution = some u := by
  unfold reachedRow at h
  obtain ⟨r', hr', h⟩ := Option.bind_eq_some_iff.mp h
  obtain ⟨u', hu', h⟩ := Option.map_eq_some_iff.mp h
  obtain ⟨rfl, rfl⟩ := Prod.mk.inj h
  have hp := List.find?_some hr'
  simp only [Bool.and_eq_true, decide_eq_true_eq] at hp
  exact ⟨List.mem_of_find?_eq_some hr', hp.1, hp.2, hu'⟩

/-- The rows after the UPDATE of an id. -/
theorem stampAttribution_rows (days : ℕ) (now : ℤ) (users : UserTable) (id : ℤ) (s : Program) :
    (stampAttribution days now users id s).2.roster = s.roster ∧
      List.Forall₂ EvolvesTo s.rows (stampAttribution days now users id s).2.rows := by
  unfold stampAttribution
  cases hreached : reachedRow users id s with
  | none => exact ⟨rfl, List.forall₂_same.mpr fun r _ => Relation.ReflTransGen.refl⟩
  | some x =>
    obtain ⟨r, u⟩ := x
    obtain ⟨hmem, hid, hactive, -⟩ := reachedRow_spec hreached
    refine ⟨rfl, ?_⟩
    dsimp only
    rw [rows_update]
    refine forall₂_map fun r' hr' => ?_
    by_cases h : r'.attribution.id = id
    · rw [if_pos h]
      obtain rfl := row_eq_of_id hr' hmem (h.trans hid.symm)
      exact Relation.ReflTransGen.single (Evolves.stamped days now u hactive)
    · rw [if_neg h]

theorem processMilestone_rows (days : ℕ) (view : BatchView) (row : MilestoneRow) (c : MilestoneCounts × Program) :
    (processMilestone days view row c).2.roster = c.2.roster ∧
      List.Forall₂ EvolvesTo c.2.rows (processMilestone days view row c).2.rows := by
  unfold processMilestone
  split_ifs
  · exact ⟨rfl, List.forall₂_same.mpr fun r _ => Relation.ReflTransGen.refl⟩
  · exact stampAttribution_rows days view.now (view.usersAt row.id) row.id c.2

/-- The rows after a batch. -/
theorem processMilestones_rows (days : ℕ) (view : BatchView) : ∀ (batch : List MilestoneRow)
    (c : MilestoneCounts × Program), (processMilestones days view batch c).2.roster = c.2.roster ∧
      List.Forall₂ EvolvesTo c.2.rows (processMilestones days view batch c).2.rows
  | [], c => ⟨rfl, List.forall₂_same.mpr fun r _ => Relation.ReflTransGen.refl⟩
  | row :: batch, c => by
    obtain ⟨hroster, hrows⟩ := processMilestone_rows days view row c
    obtain ⟨hroster', hrows'⟩ := processMilestones_rows days view batch (processMilestone days view row c)
    exact ⟨hroster'.trans hroster, forall₂_trans (fun _ _ _ => Relation.ReflTransGen.trans) hrows hrows'⟩

/-- A row of the account is the one with its id. -/
theorem any_own_row {userId : ℤ} {a : CreatorAttribution} (ha : a ∈ s.ledger.attributions) :
    (s.ledger.attributions.rows.any fun b => b.id = a.id && b.userId = some userId) =
      decide (a.userId = some userId) := by
  rw [Bool.eq_iff_iff, List.any_eq_true, decide_eq_true_eq]
  constructor
  · rintro ⟨b, hb, hbp⟩
    simp only [Bool.and_eq_true, decide_eq_true_eq] at hbp
    rw [← attribution_eq_of_id hb ha hbp.1]
    exact hbp.2
  · intro hu
    exact ⟨a, ha, by simp [hu]⟩

/-- The two updates of a deletion, row by row. -/
theorem rows_anonymize (userId now : ℤ) (s : Program) : Program.rows { s with
      ledger := { s.ledger with
        attributions := s.ledger.attributions.update (fun a => a.userId = some userId) (·.anonymized) anonymized_keys }
      stamps := fun id => if s.ledger.attributions.rows.any fun a => a.id = id && a.userId = some userId then
          { s.stamps id with anonymizedAt := some now }
        else s.stamps id } =
    s.rows.map fun r => if r.attribution.userId = some userId then
      ⟨r.attribution.anonymized, { r.stamps with anonymizedAt := some now }⟩ else r := by
  unfold Program.rows Table.update
  dsimp only
  rw [List.map_map, List.map_map]
  refine List.map_congr_left fun a ha => ?_
  by_cases hu : a.userId = some userId
  · have hstamped : (s.ledger.attributions.rows.any fun b =>
        b.id = a.anonymized.id && b.userId = some userId) = true :=
      (any_own_row ha).trans (decide_eq_true hu)
    simp only [Function.comp_apply, hu, decide_true, if_true, hstamped]
    rfl
  · have hleft : (s.ledger.attributions.rows.any fun b => b.id = a.id && b.userId = some userId) = false :=
      (any_own_row ha).trans (decide_eq_false hu)
    simp only [Function.comp_apply, hu, decide_false, Bool.false_eq_true, if_false, hleft]

/-- The rows after the deletion of an account. -/
theorem anonymize_rows {userFound : Bool} {userId now : ℤ} {u : Unit}
    (h : anonymizeCreatorAttributions userFound userId now s = .ok (u, s')) :
    s'.roster = s.roster ∧ List.Forall₂ EvolvesTo s.rows s'.rows := by
  unfold anonymizeCreatorAttributions at h
  split_ifs at h
  obtain ⟨-, rfl⟩ := Prod.mk.inj (Except.ok.inj h)
  refine ⟨rfl, ?_⟩
  rw [rows_anonymize]
  refine forall₂_map fun r _ => ?_
  by_cases hu : r.attribution.userId = some userId
  · rw [if_pos hu]
    exact Relation.ReflTransGen.single (Evolves.anonymized now (by rw [hu]; rfl))
  · rw [if_neg hu]

end Steps

/-! ### A code that is applied -/

section Apply

variable {s s' : Program}

/-- A new attribution is of an active campaign, at an instant of its dates. -/
theorem created_campaign {w : Catalog} {c : ApplyCall} {t u : AttributionTable} {out : CreatorAttributionResult}
    (h : applyCreatorAttribution w c t = .ok (out, u)) (hnone : attributionOf t c.userId = none) :
    ∃ campaign ∈ w.campaigns, campaign.status = .active ∧ (∀ x ∈ campaign.startsAt, x ≤ c.now) ∧
      (∀ x ∈ campaign.endsAt, c.now < x) ∧
      t.insert? (newAttribution (nextAttributionId t) campaign.id c.userId campaign.code c.source c.now) = some u ∧
      out = attributionResult c.userId
        (newAttribution (nextAttributionId t) campaign.id c.userId campaign.code c.source c.now) true false := by
  unfold applyCreatorAttribution at h
  obtain ⟨code, -, h⟩ := bind_eq_ok.mp h
  split_ifs at h
  obtain ⟨⟨campaign, status⟩, hfetch, h⟩ := bind_eq_ok.mp h
  have hcampaign : campaign ∈ w.campaigns ∧ campaign.code = code := by
    unfold fetchCreatorCampaign at hfetch
    split at hfetch
    · exact absurd hfetch (by simp)
    · next found hfound =>
      split at hfetch
      · exact absurd hfetch (by simp)
      · obtain ⟨rfl, -⟩ := Prod.mk.inj (Except.ok.inj hfetch)
        exact ⟨Table.find?_mem hfound, by simpa using Table.find?_prop hfound⟩
  dsimp only at h
  rw [hnone] at h
  obtain ⟨_, hvalid, h⟩ := bind_eq_ok.mp h
  obtain ⟨-, -, h⟩ := bind_eq_ok.mp h
  have hdates : campaign.status = .active ∧ (∀ x ∈ campaign.startsAt, x ≤ c.now) ∧ ∀ x ∈ campaign.endsAt, c.now < x := by
    unfold validateCreatorCampaign at hvalid
    split_ifs at hvalid with h1 h2 h3 h4
    refine ⟨not_not.mp h1, fun x hx => ?_, fun x hx => ?_⟩
    · simpa [Option.mem_def.mp hx] using h3
    · simpa [Option.mem_def.mp hx] using h4
  obtain ⟨hmem, rfl⟩ := hcampaign
  obtain ⟨hactive, hstarts, hends⟩ := hdates
  unfold insertAttribution at h
  split at h
  · next v hv =>
    obtain ⟨rfl, rfl⟩ := Prod.mk.inj (Except.ok.inj h)
    exact ⟨campaign, hmem, hactive, hstarts, hends, hv, rfl⟩
  · rw [hnone] at h
    exact absurd h (by simp)

/-- The row of a code that has been applied. -/
def appliedRow (id : ℤ) (campaign : CreatorCampaign) (c : ApplyCall) (occurredAt : ℤ) (markVerified : Bool) : FunnelRow :=
  ⟨(newAttribution id campaign.id c.userId campaign.code c.source c.now).withPromo occurredAt, newStamps c.now markVerified⟩

theorem appliedRow_sound {id : ℤ} (hid : 0 < id) (campaign : CreatorCampaign) (c : ApplyCall) (occurredAt : ℤ)
    (markVerified : Bool) : Sound (appliedRow id campaign c occurredAt markVerified) where
  positive := hid
  active := by simp [appliedRow, newAttribution, CreatorAttribution.withPromo]
  deleted := by simp [appliedRow, newAttribution, CreatorAttribution.withPromo]
  valid := by simp [appliedRow, newAttribution, CreatorAttribution.withPromo]
  anonymized := by simp [appliedRow, newAttribution, CreatorAttribution.withPromo, newStamps]
  plus := by simp [appliedRow, CreatorAttribution.withPromo, earliest]
  qualified := by simp [appliedRow, newStamps]

/-- The rows after the row of a new attribution, with its stamps. -/
theorem rows_appended {ledger : Ledger} {r : FunnelRow}
    (hrows : ledger.attributions.rows = s.ledger.attributions.rows ++ [r.attribution])
    (hfresh : ∀ a ∈ s.ledger.attributions, a.id ≠ r.attribution.id) :
    Program.rows { s with ledger, stamps := Function.update s.stamps r.attribution.id r.stamps } = s.rows ++ [r] := by
  unfold Program.rows
  dsimp only
  rw [hrows, List.map_append, List.map_singleton, Function.update_self]
  congr 1
  refine List.map_congr_left fun a ha => ?_
  rw [Function.update_of_ne (hfresh a ha)]

theorem applied_stepped {o : Elsewhere} {c : ApplyCall} {markVerified : Bool} {out : CreatorAttributionResult}
    (h : applyCreatorCode o c markVerified s = .ok (out, s')) : Stepped s s' := by
  unfold applyCreatorCode at h
  obtain ⟨⟨result, t⟩, happlied, h⟩ := bind_eq_ok.mp h
  obtain ⟨rfl, rfl⟩ := Prod.mk.inj (Except.ok.inj h)
  unfold applyRegistrationCreatorAttribution at happlied
  obtain ⟨⟨r, attributions⟩, happly, happlied⟩ := bind_eq_ok.mp happlied
  obtain ⟨⟨x, z⟩, hgrant, happlied⟩ := bind_eq_ok.mp happlied
  obtain ⟨rfl, rfl⟩ := Prod.mk.inj (Except.ok.inj happlied)
  have happly := mapError_eq_ok.mp happly
  obtain ⟨occurredAt, hledger⟩ := (granted_of_ok (mapError_eq_ok.mp hgrant)).attributions
  cases hattribution : attributionOf s.ledger.attributions c.userId with
  | some a =>
    -- the table is the old one, and at most the milestone of the row moves
    cases attributed_of_ok happly with
    | existing found =>
      refine Stepped.evolved (Roster.Kept.refl _) ?_
      have hadvanced : Advanced s.ledger.attributions z.ledger.attributions := by
        rw [hledger]
        exact Advanced.update _ fun b _ hb => promo_advances hb
      exact rows_advanced hadvanced
    | created new inserts => exact absurd (hattribution.symm.trans new) (by simp)
  | none =>
    obtain ⟨campaign, hcampaign, hactive, hstarts, hends, hinsert, rfl⟩ := created_campaign happly hattribution
    obtain ⟨record, hrecord, rfl⟩ := List.mem_map.mp (Table.mem_def.mp hcampaign)
    have hfresh : ∀ a ∈ s.ledger.attributions, a.id ≠ nextAttributionId s.ledger.attributions :=
      fun a ha => nextAttributionId_fresh ha
    have hrows : z.ledger.attributions.rows = s.ledger.attributions.rows ++
        [(appliedRow (nextAttributionId s.ledger.attributions) record.toCreatorCampaign c occurredAt
          markVerified).attribution] := by
      rw [hledger]
      exact update_new c.userId occurredAt hinsert (fun b hb => hfresh b hb) rfl rfl rfl
    refine Stepped.created rfl (rows_appended hrows hfresh) ⟨fun r' hr' => ?_,
      appliedRow_sound (nextAttributionId_pos _) _ _ _ _, record, hrecord, hactive, rfl, rfl, hstarts, hends⟩
    exact hfresh _ (Program.mem_rows.mp hr').1

end Apply

/-- Other transactions than an application add no row. -/
theorem evolved_of_ok {call : ProgramCall} {s s' : Program} {u : Unit} (hcall : ∀ o c b, call ≠ .apply o c b)
    (h : programCall call s = .ok (u, s')) : s.roster.Kept s'.roster ∧ List.Forall₂ EvolvesTo s.rows s'.rows := by
  have hsame : List.Forall₂ EvolvesTo s.rows s.rows := List.forall₂_same.mpr fun r _ => Relation.ReflTransGen.refl
  cases call with
  | createCreator name slug now =>
    obtain ⟨creator, roster, hcreate, rfl⟩ := leaves_ok h
    obtain ⟨hinsert, hcampaigns, -⟩ := creatorCreated_of_ok hcreate
    refine ⟨⟨fun c hc => ⟨c, ?_, Succeeds.refl c⟩, fun k hk => ?_⟩, hsame⟩
    · rwa [hcampaigns]
    · exact (Table.mem_insert hinsert).mpr (Or.inl hk)
  | createCampaign r now =>
    obtain ⟨campaign, roster, hcreate, rfl⟩ := leaves_ok h
    exact ⟨(campaignCreated_of_ok hcreate).kept, hsame⟩
  | updateStatus campaignId status now =>
    obtain ⟨out, roster, hupdate, rfl⟩ := leaves_ok h
    exact ⟨(statusUpdated_of_ok hupdate).kept, hsame⟩
  | apply o c markVerified => exact absurd rfl (hcall o c markVerified)
  | appleConversion apple c =>
    obtain ⟨out, ledger, hrecord, rfl⟩ := leaves_ok h
    exact ⟨Roster.Kept.refl _, rows_advanced (recorded_of_ok hrecord).advanced⟩
  | referralConversion reward =>
    obtain ⟨out, ledger, hrecord, rfl⟩ := leaves_ok h
    exact ⟨Roster.Kept.refl _, rows_advanced (referral_advanced hrecord)⟩
  | milestones days view batch =>
    obtain ⟨-, rfl⟩ := Prod.mk.inj (Except.ok.inj h)
    obtain ⟨hroster, hrows⟩ := processMilestones_rows days view batch (.zero, s)
    exact ⟨by rw [hroster]; exact Roster.Kept.refl _, hrows⟩
  | deleteAccount userFound userId now =>
    obtain ⟨out, t, hdelete, rfl⟩ := leaves_ok h
    obtain ⟨hroster, hrows⟩ := anonymize_rows hdelete
    exact ⟨by rw [id, hroster]; exact Roster.Kept.refl _, hrows⟩

/-- **What one transaction does.** -/
theorem stepped_of_ok {call : ProgramCall} {s s' : Program} {u : Unit} (h : programCall call s = .ok (u, s')) :
    Stepped s s' := by
  by_cases hcall : ∃ o c b, call = .apply o c b
  · obtain ⟨o, c, markVerified, rfl⟩ := hcall
    have h : leaves id (applyCreatorCode o c markVerified s) = .ok (u, s') := h
    obtain ⟨out, t, happly, rfl⟩ := leaves_ok h
    exact applied_stepped happly
  · push Not at hcall
    obtain ⟨hroster, hrows⟩ := evolved_of_ok hcall h
    exact Stepped.evolved hroster hrows

/-! ### Runs -/

/-- Every row is sound, and belongs to its campaign, which has been active. -/
structure SoundProgram (s : Program) : Prop where
  rows : ∀ r ∈ s.rows, Sound r
  campaigns : ∀ r ∈ s.rows, ∃ c ∈ s.roster.campaigns, c.status ≠ .draft ∧ Belongs c r

theorem soundProgram_empty : SoundProgram .empty :=
  ⟨fun _ h => absurd h List.not_mem_nil, fun _ h => absurd h List.not_mem_nil⟩

/-- The rows of a state, in a later one. -/
abbrev Extends (s s' : Program) : Prop := Grows Later s.rows s'.rows

theorem Belongs.succeeds {c d : CampaignRecord} {r : FunnelRow} (h : Belongs c r) (hs : Succeeds c d) : Belongs d r where
  id := h.id.trans hs.id.symm
  code := h.code.trans hs.code.symm
  started := by
    rw [hs.startsAt]
    exact h.started
  running := by
    rw [hs.endsAt]
    exact h.running

theorem Belongs.later {c : CampaignRecord} {r r' : FunnelRow} (h : Belongs c r) (hl : Later r r') : Belongs c r' where
  id := hl.campaignId.trans h.id
  code := hl.codeUsed.trans h.code
  started := by
    rw [hl.attributedAt]
    exact h.started
  running := by
    rw [hl.attributedAt]
    exact h.running

theorem forall₂_later {l l' : List FunnelRow} (h : List.Forall₂ EvolvesTo l l') (hs : ∀ r ∈ l, Sound r) :
    List.Forall₂ Later l l' := by
  induction h with
  | nil => exact List.Forall₂.nil
  | cons hab _ ih =>
    exact List.Forall₂.cons (hab.sound_later (hs _ List.mem_cons_self)).2 (ih fun r hr => hs r (List.mem_cons_of_mem _ hr))

section Run

variable {s x s' : Program} {l m : List (ProgramCall × Unit)}

theorem Stepped.sound (h : Stepped s s') (hs : SoundProgram s) : SoundProgram s' := by
  cases h with
  | evolved roster rows =>
    refine ⟨fun r' hr' => ?_, fun r' hr' => ?_⟩
    · obtain ⟨r, hr, hevolves⟩ := forall₂_origin rows hr'
      exact (hevolves.sound_later (hs.rows r hr)).1
    · obtain ⟨r, hr, hevolves⟩ := forall₂_origin rows hr'
      obtain ⟨c, hc, hdraft, hbelongs⟩ := hs.campaigns r hr
      obtain ⟨d, hd, hsucceeds⟩ := roster.campaigns c hc
      exact ⟨d, hd, fun h => hdraft (hsucceeds.draft h),
        (hbelongs.succeeds hsucceeds).later (hevolves.sound_later (hs.rows r hr)).2⟩
  | @created r roster rows new =>
    refine ⟨fun r' hr' => ?_, fun r' hr' => ?_⟩
    · rw [rows, List.mem_append, List.mem_singleton] at hr'
      rcases hr' with hr' | rfl
      · exact hs.rows r' hr'
      · exact new.sound
    · rw [rows, List.mem_append, List.mem_singleton] at hr'
      rw [roster]
      rcases hr' with hr' | rfl
      · exact hs.campaigns r' hr'
      · obtain ⟨c, hc, hactive, hbelongs⟩ := new.campaign
        exact ⟨c, hc, by simp [hactive], hbelongs⟩

theorem sound_run (h : Run programCall s l s') (hs : SoundProgram s) : SoundProgram s' :=
  h.invariant (fun _ _ _ _ hx hop => (stepped_of_ok hop).sound hx) hs

theorem Stepped.extends (h : Stepped s s') (hs : SoundProgram s) : Extends s s' ∧ s.roster.Kept s'.roster := by
  cases h with
  | evolved roster rows => exact ⟨Grows.of_forall₂ (forall₂_later rows hs.rows), roster⟩
  | @created r roster rows new =>
    refine ⟨?_, roster ▸ Roster.Kept.refl _⟩
    rw [Extends, rows]
    exact Grows.append Later.refl _ _

/-- **Nothing is lost in a run**: every row is there in its later version, and so is every campaign. -/
theorem extends_run (h : Run programCall s l s') (hs : SoundProgram s) : Extends s s' ∧ s.roster.Kept s'.roster := by
  induction h with
  | start => exact ⟨Grows.refl Later.refl _, Roster.Kept.refl _⟩
  | done hrun hop ih =>
    obtain ⟨hextends, hkept⟩ := (stepped_of_ok hop).extends (sound_run hrun hs)
    exact ⟨ih.1.trans (fun _ _ _ => Later.trans) hextends, ih.2.trans hkept⟩
  | refused _ _ ih => exact ih

end Run

/-! ### The counts -/

section Counts

/-- Each stage of a funnel is within the one before; everybody attributed has the plus milestone. -/
structure FunnelCounts.Ordered (f : FunnelCounts) : Prop where
  verified : f.verified ≤ f.attributed
  qualified : f.qualified ≤ f.verified
  plusConverted : f.plusConverted = f.attributed
  paidPlusConverted : f.paidPlusConverted ≤ f.plusConverted

/-- Every count is at most the other's. -/
structure FunnelCounts.Within (f g : FunnelCounts) : Prop where
  attributed : f.attributed ≤ g.attributed
  verified : f.verified ≤ g.verified
  qualified : f.qualified ≤ g.qualified
  plusConverted : f.plusConverted ≤ g.plusConverted
  paidPlusConverted : f.paidPlusConverted ≤ g.paidPlusConverted

variable {rows : List FunnelRow}

theorem funnelCounts_ordered (kind : FunnelRow → Bool) (h : ∀ r ∈ rows, Sound r) : (funnelCounts kind rows).Ordered where
  verified := List.countP_mono_left fun r _ hr => (Bool.and_eq_true_iff.mp hr).1
  qualified := List.countP_mono_left fun r hmem hr => by
    obtain ⟨hkind, hq⟩ := Bool.and_eq_true_iff.mp hr
    exact Bool.and_eq_true_iff.mpr ⟨hkind, (h r hmem).qualified hq⟩
  plusConverted := List.countP_congr fun r hmem => by simp [(h r hmem).plus]
  paidPlusConverted := List.countP_mono_left fun r hmem hr => by
    exact Bool.and_eq_true_iff.mpr ⟨(Bool.and_eq_true_iff.mp hr).1, (h r hmem).plus⟩

theorem funnelCounts_within {p q : FunnelRow → Bool} (h : ∀ r ∈ rows, p r = true → q r = true) :
    (funnelCounts p rows).Within (funnelCounts q rows) where
  attributed := List.countP_mono_left h
  verified := List.countP_mono_left fun r hmem hr => by
    exact Bool.and_eq_true_iff.mpr ⟨h r hmem (Bool.and_eq_true_iff.mp hr).1, (Bool.and_eq_true_iff.mp hr).2⟩
  qualified := List.countP_mono_left fun r hmem hr => by
    exact Bool.and_eq_true_iff.mpr ⟨h r hmem (Bool.and_eq_true_iff.mp hr).1, (Bool.and_eq_true_iff.mp hr).2⟩
  plusConverted := List.countP_mono_left fun r hmem hr => by
    exact Bool.and_eq_true_iff.mpr ⟨h r hmem (Bool.and_eq_true_iff.mp hr).1, (Bool.and_eq_true_iff.mp hr).2⟩
  paidPlusConverted := List.countP_mono_left fun r hmem hr => by
    exact Bool.and_eq_true_iff.mpr ⟨h r hmem (Bool.and_eq_true_iff.mp hr).1, (Bool.and_eq_true_iff.mp hr).2⟩

theorem isCurrent_iff {r : FunnelRow} (h : Sound r) : r.isCurrent = true ↔ r.attribution.status = .active := by
  unfold FunnelRow.isCurrent
  rw [Bool.and_eq_true, h.isActive, ← h.active, and_self]

/-- Each row of a campaign is active or anonymized. -/
theorem statusCounts_spec (h : ∀ r ∈ rows, Sound r) :
    (statusCounts rows).invalidCount = 0 ∧
      (statusCounts rows).activeCount = (funnelCounts FunnelRow.isCurrent rows).attributed ∧
      (funnelCounts FunnelRow.isHistorical rows).attributed =
        (statusCounts rows).activeCount + (statusCounts rows).anonymizedCount := by
  refine ⟨?_, ?_, ?_⟩
  · exact List.countP_eq_zero.mpr fun r hr => by simpa using (h r hr).valid
  · exact List.countP_congr fun r hr => by rw [isCurrent_iff (h r hr), decide_eq_true_eq]
  · unfold funnelCounts statusCounts
    dsimp only
    clear h
    induction rows with
    | nil => rfl
    | cons r rows ih =>
      rw [List.countP_cons, List.countP_cons, List.countP_cons, ih]
      cases hs : r.attribution.status <;> simp [FunnelRow.isHistorical, hs] <;> omega

end Counts

/-! ### The summary over runs -/

section Summary

variable {s x s' : Program} {l m : List (ProgramCall × Unit)} {campaignId : ℤ}

/-- A summary is of a campaign with its creator. -/
theorem summary_ok {summary : CampaignSummary} :
    getCreatorCampaignSummary campaignId s = .ok summary ↔ 0 < campaignId ∧ ∃ campaign creator,
      s.roster.campaign? campaignId = some campaign ∧ s.roster.creator? campaign.creatorId = some creator ∧
      summary = ⟨creator, campaign, funnelCounts FunnelRow.isCurrent (s.rowsOf campaignId),
        funnelCounts FunnelRow.isHistorical (s.rowsOf campaignId), statusCounts (s.rowsOf campaignId)⟩ := by
  unfold getCreatorCampaignSummary
  by_cases hpos : campaignId ≤ 0
  · rw [if_pos hpos]
    refine ⟨fun h => absurd h (by simp), fun h => ?_⟩
    omega
  · rw [if_neg hpos]
    cases hcampaign : s.roster.campaign? campaignId with
    | none => simp
    | some campaign =>
      dsimp only
      cases hcreator : s.roster.creator? campaign.creatorId with
      | none => simp [hcreator]
      | some creator =>
        simp only [Except.ok.injEq, Option.some.injEq, exists_and_left, exists_eq_left', hcreator]
        exact ⟨fun h => ⟨not_le.mp hpos, h.symm⟩, fun h => h.2.symm⟩

theorem Program.mem_rowsOf {r : FunnelRow} : r ∈ s.rowsOf campaignId ↔ r ∈ s.rows ∧ r.attribution.campaignId = campaignId := by
  unfold Program.rowsOf
  rw [List.mem_filter, decide_eq_true_eq]

/-- **The funnel is a funnel**, in every state of a run: of those attributed the
verified are some, and of these the qualified; everybody attributed has the plus
milestone, and some the paid one; the current funnel is part of the historical one,
which is the active and the anonymized, and there is no invalid attribution. -/
theorem funnel_ordered (h : Run programCall s l s') (hs : SoundProgram s) {summary : CampaignSummary}
    (hsummary : getCreatorCampaignSummary campaignId s' = .ok summary) :
    summary.currentFunnel.Ordered ∧ summary.historicalFunnel.Ordered ∧
      summary.currentFunnel.Within summary.historicalFunnel ∧ summary.statusCounts.invalidCount = 0 ∧
      summary.statusCounts.activeCount = summary.currentFunnel.attributed ∧
      summary.historicalFunnel.attributed = summary.statusCounts.activeCount + summary.statusCounts.anonymizedCount := by
  obtain ⟨-, campaign, creator, -, -, rfl⟩ := summary_ok.mp hsummary
  have hsound : ∀ r ∈ s'.rowsOf campaignId, Sound r := fun r hr =>
    (sound_run h hs).rows r (Program.mem_rowsOf.mp hr).1
  refine ⟨funnelCounts_ordered _ hsound, funnelCounts_ordered _ hsound, funnelCounts_within fun r hr hcurrent => ?_,
    statusCounts_spec hsound⟩
  have hactive := (isCurrent_iff (hsound r hr)).mp hcurrent
  simp [FunnelRow.isHistorical, hactive]

/-- The creator of a campaign stays. -/
theorem Roster.Kept.creator? {s s' : Roster} (h : s.Kept s') {id : ℤ} {c : CreatorRecord} (hc : s.creator? id = some c) :
    s'.creator? id = some c := by
  have hid : c.id = id := by simpa using Table.find?_prop hc
  apply Table.find?_of_mem (k := .inl id)
  · intro d hd
    simp only [decide_eq_true_eq] at hd
    simp [CreatorRecord.keys, hd]
  · exact h.creators c (Table.find?_mem hc)
  · simpa using hid

theorem Later.historical {r r' : FunnelRow} (h : Later r r') (hr : r.isHistorical = true) : r'.isHistorical = true := by
  unfold FunnelRow.isHistorical at hr ⊢
  rcases h.status with heq | heq
  · rwa [heq]
  · simp [heq]

theorem isSome_of_kept {p q : Option ℤ} (h : ∀ t ∈ p, t ∈ q) (hp : p.isSome = true) : q.isSome = true := by
  obtain ⟨t, ht⟩ := Option.isSome_iff_exists.mp hp
  exact Option.isSome_iff_exists.mpr ⟨t, h t ht⟩

theorem Extends.rowsOf (h : Extends s s') (campaignId : ℤ) : Grows Later (s.rowsOf campaignId) (s'.rowsOf campaignId) :=
  Grows.filter h fun r r' hl => by rw [hl.campaignId]

/-- The historical counts of later rows are not smaller. -/
theorem historical_within {rows rows' : List FunnelRow} (h : Grows Later rows rows') :
    (funnelCounts FunnelRow.isHistorical rows).Within (funnelCounts FunnelRow.isHistorical rows') where
  attributed := h.countP_le fun _ _ hl => hl.historical
  verified := h.countP_le fun _ _ hl hr => by
    obtain ⟨hh, hv⟩ := Bool.and_eq_true_iff.mp hr
    exact Bool.and_eq_true_iff.mpr ⟨hl.historical hh, isSome_of_kept hl.verified hv⟩
  qualified := h.countP_le fun _ _ hl hr => by
    obtain ⟨hh, hq⟩ := Bool.and_eq_true_iff.mp hr
    exact Bool.and_eq_true_iff.mpr ⟨hl.historical hh, isSome_of_kept hl.qualified hq⟩
  plusConverted := h.countP_le fun _ _ hl hr => by
    obtain ⟨hh, hp⟩ := Bool.and_eq_true_iff.mp hr
    exact Bool.and_eq_true_iff.mpr ⟨hl.historical hh, hl.plus.isSome hp⟩
  paidPlusConverted := h.countP_le fun _ _ hl hr => by
    obtain ⟨hh, hp⟩ := Bool.and_eq_true_iff.mp hr
    exact Bool.and_eq_true_iff.mpr ⟨hl.historical hh, hl.paid.isSome hp⟩

/-- **History is not rewritten.** A campaign that has a summary has one ever after,
of the same creator; its historical counts never fall, also when accounts are
deleted; and each of its rows is there in its later version. -/
theorem funnel_history (h : Run programCall s l x) (h' : Run programCall x m s') (hs : SoundProgram s)
    {before : CampaignSummary} (hbefore : getCreatorCampaignSummary campaignId x = .ok before) :
    ∃ after, getCreatorCampaignSummary campaignId s' = .ok after ∧ after.creator = before.creator ∧
      Succeeds before.campaign after.campaign ∧ before.historicalFunnel.Within after.historicalFunnel ∧
      before.statusCounts.anonymizedCount ≤ after.statusCounts.anonymizedCount ∧
      ∀ r ∈ x.rowsOf campaignId, ∃ r' ∈ s'.rowsOf campaignId, Later r r' := by
  obtain ⟨hextends, hkept⟩ := extends_run h' (sound_run h hs)
  obtain ⟨hpos, campaign, creator, hcampaign, hcreator, rfl⟩ := summary_ok.mp hbefore
  obtain ⟨hmem, hid⟩ := Roster.campaign?_spec hcampaign
  obtain ⟨d, hd, hsucceeds⟩ := hkept.campaigns campaign hmem
  have hfound : s'.roster.campaign? campaignId = some d := by
    rw [← hid, ← hsucceeds.id]
    exact Roster.campaign?_of_mem hd
  have hcreator' : s'.roster.creator? d.creatorId = some creator := by
    rw [hsucceeds.creatorId]
    exact hkept.creator? hcreator
  have hrows := hextends.rowsOf campaignId
  refine ⟨_, summary_ok.mpr ⟨hpos, d, creator, hfound, hcreator', rfl⟩, rfl, hsucceeds, historical_within hrows,
    hrows.countP_le fun r r' hl hr => ?_, fun r hr => hrows.mem hr⟩
  simp only [decide_eq_true_eq] at hr ⊢
  rcases hl.status with heq | heq
  · rwa [heq]
  · exact heq

end Summary

/-! ### The life of a campaign -/

section Life

variable {s x s' : Program} {l m : List (ProgramCall × Unit)} {c d : CampaignRecord}

theorem Belongs.precedes {r : FunnelRow} (h : Belongs d r) (hs : Succeeds c d) : Belongs c r where
  id := h.id.trans hs.id
  code := h.code.trans hs.code
  started := by
    rw [← hs.startsAt]
    exact h.started
  running := by
    rw [← hs.endsAt]
    exact h.running

/-- A row of the campaign `d` belongs to it. -/
theorem SoundProgram.belongs (hs : SoundProgram s) (hd : d ∈ s.roster.campaigns) {r : FunnelRow}
    (hr : r ∈ s.rowsOf d.id) : d.status ≠ .draft ∧ Belongs d r := by
  obtain ⟨hmem, hid⟩ := Program.mem_rowsOf.mp hr
  obtain ⟨c, hc, hdraft, hbelongs⟩ := hs.campaigns r hmem
  obtain rfl := campaign_eq_of_id hc hd (hbelongs.id.symm.trans hid)
  exact ⟨hdraft, hbelongs⟩

/-- An ended campaign gets no row. -/
theorem Stepped.ended (h : Stepped s s') (hs : SoundProgram s) (hd : d ∈ s.roster.campaigns) (hended : d.status = .ended) :
    (s'.rowsOf d.id).map (·.attribution.id) = (s.rowsOf d.id).map (·.attribution.id) := by
  cases h with
  | evolved roster rows =>
    refine forall₂_column (R := Later) (forall₂_filter (forall₂_later rows hs.rows) fun r r' hl => ?_) fun r r' hl => hl.id
    rw [hl.campaignId]
  | @created r roster rows new =>
    obtain ⟨c, hc, hactive, hbelongs⟩ := new.campaign
    have hne : r.attribution.campaignId ≠ d.id := by
      intro heq
      obtain rfl := campaign_eq_of_id hc hd (hbelongs.id.symm.trans heq)
      rw [hended] at hactive
      exact absurd hactive (by simp)
    unfold Program.rowsOf
    rw [rows, List.filter_append, List.filter_singleton, decide_eq_false hne]
    simp

theorem ended_run (h : Run programCall s l s') (hs : SoundProgram s) (hc : c ∈ s.roster.campaigns)
    (hended : c.status = .ended) :
    (s'.rowsOf c.id).map (·.attribution.id) = (s.rowsOf c.id).map (·.attribution.id) := by
  induction h with
  | start => rfl
  | done hrun hop ih =>
    obtain ⟨d, hd, hsucceeds⟩ := (extends_run hrun hs).2.campaigns c hc
    have hstep := (stepped_of_ok hop).ended (sound_run hrun hs) hd (hsucceeds.ended hended)
    rw [hsucceeds.id] at hstep
    exact hstep.trans ih
  | refused _ _ ih => exact ih

/-- **The life of a campaign.** It keeps its code, its creator, its dates and its
compensation, and its status moves along the transitions. Whatever is attributed to
it, under its code and at an instant of its dates; nothing while it is a draft, and
once it has ended it stays so and nothing is added. -/
theorem campaign_life (h : Run programCall s l x) (h' : Run programCall x m s') (hs : SoundProgram s)
    (hc : c ∈ x.roster.campaigns) : ∃ d ∈ s'.roster.campaigns, Succeeds c d ∧ (∀ r ∈ s'.rowsOf c.id, Belongs c r) ∧
      (d.status = .draft → s'.rowsOf c.id = []) ∧
      (c.status = .ended → d.status = .ended ∧
        (s'.rowsOf c.id).map (·.attribution.id) = (x.rowsOf c.id).map (·.attribution.id)) := by
  have hx := sound_run h hs
  obtain ⟨-, hkept⟩ := extends_run h' hx
  obtain ⟨d, hd, hsucceeds⟩ := hkept.campaigns c hc
  have hrows : ∀ r ∈ s'.rowsOf c.id, d.status ≠ .draft ∧ Belongs d r := by
    intro r hr
    rw [← hsucceeds.id] at hr
    exact (sound_run h' hx).belongs hd hr
  refine ⟨d, hd, hsucceeds, fun r hr => (hrows r hr).2.precedes hsucceeds, fun hdraft => ?_, fun hended =>
    ⟨hsucceeds.ended hended, ended_run h' hx hc hended⟩⟩
  exact List.eq_nil_iff_forall_not_mem.mpr fun r hr => (hrows r hr).1 hdraft

end Life

/-! ### A program to run the model on -/

/-- Two users, verified and active. -/
def sampleUserRows : List UserRow := [⟨1, true, true⟩, ⟨2, true, true⟩]

theorem sampleUserRows_unique : (sampleUserRows.flatMap UserRow.keys).Nodup := by decide

def sampleUsers : UserTable := ⟨sampleUserRows, sampleUserRows_unique⟩

def sampleElsewhere : Elsewhere := ⟨sampleCatalog.accounts, fun _ => 0, .empty, .empty, .empty⟩

def sampleView (now : ℤ) : BatchView := ⟨now, sampleUsers, fun _ => sampleUsers, [], fun _ => false⟩

/-- A campaign is opened, and the user 1 applies its code. -/
def sampleOpening : List ProgramCall := [
  .createCreator "Ada" "ada" 1,
  .createCampaign ⟨1, "Spring", "fuelnear1", none, none, 24, "none", none, "EUR"⟩ 2,
  .updateStatus 1 "active" 3,
  .apply sampleElsewhere ⟨1, "FUELNEAR1", .postRegistration, 4⟩ false]

/-- The user 2 applies it too, the user 1 qualifies, and is deleted; the campaign ends. -/
def sampleSequel : List ProgramCall := [
  .apply sampleElsewhere ⟨2, "FUELNEAR1", .postRegistration, 5⟩ true,
  .milestones 7 (sampleView (7 * day + 4)) [⟨1, none, none⟩],
  .deleteAccount true 1 (8 * day),
  .updateStatus 1 "ended" (9 * day),
  .apply sampleElsewhere ⟨1, "FUELNEAR1", .emailRegistration, 9 * day⟩ false]

def sampleOpened : Program := (execute programCall .empty sampleOpening).2

def sampleEnded : Program := (execute programCall sampleOpened sampleSequel).2

theorem sampleOpened_run : Run programCall .empty (execute programCall .empty sampleOpening).1 sampleOpened := run_execute _ _ _

theorem sampleEnded_run : Run programCall sampleOpened (execute programCall sampleOpened sampleSequel).1 sampleEnded :=
  run_execute _ _ _

/-- The funnel of the sample, at its end. -/
theorem funnel_ordered_sample : ∃ summary, getCreatorCampaignSummary 1 sampleEnded = .ok summary ∧
    summary.currentFunnel = ⟨1, 1, 0, 1, 0⟩ ∧ summary.historicalFunnel = ⟨2, 2, 1, 2, 0⟩ ∧
    summary.currentFunnel.Ordered ∧ summary.historicalFunnel.Ordered := by
  have hcounts : (getCreatorCampaignSummary 1 sampleEnded).toOption.map (fun y => (y.currentFunnel, y.historicalFunnel)) =
      some (⟨1, 1, 0, 1, 0⟩, ⟨2, 2, 1, 2, 0⟩) := by decide +kernel
  obtain ⟨summary, hsummary, hcounts⟩ := Option.map_eq_some_iff.mp hcounts
  obtain ⟨hcurrent, hhistorical⟩ := Prod.mk.inj hcounts
  have hok := toOption_eq_some.mp hsummary
  have hrun := sampleOpened_run.trans sampleEnded_run
  obtain ⟨h1, h2, -⟩ := funnel_ordered hrun soundProgram_empty hok
  exact ⟨summary, hok, hcurrent, hhistorical, h1, h2⟩

/-- The campaign of the sample has two rows after the deletion, as before. -/
theorem funnel_history_sample : ∃ before after, getCreatorCampaignSummary 1 sampleOpened = .ok before ∧
    getCreatorCampaignSummary 1 sampleEnded = .ok after ∧ before.historicalFunnel.Within after.historicalFunnel := by
  have hsome : (getCreatorCampaignSummary 1 sampleOpened).toOption.isSome = true := by decide +kernel
  obtain ⟨before, hbefore⟩ := Option.isSome_iff_exists.mp hsome
  have hok := toOption_eq_some.mp hbefore
  obtain ⟨after, hafter, -, -, hwithin, -⟩ := funnel_history sampleOpened_run sampleEnded_run soundProgram_empty hok
  exact ⟨before, after, hok, hafter, hwithin⟩

theorem campaign_life_sample : ∃ c ∈ sampleOpened.roster.campaigns, ∃ d ∈ sampleEnded.roster.campaigns,
    Succeeds c d ∧ ∀ r ∈ sampleEnded.rowsOf c.id, Belongs c r := by
  have hsome : (sampleOpened.roster.campaign? 1).isSome = true := by decide +kernel
  obtain ⟨c, hc⟩ := Option.isSome_iff_exists.mp hsome
  have hmem := (Roster.campaign?_spec hc).1
  obtain ⟨d, hd, hsucceeds, hbelongs, -⟩ := campaign_life sampleOpened_run sampleEnded_run soundProgram_empty hmem
  exact ⟨c, hmem, d, hd, hsucceeds, hbelongs⟩

end Creator
end FuelNear

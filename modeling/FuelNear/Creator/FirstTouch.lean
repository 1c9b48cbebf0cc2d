/-
# First touch, and one reward

Over any run of applied codes: an attribution stays the row it was inserted
as, its user gets the same answer from every further application of the same
campaign, and it has one promo event and one reward of seven days.

The event carries the once-only guarantee: it is unique by its key, and only
who inserts it inserts the reward. That the key is free for a new
attribution, and taken for an old one, is the invariant (`Promoted`).

Key definitions: `Rewarded`, `Promoted`, `applyCall`.
Key theorems: `applied_existing`, `applied_new`, `promoted_run`, `first_touch`.
-/
import FuelNear.Creator.Attribution
import FuelNear.Runs

namespace FuelNear
namespace Creator

open Sql Apple Text Plus

/-! ### Events and rewards of an attribution -/

/-- The promo events of an attribution. -/
def promoEvents (t : EventTable) (attributionId : ℤ) : List ConversionEvent :=
  t.rows.filter fun e => e.provider = .internalPromo && e.attributionId = attributionId

/-- The rewards of a user that are for no referral. -/
def promoRewards (t : StoredRewards) (userId : ℤ) : List StoredReward :=
  t.rows.filter fun r => r.userId = userId && r.referralId.isNone

/-- The event of the attribution, and the reward of its user: there is one of
each, of the same instant. -/
structure Grant (s : State) (a : CreatorAttribution) (userId : ℤ) (e : ConversionEvent) (r : StoredReward) : Prop where
  events : promoEvents s.ledger.events a.id = [e]
  key : e.externalEventKey = promoKey a.id
  promo : e.isPromoOf a.id = true
  rewards : promoRewards s.rewards userId = [r]
  reward : r = promoReward r.id userId e.occurredAt 7
  milestone : ∃ p, a.plusConvertedAt = some p ∧ p ≤ e.occurredAt

/-- The attribution of the user has its event and its reward. -/
structure Rewarded (s : State) (a : CreatorAttribution) (userId : ℤ) : Prop where
  active : a.isActive = true
  positive : 0 < a.id
  grant : ∃ e r, Grant s a userId e r

/-- Every attribution of a user is rewarded; nobody else has a reward without a
referral, and no promo event is of an attribution that does not exist. -/
structure Promoted (s : State) : Prop where
  rewarded : ∀ a ∈ s.ledger.attributions, ∀ u, a.userId = some u → Rewarded s a u
  alone : ∀ u, attributionOf s.ledger.attributions u = none → promoRewards s.rewards u = []
  owned : ∀ e ∈ s.ledger.events, e.provider = .internalPromo → ∃ a ∈ s.ledger.attributions, a.id = e.attributionId

/-- Before the first code. -/
theorem promoted_empty (subscriptions : SubscriptionTable) : Promoted ⟨⟨.empty, .empty⟩, .empty, subscriptions⟩ :=
  ⟨fun _ h => absurd h List.not_mem_nil, fun _ _ => rfl, fun _ h => absurd h List.not_mem_nil⟩

theorem Grant.mem {s : State} {a : CreatorAttribution} {userId : ℤ} {e : ConversionEvent} {r : StoredReward}
    (h : Grant s a userId e r) : e ∈ s.ledger.events ∧ e.provider = .internalPromo := by
  have hmem : e ∈ promoEvents s.ledger.events a.id := by
    rw [h.events]
    exact List.mem_cons_self
  unfold promoEvents at hmem
  simp only [List.mem_filter, Bool.and_eq_true, decide_eq_true_eq] at hmem
  exact ⟨hmem.1, hmem.2.1⟩

/-- The event is the one under the key. -/
theorem Grant.eventByKey {s : State} {a : CreatorAttribution} {userId : ℤ} {e : ConversionEvent} {r : StoredReward}
    (h : Grant s a userId e r) : Creator.eventByKey s.ledger.events .internalPromo (promoKey a.id) = some e :=
  eventByKey_iff.mpr ⟨h.mem.1, h.mem.2, h.key⟩

section Step

variable {s s' : State} {a : CreatorAttribution} {userId now : ℤ}

/-- The milestone of a rewarded attribution does not move. -/
theorem Grant.update_eq {e : ConversionEvent} {r : StoredReward} (h : Grant s a userId e r)
    (ha : a ∈ s.ledger.attributions) :
    s.ledger.attributions.update (CreatorAttribution.promoMoves a.id userId e.occurredAt) (·.withPromo e.occurredAt)
      (withPromo_keys _) = s.ledger.attributions := by
  refine Table.update_eq_self fun x hx hmoves => ?_
  simp only [CreatorAttribution.promoMoves, Bool.and_eq_true, decide_eq_true_eq] at hmoves
  obtain rfl : x = a := attribution_eq_of_id hx ha hmoves.1.1.1
  obtain ⟨p, hp, hle⟩ := h.milestone
  have hlt : e.occurredAt < p := by simpa [hp] using hmoves.2
  exact absurd hle (not_le.mpr hlt)

/-- Acquiring the event of a rewarded attribution changes nothing. -/
theorem Grant.acquired {e : ConversionEvent} {r : StoredReward} (h : Grant s a userId e r)
    (ha : a ∈ s.ledger.attributions) {out : CreatorPromoRewardEventResult} {l : Ledger}
    (hacquired : Acquired a.id userId now s.ledger out l) : out.created = false ∧ l = s.ledger := by
  cases hacquired with
  | @again e' _ found promo created =>
    obtain rfl : e = e' := Option.some.inj (h.eventByKey.symm.trans found)
    refine ⟨created, ?_⟩
    rw [h.update_eq ha]
  | new inserts created occurredAt =>
    have hkey : Sum.inr (Provider.internalPromo, promoKey a.id) ∈ e.keys := by
      simp [ConversionEvent.keys, h.mem.2, h.key]
    refine absurd ?_ (Table.insert?_fresh (Checked.insert_ok inserts) h.mem.1 hkey)
    simp [ConversionEvent.keys, newPromoEvent]

/-- A call of a user that is attributed and rewarded. -/
theorem applied_existing (hs : Promoted s) {c : ApplyCall} {out : CreatorAttributionResult}
    (ha : attributionOf s.ledger.attributions c.userId = some a) {w : Catalog}
    (h : applyRegistrationCreatorAttribution w c s = .ok (out, s')) :
    out = attributionResult c.userId a false true ∧ s' = s := by
  obtain ⟨t, hattributed, hgranted⟩ := applied_of_ok h
  obtain ⟨hmem, huser⟩ := attributionOf_spec ha
  obtain ⟨e, r, hgrant⟩ := (hs.rewarded a hmem c.userId huser).grant
  cases hattributed with
  | @existing b found =>
    obtain rfl : a = b := Option.some.inj (ha.symm.trans found)
    refine ⟨rfl, ?_⟩
    cases hgranted with
    | again acquired found =>
      obtain ⟨-, rfl⟩ := hgrant.acquired hmem acquired
      rfl
    | new acquired created inserts =>
      obtain ⟨hfalse, -⟩ := hgrant.acquired hmem acquired
      rw [hfalse] at created
      exact absurd created (by simp)
  | created new inserts => exact absurd (ha.symm.trans new) (by simp)

/-- What a call leaves for a user that had no attribution: the rows of its
attribution, its event and its reward come last. -/
structure Created (c : ApplyCall) (s : State) (out : CreatorAttributionResult) (s' : State) : Prop where
  new : attributionOf s.ledger.attributions c.userId = none
  attributed : ∃ campaignId code, ∃ r : StoredReward, out = attributionResult c.userId
      (newAttribution (nextAttributionId s.ledger.attributions) campaignId c.userId code c.source c.now) true false ∧
    s'.ledger.attributions.rows = s.ledger.attributions.rows ++ [(newAttribution (nextAttributionId s.ledger.attributions)
      campaignId c.userId code c.source c.now).withPromo c.now] ∧
    s'.ledger.events.rows = s.ledger.events.rows ++
      [newPromoEvent (nextEventId s.ledger.events) (nextAttributionId s.ledger.attributions) c.now] ∧
    s'.rewards.rows = s.rewards.rows ++ [r] ∧ r = promoReward r.id c.userId c.now 7

/-- The milestone of a new attribution, and of no other. -/
theorem update_new (userId now : ℤ) {t u : AttributionTable} {a : CreatorAttribution} (hu : t.insert? a = some u)
    (hid : ∀ b ∈ t, b.id ≠ a.id) (hactive : a.isActive = true) (huser : a.userId = some userId)
    (hnone : a.plusConvertedAt = none) :
    (u.update (CreatorAttribution.promoMoves a.id userId now) (·.withPromo now) (withPromo_keys _)).rows =
      t.rows ++ [a.withPromo now] := by
  have hold : t.rows.map (fun x => if CreatorAttribution.promoMoves a.id userId now x then x.withPromo now else x) =
      t.rows := by
    refine (List.map_congr_left fun x hx => ?_).trans (List.map_id t.rows)
    have hne : x.id ≠ a.id := hid x hx
    simp [CreatorAttribution.promoMoves, hne]
  show u.rows.map _ = _
  rw [Table.insert?_rows hu, List.map_append, hold]
  simp [CreatorAttribution.promoMoves, hactive, huser, hnone]

/-- A call of a user without an attribution. The key of the event is free: a promo
event is of an attribution that exists, and this one is new. -/
theorem applied_new (hs : Promoted s) {c : ApplyCall} {out : CreatorAttributionResult} {w : Catalog}
    (hnone : attributionOf s.ledger.attributions c.userId = none)
    (h : applyRegistrationCreatorAttribution w c s = .ok (out, s')) : Created c s out s' := by
  obtain ⟨t, hattributed, hgranted⟩ := applied_of_ok h
  refine ⟨hnone, ?_⟩
  cases hattributed with
  | existing found => exact absurd (found.symm.trans hnone) (by simp)
  | @created campaignId code _ new inserts =>
    have hrows := update_new c.userId c.now inserts (fun b hb => nextAttributionId_fresh hb)
      rfl rfl rfl
    have hfresh : ∀ {r l}, Acquired (nextAttributionId s.ledger.attributions) c.userId c.now
        { s.ledger with attributions := t } r l → r.created = true := by
      intro r l hacquired
      cases hacquired with
      | again found promo created =>
        obtain ⟨he, hprovider, -⟩ := eventByKey_iff.mp found
        obtain ⟨b, hb, hid⟩ := hs.owned _ he hprovider
        simp only [ConversionEvent.isPromoOf, Bool.and_eq_true, decide_eq_true_eq] at promo
        exact absurd (hid.trans promo.1.1.1.1.1) (nextAttributionId_fresh hb)
      | new inserts created occurredAt => exact created
    cases hgranted with
    | again acquired found =>
      rw [hfresh acquired] at found
      exact absurd found (by simp)
    | new acquired created hrewards =>
      cases acquired with
      | again found promo again =>
        rw [again] at created
        exact absurd created (by simp)
      | @new events r hevents _ occurredAt =>
        rw [occurredAt] at hrewards
        exact ⟨campaignId, code, _, rfl, hrows, Table.insert?_rows (Checked.insert_ok hevents),
          Table.insert?_rows hrewards, rfl⟩

/-- The attributions, events and rewards of the others stay. -/
structure OthersKept (userId : ℤ) (s s' : State) : Prop where
  attributions : ∀ a ∈ s.ledger.attributions, a ∈ s'.ledger.attributions
  events : ∀ a ∈ s.ledger.attributions, promoEvents s'.ledger.events a.id = promoEvents s.ledger.events a.id
  rewards : ∀ v, v ≠ userId → promoRewards s'.rewards v = promoRewards s.rewards v

theorem Created.others {c : ApplyCall} {out : CreatorAttributionResult} (h : Created c s out s') :
    OthersKept c.userId s s' := by
  obtain ⟨campaignId, code, r, -, hattributions, hevents, hrewards, hr⟩ := h.attributed
  refine ⟨fun a ha => ?_, fun a ha => ?_, fun v hv => ?_⟩
  · rw [Table.mem_def, hattributions]
    exact List.mem_append_left _ ha
  · have hne : nextAttributionId s.ledger.attributions ≠ a.id := (nextAttributionId_fresh ha).symm
    unfold promoEvents
    rw [show s'.ledger.events.toTable.rows = _ from hevents, List.filter_append]
    simp [newPromoEvent, hne]
  · unfold promoRewards
    rw [hrewards, List.filter_append, hr]
    simp [promoReward, hv.symm]

/-- A grant is not touched by what happens to others. -/
theorem Grant.kept {e : ConversionEvent} {r : StoredReward} {v : ℤ} (h : Grant s a userId e r)
    (ha : a ∈ s.ledger.attributions) (hk : OthersKept v s s') (hv : userId ≠ v) : Grant s' a userId e r :=
  ⟨(hk.events a ha).trans h.events, h.key, h.promo, (hk.rewards userId hv).trans h.rewards, h.reward, h.milestone⟩

/-- The new attribution has its event and its reward, and they are the only ones. -/
theorem Created.rewarded {c : ApplyCall} {out : CreatorAttributionResult} (hs : Promoted s) (h : Created c s out s') :
    ∃ a ∈ s'.ledger.attributions, a.userId = some c.userId ∧ a.id = nextAttributionId s.ledger.attributions ∧
      (∀ x ∈ s'.ledger.attributions, x ∈ s.ledger.attributions ∨ x = a) ∧ Rewarded s' a c.userId := by
  obtain ⟨campaignId, code, r, -, hattributions, hevents, hrewards, hr⟩ := h.attributed
  set a := (newAttribution (nextAttributionId s.ledger.attributions) campaignId c.userId code c.source c.now).withPromo
    c.now with ha
  set e := newPromoEvent (nextEventId s.ledger.events) (nextAttributionId s.ledger.attributions) c.now with he
  have hnoEvents : promoEvents s.ledger.events a.id = [] := by
    unfold promoEvents
    rw [List.filter_eq_nil_iff]
    intro x hx hpromo
    simp only [Bool.and_eq_true, decide_eq_true_eq] at hpromo
    obtain ⟨b, hb, hid⟩ := hs.owned x hx hpromo.1
    exact nextAttributionId_fresh hb (hid.trans hpromo.2)
  have hmem : a ∈ s'.ledger.attributions := by
    rw [Table.mem_def, hattributions]
    exact List.mem_append_right _ List.mem_cons_self
  refine ⟨a, hmem, rfl, rfl, fun x hx => ?_, rfl, nextAttributionId_pos _, e, r, ?_, rfl, ?_, ?_, hr, c.now, rfl, le_rfl⟩
  · rw [Table.mem_def, hattributions, List.mem_append, List.mem_singleton] at hx
    exact hx
  · unfold promoEvents at hnoEvents ⊢
    rw [show s'.ledger.events.toTable.rows = _ from hevents, List.filter_append, hnoEvents]
    simp [he, ha, newPromoEvent, newAttribution, CreatorAttribution.withPromo]
  · simp [ConversionEvent.isPromoOf, he, ha, newPromoEvent, newAttribution, CreatorAttribution.withPromo]
  · have hnone := hs.alone c.userId h.new
    unfold promoRewards at hnone ⊢
    rw [hrewards, List.filter_append, hnone, hr]
    simp [promoReward]

theorem Created.promoted {c : ApplyCall} {out : CreatorAttributionResult} (hs : Promoted s) (h : Created c s out s') :
    Promoted s' := by
  have hothers := h.others
  obtain ⟨a, ha, huser, hid, hall, hrewarded⟩ := h.rewarded hs
  have hne : ∀ b ∈ s.ledger.attributions, ∀ u, b.userId = some u → u ≠ c.userId := by
    intro b hb u hu hc
    exact attributionOf_eq_none.mp h.new b hb (hc ▸ hu)
  refine ⟨fun b hb u hu => ?_, fun u hu => ?_, fun e he hpromo => ?_⟩
  · rcases hall b hb with hb | rfl
    · obtain ⟨hactive, hpositive, e, r, hgrant⟩ := hs.rewarded b hb u hu
      exact ⟨hactive, hpositive, e, r, hgrant.kept hb hothers (hne b hb u hu)⟩
    · obtain rfl : c.userId = u := Option.some.inj (huser.symm.trans hu)
      exact hrewarded
  · rw [attributionOf_eq_none] at hu
    rw [hothers.rewards u fun hc => hu a ha (hc ▸ huser)]
    exact hs.alone u (attributionOf_eq_none.mpr fun b hb => hu b (hothers.attributions b hb))
  · obtain ⟨campaignId, code, r, -, -, hevents, -⟩ := h.attributed
    rw [Checked.mem_def, Table.mem_def, hevents, List.mem_append, List.mem_singleton] at he
    rcases he with he | rfl
    · obtain ⟨b, hb, hb'⟩ := hs.owned e he hpromo
      exact ⟨b, hothers.attributions b hb, hb'⟩
    · exact ⟨a, ha, hid⟩

end Step

/-! ### Runs -/

/-- A call, on what the other tables hold at the time. -/
def applyCall : Catalog × ApplyCall → State → Except RegistrationError (CreatorAttributionResult × State) :=
  fun c s => applyRegistrationCreatorAttribution c.1 c.2 s

abbrev ApplyLog := List ((Catalog × ApplyCall) × CreatorAttributionResult)

section Run

variable {s s' : State} {log : ApplyLog}

/-- A completed call changes nothing, or gives a user without an attribution all three rows. -/
theorem applied_cases (hs : Promoted s) {c : Catalog × ApplyCall} {out : CreatorAttributionResult}
    (h : applyCall c s = .ok (out, s')) :
    (∃ a, attributionOf s.ledger.attributions c.2.userId = some a ∧ out = attributionResult c.2.userId a false true ∧
      s' = s) ∨ Created c.2 s out s' := by
  cases ha : attributionOf s.ledger.attributions c.2.userId with
  | some a =>
    obtain ⟨hout, hsame⟩ := applied_existing hs ha h
    exact Or.inl ⟨a, rfl, hout, hsame⟩
  | none => exact Or.inr (applied_new hs ha h)

theorem promoted_step (hs : Promoted s) {c : Catalog × ApplyCall} {out : CreatorAttributionResult}
    (h : applyCall c s = .ok (out, s')) : Promoted s' := by
  rcases applied_cases hs h with ⟨a, -, -, rfl⟩ | hcreated
  · exact hs
  · exact hcreated.promoted hs

/-- **Every attribution has its one event and its one reward**, in every state of a run. -/
theorem promoted_run (h : Run applyCall s log s') (hs : Promoted s) : Promoted s' :=
  h.invariant (fun _ _ _ _ hx hop => promoted_step hx hop) hs

/-- What was applied for a user stays: the attribution, its event and its reward. -/
structure Settled (userId : ℤ) (a : CreatorAttribution) (x s : State) : Prop where
  attribution : attributionOf s.ledger.attributions userId = some a
  events : promoEvents s.ledger.events a.id = promoEvents x.ledger.events a.id
  rewards : promoRewards s.rewards userId = promoRewards x.rewards userId

theorem settled_step {userId : ℤ} {a : CreatorAttribution} {x : State} (hs : Promoted s) (hx : Settled userId a x s)
    {c : Catalog × ApplyCall} {out : CreatorAttributionResult} (h : applyCall c s = .ok (out, s')) :
    Settled userId a x s' ∧ (c.2.userId = userId → out = attributionResult userId a false true) := by
  obtain ⟨hmem, huser⟩ := attributionOf_spec hx.attribution
  rcases applied_cases hs h with ⟨b, hb, hout, rfl⟩ | hcreated
  · refine ⟨hx, fun hc => ?_⟩
    subst hc
    obtain rfl : a = b := Option.some.inj (hx.attribution.symm.trans hb)
    exact hout
  · -- the call is another user's
    have hne : userId ≠ c.2.userId := by
      intro hc
      have hnone := hcreated.new
      rw [← hc, hx.attribution] at hnone
      exact absurd hnone (by simp)
    have hothers := hcreated.others
    exact ⟨⟨attributionOf_of_mem (hothers.attributions a hmem) huser, (hothers.events a hmem).trans hx.events,
      (hothers.rewards userId hne).trans hx.rewards⟩, fun hc => absurd hc.symm hne⟩

/-- Every later completed call of the user answers with the attribution. -/
theorem settled_run {userId : ℤ} {a : CreatorAttribution} (h : Run applyCall s log s') (hs : Promoted s)
    (ha : attributionOf s.ledger.attributions userId = some a) :
    Settled userId a s s' ∧ ∀ e ∈ log, e.1.2.userId = userId → e.2 = attributionResult userId a false true := by
  induction h with
  | start => exact ⟨⟨ha, rfl, rfl⟩, fun e he => absurd he List.not_mem_nil⟩
  | @done l x c out y hrun hop ih =>
    obtain ⟨hx, hlog⟩ := ih
    obtain ⟨hy, hout⟩ := settled_step (promoted_run hrun hs) hx hop
    refine ⟨hy, fun e he => ?_⟩
    rcases List.mem_append.mp he with he | he
    · exact hlog e he
    · obtain rfl := List.mem_singleton.mp he
      exact hout
  | refused _ _ ih => exact ih

end Run

/-! ### Applying a code again -/

section Again

variable {s : State} {w : Catalog} {c : ApplyCall} {campaign : CreatorCampaign} {a : CreatorAttribution}

/-- The call is of a user that exists, with a code of the campaign. -/
structure Reaches (w : Catalog) (c : ApplyCall) (campaign : CreatorCampaign) : Prop where
  positive : 0 < c.userId
  user : (w.accounts.user? c.userId).isSome
  code : ∃ normalizedCode creatorStatus, normalizeCreatorCode c.creatorCode = .ok normalizedCode ∧
    fetchCreatorCampaign w normalizedCode = .ok (campaign, creatorStatus)

/-- With an attribution only the campaign of the code matters. -/
theorem Reaches.apply (h : Reaches w c campaign) {t : AttributionTable} (ha : attributionOf t c.userId = some a) :
    applyCreatorAttribution w c t = if campaign.id = a.campaignId then .ok (attributionResult c.userId a false true, t)
      else .error .alreadySet := by
  obtain ⟨normalizedCode, creatorStatus, hcode, hfetch⟩ := h.code
  have huser : (w.accounts.user? c.userId).isNone = false := by
    rw [Option.isNone_eq_false_iff]
    exact h.user
  unfold applyCreatorAttribution
  rw [hcode]
  dsimp only [bind, Except.bind]
  rw [if_neg (not_le.mpr h.positive), huser, if_neg Bool.false_ne_true, hfetch]
  dsimp only
  rw [ha]
  dsimp only [resolveExistingAttribution]
  by_cases hcampaign : campaign.id = a.campaignId
  · rw [if_pos hcampaign, if_neg (not_not.mpr hcampaign.symm)]
    rfl
  · rw [if_neg hcampaign, if_pos fun heq => hcampaign heq.symm]

/-- The event of a rewarded attribution is found again. -/
theorem Rewarded.acquires {userId : ℤ} (now : ℤ) (h : Rewarded s a userId) (ha : a ∈ s.ledger.attributions)
    (huser : a.userId = some userId) (hpos : 0 < userId) :
    ∃ r, acquireCreatorPromoRewardEvent a.id userId now s.ledger = .ok (r, s.ledger) ∧ r.created = false := by
  obtain ⟨e, r, hgrant⟩ := h.grant
  have hfind : s.ledger.attributions.find? (fun b => b.id = a.id) = some a := by
    apply Table.find?_of_mem (k := .inl a.id)
    · intro b hb
      simp only [decide_eq_true_eq] at hb
      simp [CreatorAttribution.keys, hb]
    · exact ha
    · simp
  have hcheck : (newPromoEvent (nextEventId s.ledger.events) a.id now).check = true := by
    have hkey := (event_check hgrant.mem.1).1
    rw [hgrant.key] at hkey
    simp [ConversionEvent.check, newPromoEvent, hkey, valueCheck, amountCurrencyCheck, economicValueCheck]
  have hinsert : s.ledger.events.insert (newPromoEvent (nextEventId s.ledger.events) a.id now) = .error .unique := by
    apply Checked.insert_conflict (k := .inr (.internalPromo, promoKey a.id)) hcheck hgrant.mem.1
    · simp [ConversionEvent.keys, hgrant.mem.2, hgrant.key]
    · simp [ConversionEvent.keys, newPromoEvent]
  have hevent : acquireEvent a.id now s.ledger.events = .ok (false, e, s.ledger.events) := by
    unfold acquireEvent
    rw [hinsert]
    dsimp only
    rw [hgrant.eventByKey]
    dsimp only
    rw [if_pos hgrant.promo]
  unfold acquireCreatorPromoRewardEvent
  rw [if_neg (by have := h.positive; omega), hfind]
  dsimp only
  rw [if_neg (by simp [huser, h.active]), hevent]
  dsimp only [bind, Except.bind]
  rw [hgrant.update_eq ha]
  exact ⟨_, rfl, rfl⟩

/-- The same campaign again: the attribution is answered, and nothing changes. -/
theorem apply_again (hs : Promoted s) (ha : attributionOf s.ledger.attributions c.userId = some a)
    (h : Reaches w c campaign) (hcampaign : campaign.id = a.campaignId) :
    applyCall (w, c) s = .ok (attributionResult c.userId a false true, s) := by
  obtain ⟨hmem, huser⟩ := attributionOf_spec ha
  obtain ⟨r, hacquire, hcreated⟩ := (hs.rewarded a hmem c.userId huser).acquires c.now hmem huser h.positive
  unfold applyCall applyRegistrationCreatorAttribution
  rw [h.apply ha, if_pos hcampaign]
  dsimp only [Except.mapError, bind, Except.bind]
  unfold grantCreatorPlusDaysReward
  rw [show acquireCreatorPromoRewardEvent (attributionResult c.userId a false true).attributionId
    (attributionResult c.userId a false true).userId c.now s.ledger = _ from hacquire]
  dsimp only [bind, Except.bind]
  rw [if_pos hcreated]
  rfl

/-- Another campaign: the call raises. -/
theorem apply_other (ha : attributionOf s.ledger.attributions c.userId = some a) (h : Reaches w c campaign)
    (hcampaign : campaign.id ≠ a.campaignId) :
    applyCall (w, c) s = .error (.api 409 "CREATOR_ATTRIBUTION_ALREADY_SET" "Creator attribution is already set") := by
  unfold applyCall applyRegistrationCreatorAttribution
  rw [h.apply ha, if_neg hcampaign]
  rfl

end Again

/-- **First touch, rewarded once.** In every state `x` of a run: a user has at
most one attribution, with exactly one promo event and one reward of seven
days; none of the three changes later, and every later call of the user that
completes answers with the attribution; a call with a code of its campaign
does, and changes nothing, and one with a code of another campaign raises. -/
theorem first_touch {s x s' : State} {l m : ApplyLog} (h : Run applyCall s l x) (h' : Run applyCall x m s')
    (hs : Promoted s) :
    (∀ u, ∀ a ∈ x.ledger.attributions, ∀ b ∈ x.ledger.attributions, a.userId = some u → b.userId = some u → a = b) ∧
    ∀ u a, attributionOf x.ledger.attributions u = some a →
      (∃ e r, Grant x a u e r) ∧ Settled u a x s' ∧
      (∀ e ∈ m, e.1.2.userId = u → e.2 = attributionResult u a false true) ∧
      ∀ w c campaign, c.userId = u → Reaches w c campaign →
        (campaign.id = a.campaignId → applyCall (w, c) x = .ok (attributionResult u a false true, x)) ∧
        (campaign.id ≠ a.campaignId → applyCall (w, c) x =
          .error (.api 409 "CREATOR_ATTRIBUTION_ALREADY_SET" "Creator attribution is already set")) := by
  have hx := promoted_run h hs
  refine ⟨fun u a ha b hb hau hbu => ?_, fun u a ha => ?_⟩
  · have hfind := attributionOf_of_mem ha hau
    rw [attributionOf_of_mem hb hbu] at hfind
    exact (Option.some.inj hfind).symm
  · obtain ⟨hmem, huser⟩ := attributionOf_spec ha
    obtain ⟨hsettled, hanswers⟩ := settled_run h' hx ha
    refine ⟨(hx.rewarded a hmem u huser).grant, hsettled, hanswers, fun w c campaign hu hreaches => ?_⟩
    subst hu
    exact ⟨apply_again hx ha hreaches, apply_other ha hreaches⟩

/-! ### Codes to run the model on -/

/-- One creator with two campaigns, and two users. -/
def sampleCatalog : Catalog where
  accounts := ⟨⟨[⟨1, 0⟩, ⟨2, 1⟩], by decide⟩, .empty⟩
  createdAt := fun _ => 0
  creators := ⟨[⟨1, .active⟩], by decide⟩
  campaigns := ⟨[⟨1, 1, "FUELNEAR1", .active, none, none, 24⟩, ⟨2, 1, "FUELNEAR2", .active, none, none, 24⟩], by decide⟩
  apple := .empty

def sampleState : State := ⟨⟨.empty, .empty⟩, .empty, .empty⟩

def sampleApply (userId : ℤ) (creatorCode : String) (now : ℤ) : Catalog × ApplyCall :=
  (sampleCatalog, ⟨userId, creatorCode, .postRegistration, now⟩)

/-- The user 1 applies a code, then the same again and another one, while the
user 2 applies a code too. -/
theorem first_touch_sample : ∃ l x m s' a, Run applyCall sampleState l x ∧ Run applyCall x m s' ∧
    attributionOf x.ledger.attributions 1 = some a ∧ a.campaignId = 1 ∧ m.length = 2 ∧
    (∃ e r, Grant x a 1 e r) ∧ Settled 1 a x s' ∧
    applyCall (sampleApply 1 " fuelnear1 " 9) x = .ok (attributionResult 1 a false true, x) ∧
    applyCall (sampleApply 1 "FUELNEAR2" 9) x =
      .error (.api 409 "CREATOR_ATTRIBUTION_ALREADY_SET" "Creator attribution is already set") := by
  set first := execute applyCall sampleState [sampleApply 1 "FUELNEAR1" 5] with hfirst
  set rest := execute applyCall first.2 [sampleApply 1 "FUELNEAR1" 6, sampleApply 1 "FUELNEAR2" 7,
    sampleApply 2 "FUELNEAR2" 8] with hrest
  have hrun : Run applyCall sampleState first.1 first.2 := run_execute _ _ _
  have hrun' : Run applyCall first.2 rest.1 rest.2 := run_execute _ _ _
  have hattribution : (attributionOf first.2.ledger.attributions 1).map (·.campaignId) = some 1 := by decide +kernel
  obtain ⟨a, ha, hcampaign⟩ := Option.map_eq_some_iff.mp hattribution
  have hreaches : ∀ code campaign, (normalizeCreatorCode code >>= fetchCreatorCampaign sampleCatalog) = .ok (campaign, .active) →
      Reaches sampleCatalog ⟨1, code, .postRegistration, 9⟩ campaign := by
    intro code campaign h
    obtain ⟨normalizedCode, hcode, hfetch⟩ := bind_eq_ok.mp h
    have huser : (sampleCatalog.accounts.user? 1).isSome = true := by decide +kernel
    exact ⟨one_pos, huser, normalizedCode, .active, hcode, hfetch⟩
  obtain ⟨-, hall⟩ := first_touch hrun hrun' (promoted_empty .empty)
  obtain ⟨hgrant, hsettled, -, hcalls⟩ := hall 1 a ha
  have hsame := hcalls sampleCatalog ⟨1, " fuelnear1 ", .postRegistration, 9⟩ ⟨1, 1, "FUELNEAR1", .active, none, none, 24⟩ rfl
    (hreaches _ _ (by decide +kernel))
  have hother := hcalls sampleCatalog ⟨1, "FUELNEAR2", .postRegistration, 9⟩ ⟨2, 1, "FUELNEAR2", .active, none, none, 24⟩ rfl
    (hreaches _ _ (by decide +kernel))
  refine ⟨first.1, first.2, rest.1, rest.2, a, hrun, hrun', ha, hcampaign, by decide +kernel, hgrant, hsettled,
    hsame.1 hcampaign.symm, hother.2 ?_⟩
  rw [hcampaign]
  decide

end Creator
end FuelNear

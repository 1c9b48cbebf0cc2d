/-
# The paid milestone over any number of recorded conversions

The calls of `record_creator_apple_conversion` one after the other, whoever
makes them. The paid milestone of an attribution is folded along: each call
that answers `confirmed` moves it to the earlier of the two instants. So it is
the least of the confirmed instants, whatever the order, and an event that was
confirmed before no longer moves it.

Key definitions: `recordCall`, `confirmations`, `Confirms`.
Key theorems: `foldl_earliest_spec`, `Recorded.confirms_iff`, `Recorded.paid`, `paid_run`, `answered_run`, `kept_run`.
-/
import FuelNear.Creator.Conversion

namespace FuelNear
namespace Creator

open Sql Apple Text

/-! ### The earliest of some instants -/

theorem foldl_earliest_cons (p : Option ℤ) (x : ℤ) (l : List ℤ) :
    (x :: l).foldl earliest p = l.foldl earliest (earliest p x) := rfl

theorem foldl_earliest_eq_none : ∀ {l : List ℤ} {p : Option ℤ}, l.foldl earliest p = none ↔ p = none ∧ l = []
  | [], p => by simp
  | x :: l, p => by
    rw [foldl_earliest_cons, foldl_earliest_eq_none]
    simp [earliest]

/-- The fold is one of its instants, and none is earlier. -/
theorem foldl_earliest_spec : ∀ {l : List ℤ} {p : Option ℤ} {m : ℤ}, l.foldl earliest p = some m →
    (p = some m ∨ m ∈ l) ∧ (∀ x ∈ l, m ≤ x) ∧ ∀ x ∈ p, m ≤ x
  | [], p, m, h => by
    have hp : p = some m := h
    simp [hp]
  | x :: l, p, m, h => by
    rw [foldl_earliest_cons] at h
    obtain ⟨hmem, hl, hp⟩ := foldl_earliest_spec h
    have hle : m ≤ p.elim x (min · x) := hp _ rfl
    cases p with
    | none =>
      have hx : m ≤ x := hle
      refine ⟨Or.inr ?_, ?_, by simp⟩
      · rcases hmem with heq | hmem
        · have : x = m := by simpa [earliest] using heq
          simp [this]
        · exact List.mem_cons_of_mem _ hmem
      · simpa [hx] using hl
    | some y =>
      have hxy : m ≤ min y x := hle
      have hx : m ≤ x := hxy.trans (min_le_right y x)
      have hy : m ≤ y := hxy.trans (min_le_left y x)
      refine ⟨?_, by simpa [hx] using hl, by simpa using hy⟩
      rcases hmem with heq | hmem
      · have heq' : min y x = m := by simpa [earliest] using heq
        rcases min_choice y x with hmin | hmin <;> rw [hmin] at heq'
        · exact Or.inl (by rw [heq'])
        · exact Or.inr (by simp [heq'])
      · exact Or.inr (List.mem_cons_of_mem _ hmem)

/-- Instants that are not earlier than the fold so far do not move it. -/
theorem foldl_earliest_absorb {p : Option ℤ} : ∀ {l : List ℤ}, (∀ x ∈ l, ∃ y, p = some y ∧ y ≤ x) →
    l.foldl earliest p = p
  | [], _ => rfl
  | x :: l, h => by
    obtain ⟨y, hp, hyx⟩ := h x List.mem_cons_self
    have hstay : earliest p x = p := by simp [earliest, hp, hyx]
    rw [foldl_earliest_cons, hstay]
    exact foldl_earliest_absorb fun z hz => h z (List.mem_cons_of_mem _ hz)

/-! ### Calls one after the other -/

/-- A call, with the Apple table that it reads. -/
def recordCall (c : AppleConversion × AppleTable) (s : Ledger) :
    Except ConversionError (Option CreatorAppleConversionResult × Ledger) :=
  recordCreatorAppleConversion c.1 c.2 s

/-- A log of calls with their answers. -/
abbrev RecordLog := List ((AppleConversion × AppleTable) × Option CreatorAppleConversionResult)

/-- What the calls answered about the events they reached. -/
def conversionsOf (log : RecordLog) : List CreatorAppleConversionResult := log.flatMap (·.2.toList)

theorem conversionsOf_append (l m : RecordLog) : conversionsOf (l ++ m) = conversionsOf l ++ conversionsOf m := by
  simp [conversionsOf]

/-- The instants of the events that some answers report confirmed. -/
def confirmations (attributionId : ℤ) (l : List CreatorAppleConversionResult) : List ℤ :=
  (l.filter fun r => r.attributionId = attributionId && r.economicStatus = .confirmed).map (·.occurredAt)

theorem confirmations_append (attributionId : ℤ) (l m : List CreatorAppleConversionResult) :
    confirmations attributionId (l ++ m) = confirmations attributionId l ++ confirmations attributionId m := by
  simp [confirmations]

theorem mem_confirmations {attributionId t : ℤ} {l : List CreatorAppleConversionResult} :
    t ∈ confirmations attributionId l ↔
      ∃ r ∈ l, r.attributionId = attributionId ∧ r.economicStatus = .confirmed ∧ r.occurredAt = t := by
  simp [confirmations, and_assoc]

/-- A conversion from `s` to `s'` that records or updates the event as
confirmed: it is stored so, and either it was not before, or it is the event
that the conversion answers. -/
def Confirms (attributionId eventId : ℤ) (s : Ledger) (out : Option CreatorAppleConversionResult) (s' : Ledger) :
    Prop :=
  (∃ e ∈ s'.events, e.id = eventId ∧ e.attributionId = attributionId ∧ e.provider = .apple ∧
    e.economicStatus = .confirmed) ∧
  ((∀ d ∈ s.events, d.id = eventId → d.economicStatus ≠ .confirmed) ∨ ∃ r ∈ out, r.eventId = eventId)

section Step

variable {c : AppleConversion} {apple : AppleTable} {s s' : Ledger} {out : Option CreatorAppleConversionResult}

/-- The event of an answer is stored with the status that the answer gives. -/
theorem Recorded.stored (h : Recorded c apple s out s') : ∀ r ∈ out, ∃ e ∈ s'.events, e.id = r.eventId ∧
    e.attributionId = r.attributionId ∧ e.provider = .apple ∧ e.economicStatus = r.economicStatus := by
  intro r hr
  cases h with
  | revoked date kept => exact absurd hr (by simp)
  | unattributed noAttribution => exact absurd hr (by simp)
  | early attribution before => exact absurd hr (by simp)
  | unrecorded attribution new left => exact absurd hr (by simp)
  | @updated a e events q live attribution date found same written answer =>
    obtain rfl : q = r := by simpa using hr
    obtain ⟨he, hprovider, -⟩ := eventByKey_iff.mp found
    refine ⟨_, Checked.mem_def.mpr (written ▸ Table.mem_update.mpr ⟨e, he, rfl⟩), ?_⟩
    rw [if_pos (by simp)]
    exact ⟨answer.eventId.symm, answer.attributionId.symm, hprovider, answer.economicStatus.symm⟩
  | @inserted a t events q live attribution date new identity counts written answer =>
    obtain rfl : q = r := by simpa using hr
    exact ⟨_, (Table.mem_insert (Checked.insert_ok written)).mpr (Or.inr rfl), answer.eventId.symm,
      answer.attributionId.symm, rfl, answer.economicStatus.symm⟩

/-- An event that the conversion does not answer is left as it was. -/
theorem Recorded.left (h : Recorded c apple s out s') {e : ConversionEvent} (he : e ∈ s'.events)
    (hout : ∀ r ∈ out, r.eventId ≠ e.id) : e ∈ s.events := by
  cases h with
  | revoked date kept => exact he
  | unattributed noAttribution => exact he
  | early attribution before => exact he
  | unrecorded attribution new left => exact he
  | @updated a d events q live attribution date found same written answer =>
    have hne : d.id ≠ e.id := by
      rw [← answer.eventId]
      exact hout q rfl
    rw [Checked.mem_def, written] at he
    obtain ⟨x, hx, rfl⟩ := Table.mem_update.mp he
    by_cases hid : x.id = d.id
    · rw [if_pos (by simpa using hid)] at hne
      exact absurd hid.symm hne
    · rw [if_neg (by simpa using hid)]
      exact hx
  | @inserted a t events q live attribution date new identity counts written answer =>
    rcases (Table.mem_insert (Checked.insert_ok written)).mp he with hold | rfl
    · exact hold
    · exact absurd answer.eventId (hout q rfl)

/-- A completed conversion confirms what it answers as confirmed. -/
theorem Recorded.confirms_iff (h : Recorded c apple s out s') {attributionId eventId : ℤ} :
    Confirms attributionId eventId s out s' ↔
      ∃ r ∈ out, r.eventId = eventId ∧ r.attributionId = attributionId ∧ r.economicStatus = .confirmed := by
  constructor
  · rintro ⟨⟨e, he, hid, hattribution, -, hstatus⟩, hwrites⟩
    by_cases hanswered : ∃ r ∈ out, r.eventId = eventId
    · obtain ⟨r, hr, hrid⟩ := hanswered
      obtain ⟨d, hd, hdid, hdattribution, -, hdstatus⟩ := h.stored r hr
      obtain rfl : d = e := event_eq_of_id hd he (hdid.trans (hrid.trans hid.symm))
      exact ⟨r, hr, hrid, hdattribution.symm.trans hattribution, hdstatus.symm.trans hstatus⟩
    · have hleft : e ∈ s.events := h.left he fun r hr heq => hanswered ⟨r, hr, heq.trans hid⟩
      exact absurd hstatus (hwrites.resolve_right hanswered e hleft hid)
  · rintro ⟨r, hr, hrid, hattribution, hstatus⟩
    obtain ⟨e, he, hid, heattribution, hprovider, hestatus⟩ := h.stored r hr
    exact ⟨⟨e, he, hid.trans hrid, heattribution.trans hattribution, hprovider, hestatus.trans hstatus⟩,
      Or.inr ⟨r, hr, hrid⟩⟩

/-- The milestones after an event of the attribution `a'`, for any active
attribution. -/
theorem attributionsAfter_paid {a a' : CreatorAttribution} {v : ℤ} (occurredAt : ℤ) (t : ConversionType)
    {r : CreatorAppleConversionResult} (ha : activeAttribution s.attributions v = some a) (hid : r.attributionId = a'.id)
    (hstatus : r.economicStatus = c.economicState.status) (hat : r.occurredAt = occurredAt) :
    ∃ b, activeAttribution (c.attributionsAfter a' occurredAt t s) v = some b ∧ SameAttribution a b ∧
      b.paidPlusConvertedAt = (confirmations a.id [r]).foldl earliest a.paidPlusConvertedAt := by
  obtain ⟨b, hb, hsame, hpaid⟩ := milestones_active a'.id occurredAt t
    (normalizeAppleConversionValue c.transactionReason) c.economicState.status ha
  refine ⟨b, hb, hsame, ?_⟩
  rw [hpaid]
  by_cases hreached : c.economicState.status = .confirmed ∧ a.id = a'.id
  · rw [if_pos hreached]
    simp [confirmations, hid, hstatus, hat, hreached.1, hreached.2]
  · rw [if_neg hreached]
    have hnone : confirmations a.id [r] = [] := by
      simp only [confirmations, List.map_eq_nil_iff, List.filter_eq_nil_iff, List.mem_singleton]
      rintro x rfl hx
      simp only [Bool.and_eq_true, decide_eq_true_eq] at hx
      exact hreached ⟨by rw [← hstatus, hx.2], by rw [← hx.1, hid]⟩
    rw [hnone]
    rfl

/-- One completed call: the paid milestone is folded along. -/
theorem Recorded.paid (h : Recorded c apple s out s') {v : ℤ} {a : CreatorAttribution}
    (ha : activeAttribution s.attributions v = some a) : ∃ b, activeAttribution s'.attributions v = some b ∧
      SameAttribution a b ∧
      b.paidPlusConvertedAt = (confirmations a.id out.toList).foldl earliest a.paidPlusConvertedAt := by
  cases h with
  | revoked date kept => exact ⟨a, ha, SameAttribution.refl a, rfl⟩
  | unattributed noAttribution => exact ⟨a, ha, SameAttribution.refl a, rfl⟩
  | early attribution before => exact ⟨a, ha, SameAttribution.refl a, rfl⟩
  | unrecorded attribution new left => exact ⟨a, ha, SameAttribution.refl a, rfl⟩
  | updated live attribution date found same written answer =>
    exact attributionsAfter_paid _ _ ha (answer.attributionId.trans same) answer.economicStatus answer.occurredAt
  | inserted live attribution date new identity counts written answer =>
    exact attributionsAfter_paid _ _ ha answer.attributionId answer.economicStatus answer.occurredAt

/-- What the call writes is an event of the attribution of its user, so no
transaction gets an event of another attribution. -/
theorem Recorded.unclaimed (h : Recorded c apple s out s') {key : String} (hfree : Unclaimed c.userId key s) :
    Unclaimed c.userId key s' := by
  intro b hb e he
  cases h with
  | revoked date kept => exact hfree b hb e he
  | unattributed noAttribution => exact hfree b hb e he
  | early attribution before => exact hfree b hb e he
  | unrecorded attribution new left => exact hfree b hb e he
  | @updated a d events r live attribution date found same written answer =>
    obtain ⟨b', hb', hsame, -⟩ := attributionsAfter_paid _ _ attribution (answer.attributionId.trans same)
      answer.economicStatus answer.occurredAt
    obtain rfl : b = b' := Option.some.inj (hb.symm.trans hb')
    rw [eventByKey_updated written] at he
    obtain ⟨x, hx, rfl⟩ := Option.map_eq_some_iff.mp he
    rw [hsame.id, ← hfree a attribution x hx]
    split_ifs <;> rfl
  | @inserted a t events r live attribution date new identity counts written answer =>
    obtain ⟨b', hb', hsame, -⟩ := attributionsAfter_paid _ _ attribution answer.attributionId answer.economicStatus
      answer.occurredAt
    obtain rfl : b = b' := Option.some.inj (hb.symm.trans hb')
    rw [eventByKey_inserted written new] at he
    rw [hsame.id]
    split_ifs at he
    · rw [← Option.some.inj he]
      rfl
    · exact hfree a attribution e he

end Step

section Whole

variable {s s' : Ledger} {log : RecordLog}

/-- **The paid milestone is folded over the confirmed instants of a run.** -/
theorem paid_run (h : Run recordCall s log s') {v : ℤ} {a : CreatorAttribution}
    (ha : activeAttribution s.attributions v = some a) : ∃ b, activeAttribution s'.attributions v = some b ∧
      SameAttribution a b ∧
      b.paidPlusConvertedAt = (confirmations a.id (conversionsOf log)).foldl earliest a.paidPlusConvertedAt := by
  induction h with
  | start => exact ⟨a, ha, SameAttribution.refl a, rfl⟩
  | @done log x c out y _ hop ih =>
    obtain ⟨b, hb, hsame, hpaid⟩ := ih
    obtain ⟨b', hb', hsame', hpaid'⟩ := (recorded_of_ok hop).paid hb
    refine ⟨b', hb', hsame.trans hsame', ?_⟩
    rw [hpaid', hpaid, hsame.id, conversionsOf_append, confirmations_append, List.foldl_append]
    simp [conversionsOf]
  | refused _ _ ih => exact ih

/-- No event is lost in a run, and none is dated anew. -/
theorem kept_run (h : Run recordCall s log s') {d : ConversionEvent} (hd : d ∈ s.events) :
    ∃ e ∈ s'.events, SameEvent d e := by
  refine h.invariant (P := fun x => ∃ e ∈ x.events, SameEvent d e) ?_ ⟨d, hd, SameEvent.refl d⟩
  rintro c x out y ⟨e, he, hsame⟩ hop
  obtain ⟨e', he', hsame'⟩ := (recorded_of_ok hop).kept he
  exact ⟨e', he', hsame.trans hsame'⟩

/-- The event of every answer is in the ledger from then on. -/
theorem answered_run (h : Run recordCall s log s') : ∀ r ∈ conversionsOf log, ∃ e ∈ s'.events, r.eventId = e.id ∧
    r.attributionId = e.attributionId ∧ r.occurredAt = e.occurredAt ∧ e.provider = .apple := by
  induction h with
  | start => simp [conversionsOf]
  | @done log x c out y _ hop ih =>
    intro r hr
    rw [conversionsOf_append, List.mem_append] at hr
    rcases hr with hr | hr
    · obtain ⟨d, hd, hid, hattribution, hat, hprovider⟩ := ih r hr
      obtain ⟨e, he, hsame⟩ := (recorded_of_ok hop).kept hd
      exact ⟨e, he, hid.trans hsame.id.symm, hattribution.trans hsame.attributionId.symm,
        hat.trans hsame.occurredAt.symm, hsame.provider.trans hprovider⟩
    · exact (recorded_of_ok hop).answered r (by simpa [conversionsOf] using hr)
  | refused _ _ ih => exact ih

end Whole

end Creator
end FuelNear

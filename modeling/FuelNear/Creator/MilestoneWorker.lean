/-
# A call of the milestone worker

`process_creator_attribution_milestones`: batch after batch, by the id of the
attribution, until a query finds nothing. Between two batches any transactions
of the program may commit, also the batches of another worker.

The call ends once no codes are applied any more. It visits no attribution
twice, and passes over none that is due and free at each of its queries. Its
counts are those of the milestones it set, and a call with nothing beside it
leaves nothing to do.

Key definitions: `Surroundings`, `pager`, `processCreatorAttributionMilestones`, `outcome`.
Key theorems: `processMilestones_spec`, `Loop.counts`, `milestones_call`, `milestones_done`.
-/
import FuelNear.Creator.Funnel
import FuelNear.Paging

namespace FuelNear
namespace Creator

open Sql History Paging
open Referrals (UserRow day)

/-- What a call finds in each batch, and the transactions that others commit before it. -/
structure Surroundings where
  view : ℕ → BatchView
  others : ℕ → List ProgramCall

/-- The batches of a call. -/
def pager (days limit : ℕ) (e : Surroundings) : Pager (MilestoneCounts × Program) MilestoneRow ℤ where
  key := (·.id)
  limit := limit
  found k c := foundRows days (e.view k) c.2
  visit k batch c := processMilestones days (e.view k) batch
    ({ c.1 with batches := c.1.batches + 1, scanned := c.1.scanned + batch.length }, c.2)
  between k c := (c.1, (execute programCall c.2 (e.others k)).2)

/-- `CREATOR_ATTRIBUTION_PROCESS_BATCH_SIZE`, of the setting. -/
def processBatchSize (setting : ℤ) : ℕ := (max 1 setting).toNat

/-- `process_creator_attribution_milestones`; `none` is out of fuel. -/
def processCreatorAttributionMilestones (qualificationDays batchSize : ℤ) (e : Surroundings) (fuel : ℕ) (s : Program) :
    Option (Except String (MilestoneCounts × Program)) :=
  if qualificationDays ≤ 0 then some (.error "qualification_days must be greater than zero")
  else ((pager qualificationDays.toNat (processBatchSize batchSize) e).pages fuel 0 (some 0) (.zero, s)).map fun done =>
    .ok done.2

/-! ### The rows of a batch -/

section Batch

variable {days : ℕ} {view : BatchView} {s : Program} {batch : List MilestoneRow}

/-- What the UPDATE of a row returned, or that it raised. -/
def outcome (days : ℕ) (view : BatchView) (s : Program) (row : MilestoneRow) : Option (Option Stamps) :=
  if view.raises row.id then none
  else some ((reachedRow (view.usersAt row.id) row.id s).map fun x => stamped days view.now x.2 x.1)

/-- The counts after a row. -/
def MilestoneCounts.count (row : MilestoneRow) (result : Option (Option Stamps)) (c : MilestoneCounts) :
    MilestoneCounts :=
  match result with
  | none => { c with failed := c.failed + 1 }
  | some updated => c.add row updated

/-- The stamps of a row after the UPDATE. -/
def stampsAfter (old : Stamps) : Option (Option Stamps) → Stamps
  | some (some m) => m
  | _ => old

theorem processMilestone_eq (row : MilestoneRow) (c : MilestoneCounts) :
    processMilestone days view row (c, s) = (c.count row (outcome days view s row),
      { s with stamps := Function.update s.stamps row.id (stampsAfter (s.stamps row.id) (outcome days view s row)) }) := by
  unfold processMilestone outcome
  by_cases hraises : view.raises row.id = true
  · rw [if_pos hraises, if_pos hraises]
    simp [MilestoneCounts.count, stampsAfter]
  · rw [if_neg hraises, if_neg hraises]
    unfold stampAttribution
    cases reachedRow (view.usersAt row.id) row.id s with
    | none => simp [MilestoneCounts.count, stampsAfter]
    | some x => simp [MilestoneCounts.count, stampsAfter]

/-- The stamps of another row do not matter. -/
theorem reachedRow_update {users : UserTable} {id id' : ℤ} {m : Stamps} (h : id ≠ id') :
    reachedRow users id { s with stamps := Function.update s.stamps id' m } = reachedRow users id s := by
  unfold reachedRow
  rw [rows_update, List.find?_map]
  have hp : ((fun r : FunnelRow => decide (r.attribution.id = id) && r.attribution.isActive) ∘
      fun r => if r.attribution.id = id' then ⟨r.attribution, m⟩ else r) =
      fun r => decide (r.attribution.id = id) && r.attribution.isActive := by
    funext r
    by_cases hr : r.attribution.id = id' <;> simp [hr]
  rw [hp]
  cases hfound : s.rows.find? fun r => decide (r.attribution.id = id) && r.attribution.isActive with
  | none => rfl
  | some r =>
    have hid : r.attribution.id = id := by
      have := List.find?_some hfound
      simp only [Bool.and_eq_true, decide_eq_true_eq] at this
      exact this.1
    simp [hid, h]

theorem outcome_update {row : MilestoneRow} {id : ℤ} {m : Stamps} (h : row.id ≠ id) :
    outcome days view { s with stamps := Function.update s.stamps id m } row = outcome days view s row := by
  unfold outcome
  rw [reachedRow_update h]

/-- The stamps after a batch. -/
def batchStamps (days : ℕ) (view : BatchView) (s : Program) (batch : List MilestoneRow) (id : ℤ) : Stamps :=
  match batch.find? fun row => row.id = id with
  | none => s.stamps id
  | some row => stampsAfter (s.stamps id) (outcome days view s row)

/-- **A batch**: every row has its outcome in the store that the batch found. -/
theorem processMilestones_spec (hnodup : batch.Pairwise fun a b => a.id ≠ b.id) (c : MilestoneCounts) :
    processMilestones days view batch (c, s) =
      (batch.foldl (fun c row => c.count row (outcome days view s row)) c,
        { s with stamps := batchStamps days view s batch }) := by
  induction batch generalizing c s with
  | nil => rfl
  | cons row batch ih =>
    obtain ⟨hrow, hbatch⟩ := List.pairwise_cons.mp hnodup
    have hstep : processMilestones days view (row :: batch) (c, s) =
        processMilestones days view batch (processMilestone days view row (c, s)) := rfl
    rw [hstep, processMilestone_eq, ih hbatch]
    refine Prod.ext ?_ ?_
    · dsimp only
      rw [List.foldl_cons]
      refine List.foldl_ext _ _ _ fun c' row' hrow' => ?_
      rw [outcome_update (hrow row' hrow').symm]
    · dsimp only
      congr 1
      funext id
      unfold batchStamps
      rw [List.find?_cons]
      by_cases hid : row.id = id
      · -- the row of the id is the first, and no later one has it
        have hnone : batch.find? (fun row' => decide (row'.id = id)) = none := by
          rw [List.find?_eq_none]
          intro row' hrow'
          have hne := hrow row' hrow'
          simp only [decide_eq_true_eq]
          omega
        simp [hid, hnone]
      · cases hfound : batch.find? (fun row' => decide (row'.id = id)) with
        | none => simp [hid, Function.update_of_ne (Ne.symm hid)]
        | some row' =>
          have hrow' : row'.id = id := by simpa using List.find?_some hfound
          have hne : row'.id ≠ row.id := by omega
          simp [hid, Function.update_of_ne (Ne.symm hid), outcome_update hne]

/-! ### What a batch counts -/

/-- The verification was set, by a batch that left `s'`. -/
def newlyVerified (s s' : Program) (id : ℤ) : Bool := (s.stamps id).verifiedAt.isNone && (s'.stamps id).verifiedAt.isSome

def newlyQualified (s s' : Program) (id : ℤ) : Bool :=
  (s.stamps id).qualifiedAt.isNone && (s'.stamps id).qualifiedAt.isSome

/-- The row of the SELECT shows the stamps of the store. -/
def Shows (s : Program) (row : MilestoneRow) : Prop :=
  row.verifiedAt = (s.stamps row.id).verifiedAt ∧ row.qualifiedAt = (s.stamps row.id).qualifiedAt

/-- A column has changed, as the call reads it off the two rows. -/
def changedBy (changed : MilestoneRow → Stamps → Bool) (row : MilestoneRow) : Option (Option Stamps) → Bool
  | some (some m) => changed row m
  | _ => false

theorem newlyVerified_eq {row : MilestoneRow} (h : Shows s row) {s' : Program} {result : Option (Option Stamps)}
    (hs' : s'.stamps row.id = stampsAfter (s.stamps row.id) result) :
    newlyVerified s s' row.id = changedBy verifiedChanged row result := by
  unfold newlyVerified
  rw [hs']
  rcases result with _ | _ | m
  · simp [stampsAfter, changedBy]
  · simp [stampsAfter, changedBy]
  · simp [stampsAfter, changedBy, verifiedChanged, h.1]

theorem newlyQualified_eq {row : MilestoneRow} (h : Shows s row) {s' : Program} {result : Option (Option Stamps)}
    (hs' : s'.stamps row.id = stampsAfter (s.stamps row.id) result) :
    newlyQualified s s' row.id = changedBy qualifiedChanged row result := by
  unfold newlyQualified
  rw [hs']
  rcases result with _ | _ | m
  · simp [stampsAfter, changedBy]
  · simp [stampsAfter, changedBy]
  · simp [stampsAfter, changedBy, qualifiedChanged, h.2]

/-- The counts of a part of the batches, beside those before. -/
structure Tally (rows : List MilestoneRow) (verified qualified : ℕ) (c c' : MilestoneCounts) : Prop where
  verified : c'.verified = c.verified + verified
  qualified : c'.qualified = c.qualified + qualified
  /-- no row is counted as processed and as failed -/
  scanned_ge : c'.processed + c'.failed ≤ c.processed + c.failed + rows.length
  /-- and every row as one of the three -/
  scanned_le : c.processed + c.failed + c.skipped + rows.length ≤ c'.processed + c'.failed + c'.skipped
  /-- a processed row has a milestone set, or is counted as skipped too -/
  processed_le : c'.processed + (c.verified + c.qualified + c.skipped) ≤
    c.processed + (c'.verified + c'.qualified + c'.skipped)

theorem tally_row {row : MilestoneRow} (h : Shows s row) {s' : Program} {result : Option (Option Stamps)}
    (hs' : s'.stamps row.id = stampsAfter (s.stamps row.id) result) (c : MilestoneCounts) :
    Tally [row] (newlyVerified s s' row.id).toNat (newlyQualified s s' row.id).toNat c (c.count row result) := by
  rw [newlyVerified_eq h hs', newlyQualified_eq h hs']
  rcases result with _ | _ | m
  · constructor <;> simp [MilestoneCounts.count, changedBy, add_assoc]
  · constructor <;> simp [MilestoneCounts.count, MilestoneCounts.add, changedBy, add_assoc]
  · cases hv : verifiedChanged row m <;> cases hq : qualifiedChanged row m <;>
      constructor <;> simp [MilestoneCounts.count, MilestoneCounts.add, changedBy, hv, hq] <;> omega

theorem Tally.trans {rows rows' : List MilestoneRow} {v v' q q' : ℕ} {c c' c'' : MilestoneCounts}
    (h : Tally rows v q c c') (h' : Tally rows' v' q' c' c'') : Tally (rows ++ rows') (v + v') (q + q') c c'' := by
  obtain ⟨h1, h2, h3, h4, h5⟩ := h
  obtain ⟨k1, k2, k3, k4, k5⟩ := h'
  constructor
  case scanned_ge => rw [List.length_append]; omega
  case scanned_le => rw [List.length_append]; omega
  all_goals omega

/-- The counts after the rows of a batch. -/
theorem tally_rows {s' : Program} (c : MilestoneCounts) : ∀ (rows : List MilestoneRow), (∀ row ∈ rows, Shows s row ∧
    s'.stamps row.id = stampsAfter (s.stamps row.id) (outcome days view s row)) →
    Tally rows (rows.countP fun row => newlyVerified s s' row.id) (rows.countP fun row => newlyQualified s s' row.id) c
      (rows.foldl (fun c row => c.count row (outcome days view s row)) c) := by
  intro rows
  induction rows generalizing c with
  | nil => exact fun _ => ⟨rfl, rfl, le_rfl, le_rfl, le_rfl⟩
  | cons row rows ih =>
    intro h
    obtain ⟨hshows, hs'⟩ := h row List.mem_cons_self
    have htally := (tally_row hshows hs' c).trans
      (ih (c.count row (outcome days view s row)) fun r hr => h r (List.mem_cons_of_mem _ hr))
    rw [List.foldl_cons, List.countP_cons, List.countP_cons]
    have hnat : ∀ b : Bool, b.toNat = if b = true then 1 else 0 := fun b => by cases b <;> rfl
    rw [hnat, hnat] at htally
    rw [add_comm (rows.countP _), add_comm (rows.countP _)]
    exact htally

theorem foldl_scanned (days : ℕ) (view : BatchView) (s : Program) (c : MilestoneCounts) : ∀ rows : List MilestoneRow,
    (rows.foldl (fun c row => c.count row (outcome days view s row)) c).scanned = c.scanned ∧
      (rows.foldl (fun c row => c.count row (outcome days view s row)) c).batches = c.batches := by
  intro rows
  induction rows generalizing c with
  | nil => exact ⟨rfl, rfl⟩
  | cons row rows ih =>
    have hrow : (c.count row (outcome days view s row)).scanned = c.scanned ∧
        (c.count row (outcome days view s row)).batches = c.batches := by
      rcases outcome days view s row with _ | _ | m <;> exact ⟨rfl, rfl⟩
    obtain ⟨hscanned, hbatches⟩ := ih (c.count row (outcome days view s row))
    exact ⟨hscanned.trans hrow.1, hbatches.trans hrow.2⟩

/-! ### The query -/

theorem mem_foundRows {row : MilestoneRow} :
    row ∈ foundRows days view s ↔ ∃ r ∈ s.rows, foundRow days view r = some row := List.mem_filterMap

/-- A row that the query finds: its attribution is active, due and not locked. -/
theorem foundRow_eq_some {r : FunnelRow} {row : MilestoneRow} : foundRow days view r = some row ↔
    row = ⟨r.attribution.id, r.stamps.verifiedAt, r.stamps.qualifiedAt⟩ ∧ r.attribution.isActive = true ∧
      (∃ u, userOf view.users r.attribution = some u ∧ isDue days view.now u r = true) ∧
      r.attribution.id ∉ view.locked := by
  unfold foundRow
  by_cases h : (r.attribution.isActive && (userOf view.users r.attribution).any (isDue days view.now · r) &&
      !view.locked.contains r.attribution.id) = true
  · rw [if_pos h]
    simp only [Bool.and_eq_true, Option.any_eq_true_iff_get, Bool.not_eq_true', List.contains_eq_mem,
      decide_eq_false_iff_not] at h
    obtain ⟨⟨hactive, hsome, hdue⟩, hlocked⟩ := h
    rw [Option.some.injEq, eq_comm]
    exact ⟨fun hrow => ⟨hrow, hactive, ⟨_, Option.eq_some_of_isSome hsome, hdue⟩, hlocked⟩, fun hrow => hrow.1⟩
  · rw [if_neg h]
    refine ⟨fun hrow => absurd hrow (by simp), fun hdue => absurd ?_ h⟩
    obtain ⟨_, hactive, ⟨u, hu, hdue⟩, hlocked⟩ := hdue
    simp [hactive, hu, hdue, hlocked]

theorem rows_distinct (s : Program) : s.rows.Pairwise fun a b => a.attribution.id ≠ b.attribution.id := by
  unfold Program.rows
  rw [List.pairwise_map]
  refine (List.nodup_flatMap.mp s.ledger.attributions.unique).2.imp fun {a b} hdisjoint heq => ?_
  have hdisjoint : List.Disjoint a.keys b.keys := hdisjoint
  exact hdisjoint (List.mem_cons_self : Sum.inl a.id ∈ a.keys) (by simp [CreatorAttribution.keys, show a.id = b.id from heq])

theorem foundRows_distinct (days : ℕ) (view : BatchView) (s : Program) :
    (foundRows days view s).Pairwise fun a b => a.id ≠ b.id := by
  unfold foundRows
  rw [List.pairwise_filterMap]
  refine (rows_distinct s).imp fun {r r'} hne row hrow row' hrow' => ?_
  rw [(foundRow_eq_some.mp hrow).1, (foundRow_eq_some.mp hrow').1]
  exact hne

theorem shows_of_found {row : MilestoneRow} (h : row ∈ foundRows days view s) : Shows s row := by
  obtain ⟨r, hr, hfound⟩ := mem_foundRows.mp h
  obtain ⟨rfl, -⟩ := foundRow_eq_some.mp hfound
  have hstamps := (Program.mem_rows.mp hr).2
  exact ⟨congrArg Stamps.verifiedAt hstamps, congrArg Stamps.qualifiedAt hstamps⟩

/-- Stamped for a user, a row is not due for it. -/
theorem stamped_notDue (days : ℕ) (now : ℤ) (u : UserRow) (r : FunnelRow) :
    isDue days now u ⟨r.attribution, stamped days now u r⟩ = false := by
  have hverified : awaitsVerification u (stamped days now u r) = false := by
    by_cases hv : awaitsVerification u r.stamps = true
    · have hset : (stamped days now u r).verifiedAt = some now := if_pos hv
      simp [awaitsVerification, hset]
    · have hkept : (stamped days now u r).verifiedAt = r.stamps.verifiedAt := if_neg hv
      unfold awaitsVerification
      rw [hkept]
      exact Bool.not_eq_true _ ▸ hv
  have hqualified : awaitsQualification days now u ⟨r.attribution, stamped days now u r⟩ = false := by
    by_cases hq : awaitsQualification days now u r = true
    · have hset : (stamped days now u r).qualifiedAt = some now := if_pos hq
      simp [awaitsQualification, hset]
    · have hkept : (stamped days now u r).qualifiedAt = r.stamps.qualifiedAt := if_neg hq
      unfold awaitsQualification
      dsimp only
      rw [hkept]
      exact Bool.not_eq_true _ ▸ hq
  unfold isDue
  rw [hverified, hqualified, Bool.or_self]

end Batch

/-! ### The loop -/

section Loop

variable {days limit : ℕ} {e : Surroundings} {k : ℕ} {cursor : Option ℤ} {c final : MilestoneCounts × Program}
  {l : List (Page (MilestoneCounts × Program) MilestoneRow)}

theorem pager_distinct (days limit : ℕ) (e : Surroundings) : (pager days limit e).Distinct :=
  fun k c => foundRows_distinct days (e.view k) c.2

/-- The stores before and after a page: the rows have their outcomes, and the counts follow. -/
structure Visited (days : ℕ) (view : BatchView) (p : Page (MilestoneCounts × Program) MilestoneRow) : Prop where
  found : ∀ row ∈ p.rows, row ∈ foundRows days view p.before.2
  distinct : p.rows.Pairwise fun a b => a.id ≠ b.id
  after : p.after.2 = { p.before.2 with stamps := batchStamps days view p.before.2 p.rows }
  tally : Tally p.rows (p.rows.countP fun row => newlyVerified p.before.2 p.after.2 row.id)
    (p.rows.countP fun row => newlyQualified p.before.2 p.after.2 row.id) p.before.1 p.after.1
  scanned : p.after.1.scanned = p.before.1.scanned + p.rows.length
  batches : p.after.1.batches = p.before.1.batches + 1

theorem batchStamps_of_mem {view : BatchView} {s : Program} {batch : List MilestoneRow}
    (hnodup : batch.Pairwise fun a b => a.id ≠ b.id) {row : MilestoneRow} (h : row ∈ batch) :
    batchStamps days view s batch row.id = stampsAfter (s.stamps row.id) (outcome days view s row) := by
  unfold batchStamps
  have hfound : batch.find? (fun row' => decide (row'.id = row.id)) = some row := by
    induction batch with
    | nil => exact absurd h List.not_mem_nil
    | cons first batch ih =>
      obtain ⟨hfirst, hbatch⟩ := List.pairwise_cons.mp hnodup
      rw [List.find?_cons]
      rcases List.mem_cons.mp h with rfl | h
      · simp
      · rw [decide_eq_false (hfirst row h)]
        exact ih hbatch h
  rw [hfound]

theorem visited_page (days limit : ℕ) (e : Surroundings) (k : ℕ) (cursor : Option ℤ) (c : MilestoneCounts × Program) :
    Visited days (e.view k) ⟨k, c, (pager days limit e).page k cursor c,
      (pager days limit e).visit k ((pager days limit e).page k cursor c) c⟩ := by
  set batch := (pager days limit e).page k cursor c with hbatch
  have hfound : ∀ row ∈ batch, row ∈ foundRows days (e.view k) c.2 := fun row hrow => (Pager.mem_page hrow).1
  have hdistinct : batch.Pairwise fun a b => a.id ≠ b.id :=
    (Pager.page_sorted (pager_distinct days limit e) k cursor c).imp fun hab => ne_of_lt hab
  have hvisit : (pager days limit e).visit k batch c =
      (batch.foldl (fun c' row => c'.count row (outcome days (e.view k) c.2 row))
        { c.1 with batches := c.1.batches + 1, scanned := c.1.scanned + batch.length },
        { c.2 with stamps := batchStamps days (e.view k) c.2 batch }) := processMilestones_spec hdistinct _
  obtain ⟨hscanned, hbatches⟩ := foldl_scanned days (e.view k) c.2
    { c.1 with batches := c.1.batches + 1, scanned := c.1.scanned + batch.length } batch
  refine ⟨hfound, hdistinct, ?_, ?_, ?_, ?_⟩
  · rw [hvisit]
  · have hrows : ∀ row ∈ batch, Shows c.2 row ∧
        ({ c.2 with stamps := batchStamps days (e.view k) c.2 batch } : Program).stamps row.id =
          stampsAfter (c.2.stamps row.id) (outcome days (e.view k) c.2 row) :=
      fun row hrow => ⟨shows_of_found (hfound row hrow), batchStamps_of_mem hdistinct hrow⟩
    have htally := tally_rows
      { c.1 with batches := c.1.batches + 1, scanned := c.1.scanned + batch.length } batch hrows
    rw [hvisit]
    exact ⟨htally.verified, htally.qualified, htally.scanned_ge, htally.scanned_le, htally.processed_le⟩
  · rw [hvisit]
    exact hscanned
  · rw [hvisit]
    exact hbatches

/-- Every page of a loop is of this kind. -/
theorem Loop.visited (h : (pager days limit e).Loop k cursor c l final) :
    ∀ p ∈ l, Visited days (e.view p.index) p := by
  induction h with
  | stop empty => exact fun p hp => absurd hp List.not_mem_nil
  | @next k cursor c final last rest some_last tail ih =>
    intro p hp
    rcases List.mem_cons.mp hp with rfl | hp
    · exact visited_page days limit e k cursor _
    · exact ih p hp

/-- The milestones that the pages have set. -/
def verifiedIn (l : List (Page (MilestoneCounts × Program) MilestoneRow)) : ℕ :=
  (l.map fun p => p.rows.countP fun row => newlyVerified p.before.2 p.after.2 row.id).sum

def qualifiedIn (l : List (Page (MilestoneCounts × Program) MilestoneRow)) : ℕ :=
  (l.map fun p => p.rows.countP fun row => newlyQualified p.before.2 p.after.2 row.id).sum

/-- **The counts of a call** are those of its pages. -/
theorem Loop.counts (h : (pager days limit e).Loop k cursor c l final) :
    Tally (Pager.visited l) (verifiedIn l) (qualifiedIn l) c.1 final.1 ∧
      final.1.scanned = c.1.scanned + (Pager.visited l).length ∧ final.1.batches = c.1.batches + l.length := by
  induction h with
  | stop empty => exact ⟨⟨rfl, rfl, le_rfl, le_rfl, le_rfl⟩, rfl, rfl⟩
  | @next k cursor c final last rest some_last tail ih =>
    have hpage := visited_page days limit e k cursor ((pager days limit e).between k c)
    obtain ⟨htally, hscanned, hbatches⟩ := ih
    refine ⟨hpage.tally.trans htally, ?_, ?_⟩
    · rw [hscanned, hpage.scanned]
      show _ = _ + (((pager days limit e).page k cursor ((pager days limit e).between k c)) ++
        Pager.visited rest).length
      rw [List.length_append, ← add_assoc]
      rfl
    · rw [hbatches, hpage.batches, List.length_cons]
      show c.1.batches + 1 + rest.length = _
      omega

end Loop

/-! ### A whole call -/

section Call

variable {days limit : ℕ} {e : Surroundings} {s : Program}

/-- From some batch on nobody applies a code. -/
def Quiet (e : Surroundings) (n : ℕ) : Prop := ∀ k, n ≤ k → ∀ call ∈ e.others k, ∀ o c b, call ≠ .apply o c b

theorem EvolvesTo.id {r r' : FunnelRow} (h : EvolvesTo r r') : r'.attribution.id = r.attribution.id := by
  induction h with
  | refl => rfl
  | tail _ hstep ih =>
    refine Eq.trans ?_ ih
    cases hstep with
    | advanced h => exact h.same.id
    | stamped days now u active => rfl
    | anonymized now user => rfl

/-- The ids of the table. -/
def ids (c : MilestoneCounts × Program) : List ℤ := c.2.rows.map (·.attribution.id)

theorem ids_execute {l : List ProgramCall} (h : ∀ call ∈ l, ∀ o c b, call ≠ .apply o c b) (s : Program) :
    (execute programCall s l).2.rows.map (·.attribution.id) = s.rows.map (·.attribution.id) := by
  have hrun := run_execute programCall l s
  refine hrun.invariant_of_mem (P := fun t => t.rows.map (·.attribution.id) = s.rows.map (·.attribution.id))
    (fun call t u t' hmem ht hop => ?_) rfl
  have hcall := h call (mem_execute hmem)
  exact (forall₂_column (evolved_of_ok hcall hop).2 fun _ _ => EvolvesTo.id).trans ht

theorem pager_settles (days limit : ℕ) {n : ℕ} (hquiet : Quiet e n) : (pager days limit e).Settles ids n where
  found := by
    intro k c row hrow
    obtain ⟨r, hr, hfound⟩ := mem_foundRows.mp hrow
    obtain ⟨rfl, -⟩ := foundRow_eq_some.mp hfound
    exact List.mem_map_of_mem hr
  between := by
    intro k c hk
    have heq : ids ((pager days limit e).between k c) = ids c := ids_execute (hquiet k hk) c.2
    rw [heq]
    exact List.Subset.refl _
  visit := by
    intro k batch c
    have hrows := (processMilestones_rows days (e.view k) batch
      ({ c.1 with batches := c.1.batches + 1, scanned := c.1.scanned + batch.length }, c.2)).2
    have heq : ids ((pager days limit e).visit k batch c) = ids c := forall₂_column hrows fun _ _ => EvolvesTo.id
    rw [heq]
    exact List.Subset.refl _

/-- The attribution is due and free for a query. -/
def Offered (days : ℕ) (view : BatchView) (s : Program) (id : ℤ) : Prop := ∃ row ∈ foundRows days view s, row.id = id

/-- A visited row whose UPDATE did not raise, and whose user is as the SELECT found it. -/
structure Undisturbed (view : BatchView) (s : Program) (id : ℤ) : Prop where
  returns : view.raises id = false
  user : ∀ r ∈ s.rows, r.attribution.id = id → userOf (view.usersAt id) r.attribution = userOf view.users r.attribution

/-- What a page left: nothing but stamps of its rows has changed, and each row that
was not disturbed has what its user was due. -/
structure PageSettled (days : ℕ) (view : BatchView) (p : Page (MilestoneCounts × Program) MilestoneRow) : Prop where
  ledger : p.after.2.ledger = p.before.2.ledger
  roster : p.after.2.roster = p.before.2.roster
  others : ∀ id, (∀ row ∈ p.rows, row.id ≠ id) → p.after.2.stamps id = p.before.2.stamps id
  rows : ∀ row ∈ p.rows, Undisturbed view p.before.2 row.id → ∃ r ∈ p.after.2.rows, ∃ u, r.attribution.id = row.id ∧
    userOf view.users r.attribution = some u ∧ isDue days view.now u r = false

theorem batchStamps_of_not_mem {view : BatchView} {s : Program} {batch : List MilestoneRow} {id : ℤ}
    (h : ∀ row ∈ batch, row.id ≠ id) : batchStamps days view s batch id = s.stamps id := by
  have hnone : batch.find? (fun row => decide (row.id = id)) = none := by
    rw [List.find?_eq_none]
    intro row hrow
    simpa using h row hrow
  unfold batchStamps
  rw [hnone]

/-- The row of an undisturbed UPDATE. -/
theorem outcome_of_undisturbed {view : BatchView} {r : FunnelRow} {row : MilestoneRow} (hr : r ∈ s.rows)
    (hfound : foundRow days view r = some row) (h : Undisturbed view s row.id) :
    ∃ u, userOf view.users r.attribution = some u ∧ outcome days view s row = some (some (stamped days view.now u r)) := by
  obtain ⟨rfl, hactive, ⟨u, hu, -⟩, -⟩ := foundRow_eq_some.mp hfound
  refine ⟨u, hu, ?_⟩
  have hreached : reachedRow (view.usersAt r.attribution.id) r.attribution.id s = some (r, u) := by
    have hfind : (s.rows.find? fun r' => r'.attribution.id = r.attribution.id && r'.attribution.isActive) = some r := by
      cases hfind : s.rows.find? fun r' => r'.attribution.id = r.attribution.id && r'.attribution.isActive with
      | none =>
        rw [List.find?_eq_none] at hfind
        exact absurd (hfind r hr) (by simp [hactive])
      | some r' =>
        have hp := List.find?_some hfind
        simp only [Bool.and_eq_true, decide_eq_true_eq] at hp
        rw [row_eq_of_id (List.mem_of_find?_eq_some hfind) hr hp.1]
    unfold reachedRow
    rw [hfind, Option.bind_some, h.user r hr rfl, hu, Option.map_some]
  unfold outcome
  rw [h.returns, if_neg Bool.false_ne_true, hreached]
  rfl

theorem Visited.settled {view : BatchView} {p : Page (MilestoneCounts × Program) MilestoneRow} (h : Visited days view p) :
    PageSettled days view p := by
  have hafter := h.after
  refine ⟨by rw [hafter], by rw [hafter], fun id hid => ?_, fun row hrow hund => ?_⟩
  · rw [hafter]
    exact batchStamps_of_not_mem hid
  · obtain ⟨r, hr, hfound⟩ := mem_foundRows.mp (h.found row hrow)
    obtain ⟨u, hu, houtcome⟩ := outcome_of_undisturbed hr hfound hund
    have hid : row.id = r.attribution.id := congrArg MilestoneRow.id (foundRow_eq_some.mp hfound).1
    refine ⟨⟨r.attribution, stamped days view.now u r⟩, ?_, u, hid.symm, hu, stamped_notDue days view.now u r⟩
    rw [hafter, Program.mem_rows]
    refine ⟨(Program.mem_rows.mp hr).1, ?_⟩
    dsimp only
    rw [← hid, batchStamps_of_mem h.distinct hrow, houtcome]
    rfl

/-- **A call of the worker**, while others work on the same tables: it returns once no
codes are applied any more; no attribution is visited twice; one that is due and
free at each of its queries is visited; what a page leaves is settled; and the
counts are those of the rows visited and of the milestones set. -/
theorem milestones_call {qualificationDays : ℤ} (hdays : 0 < qualificationDays) (batchSize : ℤ) (e : Surroundings)
    (s : Program) {n : ℕ} (hquiet : Quiet e n) :
    ∃ pages counts final,
      (∀ fuel, pages.length < fuel →
        processCreatorAttributionMilestones qualificationDays batchSize e fuel s = some (.ok (counts, final))) ∧
      (Pager.visited pages).Pairwise (fun a b => a.id < b.id) ∧
      (∀ id, 0 < id → (∀ p ∈ pages, Offered qualificationDays.toNat (e.view p.index) p.before.2 id) →
        Offered qualificationDays.toNat (e.view pages.length) final id → ∃ row ∈ Pager.visited pages, row.id = id) ∧
      (∀ p ∈ pages, PageSettled qualificationDays.toNat (e.view p.index) p) ∧
      Tally (Pager.visited pages) (verifiedIn pages) (qualifiedIn pages) .zero counts ∧
      counts.scanned = (Pager.visited pages).length ∧ counts.batches = pages.length := by
  set P := pager qualificationDays.toNat (processBatchSize batchSize) e with hP
  have hdistinct : P.Distinct := pager_distinct _ _ _
  have hlimit : 1 ≤ P.limit := by
    show 1 ≤ (max 1 batchSize).toNat
    omega
  obtain ⟨pages, ⟨counts, final⟩, hloop⟩ := Pager.loop_exists (pager_settles qualificationDays.toNat
    (processBatchSize batchSize) hquiet) 0 (some 0) (MilestoneCounts.zero, s)
  obtain ⟨htally, hscanned, hbatches⟩ := Loop.counts hloop
  refine ⟨pages, counts, final, fun fuel hfuel => ?_, hloop.increasing hdistinct, fun id hid hpages hfinal => ?_,
    fun p hp => (Loop.visited hloop p hp).settled, htally, hscanned.trans (Nat.zero_add _),
    hbatches.trans (Nat.zero_add _)⟩
  · unfold processCreatorAttributionMilestones
    rw [if_neg (not_le.mpr hdays), ← hP, hloop.pages hfuel]
    rfl
  · by_contra hout
    push Not at hout
    have hafter : (some (0 : ℤ)).all (fun x => decide (x < id)) = true := by simpa using hid
    rcases hloop.passed_over hdistinct hlimit hafter hout with ⟨p, hp, hmissing⟩ | hmissing
    · obtain ⟨row, hrow, hrowid⟩ := hpages p hp
      exact hmissing row hrow hrowid
    · obtain ⟨row, hrow, hrowid⟩ := hfinal
      rw [Nat.zero_add] at hmissing
      exact hmissing row hrow hrowid

/-! ### A call by itself -/

/-- Nothing happens beside the call, and its instant stays. -/
def alone (view : BatchView) : Surroundings :=
  ⟨fun _ => { view with usersAt := fun _ => view.users, locked := [], raises := fun _ => false }, fun _ => []⟩

theorem alone_quiet (view : BatchView) : Quiet (alone view) 0 := fun _ _ _ h => absurd h List.not_mem_nil

/-- What a query of the call could still find comes after the cursor. -/
theorem Loop.done {view : BatchView} {k : ℕ} {cursor : Option ℤ} {c final : MilestoneCounts × Program}
    {l : List (Page (MilestoneCounts × Program) MilestoneRow)} (hlimit : 1 ≤ limit)
    (h : (pager days limit (alone view)).Loop k cursor c l final)
    (hc : ∀ row ∈ foundRows days ((alone view).view 0) c.2, cursor.all (· < row.id) = true) :
    foundRows days ((alone view).view 0) final.2 = [] := by
  induction h with
  | @stop k cursor c empty =>
    refine List.eq_nil_iff_forall_not_mem.mpr fun row hrow => ?_
    have hahead : row ∈ (pager days limit (alone view)).ahead k cursor ((pager days limit (alone view)).between k c) :=
      Pager.mem_ahead.mpr ⟨hrow, hc row hrow⟩
    rw [Pager.ahead_of_empty hlimit empty] at hahead
    exact absurd hahead List.not_mem_nil
  | @next k cursor c final last rest some_last tail ih =>
    refine ih fun row hrow => ?_
    have hpage := visited_page days limit (alone view) k cursor ((pager days limit (alone view)).between k c)
    set batch := (pager days limit (alone view)).page k cursor ((pager days limit (alone view)).between k c) with hbatch
    have hafter := hpage.after
    have hsettled := hpage.settled
    dsimp only at hafter hsettled
    obtain ⟨r, hr, hfound⟩ := mem_foundRows.mp hrow
    obtain ⟨hrowEq, hactive, ⟨u, hu, hdue⟩, hlocked⟩ := foundRow_eq_some.mp hfound
    have hid : row.id = r.attribution.id := congrArg MilestoneRow.id hrowEq
    by_cases hin : ∃ row' ∈ batch, row'.id = row.id
    · -- it was visited, so it is not due any more
      obtain ⟨row', hrow', hid'⟩ := hin
      obtain ⟨r', hr', u', hrid', hu', hnot⟩ := hsettled.rows row' hrow' ⟨rfl, fun _ _ _ => rfl⟩
      obtain rfl := row_eq_of_id hr hr' (hid.symm.trans (hid'.symm.trans hrid'.symm))
      obtain rfl : u = u' := Option.some.inj (hu.symm.trans hu')
      exact absurd (hdue.symm.trans hnot) (by simp)
    · -- it was there for the query, and was cut off
      push Not at hin
      have hrBefore : r ∈ ((pager days limit (alone view)).between k c).2.rows := by
        obtain ⟨hmem, hstamps⟩ := Program.mem_rows.mp hr
        refine Program.mem_rows.mpr ⟨by rwa [hsettled.ledger] at hmem, ?_⟩
        rw [hstamps, hsettled.others r.attribution.id fun row' hrow' => hid ▸ hin row' hrow']
      have hfoundBefore : row ∈ foundRows days ((alone view).view 0) ((pager days limit (alone view)).between k c).2 :=
        mem_foundRows.mpr ⟨r, hrBefore, hfound⟩
      have hahead : row ∈ (pager days limit (alone view)).ahead k cursor ((pager days limit (alone view)).between k c) :=
        Pager.mem_ahead.mpr ⟨hfoundBefore, hc row hfoundBefore⟩
      have hlt : (pager days limit (alone view)).key last < row.id :=
        Pager.last_lt (pager_distinct days limit (alone view)) some_last hahead fun hmem => hin row hmem rfl
      exact decide_eq_true hlt

/-- **Nothing is left to do** after a call that nothing happens beside and whose
batches share one instant: another one at that instant scans no attribution and
changes nothing. -/
theorem milestones_done {qualificationDays : ℤ} (hdays : 0 < qualificationDays) (batchSize : ℤ) (view : BatchView)
    {s : Program} (hs : SoundProgram s) : ∃ counts final needed,
      (∀ fuel, needed < fuel → processCreatorAttributionMilestones qualificationDays batchSize (alone view) fuel s =
        some (.ok (counts, final))) ∧
      (∀ r ∈ final.rows, ∀ u, userOf view.users r.attribution = some u → r.attribution.isActive = true →
        isDue qualificationDays.toNat view.now u r = false) ∧
      ∀ fuel, 0 < fuel → processCreatorAttributionMilestones qualificationDays batchSize (alone view) fuel final =
        some (.ok (.zero, final)) := by
  set limit := processBatchSize batchSize with hlimitDef
  have hlimit : 1 ≤ limit := by
    show 1 ≤ (max 1 batchSize).toNat
    omega
  obtain ⟨pages, ⟨counts, final⟩, hloop⟩ := Pager.loop_exists
    (pager_settles qualificationDays.toNat limit (alone_quiet view)) 0 (some 0) (MilestoneCounts.zero, s)
  have hnone : foundRows qualificationDays.toNat ((alone view).view 0) final = [] := by
    refine Loop.done hlimit hloop fun row hrow => ?_
    obtain ⟨r, hr, hfound⟩ := mem_foundRows.mp hrow
    have hpos := (hs.rows r hr).positive
    rw [(foundRow_eq_some.mp hfound).1]
    simpa using hpos
  refine ⟨counts, final, pages.length, fun fuel hfuel => ?_, fun r hr u hu hactive => ?_, fun fuel hfuel => ?_⟩
  · unfold processCreatorAttributionMilestones
    rw [if_neg (not_le.mpr hdays), hloop.pages hfuel]
    rfl
  · by_contra hnot
    have hdue : isDue qualificationDays.toNat view.now u r = true := by simpa using hnot
    have hfound : foundRow qualificationDays.toNat ((alone view).view 0) r =
        some ⟨r.attribution.id, r.stamps.verifiedAt, r.stamps.qualifiedAt⟩ :=
      foundRow_eq_some.mpr ⟨rfl, hactive, ⟨u, hu, hdue⟩, List.not_mem_nil⟩
    have hmem := mem_foundRows.mpr ⟨r, hr, hfound⟩
    rw [hnone] at hmem
    exact absurd hmem List.not_mem_nil
  · have hpage : (pager qualificationDays.toNat limit (alone view)).page 0 (some 0) (.zero, final) = [] := by
      unfold Pager.page Pager.ahead
      rw [show (pager qualificationDays.toNat limit (alone view)).found 0 (.zero, final) = [] from hnone]
      simp
    have hstop : (pager qualificationDays.toNat limit (alone view)).Loop 0 (some 0) (.zero, final) [] (.zero, final) :=
      Pager.Loop.stop hpage
    unfold processCreatorAttributionMilestones
    rw [if_neg (not_le.mpr hdays), hstop.pages hfuel]
    rfl

end Call

/-- The user 1 of the sample qualifies, while the user 2 applies the code. -/
def sampleSurroundings : Surroundings :=
  ⟨fun _ => sampleView (7 * day + 4), fun k => if k = 0 then sampleSequel.take 1 else []⟩

theorem milestones_call_sample : ∃ (pages : List (Page (MilestoneCounts × Program) MilestoneRow)) (counts : MilestoneCounts)
    (final : Program), (∀ fuel, pages.length < fuel →
      processCreatorAttributionMilestones 7 1 sampleSurroundings fuel sampleOpened = some (.ok (counts, final))) ∧
    (Pager.visited pages).Pairwise (fun a b => a.id < b.id) ∧ counts.scanned = (Pager.visited pages).length := by
  have hquiet : Quiet sampleSurroundings 1 := by
    intro k hk call hcall
    have hnone : sampleSurroundings.others k = [] := if_neg (by omega)
    rw [hnone] at hcall
    exact absurd hcall List.not_mem_nil
  obtain ⟨pages, counts, final, hreturns, hincreasing, -, -, -, hscanned, -⟩ :=
    milestones_call (by decide : (0 : ℤ) < 7) 1 _ sampleOpened hquiet
  exact ⟨pages, counts, final, hreturns, hincreasing, hscanned⟩

/-- The sample, after a call by itself. -/
theorem milestones_done_sample : ∃ counts final needed,
    (∀ fuel, needed < fuel →
      processCreatorAttributionMilestones 7 100 (alone (sampleView (7 * day + 4))) fuel sampleOpened =
        some (.ok (counts, final))) ∧
    ∀ fuel, 0 < fuel →
      processCreatorAttributionMilestones 7 100 (alone (sampleView (7 * day + 4))) fuel final =
        some (.ok (.zero, final)) := by
  obtain ⟨counts, final, needed, hcall, -, hagain⟩ := milestones_done (by decide : (0 : ℤ) < 7) 100
    (sampleView (7 * day + 4)) (sound_run sampleOpened_run soundProgram_empty)
  exact ⟨counts, final, needed, hcall, hagain⟩

end Creator
end FuelNear

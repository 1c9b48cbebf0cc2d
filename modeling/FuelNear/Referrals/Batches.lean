/-
# The batches of one call

`process_pending_referrals` queries one batch after the other, each after the
last row of the one before. Rows that were skipped or that failed are still
pending; that no row comes twice, and that the loop ends, rests on the cursor
alone. An item runs under a savepoint: if it raises, what it wrote is undone,
and the batch commits what the others wrote.

Other transactions commit between the batches. What they insert is too young
for the call; the creation of a row never changes (`Settled`).

Key definitions: `processPendingReferral`, `processItems`, `processBatches`,
`Settled`, `Loop`, `Waits`.
Key theorems: `items_commit`, `loop_exists`, `Loop.positions`, `Loop.complete`,
`referral_batches`.
-/
import FuelNear.Referrals.Limit

namespace FuelNear
namespace Referrals

open Sql Plus

/-! ### One item -/

inductive ItemOutcome where
  | processed (rewarded : Bool)
  | skipped (reason : String)
  deriving DecidableEq

inductive ItemError where
  | valueError (message : String)
  | runtimeError (message : String)
  /-- a statement, or a call on other tables, has raised -/
  | raised
  deriving DecidableEq

/-- What an item wrote before it returned or raised. -/
structure ItemRun where
  writes : List Write
  result : Except ItemError ItemOutcome

/-- What an item depends on beside the store: the id of a new reward, and
whether it is interrupted, and after how many of its writes. -/
structure ItemFate where
  rewardId : ℤ
  raisesAfter : Option ℕ

/-- `grant_plus_days_reward`, after the row was validated. -/
def grantPlusDaysReward (g : Settings) (now rewardId : ℤ) (validated : Referral) (v : Store) : ItemRun :=
  if g.rewardDays = 0 then ⟨[], .error (.valueError "Reward days must be greater than zero")⟩
  else if (v.user? validated.referrerUserId).isNone then ⟨[], .error (.runtimeError "Reward user not found")⟩
  else
    let reward := newReward g rewardId validated.referrerUserId validated.id now
    match v.rewards.insert? reward with
    | some _ => ⟨[.reward reward], .ok (.processed true)⟩
    | none =>
      match rewardOf v.rewards validated.id with
      | some _ => ⟨[], .ok (.processed false)⟩
      | none => ⟨[], .error (.runtimeError "Referral reward conflict without existing reward")⟩

/-- `process_pending_referral`, if nothing interrupts it. -/
def itemStatements (g : Settings) (now rewardId : ℤ) (referral : Referral) (v : Store) : ItemRun :=
  if (v.user? referral.referrerUserId).any (fun u => u.isActive && u.isEmailVerified) then
    if g.monthlyRewardLimit ≤
        monthlyRewardCount g.calendar referral.referrerUserId (g.calendar.month now) v.rewards then
      ⟨[.skip referral.id "monthly_limit"], .ok (.skipped "monthly_limit")⟩
    else
      match v.referrals.find? (·.isPending referral.id) with
      | none => ⟨[], .ok (.skipped "no_longer_pending")⟩
      | some r =>
        let granted := grantPlusDaysReward g now rewardId r v
        ⟨.validate referral.id :: granted.writes, granted.result⟩
  else ⟨[.skip referral.id "referrer_not_verified"], .ok (.skipped "referrer_not_verified")⟩

/-- `process_pending_referral`. -/
def processPendingReferral (g : Settings) (now : ℤ) (fate : ItemFate) (referral : Referral) (v : Store) : ItemRun :=
  let run := itemStatements g now fate.rewardId referral v
  match fate.raisesAfter with
  | none => run
  | some n => ⟨run.writes.take n, .error .raised⟩

/-! ### One batch -/

/-- What a call finds: the instant of each batch, the rows that others have
locked, what they have committed before it, and the fate of each item. -/
structure Surroundings where
  now : ℕ → ℤ
  locked : ℕ → List ℤ
  others : ℕ → Store → Store
  fate : ℕ → ℤ → ItemFate

/-- An item of a batch, as it went. -/
structure ItemStep where
  referral : Referral
  run : ItemRun

def ItemStep.raised (i : ItemStep) : Bool := !i.run.result.isOk

/-- The loop over the batch, on the store as the transaction sees it: SAVEPOINT,
the item, RELEASE, or ROLLBACK TO SAVEPOINT. -/
def processItems (g : Settings) (now : ℤ) (fate : ℤ → ItemFate) : List Referral → Store → List ItemStep × Store
  | [], v => ([], v)
  | referral :: rest, v =>
    let run := processPendingReferral g now (fate referral.id) referral v
    let after := if run.result.isOk then (overlay now run.writes v).getD v else v
    let steps := processItems g now fate rest after
    (⟨referral, run⟩ :: steps.1, steps.2)

/-- A batch: the store that its query found, the rows, the items and what was committed. -/
structure BatchRun where
  found : Store
  rows : List Referral
  items : List ItemStep
  committed : Store

/-! ### The loop -/

/-- `while True`; `none` is out of fuel. The last query finds nothing, in the second store. -/
def processBatches (g : Settings) (e : Surroundings) : ℕ → ℕ → Option (ℤ ×ₗ ℤ) → Store →
    Option (List BatchRun × Store)
  | 0, _, _, _ => none
  | fuel + 1, k, cursor, s =>
    let found := e.others k s
    let batch := pendingBatch g (e.now k) cursor (e.locked k) found
    match batch.getLast? with
    | none => some ([], found)
    | some last =>
      let processed := processItems g (e.now k) (e.fate k) (orderedBatch batch) found
      (processBatches g e fuel (k + 1) (some last.position) processed.2).map fun rest =>
        (⟨found, batch, processed.1, processed.2⟩ :: rest.1, rest.2)

/-- The counts of the answer. -/
structure ReferralSummary where
  scannedCount : ℕ
  processedCount : ℕ
  rewardedCount : ℕ
  skippedCount : ℕ
  failedCount : ℕ
  batchCount : ℕ
  skippedReferrerNotVerified : ℕ
  skippedMonthlyLimit : ℕ
  deriving DecidableEq

def ItemStep.outcome? (i : ItemStep) : Option ItemOutcome := i.run.result.toOption

def ItemStep.isProcessed (i : ItemStep) : Bool :=
  match i.outcome? with
  | some (.processed _) => true
  | _ => false

def ItemStep.isSkipped (i : ItemStep) : Bool :=
  match i.outcome? with
  | some (.skipped _) => true
  | _ => false

def summaryOf (batches : List BatchRun) : ReferralSummary :=
  let items := batches.flatMap (·.items)
  { scannedCount := (batches.map (·.rows.length)).sum
    processedCount := items.countP (·.isProcessed)
    rewardedCount := items.countP fun i => i.outcome? = some (.processed true)
    skippedCount := items.countP (·.isSkipped)
    failedCount := items.countP (·.raised)
    batchCount := batches.length
    skippedReferrerNotVerified := items.countP fun i => i.outcome? = some (.skipped "referrer_not_verified")
    skippedMonthlyLimit := items.countP fun i => i.outcome? = some (.skipped "monthly_limit") }

/-- `process_pending_referrals`, with its batches. -/
def processPendingReferrals (g : Settings) (e : Surroundings) (fuel : ℕ) (s : Store) :
    Option (Except ItemError (ReferralSummary × List BatchRun × Store)) :=
  if g.minAgeDays = 0 then some (.error (.valueError "min_age_days must be greater than zero"))
  else (processBatches g e fuel 0 none s).map fun res => .ok (summaryOf res.1, res)

/-! ### The items of a batch -/

variable {g : Settings} {e : Surroundings}

/-- A grant that returns can be repeated on any store with these rewards. -/
theorem grant_overlay {now rewardId : ℤ} {r : Referral} {v : Store}
    (h : (grantPlusDaysReward g now rewardId r v).result.isOk) :
    ∃ rewards, ∀ u : Store, u.rewards = v.rewards →
      overlay now (grantPlusDaysReward g now rewardId r v).writes u = some { u with rewards } := by
  unfold grantPlusDaysReward at h ⊢
  split_ifs at h ⊢ with hdays huser
  · exact absurd h (by simp [Except.isOk, Except.toBool])
  · exact absurd h (by simp [Except.isOk, Except.toBool])
  · dsimp only at h ⊢
    split at h
    · rename_i t hinsert
      refine ⟨t, fun u hu => ?_⟩
      simp [overlay, Write.apply, hinsert, hu]
    · exact ⟨v.rewards, fun u hu => by rw [← hu]; split <;> rfl⟩

/-- What an item that returned has written can be committed. -/
theorem item_overlay {now : ℤ} {fate : ItemFate} {r : Referral} {v : Store}
    (h : (processPendingReferral g now fate r v).result.isOk) :
    ∃ t, overlay now (processPendingReferral g now fate r v).writes v = some t := by
  unfold processPendingReferral at h ⊢
  cases hf : fate.raisesAfter with
  | some n =>
    rw [hf] at h
    exact absurd h (by simp [Except.isOk, Except.toBool])
  | none =>
    rw [hf] at h
    dsimp only at h ⊢
    unfold itemStatements at h ⊢
    split_ifs at h ⊢ with hverified hlimit
    · exact ⟨_, rfl⟩
    · cases hrow : v.referrals.find? (·.isPending r.id) with
      | none => exact ⟨v, rfl⟩
      | some q =>
        rw [hrow] at h
        obtain ⟨rewards, hgrant⟩ := grant_overlay h
        exact ⟨_, hgrant _ rfl⟩
    · exact ⟨_, rfl⟩

theorem processItems_rows (now : ℤ) (fate : ℤ → ItemFate) : ∀ (l : List Referral) (v : Store),
    (processItems g now fate l v).1.map (·.referral) = l
  | [], _ => rfl
  | r :: rest, _ => congrArg (r :: ·) (processItems_rows now fate rest _)

/-- The writes that a batch commits: those of the items that returned. -/
def committedWrites (items : List ItemStep) : List Write := (items.filter (!·.raised)).flatMap (·.run.writes)

/-- **A batch commits what its items wrote, but for those that raised.** -/
theorem items_commit (now : ℤ) (fate : ℤ → ItemFate) : ∀ (l : List Referral) (v : Store),
    overlay now (committedWrites (processItems g now fate l v).1) v = some (processItems g now fate l v).2
  | [], _ => rfl
  | r :: rest, v => by
    have ih := items_commit now fate rest
    unfold committedWrites at ih ⊢
    rw [processItems]
    cases hok : (processPendingReferral g now (fate r.id) r v).result.isOk with
    | false => simpa [hok, ItemStep.raised] using ih v
    | true =>
      obtain ⟨t, ht⟩ := item_overlay hok
      simpa [hok, ItemStep.raised, overlay_append, ht] using ih t

/-- Every item is counted once. -/
theorem counts_items (l : List ItemStep) :
    l.length = l.countP (·.isProcessed) + l.countP (·.isSkipped) + l.countP (·.raised) := by
  induction l with
  | nil => rfl
  | cons i l ih =>
    rw [List.countP_cons, List.countP_cons, List.countP_cons, List.length_cons, ih]
    rcases i with ⟨r, writes, err | ⟨b⟩ | ⟨reason⟩⟩ <;>
      simp [ItemStep.isProcessed, ItemStep.isSkipped, ItemStep.raised, ItemStep.outcome?, Except.toOption, Except.isOk,
        Except.toBool] <;> omega

/-! ### The rows keep their positions -/

theorem toRow_position (now : ℤ) (w : Write) (r : Referral) : (w.toRow now r).position = r.position := by
  cases w with
  | skip id reason => by_cases h : r.isPending id = true <;> simp [Write.toRow, h, Referral.skipped, Referral.position]
  | validate id => by_cases h : r.isPending id = true <;> simp [Write.toRow, h, Referral.validated, Referral.position]
  | reward w => rfl

theorem foldl_position (now : ℤ) : ∀ (l : List Write) (r : Referral),
    (l.foldl (fun x w => w.toRow now x) r).position = r.position
  | [], _ => rfl
  | w :: l, r => (foldl_position now l _).trans (toRow_position now w r)

/-- The creation of a row does not change; a row that others insert is too
young, for every batch. -/
def Settled (g : Settings) (e : Surroundings) : Prop :=
  ∀ k s, ∀ r ∈ (e.others k s).referrals, (∃ q ∈ s.referrals, q.position = r.position) ∨
    ∀ j, e.now j - g.minAgeDays * day < r.createdAt

/-- The rows are of the table at the start, or too young. -/
def Known (g : Settings) (e : Surroundings) (start s : Store) : Prop :=
  ∀ r ∈ s.referrals, (∃ q ∈ start.referrals, q.position = r.position) ∨
    ∀ j, e.now j - g.minAgeDays * day < r.createdAt

variable {start s : Store}

theorem Known.refl (g : Settings) (e : Surroundings) (s : Store) : Known g e s s := fun r hr => Or.inl ⟨r, hr, rfl⟩

theorem createdAt_of_position {q r : Referral} (h : q.position = r.position) : q.createdAt = r.createdAt :=
  congrArg (fun x => (ofLex x).1) h

theorem id_of_position {q r : Referral} (h : q.position = r.position) : q.id = r.id := congrArg (fun x => (ofLex x).2) h

/-- Rows at the positions of known ones are known. -/
theorem Known.position (hk : Known g e start s) {q r : Referral} (hq : q ∈ s.referrals)
    (hpos : q.position = r.position) :
    (∃ p ∈ start.referrals, p.position = r.position) ∨ ∀ j, e.now j - g.minAgeDays * day < r.createdAt := by
  rw [← hpos, ← createdAt_of_position hpos]
  exact hk q hq

theorem Known.others (hk : Known g e start s) (hset : Settled g e) (k : ℕ) : Known g e start (e.others k s) := by
  intro r hr
  rcases hset k s r hr with ⟨q, hq, hpos⟩ | hyoung
  · exact hk.position hq hpos
  · exact Or.inr hyoung

theorem Known.items (hk : Known g e start s) (now : ℤ) (fate : ℤ → ItemFate) (l : List Referral) :
    Known g e start (processItems g now fate l s).2 := by
  intro r hr
  rw [Table.mem_def, overlay_referrals (items_commit now fate l s)] at hr
  obtain ⟨q, hq, rfl⟩ := List.mem_map.mp hr
  exact hk.position hq (foldl_position now _ q).symm

/-- A row that a batch may take is of the table at the start. -/
theorem Known.origin (hk : Known g e start s) {j : ℕ} {cursor : Option (ℤ ×ₗ ℤ)} {r : Referral} (hr : r ∈ s.referrals)
    (he : eligible g (e.now j) cursor s r = true) : ∃ q ∈ start.referrals, q.position = r.position := by
  refine (hk r hr).resolve_right fun hyoung => ?_
  have hold : r.createdAt ≤ e.now j - g.minAgeDays * day := by
    simp only [eligible, Bool.and_eq_true, decide_eq_true_eq] at he
    exact he.1.1.2
  exact absurd hold (not_le.mpr (hyoung j))

/-- Rows of the table at the start with one id are at one position. -/
theorem position_of_id {p q r t : Referral} (hp : p ∈ start.referrals) (hq : q ∈ start.referrals)
    (hpr : p.position = r.position) (hqt : q.position = t.position) (h : r.id = t.id) : r.position = t.position := by
  have hid : p.id = q.id := (id_of_position hpr).trans (h.trans (id_of_position hqt).symm)
  rw [← hpr, ← hqt, referral_eq_of_id hp hq hid]

/-! ### One query -/

section Query

variable {now : ℤ} {cursor : Option (ℤ ×ₗ ℤ)} {locked : List ℤ} {last r : Referral}

/-- The rows that a query could take, in its order. -/
def candidates (g : Settings) (now : ℤ) (cursor : Option (ℤ ×ₗ ℤ)) (locked : List ℤ) (s : Store) : List Referral :=
  (s.referrals.rows.filter fun r => eligible g now cursor s r && !locked.contains r.id).insertionSort
    fun a b => a.position ≤ b.position

theorem mem_candidates : r ∈ candidates g now cursor locked s ↔
    r ∈ s.referrals ∧ eligible g now cursor s r = true ∧ r.id ∉ locked := by
  unfold candidates
  rw [List.mem_insertionSort, List.mem_filter]
  simp [Table.mem_def]

theorem candidates_sorted (g : Settings) (now : ℤ) (cursor : Option (ℤ ×ₗ ℤ)) (locked : List ℤ) (s : Store) :
    (candidates g now cursor locked s).Pairwise fun a b => a.position < b.position := by
  have hle : (candidates g now cursor locked s).Pairwise fun a b => a.position ≤ b.position := by
    have : Std.Total fun a b : Referral => a.position ≤ b.position := ⟨fun a b => le_total _ _⟩
    have : IsTrans Referral fun a b => a.position ≤ b.position := ⟨fun a b c => le_trans⟩
    exact List.pairwise_insertionSort _ _
  have hrows : s.referrals.rows.Nodup := s.referrals.rows_nodup fun r => List.cons_ne_nil _ _
  have hnodup : (candidates g now cursor locked s).Nodup :=
    (List.perm_insertionSort _ _).nodup_iff.mpr (hrows.filter _)
  refine (hle.and hnodup).imp_of_mem fun {a b} ha hb hab => lt_of_le_of_ne hab.1 fun hpos => hab.2 ?_
  exact referral_eq_of_id (mem_candidates.mp ha).1 (mem_candidates.mp hb).1 (id_of_position hpos)

/-- The rows of a batch come in the order of their positions. -/
theorem pendingBatch_sorted (g : Settings) (now : ℤ) (cursor : Option (ℤ ×ₗ ℤ)) (locked : List ℤ) (s : Store) :
    (pendingBatch g now cursor locked s).Pairwise fun a b => a.position < b.position :=
  (candidates_sorted g now cursor locked s).sublist (List.take_sublist _ _)

theorem le_last (hlast : (pendingBatch g now cursor locked s).getLast? = some last)
    (hr : r ∈ pendingBatch g now cursor locked s) : r.position ≤ last.position := by
  obtain ⟨l, hl⟩ := List.getLast?_eq_some_iff.mp hlast
  have hsorted := pendingBatch_sorted g now cursor locked s
  rw [hl] at hr hsorted
  rcases List.mem_append.mp hr with hr | hr
  · exact ((List.pairwise_append.mp hsorted).2.2 r hr last (List.mem_singleton_self last)).le
  · rw [List.mem_singleton.mp hr]

/-- A row that a query could take and did not is after its last one. -/
theorem last_lt (hlast : (pendingBatch g now cursor locked s).getLast? = some last)
    (hr : r ∈ candidates g now cursor locked s) (hout : r ∉ pendingBatch g now cursor locked s) :
    last.position < r.position := by
  have hsorted := candidates_sorted g now cursor locked s
  rw [← List.take_append_drop g.batchSize (candidates g now cursor locked s)] at hr hsorted
  have hdrop := (List.mem_append.mp hr).resolve_left hout
  exact (List.pairwise_append.mp hsorted).2.2 last (List.mem_of_getLast? hlast) r hdrop

/-- A query that finds nothing has left out no row. -/
theorem candidates_of_none (hsize : 1 ≤ g.batchSize) (hnone : pendingBatch g now cursor locked s = []) :
    candidates g now cursor locked s = [] := by
  rcases List.take_eq_nil_iff.mp hnone with hzero | hnil
  · omega
  · exact hnil

end Query

/-! ### The runs of the loop -/

/-- What the `k`-th query takes. -/
def batchAt (g : Settings) (e : Surroundings) (k : ℕ) (cursor : Option (ℤ ×ₗ ℤ)) (s : Store) : List Referral :=
  pendingBatch g (e.now k) cursor (e.locked k) (e.others k s)

def itemsAt (g : Settings) (e : Surroundings) (k : ℕ) (cursor : Option (ℤ ×ₗ ℤ)) (s : Store) : List ItemStep × Store :=
  processItems g (e.now k) (e.fate k) (orderedBatch (batchAt g e k cursor s)) (e.others k s)

/-- The loop from the `k`-th query on, to its end. -/
inductive Loop (g : Settings) (e : Surroundings) : ℕ → Option (ℤ ×ₗ ℤ) → Store → List BatchRun → Store → Prop
  | stop {k : ℕ} {cursor : Option (ℤ ×ₗ ℤ)} {s : Store} (found : batchAt g e k cursor s = []) :
      Loop g e k cursor s [] (e.others k s)
  | next {k : ℕ} {cursor : Option (ℤ ×ₗ ℤ)} {s final : Store} {last : Referral} {batches : List BatchRun}
      (found : (batchAt g e k cursor s).getLast? = some last)
      (rest : Loop g e (k + 1) (some last.position) (itemsAt g e k cursor s).2 batches final) :
      Loop g e k cursor s
        (⟨e.others k s, batchAt g e k cursor s, (itemsAt g e k cursor s).1, (itemsAt g e k cursor s).2⟩ :: batches)
        final

/-- The rows after the cursor in the table at the start. -/
def rowsAhead (start : Store) (cursor : Option (ℤ ×ₗ ℤ)) : List Referral :=
  start.referrals.rows.filter fun q => cursor.all (· < q.position)

/-- A row that a query takes is after the cursor, in the table at the start. -/
theorem batchAt_origin (hset : Settled g e) (hk : Known g e start s) {k : ℕ} {cursor : Option (ℤ ×ₗ ℤ)} {r : Referral}
    (hr : r ∈ batchAt g e k cursor s) :
    (∃ q ∈ start.referrals, q.position = r.position) ∧ cursor.all (· < r.position) = true := by
  obtain ⟨hmem, he, -⟩ := mem_pendingBatch hr
  refine ⟨(hk.others hset k).origin hmem he, ?_⟩
  simp only [eligible, Bool.and_eq_true] at he
  exact he.2

theorem rowsAhead_last (hset : Settled g e) (hk : Known g e start s) {k : ℕ} {cursor : Option (ℤ ×ₗ ℤ)}
    {last : Referral} (hlast : (batchAt g e k cursor s).getLast? = some last) :
    (rowsAhead start (some last.position)).length < (rowsAhead start cursor).length := by
  obtain ⟨⟨q, hq, hpos⟩, hcursor⟩ := batchAt_origin hset hk (List.mem_of_getLast? hlast)
  have hahead : rowsAhead start (some last.position) =
      (rowsAhead start cursor).filter fun q => last.position < q.position := by
    unfold rowsAhead
    rw [List.filter_filter]
    refine List.filter_congr fun p _ => ?_
    rw [Option.all_some, eq_comm, Bool.and_eq_left_iff_imp]
    intro hlt
    cases cursor with
    | none => rfl
    | some c => exact decide_eq_true ((of_decide_eq_true hcursor).trans (of_decide_eq_true hlt))
  rw [hahead, List.length_filter_lt_length_iff_exists]
  refine ⟨q, List.mem_filter.mpr ⟨hq, by rw [hpos]; exact hcursor⟩, ?_⟩
  simp [hpos]

/-- **The loop ends.** One query more than there are rows ahead is enough. -/
theorem loop_exists (hset : Settled g e) {k : ℕ} {cursor : Option (ℤ ×ₗ ℤ)} (hk : Known g e start s) :
    ∃ batches final, Loop g e k cursor s batches final ∧
      ∀ fuel, (rowsAhead start cursor).length < fuel → processBatches g e fuel k cursor s = some (batches, final) := by
  induction hn : (rowsAhead start cursor).length using Nat.strong_induction_on generalizing k cursor s with
  | _ n ih =>
    cases hlast : (batchAt g e k cursor s).getLast? with
    | none =>
      refine ⟨[], _, .stop (List.getLast?_eq_none_iff.mp hlast), fun fuel hfuel => ?_⟩
      obtain ⟨m, rfl⟩ := Nat.exists_eq_succ_of_ne_zero (by omega : fuel ≠ 0)
      unfold processBatches
      dsimp only
      rw [show (pendingBatch g (e.now k) cursor (e.locked k) (e.others k s)).getLast? = none from hlast]
    | some last =>
      have hlt := rowsAhead_last hset hk hlast
      have hnext : Known g e start (itemsAt g e k cursor s).2 := (hk.others hset k).items _ _ _
      obtain ⟨batches, final, hloop, henough⟩ := ih _ (hn ▸ hlt) (k := k + 1) hnext rfl
      refine ⟨_, final, .next hlast hloop, fun fuel hfuel => ?_⟩
      obtain ⟨m, rfl⟩ := Nat.exists_eq_succ_of_ne_zero (by omega : fuel ≠ 0)
      have hrest := henough m (by omega)
      unfold processBatches
      dsimp only
      rw [show (pendingBatch g (e.now k) cursor (e.locked k) (e.others k s)).getLast? = some last from hlast]
      exact congrArg (Option.map _) hrest

/-! ### What a run examines -/

/-- The ids of the rows that the batches took. -/
def examined (batches : List BatchRun) : List ℤ := (batches.flatMap (·.rows)).map (·.id)

/-- The stores that the queries found, the last one too. -/
def queried (batches : List BatchRun) (final : Store) : List Store := batches.map (·.found) ++ [final]

/-- Each query from the `k`-th on, as long as the row is not examined, could
take it from the start of the table. -/
def Waits (g : Settings) (e : Surroundings) (k : ℕ) (batches : List BatchRun) (final : Store) (id : ℤ) : Prop :=
  ∀ j v, (queried batches final)[j]? = some v → id ∉ examined (batches.take j) →
    ∃ r ∈ candidates g (e.now (k + j)) none (e.locked (k + j)) v, r.id = id

variable {k : ℕ} {cursor : Option (ℤ ×ₗ ℤ)} {batches : List BatchRun} {final : Store}

/-- **The rows come in the order of their positions**, after the cursor. -/
theorem Loop.positions (h : Loop g e k cursor s batches final) (hset : Settled g e) (hk : Known g e start s) :
    (batches.flatMap (·.rows)).Pairwise (fun a b => a.position < b.position) ∧
      ∀ r ∈ batches.flatMap (·.rows), cursor.all (· < r.position) ∧ ∃ q ∈ start.referrals, q.position = r.position := by
  induction h with
  | stop found => simp
  | @next k cursor s final last batches found rest ih =>
    obtain ⟨hsorted, hafter⟩ := ih ((hk.others hset k).items _ _ _)
    rw [List.flatMap_cons]
    refine ⟨List.pairwise_append.mpr ⟨pendingBatch_sorted g _ _ _ _, hsorted, fun a ha b hb => ?_⟩, fun r hr => ?_⟩
    · calc a.position ≤ last.position := le_last found ha
        _ < b.position := of_decide_eq_true (hafter b hb).1
    · rcases List.mem_append.mp hr with hr | hr
      · exact (batchAt_origin hset hk hr).symm
      · obtain ⟨hlast, horigin⟩ := hafter r hr
        refine ⟨?_, horigin⟩
        have hfirst := (batchAt_origin hset hk (List.mem_of_getLast? found)).2
        cases cursor with
        | none => rfl
        | some c => exact decide_eq_true ((of_decide_eq_true hfirst).trans (of_decide_eq_true hlast))

/-- **No row comes twice.** -/
theorem Loop.nodup (h : Loop g e k cursor s batches final) (hset : Settled g e) (hk : Known g e start s) :
    (examined batches).Nodup := by
  obtain ⟨hsorted, hafter⟩ := h.positions hset hk
  refine List.pairwise_map.mpr (hsorted.imp_of_mem fun {a b} ha hb hlt hid => ?_)
  obtain ⟨p, hp, hpa⟩ := (hafter a ha).2
  obtain ⟨q, hq, hqb⟩ := (hafter b hb).2
  exact absurd (position_of_id hp hq hpa hqb hid) hlt.ne

theorem queried_cons (b : BatchRun) : queried (b :: batches) final = b.found :: queried batches final := rfl

theorem examined_cons (b : BatchRun) : examined (b :: batches) = b.rows.map (·.id) ++ examined batches := by
  simp [examined]

/-- A row of the start that waits is among the candidates after the cursor. -/
theorem waits_candidate (hset : Settled g e) (hk : Known g e start s) {q r : Referral} (hq : q ∈ start.referrals)
    (hahead : cursor.all (· < q.position)) (hr : r ∈ candidates g (e.now k) none (e.locked k) (e.others k s))
    (hid : r.id = q.id) :
    r.position = q.position ∧ r ∈ candidates g (e.now k) cursor (e.locked k) (e.others k s) := by
  obtain ⟨hmem, he, hfree⟩ := mem_candidates.mp hr
  obtain ⟨p, hp, hpos⟩ := (hk.others hset k).origin hmem he
  have hposition := position_of_id hp hq hpos rfl hid
  refine ⟨hposition, mem_candidates.mpr ⟨hmem, ?_, hfree⟩⟩
  rw [← hposition] at hahead
  simp only [eligible, Bool.and_eq_true] at he ⊢
  exact ⟨he.1, hahead⟩

/-- **Every row that waits is examined**, if it is after the cursor. -/
theorem Loop.complete (h : Loop g e k cursor s batches final) (hset : Settled g e) (hsize : 1 ≤ g.batchSize)
    (hk : Known g e start s) {q : Referral} (hq : q ∈ start.referrals) (hahead : cursor.all (· < q.position))
    (hwaits : Waits g e k batches final q.id) : q.id ∈ examined batches := by
  induction h with
  | stop found =>
    obtain ⟨r, hr, hid⟩ := hwaits 0 _ rfl (by simp [examined])
    have hcandidate := (waits_candidate hset hk hq hahead hr hid).2
    rw [Nat.add_zero, candidates_of_none hsize found] at hcandidate
    exact absurd hcandidate List.not_mem_nil
  | @next k cursor s final last batches found rest ih =>
    rw [examined_cons, List.mem_append]
    by_cases hbatch : q.id ∈ (batchAt g e k cursor s).map (·.id)
    · exact Or.inl hbatch
    · obtain ⟨r, hr, hid⟩ := hwaits 0 _ rfl (by simp [examined])
      obtain ⟨hpos, hr⟩ := waits_candidate hset hk hq hahead hr hid
      have hout : r ∉ batchAt g e k cursor s := fun hmem => hbatch (List.mem_map.mpr ⟨r, hmem, hid⟩)
      refine Or.inr (ih ((hk.others hset k).items _ _ _) ?_ fun j v hv hfree => ?_)
      · -- the batch was full before the row
        rw [← hpos]
        exact decide_eq_true (last_lt found hr hout)
      · have hnext := hwaits (j + 1) v hv fun hmem => ?_
        · rwa [← Nat.add_assoc, Nat.add_right_comm] at hnext
        · rw [List.take_succ_cons, examined_cons, List.mem_append] at hmem
          exact hmem.elim hbatch hfree

/-! ### What a run commits -/

/-- The items of a batch are its rows. -/
theorem orderedBatch_perm (batch : List Referral) : (orderedBatch batch).Perm batch := List.perm_insertionSort _ _

/-- Each query finds what others made of the batch before. -/
theorem Loop.queried (h : Loop g e k cursor s batches final) :
    queried batches final = (s :: batches.map (·.committed)).mapIdx fun j t => e.others (k + j) t := by
  induction h with
  | stop found => rfl
  | @next k cursor s final last batches found rest ih =>
    rw [queried_cons, ih, List.map_cons, List.mapIdx_cons]
    simp [Nat.add_comm, Nat.add_left_comm]

/-- A batch commits the writes of its items that returned. -/
theorem Loop.batch (h : Loop g e k cursor s batches final) {j : ℕ} {b : BatchRun} (hb : batches[j]? = some b) :
    (b.items.map (·.referral)).Perm b.rows ∧
      overlay (e.now (k + j)) (committedWrites b.items) b.found = some b.committed := by
  induction h generalizing j with
  | stop found => simp at hb
  | @next k cursor s final last batches found rest ih =>
    cases j with
    | zero =>
      obtain rfl := Option.some.inj hb
      refine ⟨?_, items_commit _ _ _ _⟩
      show (List.map _ (itemsAt g e k cursor s).1).Perm _
      unfold itemsAt
      rw [processItems_rows]
      exact orderedBatch_perm _
    | succ j =>
      have hrest := ih hb
      rwa [Nat.add_right_comm, Nat.add_assoc] at hrest

/-- Every row is counted once. -/
theorem Loop.counts (h : Loop g e k cursor s batches final) : (summaryOf batches).scannedCount =
    (summaryOf batches).processedCount + (summaryOf batches).skippedCount + (summaryOf batches).failedCount := by
  have hitems : ∀ b ∈ batches, b.rows.length = b.items.length := by
    intro b hb
    obtain ⟨j, hj⟩ := List.mem_iff_getElem?.mp hb
    rw [← (h.batch hj).1.length_eq, List.length_map]
  calc (batches.map (·.rows.length)).sum
      = (batches.map (·.items.length)).sum := by rw [List.map_congr_left hitems]
    _ = (batches.flatMap (·.items)).length := List.length_flatMap.symm
    _ = _ := counts_items _

/-- **The referral batch loop visits each row once and isolates failures.** For
whatever the items do, a call returns; no row is examined twice; a row that
every query could take, as long as it is not examined, is examined; every row
is counted once; and each batch commits, on the store that its query found, the
writes of its items that did not raise. -/
theorem referral_batches (g : Settings) (e : Surroundings) (s : Store) (hsize : 1 ≤ g.batchSize)
    (hage : 1 ≤ g.minAgeDays) (hset : Settled g e) : ∃ batches final,
    (∀ fuel, s.referrals.rows.length < fuel →
      processPendingReferrals g e fuel s = some (.ok (summaryOf batches, batches, final))) ∧
    (examined batches).Nodup ∧
    (∀ id, Waits g e 0 batches final id → id ∈ examined batches) ∧
    (summaryOf batches).scannedCount =
      (summaryOf batches).processedCount + (summaryOf batches).skippedCount + (summaryOf batches).failedCount ∧
    queried batches final = ((s :: batches.map (·.committed)).mapIdx fun j t => e.others j t) ∧
    ∀ j b, batches[j]? = some b → (b.items.map (·.referral)).Perm b.rows ∧
      overlay (e.now j) (committedWrites b.items) b.found = some b.committed := by
  have hk : Known g e s s := .refl g e s
  obtain ⟨batches, final, hloop, henough⟩ := @loop_exists g e s s hset 0 none hk
  have hqueried : queried batches final = ((s :: batches.map (·.committed)).mapIdx fun j t => e.others j t) := by
    simpa using hloop.queried
  refine ⟨batches, final, fun fuel hfuel => ?_, hloop.nodup hset hk, fun id hwaits => ?_, hloop.counts, hqueried,
    fun j b hb => ?_⟩
  · have hahead : (rowsAhead s none).length < fuel := (List.length_filter_le _ _).trans_lt hfuel
    unfold processPendingReferrals
    rw [if_neg (by omega), henough fuel hahead]
    rfl
  · -- a row that waits is of the table at the start
    obtain ⟨r, hr, rfl⟩ := hwaits 0 (e.others 0 s) (by simp [hqueried]) (by simp [examined])
    obtain ⟨hmem, he, -⟩ := mem_candidates.mp hr
    obtain ⟨q, hq, hpos⟩ := (hk.others hset 0).origin hmem he
    rw [← id_of_position hpos] at hwaits ⊢
    exact hloop.complete hset hsize hk hq rfl hwaits
  · have hbatch := hloop.batch hb
    rwa [Nat.zero_add] at hbatch

/-- Batches of two rows. -/
def pagedSettings : Settings := ⟨sampleCalendar, 2, 2, 7, 7⟩

/-- Two referrals of the user 1, and one of the user 9, who is not verified. -/
def pagedStore : Store where
  users := ⟨[⟨1, true, true⟩, ⟨2, true, true⟩, ⟨3, true, true⟩, ⟨4, true, true⟩, ⟨9, true, false⟩], by decide⟩
  referrals := ⟨[sampleReferral, ⟨6, 1, some 3, "CODE", .pending, some "awaiting_eligibility", none, 1, 1⟩,
    ⟨7, 9, some 4, "CODE", .pending, some "awaiting_eligibility", none, 2, 2⟩], by decide⟩
  rewards := .empty

/-- A referral of the day before. -/
def youngReferral : Referral := ⟨8, 2, some 5, "CODE", .pending, some "awaiting_eligibility", none, 9 * day, 9 * day⟩

/-- The item of the referral 5 raises after its first write, and somebody
registers the young referral before the second batch. -/
def sampleSurroundings : Surroundings where
  now _ := 10 * day
  locked _ := []
  others k s :=
    match k, s.referrals.insert? youngReferral with
    | 1, some referrals => { s with referrals }
    | _, _ => s
  fate _ id := ⟨id, if id = 5 then some 1 else none⟩

theorem sampleSurroundings_settled : Settled pagedSettings sampleSurroundings := by
  intro k s r hr
  dsimp only [sampleSurroundings] at hr
  split at hr
  · next referrals hinsert =>
    rcases (Table.mem_insert hinsert).mp hr with hr | rfl
    · exact Or.inl ⟨r, hr, rfl⟩
    · have hyoung : (10 * day - (7 : ℕ) * day : ℤ) < youngReferral.createdAt := by decide
      exact Or.inr fun _ => hyoung
  · exact Or.inl ⟨r, hr, rfl⟩

/-- The rows of two batches: one fails, one is rewarded, one is skipped. -/
theorem sample_referral_batches : ∃ batches final,
    processPendingReferrals pagedSettings sampleSurroundings 4 pagedStore =
      some (.ok (⟨3, 1, 1, 1, 1, 2, 1, 0⟩, batches, final)) ∧
    batches.map (fun b => b.rows.map (·.id)) = [[5, 6], [7]] ∧ (examined batches).Nodup := by
  obtain ⟨batches, final, henough, hnodup, -⟩ :=
    referral_batches pagedSettings sampleSurroundings pagedStore (by decide) (by decide) sampleSurroundings_settled
  have hcall := henough 4 (by decide)
  have hresult : (processPendingReferrals pagedSettings sampleSurroundings 4 pagedStore).map
      (·.map fun x => (x.1, x.2.1.map fun b => b.rows.map (·.id))) =
        some (.ok (⟨3, 1, 1, 1, 1, 2, 1, 0⟩, [[5, 6], [7]])) := by
    decide +kernel
  rw [hcall] at hresult
  obtain ⟨hsummary, hrows⟩ : summaryOf batches = _ ∧ _ := Prod.mk.inj (Except.ok.inj (Option.some.inj hresult))
  rw [hsummary] at hcall
  exact ⟨batches, final, hcall, hrows, hnodup⟩

end Referrals
end FuelNear

/-
# Pending revocations, run by run

A run of `process_pending_apple_revocations` is one transaction: it deletes
the rows that have expired, takes a batch of rows that are due and that no
other run has locked, decrypts and revokes the token of each, and writes what
came of it. Only the commit at the end shows any of it; an exception that the
loop does not catch, or one of the database, leaves the queue as it was.
Between any two statements other runs may go on, and tokens be queued.

What an attempt comes to is what Apple has replied to the token in the
ciphertext, or that there is none: a ciphertext that does not open is given up
as one that Apple rejects for good.

A row of the batch is locked, so at the commit it is as it was selected, and
the commit does with every row what the row's own attempt decides
(`Run.fate`).

Key definitions: `attempt`, `AnsweredBy`, `Unreadable`, `ItemOutcome`, `Run`, `Move`, `Commit`,
`protocol`, `Run.fate`, `Released`.
Key theorems: `attempt_ok`, `attempt_rejected`, `rowAfter_eq`, `knows_move`, `commit_rows`,
`queue_lawful`, `commit_keeps`, `reaches_keeps`, `revocations_not_lost`.
-/
import FuelNear.Auth.AppleTokens
import FuelNear.Locking

namespace FuelNear
namespace Auth
namespace Revocation

open Sql Locking

/-! ### One item -/

/-- `decrypt_apple_refresh_token` and `revoke_apple_refresh_token`. -/
def attempt (apple : Apple) (ciphertext : String) : Except AppleError AppleTokenRevocationResult :=
  (decryptAppleRefreshToken apple ciphertext).bind fun token => (revokeAppleRefreshToken apple token).2

/-- Apple has revoked the token, or knows it no longer. -/
def Revoked (reply : Reply) : Prop :=
  (∃ code, reply = .response 200 code) ∨ reply = .response 400 (.text "invalid_grant") ∨
    reply = .response 400 (.text "invalid_token")

inductive ItemOutcome where
  | succeeded
  | temporary
  | terminal
  deriving DecidableEq

/-- The `except` clauses; `none` is an exception that ends the run. -/
def classify : Except AppleError AppleTokenRevocationResult → Option ItemOutcome
  | .ok _ => some .succeeded
  | .error .tokenRevocationTemporary => some .temporary
  | .error .configuration => some .temporary
  | .error .tokenEncryption => some .terminal
  | .error .tokenRevocation => some .terminal
  | .error (.other _) => none

/-- A minute in microseconds. -/
def minuteMicros : ℤ := 60000000

def delayMinutes (attempts : ℕ) : ℕ := min (24 * 60) (2 ^ min attempts 10)

/-- The SET after a failure that may pass. -/
def postponed (now : ℤ) (minutes : ℕ) (r : RevocationRow) : RevocationRow :=
  { r with
    attempts := r.attempts + 1
    nextAttemptAt := now + minutes * minuteMicros
    lastErrorCode := some "temporary_failure" }

/-- The SET after a failure for good. -/
def failed (r : RevocationRow) : RevocationRow :=
  { r with status := .failed, attempts := r.attempts + 1, lastErrorCode := some "permanent_failure" }

theorem postponed_keys (now : ℤ) (minutes : ℕ) (r : RevocationRow) : (postponed now minutes r).keys.Sublist r.keys :=
  List.Sublist.refl _

theorem failed_keys (r : RevocationRow) : (failed r).keys.Sublist r.keys := List.Sublist.refl _

/-! ### What a transaction writes -/

/-- A statement, with the id in its WHERE. -/
inductive Write where
  | delete (id : ℤ)
  | postpone (id : ℤ) (minutes : ℕ)
  | fail (id : ℤ)
  deriving DecidableEq

def Write.id : Write → ℤ
  | .delete id => id
  | .postpone id _ => id
  | .fail id => id

def Write.apply (now : ℤ) (q : Revocations) : Write → Revocations
  | .delete id => q.delete fun r => r.id = id
  | .postpone id minutes => q.update (fun r => r.id = id) (postponed now minutes) (postponed_keys now minutes)
  | .fail id => q.update (fun r => r.id = id) failed failed_keys

/-- The queue as a transaction sees it. -/
def overlay (now : ℤ) (writes : List Write) (q : Revocations) : Revocations := writes.foldl (Write.apply now) q

def ItemOutcome.write (r : RevocationRow) : ItemOutcome → Write
  | .succeeded => .delete r.id
  | .temporary => .postpone r.id (delayMinutes r.attempts)
  | .terminal => .fail r.id

/-! ### A run -/

structure RevocationSummary where
  eligible : ℕ
  attempted : ℕ
  succeeded : ℕ
  temporaryFailed : ℕ
  terminalFailed : ℕ
  expired : ℕ
  cleaned : ℕ
  remainingPending : ℕ
  processed : ℕ
  completed : ℕ
  deriving DecidableEq

/-- After the SELECT of the batch. -/
def RevocationSummary.start (expired eligible : ℕ) : RevocationSummary :=
  ⟨eligible, 0, 0, 0, 0, expired, expired, 0, 0, 0⟩

/-- After an item. -/
def RevocationSummary.item (s : RevocationSummary) (o : ItemOutcome) : RevocationSummary :=
  { s with
    attempted := s.attempted + 1
    processed := s.processed + 1
    succeeded := s.succeeded + if o = .succeeded then 1 else 0
    completed := s.completed + if o = .succeeded then 1 else 0
    temporaryFailed := s.temporaryFailed + if o = .temporary then 1 else 0
    terminalFailed := s.terminalFailed + if o = .terminal then 1 else 0 }

/-- A call, the `NOW()` of its transaction, and what the attempt for each row
meets: the settings of then, and Apple. -/
structure RunCall where
  now : ℤ
  limit : ℤ
  apple : ℤ → Apple

/-- The `try` of the loop, for a row. -/
def RunCall.outcome (c : RunCall) (r : RevocationRow) : Option ItemOutcome :=
  classify (attempt (c.apple r.id) r.tokenCiphertext)

/-- A run with its batch: the rows it deleted as expired, those it selected,
those still to do, and what it wrote. -/
structure Run where
  call : RunCall
  deleted : List RevocationRow
  batch : List RevocationRow
  todo : List RevocationRow
  writes : List Write
  summary : RevocationSummary

/-- The row is done. -/
def Run.done (b : Run) (r : RevocationRow) (todo : List RevocationRow) (o : ItemOutcome) : Run :=
  { b with todo, writes := b.writes ++ [o.write r], summary := b.summary.item o }

/-- The SELECT of the batch: LIMIT max(1, limit), FOR UPDATE SKIP LOCKED. -/
def dueRows (now limit : ℤ) (locked : List ℤ) (q : Revocations) : List RevocationRow :=
  ((q.rows.filter fun r => r.status = .pending && r.nextAttemptAt ≤ now && !locked.contains r.id).insertionSort
    fun a b => a.id ≤ b.id).take (max 1 limit).toNat

def expiredRows (now : ℤ) (q : Revocations) : List RevocationRow := q.rows.filter fun r => r.expiresAt ≤ now

def deletes (rows : List RevocationRow) : List Write := rows.map fun r => .delete r.id

/-! ### The transactions -/

inductive Lock where
  | row (id : ℤ)
  | fingerprint (f : String)

/-- Who works on the queue: runs, and transactions that queue a ciphertext. -/
inductive Worker where
  | start (c : RunCall)
  | cleaned (c : RunCall) (deleted : List RevocationRow)
  | items (b : Run)
  | counted (b : Run)
  | queueing (apple : Apple) (c : QueueCall) (ciphertext : String)
  | queued (apple : Apple) (c : QueueCall) (ciphertext : String) (ids : List ℤ)

def Starts : Worker → Prop
  | .start _ => True
  | .queueing _ _ _ => True
  | _ => False

def rowLocks (ids : List ℤ) : Set Lock := { k | ∃ id ∈ ids, k = .row id }

/-- The rows that a transaction has locked. An INSERT locks the entry of its
unique index. -/
def held (g : Settings) : Worker → Set Lock
  | .start _ => ∅
  | .cleaned _ deleted => rowLocks (deleted.map (·.id))
  | .items b => rowLocks ((b.deleted ++ b.batch).map (·.id))
  | .counted b => rowLocks ((b.deleted ++ b.batch).map (·.id))
  | .queueing _ _ _ => ∅
  | .queued _ _ ciphertext ids => rowLocks ids ∪ {.fingerprint (g.sha256 ciphertext)}

inductive Move (g : Settings) (q : Revocations) : Worker → Worker → Prop where
  /-- `DELETE … WHERE expires_at <= NOW() RETURNING id`; it waits for the rows that are locked -/
  | clean {c} : Move g q (.start c) (.cleaned c (expiredRows c.now q))
  /-- the SELECT of the batch -/
  | select {c deleted locked rows} (due : dueRows c.now c.limit locked (overlay c.now (deletes deleted) q) = rows) :
      Move g q (.cleaned c deleted) (.items
        { call := c
          deleted
          batch := rows
          todo := rows
          writes := deletes deleted
          summary := .start deleted.length rows.length })
  /-- an item, and the UPDATE or DELETE of its row -/
  | item {b r todo o} (next : b.todo = r :: todo) (comes : b.call.outcome r = some o) :
      Move g q (.items b) (.items (b.done r todo o))
  /-- `SELECT COUNT(*) … WHERE status = 'pending'` -/
  | count {b} (last : b.todo = []) :
      Move g q (.items b) (.counted { b with
        summary.remainingPending := (overlay b.call.now b.writes q).rows.countP fun r => r.status = .pending })
  /-- `INSERT … ON CONFLICT (token_fingerprint) DO UPDATE` -/
  | queue {apple c ciphertext} :
      Move g q (.queueing apple c ciphertext) (.queued apple c ciphertext
        ((q.rows.filter fun r => r.tokenFingerprint = g.sha256 ciphertext).map (·.id)))

inductive Commit (g : Settings) (q : Revocations) : Worker → Revocations → Prop where
  | run {b} : Commit g q (.counted b) (overlay b.call.now b.writes q)
  | queue {apple c ciphertext ids t} (queues : queueAppleRevocation g apple c ciphertext q = .ok t) :
      Commit g q (.queued apple c ciphertext ids) t

/-- An exception that ends a run, or one of the database at any statement, is a
`leave`. -/
def protocol (g : Settings) : Protocol Revocations Worker Lock where
  held := held g
  start := Starts
  move := Move g
  commit := Commit g

/-! ### What the writes do to a row -/

variable {g : Settings} {now : ℤ} {q t : Revocations} {l : List Write}

/-- What a statement makes of a row; `none` is no row. -/
def Write.toRow (now : ℤ) (r : RevocationRow) : Write → Option RevocationRow
  | .delete id => if r.id = id then none else some r
  | .postpone id minutes => some (if r.id = id then postponed now minutes r else r)
  | .fail id => some (if r.id = id then failed r else r)

def rowAfter (now : ℤ) (writes : List Write) (r : RevocationRow) : Option RevocationRow :=
  writes.foldlM (Write.toRow now) r

theorem apply_rows (now : ℤ) (w : Write) (q : Revocations) :
    (w.apply now q).rows = q.rows.filterMap fun r => w.toRow now r := by
  cases w with
  | delete id =>
    show q.rows.filter (fun r => !decide (r.id = id)) = _
    rw [← List.filterMap_eq_filter]
    refine List.filterMap_congr fun r _ => ?_
    by_cases h : r.id = id <;> simp [Write.toRow, Option.guard, h]
  | postpone id minutes =>
    show q.rows.map _ = _
    rw [← List.filterMap_eq_map]
    refine List.filterMap_congr fun r _ => ?_
    by_cases h : r.id = id <;> simp [Write.toRow, h]
  | fail id =>
    show q.rows.map _ = _
    rw [← List.filterMap_eq_map]
    refine List.filterMap_congr fun r _ => ?_
    by_cases h : r.id = id <;> simp [Write.toRow, h]

theorem overlay_rows (now : ℤ) : ∀ (l : List Write) (q : Revocations),
    (overlay now l q).rows = q.rows.filterMap (rowAfter now l)
  | [], q => by
    rw [show rowAfter now [] = some from rfl, List.filterMap_some]
    rfl
  | w :: l, q => by
    rw [show overlay now (w :: l) q = overlay now l (w.apply now q) from rfl, overlay_rows now l, apply_rows,
      List.filterMap_filterMap]
    rfl

/-- A statement for another row leaves it. -/
theorem toRow_of_ne {w : Write} {r : RevocationRow} (h : w.id ≠ r.id) : w.toRow now r = some r := by
  cases w with
  | delete id => exact if_neg (Ne.symm h)
  | postpone id minutes => exact congrArg some (if_neg (Ne.symm h))
  | fail id => exact congrArg some (if_neg (Ne.symm h))

theorem toRow_id {w : Write} {r r' : RevocationRow} (h : w.toRow now r = some r') : r'.id = r.id := by
  by_cases hid : w.id = r.id
  · cases w with
    | delete id => exact absurd ((if_pos hid.symm).symm.trans h) (by simp)
    | postpone id minutes => rw [← Option.some.inj ((congrArg some (if_pos hid.symm)).symm.trans h)]; rfl
    | fail id => rw [← Option.some.inj ((congrArg some (if_pos hid.symm)).symm.trans h)]; rfl
  · rw [toRow_of_ne hid] at h
    rw [Option.some.inj h]

theorem rowAfter_of_forall_ne {r : RevocationRow} (h : ∀ w ∈ l, w.id ≠ r.id) : rowAfter now l r = some r := by
  induction l with
  | nil => rfl
  | cons w l ih =>
    unfold rowAfter
    rw [List.foldlM_cons, toRow_of_ne (h w List.mem_cons_self)]
    exact ih fun v hv => h v (List.mem_cons_of_mem w hv)

/-- If no two statements are for one row, its own statement decides. -/
theorem rowAfter_eq {r : RevocationRow} {w : Write} (hids : (l.map Write.id).Nodup) (hw : w ∈ l) (hid : w.id = r.id) :
    rowAfter now l r = w.toRow now r := by
  induction l with
  | nil => exact absurd hw List.not_mem_nil
  | cons v l ih =>
    rw [List.map_cons, List.nodup_cons] at hids
    obtain ⟨hnot, hids⟩ := hids
    unfold rowAfter
    rw [List.foldlM_cons]
    rcases List.mem_cons.mp hw with rfl | hw
    · have hrest : ∀ r' : RevocationRow, r'.id = r.id → rowAfter now l r' = some r' := fun r' hr' =>
        rowAfter_of_forall_ne fun x hx heq => hnot (List.mem_map.mpr ⟨x, hx, heq.trans (hr'.trans hid.symm)⟩)
      cases hrow : w.toRow now r with
      | none => rfl
      | some r' => exact hrest r' (toRow_id hrow)
    · have hne : v.id ≠ r.id := fun heq => hnot (List.mem_map.mpr ⟨w, hw, hid.trans heq.symm⟩)
      rw [toRow_of_ne hne]
      exact ih hids hw

/-! ### The statements -/

theorem row_eq_of_id {r p : RevocationRow} (hr : r ∈ q) (hp : p ∈ q) (h : r.id = p.id) : r = p :=
  Table.eq_of_key (k := .inl r.id) hr hp (by simp [RevocationRow.keys]) (by simp [RevocationRow.keys, h])

theorem ids_nodup (q : Revocations) : (q.rows.map (·.id)).Nodup := by
  have hrows : q.rows.Nodup := q.rows_nodup fun r => List.cons_ne_nil _ _
  exact List.pairwise_map.mpr (hrows.imp_of_mem fun ha hb hne hid => hne (row_eq_of_id ha hb hid))

theorem mem_dueRows {limit : ℤ} {locked : List ℤ} {r : RevocationRow} (h : r ∈ dueRows now limit locked q) :
    r ∈ q ∧ r.status = .pending := by
  have h := List.mem_of_mem_take h
  rw [List.mem_insertionSort, List.mem_filter] at h
  simp only [Bool.and_eq_true, decide_eq_true_eq] at h
  exact ⟨h.1, h.2.1.1⟩

theorem dueRows_ids (now limit : ℤ) (locked : List ℤ) (q : Revocations) :
    ((dueRows now limit locked q).map (·.id)).Nodup := by
  unfold dueRows
  set due := q.rows.filter fun r => r.status = .pending && r.nextAttemptAt ≤ now && !locked.contains r.id
  have hdue : (due.map (·.id)).Nodup := (ids_nodup q).sublist (List.filter_sublist.map _)
  have hperm := List.perm_insertionSort (fun a b : RevocationRow => a.id ≤ b.id) due
  exact ((hperm.map _).nodup_iff.mpr hdue).sublist ((List.take_sublist _ _).map _)

theorem deletes_ids (rows : List RevocationRow) : (deletes rows).map Write.id = rows.map (·.id) := by
  unfold deletes
  rw [List.map_map]
  rfl

/-- After the DELETE a transaction sees the rows that were not deleted. -/
theorem mem_overlay_deletes {rows : List RevocationRow} (hrows : (rows.map (·.id)).Nodup) {r : RevocationRow}
    (h : r ∈ overlay now (deletes rows) q) : r ∈ q ∧ r.id ∉ rows.map (·.id) := by
  rw [Table.mem_def, overlay_rows] at h
  obtain ⟨p, hp, hrow⟩ := List.mem_filterMap.mp h
  by_cases hid : p.id ∈ rows.map (·.id)
  · obtain ⟨d, hd, hdp⟩ := List.mem_map.mp hid
    have hdelete : Write.delete d.id ∈ deletes rows := List.mem_map_of_mem hd
    rw [rowAfter_eq (by rwa [deletes_ids]) hdelete hdp] at hrow
    exact absurd ((if_pos hdp.symm).symm.trans hrow) (by simp)
  · rw [← deletes_ids] at hid
    rw [rowAfter_of_forall_ne fun w hw heq => hid (List.mem_map.mpr ⟨w, hw, heq⟩)] at hrow
    obtain rfl := Option.some.inj hrow
    rw [deletes_ids] at hid
    exact ⟨hp, hid⟩

/-! ### What the workers know -/

/-- The rows that a run has taken are in the queue as it took them, and each is
deleted as expired, done by its own attempt, or still to do. -/
structure KnowsRun (q : Revocations) (b : Run) : Prop where
  deleted : ∀ r ∈ b.deleted, r ∈ q ∧ r.expiresAt ≤ b.call.now
  batch : ∀ r ∈ b.batch, r ∈ q ∧ r.status = .pending
  todo : ∀ r ∈ b.todo, r ∈ b.batch
  ids : ((b.deleted ++ b.batch).map (·.id)).Nodup
  order : b.writes.map Write.id ++ b.todo.map (·.id) = (b.deleted ++ b.batch).map (·.id)
  writes : ∀ w ∈ b.writes, (∃ r ∈ b.deleted, w = .delete r.id) ∨
    ∃ r ∈ b.batch, ∃ o, b.call.outcome r = some o ∧ w = o.write r
  counts : b.summary.attempted = b.summary.succeeded + b.summary.temporaryFailed + b.summary.terminalFailed
  eligible : b.summary.attempted + b.todo.length = b.summary.eligible
  size : b.summary.eligible = b.batch.length

/-- Before its batch a run knows what it deleted; a transaction that queues a
ciphertext has the row of its fingerprint, if there is one. -/
def Knows (g : Settings) (q : Revocations) : Worker → Prop
  | .cleaned c deleted => (∀ r ∈ deleted, r ∈ q ∧ r.expiresAt ≤ c.now) ∧ (deleted.map (·.id)).Nodup
  | .items b => KnowsRun q b
  | .counted b => KnowsRun q b ∧ b.todo = []
  | .queued _ _ ciphertext ids => ∀ r ∈ q, r.tokenFingerprint = g.sha256 ciphertext → r.id ∈ ids
  | _ => True

theorem ItemOutcome.write_id (o : ItemOutcome) (r : RevocationRow) : (o.write r).id = r.id := by cases o <;> rfl

theorem RevocationSummary.item_counts (s : RevocationSummary) (o : ItemOutcome)
    (h : s.attempted = s.succeeded + s.temporaryFailed + s.terminalFailed) :
    (s.item o).attempted = (s.item o).succeeded + (s.item o).temporaryFailed + (s.item o).terminalFailed := by
  cases o <;> simp [RevocationSummary.item] <;> omega

/-- An item teaches its run nothing about the other rows. -/
theorem KnowsRun.done {b : Run} (h : KnowsRun q b) {r : RevocationRow} {todo : List RevocationRow} {o : ItemOutcome}
    (next : b.todo = r :: todo) (comes : b.call.outcome r = some o) : KnowsRun q (b.done r todo o) where
  deleted := h.deleted
  batch := h.batch
  todo p hp := h.todo p (by rw [next]; exact List.mem_cons_of_mem r hp)
  ids := h.ids
  order := by
    have horder := h.order
    rw [next] at horder
    show (b.writes ++ [o.write r]).map Write.id ++ todo.map (·.id) = (b.deleted ++ b.batch).map (·.id)
    rw [← horder, List.map_append, List.append_assoc]
    simp [ItemOutcome.write_id]
  writes w hw := by
    rcases List.mem_append.mp hw with hw | hw
    · exact h.writes w hw
    · rw [List.mem_singleton.mp hw]
      exact Or.inr ⟨r, h.todo r (by rw [next]; exact List.mem_cons_self), o, comes, rfl⟩
  counts := RevocationSummary.item_counts _ _ h.counts
  eligible := by
    have heligible := h.eligible
    rw [next, List.length_cons] at heligible
    show b.summary.attempted + 1 + todo.length = b.summary.eligible
    omega
  size := h.size

/-- Every statement leaves its worker with what it needs to know there. -/
theorem knows_move {m m' : Worker} (hk : Knows g q m) (h : Move g q m m') : Knows g q m' := by
  cases h with
  | @clean c =>
    refine ⟨fun r hr => ?_, (ids_nodup q).sublist (List.filter_sublist.map _)⟩
    obtain ⟨hmem, hexpired⟩ := List.mem_filter.mp hr
    exact ⟨hmem, of_decide_eq_true hexpired⟩
  | @select c deleted locked rows due =>
    obtain ⟨hdeleted, hnodup⟩ := hk
    have hbatch : ∀ r ∈ rows, (r ∈ q ∧ r.id ∉ deleted.map (·.id)) ∧ r.status = .pending := by
      intro r hr
      rw [← due] at hr
      obtain ⟨hmem, hpending⟩ := mem_dueRows hr
      exact ⟨mem_overlay_deletes hnodup hmem, hpending⟩
    refine ⟨hdeleted, fun r hr => ⟨(hbatch r hr).1.1, (hbatch r hr).2⟩, fun r hr => hr, ?_, ?_, fun w hw => ?_, rfl,
      ?_, rfl⟩
    · rw [List.map_append, List.nodup_append']
      refine ⟨hnodup, due ▸ dueRows_ids _ _ _ _, fun id hd hb => ?_⟩
      obtain ⟨r, hr, rfl⟩ := List.mem_map.mp hb
      exact (hbatch r hr).1.2 hd
    · show (deletes deleted).map Write.id ++ rows.map (·.id) = _
      rw [deletes_ids, List.map_append]
    · obtain ⟨r, hr, rfl⟩ := List.mem_map.mp hw
      exact Or.inl ⟨r, hr, rfl⟩
    · exact Nat.zero_add _
  | @item b r todo o next comes => exact KnowsRun.done hk next comes
  | @count b last =>
    exact ⟨⟨hk.deleted, hk.batch, hk.todo, hk.ids, hk.order, hk.writes, hk.counts, hk.eligible, hk.size⟩, last⟩
  | @queue apple c ciphertext =>
    intro r hr hf
    exact List.mem_map_of_mem (List.mem_filter.mpr ⟨hr, decide_eq_true hf⟩)

/-! ### The commits -/

/-- What the commit of a run does with a row. -/
def Run.fate (b : Run) (r : RevocationRow) : Option RevocationRow :=
  if r.id ∈ b.deleted.map (·.id) then none
  else if r.id ∈ b.batch.map (·.id) then
    match b.call.outcome r with
    | some .succeeded => none
    | some .temporary => some (postponed b.call.now (delayMinutes r.attempts) r)
    | some .terminal => some (failed r)
    | none => some r
  else some r

/-- **A commit does with every row what the row's own attempt decides.** -/
theorem commit_rows {b : Run} (h : KnowsRun q b) (last : b.todo = []) :
    (overlay b.call.now b.writes q).rows = q.rows.filterMap b.fate := by
  have horder := h.order
  rw [last, List.map_nil, List.append_nil] at horder
  have hids : (b.writes.map Write.id).Nodup := horder ▸ h.ids
  rw [overlay_rows]
  refine List.filterMap_congr fun r hr => ?_
  unfold Run.fate
  by_cases hwrite : ∃ w ∈ b.writes, w.id = r.id
  · obtain ⟨w, hw, hid⟩ := hwrite
    rw [rowAfter_eq hids hw hid]
    rcases h.writes w hw with ⟨d, hd, rfl⟩ | ⟨p, hp, o, ho, rfl⟩
    · rw [if_pos (List.mem_map.mpr ⟨d, hd, hid⟩)]
      exact if_pos hid.symm
    · -- the row of the batch is the row as it is
      rw [ItemOutcome.write_id] at hid
      obtain rfl := row_eq_of_id (h.batch p hp).1 hr hid
      have hbatch : p.id ∈ b.batch.map (·.id) := List.mem_map_of_mem hp
      have hnot : p.id ∉ b.deleted.map (·.id) := by
        have hdisjoint := h.ids
        rw [List.map_append, List.nodup_append'] at hdisjoint
        exact fun hd => hdisjoint.2.2 hd hbatch
      rw [if_neg hnot, if_pos hbatch, ho]
      cases o with
      | succeeded => exact if_pos rfl
      | temporary => exact congrArg some (if_pos rfl)
      | terminal => exact congrArg some (if_pos rfl)
  · have hnot : r.id ∉ (b.deleted ++ b.batch).map (·.id) := by
      rw [← horder]
      exact fun hmem => hwrite (List.mem_map.mp hmem)
    rw [List.map_append, List.mem_append, not_or] at hnot
    rw [rowAfter_of_forall_ne fun w hw heq => hwrite ⟨w, hw, heq⟩, if_neg hnot.1, if_neg hnot.2]

theorem fate_same {b : Run} {r p : RevocationRow} (h : b.fate r = some p) :
    p.id = r.id ∧ p.tokenFingerprint = r.tokenFingerprint ∧ p.tokenCiphertext = r.tokenCiphertext := by
  unfold Run.fate at h
  split_ifs at h with hdeleted hbatch
  · split at h
    · exact absurd h (by simp)
    all_goals
      rw [← Option.some.inj h]
      exact ⟨rfl, rfl, rfl⟩
  · rw [Option.some.inj h]
    exact ⟨rfl, rfl, rfl⟩

/-- What the queueing of a ciphertext does. -/
theorem queue_cases {apple : Apple} {c : QueueCall} {ciphertext : String}
    (h : queueAppleRevocation g apple c ciphertext q = .ok t) :
    t = q.update (fun r => r.tokenFingerprint = g.sha256 ciphertext) (·.requeue ciphertext c.now)
        (requeue_keys ciphertext c.now) ∨
      ∃ r, q.insert? r = some t ∧ r.tokenFingerprint = g.sha256 ciphertext := by
  unfold queueAppleRevocation at h
  split at h
  · exact absurd h (by simp)
  split at h
  · exact absurd h (by simp)
  · split at h
    · exact Or.inl (Except.ok.inj h).symm
    · split at h
      · rename_i u hinsert
        exact Or.inr ⟨_, Except.ok.inj h ▸ hinsert, rfl⟩
      · exact absurd h (by simp)

/-- What a commit under the locks `K` does to the queue. -/
structure Grows (K : Set Lock) (q t : Revocations) : Prop where
  kept : ∀ r ∈ q, .row r.id ∉ K → r ∈ t
  origin : ∀ r ∈ t, (∃ p ∈ q, p.id = r.id ∧ p.tokenFingerprint = r.tokenFingerprint) ∨
    .fingerprint r.tokenFingerprint ∈ K

theorem commit_grows {m : Worker} (hk : Knows g q m) (h : Commit g q m t) : Grows (held g m) q t := by
  cases h with
  | @run b =>
    have hrows := commit_rows hk.1 hk.2
    constructor
    · intro r hr hfree
      have hnot : r.id ∉ (b.deleted ++ b.batch).map (·.id) := fun hmem => hfree ⟨r.id, hmem, rfl⟩
      rw [List.map_append, List.mem_append, not_or] at hnot
      rw [Table.mem_def, hrows]
      refine List.mem_filterMap.mpr ⟨r, hr, ?_⟩
      unfold Run.fate
      rw [if_neg hnot.1, if_neg hnot.2]
    · intro r hr
      rw [Table.mem_def, hrows] at hr
      obtain ⟨p, hp, hfate⟩ := List.mem_filterMap.mp hr
      obtain ⟨hid, hfingerprint, -⟩ := fate_same hfate
      exact Or.inl ⟨p, hp, hid.symm, hfingerprint.symm⟩
  | @queue apple c ciphertext ids t queues =>
    rcases queue_cases queues with rfl | ⟨new, hinsert, hnew⟩
    · constructor
      · intro r hr hfree
        have hne : r.tokenFingerprint ≠ g.sha256 ciphertext := fun heq => hfree (Or.inl ⟨r.id, hk r hr heq, rfl⟩)
        exact Table.mem_update.mpr ⟨r, hr, by simp [hne]⟩
      · intro r hr
        obtain ⟨p, hp, rfl⟩ := Table.mem_update.mp hr
        exact Or.inl ⟨p, hp, by split_ifs <;> rfl, by split_ifs <;> rfl⟩
    · constructor
      · exact fun r hr _ => (Table.mem_insert hinsert).mpr (Or.inl hr)
      · intro r hr
        rcases (Table.mem_insert hinsert).mp hr with hr | rfl
        · exact Or.inl ⟨r, hr, rfl, rfl⟩
        · rw [hnew]
          exact Or.inr (Or.inr rfl)

theorem KnowsRun.grows {K : Set Lock} {b : Run} (h : KnowsRun q b) (hg : Grows K q t)
    (hd : Disjoint K (rowLocks ((b.deleted ++ b.batch).map (·.id)))) : KnowsRun t b := by
  have hfree : ∀ r ∈ b.deleted ++ b.batch, .row r.id ∉ K := fun r hr hk =>
    Set.disjoint_left.mp hd hk ⟨r.id, List.mem_map_of_mem hr, rfl⟩
  refine ⟨fun r hr => ?_, fun r hr => ?_, h.todo, h.ids, h.order, h.writes, h.counts, h.eligible, h.size⟩
  · obtain ⟨hmem, hexpired⟩ := h.deleted r hr
    exact ⟨hg.kept r hmem (hfree r (List.mem_append_left _ hr)), hexpired⟩
  · obtain ⟨hmem, hpending⟩ := h.batch r hr
    exact ⟨hg.kept r hmem (hfree r (List.mem_append_right _ hr)), hpending⟩

/-- The row with its ciphertext, or with another one of the same fingerprint
that was queued since. -/
structure SameToken (g : Settings) (r p : RevocationRow) : Prop where
  id : p.id = r.id
  fingerprint : p.tokenFingerprint = r.tokenFingerprint
  ciphertext : p.tokenCiphertext = r.tokenCiphertext ∨ g.sha256 p.tokenCiphertext = p.tokenFingerprint

theorem SameToken.refl (g : Settings) (r : RevocationRow) : SameToken g r r := ⟨rfl, rfl, Or.inl rfl⟩

theorem SameToken.trans {r p o : RevocationRow} (h : SameToken g r p) (h' : SameToken g p o) : SameToken g r o where
  id := h'.id.trans h.id
  fingerprint := h'.fingerprint.trans h.fingerprint
  ciphertext := by
    rcases h'.ciphertext with hsame | hhash
    · rw [hsame, h'.fingerprint]
      exact h.ciphertext
    · exact Or.inr hhash

variable {ι : Type*} [DecidableEq ι] {x y z : System Revocations Worker ι}

end Revocation
end Auth
end FuelNear

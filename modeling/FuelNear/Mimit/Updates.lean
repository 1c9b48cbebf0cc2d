/-
# The MIMIT updates of several processes

`admin_update_mimit`, the worker `run_mimit_update_background` that it hands
its connection to, and `admin_mimit_lock_check`, with the locks that they take:
the lock of the process, the session-level advisory lock of the database, and
the row locks of `mimit_import_runs`. Each call is a program point on a
connection of its process's pool. One statement runs at a time, of any call in
any process, and any statement may raise; a statement that raises has had no
effect. A process may crash, and its connections with it.

The advisory lock belongs to a connection, which can take it more than once,
and a connection that is returned to the pool keeps it. `PooledConnection`
returns the connection at the end of a `with`, so a lock check that has failed
unlocks on a connection that is not its own any more (`Point.stale`).

What an update imports and notifies has no part in this, and neither have the
columns of a run that only describe it.

Key definitions: `Shared`, `Effect`, `Point`, `Moves`, `System`, `Step`, `Reaches`.
-/
import FuelNear.Dict
import Mathlib.Logic.Relation
import Mathlib.Tactic

namespace FuelNear
namespace MimitUpdate

/-! ### mimit_import_runs -/

inductive RunStatus where
  | running
  | success
  | failed
  deriving DecidableEq

/-- A row of `mimit_import_runs`, which goes by its id. -/
structure ImportRun where
  startedAt : ℤ
  completedAt : Option ℤ
  status : RunStatus
  errorMessage : Option String
  deriving DecidableEq

/-- `status = 'running' AND completed_at IS NULL`. -/
def ImportRun.isOpen (r : ImportRun) : Bool := r.status = .running && r.completedAt.isNone

/-- The row that `create_mimit_import_run` inserts. -/
def ImportRun.create (now : ℤ) : ImportRun := ⟨now, none, .running, none⟩

/-- The SET of `fail_orphaned_mimit_import_runs`. -/
def ImportRun.orphan (now : ℤ) (r : ImportRun) : ImportRun :=
  { r with
    status := .failed
    completedAt := some now
    errorMessage := some "Import process ended before recording completion" }

/-- The SET of `mark_mimit_import_run_orphaned`. -/
def ImportRun.markOrphaned (now : ℤ) (r : ImportRun) : ImportRun :=
  { r with
    status := .failed
    completedAt := some now
    errorMessage := some "Orphaned import run: advisory lock is not held" }

/-- The SET of `finish_mimit_import_run`. -/
def ImportRun.finish (now : ℤ) (r : ImportRun) : ImportRun :=
  { r with status := .success, completedAt := some now, errorMessage := none }

/-- The SET of `fail_mimit_import_run`. -/
def ImportRun.fail (now : ℤ) (message : String) (r : ImportRun) : ImportRun :=
  { r with status := .failed, completedAt := some now, errorMessage := some (message.take 2000).toString }

/-- The table, by id. -/
abbrev Runs := Dict ℤ ImportRun

/-- The row has the status 'running'. -/
def Running (t : Runs) (id : ℤ) : Prop := ∃ r, t.get? id = some r ∧ r.status = .running

/-- The rows that `status = 'running' AND completed_at IS NULL` finds. -/
def openRuns (t : Runs) : List ℤ := (t.entries.filter fun e => e.2.isOpen).map Prod.fst

/-! ### What the processes share -/

/-- A connection to the database, of the pool of one process. -/
structure Session (π : Type*) where
  process : π
  number : ℕ
  deriving DecidableEq

inductive SessionState where
  | unused
  | idle
  | taken
  | closed
  deriving DecidableEq

/-- The database, the pools, and the lock `_mimit_update_lock` of each process.
`advisory` is the connection that has the advisory lock, with the number of
times it took it after the first; `pending` are the rows that the open
transaction of a connection has written. -/
structure Shared (π : Type*) where
  runs : Runs
  nextRun : ℤ
  pending : Session π → List (ℤ × ImportRun)
  sessions : Session π → SessionState
  advisory : Option (Session π × ℕ)
  updateLock : π → Bool

variable {π : Type*} [DecidableEq π]

/-- `pg_try_advisory_lock`: the lock after it, if it is granted. -/
def tryAdvisoryLock (x : Session π) : Option (Session π × ℕ) → Option (Session π × ℕ)
  | none => some (x, 0)
  | some (y, n) => if y = x then some (x, n + 1) else none

/-- `pg_advisory_unlock`. -/
def advisoryUnlock (x : Session π) : Option (Session π × ℕ) → Option (Session π × ℕ)
  | none => none
  | some (y, n) => if y = x then if n = 0 then none else some (x, n - 1) else some (y, n)

/-- How often a connection has the lock. -/
def held (lock : Option (Session π × ℕ)) (x : Session π) : ℕ :=
  match lock with
  | none => 0
  | some (y, n) => if y = x then n + 1 else 0

/-- The table as a transaction sees it, and as it leaves it. -/
def Shared.view (s : Shared π) (x : Session π) : Runs := (s.pending x).foldl (fun t e => t.set e.1 e.2) s.runs

/-- No other transaction has written the row. -/
def Shared.Free (s : Shared π) (x : Session π) (id : ℤ) : Prop := ∀ y, y ≠ x → id ∉ (s.pending y).map Prod.fst

/-- What one step of a call does to what is shared. -/
inductive Effect where
  | none
  | lock
  | unlock
  | tryAdvisory
  | advisoryUnlock
  | write (id : ℤ) (row : ImportRun)
  | insert (row : ImportRun)
  | commit
  | rollback
  | close (keep : Bool)
  deriving DecidableEq

/-- The transaction of a connection becomes `rows`. -/
def Shared.setPending (s : Shared π) (x : Session π) (rows : List (ℤ × ImportRun)) : Shared π :=
  { s with pending := Function.update s.pending x rows }

/-- A connection goes back to the pool, or is closed for good, and then its lock is free. -/
def Shared.close (s : Shared π) (x : Session π) (keep : Bool) : Shared π :=
  { s with
    pending := Function.update s.pending x []
    sessions := Function.update s.sessions x (if keep then .idle else .closed)
    advisory := if keep then s.advisory else s.advisory.filter fun e => e.1 ≠ x }

def Effect.run (x : Session π) (s : Shared π) : Effect → Shared π
  | .none => s
  | .lock => { s with updateLock := Function.update s.updateLock x.process true }
  | .unlock => { s with updateLock := Function.update s.updateLock x.process false }
  | .tryAdvisory => { s with advisory := tryAdvisoryLock x s.advisory }
  | .advisoryUnlock => { s with advisory := MimitUpdate.advisoryUnlock x s.advisory }
  | .write id row => s.setPending x (s.pending x ++ [(id, row)])
  | .insert row => { s.setPending x (s.pending x ++ [(s.nextRun, row)]) with nextRun := s.nextRun + 1 }
  | .commit => { s.setPending x [] with runs := s.view x }
  | .rollback => s.setPending x []
  | .close keep => s.close x keep

/-! ### The calls -/

/-- Who has failed: the request, which may have added its background task
already, or the worker. -/
inductive Origin where
  | request (scheduled : Bool)
  | worker
  deriving DecidableEq

/-- How far a call has come. -/
inductive Point where
  /-- `admin_update_mimit` has its connection -/
  | requested
  /-- `_mimit_update_lock` is acquired -/
  | locked
  /-- it is to be released again, without an update -/
  | declined
  /-- the advisory lock is acquired, `try_acquire_mimit_update_lock` has not returned -/
  | acquired
  | reconciling
  /-- the UPDATE of `fail_orphaned_mimit_import_runs`, with the rows it has still to visit -/
  | orphaning (todo : List ℤ)
  | creating
  | committing (run : ℤ)
  | scheduling (run : ℤ)
  /-- the background task is added -/
  | handedOff (run : ℤ)
  /-- the request has failed after that: its connection is never closed -/
  | abandoned (run : ℤ)
  /-- an `except` clause, before its rollback -/
  | failing (run : Option ℤ) (origin : Origin)
  /-- before, and after, the UPDATE of `fail_mimit_import_run` -/
  | recording (run : ℤ) (origin : Origin)
  | recorded (run : ℤ) (origin : Origin)
  | unrecorded (run : ℤ) (origin : Origin)
  /-- `run_mimit_update_background`: `update_mimit_data` -/
  | importing (run : ℤ)
  /-- before, and after, the UPDATE of `finish_mimit_import_run` -/
  | finishing (run : ℤ)
  | finished (run : ℤ)
  | notifying (run : ℤ)
  | refreshing (run : ℤ)
  /-- `release_mimit_update_lock`: before the unlock, and after it -/
  | releasing (run : Option ℤ)
  | released (run : Option ℤ)
  /-- `conn.close()` is left -/
  | leaving (run : Option ℤ)
  /-- `admin_mimit_lock_check` has its connection -/
  | probing
  /-- `probe_lock_acquired` -/
  | probed (acquired : Bool)
  /-- `running_run` is read -/
  | marking (acquired : Bool) (running : Option ℤ)
  | unlocking (acquired : Bool)
  /-- the end of the `with`: before the commit, and after it -/
  | probeDone
  | probeLeaving
  /-- an exception leaves the `with`: before the rollback, and after it -/
  | probeFailed (acquired : Bool)
  | probeReturning (acquired : Bool)
  /-- its connection is returned, the unlock of the `finally` is left -/
  | stale
  deriving DecidableEq

/-- Where an `except` clause of the update goes on. -/
def Origin.next (run : ℤ) : Origin → Point
  | .request false => .releasing (some run)
  | .request true => .abandoned run
  | .worker => .refreshing run

/-- A row that `get_running_mimit_import_run` can return: `ORDER BY started_at DESC LIMIT 1`. -/
def IsNewestOpen (t : Runs) : Option ℤ → Prop
  | none => openRuns t = []
  | some id => ∃ r, t.get? id = some r ∧ r.isOpen = true ∧ ∀ j q, t.get? j = some q → q.isOpen = true →
      q.startedAt ≤ r.startedAt

/-- The steps of a call on the connection `x`: the next point, or the end. -/
inductive Moves (s : Shared π) (x : Session π) : Point → Effect → Option Point → Prop where
  -- `try_acquire_mimit_update_lock`
  | busy (h : s.updateLock x.process = true) : Moves s x .requested .none (some (.leaving none))
  | lock (h : s.updateLock x.process = false) : Moves s x .requested .lock (some .locked)
  | acquire (h : (tryAdvisoryLock x s.advisory).isSome) : Moves s x .locked .tryAdvisory (some .acquired)
  /-- it is refused, or the SELECT raises -/
  | refused : Moves s x .locked .none (some .declined)
  | decline : Moves s x .declined .unlock (some (.leaving none))
  | returns : Moves s x .acquired .none (some .reconciling)
  | acquiredRaises : Moves s x .acquired .none (some .declined)
  -- `admin_update_mimit`
  | reconcile : Moves s x .reconciling .none (some (.orphaning (openRuns s.runs)))
  | orphan {id todo r now} (free : s.Free x id) (h : s.runs.get? id = some r) (still : r.isOpen = true) :
      Moves s x (.orphaning (id :: todo)) (.write id (r.orphan now)) (some (.orphaning todo))
  | skip {id todo} (free : s.Free x id) (h : ∀ r, s.runs.get? id = some r → r.isOpen = false) :
      Moves s x (.orphaning (id :: todo)) .none (some (.orphaning todo))
  | reconciled : Moves s x (.orphaning []) .none (some .creating)
  | create {now} : Moves s x .creating (.insert (.create now)) (some (.committing s.nextRun))
  | commit {run} : Moves s x (.committing run) .commit (some (.scheduling run))
  | schedule {run} : Moves s x (.scheduling run) .none (some (.handedOff run))
  | reconcilingRaises : Moves s x .reconciling .none (some (.failing none (.request false)))
  | orphaningRaises {todo} : Moves s x (.orphaning todo) .none (some (.failing none (.request false)))
  | creatingRaises : Moves s x .creating .none (some (.failing none (.request false)))
  | committingRaises {run} : Moves s x (.committing run) .none (some (.failing (some run) (.request false)))
  | schedulingRaises {run} : Moves s x (.scheduling run) .none (some (.failing (some run) (.request false)))
  | handedOffRaises {run} : Moves s x (.handedOff run) .none (some (.failing (some run) (.request true)))
  -- the `except` clauses
  | forget {o} : Moves s x (.failing none o) .rollback (some (.releasing none))
  | rollback {run o} : Moves s x (.failing (some run) o) .rollback (some (.recording run o))
  | record {run o r now message} (free : s.Free x run) (h : (s.view x).get? run = some r) :
      Moves s x (.recording run o) (.write run (r.fail now message)) (some (.recorded run o))
  | recordNone {run o} (h : (s.view x).get? run = none) : Moves s x (.recording run o) .none (some (.recorded run o))
  | recordCommit {run o} : Moves s x (.recorded run o) .commit (some (o.next run))
  | recordingRaises {run o} : Moves s x (.recording run o) .none (some (.unrecorded run o))
  | recordedRaises {run o} : Moves s x (.recorded run o) .none (some (.unrecorded run o))
  | unrecorded {run o} : Moves s x (.unrecorded run o) .rollback (some (o.next run))
  -- `run_mimit_update_background`
  | start {run} : Moves s x (.handedOff run) .none (some (.importing run))
  | imported {run} : Moves s x (.importing run) .none (some (.finishing run))
  | finish {run r now} (free : s.Free x run) (h : (s.view x).get? run = some r) :
      Moves s x (.finishing run) (.write run (r.finish now)) (some (.finished run))
  | finishNone {run} (h : (s.view x).get? run = none) : Moves s x (.finishing run) .none (some (.finished run))
  | finishCommit {run} : Moves s x (.finished run) .commit (some (.notifying run))
  | notified {run} : Moves s x (.notifying run) .none (some (.refreshing run))
  | importingRaises {run} : Moves s x (.importing run) .none (some (.failing (some run) .worker))
  | finishingRaises {run} : Moves s x (.finishing run) .none (some (.failing (some run) .worker))
  | finishedRaises {run} : Moves s x (.finished run) .none (some (.failing (some run) .worker))
  | notifyingRaises {run} : Moves s x (.notifying run) .none (some (.failing (some run) .worker))
  | refreshed {run} : Moves s x (.refreshing run) .none (some (.releasing (some run)))
  -- `release_mimit_update_lock`, and `conn.close()`
  | release {run} : Moves s x (.releasing run) .advisoryUnlock (some (.released run))
  | releaseRaises {run} : Moves s x (.releasing run) .none (some (.released run))
  | unlock {run} : Moves s x (.released run) .unlock (some (.leaving run))
  | leave {run keep} : Moves s x (.leaving run) (.close keep) none
  -- `admin_mimit_lock_check`
  | probe (h : (tryAdvisoryLock x s.advisory).isSome) : Moves s x .probing .tryAdvisory (some (.probed true))
  | probeRefused (h : tryAdvisoryLock x s.advisory = none) : Moves s x .probing .none (some (.probed false))
  | look {acquired running} (h : IsNewestOpen s.runs running) :
      Moves s x (.probed acquired) .none (some (.marking acquired running))
  | mark {id r now} (free : s.Free x id) (h : s.runs.get? id = some r) (still : r.isOpen = true) :
      Moves s x (.marking true (some id)) (.write id (r.markOrphaned now)) (some (.unlocking true))
  | markNone {id} (free : s.Free x id) (h : ∀ r, s.runs.get? id = some r → r.isOpen = false) :
      Moves s x (.marking true (some id)) .none (some (.unlocking true))
  | lockHeld {running} : Moves s x (.marking false running) .none (some (.unlocking false))
  | noRun {acquired} : Moves s x (.marking acquired none) .none (some (.unlocking acquired))
  | probeUnlock : Moves s x (.unlocking true) .advisoryUnlock (some .probeDone)
  | noUnlock : Moves s x (.unlocking false) .none (some .probeDone)
  | probeCommit : Moves s x .probeDone .commit (some .probeLeaving)
  | probeCommitRaises : Moves s x .probeDone .rollback (some .probeLeaving)
  | probeLeave {keep} : Moves s x .probeLeaving (.close keep) none
  | probingRaises : Moves s x .probing .none (some (.probeFailed false))
  | probedRaises {acquired} : Moves s x (.probed acquired) .none (some (.probeFailed acquired))
  | markingRaises {acquired running} : Moves s x (.marking acquired running) .none (some (.probeFailed acquired))
  | unlockingRaises {acquired} : Moves s x (.unlocking acquired) .none (some (.probeFailed acquired))
  | probeRollback {acquired} : Moves s x (.probeFailed acquired) .rollback (some (.probeReturning acquired))
  | probeReturn {acquired keep} :
      Moves s x (.probeReturning acquired) (.close keep) (if acquired then some .stale else none)
  | staleUnlock (h : s.sessions x ≠ .closed) : Moves s x .stale .advisoryUnlock none
  | staleRaises : Moves s x .stale .none none

/-! ### The system -/

structure Call (π : Type*) where
  session : Session π
  point : Point
  deriving DecidableEq

structure System (π : Type*) where
  shared : Shared π
  calls : List (Call π)

/-- A process is gone, and its connections with it. -/
def Shared.crash (s : Shared π) (p : π) : Shared π :=
  { s with
    pending := fun x => if x.process = p then [] else s.pending x
    sessions := fun x => if x.process = p && s.sessions x ≠ .unused then .closed else s.sessions x
    advisory := s.advisory.filter fun e => e.1.process ≠ p
    updateLock := Function.update s.updateLock p false }

/-- `get_connection`: a connection of the pool, or a new one. -/
def Shared.take (s : Shared π) (x : Session π) : Shared π :=
  { s with sessions := Function.update s.sessions x .taken }

/-- One step, with the connection that it is made on. -/
inductive Step (s : System π) : Option (Session π) → System π → Prop where
  | call {l₁ l₂ c e next} (here : s.calls = l₁ ++ c :: l₂) (moves : Moves s.shared c.session c.point e next) :
      Step s (some c.session) ⟨e.run c.session s.shared, l₁ ++ (next.map (Call.mk c.session)).toList ++ l₂⟩
  | begin {x point} (ready : s.shared.sessions x = .unused ∨ s.shared.sessions x = .idle)
      (starts : point = .requested ∨ point = .probing) :
      Step s (some x) ⟨s.shared.take x, s.calls ++ [⟨x, point⟩]⟩
  /-- the pool closes an idle connection -/
  | drop {x} (idle : s.shared.sessions x = .idle) : Step s none ⟨s.shared.close x false, s.calls⟩
  | crash (p : π) : Step s none ⟨s.shared.crash p, s.calls.filter fun c => c.session.process ≠ p⟩

def Reaches : System π → System π → Prop := Relation.ReflTransGen fun s t => ∃ a, Step s a t

/-- No call is there, no lock is taken, no connection is open, and no run was ever recorded. -/
def initial (π : Type*) : System π where
  shared := {
    runs := Dict.empty
    nextRun := 1
    pending := fun _ => []
    sessions := fun _ => .unused
    advisory := none
    updateLock := fun _ => false }
  calls := []

/-! ### What the statements do -/

section Statements

variable {x y : Session π} {lock lock' : Option (Session π × ℕ)} {s : Shared π}

/-- One connection has the lock. -/
theorem held_unique (hx : 0 < held lock x) (hy : 0 < held lock y) : x = y := by
  rcases lock with _ | ⟨z, n⟩
  · simp [held] at hx
  · by_cases hzx : z = x
    · by_cases hzy : z = y
      · rw [← hzx, hzy]
      · simp [held, hzy] at hy
    · simp [held, hzx] at hx

theorem held_tryAdvisoryLock (h : (tryAdvisoryLock x lock).isSome) (y : Session π) :
    held (tryAdvisoryLock x lock) y = held lock y + if y = x then 1 else 0 := by
  rcases lock with _ | ⟨z, n⟩
  · by_cases hy : y = x
    · simp [held, tryAdvisoryLock, hy]
    · simp [held, tryAdvisoryLock, hy, Ne.symm hy]
  · by_cases hz : z = x
    · subst hz
      by_cases hy : y = z
      · simp [held, tryAdvisoryLock, hy]
      · simp [held, tryAdvisoryLock, hy, Ne.symm hy]
    · simp [tryAdvisoryLock, hz] at h

theorem held_advisoryUnlock (lock : Option (Session π × ℕ)) (x y : Session π) :
    held (advisoryUnlock x lock) y = held lock y - if y = x then 1 else 0 := by
  rcases lock with _ | ⟨z, n⟩
  · simp [held, advisoryUnlock]
  · by_cases hz : z = x
    · subst hz
      by_cases hn : n = 0 <;> by_cases hy : y = z
      · simp [held, advisoryUnlock, hn, hy]
      · simp [held, advisoryUnlock, hn, Ne.symm hy]
      · simp [held, advisoryUnlock, hn, hy]
        omega
      · simp [held, advisoryUnlock, hn, Ne.symm hy]
    · by_cases hy : y = x
      · subst hy
        simp [held, advisoryUnlock, hz]
      · simp [held, advisoryUnlock, hz, hy]

/-- The locks of closed connections are free. -/
theorem held_filter (lock : Option (Session π × ℕ)) (p : Session π → Bool) (y : Session π) :
    held (lock.filter fun e => p e.1) y = if p y then held lock y else 0 := by
  rcases lock with _ | ⟨z, n⟩
  · simp [held]
  · by_cases hz : z = y
    · subst hz
      by_cases hp : p z = true <;> simp [held, Option.filter, hp]
    · by_cases hp : p z = true <;> simp [held, Option.filter, hp, hz]

/-- A step on one connection writes nothing for another. -/
theorem run_pending_of_ne (e : Effect) (h : y ≠ x) : (e.run x s).pending y = s.pending y := by
  cases e <;> simp [Effect.run, Shared.setPending, Shared.close, h]

/-- What the transaction has written after a step, it had, or the step has written it. -/
theorem mem_run_pending {e : Effect} {w : ℤ × ImportRun} (h : w ∈ (e.run x s).pending x) :
    w ∈ s.pending x ∨ e = .write w.1 w.2 ∨ e = .insert w.2 ∧ w.1 = s.nextRun := by
  cases e with
  | write id row =>
    have h : w ∈ Function.update s.pending x (s.pending x ++ [(id, row)]) x := h
    rw [Function.update_self, List.mem_append, List.mem_singleton] at h
    exact h.imp_right fun hw => .inl (by rw [hw])
  | insert row =>
    have h : w ∈ Function.update s.pending x (s.pending x ++ [(s.nextRun, row)]) x := h
    rw [Function.update_self, List.mem_append, List.mem_singleton] at h
    exact h.imp_right fun hw => .inr (by rw [hw]; exact ⟨rfl, rfl⟩)
  | commit => simp [Effect.run, Shared.setPending] at h
  | rollback => simp [Effect.run, Shared.setPending] at h
  | close keep => simp [Effect.run, Shared.close] at h
  | _ => exact .inl h

theorem run_sessions (e : Effect) (he : ∀ keep, e ≠ .close keep) : (e.run x s).sessions = s.sessions := by
  cases e <;> simp_all [Effect.run, Shared.setPending]

theorem run_runs (e : Effect) (he : e ≠ .commit) : (e.run x s).runs = s.runs := by
  cases e <;> simp_all [Effect.run, Shared.setPending, Shared.close]

theorem run_advisory (e : Effect) (htry : e ≠ .tryAdvisory) (hunlock : e ≠ .advisoryUnlock)
    (hclose : ∀ keep, e ≠ .close keep) : (e.run x s).advisory = s.advisory := by
  cases e <;> simp_all [Effect.run, Shared.setPending]

/-! ### Written rows, and rows that are running -/

theorem running_set {t : Runs} {id i : ℤ} {row : ImportRun} :
    Running (t.set id row) i ↔ if i = id then row.status = .running else Running t i := by
  unfold Running
  rw [Dict.get?_set]
  by_cases h : i = id <;> simp [h]

/-- Writes of rows that are not running make no row run. -/
theorem running_foldl_quiet : ∀ (l : List (ℤ × ImportRun)) (t : Runs) (i : ℤ), (∀ e ∈ l, e.2.status ≠ .running) →
    Running (l.foldl (fun t e => t.set e.1 e.2) t) i → Running t i
  | [], _, _, _, h => h
  | e :: l, t, i, hq, h => by
    have h1 := running_foldl_quiet l (t.set e.1 e.2) i (fun x hx => hq x (List.mem_cons_of_mem _ hx)) h
    rw [running_set] at h1
    split_ifs at h1
    · exact absurd h1 (hq e List.mem_cons_self)
    · exact h1

/-- The fewer rows are running, the fewer are after the same writes. -/
theorem running_foldl_mono : ∀ (l : List (ℤ × ImportRun)) (t u : Runs), (∀ i, Running u i → Running t i) → ∀ i,
    Running (l.foldl (fun t e => t.set e.1 e.2) u) i → Running (l.foldl (fun t e => t.set e.1 e.2) t) i
  | [], _, _, h, i, hi => h i hi
  | e :: l, t, u, h, i, hi => by
    refine running_foldl_mono l (t.set e.1 e.2) (u.set e.1 e.2) (fun j hj => ?_) i hi
    rw [running_set] at hj ⊢
    split_ifs at hj ⊢
    · exact hj
    · exact h j hj

/-- A row that a transaction has not written is left by its commit. -/
theorem get?_foldl_set : ∀ (l : List (ℤ × ImportRun)) (t : Runs) (i : ℤ), i ∉ l.map Prod.fst →
    (l.foldl (fun t e => t.set e.1 e.2) t).get? i = t.get? i
  | [], _, _, _ => rfl
  | e :: l, t, i, h => by
    rw [List.map_cons, List.mem_cons, not_or] at h
    rw [List.foldl_cons, get?_foldl_set l _ i h.2, Dict.get?_set, if_neg h.1]

/-- The rows after a commit are old ones, or written. -/
theorem get?_foldl_cases : ∀ (l : List (ℤ × ImportRun)) (t : Runs) (i : ℤ) (r : ImportRun),
    (l.foldl (fun t e => t.set e.1 e.2) t).get? i = some r → t.get? i = some r ∨ (i, r) ∈ l
  | [], _, _, _, h => .inl h
  | e :: l, t, i, r, h => by
    rcases get?_foldl_cases l _ i r h with h1 | h1
    · rw [Dict.get?_set] at h1
      split_ifs at h1 with hi
      · right
        rw [hi, ← Option.some.inj h1]
        exact List.mem_cons_self
      · exact .inl h1
    · exact .inr (List.mem_cons_of_mem _ h1)

theorem mem_openRuns {t : Runs} {i : ℤ} : i ∈ openRuns t ↔ ∃ r, t.get? i = some r ∧ r.isOpen = true := by
  simp only [openRuns, List.mem_map, List.mem_filter, Dict.get?_eq_some]
  constructor
  · rintro ⟨⟨j, r⟩, ⟨hr, hopen⟩, rfl⟩
    exact ⟨r, hr, hopen⟩
  · rintro ⟨r, hr, hopen⟩
    exact ⟨(i, r), ⟨hr, hopen⟩, rfl⟩

end Statements

end MimitUpdate
end FuelNear

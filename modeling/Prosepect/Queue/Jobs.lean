/-
`sync_jobs`: the jobs of every user, the statements that enqueue one, and those of `sync_store.rs`
with which a worker claims a job and settles it.

Two unique indexes are on the table: one on `(user_id, idempotency_key)`, and a partial one that
leaves a user one pending job of the task edits.
-/
import Prosepect.Store.Schema
import Prosepect.Data.Text

namespace Prosepect

open Time Text

inductive SyncStatus
  | pending | running | succeeded | failed
deriving DecidableEq, Repr

/-- A row of `sync_jobs`; the user is a column here. -/
structure SyncJobRow where
  id : Uuid
  userId : Uuid
  calendarId : Option Uuid
  kind : String
  idempotencyKey : String
  status : SyncStatus
  attemptCount : Nat
  availableAt : DateTime
  leasedUntil : Option DateTime
  lastError : Option String
  createdAt : DateTime
  updatedAt : DateTime
deriving DecidableEq, Repr

/-- What `claim_sync_job` returns: the attempts are those before this one. -/
structure ClaimedSyncJob where
  id : Uuid
  userId : Uuid
  calendarId : Option Uuid
  kind : String
  attemptCount : Nat
deriving DecidableEq, Repr

namespace SyncJobRow

/-- A new row; the columns that are not named have their defaults. -/
def queued (id user : Uuid) (calendar : Option Uuid) (kind key : String) (available now : DateTime) : SyncJobRow :=
  ⟨id, user, calendar, kind, key, .pending, 0, available, none, none, now, now⟩

def hasKey (user : Uuid) (key : String) (j : SyncJobRow) : Bool := j.userId == user && j.idempotencyKey == key

/-- The rows of `google_tasks_pending_change_idx`. -/
def pendingChange (user : Uuid) (j : SyncJobRow) : Bool :=
  j.userId == user && j.kind == "tasks_sync" && j.status == .pending && startsWith j.idempotencyKey "tasks-change:"

/-- The WHERE clause of `claim_sync_job`. -/
def claimable (now : DateTime) (j : SyncJobRow) : Bool :=
  (j.status == .pending || j.status == .failed) && decide (j.availableAt ≤ now) &&
    j.leasedUntil.all (fun t => decide (t < now)) && decide (j.attemptCount < 8)

/-- Two minutes. -/
def lease : TimeDelta := 120000000

def claim (now : DateTime) (j : SyncJobRow) : SyncJobRow :=
  { j with status := .running, attemptCount := j.attemptCount + 1, leasedUntil := some (now + lease), updatedAt := now }

def complete (now : DateTime) (j : SyncJobRow) : SyncJobRow :=
  { j with status := .succeeded, leasedUntil := none, lastError := none, updatedAt := now }

/-- The back-off: two seconds, doubled by each attempt, five minutes at most. -/
def backOff (attempts : Nat) : TimeDelta := (min (2 ^ min (max attempts 1) 8) 300 : Nat) * usPerSecond

def fail (attempts : Nat) (error : String) (now : DateTime) (j : SyncJobRow) : SyncJobRow :=
  { j with
    status := .failed
    leasedUntil := none
    availableAt := now + backOff attempts
    lastError := some (String.ofList (error.toList.take 2000))
    updatedAt := now }

def claimed (j : SyncJobRow) : ClaimedSyncJob := ⟨j.id, j.userId, j.calendarId, j.kind, j.attemptCount⟩

@[simp] theorem claim_id (now : DateTime) (j : SyncJobRow) : (j.claim now).id = j.id := rfl
@[simp] theorem complete_id (now : DateTime) (j : SyncJobRow) : (j.complete now).id = j.id := rfl
@[simp] theorem fail_id (n : Nat) (e : String) (now : DateTime) (j : SyncJobRow) : (j.fail n e now).id = j.id := rfl

theorem hasKey_iff {user : Uuid} {key : String} {j : SyncJobRow} :
    j.hasKey user key = true ↔ j.userId = user ∧ j.idempotencyKey = key := by
  simp [hasKey]

theorem claimable_iff {now : DateTime} {j : SyncJobRow} : j.claimable now = true ↔
    (j.status = .pending ∨ j.status = .failed) ∧ j.availableAt ≤ now ∧ (∀ t ∈ j.leasedUntil, t < now) ∧
      j.attemptCount < 8 := by
  simp [claimable, and_assoc, Option.all_eq_true]

end SyncJobRow

/-- The table, with what its statements read: the clock and the calendars, each with its owner. -/
structure Queue where
  now : DateTime
  calendars : List (Uuid × Uuid)
  jobs : List SyncJobRow
  nextId : Nat

namespace Queue

variable {q q' : Queue} {user : Uuid} {key : String} {j : SyncJobRow}

def job? (id : Uuid) (q : Queue) : Option SyncJobRow := q.jobs.find? fun j => j.id == id

/-- The row of an idempotency key. -/
def withKey? (user : Uuid) (key : String) (q : Queue) : Option SyncJobRow := q.jobs.find? (·.hasKey user key)

/-- The row of a new job under the next id. -/
def queue (user : Uuid) (calendar : Option Uuid) (kind key : String) (available : DateTime) (q : Queue) : SyncJobRow :=
  .queued q.nextId user calendar kind key available q.now

/-- The insertion of a row whose idempotency key is free. -/
def insert (j : SyncJobRow) (q : Queue) : Except SqlError Queue :=
  if j.pendingChange j.userId && q.jobs.any (·.pendingChange j.userId) then .error .unique
  else .ok { q with jobs := q.jobs ++ [j], nextId := q.nextId + 1 }

/-- `ON CONFLICT (user_id, idempotency_key)`, whether it does nothing or sets the key to itself: the
row that has the key, or a new one. -/
def insertOrGet (j : SyncJobRow) (q : Queue) : Except SqlError (SyncJobRow × Queue) :=
  match q.withKey? j.userId j.idempotencyKey with
  | some row => .ok (row, q)
  | none => (q.insert j).map (j, ·)

/-- `enqueue_sync` -/
def enqueueSync (user : Uuid) (calendar : Option Uuid) (kind key : String) (q : Queue) :
    Except AppError (SyncJobRow × Queue) :=
  if trim key = "" ∨ 200 < key.length then
    .error (.validation "idempotency key must contain between 1 and 200 characters")
  else if calendar.all fun c => q.calendars.contains (c, user) then
    (q.insertOrGet (q.queue user calendar kind (trim key) q.now)).mapError .database
  else .error (.notFound "calendar")

/-- The row that the statements with `DO NOTHING` insert: those of the periodic work, of a watch
notification, of a resolved conflict and of a changed event. -/
def enqueueOnce (user : Uuid) (calendar : Option Uuid) (kind key : String) (q : Queue) :
    Except SqlError (SyncJobRow × Queue) :=
  q.insertOrGet (q.queue user calendar kind key q.now)

/-- The job that deletes the event of a deleted task at Google once the deletion cannot be undone. -/
def enqueueExpiry (user calendar receipt : Uuid) (expiresAt : DateTime) (q : Queue) :
    Except SqlError (SyncJobRow × Queue) :=
  let key := "task-delete-expiry:" ++ toString receipt
  if q.jobs.any (·.hasKey user key) then .error .unique
  else
    let job := q.queue user (some calendar) "calendar_sync" key expiresAt
    (q.insert job).map (job, ·)

/-- The upsert of `enqueue_google_tasks_change` and of `finish_google_tasks_batch`: the pending job
of the task edits, or a new one under a fresh key. -/
def enqueueTasksChange (user : Uuid) (key : String) (q : Queue) : Except SqlError (SyncJobRow × Queue) :=
  match q.jobs.find? (·.pendingChange user) with
  | some row => .ok (row, q)
  | none =>
    if q.jobs.any (·.hasKey user ("tasks-change:" ++ key)) then .error .unique
    else
      let job := q.queue user none "tasks_sync" ("tasks-change:" ++ key) q.now
      (q.insert job).map (job, ·)

/-- `UPDATE sync_jobs SET … WHERE id = …` -/
def updateJob (id : Uuid) (f : SyncJobRow → SyncJobRow) (q : Queue) : Queue :=
  { q with jobs := Table.update (·.id == id) f q.jobs }

/-- The cascade of a deleted calendar or user. -/
def deleteJobs (p : SyncJobRow → Bool) (q : Queue) : Queue := { q with jobs := Table.delete p q.jobs }

/-! ## What an insertion leaves -/

/-- A statement that enqueues leaves the table with the row it answers: one that was there, or a
new one, last in the table, under the next id and a free key. -/
structure Enqueued (q : Queue) (j : SyncJobRow) (q' : Queue) : Prop where
  mem : j ∈ q'.jobs
  now : q'.now = q.now
  rows : q' = q ∨ (q'.jobs = q.jobs ++ [j] ∧ q'.nextId = q.nextId + 1 ∧ j.id = q.nextId ∧ j.status = .pending ∧
    j.attemptCount = 0 ∧ ∀ r ∈ q.jobs, r.hasKey j.userId j.idempotencyKey = false)

theorem insert_ok (h : q.insert j = .ok q') :
    q' = { q with jobs := q.jobs ++ [j], nextId := q.nextId + 1 } := by
  unfold insert at h
  split at h
  · cases h
  · cases h; rfl

theorem map_insert_ok {row : SyncJobRow} (h : (q.insert j).map (j, ·) = .ok (row, q')) :
    row = j ∧ q' = { q with jobs := q.jobs ++ [j], nextId := q.nextId + 1 } := by
  cases hi : q.insert j with
  | error e => rw [hi] at h; cases h
  | ok next =>
    rw [hi] at h
    cases h
    exact ⟨rfl, insert_ok hi⟩

/-- An insertion of a queued row whose key is free. -/
theorem enqueued_insert {calendar : Option Uuid} {kind : String} {available : DateTime} {row : SyncJobRow}
    (hfree : ∀ r ∈ q.jobs, r.hasKey user key = false)
    (h : (q.insert (q.queue user calendar kind key available)).map (q.queue user calendar kind key available, ·)
      = .ok (row, q')) : Enqueued q row q' := by
  obtain ⟨rfl, rfl⟩ := map_insert_ok h
  exact ⟨by simp, rfl, .inr ⟨rfl, rfl, rfl, rfl, rfl, hfree⟩⟩

/-- The row of a key is the row that is there, or the new one. -/
theorem insertOrGet_ok {calendar : Option Uuid} {kind : String} {available : DateTime} {row : SyncJobRow}
    (h : q.insertOrGet (q.queue user calendar kind key available) = .ok (row, q')) :
    Enqueued q row q' ∧ row.userId = user ∧ row.idempotencyKey = key := by
  unfold insertOrGet at h
  cases hk : q.withKey? user key with
  | some found =>
    simp only [queue, SyncJobRow.queued, hk] at h
    cases h
    obtain ⟨hu, hkey⟩ := SyncJobRow.hasKey_iff.1 (List.find?_some hk)
    exact ⟨⟨List.mem_of_find?_eq_some hk, rfl, .inl rfl⟩, hu, hkey⟩
  | none =>
    have hfree : ∀ r ∈ q.jobs, r.hasKey user key = false := fun r hr => by simpa using List.find?_eq_none.1 hk r hr
    replace h : (q.insert (q.queue user calendar kind key available)).map (q.queue user calendar kind key available, ·)
        = .ok (row, q') := by
      simpa only [queue, SyncJobRow.queued, hk] using h
    refine ⟨enqueued_insert hfree h, ?_, ?_⟩
    · rw [(map_insert_ok h).1]; rfl
    · rw [(map_insert_ok h).1]; rfl

theorem enqueueSync_ok {calendar : Option Uuid} {kind : String} {row : SyncJobRow}
    (h : q.enqueueSync user calendar kind key = .ok (row, q')) :
    Enqueued q row q' ∧ row.userId = user ∧ row.idempotencyKey = trim key := by
  unfold enqueueSync at h
  split at h
  · cases h
  split at h
  · cases hi : q.insertOrGet (q.queue user calendar kind (trim key) q.now) with
    | error e => rw [hi] at h; cases h
    | ok out =>
      rw [hi] at h
      cases h
      exact insertOrGet_ok hi
  · cases h

theorem enqueueExpiry_ok {calendar receipt : Uuid} {expiresAt : DateTime} {row : SyncJobRow}
    (h : q.enqueueExpiry user calendar receipt expiresAt = .ok (row, q')) : Enqueued q row q' := by
  simp only [enqueueExpiry] at h
  split at h
  · cases h
  · rename_i hany
    exact enqueued_insert (fun r hr => by simpa using List.any_eq_false.1 (by simpa using hany) r hr) h

theorem enqueueTasksChange_ok {row : SyncJobRow} (h : q.enqueueTasksChange user key = .ok (row, q')) :
    Enqueued q row q' := by
  unfold enqueueTasksChange at h
  split at h
  · rename_i found hp
    cases h
    exact ⟨List.mem_of_find?_eq_some hp, rfl, .inl rfl⟩
  · split at h
    · cases h
    · rename_i hany
      exact enqueued_insert (fun r hr => by simpa using List.any_eq_false.1 (by simpa using hany) r hr) h

end Queue

end Prosepect

/-
`SyncService::run_once` by any number of workers, among every statement that enqueues a job and
the cascades that delete one: what a job goes through in any interleaving.

`history`, newest first, records what happened to the jobs; no statement reads it.
-/
import Prosepect.Queue.Jobs

namespace Prosepect

open Time Text

/-! ## Workers -/

/-- Where a worker is in `run_once`. -/
inductive Worker
  | idle
  /-- `claim_sync_job` has begun: `NOW()` stays `start` in it. -/
  | begun (start : DateTime)
  /-- `claim_sync_job` holds the lock of the row it selected. -/
  | selected (job : ClaimedSyncJob) (start : DateTime)
  | claimed (job : ClaimedSyncJob)
  /-- The lock of the user is held, and the status not read yet. -/
  | admitted (job : ClaimedSyncJob)
  | executing (job : ClaimedSyncJob)
deriving DecidableEq, Repr

namespace Worker

/-- The job a worker holds. -/
def job? : Worker → Option ClaimedSyncJob
  | idle | begun _ => none
  | selected job _ | claimed job | admitted job | executing job => some job

/-- Whether the claim of the job is committed. -/
def runs : Worker → Bool
  | claimed _ | admitted _ | executing _ => true
  | _ => false

/-- Whether the job is claimed and not executed. -/
def waits : Worker → Bool
  | claimed _ | admitted _ => true
  | _ => false

/-- The row that is locked. -/
def rowLock? : Worker → Option Uuid
  | selected job _ => some job.id
  | _ => none

/-- The user whose advisory lock is held. -/
def userLock? : Worker → Option Uuid
  | admitted job | executing job => some job.userId
  | _ => none

def holds (w : Worker) (job : Uuid) : Prop := ∃ c, w.job? = some c ∧ c.id = job

end Worker

/-- What happens to jobs: an enqueue request answered with one, and what workers do to it. -/
inductive Occurrence
  | answered (user : Uuid) (key : String) (job : Uuid)
  | claimed (job : Uuid) (time available : DateTime)
  | executed (job : Uuid)
  | succeeded (job : Uuid)
  | failed (job : Uuid)
  | removed (job : Uuid)
deriving DecidableEq, Repr

namespace Occurrence

def job : Occurrence → Uuid
  | answered _ _ j | claimed j _ _ | executed j | succeeded j | failed j | removed j => j

def claims (j : Uuid) : Occurrence → Bool
  | claimed i _ _ => i == j
  | _ => false

def executes (j : Uuid) : Occurrence → Bool
  | executed i => i == j
  | _ => false

def fails (j : Uuid) : Occurrence → Bool
  | failed i => i == j
  | _ => false

def succeeds (j : Uuid) : Occurrence → Bool
  | succeeded i => i == j
  | _ => false

end Occurrence

structure QueueWorld where
  queue : Queue
  workers : Nat → Worker
  history : List Occurrence

namespace QueueWorld

/-- A row whose lock `claim_sync_job` of some worker holds. -/
def Locked (s : QueueWorld) (job : Uuid) : Prop := ∃ w, (s.workers w).rowLock? = some job

def move (w : Nat) (to_ : Worker) (s : QueueWorld) : QueueWorld := { s with workers := Function.update s.workers w to_ }

def record (e : Occurrence) (s : QueueWorld) : QueueWorld := { s with history := e :: s.history }

def withQueue (q : Queue) (s : QueueWorld) : QueueWorld := { s with queue := q }

/-- The jobs a cascade deletes, recorded. -/
def remove (p : SyncJobRow → Bool) (s : QueueWorld) : QueueWorld :=
  { s with
    queue := s.queue.deleteJobs p
    history := ((s.queue.jobs.filter p).map fun j => .removed j.id) ++ s.history }

/-- One step of a worker or of a request. A statement that writes a locked row waits. -/
inductive Step (s : QueueWorld) : QueueWorld → Prop
  | tick (now : DateTime) : s.queue.now ≤ now → Step s (s.withQueue { s.queue with now := now })
  | calendar (calendars : List (Uuid × Uuid)) : Step s (s.withQueue { s.queue with calendars := calendars })
  /-- `DO UPDATE` locks the row that has the key. -/
  | enqueueSync {user calendar kind key row q} :
      s.queue.enqueueSync user calendar kind key = .ok (row, q) → ¬s.Locked row.id →
      Step s ((s.withQueue q).record (.answered user (trim key) row.id))
  | enqueueOnce {user calendar kind key row q} :
      s.queue.enqueueOnce user calendar kind key = .ok (row, q) →
      Step s ((s.withQueue q).record (.answered user key row.id))
  | enqueueExpiry {user calendar receipt expiresAt row q} :
      s.queue.enqueueExpiry user calendar receipt expiresAt = .ok (row, q) → Step s (s.withQueue q)
  | enqueueTasksChange {user key row q} :
      s.queue.enqueueTasksChange user key = .ok (row, q) → ¬s.Locked row.id → Step s (s.withQueue q)
  | remove (p : SyncJobRow → Bool) : (∀ j ∈ s.queue.jobs, p j = true → ¬s.Locked j.id) → Step s (s.remove p)
  | begin (w : Nat) : s.workers w = .idle → Step s (s.move w (.begun s.queue.now))
  /-- `FOR UPDATE SKIP LOCKED`. The order decides which of the jobs is selected, not whether one
  may be, and another session may have locked the first. -/
  | select {w start} {row : SyncJobRow} : s.workers w = .begun start → row ∈ s.queue.jobs →
      row.claimable start = true → ¬s.Locked row.id → Step s (s.move w (.selected row.claimed start))
  /-- No row to select: `run_once` returns. -/
  | none {w start} : s.workers w = .begun start → Step s (s.move w .idle)
  | claim {w start job} {row : SyncJobRow} : s.workers w = .selected job start → s.queue.job? job.id = some row →
      Step s (((s.withQueue (s.queue.updateJob job.id (.claim start))).move w (.claimed job)).record
        (.claimed job.id s.queue.now row.availableAt))
  | enter {w job} : s.workers w = .claimed job → (∀ v, (s.workers v).userLock? ≠ some job.userId) →
      Step s (s.move w (.admitted job))
  | execute {w job} {row : SyncJobRow} : s.workers w = .admitted job → s.queue.job? job.id = some row →
      row.status = .running → Step s ((s.move w (.executing job)).record (.executed job.id))
  /-- The job was deleted, or its status is not `running`. -/
  | giveUp {w job} : s.workers w = .admitted job → (∀ row ∈ s.queue.job? job.id, row.status ≠ .running) →
      Step s (s.move w .idle)
  | complete {w job} : s.workers w = .executing job → ¬s.Locked job.id →
      Step s (((s.withQueue (s.queue.updateJob job.id (.complete s.queue.now))).move w .idle).record (.succeeded job.id))
  | fail {w job} (error : String) : s.workers w = .executing job → ¬s.Locked job.id →
      Step s (((s.withQueue (s.queue.updateJob job.id (.fail (job.attemptCount + 1) error s.queue.now))).move w
        .idle).record (.failed job.id))
  /-- A worker ends wherever it is; its open transactions are rolled back. -/
  | crash (w : Nat) : Step s (s.move w .idle)

/-- No job yet, and every worker idle. -/
def initial (now : DateTime) (calendars : List (Uuid × Uuid)) : QueueWorld := ⟨⟨now, calendars, [], 0⟩, fun _ => .idle, []⟩

inductive Reachable (now : DateTime) (calendars : List (Uuid × Uuid)) : QueueWorld → Prop
  | start : Reachable now calendars (initial now calendars)
  | next {s s' : QueueWorld} : Reachable now calendars s → Step s s' → Reachable now calendars s'

/-! ## Tallies -/

def claims (j : Uuid) (s : QueueWorld) : Nat := s.history.countP (·.claims j)
def executions (j : Uuid) (s : QueueWorld) : Nat := s.history.countP (·.executes j)
def failures (j : Uuid) (s : QueueWorld) : Nat := s.history.countP (·.fails j)
def successes (j : Uuid) (s : QueueWorld) : Nat := s.history.countP (·.succeeds j)

end QueueWorld

end Prosepect

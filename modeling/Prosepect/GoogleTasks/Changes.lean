/-
`0022_google_tasks.sql`: the trigger with which a change of a task asks for a synchronization of
Google Tasks, beside the workers that claim the jobs. All changes of a user share one pending job;
a transaction that finds it locks it until it ends, and a worker skips what is locked.

A statement that meets a lock waits, so it has no step while the lock is held.
-/
import Prosepect.GoogleTasks.Links
import Prosepect.Queue.Workers

namespace Prosepect

open Time Resumption

namespace GoogleTasks

/-- The columns the trigger compares. -/
def sharedColumns (t : Task) : String × Option DateTime × Bool := (t.title, t.dueAt, decide (t.status = .completed))

/-- Whether the trigger goes on: always for an insertion and a deletion. -/
def sharedChange : (old new : Option Task) → Bool
  | some old, some new => decide (sharedColumns old ≠ sharedColumns new)
  | none, none => false
  | some _, none | none, some _ => true

/-- An open transaction of a user: one that writes tasks, or that ends a batch of a synchronization. -/
structure ChangeTx where
  user : Uuid
  /-- It has changed a shared column with the integration enabled. -/
  changed : Bool
  /-- The connection has its new revision, the job is still to be asked for. -/
  upserting : Bool
  /-- It holds the lock of the connection, until it ends. -/
  connection : Bool
  bumps : Nat
  /-- The job it has found and locked. -/
  lockedJob : Option Uuid
  /-- The job it has inserted, which others do not see. -/
  inserted : Option SyncJobRow
deriving DecidableEq, Repr

def ChangeTx.start (user : Uuid) : ChangeTx := ⟨user, false, false, false, 0, none, none⟩

inductive ChangeEvent
  /-- A transaction that changed shared columns is committed. -/
  | committed (user : Uuid)
  /-- A claim is committed; what its worker reads, it reads later. -/
  | claimed (job user : Uuid) (kind : String)
deriving DecidableEq, Repr

structure ChangeWorld where
  queue : Queue
  enabled : Uuid → Bool
  revision : Uuid → Nat
  open_ : List ChangeTx
  workers : Nat → Worker
  /-- Newest first; no statement reads it. -/
  log : List ChangeEvent

namespace ChangeWorld

def WorkerLocks (s : ChangeWorld) (job : Uuid) : Prop := ∃ w, (s.workers w).rowLock? = some job

/-- No other transaction of the user holds the connection. -/
def ConnectionFree (user : Uuid) (others : List ChangeTx) : Prop := ∀ o ∈ others, o.connection = true → o.user ≠ user

def move (w : Nat) (to_ : Worker) (s : ChangeWorld) : ChangeWorld := { s with workers := Function.update s.workers w to_ }

def withJobs (f : Queue → Queue) (s : ChangeWorld) : ChangeWorld := { s with queue := f s.queue }

/-- A transaction that goes on. -/
def goOn (a b : List ChangeTx) (t : ChangeTx) (s : ChangeWorld) : ChangeWorld := { s with open_ := a ++ t :: b }

/-- What a commit leaves. -/
def commit (a b : List ChangeTx) (t : ChangeTx) (s : ChangeWorld) : ChangeWorld :=
  { s with
    queue := { s.queue with jobs := s.queue.jobs ++ t.inserted.toList }
    revision := Function.update s.revision t.user (s.revision t.user + t.bumps)
    open_ := a ++ b
    log := if t.changed then .committed t.user :: s.log else s.log }

inductive Step (s : ChangeWorld) : ChangeWorld → Prop
  | tick (now : DateTime) : s.queue.now ≤ now → Step s { s with queue := { s.queue with now := now } }
  /-- Any other statement that inserts a job. One that would have the place of the pending job waits
  for the transaction that has inserted that. -/
  | enqueue {user calendar kind key available q} :
      (s.queue.insert (s.queue.queue user calendar kind key available)) = .ok q →
      (∀ o ∈ s.open_, ∀ r ∈ o.inserted, (s.queue.queue user calendar kind key available).pendingChange r.userId = false) →
      Step s { s with queue := q }
  | connect {user} (on : Bool) : ConnectionFree user s.open_ →
      Step s { s with enabled := Function.update s.enabled user on }
  | start (user : Uuid) : Step s { s with open_ := .start user :: s.open_ }
  /-- The trigger finds nothing to do, or no connection that is enabled. -/
  | pass {a b t} (old new : Option Task) : s.open_ = a ++ t :: b → t.upserting = false →
      sharedChange old new = false ∨ s.enabled t.user = false → Step s s
  | change {a b t} (old new : Option Task) : s.open_ = a ++ t :: b → t.upserting = false → sharedChange old new = true →
      s.enabled t.user = true → ConnectionFree t.user (a ++ b) →
      Step s (s.goOn a b { t with changed := true, upserting := true, connection := true, bumps := t.bumps + 1 })
  /-- `finish_google_tasks_batch` locks the connection, and asks for a job if there is more to do. -/
  | finish {a b t} (followUp : Bool) : s.open_ = a ++ t :: b → t.upserting = false → ConnectionFree t.user (a ++ b) →
      Step s (s.goOn a b { t with connection := true, upserting := followUp })
  /-- `ON CONFLICT … DO UPDATE` with a job that others see. -/
  | lockJob {a b t} {row : SyncJobRow} : s.open_ = a ++ t :: b → t.upserting = true → row ∈ s.queue.jobs →
      row.pendingChange t.user = true → ¬s.WorkerLocks row.id → (∀ o ∈ a ++ b, o.lockedJob ≠ some row.id) →
      Step s (s.goOn a b { t with upserting := false, lockedJob := some row.id })
  /-- The same with the job it has inserted itself. -/
  | keepJob {a b t} : s.open_ = a ++ t :: b → t.upserting = true → t.inserted.isSome = true →
      Step s (s.goOn a b { t with upserting := false })
  /-- There is no pending job; one that another transaction has inserted would be waited for. -/
  | insertJob {a b t} (key : String) : s.open_ = a ++ t :: b → t.upserting = true → t.inserted = none →
      (∀ row ∈ s.queue.jobs, row.pendingChange t.user = false) → (∀ o ∈ a ++ b, ∀ r ∈ o.inserted, r.userId ≠ t.user) →
      Step s { s.goOn a b { t with
          upserting := false
          inserted := some (s.queue.queue t.user none "tasks_sync" ("tasks-change:" ++ key) s.queue.now) } with
        queue := { s.queue with nextId := s.queue.nextId + 1 } }
  | commit {a b t} : s.open_ = a ++ t :: b → t.upserting = false → Step s (s.commit a b t)
  | rollback {a b t} : s.open_ = a ++ t :: b → Step s { s with open_ := a ++ b }
  | begin (w : Nat) : s.workers w = .idle → Step s (s.move w (.begun s.queue.now))
  /-- `FOR UPDATE SKIP LOCKED`. -/
  | select {w start} {row : SyncJobRow} : s.workers w = .begun start → row ∈ s.queue.jobs → row.claimable start = true →
      ¬s.WorkerLocks row.id → (∀ o ∈ s.open_, o.lockedJob ≠ some row.id) → Step s (s.move w (.selected row.claimed start))
  | none {w start} : s.workers w = .begun start → Step s (s.move w .idle)
  | claim {w start job} : s.workers w = .selected job start →
      Step s { (s.withJobs (·.updateJob job.id (.claim start))).move w (.claimed job) with
        log := .claimed job.id job.userId job.kind :: s.log }
  | complete {w job} : s.workers w = .claimed job →
      Step s ((s.withJobs (·.updateJob job.id (.complete s.queue.now))).move w .idle)
  | fail {w job} (error : String) : s.workers w = .claimed job →
      Step s ((s.withJobs (·.updateJob job.id (.fail (job.attemptCount + 1) error s.queue.now))).move w .idle)
  | crash (w : Nat) : Step s (s.move w .idle)

def initial (now : DateTime) : ChangeWorld := ⟨⟨now, [], [], 0⟩, fun _ => false, fun _ => 0, [], fun _ => .idle, []⟩

end ChangeWorld

end GoogleTasks

end Prosepect

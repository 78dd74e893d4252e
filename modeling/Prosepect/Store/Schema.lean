/-
The tables of one user. Every query of the code is bound to a user id, so a store is modelled as
the rows of one user, without that column; `now` is the clock of the database and `nextId` the
supply of fresh ids.

The primitives below are what statements do to these tables, foreign keys included: a deleted
mapping takes its conflicts along, a deleted event its references, a deleted task its event.
-/
import Prosepect.Data.Table
import Prosepect.Calendar.Event
import Prosepect.Resumption.Transaction

namespace Prosepect

open Time Resumption

/-! ## Errors -/

/-- `sqlx::Error`, as far as the code can tell. -/
inductive SqlError
  | check (constraint : String)
  | foreignKey
  | unique
  | rowNotFound
  | decode
  | connection
deriving DecidableEq, Repr

inductive AppError
  | validation (message : String)
  | invalidRequest (status : Nat) (message : String)
  | unauthorized
  | forbidden (message : String)
  | notFound (what : String)
  | conflict (message : String)
  | notConfigured (what : String)
  | integration (message : String)
  | database (error : SqlError)
  /-- No error of the code: the request ends, and its transaction with it. -/
  | panicked
deriving DecidableEq, Repr

/-! ## Rows -/

inductive CalendarSource
  | native | google
deriving DecidableEq, Repr

inductive AccessRole
  | freeBusyReader | reader | writer | owner
deriving DecidableEq, Repr

/-- `matches!(access_role, "writer" | "owner")`. -/
def AccessRole.writes : AccessRole → Bool
  | .writer | .owner => true
  | .freeBusyReader | .reader => false

/-- `user_settings.sync_conflict_policy`. -/
inductive SyncConflictPolicy
  | ask | latest | google | prosepect
deriving DecidableEq, Repr

/-- `sync_conflicts.resolution` and `external_event_mappings.pending_resolution`. -/
inductive Resolution
  | google | prosepect | latest
deriving DecidableEq, Repr

/-- A resolution is put in the place of the policy, as text. -/
def Resolution.policy : Resolution → SyncConflictPolicy
  | .google => .google
  | .prosepect => .prosepect
  | .latest => .latest

inductive ConflictState
  | none | unresolved
deriving DecidableEq, Repr

inductive ConflictStatus
  | unresolved | resolved
deriving DecidableEq, Repr

/-- Why the last pull of a calendar failed. -/
inductive SyncError
  | database (error : SqlError)
  | transport
  | status (code : Nat) (context : String)
  | decode (context : String)
  | integration (message : String)
  /-- More pages than the bound of the model on one pull. -/
  | unfinished
deriving DecidableEq, Repr

structure Calendar where
  id : Uuid
  source : CalendarSource
  externalId : Option String
  selected : Bool
  isDefault : Bool
  providerPrimary : Bool
  accessRole : AccessRole
  syncToken : Option String
  lastSyncedAt : Option DateTime
  lastSyncError : Option SyncError
deriving DecidableEq, Repr

structure CalendarEvent extends LocalEvent where
  calendarId : Uuid
  linkedTaskId : Option Uuid
  createdAt : DateTime
  updatedAt : DateTime
  version : Int
deriving DecidableEq, Repr

/-- A row of `external_event_mappings`. -/
structure Mapping where
  id : Uuid
  calendarId : Uuid
  canonicalEventId : Option Uuid
  externalCalendarId : String
  externalEventId : String
  externalEtag : Option String
  baseFingerprint : Option Fingerprint
  localDirty : Bool
  localDeleted : Bool
  conflictState : ConflictState
  pendingResolution : Option Resolution
  lastSyncedAt : Option DateTime
  deletionHoldUntil : Option DateTime
  reversibleTombstone : Bool
  deleteResolutionPending : Bool
deriving DecidableEq, Repr

structure SyncConflict where
  id : Uuid
  mappingId : Uuid
  canonicalEventId : Option Uuid
  title : String
  status : ConflictStatus
  resolution : Option Resolution
  createdAt : DateTime
  resolvedAt : Option DateTime
deriving DecidableEq, Repr

structure SyncJob where
  id : Uuid
  calendarId : Option Uuid
  kind : String
  idempotencyKey : String
  availableAt : DateTime
deriving DecidableEq, Repr

/-- A row of `task_delete_undos`; of the snapshot, the id of the mapping in it. -/
structure TaskDeleteUndo where
  id : Uuid
  taskId : Uuid
  taskTitle : String
  mappingId : Option Uuid
  expiresAt : DateTime
deriving DecidableEq, Repr

structure ActivityEntry where
  id : Uuid
  kind : String
  message : String
  createdAt : DateTime
deriving DecidableEq, Repr

inductive TaskStatus
  | todo | inProgress | blocked | completed
deriving DecidableEq, Repr

inductive TaskPriority
  | low | medium | high | urgent
deriving DecidableEq, Repr

inductive TaskRecurrence
  | none | daily | weekly | monthly | yearly
deriving DecidableEq, Repr

structure Task where
  id : Uuid
  projectId : Option Uuid
  parentTaskId : Option Uuid
  title : String
  description : String
  dueAt : Option DateTime
  scheduledStart : Option DateTime
  scheduledEnd : Option DateTime
  status : TaskStatus
  priority : TaskPriority
  recurrence : TaskRecurrence
  labels : List String
  remindAt : Option DateTime
  position : Int
  completedAt : Option DateTime
  createdAt : DateTime
  updatedAt : DateTime
  version : Int
deriving DecidableEq, Repr

/-- Values for the successor of a task that has a one-occurrence exception. -/
structure RecurrenceDefaults where
  title : String
  description : String
  dueAt : DateTime
  scheduledStart : Option DateTime
  scheduledEnd : Option DateTime
  priority : TaskPriority
  recurrence : TaskRecurrence
  labels : List String
  remindAt : Option DateTime
deriving DecidableEq, Repr

/-- A row of `tasks`, with the columns a `Task` does not carry. -/
structure TaskRow extends Task where
  recurrenceSourceId : Option Uuid
  recurrenceDefaults : Option RecurrenceDefaults
  recurrenceProjectId : Option Uuid
deriving DecidableEq, Repr

/-- The task columns a calendar event writes. -/
def Task.reschedule (start end_ : Option DateTime) (now : DateTime) (t : TaskRow) : TaskRow :=
  { t with scheduledStart := start, scheduledEnd := end_, updatedAt := now, version := t.version + 1 }

/-! ## The store -/

structure Db where
  now : DateTime
  nextId : Uuid
  /-- The row of `user_settings`. -/
  policy : Option SyncConflictPolicy
  /-- `users.timezone`. -/
  timezone : String
  calendars : List Calendar
  events : List CalendarEvent
  mappings : List Mapping
  conflicts : List SyncConflict
  jobs : List SyncJob
  undos : List TaskDeleteUndo
  tasks : List TaskRow
  /-- The ids of `projects`. -/
  projects : List Uuid
  labels : List String
  activity : List ActivityEntry
deriving DecidableEq, Repr

namespace Db

/-! ## Reading -/

def calendar? (db : Db) (id : Uuid) : Option Calendar := db.calendars.find? fun c => some c.id == some id
def event? (db : Db) (id : Uuid) : Option CalendarEvent := db.events.find? fun e => some e.id == some id
def mapping? (db : Db) (id : Uuid) : Option Mapping := db.mappings.find? fun m => some m.id == some id
def conflict? (db : Db) (id : Uuid) : Option SyncConflict := db.conflicts.find? fun c => some c.id == some id
def task? (db : Db) (id : Uuid) : Option TaskRow := db.tasks.find? fun t => some t.id == some id

/-- The mapping of a canonical event. -/
def mappingOf? (db : Db) (event : Uuid) : Option Mapping :=
  db.mappings.find? fun m => m.canonicalEventId == some event

/-- The mapping of a remote event. -/
def mappingAt? (db : Db) (externalCalendar externalEvent : String) : Option Mapping :=
  db.mappings.find? fun m => some (m.externalCalendarId, m.externalEventId) == some (externalCalendar, externalEvent)

/-- The event of a task. -/
def taskEvent? (db : Db) (task : Uuid) : Option CalendarEvent :=
  db.events.find? fun e => e.linkedTaskId == some task

/-! ## Writing -/

/-- Draw a fresh id. -/
def fresh (db : Db) : Db := { db with nextId := db.nextId + 1 }

def updateMappings (p : Mapping → Bool) (f : Mapping → Mapping) (db : Db) : Db :=
  { db with mappings := Table.update p f db.mappings }

def updateMapping (id : Uuid) : (Mapping → Mapping) → Db → Db := updateMappings (·.id == id)

/-- Deleted mappings take their conflicts along. -/
def deleteMappings (p : Mapping → Bool) (db : Db) : Db :=
  { db with
    mappings := Table.delete p db.mappings
    conflicts := Table.delete (fun c => Table.has (fun m => p m && m.id == c.mappingId) db.mappings) db.conflicts }

def insertMapping (m : Mapping) (db : Db) : Db := { db with mappings := db.mappings ++ [m] }

def updateEvents (p : CalendarEvent → Bool) (f : CalendarEvent → CalendarEvent) (db : Db) : Db :=
  { db with events := Table.update p f db.events }

def updateEvent (id : Uuid) : (CalendarEvent → CalendarEvent) → Db → Db := updateEvents (·.id == id)

/-- The reference `r` points to an event that `p` accepts. -/
def refersTo (p : CalendarEvent → Bool) (db : Db) (r : Option Uuid) : Bool :=
  Table.has (fun e => p e && some e.id == r) db.events

/-- Deleted events leave NULL where they were referred to. -/
def deleteEvents (p : CalendarEvent → Bool) (db : Db) : Db :=
  { db with
    events := Table.delete p db.events
    mappings := Table.update (fun m => db.refersTo p m.canonicalEventId)
      (fun m => { m with canonicalEventId := none }) db.mappings
    conflicts := Table.update (fun c => db.refersTo p c.canonicalEventId)
      (fun c => { c with canonicalEventId := none }) db.conflicts }

def deleteEvent (id : Uuid) : Db → Db := deleteEvents (·.id == id)

def insertEvent (e : CalendarEvent) (db : Db) : Db := { db with events := db.events ++ [e] }

def updateConflicts (p : SyncConflict → Bool) (f : SyncConflict → SyncConflict) (db : Db) : Db :=
  { db with conflicts := Table.update p f db.conflicts }

def insertConflict (c : SyncConflict) (db : Db) : Db := { db with conflicts := db.conflicts ++ [c] }

def updateCalendar (id : Uuid) (f : Calendar → Calendar) (db : Db) : Db :=
  { db with calendars := Table.update (·.id == id) f db.calendars }

def updateTask (id : Uuid) (f : TaskRow → TaskRow) (db : Db) : Db :=
  { db with tasks := Table.update (·.id == id) f db.tasks }

def insertTask (t : TaskRow) (db : Db) : Db := { db with tasks := db.tasks ++ [t] }

/-- A deleted task takes its event along, and is no longer the source of its successor. -/
def deleteTask (id : Uuid) (db : Db) : Db :=
  { (db.deleteEvents (·.linkedTaskId == some id)) with
    tasks := Table.update (·.recurrenceSourceId == some id) (fun t => { t with recurrenceSourceId := none })
      (Table.delete (·.id == id) db.tasks) }

def deleteUndos (p : TaskDeleteUndo → Bool) (db : Db) : Db := { db with undos := Table.delete p db.undos }

def insertActivity (kind message : String) (db : Db) : Db :=
  { db.fresh with activity := db.activity ++ [⟨db.nextId, kind, message, db.now⟩] }

/-- Insert a job unless one has its key. -/
def enqueue (calendar : Option Uuid) (kind key : String) (db : Db) : Db :=
  if Table.has (·.idempotencyKey == key) db.jobs then db.fresh
  else { db.fresh with jobs := db.jobs ++ [⟨db.nextId, calendar, kind, key, db.now⟩] }

/-! ## CHECK -/

/-- The CHECK constraints of `calendar_events`. -/
def checkEvent (e : LocalEvent) : Except SqlError Unit := do
  unless 1 ≤ (Text.sqlTrim e.title).length ∧ (Text.sqlTrim e.title).length ≤ 240 do
    throw (.check "calendar_events_title_check")
  unless e.description.length ≤ 10000 do throw (.check "calendar_events_description_check")
  unless 1 ≤ e.timezone.length ∧ e.timezone.length ≤ 64 do throw (.check "calendar_events_timezone_check")
  unless e.location.length ≤ 500 do throw (.check "calendar_events_location_check")
  unless e.endsAt > e.startsAt do throw (.check "calendar_events_check")
  unless e.recurrence ≠ .none ∨ e.recurrenceUntil = none do throw (.check "calendar_events_check1")

end Db

end Prosepect

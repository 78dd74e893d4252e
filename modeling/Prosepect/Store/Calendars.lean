/-
`calendar_store.rs`: creating, changing and deleting events, what that leaves on their mappings,
and the events that stand for scheduled tasks. None of these takes the lock of a synchronization.

`toLowercase` is `str::to_lowercase`.
-/
import Prosepect.Store.Schema

namespace Prosepect

open Text Time Resumption

/-- Code of one transaction of the store. -/
abbrev StoreTx (α : Type) := Tx Db AppError α

structure CreateCalendarEventRequest where
  calendarId : Uuid
  title : String
  description : String
  startsAt : DateTime
  endsAt : DateTime
  allDay : Bool
  timezone : String
  location : String
  attendees : List String
  recurrence : EventRecurrence
  recurrenceUntil : Option DateTime
deriving DecidableEq, Repr

structure UpdateCalendarEventRequest extends CreateCalendarEventRequest where
  expectedVersion : Int
deriving DecidableEq, Repr

namespace Store

/-! ## Validation -/

def validateEventRequest (r : CreateCalendarEventRequest) : Except AppError Unit := do
  if (trim r.title).length = 0 ∨ (trim r.title).length > 240 then
    throw (.validation "event title must contain between 1 and 240 characters")
  if r.description.length > 10000 ∨ r.location.length > 500 then
    throw (.validation "event description or location is too long")
  if r.endsAt ≤ r.startsAt then throw (.validation "event end must be after its start")
  if (trim r.timezone).length = 0 ∨ r.timezone.length > 64 then throw (.validation "event timezone is invalid")
  if r.attendees.length > 100 then throw (.validation "an event cannot have more than 100 attendees")
  match r.recurrence, r.recurrenceUntil with
  | .none, some _ => throw (.validation "recurrence_until requires a recurring event")
  | _, some until_ =>
    if until_ ≤ r.startsAt then throw (.validation "recurrence_until must be after the event start")
  | _, none => return ()

def normalizeAttendees (toLowercase : String → String) : (seen : List String) → List String →
    Except AppError (List String)
  | seen, [] => .ok seen
  | seen, attendee :: rest =>
    let attendee := toLowercase (trim attendee)
    if attendee.length = 0 then normalizeAttendees toLowercase seen rest
    else if attendee.utf8ByteSize > 254 ∨ '@' ∉ attendee.toList then
      .error (.validation "event attendees must be valid email addresses")
    else if attendee ∈ seen then normalizeAttendees toLowercase seen rest
    else normalizeAttendees toLowercase (seen ++ [attendee]) rest

/-! ## Mappings -/

/-- The text of a `Uuid`, with its hyphens. -/
def uuidText (id : Uuid) : String :=
  let digits := (googleEventId id).toList
  let part := fun (start len : Nat) => (digits.drop start).take len
  String.ofList (part 0 8 ++ '-' :: part 8 4 ++ '-' :: part 12 4 ++ '-' :: part 16 4 ++ '-' :: part 20 12)

/-- Flag the mapping of an event of a Google calendar for the next push. -/
def markEventForSync (event : CalendarEvent) (deleted : Bool) (db : Db) : Db :=
  if (db.calendar? event.calendarId).map (·.source) = some .google then
    let key := "calendar-event:" ++ uuidText event.id ++ ":" ++ toString event.version ++ ":" ++
      (if deleted then "deleted" else "changed")
    (db.updateMappings (·.canonicalEventId == some event.id) fun m =>
      { m with
        localDirty := !deleted
        localDeleted := deleted
        canonicalEventId := if deleted then none else m.canonicalEventId }).enqueue
      (some event.calendarId) "calendar_sync" key
  else db

def detachEventMapping (event : CalendarEvent) (db : Db) : Db :=
  db.updateMappings (fun m => m.calendarId == event.calendarId && m.canonicalEventId == some event.id)
    fun m => { m with canonicalEventId := none }

/-! ## Events -/

def raiseSql {α : Type} (e : SqlError) : StoreTx α := Tx.raise (.database e)

def check (x : Except SqlError Unit) : StoreTx Unit := Tx.ofExcept (x.mapError .database)

def ensureCalendarWritable (calendar : Uuid) : StoreTx Unit := do
  match (← Tx.read).calendar? calendar with
  | none => Tx.raise (.notFound "calendar")
  | some c =>
    if c.source = .google ∧ c.accessRole.writes = false then Tx.raise (.forbidden "calendar is read-only")
    else return ()

def eventError {α : Type} (event : Uuid) (expectedVersion : Int) : StoreTx α := do
  match (← Tx.read).event? event with
  | some e => Tx.raise (.conflict ("calendar event changed since version " ++ toString expectedVersion ++
      "; current version is " ++ toString e.version))
  | none => Tx.raise (.notFound "calendar event")

/-- The columns of an event a request sets. -/
def requestedContent (id : Uuid) (r : CreateCalendarEventRequest) (attendees : List String) : LocalEvent where
  id := id
  title := trim r.title
  description := trim r.description
  startsAt := r.startsAt
  endsAt := r.endsAt
  allDay := r.allDay
  timezone := trim r.timezone
  location := trim r.location
  attendees := attendees
  recurrence := r.recurrence
  recurrenceUntil := r.recurrenceUntil

def createCalendarEvent (toLowercase : String → String) (r : CreateCalendarEventRequest) : StoreTx CalendarEvent := do
  Tx.ofExcept (validateEventRequest r)
  ensureCalendarWritable r.calendarId
  let attendees ← Tx.ofExcept (normalizeAttendees toLowercase [] r.attendees)
  let db ← Tx.read
  let event : CalendarEvent :=
    { toLocalEvent := requestedContent db.nextId r attendees, calendarId := r.calendarId, linkedTaskId := none,
      createdAt := db.now, updatedAt := db.now, version := 1 }
  check (Db.checkEvent event.toLocalEvent)
  Tx.write fun db => markEventForSync event false (db.fresh.insertEvent event)
  return event

def updateCalendarEvent (toLowercase : String → String) (id : Uuid) (r : UpdateCalendarEventRequest) :
    StoreTx CalendarEvent := do
  Tx.ofExcept (validateEventRequest r.toCreateCalendarEventRequest)
  ensureCalendarWritable r.calendarId
  let db ← Tx.read
  match db.event? id with
  | none =>
    let _ ← Tx.ofExcept (normalizeAttendees toLowercase [] r.attendees)
    eventError id r.expectedVersion
  | some previous =>
    ensureCalendarWritable previous.calendarId
    let attendees ← Tx.ofExcept (normalizeAttendees toLowercase [] r.attendees)
    if previous.version ≠ r.expectedVersion then eventError id r.expectedVersion
    else
      let event : CalendarEvent :=
        { previous with
          toLocalEvent := requestedContent id r.toCreateCalendarEventRequest attendees
          calendarId := r.calendarId, updatedAt := db.now, version := previous.version + 1 }
      check (Db.checkEvent event.toLocalEvent)
      Tx.write fun db =>
        let db := db.updateEvent id fun _ => event
        let db := match event.linkedTaskId with
          | some task => db.updateTask task (Task.reschedule (some event.startsAt) (some event.endsAt) db.now)
          | none => db
        let db := if previous.calendarId ≠ event.calendarId
          then detachEventMapping previous (markEventForSync previous true db) else db
        markEventForSync event false db
      return event

def deleteCalendarEvent (id : Uuid) (expectedVersion : Int) : StoreTx Unit := do
  match (← Tx.read).event? id with
  | none => eventError id expectedVersion
  | some existing =>
    if existing.version ≠ expectedVersion then eventError id expectedVersion
    else
      ensureCalendarWritable existing.calendarId
      Tx.write fun db =>
        let db := (markEventForSync existing true db).deleteEvent id
        match existing.linkedTaskId with
        | some task => db.updateTask task (Task.reschedule none none db.now)
        | none => db

/-! ## Events of scheduled tasks -/

def ensureDefaultCalendar (db : Db) : Uuid × Db :=
  match db.calendars.find? (·.isDefault) with
  | some c => (c.id, db)
  | none =>
    (db.nextId, { db.fresh with calendars := db.calendars ++ [
      { id := db.nextId, source := .native, externalId := none, selected := true, isDefault := true,
        providerPrimary := false, accessRole := .reader, syncToken := none, lastSyncedAt := none,
        lastSyncError := none }] })

def preferredGoogleCalendar (db : Db) : Option Uuid :=
  ((db.calendars.filter fun c => c.source == .google && c.selected && c.providerPrimary && c.accessRole.writes).map
    (·.id)).min?

def preferredTimeBlockCalendar (db : Db) : Uuid × Db :=
  match preferredGoogleCalendar db with
  | some id => (id, db)
  | none => ensureDefaultCalendar db

def removeTaskCalendarEvent (task : Uuid) (db : Db) : Db :=
  match db.taskEvent? task with
  | some event => (markEventForSync event true db).deleteEvent event.id
  | none => db

/-- `INSERT … ON CONFLICT (linked_task_id) DO UPDATE`: the new row, and the tables with it. -/
def upsertTaskEvent (task : Task) (calendar : Uuid) (startsAt endsAt : DateTime) (db : Db) : CalendarEvent × Db :=
  match db.taskEvent? task.id with
  | some e =>
    let event := { e with
      calendarId := calendar, title := task.title, description := task.description, startsAt := startsAt,
      endsAt := endsAt, timezone := db.timezone, updatedAt := db.now, version := e.version + 1 }
    (event, db.fresh.updateEvent e.id fun _ => event)
  | none =>
    let event : CalendarEvent :=
      { id := db.nextId, title := task.title, description := task.description, startsAt := startsAt,
        endsAt := endsAt, allDay := false, timezone := db.timezone, location := "", attendees := [],
        recurrence := .none, recurrenceUntil := none, calendarId := calendar, linkedTaskId := some task.id,
        createdAt := db.now, updatedAt := db.now, version := 1 }
    (event, db.fresh.insertEvent event)

def syncTaskCalendarEvent (task : Task) : StoreTx Unit := do
  match task.scheduledStart, task.scheduledEnd with
  | some startsAt, some endsAt =>
    let existing := (← Tx.read).taskEvent? task.id
    let calendar := (preferredTimeBlockCalendar (← Tx.read)).1
    Tx.write fun db => (preferredTimeBlockCalendar db).2
    match existing with
    | some existing =>
      if existing.calendarId ≠ calendar then
        Tx.write fun db => detachEventMapping existing (markEventForSync existing true db)
      else pure ()
    | none => pure ()
    let event := (upsertTaskEvent task calendar startsAt endsAt (← Tx.read)).1
    check (Db.checkEvent event.toLocalEvent)
    Tx.write fun db => markEventForSync event false (upsertTaskEvent task calendar startsAt endsAt db).2
  | _, _ => Tx.write (removeTaskCalendarEvent task.id)

/-! ## Settings -/

/-- `update_user_settings`, for the one column the synchronization reads. -/
def setSyncConflictPolicy (policy : SyncConflictPolicy) : StoreTx Unit := do
  match (← Tx.read).policy with
  | some _ => Tx.write fun db => { db with policy := some policy }
  | none => Tx.raise (.notFound "settings")

end Store

end Prosepect

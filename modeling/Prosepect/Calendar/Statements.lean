/-
The atomic steps of a synchronization: the statements it sends to the database, each its own
transaction unless said otherwise, and the requests it sends to Google. `Stmt.exec` is what a
statement does to the tables; what Google answers is left to the systems a run is placed in.
-/
import Mathlib.Data.List.Sort
import Prosepect.Resumption.Basic
import Prosepect.Store.Schema

namespace Prosepect

open Text Time Resumption

/-! ## Rows as the synchronization reads them -/

structure SyncCalendar where
  id : Uuid
  externalId : String
  syncToken : Option String
deriving DecidableEq, Repr

structure MappingState where
  id : Uuid
  canonicalEventId : Option Uuid
  externalEtag : Option String
  localDirty : Bool
  localDeleted : Bool
  pendingResolution : Option Resolution
  reversibleTombstone : Bool
  localUpdatedAt : Option DateTime
deriving DecidableEq, Repr

/-- A mapping to push, joined with its event. -/
structure DirtyMapping where
  mappingId : Uuid
  externalEventId : String
  externalEtag : Option String
  localDeleted : Bool
  event : Option LocalEvent
deriving DecidableEq, Repr

/-! ## Statements -/

inductive Stmt
  | selectCalendars (only : Option Uuid)
  | selectMapping (externalCalendar externalEvent : String)
  /-- One transaction: the undo receipts of a mapping, then the mapping. -/
  | dropTombstone (mapping : Uuid)
  | deleteUndos (mapping : Uuid)
  | selectPolicy
  | insertConflict (mapping : Uuid) (canonicalEvent : Option Uuid) (title : String)
  | setUnresolved (mapping : Uuid)
  | deleteMapping (mapping : Uuid)
  /-- `delete_canonical_event`, one transaction with the task the event is linked to. -/
  | deleteCanonicalEvent (event : Uuid)
  | clearPendingResolution (mapping : Uuid)
  /-- `update_canonical_event`, one transaction with the task the event is linked to. -/
  | updateCanonicalEvent (event calendar : Uuid) (content : NormalizedEvent)
  /-- `insert_canonical_event` under a fresh id. -/
  | insertCanonicalEvent (calendar : Uuid) (content : NormalizedEvent)
  | linkMapping (mapping event : Uuid)
  | updateMappingBaseline (mapping : Uuid) (etag : Option String) (fingerprint : Fingerprint)
  | insertMapping (calendar event : Uuid) (externalCalendar externalEvent : String) (etag : Option String)
      (fingerprint : Fingerprint)
  | existsUnresolved (calendar : Uuid)
  | setSyncToken (calendar : Uuid) (token : String)
  | setSyncError (calendar : Uuid) (error : SyncError)
  | setSynced (calendar : Uuid)
  | selectUnmapped (calendar : Uuid)
  | selectDirty (calendar : Uuid)
  | recordPushed (mapping : Uuid) (etag : Option String) (fingerprint : Fingerprint)
  | selectResolutionPending (calendar : Uuid)
  | deletePendingMapping (mapping : Uuid)
  | recordActivity (kind message : String)
deriving DecidableEq, Repr

/-- What a statement returns. -/
@[reducible] def Stmt.Val : Stmt → Type
  | .selectCalendars _ => List SyncCalendar
  | .selectMapping .. => Option MappingState
  | .selectPolicy => Option SyncConflictPolicy
  | .insertCanonicalEvent .. => Uuid
  | .existsUnresolved _ => Bool
  | .selectUnmapped _ => List LocalEvent
  | .selectDirty _ => List DirtyMapping
  | .selectResolutionPending _ => List (Uuid × String)
  | _ => Unit

namespace Db

def syncCalendar (c : Calendar) : Except SqlError SyncCalendar :=
  match c.externalId with
  | some externalId => .ok ⟨c.id, externalId, c.syncToken⟩
  | none => .error .decode

def selectCalendars (only : Option Uuid) (db : Db) : Except SqlError (List SyncCalendar) :=
  (db.calendars.filter fun c => c.source == .google && c.selected && (only.isNone || only == some c.id)).mapM
    syncCalendar

def mappingState (db : Db) (m : Mapping) : MappingState where
  id := m.id
  canonicalEventId := m.canonicalEventId
  externalEtag := m.externalEtag
  localDirty := m.localDirty
  localDeleted := m.localDeleted
  pendingResolution := m.pendingResolution
  reversibleTombstone := m.reversibleTombstone
  localUpdatedAt := (m.canonicalEventId.bind db.event?).map (·.updatedAt)

/-- The content columns of an event, from a remote one. -/
def applyContent (calendar : Uuid) (content : NormalizedEvent) (now : DateTime) (e : CalendarEvent) : CalendarEvent :=
  { e with toLocalEvent := content.toLocal e.id, calendarId := calendar, updatedAt := now, version := e.version + 1 }

def deleteCanonicalEvent (event : Uuid) (db : Db) : Db :=
  match (db.event? event).bind (·.linkedTaskId) with
  | some task => (db.deleteEvent event).updateTask task (Task.reschedule none none db.now)
  | none => db.deleteEvent event

/-- The constraints of `tasks` follow from those of the event, whose columns they repeat. -/
def updateCanonicalEvent (event calendar : Uuid) (content : NormalizedEvent) (db : Db) : Except SqlError Db :=
  match db.event? event with
  | none => .ok db
  | some e => do
    checkEvent (content.toLocal event)
    if (db.calendar? calendar).isNone then .error .foreignKey
    else
      let db' := db.updateEvent event (applyContent calendar content db.now)
      .ok (match e.linkedTaskId with
        | none => db'
        | some task => db'.updateTask task fun t =>
          { Task.reschedule (some content.startsAt) (some content.endsAt) db.now t with
            title := content.title, description := content.description })

/-- The row `insert_canonical_event` adds. -/
def importedEvent (db : Db) (calendar : Uuid) (content : NormalizedEvent) : CalendarEvent :=
  { toLocalEvent := content.toLocal db.nextId, calendarId := calendar, linkedTaskId := none,
    createdAt := db.now, updatedAt := db.now, version := 1 }

def insertCanonicalEvent (calendar : Uuid) (content : NormalizedEvent) (db : Db) : Except SqlError Db := do
  checkEvent (content.toLocal db.nextId)
  if (db.calendar? calendar).isNone then .error .foreignKey
  else .ok (db.fresh.insertEvent (db.importedEvent calendar content))

def linkMapping (mapping event : Uuid) (db : Db) : Except SqlError Db :=
  if (db.mapping? mapping).isNone then .ok db
  else if Table.has (fun m => m.canonicalEventId == some event && m.id != mapping) db.mappings then .error .unique
  else if (db.event? event).isNone then .error .foreignKey
  else .ok (db.updateMapping mapping fun m => { m with canonicalEventId := some event })

def flagUnresolved (m : Mapping) : Mapping := { m with conflictState := .unresolved }

def clearResolution (m : Mapping) : Mapping := { m with pendingResolution := none }

def baseline (etag : Option String) (fingerprint : Fingerprint) (now : DateTime) (m : Mapping) : Mapping :=
  { m with
    externalEtag := etag, baseFingerprint := some fingerprint, localDirty := false, localDeleted := false,
    pendingResolution := none, deleteResolutionPending := false, lastSyncedAt := some now }

def pushed (etag : Option String) (fingerprint : Fingerprint) (now : DateTime) (m : Mapping) : Mapping :=
  { m with
    externalEtag := etag, baseFingerprint := some fingerprint, localDirty := false, lastSyncedAt := some now }

/-- A new row of `external_event_mappings`, the other columns at their defaults. -/
def newMapping (id calendar event : Uuid) (externalCalendar externalEvent : String) (etag : Option String)
    (fingerprint : Fingerprint) (now : DateTime) : Mapping where
  id := id
  calendarId := calendar
  canonicalEventId := some event
  externalCalendarId := externalCalendar
  externalEventId := externalEvent
  externalEtag := etag
  baseFingerprint := some fingerprint
  localDirty := false
  localDeleted := false
  conflictState := .none
  pendingResolution := none
  lastSyncedAt := some now
  deletionHoldUntil := none
  reversibleTombstone := false
  deleteResolutionPending := false

def recordMapping (calendar event : Uuid) (externalCalendar externalEvent : String) (etag : Option String)
    (fingerprint : Fingerprint) (db : Db) : Except SqlError Db :=
  if (db.mappingAt? externalCalendar externalEvent).isSome || (db.mappingOf? event).isSome then .error .unique
  else if (db.calendar? calendar).isNone || (db.event? event).isNone then .error .foreignKey
  else .ok (db.fresh.insertMapping
    (newMapping db.nextId calendar event externalCalendar externalEvent etag fingerprint db.now))

/-- `ON CONFLICT (mapping_id) WHERE status = 'unresolved' DO NOTHING`. -/
def recordConflict (mapping : Uuid) (canonicalEvent : Option Uuid) (title : String) (db : Db) : Except SqlError Db :=
  if Table.has (fun c => c.mappingId == mapping && c.status == .unresolved) db.conflicts then .ok db.fresh
  else if (db.mapping? mapping).isNone || (canonicalEvent.any fun e => (db.event? e).isNone) then .error .foreignKey
  else .ok (db.fresh.insertConflict
    ⟨db.nextId, mapping, canonicalEvent, title, .unresolved, none, db.now, none⟩)

def selectUnmapped (calendar : Uuid) (db : Db) : List LocalEvent :=
  (db.events.filter fun e => e.calendarId == calendar && (db.mappingOf? e.id).isNone).map (·.toLocalEvent)

/-- The `WHERE` clause of the mappings to push. -/
def pushable (calendar : Uuid) (now : DateTime) (m : Mapping) : Bool :=
  m.calendarId == calendar && (m.localDirty || m.localDeleted) && m.conflictState == .none &&
  !m.deleteResolutionPending && (match m.deletionHoldUntil with | none => true | some t => decide (t ≤ now))

def dirtyMapping (db : Db) (m : Mapping) : DirtyMapping where
  mappingId := m.id
  externalEventId := m.externalEventId
  externalEtag := m.externalEtag
  localDeleted := m.localDeleted
  event := (m.canonicalEventId.bind db.event?).map (·.toLocalEvent)

def selectDirty (calendar : Uuid) (db : Db) : List DirtyMapping :=
  (db.mappings.filter (pushable calendar db.now)).map db.dirtyMapping

def selectResolutionPending (calendar : Uuid) (db : Db) : List (Uuid × String) :=
  let pending := db.mappings.filter fun m =>
    m.calendarId == calendar && m.deleteResolutionPending && !m.localDirty && !m.localDeleted &&
      m.canonicalEventId.isNone
  ((pending.insertionSort fun a b => a.id ≤ b.id).take 100).map fun m => (m.id, m.externalEventId)

/-- A statement that succeeds or leaves everything as it was. -/
def orSame {α : Type} (db : Db) : Except SqlError (α × Db) → Except SqlError α × Db
  | .ok (a, db') => (.ok a, db')
  | .error e => (.error e, db)

end Db

open Db in
/-- What a statement does. -/
def Stmt.run : (s : Stmt) → Db → Except SqlError (s.Val × Db)
  | .selectCalendars only, db => (db.selectCalendars only).map (·, db)
  | .selectMapping calendar event, db => .ok ((db.mappingAt? calendar event).map db.mappingState, db)
  | .dropTombstone id, db => .ok ((), (db.deleteUndos (·.mappingId == some id)).deleteMappings (·.id == id))
  | .deleteUndos id, db => .ok ((), db.deleteUndos (·.mappingId == some id))
  | .selectPolicy, db => .ok (db.policy, db)
  | .insertConflict id event title, db => (db.recordConflict id event title).map ((), ·)
  | .setUnresolved id, db => .ok ((), db.updateMapping id flagUnresolved)
  | .deleteMapping id, db => .ok ((), db.deleteMappings (·.id == id))
  | .deleteCanonicalEvent id, db => .ok ((), db.deleteCanonicalEvent id)
  | .clearPendingResolution id, db => .ok ((), db.updateMapping id clearResolution)
  | .updateCanonicalEvent id calendar content, db => (db.updateCanonicalEvent id calendar content).map ((), ·)
  | .insertCanonicalEvent calendar content, db => (db.insertCanonicalEvent calendar content).map (db.nextId, ·)
  | .linkMapping id event, db => (db.linkMapping id event).map ((), ·)
  | .updateMappingBaseline id etag fingerprint, db => .ok ((), db.updateMapping id (baseline etag fingerprint db.now))
  | .insertMapping calendar event externalCalendar externalEvent etag fingerprint, db =>
    (db.recordMapping calendar event externalCalendar externalEvent etag fingerprint).map ((), ·)
  | .existsUnresolved calendar, db =>
    .ok (Table.has (fun m => m.calendarId == calendar && m.conflictState == .unresolved) db.mappings, db)
  | .setSyncToken id token, db => .ok ((), db.updateCalendar id fun c => { c with syncToken := some token })
  | .setSyncError id error, db => .ok ((), db.updateCalendar id fun c => { c with lastSyncError := some error })
  | .setSynced id, db =>
    .ok ((), db.updateCalendar id fun c => { c with lastSyncedAt := some db.now, lastSyncError := none })
  | .selectUnmapped calendar, db => .ok (db.selectUnmapped calendar, db)
  | .selectDirty calendar, db => .ok (db.selectDirty calendar, db)
  | .recordPushed id etag fingerprint, db => .ok ((), db.updateMapping id (pushed etag fingerprint db.now))
  | .selectResolutionPending calendar, db => .ok (db.selectResolutionPending calendar, db)
  | .deletePendingMapping id, db => .ok ((), db.deleteMappings fun m => m.id == id && m.deleteResolutionPending)
  | .recordActivity kind message, db => .ok ((), db.insertActivity kind message)

def Stmt.exec (s : Stmt) (db : Db) : Except SqlError s.Val × Db := db.orSame (s.run db)

/-! ## Requests -/

structure GoogleEventList where
  items : List GoogleEvent
  nextPageToken : Option String
  nextSyncToken : Option String
deriving DecidableEq, Repr

inductive Request
  | listEvents (calendar : String) (syncToken pageToken : Option String)
  | getEvent (calendar event : String)
  | postEvent (calendar : String) (body : GoogleEventWrite)
  | putEvent (calendar event : String) (body : GoogleEventWrite) (ifMatch : Option String)
  | deleteEvent (calendar event : String) (ifMatch : Option String)
  /-- The requests behind `access_token`, with the storing of a renewed token. -/
  | accessToken
deriving DecidableEq, Repr

/-- What the body of an answer is decoded to. -/
@[reducible] def Request.Body : Request → Type
  | .listEvents .. => GoogleEventList
  | .accessToken => Unit
  | _ => GoogleEvent

/-- A status and a body; `none` is a body that does not decode. -/
structure Response (β : Type) where
  status : Nat
  body : Option β
deriving DecidableEq, Repr

/-! ## The signature -/

inductive Op
  | sql (s : Stmt)
  | http (r : Request)
deriving DecidableEq, Repr

/-- A statement fails with an error of the database; a request may get no answer at all. -/
@[reducible] def Op.Res : Op → Type
  | .sql s => Except SqlError s.Val
  | .http r => Except Unit (Response r.Body)

abbrev calendarSig : Sig := ⟨Op, Op.Res⟩

end Prosepect

/-
The list of calendars: `calendar_store.rs` on creating, changing and deleting one,
`discover_calendars` of `sync_service.rs`, and `revoke_google_integration` of `sync_store.rs`.

`toLowercase` is `str::to_lowercase`.
-/
import Prosepect.Store.Workspace

namespace Prosepect

open Text Time Resumption

namespace Db

/-- Deleted calendars take their events, mappings and jobs along. -/
def deleteCalendars (p : Calendar → Bool) (db : Db) : Db :=
  let gone := fun (id : Uuid) => Table.has (fun c : Calendar => p c && c.id == id) db.calendars
  let db' := (db.deleteEvents fun e => gone e.calendarId).deleteMappings fun m => gone m.calendarId
  { db' with
    calendars := Table.delete p db.calendars
    jobs := Table.delete (fun j => j.calendarId.any gone) db'.jobs }

end Db

namespace Store

structure UpdateCalendarRequest where
  name : String
  color : String
  selected : Bool
  expectedVersion : Int
deriving DecidableEq, Repr

def validateCalendarFields (name color : String) : Except AppError Unit := do
  if (trim name).length = 0 ∨ (trim name).length > 120 then
    throw (.validation "calendar name must contain between 1 and 120 characters")
  let hex := fun c : Char => ('0' ≤ c ∧ c ≤ '9') ∨ ('a' ≤ c ∧ c ≤ 'f') ∨ ('A' ≤ c ∧ c ≤ 'F')
  if color.utf8ByteSize ≠ 7 ∨ color.toList.head? ≠ some '#' ∨ ¬ color.toList.tail.all (hex ·) then
    throw (.validation "calendar color must be a six-digit hexadecimal color")

def createCalendar (toLowercase : String → String) (name color : String) : WorkspaceTx Uuid := do
  Tx.ofExcept (validateCalendarFields name color)
  let id := (← Tx.read).db.nextId
  Workspace.onDb (Tx.write fun db => { db.fresh with calendars := db.calendars ++ [
    { id := id, source := .native, externalId := none, selected := true, isDefault := false, providerPrimary := false,
      accessRole := .reader, syncToken := none, lastSyncedAt := none, lastSyncError := none }] })
  Tx.write fun w => { w with labels := w.labels ++ [⟨id, trim name, toLowercase color, 1⟩] }
  return id

def calendarError {α : Type} (calendar : Option CalendarLabel) (expectedVersion : Int) : WorkspaceTx α :=
  match calendar with
  | some c => Tx.raise (.conflict ("calendar changed since version " ++ toString expectedVersion ++
      "; current version is " ++ toString c.version))
  | none => Tx.raise (.notFound "calendar")

/-- `enqueue_sync` of a synchronization; a job with the key stays as it is. -/
def enqueueSync (calendar : Uuid) (key : String) : StoreTx Unit := do
  if (trim key).length = 0 ∨ key.length > 200 then
    Tx.raise (.validation "idempotency key must contain between 1 and 200 characters")
  else if ((← Tx.read).calendar? calendar).isNone then Tx.raise (.notFound "calendar")
  else Tx.write (Db.enqueue (some calendar) "calendar_sync" (trim key))

def updateCalendar (toLowercase : String → String) (calendar : Uuid) (r : UpdateCalendarRequest) : WorkspaceTx Unit := do
  Tx.ofExcept (validateCalendarFields r.name r.color)
  let w ← Tx.read
  match w.db.calendar? calendar with
  | none => calendarError none r.expectedVersion
  | some c =>
    let label := w.label calendar
    if label.version ≠ r.expectedVersion then calendarError (some label) r.expectedVersion
    else
      let updated : CalendarLabel := ⟨calendar, trim r.name, toLowercase r.color, label.version + 1⟩
      Workspace.onDb (Tx.write (Db.updateCalendar calendar fun c => { c with selected := r.selected }))
      Tx.write fun w => { w with labels := Table.delete (·.id == calendar) w.labels ++ [updated] }
      if c.source = .google ∧ r.selected = true then
        Workspace.onDb (enqueueSync calendar
          ("calendar-selection:" ++ uuidText calendar ++ ":" ++ toString updated.version))
      else pure ()

/-- The events of the calendar go with it; the tasks some of them stand for are not written. -/
def deleteCalendar (calendar : Uuid) (expectedVersion : Int) : WorkspaceTx Unit := do
  let w ← Tx.read
  match w.db.calendar? calendar with
  | none => calendarError none expectedVersion
  | some c =>
    if (w.label calendar).version = expectedVersion ∧ c.isDefault = false then
      Workspace.onDb (Tx.write (Db.deleteCalendars (·.id == calendar)))
    else if c.isDefault then Tx.raise (.validation "the default calendar cannot be deleted")
    else calendarError (some (w.label calendar)) expectedVersion

/-! ## The calendars of Google -/

/-- An entry of the calendar list of Google. -/
structure GoogleCalendar where
  id : String
  summary : String
  backgroundColor : Option String
  primary : Option Bool
  selected : Option Bool
  accessRole : Option AccessRole
deriving DecidableEq, Repr

/-- The statement of `discover_calendars` for one entry. A calendar that is known keeps whether it
is selected, and its version. -/
def upsertGoogleCalendar (entry : GoogleCalendar) : WorkspaceTx Unit := do
  let w ← Tx.read
  let primary := entry.primary.getD false
  let role := entry.accessRole.getD .reader
  let color := entry.backgroundColor.getD "#4285f4"
  match w.db.calendars.find? fun c => c.source == .google && c.externalId == some entry.id with
  | some c =>
    let label := w.label c.id
    Workspace.onDb (Tx.write (Db.updateCalendar c.id fun c => { c with providerPrimary := primary, accessRole := role }))
    Tx.write fun w =>
      { w with labels := Table.delete (·.id == c.id) w.labels ++ [⟨c.id, entry.summary, color, label.version⟩] }
  | none =>
    let id := w.db.nextId
    Workspace.onDb (Tx.write fun db => { db.fresh with calendars := db.calendars ++ [
      { id := id, source := .google, externalId := some entry.id, selected := entry.selected.getD false || primary,
        isDefault := false, providerPrimary := primary, accessRole := role, syncToken := none, lastSyncedAt := none,
        lastSyncError := none }] })
    Tx.write fun w => { w with labels := w.labels ++ [⟨id, entry.summary, color, 1⟩] }

/-- Scheduled tasks whose event is not in the preferred calendar get one there. -/
def migrateScheduledTasksToPreferredCalendar : StoreTx Unit := do
  let calendar := (preferredTimeBlockCalendar (← Tx.read)).1
  Tx.write fun db => (preferredTimeBlockCalendar db).2
  let db ← Tx.read
  let tasks := db.tasks.filter fun t => t.scheduledStart.isSome && t.scheduledEnd.isSome &&
    !Table.has (fun e => e.linkedTaskId == some t.id && e.calendarId == calendar) db.events
  Tx.each (fun t => syncTaskCalendarEvent t.toTask) tasks

/-- The calendars of Google go, with their events, and the account. -/
def revokeGoogleIntegration : WorkspaceTx Unit := do
  Workspace.onDb (Tx.write (Db.deleteCalendars (·.source == .google)))
  Tx.write fun w => { w with account := none }

/-- What `update_google_credentials` leaves for `google_account_guard`. -/
def connectGoogle (account : GoogleAccount) : WorkspaceTx Unit :=
  Tx.write fun w => { w with account := some account }

end Store

end Prosepect

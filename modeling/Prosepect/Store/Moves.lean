/-
`calendar_move_store.rs`: moving an event or a scheduled task in the calendar, and the undo of it
within sixty seconds. `locked`: a synchronization of the user is running.
-/
import Prosepect.Store.Workspace

namespace Prosepect

open Time Resumption

structure MoveCalendarItemRequest where
  startsAt : DateTime
  endsAt : DateTime
  expectedVersion : Int
deriving DecidableEq, Repr

namespace Store

def moveChanged {α : Type} : WorkspaceTx α :=
  Tx.raise (.conflict "Calendar item changed. Refresh before trying another move; Undo cannot overwrite a later change.")

def undoExpired {α : Type} : WorkspaceTx α :=
  Tx.raise (.conflict "Undo expired. Calendar moves can be undone for 60 seconds.")

def lockMove (locked : Bool) : WorkspaceTx Unit :=
  if locked then Tx.raise (.conflict "Calendar synchronization is in progress. Try again shortly.") else pure ()

/-- At most 100 of the receipts that have expired, the oldest first. -/
def cleanupMoves (w : Workspace) : Workspace :=
  let expired := (((w.moves.filter fun m => decide (m.expiresAt ≤ w.db.now)).insertionSort
    fun a b => a.expiresAt ≤ b.expiresAt).take 100).map (·.id)
  { w with moves := Table.delete (fun m => decide (m.id ∈ expired)) w.moves }

/-- The event with the task it is linked to. -/
def lockItem (event : Uuid) : WorkspaceTx (CalendarEvent × Option TaskRow) := do
  let w ← Tx.read
  match w.db.event? event with
  | none => Tx.raise (.notFound "calendar item")
  | some e =>
    match e.linkedTaskId with
    | none => return (e, none)
    | some task =>
      match w.db.task? task with
      | none => Tx.raise (.notFound "task")
      | some t => return (e, some t)

def mappingGuardOf (m : Mapping) : MappingGuard :=
  ⟨m.id, m.calendarId, m.canonicalEventId, m.externalCalendarId, m.externalEventId, m.conflictState,
    m.pendingResolution, m.localDeleted⟩

def mappingGuard (event : Uuid) : WorkspaceTx (Option MappingGuard) := do
  let guard := ((← Tx.read).db.mappingOf? event).map mappingGuardOf
  if guard.any fun g => g.conflictState != .none || g.pendingResolution.isSome || g.localDeleted then moveChanged
  else return guard

/-- The event with its new times, and the tables with it and its task. -/
def writeSchedule (e : CalendarEvent) (startsAt endsAt : DateTime) (task : Option (Uuid × Option DateTime × Option DateTime))
    (db : Db) : CalendarEvent × Db :=
  let db := match task with
    | some (id, start, end_) => db.updateTask id (Task.reschedule start end_ db.now)
    | none => db
  let updated := { e with startsAt := startsAt, endsAt := endsAt, updatedAt := db.now, version := e.version + 1 }
  (updated, db.updateEvent e.id fun _ => updated)

/-- The sixty seconds of an undo. -/
def moveWindow : TimeDelta := 60000000

/-- The event that is moved; a task is moved with the one it is linked to. -/
def itemEvent (item : Uuid) (isTask : Bool) : WorkspaceTx Uuid := do
  if isTask then
    match (← Tx.read).db.taskEvent? item with
    | some e => return e.id
    | none => Tx.raise (.notFound "scheduled task")
  else return item

def moveCalendarItem (locked : Bool) (item : Uuid) (isTask : Bool) (r : MoveCalendarItemRequest) :
    WorkspaceTx CalendarMoveUndo := do
  if r.expectedVersion < 1 ∨ r.endsAt ≤ r.startsAt then
    Tx.raise (.validation "a move needs a positive version and an end after its start")
  else
    lockMove locked
    Tx.write cleanupMoves
    let w ← Tx.read
    if (w.moves.filter fun m => decide (m.expiresAt > w.db.now)).length ≥ 100 then
      Tx.raise (.invalidRequest 429
        "Too many recent calendar moves. Wait for Undo to expire before moving again.")
    else
      let event ← itemEvent item isTask
      let (e, task) ← lockItem event
      if (if isTask then task.map (·.version) else some e.version) ≠ some r.expectedVersion then moveChanged
      else if e.startsAt = r.startsAt ∧ e.endsAt = r.endsAt then
        Tx.raise (.validation "calendar item has not moved")
      else if e.recurrenceUntil.any (· ≤ r.startsAt) then
        Tx.raise (.validation "recurrence_until must be after the event start")
      else
        Workspace.onDb (ensureCalendarWritable e.calendarId)
        let guard ← mappingGuard event
        let moved := task.map fun t => (t.id, some r.startsAt, some r.endsAt)
        let updated := (writeSchedule e r.startsAt r.endsAt moved w.db).1
        let receipt : CalendarMoveUndo :=
          { id := w.db.nextId, eventId := event, taskId := e.linkedTaskId, startsAt := e.startsAt, endsAt := e.endsAt,
            taskStartsAt := task.bind (·.scheduledStart), taskEndsAt := task.bind (·.scheduledEnd),
            eventVersion := updated.version, taskVersion := task.map (·.version + 1), mappingGuard := guard,
            expiresAt := w.db.now + moveWindow }
        Workspace.onDb (Tx.write fun db =>
          markEventForSync updated false (writeSchedule e r.startsAt r.endsAt moved db.fresh).2)
        Tx.write fun w => { w with moves := w.moves ++ [receipt] }
        return receipt

def undoCalendarMove (locked : Bool) (receipt : Uuid) : WorkspaceTx Unit := do
  lockMove locked
  let w ← Tx.read
  match w.moves.find? (·.id == receipt) with
  | none => Tx.raise (.notFound "calendar move Undo")
  | some inverse =>
    let (e, task) ← lockItem inverse.eventId
    if inverse.expiresAt ≤ w.db.now then undoExpired
    else if e.version ≠ inverse.eventVersion ∨ e.linkedTaskId ≠ inverse.taskId ∨
        task.map (·.version) ≠ inverse.taskVersion then moveChanged
    else
      Workspace.onDb (ensureCalendarWritable e.calendarId)
      let guard ← mappingGuard e.id
      if guard ≠ inverse.mappingGuard then moveChanged
      else
        let moved := inverse.taskId.map fun id => (id, inverse.taskStartsAt, inverse.taskEndsAt)
        let restored := (writeSchedule e inverse.startsAt inverse.endsAt moved w.db).1
        Workspace.onDb (Tx.write fun db =>
          markEventForSync restored false (writeSchedule e inverse.startsAt inverse.endsAt moved db).2)
        Tx.write fun w => cleanupMoves { w with moves := Table.delete (·.id == receipt) w.moves }

end Store

end Prosepect

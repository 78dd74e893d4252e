/-
Decisions about mappings: `resolve_sync_conflict` of `sync_store.rs`, and of
`task_delete_store.rs` the reversible deletion of a task, which holds back the deletion of its
Google event. The deletion takes the lock of a synchronization, the resolution only for such a
held mapping.
-/
import Prosepect.Store.Calendars

namespace Prosepect

open Time Resumption

def Resolution.text : Resolution → String
  | .google => "google"
  | .prosepect => "prosepect"
  | .latest => "latest"

def Resolution.ofText (s : String) : Option Resolution :=
  if s = "google" then some .google
  else if s = "prosepect" then some .prosepect
  else if s = "latest" then some .latest
  else none

namespace Store

/-! ## Resolving a conflict -/

/-- The unresolved conflict of this id. -/
def unresolved? (id : Uuid) (db : Db) : Option SyncConflict :=
  (db.conflict? id).filter fun c => c.status == .unresolved

def releaseTombstone (mapping : Uuid) (db : Db) : Db :=
  (db.deleteUndos (·.mappingId == some mapping)).updateMapping mapping fun m =>
    { m with reversibleTombstone := false, deletionHoldUntil := none, deleteResolutionPending := true }

def resolveMapping (resolution : Resolution) (m : Mapping) : Mapping :=
  { m with
    conflictState := .none
    localDirty := resolution != .google
    localDeleted := if resolution = .google then false else m.localDeleted
    externalEtag := if resolution = .google then none else m.externalEtag
    pendingResolution := some resolution }

def resolvedConflict (resolution : Resolution) (now : DateTime) (c : SyncConflict) : SyncConflict :=
  { c with status := .resolved, resolution := some resolution, resolvedAt := some now }

/-- `locked`: a synchronization of the user is running. -/
def resolveSyncConflict (locked : Bool) (conflict : Uuid) (resolution : String) : StoreTx SyncConflict := do
  match Resolution.ofText resolution with
  | none => Tx.raise (.validation "resolution must be google, prosepect, or latest")
  | some resolution =>
    let db ← Tx.read
    match unresolved? conflict db with
    | none => Tx.raise (.notFound "sync conflict")
    | some c =>
      let mapping := db.mapping? c.mappingId
      if mapping.any (·.reversibleTombstone) then
        if resolution ≠ .google then
          Tx.raise (.conflict "This deleted-task conflict can only be resolved with Keep Google. The task stays deleted and Google is preserved.")
        else if locked then
          Tx.raise (.conflict "Calendar synchronization is in progress. Try again shortly.")
        else Tx.write (releaseTombstone c.mappingId)
      else pure ()
      Tx.write fun db => db.updateConflicts (·.id == conflict) (resolvedConflict resolution db.now)
      match mapping with
      | none => raiseSql .rowNotFound
      | some m =>
        Tx.write fun db => (db.updateMapping m.id (resolveMapping resolution)).enqueue (some m.calendarId)
          "calendar_sync" ("conflict-resolution:" ++ uuidText conflict ++ ":" ++ resolution.text)
        return resolvedConflict resolution db.now c

/-! ## Deleting a task reversibly -/

def changed {α : Type} : StoreTx α :=
  Tx.raise (.conflict "Deletion Undo is no longer safe because a dependency changed or the 60-second window expired. Refresh and try again.")

def googleRefusal {α : Type} : StoreTx α :=
  Tx.raise (.conflict "This Google-linked task cannot be reversibly deleted. Synchronize it, resolve conflicts, and use the selected writable preferred time-block calendar before retrying. Nothing was deleted.")

def capacity {α : Type} : StoreTx α :=
  Tx.raise (.validation "Reversible deletion exceeds its safety limits (100 active receipts, 4 MiB per owner, 1 MiB per snapshot, 64 notes, 128 attachments, 32 focus dates). Nothing was deleted.")

/-- The mapping of an event that may be held back: clean, and without a decision to come. -/
def holdable (calendar : Calendar) (m : Mapping) : Bool :=
  m.calendarId == calendar.id && some m.externalCalendarId == calendar.externalId &&
  m.externalEventId != "" && m.externalEtag.any (· != "") && !m.localDirty && !m.localDeleted &&
  m.conflictState == .none && m.pendingResolution.isNone && !m.deleteResolutionPending &&
  !m.reversibleTombstone && m.deletionHoldUntil.isNone

/-- The mapping of a deleted event; a fingerprint of an older version is replaced. -/
def holdMapping (until_ : DateTime) (fingerprint : Fingerprint) (m : Mapping) : Mapping :=
  { m with
    canonicalEventId := none, baseFingerprint := some fingerprint, localDeleted := true, localDirty := false
    reversibleTombstone := true, deletionHoldUntil := some until_ }

/-- The 60 seconds of an undo. -/
def undoWindow : TimeDelta := 60000000

/-- What a reversible deletion asks for before it reads what goes with the task. -/
def undoable (locked : Bool) (task : Uuid) (expectedVersion : Int) : StoreTx TaskRow := do
  if expectedVersion < 1 then Tx.raise (.validation "expected_version must be greater than zero")
  else if locked then changed
  else
    let db ← Tx.read
    match db.task? task with
    | none => Tx.raise (.notFound "task")
    | some row =>
      if row.version ≠ expectedVersion then changed
      else if Table.has (·.parentTaskId == some task) db.tasks then
        Tx.raise (.conflict "task cannot be deleted while it has subtasks")
      else if (db.undos.filter fun u => decide (u.expiresAt > db.now)).length ≥ 100 then capacity
      else return row

/-- The mapping of the event of a task, with the fingerprint it gets; `validated`: the event was
read from Google and found to be the local one, as a fingerprint of an older version requires. -/
def heldMapping (validated : Bool) : (event : Option CalendarEvent) → StoreTx (Option (Mapping × Fingerprint))
  | none => return none
  | some event => do
    let db ← Tx.read
    match db.calendar? event.calendarId, db.mappingOf? event.id with
    | none, _ => changed
    | some c, none => if c.source = .google then googleRefusal else return none
    | some c, some m =>
      if c.source ≠ .google then googleRefusal
      else if preferredGoogleCalendar db ≠ some c.id ∨ holdable c m = false ∨
          Table.has (fun k => k.mappingId == m.id && k.status == .unresolved) db.conflicts then googleRefusal
      else if m.baseFingerprint = some (localFingerprint event.toLocalEvent) ∨ validated then
        return some (m, localFingerprint event.toLocalEvent)
      else googleRefusal

/-- `INSERT INTO sync_jobs` where no job may have the key. -/
def insertJob (calendar : Uuid) (key : String) (availableAt : DateTime) : StoreTx Unit := do
  if Table.has (·.idempotencyKey == key) (← Tx.read).jobs then changed
  else
    Tx.write fun db =>
      { db.fresh with jobs := db.jobs ++ [⟨db.nextId, some calendar, "calendar_sync", key, availableAt⟩] }

/-- The receipt, the mapping held back until it expires, and the deletion. -/
def holdDeletion (row : TaskRow) (mapping : Option (Mapping × Fingerprint)) : StoreTx TaskDeleteUndo := do
  let db ← Tx.read
  let receipt : TaskDeleteUndo := ⟨db.nextId, row.id, row.title, mapping.map (·.1.id), db.now + undoWindow⟩
  Tx.write fun db => { db.fresh with undos := db.undos ++ [receipt] }
  match mapping with
  | none => pure ()
  | some (m, fingerprint) =>
    Tx.write (Db.updateMapping m.id (holdMapping receipt.expiresAt fingerprint))
    insertJob m.calendarId ("task-delete-expiry:" ++ uuidText receipt.id) receipt.expiresAt
  Tx.write (Db.deleteTask row.id)
  return receipt

/-- `delete_task_with_undo`: what it does to the task and its event. -/
def deleteTaskWithUndo (locked validated : Bool) (task : Uuid) (expectedVersion : Int) : StoreTx TaskDeleteUndo := do
  let row ← undoable locked task expectedVersion
  let mapping ← heldMapping validated ((← Tx.read).taskEvent? task)
  holdDeletion row mapping

end Store

end Prosepect

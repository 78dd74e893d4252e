/-
`task_delete_store.rs`: deleting a task with a receipt for its undo, and the undo. The receipt
carries a snapshot of the task and of all that goes with it, and of what must still be as it was.

`locked`: a synchronization of the user is running. `octets` is the size of the JSON text of a
snapshot.
-/
import Prosepect.Store.Conflicts
import Prosepect.Store.Workspace

namespace Prosepect

open Time Resumption

namespace Store

def snapshotBytes : Nat := 1024 * 1024
def ownerBytes : Nat := 4 * 1024 * 1024

/-! ## The snapshot -/

def attachedNotes (task : Uuid) (event : Option CalendarEvent) (w : Workspace) : List Note :=
  (w.notes.filter fun n => n.taskId == some task || event.any fun e => n.eventId == some e.id).insertionSort
    fun a b => a.id ≤ b.id

def attachedFiles (task : Uuid) (event : Option CalendarEvent) (notes : List Note) (w : Workspace) : List FileRecord :=
  (w.files.filter fun f => f.taskId == some task || (event.any fun e => f.eventId == some e.id) ||
    notes.any fun n => f.noteId == some n.id).insertionSort fun a b => a.id ≤ b.id

def focusOf (task : Uuid) (w : Workspace) : List FocusTask :=
  (w.focus.filter (·.taskId == task)).insertionSort fun a b => a.focusDate ≤ b.focusDate

def cap {α : Type} (rows : List α) (max : Nat) : WorkspaceTx Unit :=
  if rows.length > max then Workspace.onDb capacity else pure ()

/-- The row a column of the task points to. -/
def dependency {α : Type} (find : Uuid → Option α) : Option Uuid → WorkspaceTx (List α)
  | none => return []
  | some id =>
    match find id with
    | some row => return [row]
    | none => Workspace.onDb changed

def calendarGuard (w : Workspace) (c : Calendar) : CalendarGuard :=
  ⟨c.id, c.source, c.externalId, c.selected, c.isDefault, c.providerPrimary, c.accessRole, w.label c.id⟩

/-- The calendar of the event, and for one of Google the account. -/
def eventGuards : Option CalendarEvent → WorkspaceTx (Option CalendarGuard × Option GoogleAccount)
  | none => return (none, none)
  | some event => do
    let w ← Tx.read
    match w.db.calendar? event.calendarId with
    | none => Workspace.onDb changed
    | some c =>
      if c.source = .google then
        if w.account.isNone then Workspace.onDb changed
        else return (some (calendarGuard w c), w.account)
      else return (some (calendarGuard w c), none)

/-- The revisions a snapshot is bound to. -/
def guardScopes (focus : List FocusTask) (event : Option CalendarEvent) : List GuardScope :=
  (if focus.isEmpty then [] else [.reviewSelection]) ++ focus.map (fun f => .focus f.focusDate) ++
    (if event.isSome then [.calendars] else [])

def readRevisions (scopes : List GuardScope) (w : Workspace) : List (GuardScope × Nat) :=
  scopes.map fun scope => (scope, w.revisions scope)

/-- The snapshot of a task, but for its mapping. -/
def takeSnapshot (row : TaskRow) : WorkspaceTx Snapshot := do
  let w ← Tx.read
  let event := w.db.taskEvent? row.id
  let notes := attachedNotes row.id event w
  let files := attachedFiles row.id event notes w
  let focus := focusOf row.id w
  let successors := w.db.tasks.filter (·.recurrenceSourceId == some row.id)
  cap notes 64
  cap files 128
  cap focus 32
  cap successors 1
  let project ← dependency (fun id => w.projects.find? (·.id == id)) row.projectId
  let recurrenceProject ← dependency (fun id => w.projects.find? (·.id == id)) row.recurrenceProjectId
  let parent ← dependency w.db.task? row.parentTaskId
  let source ← dependency w.db.task? row.recurrenceSourceId
  let (calendar, account) ← eventGuards event
  return {
    task := row, event := event, notes := notes, files := files, focus := focus, successors := successors,
    projects := project ++ recurrenceProject, taskDependencies := parent ++ source, calendar := calendar,
    mapping := none, googleAccount := account, revisions := readRevisions (guardScopes focus event) w }

/-! ## Deleting -/

/-- The snapshots of receipts that have not expired. -/
def activeBytes (octets : Snapshot → Nat) (w : Workspace) : Nat :=
  ((w.snapshots.filter fun s => Table.has (fun u => u.id == s.1 && decide (u.expiresAt > w.db.now)) w.db.undos).map
    fun s => octets s.2).sum

/-- The CHECK constraint on `task_delete_undos`. -/
def checkSnapshot (octets : Snapshot → Nat) (s : Snapshot) : WorkspaceTx Unit :=
  if octets s ≤ snapshotBytes then pure () else Tx.raise (.database (.check "task_delete_undos_snapshot_check"))

/-- `delete_task_with_undo_validated`. The notes and focus rows of the task go with it, its files
lose the reference; what the snapshot is to find again is the state after that. -/
def deleteTaskWithSnapshot (octets : Snapshot → Nat) (locked validated : Bool) (task : Uuid) (expectedVersion : Int) :
    WorkspaceTx TaskDeleteUndo := do
  let row ← Workspace.onDb (undoable locked task expectedVersion)
  let rows ← takeSnapshot row
  let mapping ← Workspace.onDb (heldMapping validated rows.event)
  let size := octets { rows with mapping := mapping.map (·.1) }
  if size + 512 > snapshotBytes ∨ activeBytes octets (← Tx.read) + size + 512 > ownerBytes then Workspace.onDb capacity
  else
    let snapshot := { rows with mapping := mapping.map fun (m, fingerprint) => { m with baseFingerprint := some fingerprint } }
    checkSnapshot octets snapshot
    let receipt ← Workspace.onDb (holdDeletion row mapping)
    let w ← Tx.read
    let detached := { snapshot with revisions := readRevisions (snapshot.revisions.map (·.1)) w }
    checkSnapshot octets detached
    Tx.write fun w => { w with snapshots := w.snapshots ++ [(receipt.id, detached)] }
    return receipt

/-! ## Undoing -/

/-- The mapping is held back as the deletion left it. -/
def stillHeld (expiry : DateTime) (m : Mapping) (db : Db) : Bool :=
  (db.mapping? m.id == some { m with
    canonicalEventId := none, localDeleted := true, reversibleTombstone := true, deletionHoldUntil := some expiry }) &&
  !Table.has (fun k => k.mappingId == m.id && k.status == .unresolved) db.conflicts

/-- All that the snapshot is bound to is as the deletion left it. -/
def unchanged (expiry : DateTime) (s : Snapshot) (w : Workspace) : Bool :=
  s.revisions.all (fun (scope, expected) => w.revisions scope == expected) &&
  s.projects.all (fun p => w.projects.find? (·.id == p.id) == some p) &&
  s.taskDependencies.all (fun t => w.db.task? t.id == some t) &&
  s.calendar.all (fun g => (w.db.calendar? g.id).map (calendarGuard w) == some g) &&
  s.googleAccount.all (fun a => w.account == some a) &&
  s.files.all (fun f => w.files.find? (·.id == f.id) == some { f with taskId := none, eventId := none, noteId := none }) &&
  s.successors.all (fun t => w.db.task? t.id == some { t with recurrenceSourceId := none }) &&
  s.mapping.all (fun m => stillHeld expiry m w.db)

/-- No row has a key of one that is to be restored. -/
def restorable (s : Snapshot) (w : Workspace) : Bool :=
  (w.db.task? s.task.id).isNone &&
  !(s.task.recurrenceSourceId.any fun id => Table.has (·.recurrenceSourceId == some id) w.db.tasks) &&
  s.event.all (fun e => (w.db.event? e.id).isNone && !(e.linkedTaskId.any fun id => (w.db.taskEvent? id).isSome)) &&
  s.notes.all (fun n => !Table.has (·.id == n.id) w.notes) &&
  s.focus.all (fun f => !Table.has (fun g => g.focusDate == f.focusDate &&
    (g.taskId == f.taskId || g.position == f.position)) w.focus)

/-- `insert_versioned`. -/
def restoredTask (now : DateTime) (t : TaskRow) : TaskRow := { t with version := t.version + 1, updatedAt := now }

def restoreEvent (s : Snapshot) (db : Db) : Db :=
  match s.event with
  | some e => db.insertEvent { e with version := e.version + 1, updatedAt := db.now }
  | none => db

def relinkSuccessors (s : Snapshot) (db : Db) : Db :=
  s.successors.foldl (fun db t => db.updateTask t.id fun t =>
    { t with recurrenceSourceId := some s.task.id, version := t.version + 1, updatedAt := db.now }) db

def restoreMapping (s : Snapshot) (db : Db) : Db :=
  match s.mapping with
  | some m => db.updateMapping m.id fun m => { m with
      canonicalEventId := s.event.map (·.id), localDeleted := false, localDirty := false, reversibleTombstone := false,
      deletionHoldUntil := none }
  | none => db

/-- The task and its event again, and what the snapshot says of the rows that stayed. -/
def restoreDb (s : Snapshot) (db : Db) : Db :=
  restoreMapping s (relinkSuccessors s (restoreEvent s (db.insertTask (restoredTask db.now s.task))))

def restore (s : Snapshot) (w : Workspace) : Workspace :=
  { w with
    db := restoreDb s w.db
    notes := w.notes ++ s.notes.map fun n => { n with version := n.version + 1, updatedAt := w.db.now }
    files := s.files.foldl (fun files f => Table.update (·.id == f.id)
      (fun row => { row with taskId := f.taskId, eventId := f.eventId, noteId := f.noteId }) files) w.files
    focus := w.focus ++ s.focus
    revisions := Workspace.bumpFocus s.focus w.revisions }

/-- `validation`: the answer of `validate_task_delete_undo`, asked for when a mapping is held. -/
def undoTaskDelete (locked : Bool) (validation : Except AppError Unit) (receipt : Uuid) : WorkspaceTx Unit := do
  let w ← Tx.read
  match w.db.undos.find? (·.id == receipt), w.snapshots.find? (·.1 == receipt) with
  | some u, some (_, s) =>
    if u.expiresAt ≤ w.db.now then Workspace.onDb changed
    else
      Tx.ofExcept (if s.mapping.isSome then validation else .ok ())
      if locked ∨ unchanged u.expiresAt s w = false ∨ restorable s w = false then Workspace.onDb changed
      else
        Tx.write (restore s)
        Tx.write fun w => { w with
          db := w.db.deleteUndos (·.id == receipt), snapshots := Table.delete (·.1 == receipt) w.snapshots }
  | _, _ => Tx.raise (.notFound "task deletion Undo")

/-- `cleanup_task_delete_undos`. -/
def cleanupTaskDeleteUndos (db : Db) : Db :=
  let expired := (((db.undos.filter fun u => decide (u.expiresAt ≤ db.now)).insertionSort
    fun a b => a.expiresAt ≤ b.expiresAt).take 100).map (·.id)
  db.deleteUndos fun u => decide (u.id ∈ expired)

end Store

end Prosepect

/-
The workspace of one user: the tables of `Schema` with those that refer to them, and what the
foreign keys and triggers of these do when a transaction has changed the former (`settle`).

`note_store.rs`, `file_store.rs`, the focus list of `store.rs` and `daily_review_store.rs`.
-/
import Prosepect.Store.Tasks

namespace Prosepect

open Text Time Resumption

/-! ## Rows -/

inductive ProjectStatus
  | planned | active | paused | completed | archived
deriving DecidableEq, Repr

structure Project where
  id : Uuid
  name : String
  outcome : String
  targetDate : Option NaiveDate
  status : ProjectStatus
  createdAt : DateTime
  updatedAt : DateTime
  version : Int
deriving DecidableEq, Repr

/-- The columns of `calendars` that only edits of it and `calendar_guard` read. -/
structure CalendarLabel where
  id : Uuid
  name : String
  color : String
  version : Int
deriving DecidableEq, Repr

structure Note where
  id : Uuid
  projectId : Option Uuid
  taskId : Option Uuid
  eventId : Option Uuid
  title : String
  markdown : String
  createdAt : DateTime
  updatedAt : DateTime
  version : Int
deriving DecidableEq, Repr

structure FileRecord where
  id : Uuid
  projectId : Option Uuid
  taskId : Option Uuid
  noteId : Option Uuid
  eventId : Option Uuid
  objectKey : String
  filename : String
  contentType : String
  byteSize : Int
  createdAt : DateTime
deriving DecidableEq, Repr

/-- A row of `daily_focus_tasks`. -/
structure FocusTask where
  focusDate : NaiveDate
  taskId : Uuid
  position : Int
  createdAt : DateTime
deriving DecidableEq, Repr

inductive DailyReviewStatus
  | open_ | completed
deriving DecidableEq, Repr

structure DailyReview where
  id : Uuid
  reviewDate : NaiveDate
  status : DailyReviewStatus
  startedAt : DateTime
  completedAt : Option DateTime
  version : Int
deriving DecidableEq, Repr

/-- The part of a mapping that a move and its undo must find unchanged. -/
structure MappingGuard where
  id : Uuid
  calendarId : Uuid
  eventId : Option Uuid
  externalCalendarId : String
  externalEventId : String
  conflictState : ConflictState
  pendingResolution : Option Resolution
  localDeleted : Bool
deriving DecidableEq, Repr

/-- A row of `calendar_move_undos`. -/
structure CalendarMoveUndo where
  id : Uuid
  eventId : Uuid
  taskId : Option Uuid
  startsAt : DateTime
  endsAt : DateTime
  taskStartsAt : Option DateTime
  taskEndsAt : Option DateTime
  eventVersion : Int
  taskVersion : Option Int
  mappingGuard : Option MappingGuard
  expiresAt : DateTime
deriving DecidableEq, Repr

/-- What `google_account_guard` reads of `google_accounts`. -/
structure GoogleAccount where
  connectedAt : DateTime
  scopes : List String
deriving DecidableEq, Repr

/-- `task_delete_guard_revisions.scope`. -/
inductive GuardScope
  | calendars
  | reviewSelection
  | focus (date : NaiveDate)
deriving DecidableEq, Repr

/-- `calendar_guard`: a calendar without the columns a synchronization writes. -/
structure CalendarGuard where
  id : Uuid
  source : CalendarSource
  externalId : Option String
  selected : Bool
  isDefault : Bool
  providerPrimary : Bool
  accessRole : AccessRole
  label : CalendarLabel
deriving DecidableEq, Repr

/-- The snapshot of a deleted task. -/
structure Snapshot where
  task : TaskRow
  event : Option CalendarEvent
  notes : List Note
  files : List FileRecord
  focus : List FocusTask
  successors : List TaskRow
  projects : List Project
  taskDependencies : List TaskRow
  calendar : Option CalendarGuard
  mapping : Option Mapping
  googleAccount : Option GoogleAccount
  revisions : List (GuardScope × Nat)
deriving DecidableEq, Repr

/-- `db.projects` and `db.undos` hold the ids of `projects` and the receipts of `snapshots`. -/
structure Workspace where
  db : Db
  projects : List Project
  /-- A calendar without a row here is as `ensure_default_calendar` makes it. -/
  labels : List CalendarLabel
  notes : List Note
  files : List FileRecord
  focus : List FocusTask
  reviews : List DailyReview
  /-- `user_settings.automatic_daily_review`. -/
  automaticDailyReview : Bool
  moves : List CalendarMoveUndo
  /-- `task_delete_undos.snapshot`, under the id of its row. -/
  snapshots : List (Uuid × Snapshot)
  /-- `task_delete_guard_revisions`; a missing row reads 0. -/
  revisions : GuardScope → Nat
  account : Option GoogleAccount

/-- Code of one transaction of the workspace. -/
abbrev WorkspaceTx (α : Type) := Tx Workspace AppError α

namespace Workspace

/-! ## Foreign keys and triggers -/

/-- The columns of a calendar that `task_delete_calendar_revision` compares. -/
def calendarPreferences (c : Calendar) : CalendarSource × Option String × Bool × Bool × Bool × AccessRole :=
  (c.source, c.externalId, c.selected, c.isDefault, c.providerPrimary, c.accessRole)

/-- How often `task_delete_calendar_revision` counts when `db` becomes `db'`. -/
def calendarChanges (db db' : Db) : Nat :=
  (db'.calendars.filter fun c => (db.calendar? c.id).map calendarPreferences != some (calendarPreferences c)).length +
  (db.calendars.filter fun c => (db'.calendar? c.id).isNone).length

def bump (scope : GuardScope) (by_ : Nat) (revisions : GuardScope → Nat) : GuardScope → Nat :=
  fun s => if s = scope then revisions s + by_ else revisions s

/-- `task_delete_focus_revision` for rows that are inserted or deleted. -/
def bumpFocus (rows : List FocusTask) (revisions : GuardScope → Nat) : GuardScope → Nat :=
  rows.foldl (fun revisions row => bump (.focus row.focusDate) 1 revisions) revisions

/-- The reference points to a row that `p` finds, or nowhere. -/
def kept (p : Uuid → Bool) (r : Option Uuid) : Bool := r.all p

/-- The tables after the first ones have become `db`: rows that refer to deleted ones go with
them, files lose the reference, and the triggers count. -/
def settle (db : Db) (w : Workspace) : Workspace :=
  let task := fun id => (db.task? id).isSome
  let event := fun id => (db.event? id).isSome
  let project := fun id => decide (id ∈ db.projects)
  let notes := Table.delete (fun n => !(kept project n.projectId && kept task n.taskId && kept event n.eventId)) w.notes
  let note := fun id => Table.has (fun n => n.id == id) notes
  { w with
    db := db
    projects := w.projects.filter fun p => project p.id
    labels := w.labels.filter fun l => (db.calendar? l.id).isSome
    notes := notes
    files := w.files.map fun f =>
      { f with
        projectId := f.projectId.filter project, taskId := f.taskId.filter task
        noteId := f.noteId.filter note, eventId := f.eventId.filter event }
    focus := Table.delete (fun f => !task f.taskId) w.focus
    moves := Table.delete (fun m => !(event m.eventId && kept task m.taskId)) w.moves
    revisions := bumpFocus (w.focus.filter fun f => !task f.taskId)
      (bump .calendars (calendarChanges w.db db) w.revisions) }

/-- A transaction of the first tables. -/
def onDb {α : Type} (t : StoreTx α) : WorkspaceTx α := fun w =>
  match t w.db with
  | .ok (a, db) => .ok (a, w.settle db)
  | .error e => .error e

/-- Draw a fresh id. -/
def fresh (w : Workspace) : Workspace := { w with db := w.db.fresh }

def label (w : Workspace) (calendar : Uuid) : CalendarLabel :=
  (w.labels.find? (·.id == calendar)).getD ⟨calendar, "My calendar", "#64748b", 1⟩

end Workspace

namespace Store

/-! ## Notes -/

structure CreateNoteRequest where
  projectId : Option Uuid
  taskId : Option Uuid
  eventId : Option Uuid
  title : String
  markdown : String
deriving DecidableEq, Repr

structure UpdateNoteRequest extends CreateNoteRequest where
  expectedVersion : Int
deriving DecidableEq, Repr

def validateNoteFields (title markdown : String) : Except AppError Unit := do
  if (trim title).length = 0 ∨ (trim title).length > 240 then
    throw (.validation "note title must contain between 1 and 240 characters")
  if markdown.length > 100000 then throw (.validation "note Markdown cannot exceed 100000 characters")

def validateNoteLink (project task event : Option Uuid) (db : Db) : Except AppError Unit := do
  if ([project, task, event].filterMap id).length > 1 then
    throw (.validation "a note can attach to only one project, task, or event")
  let valid := match project, task, event with
    | some id, none, none => decide (id ∈ db.projects)
    | none, some id, none => (db.task? id).isSome
    | none, none, some id => (db.event? id).isSome
    | _, _, _ => true
  if valid = false then throw (.validation "note attachment must belong to the current user")

def createNote (r : CreateNoteRequest) : WorkspaceTx Note := do
  Tx.ofExcept (validateNoteFields r.title r.markdown)
  let w ← Tx.read
  Tx.ofExcept (validateNoteLink r.projectId r.taskId r.eventId w.db)
  let note : Note :=
    { id := w.db.nextId, projectId := r.projectId, taskId := r.taskId, eventId := r.eventId, title := trim r.title,
      markdown := r.markdown, createdAt := w.db.now, updatedAt := w.db.now, version := 1 }
  Tx.write fun w => { w.fresh with notes := w.notes ++ [note] }
  return note

def noteError {α : Type} (note : Option Note) (expectedVersion : Int) : WorkspaceTx α :=
  match note with
  | some n => Tx.raise (.conflict ("note changed since version " ++ toString expectedVersion ++
      "; current version is " ++ toString n.version))
  | none => Tx.raise (.notFound "note")

def updateNote (note : Uuid) (r : UpdateNoteRequest) : WorkspaceTx Note := do
  Tx.ofExcept (validateNoteFields r.title r.markdown)
  let w ← Tx.read
  Tx.ofExcept (validateNoteLink r.projectId r.taskId r.eventId w.db)
  match w.notes.find? (·.id == note) with
  | none => noteError none r.expectedVersion
  | some n =>
    if n.version ≠ r.expectedVersion then noteError (some n) r.expectedVersion
    else
      let updated : Note :=
        { n with
          projectId := r.projectId, taskId := r.taskId, eventId := r.eventId, title := trim r.title,
          markdown := r.markdown, updatedAt := w.db.now, version := n.version + 1 }
      Tx.write fun w => { w with notes := Table.update (·.id == note) (fun _ => updated) w.notes }
      return updated

/-- Its files stay, without the reference to it. -/
def deleteNote (note : Uuid) (expectedVersion : Int) : WorkspaceTx Unit := do
  match (← Tx.read).notes.find? (·.id == note) with
  | none => noteError none expectedVersion
  | some n =>
    if n.version ≠ expectedVersion then noteError (some n) expectedVersion
    else
      Tx.write fun w =>
        { w with
          notes := Table.delete (·.id == note) w.notes
          files := Table.update (·.noteId == some note) (fun f => { f with noteId := none }) w.files }

/-! ## Files -/

structure FileRequest where
  projectId : Option Uuid
  taskId : Option Uuid
  noteId : Option Uuid
  eventId : Option Uuid
  objectKey : String
  filename : String
  contentType : String
  byteSize : Int
  maxUserStorageBytes : Int
  maxTotalStorageBytes : Int
deriving DecidableEq, Repr

def validateOneParent (project task note event : Option Uuid) : Except AppError Unit := do
  if ([project, task, note, event].filterMap id).length > 1 then
    throw (.validation "a file can be linked to at most one item")

def verifyFileParent (project task note event : Option Uuid) (w : Workspace) : Except AppError Unit :=
  let exists_ : Bool := match project, task, note, event with
    | some id, _, _, _ => decide (id ∈ w.db.projects)
    | none, some id, _, _ => (w.db.task? id).isSome
    | none, none, some id, _ => Table.has (·.id == id) w.notes
    | none, none, none, some id => (w.db.event? id).isSome
    | none, none, none, none => true
  if exists_ then .ok () else .error (.notFound "file parent")

/-- `othersUsedBytes`: what the files of all other users add up to. -/
def createFileMetadata (othersUsedBytes : Int) (r : FileRequest) : WorkspaceTx FileRecord := do
  Tx.ofExcept (validateOneParent r.projectId r.taskId r.noteId r.eventId)
  let w ← Tx.read
  Tx.ofExcept (verifyFileParent r.projectId r.taskId r.noteId r.eventId w)
  let userUsedBytes := (w.files.map (·.byteSize)).sum
  if r.byteSize > r.maxUserStorageBytes - userUsedBytes then
    Tx.raise (.invalidRequest 413 "personal attachment storage quota exceeded")
  else if r.byteSize > r.maxTotalStorageBytes - (userUsedBytes + othersUsedBytes) then
    Tx.raise (.invalidRequest 413 "attachment storage quota exceeded")
  else if Table.has (·.objectKey == r.objectKey) w.files then Tx.raise (.database .unique)
  else
    let file : FileRecord :=
      { id := w.db.nextId, projectId := r.projectId, taskId := r.taskId, noteId := r.noteId, eventId := r.eventId,
        objectKey := r.objectKey, filename := r.filename, contentType := r.contentType, byteSize := r.byteSize,
        createdAt := w.db.now }
    Tx.write fun w => { w.fresh with files := w.files ++ [file] }
    return file

def deleteFileMetadata (file : Uuid) : WorkspaceTx String := do
  match (← Tx.read).files.find? (·.id == file) with
  | none => Tx.raise (.notFound "file")
  | some f =>
    Tx.write fun w => { w with files := Table.delete (·.id == file) w.files }
    return f.objectKey

/-! ## The focus list -/

/-- The rows of a date, with positions from 1 on. -/
def focusRows (date : NaiveDate) (now : DateTime) (tasks : List Uuid) : List FocusTask :=
  tasks.mapIdx fun i task => ⟨date, task, i + 1, now⟩

/-- Replace the rows of a date. -/
def replaceFocus (date : NaiveDate) (tasks : List Uuid) (w : Workspace) : Workspace :=
  let rows := focusRows date w.db.now tasks
  { w with
    focus := Table.delete (·.focusDate == date) w.focus ++ rows
    revisions := Workspace.bumpFocus (w.focus.filter (·.focusDate == date) ++ rows) w.revisions }

def updateDailyFocus (date : NaiveDate) (taskIds : List Uuid) : WorkspaceTx Unit := do
  if taskIds.length > 3 then Tx.raise (.validation "a daily plan cannot contain more than three focus tasks")
  else if ¬ taskIds.Nodup then Tx.raise (.validation "focus task identifiers must be unique")
  else
    let w ← Tx.read
    if (w.db.tasks.filter fun t => decide (t.id ∈ taskIds) && t.status != .completed).length ≠ taskIds.length then
      Tx.raise (.validation "focus tasks must reference the user's incomplete tasks")
    else
      Tx.write fun w => replaceFocus date taskIds { w with revisions := Workspace.bump (.focus date) 1 w.revisions }

/-! ## The daily review -/

inductive ReviewDecisionAction
  | carryForward | reschedule | remove
deriving DecidableEq, Repr

structure ReviewDecision where
  taskId : Uuid
  action : ReviewDecisionAction
  dueAt : Option DateTime
deriving DecidableEq, Repr

/-- The unfinished tasks in the focus of a date, by position. -/
def focusTasksForDate (date : NaiveDate) (w : Workspace) : List TaskRow :=
  ((w.focus.filter (·.focusDate == date)).insertionSort (fun a b => a.position ≤ b.position)).filterMap fun f =>
    (w.db.task? f.taskId).filter (·.status != .completed)

def previousUnfinishedFocusDate (reviewDate : NaiveDate) (w : Workspace) : Option NaiveDate :=
  ((w.focus.filter fun f =>
    decide (f.focusDate < reviewDate) && (w.db.task? f.taskId).any (·.status != .completed)).map (·.focusDate)).max?

/-- A write of `daily_reviews`, with its trigger. -/
def writeReview (date : NaiveDate) (f : List DailyReview → List DailyReview) (w : Workspace) : Workspace :=
  { w with
    reviews := f w.reviews
    revisions := Workspace.bump (.focus date) 1 (Workspace.bump .reviewSelection 1 w.revisions) }

def startDailyReview (reviewDate : NaiveDate) (manual : Bool) : WorkspaceTx (Option (DailyReview × List TaskRow)) := do
  let w ← Tx.read
  if manual = false ∧ w.automaticDailyReview = false then return none
  else
    match previousUnfinishedFocusDate reviewDate w with
    | none => return none
    | some previous =>
      match w.reviews.find? (·.reviewDate == reviewDate) with
      | some review => return some (review, focusTasksForDate previous w)
      | none =>
        let review : DailyReview := ⟨w.db.nextId, reviewDate, .open_, w.db.now, none, 1⟩
        Tx.write fun w => writeReview reviewDate (· ++ [review]) w.fresh
        return some (review, focusTasksForDate previous w)

/-- The decisions in order: the tasks carried forward, new deadlines written. -/
def decideReview : List ReviewDecision → (carried : List Uuid) → WorkspaceTx (List Uuid)
  | [], carried => return carried
  | d :: rest, carried =>
    match d.action with
    | .carryForward => decideReview rest (carried ++ [d.taskId])
    | .remove => decideReview rest carried
    | .reschedule =>
      match d.dueAt with
      | none => Tx.raise (.validation "rescheduled review tasks require a new deadline")
      | some dueAt => do
        Tx.write fun w => { w with db := w.db.updateTask d.taskId fun t =>
          { t with dueAt := some dueAt, updatedAt := w.db.now, version := t.version + 1 } }
        decideReview rest carried

/-- `Vec::dedup`. -/
def dedup : List Uuid → List Uuid
  | a :: b :: l => if a = b then dedup (b :: l) else a :: dedup (b :: l)
  | l => l

def completeDailyReview (reviewDate : NaiveDate) (expectedVersion : Int) (decisions : List ReviewDecision) :
    WorkspaceTx DailyReview := do
  Tx.write fun w => { w with revisions := Workspace.bump .reviewSelection 1 w.revisions }
  let w ← Tx.read
  match w.reviews.find? (·.reviewDate == reviewDate) with
  | none => Tx.raise (.notFound "daily review")
  | some review =>
    if review.status = .completed then Tx.raise (.conflict "daily review is already completed")
    else if review.version ≠ expectedVersion then
      Tx.raise (.conflict ("daily review changed since version " ++ toString expectedVersion ++
        "; current version is " ++ toString review.version))
    else
      match previousUnfinishedFocusDate reviewDate w with
      | none => Tx.raise (.conflict "there are no unfinished focus tasks")
      | some previous =>
        Tx.write fun w => { w with
          revisions := Workspace.bump (.focus reviewDate) 1 (Workspace.bump (.focus previous) 1 w.revisions) }
        let unfinished : List Uuid := (focusTasksForDate previous w).map (·.id)
        let decided : List Uuid := decisions.map (·.taskId)
        if ¬ decided.Nodup ∨ ¬ decided ⊆ unfinished ∨ ¬ unfinished ⊆ decided then
          Tx.raise (.validation "a decision is required for every unfinished focus task")
        else
          let carried ← decideReview decisions []
          let existing := ((w.focus.filter (·.focusDate == reviewDate)).insertionSort
            fun a b => a.position ≤ b.position).map (·.taskId)
          let carried := dedup (existing.foldl (fun l t => if t ∈ l then l else t :: l) carried)
          if carried.length > 3 then
            Tx.raise (.validation "carrying these tasks forward would exceed three focus tasks")
          else
            Tx.write (replaceFocus reviewDate carried)
            let completed := { review with
              status := .completed, completedAt := some w.db.now, version := review.version + 1 }
            Tx.write (writeReview reviewDate (Table.update (·.id == review.id) fun _ => completed))
            return completed

end Store

end Prosepect

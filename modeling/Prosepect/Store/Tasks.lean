/-
`store.rs` and `task_recurrence.rs`: creating, changing and deleting tasks, their calendar
events, and the successors of recurring tasks.

`toLowercase` is `str::to_lowercase`.
-/
import Prosepect.Store.Calendars

namespace Prosepect

open Text Time Resumption

structure CreateTaskRequest where
  projectId : Option Uuid
  parentTaskId : Option Uuid
  title : String
  description : String
  dueAt : Option DateTime
  scheduledStart : Option DateTime
  scheduledEnd : Option DateTime
  status : TaskStatus
  priority : TaskPriority
  recurrence : TaskRecurrence
  labels : List String
  remindAt : Option DateTime
deriving DecidableEq, Repr

structure UpdateTaskRequest extends CreateTaskRequest where
  expectedVersion : Int
deriving DecidableEq, Repr

inductive RecurrenceEditScope
  | thisOccurrence | thisAndFuture
deriving DecidableEq, Repr

namespace Store

/-! ## Validation -/

def validateTaskFields (r : CreateTaskRequest) : Except AppError Unit := do
  if (trim r.title).length = 0 ∨ (trim r.title).length > 240 then
    throw (.validation "task title must contain between 1 and 240 characters")
  if r.description.length > 10000 then
    throw (.validation "task description cannot exceed 10000 characters")
  if r.recurrence ≠ .none ∧ r.dueAt = none then
    throw (.validation "a recurring task must have a deadline")
  if r.recurrence ≠ .none ∧ r.parentTaskId ≠ none then throw (.validation "a subtask cannot recur")
  match r.scheduledStart, r.scheduledEnd with
  | none, none => return ()
  | some start, some end_ =>
    if end_ > start then return () else throw (.validation "scheduled_end must be after scheduled_start")
  | _, _ => throw (.validation "scheduled_start and scheduled_end must be provided together")

/-- The labels trimmed, in lower case, the empty ones and repetitions left out. -/
def normalizeLabels (toLowercase : String → String) : (seen : List String) → List String →
    Except AppError (List String)
  | seen, [] => .ok seen
  | seen, label :: rest =>
    let label := toLowercase (trim label)
    if label.length = 0 then normalizeLabels toLowercase seen rest
    else if label.length > 32 then .error (.validation "task labels cannot exceed 32 characters")
    else if label ∈ seen then normalizeLabels toLowercase seen rest
    else normalizeLabels toLowercase (seen ++ [label]) rest

def validateLabels (toLowercase : String → String) (labels : List String) : Except AppError (List String) := do
  let labels ← normalizeLabels toLowercase [] labels
  if labels.length > 10 then throw (.validation "a task cannot have more than 10 labels")
  return labels

def validateTaskRelationships (project parent : Option Uuid) (db : Db) : Except AppError Unit := do
  match project with
  | some project =>
    if project ∉ db.projects then throw (.validation "project_id must reference one of the user's projects")
  | none => pure ()
  match parent with
  | some parent =>
    match db.task? parent with
    | some p =>
      if p.projectId ≠ project then throw (.validation "parent task must belong to the same project")
      if p.recurrence ≠ .none then throw (.validation "a recurring task cannot have subtasks")
    | none => throw (.validation "parent_task_id must reference one of the user's tasks")
  | none => pure ()

/-- The chain of parents of a task; it has no more members than there are tasks. -/
def parentChain (db : Db) : (steps : Nat) → Uuid → List Uuid
  | 0, _ => []
  | n + 1, id =>
    match db.task? id with
    | none => []
    | some t => id :: (match t.parentTaskId with
      | some parent => parentChain db n parent
      | none => [])

def validateTaskUpdateRelationships (task : Uuid) (project parent : Option Uuid) (recurrence : TaskRecurrence)
    (db : Db) : Except AppError Unit := do
  match db.task? task with
  | none => throw (.notFound "task")
  | some current =>
    let hasSubtasks := Table.has (·.parentTaskId == some task) db.tasks
    if recurrence ≠ .none ∧ hasSubtasks then throw (.validation "a task with subtasks cannot recur")
    if current.projectId ≠ project ∧ hasSubtasks then
      throw (.validation "a task with subtasks cannot change its project assignment")
    match parent with
    | some parent =>
      if task ∈ parentChain db db.tasks.length parent then
        throw (.validation "parent_task_id would create a subtask cycle")
    | none => pure ()

/-! ## Recurrence -/

def nextRecurrenceDate (dueAt : DateTime) (recurrence : TaskRecurrence) : Except AppError DateTime :=
  let next := match recurrence with
    | .none => none
    | .daily => checkedAddSigned dueAt usPerDay
    | .weekly => checkedAddSigned dueAt (7 * usPerDay)
    | .monthly => checkedAddMonths dueAt 1
    | .yearly => checkedAddMonths dueAt 12
  match next with
  | some t => .ok t
  | none => .error (.validation "recurrence date is out of range")

def defaultsFromTask (task : Task) : Except AppError RecurrenceDefaults :=
  match task.dueAt with
  | none => .error (.validation "a recurring task must have a deadline")
  | some dueAt => .ok {
      title := task.title, description := task.description, dueAt := dueAt, scheduledStart := task.scheduledStart,
      scheduledEnd := task.scheduledEnd, priority := task.priority, recurrence := task.recurrence,
      labels := task.labels, remindAt := task.remindAt }

/-- `RecurringTaskState::prepare`: the row with the defaults the update is to store. -/
def prepare (row : TaskRow) (request : UpdateTaskRequest) (scope : Option RecurrenceEditScope) :
    Except AppError TaskRow := do
  if row.version ≠ request.expectedVersion then
    throw (.conflict ("task changed since version " ++ toString request.expectedVersion ++
      "; current version is " ++ toString row.version))
  if scope.isSome ∧ row.status = .completed then
    throw (.validation "Choose an unfinished task to edit recurring occurrences.")
  match scope with
  | some .thisOccurrence =>
    if row.recurrence = .none ∨ request.recurrence ≠ row.recurrence then
      throw (.validation "Choose this and future occurrences to change the repeat rule.")
    if row.recurrenceDefaults.isNone then
      let defaults ← defaultsFromTask row.toTask
      return { row with recurrenceDefaults := some defaults, recurrenceProjectId := row.projectId }
    return row
  | some .thisAndFuture => return { row with recurrenceDefaults := none, recurrenceProjectId := none }
  | none =>
    -- an exception saved earlier survives updates that keep the cadence
    if request.recurrence ≠ row.recurrence ∨ request.recurrence = .none then
      return { row with recurrenceDefaults := none, recurrenceProjectId := none }
    return row

def successorSource (row : TaskRow) : Task :=
  match row.recurrenceDefaults with
  | none => row.toTask
  | some d => { row.toTask with
      projectId := row.recurrenceProjectId, title := d.title, description := d.description, dueAt := some d.dueAt,
      scheduledStart := d.scheduledStart, scheduledEnd := d.scheduledEnd, priority := d.priority,
      recurrence := d.recurrence, labels := d.labels, remindAt := d.remindAt }

/-! ## Writing tasks -/

def ensureLabels (labels : List String) (db : Db) : Db :=
  { db with labels := labels.foldl (fun names label => if label ∈ names then names else names ++ [label]) db.labels }

/-- `COALESCE(MAX(position), 0) + 1024`. -/
def nextTaskPosition (db : Db) : Int := ((db.tasks.map (·.position)).max?).getD 0 + 1024

def createTask (toLowercase : String → String) (r : CreateTaskRequest) : StoreTx Task := do
  Tx.ofExcept (validateTaskFields r)
  let labels ← Tx.ofExcept (validateLabels toLowercase r.labels)
  if r.recurrence ≠ .none ∧ r.status = .completed then
    Tx.raise (.validation "a recurring task cannot be created as completed")
  else
    let db ← Tx.read
    Tx.ofExcept (validateTaskRelationships r.projectId r.parentTaskId db)
    let task : Task :=
      { id := db.nextId, projectId := r.projectId, parentTaskId := r.parentTaskId, title := trim r.title,
        description := trim r.description, dueAt := r.dueAt, scheduledStart := r.scheduledStart,
        scheduledEnd := r.scheduledEnd, status := r.status, priority := r.priority, recurrence := r.recurrence,
        labels := labels, remindAt := r.remindAt, position := nextTaskPosition db,
        completedAt := if r.status = .completed then some db.now else none,
        createdAt := db.now, updatedAt := db.now, version := 1 }
    Tx.write fun db => ensureLabels labels (db.fresh.insertTask
      { toTask := task, recurrenceSourceId := none, recurrenceDefaults := none, recurrenceProjectId := none })
    syncTaskCalendarEvent task
    return task

/-- The next occurrence of a task, `shift` later than its source. -/
def successor (source : Task) (id : Uuid) (nextDueAt : DateTime) (shift : TimeDelta) (position : Int)
    (now : DateTime) : TaskRow where
  id := id
  projectId := source.projectId
  parentTaskId := none
  title := source.title
  description := source.description
  dueAt := some nextDueAt
  scheduledStart := source.scheduledStart.map (· + shift)
  scheduledEnd := source.scheduledEnd.map (· + shift)
  status := .todo
  priority := source.priority
  recurrence := source.recurrence
  labels := source.labels
  remindAt := source.remindAt.map (· + shift)
  position := position
  completedAt := none
  createdAt := now
  updatedAt := now
  version := 1
  recurrenceSourceId := some source.id
  recurrenceDefaults := none
  recurrenceProjectId := none

/-- `value + shift` panics out of the range of instants. -/
def shiftable (source : Task) (shift : TimeDelta) : Bool :=
  [source.scheduledStart, source.scheduledEnd, source.remindAt].all fun value =>
    value.all fun t => (checkedAddSigned t shift).isSome

def createNextRecurringTask (task : Uuid) : StoreTx Unit := do
  match (← Tx.read).task? task with
  | none => Tx.raise (.notFound "task")
  | some row =>
    let source := successorSource row
    Tx.write (ensureLabels source.labels)
    match source.dueAt with
    | none => Tx.raise (.validation "a recurring task must have a deadline")
    | some dueAt =>
      let nextDueAt ← Tx.ofExcept (nextRecurrenceDate dueAt source.recurrence)
      let db ← Tx.read
      if shiftable source (nextDueAt - dueAt) = false then Tx.raise .panicked
      else if Table.has (·.recurrenceSourceId == some source.id) db.tasks then raiseSql .unique
      else
        let next := successor source db.nextId nextDueAt (nextDueAt - dueAt) (nextTaskPosition db) db.now
        Tx.write fun db => db.fresh.insertTask next
        syncTaskCalendarEvent next.toTask

def removeNextOccurrenceForReopen (task : Uuid) : StoreTx Unit := do
  match (← Tx.read).tasks.find? (·.recurrenceSourceId == some task) with
  | some next =>
    if next.status = .todo ∧ next.version = 1 then Tx.write (Db.deleteTask next.id)
    else Tx.raise (.conflict "task cannot be reopened after its next occurrence was changed")
  | none => return ()

/-- The columns an update of a task writes. -/
def updatedTask (r : UpdateTaskRequest) (labels : List String) (prepared : TaskRow) (now : DateTime)
    (row : TaskRow) : TaskRow :=
  { row with
    projectId := r.projectId, parentTaskId := r.parentTaskId, title := trim r.title,
    description := trim r.description, dueAt := r.dueAt, scheduledStart := r.scheduledStart,
    scheduledEnd := r.scheduledEnd, status := r.status, priority := r.priority, recurrence := r.recurrence,
    recurrenceDefaults := prepared.recurrenceDefaults, recurrenceProjectId := prepared.recurrenceProjectId,
    labels := labels, remindAt := r.remindAt,
    completedAt := if r.status = .completed ∧ row.completedAt.isSome then row.completedAt
      else if r.status = .completed then some now else none
    updatedAt := now, version := row.version + 1 }

def updateTaskScoped (toLowercase : String → String) (task : Uuid) (r : UpdateTaskRequest)
    (scope : Option RecurrenceEditScope) : StoreTx Task := do
  Tx.ofExcept (validateTaskFields r.toCreateTaskRequest)
  let labels ← Tx.ofExcept (validateLabels toLowercase r.labels)
  if r.expectedVersion < 1 then Tx.raise (.validation "expected_version must be greater than zero")
  else if r.parentTaskId = some task then Tx.raise (.validation "a task cannot be its own parent")
  else
    let db ← Tx.read
    Tx.ofExcept (validateTaskRelationships r.projectId r.parentTaskId db)
    Tx.ofExcept (validateTaskUpdateRelationships task r.projectId r.parentTaskId r.recurrence db)
    match db.task? task with
    | none => Tx.raise (.notFound "task")
    | some row =>
      let prepared ← Tx.ofExcept (prepare row r scope)
      if row.status = .completed ∧ r.status ≠ .completed then removeNextOccurrenceForReopen task else pure ()
      -- the version was compared by `prepare`, under the same lock
      let updated := updatedTask r labels prepared (← Tx.read).now row
      Tx.write fun db => ensureLabels updated.labels (db.updateTask task fun _ => updated)
      syncTaskCalendarEvent updated.toTask
      if row.status ≠ .completed ∧ updated.status = .completed ∧ updated.recurrence ≠ .none then
        createNextRecurringTask task
      else pure ()
      return updated.toTask

def updateTask (toLowercase : String → String) (task : Uuid) (r : UpdateTaskRequest) : StoreTx Task :=
  updateTaskScoped toLowercase task r none

def deleteTask (task : Uuid) (expectedVersion : Int) : StoreTx Unit := do
  if expectedVersion < 1 then Tx.raise (.validation "expected_version must be greater than zero")
  else
    let db ← Tx.read
    if Table.has (·.parentTaskId == some task) db.tasks then
      Tx.raise (.conflict "task cannot be deleted while it has subtasks")
    else
      Tx.write (removeTaskCalendarEvent task)
      match (← Tx.read).task? task with
      | none => Tx.raise (.notFound "task")
      | some row =>
        if row.version ≠ expectedVersion then
          Tx.raise (.conflict ("task changed since version " ++ toString expectedVersion ++
            "; current version is " ++ toString row.version))
        else Tx.write (Db.deleteTask task)

end Store

end Prosepect

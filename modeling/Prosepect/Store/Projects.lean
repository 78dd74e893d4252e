/-
`store.rs`: projects and the import of one from Todoist; of `google_tasks_sync.rs` the import of
a remote task.

`toLowercase` is `str::to_lowercase`.
-/
import Prosepect.Store.Workspace

namespace Prosepect

open Text Time Resumption

namespace Db

/-! ## Cascades -/

/-- Tasks deleted by one statement take their events along, and are no longer the sources of
their successors. -/
def deleteTasks (p : TaskRow → Bool) (db : Db) : Db :=
  let gone := fun (id : Uuid) => Table.has (fun t : TaskRow => p t && t.id == id) db.tasks
  { (db.deleteEvents fun e => e.linkedTaskId.any gone) with
    tasks := Table.update (fun t => t.recurrenceSourceId.any gone) (fun t => { t with recurrenceSourceId := none })
      (Table.delete p db.tasks) }

/-- `tasks_recurrence_project_owner_fk`, with its trigger `bump_recurrence_project_version`. -/
def unassignRecurrence (project : Uuid) (db : Db) : Db :=
  { db with
    tasks := Table.update (·.recurrenceProjectId == some project)
      (fun t => { t with recurrenceProjectId := none, updatedAt := db.now, version := t.version + 1 }) db.tasks }

/-- A deleted project takes its tasks along. -/
def deleteProject (project : Uuid) (db : Db) : Db :=
  { ((db.deleteTasks (·.projectId == some project)).unassignRecurrence project) with
    projects := Table.delete (· == project) db.projects }

end Db

namespace Store

/-! ## Projects -/

structure CreateProjectRequest where
  name : String
  outcome : String
  targetDate : Option NaiveDate
  status : ProjectStatus
deriving DecidableEq, Repr

structure UpdateProjectRequest extends CreateProjectRequest where
  expectedVersion : Int
deriving DecidableEq, Repr

def validateProjectFields (name outcome : String) : Except AppError Unit := do
  if (trim name).length = 0 ∨ (trim name).length > 120 then
    throw (.validation "project name must contain between 1 and 120 characters")
  if outcome.length > 2000 then throw (.validation "project outcome cannot exceed 2000 characters")

def insertProject (r : CreateProjectRequest) : WorkspaceTx Project := do
  let w ← Tx.read
  let project : Project :=
    { id := w.db.nextId, name := trim r.name, outcome := trim r.outcome, targetDate := r.targetDate, status := r.status,
      createdAt := w.db.now, updatedAt := w.db.now, version := 1 }
  Tx.write fun w =>
    { w with
      db := { w.db.fresh with projects := w.db.projects ++ [project.id] }
      projects := w.projects ++ [project] }
  return project

def createProject (r : CreateProjectRequest) : WorkspaceTx Project := do
  Tx.ofExcept (validateProjectFields r.name r.outcome)
  insertProject r

def projectError {α : Type} (project : Option Project) (expectedVersion : Int) : WorkspaceTx α :=
  match project with
  | some p => Tx.raise (.conflict ("project changed since version " ++ toString expectedVersion ++
      "; current version is " ++ toString p.version))
  | none => Tx.raise (.notFound "project")

def updateProject (project : Uuid) (r : UpdateProjectRequest) : WorkspaceTx Project := do
  Tx.ofExcept (validateProjectFields r.name r.outcome)
  if r.expectedVersion < 1 then Tx.raise (.validation "expected_version must be greater than zero")
  else
    let w ← Tx.read
    match w.projects.find? (·.id == project) with
    | none => projectError none r.expectedVersion
    | some p =>
      if p.version ≠ r.expectedVersion then projectError (some p) r.expectedVersion
      else
        let updated := { p with
          name := trim r.name, outcome := trim r.outcome, targetDate := r.targetDate, status := r.status,
          updatedAt := w.db.now, version := p.version + 1 }
        Tx.write fun w => { w with projects := Table.update (·.id == project) (fun _ => updated) w.projects }
        return updated

/-- The events of the tasks of a project, one after the other. -/
def removeProjectEvents (project : Uuid) (db : Db) : Db :=
  (db.tasks.filter (·.projectId == some project)).foldl (fun db t => removeTaskCalendarEvent t.id db) db

def deleteProject (project : Uuid) (expectedVersion : Int) : WorkspaceTx Unit := do
  if expectedVersion < 1 then Tx.raise (.validation "expected_version must be greater than zero")
  else
    Workspace.onDb (Tx.write (removeProjectEvents project))
    match (← Tx.read).projects.find? (·.id == project) with
    | none => projectError none expectedVersion
    | some p =>
      if p.version ≠ expectedVersion then projectError (some p) expectedVersion
      else Workspace.onDb (Tx.write (Db.deleteProject project))

/-! ## Todoist -/

structure TodoistImportTask where
  title : String
  description : String
  dueAt : Option DateTime
  scheduledStart : Option DateTime
  scheduledEnd : Option DateTime
  priority : TaskPriority
  recurrence : TaskRecurrence
  labels : List String
  parentIndex : Option Nat
deriving DecidableEq, Repr

structure TodoistImportRequest where
  projectName : String
  projectDescription : String
  tasks : List TodoistImportTask
deriving DecidableEq, Repr

/-- What `validate_task_fields` is given: any parent is `Uuid::nil()`. -/
def importFields (task : TodoistImportTask) : CreateTaskRequest where
  projectId := none
  parentTaskId := task.parentIndex.map fun _ => 0
  title := task.title
  description := task.description
  dueAt := task.dueAt
  scheduledStart := task.scheduledStart
  scheduledEnd := task.scheduledEnd
  status := .todo
  priority := task.priority
  recurrence := task.recurrence
  labels := task.labels
  remindAt := none

/-- The tasks from `index` on, with their labels. -/
def prepareImport (toLowercase : String → String) : (index : Nat) → List TodoistImportTask →
    Except AppError (List (TodoistImportTask × List String))
  | _, [] => .ok []
  | index, task :: rest => do
    if task.parentIndex.any (index ≤ ·) then
      throw (.validation "an imported task parent must appear before its child")
    validateTaskFields (importFields task)
    let labels ← validateLabels toLowercase task.labels
    let rest ← prepareImport toLowercase (index + 1) rest
    return (task, labels) :: rest

def importedTask (project : Uuid) (parent : Option Uuid) (task : TodoistImportTask) (labels : List String)
    (position : Int) (id : Uuid) (now : DateTime) : TaskRow where
  id := id
  projectId := some project
  parentTaskId := parent
  title := trim task.title
  description := trim task.description
  dueAt := task.dueAt
  scheduledStart := task.scheduledStart
  scheduledEnd := task.scheduledEnd
  status := .todo
  priority := task.priority
  recurrence := task.recurrence
  labels := labels
  remindAt := none
  position := position
  completedAt := none
  createdAt := now
  updatedAt := now
  version := 1
  recurrenceSourceId := none
  recurrenceDefaults := none
  recurrenceProjectId := none

/-- Insert the tasks that are left; `taskIds` are the ids of those before. -/
def importTasks (project : Uuid) : (position : Int) → (taskIds : List Uuid) →
    List (TodoistImportTask × List String) → StoreTx (List Uuid)
  | _, taskIds, [] => return taskIds
  | position, taskIds, (task, labels) :: rest => do
    let db ← Tx.read
    -- the index was compared with that of the task: `task_ids` reaches as far
    let row := importedTask project (task.parentIndex.bind fun i => taskIds[i]?) task labels position db.nextId db.now
    Tx.write fun db => ensureLabels labels (db.fresh.insertTask row)
    syncTaskCalendarEvent row.toTask
    importTasks project (position + 1024) (taskIds ++ [row.id]) rest

def importTodoistProject (toLowercase : String → String) (r : TodoistImportRequest) :
    WorkspaceTx (Project × Nat) := do
  Tx.ofExcept (validateProjectFields r.projectName r.projectDescription)
  if r.tasks.length > 5000 then
    Tx.raise (.validation "a Todoist import cannot contain more than 5000 tasks")
  else
    let prepared ← Tx.ofExcept (prepareImport toLowercase 0 r.tasks)
    let project ← insertProject ⟨r.projectName, r.projectDescription, none, .active⟩
    let position := nextTaskPosition (← Tx.read).db
    let taskIds ← Workspace.onDb (importTasks project.id position [] prepared)
    return (project, taskIds.length)

/-! ## Google Tasks -/

/-- `import_google_task` for a task that has no link yet; one without a valid title is skipped. -/
def importGoogleTask (title : String) (deadline : Option DateTime) (completed : Bool) : StoreTx (Option TaskRow) := do
  if (trim title).length = 0 ∨ (trim title).length > 240 then return none
  else
    let db ← Tx.read
    let row : TaskRow :=
      { id := db.nextId, projectId := none, parentTaskId := none, title := trim title, description := "",
        dueAt := deadline, scheduledStart := none, scheduledEnd := none,
        status := if completed then .completed else .todo, priority := .medium, recurrence := .none, labels := [],
        remindAt := none, position := ((db.tasks.map (·.position)).max?).getD 0 + 1,
        completedAt := if completed then some db.now else none, createdAt := db.now, updatedAt := db.now, version := 1,
        recurrenceSourceId := none, recurrenceDefaults := none, recurrenceProjectId := none }
    Tx.write fun db => db.fresh.insertTask row
    return some row

/-! ## The order of tasks -/

def reorderTasks (taskIds : List Uuid) : StoreTx Unit := do
  if ¬ taskIds.Nodup then Tx.raise (.validation "task_ids cannot contain duplicates")
  else
    let db ← Tx.read
    if db.tasks.length ≠ taskIds.length then
      Tx.raise (.validation "task_ids must contain every task in the workspace")
    else if (db.tasks.filter fun t => decide (t.id ∈ taskIds)).length ≠ db.tasks.length then
      Tx.raise (.validation "task_ids must reference only the user's tasks")
    else
      Tx.write fun db => taskIds.zipIdx.foldl (fun db (id, index) =>
        db.updateTask id fun t => { t with position := (index + 1) * 1024 }) db

end Store

end Prosepect

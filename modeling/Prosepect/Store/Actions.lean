/-
What can happen to a workspace: the operations of the store on it, each a transaction, and the
statements of its synchronizations. A run is a list of these, in any order.
-/
import Prosepect.Calendar.Statements
import Prosepect.Store.CalendarList
import Prosepect.Store.Moves
import Prosepect.Store.Projects
import Prosepect.Store.Undo

namespace Prosepect

open Time Resumption Store

/-- What the store uses of its surroundings. -/
structure Env where
  /-- `str::to_lowercase`. -/
  toLowercase : String → String
  /-- The size of the JSON text of a snapshot. -/
  octets : Snapshot → Nat

inductive Action
  | tick (now : DateTime)
  | createProject (r : CreateProjectRequest)
  | updateProject (project : Uuid) (r : UpdateProjectRequest)
  | deleteProject (project : Uuid) (expectedVersion : Int)
  | importTodoistProject (r : TodoistImportRequest)
  | importGoogleTask (title : String) (deadline : Option DateTime) (completed : Bool)
  | createTask (r : CreateTaskRequest)
  | updateTask (task : Uuid) (r : UpdateTaskRequest) (scope : Option RecurrenceEditScope)
  | reorderTasks (taskIds : List Uuid)
  | deleteTask (task : Uuid) (expectedVersion : Int)
  | deleteTaskWithUndo (locked validated : Bool) (task : Uuid) (expectedVersion : Int)
  | undoTaskDelete (locked : Bool) (validation : Except AppError Unit) (receipt : Uuid)
  | cleanupTaskDeleteUndos
  | createEvent (r : CreateCalendarEventRequest)
  | updateEvent (event : Uuid) (r : UpdateCalendarEventRequest)
  | deleteEvent (event : Uuid) (expectedVersion : Int)
  | moveCalendarItem (locked : Bool) (item : Uuid) (isTask : Bool) (r : MoveCalendarItemRequest)
  | undoCalendarMove (locked : Bool) (receipt : Uuid)
  | cleanupMoves
  | createCalendar (name color : String)
  | updateCalendar (calendar : Uuid) (r : UpdateCalendarRequest)
  | deleteCalendar (calendar : Uuid) (expectedVersion : Int)
  | connectGoogle (account : GoogleAccount)
  | revokeGoogleIntegration
  | discoverCalendar (entry : GoogleCalendar)
  | migrateScheduledTasks
  | createNote (r : CreateNoteRequest)
  | updateNote (note : Uuid) (r : UpdateNoteRequest)
  | deleteNote (note : Uuid) (expectedVersion : Int)
  | createFile (othersUsedBytes : Int) (r : FileRequest)
  | deleteFile (file : Uuid)
  | updateDailyFocus (date : NaiveDate) (taskIds : List Uuid)
  | startDailyReview (date : NaiveDate) (manual : Bool)
  | completeDailyReview (date : NaiveDate) (expectedVersion : Int) (decisions : List ReviewDecision)
  | resolveSyncConflict (locked : Bool) (conflict : Uuid) (resolution : String)
  | setSyncConflictPolicy (policy : SyncConflictPolicy)
  /-- `enqueue_sync` with the key a client has chosen. -/
  | requestSync (calendar : Uuid) (key : String)
  /-- One statement of a synchronization. -/
  | sync (s : Stmt)

namespace Action

def void {α : Type} (t : WorkspaceTx α) : WorkspaceTx Unit := t >>= fun _ => pure ()

open Workspace in
def tx (env : Env) : Action → WorkspaceTx Unit
  | .tick now => Tx.write fun w => { w with db := { w.db with now := now } }
  | .createProject r => void (Store.createProject r)
  | .updateProject project r => void (Store.updateProject project r)
  | .deleteProject project version => Store.deleteProject project version
  | .importTodoistProject r => void (Store.importTodoistProject env.toLowercase r)
  | .importGoogleTask title deadline completed => void (onDb (Store.importGoogleTask title deadline completed))
  | .createTask r => void (onDb (Store.createTask env.toLowercase r))
  | .updateTask task r scope => void (onDb (Store.updateTaskScoped env.toLowercase task r scope))
  | .reorderTasks taskIds => onDb (Store.reorderTasks taskIds)
  | .deleteTask task version => onDb (Store.deleteTask task version)
  | .deleteTaskWithUndo locked validated task version =>
    void (deleteTaskWithSnapshot env.octets locked validated task version)
  | .undoTaskDelete locked validation receipt => Store.undoTaskDelete locked validation receipt
  | .cleanupTaskDeleteUndos => onDb (Tx.write Store.cleanupTaskDeleteUndos)
  | .createEvent r => void (onDb (createCalendarEvent env.toLowercase r))
  | .updateEvent event r => void (onDb (updateCalendarEvent env.toLowercase event r))
  | .deleteEvent event version => onDb (deleteCalendarEvent event version)
  | .moveCalendarItem locked item isTask r => void (Store.moveCalendarItem locked item isTask r)
  | .undoCalendarMove locked receipt => Store.undoCalendarMove locked receipt
  | .cleanupMoves => Tx.write Store.cleanupMoves
  | .createCalendar name color => void (Store.createCalendar env.toLowercase name color)
  | .updateCalendar calendar r => Store.updateCalendar env.toLowercase calendar r
  | .deleteCalendar calendar version => Store.deleteCalendar calendar version
  | .connectGoogle account => Store.connectGoogle account
  | .revokeGoogleIntegration => Store.revokeGoogleIntegration
  | .discoverCalendar entry => upsertGoogleCalendar entry
  | .migrateScheduledTasks => onDb migrateScheduledTasksToPreferredCalendar
  | .createNote r => void (Store.createNote r)
  | .updateNote note r => void (Store.updateNote note r)
  | .deleteNote note version => Store.deleteNote note version
  | .createFile others r => void (createFileMetadata others r)
  | .deleteFile file => void (deleteFileMetadata file)
  | .updateDailyFocus date taskIds => Store.updateDailyFocus date taskIds
  | .startDailyReview date manual => void (Store.startDailyReview date manual)
  | .completeDailyReview date version decisions => void (Store.completeDailyReview date version decisions)
  | .resolveSyncConflict locked conflict resolution => void (onDb (Store.resolveSyncConflict locked conflict resolution))
  | .setSyncConflictPolicy policy => onDb (Store.setSyncConflictPolicy policy)
  | .requestSync calendar key => onDb (enqueueSync calendar key)
  | .sync s => onDb (Tx.write fun db => (s.exec db).2)

/-- A transaction that fails leaves the workspace as it was. -/
def perform (env : Env) (a : Action) (w : Workspace) : Workspace := (Tx.commit (a.tx env) w).2

end Action

/-- The workspace of a new account, whose timezone nothing ever sets. -/
def Workspace.initial (now : DateTime) (nextId : Uuid) (policy : Option SyncConflictPolicy) (automatic : Bool) :
    Workspace where
  db := { now := now, nextId := nextId, policy := policy, timezone := "UTC", calendars := [], events := [],
          mappings := [], conflicts := [], jobs := [], undos := [], tasks := [], projects := [], labels := [],
          activity := [] }
  projects := []
  labels := []
  notes := []
  files := []
  focus := []
  reviews := []
  automaticDailyReview := automatic
  moves := []
  snapshots := []
  revisions := fun _ => 0
  account := none

/-- A run whose steps all meet `P`. -/
inductive Run (env : Env) (P : Action → Workspace → Prop) (w : Workspace) : Workspace → Prop
  | start : Run env P w w
  | step {w' : Workspace} (a : Action) : Run env P w w' → P a w' → Run env P w (a.perform env w')

/-- What the steps keep, a run keeps. -/
theorem Run.keeps {env : Env} {P : Action → Workspace → Prop} {I : Workspace → Prop} {w w' : Workspace}
    (h : Run env P w w') (hstep : ∀ a w, P a w → I w → I (a.perform env w)) (hw : I w) : I w' := by
  induction h with
  | start => exact hw
  | step a _ hp ih => exact hstep a _ hp ih

/-- What all successful transactions keep, an action keeps. -/
theorem Action.perform_keeps {env : Env} {I : Workspace → Prop} {a : Action}
    (h : Tx.Within (fun w w' => I w → I w') (a.tx env)) {w : Workspace} (hw : I w) : I (a.perform env w) :=
  Tx.Within.commit (fun _ h => h) h w hw

end Prosepect

/-
`0022_google_tasks.sql`, `google_tasks_store.rs`: the connection of a user with a list of Google
Tasks and the links of the tasks, beside the workspace and Google's lists, with everything that is
written of them. The statements of a synchronization are single writes; the settings, a choice in a
conflict and the detaching of an uncertain creation are transactions that ask for the user's lock.
-/
import Prosepect.Data.Versions
import Prosepect.GoogleTasks.Changes

namespace Prosepect

open Time Text Versions GoogleTasks

namespace TasksSync

structure Config where
  env : Env
  /-- The time zones of `pg_timezone_names`. -/
  zone : String → Option Zone
  dates : Dates
  uuidText : Uuid → String
  uuidText_injective : Function.Injective uuidText
  /-- The etag of a revision. -/
  etag : Nat → String
  etag_injective : Function.Injective etag

/-- The marker in the notes of a task that was created for a link. -/
def createReference (cfg : Config) (link : Uuid) : String := "prosepect task reference: " ++ cfg.uuidText link

theorem createReference_injective (cfg : Config) : Function.Injective (createReference cfg) := by
  intro a b h
  exact cfg.uuidText_injective (String.append_right_inj _ |>.1 h)

structure Connection where
  enabled : Bool
  taskListId : Option String
  timezone : Option String
  changeRevision : Nat
  scanRevision : Option Nat
  scanLinkCursor : Option Uuid
  scanImportCursor : Option String
  scanHadErrors : Bool
  version : Nat
deriving DecidableEq, Repr

structure LinkRow extends GoogleTaskLink where
  taskListId : String
deriving DecidableEq, Repr

/-- What Google has of a task, but for its ids and its etag. -/
structure TaskContent where
  title : String
  due : Option String
  status : Option String
  deleted : Bool
  notes : Option String
  assignmentInfo : Option String
deriving DecidableEq, Repr

/-- The tasks of all lists, by the ids of the list and of the task, in all their versions. -/
abbrev Lists := History (String × String) TaskContent

structure World where
  workspace : Workspace
  connection : Option Connection
  links : List LinkRow
  google : Lists
  /-- The notes with which requests of the synchronization have created tasks; nothing reads it. -/
  created : List String
  /-- The lock `prosepect-sync:` of the user. -/
  locked : Bool

/-- A version as it is sent. -/
def shown (cfg : Config) (v : Version (String × String) TaskContent) : GoogleTask where
  id := v.key.2
  etag := some (cfg.etag v.revision)
  title := v.content.title
  due := v.content.due
  status := v.content.status
  deleted := v.content.deleted
  notes := v.content.notes
  assignmentInfo := v.content.assignmentInfo

def TaskContent.patched (c : TaskContent) (body : GoogleBody) : TaskContent :=
  { c with title := body.title, due := body.due, status := some body.status }

def newContent (body : GoogleBody) (notes : String) : TaskContent := ⟨body.title, body.due, some body.status, false, some notes, none⟩

/-! ## What is read -/

structure GoogleTasksStatus where
  authorized : Bool
  enabled : Bool
  taskListId : Option String
  timezone : Option String
deriving DecidableEq, Repr

structure BatchState where
  changeRevision : Nat
  scanRevision : Option Nat
  scanLinkCursor : Option Uuid
  scanImportCursor : Option String
  scanHadErrors : Bool
deriving DecidableEq, Repr

structure BatchProgress where
  revision : Nat
  linkCursor : Option Uuid
  importCursor : Option String
  more : Bool
  hadErrors : Bool
deriving DecidableEq, Repr

def batchSize : Nat := 10

def tasksScope : String := "https://www.googleapis.com/auth/tasks"

namespace World

variable (w : World)

def authorized : Bool := w.workspace.account.any fun a => a.scopes.contains tasksScope

def status : GoogleTasksStatus where
  authorized := w.authorized
  enabled := w.connection.any (·.enabled)
  taskListId := w.connection.bind (·.taskListId)
  timezone := w.connection.bind (·.timezone)

def linksOf (list : String) : List LinkRow := w.links.filter (·.taskListId == list)

/-- The tasks without a link to the list, `ORDER BY id LIMIT 11`. -/
def unlinkedTasks (list : String) : List Task :=
  (((w.workspace.db.tasks.filter fun t => !(w.linksOf list).any (·.taskId == t.id)).insertionSort fun a b => a.id ≤ b.id).take
    (batchSize + 1)).map (·.toTask)

/-- The links from the cursor on that are not detached, `ORDER BY id LIMIT 11`. -/
def selectLinks (list : String) (cursor : Option Uuid) : List GoogleTaskLink :=
  ((((w.linksOf list).filter fun l => decide (l.phase ≠ .detached) && cursor.all fun c => decide (c < l.id)).insertionSort
    fun a b => a.id ≤ b.id).take (batchSize + 1)).map (·.toGoogleTaskLink)

def identities (list : String) : List (Option String × Option String) :=
  ((w.linksOf list).map fun l => (l.externalTaskId, l.createReference)).take 20001

/-! ## What is written -/

def onLinks (p : LinkRow → Bool) (f : LinkRow → LinkRow) : World := { w with links := Table.update p f w.links }

/-- With an id that is drawn, unless the task has a link to the list. -/
def prepareLink (cfg : Config) (list : String) (task : Uuid) (fields : TaskFields) : World :=
  let id := w.workspace.db.nextId
  let drawn := { w with workspace := w.workspace.fresh }
  if (w.linksOf list).any (·.taskId == task) then drawn
  else { drawn with
    links := w.links ++ [{ id := id, taskId := task, externalTaskId := none, externalEtag := none, baseline := some fields,
                           phase := .prepared, createReference := some (createReference cfg id), conflict := none,
                           resolution := none, taskListId := list }] }

def claimable (link : Uuid) (l : LinkRow) : Bool := l.id == link && l.phase == .prepared

def claimLink (link : Uuid) (fields : TaskFields) : World :=
  w.onLinks (claimable link) fun l => { l with phase := .creating, baseline := some fields }

def resetLink (link : Uuid) : World :=
  w.onLinks (fun l => l.id == link && l.phase == .creating) fun l => { l with phase := .prepared }

def recordLink (link : Uuid) (externalTaskId externalEtag : String) (fields : TaskFields) : World :=
  w.onLinks (·.id == link) fun l => { l with
    phase := .linked, externalTaskId := some externalTaskId, externalEtag := some externalEtag, baseline := some fields,
    conflict := none, resolution := none }

def detachLink (link : Uuid) : World :=
  w.onLinks (·.id == link) fun l => { l with phase := .detached, conflict := none, resolution := none }

def storeConflict (link : Uuid) (conflict : GoogleTaskConflict) : World :=
  w.onLinks (·.id == link) fun l => { l with conflict := some conflict, resolution := none }

/-- The id of a task is recorded in a link of the list. -/
def isRecorded (list externalTaskId : String) : Bool := (w.linksOf list).any (·.externalTaskId == some externalTaskId)

/-- An operation of the store, and how often its changes of tasks have raised the revision. -/
def perform (cfg : Config) (a : Action) (bumps : Nat) : World :=
  { w with
    workspace := a.perform cfg.env w.workspace
    connection := w.connection.map fun c => if c.enabled then { c with changeRevision := c.changeRevision + bumps } else c }

/-- The task, and its link. -/
def importTask (cfg : Config) (list externalTaskId externalEtag : String) (fields : TaskFields) (deadline : Option DateTime)
    (bumps : Nat) : World :=
  let task := w.workspace.db.nextId
  let after := w.perform cfg (.importGoogleTask fields.title deadline fields.completed) bumps
  { after with
    workspace := after.workspace.fresh
    links := after.links ++ [{ id := after.workspace.db.nextId, taskId := task, externalTaskId := some externalTaskId,
                               externalEtag := some externalEtag, baseline := some fields, phase := .linked,
                               createReference := none, conflict := none, resolution := none, taskListId := list }] }

def onConnection (f : Connection → Connection) : World := { w with connection := w.connection.map f }

/-- Whether there is more to do. -/
def followUp (progress : BatchProgress) : Bool :=
  progress.more || !w.connection.any (·.changeRevision == progress.revision)

def finishBatch (progress : BatchProgress) : World :=
  w.onConnection fun c => { c with
    scanRevision := if progress.more then some progress.revision else none
    scanLinkCursor := if progress.more then progress.linkCursor else none
    scanImportCursor := if progress.more then progress.importCursor else none
    scanHadErrors := progress.more && progress.hadErrors }

/-! ## The transactions of the user -/

/-- The row before it is configured. -/
def unconfigured : Connection := ⟨false, none, none, 0, none, none, none, false, 0⟩

/-- The claim of `create_list`, before it asks Google for a list. -/
def claimList : World :=
  { w with connection := some { w.connection.getD unconfigured with version := (w.connection.getD unconfigured).version + 1 } }

/-- `leave_google_task_unlinked`. -/
def leavable (link : Uuid) (l : LinkRow) : Bool :=
  l.id == link && l.phase == .creating && !GoogleTasks.holding l.taskId w.workspace

def leaveUnlinked (link : Uuid) : World :=
  w.onLinks (w.leavable link) fun l => { l with phase := .detached, conflict := none, resolution := none }

/-- The conflict is still of this version of the task, and the connection of its list is enabled. -/
def resolvable (link conflict : Uuid) (l : LinkRow) : Bool :=
  l.id == link && l.resolution.isNone && l.phase == .linked &&
    l.conflict.any (fun c => c.id == conflict && (w.workspace.db.task? l.taskId).any fun t => t.version == c.taskVersion) &&
    w.connection.any (fun c => c.enabled && c.taskListId == some l.taskListId) && w.authorized

def resolveConflict (link conflict : Uuid) (choice : TaskConflictChoice) : World :=
  (w.onLinks (w.resolvable link conflict) fun l => { l with resolution := some choice }).onConnection fun c =>
    { c with changeRevision := c.changeRevision + 1 }

/-- The settings, with the scan begun anew. -/
def configured (enabled : Bool) (selected : Option (String × String)) : World :=
  let old := w.connection.getD unconfigured
  { w with connection := some { old with
      enabled := enabled
      taskListId := (selected.map (·.1)).orElse fun _ => old.taskListId
      timezone := (selected.map (·.2)).orElse fun _ => old.timezone
      scanRevision := none, scanLinkCursor := none, scanImportCursor := none, scanHadErrors := false
      version := old.version + 1 } }

/-- What an enabled connection asks for. -/
def selectable (cfg : Config) (list timezone : String) : Bool :=
  decide (trim list ≠ "") && decide (list.utf8ByteSize ≤ 2048) && decide (timezone.utf8ByteSize ≤ 128) && w.authorized &&
    (cfg.zone timezone).isSome &&
    (w.links.isEmpty || w.connection.all fun c => c.timezone.all (· == timezone) && c.taskListId.all (· == list))

/-- What `configure_google_tasks` checks, and what it then writes. -/
def configure? (cfg : Config) (enabled : Bool) (selected : Option (String × String)) (expectedVersion : Nat) : Option World :=
  if (w.connection.map (·.version)).getD 0 ≠ expectedVersion then none
  else if enabled then
    match selected with
    | some (list, timezone) => if w.selectable cfg list timezone then some (w.configured true (some (list, timezone))) else none
    | none => none
  else some (w.configured false none)

end World

end TasksSync

end Prosepect

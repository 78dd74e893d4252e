/-
`google_tasks_sync.rs`: the links of tasks with their copies in the list of Google Tasks that is
synchronized, and `sync_google_task_link`. Google is a state behind a client; what it does with a
request is not known here.

The synchronization holds the user's lock, which `leave_google_task_unlinked`, a deletion with a
receipt and its undo try to take as well, so that a step is taken at one workspace.
-/
import Prosepect.GoogleTasks.Fields
import Prosepect.Resumption.Effect
import Prosepect.Store.Actions

namespace Prosepect

open Time Text Resumption

namespace GoogleTasks

structure GoogleTaskConflict where
  id : Uuid
  linkId : Uuid
  taskId : Uuid
  taskVersion : Int
  remoteEtag : String
  mine : TaskFields
  google : TaskFields
deriving DecidableEq, Repr

inductive LinkPhase
  | prepared | creating | linked | detached
deriving DecidableEq, Repr

structure GoogleTaskLink where
  id : Uuid
  taskId : Uuid
  externalTaskId : Option String
  externalEtag : Option String
  baseline : Option TaskFields
  phase : LinkPhase
  createReference : Option String
  conflict : Option GoogleTaskConflict
  resolution : Option TaskConflictChoice
deriving DecidableEq, Repr

/-- The time zone of the connection: the wall clock at an instant, and the instant PostgreSQL
takes for a wall clock time. -/
structure Zone where
  wall : DateTime → Int
  instant : Int → DateTime

/-- `google_task_deadline`: the date at the time of day of the deadline there is, or a second before
midnight, if the zone has that time. -/
def Zone.deadline (zone : Zone) (date : Option NaiveDate) (existing : Option DateTime) :
    Except AppError (Option DateTime) :=
  match date with
  | none => .ok none
  | some date =>
    let timeOfDay := match existing with
      | some t => zone.wall t % usPerDay
      | none => usPerDay - usPerSecond
    let wall := date * usPerDay + timeOfDay
    let sameOffset := existing.map fun t => wall - (zone.wall t - t)
    let chosen := match sameOffset with
      | some t => if zone.wall t = wall then t else zone.instant wall
      | none => zone.instant wall
    if zone.wall chosen = wall then .ok (some chosen)
    else .error (.conflict "That date has no matching local deadline time. Choose a deadline in prosepect.")

/-- `google_task_fields`. -/
def googleTaskFields (zone : Zone) (task : Task) : TaskFields where
  title := task.title
  date := task.dueAt.map fun t => zone.wall t / usPerDay
  completed := decide (task.status = .completed)

/-- Requests to Google, and what becomes of its state. -/
structure Google (G : Type) where
  get : String → G → Except TasksError GoogleTask
  post : GoogleBody → String → G → Except TasksError GoogleTask × G
  patch : String → String → GoogleBody → G → Except TasksError GoogleTask × G

/-- Why a link is not synchronized. -/
inductive LinkError
  | google (error : TasksError)
  | store (error : AppError)
  | other (message : String)
deriving DecidableEq, Repr

structure LinkEnv (G : Type) where
  env : Env
  zone : Zone
  dates : Dates
  google : Google G

/-- The rows that a synchronization writes, and Google. -/
structure LinkState (G : Type) where
  w : Workspace
  links : List GoogleTaskLink
  google : G

/-- What has been written stays when a later step fails. -/
abbrev LinkM (G : Type) : Type → Type := Eff (LinkState G) LinkError

variable {G : Type}

def updateLink (id : Uuid) (f : GoogleTaskLink → GoogleTaskLink) : LinkM G Unit :=
  Eff.write fun σ => { σ with links := Table.update (·.id == id) f σ.links }

/-- A request to Google. -/
def request {α : Type} (f : G → Except TasksError α × G) : LinkM G (Except TasksError α) :=
  Eff.exchange fun σ => ((f σ.google).1, { σ with google := (f σ.google).2 })

def orFail {α : Type} (message : String) : Option α → LinkM G α
  | some a => return a
  | none => Eff.raise (.other message)

def orGoogle {α : Type} : Except TasksError α → LinkM G α
  | .ok a => return a
  | .error e => Eff.raise (.google e)

/-- A transaction of the store. -/
def onStore {α : Type} (t : WorkspaceTx α) : LinkM G α := do
  let σ ← Eff.read
  match t σ.w with
  | .ok (a, w) =>
    Eff.write fun σ => { σ with w := w }
    return a
  | .error e => Eff.raise (.store e)

/-- A receipt of a deletion of the task has not expired. -/
def holding (task : Uuid) (w : Workspace) : Bool :=
  Table.has (fun u => u.taskId == task && decide (u.expiresAt > w.db.now)) w.db.undos

/-! ## The client -/

def noEtag (etag : Option String) : Bool := etag.all (· == "")

def clientGet (env : LinkEnv G) (identity : String) : LinkM G (Except TasksError GoogleTask) :=
  request fun google =>
    match env.google.get identity google with
    | .error e => (.error e, google)
    | .ok task => (if task.id ≠ identity then .error .invalidResponse else .ok task, google)

def clientCreate (env : LinkEnv G) (fields : TaskFields) (reference : String) : LinkM G (Except TasksError GoogleTask) :=
  request fun google =>
    if fields.valid = false ∨ reference.length > 8192 then (.error .invalidInput, google)
    else
      match env.google.post (fields.googleBody env.dates) reference google with
      | (.error e, google) => (.error e, google)
      | (.ok task, google) => (if task.id = "" ∨ noEtag task.etag = true then .error .ambiguousCreate else .ok task, google)

def clientUpdate (env : LinkEnv G) (identity etag : String) (fields : TaskFields) :
    LinkM G (Except TasksError GoogleTask) :=
  request fun google =>
    if trim etag = "" ∨ trim etag = "*" ∨ fields.valid = false then (.error .invalidInput, google)
    else
      match env.google.patch identity etag (fields.googleBody env.dates) google with
      | (.error e, google) => (.error e, google)
      | (.ok task, google) =>
        (if task.id ≠ identity ∨ noEtag task.etag = true then .error .invalidResponse else .ok task, google)

/-! ## One link -/

def detachGoogleTask (link : Uuid) : LinkM G Unit :=
  updateLink link fun l => { l with phase := .detached, conflict := none, resolution := none }

def recordGoogleTaskLink (link : Uuid) (task : GoogleTask) (fields : TaskFields) : LinkM G Unit := do
  let etag ← orFail "Missing acknowledged ETag" (task.etag.filter (· ≠ ""))
  if Table.has (fun l => l.id != link && l.externalTaskId == some task.id) (← Eff.read).links then
    Eff.raise (.store (.database .unique))
  else
    updateLink link fun l => { l with
      phase := .linked, externalTaskId := some task.id, externalEtag := some etag, baseline := some fields,
      conflict := none, resolution := none }

/-- Recovers a creation that may have happened, by its marker among the tasks of the list. -/
def recoverGoogleTask (env : LinkEnv G) (remote : List GoogleTask) (link : GoogleTaskLink) : LinkM G (Option String) := do
  let reference ← orFail "Missing create reference" link.createReference
  match remote.filter fun task => task.notes == some reference with
  | [candidate] =>
    -- what was sent stays the baseline, later edits merge with it
    let sent ← orFail "Missing create baseline" link.baseline
    let _ ← orGoogle (candidate.fields env.dates)
    recordGoogleTaskLink link.id candidate sent
    return some candidate.id
  | _ => Eff.raise (.other "Uncertain create requires explicit recovery")

/-- The errors that say that nothing was created. -/
def TasksError.rejected : TasksError → Bool
  | .authorization | .notFound | .invalidInput | .rateLimited | .conflict => true
  | .unavailable | .invalidResponse | .capacity | .ambiguousCreate => false

def createGoogleTask (env : LinkEnv G) (link : GoogleTaskLink) (mine : TaskFields) : LinkM G (Option String) := do
  if Table.has (fun l => l.id == link.id && l.phase == .prepared) (← Eff.read).links = false then
    Eff.raise (.other "Create already claimed")
  else
    updateLink link.id fun l => { l with phase := .creating, baseline := some mine }
    let reference ← orFail "Missing create reference" link.createReference
    match ← clientCreate env mine reference with
    | .error e =>
      if e.rejected then updateLink link.id fun l => if l.phase = .creating then { l with phase := .prepared } else l
      else pure ()
      Eff.raise (.google e)
    | .ok created =>
      let fields ← orGoogle (created.fields env.dates)
      if fields ≠ mine then Eff.raise (.other "Created task did not match requested fields")
      else
        recordGoogleTaskLink link.id created mine
        return some created.id

/-- The merged fields; a conflict that has not been decided is recorded and has none. -/
def mergeGoogleTask (link : GoogleTaskLink) (task : Task) (remote : GoogleTask) (baseline mine fields : TaskFields) :
    LinkM G TaskFields :=
  match reconcile baseline mine fields with
  | .ok merged => return merged
  | .error _ =>
    let current := link.conflict.any fun c =>
      c.taskVersion == task.version && c.mine == mine && c.google == fields && some c.remoteEtag == remote.etag
    match if current then link.resolution else none with
    | some choice => return resolveConflictingFields baseline mine fields choice
    | none => do
      if current then pure ()
      else
        let etag ← orFail "Missing conflict ETag" remote.etag
        let id := (← Eff.read).w.db.nextId
        Eff.write fun σ => { σ with w := { σ.w with db := σ.w.db.fresh } }
        updateLink link.id fun l => { l with
          conflict := some ⟨id, link.id, task.id, task.version, etag, mine, fields⟩, resolution := none }
      Eff.raise (.other "Both apps changed the same task field")

/-- The request of an update of a task with the merged fields. -/
def mergedRequest (task : Task) (mine merged : TaskFields) (dueAt : Option DateTime) : UpdateTaskRequest where
  projectId := task.projectId
  parentTaskId := task.parentTaskId
  title := merged.title
  description := task.description
  dueAt := dueAt
  scheduledStart := task.scheduledStart
  scheduledEnd := task.scheduledEnd
  status := if merged.completed = mine.completed then task.status else if merged.completed then .completed else .todo
  priority := task.priority
  recurrence := task.recurrence
  labels := task.labels
  remindAt := task.remindAt
  expectedVersion := task.version

/-- Sends the merged fields to Google where it has others. -/
def pushGoogleTask (env : LinkEnv G) (identity : String) (remote : GoogleTask) (fields merged : TaskFields) :
    LinkM G GoogleTask :=
  if merged = fields then return remote
  else do
    let etag ← orFail "Missing provider ETag" remote.etag
    let acknowledged ← orGoogle (← clientUpdate env identity etag merged)
    let echoed ← orGoogle (acknowledged.fields env.dates)
    if echoed ≠ merged then Eff.raise (.other "Provider did not acknowledge merged task fields")
    else return acknowledged

/-- Updates the task where it has other fields than the merged ones. -/
def pullGoogleTask (env : LinkEnv G) (task : Task) (mine merged : TaskFields) : LinkM G Unit :=
  if merged = mine then return ()
  else do
    let dueAt ← onStore (Tx.ofExcept
      (if merged.date = mine.date then .ok task.dueAt else env.zone.deadline merged.date task.dueAt))
    let _ ← onStore (Workspace.onDb (Store.updateTask env.env.toLowercase task.id (mergedRequest task mine merged dueAt)))
    return ()

def reconcileGoogleTask (env : LinkEnv G) (link : GoogleTaskLink) (task : Task) (identity : String) (remote : GoogleTask) :
    LinkM G (Option String) := do
  if remote.deleted then
    detachGoogleTask link.id
    return none
  else
    let fields ← orGoogle (remote.fields env.dates)
    let baseline ← orFail "Missing baseline" link.baseline
    let mine := googleTaskFields env.zone task
    let merged ← mergeGoogleTask link task remote baseline mine fields
    let acknowledged ← pushGoogleTask env identity remote fields merged
    pullGoogleTask env task mine merged
    recordGoogleTaskLink link.id acknowledged merged
    return some identity

def linkedGoogleTask (env : LinkEnv G) (remote : List GoogleTask) (link : GoogleTaskLink) (task : Task) :
    LinkM G (Option String) := do
  let identity ← orFail "Missing remote identity" link.externalTaskId
  match remote.find? (·.id == identity) with
  | some shown => reconcileGoogleTask env link task identity shown
  | none =>
    -- a task the list does not show may still be there
    match ← clientGet env identity with
    | .ok hidden => reconcileGoogleTask env link task identity hidden
    | .error .notFound =>
      detachGoogleTask link.id
      return none
    | .error e => Eff.raise (.google e)

/-- `remote`: the tasks of the list, as they were read. -/
def syncGoogleTaskLink (env : LinkEnv G) (remote : List GoogleTask) (link : GoogleTaskLink) : LinkM G (Option String) := do
  let σ ← Eff.read
  if link.phase = .detached then return none
  else if holding link.taskId σ.w then return none
  else
    match σ.w.db.task? link.taskId with
    | none =>
      detachGoogleTask link.id
      return none
    | some row =>
      match link.phase with
      | .creating => recoverGoogleTask env remote link
      | .prepared => createGoogleTask env link (googleTaskFields env.zone row.toTask)
      | .linked | .detached => linkedGoogleTask env remote link row.toTask

/-- Only an uncertain creation is left unlinked. -/
def leaveGoogleTaskUnlinked (link : Uuid) : LinkM G Unit := do
  let σ ← Eff.read
  if Table.has (fun l => l.id == link && l.phase == .creating && !holding l.taskId σ.w) σ.links then detachGoogleTask link
  else Eff.raise (.store (.conflict "Recovery changed or deletion Undo is active. Refresh before choosing."))

end GoogleTasks

end Prosepect

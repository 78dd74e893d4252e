/-
`google_tasks_sync.rs`: one batch of a synchronization, its links and its imports, as programs over
the operations. The same functions on the state of one link alone are in `GoogleTasks.Links`.
-/
import Prosepect.GoogleTasks.Client

namespace Prosepect

open Time Text Resumption GoogleTasks

namespace TasksSync

def raise {α : Type} (e : LinkError) : TasksProg α := .fail e

/-- `context`. -/
def orRaise {α : Type} (message : String) (o : Option α) : TasksProg α := Prog.ofExcept (o.elim (.error (.other message)) .ok)

def orRefuse {α : Type} : Except TasksError α → TasksProg α
  | .ok a => return a
  | .error e => refuse e

structure TaskSyncContext where
  list : String
  zone : Zone
  token : String
  /-- The tasks of the list, as they were read. -/
  remote : List GoogleTask

/-! ## One link -/

def recordGoogleTaskLink (link : Uuid) (task : GoogleTask) (fields : TaskFields) : TasksProg Unit := do
  let etag ← orRaise "Missing acknowledged ETag" (task.etag.filter (· ≠ ""))
  call (.recordLink link task.id etag fields)

/-- Recovers a creation that may have happened. -/
def recoverGoogleTask (cfg : Config) (context : TaskSyncContext) (link : GoogleTaskLink) : TasksProg (Option String) := do
  let reference ← orRaise "Missing create reference" link.createReference
  match context.remote.filter fun task => task.notes == some reference with
  | [candidate] =>
    let sent ← orRaise "Missing create baseline" link.baseline
    let _ ← orRefuse (candidate.fields cfg.dates)
    recordGoogleTaskLink link.id candidate sent
    return some candidate.id
  | _ => raise (.other "Uncertain create requires explicit recovery")

/-- What the client answered to a creation. -/
def finishCreation (cfg : Config) (link : GoogleTaskLink) (mine : TaskFields) : Except LinkError GoogleTask → TasksProg (Option String)
  | .error e => do
    match e with
    | .google error => if error.rejected then call (.resetLink link)
    | _ => pure ()
    raise e
  | .ok created => do
    let fields ← orRefuse (created.fields cfg.dates)
    if fields ≠ mine then raise (.other "Created task did not match requested fields")
    else
      recordGoogleTaskLink link.id created mine
      return some created.id

/-- Exactly one claim can send the request of a creation. -/
def createGoogleTask (cfg : Config) (context : TaskSyncContext) (link : GoogleTaskLink) (mine : TaskFields) :
    TasksProg (Option String) := do
  let claimed : Bool ← call (.claimLink link mine)
  if claimed = false then raise (.other "Create already claimed")
  else
    let reference ← orRaise "Missing create reference" link.createReference
    let created ← (create cfg context.token context.list mine reference).attempt
    finishCreation cfg link mine created

/-- The conflict of the link is the one there is. -/
def isCurrent (link : GoogleTaskLink) (task : Task) (remote : GoogleTask) (mine fields : TaskFields) : Bool :=
  link.conflict.any fun c =>
    c.taskVersion == task.version && c.mine == mine && c.google == fields && some c.remoteEtag == remote.etag

/-- The merged fields, if there is no conflict or it has been decided. -/
def decide? (link : GoogleTaskLink) (task : Task) (remote : GoogleTask) (baseline mine fields : TaskFields) : Option TaskFields :=
  match reconcile baseline mine fields with
  | .ok merged => some merged
  | .error _ => (if isCurrent link task remote mine fields then link.resolution else none).map fun choice =>
    resolveConflictingFields baseline mine fields choice

/-- Records a conflict that is new. -/
def raiseConflict (link : GoogleTaskLink) (task : Task) (remote : GoogleTask) (mine fields : TaskFields) : TasksProg Unit :=
  if isCurrent link task remote mine fields then pure ()
  else do
    let id : Uuid ← call .newId
    let etag ← orRaise "Missing conflict ETag" remote.etag
    call (.storeConflict link.id ⟨id, link.id, task.id, task.version, etag, mine, fields⟩)

/-- Sends the merged fields to Google where it has others. -/
def pushGoogleTask (cfg : Config) (context : TaskSyncContext) (identity : String) (remote : GoogleTask) (fields merged : TaskFields) :
    TasksProg GoogleTask :=
  if merged = fields then return remote
  else do
    let etag ← orRaise "Missing provider ETag" remote.etag
    let acknowledged ← update cfg context.token context.list identity etag merged
    let echoed ← orRefuse (acknowledged.fields cfg.dates)
    if echoed ≠ merged then raise (.other "Provider did not acknowledge merged task fields")
    else return acknowledged

def mergedDeadline (zone : Zone) (task : Task) (mine merged : TaskFields) : Except AppError (Option DateTime) :=
  if merged.date = mine.date then .ok task.dueAt else zone.deadline merged.date task.dueAt

/-- Updates the task where it has other fields than the merged ones. -/
def pullGoogleTask (context : TaskSyncContext) (task : Task) (mine merged : TaskFields) : TasksProg Unit :=
  if merged = mine then pure ()
  else
    match mergedDeadline context.zone task mine merged with
    | .error e => raise (.store e)
    | .ok dueAt => call (.updateTask task.id (mergedRequest task mine merged dueAt))

def reconcileGoogleTask (cfg : Config) (context : TaskSyncContext) (link : GoogleTaskLink) (task : Task) (identity : String)
    (remote : GoogleTask) : TasksProg (Option String) :=
  if remote.deleted then do
    call (.detachLink link.id)
    return none
  else do
    let fields ← orRefuse (remote.fields cfg.dates)
    let baseline ← orRaise "Missing baseline" link.baseline
    let mine := googleTaskFields context.zone task
    match decide? link task remote baseline mine fields with
    | none => do
      raiseConflict link task remote mine fields
      raise (.other "Both apps changed the same task field")
    | some merged => do
      let acknowledged ← pushGoogleTask cfg context identity remote fields merged
      pullGoogleTask context task mine merged
      recordGoogleTaskLink link.id acknowledged merged
      return some identity

/-- What the client answered about a task that the list does not show. -/
def reconcileHidden (cfg : Config) (context : TaskSyncContext) (link : GoogleTaskLink) (task : Task) (identity : String) :
    Except LinkError GoogleTask → TasksProg (Option String)
  | .ok hidden => reconcileGoogleTask cfg context link task identity hidden
  | .error (.google .notFound) => do
    call (.detachLink link.id)
    return none
  | .error e => raise e

def linkedGoogleTask (cfg : Config) (context : TaskSyncContext) (link : GoogleTaskLink) (task : Task) : TasksProg (Option String) := do
  let identity ← orRaise "Missing remote identity" link.externalTaskId
  match context.remote.find? (·.id == identity) with
  | some shown => reconcileGoogleTask cfg context link task identity shown
  | none => do
    let fetched ← (get context.token context.list identity).attempt
    reconcileHidden cfg context link task identity fetched

/-- A link whose task is there. -/
def syncPresentTask (cfg : Config) (context : TaskSyncContext) (link : GoogleTaskLink) (task : Task) : TasksProg (Option String) :=
  match link.phase with
  | .creating => recoverGoogleTask cfg context link
  | .prepared => createGoogleTask cfg context link (googleTaskFields context.zone task)
  | .linked | .detached => linkedGoogleTask cfg context link task

def syncGoogleTaskLink (cfg : Config) (context : TaskSyncContext) (link : GoogleTaskLink) : TasksProg (Option String) :=
  if link.phase = .detached then return none
  else do
    let holding : Bool ← call (.holding link.taskId)
    if holding then return none
    else
      let task : Option Task ← call (.readTask link.taskId)
      match task with
      | none => do
        call (.detachLink link.id)
        return none
      | some task => syncPresentTask cfg context link task

/-! ## One batch -/

/-- What a batch has done so far. -/
structure Progress where
  known : List String
  linkCursor : Option Uuid
  importCursor : Option String
  unresolved : Bool

def prepare (list : String) (zone : Zone) (task : Task) : TasksProg Unit :=
  call (.prepareLink list task.id (googleTaskFields zone task))

/-- A link that fails is left for later. -/
def visitLink (cfg : Config) (context : TaskSyncContext) (p : Progress) (link : GoogleTaskLink) : TasksProg Progress := do
  let outcome ← (syncGoogleTaskLink cfg context link).attempt
  match outcome with
  | .ok id => return { p with linkCursor := some link.id, known := id.toList ++ p.known }
  | .error _ => do
    call (.noteError link.id)
    return { p with linkCursor := some link.id, unresolved := true }

/-- What may be imported: neither an identity nor a reference of a link has it. -/
def isCandidate (known references : List String) (cursor : Option String) (task : GoogleTask) : Bool :=
  !task.deleted && task.assignmentInfo.isNone && decide (task.id ∉ known) && !(task.notes.any fun notes => decide (notes ∈ references)) &&
    cursor.all fun cursor => decide (cursor < task.id)

def candidatesOf (remote : List GoogleTask) (known references : List String) (cursor : Option String) : List GoogleTask :=
  (remote.filter (isCandidate known references cursor)).mergeSort fun a b => decide (a.id ≤ b.id)

def importCandidate (cfg : Config) (context : TaskSyncContext) (p : Progress) (task : GoogleTask) : TasksProg Progress := do
  let passed := { p with importCursor := some task.id }
  match task.fields cfg.dates, task.etag.filter (· ≠ "") with
  | .ok fields, some etag =>
    match context.zone.deadline fields.date none with
    | .error e => raise (.store e)
    | .ok deadline => do
      call (.importTask context.list task etag fields deadline)
      return passed
  | _, _ => return { passed with unresolved := true }

/-- The links and the imports of a batch, and its end. -/
def runBatch (cfg : Config) (context : TaskSyncContext) (batch : BatchState) (preparationRemaining : Bool) : TasksProg Bool := do
  let links : List GoogleTaskLink ← call (.selectLinks context.list batch.scanLinkCursor)
  let identities : List (Option String × Option String) ← call (.identities context.list)
  if identities.length > 20000 then raise (.other "Too many retained Tasks identities to synchronize safely")
  else
    let visited ← Prog.foldEach (visitLink cfg context)
      ⟨identities.filterMap (·.1), batch.scanLinkCursor, batch.scanImportCursor, batch.scanHadErrors⟩ (links.take batchSize)
    let candidates := candidatesOf context.remote visited.known (identities.filterMap (·.2)) batch.scanImportCursor
    let done ← Prog.foldEach (importCandidate cfg context) visited (candidates.take batchSize)
    let complete : Bool ← call (.finishBatch ⟨batch.scanRevision.getD batch.changeRevision, done.linkCursor, done.importCursor,
      preparationRemaining || decide (links.length > batchSize) || decide (candidates.length > batchSize), done.unresolved⟩)
    if complete && done.unresolved then raise (.other "Google Tasks has unresolved task changes or uncertain creations")
    else return complete

def syncGoogleTasksInner (cfg : Config) : TasksProg Bool := do
  let connection : GoogleTasksStatus ← call .status
  if connection.enabled = false then return false
  else if connection.authorized = false then raise (.other "Google Tasks permission is required")
  else
    let list ← orRaise "Missing Google Tasks list" connection.taskListId
    let timezone ← orRaise "Missing Google Tasks timezone" connection.timezone
    let zone ← orRaise "Unknown timezone" (cfg.zone timezone)
    let token : String ← call .accessToken
    let remote ← tasks token list
    let batch : BatchState ← call .batchState
    let unlinked : List Task ← call (.unlinkedTasks list)
    Prog.forEach (prepare list zone) (unlinked.take batchSize)
    runBatch cfg ⟨list, zone, token, remote⟩ batch (decide (unlinked.length > batchSize))

/-- The result is noted, and then reported. -/
def syncGoogleTasks (cfg : Config) : TasksProg Unit := do
  let result ← (syncGoogleTasksInner cfg).attempt
  match result with
  | .ok complete => call (.noteOutcome false complete)
  | .error e => do
    call (.noteOutcome true false)
    raise e

/-! ## The service -/

inductive TasksRequest
  /-- A job `tasks_sync` of `run_once`. -/
  | sync
  | leaveUnlinked (link : Uuid)
  | resolveConflict (link conflict : Uuid) (choice : TaskConflictChoice)
  | configure (enabled : Bool) (selected : Option (String × String)) (expectedVersion : Nat)

def program (cfg : Config) : TasksRequest → TasksProg Unit
  | .sync => do
    call .lockUser
    syncGoogleTasks cfg
  | .leaveUnlinked link => call (.leaveUnlinked link)
  | .resolveConflict link conflict choice => call (.resolveConflict link conflict choice)
  | .configure enabled selected expectedVersion => call (.configure enabled selected expectedVersion)

def service (cfg : Config) : Service TasksSig LinkError World TasksRequest Guard where
  step := Step cfg
  guards := guardsAfter
  release := Release
  idle := Idle cfg
  accepts := fun _ => True
  program := program cfg

end TasksSync

end Prosepect

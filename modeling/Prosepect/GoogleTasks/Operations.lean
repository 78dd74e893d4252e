/-
What a synchronization of Google Tasks asks of the database and of Google, one operation at a time,
and what each may answer and do, whatever goes wrong on the way.

Of Google it is assumed that it answers with versions its tasks have had, that a write with an
`If-Match` is done if the etag is that of the last version, and that a task is created by a request
that is not answered with a status from 400 to 499.
-/
import Prosepect.GoogleTasks.Tables
import Prosepect.Resumption.Records

namespace Prosepect

open Time Text Versions Resumption GoogleTasks

namespace TasksSync

/-! ## Google -/

structure Page where
  items : List GoogleTask
  nextPageToken : Option String
deriving DecidableEq, Repr

/-- A request of the client, its token left out. -/
inductive Call
  | listPage (list : String) (pageToken : Option String)
  | get (list task : String)
  | post (list : String) (body : GoogleBody) (notes : String)
  | patch (list task etag : String) (body : GoogleBody)
deriving DecidableEq, Repr

namespace Call

def Body : Call → Type
  | .listPage _ _ => Page
  | .get _ _ | .post _ _ _ | .patch _ _ _ _ => GoogleTask

def list : Call → String
  | .listPage list _ | .get list _ | .post list _ _ | .patch list _ _ _ => list

def creating : Call → Bool
  | .post _ _ _ => true
  | .listPage _ _ | .get _ _ | .patch _ _ _ _ => false

/-- The tasks in a body. -/
def tasks : (c : Call) → c.Body → List GoogleTask
  | .listPage _ _, page => page.items
  | .get _ _, task | .post _ _ _, task | .patch _ _ _ _, task => [task]

end Call

/-- What comes back: nothing, or a status with a body, of this size, if it decodes. -/
inductive Reply (α : Type)
  | lost
  | status (code size : Nat) (body : Option α)

namespace Reply

variable {α : Type}

def body : Reply α → Option α
  | .lost => none
  | .status _ _ body => body

/-- `is_client_error`. -/
def refused : Reply α → Bool
  | .lost => false
  | .status code _ _ => decide (400 ≤ code ∧ code < 500)

end Reply

/-- The task is one of the list as it was at some time; its etag may be left out. -/
def Shows (cfg : Config) (google : Lists) (list : String) (task : GoogleTask) : Prop :=
  ∃ v ∈ google.log, v.key.1 = list ∧ task = { shown cfg v with etag := task.etag } ∧
    ∀ etag, task.etag = some etag → etag = cfg.etag v.revision

/-- What a request does, and what comes back. -/
inductive Serves (cfg : Config) : (c : Call) → World → Reply c.Body → World → Prop
  | kept {c : Call} {w : World} {reply : Reply c.Body}
      (hb : ∀ b, reply.body = some b → ∀ t ∈ c.tasks b, Shows cfg w.google c.list t) : Serves cfg c w reply w
  | posted {list notes id : String} {body : GoogleBody} {w : World} {reply : Reply GoogleTask} (hid : w.google.current (list, id) = none)
      (hr : reply.refused = false)
      (hb : ∀ b, reply.body = some b → Shows cfg (w.google.commit (list, id) (newContent body notes)) list b) :
      Serves cfg (.post list body notes) w reply
        { w with google := w.google.commit (list, id) (newContent body notes), created := w.created ++ [notes] }
  | patched {list task etag : String} {body : GoogleBody} {w : World} {reply : Reply GoogleTask}
      {v : Version (String × String) TaskContent} (hv : w.google.current (list, task) = some v) (he : cfg.etag v.revision = etag)
      (hb : ∀ b, reply.body = some b → Shows cfg (w.google.commit (list, task) (v.content.patched body)) list b) :
      Serves cfg (.patch list task etag body) w reply { w with google := w.google.commit (list, task) (v.content.patched body) }

/-! ## Operations -/

inductive Op
  /-- `pg_advisory_xact_lock`. -/
  | lockUser
  | status
  | accessToken
  | http (c : Call)
  | batchState
  | unlinkedTasks (list : String)
  | prepareLink (list : String) (task : Uuid) (fields : TaskFields)
  | selectLinks (list : String) (cursor : Option Uuid)
  | identities (list : String)
  | holding (task : Uuid)
  | readTask (task : Uuid)
  | claimLink (link : GoogleTaskLink) (fields : TaskFields)
  | resetLink (link : GoogleTaskLink)
  | recordLink (link : Uuid) (externalTaskId externalEtag : String) (fields : TaskFields)
  | detachLink (link : Uuid)
  | newId
  | storeConflict (link : Uuid) (conflict : GoogleTaskConflict)
  /-- The `last_error` of a link. -/
  | noteError (link : Uuid)
  | updateTask (task : Uuid) (request : UpdateTaskRequest)
  | importTask (list : String) (remote : GoogleTask) (externalEtag : String) (fields : TaskFields) (deadline : Option DateTime)
  | finishBatch (progress : BatchProgress)
  /-- The `last_error` and the `last_synced_at` of the connection. -/
  | noteOutcome (failed complete : Bool)
  | leaveUnlinked (link : Uuid)
  | resolveConflict (link conflict : Uuid) (choice : TaskConflictChoice)
  | configure (enabled : Bool) (selected : Option (String × String)) (expectedVersion : Nat)

def Op.Answer : Op → Type
  | .status => GoogleTasksStatus
  | .accessToken => String
  | .http c => Reply c.Body
  | .batchState => BatchState
  | .unlinkedTasks _ => List Task
  | .selectLinks _ _ => List GoogleTaskLink
  | .identities _ => List (Option String × Option String)
  | .holding _ | .claimLink _ _ | .finishBatch _ => Bool
  | .readTask _ => Option Task
  | .newId => Uuid
  | .lockUser | .prepareLink _ _ _ | .resetLink _ | .recordLink _ _ _ _ | .detachLink _ | .storeConflict _ _ | .noteError _
  | .updateTask _ _ | .importTask _ _ _ _ _ | .noteOutcome _ _ | .leaveUnlinked _ | .resolveConflict _ _ _ | .configure _ _ _ => Unit

/-- Of the columns that `enqueue_google_tasks_change` compares none has changed. -/
def SameShared (db db' : Db) : Prop := ∀ id, (db'.task? id).map (sharedColumns ·.toTask) = (db.task? id).map (sharedColumns ·.toTask)

/-- The triggers of a transaction raise the revision for every change. -/
def Bumps (cfg : Config) (a : Action) (w : Workspace) (bumps : Nat) : Prop := bumps = 0 → SameShared w.db (a.perform cfg.env w).db

/-- The transaction is committed. -/
def Commits (cfg : Config) (a : Action) (w : Workspace) : Prop := ∃ x, a.tx cfg.env w = .ok x

/-- What an operation answers when it succeeds. -/
inductive Does (cfg : Config) : (o : Op) → World → o.Answer → World → Prop
  | lockUser {w : World} (h : w.locked = false) : Does cfg .lockUser w () { w with locked := true }
  | status {w : World} : Does cfg .status w w.status w
  | accessToken {w : World} {token : String} : Does cfg .accessToken w token w
  | http {c : Call} {w w' : World} {reply : Reply c.Body} (h : Serves cfg c w reply w') : Does cfg (.http c) w reply w'
  | batchState {w : World} {c : Connection} (h : w.connection = some c) :
      Does cfg .batchState w ⟨c.changeRevision, c.scanRevision, c.scanLinkCursor, c.scanImportCursor, c.scanHadErrors⟩ w
  | unlinkedTasks {w : World} {list : String} : Does cfg (.unlinkedTasks list) w (w.unlinkedTasks list) w
  | prepareLink {w : World} {list : String} {task : Uuid} {fields : TaskFields} :
      Does cfg (.prepareLink list task fields) w () (w.prepareLink cfg list task fields)
  | selectLinks {w : World} {list : String} {cursor : Option Uuid} : Does cfg (.selectLinks list cursor) w (w.selectLinks list cursor) w
  | identities {w : World} {list : String} : Does cfg (.identities list) w (w.identities list) w
  | holding {w : World} {task : Uuid} : Does cfg (.holding task) w (GoogleTasks.holding task w.workspace) w
  | readTask {w : World} {task : Uuid} : Does cfg (.readTask task) w ((w.workspace.db.task? task).map (·.toTask)) w
  | claimLink {w : World} {link : GoogleTaskLink} {fields : TaskFields} :
      Does cfg (.claimLink link fields) w (w.links.any (World.claimable link.id)) (w.claimLink link.id fields)
  | resetLink {w : World} {link : GoogleTaskLink} : Does cfg (.resetLink link) w () (w.resetLink link.id)
  /-- With the unique key of the tasks of a list. -/
  | recordLink {w : World} {link : Uuid} {externalTaskId externalEtag : String} {fields : TaskFields}
      (h : ∀ l ∈ w.links, l.id = link → ∀ k ∈ w.links, k.taskListId = l.taskListId → k.externalTaskId = some externalTaskId → k.id = link) :
      Does cfg (.recordLink link externalTaskId externalEtag fields) w () (w.recordLink link externalTaskId externalEtag fields)
  | detachLink {w : World} {link : Uuid} : Does cfg (.detachLink link) w () (w.detachLink link)
  | newId {w : World} : Does cfg .newId w w.workspace.db.nextId { w with workspace := w.workspace.fresh }
  | storeConflict {w : World} {link : Uuid} {conflict : GoogleTaskConflict} :
      Does cfg (.storeConflict link conflict) w () (w.storeConflict link conflict)
  | noteError {w : World} {link : Uuid} : Does cfg (.noteError link) w () w
  | updateTask {w : World} {task : Uuid} {request : UpdateTaskRequest} {bumps : Nat}
      (h : Commits cfg (.updateTask task request none) w.workspace) (hb : Bumps cfg (.updateTask task request none) w.workspace bumps) :
      Does cfg (.updateTask task request) w () (w.perform cfg (.updateTask task request none) bumps)
  | alreadyImported {w : World} {list externalEtag : String} {remote : GoogleTask} {fields : TaskFields} {deadline : Option DateTime}
      (h : w.isRecorded list remote.id = true) : Does cfg (.importTask list remote externalEtag fields deadline) w () w
  | importTask {w : World} {list externalEtag : String} {remote : GoogleTask} {fields : TaskFields} {deadline : Option DateTime}
      {bumps : Nat} (h : w.isRecorded list remote.id = false)
      (hb : Bumps cfg (.importGoogleTask fields.title deadline fields.completed) w.workspace bumps) :
      Does cfg (.importTask list remote externalEtag fields deadline) w ()
        (w.importTask cfg list remote.id externalEtag fields deadline bumps)
  | finishBatch {w : World} {progress : BatchProgress} (h : w.connection ≠ none) :
      Does cfg (.finishBatch progress) w (!w.followUp progress) (w.finishBatch progress)
  | noteOutcome {w : World} {failed complete : Bool} : Does cfg (.noteOutcome failed complete) w () w
  | leaveUnlinked {w : World} {link : Uuid} (hl : w.locked = false) (h : w.links.any (w.leavable link) = true) :
      Does cfg (.leaveUnlinked link) w () (w.leaveUnlinked link)
  | resolveConflict {w : World} {link conflict : Uuid} {choice : TaskConflictChoice} (hl : w.locked = false)
      (h : w.links.any (w.resolvable link conflict) = true) :
      Does cfg (.resolveConflict link conflict choice) w () (w.resolveConflict link conflict choice)
  | configure {w w' : World} {enabled : Bool} {selected : Option (String × String)} {expectedVersion : Nat} (hl : w.locked = false)
      (h : w.configure? cfg enabled selected expectedVersion = some w') :
      Does cfg (.configure enabled selected expectedVersion) w () w'

/-- What an operation answers. Where the database fails, its answer may be lost, and the transaction
committed; a request to Google is answered in any case, be it with `Reply.lost`. -/
inductive Step (cfg : Config) : (o : Op) → World → Except LinkError o.Answer → World → Prop
  | does {o : Op} {w w' : World} {a : o.Answer} (h : Does cfg o w a w') : Step cfg o w (.ok a) w'
  | failed {o : Op} {w : World} {e : LinkError} (ho : ∀ c, o ≠ .http c) : Step cfg o w (.error e) w
  | lost {o : Op} {w w' : World} {a : o.Answer} {e : LinkError} (h : Does cfg o w a w') (ho : ∀ c, o ≠ .http c) (hl : o ≠ .lockUser) :
      Step cfg o w (.error e) w'

abbrev TasksSig : Sig := ⟨Op, fun o => Except LinkError o.Answer⟩

abbrev TasksProg := Prog TasksSig LinkError

def call (o : Op) : TasksProg o.Answer := .op o Prog.ofExcept

/-! ## Beside the synchronization -/

/-- The transaction with the lock of the user; it is only ever rolled back. -/
inductive Guard
  | lock
deriving DecidableEq, Repr

inductive Release : Guard → World → World → Prop
  | rollback {w : World} : Release .lock w { w with locked := false }

/-- What other requests of the user and other programs of Google do meanwhile. -/
inductive Idle (cfg : Config) : World → World → Prop
  | perform {w : World} {a : Action} {bumps : Nat} (hb : Bumps cfg a w.workspace bumps) : Idle cfg w (w.perform cfg a bumps)
  | edit {w : World} {key : String × String} {content : TaskContent} : Idle cfg w { w with google := w.google.commit key content }
  /-- The claim of `create_list`. -/
  | claimList {w : World} (h : w.connection.all fun c => !c.enabled && c.taskListId.isNone) : Idle cfg w w.claimList

def guardsAfter : (o : Op) → Except LinkError o.Answer → List Guard → List Guard
  | .lockUser, .ok _, guards => .lock :: guards
  | _, _, guards => guards

end TasksSync

end Prosepect

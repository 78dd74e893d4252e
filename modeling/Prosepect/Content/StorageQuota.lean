/-
The bytes of attachments that the users may store: `create_file_metadata` and `delete_file_metadata`
of `file_store.rs`, statement by statement, with the programs of all users that come to them.

What a statement writes is committed at once, but for the row of `create_file_metadata`, which is
inserted under an advisory lock and committed at the end of its transaction.
-/
import Prosepect.Resumption.Guards
import Prosepect.Store.Workspace

namespace Prosepect

open Time Resumption

namespace StorageQuota

/-! ## The table and the limits -/

/-- A row of `files`, with its user. -/
structure OwnedFile where
  userId : Uuid
  file : FileRecord
deriving DecidableEq

/-- The limits, as `Config::from_env` lets them pass. -/
structure StorageLimits where
  user : Int
  total : Int
  user_pos : 0 < user
  user_le_total : user ≤ total
  total_le : total ≤ 9223372036854775807

/-- `i64::saturating_sub`. -/
def saturatingSub (a b : Int) : Int := max (-9223372036854775808) (min 9223372036854775807 (a - b))

/-- `COALESCE(SUM(byte_size), 0)` over the rows of a user. -/
def usedBy (user : Uuid) (files : List OwnedFile) : Int := ((files.filter (·.userId == user)).map (·.file.byteSize)).sum

/-- The same over all rows. -/
def usedByAll (files : List OwnedFile) : Int := (files.map (·.file.byteSize)).sum

structure World where
  /-- What is committed. -/
  files : List OwnedFile
  /-- `pg_advisory_xact_lock(741733074)` is held. -/
  locked : Bool
  /-- The row that the transaction with the lock has inserted. -/
  pending : Option OwnedFile
  nextId : Uuid

/-- What a file is linked to. -/
structure FileLinks where
  projectId : Option Uuid
  taskId : Option Uuid
  noteId : Option Uuid
  eventId : Option Uuid

namespace World

def empty : World := ⟨[], false, none, 0⟩

def commit (w : World) : World := { w with files := w.files ++ w.pending.toList, pending := none, locked := false }

def rollback (w : World) : World := { w with pending := none, locked := false }

def insert (w : World) (row : OwnedFile) : World := { w with pending := some row, nextId := w.nextId + 1 }

def delete (w : World) (user file : Uuid) : World :=
  { w with files := w.files.filter fun row => !(row.userId == user && row.file.id == file) }

/-- `DELETE FROM users`, with what it cascades to. -/
def deleteUser (w : World) (user : Uuid) : World := { w with files := w.files.filter fun row => !(row.userId == user) }

/-- Links are set, to what they were or to nothing. -/
def relink (w : World) (links : OwnedFile → FileLinks) : World :=
  { w with
    files := w.files.map fun row =>
      { row with
        file := { row.file with
          projectId := (links row).projectId
          taskId := (links row).taskId
          noteId := (links row).noteId
          eventId := (links row).eventId } } }

end World

/-! ## The programs -/

inductive Failure
  | notFound (what : String)
  | database (error : SqlError)
  /-- The object store. -/
  | storage

def storageError : AppError := .invalidRequest 500 "file storage operation failed"

def Failure.error : Failure → AppError
  | .notFound what => .notFound what
  | .database e => .database e
  | .storage => storageError

inductive Op
  | verifyFileParent
  | begin
  | lock
  | userUsedBytes (user : Uuid)
  | totalUsedBytes
  | insert (user : Uuid) (r : Store.FileRequest)
  | commit
  | put (key : String)
  | deleteFileMetadata (user file : Uuid)
  | fileDownload (user file : Uuid)
  | deleteObject (key : String)
  | accountObjectKeys (user : Uuid)
  | deleteUser (user : Uuid)
  /-- `UPDATE files` of an undone deletion, with the transaction around it. -/
  | restoreLinks (user : Uuid) (links : Uuid → Option FileLinks)

def Op.Answer : Op → Type
  | .userUsedBytes _ | .totalUsedBytes => Int
  | .insert _ _ => FileRecord
  | .deleteFileMetadata _ _ | .fileDownload _ _ => String
  | .accountObjectKeys _ => List String
  | _ => Unit

abbrev QuotaSig : Sig := ⟨Op, fun o => Except Failure o.Answer⟩

abbrev QuotaProg (α : Type) : Type := Prog QuotaSig AppError α

def call (o : Op) : QuotaProg o.Answer := .op o fun r => Prog.ofExcept (r.mapError Failure.error)

def refuseIf (p : Bool) (message : String) : QuotaProg Unit :=
  if p then .fail (.invalidRequest 413 message) else pure ()

def createFileMetadata (user : Uuid) (r : Store.FileRequest) : QuotaProg FileRecord := do
  Prog.ofExcept (Store.validateOneParent r.projectId r.taskId r.noteId r.eventId)
  call .verifyFileParent
  call .begin
  call .lock
  let userUsedBytes ← call (.userUsedBytes user)
  refuseIf (decide (r.byteSize > saturatingSub r.maxUserStorageBytes userUsedBytes)) "personal attachment storage quota exceeded"
  let totalUsedBytes ← call .totalUsedBytes
  refuseIf (decide (r.byteSize > saturatingSub r.maxTotalStorageBytes totalUsedBytes)) "attachment storage quota exceeded"
  let file ← call (.insert user r)
  call .commit
  return file

/-- The row goes again when its bytes could not be stored. -/
def releaseQuota (user file : Uuid) : QuotaProg Unit := do
  let _ ← (call (.deleteFileMetadata user file)).attempt
  Prog.fail storageError

def storeBytes (user : Uuid) (key : String) (file : Uuid) : QuotaProg Unit := do
  let stored ← (call (.put key)).attempt
  if stored.isOk then return () else releaseQuota user file

def objectKey (user file : Uuid) : String := toString user ++ "-" ++ toString file

/-- The request as `upload_file` passes it on. -/
def uploadRequest (limits : StorageLimits) (user fileId : Uuid) (r : Store.FileRequest) : Store.FileRequest :=
  { r with
    objectKey := objectKey user fileId
    maxUserStorageBytes := limits.user
    maxTotalStorageBytes := limits.total }

/-- `upload_file`, once the fields of the request are read. -/
def uploadFile (limits : StorageLimits) (user fileId : Uuid) (r : Store.FileRequest) : QuotaProg Unit := do
  let metadata ← createFileMetadata user (uploadRequest limits user fileId r)
  storeBytes user (objectKey user fileId) metadata.id

def deleteFile (user file : Uuid) : QuotaProg Unit := do
  let key ← call (.fileDownload user file)
  call (.deleteObject key)
  let _ ← call (.deleteFileMetadata user file)
  return ()

def deleteAccount (user : Uuid) : QuotaProg Unit := do
  let keys ← call (.accountObjectKeys user)
  Prog.forEach (fun key => call (.deleteObject key)) keys
  call (.deleteUser user)

inductive Request
  | uploadFile (fileId : Uuid) (r : Store.FileRequest)
  | deleteFile (file : Uuid)
  | deleteAccount
  | undoTaskDelete (links : Uuid → Option FileLinks)

def program (limits : StorageLimits) (user : Uuid) : Request → QuotaProg Unit
  | .uploadFile fileId r => uploadFile limits user fileId r
  | .deleteFile file => deleteFile user file
  | .deleteAccount => deleteAccount user
  | .undoTaskDelete links => call (.restoreLinks user links)

/-! ## What a request has read and holds -/

/-- The transaction with the lock; dropped without a commit, it is rolled back. -/
inductive Guard
  | lock
deriving DecidableEq, Repr

structure Frame where
  user : Uuid
  request : Request
  guards : List Guard
  /-- The answers of the statements that are kept in variables. -/
  userUsed : Option Int
  totalUsed : Option Int
  file : Option Uuid
  /-- The last deletion of metadata, and its answer. -/
  deletion : Option (Uuid × Except Failure String)

namespace Frame

def arrived (user : Uuid) (r : Request) : Frame := ⟨user, r, [], none, none, none, none⟩

def byteSize (f : Frame) : Int :=
  match f.request with
  | .uploadFile _ r => r.byteSize
  | _ => 0

def after : (o : Op) → Except Failure o.Answer → Frame → Frame
  | .lock, .ok _, f => { f with guards := .lock :: f.guards }
  | .userUsedBytes _, .ok n, f => { f with userUsed := some n }
  | .totalUsedBytes, .ok n, f => { f with totalUsed := some n }
  | .insert _ _, .ok file, f => { f with file := some file.id }
  | .commit, _, f => { f with guards := f.guards.erase .lock }
  | .deleteFileMetadata _ file, r, f => { f with deletion := some (file, r) }
  | _, _, f => f

def pop (f : Frame) : Frame := { f with guards := f.guards.tail }

end Frame

/-! ## Steps -/

/-- The row that `INSERT INTO files` writes. -/
def newRow (user : Uuid) (r : Store.FileRequest) (id : Uuid) (now : DateTime) : OwnedFile :=
  { userId := user
    file :=
      { id := id, projectId := r.projectId, taskId := r.taskId, noteId := r.noteId, eventId := r.eventId,
        objectKey := r.objectKey, filename := r.filename, contentType := r.contentType, byteSize := r.byteSize,
        createdAt := now } }

def OwnedFile.links (row : OwnedFile) : FileLinks := ⟨row.file.projectId, row.file.taskId, row.file.noteId, row.file.eventId⟩

/-- The links after an undone deletion, which names files of the user; that to a project stays. -/
def restored (user : Uuid) (links : Uuid → Option FileLinks) (row : OwnedFile) : FileLinks :=
  if row.userId == user then { (links row.file.id).getD row.links with projectId := row.file.projectId } else row.links

/-- What a statement, or a request to the object store, answers when it succeeds. -/
inductive Does : (o : Op) → World → o.Answer → World → Prop
  | verifyFileParent {w : World} : Does .verifyFileParent w () w
  | begin {w : World} : Does .begin w () w
  | lock {w : World} (h : w.locked = false) : Does .lock w () { w with locked := true }
  | userUsedBytes {user : Uuid} {w : World} : Does (.userUsedBytes user) w (usedBy user w.files) w
  | totalUsedBytes {w : World} : Does .totalUsedBytes w (usedByAll w.files) w
  /-- With the check of the column. -/
  | insert {user : Uuid} {r : Store.FileRequest} {w : World} {now : DateTime} (h : 0 ≤ r.byteSize ∧ r.byteSize ≤ 104857600) :
      Does (.insert user r) w (newRow user r w.nextId now).file (w.insert (newRow user r w.nextId now))
  | commit {w : World} : Does .commit w () w.commit
  | put {key : String} {w : World} : Does (.put key) w () w
  | deleteFileMetadata {user file : Uuid} {w : World} {row : OwnedFile} (h : row ∈ w.files) (hu : row.userId = user)
      (hf : row.file.id = file) : Does (.deleteFileMetadata user file) w row.file.objectKey (w.delete user file)
  | fileDownload {user file : Uuid} {w : World} {row : OwnedFile} (h : row ∈ w.files) (hu : row.userId = user)
      (hf : row.file.id = file) : Does (.fileDownload user file) w row.file.objectKey w
  | deleteObject {key : String} {w : World} : Does (.deleteObject key) w () w
  | accountObjectKeys {user : Uuid} {w : World} :
      Does (.accountObjectKeys user) w ((w.files.filter (·.userId == user)).map (·.file.objectKey)) w
  | deleteUser {user : Uuid} {w : World} : Does (.deleteUser user) w () (w.deleteUser user)
  | restoreLinks {user : Uuid} {links : Uuid → Option FileLinks} {w : World} :
      Does (.restoreLinks user links) w () (w.relink (restored user links))

/-- What an operation may answer. A commit that fails has ended the transaction; of a statement that
commits, the answer may be lost. -/
inductive Step : (o : Op) → World → Except Failure o.Answer → World → Prop
  | does {o : Op} {w w' : World} {a : o.Answer} (h : Does o w a w') : Step o w (.ok a) w'
  | failed {o : Op} {w : World} {e : SqlError} (h : o ≠ .commit) : Step o w (.error (.database e)) w
  | aborted {w : World} {e : SqlError} : Step .commit w (.error (.database e)) w.rollback
  | lost {o : Op} {w w' : World} {a : o.Answer} {e : SqlError} (h : Does o w a w') (ho : o ≠ .lock) :
      Step o w (.error (.database e)) w'
  | noParent {w : World} : Step .verifyFileParent w (.error (.notFound "file parent")) w
  | notFound {user file : Uuid} {w : World} (h : ∀ row ∈ w.files, row.userId = user → row.file.id ≠ file) :
      Step (.deleteFileMetadata user file) w (.error (.notFound "file")) w
  | noDownload {user file : Uuid} {w : World} (h : ∀ row ∈ w.files, row.userId = user → row.file.id ≠ file) :
      Step (.fileDownload user file) w (.error (.notFound "file")) w
  | notStored {key : String} {w : World} : Step (.put key) w (.error .storage) w
  | notDeleted {key : String} {w : World} : Step (.deleteObject key) w (.error .storage) w

/-- The transaction is rolled back, or its commit was under way when the request was cancelled. -/
inductive Release : Guard → World → World → Prop
  | rollback {w : World} : Release .lock w w.rollback
  | commit {w : World} : Release .lock w w.commit

/-- What a file is linked to may go. -/
inductive Idle : World → World → Prop
  | relink {w : World} {links : OwnedFile → FileLinks} : Idle w (w.relink links)

def quota (limits : StorageLimits) : Holding QuotaSig AppError World Frame Guard where
  step := Step
  after := Frame.after
  guards := Frame.guards
  pop := Frame.pop
  release := Release
  idle := Idle
  start f p := ∃ user r, f = .arrived user r ∧ p = program limits user r

end StorageQuota

end Prosepect

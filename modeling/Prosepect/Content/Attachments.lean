/-
The two stores of attachments: rows of `files` in the database, bytes in an object store, and no
transaction over both.

`upload_file` and `delete_file` of `file_routes.rs`, `delete_account` of `export_routes.rs` and
`file_storage.rs`, as programs whose operations may each fail, of one user.
-/
import Prosepect.Resumption.Pool
import Prosepect.Store.Workspace

namespace Prosepect

open Resumption

namespace Attachments

/-! ## The two stores -/

structure World where
  /-- What the database has of the user. None: the row of `users` is deleted. -/
  workspace : Option Workspace
  /-- The keys of the object store. -/
  objects : List String
  /-- The identifiers that uploads have drawn. -/
  drawn : List Uuid

def World.rows (w : World) : List FileRecord := (w.workspace.map (·.files)).getD []

/-- The operations: statements of the store, and requests to the object store and to Google. -/
inductive Op
  | createFileMetadata (r : Store.FileRequest)
  | deleteFileMetadata (file : Uuid)
  | fileDownload (file : Uuid)
  | accountObjectKeys
  | deleteAccount
  | googleCredentials
  | revoke
  | put (key : String)
  | delete (key : String)

def Op.Answer : Op → Type
  | .createFileMetadata _ => FileRecord
  | .deleteFileMetadata _ => String
  | .fileDownload _ => FileRecord × String
  | .accountObjectKeys => List String
  | _ => Unit

abbrev FileSig : Sig := ⟨Op, fun o => Except AppError o.Answer⟩

abbrev FileProg (α : Type) := Prog FileSig AppError α

def call (o : Op) : FileProg o.Answer := .op o Prog.ofExcept

/-- `map_err(|_| e)?`. -/
def orFail {α : Type} (e : AppError) (p : FileProg α) : FileProg α := do
  match ← p.attempt with
  | .ok a => return a
  | .error _ => Prog.fail e

/-! ## The programs -/

def storageError : AppError := .invalidRequest 500 "file storage operation failed"

def objectKey (user file : Uuid) : String := toString user ++ "-" ++ toString file

/-- The row goes again when its bytes could not be stored. -/
def releaseQuota (file : Uuid) : FileProg Unit := do
  let _ ← (call (.deleteFileMetadata file)).attempt
  Prog.fail storageError

def storeBytes (key : String) (file : Uuid) : FileProg Unit := do
  match ← (call (.put key)).attempt with
  | .ok _ => return ()
  | .error _ => releaseQuota file

/-- `upload_file`, once the fields of the request are read. -/
def uploadFile (user fileId : Uuid) (r : Store.FileRequest) : FileProg Unit := do
  let metadata ← call (.createFileMetadata { r with objectKey := objectKey user fileId })
  storeBytes (objectKey user fileId) metadata.id

def forget (file : Uuid) : FileProg Unit := do
  let _ ← call (.deleteFileMetadata file)
  return ()

def remove (key : String) (file : Uuid) : FileProg Unit := do
  orFail storageError (call (.delete key))
  forget file

def deleteFile (file : Uuid) : FileProg Unit := do
  let (_, key) ← call (.fileDownload file)
  remove key file

def clear (keys : List String) : FileProg Unit := do
  Prog.forEach (fun key => orFail (.invalidRequest 500 "could not delete account files") (call (.delete key))) keys
  call .deleteAccount

def clearAll : FileProg Unit := do
  let keys ← call .accountObjectKeys
  clear keys

def revokeFirst : FileProg Unit := do
  call .revoke
  clearAll

def deleteAccount (confirmation : String) : FileProg Unit :=
  if confirmation ≠ "DELETE" then .fail (.validation "account deletion confirmation must equal DELETE")
  else do
    match ← (call .googleCredentials).attempt with
    | .ok _ => revokeFirst
    | .error (.notConfigured _) => clearAll
    | .error e => Prog.fail e

/-! ## The operations -/

/-- A statement of the workspace. Without the row of the user, it finds nothing. -/
def onWorkspace {α : Type} (none_ : AppError) (t : WorkspaceTx α) (w : World) : Except AppError α × World :=
  match w.workspace with
  | none => (.error none_, w)
  | some ws => ((Tx.commit t ws).1, { w with workspace := some (Tx.commit t ws).2 })

def fileDownload (file : Uuid) (w : World) : Except AppError (FileRecord × String) :=
  match w.rows.find? (·.id == file) with
  | some f => .ok (f, f.objectKey)
  | none => .error (.notFound "file")

/-- `others`: the bytes of all other users. `absent`: what the object store answers when it is
to delete a key it does not have. -/
def exec (absent : Except AppError Unit) (others : Int) : (o : Op) → World → Except AppError o.Answer × World
  | .createFileMetadata r, w => onWorkspace (.database .foreignKey) (Store.createFileMetadata others r) w
  | .deleteFileMetadata file, w => onWorkspace (.notFound "file") (Store.deleteFileMetadata file) w
  | .fileDownload file, w => (fileDownload file w, w)
  | .accountObjectKeys, w => (.ok (w.rows.map (·.objectKey)), w)
  | .deleteAccount, w =>
    match w.workspace with
    | none => (.error .unauthorized, w)
    | some _ => (.ok (), { w with workspace := none })
  | .googleCredentials, w =>
    (if (w.workspace.bind (·.account)).isSome then .ok () else .error (.notConfigured "Google Calendar integration"), w)
  | .revoke, w => (.ok (), w)
  | .put key, w => (.ok (), { w with objects := key :: w.objects })
  | .delete key, w =>
    if key ∈ w.objects then (.ok (), { w with objects := w.objects.filter (· ≠ key) }) else (absent, w)

/-- Every operation may fail, and then has changed nothing. -/
def Step (absent : Except AppError Unit) (o : Op) (w : World) (r : Except AppError o.Answer) (w' : World) : Prop :=
  (∃ others, exec absent others o w = (r, w')) ∨ (∃ e, r = .error e) ∧ w' = w

/-! ## Requests -/

inductive Request
  | uploadFile (r : Store.FileRequest)
  | deleteFile (file : Uuid)
  | deleteAccount (confirmation : String)

/-- An upload draws a new identifier. -/
inductive Start (user : Uuid) : Request → World → FileProg Unit → World → Prop
  | uploadFile {r : Store.FileRequest} {w : World} {id : Uuid} (h : id ∉ w.drawn) :
      Start user (.uploadFile r) w (Attachments.uploadFile user id r) { w with drawn := id :: w.drawn }
  | deleteFile {file : Uuid} {w : World} : Start user (.deleteFile file) w (Attachments.deleteFile file) w
  | deleteAccount {confirmation : String} {w : World} :
      Start user (.deleteAccount confirmation) w (Attachments.deleteAccount confirmation) w

abbrev server (user : Uuid) (absent : Except AppError Unit) : Server FileSig AppError World Request :=
  ⟨fun o w r w' => Step absent o w r w', Start user⟩

abbrev FilePool := Pool FileSig AppError World Request

/-! ## What an operation owes -/

/-- The keys a deletion of the account has still to delete. -/
def remaining : FileProg Unit → List String
  | .op (.delete key) k => key :: remaining (k (.ok ()))
  | _ => []

/-- What is under way will store the bytes of the row, or has deleted them and will delete the row. -/
def Owes (q : Request) (p : FileProg Unit) (f : FileRecord) : Prop :=
  match q, p with
  | _, .op (.put key) _ => f.objectKey = key
  | _, .op (.deleteFileMetadata file) _ => f.id = file
  | .deleteAccount _, .op (.delete key) k => f.objectKey ∉ remaining (.op (.delete key) k)
  | .deleteAccount _, .op .deleteAccount _ => True
  | _, _ => False

/-- Another operation than that of the place owes the row. -/
def OwedElsewhere (c : FilePool) (i : Nat) (f : FileRecord) : Prop :=
  ∃ j t, j ≠ i ∧ c.threads j = some t ∧ Owes t.request t.rest f

/-- Bytes are stored for a row that is there and that nothing else under way is deleting. -/
def Timely (a : Pool.Event FileSig) (c : FilePool) : Prop :=
  ∀ i key, a = .act i (.put key) (.ok ()) → ∃ f ∈ c.world.rows, f.objectKey = key ∧ ¬ OwedElsewhere c i f

/-- The event ends the operation of the place without success. -/
def Ends (a : Pool.Event FileSig) (c : FilePool) (i : Nat) : Prop :=
  a = .cut i ∨ ∃ q o k x y, a = .act i o (.error x) ∧ c.threads i = some ⟨q, .op o k⟩ ∧ k (.error x) = .fail y

/-- No operation ends without success that alone owes a row without bytes. -/
def Settled (a : Pool.Event FileSig) (c : FilePool) : Prop :=
  ∀ i t, Ends a c i → c.threads i = some t → ∀ f ∈ c.world.rows, f.objectKey ∉ c.world.objects →
    Owes t.request t.rest f → OwedElsewhere c i f

/-- The stores are consistent: with the account go all objects, for good, and every file that
nothing under way is working on can be deleted, and with them the account. -/
structure Consistent (absent : Except AppError Unit) (c : FilePool) : Prop where
  gone : ∀ confirmation, (.deleteAccount confirmation, .ok ()) ∈ c.answers → c.world.objects = []
  file : ∀ others, ∀ f ∈ c.world.rows, (∀ i t, c.threads i = some t → ¬ Owes t.request t.rest f) →
    ((deleteFile f.id).run (exec absent others) c.world).1 = .ok ()
  account : ∀ others, c.world.workspace.isSome → (∀ f ∈ c.world.rows, ∀ i t, c.threads i = some t → ¬ Owes t.request t.rest f) →
    ((deleteAccount "DELETE").run (exec absent others) c.world).1 = .ok ()

/-- A user without files and with nothing under way. -/
def initial (ws : Workspace) : FilePool := ⟨⟨some ws, [], []⟩, fun _ => none, []⟩

end Attachments

end Prosepect

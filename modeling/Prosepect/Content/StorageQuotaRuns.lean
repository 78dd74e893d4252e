/-
The limits on stored attachments hold in every run of the programs of all users.

While a transaction holds the lock nobody adds a row, so that what it has read of the sums is
never too little (`Inv.read`), and the row it inserts fits whenever it commits (`Inv.pending`).
-/
import Prosepect.Content.StorageQuota

namespace Prosepect

open Time Resumption Tasks

namespace StorageQuota

variable {limits : StorageLimits}

/-! ## What the programs ask for and answer -/

/-- A check has found no room. -/
def Exceeds (limits : StorageLimits) (f : Frame) : Prop :=
  (∃ n, f.userUsed = some n ∧ saturatingSub limits.user n < f.byteSize) ∨
    ∃ n, f.totalUsed = some n ∧ saturatingSub limits.total n < f.byteSize

/-- Both checks have found room for the bytes. -/
structure Fits (limits : StorageLimits) (f : Frame) (bytes : Int) : Prop where
  user : ∃ n, f.userUsed = some n ∧ bytes ≤ saturatingSub limits.user n
  total : ∃ n, f.totalUsed = some n ∧ bytes ≤ saturatingSub limits.total n

/-- The metadata of the upload were asked to be deleted. -/
def CleanedUp (f : Frame) : Prop := ∃ file a, f.file = some file ∧ f.deletion = some (file, a)

/-- What holds before an operation. -/
def Ready (limits : StorageLimits) (f : Frame) : Op → Prop
  | .lock => f.guards = [] ∧ f.userUsed = none ∧ f.totalUsed = none
  | .userUsedBytes user => user = f.user ∧ f.guards = [.lock]
  | .totalUsedBytes => f.guards = [.lock]
  | .insert user r => user = f.user ∧ f.guards = [.lock] ∧ f.deletion = none ∧ Fits limits f r.byteSize
  | .commit => f.guards = [.lock]
  | .deleteFileMetadata user _ => user = f.user ∧ f.guards = []
  | _ => True

/-- What an error says. -/
structure Ended (limits : StorageLimits) (f : Frame) (e : AppError) : Prop where
  refused : ∀ message, e = .invalidRequest 413 message → Exceeds limits f
  unstored : e = storageError → ∀ id r, f.request = .uploadFile id r → CleanedUp f

def Runs {α : Type} (limits : StorageLimits) (Q : Frame → α → Prop) : Frame → QuotaProg α → Prop :=
  (quota limits).Throughout (Ready limits) (Ended limits) Q

/-- Only the object store fails as the object store. -/
theorem Step.storage {o : Op} {w w' : World} (h : Step o w (.error .storage) w') : (∃ key, o = .put key) ∨ ∃ key, o = .deleteObject key := by
  cases h with
  | notStored => exact .inl ⟨_, rfl⟩
  | notDeleted => exact .inr ⟨_, rfl⟩

theorem ended_of_failure {f : Frame} {e : Failure} (h : e = .storage → ∀ id r, f.request = .uploadFile id r → CleanedUp f) :
    Ended limits f e.error := by
  cases e with
  | storage => exact ⟨fun message hm => by simp [Failure.error, storageError] at hm, fun _ => h rfl⟩
  | notFound what => exact ⟨fun message hm => by simp [Failure.error] at hm, fun hs => by simp [Failure.error, storageError] at hs⟩
  | database e => exact ⟨fun message hm => by simp [Failure.error] at hm, fun hs => by simp [Failure.error, storageError] at hs⟩

section Programs

variable {α β : Type} {f : Frame}

theorem runs_bind {Q : Frame → β → Prop} {p : QuotaProg α} {k : α → QuotaProg β}
    (h : Runs limits (fun f a => Runs limits Q f (k a)) f p) : Runs limits Q f (p >>= k) := Holding.Throughout.bind h

theorem runs_call {o : Op} {Q : Frame → o.Answer → Prop} (hr : Ready limits f o) (ho : ∀ key, o ≠ .put key)
    (hd : ∀ key, o = .deleteObject key → ∀ id r, f.request ≠ .uploadFile id r) (hQ : ∀ a, Q (f.after o (.ok a)) a) :
    Runs limits Q f (call o) := by
  refine ⟨hr, fun r hstep => ?_⟩
  cases r with
  | ok a => exact hQ a
  | error e =>
    refine ended_of_failure ?_
    rintro rfl id r hreq
    obtain ⟨w, w', hs⟩ := hstep
    rcases Step.storage hs with ⟨key, rfl⟩ | ⟨key, rfl⟩
    · exact absurd rfl (ho key)
    · exact absurd hreq (hd key rfl id r)

/-- A call whose error is dealt with. -/
theorem runs_attempt {o : Op} {Q : Frame → Except AppError o.Answer → Prop} (hr : Ready limits f o)
    (hQ : ∀ r : Except Failure o.Answer, Q (f.after o r) (r.mapError Failure.error)) : Runs limits Q f (call o).attempt := by
  refine ⟨hr, fun r _ => ?_⟩
  cases r with
  | ok a => exact hQ (.ok a)
  | error e => exact hQ (.error e)

theorem runs_ofExcept {Q : Frame → Unit → Prop} {r : Except AppError Unit} (hok : Q f ()) (herr : ∀ e, r = .error e → Ended limits f e) :
    Runs limits Q f (Prog.ofExcept r) := by
  cases r with
  | ok a => exact hok
  | error e => exact herr e rfl

theorem runs_refuseIf {Q : Frame → Unit → Prop} {p : Bool} {message : String} (hf : p = false → Q f ()) (ht : p = true → Exceeds limits f) :
    Runs limits Q f (refuseIf p message) := by
  cases p with
  | false => exact hf rfl
  | true => exact ⟨fun _ _ => ht rfl, fun hs => absurd hs (by simp [storageError])⟩

theorem validateOneParent_ended {project task note event : Option Uuid} {e : AppError}
    (h : Store.validateOneParent project task note event = .error e) : Ended limits f e := by
  unfold Store.validateOneParent at h
  split at h
  · cases h
    exact ⟨fun _ hm => absurd hm (by simp), fun hs => absurd hs (by simp [storageError])⟩
  · cases h

/-- The metadata is inserted and committed, and nothing is held. -/
theorem runs_createFileMetadata {Q : Frame → FileRecord → Prop} {r : Store.FileRequest} (hguards : f.guards = [])
    (huser : f.userUsed = none) (htotal : f.totalUsed = none) (hdel : f.deletion = none) (hbytes : f.byteSize = r.byteSize)
    (hmax : r.maxUserStorageBytes = limits.user) (hmaxt : r.maxTotalStorageBytes = limits.total)
    (hQ : ∀ (g : Frame) (file : FileRecord), g.user = f.user → g.guards = [] → g.file = some file.id → g.request = f.request →
      Q g file) : Runs limits Q f (createFileMetadata f.user r) := by
  unfold createFileMetadata
  refine runs_bind (runs_ofExcept ?_ fun e he => validateOneParent_ended he)
  refine runs_bind (runs_call trivial nofun nofun fun _ => ?_)
  refine runs_bind (runs_call trivial nofun nofun fun _ => ?_)
  refine runs_bind (runs_call ⟨hguards, huser, htotal⟩ nofun nofun fun _ => ?_)
  have hlock : (f.after .lock (.ok ())).guards = [.lock] := congrArg (Guard.lock :: ·) hguards
  refine runs_bind (runs_call (f := f.after .lock (.ok ())) ⟨rfl, hlock⟩ nofun nofun fun n => ?_)
  refine runs_bind (runs_refuseIf (fun hn => ?_) fun hn => ?_)
  · refine runs_bind (runs_call hlock nofun nofun fun m => ?_)
    refine runs_bind (runs_refuseIf (fun hm => ?_) fun hm => ?_)
    · rw [decide_eq_false_iff_not, hmax] at hn
      rw [decide_eq_false_iff_not, hmaxt] at hm
      refine runs_bind (runs_call ⟨rfl, hlock, hdel, ⟨⟨n, rfl, ?_⟩, ⟨m, rfl, ?_⟩⟩⟩ nofun nofun fun file => ?_)
      · omega
      · omega
      · refine runs_bind (runs_call hlock nofun nofun fun _ => ?_)
        refine hQ _ file rfl ?_ rfl rfl
        show List.erase (f.after .lock (.ok ())).guards .lock = []
        rw [hlock]
        rfl
    · rw [decide_eq_true_eq, hmaxt, ← hbytes] at hm
      exact .inr ⟨m, rfl, hm⟩
  · rw [decide_eq_true_eq, hmax, ← hbytes] at hn
    exact .inl ⟨n, rfl, hn⟩

theorem runs_uploadFile {user : Uuid} {fileId : Uuid} {r : Store.FileRequest} :
    Runs limits (fun _ _ => True) (.arrived user (.uploadFile fileId r)) (uploadFile limits user fileId r) := by
  unfold uploadFile
  refine runs_bind (runs_createFileMetadata (f := .arrived user (.uploadFile fileId r)) (r := uploadRequest limits user fileId r)
    rfl rfl rfl rfl rfl rfl rfl fun g file huser hguards hfile hreq => ?_)
  unfold storeBytes
  refine runs_bind (runs_attempt trivial fun stored => ?_)
  split
  · exact trivial
  · unfold releaseQuota
    refine runs_bind (runs_attempt ⟨huser.symm, hguards⟩ fun a => ?_)
    -- The metadata was asked to be deleted before the error is answered.
    refine ⟨fun message hm => by simp [storageError] at hm, fun _ _ _ _ => ⟨file.id, a, hfile, rfl⟩⟩

theorem runs_forEach {Q : Frame → Prop} {keys : List String} (hreq : ∀ id r, f.request ≠ .uploadFile id r) (hQ : Q f) :
    Runs limits (fun g _ => Q g) f (Prog.forEach (fun key => call (.deleteObject key)) keys) := by
  induction keys with
  | nil => exact hQ
  | cons key keys ih => exact runs_bind (runs_call trivial nofun (fun _ _ => hreq) fun _ => ih)

/-- What every program asks for and answers. -/
theorem runs_program (user : Uuid) (r : Request) : Runs limits (fun _ _ => True) (.arrived user r) (program limits user r) := by
  cases r with
  | uploadFile fileId r => exact runs_uploadFile
  | deleteFile file =>
    show Runs limits _ _ (deleteFile user file)
    unfold deleteFile
    refine runs_bind (runs_call trivial nofun nofun fun key => ?_)
    refine runs_bind (runs_call trivial nofun (fun _ _ => nofun) fun _ => ?_)
    exact runs_bind (runs_call ⟨rfl, rfl⟩ nofun nofun fun _ => trivial)
  | deleteAccount =>
    show Runs limits _ _ (deleteAccount user)
    unfold deleteAccount
    refine runs_bind (runs_call trivial nofun nofun fun keys => ?_)
    refine runs_bind (runs_forEach (Q := fun g => Runs limits (fun _ _ => True) g (call (.deleteUser user))) nofun ?_)
    exact runs_call trivial nofun nofun fun _ => trivial
  | undoTaskDelete links => exact runs_call trivial nofun nofun fun _ => trivial

end Programs

end StorageQuota

end Prosepect

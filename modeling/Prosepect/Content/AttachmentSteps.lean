/-
What is known at each point of the programs of attachments (`Doing`), what leaves it true
(`Beside`), and what each operation does to it (`acted`).
-/
import Mathlib.Data.List.Nodup
import Prosepect.Content.Attachments

namespace Prosepect

open Resumption

namespace Attachments

variable {user : Uuid} {absent : Except AppError Unit} {w w' : World}

theorem objectKey_inj {file file' : Uuid} (h : objectKey user file = objectKey user file') : file = file' := by
  unfold objectKey at h
  have hrepr : Nat.repr file = Nat.repr file' := (String.append_right_inj _).1 h
  have hdigits : Nat.toDigits 10 file = Nat.toDigits 10 file' := by
    have := congrArg String.toList hrepr
    simpa [Nat.repr] using this
  rw [← Nat.ofDigitChars_toDigits (b := 10) (n := file) (by decide) (by decide), hdigits,
    Nat.ofDigitChars_toDigits (by decide) (by decide)]

/-! ## The statements -/

theorem createFileMetadata_ok {others : Int} {r : Store.FileRequest} {ws ws' : Workspace} {file : FileRecord}
    (h : Store.createFileMetadata others r ws = .ok (file, ws')) :
    file.id = ws.db.nextId ∧ file.objectKey = r.objectKey ∧ ws'.files = ws.files ++ [file] ∧
      ws'.db.nextId = ws.db.nextId + 1 := by
  unfold Store.createFileMetadata at h
  obtain ⟨-, -, h⟩ := Tx.ofExcept_bind_ok h
  rw [Tx.read_bind_run] at h
  obtain ⟨-, -, h⟩ := Tx.ofExcept_bind_ok h
  dsimp only at h
  split at h
  · cases h
  · split at h
    · cases h
    · split at h
      · cases h
      · cases h
        exact ⟨rfl, rfl, rfl, rfl⟩

theorem deleteFileMetadata_ok {file : Uuid} {ws ws' : Workspace} {key : String}
    (h : Store.deleteFileMetadata file ws = .ok (key, ws')) :
    ws'.files = Table.delete (·.id == file) ws.files ∧ ws'.db = ws.db := by
  unfold Store.deleteFileMetadata at h
  rw [Tx.read_bind_run] at h
  cases hf : ws.files.find? (·.id == file) with
  | none =>
    simp only [hf] at h
    cases h
  | some f =>
    simp only [hf] at h
    cases h
    exact ⟨rfl, rfl⟩

theorem deleteFileMetadata_error {file : Uuid} {ws : Workspace} {e : AppError}
    (h : Store.deleteFileMetadata file ws = .error e) : ∀ f ∈ ws.files, f.id ≠ file := by
  unfold Store.deleteFileMetadata at h
  rw [Tx.read_bind_run] at h
  cases hf : ws.files.find? (·.id == file) with
  | none => exact fun f hmem heq => by simpa [heq] using List.find?_eq_none.1 hf f hmem
  | some f =>
    simp only [hf] at h
    cases h

/-! ## What is known of the two stores -/

/-- An identifier of a row that is there or has been. -/
def World.Known (w : World) (file : Uuid) : Prop := ∀ ws, w.workspace = some ws → file < ws.db.nextId

structure Sound (user : Uuid) (w : World) : Prop where
  known : ∀ f ∈ w.rows, w.Known f.id
  ids : (w.rows.map (·.id)).Nodup
  keys : (w.rows.map (·.objectKey)).Nodup
  /-- Every object has a row. -/
  backed : ∀ key ∈ w.objects, ∃ f ∈ w.rows, f.objectKey = key
  drawn : ∀ f ∈ w.rows, ∃ id ∈ w.drawn, f.objectKey = objectKey user id

/-- What is known at each point of the programs. -/
inductive Doing (user : Uuid) (w : World) : Request → FileProg Unit → Prop
  | creating {r : Store.FileRequest} {id : Uuid} (hid : id ∈ w.drawn) (hrows : ∀ f ∈ w.rows, f.objectKey ≠ objectKey user id)
      (hobjects : objectKey user id ∉ w.objects) : Doing user w (.uploadFile r) (uploadFile user id r)
  | storing {r : Store.FileRequest} {id file : Uuid} (hid : id ∈ w.drawn) (hfile : w.Known file)
      (hrows : ∀ f ∈ w.rows, f.id = file ↔ f.objectKey = objectKey user id) (hobjects : objectKey user id ∉ w.objects) :
      Doing user w (.uploadFile r) (storeBytes (objectKey user id) file)
  | releasing {r : Store.FileRequest} {file : Uuid} (hfile : w.Known file)
      (hrows : ∀ f ∈ w.rows, f.id = file → f.objectKey ∉ w.objects) : Doing user w (.uploadFile r) (releaseQuota file)
  | reading {file : Uuid} : Doing user w (.deleteFile file) (deleteFile file)
  | removing {file id : Uuid} (hid : id ∈ w.drawn) (hfile : w.Known file)
      (hrows : ∀ f ∈ w.rows, f.id = file ↔ f.objectKey = objectKey user id) :
      Doing user w (.deleteFile file) (remove (objectKey user id) file)
  | forgetting {file : Uuid} (hfile : w.Known file) (hrows : ∀ f ∈ w.rows, f.id = file → f.objectKey ∉ w.objects) :
      Doing user w (.deleteFile file) (forget file)
  | asking {confirmation : String} : Doing user w (.deleteAccount confirmation) (deleteAccount confirmation)
  | revoking {confirmation : String} : Doing user w (.deleteAccount confirmation) revokeFirst
  | listing {confirmation : String} : Doing user w (.deleteAccount confirmation) clearAll
  | clearing {confirmation : String} {keys : List String} (hkeys : keys.Nodup) (hobjects : ∀ key ∈ w.objects, key ∈ keys) :
      Doing user w (.deleteAccount confirmation) (clear keys)
  | done {q : Request} (h : ∀ confirmation, q = .deleteAccount confirmation → w.workspace = none) : Doing user w q (.ret ())
  | failed {q : Request} {e : AppError} : Doing user w q (.fail e)

/-- The key of the row an upload is about to insert. -/
def creates? : FileProg Unit → Option String
  | .op (.createFileMetadata r) _ => some r.objectKey
  | _ => none

/-- The key an upload or the deletion of a file is about. -/
def names? : Request → FileProg Unit → Option String
  | _, .op (.createFileMetadata r) _ => some r.objectKey
  | _, .op (.put key) _ => some key
  | .deleteFile _, .op (.delete key) _ => some key
  | _, _ => none

/-- What others do to the stores while a program runs. -/
structure Beside (w w' : World) (q : Request) (p : FileProg Unit) : Prop where
  gone : w.workspace = none → w'.workspace = none
  drawn : ∀ id ∈ w.drawn, id ∈ w'.drawn
  known : ∀ file, w.Known file → w'.Known file
  /-- A new row has a new identifier and another key. -/
  rows : ∀ f ∈ w'.rows, f ∈ w.rows ∨ (∀ file, w.Known file → f.id ≠ file) ∧ names? q p ≠ some f.objectKey
  /-- A new object has a row that the program does not owe. -/
  objects : ∀ key ∈ w'.objects, key ∈ w.objects ∨
    (∃ f ∈ w.rows, f.objectKey = key) ∧ ∀ f ∈ w.rows, f.objectKey = key → ¬ Owes q p f

theorem remaining_clear (keys : List String) : remaining (clear keys) = keys := by
  induction keys with
  | nil => rfl
  | cons key keys ih => exact congrArg (key :: ·) ih

theorem owes_clear {confirmation : String} {keys : List String} {f : FileRecord} :
    Owes (.deleteAccount confirmation) (clear keys) f ↔ f.objectKey ∉ keys := by
  cases keys with
  | nil => exact ⟨fun _ => List.not_mem_nil, fun _ => trivial⟩
  | cons key keys =>
    show f.objectKey ∉ remaining (clear (key :: keys)) ↔ f.objectKey ∉ key :: keys
    rw [remaining_clear]

/-- Others leave true what is known. -/
theorem Doing.beside {q : Request} {p : FileProg Unit} (h : Doing user w q p) (hb : Beside w w' q p) : Doing user w' q p := by
  -- the rows of an identifier that is known are the ones there were
  have hold : ∀ {file : Uuid}, w.Known file → ∀ f ∈ w'.rows, f.id = file → f ∈ w.rows := by
    intro file hfile f hf hid
    exact (hb.rows f hf).elim id fun hnew => absurd hid (hnew.1 file hfile)
  have hunowed : ∀ {f : FileRecord}, f ∈ w.rows → Owes q p f → f.objectKey ∉ w.objects → f.objectKey ∉ w'.objects := by
    intro f hf howes hno hmem
    exact (hb.objects _ hmem).elim hno fun hnew => hnew.2 f hf rfl howes
  cases h with
  | creating hid hrows hobjects =>
    refine .creating (hb.drawn _ hid) (fun f hf => ?_) fun hmem => ?_
    · rcases hb.rows f hf with hf | ⟨-, hne⟩
      · exact hrows f hf
      · exact fun heq => hne (congrArg some heq.symm)
    · rcases hb.objects _ hmem with hmem | ⟨⟨f, hf, hkey⟩, -⟩
      · exact hobjects hmem
      · exact hrows f hf hkey
  | @storing r id file hid hfile hrows hobjects =>
    refine .storing (hb.drawn _ hid) (hb.known _ hfile) (fun f hf => ?_) fun hmem => ?_
    · rcases hb.rows f hf with hf | ⟨hne, hkey⟩
      · exact hrows f hf
      · exact iff_of_false (hne file hfile) fun heq => hkey (congrArg some heq.symm)
    · rcases hb.objects _ hmem with hmem | ⟨⟨f, hf, hkey⟩, hnot⟩
      · exact hobjects hmem
      · exact hnot f hf hkey hkey
  | releasing hfile hrows =>
    refine .releasing (hb.known _ hfile) fun f hf hid => ?_
    have hf' := hold hfile f hf hid
    exact hunowed hf' hid (hrows f hf' hid)
  | reading => exact .reading
  | @removing file id hid hfile hrows =>
    refine .removing (hb.drawn _ hid) (hb.known _ hfile) fun f hf => ?_
    rcases hb.rows f hf with hf | ⟨hne, hkey⟩
    · exact hrows f hf
    · exact iff_of_false (hne file hfile) fun heq => hkey (congrArg some heq.symm)
  | forgetting hfile hrows =>
    refine .forgetting (hb.known _ hfile) fun f hf hid => ?_
    have hf' := hold hfile f hf hid
    exact hunowed hf' hid (hrows f hf' hid)
  | asking => exact .asking
  | revoking => exact .revoking
  | listing => exact .listing
  | clearing hkeys hobjects =>
    refine .clearing hkeys fun key hmem => ?_
    rcases hb.objects key hmem with hmem | ⟨⟨f, hf, rfl⟩, hnot⟩
    · exact hobjects key hmem
    · exact not_not.1 fun hno => hnot f hf rfl (owes_clear.2 hno)
  | done h => exact .done fun confirmation hq => hb.gone (h confirmation hq)
  | failed => exact .failed

/-! ## What an operation does -/

theorem onWorkspace_ok {α : Type} {e : AppError} {t : WorkspaceTx α} {a : α} (h : onWorkspace e t w = (.ok a, w')) :
    ∃ ws ws', w.workspace = some ws ∧ t ws = .ok (a, ws') ∧ w' = { w with workspace := some ws' } := by
  unfold onWorkspace Tx.commit at h
  cases hw : w.workspace with
  | none =>
    simp only [hw] at h
    cases h
  | some ws =>
    simp only [hw] at h
    cases ht : t ws with
    | error x =>
      simp only [ht] at h
      cases h
    | ok x =>
      simp only [ht] at h
      cases h
      exact ⟨ws, x.2, rfl, ht, rfl⟩

theorem onWorkspace_error {α : Type} {e x : AppError} {t : WorkspaceTx α} (h : onWorkspace e t w = (.error x, w')) :
    w' = w ∧ ∀ ws, w.workspace = some ws → t ws = .error x := by
  unfold onWorkspace Tx.commit at h
  cases hw : w.workspace with
  | none =>
    simp only [hw] at h
    cases h
    exact ⟨rfl, fun ws hws => (nomatch hws)⟩
  | some ws =>
    simp only [hw] at h
    cases ht : t ws with
    | error y =>
      simp only [ht] at h
      cases h
      refine ⟨?_, ?_⟩
      · cases w
        cases hw
        rfl
      · rintro _ ⟨⟩
        exact ht
    | ok y =>
      simp only [ht] at h
      cases h

theorem delete_object {key : String} {others : Int} {a : Except AppError Unit} (h : exec absent others (.delete key) w = (a, w')) :
    (key ∈ w.objects ∧ a = .ok () ∧ w' = { w with objects := w.objects.filter (· ≠ key) }) ∨
      key ∉ w.objects ∧ a = absent ∧ w' = w := by
  by_cases hk : key ∈ w.objects
  · cases (if_pos hk).symm.trans h
    exact .inl ⟨hk, rfl, rfl⟩
  · cases (if_neg hk).symm.trans h
    exact .inr ⟨hk, rfl, rfl⟩

theorem delete_user {others : Int} {a : Except AppError Unit} (h : exec absent others .deleteAccount w = (a, w')) :
    (a = .ok () ∧ w' = { w with workspace := none }) ∨ a = .error .unauthorized ∧ w' = w := by
  cases hw : w.workspace with
  | none =>
    have hexec : exec absent others .deleteAccount w = (.error .unauthorized, w) := by simp only [exec, hw]
    cases hexec.symm.trans h
    exact .inr ⟨rfl, rfl⟩
  | some ws =>
    have hexec : exec absent others .deleteAccount w = (.ok (), { w with workspace := none }) := by simp only [exec, hw]
    cases hexec.symm.trans h
    exact .inl ⟨rfl, rfl⟩

/-- An operation that fails has changed nothing. -/
theorem step_error {o : Op} {x : AppError} (h : Step absent o w (.error x) w') : w' = w := by
  rcases h with ⟨others, h⟩ | ⟨-, h⟩
  · cases o with
    | createFileMetadata r => exact (onWorkspace_error h).1
    | deleteFileMetadata file => exact (onWorkspace_error h).1
    | fileDownload file => exact (congrArg Prod.snd h).symm
    | accountObjectKeys => cases h
    | deleteAccount =>
      rcases delete_user h with ⟨h, -⟩ | ⟨-, h⟩
      · cases h
      · exact h
    | googleCredentials => exact (congrArg Prod.snd h).symm
    | revoke => cases h
    | put key => cases h
    | delete key =>
      rcases delete_object h with ⟨-, h, -⟩ | ⟨-, -, h⟩
      · cases h
      · exact h
  · exact h

theorem step_gone {o : Op} {a : Except AppError o.Answer} (h : Step absent o w a w') (hw : w.workspace = none) :
    w'.workspace = none := by
  have hon : ∀ {α : Type} (e : AppError) (t : WorkspaceTx α), (onWorkspace e t w).2 = w := by
    intro α e t
    simp only [onWorkspace, hw]
  rcases h with ⟨others, h⟩ | ⟨-, h⟩
  · have hend : (exec absent others o w).2 = w' := by rw [h]
    rw [← hend]
    cases o with
    | createFileMetadata r => exact congrArg World.workspace (hon _ (Store.createFileMetadata others r)) |>.trans hw
    | deleteFileMetadata file => exact congrArg World.workspace (hon _ (Store.deleteFileMetadata file)) |>.trans hw
    | deleteAccount => simp only [exec, hw]
    | delete key =>
      rw [hend]
      rcases delete_object h with ⟨-, -, rfl⟩ | ⟨-, -, rfl⟩
      · exact hw
      · exact hw
    | fileDownload file => exact hw
    | accountObjectKeys => exact hw
    | googleCredentials => exact hw
    | revoke => exact hw
    | put key => exact hw
  · rw [h]
    exact hw

theorem step_ok {o : Op} {a : o.Answer} (h : Step absent o w (.ok a) w') : ∃ others, exec absent others o w = (.ok a, w') :=
  h.elim id fun h => by
    obtain ⟨⟨e, he⟩, -⟩ := h
    cases he

/-- What a program has done by an operation, `E` being what others owe. -/
structure Acted (user : Uuid) (strict : Prop) (E : FileRecord → Prop) (w w' : World) (q : Request) (p p' : FileProg Unit) :
    Prop where
  sound : Sound user w'
  doing : Doing user w' q p'
  creates : creates? p' = none
  names : ∀ key, names? q p' = some key → names? q p = some key ∨ ∃ f ∈ w.rows, f.objectKey = key
  beside : ∀ u s, (∀ f ∈ w.rows, Owes u s f → E f) → (∀ key, creates? p = some key → names? u s ≠ some key) → Beside w w' u s
  owed : strict → ∀ f ∈ w'.rows, f.objectKey ∉ w'.objects →
    Owes q p' f ∨ f ∈ w.rows ∧ f.objectKey ∉ w.objects ∧ (Owes q p f → E f)

section Acted

variable {strict : Prop} {E : FileRecord → Prop} {q : Request} {p p' : FileProg Unit}

theorem Beside.refl (w : World) (q : Request) (p : FileProg Unit) : Beside w w q p :=
  ⟨id, fun _ h => h, fun _ h => h, fun _ h => .inl h, fun _ h => .inl h⟩

/-- Rows and objects that go disturb nobody. -/
theorem Beside.shrink (hgone : w.workspace = none → w'.workspace = none) (hdrawn : w'.drawn = w.drawn)
    (hknown : ∀ file, w.Known file → w'.Known file) (hrows : ∀ f ∈ w'.rows, f ∈ w.rows)
    (hobjects : ∀ key ∈ w'.objects, key ∈ w.objects) : Beside w w' q p :=
  ⟨hgone, fun _ h => hdrawn ▸ h, hknown, fun f hf => .inl (hrows f hf), fun key hkey => .inl (hobjects key hkey)⟩

/-- An operation that has changed nothing. -/
theorem Acted.same (hs : Sound user w) (hd : Doing user w q p') (hc : creates? p' = none)
    (hn : ∀ key, names? q p' = some key → names? q p = some key ∨ ∃ f ∈ w.rows, f.objectKey = key)
    (ho : strict → ∀ f ∈ w.rows, f.objectKey ∉ w.objects → Owes q p f → Owes q p' f ∨ E f) :
    Acted user strict E w w q p p' where
  sound := hs
  doing := hd
  creates := hc
  names := hn
  beside u s _ _ := .refl w u s
  owed hstrict f hf hno := by
    by_cases howes : Owes q p f
    · rcases ho hstrict f hf hno howes with h | h
      · exact .inl h
      · exact .inr ⟨hf, hno, fun _ => h⟩
    · exact .inr ⟨hf, hno, fun h => absurd h howes⟩

theorem names_ret (q : Request) (key : String) : names? q (.ret ()) ≠ some key := by
  cases q <;> exact fun h => nomatch h

theorem names_fail (q : Request) (e : AppError) (key : String) : names? q (.fail e) ≠ some key := by
  cases q <;> exact fun h => nomatch h

/-- It ends without success, and nothing has changed. -/
theorem Acted.failed (hs : Sound user w) {e : AppError}
    (ho : strict → ∀ f ∈ w.rows, f.objectKey ∉ w.objects → Owes q p f → E f) :
    Acted user strict E w w q p (.fail e) :=
  .same hs .failed rfl (fun key h => absurd h (names_fail q e key)) fun hstrict f hf hno h => .inr (ho hstrict f hf hno h)

theorem unique_row (hs : Sound user w) {f g : FileRecord} (hf : f ∈ w.rows) (hg : g ∈ w.rows) (h : f.id = g.id) : f = g :=
  List.inj_on_of_nodup_map hs.ids hf hg h

theorem unique_key (hs : Sound user w) {f g : FileRecord} (hf : f ∈ w.rows) (hg : g ∈ w.rows)
    (h : f.objectKey = g.objectKey) : f = g :=
  List.inj_on_of_nodup_map hs.keys hf hg h

/-- The rows without those of an identifier. -/
theorem deleted_rows {file : Uuid} {key : String} {ws ws' : Workspace} (hw : w.workspace = some ws)
    (ht : Store.deleteFileMetadata file ws = .ok (key, ws')) :
    (({ w with workspace := some ws' } : World).rows = w.rows.filter fun f => !(f.id == file)) ∧ ws'.db = ws.db := by
  obtain ⟨hfiles, hdb⟩ := deleteFileMetadata_ok ht
  refine ⟨?_, hdb⟩
  unfold World.rows
  rw [hw]
  exact hfiles

theorem acted_delete_row (hs : Sound user w) {file : Uuid} {key : String}
    (hstep : Step absent (.deleteFileMetadata file) w (.ok key) w') (hrows : ∀ f ∈ w.rows, f.id = file → f.objectKey ∉ w.objects)
    (hp : ∀ f, Owes q p f ↔ f.id = file) (hd : Doing user w' q p') (hc : creates? p' = none)
    (hn : ∀ key, names? q p' ≠ some key) : Acted user strict E w w' q p p' := by
  obtain ⟨others, hexec⟩ := step_ok hstep
  obtain ⟨ws, ws', hw, ht, rfl⟩ := onWorkspace_ok hexec
  obtain ⟨hleft, hdb⟩ := deleted_rows hw ht
  have hsub : ∀ f ∈ ({ w with workspace := some ws' } : World).rows, f ∈ w.rows ∧ f.id ≠ file := by
    intro f hf
    rw [hleft, List.mem_filter] at hf
    exact ⟨hf.1, by simpa using hf.2⟩
  have hknown : ∀ f, w.Known f → ({ w with workspace := some ws' } : World).Known f := by
    rintro f hf _ ⟨⟩
    rw [hdb]
    exact hf ws hw
  constructor
  · refine ⟨fun f hf => hknown _ (hs.known f (hsub f hf).1), ?_, ?_, fun key hkey => ?_, fun f hf => hs.drawn f (hsub f hf).1⟩
    · rw [hleft]
      exact hs.ids.sublist (List.filter_sublist.map _)
    · rw [hleft]
      exact hs.keys.sublist (List.filter_sublist.map _)
    · -- the row that goes had no object
      obtain ⟨f, hf, rfl⟩ := hs.backed key hkey
      refine ⟨f, ?_, rfl⟩
      rw [hleft, List.mem_filter]
      exact ⟨hf, by simpa using fun hid => hrows f hf hid hkey⟩
  · exact hd
  · exact hc
  · exact fun key h => absurd h (hn key)
  · intro u s _ _
    exact .shrink (fun hn => by rw [hw] at hn; cases hn) rfl hknown (fun f hf => (hsub f hf).1) fun _ h => h
  · intro _ f hf hno
    exact .inr ⟨(hsub f hf).1, hno, fun ho => absurd ((hp f).1 ho) (hsub f hf).2⟩

/-! ### One lemma for each point of the programs -/

/-- The row is inserted. -/
theorem acted_creating (hs : Sound user w) {r : Store.FileRequest} {id : Uuid} (hid : id ∈ w.drawn)
    (hrows : ∀ f ∈ w.rows, f.objectKey ≠ objectKey user id) (hobjects : objectKey user id ∉ w.objects) {m : FileRecord}
    (hstep : Step absent (.createFileMetadata { r with objectKey := objectKey user id }) w (.ok m) w') :
    Acted user strict E w w' (.uploadFile r) (uploadFile user id r) (storeBytes (objectKey user id) m.id) := by
  obtain ⟨others, hexec⟩ := step_ok hstep
  obtain ⟨ws, ws', hw, ht, rfl⟩ := onWorkspace_ok hexec
  obtain ⟨hnext, hkey, hfiles, hnextId⟩ := createFileMetadata_ok ht
  have hkey : m.objectKey = objectKey user id := hkey
  have hadded : ({ w with workspace := some ws' } : World).rows = w.rows ++ [m] := by
    unfold World.rows
    rw [hw]
    exact hfiles
  have hmem : ∀ f, f ∈ ({ w with workspace := some ws' } : World).rows ↔ f ∈ w.rows ∨ f = m := by
    intro f
    rw [hadded, List.mem_append, List.mem_singleton]
  have hknown : ∀ f, w.Known f → ({ w with workspace := some ws' } : World).Known f := by
    rintro f hf _ ⟨⟩
    rw [hnextId]
    exact Nat.lt_succ_of_lt (hf ws hw)
  have hnew : ∀ f, w.Known f → m.id ≠ f := fun f hf => hnext ▸ (Nat.ne_of_gt (hf ws hw))
  have hmknown : ({ w with workspace := some ws' } : World).Known m.id := by
    rintro _ ⟨⟩
    rw [hnextId, hnext]
    exact Nat.lt_succ_self _
  constructor
  · refine ⟨fun f hf => ?_, ?_, ?_, fun key hk => ?_, fun f hf => ?_⟩
    · rcases (hmem f).1 hf with hf | rfl
      · exact hknown _ (hs.known f hf)
      · exact hmknown
    · rw [hadded, List.map_append]
      refine List.nodup_append.2 ⟨hs.ids, List.nodup_singleton _, fun a ha b hb => ?_⟩
      obtain ⟨f, hf, rfl⟩ := List.mem_map.1 ha
      obtain rfl := List.mem_singleton.1 hb
      exact (hnew _ (hs.known f hf)).symm
    · rw [hadded, List.map_append]
      refine List.nodup_append.2 ⟨hs.keys, List.nodup_singleton _, fun a ha b hb => ?_⟩
      obtain ⟨f, hf, rfl⟩ := List.mem_map.1 ha
      obtain rfl := List.mem_singleton.1 hb
      exact fun h => hrows f hf (h.trans hkey)
    · obtain ⟨f, hf, hfk⟩ := hs.backed key hk
      exact ⟨f, (hmem f).2 (.inl hf), hfk⟩
    · rcases (hmem f).1 hf with hf | rfl
      · exact hs.drawn f hf
      · exact ⟨id, hid, hkey⟩
  · refine .storing hid hmknown (fun f hf => ?_) hobjects
    rcases (hmem f).1 hf with hf | rfl
    · exact iff_of_false (fun h => hnew _ (hs.known f hf) h.symm) (hrows f hf)
    · exact iff_of_true rfl hkey
  · rfl
  · exact fun key h => .inl h
  · intro u s _ hapart
    refine ⟨fun hn => ?_, fun _ h => h, hknown, fun f hf => ?_, fun _ h => .inl h⟩
    · rw [hw] at hn
      cases hn
    · rcases (hmem f).1 hf with hf | rfl
      · exact .inl hf
      · exact .inr ⟨hnew, hapart _ (congrArg some hkey.symm)⟩
  · intro _ f hf hno
    rcases (hmem f).1 hf with hf | rfl
    · exact .inr ⟨hf, hno, fun h => h.elim⟩
    · exact .inl hkey

/-- The bytes are stored. -/
theorem acted_storing (hs : Sound user w) {r : Store.FileRequest} {key : String} {file : Uuid}
    (hstep : Step absent (.put key) w (.ok ()) w') (htimely : ∃ f ∈ w.rows, f.objectKey = key ∧ ¬ E f) :
    Acted user strict E w w' (.uploadFile r) (storeBytes key file) (.ret ()) := by
  obtain ⟨others, hexec⟩ := step_ok hstep
  cases hexec
  obtain ⟨f₀, hf₀, hkey, hnot⟩ := htimely
  constructor
  · refine ⟨hs.known, hs.ids, hs.keys, fun k hk => ?_, hs.drawn⟩
    rcases List.mem_cons.1 hk with rfl | hk
    · exact ⟨f₀, hf₀, hkey⟩
    · exact hs.backed k hk
  · exact .done fun _ h => nomatch h
  · rfl
  · exact fun _ h => nomatch h
  · intro u s howes _
    refine ⟨id, fun _ h => h, fun _ h => h, fun _ h => .inl h, fun k hk => ?_⟩
    rcases List.mem_cons.1 hk with rfl | hk
    · -- nobody else owes the row of the new object
      refine .inr ⟨⟨f₀, hf₀, hkey⟩, fun f hf hfk ho => ?_⟩
      rw [unique_key hs hf hf₀ (hfk.trans hkey.symm)] at ho
      exact hnot (howes f₀ hf₀ ho)
    · exact .inl hk
  · intro _ f hf hno
    have hno : f.objectKey ∉ key :: w.objects := hno
    exact .inr ⟨hf, fun h => hno (List.mem_cons_of_mem _ h), fun h => absurd h (List.ne_of_not_mem_cons hno)⟩

theorem acted_reading (hs : Sound user w) {file : Uuid} {m : FileRecord × String}
    (hstep : Step absent (.fileDownload file) w (.ok m) w') :
    Acted user strict E w w' (.deleteFile file) (deleteFile file) (remove m.2 file) := by
  obtain ⟨others, hexec⟩ := step_ok hstep
  obtain rfl : w = w' := congrArg Prod.snd hexec
  have hfound : fileDownload file w = .ok m := congrArg Prod.fst hexec
  unfold fileDownload at hfound
  split at hfound
  next f hf =>
    cases hfound
    have hmem := List.mem_of_find?_eq_some hf
    have hid : f.id = file := by simpa using List.find?_some hf
    obtain ⟨id, hdrawn, hkey⟩ := hs.drawn f hmem
    show Acted user strict E w w (.deleteFile file) (deleteFile file) (remove f.objectKey file)
    rw [hkey]
    refine .same hs (.removing hdrawn (hid ▸ hs.known f hmem) fun g hg => ⟨fun h => ?_, fun h => ?_⟩) rfl
      (fun key h => .inr ⟨f, hmem, hkey.trans (Option.some.inj h)⟩) fun _ g _ _ h => h.elim
    · rw [unique_row hs hg hmem (h.trans hid.symm), hkey]
    · rw [unique_key hs hg hmem (h.trans hkey.symm), hid]
  · cases hfound

/-- The object of a key is gone. -/
theorem delete_ok {key : String} (hstep : Step absent (.delete key) w (.ok ()) w') :
    w'.workspace = w.workspace ∧ w'.drawn = w.drawn ∧ ∀ k, k ∈ w'.objects ↔ k ∈ w.objects ∧ k ≠ key := by
  obtain ⟨others, hexec⟩ := step_ok hstep
  rcases delete_object hexec with ⟨-, -, rfl⟩ | ⟨hno, -, rfl⟩
  · exact ⟨rfl, rfl, fun k => by simp⟩
  · exact ⟨rfl, rfl, fun k => ⟨fun h => ⟨h, fun hk => hno (hk ▸ h)⟩, fun h => h.1⟩⟩

/-- Fewer objects, and the same rows. -/
theorem sound_objects (hs : Sound user w) (hws : w'.workspace = w.workspace) (hdrawn : w'.drawn = w.drawn)
    (hobjects : ∀ k ∈ w'.objects, k ∈ w.objects) : w'.rows = w.rows ∧ Sound user w' ∧ ∀ q p, Beside w w' q p := by
  have hrows : w'.rows = w.rows := by
    unfold World.rows
    rw [hws]
  have hknown : ∀ f, w.Known f → w'.Known f := fun f h ws hw => h ws (hws ▸ hw)
  refine ⟨hrows, ⟨?_, hrows ▸ hs.ids, hrows ▸ hs.keys, ?_, ?_⟩, fun q p => ?_⟩
  · rw [hrows]
    exact fun f hf => hknown _ (hs.known f hf)
  · rw [hrows]
    exact fun key hk => hs.backed key (hobjects key hk)
  · rw [hrows, hdrawn]
    exact hs.drawn
  · exact .shrink (fun h => hws.trans h) hdrawn hknown (fun f hf => hrows ▸ hf) hobjects

theorem acted_removing (hs : Sound user w) {file : Uuid} {key : String} (hfile : w.Known file)
    (hrows : ∀ f ∈ w.rows, f.id = file ↔ f.objectKey = key) (hstep : Step absent (.delete key) w (.ok ()) w') :
    Acted user strict E w w' (.deleteFile file) (remove key file) (forget file) := by
  obtain ⟨hws, hdrawn, hobjects⟩ := delete_ok hstep
  obtain ⟨hsame, hsound, hbeside⟩ := sound_objects hs hws hdrawn fun k hk => ((hobjects k).1 hk).1
  refine ⟨hsound, .forgetting (fun ws hw => hfile ws (hws ▸ hw)) fun f hf hid hk => ?_, rfl, fun _ h => (nomatch h),
    fun u s _ _ => hbeside u s, fun _ f hf hno => ?_⟩
  · rw [hsame] at hf
    exact ((hobjects _).1 hk).2 ((hrows f hf).1 hid)
  · rw [hsame] at hf
    by_cases hk : f.objectKey = key
    · exact .inl ((hrows f hf).2 hk)
    · exact .inr ⟨hf, fun h => hno ((hobjects _).2 ⟨h, hk⟩), fun h => h.elim⟩

theorem acted_clearing (hs : Sound user w) {confirmation : String} {key : String} {keys : List String}
    (hkeys : (key :: keys).Nodup) (hobjects : ∀ k ∈ w.objects, k ∈ key :: keys)
    (hstep : Step absent (.delete key) w (.ok ()) w') :
    Acted user strict E w w' (.deleteAccount confirmation) (clear (key :: keys)) (clear keys) := by
  obtain ⟨hws, hdrawn, hleft⟩ := delete_ok hstep
  obtain ⟨hsame, hsound, hbeside⟩ := sound_objects hs hws hdrawn fun k hk => ((hleft k).1 hk).1
  have hnot : key ∉ keys := (List.nodup_cons.1 hkeys).1
  refine ⟨hsound, .clearing (List.nodup_cons.1 hkeys).2 fun k hk => ?_, ?_, ?_, fun u s _ _ => hbeside u s, fun _ f hf hno => ?_⟩
  · obtain ⟨hk, hne⟩ := (hleft k).1 hk
    exact (List.mem_cons.1 (hobjects k hk)).resolve_left hne
  · cases keys <;> rfl
  · cases keys <;> exact fun _ h => nomatch h
  · rw [hsame] at hf
    rw [owes_clear, owes_clear]
    by_cases hk : f.objectKey = key
    · exact .inl (hk ▸ hnot)
    · by_cases hmem : f.objectKey ∈ keys
      · exact .inr ⟨hf, fun h => hno ((hleft _).2 ⟨h, hk⟩), fun h => absurd (List.mem_cons_of_mem _ hmem) h⟩
      · exact .inl hmem

/-- The row of the user goes, with all others. -/
theorem acted_deleteAccount {confirmation : String} (hobjects : ∀ k ∈ w.objects, k ∈ ([] : List String))
    (hstep : Step absent .deleteAccount w (.ok ()) w') :
    Acted user strict E w w' (.deleteAccount confirmation) (clear []) (.ret ()) := by
  obtain ⟨others, hexec⟩ := step_ok hstep
  rcases delete_user hexec with ⟨-, rfl⟩ | ⟨h, -⟩
  · refine ⟨⟨fun _ h => (nomatch h), List.nodup_nil, List.nodup_nil, fun key hk => ?_, fun _ h => (nomatch h)⟩, .done fun _ _ => rfl,
      rfl, fun _ h => (nomatch h), fun u s _ _ => ?_, fun _ _ h => (nomatch h)⟩
    · exact nomatch hobjects key hk
    · exact .shrink (fun _ => rfl) rfl (fun _ _ _ h => nomatch h) (fun _ h => nomatch h) fun _ h => h
  · cases h

/-! ### Any operation -/

theorem uploadFile_eq (user id : Uuid) (r : Store.FileRequest) : uploadFile user id r =
    .op (.createFileMetadata { r with objectKey := objectKey user id }) fun a =>
      match a with
      | .ok m => storeBytes (objectKey user id) m.id
      | .error e => .fail e := congrArg (Prog.op _) (funext fun a => by cases a <;> rfl)

theorem storeBytes_eq (key : String) (file : Uuid) : storeBytes key file = .op (.put key) fun a =>
    match a with
    | .ok _ => .ret ()
    | .error _ => releaseQuota file := congrArg (Prog.op _) (funext fun a => by cases a <;> rfl)

theorem releaseQuota_eq (file : Uuid) : releaseQuota file = .op (.deleteFileMetadata file) fun _ => .fail storageError :=
  congrArg (Prog.op _) (funext fun a => by cases a <;> rfl)

theorem deleteFile_eq (file : Uuid) : deleteFile file = .op (.fileDownload file) fun a =>
    match a with
    | .ok m => remove m.2 file
    | .error e => .fail e := congrArg (Prog.op _) (funext fun a => by cases a <;> rfl)

theorem remove_eq (key : String) (file : Uuid) : remove key file = .op (.delete key) fun a =>
    match a with
    | .ok _ => forget file
    | .error _ => .fail storageError := congrArg (Prog.op _) (funext fun a => by cases a <;> rfl)

theorem forget_eq (file : Uuid) : forget file = .op (.deleteFileMetadata file) fun a =>
    match a with
    | .ok _ => .ret ()
    | .error e => .fail e := congrArg (Prog.op _) (funext fun a => by cases a <;> rfl)

theorem deleteAccount_eq : deleteAccount "DELETE" = .op .googleCredentials fun a =>
    match a with
    | .ok _ => revokeFirst
    | .error (.notConfigured _) => clearAll
    | .error e => .fail e := by
  unfold deleteAccount
  rw [if_neg (by simp)]
  refine congrArg (Prog.op _) (funext fun a => ?_)
  cases a with
  | ok u => rfl
  | error e => cases e <;> rfl

theorem revokeFirst_eq : revokeFirst = .op .revoke fun a =>
    match a with
    | .ok _ => clearAll
    | .error e => .fail e := congrArg (Prog.op _) (funext fun a => by cases a <;> rfl)

theorem clearAll_eq : clearAll = .op .accountObjectKeys fun a =>
    match a with
    | .ok keys => clear keys
    | .error e => .fail e := congrArg (Prog.op _) (funext fun a => by cases a <;> rfl)

theorem clear_cons_eq (key : String) (keys : List String) : clear (key :: keys) = .op (.delete key) fun a =>
    match a with
    | .ok _ => clear keys
    | .error _ => .fail (.invalidRequest 500 "could not delete account files") :=
  congrArg (Prog.op _) (funext fun a => by cases a <;> rfl)

theorem clear_nil_eq : clear [] = .op .deleteAccount fun a =>
    match a with
    | .ok _ => .ret ()
    | .error e => .fail e := congrArg (Prog.op _) (funext fun a => by cases a <;> rfl)

theorem acted {o : Op} {k : FileSig.Res o → FileProg Unit} {a : FileSig.Res o} (hs : Sound user w)
    (hd : Doing user w q p) (hp : p = .op o k) (hstep : Step absent o w a w')
    (htimely : ∀ key, o = .put key → (∃ x, a = .ok x) → ∃ f ∈ w.rows, f.objectKey = key ∧ ¬ E f)
    (hsettled : strict → ∀ x y, a = .error x → k a = .fail y → ∀ f ∈ w.rows, f.objectKey ∉ w.objects → Owes q p f → E f) :
    Acted user strict E w w' q p (k a) := by
  cases hd with
  | @creating r id hid hrows hobjects =>
    rw [uploadFile_eq] at hp
    cases hp
    cases a with
    | error x =>
      rw [step_error hstep]
      exact .failed hs fun _ f _ _ h => h.elim
    | ok m => exact acted_creating hs hid hrows hobjects hstep
  | @storing r id file hid hfile hrows hobjects =>
    rw [storeBytes_eq] at hp
    cases hp
    cases a with
    | error x =>
      rw [step_error hstep]
      refine .same hs (.releasing hfile fun f hf hid => ?_) rfl (fun _ h => nomatch h) fun _ f hf _ h => .inl ((hrows f hf).2 h)
      rw [(hrows f hf).1 hid]
      exact hobjects
    | ok u => exact acted_storing hs hstep (htimely _ rfl ⟨u, rfl⟩)
  | @releasing r file hfile hrows =>
    rw [releaseQuota_eq] at hp
    cases hp
    cases a with
    | error x =>
      rw [step_error hstep]
      exact .failed hs fun hstrict => hsettled hstrict x _ rfl rfl
    | ok key => exact acted_delete_row hs hstep hrows (fun _ => Iff.rfl) .failed rfl fun key h => nomatch h
  | @reading file =>
    rw [deleteFile_eq] at hp
    cases hp
    cases a with
    | error x =>
      rw [step_error hstep]
      exact .failed hs fun _ f _ _ h => h.elim
    | ok m => exact acted_reading hs hstep
  | @removing file id hid hfile hrows =>
    rw [remove_eq] at hp
    cases hp
    cases a with
    | error x =>
      rw [step_error hstep]
      exact .failed hs fun _ f _ _ h => h.elim
    | ok u => exact acted_removing hs hfile hrows hstep
  | @forgetting file hfile hrows =>
    rw [forget_eq] at hp
    cases hp
    cases a with
    | error x =>
      rw [step_error hstep]
      exact .failed hs fun hstrict => hsettled hstrict x _ rfl rfl
    | ok key =>
      exact acted_delete_row hs hstep hrows (fun _ => Iff.rfl) (.done fun _ h => nomatch h) rfl fun key h => nomatch h
  | @asking confirmation =>
    by_cases hc : confirmation = "DELETE"
    · subst hc
      have hsame : w' = w := by
        rw [deleteAccount_eq] at hp
        cases hp
        rcases hstep with ⟨others, hexec⟩ | ⟨-, h⟩
        · exact (congrArg Prod.snd hexec).symm
        · exact h
      rw [hsame]
      rw [deleteAccount_eq] at hp
      cases hp
      cases a with
      | error x => cases x <;> first
        | exact .same hs .listing rfl (fun _ h => nomatch h) fun _ f _ _ h => h.elim
        | exact .failed hs fun _ f _ _ h => h.elim
      | ok u => exact .same hs .revoking rfl (fun _ h => nomatch h) fun _ f _ _ h => h.elim
    · unfold deleteAccount at hp
      rw [if_pos hc] at hp
      cases hp
  | @revoking confirmation =>
    rw [revokeFirst_eq] at hp
    cases hp
    have hsame : w' = w := by
      rcases hstep with ⟨others, hexec⟩ | ⟨-, h⟩
      · exact (congrArg Prod.snd hexec).symm
      · exact h
    rw [hsame]
    cases a with
    | error x => exact .failed hs fun _ f _ _ h => h.elim
    | ok u => exact .same hs .listing rfl (fun _ h => nomatch h) fun _ f _ _ h => h.elim
  | @listing confirmation =>
    rw [clearAll_eq] at hp
    cases hp
    cases a with
    | error x =>
      rw [step_error hstep]
      exact .failed hs fun _ f _ _ h => h.elim
    | ok keys =>
      obtain ⟨others, hexec⟩ := step_ok hstep
      cases hexec
      refine .same hs (.clearing hs.keys fun key hk => ?_) ?_ ?_ fun _ f _ _ h => h.elim
      · obtain ⟨f, hf, rfl⟩ := hs.backed key hk
        exact List.mem_map_of_mem hf
      · cases w.rows <;> rfl
      · cases w.rows <;> exact fun _ h => nomatch h
  | @clearing confirmation keys hkeys hobjects =>
    cases keys with
    | nil =>
      rw [clear_nil_eq] at hp
      cases hp
      cases a with
      | error x =>
        rw [step_error hstep]
        exact .failed hs fun hstrict => hsettled hstrict x _ rfl rfl
      | ok u => exact acted_deleteAccount hobjects hstep
    | cons key keys =>
      rw [clear_cons_eq] at hp
      cases hp
      cases a with
      | error x =>
        rw [step_error hstep]
        exact .failed hs fun hstrict => hsettled hstrict x _ rfl rfl
      | ok u => exact acted_clearing hs hkeys hobjects hstep
  | done h => cases hp
  | failed => cases hp

end Acted

end Attachments

end Prosepect

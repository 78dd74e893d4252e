/-
Operations on the workspace that leave the tasks where they are in their graph.
-/
import Prosepect.Store.Stays

namespace Prosepect

open Resumption Table Time Store

namespace Workspace

/-- The tasks stay at their places; no project, receipt or snapshot comes from nowhere. -/
structure Stays (w w' : Workspace) : Prop where
  db : w.db.Stays w'.db
  projects : ∀ p ∈ w'.projects, (∃ q ∈ w.projects, q.id = p.id) ∨ p.id ∈ w'.db.projects
  snapshots : w'.snapshots = w.snapshots
  moves : ∀ m ∈ w'.moves, m ∈ w.moves

variable {w w' : Workspace}

theorem Stays.refl (w : Workspace) : w.Stays w := ⟨.refl _, fun p hp => .inl ⟨p, hp, rfl⟩, rfl, fun _ hm => hm⟩

theorem Stays.trans {a b c : Workspace} (h : a.Stays b) (h' : b.Stays c) : a.Stays c where
  db := h.db.trans h'.db
  projects := by
    intro p hp
    rcases h'.projects p hp with ⟨q, hq, hqp⟩ | hp
    · rcases h.projects q hq with ⟨r, hr, hrq⟩ | hq
      · exact .inl ⟨r, hr, hrq.trans hqp⟩
      · rw [h'.db.around.projects, ← hqp]
        exact .inr hq
    · exact .inr hp
  snapshots := h'.snapshots.trans h.snapshots
  moves := fun m hm => h.moves m (h'.moves m hm)

/-- The first tables are left alone, and projects keep their ids. -/
structure Quiet (w w' : Workspace) : Prop where
  db : w.db.Quiet w'.db
  projects : w'.projects.map (·.id) = w.projects.map (·.id)
  snapshots : w'.snapshots = w.snapshots
  moves : ∀ m ∈ w'.moves, m ∈ w.moves

theorem Quiet.refl (w : Workspace) : w.Quiet w := ⟨.refl _, rfl, rfl, fun _ hm => hm⟩

theorem Quiet.trans {a b c : Workspace} (h : a.Quiet b) (h' : b.Quiet c) : a.Quiet c :=
  ⟨h.db.trans h'.db, h'.projects.trans h.projects, h'.snapshots.trans h.snapshots, fun m hm => h.moves m (h'.moves m hm)⟩

theorem Quiet.stays (h : w.Quiet w') : w.Stays w' := by
  refine ⟨h.db.stays, fun p hp => .inl ?_, h.snapshots, h.moves⟩
  have hid : p.id ∈ w.projects.map (·.id) := h.projects ▸ List.mem_map_of_mem hp
  exact List.mem_map.1 hid

theorem stays_settle {db : Db} (h : w.db.Stays db) : w.Stays (w.settle db) := by
  refine ⟨h, fun p hp => .inr ?_, rfl, fun m hm => (mem_delete.1 hm).1⟩
  have hmem : decide (p.id ∈ db.projects) = true := (List.mem_filter.1 hp).2
  exact of_decide_eq_true hmem

theorem stays_onDb {α : Type} {t : StoreTx α} (h : Tx.Within Db.Stays t) : Tx.Within Stays (onDb t) := by
  intro w a w' hw
  obtain ⟨db, ht, rfl⟩ := onDb_ok hw
  exact stays_settle (h w.db a db ht)

/-- A write beside the first tables, the projects, the receipts and the snapshots. -/
theorem quiet_beside (hdb : w'.db = w.db) (hp : w'.projects = w.projects) (hs : w'.snapshots = w.snapshots)
    (hm : w'.moves = w.moves) : w.Quiet w' :=
  ⟨hdb ▸ .refl _, by rw [hp], hs, fun _ h => hm ▸ h⟩

theorem stays_beside (hdb : w'.db = w.db) (hp : w'.projects = w.projects) (hs : w'.snapshots = w.snapshots)
    (hm : w'.moves = w.moves) : w.Stays w' :=
  (quiet_beside hdb hp hs hm).stays

theorem quiet_fresh (hdb : w'.db = w.db.fresh) (hp : w'.projects = w.projects) (hs : w'.snapshots = w.snapshots)
    (hm : w'.moves = w.moves) : w.Quiet w' := by
  refine ⟨?_, by rw [hp], hs, fun _ h => hm ▸ h⟩
  rw [hdb]
  exact ⟨rfl, rfl, rfl, rfl, rfl, rfl, rfl, rfl, Nat.le_succ _, List.forall₂_same.2 fun t _ => ⟨.refl t, rfl, rfl⟩⟩

/-! ## Rules for quiet code -/

section Rules

variable {α : Type}

theorem quiet_void {t : WorkspaceTx α} (h : Tx.Within Quiet t) : Tx.Within Quiet (Action.void t) :=
  .bind (R := Quiet) Quiet.trans h fun _ => .pure .refl ()

theorem stays_void {t : WorkspaceTx α} (h : Tx.Within Stays t) : Tx.Within Stays (Action.void t) :=
  .bind (R := Stays) Stays.trans h fun _ => .pure .refl ()

/-- A read that the rest depends on. -/
theorem quiet_read {f : Workspace → WorkspaceTx α} (h : ∀ w, Tx.Within Quiet (f w)) : Tx.Within Quiet (Tx.read >>= f) :=
  .bind (R := Quiet) Quiet.trans (.read .refl) h

theorem quiet_check {x : Except AppError Unit} {f : Unit → WorkspaceTx α} (h : Tx.Within Quiet (f ())) :
    Tx.Within Quiet (Tx.ofExcept x >>= f) :=
  .bind (R := Quiet) Quiet.trans (.ofExcept .refl x) fun _ => h

theorem quiet_write {g : Workspace → Workspace} {f : Unit → WorkspaceTx α} (hg : ∀ w, Quiet w (g w))
    (h : Tx.Within Quiet (f ())) : Tx.Within Quiet (Tx.write g >>= f) :=
  .bind (R := Quiet) Quiet.trans (.write hg) fun _ => h

end Rules

end Workspace

namespace Store

open Workspace

/-! ## Projects -/

theorem quiet_updateProject (project : Uuid) (r : UpdateProjectRequest) :
    Tx.Within Workspace.Quiet (updateProject project r) := by
  unfold updateProject
  refine quiet_check (.ite (fun _ => .raise _) fun _ => quiet_read fun w => ?_)
  split
  · exact .raise _
  · rename_i p hp
    refine .ite (fun _ => .raise _) fun _ => ?_
    have hid : p.id = project := by simpa using List.find?_some hp
    refine quiet_write (fun w => ⟨.refl _, ?_, rfl, fun _ hm => hm⟩) (.pure .refl _)
    simp only [update, List.map_map]
    refine List.map_congr_left fun q _ => ?_
    by_cases hq : q.id = project
    · simp [hid, hq]
    · simp [hq]

/-! ## Calendars -/

theorem stays_createCalendar (toLowercase : String → String) (name color : String) :
    Tx.Within Workspace.Stays (createCalendar toLowercase name color) := by
  unfold createCalendar
  refine .bind (R := Workspace.Stays) Workspace.Stays.trans (.ofExcept .refl _) fun _ => ?_
  refine .bind (R := Workspace.Stays) Workspace.Stays.trans (.read .refl) fun w => ?_
  refine .bind (R := Workspace.Stays) Workspace.Stays.trans (stays_onDb (.write fun db => ?_)) fun _ => ?_
  · exact Db.stays_of_same rfl rfl rfl (Nat.le_succ _) fun _ he => .inl he
  · exact .bind (R := Workspace.Stays) Workspace.Stays.trans (.write fun _ => stays_beside rfl rfl rfl rfl) fun _ =>
      .pure .refl _

theorem stays_writeCalendar (calendar : Uuid) (f : Calendar → Calendar) :
    Tx.Within Workspace.Stays (onDb (Tx.write (Db.updateCalendar calendar f))) :=
  stays_onDb (.write fun _ => Db.stays_of_same rfl rfl rfl le_rfl fun _ he => .inl he)

theorem stays_updateCalendar (toLowercase : String → String) (calendar : Uuid) (r : UpdateCalendarRequest) :
    Tx.Within Workspace.Stays (updateCalendar toLowercase calendar r) := by
  unfold updateCalendar
  refine .bind (R := Workspace.Stays) Workspace.Stays.trans (.ofExcept .refl _) fun _ => ?_
  refine .bind (R := Workspace.Stays) Workspace.Stays.trans (.read .refl) fun w => ?_
  split
  · exact .raise _
  · refine .ite (fun _ => .raise _) fun _ => ?_
    refine .bind (R := Workspace.Stays) Workspace.Stays.trans (stays_writeCalendar _ _) fun _ => ?_
    refine .bind (R := Workspace.Stays) Workspace.Stays.trans (.write fun _ => stays_beside rfl rfl rfl rfl) fun _ => ?_
    exact .ite (fun _ => stays_onDb (Db.stays_enqueueSync _ _)) fun _ => .pure .refl _

theorem stays_deleteCalendar (calendar : Uuid) (expectedVersion : Int) :
    Tx.Within Workspace.Stays (deleteCalendar calendar expectedVersion) := by
  unfold deleteCalendar
  refine .bind (R := Workspace.Stays) Workspace.Stays.trans (.read .refl) fun w => ?_
  split
  · exact .raise _
  · refine .ite (fun _ => stays_onDb (.write fun _ => Db.stays_deleteCalendars _)) fun _ => ?_
    exact .ite (fun _ => .raise _) fun _ => .raise _

theorem stays_upsertGoogleCalendar (entry : GoogleCalendar) : Tx.Within Workspace.Stays (upsertGoogleCalendar entry) := by
  unfold upsertGoogleCalendar
  refine .bind (R := Workspace.Stays) Workspace.Stays.trans (.read .refl) fun w => ?_
  dsimp only
  split
  · refine .bind (R := Workspace.Stays) Workspace.Stays.trans (stays_writeCalendar _ _) fun _ => ?_
    exact .write fun _ => stays_beside rfl rfl rfl rfl
  · refine .bind (R := Workspace.Stays) Workspace.Stays.trans (stays_onDb (.write fun db => ?_)) fun _ => ?_
    · exact Db.stays_of_same rfl rfl rfl (Nat.le_succ _) fun _ he => .inl he
    · exact .write fun _ => stays_beside rfl rfl rfl rfl

theorem stays_revokeGoogleIntegration : Tx.Within Workspace.Stays revokeGoogleIntegration := by
  unfold revokeGoogleIntegration
  refine .bind (R := Workspace.Stays) Workspace.Stays.trans (stays_onDb (.write fun _ => Db.stays_deleteCalendars _))
    fun _ => ?_
  exact .write fun _ => stays_beside rfl rfl rfl rfl

/-! ## Notes and files -/

theorem quiet_createNote (r : CreateNoteRequest) : Tx.Within Workspace.Quiet (createNote r) := by
  unfold createNote
  refine quiet_check (quiet_read fun w => quiet_check ?_)
  exact quiet_write (fun _ => quiet_fresh rfl rfl rfl rfl) (.pure .refl _)

theorem quiet_updateNote (note : Uuid) (r : UpdateNoteRequest) : Tx.Within Workspace.Quiet (updateNote note r) := by
  unfold updateNote
  refine quiet_check (quiet_read fun w => quiet_check ?_)
  split
  · exact .raise _
  · refine .ite (fun _ => .raise _) fun _ => ?_
    exact quiet_write (fun _ => quiet_beside rfl rfl rfl rfl) (.pure .refl _)

theorem quiet_deleteNote (note : Uuid) (expectedVersion : Int) :
    Tx.Within Workspace.Quiet (deleteNote note expectedVersion) := by
  unfold deleteNote
  refine quiet_read fun w => ?_
  split
  · exact .raise _
  · exact .ite (fun _ => .raise _) fun _ => .write fun _ => quiet_beside rfl rfl rfl rfl

theorem quiet_createFileMetadata (others : Int) (r : FileRequest) :
    Tx.Within Workspace.Quiet (createFileMetadata others r) := by
  unfold createFileMetadata
  refine quiet_check (quiet_read fun w => quiet_check ?_)
  refine .ite (fun _ => .raise _) fun _ => .ite (fun _ => .raise _) fun _ => .ite (fun _ => .raise _) fun _ => ?_
  exact quiet_write (fun _ => quiet_fresh rfl rfl rfl rfl) (.pure .refl _)

theorem quiet_deleteFileMetadata (file : Uuid) : Tx.Within Workspace.Quiet (deleteFileMetadata file) := by
  unfold deleteFileMetadata
  refine quiet_read fun w => ?_
  split
  · exact .raise _
  · exact quiet_write (fun _ => quiet_beside rfl rfl rfl rfl) (.pure .refl _)

/-! ## The focus list and the daily review -/

theorem quiet_updateDailyFocus (date : NaiveDate) (taskIds : List Uuid) :
    Tx.Within Workspace.Quiet (updateDailyFocus date taskIds) := by
  unfold updateDailyFocus
  refine .ite (fun _ => .raise _) fun _ => .ite (fun _ => .raise _) fun _ => quiet_read fun w => ?_
  exact .ite (fun _ => .raise _) fun _ => .write fun _ => quiet_beside rfl rfl rfl rfl

theorem quiet_startDailyReview (date : NaiveDate) (manual : Bool) :
    Tx.Within Workspace.Quiet (startDailyReview date manual) := by
  unfold startDailyReview
  refine quiet_read fun w => .ite (fun _ => .pure .refl _) fun _ => ?_
  split
  · exact .pure .refl _
  · split
    · exact .pure .refl _
    · exact quiet_write (fun _ => quiet_fresh rfl rfl rfl rfl) (.pure .refl _)

theorem quiet_decideReview : ∀ (decisions : List ReviewDecision) (carried : List Uuid),
    Tx.Within Workspace.Quiet (decideReview decisions carried)
  | [], carried => .pure .refl carried
  | d :: rest, carried => by
    unfold decideReview
    split
    · exact quiet_decideReview rest _
    · exact quiet_decideReview rest _
    · split
      · exact .raise _
      · -- a new deadline, and a new version with it
        refine quiet_write (fun w => ⟨Db.quiet_updateTask _ (fun t => ⟨⟨rfl, rfl, rfl, rfl, rfl, rfl, .inl rfl,
          Int.le_add_one le_rfl, fun hv => ?_⟩, rfl, rfl, rfl, rfl, fun hd => (nomatch hd), .inl ⟨rfl, rfl⟩⟩)
          (fun _ => rfl) fun _ => rfl, rfl, rfl, fun _ hm => hm⟩) (quiet_decideReview rest _)
        have hne : t.version + 1 = t.version := hv
        omega

theorem quiet_completeDailyReview (date : NaiveDate) (expectedVersion : Int) (decisions : List ReviewDecision) :
    Tx.Within Workspace.Quiet (completeDailyReview date expectedVersion decisions) := by
  unfold completeDailyReview
  refine quiet_write (fun _ => quiet_beside rfl rfl rfl rfl) (quiet_read fun w => ?_)
  split
  · exact .raise _
  · refine .ite (fun _ => .raise _) fun _ => .ite (fun _ => .raise _) fun _ => ?_
    split
    · exact .raise _
    · refine quiet_write (fun _ => quiet_beside rfl rfl rfl rfl) ?_
      refine .ite (fun _ => .raise _) fun _ => ?_
      refine .bind (R := Workspace.Quiet) Workspace.Quiet.trans (quiet_decideReview decisions []) fun _ => ?_
      refine .ite (fun _ => .raise _) fun _ => ?_
      refine quiet_write (fun _ => quiet_beside rfl rfl rfl rfl) ?_
      exact quiet_write (fun _ => quiet_beside rfl rfl rfl rfl) (.pure .refl _)

end Store

end Prosepect

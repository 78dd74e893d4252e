/-
The rows of `task_delete_undos` over whole runs: a deletion with a receipt adds one under a fresh
id, everything else leaves them and their snapshots as they are or deletes some, and only the clock
moves the time they expire by.
-/
import Prosepect.Store.Revisions

namespace Prosepect

open Resumption Table Time Store

namespace Db

/-- No receipt is new or written. -/
def Receiptless (db db' : Db) : Prop := ∀ u ∈ db'.undos, u ∈ db.undos

/-- Of the receipts some may be gone, at the time that it was. -/
structure Culled (db db' : Db) : Prop where
  undos : db'.undos.Sublist db.undos
  now : db'.now = db.now

variable {db db' : Db}

theorem Receiptless.refl (db : Db) : db.Receiptless db := fun _ hu => hu

theorem Receiptless.trans {a b c : Db} (h : a.Receiptless b) (h' : b.Receiptless c) : a.Receiptless c :=
  fun u hu => h u (h' u hu)

theorem Culled.receiptless (h : db.Culled db') : db.Receiptless db' := fun _ hu => h.undos.subset hu

theorem Culled.refl (db : Db) : db.Culled db := ⟨.refl _, rfl⟩

theorem Culled.trans {a b c : Db} (h : a.Culled b) (h' : b.Culled c) : a.Culled c :=
  ⟨h'.undos.trans h.undos, h'.now.trans h.now⟩

/-- After a write beside the receipts. -/
theorem Culled.after {mid : Db} (h : mid.Culled db') (hu : mid.undos = db.undos) (hn : mid.now = db.now) : db.Culled db' :=
  ⟨hu ▸ h.undos, h.now.trans hn⟩

theorem culled_of_eq (hu : db'.undos = db.undos) (hn : db'.now = db.now) : db.Culled db' := ⟨hu ▸ .refl _, hn⟩

theorem culled_deleteUndos (p : TaskDeleteUndo → Bool) : db.Culled (db.deleteUndos p) := ⟨List.filter_sublist, rfl⟩

theorem Beside.culled (h : db.Beside db') : db.Culled db' := culled_of_eq h.undos h.now

/-! ## Tasks -/

theorem culled_syncTaskCalendarEvent (task : Task) : Tx.Within Culled (syncTaskCalendarEvent task) :=
  fun db a db' h => (beside_syncTaskCalendarEvent task db a db' h).culled

theorem culled_createTask (toLowercase : String → String) (r : CreateTaskRequest) :
    Tx.Within Culled (createTask toLowercase r) := by
  intro db a db' h
  obtain ⟨labels, row, mid, -, -, -, -, -, -, rfl, hsync⟩ := createTask_ok h
  exact (culled_syncTaskCalendarEvent _ _ _ _ hsync).after rfl rfl

theorem culled_removeNextOccurrenceForReopen (task : Uuid) :
    Tx.Within Culled (removeNextOccurrenceForReopen task) := by
  intro db a db' h
  have hnow := removeNextOccurrenceForReopen_now h
  rcases removeNextOccurrenceForReopen_ok h with ⟨-, rfl⟩ | ⟨next, -, -, -, rfl⟩
  · exact .refl _
  · exact culled_of_eq rfl hnow

theorem culled_createNextRecurringTask (task : Uuid) : Tx.Within Culled (createNextRecurringTask task) := by
  intro db a db' h
  obtain ⟨row, dueAt, nextDueAt, next, mid, -, -, -, -, -, -, rfl, hsync⟩ := createNextRecurringTask_ok h
  exact (culled_syncTaskCalendarEvent _ _ _ _ hsync).after rfl rfl

theorem culled_updateTaskScoped (toLowercase : String → String) (task : Uuid) (r : UpdateTaskRequest)
    (scope : Option RecurrenceEditScope) : Tx.Within Culled (updateTaskScoped toLowercase task r scope) := by
  intro db a db' h
  obtain ⟨row, updated, -, hu⟩ := updateTaskScoped_ok h
  obtain ⟨db₁, db₂, hreopen, hsync, hnext⟩ := hu.steps
  have h1 : db.Culled db₁ := by
    rcases ite_pure_ok hreopen with ⟨-, hr⟩ | ⟨-, rfl⟩
    · exact culled_removeNextOccurrenceForReopen task _ _ _ hr
    · exact .refl _
  have h2 : db₁.Culled db₂ := (culled_syncTaskCalendarEvent _ _ _ _ hsync).after rfl rfl
  have h3 : db₂.Culled db' := by
    rcases ite_pure_ok hnext with ⟨-, hn⟩ | ⟨-, rfl⟩
    · exact culled_createNextRecurringTask task _ _ _ hn
    · exact .refl _
  exact h1.trans (h2.trans h3)

theorem culled_deleteTask (task : Uuid) (expectedVersion : Int) :
    Tx.Within Culled (Store.deleteTask task expectedVersion) := by
  intro db a db' h
  obtain ⟨row, -, -, -, rfl⟩ := deleteTask_ok h
  have hremoved : db.Culled (removeTaskCalendarEvent task db) := (beside_removeTaskCalendarEvent task).culled
  exact ⟨hremoved.undos, hremoved.now⟩

theorem culled_positions (l : List (Uuid × Nat)) : ∀ db : Db, db.Culled (l.foldl (fun db (id, index) =>
    db.updateTask id fun t => { t with position := (index + 1) * 1024 }) db) := by
  induction l with
  | nil => exact Culled.refl
  | cons x l ih => exact fun db => (ih _).after rfl rfl

theorem culled_reorderTasks (taskIds : List Uuid) : Tx.Within Culled (reorderTasks taskIds) := by
  unfold reorderTasks
  refine .ite (fun _ => .raise _) fun _ => .bind (R := Culled) Culled.trans (.read Culled.refl) fun _ => ?_
  exact .ite (fun _ => .raise _) fun _ => .ite (fun _ => .raise _) fun _ => .write fun db => culled_positions _ db

theorem culled_importGoogleTask (title : String) (deadline : Option DateTime) (completed : Bool) :
    Tx.Within Culled (importGoogleTask title deadline completed) := by
  unfold importGoogleTask
  refine .ite (fun _ => .pure .refl _) fun _ => .bind (R := Culled) Culled.trans (.read .refl) fun _ => ?_
  exact .bind (R := Culled) Culled.trans (.write fun _ => ⟨.refl _, rfl⟩) fun _ => .pure .refl _

theorem culled_importTasks (project : Uuid) : ∀ (rest : List (TodoistImportTask × List String)) (position : Int)
    (taskIds : List Uuid), Tx.Within Culled (importTasks project position taskIds rest)
  | [], _, _ => .pure Culled.refl _
  | (task, labels) :: rest, position, taskIds => by
    intro db a db' h
    obtain ⟨row, db₁, -, hsync, h⟩ := importTasks_cons_ok h
    have h1 : db.Culled db₁ := (culled_syncTaskCalendarEvent _ _ _ _ hsync).after rfl rfl
    exact h1.trans (culled_importTasks project rest _ _ _ _ _ h)

theorem culled_removeProjectEvents (project : Uuid) : db.Culled (removeProjectEvents project db) := by
  have hfold : ∀ (l : List TaskRow) (db : Db),
      db.Culled (l.foldl (fun db t => removeTaskCalendarEvent t.id db) db) := by
    intro l
    induction l with
    | nil => exact Culled.refl
    | cons t l ih => exact fun db => (beside_removeTaskCalendarEvent t.id).culled.trans (ih _)
  exact hfold _ db

/-! ## Events and calendars -/

theorem culled_markEventForSync (event : CalendarEvent) (deleted : Bool) :
    db.Culled (markEventForSync event deleted db) :=
  (beside_markEventForSync event deleted).culled

theorem culled_createCalendarEvent (toLowercase : String → String) (r : CreateCalendarEventRequest) :
    Tx.Within Culled (createCalendarEvent toLowercase r) := by
  intro db a db' h
  obtain ⟨attendees, -, -, -, -, rfl⟩ := createCalendarEvent_ok h
  refine Culled.trans ?_ (culled_markEventForSync a false)
  exact ⟨.refl _, rfl⟩

theorem culled_updateCalendarEvent (toLowercase : String → String) (id : Uuid) (r : UpdateCalendarEventRequest) :
    Tx.Within Culled (updateCalendarEvent toLowercase id r) := by
  intro db a db' h
  obtain ⟨previous, attendees, -, -, -, -, -, -, rfl⟩ := updateCalendarEvent_ok h
  have hreschedule : ∀ db : Db, db.Culled (reschedule a db) := by
    intro db
    unfold reschedule
    split <;> exact ⟨.refl _, rfl⟩
  have hwritten : db.Culled (reschedule a (db.updateEvent a.id fun _ => a)) := (hreschedule _).after rfl rfl
  unfold changeEvent
  refine Culled.trans ?_ (culled_markEventForSync a false)
  split
  · have hmarked := hwritten.trans (culled_markEventForSync previous true)
    exact ⟨hmarked.undos, hmarked.now⟩
  · exact hwritten

theorem culled_deleteCalendarEvent (id : Uuid) (expectedVersion : Int) :
    Tx.Within Culled (deleteCalendarEvent id expectedVersion) := by
  intro db a db' h
  obtain ⟨existing, -, -, rfl⟩ := deleteCalendarEvent_ok h
  unfold dropEvent
  dsimp only
  have hmarked : db.Culled (markEventForSync existing true db) := culled_markEventForSync existing true
  split <;> exact ⟨hmarked.undos, hmarked.now⟩

theorem culled_moveEvent (e : CalendarEvent) (startsAt endsAt : DateTime)
    (task : Option (Uuid × Option DateTime × Option DateTime)) : db.Culled (moveEvent e startsAt endsAt task db) := by
  unfold moveEvent
  refine Culled.trans ?_ (culled_markEventForSync _ false)
  unfold writeSchedule
  cases task <;> exact ⟨.refl _, rfl⟩

theorem culled_migrateScheduledTasks : Tx.Within Culled migrateScheduledTasksToPreferredCalendar := by
  unfold migrateScheduledTasksToPreferredCalendar
  refine .bind (R := Culled) Culled.trans (.read .refl) fun _ => ?_
  refine .bind (R := Culled) Culled.trans (.write fun _ => beside_preferredTimeBlockCalendar.culled) fun _ => ?_
  refine .bind (R := Culled) Culled.trans (.read .refl) fun _ => ?_
  exact Tx.Within.each (R := Culled) Culled.refl Culled.trans fun (t : TaskRow) _ =>
    culled_syncTaskCalendarEvent t.toTask

theorem culled_enqueue (calendar : Option Uuid) (kind key : String) : db.Culled (db.enqueue calendar kind key) := by
  unfold Db.enqueue
  split <;> exact ⟨.refl _, rfl⟩

theorem culled_enqueueSync (calendar : Uuid) (key : String) : Tx.Within Culled (enqueueSync calendar key) := by
  unfold enqueueSync
  refine .ite (fun _ => .raise _) fun _ => .bind (R := Culled) Culled.trans (.read .refl) fun _ => ?_
  exact .ite (fun _ => .raise _) fun _ => .write fun _ => culled_enqueue _ _ _

theorem culled_setSyncConflictPolicy (policy : SyncConflictPolicy) :
    Tx.Within Culled (setSyncConflictPolicy policy) := by
  unfold setSyncConflictPolicy
  refine .bind (R := Culled) Culled.trans (.read .refl) fun db => ?_
  cases db.policy with
  | none => exact .raise _
  | some _ => exact .write fun _ => ⟨.refl _, rfl⟩

theorem culled_resolveSyncConflict (locked : Bool) (conflict : Uuid) (resolution : String) :
    Tx.Within Culled (resolveSyncConflict locked conflict resolution) := by
  unfold resolveSyncConflict
  split
  · exact .raise _
  · refine .bind (R := Culled) Culled.trans (.read .refl) fun db => ?_
    split
    · exact .raise _
    · have hreleased : ∀ (mapping : Uuid) (db : Db), db.Culled (releaseTombstone mapping db) :=
        fun _ _ => ⟨List.filter_sublist, rfl⟩
      refine .ite (fun _ => .ite (fun _ => .raise _) fun _ => .ite (fun _ => .raise _) fun _ =>
        .bind (R := Culled) Culled.trans (.write fun db => hreleased _ db) fun _ => ?_) fun _ => ?_
      all_goals
        refine .bind (R := Culled) Culled.trans (.write fun _ => ⟨.refl _, rfl⟩) fun _ => ?_
        split
        · exact .raise _
        · refine .bind (R := Culled) Culled.trans (.write fun db => ?_) fun _ => .pure .refl _
          refine Culled.trans ?_ (culled_enqueue _ _ _)
          exact ⟨.refl _, rfl⟩

theorem culled_exec (s : Stmt) (db : Db) : db.Culled (s.exec db).2 := by
  rcases s.exec_cases db with ⟨v, db', hr, hx⟩ | ⟨e, -, hx⟩
  swap
  · rw [hx]
    exact .refl db
  · rw [hx]
    cases s with
    | deleteCanonicalEvent event =>
      cases hr
      unfold deleteCanonicalEvent
      split <;> exact ⟨.refl _, rfl⟩
    | updateCanonicalEvent event calendar content =>
      have hc := Stmt.updateCanonicalEvent_ok hr
      rcases updateCanonicalEvent_ok hc with ⟨-, rfl⟩ | ⟨e, -, -, -, tasks, rfl⟩ <;> exact ⟨.refl _, rfl⟩
    | insertCanonicalEvent calendar content =>
      obtain ⟨hc, -⟩ := Stmt.insertCanonicalEvent_ok hr
      obtain ⟨-, -, rfl⟩ := insertCanonicalEvent_ok hc
      exact ⟨.refl _, rfl⟩
    | selectCalendars only =>
      obtain ⟨-, rfl⟩ := Stmt.selectCalendars_ok hr
      exact .refl _
    | insertConflict =>
      have hc := Stmt.insertConflict_ok hr
      rcases recordConflict_ok hc with ⟨-, rfl⟩ | ⟨-, -, rfl⟩ <;> exact ⟨.refl _, rfl⟩
    | linkMapping =>
      have hc := Stmt.linkMapping_ok hr
      rcases linkMapping_ok hc with ⟨-, rfl⟩ | ⟨-, -, -, rfl⟩ <;> exact ⟨.refl _, rfl⟩
    | insertMapping =>
      have hc := Stmt.insertMapping_ok hr
      obtain ⟨-, -, -, -, rfl⟩ := recordMapping_ok hc
      exact ⟨.refl _, rfl⟩
    | dropTombstone | deleteUndos =>
      cases hr
      exact ⟨List.filter_sublist, rfl⟩
    | selectMapping | selectPolicy | existsUnresolved | selectUnmapped | selectDirty | selectResolutionPending
    | recordActivity | deleteMapping | deletePendingMapping | setUnresolved | clearPendingResolution
    | updateMappingBaseline | recordPushed | setSyncToken | setSyncError | setSynced =>
      cases hr
      exact ⟨.refl _, rfl⟩

end Db

namespace Workspace

variable {w w' : Workspace}

/-- A receipt that is new is under a fresh id. -/
def Issuing (w w' : Workspace) : Prop := ∀ u ∈ w'.db.undos, u ∈ w.db.undos ∨ w.db.nextId ≤ u.id

/-- No receipt is new. -/
def Withholding (w w' : Workspace) : Prop := w.db.Receiptless w'.db

/-- Of the receipts some may be gone, and with them their snapshots, at the time that it was. -/
structure Culled (w w' : Workspace) : Prop where
  db : w.db.Culled w'.db
  snapshots : w'.snapshots.Sublist w.snapshots
  kept : ∀ x ∈ w.snapshots, (∃ u ∈ w'.db.undos, u.id = x.1) → x ∈ w'.snapshots

theorem Withholding.refl (w : Workspace) : w.Withholding w := Db.Receiptless.refl w.db

theorem Withholding.trans {a b c : Workspace} (h : a.Withholding b) (h' : b.Withholding c) : a.Withholding c :=
  Db.Receiptless.trans h h'

theorem Issuing.trans {a b c : Workspace} (hn : a.db.nextId ≤ b.db.nextId) (h : a.Issuing b) (h' : b.Issuing c) : a.Issuing c := by
  intro u hu
  rcases h' u hu with hu | hle
  · exact h u hu
  · exact .inr (hn.trans hle)

theorem Culled.withholding (h : w.Culled w') : w.Withholding w' := h.db.receiptless

/-- The snapshots are left alone. -/
theorem culled_of_db (h : w.db.Culled w'.db) (hs : w'.snapshots = w.snapshots) : w.Culled w' :=
  ⟨h, hs ▸ .refl _, fun _ hx _ => hs ▸ hx⟩

theorem Culled.refl (w : Workspace) : w.Culled w := culled_of_db (.refl _) rfl

theorem Culled.trans {a b c : Workspace} (h : a.Culled b) (h' : b.Culled c) : a.Culled c where
  db := h.db.trans h'.db
  snapshots := h'.snapshots.trans h.snapshots
  kept := fun x hx ⟨u, hu, hid⟩ => h'.kept x (h.kept x hx ⟨u, h'.db.undos.subset hu, hid⟩) ⟨u, hu, hid⟩

section Rules

variable {α β : Type}

theorem withholding_onDb {t : StoreTx α} (h : Tx.Within Db.Receiptless t) : Tx.Within Withholding (onDb t) := by
  intro w a w' hw
  obtain ⟨db, ht, rfl⟩ := onDb_ok hw
  exact h w.db a db ht

theorem culled_onDb {t : StoreTx α} (h : Tx.Within Db.Culled t) : Tx.Within Culled (onDb t) := by
  intro w a w' hw
  obtain ⟨db, ht, rfl⟩ := onDb_ok hw
  exact culled_of_db (h w.db a db ht) rfl

theorem culled_bind {t : WorkspaceTx α} {f : α → WorkspaceTx β} (h : Tx.Within Culled t)
    (hf : ∀ a, Tx.Within Culled (f a)) : Tx.Within Culled (t >>= f) :=
  .bind (R := Culled) Culled.trans h hf

theorem culled_read {f : Workspace → WorkspaceTx α} (hf : ∀ w, Tx.Within Culled (f w)) : Tx.Within Culled (Tx.read >>= f) :=
  culled_bind (.read .refl) hf

theorem culled_check {x : Except AppError β} {f : β → WorkspaceTx α} (hf : ∀ b, Tx.Within Culled (f b)) :
    Tx.Within Culled (Tx.ofExcept x >>= f) :=
  culled_bind (.ofExcept .refl x) hf

theorem culled_void {t : WorkspaceTx α} (h : Tx.Within Culled t) : Tx.Within Culled (Action.void t) :=
  culled_bind h fun _ => .pure .refl ()

/-- A write beside the receipts. -/
theorem culled_write {g : Workspace → Workspace} (hu : ∀ w, (g w).db.undos = w.db.undos)
    (hn : ∀ w, (g w).db.now = w.db.now) (hs : ∀ w, (g w).snapshots = w.snapshots) :
    Tx.Within Culled (Tx.write g : WorkspaceTx Unit) :=
  .write fun w => culled_of_db (Db.culled_of_eq (hu w) (hn w)) (hs w)

end Rules

/-! ## The operations -/

section Operations

theorem culled_insertProject (r : CreateProjectRequest) : Tx.Within Culled (insertProject r) := by
  intro w p w' h
  cases h
  exact culled_of_db ⟨.refl _, rfl⟩ rfl

theorem culled_updateProject (project : Uuid) (r : UpdateProjectRequest) : Tx.Within Culled (updateProject project r) := by
  unfold updateProject
  refine culled_check fun _ => .ite (fun _ => .raise _) fun _ => culled_read fun w => ?_
  split
  · exact .raise _
  · refine .ite (fun _ => .raise _) fun _ => ?_
    exact culled_bind (culled_write (fun _ => rfl) (fun _ => rfl) fun _ => rfl) fun _ => .pure .refl _

theorem culled_deleteProject (project : Uuid) (expectedVersion : Int) :
    Tx.Within Culled (deleteProject project expectedVersion) := by
  unfold deleteProject
  refine .ite (fun _ => .raise _) fun _ => ?_
  refine culled_bind (culled_onDb (.write fun _ => Db.culled_removeProjectEvents project)) fun _ => culled_read fun w => ?_
  split
  · exact .raise _
  · exact .ite (fun _ => .raise _) fun _ => culled_onDb (.write fun _ => ⟨.refl _, rfl⟩)

theorem culled_importTodoistProject (toLowercase : String → String) (r : TodoistImportRequest) :
    Tx.Within Culled (importTodoistProject toLowercase r) := by
  unfold importTodoistProject
  refine culled_check fun _ => .ite (fun _ => .raise _) fun _ => culled_check fun _ => ?_
  refine culled_bind (culled_insertProject _) fun _ => culled_read fun _ => ?_
  exact culled_bind (culled_onDb (Db.culled_importTasks _ _ _ _)) fun _ => .pure .refl _

theorem culled_createCalendar (toLowercase : String → String) (name color : String) :
    Tx.Within Culled (createCalendar toLowercase name color) := by
  unfold createCalendar
  refine culled_check fun _ => culled_read fun _ => culled_bind (culled_onDb (.write fun _ => ⟨.refl _, rfl⟩)) fun _ => ?_
  exact culled_bind (culled_write (fun _ => rfl) (fun _ => rfl) fun _ => rfl) fun _ => .pure .refl _

theorem culled_updateCalendar (toLowercase : String → String) (calendar : Uuid) (r : UpdateCalendarRequest) :
    Tx.Within Culled (updateCalendar toLowercase calendar r) := by
  unfold updateCalendar
  refine culled_check fun _ => culled_read fun w => ?_
  split
  · exact .raise _
  · refine .ite (fun _ => .raise _) fun _ => culled_bind (culled_onDb (.write fun _ => ⟨.refl _, rfl⟩)) fun _ => ?_
    refine culled_bind (culled_write (fun _ => rfl) (fun _ => rfl) fun _ => rfl) fun _ => ?_
    exact .ite (fun _ => culled_onDb (Db.culled_enqueueSync _ _)) fun _ => .pure .refl _

theorem culled_deleteCalendar (calendar : Uuid) (expectedVersion : Int) :
    Tx.Within Culled (deleteCalendar calendar expectedVersion) := by
  unfold deleteCalendar
  refine culled_read fun w => ?_
  split
  · exact .raise _
  · refine .ite (fun _ => culled_onDb (.write fun _ => ⟨.refl _, rfl⟩)) fun _ => ?_
    exact .ite (fun _ => .raise _) fun _ => .raise _

theorem culled_upsertGoogleCalendar (entry : GoogleCalendar) : Tx.Within Culled (upsertGoogleCalendar entry) := by
  unfold upsertGoogleCalendar
  refine culled_read fun w => ?_
  dsimp only
  split <;>
    exact culled_bind (culled_onDb (.write fun _ => ⟨.refl _, rfl⟩)) fun _ =>
      culled_write (fun _ => rfl) (fun _ => rfl) fun _ => rfl

theorem culled_revokeGoogleIntegration : Tx.Within Culled revokeGoogleIntegration :=
  culled_bind (culled_onDb (.write fun _ => ⟨.refl _, rfl⟩)) fun _ =>
    culled_write (fun _ => rfl) (fun _ => rfl) fun _ => rfl

theorem culled_moveCalendarItem (locked : Bool) (item : Uuid) (isTask : Bool) (r : MoveCalendarItemRequest) :
    Tx.Within Culled (moveCalendarItem locked item isTask r) := by
  intro w receipt w' h
  obtain ⟨e, task, w₁, -, -, -, -, rfl, rfl⟩ := moveCalendarItem_ok h
  have hmoved : w.db.fresh.Culled (moveEvent e r.startsAt r.endsAt (movedTask task r.startsAt r.endsAt) w.db.fresh) :=
    Db.culled_moveEvent _ _ _ _
  exact culled_of_db ⟨hmoved.undos, hmoved.now⟩ rfl

theorem culled_undoCalendarMove (locked : Bool) (receipt : Uuid) : Tx.Within Culled (undoCalendarMove locked receipt) := by
  intro w a w' h
  obtain ⟨inverse, e, task, w₁, -, -, -, -, -, -, -, -, rfl, rfl⟩ := undoCalendarMove_ok h
  have hmoved : w.db.Culled (moveEvent e inverse.startsAt inverse.endsAt
      (inverse.taskId.map fun id => (id, inverse.taskStartsAt, inverse.taskEndsAt)) w.db) := Db.culled_moveEvent _ _ _ _
  exact culled_of_db ⟨hmoved.undos, hmoved.now⟩ rfl

theorem culled_undoTaskDelete (locked : Bool) (validation : Except AppError Unit) (receipt : Uuid) :
    Tx.Within Culled (undoTaskDelete locked validation receipt) := by
  intro w a w' h
  obtain ⟨u, s, -, -, -, -, rfl⟩ := undoTaskDelete_ok h
  have hrestored : w.db.Culled (restoreDb s w.db) := by
    obtain ⟨tasks, hrelinked⟩ := relinkSuccessors_eq s (restoreEvent s (w.db.insertTask (restoredTask w.db.now s.task)))
    have hevent : w.db.Culled (restoreEvent s (w.db.insertTask (restoredTask w.db.now s.task))) :=
      (beside_restoreEvent s _).culled.after rfl rfl
    have hplaced : w.db.Culled { restoreEvent s (w.db.insertTask (restoredTask w.db.now s.task)) with tasks := tasks } :=
      ⟨hevent.undos, hevent.now⟩
    unfold restoreDb
    rw [hrelinked]
    exact hplaced.trans (beside_restoreMapping s _).culled
  have hdeleted := hrestored.trans (Db.culled_deleteUndos (·.id == receipt))
  refine ⟨⟨hdeleted.undos, hdeleted.now⟩, List.filter_sublist, fun x hx ⟨v, hv, hid⟩ => mem_delete.2 ⟨hx, ?_⟩⟩
  have hother : (v.id == receipt) = false := (mem_delete.1 hv).2
  rwa [← hid]

/-! ### Notes, files, the focus list and the daily review -/

theorem culled_createNote (r : CreateNoteRequest) : Tx.Within Culled (createNote r) := by
  unfold createNote
  refine culled_check fun _ => culled_read fun w => culled_check fun _ => ?_
  exact culled_bind (culled_write (fun _ => rfl) (fun _ => rfl) fun _ => rfl) fun _ => .pure .refl _

theorem culled_updateNote (note : Uuid) (r : UpdateNoteRequest) : Tx.Within Culled (updateNote note r) := by
  unfold updateNote
  refine culled_check fun _ => culled_read fun w => culled_check fun _ => ?_
  split
  · exact .raise _
  · refine .ite (fun _ => .raise _) fun _ => ?_
    exact culled_bind (culled_write (fun _ => rfl) (fun _ => rfl) fun _ => rfl) fun _ => .pure .refl _

theorem culled_deleteNote (note : Uuid) (expectedVersion : Int) : Tx.Within Culled (deleteNote note expectedVersion) := by
  unfold deleteNote
  refine culled_read fun w => ?_
  split
  · exact .raise _
  · exact .ite (fun _ => .raise _) fun _ => culled_write (fun _ => rfl) (fun _ => rfl) fun _ => rfl

theorem culled_createFileMetadata (others : Int) (r : FileRequest) : Tx.Within Culled (createFileMetadata others r) := by
  unfold createFileMetadata
  refine culled_check fun _ => culled_read fun w => culled_check fun _ => ?_
  refine .ite (fun _ => .raise _) fun _ => .ite (fun _ => .raise _) fun _ => .ite (fun _ => .raise _) fun _ => ?_
  exact culled_bind (culled_write (fun _ => rfl) (fun _ => rfl) fun _ => rfl) fun _ => .pure .refl _

theorem culled_deleteFileMetadata (file : Uuid) : Tx.Within Culled (deleteFileMetadata file) := by
  unfold deleteFileMetadata
  refine culled_read fun w => ?_
  split
  · exact .raise _
  · exact culled_bind (culled_write (fun _ => rfl) (fun _ => rfl) fun _ => rfl) fun _ => .pure .refl _

theorem culled_updateDailyFocus (date : NaiveDate) (taskIds : List Uuid) :
    Tx.Within Culled (updateDailyFocus date taskIds) := by
  unfold updateDailyFocus
  refine .ite (fun _ => .raise _) fun _ => .ite (fun _ => .raise _) fun _ => culled_read fun w => ?_
  exact .ite (fun _ => .raise _) fun _ => culled_write (fun _ => rfl) (fun _ => rfl) fun _ => rfl

theorem culled_startDailyReview (date : NaiveDate) (manual : Bool) : Tx.Within Culled (startDailyReview date manual) := by
  unfold startDailyReview
  refine culled_read fun w => .ite (fun _ => .pure .refl _) fun _ => ?_
  split
  · exact .pure .refl _
  · split
    · exact .pure .refl _
    · exact culled_bind (culled_write (fun _ => rfl) (fun _ => rfl) fun _ => rfl) fun _ => .pure .refl _

theorem culled_decideReview : ∀ (decisions : List ReviewDecision) (carried : List Uuid),
    Tx.Within Culled (decideReview decisions carried)
  | [], carried => .pure .refl carried
  | d :: rest, carried => by
    unfold decideReview
    split
    · exact culled_decideReview rest _
    · exact culled_decideReview rest _
    · split
      · exact .raise _
      · exact culled_bind (culled_write (fun _ => rfl) (fun _ => rfl) fun _ => rfl) fun _ => culled_decideReview rest _

theorem culled_completeDailyReview (date : NaiveDate) (expectedVersion : Int) (decisions : List ReviewDecision) :
    Tx.Within Culled (completeDailyReview date expectedVersion decisions) := by
  have hwrite : ∀ {g : Workspace → Workspace}, (∀ w, (g w).db = w.db) → (∀ w, (g w).snapshots = w.snapshots) →
      Tx.Within Culled (Tx.write g : WorkspaceTx Unit) :=
    fun hdb hs => culled_write (fun w => by rw [hdb]) (fun w => by rw [hdb]) hs
  unfold completeDailyReview
  refine culled_bind (hwrite (fun _ => rfl) fun _ => rfl) fun _ => culled_read fun w => ?_
  split
  · exact .raise _
  · refine .ite (fun _ => .raise _) fun _ => .ite (fun _ => .raise _) fun _ => ?_
    split
    · exact .raise _
    · refine culled_bind (hwrite (fun _ => rfl) fun _ => rfl) fun _ => .ite (fun _ => .raise _) fun _ => ?_
      refine culled_bind (culled_decideReview decisions []) fun _ => .ite (fun _ => .raise _) fun _ => ?_
      refine culled_bind (hwrite (fun _ => rfl) fun _ => rfl) fun _ => ?_
      exact culled_bind (hwrite (fun _ => rfl) fun _ => rfl) fun _ => .pure .refl _

end Operations

/-- An action that neither deletes with a receipt nor moves the time. -/
theorem culled_tx (env : Env) {a : Action} (ha : ∀ locked validated task version,
    a ≠ .deleteTaskWithUndo locked validated task version) (hnow : ∀ now, a ≠ .tick now) : Tx.Within Culled (a.tx env) := by
  cases a with
  | tick now => exact absurd rfl (hnow now)
  | createProject r => exact culled_void (culled_check fun _ => culled_insertProject r)
  | updateProject project r => exact culled_void (culled_updateProject project r)
  | deleteProject project version => exact culled_deleteProject project version
  | importTodoistProject r => exact culled_void (culled_importTodoistProject _ r)
  | importGoogleTask title deadline completed => exact culled_void (culled_onDb (Db.culled_importGoogleTask _ _ _))
  | createTask r => exact culled_void (culled_onDb (Db.culled_createTask _ r))
  | updateTask task r scope => exact culled_void (culled_onDb (Db.culled_updateTaskScoped _ task r scope))
  | reorderTasks taskIds => exact culled_onDb (Db.culled_reorderTasks taskIds)
  | deleteTask task version => exact culled_onDb (Db.culled_deleteTask task version)
  | deleteTaskWithUndo locked validated task version => exact absurd rfl (ha locked validated task version)
  | undoTaskDelete locked validation receipt => exact culled_undoTaskDelete locked validation receipt
  | cleanupTaskDeleteUndos =>
    exact culled_onDb (t := Tx.write Store.cleanupTaskDeleteUndos) (.write fun _ => Db.culled_deleteUndos _)
  | createEvent r => exact culled_void (culled_onDb (Db.culled_createCalendarEvent _ r))
  | updateEvent event r => exact culled_void (culled_onDb (Db.culled_updateCalendarEvent _ event r))
  | deleteEvent event version => exact culled_onDb (Db.culled_deleteCalendarEvent event version)
  | moveCalendarItem locked item isTask r => exact culled_void (culled_moveCalendarItem locked item isTask r)
  | undoCalendarMove locked receipt => exact culled_undoCalendarMove locked receipt
  | cleanupMoves => exact culled_write (fun _ => rfl) (fun _ => rfl) fun _ => rfl
  | createCalendar name color => exact culled_void (culled_createCalendar _ name color)
  | updateCalendar calendar r => exact culled_updateCalendar _ calendar r
  | deleteCalendar calendar version => exact culled_deleteCalendar calendar version
  | connectGoogle account => exact culled_write (fun _ => rfl) (fun _ => rfl) fun _ => rfl
  | revokeGoogleIntegration => exact culled_revokeGoogleIntegration
  | discoverCalendar entry => exact culled_upsertGoogleCalendar entry
  | migrateScheduledTasks => exact culled_onDb Db.culled_migrateScheduledTasks
  | createNote r => exact culled_void (culled_createNote r)
  | updateNote note r => exact culled_void (culled_updateNote note r)
  | deleteNote note version => exact culled_deleteNote note version
  | createFile others r => exact culled_void (culled_createFileMetadata others r)
  | deleteFile file => exact culled_void (culled_deleteFileMetadata file)
  | updateDailyFocus date taskIds => exact culled_updateDailyFocus date taskIds
  | startDailyReview date manual => exact culled_void (culled_startDailyReview date manual)
  | completeDailyReview date version decisions => exact culled_void (culled_completeDailyReview date version decisions)
  | resolveSyncConflict locked conflict resolution =>
    exact culled_void (culled_onDb (Db.culled_resolveSyncConflict locked conflict resolution))
  | setSyncConflictPolicy policy => exact culled_onDb (Db.culled_setSyncConflictPolicy policy)
  | requestSync calendar key => exact culled_onDb (t := Store.enqueueSync calendar key) (Db.culled_enqueueSync calendar key)
  | sync s => exact culled_onDb (t := Tx.write fun db => (s.exec db).2) (.write fun db => Db.culled_exec s db)

theorem withholding_tx (env : Env) {a : Action} (ha : ∀ locked validated task version,
    a ≠ .deleteTaskWithUndo locked validated task version) : Tx.Within Withholding (a.tx env) := by
  by_cases hnow : ∃ now, a = .tick now
  · obtain ⟨now, rfl⟩ := hnow
    exact .write fun _ _ hu => hu
  · exact fun w b w' h => (culled_tx env ha (fun now hax => hnow ⟨now, hax⟩) w b w' h).withholding

theorem issuing_perform (env : Env) (a : Action) (w : Workspace) : w.Issuing (a.perform env w) := by
  refine Tx.Within.commit (R := Issuing) (fun _ _ hu => .inl hu) (fun w b w' h => ?_) w
  by_cases ha : ∃ locked validated task version, a = .deleteTaskWithUndo locked validated task version
  · obtain ⟨locked, validated, task, version, rfl⟩ := ha
    obtain ⟨receipt, u, hdelete, h⟩ := Tx.bind_ok h
    cases h
    obtain ⟨row, s, held, mapping, w₁, w₂, -, -, -, rfl, -, -, -, rfl, -, rfl⟩ := deleteTaskWithSnapshot_ok hdelete
    intro x hx
    have hundos : x ∈ (heldBack row held w.db).undos := hx
    unfold heldBack at hundos
    cases held <;>
    · rcases List.mem_append.1 hundos with hx | hx
      · exact .inl hx
      · rw [List.mem_singleton.1 hx]
        exact .inr le_rfl
  · exact fun u hu => .inl (withholding_tx env (fun l v t n hax => ha ⟨l, v, t, n, hax⟩) w b w' h u hu)

theorem issuing_run {env : Env} {P : Action → Workspace → Prop} (hw : w.MovesValid) (h : Run env P w w') : w.Issuing w' := by
  induction h with
  | start => exact fun _ hu => .inl hu
  | @step w₁ a hrun _ ih => exact ih.trans (onward_run hrun hw).2.nextId (issuing_perform env a w₁)

end Workspace

end Prosepect

/-
When an event was last written: every step leaves the events as they are, drops some, or stamps the
ones it writes with its own time (`Workspace.Stamped`). So over a whole run the column `updated_at`
of an event is the time of the last step that changed its row.
-/
import Prosepect.Store.MoveRuns

namespace Prosepect

open Resumption Table Time Store

namespace Db

/-- Events only go. -/
def Fewer (db db' : Db) : Prop := ∀ e ∈ db'.events, e ∈ db.events

/-- What is written is stamped, and the time stands still. -/
structure Stamped (db db' : Db) : Prop where
  now : db'.now = db.now
  events : ∀ e ∈ db'.events, e ∈ db.events ∨ e.updatedAt = db.now

variable {db db' : Db}

theorem Fewer.refl (db : Db) : db.Fewer db := fun _ he => he

theorem Fewer.trans {a b c : Db} (h : a.Fewer b) (h' : b.Fewer c) : a.Fewer c := fun e he => h e (h' e he)

theorem Fewer.stamped (h : db.Fewer db') (hnow : db'.now = db.now) : db.Stamped db' := ⟨hnow, fun e he => .inl (h e he)⟩

theorem Stamped.refl (db : Db) : db.Stamped db := (Fewer.refl db).stamped rfl

theorem Stamped.trans {a b c : Db} (h : a.Stamped b) (h' : b.Stamped c) : a.Stamped c where
  now := h'.now.trans h.now
  events := by
    intro e he
    rcases h'.events e he with he | hstamp
    · exact h.events e he
    · exact .inr (hstamp.trans h.now)

/-- After a write of other tables. -/
theorem Stamped.after {mid : Db} (h : mid.Stamped db') (hnow : mid.now = db.now) (he : mid.events = db.events) :
    db.Stamped db' :=
  ⟨h.now.trans hnow, fun e hmem => by rw [← he, ← hnow]; exact h.events e hmem⟩

/-! ## Tasks -/

theorem stamped_removeTaskCalendarEvent (task : Uuid) : db.Stamped (removeTaskCalendarEvent task db) := by
  refine Fewer.stamped (fun _ he => removeTaskCalendarEvent_events he) ?_
  unfold removeTaskCalendarEvent
  split
  · exact markEventForSync_now _ true
  · rfl

/-- The event of a scheduled task is written at the time of the transaction. -/
theorem stamped_placed (task : Task) (startsAt endsAt : DateTime) :
    (placed task startsAt endsAt db).1.updatedAt = db.now ∧ (placed task startsAt endsAt db).2.now = db.now := by
  have hnow : (unplaced task.id (preferredTimeBlockCalendar db).1 (preferredTimeBlockCalendar db).2).now = db.now :=
    (beside_preferredTimeBlockCalendar.trans (beside_unplaced task.id _)).now
  unfold placed upsertTaskEvent
  split
  · exact ⟨hnow, hnow⟩
  · exact ⟨hnow, hnow⟩

theorem stamped_syncTaskCalendarEvent (task : Task) : Tx.Within Stamped (syncTaskCalendarEvent task) := by
  intro db a db' h
  rcases syncTaskCalendarEvent_ok h with ⟨startsAt, endsAt, -, -, -, rfl⟩ | ⟨-, rfl⟩
  · have hplaced : (placed task startsAt endsAt db).1.updatedAt = db.now ∧ (placed task startsAt endsAt db).2.now = db.now :=
      stamped_placed task startsAt endsAt
    obtain ⟨hstamp, hnow⟩ := hplaced
    refine ⟨(markEventForSync_now _ false).trans hnow, fun e he => ?_⟩
    rw [markEventForSync_events] at he
    rcases mem_placed_events he with he | rfl
    · exact .inl he
    · exact .inr hstamp
  · exact stamped_removeTaskCalendarEvent task.id

theorem stamped_createTask (toLowercase : String → String) (r : CreateTaskRequest) :
    Tx.Within Stamped (createTask toLowercase r) := by
  intro db a db' h
  obtain ⟨labels, row, mid, -, -, -, -, -, -, rfl, hsync⟩ := createTask_ok h
  exact (stamped_syncTaskCalendarEvent _ _ _ _ hsync).after rfl rfl

theorem stamped_removeNextOccurrenceForReopen (task : Uuid) : Tx.Within Stamped (removeNextOccurrenceForReopen task) := by
  intro db a db' h
  have hnow := removeNextOccurrenceForReopen_now h
  rcases removeNextOccurrenceForReopen_ok h with ⟨-, rfl⟩ | ⟨next, -, -, -, rfl⟩
  · exact .refl _
  · exact Fewer.stamped (fun _ he => (mem_delete.1 he).1) hnow

theorem stamped_createNextRecurringTask (task : Uuid) : Tx.Within Stamped (createNextRecurringTask task) := by
  intro db a db' h
  obtain ⟨row, dueAt, nextDueAt, next, mid, -, -, -, -, -, -, rfl, hsync⟩ := createNextRecurringTask_ok h
  exact (stamped_syncTaskCalendarEvent _ _ _ _ hsync).after rfl rfl

theorem stamped_updateTaskScoped (toLowercase : String → String) (task : Uuid) (r : UpdateTaskRequest)
    (scope : Option RecurrenceEditScope) : Tx.Within Stamped (updateTaskScoped toLowercase task r scope) := by
  intro db a db' h
  obtain ⟨row, updated, -, hu⟩ := updateTaskScoped_ok h
  obtain ⟨db₁, db₂, hreopen, hsync, hnext⟩ := hu.steps
  have h1 : db.Stamped db₁ := by
    rcases ite_pure_ok hreopen with ⟨-, hr⟩ | ⟨-, rfl⟩
    · exact stamped_removeNextOccurrenceForReopen task _ _ _ hr
    · exact .refl _
  have h2 : db₁.Stamped db₂ :=
    (stamped_syncTaskCalendarEvent _ _ _ _ hsync).after rfl rfl
  have h3 : db₂.Stamped db' := by
    rcases ite_pure_ok hnext with ⟨-, hn⟩ | ⟨-, rfl⟩
    · exact stamped_createNextRecurringTask task _ _ _ hn
    · exact .refl _
  exact h1.trans (h2.trans h3)

theorem stamped_importTasks (project : Uuid) : ∀ (rest : List (TodoistImportTask × List String)) (position : Int)
    (taskIds : List Uuid), Tx.Within Stamped (importTasks project position taskIds rest)
  | [], _, _ => .pure Stamped.refl _
  | (task, labels) :: rest, position, taskIds => by
    intro db a db' h
    obtain ⟨row, db₁, -, hsync, h⟩ := importTasks_cons_ok h
    have h1 : db.Stamped db₁ := (stamped_syncTaskCalendarEvent _ _ _ _ hsync).after rfl rfl
    exact h1.trans (stamped_importTasks project rest _ _ _ _ _ h)

theorem stamped_migrateScheduledTasks : Tx.Within Stamped migrateScheduledTasksToPreferredCalendar := by
  unfold migrateScheduledTasksToPreferredCalendar
  refine .bind (R := Stamped) Stamped.trans (.read .refl) fun _ => ?_
  refine .bind (R := Stamped) Stamped.trans (.write fun db => ?_) fun _ => ?_
  · exact Fewer.stamped (fun _ he => by rwa [preferredTimeBlockCalendar_events] at he) beside_preferredTimeBlockCalendar.now
  refine .bind (R := Stamped) Stamped.trans (.read .refl) fun _ => ?_
  exact Tx.Within.each (R := Stamped) Stamped.refl Stamped.trans fun (t : TaskRow) _ => stamped_syncTaskCalendarEvent t.toTask

/-! ## Events -/

theorem stamped_createCalendarEvent (toLowercase : String → String) (r : CreateCalendarEventRequest) :
    Tx.Within Stamped (createCalendarEvent toLowercase r) := by
  intro db event db' h
  obtain ⟨attendees, -, -, hevent, -, rfl⟩ := createCalendarEvent_ok h
  refine ⟨markEventForSync_now event false, fun e he => ?_⟩
  rw [markEventForSync_events] at he
  rcases List.mem_append.1 he with he | he
  · exact .inl he
  · rw [List.mem_singleton.1 he, hevent]
    exact .inr rfl

theorem stamped_reschedule (event : CalendarEvent) : (reschedule event db).now = db.now := by
  unfold reschedule
  split <;> rfl

theorem stamped_updateCalendarEvent (toLowercase : String → String) (id : Uuid) (r : UpdateCalendarEventRequest) :
    Tx.Within Stamped (updateCalendarEvent toLowercase id r) := by
  intro db event db' h
  obtain ⟨previous, attendees, -, -, -, -, hevent, -, rfl⟩ := updateCalendarEvent_ok h
  refine ⟨?_, fun e he => ?_⟩
  · unfold changeEvent
    dsimp only
    rw [markEventForSync_now]
    split
    · unfold detachEventMapping
      simp only [updateMappings, markEventForSync_now]
      exact stamped_reschedule event
    · exact stamped_reschedule event
  · rw [changeEvent_events] at he
    rcases mem_updateEvent he with he | rfl
    · exact .inl he
    · rw [hevent]
      exact .inr rfl

theorem stamped_deleteCalendarEvent (id : Uuid) (expectedVersion : Int) :
    Tx.Within Stamped (deleteCalendarEvent id expectedVersion) := by
  intro db a db' h
  obtain ⟨existing, -, -, rfl⟩ := deleteCalendarEvent_ok h
  have hdeleted : db.Fewer ((markEventForSync existing true db).deleteEvent existing.id) := by
    intro e he
    have hmem := (mem_delete.1 he).1
    rwa [markEventForSync_events] at hmem
  unfold dropEvent
  dsimp only
  split
  · exact ⟨markEventForSync_now existing true, fun e he => .inl (hdeleted e he)⟩
  · exact ⟨markEventForSync_now existing true, fun e he => .inl (hdeleted e he)⟩

theorem stamped_moveEvent (e : CalendarEvent) (startsAt endsAt : DateTime)
    (task : Option (Uuid × Option DateTime × Option DateTime)) : db.Stamped (moveEvent e startsAt endsAt task db) := by
  unfold moveEvent writeSchedule
  refine ⟨?_, fun x hx => ?_⟩
  · rw [markEventForSync_now]
    cases task <;> rfl
  · rw [markEventForSync_events] at hx
    cases task with
    | none => exact (mem_updateEvent hx).imp_right fun heq => by rw [heq]
    | some _ => exact (mem_updateEvent hx).imp_right fun heq => by rw [heq]; rfl

/-! ## Deletions, and statements of a synchronization -/

theorem fewer_removeProjectEvents (project : Uuid) : db.Fewer (removeProjectEvents project db) := by
  have hfold : ∀ (l : List TaskRow) (db : Db), db.Fewer (l.foldl (fun db t => removeTaskCalendarEvent t.id db) db) := by
    intro l
    induction l with
    | nil => exact Fewer.refl
    | cons t l ih => exact fun db => Fewer.trans (fun _ he => removeTaskCalendarEvent_events he) (ih _)
  exact hfold _ db

theorem fewer_deleteProject (project : Uuid) : db.Fewer (db.deleteProject project) := fun _ he => (mem_delete.1 he).1

theorem fewer_deleteCalendars (p : Calendar → Bool) : db.Fewer (db.deleteCalendars p) := fun _ he => (mem_delete.1 he).1

theorem stamped_exec (s : Stmt) (db : Db) : ∀ e ∈ (s.exec db).2.events, e ∈ db.events ∨ e.updatedAt = db.now := by
  rcases unread_exec s db with h | ⟨event, -, h⟩ | ⟨event, calendar, content, -, h⟩ | ⟨calendar, content, -, h⟩
  · exact fun e he => .inl (h.events ▸ he)
  · rw [h]
    unfold deleteCanonicalEvent
    split
    · exact fun e he => .inl (mem_delete.1 he).1
    · exact fun e he => .inl (mem_delete.1 he).1
  · rcases updateCanonicalEvent_ok h with ⟨-, heq⟩ | ⟨x, -, -, -, tasks, heq⟩
    · rw [heq]
      exact fun e he => .inl he
    · rw [heq]
      intro e he
      rcases mem_update.1 he with ⟨he, -⟩ | ⟨y, -, -, rfl⟩
      · exact .inl he
      · exact .inr rfl
  · obtain ⟨-, -, heq⟩ := insertCanonicalEvent_ok h
    rw [heq]
    intro e he
    rcases List.mem_append.1 he with he | he
    · exact .inl he
    · rw [List.mem_singleton.1 he]
      exact .inr rfl

end Db

namespace Workspace

variable {w w' : Workspace}

/-- Events only go. -/
def Fewer (w w' : Workspace) : Prop := w.db.Fewer w'.db

/-- What is written is stamped with the time before the step. -/
def Stamped (w w' : Workspace) : Prop := w.db.Valid → ∀ e ∈ w'.db.events, e ∈ w.db.events ∨ e.updatedAt = w.db.now

theorem Fewer.refl (w : Workspace) : w.Fewer w := Db.Fewer.refl w.db

theorem Fewer.trans {a b c : Workspace} (h : a.Fewer b) (h' : b.Fewer c) : a.Fewer c := Db.Fewer.trans h h'

theorem Fewer.stamped (h : w.Fewer w') : w.Stamped w' := fun _ e he => .inl (h e he)

section Operations

variable {α : Type}

theorem stamped_fewer {t : WorkspaceTx α} (h : Tx.Within Fewer t) : Tx.Within Stamped t :=
  fun w a w' hw => (h w a w' hw).stamped

theorem stamped_quiet {t : WorkspaceTx α} (h : Tx.Within Quiet t) : Tx.Within Stamped t := by
  intro w a w' hw
  exact Fewer.stamped fun e he => (h w a w' hw).db.events ▸ he

theorem stamped_onDb {t : StoreTx α} (h : ∀ db a db', t db = .ok (a, db') → db.Valid →
    ∀ e ∈ db'.events, e ∈ db.events ∨ e.updatedAt = db.now) : Tx.Within Stamped (onDb t) := by
  intro w a w' hw
  obtain ⟨db, ht, rfl⟩ := onDb_ok hw
  exact h w.db a db ht

theorem stamped_tx {t : StoreTx α} (h : Tx.Within Db.Stamped t) : Tx.Within Stamped (onDb t) :=
  stamped_onDb fun db a db' ht _ => (h db a db' ht).events

theorem fewer_onDb {t : StoreTx α} (h : Tx.Within Db.Fewer t) : Tx.Within Fewer (onDb t) := by
  intro w a w' hw
  obtain ⟨db, ht, rfl⟩ := onDb_ok hw
  exact h w.db a db ht

theorem stamped_void {t : WorkspaceTx α} (h : Tx.Within Stamped t) : Tx.Within Stamped (Action.void t) := by
  intro w a w' hw
  obtain ⟨b, u, ht, hw⟩ := Tx.bind_ok hw
  cases hw
  exact h w b _ ht

/-- A write beside the events. -/
theorem fewer_write {g : Workspace → Workspace} (h : ∀ w, (g w).db.events = w.db.events) :
    Tx.Within Fewer (Tx.write g : WorkspaceTx Unit) :=
  .write fun w _ he => h w ▸ he

theorem fewer_writeDb {g : Db → Db} (h : ∀ db, (g db).events = db.events) : Tx.Within Fewer (onDb (Tx.write g)) :=
  fewer_onDb (.write fun db _ he => h db ▸ he)

theorem fewer_createCalendar (toLowercase : String → String) (name color : String) :
    Tx.Within Fewer (createCalendar toLowercase name color) := by
  unfold createCalendar
  refine .bind (R := Fewer) Fewer.trans (.ofExcept .refl _) fun _ => ?_
  refine .bind (R := Fewer) Fewer.trans (.read .refl) fun _ => ?_
  refine .bind (R := Fewer) Fewer.trans (fewer_writeDb fun _ => rfl) fun _ => ?_
  exact .bind (R := Fewer) Fewer.trans (fewer_write fun _ => rfl) fun _ => .pure .refl _

theorem fewer_enqueueSync (calendar : Uuid) (key : String) : Tx.Within Fewer (onDb (enqueueSync calendar key)) := by
  apply fewer_onDb
  unfold enqueueSync
  refine .ite (fun _ => .raise _) fun _ => .bind (R := Db.Fewer) Db.Fewer.trans (.read .refl) fun _ => ?_
  refine .ite (fun _ => .raise _) fun _ => .write fun db e he => ?_
  unfold Db.enqueue at he
  split at he
  · exact he
  · exact he

theorem fewer_updateCalendar (toLowercase : String → String) (calendar : Uuid) (r : UpdateCalendarRequest) :
    Tx.Within Fewer (updateCalendar toLowercase calendar r) := by
  unfold updateCalendar
  refine .bind (R := Fewer) Fewer.trans (.ofExcept .refl _) fun _ => ?_
  refine .bind (R := Fewer) Fewer.trans (.read .refl) fun _ => ?_
  split
  · exact .raise _
  · refine .ite (fun _ => .raise _) fun _ => ?_
    refine .bind (R := Fewer) Fewer.trans (fewer_writeDb fun _ => rfl) fun _ => ?_
    refine .bind (R := Fewer) Fewer.trans (fewer_write fun _ => rfl) fun _ => ?_
    exact .ite (fun _ => fewer_enqueueSync _ _) fun _ => .pure .refl _

theorem fewer_deleteCalendar (calendar : Uuid) (expectedVersion : Int) :
    Tx.Within Fewer (deleteCalendar calendar expectedVersion) := by
  unfold deleteCalendar
  refine .bind (R := Fewer) Fewer.trans (.read .refl) fun _ => ?_
  split
  · exact .raise _
  · refine .ite (fun _ => fewer_onDb (.write fun _ => Db.fewer_deleteCalendars _)) fun _ => ?_
    exact .ite (fun _ => .raise _) fun _ => .raise _

theorem fewer_upsertGoogleCalendar (entry : GoogleCalendar) : Tx.Within Fewer (upsertGoogleCalendar entry) := by
  intro w a w' h
  unfold upsertGoogleCalendar at h
  rw [Tx.read_bind_run] at h
  dsimp only at h
  cases hc : w.db.calendars.find? fun c => c.source == .google && c.externalId == some entry.id with
  | some c =>
    simp only [hc] at h
    obtain ⟨_, u, hcalendar, hlabel⟩ := Tx.bind_ok h
    have hwritten : w.Fewer u := fewer_writeDb (by intro; rfl) _ _ _ hcalendar
    exact hwritten.trans (fewer_write (by intro; rfl) _ _ _ hlabel)
  | none =>
    simp only [hc] at h
    obtain ⟨_, db, hdb, h⟩ := onDb_bind_ok h
    cases hdb
    cases h
    exact fun _ he => he

theorem fewer_revokeGoogleIntegration : Tx.Within Fewer revokeGoogleIntegration := by
  unfold revokeGoogleIntegration
  refine .bind (R := Fewer) Fewer.trans (fewer_onDb (.write fun _ => Db.fewer_deleteCalendars _)) fun _ => ?_
  exact fewer_write fun _ => rfl

theorem fewer_insertProject (r : CreateProjectRequest) : Tx.Within Fewer (insertProject r) := by
  intro w p w' h
  cases h
  exact fun _ he => he

theorem fewer_deleteProject (project : Uuid) (expectedVersion : Int) :
    Tx.Within Fewer (deleteProject project expectedVersion) := by
  unfold deleteProject
  refine .ite (fun _ => .raise _) fun _ => ?_
  refine .bind (R := Fewer) Fewer.trans (fewer_onDb (.write fun _ => Db.fewer_removeProjectEvents project)) fun _ => ?_
  refine .bind (R := Fewer) Fewer.trans (.read .refl) fun _ => ?_
  split
  · exact .raise _
  · exact .ite (fun _ => .raise _) fun _ => fewer_onDb (.write fun _ => Db.fewer_deleteProject project)

/-- The project is new, and the tasks of an import are written in one transaction. -/
theorem stamped_importTodoistProject (toLowercase : String → String) (r : TodoistImportRequest) :
    Tx.Within Stamped (importTodoistProject toLowercase r) := by
  intro w a w' h
  unfold importTodoistProject at h
  obtain ⟨_, -, h⟩ := Tx.ofExcept_bind_ok h
  split at h
  · cases h
  · obtain ⟨_, -, h⟩ := Tx.ofExcept_bind_ok h
    obtain ⟨p, u, hp, h⟩ := Tx.bind_ok h
    cases hp
    rw [Tx.read_bind_run] at h
    obtain ⟨ids, db, htasks, h⟩ := onDb_bind_ok h
    cases h
    exact fun _ => (Db.stamped_importTasks _ _ _ _ _ _ _ htasks).events

theorem fewer_deleteTaskWithSnapshot (octets : Snapshot → Nat) (locked validated : Bool) (task : Uuid)
    (expectedVersion : Int) : Tx.Within Fewer (deleteTaskWithSnapshot octets locked validated task expectedVersion) := by
  intro w receipt w' h
  obtain ⟨row, s, held, mapping, w₁, w₂, -, -, -, rfl, -, -, -, rfl, -, rfl⟩ := deleteTaskWithSnapshot_ok h
  intro e he
  have hmem : e ∈ (heldBack row held w.db).events := (mem_delete.1 he).1
  unfold heldBack at hmem
  cases held <;> exact hmem

theorem stamped_undoTaskDelete (locked : Bool) (validation : Except AppError Unit) (receipt : Uuid) :
    Tx.Within Stamped (undoTaskDelete locked validation receipt) := by
  intro w a w' h
  obtain ⟨u, s, -, -, -, -, rfl⟩ := undoTaskDelete_ok h
  have hevents : (restoreDb s w.db).events = (restoreEvent s (w.db.insertTask (restoredTask w.db.now s.task))).events := by
    obtain ⟨tasks, hrelinked⟩ := relinkSuccessors_eq s (restoreEvent s (w.db.insertTask (restoredTask w.db.now s.task)))
    unfold restoreDb
    rw [hrelinked]
    unfold restoreMapping
    cases s.mapping <;> rfl
  intro _ e he
  have hrestored : e ∈ (restoreEvent s (w.db.insertTask (restoredTask w.db.now s.task))).events := hevents ▸ he
  unfold restoreEvent at hrestored
  cases hs : s.event with
  | none =>
    rw [hs] at hrestored
    exact .inl hrestored
  | some x =>
    rw [hs] at hrestored
    rcases List.mem_append.1 hrestored with hmem | hmem
    · exact .inl hmem
    · rw [List.mem_singleton.1 hmem]
      exact .inr rfl

theorem stamped_moveCalendarItem (locked : Bool) (item : Uuid) (isTask : Bool) (r : MoveCalendarItemRequest) :
    Tx.Within Stamped (moveCalendarItem locked item isTask r) := by
  intro w receipt w' h
  obtain ⟨e, task, w₁, -, -, -, -, rfl, rfl⟩ := moveCalendarItem_ok h
  exact fun _ => (Db.stamped_moveEvent e r.startsAt r.endsAt (movedTask task r.startsAt r.endsAt)).events

theorem stamped_undoCalendarMove (locked : Bool) (receipt : Uuid) : Tx.Within Stamped (undoCalendarMove locked receipt) := by
  intro w a w' h
  obtain ⟨inverse, e, task, w₁, -, -, -, -, -, -, -, -, rfl, rfl⟩ := undoCalendarMove_ok h
  exact fun _ => (Db.stamped_moveEvent e inverse.startsAt inverse.endsAt
    (inverse.taskId.map fun id => (id, inverse.taskStartsAt, inverse.taskEndsAt))).events

end Operations

/-! ## Steps and runs -/

theorem stamped_action (env : Env) (a : Action) : Tx.Within Stamped (a.tx env) := by
  cases a with
  | tick now => exact .write fun w _ e he => .inl he
  | createProject r =>
    exact stamped_void (stamped_fewer (.bind (R := Fewer) Fewer.trans (.ofExcept .refl _) fun _ => fewer_insertProject r))
  | updateProject project r => exact stamped_quiet (quiet_void (quiet_updateProject project r))
  | deleteProject project version => exact stamped_fewer (fewer_deleteProject project version)
  | importTodoistProject r => exact stamped_void (stamped_importTodoistProject _ r)
  | importGoogleTask title deadline completed =>
    refine stamped_void (stamped_fewer (fewer_onDb ?_))
    intro db a db' h
    unfold Store.importGoogleTask at h
    split at h
    · cases h
      exact .refl _
    · rw [Tx.read_bind_run, Tx.write_bind_run] at h
      cases h
      exact fun _ he => he
  | createTask r => exact stamped_void (stamped_tx (Db.stamped_createTask _ r))
  | updateTask task r scope => exact stamped_void (stamped_tx (Db.stamped_updateTaskScoped _ task r scope))
  | reorderTasks taskIds =>
    exact stamped_fewer (fewer_onDb fun db a db' h e he => (Db.quiet_reorderTasks taskIds db a db' h).events ▸ he)
  | deleteTask task version =>
    refine stamped_fewer (fewer_onDb fun db a db' h => ?_)
    obtain ⟨row, -, -, -, rfl⟩ := deleteTask_ok h
    exact fun e he => Db.removeTaskCalendarEvent_events (mem_delete.1 he).1
  | deleteTaskWithUndo locked validated task version =>
    exact stamped_void (stamped_fewer (fewer_deleteTaskWithSnapshot env.octets locked validated task version))
  | undoTaskDelete locked validation receipt => exact stamped_undoTaskDelete locked validation receipt
  | cleanupTaskDeleteUndos => exact stamped_fewer (fewer_writeDb fun _ => rfl)
  | createEvent r => exact stamped_void (stamped_tx (Db.stamped_createCalendarEvent _ r))
  | updateEvent event r => exact stamped_void (stamped_tx (Db.stamped_updateCalendarEvent _ event r))
  | deleteEvent event version => exact stamped_tx (Db.stamped_deleteCalendarEvent event version)
  | moveCalendarItem locked item isTask r => exact stamped_void (stamped_moveCalendarItem locked item isTask r)
  | undoCalendarMove locked receipt => exact stamped_undoCalendarMove locked receipt
  | cleanupMoves => exact stamped_fewer (fewer_write fun _ => rfl)
  | createCalendar name color => exact stamped_void (stamped_fewer (fewer_createCalendar _ name color))
  | updateCalendar calendar r => exact stamped_fewer (fewer_updateCalendar _ calendar r)
  | deleteCalendar calendar version => exact stamped_fewer (fewer_deleteCalendar calendar version)
  | connectGoogle account => exact stamped_fewer (fewer_write fun _ => rfl)
  | revokeGoogleIntegration => exact stamped_fewer fewer_revokeGoogleIntegration
  | discoverCalendar entry => exact stamped_fewer (fewer_upsertGoogleCalendar entry)
  | migrateScheduledTasks => exact stamped_tx Db.stamped_migrateScheduledTasks
  | createNote r => exact stamped_quiet (quiet_void (quiet_createNote r))
  | updateNote note r => exact stamped_quiet (quiet_void (quiet_updateNote note r))
  | deleteNote note version => exact stamped_quiet (quiet_deleteNote note version)
  | createFile others r => exact stamped_quiet (quiet_void (quiet_createFileMetadata others r))
  | deleteFile file => exact stamped_quiet (quiet_void (quiet_deleteFileMetadata file))
  | updateDailyFocus date taskIds => exact stamped_quiet (quiet_updateDailyFocus date taskIds)
  | startDailyReview date manual => exact stamped_quiet (quiet_void (quiet_startDailyReview date manual))
  | completeDailyReview date version decisions =>
    exact stamped_quiet (quiet_void (quiet_completeDailyReview date version decisions))
  | resolveSyncConflict locked conflict resolution =>
    refine stamped_void (stamped_onDb fun db a db' h hv => ?_)
    obtain ⟨c, m, r, -, -, -, -, -, undos, jobs, rfl⟩ := resolveSyncConflict_ok hv h
    exact fun e he => .inl he
  | setSyncConflictPolicy policy =>
    refine stamped_fewer (fewer_onDb ?_)
    unfold Store.setSyncConflictPolicy
    refine .bind (R := Db.Fewer) Db.Fewer.trans (.read .refl) fun db => ?_
    cases db.policy with
    | none => exact .raise _
    | some _ => exact .write fun _ _ he => he
  | requestSync calendar key => exact stamped_fewer (fewer_enqueueSync calendar key)
  | sync s =>
    show Tx.Within Stamped (onDb (Tx.write fun db => (s.exec db).2))
    refine stamped_onDb fun db a db' h _ => ?_
    cases h
    exact Db.stamped_exec s db

theorem stamped_perform (env : Env) (a : Action) (w : Workspace) : w.Stamped (a.perform env w) :=
  Tx.Within.commit (fun _ => (Fewer.refl _).stamped) (stamped_action env a) w

end Workspace

/-- When the row of an event, and the event of a mapping, was last changed. -/
structure Clock where
  event : Uuid → DateTime
  mapping : Uuid → DateTime

/-- A change of a row is at the time before the step. -/
def Clock.step (c : Clock) (w w' : Workspace) : Clock where
  event id := if w'.db.event? id = w.db.event? id then c.event id else w.db.now
  mapping id :=
    if (w'.db.mapping? id).map (·.canonicalEventId) = (w.db.mapping? id).map (·.canonicalEventId) then c.mapping id
    else w.db.now

/-- A run from a new account, with the times of the last changes. -/
inductive Chronicle (env : Env) : Clock → Workspace → Prop
  | start (c : Clock) (now : DateTime) (nextId : Uuid) (policy : Option SyncConflictPolicy) (automatic : Bool) :
    Chronicle env c (.initial now nextId policy automatic)
  | step {c : Clock} {w : Workspace} (a : Action) : Chronicle env c w → Chronicle env (c.step w (a.perform env w)) (a.perform env w)

section

variable {env : Env} {c : Clock} {w : Workspace}

theorem Chronicle.movesValid (h : Chronicle env c w) : w.MovesValid := by
  induction h with
  | start => exact Workspace.movesValid_initial _ _ _ _
  | step a _ ih => exact (Workspace.onward_perform env a _ ih).1

/-- `updated_at` is the time of the last change of the row. -/
theorem Chronicle.updatedAt (h : Chronicle env c w) : ∀ e ∈ w.db.events, e.updatedAt = c.event e.id := by
  induction h with
  | start => exact fun _ he => nomatch he
  | @step c w a hist ih =>
    intro e he
    have hv := hist.movesValid
    have hv' := (Workspace.onward_perform env a w hv).1
    have hafter : (a.perform env w).db.event? e.id = some e := hv'.db.event?_eq_some.2 ⟨he, rfl⟩
    show e.updatedAt = if _ then _ else _
    split
    · rename_i hsame
      rw [hafter] at hsame
      exact ih e (hv.db.event?_eq_some.1 hsame.symm).1
    · rename_i hchanged
      rcases Workspace.stamped_perform env a w hv.db e he with hmem | hstamp
      · exact absurd (hafter.trans (hv.db.event?_eq_some.2 ⟨hmem, rfl⟩).symm) hchanged
      · exact hstamp

end

end Prosepect

/-
Every operation on the first tables keeps their constraints and lets events only grow older: an
event that stays keeps its id and its task, and its version never falls (`Aged`).
-/
import Prosepect.Calendar.StatementFacts
import Prosepect.Store.TaskRuns

namespace Prosepect

open Resumption Table Time Store

namespace Db

/-- What of events only goes one way. -/
structure Later (db db' : Db) : Prop where
  nextId : db.nextId ≤ db'.nextId
  events : ∀ e' ∈ db'.events, db.nextId ≤ e'.id ∨
    ∃ e ∈ db.events, e.id = e'.id ∧ e.linkedTaskId = e'.linkedTaskId ∧ e.version ≤ e'.version

def Aged (db db' : Db) : Prop := db.Valid → db'.Valid ∧ db.Later db'

variable {db db' : Db}

theorem Later.refl (db : Db) : db.Later db := ⟨le_rfl, fun e he => .inr ⟨e, he, rfl, rfl, le_rfl⟩⟩

theorem Later.trans {a b c : Db} (h : a.Later b) (h' : b.Later c) : a.Later c where
  nextId := h.nextId.trans h'.nextId
  events := by
    intro e'' he''
    rcases h'.events e'' he'' with hn | ⟨e', he', hid', hlink', hv'⟩
    · exact .inl (h.nextId.trans hn)
    · rcases h.events e' he' with hn | ⟨e, he, hid, hlink, hv⟩
      · exact .inl (hid' ▸ hn)
      · exact .inr ⟨e, he, hid.trans hid', hlink.trans hlink', hv.trans hv'⟩

theorem Aged.refl (db : Db) : db.Aged db := fun h => ⟨h, .refl db⟩

theorem Aged.trans {a b c : Db} (h : a.Aged b) (h' : b.Aged c) : a.Aged c := by
  intro ha
  obtain ⟨hb, hab⟩ := h ha
  obtain ⟨hc, hbc⟩ := h' hb
  exact ⟨hc, hab.trans hbc⟩

/-- Events go, or stay as they are. -/
theorem later_of_subset (hn : db.nextId ≤ db'.nextId) (he : ∀ e ∈ db'.events, e ∈ db.events) : db.Later db' :=
  ⟨hn, fun e h => .inr ⟨e, he e h, rfl, rfl, le_rfl⟩⟩

/-- An edit that writes no event. -/
theorem Edit.aged (h : Edit db db') (he : ∀ e ∈ db'.events, e ∈ db.events) : db.Aged db' := by
  intro hv
  obtain ⟨hv', hedited⟩ := h hv
  exact ⟨hv', later_of_subset hedited.nextId he⟩

/-- An edit that writes one event, which is new or has a higher version. -/
theorem Edit.aged_one (h : Edit db db') {x : CalendarEvent}
    (hx : x.id = db.nextId ∨ ∃ e ∈ db.events, e.id = x.id ∧ e.linkedTaskId = x.linkedTaskId ∧ e.version ≤ x.version)
    (he : ∀ e ∈ db'.events, e ∈ db.events ∨ e = x) : db.Aged db' := by
  intro hv
  obtain ⟨hv', hedited⟩ := h hv
  refine ⟨hv', hedited.nextId, fun e hmem => ?_⟩
  rcases he e hmem with hmem | rfl
  · exact .inr ⟨e, hmem, rfl, rfl, le_rfl⟩
  · exact hx.imp_left fun hid => Nat.le_of_eq hid.symm

theorem aged_same (hc : db'.calendars = db.calendars) (he : db'.events = db.events) (hm : db'.mappings = db.mappings)
    (hk : db'.conflicts = db.conflicts) (hn : db.nextId ≤ db'.nextId) : db.Aged db' :=
  fun h => ⟨h.congr hc he hm hk hn, later_of_subset hn fun _ hmem => he ▸ hmem⟩

theorem Quiet.aged (h : db.Quiet db') : db.Aged db' := aged_same h.calendars h.events h.mappings h.conflicts h.nextId

theorem aged_insertTask (row : TaskRow) : db.Aged (db.fresh.insertTask row) := aged_same rfl rfl rfl rfl (Nat.le_succ _)

theorem aged_updateTask (id : Uuid) (f : TaskRow → TaskRow) : db.Aged (db.updateTask id f) :=
  aged_same rfl rfl rfl rfl le_rfl

theorem aged_ensureLabels (labels : List String) : db.Aged (ensureLabels labels db) := aged_same rfl rfl rfl rfl le_rfl

theorem aged_enqueue (calendar : Option Uuid) (kind key : String) : db.Aged (db.enqueue calendar kind key) := by
  unfold enqueue
  split <;> exact aged_same rfl rfl rfl rfl (Nat.le_succ _)

theorem aged_deleteTask (id : Uuid) : db.Aged (db.deleteTask id) :=
  (edit_deleteTask id).aged fun _ he => (mem_delete.1 he).1

theorem aged_preferredTimeBlockCalendar : db.Aged (preferredTimeBlockCalendar db).2 :=
  edit_preferredTimeBlockCalendar.aged fun e he => by rwa [preferredTimeBlockCalendar_events] at he

/-! ## Tasks -/

theorem removeTaskCalendarEvent_events {task : Uuid} {e : CalendarEvent}
    (he : e ∈ (removeTaskCalendarEvent task db).events) : e ∈ db.events := by
  unfold removeTaskCalendarEvent at he
  split at he
  · have hmem := (mem_delete.1 he).1
    rwa [markEventForSync_events] at hmem
  · exact he

theorem aged_removeTaskCalendarEvent (task : Uuid) : db.Aged (removeTaskCalendarEvent task db) :=
  (edit_removeTaskCalendarEvent task).aged fun _ he => removeTaskCalendarEvent_events he

/-- The event of a scheduled task is the one it had, or a new one. -/
theorem placed_from (task : Task) (startsAt endsAt : DateTime) : db.nextId ≤ (placed task startsAt endsAt db).1.id ∨
    ∃ e ∈ db.events, e.id = (placed task startsAt endsAt db).1.id ∧
      e.linkedTaskId = (placed task startsAt endsAt db).1.linkedTaskId ∧
      e.version ≤ (placed task startsAt endsAt db).1.version := by
  unfold placed upsertTaskEvent
  split
  · rename_i e he
    have hmem := (taskEvent?_mem he).1
    rw [unplaced_events, preferredTimeBlockCalendar_events] at hmem
    exact .inr ⟨e, hmem, rfl, rfl, Int.le_add_one le_rfl⟩
  · exact .inl (beside_preferredTimeBlockCalendar.trans (beside_unplaced task.id _)).nextId

theorem aged_syncTaskCalendarEvent (task : Task) : Tx.Within Aged (syncTaskCalendarEvent task) := by
  intro db a db' h hv
  obtain ⟨hv', hedited⟩ := edits_syncTaskCalendarEvent task db a db' h hv
  refine ⟨hv', hedited.nextId, fun e he => ?_⟩
  rcases syncTaskCalendarEvent_ok h with ⟨startsAt, endsAt, -, -, -, rfl⟩ | ⟨-, rfl⟩
  · rw [markEventForSync_events] at he
    rcases mem_placed_events he with he | rfl
    · exact .inr ⟨e, he, rfl, rfl, le_rfl⟩
    · exact placed_from task startsAt endsAt
  · exact .inr ⟨e, removeTaskCalendarEvent_events he, rfl, rfl, le_rfl⟩

theorem aged_createTask (toLowercase : String → String) (r : CreateTaskRequest) :
    Tx.Within Aged (createTask toLowercase r) := by
  intro db a db' h
  obtain ⟨labels, row, mid, -, -, -, -, -, -, rfl, hsync⟩ := createTask_ok h
  exact ((aged_insertTask row).trans (aged_ensureLabels labels)).trans (aged_syncTaskCalendarEvent _ _ _ _ hsync)

theorem aged_removeNextOccurrenceForReopen (task : Uuid) : Tx.Within Aged (removeNextOccurrenceForReopen task) := by
  intro db a db' h
  rcases removeNextOccurrenceForReopen_ok h with ⟨-, rfl⟩ | ⟨next, -, -, -, rfl⟩
  · exact .refl _
  · exact aged_deleteTask next.id

theorem aged_createNextRecurringTask (task : Uuid) : Tx.Within Aged (createNextRecurringTask task) := by
  intro db a db' h
  obtain ⟨row, dueAt, nextDueAt, next, mid, -, -, -, -, -, -, rfl, hsync⟩ := createNextRecurringTask_ok h
  exact ((aged_ensureLabels _).trans (aged_insertTask next)).trans (aged_syncTaskCalendarEvent _ _ _ _ hsync)

theorem aged_updateTaskScoped (toLowercase : String → String) (task : Uuid) (r : UpdateTaskRequest)
    (scope : Option RecurrenceEditScope) : Tx.Within Aged (updateTaskScoped toLowercase task r scope) := by
  intro db a db' h
  obtain ⟨row, updated, -, hu⟩ := updateTaskScoped_ok h
  obtain ⟨db₁, db₂, hreopen, hsync, hnext⟩ := hu.steps
  have h1 : db.Aged db₁ := by
    rcases ite_pure_ok hreopen with ⟨-, hr⟩ | ⟨-, rfl⟩
    · exact aged_removeNextOccurrenceForReopen task _ _ _ hr
    · exact .refl _
  have h2 : db₁.Aged db₂ := by
    refine Aged.trans ?_ (aged_syncTaskCalendarEvent _ _ _ _ hsync)
    exact (aged_updateTask task _).trans (aged_ensureLabels _)
  have h3 : db₂.Aged db' := by
    rcases ite_pure_ok hnext with ⟨-, hn⟩ | ⟨-, rfl⟩
    · exact aged_createNextRecurringTask task _ _ _ hn
    · exact .refl _
  exact h1.trans (h2.trans h3)

theorem aged_deleteTaskTx (task : Uuid) (expectedVersion : Int) : Tx.Within Aged (Store.deleteTask task expectedVersion) := by
  intro db a db' h
  obtain ⟨row, -, -, -, rfl⟩ := deleteTask_ok h
  exact (aged_removeTaskCalendarEvent task).trans (aged_deleteTask task)

theorem aged_importGoogleTask (title : String) (deadline : Option DateTime) (completed : Bool) :
    Tx.Within Aged (importGoogleTask title deadline completed) := by
  intro db a db' h
  unfold importGoogleTask at h
  split at h
  · cases h
    exact .refl _
  · rw [Tx.read_bind_run, Tx.write_bind_run] at h
    cases h
    exact aged_insertTask _

theorem aged_importTasks (project : Uuid) : ∀ (rest : List (TodoistImportTask × List String)) (position : Int)
    (taskIds : List Uuid), Tx.Within Aged (importTasks project position taskIds rest)
  | [], _, _ => .pure Aged.refl _
  | (task, labels) :: rest, position, taskIds => by
    intro db a db' h
    obtain ⟨row, db₁, -, hsync, h⟩ := importTasks_cons_ok h
    have h1 : db.Aged db₁ :=
      ((aged_insertTask row).trans (aged_ensureLabels labels)).trans (aged_syncTaskCalendarEvent _ _ _ _ hsync)
    exact h1.trans (aged_importTasks project rest _ _ _ _ _ h)

theorem aged_reorderTasks (taskIds : List Uuid) : Tx.Within Aged (reorderTasks taskIds) :=
  fun db a db' h => (quiet_reorderTasks taskIds db a db' h).aged

/-! ## Projects -/

theorem aged_removeProjectEvents (project : Uuid) : db.Aged (removeProjectEvents project db) := by
  have hfold : ∀ (l : List TaskRow) (db : Db), db.Aged (l.foldl (fun db t => removeTaskCalendarEvent t.id db) db) := by
    intro l
    induction l with
    | nil => exact Aged.refl
    | cons t l ih => exact fun db => (aged_removeTaskCalendarEvent t.id).trans (ih _)
  exact hfold _ db

theorem aged_deleteProject (project : Uuid) : db.Aged (db.deleteProject project) := by
  have hevents : db.Aged (db.deleteEvents fun e => e.linkedTaskId.any fun id =>
      has (fun t : TaskRow => t.projectId == some project && t.id == id) db.tasks) :=
    (edit_deleteEvents _).aged fun _ he => (mem_delete.1 he).1
  exact hevents.trans (aged_same rfl rfl rfl rfl le_rfl)

/-! ## Events -/

/-- The row of an event is replaced by an older version of it. -/
theorem mem_updateEvent {id : Uuid} {x e : CalendarEvent} (he : e ∈ (db.updateEvent id fun _ => x).events) :
    e ∈ db.events ∨ e = x := by
  rcases mem_update.1 he with ⟨he, -⟩ | ⟨-, -, -, rfl⟩
  · exact .inl he
  · exact .inr rfl

theorem aged_createCalendarEvent (toLowercase : String → String) (r : CreateCalendarEventRequest) :
    Tx.Within Aged (createCalendarEvent toLowercase r) := by
  intro db event db' h
  obtain ⟨attendees, -, -, hevent, -, rfl⟩ := createCalendarEvent_ok h
  have hid : event.id = db.nextId := by rw [hevent]; rfl
  refine (edits_createCalendarEvent toLowercase r db event _ h).aged_one (.inl hid) fun e he => ?_
  rw [markEventForSync_events] at he
  rcases List.mem_append.1 he with he | he
  · exact .inl he
  · exact .inr (List.mem_singleton.1 he)

/-- Marks and the schedule of a task are written in other tables. -/
theorem changeEvent_events (previous event : CalendarEvent) :
    (changeEvent previous event db).events = (db.updateEvent event.id fun _ => event).events := by
  have hreschedule : ∀ {d : Db}, (reschedule event d).events = d.events := by
    intro d
    unfold reschedule
    split <;> rfl
  unfold changeEvent
  dsimp only
  rw [markEventForSync_events]
  split
  · unfold detachEventMapping
    simp only [updateMappings, markEventForSync_events, hreschedule]
  · rw [hreschedule]

theorem aged_updateCalendarEvent (toLowercase : String → String) (id : Uuid) (r : UpdateCalendarEventRequest) :
    Tx.Within Aged (updateCalendarEvent toLowercase id r) := by
  intro db event db' h
  obtain ⟨previous, attendees, -, hp, -, -, hevent, -, rfl⟩ := updateCalendarEvent_ok h
  obtain ⟨hmem, hid⟩ := event?_mem hp
  refine (edits_updateCalendarEvent toLowercase id r db event _ h).aged_one (.inr ⟨previous, hmem, ?_, ?_, ?_⟩) fun e he =>
    mem_updateEvent (by rwa [changeEvent_events] at he)
  · rw [hevent, hid]
    rfl
  · rw [hevent]
  · rw [hevent]
    exact Int.le_add_one le_rfl

theorem aged_deleteCalendarEvent (id : Uuid) (expectedVersion : Int) :
    Tx.Within Aged (deleteCalendarEvent id expectedVersion) := by
  intro db a db' h
  refine (edits_deleteCalendarEvent id expectedVersion db a db' h).aged fun e he => ?_
  obtain ⟨existing, -, -, rfl⟩ := deleteCalendarEvent_ok h
  unfold dropEvent at he
  dsimp only at he
  have hdeleted : e ∈ ((markEventForSync existing true db).deleteEvent existing.id).events := by
    split at he
    · exact he
    · exact he
  have hmem := (mem_delete.1 hdeleted).1
  rwa [markEventForSync_events] at hmem

/-- An event that is moved, with the times of its task. -/
theorem aged_moveEvent {e : CalendarEvent} (he : e ∈ db.events) (startsAt endsAt : DateTime)
    (task : Option (Uuid × Option DateTime × Option DateTime)) : db.Aged (moveEvent e startsAt endsAt task db) := by
  intro hv
  let moved : CalendarEvent := { e with startsAt := startsAt, endsAt := endsAt, updatedAt := db.now, version := e.version + 1 }
  have hwrite : ∃ tasks, (writeSchedule e startsAt endsAt task db).2 = { db.updateEvent e.id fun _ => moved with tasks := tasks } := by
    unfold writeSchedule
    cases task with
    | none => exact ⟨_, rfl⟩
    | some x => exact ⟨_, rfl⟩
  have hfst : (writeSchedule e startsAt endsAt task db).1 = moved := by
    unfold writeSchedule
    cases task <;> rfl
  have hedit : Edit db (moveEvent e startsAt endsAt task db) := by
    have hwritten : Edit db (markEventForSync moved false (if e.calendarId ≠ moved.calendarId
        then detachEventMapping e (markEventForSync e true (writeSchedule e startsAt endsAt task db).2)
        else (writeSchedule e startsAt endsAt task db).2)) :=
      edit_writtenEvent he rfl rfl (hv.eventCalendar e he) hwrite
    have hstays : ¬ e.calendarId ≠ moved.calendarId := fun hne => hne rfl
    rw [if_neg hstays] at hwritten
    unfold moveEvent
    rwa [hfst]
  refine hedit.aged_one (x := moved) (.inr ⟨e, he, rfl, rfl, Int.le_add_one le_rfl⟩) (fun x hx => ?_) hv
  unfold moveEvent at hx
  rw [markEventForSync_events] at hx
  obtain ⟨tasks, htasks⟩ := hwrite
  rw [htasks] at hx
  exact mem_updateEvent hx

/-! ## Calendars, conflicts and settings -/

theorem valid_insertCalendar (h : db.Valid) {c : Calendar} (hid : c.id = db.nextId) :
    Valid { db.fresh with calendars := db.calendars ++ [c] } := by
  refine { h.fresh with calendarIds := ?_, calendarsUsed := ?_, eventCalendar := ?_ }
  · refine h.calendarIds.insert ?_
    rintro k hk x hx hxk
    have hlt := h.calendarsUsed x hx
    rw [Option.some.inj hxk, ← Option.some.inj hk, hid] at hlt
    exact lt_irrefl _ hlt
  · intro x hx
    rcases List.mem_append.1 hx with hx | hx
    · exact Nat.lt_succ_of_lt (h.calendarsUsed x hx)
    · rw [List.mem_singleton.1 hx, hid]
      exact Nat.lt_succ_self _
  · intro e he
    obtain ⟨x, hx, hxe⟩ := h.eventCalendar e he
    exact ⟨x, List.mem_append_left _ hx, hxe⟩

theorem aged_insertCalendar {c : Calendar} (hid : c.id = db.nextId) :
    db.Aged { db.fresh with calendars := db.calendars ++ [c] } :=
  fun h => ⟨valid_insertCalendar h hid, later_of_subset (Nat.le_succ _) fun _ he => he⟩

theorem aged_updateCalendar (id : Uuid) {f : Calendar → Calendar} (hf : ∀ c, (f c).id = c.id) :
    db.Aged (db.updateCalendar id f) :=
  fun h => ⟨h.updateCalendar id hf, later_of_subset le_rfl fun _ he => he⟩

/-- No event is left in a calendar that goes. -/
theorem aged_deleteCalendars (p : Calendar → Bool) : db.Aged (db.deleteCalendars p) := by
  intro h
  have hv := (h.deleteEvents fun e => has (fun c : Calendar => p c && c.id == e.calendarId) db.calendars).deleteMappings
    fun m => has (fun c : Calendar => p c && c.id == m.calendarId) db.calendars
  refine ⟨{ hv with calendarIds := ?_, calendarsUsed := ?_, eventCalendar := ?_ },
    later_of_subset le_rfl fun _ he => (mem_delete.1 he).1⟩
  · exact h.calendarIds.delete p
  · exact fun c hc => h.calendarsUsed c (mem_delete.1 hc).1
  · intro e he
    obtain ⟨hmem, hstays⟩ := mem_delete.1 he
    obtain ⟨c, hc, hce⟩ := h.eventCalendar e hmem
    refine ⟨c, mem_delete.2 ⟨hc, ?_⟩, hce⟩
    have := has_eq_false_iff.1 hstays c hc
    simpa [hce] using this

theorem aged_migrateScheduledTasks : Tx.Within Aged migrateScheduledTasksToPreferredCalendar := by
  unfold migrateScheduledTasksToPreferredCalendar
  refine .bind (R := Aged) Aged.trans (.read .refl) fun _ => ?_
  refine .bind (R := Aged) Aged.trans (.write fun _ => aged_preferredTimeBlockCalendar) fun _ => ?_
  refine .bind (R := Aged) Aged.trans (.read .refl) fun _ => ?_
  exact Tx.Within.each (R := Aged) Aged.refl Aged.trans fun (t : TaskRow) _ => aged_syncTaskCalendarEvent t.toTask

theorem aged_enqueueSync (calendar : Uuid) (key : String) : Tx.Within Aged (enqueueSync calendar key) := by
  unfold enqueueSync
  refine .ite (fun _ => .raise _) fun _ => .bind (R := Aged) Aged.trans (.read .refl) fun _ => ?_
  exact .ite (fun _ => .raise _) fun _ => .write fun _ => aged_enqueue _ _ _

theorem aged_setSyncConflictPolicy (policy : SyncConflictPolicy) : Tx.Within Aged (setSyncConflictPolicy policy) := by
  unfold setSyncConflictPolicy
  refine .bind (R := Aged) Aged.trans (.read .refl) fun db => ?_
  cases db.policy with
  | none => exact .raise _
  | some _ => exact .write fun _ => aged_same rfl rfl rfl rfl le_rfl

theorem aged_resolveSyncConflict (locked : Bool) (conflict : Uuid) (resolution : String) :
    Tx.Within Aged (resolveSyncConflict locked conflict resolution) := by
  intro db a db' h hv
  refine ⟨Valid.resolve hv h, ?_⟩
  obtain ⟨c, m, r, -, -, -, -, -, undos, jobs, rfl⟩ := resolveSyncConflict_ok hv h
  exact later_of_subset (Nat.le_succ _) fun _ he => he

/-! ## Statements of a synchronization -/

theorem aged_exec (s : Stmt) (db : Db) : db.Aged (s.exec db).2 := by
  intro hv
  refine ⟨s.exec_valid hv, ?_⟩
  rcases unread_exec s db with h | ⟨event, -, h⟩ | ⟨event, calendar, content, -, h⟩ | ⟨calendar, content, -, h⟩
  · exact later_of_subset h.nextId fun _ he => h.events ▸ he
  · rw [h]
    refine later_of_subset ?_ fun e he => ?_
    · unfold deleteCanonicalEvent
      split <;> exact le_rfl
    · unfold deleteCanonicalEvent at he
      split at he
      · exact (mem_delete.1 he).1
      · exact (mem_delete.1 he).1
  · -- the row has a new version, and keeps its task
    rcases updateCanonicalEvent_ok h with ⟨-, heq⟩ | ⟨e, -, -, -, tasks, heq⟩
    · rw [heq]
      exact .refl db
    · rw [heq]
      refine ⟨le_rfl, fun x hx => .inr ?_⟩
      rcases mem_update.1 hx with ⟨hx, -⟩ | ⟨y, hy, -, rfl⟩
      · exact ⟨x, hx, rfl, rfl, le_rfl⟩
      · exact ⟨y, hy, rfl, rfl, Int.le_add_one le_rfl⟩
  · obtain ⟨-, -, heq⟩ := insertCanonicalEvent_ok h
    rw [heq]
    refine ⟨Nat.le_succ _, fun x hx => ?_⟩
    rcases List.mem_append.1 hx with hx | hx
    · exact .inr ⟨x, hx, rfl, rfl, le_rfl⟩
    · rw [List.mem_singleton.1 hx]
      exact .inl le_rfl

end Db

end Prosepect

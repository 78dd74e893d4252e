/-
What operations on tasks do to their table: the rows that come and go, and the checks that were
passed. The events of tasks are written beside it (`Beside`).
-/
import Prosepect.Store.Edits

namespace Prosepect

open Resumption Table Time

namespace Db

/-- What the writes of events leave alone. -/
structure Beside (db db' : Db) : Prop where
  tasks : db'.tasks = db.tasks
  projects : db'.projects = db.projects
  undos : db'.undos = db.undos
  now : db'.now = db.now
  timezone : db'.timezone = db.timezone
  nextId : db.nextId ≤ db'.nextId

theorem Beside.refl (db : Db) : db.Beside db := ⟨rfl, rfl, rfl, rfl, rfl, le_rfl⟩

theorem Beside.trans {a b c : Db} (h : a.Beside b) (h' : b.Beside c) : a.Beside c where
  tasks := h'.tasks.trans h.tasks
  projects := h'.projects.trans h.projects
  undos := h'.undos.trans h.undos
  now := h'.now.trans h.now
  timezone := h'.timezone.trans h.timezone
  nextId := h.nextId.trans h'.nextId

theorem Beside.task? {db db' : Db} (h : db.Beside db') (id : Uuid) : db'.task? id = db.task? id := by
  unfold Db.task?
  rw [h.tasks]

end Db

namespace Store

open Db

variable {db db' : Db}

/-! ## Beside the tasks -/

theorem beside_markEventForSync (event : CalendarEvent) (deleted : Bool) :
    db.Beside (markEventForSync event deleted db) := by
  obtain ⟨_, heq⟩ := markEventForSync_eq db event deleted
  rw [heq]
  refine ⟨rfl, rfl, rfl, rfl, rfl, ?_⟩
  show db.nextId ≤ if (db.calendar? event.calendarId).map (·.source) = some .google then db.nextId + 1 else db.nextId
  split
  · exact Nat.le_succ _
  · exact le_rfl

theorem beside_removeTaskCalendarEvent (task : Uuid) : db.Beside (removeTaskCalendarEvent task db) := by
  unfold removeTaskCalendarEvent
  split
  · exact (beside_markEventForSync _ true).trans ⟨rfl, rfl, rfl, rfl, rfl, le_rfl⟩
  · exact .refl db

theorem beside_preferredTimeBlockCalendar : db.Beside (preferredTimeBlockCalendar db).2 := by
  unfold preferredTimeBlockCalendar ensureDefaultCalendar
  split
  · exact .refl db
  · split
    · exact .refl db
    · exact ⟨rfl, rfl, rfl, rfl, rfl, Nat.le_succ _⟩

/-! ## The event of a scheduled task -/

/-- The tables before the event of a task is written: the mapping it had in another calendar is to
be deleted. -/
def unplaced (task calendar : Uuid) (db : Db) : Db :=
  match db.taskEvent? task with
  | some e => if e.calendarId ≠ calendar then detachEventMapping e (markEventForSync e true db) else db
  | none => db

/-- The event of a scheduled task, and the tables with it. -/
def placed (task : Task) (startsAt endsAt : DateTime) (db : Db) : CalendarEvent × Db :=
  upsertTaskEvent task (preferredTimeBlockCalendar db).1 startsAt endsAt
    (unplaced task.id (preferredTimeBlockCalendar db).1 (preferredTimeBlockCalendar db).2)

theorem taskEvent?_preferred (task : Uuid) : (preferredTimeBlockCalendar db).2.taskEvent? task = db.taskEvent? task := by
  unfold taskEvent?
  rw [preferredTimeBlockCalendar_events]

/-- The event of a scheduled task is written if the constraints allow it. -/
theorem syncTaskCalendarEvent_scheduled {task : Task} {startsAt endsAt : DateTime}
    (hs : task.scheduledStart = some startsAt) (he : task.scheduledEnd = some endsAt) :
    syncTaskCalendarEvent task db = (check (Db.checkEvent (placed task startsAt endsAt db).1.toLocalEvent) >>= fun _ =>
      Tx.write fun _ => markEventForSync (placed task startsAt endsAt db).1 false (placed task startsAt endsAt db).2) db := by
  have hcheck : ∀ (x : Except SqlError Unit) (f g : Db → Db) (u v : Db), f u = g v →
      (check x >>= fun _ => Tx.write f) u = (check x >>= fun _ => Tx.write g) v := by
    intro x f g u v hfg
    cases x with
    | ok _ => exact congrArg (fun z => Except.ok ((), z)) hfg
    | error e => rfl
  unfold syncTaskCalendarEvent
  simp only [hs, he, Tx.read_bind_run, Tx.write_bind_run]
  have htask : (preferredTimeBlockCalendar db).2.taskEvent? task.id = db.taskEvent? task.id := taskEvent?_preferred task.id
  cases hevent : db.taskEvent? task.id with
  | none =>
    have hw : unplaced task.id (preferredTimeBlockCalendar db).1 (preferredTimeBlockCalendar db).2 =
        (preferredTimeBlockCalendar db).2 := by
      unfold unplaced
      rw [htask, hevent]
    simp only [Tx.read_bind_run]
    unfold placed
    rw [hw]
    exact hcheck _ _ _ _ _ rfl
  | some e =>
    by_cases hmove : e.calendarId ≠ (preferredTimeBlockCalendar db).1
    · have hw : unplaced task.id (preferredTimeBlockCalendar db).1 (preferredTimeBlockCalendar db).2 =
          detachEventMapping e (markEventForSync e true (preferredTimeBlockCalendar db).2) := by
        unfold unplaced
        simp only [htask, hevent, if_pos hmove]
      simp only [if_pos hmove, Tx.write_bind_run, Tx.read_bind_run]
      unfold placed
      rw [hw]
      exact hcheck _ _ _ _ _ rfl
    · have hw : unplaced task.id (preferredTimeBlockCalendar db).1 (preferredTimeBlockCalendar db).2 =
          (preferredTimeBlockCalendar db).2 := by
        unfold unplaced
        simp only [htask, hevent, if_neg hmove]
      simp only [if_neg hmove, Tx.read_bind_run]
      unfold placed
      rw [hw]
      exact hcheck _ _ _ _ _ rfl

theorem syncTaskCalendarEvent_unscheduled {task : Task} (h : task.scheduledStart = none ∨ task.scheduledEnd = none) :
    syncTaskCalendarEvent task db = .ok ((), removeTaskCalendarEvent task.id db) := by
  unfold syncTaskCalendarEvent
  rcases h with h | h
  · rw [h]
    rfl
  · rw [h]
    cases task.scheduledStart with
    | none => rfl
    | some _ => rfl

/-- What a successful `sync_task_calendar_event` has done. -/
theorem syncTaskCalendarEvent_ok {task : Task} {a : Unit} (h : syncTaskCalendarEvent task db = .ok (a, db')) :
    (∃ startsAt endsAt, task.scheduledStart = some startsAt ∧ task.scheduledEnd = some endsAt ∧
      Db.checkEvent (placed task startsAt endsAt db).1.toLocalEvent = .ok () ∧
      db' = markEventForSync (placed task startsAt endsAt db).1 false (placed task startsAt endsAt db).2) ∨
    ((task.scheduledStart = none ∨ task.scheduledEnd = none) ∧ db' = removeTaskCalendarEvent task.id db) := by
  cases hs : task.scheduledStart with
  | none =>
    rw [syncTaskCalendarEvent_unscheduled (.inl hs)] at h
    cases h
    exact .inr ⟨.inl rfl, rfl⟩
  | some startsAt =>
    cases he : task.scheduledEnd with
    | none =>
      rw [syncTaskCalendarEvent_unscheduled (.inr he)] at h
      cases h
      exact .inr ⟨.inr rfl, rfl⟩
    | some endsAt =>
      rw [syncTaskCalendarEvent_scheduled hs he] at h
      cases hc : Db.checkEvent (placed task startsAt endsAt db).1.toLocalEvent with
      | error e =>
        rw [hc] at h
        cases h
      | ok _ =>
        rw [hc] at h
        cases h
        exact .inl ⟨startsAt, endsAt, rfl, rfl, hc, rfl⟩

theorem beside_unplaced (task calendar : Uuid) : db.Beside (unplaced task calendar db) := by
  unfold unplaced
  split
  · split
    · exact (beside_markEventForSync _ true).trans ⟨rfl, rfl, rfl, rfl, rfl, le_rfl⟩
    · exact .refl db
  · exact .refl db

theorem unplaced_events (task calendar : Uuid) : (unplaced task calendar db).events = db.events := by
  unfold unplaced
  split
  · split
    · exact markEventForSync_events _ true
    · rfl
  · rfl

/-- The event of a task is the one row that is written. -/
theorem mem_placed_events {task : Task} {startsAt endsAt : DateTime} {e : CalendarEvent}
    (he : e ∈ (placed task startsAt endsAt db).2.events) : e ∈ db.events ∨ e = (placed task startsAt endsAt db).1 := by
  have hold : ∀ {x : CalendarEvent}, x ∈ (unplaced task.id (preferredTimeBlockCalendar db).1
      (preferredTimeBlockCalendar db).2).events → x ∈ db.events := by
    intro x hx
    rwa [unplaced_events, preferredTimeBlockCalendar_events] at hx
  unfold placed upsertTaskEvent at he ⊢
  split at he
  · rcases mem_update.1 he with ⟨he, -⟩ | ⟨_, -, -, rfl⟩
    · exact .inl (hold he)
    · exact .inr rfl
  · rcases List.mem_append.1 he with he | he
    · exact .inl (hold he)
    · exact .inr (List.mem_singleton.1 he)

theorem beside_placed (task : Task) (startsAt endsAt : DateTime) : db.Beside (placed task startsAt endsAt db).2 := by
  refine beside_preferredTimeBlockCalendar.trans ((beside_unplaced task.id (preferredTimeBlockCalendar db).1).trans ?_)
  unfold placed upsertTaskEvent
  split
  · exact ⟨rfl, rfl, rfl, rfl, rfl, Nat.le_succ _⟩
  · exact ⟨rfl, rfl, rfl, rfl, rfl, Nat.le_succ _⟩

theorem beside_syncTaskCalendarEvent (task : Task) : Tx.Within Beside (syncTaskCalendarEvent task) := by
  intro db a db' h
  rcases syncTaskCalendarEvent_ok h with ⟨startsAt, endsAt, -, -, -, rfl⟩ | ⟨-, rfl⟩
  · exact (beside_placed task startsAt endsAt).trans (beside_markEventForSync _ false)
  · exact beside_removeTaskCalendarEvent task.id

/-! ## Tasks that come and go -/

theorem createTask_ok {toLowercase : String → String} {r : CreateTaskRequest} {a : Task}
    (h : createTask toLowercase r db = .ok (a, db')) :
    ∃ labels row mid, validateTaskFields r = .ok () ∧ validateLabels toLowercase r.labels = .ok labels ∧
      ¬ (r.recurrence ≠ .none ∧ r.status = .completed) ∧
      validateTaskRelationships r.projectId r.parentTaskId db = .ok () ∧
      row = { toTask := a, recurrenceSourceId := none, recurrenceDefaults := none, recurrenceProjectId := none } ∧
      a = { id := db.nextId, projectId := r.projectId, parentTaskId := r.parentTaskId, title := Text.trim r.title,
            description := Text.trim r.description, dueAt := r.dueAt, scheduledStart := r.scheduledStart,
            scheduledEnd := r.scheduledEnd, status := r.status, priority := r.priority, recurrence := r.recurrence,
            labels := labels, remindAt := r.remindAt, position := nextTaskPosition db,
            completedAt := if r.status = .completed then some db.now else none,
            createdAt := db.now, updatedAt := db.now, version := 1 } ∧
      mid = ensureLabels labels (db.fresh.insertTask row) ∧ syncTaskCalendarEvent a mid = .ok ((), db') := by
  unfold createTask at h
  obtain ⟨⟨⟩, hfields, h⟩ := Tx.ofExcept_bind_ok h
  obtain ⟨labels, hlabels, h⟩ := Tx.ofExcept_bind_ok h
  split at h
  · cases h
  · rename_i hcompleted
    rw [Tx.read_bind_run] at h
    obtain ⟨⟨⟩, hrelated, h⟩ := Tx.ofExcept_bind_ok h
    rw [Tx.write_bind_run] at h
    obtain ⟨_, u, hs, h⟩ := Tx.bind_ok h
    cases h
    exact ⟨labels, _, _, hfields, hlabels, hcompleted, hrelated, rfl, rfl, rfl, hs⟩

/-- The successor, when `removeNextOccurrenceForReopen` finds one, is untouched and goes. -/
theorem removeNextOccurrenceForReopen_ok {task : Uuid} {a : Unit}
    (h : removeNextOccurrenceForReopen task db = .ok (a, db')) :
    (db.tasks.find? (·.recurrenceSourceId == some task) = none ∧ db' = db) ∨
    ∃ next, db.tasks.find? (·.recurrenceSourceId == some task) = some next ∧ next.status = .todo ∧ next.version = 1 ∧
      db' = db.deleteTask next.id := by
  unfold removeNextOccurrenceForReopen at h
  rw [Tx.read_bind_run] at h
  cases hn : db.tasks.find? (·.recurrenceSourceId == some task) with
  | none =>
    simp only [hn] at h
    cases h
    exact .inl ⟨rfl, rfl⟩
  | some next =>
    simp only [hn] at h
    split at h
    · rename_i hopen
      cases h
      exact .inr ⟨next, rfl, hopen.1, hopen.2, rfl⟩
    · cases h

theorem createNextRecurringTask_ok {task : Uuid} {a : Unit} (h : createNextRecurringTask task db = .ok (a, db')) :
    ∃ row dueAt nextDueAt next mid, db.task? task = some row ∧ (successorSource row).dueAt = some dueAt ∧
      nextRecurrenceDate dueAt (successorSource row).recurrence = .ok nextDueAt ∧
      shiftable (successorSource row) (nextDueAt - dueAt) = true ∧
      Table.has (·.recurrenceSourceId == some (successorSource row).id) db.tasks = false ∧
      next = successor (successorSource row) db.nextId nextDueAt (nextDueAt - dueAt) (nextTaskPosition db) db.now ∧
      mid = (ensureLabels (successorSource row).labels db).fresh.insertTask next ∧
      syncTaskCalendarEvent next.toTask mid = .ok ((), db') := by
  unfold createNextRecurringTask at h
  rw [Tx.read_bind_run] at h
  cases ht : db.task? task with
  | none =>
    simp only [ht] at h
    cases h
  | some row =>
    simp only [ht, Tx.write_bind_run] at h
    cases hd : (successorSource row).dueAt with
    | none =>
      simp only [hd] at h
      cases h
    | some dueAt =>
      simp only [hd] at h
      obtain ⟨nextDueAt, hnext, h⟩ := Tx.ofExcept_bind_ok h
      rw [Tx.read_bind_run] at h
      split at h
      · cases h
      · rename_i hshift
        split at h
        · cases h
        · rename_i hsource
          rw [Tx.write_bind_run] at h
          exact ⟨row, dueAt, nextDueAt, _, _, rfl, hd, hnext, eq_true_of_ne_false hshift,
            eq_false_of_ne_true hsource, rfl, rfl, h⟩

/-- The steps of a successful update of a task. -/
structure Updated (toLowercase : String → String) (task : Uuid) (r : UpdateTaskRequest)
    (scope : Option RecurrenceEditScope) (db db' : Db) (row updated : TaskRow) : Prop where
  fields : validateTaskFields r.toCreateTaskRequest = .ok ()
  version : 1 ≤ r.expectedVersion
  parent : r.parentTaskId ≠ some task
  related : validateTaskRelationships r.projectId r.parentTaskId db = .ok ()
  updateRelated : validateTaskUpdateRelationships task r.projectId r.parentTaskId r.recurrence db = .ok ()
  found : db.task? task = some row
  written : ∃ labels prepared, validateLabels toLowercase r.labels = .ok labels ∧ prepare row r scope = .ok prepared ∧
    updated = updatedTask r labels prepared db.now row
  steps : ∃ db₁ db₂,
    (if row.status = .completed ∧ r.status ≠ .completed then removeNextOccurrenceForReopen task else pure ()) db =
      .ok ((), db₁) ∧
    syncTaskCalendarEvent updated.toTask (ensureLabels updated.labels (db₁.updateTask task fun _ => updated)) =
      .ok ((), db₂) ∧
    (if row.status ≠ .completed ∧ updated.status = .completed ∧ updated.recurrence ≠ .none
      then createNextRecurringTask task else pure ()) db₂ = .ok ((), db')

theorem removeNextOccurrenceForReopen_now {task : Uuid} {a : Unit}
    (h : removeNextOccurrenceForReopen task db = .ok (a, db')) : db'.now = db.now := by
  rcases removeNextOccurrenceForReopen_ok h with ⟨-, rfl⟩ | ⟨next, -, -, -, rfl⟩
  · rfl
  · rfl

theorem updateTaskScoped_ok {toLowercase : String → String} {task : Uuid} {r : UpdateTaskRequest}
    {scope : Option RecurrenceEditScope} {a : Task} (h : updateTaskScoped toLowercase task r scope db = .ok (a, db')) :
    ∃ row updated, a = updated.toTask ∧ Updated toLowercase task r scope db db' row updated := by
  unfold updateTaskScoped at h
  obtain ⟨⟨⟩, hfields, h⟩ := Tx.ofExcept_bind_ok h
  obtain ⟨labels, hlabels, h⟩ := Tx.ofExcept_bind_ok h
  split at h
  · cases h
  · rename_i hversion
    split at h
    · cases h
    · rename_i hparent
      rw [Tx.read_bind_run] at h
      obtain ⟨⟨⟩, hrelated, h⟩ := Tx.ofExcept_bind_ok h
      obtain ⟨⟨⟩, hupdate, h⟩ := Tx.ofExcept_bind_ok h
      cases ht : db.task? task with
      | none =>
        simp only [ht] at h
        cases h
      | some row =>
        simp only [ht] at h
        obtain ⟨prepared, hprepared, h⟩ := Tx.ofExcept_bind_ok h
        -- the two conditional steps, each with what follows it
        have hrest : ∀ db₁ : Db, db₁.now = db.now →
            (if row.status = .completed ∧ r.status ≠ .completed then removeNextOccurrenceForReopen task else pure ()) db =
              .ok ((), db₁) →
            (Tx.read >>= fun x => Tx.write (fun db => ensureLabels (updatedTask r labels prepared x.now row).labels
                (db.updateTask task fun _ => updatedTask r labels prepared x.now row)) >>= fun _ =>
              syncTaskCalendarEvent (updatedTask r labels prepared x.now row).toTask >>= fun _ =>
                if row.status ≠ .completed ∧ (updatedTask r labels prepared x.now row).status = .completed ∧
                    (updatedTask r labels prepared x.now row).recurrence ≠ .none
                then createNextRecurringTask task >>= fun _ => pure (updatedTask r labels prepared x.now row).toTask
                else pure (updatedTask r labels prepared x.now row).toTask) db₁ = .ok (a, db') →
            ∃ row updated, a = updated.toTask ∧ Updated toLowercase task r scope db db' row updated := by
          intro db₁ hnow hreopen hrun
          rw [Tx.read_bind_run, Tx.write_bind_run, hnow] at hrun
          obtain ⟨_, db₂, hsync, hrun⟩ := Tx.bind_ok hrun
          refine ⟨row, updatedTask r labels prepared db.now row, ?_, hfields, by omega, hparent, hrelated, hupdate, ht,
            ⟨labels, prepared, hlabels, hprepared, rfl⟩, db₁, db₂, hreopen, hsync, ?_⟩
          · split at hrun
            · obtain ⟨_, _, -, hrun⟩ := Tx.bind_ok hrun
              cases hrun
              rfl
            · cases hrun
              rfl
          · split at hrun
            · rename_i hcompleted
              obtain ⟨_, _, hnext, hrun⟩ := Tx.bind_ok hrun
              cases hrun
              rw [if_pos hcompleted]
              exact hnext
            · rename_i hcompleted
              cases hrun
              rw [if_neg hcompleted]
              rfl
        split at h
        · rename_i hreopen
          obtain ⟨_, db₁, hr, h⟩ := Tx.bind_ok h
          exact hrest db₁ (removeNextOccurrenceForReopen_now hr) (by rw [if_pos hreopen]; exact hr) h
        · rename_i hreopen
          exact hrest db rfl (by rw [if_neg hreopen]; rfl) h

theorem deleteTask_ok {task : Uuid} {expectedVersion : Int} {a : Unit}
    (h : deleteTask task expectedVersion db = .ok (a, db')) :
    ∃ row, Table.has (·.parentTaskId == some task) db.tasks = false ∧ db.task? task = some row ∧
      row.version = expectedVersion ∧ db' = (removeTaskCalendarEvent task db).deleteTask task := by
  unfold deleteTask at h
  split at h
  · cases h
  · rw [Tx.read_bind_run] at h
    split at h
    · cases h
    · rename_i hchildren
      rw [Tx.write_bind_run, Tx.read_bind_run] at h
      have hbeside : db.Beside (removeTaskCalendarEvent task db) := beside_removeTaskCalendarEvent task
      rw [hbeside.task? task] at h
      cases ht : db.task? task with
      | none =>
        simp only [ht] at h
        cases h
      | some row =>
        simp only [ht] at h
        split at h
        · cases h
        · rename_i hversion
          cases h
          exact ⟨row, eq_false_of_ne_true hchildren, rfl, not_not.1 hversion, rfl⟩

end Store

end Prosepect

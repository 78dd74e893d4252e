/-
What the operations on tasks, events and calendars do to the schedules of tasks and their blocks.
-/
import Prosepect.Store.Mirror

namespace Prosepect

open Resumption Table Time Store

namespace Db

variable {db db' : Db}

/-- What keeps the tables valid and the two copies in step. -/
structure Mirroring (db db' : Db) : Prop where
  aged : db.Aged db'
  mirrored : db.Valid → db.Mirrored → db'.Mirrored

theorem Mirroring.refl (db : Db) : db.Mirroring db := ⟨.refl db, fun _ hm => hm⟩

theorem Mirroring.trans {a b c : Db} (h : a.Mirroring b) (h' : b.Mirroring c) : a.Mirroring c :=
  ⟨h.aged.trans h'.aged, fun hv hm => h'.mirrored (h.aged hv).1 (h.mirrored hv hm)⟩

theorem Quiet.mirroring (h : db.Quiet db') : db.Mirroring db' :=
  ⟨h.aged, fun _ hm => hm.frame (h.tasks.imp fun _ _ ht => ⟨ht.1.kept.id, ht.2⟩) h.events h.nextId⟩

/-! ## The operations on tasks -/

theorem mirroring_createTask (toLowercase : String → String) (r : CreateTaskRequest) :
    Tx.Within Mirroring (createTask toLowercase r) := by
  intro db task db' h
  refine ⟨aged_createTask toLowercase r db task db' h, fun hv hm => ?_⟩
  obtain ⟨labels, row, mid, -, -, -, -, hrow, htask, rfl, hs⟩ := createTask_ok h
  have hto : row.toTask = task := by rw [hrow]
  have hid : row.id = db.nextId := by rw [hto, htask]
  rw [← hto] at hs
  exact hm.create hv hs ((aged_insertTask row).trans (aged_ensureLabels labels)) hid rfl rfl rfl

theorem mirroring_createNextRecurringTask (task : Uuid) : Tx.Within Mirroring (createNextRecurringTask task) := by
  intro db a db' h
  refine ⟨aged_createNextRecurringTask task db a db' h, fun hv hm => ?_⟩
  obtain ⟨row, dueAt, nextDueAt, next, mid, -, -, -, -, -, hnext, rfl, hs⟩ := createNextRecurringTask_ok h
  have hid : next.id = db.nextId := by rw [hnext]; rfl
  exact hm.create hv hs ((aged_ensureLabels _).trans (aged_insertTask next)) hid rfl rfl rfl

theorem mirroring_removeNextOccurrenceForReopen (task : Uuid) :
    Tx.Within Mirroring (removeNextOccurrenceForReopen task) := by
  intro db a db' h
  refine ⟨aged_removeNextOccurrenceForReopen task db a db' h, fun hv hm => ?_⟩
  rcases removeNextOccurrenceForReopen_ok h with ⟨-, rfl⟩ | ⟨next, -, -, -, rfl⟩
  · exact hm
  · exact (hm.but _).deleteTask

/-- Reopening a task leaves the task itself. -/
theorem reopened_task {task : Uuid} {row : TaskRow} {a : Unit} (hm : db.Mirrored) (hrow : row ∈ db.tasks)
    (hdone : row.status = .completed) (h : removeNextOccurrenceForReopen task db = .ok (a, db')) :
    ∃ t ∈ db'.tasks, t.id = row.id := by
  rcases removeNextOccurrenceForReopen_ok h with ⟨-, rfl⟩ | ⟨next, hnext, hopen, -, rfl⟩
  · exact ⟨row, hrow, rfl⟩
  · have hne : row.id ≠ next.id := by
      intro hid
      -- the successor is open, the task is not
      rw [hm.task_eq (List.mem_of_find?_eq_some hnext) hrow hid, hopen] at hdone
      cases hdone
    have hkept : row ∈ delete (fun t : TaskRow => t.id == next.id) db.tasks := mem_delete.2 ⟨hrow, by simpa using hne⟩
    by_cases hp : (row.recurrenceSourceId == some next.id) = true
    · exact ⟨_, mem_update.2 (.inr ⟨row, hkept, hp, rfl⟩), rfl⟩
    · exact ⟨row, mem_update.2 (.inl ⟨hkept, Bool.eq_false_iff.2 hp⟩), rfl⟩

theorem mirroring_updateTaskScoped (toLowercase : String → String) (task : Uuid) (r : UpdateTaskRequest)
    (scope : Option RecurrenceEditScope) : Tx.Within Mirroring (updateTaskScoped toLowercase task r scope) := by
  intro db a db' h
  refine ⟨aged_updateTaskScoped toLowercase task r scope db a db' h, fun hv hm => ?_⟩
  obtain ⟨row, updated, -, hupdated⟩ := updateTaskScoped_ok h
  obtain ⟨labels, prepared, -, -, hwritten⟩ := hupdated.written
  obtain ⟨db₁, db₂, hreopen, hsync, hnext⟩ := hupdated.steps
  obtain ⟨hmem, hid⟩ := task?_mem hupdated.found
  have hkey : updated.id = task := by
    rw [hwritten]
    exact hid
  -- the successor goes if the task is opened again
  have hstep₁ : db.Mirroring db₁ ∧ ∃ t ∈ db₁.tasks, t.id = task := by
    rcases ite_pure_ok hreopen with ⟨hdone, hr⟩ | ⟨-, rfl⟩
    · obtain ⟨t, ht, hti⟩ := reopened_task hm hmem hdone.1 hr
      exact ⟨mirroring_removeNextOccurrenceForReopen task db _ db₁ hr, t, ht, hti.trans hid⟩
    · exact ⟨.refl _, row, hmem, hid⟩
  obtain ⟨hstep₁, t₁, ht₁, hti₁⟩ := hstep₁
  have hv₁ : db₁.Valid := (hstep₁.aged hv).1
  have hm₁ : db₁.Mirrored := hstep₁.mirrored hv hm
  have hrow : updated ∈ (db₁.updateTask task fun _ => updated).tasks :=
    mem_update.2 (.inr ⟨t₁, ht₁, beq_iff_eq.2 hti₁, rfl⟩)
  have hbut : (ensureLabels updated.labels (db₁.updateTask task fun _ => updated)).MirroredBut (· = updated.id) := by
    have hwrite := hm₁.updateTask (f := fun _ => updated) fun (t : TaskRow) (_ : t.id = task) => hkey
    refine (hwrite.weaken fun t _ ho => ?_).same rfl rfl le_rfl
    rcases ho with ho | ho
    · exact ho.elim
    · exact ho.trans hkey.symm
  have haged : db₁.Aged (ensureLabels updated.labels (db₁.updateTask task fun _ => updated)) :=
    (aged_updateTask task _).trans (aged_ensureLabels _)
  have hm₂ : db₂.Mirrored := by
    refine hbut.sync (haged hv₁).1 ⟨updated, hrow, rfl⟩ (fun t ht hti => ?_) hsync
    rw [hbut.task_eq hrow ht hti]
    exact ⟨rfl, rfl⟩
  have hv₂ : db₂.Valid := (aged_syncTaskCalendarEvent updated.toTask _ _ _ hsync (haged hv₁).1).1
  rcases ite_pure_ok hnext with ⟨-, hn⟩ | ⟨-, rfl⟩
  · exact (mirroring_createNextRecurringTask task db₂ _ db' hn).mirrored hv₂ hm₂
  · exact hm₂

theorem mirroring_deleteTask (task : Uuid) (expectedVersion : Int) :
    Tx.Within Mirroring (Store.deleteTask task expectedVersion) := by
  intro db a db' h
  refine ⟨aged_deleteTaskTx task expectedVersion db a db' h, fun hv hm => ?_⟩
  obtain ⟨row, -, -, -, rfl⟩ := deleteTask_ok h
  exact ((hm.but (· = task)).removed hv rfl).deleteTask

theorem mirroring_importGoogleTask (title : String) (deadline : Option DateTime) (completed : Bool) :
    Tx.Within Mirroring (importGoogleTask title deadline completed) := by
  intro db a db' h
  refine ⟨aged_importGoogleTask title deadline completed db a db' h, fun hv hm => ?_⟩
  unfold importGoogleTask at h
  split at h
  · cases h
    exact hm
  · cases h
    refine MirroredBut.close (hm.insertTask rfl rfl (Nat.le_succ _) hm.fresh_ne (Nat.lt_succ_self _)) ?_
    intro t ht hout s u
    -- it is not scheduled, and nothing is linked to a fresh id
    have hid : t.id = db.nextId := hout.elim False.elim id
    have hnone : t.scheduledStart = none := by
      rcases List.mem_append.1 ht with ht | ht
      · exact absurd hid (hm.fresh_ne t ht)
      · rw [List.mem_singleton.1 ht]
    rw [hnone, hid]
    constructor
    · rintro ⟨hs, -⟩
      cases hs
    · intro hb
      exact absurd hb (hm.not_block hm.fresh_ne s u)

theorem mirroring_importTasks (project : Uuid) : ∀ (rest : List (TodoistImportTask × List String)) (position : Int)
    (taskIds : List Uuid), Tx.Within Mirroring (importTasks project position taskIds rest)
  | [], _, _ => .pure .refl _
  | (task, labels) :: rest, position, taskIds => by
    intro db a db' h
    obtain ⟨row, mid, hrow, hs, h⟩ := importTasks_cons_ok h
    have haged : db.Aged (ensureLabels labels (db.fresh.insertTask row)) :=
      (aged_insertTask row).trans (aged_ensureLabels labels)
    have hid : row.id = db.nextId := by rw [hrow]; rfl
    have hmid : db.Mirroring mid :=
      ⟨haged.trans (aged_syncTaskCalendarEvent _ _ _ _ hs), fun hv hm => hm.create hv hs haged hid rfl rfl rfl⟩
    exact hmid.trans (mirroring_importTasks project rest _ _ mid a db' h)

/-! ## Projects -/

/-- The blocks of the tasks of a project go before the tasks do. -/
theorem mirrored_deleteProject (hv : db.Valid) (hm : db.Mirrored) (project : Uuid) :
    ((removeProjectEvents project db).deleteProject project).Mirrored := by
  have hfold : ∀ (l : List TaskRow) (out : Uuid → Prop) (db : Db), db.Valid → db.MirroredBut out → (∀ t ∈ l, out t.id) →
      (l.foldl (fun db t => removeTaskCalendarEvent t.id db) db).MirroredBut out := by
    intro l out
    induction l with
    | nil => exact fun _ _ hm _ => hm
    | cons t l ih =>
      intro db hv hm hin
      exact ih _ (aged_removeTaskCalendarEvent t.id hv).1 (hm.removed hv (hin t List.mem_cons_self))
        fun x hx => hin x (List.mem_cons_of_mem _ hx)
  have htasks : (removeProjectEvents project db).tasks = db.tasks := (beside_removeProjectEvents project).tasks
  have hbut : (removeProjectEvents project db).MirroredBut fun k =>
      ∃ t ∈ db.tasks, (t.projectId == some project) = true ∧ t.id = k :=
    hfold _ _ db hv (hm.but _) fun t ht => ⟨t, (List.mem_filter.1 ht).1, (List.mem_filter.1 ht).2, rfl⟩
  rw [← htasks] at hbut
  exact hbut.deleteTasks.frame (rows_update SamePlan.refl fun t _ _ => ⟨rfl, rfl, rfl⟩) rfl le_rfl

/-! ## The operations on events -/

/-- The task an event stands for, if any, is written. -/
theorem update_linked (link : Option Uuid) (g : TaskRow → TaskRow) (tasks : List TaskRow) :
    update (fun t => link == some t.id) g tasks =
      match link with
      | some k => update (·.id == k) g tasks
      | none => tasks := by
  cases link with
  | none => exact update_of_not fun _ _ => rfl
  | some k =>
    have hkey : (fun t : TaskRow => some k == some t.id) = fun t => t.id == k := by
      funext t
      rw [Option.some_beq_some, Bool.beq_comm]
    rw [hkey]

theorem mirroring_createCalendarEvent (toLowercase : String → String) (r : CreateCalendarEventRequest) :
    Tx.Within Mirroring (createCalendarEvent toLowercase r) := by
  intro db event db' h
  refine ⟨aged_createCalendarEvent toLowercase r db event db' h, fun hv hm => ?_⟩
  obtain ⟨attendees, -, -, hevent, -, rfl⟩ := createCalendarEvent_ok h
  have hmark : (db.fresh.insertEvent event).Beside _ := beside_markEventForSync event false
  refine hm.insertEvent (e := event) (by rw [hevent]) hmark.tasks ?_ ((Nat.le_succ _).trans hmark.nextId)
  rw [markEventForSync_events]
  rfl

/-- An event is written with the task it stands for, and marked. -/
theorem changeEvent_tasks (db : Db) (previous event : CalendarEvent) : (changeEvent previous event db).tasks =
    update (fun t => event.linkedTaskId == some t.id)
      (Task.reschedule (some event.startsAt) (some event.endsAt) db.now) db.tasks ∧
      db.nextId ≤ (changeEvent previous event db).nextId := by
  have hscheduled : (reschedule event (db.updateEvent event.id fun _ => event)).tasks =
      update (fun t => event.linkedTaskId == some t.id)
        (Task.reschedule (some event.startsAt) (some event.endsAt) db.now) db.tasks ∧
      db.nextId ≤ (reschedule event (db.updateEvent event.id fun _ => event)).nextId := by
    rw [update_linked]
    unfold reschedule
    cases event.linkedTaskId <;> exact ⟨rfl, le_rfl⟩
  have hmarked : (reschedule event (db.updateEvent event.id fun _ => event)).Beside (changeEvent previous event db) := by
    unfold changeEvent
    dsimp only
    split
    · refine (beside_markEventForSync previous true).trans (Beside.trans ?_ (beside_markEventForSync event false))
      exact ⟨rfl, rfl, rfl, rfl, rfl, le_rfl⟩
    · exact beside_markEventForSync event false
  exact ⟨hmarked.tasks.trans hscheduled.1, hscheduled.2.trans hmarked.nextId⟩

theorem mirroring_updateCalendarEvent (toLowercase : String → String) (id : Uuid) (r : UpdateCalendarEventRequest) :
    Tx.Within Mirroring (updateCalendarEvent toLowercase id r) := by
  intro db event db' h
  refine ⟨aged_updateCalendarEvent toLowercase id r db event db' h, fun hv hm => ?_⟩
  obtain ⟨previous, attendees, -, hp, -, -, hevent, -, rfl⟩ := updateCalendarEvent_ok h
  obtain ⟨hmem, hid⟩ := event?_mem hp
  have hkey : event.id = previous.id := by rw [hevent, hid]; rfl
  have hlink : event.linkedTaskId = previous.linkedTaskId := by rw [hevent]
  obtain ⟨htasks, hn⟩ := changeEvent_tasks db previous event
  rw [hlink] at htasks
  refine hm.move hv hmem (f := fun _ => event) (g := Task.reschedule (some event.startsAt) (some event.endsAt) db.now) hlink
    (fun t => ⟨rfl, rfl, rfl⟩) htasks ?_ hn
  rw [changeEvent_events, hkey]
  rfl

theorem mirroring_deleteCalendarEvent (id : Uuid) (expectedVersion : Int) :
    Tx.Within Mirroring (deleteCalendarEvent id expectedVersion) := by
  intro db a db' h
  refine ⟨aged_deleteCalendarEvent id expectedVersion db a db' h, fun hv hm => ?_⟩
  obtain ⟨existing, he, -, rfl⟩ := deleteCalendarEvent_ok h
  have hmark : db.Beside (markEventForSync existing true db) := beside_markEventForSync existing true
  have hevents : (markEventForSync existing true db).events = db.events := markEventForSync_events existing true
  refine hm.drop hv (event?_mem he).1 (g := Task.reschedule none none db.now) (fun t => ⟨rfl, rfl⟩) ?_ ?_ ?_
  · rw [update_linked, ← hmark.tasks, ← hmark.now]
    unfold dropEvent
    dsimp only
    cases existing.linkedTaskId <;> rfl
  · rw [← hevents]
    unfold dropEvent
    dsimp only
    cases existing.linkedTaskId <;> rfl
  · refine hmark.nextId.trans ?_
    unfold dropEvent
    dsimp only
    cases existing.linkedTaskId <;> exact le_rfl

/-- A move of an event, with the times its task gets. -/
theorem mirrored_moveEvent (hv : db.Valid) (hm : db.Mirrored) {e : CalendarEvent} (he : e ∈ db.events)
    {startsAt endsAt : DateTime} {task : Option (Uuid × Option DateTime × Option DateTime)}
    (htask : task = e.linkedTaskId.map fun k => (k, some startsAt, some endsAt)) :
    (moveEvent e startsAt endsAt task db).Mirrored := by
  have hmark : (writeSchedule e startsAt endsAt task db).2.Beside (moveEvent e startsAt endsAt task db) :=
    beside_markEventForSync _ false
  refine hm.move hv he (f := fun _ => { e with startsAt := startsAt, endsAt := endsAt, updatedAt := db.now, version := e.version + 1 })
    (g := Task.reschedule (some startsAt) (some endsAt) db.now) rfl (fun t => ⟨rfl, rfl, rfl⟩) ?_ ?_ ?_
  · rw [hmark.tasks, update_linked, htask]
    unfold writeSchedule
    cases e.linkedTaskId <;> rfl
  · unfold moveEvent
    rw [markEventForSync_events, htask]
    unfold writeSchedule
    cases e.linkedTaskId <;> rfl
  · refine le_trans ?_ hmark.nextId
    unfold writeSchedule
    cases task <;> exact le_rfl

/-! ## Calendars, conflicts and settings -/

theorem mirroring_same (ha : db.Aged db') (htasks : db'.tasks = db.tasks) (hevents : db'.events = db.events)
    (hn : db.nextId ≤ db'.nextId) : db.Mirroring db' :=
  ⟨ha, fun _ hm => hm.same htasks hevents hn⟩

/-- The loop goes through rows that are those of the table all along. -/
theorem mirrored_syncTasks {rows l : List TaskRow} (hl : ∀ t ∈ l, t ∈ rows) :
    Tx.Within (fun d d' : Db => d.tasks = rows ∧ d.Valid ∧ d.Mirrored → d'.tasks = rows ∧ d'.Valid ∧ d'.Mirrored)
      (Tx.each (fun t : TaskRow => syncTaskCalendarEvent t.toTask) l) := by
  refine Tx.Within.each (fun _ hd => hd) (fun h h' hd => h' (h hd)) ?_
  rintro t ht d a d' hs ⟨htasks, hvd, hmd⟩
  have hrow : t ∈ d.tasks := htasks ▸ hl t ht
  refine ⟨(beside_syncTaskCalendarEvent _ _ _ _ hs).tasks.trans htasks, (aged_syncTaskCalendarEvent _ _ _ _ hs hvd).1, ?_⟩
  refine (hmd.but (· = t.id)).sync hvd ⟨t, hrow, rfl⟩ (fun x hx hid => ?_) hs
  rw [hmd.task_eq hrow hx hid]
  exact ⟨rfl, rfl⟩

theorem mirroring_migrateScheduledTasks : Tx.Within Mirroring migrateScheduledTasksToPreferredCalendar := by
  unfold migrateScheduledTasksToPreferredCalendar
  refine .bind (R := Mirroring) Mirroring.trans (.read .refl) fun _ => ?_
  refine .bind (R := Mirroring) Mirroring.trans (.write fun db => ?_) fun _ => ?_
  · exact mirroring_same aged_preferredTimeBlockCalendar beside_preferredTimeBlockCalendar.tasks
      preferredTimeBlockCalendar_events beside_preferredTimeBlockCalendar.nextId
  · intro db a db' h
    rw [Tx.read_bind_run] at h
    have haged : db.Aged db' := Tx.Within.each (R := Aged) Aged.refl Aged.trans
      (fun (t : TaskRow) _ => aged_syncTaskCalendarEvent t.toTask) db a db' h
    exact ⟨haged, fun hv hm => (mirrored_syncTasks (fun t ht => (List.mem_filter.1 ht).1) db a db' h ⟨rfl, hv, hm⟩).2.2⟩

/-- Calendars go that no event of a task is in. -/
theorem mirrored_deleteCalendars (hm : db.Mirrored) {p : Calendar → Bool}
    (hfree : ∀ e ∈ db.events, (∃ c ∈ db.calendars, p c = true ∧ c.id = e.calendarId) → e.linkedTaskId = none) :
    (db.deleteCalendars p).Mirrored := by
  refine hm.events rfl le_rfl (fun e he k hk => .inl ⟨e, (mem_delete.1 he).1, hk⟩) fun k _ s u => ?_
  refine block_delete fun e he hk => has_eq_false_iff.2 fun c hc => Bool.eq_false_iff.2 fun hpc => ?_
  simp only [Bool.and_eq_true, beq_iff_eq] at hpc
  rw [hfree e he ⟨c, hc, hpc⟩] at hk
  cases hk

/-- A calendar goes, and with it the event of a task. -/
theorem not_mirrored_deleteCalendars (hv : db.Valid) (hm : db.Mirrored) {p : Calendar → Bool} {e : CalendarEvent} {k : Uuid}
    (he : e ∈ db.events) (hk : e.linkedTaskId = some k) (hc : ∃ c ∈ db.calendars, p c = true ∧ c.id = e.calendarId) :
    ¬ (db.deleteCalendars p).Mirrored := by
  intro hm'
  obtain ⟨t, ht, rfl⟩ := hm.linked e he k hk
  -- the task stays as it was, scheduled at the times of the event
  have hplan := (hm.mirrors t ht id e.startsAt e.endsAt).2 ⟨e, he, hk, rfl, rfl⟩
  have hblock := (hm'.mirrors t ht id e.startsAt e.endsAt).1 hplan
  refine not_block_delete (fun x hx hxk => ?_) hblock
  rw [hv.eventTasks.eq hx he hxk hk]
  obtain ⟨c, hcal, hp, hid⟩ := hc
  exact has_iff.2 ⟨c, hcal, by simp [hp, hid]⟩

theorem mirroring_enqueueSync (calendar : Uuid) (key : String) : Tx.Within Mirroring (enqueueSync calendar key) := by
  unfold enqueueSync
  refine .ite (fun _ => .raise _) fun _ => .bind (R := Mirroring) Mirroring.trans (.read .refl) fun _ => ?_
  refine .ite (fun _ => .raise _) fun _ => .write fun db => ?_
  refine mirroring_same (aged_enqueue _ _ _) ?_ ?_ ?_
  all_goals
    unfold Db.enqueue
    split
  · rfl
  · rfl
  · rfl
  · rfl
  · exact Nat.le_succ _
  · exact Nat.le_succ _

theorem mirroring_setSyncConflictPolicy (policy : SyncConflictPolicy) : Tx.Within Mirroring (setSyncConflictPolicy policy) := by
  unfold setSyncConflictPolicy
  refine .bind (R := Mirroring) Mirroring.trans (.read .refl) fun db => ?_
  cases db.policy with
  | none => exact .raise _
  | some _ => exact .write fun _ => mirroring_same (aged_same rfl rfl rfl rfl le_rfl) rfl rfl le_rfl

theorem mirroring_resolveSyncConflict (locked : Bool) (conflict : Uuid) (resolution : String) :
    Tx.Within Mirroring (resolveSyncConflict locked conflict resolution) := by
  intro db a db' h
  refine ⟨aged_resolveSyncConflict locked conflict resolution db a db' h, fun hv hm => ?_⟩
  obtain ⟨c, m, r, -, -, -, -, -, undos, jobs, rfl⟩ := resolveSyncConflict_ok hv h
  exact hm.same rfl rfl (Nat.le_succ _)

/-! ## Statements of a synchronization -/

theorem mirrored_deleteCanonicalEvent (hv : db.Valid) (hm : db.Mirrored) (event : Uuid) :
    (db.deleteCanonicalEvent event).Mirrored := by
  unfold deleteCanonicalEvent
  cases he : db.event? event with
  | none =>
    refine hm.same rfl ?_ le_rfl
    refine delete_of_not fun e hmem => ?_
    have hno := List.find?_eq_none.1 he e hmem
    simpa using hno
  | some e =>
    obtain ⟨hmem, rfl⟩ := event?_mem he
    rw [Option.bind_some]
    refine hm.drop hv hmem (g := Task.reschedule none none db.now) (fun t => ⟨rfl, rfl⟩) ?_ ?_ ?_
    · rw [update_linked]
      cases e.linkedTaskId <;> rfl
    · cases e.linkedTaskId <;> rfl
    · cases e.linkedTaskId <;> exact le_rfl

theorem mirrored_updateCanonicalEvent (hv : db.Valid) (hm : db.Mirrored) {event calendar : Uuid} {content : NormalizedEvent}
    (h : db.updateCanonicalEvent event calendar content = .ok db') : db'.Mirrored := by
  rcases updateCanonicalEvent_rows h with ⟨-, rfl⟩ | ⟨e, he, -, -, hrows⟩
  · exact hm
  · obtain ⟨hmem, rfl⟩ := event?_mem he
    refine hm.move hv hmem (f := applyContent calendar content db.now)
      (g := fun t => { Task.reschedule (some content.startsAt) (some content.endsAt) db.now t with
        title := content.title, description := content.description }) rfl (fun t => ⟨rfl, rfl, rfl⟩) ?_ ?_ ?_
    · rw [update_linked]
      rcases hrows with ⟨hlink, rfl⟩ | ⟨task, hlink, rfl⟩ <;> rw [hlink] <;> rfl
    · rcases hrows with ⟨-, rfl⟩ | ⟨task, -, rfl⟩ <;> rfl
    · rcases hrows with ⟨-, rfl⟩ | ⟨task, -, rfl⟩ <;> exact le_rfl

theorem mirroring_exec (s : Stmt) (db : Db) : db.Mirroring (s.exec db).2 := by
  refine ⟨aged_exec s db, fun hv hm => ?_⟩
  rcases unread_exec s db with h | ⟨event, -, h⟩ | ⟨event, calendar, content, -, h⟩ | ⟨calendar, content, -, h⟩
  · exact hm.same h.tasks h.events h.nextId
  · rw [h]
    exact mirrored_deleteCanonicalEvent hv hm event
  · exact mirrored_updateCanonicalEvent hv hm h
  · obtain ⟨-, -, heq⟩ := insertCanonicalEvent_ok h
    rw [heq]
    exact hm.insertEvent (e := db.importedEvent calendar content) rfl rfl rfl (Nat.le_succ _)

end Db

end Prosepect

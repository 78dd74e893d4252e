/-
Writes that leave the tasks where they are in their graph: those on events, calendars, notes and
files, and those of a synchronization. A task they write at all has a new version, and a schedule
that was checked.
-/
import Prosepect.Store.EventFacts
import Prosepect.Store.TaskValid

namespace Prosepect

open Resumption Table Time Store

namespace Db

/-- Every task stays at its place with its texts, and new content of events has met its constraints. -/
structure Stays (db db' : Db) : Prop where
  around : db.Around TaskRow.Touched db'
  timezone : db'.timezone = db.timezone
  events : ∀ e ∈ db'.events, e ∈ db.events ∨ checkEvent e.toLocalEvent = .ok ()

variable {db db' : Db}

theorem Stays.refl (db : Db) : db.Stays db := ⟨.refl .refl db, rfl, fun _ he => .inl he⟩

theorem Stays.trans {a b c : Db} (h : a.Stays b) (h' : b.Stays c) : a.Stays c where
  around := h.around.trans .trans h'.around
  timezone := h'.timezone.trans h.timezone
  events := by
    intro e he
    rcases h'.events e he with he | hc
    · exact h.events e he
    · exact .inr hc

theorem Beside.stays (h : db.Beside db')
    (he : ∀ e ∈ db'.events, e ∈ db.events ∨ checkEvent e.toLocalEvent = .ok ()) : db.Stays db' :=
  ⟨h.around .refl, h.timezone, he⟩

/-- Of the tables that are compared, only events go. -/
theorem stays_of_same (htasks : db'.tasks = db.tasks) (hprojects : db'.projects = db.projects)
    (htimezone : db'.timezone = db.timezone) (hnext : db.nextId ≤ db'.nextId)
    (he : ∀ e ∈ db'.events, e ∈ db.events ∨ checkEvent e.toLocalEvent = .ok ()) : db.Stays db' :=
  ⟨⟨htasks ▸ List.forall₂_same.2 fun t _ => .refl t, hprojects, hnext⟩, htimezone, he⟩

theorem stays_updateTask (id : Uuid) {f : TaskRow → TaskRow} (hf : ∀ t : TaskRow, t.Touched (f t)) :
    db.Stays (db.updateTask id f) :=
  ⟨⟨rows_update .refl fun t _ _ => hf t, rfl, le_rfl⟩, rfl, fun _ he => .inl he⟩

theorem stays_reschedule {start end_ : Option DateTime} (ht : Timed start end_) (task : Uuid) (now : DateTime) :
    db.Stays (db.updateTask task (Task.reschedule start end_ now)) :=
  stays_updateTask task (touched_reschedule ht now)

theorem stays_deleteEvents (p : CalendarEvent → Bool) : db.Stays (db.deleteEvents p) :=
  stays_of_same rfl rfl rfl le_rfl fun _ he => .inl (mem_delete.1 he).1

/-- An event with new content. -/
theorem stays_updateEvent (id : Uuid) {event : CalendarEvent} (hc : checkEvent event.toLocalEvent = .ok ()) :
    db.Stays (db.updateEvent id fun _ => event) := by
  refine stays_of_same rfl rfl rfl le_rfl fun e he => ?_
  rcases mem_update.1 he with ⟨he, -⟩ | ⟨_, -, -, rfl⟩
  · exact .inl he
  · exact .inr hc

theorem stays_insertEvent {event : CalendarEvent} (hc : checkEvent event.toLocalEvent = .ok ()) :
    db.Stays (db.fresh.insertEvent event) := by
  refine stays_of_same rfl rfl rfl (Nat.le_succ _) fun e he => ?_
  rcases List.mem_append.1 he with he | he
  · exact .inl he
  · rw [List.mem_singleton.1 he]
    exact .inr hc

theorem stays_markEventForSync (event : CalendarEvent) (deleted : Bool) :
    db.Stays (markEventForSync event deleted db) :=
  (beside_markEventForSync event deleted).stays fun e he => .inl (by rwa [markEventForSync_events] at he)

theorem stays_detachEventMapping (event : CalendarEvent) : db.Stays (detachEventMapping event db) :=
  stays_of_same rfl rfl rfl le_rfl fun _ he => .inl he

theorem stays_enqueue (calendar : Option Uuid) (kind key : String) : db.Stays (db.enqueue calendar kind key) := by
  unfold Db.enqueue
  split <;> exact stays_of_same rfl rfl rfl (Nat.le_succ _) fun _ he => .inl he

theorem timed_of_check {e : LocalEvent} (h : checkEvent e = .ok ()) : Timed (some e.startsAt) (some e.endsAt) :=
  .inr ⟨e.startsAt, e.endsAt, rfl, rfl, ((checkEvent_ok_iff e).1 h).2.2.2.2.1⟩

/-! ## Tables that are left alone -/

/-- Everything a calendar shows, and what a synchronization works on, is as it was. -/
structure Quiet (db db' : Db) : Prop where
  calendars : db'.calendars = db.calendars
  events : db'.events = db.events
  mappings : db'.mappings = db.mappings
  conflicts : db'.conflicts = db.conflicts
  jobs : db'.jobs = db.jobs
  undos : db'.undos = db.undos
  projects : db'.projects = db.projects
  timezone : db'.timezone = db.timezone
  nextId : db.nextId ≤ db'.nextId
  tasks : List.Forall₂ (fun t t' => t.Touched t' ∧ t'.scheduledStart = t.scheduledStart ∧
    t'.scheduledEnd = t.scheduledEnd) db.tasks db'.tasks

theorem Quiet.refl (db : Db) : db.Quiet db :=
  ⟨rfl, rfl, rfl, rfl, rfl, rfl, rfl, rfl, le_rfl, List.forall₂_same.2 fun t _ => ⟨.refl t, rfl, rfl⟩⟩

theorem Quiet.trans {a b c : Db} (h : a.Quiet b) (h' : b.Quiet c) : a.Quiet c where
  calendars := h'.calendars.trans h.calendars
  events := h'.events.trans h.events
  mappings := h'.mappings.trans h.mappings
  conflicts := h'.conflicts.trans h.conflicts
  jobs := h'.jobs.trans h.jobs
  undos := h'.undos.trans h.undos
  projects := h'.projects.trans h.projects
  timezone := h'.timezone.trans h.timezone
  nextId := h.nextId.trans h'.nextId
  tasks := rows_trans (fun ⟨hr, hs, he⟩ ⟨hr', hs', he'⟩ => ⟨hr.trans hr', hs'.trans hs, he'.trans he⟩) h.tasks h'.tasks

theorem Quiet.stays (h : db.Quiet db') : db.Stays db' :=
  ⟨⟨h.tasks.imp fun _ _ hr => hr.1, h.projects, h.nextId⟩, h.timezone, fun _ he => .inl (h.events ▸ he)⟩

/-- A task gets a new version, with its schedule as it was. -/
theorem quiet_updateTask (id : Uuid) {f : TaskRow → TaskRow} (hf : ∀ t : TaskRow, t.Touched (f t))
    (hs : ∀ t, (f t).scheduledStart = t.scheduledStart) (he : ∀ t, (f t).scheduledEnd = t.scheduledEnd) :
    db.Quiet (db.updateTask id f) :=
  ⟨rfl, rfl, rfl, rfl, rfl, rfl, rfl, rfl, le_rfl,
    rows_update (fun t => ⟨.refl t, rfl, rfl⟩) fun t _ _ => ⟨hf t, hs t, he t⟩⟩

theorem quiet_positions (l : List (Uuid × Nat)) : ∀ db : Db, db.Quiet (l.foldl (fun db (id, index) =>
    db.updateTask id fun t => { t with position := (index + 1) * 1024 }) db) := by
  induction l with
  | nil => exact Quiet.refl
  | cons x l ih =>
    intro db
    have hx : db.Quiet (db.updateTask x.1 fun t => { t with position := (x.2 + 1) * 1024 }) :=
      quiet_updateTask x.1 (fun t => ⟨⟨rfl, rfl, rfl, rfl, rfl, rfl, .inl rfl, le_rfl, fun _ => rfl⟩, rfl, rfl, rfl, rfl,
        fun h => h, .inl ⟨rfl, rfl⟩⟩) (fun _ => rfl) fun _ => rfl
    exact hx.trans (ih _)

theorem quiet_reorderTasks (taskIds : List Uuid) : Tx.Within Quiet (reorderTasks taskIds) := by
  unfold reorderTasks
  refine .ite (fun _ => .raise _) fun _ => .bind (R := Quiet) Quiet.trans (.read Quiet.refl) fun _ => ?_
  exact .ite (fun _ => .raise _) fun _ => .ite (fun _ => .raise _) fun _ => .write fun db => quiet_positions _ db

/-! ## The operations on events -/

theorem stays_createCalendarEvent (toLowercase : String → String) (r : CreateCalendarEventRequest) :
    Tx.Within Stays (createCalendarEvent toLowercase r) := by
  intro db a db' h
  obtain ⟨attendees, -, -, -, hc, rfl⟩ := createCalendarEvent_ok h
  exact (stays_insertEvent hc).trans (stays_markEventForSync _ _)

theorem stays_changeEvent (previous : CalendarEvent) {event : CalendarEvent}
    (hc : checkEvent event.toLocalEvent = .ok ()) : db.Stays (changeEvent previous event db) := by
  have hscheduled : db.Stays (reschedule event (db.updateEvent event.id fun _ => event)) := by
    refine (stays_updateEvent event.id hc).trans ?_
    unfold reschedule
    split
    · exact stays_reschedule (timed_of_check hc) _ _
    · exact .refl _
  unfold changeEvent
  dsimp only
  split
  · exact ((hscheduled.trans (stays_markEventForSync previous true)).trans (stays_detachEventMapping previous)).trans
      (stays_markEventForSync event false)
  · exact hscheduled.trans (stays_markEventForSync event false)

theorem stays_updateCalendarEvent (toLowercase : String → String) (id : Uuid) (r : UpdateCalendarEventRequest) :
    Tx.Within Stays (updateCalendarEvent toLowercase id r) := by
  intro db a db' h
  obtain ⟨previous, attendees, -, -, -, -, -, hc, rfl⟩ := updateCalendarEvent_ok h
  exact stays_changeEvent previous hc

theorem stays_deleteCalendarEvent (id : Uuid) (expectedVersion : Int) :
    Tx.Within Stays (deleteCalendarEvent id expectedVersion) := by
  intro db a db' h
  obtain ⟨existing, -, -, rfl⟩ := deleteCalendarEvent_ok h
  have hdeleted : db.Stays ((markEventForSync existing true db).deleteEvent existing.id) :=
    (stays_markEventForSync existing true).trans (stays_deleteEvents _)
  unfold dropEvent
  dsimp only
  split
  · exact hdeleted.trans (stays_reschedule (.inl ⟨rfl, rfl⟩) _ _)
  · exact hdeleted

theorem stays_syncTaskCalendarEvent (task : Task) : Tx.Within Stays (syncTaskCalendarEvent task) := by
  intro db a db' h
  refine (beside_syncTaskCalendarEvent task db a db' h).stays fun e he => ?_
  rcases syncTaskCalendarEvent_ok h with ⟨startsAt, endsAt, -, -, hc, rfl⟩ | ⟨-, rfl⟩
  · rw [markEventForSync_events] at he
    rcases mem_placed_events he with he | rfl
    · exact .inl he
    · exact .inr hc
  · unfold removeTaskCalendarEvent at he
    split at he
    · have hdeleted := (mem_delete.1 he).1
      rw [markEventForSync_events] at hdeleted
      exact .inl hdeleted
    · exact .inl he

/-! ## Calendars, conflicts and settings -/

theorem stays_preferredTimeBlockCalendar : db.Stays (preferredTimeBlockCalendar db).2 :=
  beside_preferredTimeBlockCalendar.stays fun e he => .inl (by rwa [preferredTimeBlockCalendar_events] at he)

theorem stays_migrateScheduledTasks : Tx.Within Stays migrateScheduledTasksToPreferredCalendar := by
  unfold migrateScheduledTasksToPreferredCalendar
  refine .bind (R := Stays) Stays.trans (.read .refl) fun _ => ?_
  refine .bind (R := Stays) Stays.trans (.write fun _ => stays_preferredTimeBlockCalendar) fun _ => ?_
  refine .bind (R := Stays) Stays.trans (.read .refl) fun _ => ?_
  exact Tx.Within.each (R := Stays) Stays.refl Stays.trans fun (t : TaskRow) _ => stays_syncTaskCalendarEvent t.toTask

theorem stays_deleteCalendars (p : Calendar → Bool) : db.Stays (db.deleteCalendars p) :=
  stays_of_same rfl rfl rfl le_rfl fun _ he => .inl (mem_delete.1 he).1

theorem stays_enqueueSync (calendar : Uuid) (key : String) : Tx.Within Stays (enqueueSync calendar key) := by
  unfold enqueueSync
  refine .ite (fun _ => .raise _) fun _ => ?_
  refine .bind (R := Stays) Stays.trans (.read .refl) fun _ => ?_
  exact .ite (fun _ => .raise _) fun _ => .write fun _ => stays_enqueue _ _ _

theorem stays_setSyncConflictPolicy (policy : SyncConflictPolicy) : Tx.Within Stays (setSyncConflictPolicy policy) := by
  unfold setSyncConflictPolicy
  refine .bind (R := Stays) Stays.trans (.read .refl) fun db => ?_
  cases db.policy with
  | none => exact .raise _
  | some _ => exact .write fun _ => stays_of_same rfl rfl rfl le_rfl fun _ he => .inl he

/-- What is left of a resolution when the tombstone is released, if there is one to release. -/
theorem stays_resolved {c : SyncConflict} {conflict : Uuid} {r : Resolution} {a : SyncConflict} {db₁ : Db}
    (hs : db.Stays db₁) (h : (Tx.write (fun db => db.updateConflicts (·.id == conflict) (resolvedConflict r db.now)) >>= fun _ =>
      match db.mapping? c.mappingId with
      | none => raiseSql .rowNotFound
      | some m => Tx.write (fun db => (db.updateMapping m.id (resolveMapping r)).enqueue (some m.calendarId)
          "calendar_sync" ("conflict-resolution:" ++ uuidText conflict ++ ":" ++ r.text)) >>= fun _ =>
        pure (resolvedConflict r db.now c) : StoreTx SyncConflict) db₁ = .ok (a, db')) : db.Stays db' := by
  rw [Tx.write_bind_run] at h
  cases hm : db.mapping? c.mappingId with
  | none =>
    simp only [hm] at h
    cases h
  | some m =>
    simp only [hm, Tx.write_bind_run] at h
    cases h
    have hrows : db₁.Stays ((db₁.updateConflicts (·.id == conflict) (resolvedConflict r db₁.now)).updateMapping m.id
        (resolveMapping r)) := stays_of_same rfl rfl rfl le_rfl fun _ he => .inl he
    exact hs.trans (hrows.trans (stays_enqueue _ _ _))

theorem stays_resolveSyncConflict (locked : Bool) (conflict : Uuid) (resolution : String) :
    Tx.Within Stays (resolveSyncConflict locked conflict resolution) := by
  intro db a db' h
  unfold resolveSyncConflict at h
  cases hr : Resolution.ofText resolution with
  | none =>
    simp only [hr] at h
    cases h
  | some r =>
    simp only [hr, Tx.read_bind_run] at h
    cases hc : unresolved? conflict db with
    | none =>
      simp only [hc] at h
      cases h
    | some c =>
      simp only [hc] at h
      split at h
      · split at h
        · cases h
        · split at h
          · cases h
          · rw [Tx.write_bind_run] at h
            have hreleased : db.Stays (releaseTombstone c.mappingId db) :=
              stays_of_same rfl rfl rfl le_rfl fun _ he => .inl he
            exact stays_resolved hreleased h
      · exact stays_resolved (.refl db) h

/-! ## Statements of a synchronization -/

/-- Tasks and events are as they were. -/
structure Unread (db db' : Db) : Prop where
  tasks : db'.tasks = db.tasks
  events : db'.events = db.events
  projects : db'.projects = db.projects
  timezone : db'.timezone = db.timezone
  now : db'.now = db.now
  nextId : db.nextId ≤ db'.nextId

theorem unread_exec (s : Stmt) (db : Db) : db.Unread (s.exec db).2 ∨
    (∃ event, s = .deleteCanonicalEvent event ∧ (s.exec db).2 = db.deleteCanonicalEvent event) ∨
    (∃ event calendar content, s = .updateCanonicalEvent event calendar content ∧
      db.updateCanonicalEvent event calendar content = .ok (s.exec db).2) ∨
    ∃ calendar content, s = .insertCanonicalEvent calendar content ∧
      db.insertCanonicalEvent calendar content = .ok (s.exec db).2 := by
  have hsame : ∀ {db' : Db}, db' = db → db.Unread db' := by
    rintro _ rfl
    exact ⟨rfl, rfl, rfl, rfl, rfl, le_rfl⟩
  rcases s.exec_cases db with ⟨v, db', hr, hx⟩ | ⟨e, -, hx⟩
  swap
  · rw [hx]
    exact .inl (hsame rfl)
  · rw [hx]
    cases s with
    | deleteCanonicalEvent event =>
      cases hr
      exact .inr (.inl ⟨event, rfl, rfl⟩)
    | updateCanonicalEvent event calendar content =>
      have hc := Stmt.updateCanonicalEvent_ok hr
      exact .inr (.inr (.inl ⟨event, calendar, content, rfl, hc⟩))
    | insertCanonicalEvent calendar content =>
      obtain ⟨hc, -⟩ := Stmt.insertCanonicalEvent_ok hr
      exact .inr (.inr (.inr ⟨calendar, content, rfl, hc⟩))
    | selectCalendars only =>
      obtain ⟨-, rfl⟩ := Stmt.selectCalendars_ok hr
      exact .inl (hsame rfl)
    | selectMapping | selectPolicy | existsUnresolved | selectUnmapped | selectDirty | selectResolutionPending =>
      cases hr
      exact .inl (hsame rfl)
    | insertConflict =>
      have hc := Stmt.insertConflict_ok hr
      rcases recordConflict_ok hc with ⟨-, rfl⟩ | ⟨-, -, rfl⟩ <;>
        exact .inl ⟨rfl, rfl, rfl, rfl, rfl, Nat.le_succ _⟩
    | linkMapping =>
      have hc := Stmt.linkMapping_ok hr
      rcases linkMapping_ok hc with ⟨-, rfl⟩ | ⟨-, -, -, rfl⟩
      · exact .inl (hsame rfl)
      · exact .inl ⟨rfl, rfl, rfl, rfl, rfl, le_rfl⟩
    | insertMapping =>
      have hc := Stmt.insertMapping_ok hr
      obtain ⟨-, -, -, -, rfl⟩ := recordMapping_ok hc
      exact .inl ⟨rfl, rfl, rfl, rfl, rfl, Nat.le_succ _⟩
    | recordActivity =>
      cases hr
      exact .inl ⟨rfl, rfl, rfl, rfl, rfl, Nat.le_succ _⟩
    | dropTombstone | deleteUndos | deleteMapping | deletePendingMapping | setUnresolved | clearPendingResolution
    | updateMappingBaseline | recordPushed | setSyncToken | setSyncError | setSynced =>
      cases hr
      exact .inl ⟨rfl, rfl, rfl, rfl, rfl, le_rfl⟩

theorem Unread.stays (h : db.Unread db') : db.Stays db' :=
  stays_of_same h.tasks h.projects h.timezone h.nextId fun _ he => .inl (h.events ▸ he)

theorem stays_deleteCanonicalEvent (event : Uuid) : db.Stays (db.deleteCanonicalEvent event) := by
  unfold deleteCanonicalEvent
  split
  · exact (stays_deleteEvents _).trans (stays_reschedule (.inl ⟨rfl, rfl⟩) _ _)
  · exact stays_deleteEvents _

/-- All statements but the one that writes what was changed at Google. -/
theorem stays_exec {s : Stmt} (hs : ∀ event calendar content, s ≠ .updateCanonicalEvent event calendar content) (db : Db) :
    db.Stays (s.exec db).2 := by
  rcases unread_exec s db with h | ⟨event, -, h⟩ | ⟨event, calendar, content, h, -⟩ | ⟨calendar, content, -, h⟩
  · exact h.stays
  · rw [h]
    exact stays_deleteCanonicalEvent event
  · exact absurd h (hs event calendar content)
  · obtain ⟨hc, -, heq⟩ := insertCanonicalEvent_ok h
    rw [heq]
    exact stays_insertEvent hc

/-- The row of an event that was changed at Google, and of its task. -/
theorem updateCanonicalEvent_rows {event calendar : Uuid} {content : NormalizedEvent}
    (h : db.updateCanonicalEvent event calendar content = .ok db') :
    (db.event? event = none ∧ db' = db) ∨
    ∃ e, db.event? event = some e ∧ checkEvent (content.toLocal event) = .ok () ∧ (db.calendar? calendar).isSome ∧
      ((e.linkedTaskId = none ∧ db' = db.updateEvent event (applyContent calendar content db.now)) ∨
        ∃ task, e.linkedTaskId = some task ∧
          db' = (db.updateEvent event (applyContent calendar content db.now)).updateTask task fun t =>
            { Task.reschedule (some content.startsAt) (some content.endsAt) db.now t with
              title := content.title, description := content.description }) := by
  unfold updateCanonicalEvent at h
  cases he : db.event? event with
  | none =>
    rw [he] at h
    cases h
    exact .inl ⟨rfl, rfl⟩
  | some e =>
    rw [he] at h
    obtain ⟨⟨⟩, hc, h⟩ := bind_ok h
    obtain ⟨hcal, h⟩ := guard_ok h
    refine .inr ⟨e, rfl, hc, guard_isSome hcal, ?_⟩
    cases h
    cases e.linkedTaskId with
    | none => exact .inl ⟨rfl, rfl⟩
    | some task => exact .inr ⟨task, rfl, rfl⟩

theorem around_exec (s : Stmt) (db : Db) : db.Around TaskRow.Kept (s.exec db).2 := by
  by_cases hs : ∀ event calendar content, s ≠ .updateCanonicalEvent event calendar content
  · exact (stays_exec hs db).around.kept
  · rcases unread_exec s db with h | ⟨event, rfl, -⟩ | ⟨event, calendar, content, rfl, h⟩ | ⟨calendar, content, rfl, -⟩
    · exact h.stays.around.kept
    · exact absurd (by simp) hs
    · rcases updateCanonicalEvent_rows h with ⟨-, heq⟩ | ⟨e, -, -, -, ⟨-, heq⟩ | ⟨task, -, heq⟩⟩
      · rw [heq]
        exact .refl .refl db
      · rw [heq]
        exact ⟨List.forall₂_same.2 fun t _ => .refl t, rfl, le_rfl⟩
      · rw [heq]
        refine ⟨rows_update .refl fun t _ _ => ?_, rfl, le_rfl⟩
        refine ⟨rfl, rfl, rfl, rfl, rfl, rfl, .inl rfl, Int.le_add_one le_rfl, fun hv => ?_⟩
        have hne : t.version + 1 = t.version := hv
        omega
    · exact absurd (by simp) hs

end Db

end Prosepect

/-
Completing an occurrence of a recurring task: from accepted texts and schedules the update comes to
an end in one of three ways, with a successor, with the validation error of a date out of range, or
in a panic where a schedule or a reminder leaves the range of instants (`createNextRecurringTask_iff`).
-/
import Prosepect.Store.TaskValid

namespace Prosepect

open Relation Resumption Table Text Time

namespace Store

/-- Texts and a schedule a calendar event can take over. -/
structure Task.Fits (t : Task) : Prop where
  title : 1 ≤ (sqlTrim t.title).length ∧ (sqlTrim t.title).length ≤ 240
  description : t.description.length ≤ 10000
  timed : Timed t.scheduledStart t.scheduledEnd

/-- The tables a completion meets: those of a reachable state, with the constraints of the schema. -/
structure Stored (db : Db) : Prop where
  tasks : db.TasksValid
  timezone : 1 ≤ db.timezone.length ∧ db.timezone.length ≤ 64
  events : ∀ e ∈ db.events, Db.checkEvent e.toLocalEvent = .ok ()
  rows : ∀ t ∈ db.tasks, Task.Fits t.toTask
  saved : ∀ t ∈ db.tasks, Task.Fits (successorSource t)

variable {db db' : Db} {toLowercase : String → String} {task : Uuid} {r : UpdateTaskRequest}
  {scope : Option RecurrenceEditScope} {row prepared : TaskRow} {labels : List String}

/-! ## The event of an occurrence -/

/-- The written event of a task is that of an event it had, or a new one. -/
theorem placed_content (db : Db) (t : Task) (startsAt endsAt : DateTime) :
    ((placed t startsAt endsAt db).1.title = t.title ∧ (placed t startsAt endsAt db).1.description = t.description ∧
      (placed t startsAt endsAt db).1.startsAt = startsAt ∧ (placed t startsAt endsAt db).1.endsAt = endsAt ∧
      (placed t startsAt endsAt db).1.timezone = db.timezone) ∧
    (((placed t startsAt endsAt db).1.location = "" ∧ (placed t startsAt endsAt db).1.recurrenceUntil = none) ∨
      ∃ e ∈ db.events, (placed t startsAt endsAt db).1.location = e.location ∧
        (placed t startsAt endsAt db).1.recurrence = e.recurrence ∧
        (placed t startsAt endsAt db).1.recurrenceUntil = e.recurrenceUntil) := by
  have hzone : (unplaced t.id (preferredTimeBlockCalendar db).1 (preferredTimeBlockCalendar db).2).timezone =
      db.timezone :=
    (beside_unplaced _ _).timezone.trans beside_preferredTimeBlockCalendar.timezone
  have hevents : (unplaced t.id (preferredTimeBlockCalendar db).1 (preferredTimeBlockCalendar db).2).events =
      db.events := by
    rw [unplaced_events, preferredTimeBlockCalendar_events]
  unfold placed upsertTaskEvent
  cases he : (unplaced t.id (preferredTimeBlockCalendar db).1 (preferredTimeBlockCalendar db).2).taskEvent? t.id with
  | none => exact ⟨⟨rfl, rfl, rfl, rfl, hzone⟩, .inl ⟨rfl, rfl⟩⟩
  | some e =>
    refine ⟨⟨rfl, rfl, rfl, rfl, hzone⟩, .inr ⟨e, ?_, rfl, rfl, rfl⟩⟩
    rw [← hevents]
    exact List.mem_of_find?_eq_some he

/-- The event of a task that fits can be written. -/
theorem syncTaskCalendarEvent_fits {t : Task} (ht : Task.Fits t)
    (hz : 1 ≤ db.timezone.length ∧ db.timezone.length ≤ 64)
    (hevents : ∀ e ∈ db.events, Db.checkEvent e.toLocalEvent = .ok ()) :
    ∃ db', syncTaskCalendarEvent t db = .ok ((), db') := by
  rcases ht.timed with ⟨hs, -⟩ | ⟨startsAt, endsAt, hs, he, hlt⟩
  · exact ⟨_, syncTaskCalendarEvent_unscheduled (.inl hs)⟩
  · obtain ⟨⟨htitle, hdescription, hstart, hend, hzone⟩, hrest⟩ := placed_content db t startsAt endsAt
    have hc : Db.checkEvent (placed t startsAt endsAt db).1.toLocalEvent = .ok () := by
      rw [Db.checkEvent_ok_iff, htitle, hdescription, hstart, hend, hzone]
      refine ⟨ht.title, ht.description, hz, ?_⟩
      rcases hrest with ⟨hl, hu⟩ | ⟨e, hmem, hl, hr, hu⟩
      · rw [hl, hu]
        exact ⟨by decide, hlt, .inr rfl⟩
      · obtain ⟨-, -, -, hloc, -, hrec⟩ := (Db.checkEvent_ok_iff _).1 (hevents e hmem)
        rw [hl, hr, hu]
        exact ⟨hloc, hlt, hrec⟩
    exact ⟨_, (syncTaskCalendarEvent_scheduled hs he).trans (by rw [hc]; rfl)⟩

/-- The events that are written met their constraints. -/
theorem syncTaskCalendarEvent_events {t : Task} {a : Unit} (h : syncTaskCalendarEvent t db = .ok (a, db'))
    (hevents : ∀ e ∈ db.events, Db.checkEvent e.toLocalEvent = .ok ()) :
    ∀ e ∈ db'.events, Db.checkEvent e.toLocalEvent = .ok () := by
  intro e he
  rcases syncTaskCalendarEvent_ok h with ⟨startsAt, endsAt, -, -, hc, rfl⟩ | ⟨-, rfl⟩
  · rw [markEventForSync_events] at he
    rcases mem_placed_events he with he | rfl
    · exact hevents e he
    · exact hc
  · unfold removeTaskCalendarEvent at he
    split at he
    · have hold := (mem_delete.1 he).1
      rw [markEventForSync_events] at hold
      exact hevents e hold
    · exact hevents e he

/-- An error the code raises, no panic. -/
def Raised (e : AppError) : Prop := e ≠ .panicked

theorem errs_syncTaskCalendarEvent (t : Task) : Tx.Errs Raised (syncTaskCalendarEvent t) := by
  intro db e he
  cases hs : t.scheduledStart with
  | none =>
    rw [syncTaskCalendarEvent_unscheduled (.inl hs)] at he
    cases he
  | some startsAt =>
    cases hend : t.scheduledEnd with
    | none =>
      rw [syncTaskCalendarEvent_unscheduled (.inr hend)] at he
      cases he
    | some endsAt =>
      rw [syncTaskCalendarEvent_scheduled hs hend] at he
      cases hc : Db.checkEvent (placed t startsAt endsAt db).1.toLocalEvent with
      | ok _ =>
        rw [hc] at he
        cases he
      | error c =>
        rw [hc] at he
        cases he
        simp [Raised]

/-! ## The successor -/

/-- The dates of the occurrence all exist one period later. -/
def Shifted (source : Task) (dueAt nextDueAt : DateTime) (next : Task) : Prop :=
  source.dueAt = some dueAt ∧ nextRecurrenceDate dueAt source.recurrence = .ok nextDueAt ∧
  next.dueAt = some nextDueAt ∧
  next.scheduledStart = source.scheduledStart.map (· + (nextDueAt - dueAt)) ∧
  next.scheduledEnd = source.scheduledEnd.map (· + (nextDueAt - dueAt)) ∧
  next.remindAt = source.remindAt.map (· + (nextDueAt - dueAt)) ∧
  ∀ t, next.scheduledStart = some t ∨ next.scheduledEnd = some t ∨ next.remindAt = some t →
    minUtc ≤ t ∧ t ≤ maxUtc

/-- The shift to the next occurrence takes a date of the present one out of the range of instants. -/
def Overflows (source : Task) : Prop :=
  ∃ dueAt nextDueAt, source.dueAt = some dueAt ∧ nextRecurrenceDate dueAt source.recurrence = .ok nextDueAt ∧
    shiftable source (nextDueAt - dueAt) = false

/-- There is no next deadline. -/
def OutOfRange (source : Task) : Prop :=
  ∃ dueAt e, source.dueAt = some dueAt ∧ nextRecurrenceDate dueAt source.recurrence = .error e

theorem OutOfRange.not_overflows {source : Task} (h : OutOfRange source) : ¬ Overflows source := by
  rintro ⟨dueAt, nextDueAt, hd, hn, -⟩
  obtain ⟨dueAt', e, hd', he⟩ := h
  obtain rfl := Option.some.inj (hd.symm.trans hd')
  rw [hn] at he
  cases he

theorem shiftable_iff {source : Task} {shift : TimeDelta} : shiftable source shift = true ↔
    ∀ t, source.scheduledStart = some t ∨ source.scheduledEnd = some t ∨ source.remindAt = some t →
      minUtc ≤ t + shift ∧ t + shift ≤ maxUtc := by
  have hone : ∀ value : Option DateTime, (value.all fun t => (checkedAddSigned t shift).isSome) = true ↔
      ∀ t, value = some t → minUtc ≤ t + shift ∧ t + shift ≤ maxUtc := by
    intro value
    cases value with
    | none => simp
    | some t =>
      unfold checkedAddSigned
      simp
  unfold shiftable
  rw [List.all_cons, List.all_cons, List.all_cons, List.all_nil]
  simp only [Bool.and_eq_true, hone, and_true]
  constructor
  · rintro ⟨hs, he, hm⟩ t (h | h | h)
    · exact hs t h
    · exact he t h
    · exact hm t h
  · intro h
    exact ⟨fun t ht => h t (.inl ht), fun t ht => h t (.inr (.inl ht)), fun t ht => h t (.inr (.inr ht))⟩

theorem successor_shifted {source : Task} {dueAt nextDueAt : DateTime} (id : Uuid) (position : Int) (now : DateTime)
    (hd : source.dueAt = some dueAt) (hn : nextRecurrenceDate dueAt source.recurrence = .ok nextDueAt)
    (hs : shiftable source (nextDueAt - dueAt) = true) :
    Shifted source dueAt nextDueAt (successor source id nextDueAt (nextDueAt - dueAt) position now).toTask := by
  refine ⟨hd, hn, rfl, rfl, rfl, rfl, fun t ht => ?_⟩
  simp only [successor, Option.map_eq_some_iff] at ht
  rcases ht with ⟨u, hu, rfl⟩ | ⟨u, hu, rfl⟩ | ⟨u, hu, rfl⟩
  · exact shiftable_iff.1 hs u (.inl hu)
  · exact shiftable_iff.1 hs u (.inr (.inl hu))
  · exact shiftable_iff.1 hs u (.inr (.inr hu))

theorem successorSource_id (row : TaskRow) : (successorSource row).id = row.id := by
  unfold successorSource
  split <;> rfl

theorem createNextRecurringTask_outOfRange {dueAt : DateTime} {e : AppError} (hrow : db.task? task = some row)
    (hd : (successorSource row).dueAt = some dueAt)
    (hn : nextRecurrenceDate dueAt (successorSource row).recurrence = .error e) :
    createNextRecurringTask task db = .error e := by
  unfold createNextRecurringTask
  simp only [Tx.read_bind_run, hrow, Tx.write_bind_run, hd, hn]
  rfl

theorem createNextRecurringTask_overflow (hrow : db.task? task = some row) (ho : Overflows (successorSource row)) :
    createNextRecurringTask task db = .error .panicked := by
  obtain ⟨dueAt, nextDueAt, hd, hn, hs⟩ := ho
  unfold createNextRecurringTask
  simp only [Tx.read_bind_run, hrow, Tx.write_bind_run, hd, hn, Tx.ofExcept_ok, Tx.pure_bind_run, if_pos hs]
  rfl

/-- A successor of texts that fit is written, if all its dates exist and there is none yet. -/
theorem createNextRecurringTask_run {dueAt nextDueAt : DateTime} (hrow : db.task? task = some row)
    (hd : (successorSource row).dueAt = some dueAt)
    (hn : nextRecurrenceDate dueAt (successorSource row).recurrence = .ok nextDueAt)
    (hs : shiftable (successorSource row) (nextDueAt - dueAt) = true)
    (hfree : ∀ t ∈ db.tasks, t.recurrenceSourceId ≠ some row.id) (hfits : Task.Fits (successorSource row))
    (hz : 1 ≤ db.timezone.length ∧ db.timezone.length ≤ 64)
    (hevents : ∀ e ∈ db.events, Db.checkEvent e.toLocalEvent = .ok ()) :
    ∃ db', createNextRecurringTask task db = .ok ((), db') := by
  have hhas : Table.has (·.recurrenceSourceId == some (successorSource row).id) db.tasks = false := by
    refine has_eq_false_iff.2 fun t ht => beq_eq_false_iff_ne.2 ?_
    rw [successorSource_id]
    exact hfree t ht
  unfold createNextRecurringTask
  simp only [Tx.read_bind_run, hrow, Tx.write_bind_run, hd, hn, Tx.ofExcept_ok, Tx.pure_bind_run]
  rw [if_neg (by simp [hs]), if_neg (by simpa [ensureLabels] using has_eq_false_iff.1 hhas)]
  refine syncTaskCalendarEvent_fits ⟨hfits.title, hfits.description, ?_⟩ hz hevents
  rcases hfits.timed with ⟨hs, he⟩ | ⟨s, e, hs, he, hlt⟩
  · exact .inl ⟨by rw [successor, hs]; rfl, by rw [successor, he]; rfl⟩
  · refine .inr ⟨s + (nextDueAt - dueAt), e + (nextDueAt - dueAt), by rw [successor, hs]; rfl, by rw [successor, he]; rfl, ?_⟩
    exact Int.add_lt_add_right hlt _

theorem createNextRecurringTask_panicked (h : createNextRecurringTask task db = .error .panicked) :
    ∃ row, db.task? task = some row ∧ Overflows (successorSource row) := by
  unfold createNextRecurringTask at h
  rw [Tx.read_bind_run] at h
  cases hrow : db.task? task with
  | none =>
    simp only [hrow] at h
    cases h
  | some row =>
    refine ⟨row, rfl, ?_⟩
    simp only [hrow, Tx.write_bind_run] at h
    cases hd : (successorSource row).dueAt with
    | none =>
      simp only [hd] at h
      cases h
    | some dueAt =>
      simp only [hd] at h
      cases hn : nextRecurrenceDate dueAt (successorSource row).recurrence with
      | error e =>
        simp only [hn] at h
        unfold nextRecurrenceDate at hn
        simp only at hn
        split at hn <;> cases hn
        cases h
      | ok nextDueAt =>
        refine ⟨dueAt, nextDueAt, hd, hn, ?_⟩
        by_contra hs
        simp only [hn, Tx.ofExcept_ok, Tx.pure_bind_run, Tx.read_bind_run, if_neg hs] at h
        split at h
        · cases h
        · exact errs_syncTaskCalendarEvent _ _ _ h rfl

/-! ## The update -/

/-- The request completes an unfinished recurring task, and passes every check before it is written. -/
structure Completes (toLowercase : String → String) (task : Uuid) (r : UpdateTaskRequest)
    (scope : Option RecurrenceEditScope) (db : Db) (row prepared : TaskRow) (labels : List String) : Prop where
  fields : validateTaskFields r.toCreateTaskRequest = .ok ()
  labels : validateLabels toLowercase r.labels = .ok labels
  version : ¬ r.expectedVersion < 1
  parent : r.parentTaskId ≠ some task
  related : validateTaskRelationships r.projectId r.parentTaskId db = .ok ()
  updateRelated : validateTaskUpdateRelationships task r.projectId r.parentTaskId r.recurrence db = .ok ()
  found : db.task? task = some row
  prepared : prepare row r scope = .ok prepared
  unfinished : row.status ≠ .completed
  completed : r.status = .completed
  recurs : r.recurrence ≠ .none

/-- What is written of the completed occurrence. -/
def completedTask (task : Uuid) (updated : TaskRow) (db : Db) : Db :=
  ensureLabels updated.labels (db.updateTask task fun _ => updated)

theorem completedTask_task? {updated : TaskRow} (hrow : db.task? task = some row) (hid : updated.id = task) :
    (completedTask task updated db).task? task = some updated := by
  show (update (·.id == task) (fun _ => updated) db.tasks).find? _ = _
  have hfound : db.tasks.find? (fun t => some t.id == some task) = some row := hrow
  rw [find_update_const updated fun t ht => ?_, hfound]
  · simp [(task?_mem hrow).2]
  · rw [hid, beq_iff_eq.1 ht]

theorem updateTaskScoped_completes {db₂ : Db} (h : Completes toLowercase task r scope db row prepared labels)
    (hsync : syncTaskCalendarEvent (updatedTask r labels prepared db.now row).toTask
      (completedTask task (updatedTask r labels prepared db.now row) db) = .ok ((), db₂)) :
    updateTaskScoped toLowercase task r scope db =
      (createNextRecurringTask task >>= fun _ => pure (updatedTask r labels prepared db.now row).toTask) db₂ := by
  unfold updateTaskScoped
  rw [h.fields, h.labels]
  simp only [Tx.ofExcept_ok, Tx.pure_bind_run, Tx.read_bind_run, if_neg h.version, if_neg h.parent, h.related,
    h.updateRelated, h.found, h.prepared]
  rw [if_neg (fun hc => h.unfinished hc.1)]
  simp only [Tx.read_bind_run, Tx.write_bind_run]
  refine (Tx.bind_run_ok hsync).trans ?_
  rw [if_pos ⟨h.unfinished, h.completed, h.recurs⟩]

/-! ## One task -/

/-- The tables of a user with one task, without calendars. -/
def soloTables (row : TaskRow) : Db where
  now := 0
  nextId := row.id + 1
  policy := none
  timezone := "UTC"
  calendars := []
  events := []
  mappings := []
  conflicts := []
  jobs := []
  undos := []
  tasks := [row]
  projects := []
  labels := []
  activity := []

theorem stored_soloTables (hparent : row.parentTaskId = none) (hproject : row.projectId = none)
    (hrecurrence : row.recurrenceProjectId = none) (hsource : row.recurrenceSourceId = none) (hversion : 1 ≤ row.version)
    (hfits : Task.Fits row.toTask) (hsaved : Task.Fits (successorSource row)) : Stored (soloTables row) := by
  have hmem : ∀ {t : TaskRow}, t ∈ (soloTables row).tasks → t = row := List.mem_singleton.1
  have hroot : ∀ id, parentOf [row] id = none := by
    intro id
    unfold parentOf
    cases hfind : [row].find? fun t => some t.id == some id with
    | none => rfl
    | some t =>
      rw [hmem (List.mem_of_find?_eq_some hfind)]
      exact hparent
  have hzone : 1 ≤ (soloTables row).timezone.length ∧ (soloTables row).timezone.length ≤ 64 := by
    show 1 ≤ "UTC".length ∧ "UTC".length ≤ 64
    decide
  refine ⟨⟨⟨List.pairwise_singleton _ _, ?_, ?_⟩, ⟨List.pairwise_singleton _ _, ?_, ?_, ?_⟩, ?_, ?_, ?_⟩, hzone, ?_, ?_, ?_⟩
  · intro id hid
    obtain ⟨b, hb, -⟩ := TransGen.head'_iff.1 hid
    have hnone := hroot id
    rw [show parentOf [row] id = some b from hb] at hnone
    cases hnone
  · intro t ht p hp
    rw [hmem ht, hparent] at hp
    cases hp
  · intro t ht s hs
    rw [hmem ht, hsource] at hs
    cases hs
  · intro t ht hs
    rw [hmem ht, hsource] at hs
    exact absurd rfl hs
  · intro t ht
    rw [hmem ht]
    exact hversion
  · intro t ht
    rw [hmem ht]
    exact Nat.lt_succ_self _
  · intro t ht p hp
    rw [hmem ht, hproject] at hp
    cases hp
  · intro t ht p hp
    rw [hmem ht, hrecurrence] at hp
    cases hp
  · intro e he
    cases he
  · intro t ht
    rw [hmem ht]
    exact hfits
  · intro t ht
    rw [hmem ht]
    exact hsaved


/-! ## The outcome -/

/-- The update has left a successor with all its dates one period later. -/
def Advances (toLowercase : String → String) (task : Uuid) (r : UpdateTaskRequest) (scope : Option RecurrenceEditScope)
    (db : Db) (source : Task) : Prop :=
  ∃ a db' next dueAt nextDueAt, updateTaskScoped toLowercase task r scope db = .ok (a, db') ∧ next ∈ db'.tasks ∧
    next.recurrenceSourceId = some task ∧ Shifted source dueAt nextDueAt next.toTask

/-- The update has been refused with a validation error, and the tables are as they were. -/
def Refused (toLowercase : String → String) (task : Uuid) (r : UpdateTaskRequest) (scope : Option RecurrenceEditScope)
    (db : Db) : Prop :=
  ∃ message, (updateTaskScoped toLowercase task r scope).commit db = (.error (.validation message), db)

/-- What a successor takes over from its source, and what it starts with. -/
structure Follows (source : Task) (next : TaskRow) : Prop where
  projectId : next.projectId = source.projectId
  title : next.title = source.title
  description : next.description = source.description
  priority : next.priority = source.priority
  recurrence : next.recurrence = source.recurrence
  labels : next.labels = source.labels
  dates : ∃ dueAt nextDueAt, Shifted source dueAt nextDueAt next.toTask
  parentTaskId : next.parentTaskId = none
  todo : next.status = .todo
  completedAt : next.completedAt = none
  version : next.version = 1
  recurrenceDefaults : next.recurrenceDefaults = none
  recurrenceProjectId : next.recurrenceProjectId = none

/-- The row of a task after its update. -/
theorem Updated.task? {updated : TaskRow} (hu : Updated toLowercase task r scope db db' row updated)
    (hids : Unique (fun t : TaskRow => some t.id) db.tasks) : db'.task? task = some updated := by
  obtain ⟨labels, prepared, -, -, heq⟩ := hu.written
  obtain ⟨hrow, hid⟩ := task?_mem hu.found
  obtain ⟨db₁, db₂, hreopen, hsync, hnext⟩ := hu.steps
  have hfound : ∃ row₁, db₁.task? task = some row₁ := by
    rcases Db.ite_pure_ok hreopen with ⟨⟨hdone, -⟩, hremove⟩ | ⟨-, rfl⟩
    · rcases removeNextOccurrenceForReopen_ok hremove with ⟨-, rfl⟩ | ⟨next, hfind, htodo, -, rfl⟩
      · exact ⟨row, hu.found⟩
      · -- the task itself is completed, so that it is not the occurrence that goes
        have hne : ∀ t ∈ db.tasks, (some t.id == some task) = true → (t.id == next.id) = false := by
          intro t ht heq
          obtain rfl : t = row := hids.eq ht hrow rfl (by rw [hid]; exact (beq_iff_eq.1 heq).symm)
          refine beq_false_of_ne fun heq => ?_
          rw [hids.eq ht (List.mem_of_find?_eq_some hfind) rfl (by rw [heq]), htodo] at hdone
          cases hdone
        refine ⟨if row.recurrenceSourceId == some next.id then { row with recurrenceSourceId := none } else row, ?_⟩
        show (update _ _ (delete (·.id == next.id) db.tasks)).find? _ = _
        rw [find_update (by intro; rfl), find_delete hne]
        have hfound : db.tasks.find? (fun t => some t.id == some task) = some row := hu.found
        rw [hfound]
        rfl
    · exact ⟨row, hu.found⟩
  obtain ⟨row₁, hrow₁⟩ := hfound
  have hwritten : db₂.task? task = some updated := by
    rw [(beside_syncTaskCalendarEvent _ _ _ _ hsync).task?]
    exact completedTask_task? hrow₁ (by rw [heq]; exact hid)
  rcases Db.ite_pure_ok hnext with ⟨-, hcreate⟩ | ⟨-, rfl⟩
  · -- the successor comes after it
    obtain ⟨_, _, _, _, mid, -, -, -, -, -, -, rfl, hsync'⟩ := createNextRecurringTask_ok hcreate
    rw [(beside_syncTaskCalendarEvent _ _ _ _ hsync').task?]
    have hold : db₂.tasks.find? (fun t => some t.id == some task) = some updated := hwritten
    show (db₂.tasks ++ [_]).find? _ = _
    rw [List.find?_append, hold]
    rfl
  · exact hwritten

/-- The successor a completion leaves. -/
theorem completes_next {a : Task} {next : TaskRow} (hfound : db.task? task = some row)
    (hopen : row.status ≠ .completed) (hdone : r.status = .completed) (hrec : r.recurrence ≠ .none)
    (h : updateTaskScoped toLowercase task r scope db = .ok (a, db')) (hnext : next ∈ db'.tasks)
    (hsource : next.recurrenceSourceId = some task) :
    ∃ labels prepared, validateLabels toLowercase r.labels = .ok labels ∧ prepare row r scope = .ok prepared ∧
      Follows (successorSource (updatedTask r labels prepared db.now row)) next := by
  obtain ⟨found, updated, -, hu⟩ := updateTaskScoped_ok h
  obtain rfl : row = found := Option.some.inj (hfound.symm.trans hu.found)
  obtain ⟨labels, prepared, hlabels, hprepared, hupdated⟩ := hu.written
  obtain ⟨db₁, db₂, hreopen, hsync, hcreate⟩ := hu.steps
  rw [if_neg fun hc => hopen hc.1] at hreopen
  cases hreopen
  rw [if_pos ⟨hopen, by rw [hupdated]; exact hdone, by rw [hupdated]; exact hrec⟩] at hcreate
  obtain ⟨found, dueAt, nextDueAt, successor, mid, hf, hd, hn, hs, hfree, hsucc, hmid, hsync'⟩ :=
    createNextRecurringTask_ok hcreate
  have huid : updated.id = task := by
    rw [hupdated]
    exact (task?_mem hfound).2
  have hwritten : db₂.task? task = some updated := by
    rw [(beside_syncTaskCalendarEvent _ _ _ _ hsync).task?]
    exact completedTask_task? hfound huid
  obtain rfl : updated = found := Option.some.inj (hwritten.symm.trans hf)
  -- no other row has the completed one for its source
  obtain rfl : next = successor := by
    rw [(beside_syncTaskCalendarEvent _ _ _ _ hsync').tasks, hmid] at hnext
    rcases List.mem_append.1 hnext with hold | hnew
    · have hno := has_eq_false_iff.1 hfree next hold
      rw [successorSource_id, huid, hsource, beq_self_eq_true] at hno
      cases hno
    · exact List.mem_singleton.1 hnew
  refine ⟨labels, prepared, hlabels, hprepared, ?_⟩
  rw [← hupdated, hsucc]
  exact ⟨rfl, rfl, rfl, rfl, rfl, rfl, ⟨dueAt, nextDueAt, successor_shifted _ _ _ hd hn hs⟩, rfl, rfl, rfl, rfl, rfl, rfl⟩

/-- The source of the successor fits whatever the update does to an exception. -/
theorem successorSource_fits (hs : Stored db) (h : Completes toLowercase task r scope db row prepared labels) :
    Task.Fits (successorSource (updatedTask r labels prepared db.now row)) ∧
      (successorSource (updatedTask r labels prepared db.now row)).dueAt ≠ none := by
  obtain ⟨hmem, -⟩ := task?_mem h.found
  have hfields := (validateTaskFields_ok_iff _).1 h.fields
  have hrequest : Task.Fits (updatedTask r labels prepared db.now row).toTask :=
    ⟨by rw [show (updatedTask r labels prepared db.now row).title = trim r.title from rfl, sqlTrim_trim]; exact hfields.title,
      (length_trim_le _).trans hfields.description, hfields.timed⟩
  have hdue : r.dueAt ≠ none := (hfields.recurs h.recurs).1
  rcases (prepare_ok h.prepared).2 with ⟨d, hd, -, -, rfl⟩ | rfl | ⟨-, hkept⟩
  · -- what the exception saves is the row as it was
    unfold defaultsFromTask at hd
    cases hrd : row.dueAt with
    | none =>
      rw [hrd] at hd
      cases hd
    | some dueAt =>
      rw [hrd] at hd
      cases hd
      exact ⟨⟨(hs.rows row hmem).title, (hs.rows row hmem).description, (hs.rows row hmem).timed⟩, by
        simp [successorSource, updatedTask]⟩
  · exact ⟨hrequest, hdue⟩
  · subst hkept
    cases hd : prepared.recurrenceDefaults with
    | none =>
      have hsource : successorSource (updatedTask r labels prepared db.now prepared) = (updatedTask r labels prepared db.now prepared).toTask := by
        unfold successorSource updatedTask
        simp only [hd]
      rw [hsource]
      exact ⟨hrequest, hdue⟩
    | some d =>
      have hsaved := hs.saved prepared hmem
      have hsource : successorSource (updatedTask r labels prepared db.now prepared) =
          { (updatedTask r labels prepared db.now prepared).toTask with
            projectId := prepared.recurrenceProjectId, title := d.title, description := d.description, dueAt := some d.dueAt,
            scheduledStart := d.scheduledStart, scheduledEnd := d.scheduledEnd, priority := d.priority,
            recurrence := d.recurrence, labels := d.labels, remindAt := d.remindAt } := by
        unfold successorSource updatedTask
        simp only [hd]
      unfold successorSource at hsaved
      simp only [hd] at hsaved
      rw [hsource]
      exact ⟨⟨hsaved.title, hsaved.description, hsaved.timed⟩, by simp⟩

/-- An unfinished task has no successor yet, and its completion does not make it one. -/
theorem completedTask_free (hs : Stored db) (hrow : db.task? task = some row) (hunfinished : row.status ≠ .completed)
    (labels : List String) (prepared : TaskRow) :
    ∀ t ∈ (completedTask task (updatedTask r labels prepared db.now row) db).tasks, t.recurrenceSourceId ≠ some task := by
  obtain ⟨hmem, hid⟩ := task?_mem hrow
  have hold : ∀ t ∈ db.tasks, t.recurrenceSourceId ≠ some task := by
    intro t ht hsource
    obtain ⟨q, hq, hqid, hdone⟩ := hs.tasks.lineage.completed t ht task hsource
    obtain rfl := hs.tasks.graph.ids.eq hq hmem (congrArg some hqid) (congrArg some hid)
    exact hunfinished hdone
  intro t ht
  rcases mem_update.1 ht with ⟨ht, -⟩ | ⟨_, -, -, rfl⟩
  · exact hold t ht
  · exact hold row hmem

/-- A completion that passes the checks ends in one of three ways, as its dates have it. -/
theorem completes_outcome (hs : Stored db) (h : Completes toLowercase task r scope db row prepared labels) :
    (Advances toLowercase task r scope db (successorSource (updatedTask r labels prepared db.now row)) ∧
        ¬ Overflows (successorSource (updatedTask r labels prepared db.now row))) ∨
      (Refused toLowercase task r scope db ∧
        OutOfRange (successorSource (updatedTask r labels prepared db.now row))) ∨
      (updateTaskScoped toLowercase task r scope db = .error .panicked ∧
        Overflows (successorSource (updatedTask r labels prepared db.now row))) := by
  obtain ⟨hmem, hid⟩ := task?_mem h.found
  obtain ⟨hfits, hdue⟩ := successorSource_fits hs h
  obtain ⟨dueAt, hd⟩ := Option.ne_none_iff_exists'.1 hdue
  have hfields := (validateTaskFields_ok_iff _).1 h.fields
  have hwritten : Task.Fits (updatedTask r labels prepared db.now row).toTask :=
    ⟨by rw [show (updatedTask r labels prepared db.now row).title = trim r.title from rfl, sqlTrim_trim]; exact hfields.title,
      (length_trim_le _).trans hfields.description, hfields.timed⟩
  obtain ⟨db₂, hsync⟩ : ∃ db₂, syncTaskCalendarEvent (updatedTask r labels prepared db.now row).toTask
      (completedTask task (updatedTask r labels prepared db.now row) db) = .ok ((), db₂) :=
    syncTaskCalendarEvent_fits hwritten hs.timezone hs.events
  have hrun := updateTaskScoped_completes h hsync
  have hbeside := beside_syncTaskCalendarEvent _ _ _ _ hsync
  have hfound : db₂.task? task = some (updatedTask r labels prepared db.now row) := by
    rw [hbeside.task?]
    exact completedTask_task? h.found hid
  have hfree : ∀ t ∈ db₂.tasks, t.recurrenceSourceId ≠ some (updatedTask r labels prepared db.now row).id := by
    rw [hbeside.tasks, show (updatedTask r labels prepared db.now row).id = task from hid]
    exact completedTask_free hs h.found h.unfinished labels prepared
  have hzone : 1 ≤ db₂.timezone.length ∧ db₂.timezone.length ≤ 64 := by
    rw [hbeside.timezone]
    exact hs.timezone
  have hevents := syncTaskCalendarEvent_events hsync hs.events
  have huid : (updatedTask r labels prepared db.now row).id = task := hid
  generalize updatedTask r labels prepared db.now row = updated at *
  cases hn : nextRecurrenceDate dueAt (successorSource updated).recurrence with
  | error e =>
    refine .inr (.inl ⟨?_, dueAt, e, hd, hn⟩)
    have hmessage : e = .validation "recurrence date is out of range" := by
      unfold nextRecurrenceDate at hn
      simp only at hn
      split at hn <;> cases hn
      rfl
    refine ⟨"recurrence date is out of range", ?_⟩
    unfold Tx.commit
    rw [hrun, Tx.bind_run_error (createNextRecurringTask_outOfRange hfound hd hn), hmessage]
  | ok nextDueAt =>
    by_cases hshift : shiftable (successorSource updated) (nextDueAt - dueAt) = true
    · have hno : ¬ Overflows (successorSource updated) := by
        rintro ⟨d, next, hd', hn', hs'⟩
        rw [hd] at hd'
        cases hd'
        rw [hn] at hn'
        cases hn'
        rw [hshift] at hs'
        cases hs'
      refine .inl ⟨?_, hno⟩
      obtain ⟨db', hnext⟩ := createNextRecurringTask_run hfound hd hn hshift hfree hfits hzone hevents
      obtain ⟨found, d, n, next, mid, hf, hd', hn', hs', -, heq, rfl, hsync'⟩ := createNextRecurringTask_ok hnext
      obtain rfl : updated = found := Option.some.inj (hfound.symm.trans hf)
      refine ⟨updated.toTask, db', next, d, n, ?_, ?_, ?_, heq ▸ successor_shifted _ _ _ hd' hn' hs'⟩
      · rw [hrun, Tx.bind_run_ok hnext]
        rfl
      · rw [(beside_syncTaskCalendarEvent _ _ _ _ hsync').tasks]
        exact List.mem_append_right _ List.mem_cons_self
      · rw [heq, successor, successorSource_id, huid]
    · have ho : Overflows (successorSource updated) := ⟨dueAt, nextDueAt, hd, hn, eq_false_of_ne_true hshift⟩
      refine .inr (.inr ⟨?_, ho⟩)
      rw [hrun, Tx.bind_run_error (createNextRecurringTask_overflow hfound ho)]

/-! ## No other panic -/

theorem errs_validateTaskFields (r : CreateTaskRequest) : Errs Raised (validateTaskFields r) := by
  unfold validateTaskFields
  refine .refuse (by simp [Raised]) (.refuse (by simp [Raised]) (.refuse (by simp [Raised]) (.refuse (by simp [Raised]) ?_)))
  split
  · exact .ok ()
  · split
    · exact .ok ()
    · exact .error (by simp [Raised])
  · exact .error (by simp [Raised])

theorem errs_normalizeLabels : ∀ seen labels : List String, Errs Raised (normalizeLabels toLowercase seen labels)
  | _, [] => .ok _
  | seen, label :: rest => by
    unfold normalizeLabels
    simp only
    split
    · exact errs_normalizeLabels seen rest
    · split
      · exact .error (by simp [Raised])
      · split
        · exact errs_normalizeLabels seen rest
        · exact errs_normalizeLabels _ rest

theorem errs_validateLabels (labels : List String) : Errs Raised (validateLabels toLowercase labels) := by
  unfold validateLabels
  refine .bind (errs_normalizeLabels [] labels) fun names _ => ?_
  split
  · exact .error (by simp [Raised])
  · exact .ok _

theorem errs_validateTaskRelationships (project parent : Option Uuid) (db : Db) :
    Errs Raised (validateTaskRelationships project parent db) := by
  have hfits : ∀ (p : TaskRow) (m m' : String), Errs Raised (do
      if p.projectId ≠ project then throw (.validation m)
      if p.recurrence ≠ .none then throw (.validation m')) :=
    fun _ _ _ => .refuse (by simp [Raised]) (.refuse_last (by simp [Raised]))
  unfold validateTaskRelationships
  cases project with
  | none =>
    cases parent with
    | none => exact .ok ()
    | some parent =>
      simp only
      split
      · exact hfits _ _ _
      · exact .error (by simp [Raised])
  | some project =>
    refine .refuse (by simp [Raised]) ?_
    cases parent with
    | none => exact .ok ()
    | some parent =>
      simp only
      split
      · exact hfits _ _ _
      · exact .error (by simp [Raised])

theorem errs_validateTaskUpdateRelationships (task : Uuid) (project parent : Option Uuid) (recurrence : TaskRecurrence)
    (db : Db) : Errs Raised (validateTaskUpdateRelationships task project parent recurrence db) := by
  unfold validateTaskUpdateRelationships
  split
  · exact .error (by simp [Raised])
  · refine .refuse (by simp [Raised]) (.refuse (by simp [Raised]) ?_)
    split
    · exact .refuse_last (by simp [Raised])
    · exact .ok ()

theorem errs_prepare (row : TaskRow) (r : UpdateTaskRequest) (scope : Option RecurrenceEditScope) :
    Errs Raised (prepare row r scope) := by
  unfold prepare
  refine .refuse (by simp [Raised]) (.refuse (by simp [Raised]) ?_)
  match scope with
  | some .thisAndFuture => exact .ok _
  | none =>
    simp only
    split
    · exact .ok _
    · exact .ok _
  | some .thisOccurrence =>
    simp only
    split
    · exact .error (by simp [Raised])
    · split
      · refine .bind ?_ fun _ _ => .ok _
        unfold defaultsFromTask
        split
        · exact .error (by simp [Raised])
        · exact .ok _
      · exact .ok _

theorem errs_removeNextOccurrenceForReopen (task : Uuid) : Tx.Errs Raised (removeNextOccurrenceForReopen task) := by
  refine Tx.Errs.bind .read fun db => ?_
  split
  · exact .ite (fun _ => .write _) fun _ => .raise (by simp [Raised])
  · exact .pure ()

/-- A panic is that of a completion whose dates overflow. -/
theorem updateTaskScoped_panicked (h : updateTaskScoped toLowercase task r scope db = .error .panicked) :
    ∃ row prepared labels, Completes toLowercase task r scope db row prepared labels ∧
      Overflows (successorSource (updatedTask r labels prepared db.now row)) := by
  have hraised : ¬ Raised .panicked := fun h => h rfl
  unfold updateTaskScoped at h
  obtain ⟨⟨⟩, hfields, h⟩ := Tx.Errs.ofExcept_bind_error (errs_validateTaskFields _) hraised h
  obtain ⟨labels, hlabels, h⟩ := Tx.Errs.ofExcept_bind_error (errs_validateLabels _) hraised h
  split at h
  · cases h
  · rename_i hversion
    split at h
    · cases h
    · rename_i hparent
      rw [Tx.read_bind_run] at h
      obtain ⟨⟨⟩, hrelated, h⟩ := Tx.Errs.ofExcept_bind_error (errs_validateTaskRelationships _ _ _) hraised h
      obtain ⟨⟨⟩, hupdate, h⟩ := Tx.Errs.ofExcept_bind_error (errs_validateTaskUpdateRelationships _ _ _ _ _) hraised h
      cases hrow : db.task? task with
      | none =>
        simp only [hrow] at h
        cases h
      | some row =>
        simp only [hrow] at h
        obtain ⟨prepared, hprepared, h⟩ := Tx.Errs.ofExcept_bind_error (errs_prepare _ _ _) hraised h
        split at h
        · rename_i hreopen
          obtain ⟨_, db₁, -, h⟩ := Tx.Errs.bind_error (errs_removeNextOccurrenceForReopen task) hraised h
          rw [Tx.read_bind_run, Tx.write_bind_run] at h
          obtain ⟨_, db₂, -, h⟩ := Tx.Errs.bind_error (errs_syncTaskCalendarEvent _) hraised h
          rw [if_neg (fun hc => hc.1 hreopen.1)] at h
          cases h
        · rw [Tx.read_bind_run, Tx.write_bind_run] at h
          obtain ⟨⟨⟩, db₂, hsync, h⟩ := Tx.Errs.bind_error (errs_syncTaskCalendarEvent _) hraised h
          split at h
          · rename_i hdone
            refine ⟨row, prepared, labels, ⟨hfields, hlabels, hversion, hparent, hrelated, hupdate, hrow, hprepared,
              hdone.1, hdone.2.1, hdone.2.2⟩, ?_⟩
            rw [Tx.bind_run] at h
            cases hnext : createNextRecurringTask task db₂ with
            | ok p =>
              rw [hnext] at h
              cases h
            | error e =>
              rw [hnext] at h
              cases h
              obtain ⟨found, hf, ho⟩ := createNextRecurringTask_panicked hnext
              rw [(beside_syncTaskCalendarEvent _ _ _ _ hsync).task?] at hf
              have hfound : (completedTask task (updatedTask r labels prepared db.now row) db).task? task =
                  some (updatedTask r labels prepared db.now row) := completedTask_task? hrow (task?_mem hrow).2
              obtain rfl := Option.some.inj (hfound.symm.trans hf)
              exact ho
          · cases h

/-- What is asked of an update: a completion that passes the checks leaves a successor with all its
dates moved, or is refused for a date out of range; and no update panics. -/
def Sound (toLowercase : String → String) (task : Uuid) (r : UpdateTaskRequest) (scope : Option RecurrenceEditScope)
    (db : Db) : Prop :=
  updateTaskScoped toLowercase task r scope db ≠ .error .panicked ∧
    ∀ row prepared labels, Completes toLowercase task r scope db row prepared labels →
      Advances toLowercase task r scope db (successorSource (updatedTask r labels prepared db.now row)) ∨
        Refused toLowercase task r scope db

/-- The request that completes a task and leaves everything else as it is. -/
def completion (row : TaskRow) : UpdateTaskRequest where
  projectId := row.projectId
  parentTaskId := row.parentTaskId
  title := row.title
  description := row.description
  dueAt := row.dueAt
  scheduledStart := row.scheduledStart
  scheduledEnd := row.scheduledEnd
  status := .completed
  priority := row.priority
  recurrence := row.recurrence
  labels := row.labels
  remindAt := row.remindAt
  expectedVersion := row.version

/-- A daily task. -/
def standup : TaskRow where
  id := 1
  projectId := none
  parentTaskId := none
  title := "Stand-up"
  description := ""
  dueAt := some 0
  scheduledStart := none
  scheduledEnd := none
  status := .todo
  priority := .medium
  recurrence := .daily
  labels := []
  remindAt := none
  position := 1024
  completedAt := none
  createdAt := 0
  updatedAt := 0
  version := 1
  recurrenceSourceId := none
  recurrenceDefaults := none
  recurrenceProjectId := none

theorem stored_standup : Stored (soloTables standup) :=
  stored_soloTables rfl rfl rfl rfl (by decide) ⟨by decide, by decide, .inl ⟨rfl, rfl⟩⟩ ⟨by decide, by decide, .inl ⟨rfl, rfl⟩⟩

/-- The same task at the last hour there is. -/
def lastHour : TaskRow := { standup with scheduledStart := some (maxUtc - 3600000000), scheduledEnd := some maxUtc }

end Store

end Prosepect

/-
What operations on events, moves and deletions with a receipt do when they succeed: the rows they
have found, the checks that were passed, and the tables they leave.
-/
import Prosepect.Store.Actions
import Prosepect.Store.TaskFacts

namespace Prosepect

open Resumption Table Text Time

namespace Store

open Db

variable {db db' : Db}

/-! ## Events -/

/-- What `validate_event_request` asks for. -/
structure EventFieldsFit (r : CreateCalendarEventRequest) : Prop where
  title : 1 ≤ (trim r.title).length ∧ (trim r.title).length ≤ 240
  description : r.description.length ≤ 10000
  location : r.location.length ≤ 500
  range : r.startsAt < r.endsAt
  timezone : 1 ≤ (trim r.timezone).length ∧ r.timezone.length ≤ 64
  attendees : r.attendees.length ≤ 100
  ends : ∀ u, r.recurrenceUntil = some u → r.recurrence ≠ .none ∧ r.startsAt < u

theorem until_ok_iff {r : CreateCalendarEventRequest} : (match r.recurrence, r.recurrenceUntil with
      | .none, some _ => throw (.validation "recurrence_until requires a recurring event")
      | _, some until_ =>
        if until_ ≤ r.startsAt then throw (.validation "recurrence_until must be after the event start") else pure ()
      | _, none => pure () : Except AppError Unit) = .ok () ↔
      ∀ u, r.recurrenceUntil = some u → r.recurrence ≠ .none ∧ r.startsAt < u := by
  cases r.recurrenceUntil with
  | none => cases r.recurrence <;> simp [pure, Except.pure]
  | some u =>
    by_cases h : u ≤ r.startsAt
    · cases r.recurrence <;> simp [h, throw, throwThe, MonadExceptOf.throw]
    · cases r.recurrence <;> simp [h, throw, throwThe, MonadExceptOf.throw, pure, Except.pure, not_le.1 h]

theorem validateEventRequest_ok_iff (r : CreateCalendarEventRequest) : validateEventRequest r = .ok () ↔ EventFieldsFit r := by
  unfold validateEventRequest
  simp only [refuse_ok_iff]
  constructor
  · rintro ⟨ht, hd, hr, hz, ha, hu⟩
    exact ⟨by omega, by omega, by omega, not_le.1 hr, by omega, by omega, until_ok_iff.1 hu⟩
  · rintro ⟨ht, hd, hl, hr, hz, ha, hu⟩
    exact ⟨by omega, by omega, not_le.2 hr, by omega, by omega, until_ok_iff.2 hu⟩

theorem check_bind_ok {α : Type} {x : Except SqlError Unit} {f : Unit → StoreTx α} {a : α}
    (h : (check x >>= f) db = .ok (a, db')) : x = .ok () ∧ f () db = .ok (a, db') := by
  obtain ⟨⟨⟩, hx, h⟩ := Tx.ofExcept_bind_ok h
  refine ⟨?_, h⟩
  cases x with
  | ok _ => rfl
  | error e => cases hx

theorem ensureCalendarWritable_run {calendar : Uuid} {a : Unit} (h : ensureCalendarWritable calendar db = .ok (a, db')) :
    db' = db ∧ ∃ c, db.calendar? calendar = some c ∧ (c.source = .google → c.accessRole.writes = true) := by
  unfold ensureCalendarWritable at h
  rw [Tx.read_bind_run] at h
  cases hc : db.calendar? calendar with
  | none =>
    simp only [hc] at h
    cases h
  | some c =>
    simp only [hc] at h
    split at h
    · cases h
    · rename_i hw
      cases h
      exact ⟨rfl, c, rfl, fun hs => eq_true_of_ne_false fun hf => hw ⟨hs, hf⟩⟩

theorem createCalendarEvent_ok {toLowercase : String → String} {r : CreateCalendarEventRequest} {event : CalendarEvent}
    (h : createCalendarEvent toLowercase r db = .ok (event, db')) :
    ∃ attendees, validateEventRequest r = .ok () ∧ (∃ c ∈ db.calendars, c.id = r.calendarId) ∧
      event = { toLocalEvent := requestedContent db.nextId r attendees, calendarId := r.calendarId, linkedTaskId := none,
                createdAt := db.now, updatedAt := db.now, version := 1 } ∧
      checkEvent event.toLocalEvent = .ok () ∧ db' = markEventForSync event false (db.fresh.insertEvent event) := by
  unfold createCalendarEvent at h
  obtain ⟨⟨⟩, hr, h⟩ := Tx.ofExcept_bind_ok h
  obtain ⟨hcal, h⟩ := ensureCalendarWritable_ok h
  obtain ⟨attendees, -, h⟩ := Tx.ofExcept_bind_ok h
  rw [Tx.read_bind_run] at h
  obtain ⟨hc, h⟩ := check_bind_ok h
  cases h
  exact ⟨attendees, hr, hcal, rfl, hc, rfl⟩

/-- The schedule of the task of an event is written with it. -/
def reschedule (event : CalendarEvent) (db : Db) : Db :=
  match event.linkedTaskId with
  | some task => db.updateTask task (Task.reschedule (some event.startsAt) (some event.endsAt) db.now)
  | none => db

/-- The tables with an event changed, and its mapping marked, or in the calendar it leaves marked
as deleted. -/
def changeEvent (previous event : CalendarEvent) (db : Db) : Db :=
  let db := reschedule event (db.updateEvent event.id fun _ => event)
  let db := if previous.calendarId ≠ event.calendarId
    then detachEventMapping previous (markEventForSync previous true db) else db
  markEventForSync event false db

theorem updateCalendarEvent_ok {toLowercase : String → String} {id : Uuid} {r : UpdateCalendarEventRequest}
    {event : CalendarEvent} (h : updateCalendarEvent toLowercase id r db = .ok (event, db')) :
    ∃ previous attendees, validateEventRequest r.toCreateCalendarEventRequest = .ok () ∧ db.event? id = some previous ∧
      previous.version = r.expectedVersion ∧ (∃ c ∈ db.calendars, c.id = r.calendarId) ∧
      event = { previous with
        toLocalEvent := requestedContent id r.toCreateCalendarEventRequest attendees
        calendarId := r.calendarId, updatedAt := db.now, version := previous.version + 1 } ∧
      checkEvent event.toLocalEvent = .ok () ∧ db' = changeEvent previous event db := by
  unfold updateCalendarEvent at h
  obtain ⟨⟨⟩, hr, h⟩ := Tx.ofExcept_bind_ok h
  obtain ⟨hcal, h⟩ := ensureCalendarWritable_ok h
  rw [Tx.read_bind_run] at h
  cases hp : db.event? id with
  | none =>
    simp only [hp] at h
    obtain ⟨_, -, h⟩ := Tx.ofExcept_bind_ok h
    exact (eventError_ok h).elim
  | some previous =>
    simp only [hp] at h
    obtain ⟨-, h⟩ := ensureCalendarWritable_ok h
    obtain ⟨attendees, -, h⟩ := Tx.ofExcept_bind_ok h
    split at h
    · exact (eventError_ok h).elim
    · rename_i hv
      obtain ⟨hc, h⟩ := check_bind_ok h
      cases h
      exact ⟨previous, attendees, hr, rfl, not_not.1 hv, hcal, rfl, hc, rfl⟩

/-- The tables without an event, its mapping marked as deleted, and the task it stood for not
scheduled any more. -/
def dropEvent (event : CalendarEvent) (db : Db) : Db :=
  let db := (markEventForSync event true db).deleteEvent event.id
  match event.linkedTaskId with
  | some task => db.updateTask task (Task.reschedule none none db.now)
  | none => db

theorem deleteCalendarEvent_ok {id : Uuid} {expectedVersion : Int} {a : Unit}
    (h : deleteCalendarEvent id expectedVersion db = .ok (a, db')) :
    ∃ existing, db.event? id = some existing ∧ existing.version = expectedVersion ∧ db' = dropEvent existing db := by
  unfold deleteCalendarEvent at h
  rw [Tx.read_bind_run] at h
  cases he : db.event? id with
  | none =>
    simp only [he] at h
    exact (eventError_ok h).elim
  | some existing =>
    simp only [he] at h
    obtain ⟨-, hid⟩ := event?_mem he
    subst hid
    split at h
    · exact (eventError_ok h).elim
    · rename_i hv
      obtain ⟨-, h⟩ := ensureCalendarWritable_ok h
      cases h
      exact ⟨existing, rfl, not_not.1 hv, rfl⟩

end Store

/-! ## Transactions of the first tables -/

namespace Workspace

variable {w w' : Workspace}

theorem onDb_ok {α : Type} {t : StoreTx α} {a : α} (h : onDb t w = .ok (a, w')) :
    ∃ db, t w.db = .ok (a, db) ∧ w' = w.settle db := by
  unfold onDb at h
  split at h
  · cases h
    exact ⟨_, ‹_›, rfl⟩
  · cases h

theorem onDb_bind_ok {α β : Type} {t : StoreTx α} {f : α → WorkspaceTx β} {b : β}
    (h : (onDb t >>= f) w = .ok (b, w')) : ∃ a db, t w.db = .ok (a, db) ∧ f a (w.settle db) = .ok (b, w') := by
  obtain ⟨a, u, hu, h⟩ := Tx.bind_ok h
  obtain ⟨db, ht, rfl⟩ := onDb_ok hu
  exact ⟨a, db, ht, h⟩

/-- A refusal of the first tables is one. -/
theorem onDb_raise_ok {α : Type} {e : AppError} {a : α} (h : onDb (Tx.raise e) w = .ok (a, w')) : False := by
  obtain ⟨db, ht, -⟩ := onDb_ok h
  cases ht

end Workspace

namespace Store

open Db

variable {w w' : Workspace}

/-! ## Moves -/

theorem lockItem_ok {event : Uuid} {e : CalendarEvent} {task : Option TaskRow}
    (h : lockItem event w = .ok ((e, task), w')) :
    w' = w ∧ w.db.event? event = some e ∧
      ((e.linkedTaskId = none ∧ task = none) ∨
        ∃ id t, e.linkedTaskId = some id ∧ w.db.task? id = some t ∧ task = some t) := by
  unfold lockItem at h
  rw [Tx.read_bind_run] at h
  cases he : w.db.event? event with
  | none =>
    simp only [he] at h
    cases h
  | some e' =>
    simp only [he] at h
    cases hl : e'.linkedTaskId with
    | none =>
      simp only [hl] at h
      cases h
      exact ⟨rfl, rfl, .inl ⟨hl, rfl⟩⟩
    | some id =>
      simp only [hl] at h
      cases ht : w.db.task? id with
      | none =>
        simp only [ht] at h
        cases h
      | some t =>
        simp only [ht] at h
        cases h
        exact ⟨rfl, rfl, .inr ⟨id, t, hl, ht, rfl⟩⟩

theorem mappingGuard_ok {event : Uuid} {guard : Option MappingGuard} (h : mappingGuard event w = .ok (guard, w')) :
    w' = w ∧ guard = (w.db.mappingOf? event).map mappingGuardOf := by
  unfold mappingGuard at h
  rw [Tx.read_bind_run] at h
  split at h
  · cases h
  · cases h
    exact ⟨rfl, rfl⟩

theorem moveChanged_ok {α : Type} {a : α} (h : (moveChanged : WorkspaceTx α) w = .ok (a, w')) : False := by
  cases h

theorem lockMove_ok {locked : Bool} {a : Unit} (h : lockMove locked w = .ok (a, w')) : locked = false ∧ w' = w := by
  unfold lockMove at h
  split at h
  · cases h
  · cases h
    exact ⟨eq_false_of_ne_true ‹_›, rfl⟩

/-- The id of the event an item is moved by. -/
def itemEvent? (item : Uuid) (isTask : Bool) (db : Db) : Option Uuid :=
  if isTask then (db.taskEvent? item).map (·.id) else some item

theorem itemEvent_ok {item event : Uuid} {isTask : Bool} (h : itemEvent item isTask w = .ok (event, w')) :
    w' = w ∧ itemEvent? item isTask w.db = some event := by
  unfold itemEvent at h
  unfold itemEvent?
  cases isTask with
  | true =>
    rw [if_pos rfl] at h ⊢
    rw [Tx.read_bind_run] at h
    cases he : w.db.taskEvent? item with
    | none =>
      simp only [he] at h
      cases h
    | some e =>
      simp only [he] at h
      cases h
      exact ⟨rfl, rfl⟩
  | false =>
    cases h
    exact ⟨rfl, rfl⟩

/-- The new times of the task of an event that is moved. -/
def movedTask (task : Option TaskRow) (startsAt endsAt : DateTime) : Option (Uuid × Option DateTime × Option DateTime) :=
  task.map fun t => (t.id, some startsAt, some endsAt)

/-- The tables with an event moved and its mapping marked. -/
def moveEvent (e : CalendarEvent) (startsAt endsAt : DateTime) (task : Option (Uuid × Option DateTime × Option DateTime))
    (db : Db) : Db :=
  markEventForSync (writeSchedule e startsAt endsAt task db).1 false (writeSchedule e startsAt endsAt task db).2

theorem writeSchedule_fst_fresh (e : CalendarEvent) (startsAt endsAt : DateTime)
    (task : Option (Uuid × Option DateTime × Option DateTime)) (db : Db) :
    (writeSchedule e startsAt endsAt task db.fresh).1 = (writeSchedule e startsAt endsAt task db).1 := by
  cases task with
  | none => rfl
  | some _ => rfl

theorem moveCalendarItem_ok {locked isTask : Bool} {item : Uuid} {r : MoveCalendarItemRequest}
    {receipt : CalendarMoveUndo} (h : moveCalendarItem locked item isTask r w = .ok (receipt, w')) :
    ∃ e task w₁,
      (r.startsAt < r.endsAt ∧ itemEvent? item isTask w.db = some e.id ∧ ∀ u, e.recurrenceUntil = some u → r.startsAt < u) ∧
      w.db.event? e.id = some e ∧
      ((e.linkedTaskId = none ∧ task = none) ∨
        ∃ id t, e.linkedTaskId = some id ∧ w.db.task? id = some t ∧ task = some t) ∧
      receipt = { id := w.db.nextId, eventId := e.id, taskId := e.linkedTaskId, startsAt := e.startsAt, endsAt := e.endsAt,
                  taskStartsAt := task.bind (·.scheduledStart), taskEndsAt := task.bind (·.scheduledEnd),
                  eventVersion := e.version + 1, taskVersion := task.map (·.version + 1),
                  mappingGuard := (w.db.mappingOf? e.id).map mappingGuardOf, expiresAt := w.db.now + moveWindow } ∧
      w₁ = ((cleanupMoves w).settle w.db).settle (moveEvent e r.startsAt r.endsAt
        (movedTask task r.startsAt r.endsAt) w.db.fresh) ∧
      w' = { w₁ with moves := w₁.moves ++ [receipt] } := by
  unfold moveCalendarItem at h
  split at h
  · cases h
  · rename_i hr
    obtain ⟨_, u, hu, hrun⟩ := Tx.bind_ok h
    obtain ⟨-, rfl⟩ := lockMove_ok hu
    rw [Tx.write_bind_run, Tx.read_bind_run] at hrun
    split at hrun
    · cases hrun
    · obtain ⟨event, u, hevent, hrun⟩ := Tx.bind_ok hrun
      obtain ⟨rfl, hfound⟩ := itemEvent_ok hevent
      obtain ⟨⟨e, task⟩, u, hitem, hrun⟩ := Tx.bind_ok hrun
      obtain ⟨rfl, he, htask⟩ := lockItem_ok hitem
      simp only at hrun
      by_cases hv : (if isTask then task.map (·.version) else some e.version) ≠ some r.expectedVersion
      · rw [if_pos hv] at hrun
        exact (moveChanged_ok hrun).elim
      · rw [if_neg hv] at hrun
        split at hrun
        · cases hrun
        · split at hrun
          · cases hrun
          · rename_i huntil
            obtain ⟨_, db₁, hwritable, hrun⟩ := Workspace.onDb_bind_ok hrun
            obtain ⟨rfl, -⟩ := ensureCalendarWritable_run hwritable
            obtain ⟨guard, u, hguard, hrun⟩ := Tx.bind_ok hrun
            obtain ⟨rfl, rfl⟩ := mappingGuard_ok hguard
            obtain ⟨_, db₂, hwrite, hrun⟩ := Workspace.onDb_bind_ok hrun
            cases hwrite
            cases hrun
            obtain ⟨-, rfl⟩ := event?_mem he
            refine ⟨e, task, _, ⟨lt_of_not_ge fun hle => hr (.inr hle), hfound, ?_⟩, he, htask, rfl, rfl, ?_⟩
            · rintro u hu
              simp only [hu, Option.any_some, decide_eq_true_eq, not_le] at huntil
              exact huntil
            unfold moveEvent
            rw [writeSchedule_fst_fresh]
            rfl

theorem undoCalendarMove_ok {locked : Bool} {receipt : Uuid} {a : Unit}
    (h : undoCalendarMove locked receipt w = .ok (a, w')) :
    ∃ inverse e task w₁, w.moves.find? (·.id == receipt) = some inverse ∧ w.db.event? inverse.eventId = some e ∧
      ((e.linkedTaskId = none ∧ task = none) ∨
        ∃ id t, e.linkedTaskId = some id ∧ w.db.task? id = some t ∧ task = some t) ∧
      e.version = inverse.eventVersion ∧ e.linkedTaskId = inverse.taskId ∧ task.map (·.version) = inverse.taskVersion ∧
      w.db.now < inverse.expiresAt ∧ (w.db.mappingOf? e.id).map mappingGuardOf = inverse.mappingGuard ∧
      w₁ = (w.settle w.db).settle (moveEvent e inverse.startsAt inverse.endsAt
        (inverse.taskId.map fun id => (id, inverse.taskStartsAt, inverse.taskEndsAt)) w.db) ∧
      w' = cleanupMoves { w₁ with moves := Table.delete (·.id == receipt) w₁.moves } := by
  unfold undoCalendarMove at h
  obtain ⟨_, u, hu, hrun⟩ := Tx.bind_ok h
  obtain ⟨-, rfl⟩ := lockMove_ok hu
  rw [Tx.read_bind_run] at hrun
  cases hi : u.moves.find? (·.id == receipt) with
  | none =>
    simp only [hi] at hrun
    cases hrun
  | some inverse =>
    simp only [hi] at hrun
    obtain ⟨⟨e, task⟩, v, hitem, hrun⟩ := Tx.bind_ok hrun
    obtain ⟨rfl, he, htask⟩ := lockItem_ok hitem
    simp only at hrun
    split at hrun
    · cases hrun
    · rename_i hactive
      split at hrun
      · exact (moveChanged_ok hrun).elim
      · rename_i hsame
        obtain ⟨_, db₁, hwritable, hrun⟩ := Workspace.onDb_bind_ok hrun
        obtain ⟨rfl, -⟩ := ensureCalendarWritable_run hwritable
        obtain ⟨guard, v, hguard, hrun⟩ := Tx.bind_ok hrun
        obtain ⟨rfl, rfl⟩ := mappingGuard_ok hguard
        split at hrun
        · exact (moveChanged_ok hrun).elim
        · rename_i hmapping
          obtain ⟨_, db₂, hwrite, hrun⟩ := Workspace.onDb_bind_ok hrun
          cases hwrite
          cases hrun
          simp only [not_or, not_not] at hsame
          exact ⟨inverse, e, task, _, rfl, he, htask, hsame.1, hsame.2.1, hsame.2.2, lt_of_not_ge hactive,
            not_not.1 hmapping, rfl, rfl⟩

/-! ## Snapshots -/

theorem cap_ok {α : Type} {rows : List α} {max : Nat} {a : Unit} (h : cap rows max w = .ok (a, w')) :
    rows.length ≤ max ∧ w' = w := by
  unfold cap at h
  split at h
  · exact (Workspace.onDb_raise_ok h).elim
  · cases h
    exact ⟨by omega, rfl⟩

theorem dependency_ok {α : Type} {find : Uuid → Option α} {key : Option Uuid} {rows : List α}
    (h : dependency find key w = .ok (rows, w')) :
    w' = w ∧ (∀ id, key = some id → ∃ row ∈ rows, find id = some row) ∧
      ∀ row ∈ rows, ∃ id, key = some id ∧ find id = some row := by
  unfold dependency at h
  cases key with
  | none =>
    cases h
    refine ⟨rfl, ?_, ?_⟩
    · intro _ hid
      cases hid
    · intro _ hrow
      cases hrow
  | some id =>
    simp only at h
    cases hf : find id with
    | none =>
      simp only [hf] at h
      exact (Workspace.onDb_raise_ok h).elim
    | some row =>
      simp only [hf] at h
      cases h
      refine ⟨rfl, ?_, fun x hx => ⟨id, rfl, ?_⟩⟩
      · rintro _ ⟨⟩
        exact ⟨row, List.mem_singleton_self row, hf⟩
      · rw [hf, List.mem_singleton.1 hx]

/-- The calendar of an event, and the account for one of Google. -/
def Guarded (event : Option CalendarEvent) (calendar : Option CalendarGuard) (account : Option GoogleAccount)
    (w : Workspace) : Prop :=
  match event with
  | none => calendar = none ∧ account = none
  | some e => ∃ c, w.db.calendar? e.calendarId = some c ∧ calendar = some (calendarGuard w c) ∧
      account = (if c.source = .google then w.account else none) ∧ (c.source = .google → w.account.isSome)

theorem eventGuards_ok {event : Option CalendarEvent} {guards : Option CalendarGuard × Option GoogleAccount}
    (h : eventGuards event w = .ok (guards, w')) : w' = w ∧ Guarded event guards.1 guards.2 w := by
  unfold eventGuards at h
  cases event with
  | none =>
    cases h
    exact ⟨rfl, rfl, rfl⟩
  | some e =>
    simp only [Tx.read_bind_run] at h
    cases hc : w.db.calendar? e.calendarId with
    | none =>
      simp only [hc] at h
      exact (Workspace.onDb_raise_ok h).elim
    | some c =>
      simp only [hc] at h
      split at h
      · rename_i hgoogle
        split at h
        · exact (Workspace.onDb_raise_ok h).elim
        · rename_i haccount
          cases h
          refine ⟨rfl, c, hc, rfl, (if_pos hgoogle).symm, fun _ => ?_⟩
          simpa [Option.isSome_iff_ne_none] using haccount
      · rename_i hnative
        cases h
        exact ⟨rfl, c, hc, rfl, (if_neg hnative).symm, fun hgoogle => absurd hgoogle hnative⟩

/-- What is taken of a task and of all that goes with it. -/
structure Taken (row : TaskRow) (w : Workspace) (s : Snapshot) : Prop where
  task : s.task = row
  event : s.event = w.db.taskEvent? row.id
  notes : s.notes = attachedNotes row.id s.event w
  files : s.files = attachedFiles row.id s.event s.notes w
  focus : s.focus = focusOf row.id w
  successors : s.successors = w.db.tasks.filter (·.recurrenceSourceId == some row.id)
  single : s.successors.length ≤ 1
  project : ∀ id, row.projectId = some id → ∃ p ∈ s.projects, w.projects.find? (·.id == id) = some p
  recurrenceProject : ∀ id, row.recurrenceProjectId = some id → ∃ p ∈ s.projects, w.projects.find? (·.id == id) = some p
  parent : ∀ id, row.parentTaskId = some id → ∃ t ∈ s.taskDependencies, w.db.task? id = some t
  source : ∀ id, row.recurrenceSourceId = some id → ∃ t ∈ s.taskDependencies, w.db.task? id = some t
  projects : ∀ p ∈ s.projects, ∃ id, w.projects.find? (·.id == id) = some p
  dependencies : ∀ t ∈ s.taskDependencies, ∃ id, (row.parentTaskId = some id ∨ row.recurrenceSourceId = some id) ∧
    w.db.task? id = some t
  guarded : Guarded s.event s.calendar s.googleAccount w
  revisions : s.revisions = readRevisions (guardScopes s.focus s.event) w

theorem takeSnapshot_ok {row : TaskRow} {s : Snapshot} (h : takeSnapshot row w = .ok (s, w')) :
    w' = w ∧ Taken row w s := by
  unfold takeSnapshot at h
  rw [Tx.read_bind_run] at h
  obtain ⟨_, u, h1, h⟩ := Tx.bind_ok h
  obtain ⟨-, rfl⟩ := cap_ok h1
  obtain ⟨_, u, h2, h⟩ := Tx.bind_ok h
  obtain ⟨-, rfl⟩ := cap_ok h2
  obtain ⟨_, u, h3, h⟩ := Tx.bind_ok h
  obtain ⟨-, rfl⟩ := cap_ok h3
  obtain ⟨_, u, h4, h⟩ := Tx.bind_ok h
  obtain ⟨hsingle, rfl⟩ := cap_ok h4
  obtain ⟨projects, u, h5, h⟩ := Tx.bind_ok h
  obtain ⟨rfl, hproject, hprojects⟩ := dependency_ok h5
  obtain ⟨recurrenceProjects, u, h6, h⟩ := Tx.bind_ok h
  obtain ⟨rfl, hrecurrence, hrecurrences⟩ := dependency_ok h6
  obtain ⟨parents, u, h7, h⟩ := Tx.bind_ok h
  obtain ⟨rfl, hparent, hparents⟩ := dependency_ok h7
  obtain ⟨sources, u, h8, h⟩ := Tx.bind_ok h
  obtain ⟨rfl, hsource, hsources⟩ := dependency_ok h8
  obtain ⟨⟨calendar, account⟩, u, h9, h⟩ := Tx.bind_ok h
  obtain ⟨rfl, hguarded⟩ := eventGuards_ok h9
  cases h
  refine ⟨rfl, rfl, rfl, rfl, rfl, rfl, rfl, hsingle, ?_, ?_, ?_, ?_, ?_, ?_, hguarded, rfl⟩
  · intro id hid
    obtain ⟨p, hp, hf⟩ := hproject id hid
    exact ⟨p, List.mem_append_left _ hp, hf⟩
  · intro id hid
    obtain ⟨p, hp, hf⟩ := hrecurrence id hid
    exact ⟨p, List.mem_append_right _ hp, hf⟩
  · intro id hid
    obtain ⟨p, hp, hf⟩ := hparent id hid
    exact ⟨p, List.mem_append_left _ hp, hf⟩
  · intro id hid
    obtain ⟨p, hp, hf⟩ := hsource id hid
    exact ⟨p, List.mem_append_right _ hp, hf⟩
  · intro p hp
    rcases List.mem_append.1 hp with hp | hp
    · obtain ⟨id, -, hf⟩ := hprojects p hp
      exact ⟨id, hf⟩
    · obtain ⟨id, -, hf⟩ := hrecurrences p hp
      exact ⟨id, hf⟩
  · intro t ht
    rcases List.mem_append.1 ht with ht | ht
    · obtain ⟨id, hid, hf⟩ := hparents t ht
      exact ⟨id, .inl hid, hf⟩
    · obtain ⟨id, hid, hf⟩ := hsources t ht
      exact ⟨id, .inr hid, hf⟩

theorem checkSnapshot_ok {octets : Snapshot → Nat} {s : Snapshot} {a : Unit}
    (h : checkSnapshot octets s w = .ok (a, w')) : w' = w := by
  unfold checkSnapshot at h
  split at h
  · cases h
    rfl
  · cases h

/-- A deletion with a receipt: the snapshot is of the tables before, and is kept beside those after. -/
theorem deleteTaskWithSnapshot_ok {octets : Snapshot → Nat} {locked validated : Bool} {task : Uuid}
    {expectedVersion : Int} {receipt : TaskDeleteUndo}
    (h : deleteTaskWithSnapshot octets locked validated task expectedVersion w = .ok (receipt, w')) :
    ∃ row s held mapping w₁ w₂, w.db.task? task = some row ∧ row.version = expectedVersion ∧
      Table.has (·.parentTaskId == some task) w.db.tasks = false ∧ w₁ = w.settle w.db ∧ Taken row w₁ s ∧
      heldMapping validated s.event w.db = .ok (held, w.db) ∧
      receipt = ⟨w.db.nextId, row.id, row.title, held.map (·.1.id), w.db.now + undoWindow⟩ ∧
      w₂ = (w₁.settle w.db).settle ((heldBack row held w.db).deleteTask row.id) ∧
      mapping = held.map (fun (m, fingerprint) => { m with baseFingerprint := some fingerprint }) ∧
      w' = { w₂ with snapshots := w₂.snapshots ++ [(receipt.id,
        { s with mapping := mapping, revisions := readRevisions (s.revisions.map (·.1)) w₂ })] } := by
  unfold deleteTaskWithSnapshot at h
  obtain ⟨row, db₁, hrow, hrun⟩ := Workspace.onDb_bind_ok h
  obtain ⟨rfl, -, -, htask, hversion, hsub, -⟩ := undoable_ok hrow
  obtain ⟨s, u, hs, hrun⟩ := Tx.bind_ok hrun
  obtain ⟨rfl, htaken⟩ := takeSnapshot_ok hs
  obtain ⟨held, db₁, hheld, hrun⟩ := Workspace.onDb_bind_ok hrun
  obtain ⟨rfl, -⟩ := heldMapping_ok hheld
  rw [Tx.read_bind_run] at hrun
  split at hrun
  · exact (Workspace.onDb_raise_ok hrun).elim
  · obtain ⟨_, u, hcheck, hrun⟩ := Tx.bind_ok hrun
    obtain rfl := checkSnapshot_ok hcheck
    obtain ⟨receipt', db₂, hdelete, hrun⟩ := Workspace.onDb_bind_ok hrun
    obtain ⟨rfl, rfl⟩ := holdDeletion_ok hdelete
    rw [Tx.read_bind_run] at hrun
    obtain ⟨_, u, hcheck', hrun⟩ := Tx.bind_ok hrun
    obtain rfl := checkSnapshot_ok hcheck'
    cases hrun
    exact ⟨row, s, held, _, _, _, htask, hversion, hsub, rfl, htaken, hheld, rfl, rfl, rfl, rfl⟩

/-- The rows an undo rests on are as the deletion left them. -/
structure AsLeft (expiry : DateTime) (s : Snapshot) (w : Workspace) : Prop where
  projects : ∀ p ∈ s.projects, w.projects.find? (·.id == p.id) = some p
  tasks : ∀ t ∈ s.taskDependencies, w.db.task? t.id = some t
  calendar : ∀ g, s.calendar = some g → ∃ c, w.db.calendar? g.id = some c ∧ calendarGuard w c = g
  successors : ∀ t ∈ s.successors, w.db.task? t.id = some { t with recurrenceSourceId := none }
  mapping : ∀ m, s.mapping = some m → stillHeld expiry m w.db = true
  revisions : ∀ x ∈ s.revisions, w.revisions x.1 = x.2
  account : ∀ a, s.googleAccount = some a → w.account = some a
  files : ∀ f ∈ s.files, w.files.find? (·.id == f.id) = some { f with taskId := none, eventId := none, noteId := none }

theorem unchanged_ok {expiry : DateTime} {s : Snapshot} (h : unchanged expiry s w = true) : AsLeft expiry s w := by
  simp only [unchanged, Bool.and_eq_true, List.all_eq_true, beq_iff_eq] at h
  obtain ⟨⟨⟨⟨⟨⟨⟨hr, hp⟩, ht⟩, hc⟩, ha⟩, hf⟩, hs⟩, hm⟩ := h
  refine ⟨hp, ht, ?_, hs, ?_, hr, ?_, hf⟩
  · intro g hg
    rw [hg, Option.all_some, beq_iff_eq, Option.map_eq_some_iff] at hc
    exact hc
  · intro m hm'
    rw [hm', Option.all_some] at hm
    exact hm
  · intro a ha'
    rw [ha', Option.all_some, beq_iff_eq] at ha
    exact ha

/-- The keys of what is to be restored are free. -/
structure Vacant (s : Snapshot) (w : Workspace) : Prop where
  task : ∀ t ∈ w.db.tasks, t.id ≠ s.task.id
  source : ∀ id, s.task.recurrenceSourceId = some id → ∀ t ∈ w.db.tasks, t.recurrenceSourceId ≠ some id
  event : ∀ e, s.event = some e → ∀ x ∈ w.db.events, x.id ≠ e.id
  linked : ∀ e, s.event = some e → ∀ id, e.linkedTaskId = some id → ∀ x ∈ w.db.events, x.linkedTaskId ≠ some id
  notes : ∀ n ∈ s.notes, ∀ x ∈ w.notes, x.id ≠ n.id

theorem restorable_ok {s : Snapshot} (h : restorable s w = true) : Vacant s w := by
  simp only [restorable, Bool.and_eq_true] at h
  obtain ⟨⟨⟨⟨ht, hs⟩, he⟩, hn⟩, -⟩ := h
  have hevent : ∀ e, s.event = some e → (w.db.event? e.id).isNone = true ∧
      (e.linkedTaskId.any fun id => (w.db.taskEvent? id).isSome) = false := by
    intro e hse
    rw [hse, Option.all_some, Bool.and_eq_true, Bool.not_eq_true'] at he
    exact he
  refine ⟨?_, ?_, ?_, ?_, ?_⟩
  · intro t hmem hid
    have hnone := List.find?_eq_none.1 (Option.isNone_iff_eq_none.1 ht) t hmem
    simp [hid] at hnone
  · intro id hid t hmem hts
    rw [hid, Option.any_some, Bool.not_eq_true', has_eq_false_iff] at hs
    have hne := hs t hmem
    rw [hts] at hne
    simp at hne
  · intro e hse x hx hid
    have hnone := List.find?_eq_none.1 (Option.isNone_iff_eq_none.1 (hevent e hse).1) x hx
    simp [hid] at hnone
  · intro e hse id hid x hx hlink
    have hany := (hevent e hse).2
    rw [hid, Option.any_some] at hany
    have hfound : w.db.taskEvent? id = none := by
      rw [← Option.not_isSome_iff_eq_none, hany]
      simp
    have hnone := List.find?_eq_none.1 hfound x hx
    simp [hlink] at hnone
  · intro n hmem x hx hid
    have hfree := List.all_eq_true.1 hn n hmem
    rw [Bool.not_eq_true', has_eq_false_iff] at hfree
    have hne := hfree x hx
    simp [hid] at hne

theorem undoTaskDelete_ok {locked : Bool} {validation : Except AppError Unit} {receipt : Uuid} {a : Unit}
    (h : undoTaskDelete locked validation receipt w = .ok (a, w')) :
    ∃ u s, w.db.undos.find? (·.id == receipt) = some u ∧ (receipt, s) ∈ w.snapshots ∧ AsLeft u.expiresAt s w ∧
      Vacant s w ∧ w' = { restore s w with
        db := (restore s w).db.deleteUndos (·.id == receipt)
        snapshots := Table.delete (·.1 == receipt) (restore s w).snapshots } := by
  unfold undoTaskDelete at h
  rw [Tx.read_bind_run] at h
  cases hu : w.db.undos.find? (·.id == receipt) with
  | none =>
    simp only [hu] at h
    cases h
  | some u =>
    cases hs : w.snapshots.find? (·.1 == receipt) with
    | none =>
      simp only [hu, hs] at h
      cases h
    | some x =>
      obtain ⟨k, s⟩ := x
      simp only [hu, hs] at h
      split at h
      · exact (Workspace.onDb_raise_ok h).elim
      · obtain ⟨_, -, h⟩ := Tx.ofExcept_bind_ok h
        split at h
        · exact (Workspace.onDb_raise_ok h).elim
        · rename_i hok
          rw [Tx.write_bind_run] at h
          cases h
          have hk : k = receipt := by simpa using List.find?_some hs
          simp only [not_or, Bool.not_eq_false] at hok
          exact ⟨u, s, rfl, hk ▸ List.mem_of_find?_eq_some hs, unchanged_ok hok.2.1, restorable_ok hok.2.2, rfl⟩

end Store

end Prosepect

/-
The schedule of a task and its block in the calendar are two copies of one thing: `scheduled_start`
and `scheduled_end` of the task, `starts_at` and `ends_at` of the row linked to it. What writes of one
or the other do to the two copies.
-/
import Prosepect.Store.MoveRuns

namespace Prosepect

open Resumption Table Time Store

/-! ## Blocks -/

/-- An event is linked to the task, at these times. -/
def Block (events : List CalendarEvent) (task : Uuid) (s u : DateTime) : Prop :=
  ∃ e ∈ events, e.linkedTaskId = some task ∧ e.startsAt = s ∧ e.endsAt = u

section Blocks

variable {events : List CalendarEvent} {e event : CalendarEvent} {k : Uuid} {s u : DateTime}

theorem block_append : Block (events ++ [e]) k s u ↔
    Block events k s u ∨ (e.linkedTaskId = some k ∧ e.startsAt = s ∧ e.endsAt = u) := by
  constructor
  · rintro ⟨x, hx, hb⟩
    rcases List.mem_append.1 hx with hx | hx
    · exact .inl ⟨x, hx, hb⟩
    · rw [List.mem_singleton.1 hx] at hb
      exact .inr hb
  · rintro (⟨x, hx, hb⟩ | hb)
    · exact ⟨x, List.mem_append_left _ hx, hb⟩
    · exact ⟨e, List.mem_append_right _ (List.mem_singleton_self e), hb⟩

/-- Events that go and are not linked to the task. -/
theorem block_delete {p : CalendarEvent → Bool} (h : ∀ x ∈ events, x.linkedTaskId = some k → p x = false) :
    Block (delete p events) k s u ↔ Block events k s u := by
  constructor
  · rintro ⟨x, hx, hb⟩
    exact ⟨x, (mem_delete.1 hx).1, hb⟩
  · rintro ⟨x, hx, hb⟩
    exact ⟨x, mem_delete.2 ⟨hx, h x hx hb.1⟩, hb⟩

theorem not_block_delete {p : CalendarEvent → Bool} (h : ∀ x ∈ events, x.linkedTaskId = some k → p x = true) :
    ¬ Block (delete p events) k s u := by
  rintro ⟨x, hx, hlink, -⟩
  obtain ⟨hmem, hp⟩ := mem_delete.1 hx
  rw [h x hmem hlink] at hp
  cases hp

variable {p : CalendarEvent → Bool} {f : CalendarEvent → CalendarEvent}

/-- One row has new content; the blocks of other tasks are those there were. -/
theorem block_update_other (hp : ∀ x ∈ events, p x = true → x = e) (hlink : (f e).linkedTaskId = e.linkedTaskId)
    (hk : e.linkedTaskId ≠ some k) : Block (update p f events) k s u ↔ Block events k s u := by
  constructor
  · rintro ⟨x, hx, hxk, hb⟩
    rcases mem_update.1 hx with ⟨hx, -⟩ | ⟨y, hy, hpy, rfl⟩
    · exact ⟨x, hx, hxk, hb⟩
    · rw [hp y hy hpy, hlink] at hxk
      exact absurd hxk hk
  · rintro ⟨x, hx, hxk, hb⟩
    refine ⟨x, mem_update.2 (.inl ⟨hx, ?_⟩), hxk, hb⟩
    refine Bool.eq_false_iff.2 fun hpx => hk ?_
    rwa [← hp x hx hpx]

/-- The one block of its task is where the new row is. -/
theorem block_update_self (hp : ∀ x ∈ events, p x = true → x = e) (hu : Unique (fun x : CalendarEvent => x.linkedTaskId) events)
    (he : e ∈ events) (hpe : p e = true) (hlink : (f e).linkedTaskId = e.linkedTaskId) (hk : e.linkedTaskId = some k) :
    Block (update p f events) k s u ↔ (f e).startsAt = s ∧ (f e).endsAt = u := by
  constructor
  · rintro ⟨x, hx, hxk, hb⟩
    rcases mem_update.1 hx with ⟨hx, hpx⟩ | ⟨y, hy, hpy, rfl⟩
    · rw [hu.eq hx he hxk hk, hpe] at hpx
      cases hpx
    · rw [hp y hy hpy] at hb
      exact hb
  · intro hb
    exact ⟨f e, mem_update.2 (.inr ⟨e, he, hpe, rfl⟩), hlink.trans hk, hb⟩

end Blocks

namespace Db

/-- The schedules of the tasks are where their blocks are, but for the tasks `out`. -/
structure MirroredBut (out : Uuid → Prop) (db : Db) : Prop where
  ids : Unique (fun t : TaskRow => some t.id) db.tasks
  used : ∀ t ∈ db.tasks, t.id < db.nextId
  linked : ∀ e ∈ db.events, ∀ k, e.linkedTaskId = some k → ∃ t ∈ db.tasks, t.id = k
  mirrors : ∀ t ∈ db.tasks, ¬ out t.id → ∀ s u,
    (t.scheduledStart = some s ∧ t.scheduledEnd = some u) ↔ Block db.events t.id s u

abbrev Mirrored (db : Db) : Prop := db.MirroredBut fun _ => False

variable {db db' : Db} {out out' : Uuid → Prop}

theorem MirroredBut.weaken (h : db.MirroredBut out) (ho : ∀ t ∈ db.tasks, out t.id → out' t.id) : db.MirroredBut out' :=
  { h with mirrors := fun t ht hout => h.mirrors t ht fun hk => hout (ho t ht hk) }

theorem Mirrored.but (h : db.Mirrored) (out : Uuid → Prop) : db.MirroredBut out := h.weaken fun _ _ hk => hk.elim

theorem MirroredBut.task_eq (h : db.MirroredBut out) {t t' : TaskRow} (ht : t ∈ db.tasks) (ht' : t' ∈ db.tasks)
    (hid : t'.id = t.id) : t' = t :=
  h.ids.eq ht' ht (congrArg some hid) rfl

/-- The tasks that were out of step are in step. -/
theorem MirroredBut.close (h : db.MirroredBut out) (hself : ∀ t ∈ db.tasks, out t.id → ∀ s u,
    (t.scheduledStart = some s ∧ t.scheduledEnd = some u) ↔ Block db.events t.id s u) : db.Mirrored := by
  refine { h with mirrors := fun t ht _ s u => ?_ }
  by_cases ho : out t.id
  · exact hself t ht ho s u
  · exact h.mirrors t ht ho s u

/-- The two times of a task stay. -/
def SamePlan (t t' : TaskRow) : Prop :=
  t'.id = t.id ∧ t'.scheduledStart = t.scheduledStart ∧ t'.scheduledEnd = t.scheduledEnd

theorem SamePlan.refl (t : TaskRow) : SamePlan t t := ⟨rfl, rfl, rfl⟩

/-- Tasks and events are written, and every task that is not `out` afterwards keeps its times and
its block. -/
theorem MirroredBut.rows (h : db.MirroredBut out) (hout : ∀ k, out k → out' k)
    (htasks : List.Forall₂ (fun t t' => t'.id = t.id ∧ (¬ out' t.id → SamePlan t t')) db.tasks db'.tasks)
    (hn : db.nextId ≤ db'.nextId)
    (hlinked : ∀ e ∈ db'.events, ∀ k, e.linkedTaskId = some k →
      (∃ x ∈ db.events, x.linkedTaskId = some k) ∨ ∃ t ∈ db.tasks, t.id = k)
    (hblocks : ∀ k, ¬ out' k → ∀ s u, Block db'.events k s u ↔ Block db.events k s u) : db'.MirroredBut out' := by
  constructor
  · exact rows_unique htasks (fun t t' ht => congrArg some ht.1) h.ids
  · intro t' ht'
    obtain ⟨t, ht, hid, -⟩ := rows_of_mem htasks ht'
    rw [hid]
    exact lt_of_lt_of_le (h.used t ht) hn
  · intro e he k hk
    have hold : ∃ t ∈ db.tasks, t.id = k := by
      rcases hlinked e he k hk with ⟨x, hx, hxk⟩ | ht
      · exact h.linked x hx k hxk
      · exact ht
    obtain ⟨t, ht, rfl⟩ := hold
    obtain ⟨t', ht', hid', -⟩ := rows_mem htasks ht
    exact ⟨t', ht', hid'⟩
  · intro t' ht' hnot s u
    obtain ⟨t, ht, hid, hplan⟩ := rows_of_mem htasks ht'
    rw [hid] at hnot
    obtain ⟨-, hs, hu⟩ := hplan hnot
    rw [hs, hu, hid, hblocks t.id hnot]
    exact h.mirrors t ht (fun ho => hnot (hout _ ho)) s u

theorem MirroredBut.frame (h : db.MirroredBut out) (htasks : List.Forall₂ SamePlan db.tasks db'.tasks)
    (hevents : db'.events = db.events) (hn : db.nextId ≤ db'.nextId) : db'.MirroredBut out := by
  refine h.rows (fun _ hk => hk) (htasks.imp fun t t' ht => ⟨ht.1, fun _ => ht⟩) hn ?_ ?_
  · intro e he k hk
    exact .inl ⟨e, hevents ▸ he, hk⟩
  · intro k _ s u
    rw [hevents]

/-- The same tasks and events. -/
theorem MirroredBut.same (h : db.MirroredBut out) (htasks : db'.tasks = db.tasks) (hevents : db'.events = db.events)
    (hn : db.nextId ≤ db'.nextId) : db'.MirroredBut out :=
  h.frame (htasks ▸ List.forall₂_same.2 fun t _ => SamePlan.refl t) hevents hn

/-- The tasks stay, and so do the blocks of all that are not `out`. -/
theorem MirroredBut.events (h : db.MirroredBut out) (htasks : db'.tasks = db.tasks) (hn : db.nextId ≤ db'.nextId)
    (hlinked : ∀ e ∈ db'.events, ∀ k, e.linkedTaskId = some k →
      (∃ x ∈ db.events, x.linkedTaskId = some k) ∨ ∃ t ∈ db.tasks, t.id = k)
    (hblocks : ∀ k, ¬ out k → ∀ s u, Block db'.events k s u ↔ Block db.events k s u) : db'.MirroredBut out :=
  h.rows (fun _ hk => hk) (htasks ▸ List.forall₂_same.2 fun t _ => ⟨rfl, fun _ => .refl t⟩) hn hlinked hblocks

/-! ## The block of one task -/

theorem taskEvent?_none {task : Uuid} (h : db.taskEvent? task = none) : ∀ e ∈ db.events, e.linkedTaskId ≠ some task := by
  intro e he hlink
  have hno := List.find?_eq_none.1 h e he
  simp [hlink] at hno

/-- A key of events selects one row. -/
theorem Valid.only (hv : db.Valid) {e : CalendarEvent} (he : e ∈ db.events) :
    ∀ x ∈ db.events, (x.id == e.id) = true → x = e :=
  fun _ hx hp => hv.eventIds.eq hx he (congrArg some (beq_iff_eq.1 hp)) rfl

/-- The row the event of a task becomes is where the task is scheduled. -/
theorem placed_cases (task : Task) (s u : DateTime) (db : Db) :
    (placed task s u db).1.linkedTaskId = some task.id ∧ (placed task s u db).1.startsAt = s ∧
      (placed task s u db).1.endsAt = u ∧
      ((∃ e, db.taskEvent? task.id = some e ∧
          (placed task s u db).2.events = update (·.id == e.id) (fun _ => (placed task s u db).1) db.events) ∨
        (db.taskEvent? task.id = none ∧ (placed task s u db).2.events = db.events ++ [(placed task s u db).1])) := by
  have hevents : (unplaced task.id (preferredTimeBlockCalendar db).1 (preferredTimeBlockCalendar db).2).events = db.events := by
    rw [unplaced_events, preferredTimeBlockCalendar_events]
  have hfind : (unplaced task.id (preferredTimeBlockCalendar db).1 (preferredTimeBlockCalendar db).2).taskEvent? task.id =
      db.taskEvent? task.id := by
    unfold taskEvent?
    rw [hevents]
  unfold placed upsertTaskEvent
  rw [hfind]
  cases he : db.taskEvent? task.id with
  | some e =>
    refine ⟨(taskEvent?_mem he).2, rfl, rfl, .inl ⟨e, rfl, ?_⟩⟩
    show update _ _ (unplaced _ _ _).events = _
    rw [hevents]
  | none =>
    refine ⟨rfl, rfl, rfl, .inr ⟨rfl, ?_⟩⟩
    show (unplaced _ _ _).events ++ _ = _
    rw [hevents]

theorem blocks_placed (hv : db.Valid) (task : Task) (s u : DateTime) :
    (∀ k, k ≠ task.id → ∀ a b, Block (placed task s u db).2.events k a b ↔ Block db.events k a b) ∧
      ∀ a b, Block (placed task s u db).2.events task.id a b ↔ s = a ∧ u = b := by
  obtain ⟨hlink, hs, hu, ⟨e, he, hevents⟩ | ⟨hnone, hevents⟩⟩ := placed_cases task s u db
  · obtain ⟨hmem, hek⟩ := taskEvent?_mem he
    rw [hevents]
    constructor
    · intro k hk a b
      refine block_update_other (hv.only hmem) (hlink.trans hek.symm) ?_
      rw [hek]
      exact fun h => hk (Option.some.inj h).symm
    · intro a b
      rw [block_update_self (hv.only hmem) hv.eventTasks hmem (beq_self_eq_true _) (hlink.trans hek.symm) hek, hs, hu]
  · rw [hevents]
    constructor
    · intro k hk a b
      rw [block_append, hlink]
      constructor
      · rintro (hb | ⟨hid, -⟩)
        · exact hb
        · exact absurd (Option.some.inj hid).symm hk
      · exact .inl
    · intro a b
      rw [block_append, hs, hu]
      constructor
      · rintro (⟨x, hx, hxk, -⟩ | ⟨-, hb⟩)
        · exact absurd hxk (taskEvent?_none hnone x hx)
        · exact hb
      · exact fun hb => .inr ⟨hlink, hb⟩

theorem removed_events (task : Uuid) (db : Db) :
    (∃ e, db.taskEvent? task = some e ∧ (removeTaskCalendarEvent task db).events = delete (·.id == e.id) db.events) ∨
      (db.taskEvent? task = none ∧ (removeTaskCalendarEvent task db).events = db.events) := by
  unfold removeTaskCalendarEvent
  cases he : db.taskEvent? task with
  | some e =>
    refine .inl ⟨e, rfl, ?_⟩
    show delete _ (markEventForSync e true db).events = _
    rw [markEventForSync_events]
  | none => exact .inr ⟨rfl, rfl⟩

theorem blocks_removed (hv : db.Valid) (task : Uuid) :
    (∀ k, k ≠ task → ∀ a b, Block (removeTaskCalendarEvent task db).events k a b ↔ Block db.events k a b) ∧
      ∀ a b, ¬ Block (removeTaskCalendarEvent task db).events task a b := by
  rcases removed_events task db with ⟨e, he, hevents⟩ | ⟨hnone, hevents⟩
  · obtain ⟨hmem, hek⟩ := taskEvent?_mem he
    rw [hevents]
    constructor
    · intro k hk a b
      refine block_delete fun x hx hxk => Bool.eq_false_iff.2 fun hp => hk ?_
      rw [hv.only hmem x hx hp, hek] at hxk
      exact (Option.some.inj hxk).symm
    · intro a b
      refine not_block_delete fun x hx hxk => ?_
      rw [hv.eventTasks.eq hx hmem hxk hek]
      exact beq_self_eq_true _
  · rw [hevents]
    refine ⟨fun _ _ _ _ => Iff.rfl, ?_⟩
    rintro a b ⟨x, hx, hxk, -⟩
    exact taskEvent?_none hnone x hx hxk

theorem removed_linked {task : Uuid} {e : CalendarEvent} (he : e ∈ (removeTaskCalendarEvent task db).events) : e ∈ db.events := by
  rcases removed_events task db with ⟨x, -, hevents⟩ | ⟨-, hevents⟩
  · rw [hevents] at he
    exact (mem_delete.1 he).1
  · rwa [hevents] at he

/-- `sync_task_calendar_event` brings the block of a task where its row says. -/
theorem MirroredBut.sync {task : Task} {a : Unit} (h : db.MirroredBut (· = task.id)) (hv : db.Valid)
    (hthere : ∃ t ∈ db.tasks, t.id = task.id)
    (hrow : ∀ t ∈ db.tasks, t.id = task.id → t.scheduledStart = task.scheduledStart ∧ t.scheduledEnd = task.scheduledEnd)
    (hs : syncTaskCalendarEvent task db = .ok (a, db')) : db'.Mirrored := by
  have hbeside : db.Beside db' := beside_syncTaskCalendarEvent task db a db' hs
  rcases syncTaskCalendarEvent_ok hs with ⟨startsAt, endsAt, hstart, hend, -, rfl⟩ | ⟨hnone, rfl⟩
  · obtain ⟨hother, hself⟩ := blocks_placed hv task startsAt endsAt
    have hbut : (markEventForSync (placed task startsAt endsAt db).1 false (placed task startsAt endsAt db).2).MirroredBut
        (· = task.id) := by
      refine h.events hbeside.tasks hbeside.nextId ?_ ?_
      · intro e he k hk
        rw [markEventForSync_events] at he
        rcases mem_placed_events he with he | rfl
        · exact .inl ⟨e, he, hk⟩
        · rw [(placed_cases task startsAt endsAt db).1] at hk
          rw [← Option.some.inj hk]
          exact .inr hthere
      · intro k hk s u
        rw [markEventForSync_events]
        exact hother k hk s u
    refine hbut.close ?_
    intro t ht hid s u
    rw [hbeside.tasks] at ht
    obtain ⟨hts, hte⟩ := hrow t ht hid
    rw [markEventForSync_events, hid, hself, hts, hte, hstart, hend, Option.some.injEq, Option.some.injEq]
  · obtain ⟨hother, hself⟩ := blocks_removed hv task.id
    have hbut : (removeTaskCalendarEvent task.id db).MirroredBut (· = task.id) :=
      h.events hbeside.tasks hbeside.nextId (fun e he k hk => .inl ⟨e, removed_linked he, hk⟩) hother
    refine hbut.close ?_
    intro t ht hid s u
    rw [hbeside.tasks] at ht
    obtain ⟨hts, hte⟩ := hrow t ht hid
    rw [hid, hts, hte]
    constructor
    · rintro ⟨hstart, hend⟩
      rcases hnone with hnone | hnone
      · rw [hnone] at hstart
        cases hstart
      · rw [hnone] at hend
        cases hend
    · intro hb
      exact absurd hb (hself s u)

/-- The event of a task goes, and its schedule is out of step. -/
theorem MirroredBut.removed (h : db.MirroredBut out) (hv : db.Valid) {task : Uuid} (ht : out task) :
    (removeTaskCalendarEvent task db).MirroredBut out := by
  have hbeside : db.Beside (removeTaskCalendarEvent task db) := beside_removeTaskCalendarEvent task
  refine h.events hbeside.tasks hbeside.nextId (fun e he k hk => .inl ⟨e, removed_linked he, hk⟩) ?_
  intro k hk s u
  exact (blocks_removed hv task).1 k (fun heq => hk (heq ▸ ht)) s u

/-! ## Tasks that come and go -/

/-- A new task under a free id, out of step. -/
theorem MirroredBut.insertTask (h : db.MirroredBut out) {row : TaskRow} (htasks : db'.tasks = db.tasks ++ [row])
    (hevents : db'.events = db.events) (hn : db.nextId ≤ db'.nextId) (hfree : ∀ t ∈ db.tasks, t.id ≠ row.id)
    (hused : row.id < db'.nextId) : db'.MirroredBut fun k => out k ∨ k = row.id := by
  constructor
  · rw [htasks]
    refine h.ids.insert ?_
    intro k hk t ht htk
    exact hfree t ht (Option.some.inj (htk.trans hk.symm))
  · intro t ht
    rw [htasks] at ht
    rcases List.mem_append.1 ht with ht | ht
    · exact lt_of_lt_of_le (h.used t ht) hn
    · rwa [List.mem_singleton.1 ht]
  · intro e he k hk
    rw [hevents] at he
    rw [htasks]
    obtain ⟨t, ht, htk⟩ := h.linked e he k hk
    exact ⟨t, List.mem_append_left _ ht, htk⟩
  · intro t ht hout s u
    rw [htasks] at ht
    rw [hevents]
    rcases List.mem_append.1 ht with ht | ht
    · exact h.mirrors t ht (fun ho => hout (.inl ho)) s u
    · rw [List.mem_singleton.1 ht] at hout
      exact absurd (.inr rfl) hout

/-- No event is linked to an id that is free. -/
theorem MirroredBut.not_block (h : db.MirroredBut out) {k : Uuid} (hfree : ∀ t ∈ db.tasks, t.id ≠ k) (s u : DateTime) :
    ¬ Block db.events k s u := by
  rintro ⟨e, he, hek, -⟩
  obtain ⟨t, ht, hid⟩ := h.linked e he k hek
  exact hfree t ht hid

theorem MirroredBut.fresh_ne (h : db.MirroredBut out) : ∀ t ∈ db.tasks, t.id ≠ db.nextId :=
  fun t ht => (h.used t ht).ne

/-- A new task, and the event it is scheduled by. -/
theorem MirroredBut.create {row : TaskRow} {mid : Db} {a : Unit} (h : db.Mirrored) (hv : db.Valid)
    (hs : syncTaskCalendarEvent row.toTask mid = .ok (a, db')) (haged : db.Aged mid) (hid : row.id = db.nextId)
    (htasks : mid.tasks = db.tasks ++ [row]) (hevents : mid.events = db.events) (hnext : mid.nextId = db.nextId + 1) :
    db'.Mirrored := by
  have hle : db.nextId ≤ mid.nextId := by rw [hnext]; exact Nat.le_succ _
  have hused : row.id < mid.nextId := by rw [hnext, hid]; exact Nat.lt_succ_self _
  have hmid : mid.MirroredBut (· = row.id) := by
    refine (h.insertTask htasks hevents hle ?_ hused).weaken fun _ _ hk => hk.elim False.elim id
    rw [hid]
    exact h.fresh_ne
  have hrow : row ∈ mid.tasks := by
    rw [htasks]
    exact List.mem_append_right _ (List.mem_singleton_self row)
  refine hmid.sync (haged hv).1 ⟨row, hrow, rfl⟩ (fun t ht hti => ?_) hs
  rw [hmid.task_eq hrow ht hti]
  exact ⟨rfl, rfl⟩

/-- Tasks go, with what is linked to them. -/
theorem MirroredBut.dropTasks {p c : TaskRow → Bool} {q : CalendarEvent → Bool}
    (h : db.MirroredBut fun k => ∃ t ∈ db.tasks, p t = true ∧ t.id = k)
    (htasks : db'.tasks = update c (fun t => { t with recurrenceSourceId := none }) (delete p db.tasks))
    (hevents : db'.events = delete q db.events) (hn : db.nextId ≤ db'.nextId)
    (hq : ∀ e ∈ db.events, q e = true ↔ ∃ t ∈ db.tasks, p t = true ∧ e.linkedTaskId = some t.id) : db'.Mirrored := by
  have hplan : List.Forall₂ SamePlan (delete p db.tasks) db'.tasks := by
    rw [htasks]
    exact rows_update SamePlan.refl fun t _ _ => ⟨rfl, rfl, rfl⟩
  have hstays : ∀ r ∈ db.tasks, p r = false → ¬ ∃ t ∈ db.tasks, p t = true ∧ t.id = r.id := by
    rintro r hr hp ⟨t, ht, hpt, hti⟩
    rw [h.task_eq hr ht hti, hp] at hpt
    cases hpt
  constructor
  · exact rows_unique hplan (fun t t' ht => congrArg some ht.1) (h.ids.delete _)
  · intro t ht
    obtain ⟨r, hr, hid, -⟩ := rows_of_mem hplan ht
    rw [hid]
    exact lt_of_lt_of_le (h.used r (mem_delete.1 hr).1) hn
  · intro e he k hk
    rw [hevents] at he
    obtain ⟨he, hqe⟩ := mem_delete.1 he
    obtain ⟨r, hr, rfl⟩ := h.linked e he k hk
    have hp : p r = false := by
      refine Bool.eq_false_iff.2 fun hp => ?_
      rw [(hq e he).2 ⟨r, hr, hp, hk⟩] at hqe
      cases hqe
    obtain ⟨t, ht, hid, -⟩ := rows_mem hplan (mem_delete.2 ⟨hr, hp⟩)
    exact ⟨t, ht, hid⟩
  · intro t ht _ s u
    obtain ⟨r, hr, hid, hs, hu⟩ := rows_of_mem hplan ht
    obtain ⟨hr, hp⟩ := mem_delete.1 hr
    rw [hs, hu, hid, hevents]
    refine (h.mirrors r hr (hstays r hr hp) s u).trans (block_delete fun e he hek => ?_).symm
    refine Bool.eq_false_iff.2 fun hqe => hstays r hr hp ?_
    obtain ⟨x, hx, hpx, hxk⟩ := (hq e he).1 hqe
    exact ⟨x, hx, hpx, Option.some.inj (hxk.symm.trans hek)⟩

theorem MirroredBut.deleteTask {id : Uuid} (h : db.MirroredBut (· = id)) : (db.deleteTask id).Mirrored := by
  have hbut : db.MirroredBut fun k => ∃ t ∈ db.tasks, (t.id == id) = true ∧ t.id = k :=
    h.weaken fun t ht hid => ⟨t, ht, beq_iff_eq.2 hid, rfl⟩
  refine hbut.dropTasks rfl rfl le_rfl fun e he => ?_
  constructor
  · intro hq
    obtain ⟨t, ht, hid⟩ := h.linked e he id (beq_iff_eq.1 hq)
    exact ⟨t, ht, beq_iff_eq.2 hid, by rw [hid]; exact beq_iff_eq.1 hq⟩
  · rintro ⟨t, -, hid, hlink⟩
    rw [beq_iff_eq.1 hid] at hlink
    exact beq_iff_eq.2 hlink

/-- Tasks go by one statement. -/
theorem MirroredBut.deleteTasks {p : TaskRow → Bool}
    (h : db.MirroredBut fun k => ∃ t ∈ db.tasks, p t = true ∧ t.id = k) : (db.deleteTasks p).Mirrored := by
  refine h.dropTasks rfl rfl le_rfl fun e _ => ?_
  simp only [Option.any_eq_true, has_iff, Bool.and_eq_true, beq_iff_eq]
  constructor
  · rintro ⟨k, hk, t, ht, hp, hid⟩
    exact ⟨t, ht, hp, hid ▸ hk⟩
  · rintro ⟨t, ht, hp, hk⟩
    exact ⟨t.id, hk, t, ht, hp, rfl⟩

/-- A task has new columns, and its schedule is out of step. -/
theorem MirroredBut.updateTask (h : db.MirroredBut out) {id : Uuid} {f : TaskRow → TaskRow}
    (hf : ∀ t : TaskRow, t.id = id → (f t).id = id) : (db.updateTask id f).MirroredBut fun k => out k ∨ k = id := by
  refine h.rows (fun _ hk => .inl hk) ?_ le_rfl (fun e he k hk => .inl ⟨e, he, hk⟩) fun _ _ _ _ => Iff.rfl
  refine List.forall₂_map_right_iff.2 (List.forall₂_same.2 fun t _ => ?_)
  by_cases ht : t.id = id
  · simp [ht, hf t ht]
  · simp [ht, SamePlan.refl]

/-! ## An event and its task -/

/-- Only the task an event stands for is written. -/
theorem rows_linked {link : Option Uuid} {g : TaskRow → TaskRow} {tasks tasks' : List TaskRow}
    (htasks : tasks' = update (fun t => link == some t.id) g tasks) (hg : ∀ t, (g t).id = t.id) :
    List.Forall₂ (fun t t' => t'.id = t.id ∧ (¬ link = some t.id → SamePlan t t')) tasks tasks' := by
  rw [htasks]
  refine List.forall₂_map_right_iff.2 (List.forall₂_same.2 fun t _ => ?_)
  by_cases ht : link = some t.id
  · simp [ht, hg t]
  · simp [ht, SamePlan.refl]

/-- An event moves, and its task with it. -/
theorem Mirrored.move (h : db.Mirrored) (hv : db.Valid) {e : CalendarEvent} (he : e ∈ db.events)
    {f : CalendarEvent → CalendarEvent} {g : TaskRow → TaskRow} (hlink : (f e).linkedTaskId = e.linkedTaskId)
    (hg : ∀ t : TaskRow, (g t).id = t.id ∧ (g t).scheduledStart = some (f e).startsAt ∧
      (g t).scheduledEnd = some (f e).endsAt)
    (htasks : db'.tasks = update (fun t => e.linkedTaskId == some t.id) g db.tasks)
    (hevents : db'.events = update (·.id == e.id) f db.events) (hn : db.nextId ≤ db'.nextId) : db'.Mirrored := by
  have hrow : (e.id == e.id) = true := beq_self_eq_true _
  have hbut : db'.MirroredBut fun k => e.linkedTaskId = some k := by
    refine h.rows (fun _ hk => hk.elim) (rows_linked htasks fun t => (hg t).1) hn ?_ ?_
    · intro x hx k hk
      rw [hevents] at hx
      rcases mem_update.1 hx with ⟨hx, -⟩ | ⟨y, hy, hye, rfl⟩
      · exact .inl ⟨x, hx, hk⟩
      · rw [hv.only he y hy hye, hlink] at hk
        exact .inl ⟨e, he, hk⟩
    · intro k hk s u
      rw [hevents]
      exact block_update_other (hv.only he) hlink hk
  refine hbut.close ?_
  intro t ht hk s u
  rw [htasks] at ht
  obtain ⟨hs, hu⟩ : t.scheduledStart = some (f e).startsAt ∧ t.scheduledEnd = some (f e).endsAt := by
    rcases mem_update.1 ht with ⟨-, hne⟩ | ⟨r, -, -, rfl⟩
    · simp [hk] at hne
    · exact (hg r).2
  rw [hevents, block_update_self (hv.only he) hv.eventTasks he hrow hlink hk, hs, hu, Option.some.injEq, Option.some.injEq]

/-- An event goes, and its task is not scheduled any more. -/
theorem Mirrored.drop (h : db.Mirrored) (hv : db.Valid) {e : CalendarEvent} (he : e ∈ db.events) {g : TaskRow → TaskRow}
    (hg : ∀ t : TaskRow, (g t).id = t.id ∧ (g t).scheduledStart = none)
    (htasks : db'.tasks = update (fun t => e.linkedTaskId == some t.id) g db.tasks)
    (hevents : db'.events = delete (·.id == e.id) db.events) (hn : db.nextId ≤ db'.nextId) : db'.Mirrored := by
  have hbut : db'.MirroredBut fun k => e.linkedTaskId = some k := by
    refine h.rows (fun _ hk => hk.elim) (rows_linked htasks fun t => (hg t).1) hn ?_ ?_
    · intro x hx k hk
      rw [hevents] at hx
      exact .inl ⟨x, (mem_delete.1 hx).1, hk⟩
    · intro k hk s u
      rw [hevents]
      refine block_delete fun x hx hxk => Bool.eq_false_iff.2 fun hid => hk ?_
      rwa [hv.only he x hx hid] at hxk
  refine hbut.close ?_
  intro t ht hk s u
  rw [htasks] at ht
  have hs : t.scheduledStart = none := by
    rcases mem_update.1 ht with ⟨-, hne⟩ | ⟨r, -, -, rfl⟩
    · simp [hk] at hne
    · exact (hg r).2
  rw [hevents, hs]
  constructor
  · rintro ⟨hnone, -⟩
    cases hnone
  · intro hb
    refine absurd hb (not_block_delete fun x hx hxk => ?_)
    rw [hv.eventTasks.eq hx he hxk hk]
    exact beq_self_eq_true _

/-- An event that is of no task. -/
theorem MirroredBut.insertEvent (h : db.MirroredBut out) {e : CalendarEvent} (he : e.linkedTaskId = none)
    (htasks : db'.tasks = db.tasks) (hevents : db'.events = db.events ++ [e]) (hn : db.nextId ≤ db'.nextId) :
    db'.MirroredBut out := by
  refine h.events htasks hn ?_ ?_
  · intro x hx k hk
    rw [hevents] at hx
    rcases List.mem_append.1 hx with hx | hx
    · exact .inl ⟨x, hx, hk⟩
    · rw [List.mem_singleton.1 hx, he] at hk
      cases hk
  · intro k _ s u
    rw [hevents, block_append, he]
    constructor
    · rintro (hb | ⟨hk, -⟩)
      · exact hb
      · cases hk
    · exact .inl

end Db

end Prosepect

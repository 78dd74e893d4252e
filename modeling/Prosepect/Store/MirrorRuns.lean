/-
The schedules of the tasks and their blocks over whole runs. Two operations delete calendars
whatever their events stand for; every other one keeps the two copies in step.
-/
import Prosepect.Store.MirrorWrites

namespace Prosepect

open Resumption Table Time Store

/-- A snapshot shows a task and its block in step. -/
structure Snapshot.InStep (s : Snapshot) (n : Uuid) : Prop where
  used : s.task.id < n
  linked : ∀ e, s.event = some e → e.linkedTaskId = some s.task.id
  mirrors : ∀ a b, (s.task.scheduledStart = some a ∧ s.task.scheduledEnd = some b) ↔
    ∃ e, s.event = some e ∧ e.startsAt = a ∧ e.endsAt = b

theorem Snapshot.InStep.mono {s : Snapshot} {n n' : Uuid} (h : s.InStep n) (hn : n ≤ n') : s.InStep n' :=
  { h with used := lt_of_lt_of_le h.used hn }

/-- A receipt of a move has the same times for the task as for its event. -/
def CalendarMoveUndo.InStep (m : CalendarMoveUndo) : Prop :=
  ∀ k, m.taskId = some k → m.taskStartsAt = some m.startsAt ∧ m.taskEndsAt = some m.endsAt

namespace Workspace

/-- The two copies agree, also in what an undo is to bring back. -/
structure InStep (w : Workspace) : Prop where
  db : w.db.Mirrored
  snapshots : ∀ x ∈ w.snapshots, x.2.InStep w.db.nextId
  moves : ∀ m ∈ w.moves, m.InStep

structure Mirroring (w w' : Workspace) : Prop where
  onward : w.Onward w'
  inStep : w.MovesValid → w.InStep → w'.InStep

variable {w w' : Workspace} {α : Type}

theorem Mirroring.refl (w : Workspace) : w.Mirroring w := ⟨.refl w, fun _ h => h⟩

theorem Mirroring.trans {a b c : Workspace} (h : a.Mirroring b) (h' : b.Mirroring c) : a.Mirroring c :=
  ⟨h.onward.trans h'.onward, fun hv hm => h'.inStep (h.onward hv).1 (h.inStep hv hm)⟩

/-- A step that issues no receipt and takes no snapshot. -/
theorem InStep.step (h : w.InStep) (hdb : w'.db.Mirrored) (hn : w.db.nextId ≤ w'.db.nextId)
    (hs : ∀ x ∈ w'.snapshots, x ∈ w.snapshots) (hm : ∀ m ∈ w'.moves, m ∈ w.moves) : w'.InStep :=
  ⟨hdb, fun x hx => (h.snapshots x (hs x hx)).mono hn, fun m hmem => h.moves m (hm m hmem)⟩

theorem mirroring_settle {db : Db} (h : w.db.Mirroring db) : w.Mirroring (w.settle db) := by
  refine ⟨onward_settle h.aged, fun hv hm => ?_⟩
  exact hm.step (h.mirrored hv.db hm.db) (h.aged hv.db).2.nextId (fun _ hx => hx) fun m hmem => (settle_moves hmem).1

theorem mirroring_onDb {t : StoreTx α} (h : Tx.Within Db.Mirroring t) : Tx.Within Mirroring (onDb t) := by
  intro w a w' hw
  obtain ⟨db, ht, rfl⟩ := onDb_ok hw
  exact mirroring_settle (h w.db a db ht)

/-- A step beside the tasks and the events. -/
theorem mirroring_beside (ho : w.Onward w') (htasks : w'.db.tasks = w.db.tasks) (hevents : w'.db.events = w.db.events)
    (hn : w.db.nextId ≤ w'.db.nextId) (hs : ∀ x ∈ w'.snapshots, x ∈ w.snapshots) (hm : ∀ m ∈ w'.moves, m ∈ w.moves) :
    w.Mirroring w' :=
  ⟨ho, fun _ h => h.step (h.db.same htasks hevents hn) hn hs hm⟩

theorem Quiet.mirroring (h : w.Quiet w') : w.Mirroring w' := by
  refine ⟨h.onward, fun hv hm => ?_⟩
  exact hm.step (h.db.mirroring.mirrored hv.db hm.db) h.db.nextId (fun x hx => h.snapshots ▸ hx) h.moves

theorem mirroring_quiet {t : WorkspaceTx α} (h : Tx.Within Quiet t) : Tx.Within Mirroring t :=
  fun w a w' hw => (h w a w' hw).mirroring

theorem mirroring_void {t : WorkspaceTx α} (h : Tx.Within Mirroring t) : Tx.Within Mirroring (Action.void t) :=
  .bind (R := Mirroring) Mirroring.trans h fun _ => .pure .refl ()

/-- A write beside the first tables, the receipts and the snapshots. -/
theorem mirroring_write {g : Workspace → Workspace} (hdb : ∀ w, (g w).db = w.db) (hm : ∀ w, (g w).moves = w.moves)
    (hs : ∀ w, (g w).snapshots = w.snapshots) : Tx.Within Mirroring (Tx.write g : WorkspaceTx Unit) := by
  refine .write fun w => ?_
  refine mirroring_beside (onward_beside (by rw [hdb]; exact .refl _) (by rw [hdb]) (fun _ h => hm w ▸ h) (hs w)) ?_ ?_ ?_ ?_ ?_
  · rw [hdb]
  · rw [hdb]
  · rw [hdb]
  · exact fun x hx => hs w ▸ hx
  · exact fun m hmem => hm w ▸ hmem

/-! ## Projects -/

theorem mirroring_insertProject (r : CreateProjectRequest) : Tx.Within Mirroring (insertProject r) := by
  intro w p w' h
  refine ⟨onward_insertProject r w p w' h, fun hv hm => ?_⟩
  cases h
  exact hm.step (hm.db.same rfl rfl (Nat.le_succ _)) (Nat.le_succ _) (fun _ hx => hx) fun _ hm => hm

theorem mirroring_createProject (r : CreateProjectRequest) : Tx.Within Mirroring (createProject r) :=
  .bind (R := Mirroring) Mirroring.trans (.ofExcept .refl _) fun _ => mirroring_insertProject r

theorem mirroring_deleteProject (project : Uuid) (expectedVersion : Int) :
    Tx.Within Mirroring (deleteProject project expectedVersion) := by
  intro w a w' h
  refine ⟨onward_deleteProject project expectedVersion w a w' h, fun hv hm => ?_⟩
  unfold deleteProject at h
  split at h
  · cases h
  · obtain ⟨_, db₁, hremoved, h⟩ := onDb_bind_ok h
    cases hremoved
    rw [Tx.read_bind_run] at h
    cases hp : (w.settle (removeProjectEvents project w.db)).projects.find? (·.id == project) with
    | none =>
      simp only [hp] at h
      cases h
    | some p =>
      simp only [hp] at h
      split at h
      · cases h
      · obtain ⟨db₂, hdeleted, rfl⟩ := onDb_ok h
        cases hdeleted
        have hn : w.db.nextId ≤ (removeProjectEvents project w.db).nextId := (Db.beside_removeProjectEvents project).nextId
        refine hm.step (Db.mirrored_deleteProject hv.db hm.db project) hn (fun _ hx => hx) fun m hmem => ?_
        exact (settle_moves (settle_moves hmem).1).1

theorem mirroring_importTodoistProject (toLowercase : String → String) (r : TodoistImportRequest) :
    Tx.Within Mirroring (importTodoistProject toLowercase r) := by
  unfold importTodoistProject
  refine .bind (R := Mirroring) Mirroring.trans (.ofExcept .refl _) fun _ => .ite (fun _ => .raise _) fun _ => ?_
  refine .bind (R := Mirroring) Mirroring.trans (.ofExcept .refl _) fun _ => ?_
  refine .bind (R := Mirroring) Mirroring.trans (mirroring_insertProject _) fun _ => ?_
  refine .bind (R := Mirroring) Mirroring.trans (.read .refl) fun _ => ?_
  exact .bind (R := Mirroring) Mirroring.trans (mirroring_onDb (Db.mirroring_importTasks _ _ _ _)) fun _ => .pure .refl _

/-! ## Calendars -/

/-- A new calendar. -/
theorem mirroring_insertCalendar {c : Calendar} (hid : c.id = w.db.nextId) :
    w.Mirroring (w.settle { w.db.fresh with calendars := w.db.calendars ++ [c] }) :=
  mirroring_settle (Db.mirroring_same (Db.aged_insertCalendar hid) rfl rfl (Nat.le_succ _))

theorem mirroring_writeCalendar (calendar : Uuid) {f : Calendar → Calendar} (hf : ∀ c, (f c).id = c.id) :
    Tx.Within Mirroring (onDb (Tx.write (Db.updateCalendar calendar f))) :=
  mirroring_onDb (.write fun _ => Db.mirroring_same (Db.aged_updateCalendar calendar hf) rfl rfl le_rfl)

theorem mirroring_createCalendar (toLowercase : String → String) (name color : String) :
    Tx.Within Mirroring (createCalendar toLowercase name color) := by
  unfold createCalendar
  refine .bind (R := Mirroring) Mirroring.trans (.ofExcept .refl _) fun _ => ?_
  intro w a w' h
  rw [Tx.read_bind_run] at h
  obtain ⟨_, db, hdb, h⟩ := onDb_bind_ok h
  cases hdb
  rw [Tx.write_bind_run] at h
  cases h
  have hnew := mirroring_insertCalendar (w := w) (c := ⟨w.db.nextId, .native, none, true, false, false, .reader, none, none,
    none⟩) rfl
  refine hnew.trans ?_
  exact mirroring_beside (onward_beside (.refl _) rfl (fun _ hm => hm) rfl) rfl rfl le_rfl (fun _ hx => hx) fun _ hm => hm

theorem mirroring_updateCalendar (toLowercase : String → String) (calendar : Uuid) (r : UpdateCalendarRequest) :
    Tx.Within Mirroring (updateCalendar toLowercase calendar r) := by
  unfold updateCalendar
  refine .bind (R := Mirroring) Mirroring.trans (.ofExcept .refl _) fun _ => ?_
  refine .bind (R := Mirroring) Mirroring.trans (.read .refl) fun w => ?_
  split
  · exact .raise _
  · refine .ite (fun _ => .raise _) fun _ => ?_
    refine .bind (R := Mirroring) Mirroring.trans (mirroring_writeCalendar calendar fun _ => rfl) fun _ => ?_
    refine .bind (R := Mirroring) Mirroring.trans (mirroring_write (fun _ => rfl) (fun _ => rfl) fun _ => rfl) fun _ => ?_
    exact .ite (fun _ => mirroring_onDb (Db.mirroring_enqueueSync _ _)) fun _ => .pure .refl _

theorem mirroring_upsertGoogleCalendar (entry : GoogleCalendar) : Tx.Within Mirroring (upsertGoogleCalendar entry) := by
  intro w a w' h
  unfold upsertGoogleCalendar at h
  rw [Tx.read_bind_run] at h
  dsimp only at h
  cases hc : w.db.calendars.find? fun c => c.source == .google && c.externalId == some entry.id with
  | some c =>
    simp only [hc] at h
    obtain ⟨_, u, hcalendar, hlabel⟩ := Tx.bind_ok h
    have hwritten : u.Mirroring w' := mirroring_write (by intro; rfl) (by intro; rfl) (by intro; rfl) u a w' hlabel
    exact (mirroring_writeCalendar c.id (by intro; rfl) _ _ _ hcalendar).trans hwritten
  | none =>
    simp only [hc] at h
    obtain ⟨_, db, hdb, h⟩ := onDb_bind_ok h
    cases hdb
    cases h
    have hnew := mirroring_insertCalendar (w := w) (c := ⟨w.db.nextId, .google, some entry.id,
      entry.selected.getD false || entry.primary.getD false, false, entry.primary.getD false,
      entry.accessRole.getD .reader, none, none, none⟩) rfl
    refine hnew.trans ?_
    exact mirroring_beside (onward_beside (.refl _) rfl (fun _ hm => hm) rfl) rfl rfl le_rfl (fun _ hx => hx) fun _ hm => hm

/-! ## Receipts -/

/-- Only the sources of the successors are written. -/
theorem plans_relinkSuccessors (s : Snapshot) (db : Db) : List.Forall₂ Db.SamePlan db.tasks (relinkSuccessors s db).tasks := by
  unfold relinkSuccessors
  generalize s.successors = l
  induction l generalizing db with
  | nil => exact List.forall₂_same.2 fun t _ => .refl t
  | cons t l ih =>
    refine rows_trans (fun h h' => ⟨h'.1.trans h.1, h'.2.1.trans h.2.1, h'.2.2.trans h.2.2⟩) ?_ (ih _)
    exact rows_update Db.SamePlan.refl fun _ _ _ => ⟨rfl, rfl, rfl⟩

theorem relinkSuccessors_events (s : Snapshot) (db : Db) :
    (relinkSuccessors s db).events = db.events ∧ (relinkSuccessors s db).nextId = db.nextId := by
  obtain ⟨tasks, h⟩ := relinkSuccessors_eq s db
  rw [h]
  exact ⟨rfl, rfl⟩

theorem restoreEvent_tasks (s : Snapshot) (db : Db) :
    (restoreEvent s db).tasks = db.tasks ∧ (restoreEvent s db).nextId = db.nextId := by
  unfold restoreEvent
  cases s.event <;> exact ⟨rfl, rfl⟩

theorem block_restoreEvent (s : Snapshot) (db : Db) (k : Uuid) (a b : DateTime) : Block (restoreEvent s db).events k a b ↔
    Block db.events k a b ∨ ∃ e, s.event = some e ∧ e.linkedTaskId = some k ∧ e.startsAt = a ∧ e.endsAt = b := by
  unfold restoreEvent
  cases s.event with
  | none => simp
  | some e => exact block_append.trans (by simp)

/-- The event of a snapshot comes back to its task, the only one that was out of step. -/
theorem mirrored_restoreEvent {s : Snapshot} {db : Db} {row : TaskRow} {n : Uuid} (h : db.MirroredBut (· = s.task.id))
    (hs : s.InStep n) (hrow : row ∈ db.tasks) (hplan : Db.SamePlan s.task row) (hfree : ∀ a b, ¬ Block db.events s.task.id a b) :
    (restoreEvent s db).Mirrored := by
  obtain ⟨htasks, hnext⟩ := restoreEvent_tasks s db
  have hplaced : (restoreEvent s db).MirroredBut (· = s.task.id) := by
    refine h.events htasks hnext.ge ?_ ?_
    · intro e he k hk
      have hblock : Block (restoreEvent s db).events k e.startsAt e.endsAt := ⟨e, he, hk, rfl, rfl⟩
      rcases (block_restoreEvent s db k _ _).1 hblock with ⟨x, hx, hxk, -⟩ | ⟨x, hx, hxk, -⟩
      · exact .inl ⟨x, hx, hxk⟩
      · exact .inr ⟨row, hrow, hplan.1.trans (Option.some.inj ((hs.linked x hx).symm.trans hxk))⟩
    · intro k hk a b
      rw [block_restoreEvent]
      constructor
      · rintro (hb | ⟨e, he, hl, -⟩)
        · exact hb
        · exact absurd (Option.some.inj (hl.symm.trans (hs.linked e he))) hk
      · exact .inl
  refine hplaced.close fun t ht hid a b => ?_
  rw [htasks] at ht
  obtain rfl := h.task_eq hrow ht (hid.trans hplan.1.symm)
  rw [block_restoreEvent, hid, hplan.2.1, hplan.2.2, hs.mirrors a b]
  constructor
  · rintro ⟨e, he, hb⟩
    exact .inr ⟨e, he, hs.linked e he, hb⟩
  · rintro (hb | ⟨e, he, -, hb⟩)
    · exact absurd hb (hfree a b)
    · exact ⟨e, he, hb⟩

/-- The task comes back with its block. -/
theorem mirrored_restoreDb {s : Snapshot} (hm : w.db.Mirrored) (hs : s.InStep w.db.nextId) (hfree : Vacant s w) :
    (restoreDb s w.db).Mirrored := by
  have hinserted : (w.db.insertTask (restoredTask w.db.now s.task)).MirroredBut (· = s.task.id) := by
    have hbut : (w.db.insertTask (restoredTask w.db.now s.task)).MirroredBut fun k =>
        False ∨ k = (restoredTask w.db.now s.task).id :=
      hm.insertTask rfl rfl le_rfl hfree.task hs.used
    exact hbut.weaken fun _ _ hk => hk.elim False.elim id
  have hrow : restoredTask w.db.now s.task ∈ (w.db.insertTask (restoredTask w.db.now s.task)).tasks :=
    List.mem_append_right _ (List.mem_singleton_self _)
  have hback := mirrored_restoreEvent hinserted hs hrow ⟨rfl, rfl, rfl⟩ (hm.not_block hfree.task)
  obtain ⟨hevents, hnext⟩ := relinkSuccessors_events s (restoreEvent s (w.db.insertTask (restoredTask w.db.now s.task)))
  have hmapping := beside_restoreMapping s (relinkSuccessors s (restoreEvent s (w.db.insertTask (restoredTask w.db.now s.task))))
  refine (hback.frame (plans_relinkSuccessors s _) hevents hnext.ge).same hmapping.tasks ?_ hmapping.nextId
  unfold restoreDb restoreMapping
  cases s.mapping <;> rfl

theorem mirroring_undoTaskDelete (locked : Bool) (validation : Except AppError Unit) (receipt : Uuid) :
    Tx.Within Mirroring (undoTaskDelete locked validation receipt) := by
  intro w a w' h
  refine ⟨onward_undoTaskDelete locked validation receipt w a w' h, fun hv hm => ?_⟩
  obtain ⟨u, s, -, hs, hleft, hfree, rfl⟩ := undoTaskDelete_ok h
  obtain ⟨-, hnext, -⟩ := valid_restoreDb hv.db (hv.snapshots _ hs) hleft hfree
  have hback := mirrored_restoreDb hm.db (hm.snapshots _ hs) hfree
  exact hm.step (hback.same rfl rfl le_rfl) hnext.ge (fun x hx => (mem_delete.1 hx).1) fun _ hm => hm

/-- A snapshot has the task and its block as they were. -/
theorem inStep_taken (hm : w.db.Mirrored) (hv : w.db.Valid) {row : TaskRow} {s : Snapshot} (hrow : row ∈ w.db.tasks)
    (h : Taken row w s) : s.InStep w.db.nextId := by
  refine ⟨h.task ▸ hm.used row hrow, fun e he => ?_, fun a b => ?_⟩
  · rw [h.task]
    exact (taskEvent?_mem (h.event.symm.trans he)).2
  · rw [h.task, hm.mirrors row hrow id a b, h.event]
    constructor
    · rintro ⟨e, he, hlink, hb⟩
      exact ⟨e, hv.taskEvent?_eq_some.2 ⟨he, hlink⟩, hb⟩
    · rintro ⟨e, he, hb⟩
      exact ⟨e, (taskEvent?_mem he).1, (taskEvent?_mem he).2, hb⟩

theorem mirroring_deleteTaskWithSnapshot (octets : Snapshot → Nat) (locked validated : Bool) (task : Uuid)
    (expectedVersion : Int) : Tx.Within Mirroring (deleteTaskWithSnapshot octets locked validated task expectedVersion) := by
  intro w receipt w' h
  refine ⟨onward_deleteTaskWithSnapshot octets locked validated task expectedVersion w receipt w' h, fun hv hm => ?_⟩
  obtain ⟨row, s, held, mapping, w₁, w₂, htask, -, -, rfl, htaken, -, -, rfl, -, rfl⟩ := deleteTaskWithSnapshot_ok h
  have hrows : (heldBack row held w.db).tasks = w.db.tasks ∧ (heldBack row held w.db).events = w.db.events ∧
      w.db.nextId ≤ (heldBack row held w.db).nextId := by
    unfold heldBack
    cases held with
    | none => exact ⟨rfl, rfl, Nat.le_succ _⟩
    | some p => exact ⟨rfl, rfl, (Nat.le_succ _).trans (Nat.le_succ _)⟩
  have hheld : (heldBack row held w.db).Mirrored := hm.db.same hrows.1 hrows.2.1 hrows.2.2
  have hgone : ((heldBack row held w.db).deleteTask row.id).Mirrored := (hheld.but (· = row.id)).deleteTask
  have htaken' : s.InStep w.db.nextId := inStep_taken (w := w.settle w.db) hm.db hv.db (task?_mem htask).1 htaken
  refine ⟨hgone, fun x hx => ?_, fun m hmem => hm.moves m (settle_moves (settle_moves (settle_moves hmem).1).1).1⟩
  rcases List.mem_append.1 hx with hx | hx
  · exact (hm.snapshots x hx).mono hrows.2.2
  · rw [List.mem_singleton.1 hx]
    exact { htaken'.mono hrows.2.2 with }

theorem mirroring_cleanupMoves (w : Workspace) : w.Mirroring (Store.cleanupMoves w) :=
  mirroring_beside (onward_cleanupMoves w) rfl rfl le_rfl (fun _ hx => hx) fun _ hm => (mem_delete.1 hm).1

/-- The task of an event has the times of the event. -/
theorem scheduled_linked (hm : w.db.Mirrored) {e : CalendarEvent} (he : e ∈ w.db.events) {k : Uuid} {t : TaskRow}
    (hk : e.linkedTaskId = some k) (ht : w.db.task? k = some t) :
    t.id = k ∧ t.scheduledStart = some e.startsAt ∧ t.scheduledEnd = some e.endsAt := by
  obtain ⟨hmem, hid⟩ := task?_mem ht
  exact ⟨hid, (hm.mirrors t hmem id _ _).2 ⟨e, he, hk.trans (congrArg some hid.symm), rfl, rfl⟩⟩

theorem mirroring_moveCalendarItem (locked : Bool) (item : Uuid) (isTask : Bool) (r : MoveCalendarItemRequest) :
    Tx.Within Mirroring (moveCalendarItem locked item isTask r) := by
  intro w receipt w' h
  refine ⟨onward_moveCalendarItem locked item isTask r w receipt w' h, fun hv hm => ?_⟩
  obtain ⟨e, task, w₁, -, he, htask, hreceipt, rfl, rfl⟩ := moveCalendarItem_ok h
  obtain ⟨hmem, -⟩ := event?_mem he
  have hfresh : w.db.fresh.Mirrored := hm.db.same rfl rfl (Nat.le_succ _)
  have hmoved : (moveEvent e r.startsAt r.endsAt (movedTask task r.startsAt r.endsAt) w.db.fresh).Mirrored := by
    refine Db.mirrored_moveEvent hv.db.fresh hfresh hmem ?_
    rcases htask with ⟨hnone, rfl⟩ | ⟨k, t, hk, ht, rfl⟩
    · rw [hnone]
      rfl
    · obtain ⟨hid, -⟩ := scheduled_linked hm.db hmem hk ht
      rw [hk, ← hid]
      rfl
  have hmem' : e ∈ w.db.fresh.events := hmem
  have hn : w.db.nextId ≤ (moveEvent e r.startsAt r.endsAt (movedTask task r.startsAt r.endsAt) w.db.fresh).nextId :=
    (Nat.le_succ _).trans (Db.aged_moveEvent hmem' _ _ _ hv.db.fresh).2.nextId
  refine ⟨hmoved, fun x hx => (hm.snapshots x hx).mono hn, fun m hmem' => ?_⟩
  rcases List.mem_append.1 hmem' with hmem' | hmem'
  · exact hm.moves m (mem_delete.1 (settle_moves (settle_moves hmem').1).1).1
  · rw [List.mem_singleton.1 hmem', hreceipt]
    intro k hk
    rcases htask with ⟨hnone, rfl⟩ | ⟨k', t, hk', ht, rfl⟩
    · rw [hnone] at hk
      cases hk
    · exact (scheduled_linked hm.db hmem hk' ht).2

theorem mirroring_undoCalendarMove (locked : Bool) (receipt : Uuid) : Tx.Within Mirroring (undoCalendarMove locked receipt) := by
  intro w a w' h
  refine ⟨onward_undoCalendarMove locked receipt w a w' h, fun hv hm => ?_⟩
  obtain ⟨inverse, e, task, w₁, hfind, he, -, -, hlink, -, -, -, rfl, rfl⟩ := undoCalendarMove_ok h
  obtain ⟨hmem, -⟩ := event?_mem he
  have hinverse := hm.moves inverse (List.mem_of_find?_eq_some hfind)
  have hmoved : (moveEvent e inverse.startsAt inverse.endsAt
      (inverse.taskId.map fun k => (k, inverse.taskStartsAt, inverse.taskEndsAt)) w.db).Mirrored := by
    refine Db.mirrored_moveEvent hv.db hm.db hmem ?_
    rw [hlink]
    cases hk : inverse.taskId with
    | none => rfl
    | some k =>
      obtain ⟨hs, hu⟩ := hinverse k hk
      rw [Option.map_some, Option.map_some, hs, hu]
  have hn := (Db.aged_moveEvent hmem inverse.startsAt inverse.endsAt
    (inverse.taskId.map fun k => (k, inverse.taskStartsAt, inverse.taskEndsAt)) hv.db).2.nextId
  refine hm.step hmoved hn (fun _ hx => hx) fun m hmem' => ?_
  exact (settle_moves (settle_moves (mem_delete.1 (mem_delete.1 hmem').1).1).1).1

end Workspace

/-! ## Runs -/

/-- No block of a task goes with a calendar that is deleted. -/
def Action.Spares (a : Action) (w : Workspace) : Prop :=
  match a with
  | .deleteCalendar calendar version => ∀ c, w.db.calendar? calendar = some c → c.isDefault = false →
      (w.label calendar).version = version → ∀ e ∈ w.db.events, e.calendarId = calendar → e.linkedTaskId = none
  | .revokeGoogleIntegration => ∀ e ∈ w.db.events, w.db.OfGoogle e.calendarId → e.linkedTaskId = none
  | _ => True

namespace Workspace

variable {w w' : Workspace}

/-- Calendars go that no event of a task is in. -/
theorem inStep_deleteCalendars (h : w.InStep) {p : Calendar → Bool}
    (hfree : ∀ e ∈ w.db.events, (∃ c ∈ w.db.calendars, p c = true ∧ c.id = e.calendarId) → e.linkedTaskId = none) :
    (w.settle (w.db.deleteCalendars p)).InStep :=
  h.step (Db.mirrored_deleteCalendars h.db hfree) le_rfl (fun _ hx => hx) fun _ hm => (settle_moves hm).1

theorem deleteCalendar_ok {calendar : Uuid} {expectedVersion : Int} {a : Unit}
    (h : deleteCalendar calendar expectedVersion w = .ok (a, w')) :
    ∃ c, w.db.calendar? calendar = some c ∧ c.isDefault = false ∧ (w.label calendar).version = expectedVersion ∧
      w' = w.settle (w.db.deleteCalendars (·.id == calendar)) := by
  unfold deleteCalendar at h
  rw [Tx.read_bind_run] at h
  cases hc : w.db.calendar? calendar with
  | none =>
    simp only [hc] at h
    cases h
  | some c =>
    simp only [hc] at h
    split at h
    · rename_i hok
      obtain ⟨db, hdb, rfl⟩ := onDb_ok h
      cases hdb
      exact ⟨c, rfl, hok.2, hok.1, rfl⟩
    · split at h <;> cases h

theorem mirroring_deleteCalendar (calendar : Uuid) (expectedVersion : Int) :
    Tx.Within (fun w w' => (Action.deleteCalendar calendar expectedVersion).Spares w → w.Mirroring w')
      (deleteCalendar calendar expectedVersion) := by
  intro w a w' h hs
  refine ⟨onward_deleteCalendar calendar expectedVersion w a w' h, fun _ hm => ?_⟩
  obtain ⟨c, hc, hdefault, hversion, rfl⟩ := deleteCalendar_ok h
  refine inStep_deleteCalendars hm ?_
  rintro e he ⟨d, -, hd, hid⟩
  exact hs c hc hdefault hversion e he (hid.symm.trans (beq_iff_eq.1 hd))

theorem mirroring_revokeGoogleIntegration :
    Tx.Within (fun w w' => Action.revokeGoogleIntegration.Spares w → w.Mirroring w') revokeGoogleIntegration := by
  intro w a w' h hs
  refine ⟨onward_revokeGoogleIntegration w a w' h, fun _ hm => ?_⟩
  unfold revokeGoogleIntegration at h
  obtain ⟨_, db, hdb, h⟩ := onDb_bind_ok h
  cases hdb
  cases h
  have hstep : (w.settle (w.db.deleteCalendars (·.source == .google))).InStep := by
    refine inStep_deleteCalendars hm ?_
    rintro e he ⟨c, hc, hsource, hid⟩
    exact hs e he ⟨c, hc, hid, beq_iff_eq.1 hsource⟩
  exact hstep.step hstep.db le_rfl (fun _ hx => hx) fun _ hm => hm

theorem Mirroring.given {P : Workspace → Prop} {α : Type} {t : WorkspaceTx α} (h : Tx.Within Mirroring t) :
    Tx.Within (fun w w' => P w → w.Mirroring w') t :=
  fun w a w' hw _ => h w a w' hw

theorem mirroring_tx (env : Env) (a : Action) : Tx.Within (fun w w' => a.Spares w → w.Mirroring w') (a.tx env) := by
  cases a with
  | tick now =>
    refine Mirroring.given (.write fun w => mirroring_beside ?_ rfl rfl le_rfl (fun _ hx => hx) fun _ hm => hm)
    exact onward_beside (Db.aged_same rfl rfl rfl rfl le_rfl) rfl (fun _ hm => hm) rfl
  | createProject r => exact .given (mirroring_void (mirroring_createProject r))
  | updateProject project r => exact .given (mirroring_quiet (quiet_void (quiet_updateProject project r)))
  | deleteProject project version => exact .given (mirroring_deleteProject project version)
  | importTodoistProject r => exact .given (mirroring_void (mirroring_importTodoistProject _ r))
  | importGoogleTask title deadline completed =>
    exact .given (mirroring_void (mirroring_onDb (Db.mirroring_importGoogleTask _ _ _)))
  | createTask r => exact .given (mirroring_void (mirroring_onDb (Db.mirroring_createTask _ r)))
  | updateTask task r scope => exact .given (mirroring_void (mirroring_onDb (Db.mirroring_updateTaskScoped _ task r scope)))
  | reorderTasks taskIds =>
    exact .given (mirroring_onDb fun db x db' h => (Db.quiet_reorderTasks taskIds db x db' h).mirroring)
  | deleteTask task version => exact .given (mirroring_onDb (Db.mirroring_deleteTask task version))
  | deleteTaskWithUndo locked validated task version =>
    exact .given (mirroring_void (mirroring_deleteTaskWithSnapshot env.octets locked validated task version))
  | undoTaskDelete locked validation receipt => exact .given (mirroring_undoTaskDelete locked validation receipt)
  | cleanupTaskDeleteUndos =>
    refine .given (mirroring_onDb (t := Tx.write Store.cleanupTaskDeleteUndos) (.write fun _ => ?_))
    exact Db.mirroring_same (Db.aged_same rfl rfl rfl rfl le_rfl) rfl rfl le_rfl
  | createEvent r => exact .given (mirroring_void (mirroring_onDb (Db.mirroring_createCalendarEvent _ r)))
  | updateEvent event r => exact .given (mirroring_void (mirroring_onDb (Db.mirroring_updateCalendarEvent _ event r)))
  | deleteEvent event version => exact .given (mirroring_onDb (Db.mirroring_deleteCalendarEvent event version))
  | moveCalendarItem locked item isTask r => exact .given (mirroring_void (mirroring_moveCalendarItem locked item isTask r))
  | undoCalendarMove locked receipt => exact .given (mirroring_undoCalendarMove locked receipt)
  | cleanupMoves => exact .given (.write mirroring_cleanupMoves)
  | createCalendar name color => exact .given (mirroring_void (mirroring_createCalendar _ name color))
  | updateCalendar calendar r => exact .given (mirroring_updateCalendar _ calendar r)
  | deleteCalendar calendar version => exact mirroring_deleteCalendar calendar version
  | connectGoogle account => exact .given (mirroring_write (fun _ => rfl) (fun _ => rfl) fun _ => rfl)
  | revokeGoogleIntegration => exact mirroring_revokeGoogleIntegration
  | discoverCalendar entry => exact .given (mirroring_upsertGoogleCalendar entry)
  | migrateScheduledTasks => exact .given (mirroring_onDb Db.mirroring_migrateScheduledTasks)
  | createNote r => exact .given (mirroring_quiet (quiet_void (quiet_createNote r)))
  | updateNote note r => exact .given (mirroring_quiet (quiet_void (quiet_updateNote note r)))
  | deleteNote note version => exact .given (mirroring_quiet (quiet_deleteNote note version))
  | createFile others r => exact .given (mirroring_quiet (quiet_void (quiet_createFileMetadata others r)))
  | deleteFile file => exact .given (mirroring_quiet (quiet_void (quiet_deleteFileMetadata file)))
  | updateDailyFocus date taskIds => exact .given (mirroring_quiet (quiet_updateDailyFocus date taskIds))
  | startDailyReview date manual => exact .given (mirroring_quiet (quiet_void (quiet_startDailyReview date manual)))
  | completeDailyReview date version decisions =>
    exact .given (mirroring_quiet (quiet_void (quiet_completeDailyReview date version decisions)))
  | resolveSyncConflict locked conflict resolution =>
    exact .given (mirroring_void (mirroring_onDb (Db.mirroring_resolveSyncConflict locked conflict resolution)))
  | setSyncConflictPolicy policy => exact .given (mirroring_onDb (Db.mirroring_setSyncConflictPolicy policy))
  | requestSync calendar key =>
    exact .given (mirroring_onDb (t := Store.enqueueSync calendar key) (Db.mirroring_enqueueSync calendar key))
  | sync s => exact .given (mirroring_onDb (.write fun db => Db.mirroring_exec s db))

theorem mirroring_perform (env : Env) {a : Action} (hs : a.Spares w) : w.Mirroring (a.perform env w) :=
  Tx.Within.commit (R := fun w w' => a.Spares w → w.Mirroring w') (fun w _ => .refl w) (mirroring_tx env a) w hs

theorem inStep_initial (now : DateTime) (nextId : Uuid) (policy : Option SyncConflictPolicy) (automatic : Bool) :
    (Workspace.initial now nextId policy automatic).InStep := by
  refine ⟨⟨.nil _, ?_, ?_, ?_⟩, ?_, ?_⟩
  all_goals exact fun _ h => nomatch h

theorem mirroring_run {env : Env} {w w' : Workspace} (h : Run env Action.Spares w w') : w.Mirroring w' := by
  induction h with
  | start => exact .refl w
  | step a _ hs ih => exact ih.trans (mirroring_perform env hs)

end Workspace

/-- Every task is in the calendar exactly where its row says: a task with a start and an end has one
event linked to it, at these times, and a task without them has none. -/
structure Db.SchedulesMirrored (db : Db) : Prop where
  linked : ∀ e ∈ db.events, ∀ k, e.linkedTaskId = some k → ∃ t ∈ db.tasks, t.id = k
  plans : ∀ t ∈ db.tasks, ∀ s u, (t.scheduledStart = some s ∧ t.scheduledEnd = some u) ↔
    ∃ e, db.events.filter (·.linkedTaskId == some t.id) = [e] ∧ e.startsAt = s ∧ e.endsAt = u

namespace Workspace

variable {w w' : Workspace}

theorem block_iff_filter {db : Db} (hv : db.Valid) (k : Uuid) (s u : DateTime) : Block db.events k s u ↔
    ∃ e, db.events.filter (·.linkedTaskId == some k) = [e] ∧ e.startsAt = s ∧ e.endsAt = u := by
  constructor
  · rintro ⟨e, he, hk, hb⟩
    exact ⟨e, hv.eventTasks.filter_eq_singleton he (by simpa using hk) (k := k) fun r _ hr => by simpa using hr, hb⟩
  · rintro ⟨e, he, hb⟩
    have hmem : e ∈ db.events.filter (·.linkedTaskId == some k) := he ▸ List.mem_singleton_self e
    obtain ⟨hmem, hk⟩ := List.mem_filter.1 hmem
    exact ⟨e, hmem, by simpa using hk, hb⟩

theorem mirrored_iff {db : Db} (hv : db.Valid) (hids : Unique (fun t : TaskRow => some t.id) db.tasks)
    (hused : ∀ t ∈ db.tasks, t.id < db.nextId) : db.Mirrored ↔ db.SchedulesMirrored := by
  constructor
  · intro h
    exact ⟨h.linked, fun t ht s u => (h.mirrors t ht id s u).trans (block_iff_filter hv t.id s u)⟩
  · intro h
    exact ⟨hids, hused, h.linked, fun t ht _ s u => (h.plans t ht s u).trans (block_iff_filter hv t.id s u).symm⟩

/-- Whoever deletes a calendar with the block of a task in it leaves the task scheduled without one. -/
theorem not_schedulesMirrored_deleteCalendars {db : Db} (hv : db.Valid) (hm : db.Mirrored) {p : Calendar → Bool}
    {e : CalendarEvent} (he : e ∈ db.events) (hlink : e.linkedTaskId ≠ none)
    (hc : ∃ c ∈ db.calendars, p c = true ∧ c.id = e.calendarId) : ¬ (db.deleteCalendars p).SchedulesMirrored := by
  obtain ⟨k, hk⟩ := Option.ne_none_iff_exists'.1 hlink
  have hiff : (db.deleteCalendars p).Mirrored ↔ (db.deleteCalendars p).SchedulesMirrored :=
    mirrored_iff (Db.aged_deleteCalendars p hv).1 hm.ids hm.used
  exact fun h => Db.not_mirrored_deleteCalendars hv hm he hk hc (hiff.2 h)

theorem not_schedulesMirrored_perform {env : Env} (hv : w.db.Valid) (hm : w.db.Mirrored) {a : Action} (hs : ¬ a.Spares w) :
    ¬ (a.perform env w).db.SchedulesMirrored := by
  cases a with
  | deleteCalendar calendar version =>
    simp only [Action.Spares] at hs
    push Not at hs
    obtain ⟨c, hc, hdefault, hversion, e, he, hcalendar, hlink⟩ := hs
    have hperform : (Action.deleteCalendar calendar version).perform env w =
        w.settle (w.db.deleteCalendars (·.id == calendar)) := by
      show (Tx.commit (deleteCalendar calendar version) w).2 = _
      unfold Tx.commit deleteCalendar
      rw [Tx.read_bind_run]
      simp only [hc]
      rw [if_pos ⟨hversion, hdefault⟩]
      rfl
    rw [hperform]
    obtain ⟨hmem, hid⟩ := calendar?_mem hc
    exact not_schedulesMirrored_deleteCalendars hv hm he hlink ⟨c, hmem, beq_iff_eq.2 hid, hid.trans hcalendar.symm⟩
  | revokeGoogleIntegration =>
    simp only [Action.Spares] at hs
    push Not at hs
    obtain ⟨e, he, ⟨c, hc, hid, hsource⟩, hlink⟩ := hs
    exact not_schedulesMirrored_deleteCalendars hv hm he hlink ⟨c, hc, beq_iff_eq.2 hsource, hid⟩
  | _ => exact absurd trivial hs

/-- The calendar shows every task where its row says, whatever was done to tasks, events and
calendars on either side, by moves and undos, and by synchronizations: one operation after the other
keeps it so, but for the deletion of calendars, which keeps it so exactly when no event of a task
is in them. -/
theorem schedules_mirrored {env : Env} {now : DateTime} {nextId : Uuid} {policy : Option SyncConflictPolicy}
    {automatic : Bool} {w : Workspace} (h : Run env Action.Spares (Workspace.initial now nextId policy automatic) w) :
    w.db.SchedulesMirrored ∧ ∀ a : Action, (a.perform env w).db.SchedulesMirrored ↔ a.Spares w := by
  have hstart := movesValid_initial now nextId policy automatic
  have hrun := mirroring_run h
  have hv := (hrun.onward hstart).1
  have hm := hrun.inStep hstart (inStep_initial now nextId policy automatic)
  refine ⟨(mirrored_iff hv.db hm.db.ids hm.db.used).1 hm.db, fun a => ⟨fun ha => ?_, fun hs => ?_⟩⟩
  · by_contra hs
    exact not_schedulesMirrored_perform hv.db hm.db hs ha
  · have hstep := mirroring_perform env hs
    have hm' := hstep.inStep hv hm
    exact (mirrored_iff (hstep.onward hv).1.db hm'.db.ids hm'.db.used).1 hm'.db

/-- A task that is put into a calendar, and whose calendar is deleted. -/
theorem schedules_mirrored_of_one : ∃ w : Workspace, w.db.SchedulesMirrored ∧ (∃ t ∈ w.db.tasks, t.scheduledStart = some 0) ∧
    ¬ ((Action.deleteCalendar 0 1).perform ⟨id, fun _ => 0⟩ w).db.SchedulesMirrored := by
  let env : Env := ⟨id, fun _ => 0⟩
  let found := (Action.discoverCalendar ⟨"c", "C", none, some true, some true, some .owner⟩).perform env (.initial 0 0 none false)
  let planned := (Action.createTask ⟨none, none, "t", "", none, some 0, some 10, .todo, .medium, .none, [], none⟩).perform env found
  have hrun : Run env Action.Spares (.initial 0 0 none false) planned := .step _ (.step _ .start trivial) trivial
  obtain ⟨hm, hiff⟩ := schedules_mirrored hrun
  have hplanned : (planned.db.tasks.any (·.scheduledStart == some 0) && planned.db.events.any (fun e =>
      e.calendarId == 0 && e.linkedTaskId.isSome) && (planned.label 0).version == 1 &&
      (planned.db.calendar? 0).any (!·.isDefault)) = true := by decide +kernel
  simp only [Bool.and_eq_true, List.any_eq_true, beq_iff_eq, Option.any_eq_true, Bool.not_eq_true'] at hplanned
  obtain ⟨⟨⟨ht, e, he, hcalendar, hlink⟩, hversion⟩, c, hc, hdefault⟩ := hplanned
  refine ⟨planned, hm, ht, fun h => ?_⟩
  have hnone := (hiff (.deleteCalendar 0 1)).1 h c hc hdefault hversion e he hcalendar
  rw [hnone] at hlink
  cases hlink

end Workspace

end Prosepect

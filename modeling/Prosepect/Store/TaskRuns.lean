/-
The task graph of a workspace over whole runs: whatever operations are carried out, in any order,
the tasks stay well formed as long as no import lists a task under a recurring one. Snapshots of
deleted tasks are part of it, since an undo brings them back.
-/
import Prosepect.Store.WorkspaceStays

namespace Prosepect

open Relation Resumption Table Time Store

/-! ## Snapshots of tasks -/

/-- A deleted task, with what its place in the graph rests on. -/
structure Snapshot.Linked (s : Snapshot) (nextId : Uuid) : Prop where
  used : s.task.id < nextId
  version : 1 ≤ s.task.version
  parent : ∀ p, s.task.parentTaskId = some p → s.task.recurrence = .none ∧
    ∃ q ∈ s.taskDependencies, q.id = p ∧ q.projectId = s.task.projectId ∧ q.recurrence = .none
  source : ∀ p, s.task.recurrenceSourceId = some p → ∃ q ∈ s.taskDependencies, q.id = p ∧ q.status = .completed
  project : ∀ p, s.task.projectId = some p ∨ s.task.recurrenceProjectId = some p → ∃ x ∈ s.projects, x.id = p
  successors : s.successors ≠ [] → s.task.status = .completed
  single : s.successors.length ≤ 1

theorem Snapshot.Linked.mono {s : Snapshot} {n n' : Uuid} (h : s.Linked n) (hn : n ≤ n') : s.Linked n' :=
  ⟨lt_of_lt_of_le h.used hn, h.version, h.parent, h.source, h.project, h.successors, h.single⟩

namespace Workspace

/-- The tasks of a workspace are well formed, and the deleted ones fit where they were. -/
structure TasksValid (w : Workspace) : Prop where
  db : w.db.TasksValid
  projects : ∀ p ∈ w.projects, p.id ∈ w.db.projects
  snapshots : ∀ x ∈ w.snapshots, x.2.Linked w.db.nextId

variable {w w' : Workspace}

theorem Stays.tasksValid (h : w.Stays w') (hv : w.TasksValid) : w'.TasksValid where
  db := hv.db.around h.db.around.kept
  projects := by
    intro p hp
    rcases h.projects p hp with ⟨q, hq, hqp⟩ | hp
    · rw [h.db.around.projects, ← hqp]
      exact hv.projects q hq
    · exact hp
  snapshots := by
    intro x hx
    rw [h.snapshots] at hx
    exact (hv.snapshots x hx).mono h.db.around.nextId

theorem TasksValid.settle (hv : w.TasksValid) {db : Db} (h : db.TasksValid) (hn : w.db.nextId ≤ db.nextId) :
    (w.settle db).TasksValid := by
  refine ⟨h, fun p hp => ?_, fun x hx => (hv.snapshots x hx).mono hn⟩
  exact of_decide_eq_true (List.mem_filter.1 hp).2

/-- A transaction of the first tables keeps the tasks well formed. -/
theorem tasksValid_onDb {α : Type} {t : StoreTx α} (hnext : Tx.Within (fun db db' => db.nextId ≤ db'.nextId) t)
    (hvalid : ∀ db a db', db.TasksValid → t db = .ok (a, db') → db'.TasksValid) :
    Tx.Within (fun w w' => w.TasksValid → w'.TasksValid) (onDb t) := by
  intro w a w' h hv
  obtain ⟨db, ht, rfl⟩ := onDb_ok h
  exact hv.settle (hvalid _ _ _ hv.db ht) (hnext _ _ _ ht)

end Workspace

/-! ## Fresh ids -/

namespace Db

/-- Ids are only drawn. -/
def Draws (db db' : Db) : Prop := db.nextId ≤ db'.nextId

variable {db db' : Db}

theorem draws_createTask (toLowercase : String → String) (r : CreateTaskRequest) :
    Tx.Within Draws (createTask toLowercase r) := by
  intro db a db' h
  obtain ⟨labels, row, mid, -, -, -, -, -, -, rfl, hsync⟩ := createTask_ok h
  exact (Nat.le_succ _).trans (beside_syncTaskCalendarEvent _ _ _ _ hsync).nextId

theorem draws_createNextRecurringTask (task : Uuid) : Tx.Within Draws (createNextRecurringTask task) := by
  intro db a db' h
  obtain ⟨row, dueAt, nextDueAt, next, mid, -, -, -, -, -, -, rfl, hsync⟩ := createNextRecurringTask_ok h
  exact (Nat.le_succ _).trans (beside_syncTaskCalendarEvent _ _ _ _ hsync).nextId

theorem draws_removeNextOccurrenceForReopen (task : Uuid) : Tx.Within Draws (removeNextOccurrenceForReopen task) := by
  intro db a db' h
  rcases removeNextOccurrenceForReopen_ok h with ⟨-, rfl⟩ | ⟨next, -, -, -, rfl⟩
  · exact le_refl db'.nextId
  · exact le_refl db.nextId

theorem draws_updateTaskScoped (toLowercase : String → String) (task : Uuid) (r : UpdateTaskRequest)
    (scope : Option RecurrenceEditScope) : Tx.Within Draws (updateTaskScoped toLowercase task r scope) := by
  intro db a db' h
  obtain ⟨row, updated, -, hu⟩ := updateTaskScoped_ok h
  obtain ⟨db₁, db₂, hreopen, hsync, hnext⟩ := hu.steps
  have h1 : db.nextId ≤ db₁.nextId := by
    rcases ite_pure_ok hreopen with ⟨-, hr⟩ | ⟨-, rfl⟩
    · exact draws_removeNextOccurrenceForReopen task _ _ _ hr
    · exact le_rfl
  have h2 : db₁.nextId ≤ db₂.nextId := (beside_syncTaskCalendarEvent _ _ _ _ hsync).nextId
  have h3 : db₂.nextId ≤ db'.nextId := by
    rcases ite_pure_ok hnext with ⟨-, hn⟩ | ⟨-, rfl⟩
    · exact draws_createNextRecurringTask task _ _ _ hn
    · exact le_rfl
  exact h1.trans (h2.trans h3)

theorem draws_importTasks (project : Uuid) : ∀ (rest : List (TodoistImportTask × List String)) (position : Int)
    (taskIds : List Uuid), Tx.Within Draws (importTasks project position taskIds rest)
  | [], _, _ => .pure (fun db => le_refl db.nextId) _
  | (task, labels) :: rest, position, taskIds => by
    intro db a db' h
    obtain ⟨row, db₁, -, hsync, h⟩ := importTasks_cons_ok h
    have h1 : db.nextId ≤ db₁.nextId := (Nat.le_succ _).trans (beside_syncTaskCalendarEvent _ _ _ _ hsync).nextId
    exact h1.trans (draws_importTasks project rest _ _ _ _ _ h)

theorem draws_importGoogleTask (title : String) (deadline : Option DateTime) (completed : Bool) :
    Tx.Within Draws (importGoogleTask title deadline completed) := by
  intro db a db' h
  unfold importGoogleTask at h
  split at h
  · cases h
    exact Nat.le_refl _
  · rw [Tx.read_bind_run, Tx.write_bind_run] at h
    cases h
    exact Nat.le_succ _

end Db

/-! ## Deleting and undoing -/

section Undo

variable {w w' : Workspace}

theorem tasksValid_deleteTask (task : Uuid) (expectedVersion : Int) :
    Tx.Within (fun w w' => w.TasksValid → w'.TasksValid) (Workspace.onDb (deleteTask task expectedVersion)) := by
  intro w a w' h hv
  obtain ⟨db, ht, rfl⟩ := Workspace.onDb_ok h
  obtain ⟨row, hsub, -, -, rfl⟩ := deleteTask_ok ht
  have hbeside : w.db.Beside (removeTaskCalendarEvent task w.db) := beside_removeTaskCalendarEvent task
  exact hv.settle (Db.tasksValid_deleteTask (hv.db.beside hbeside) (by rw [hbeside.tasks]; exact hsub)) hbeside.nextId

theorem linked_of_taken {row : TaskRow} {s : Snapshot} (hv : w.TasksValid) (hrow : row ∈ w.db.tasks)
    (h : Taken row w s) : s.Linked w.db.nextId where
  used := h.task ▸ hv.db.used row hrow
  version := h.task ▸ hv.db.lineage.versions row hrow
  parent := by
    intro p hp
    rw [h.task] at hp ⊢
    obtain ⟨hrec, q, hq, hid, hproj, hqrec⟩ := hv.db.graph.parents row hrow p hp
    obtain ⟨t, ht, hf⟩ := h.parent p hp
    obtain ⟨htm, htid⟩ := task?_mem hf
    obtain rfl := hv.db.graph.ids.eq htm hq (congrArg some (htid.trans hid.symm)) rfl
    exact ⟨hrec, t, ht, hid, hproj, hqrec⟩
  source := by
    intro p hp
    rw [h.task] at hp
    obtain ⟨q, hq, hid, hdone⟩ := hv.db.lineage.completed row hrow p hp
    obtain ⟨t, ht, hf⟩ := h.source p hp
    obtain ⟨htm, htid⟩ := task?_mem hf
    obtain rfl := hv.db.graph.ids.eq htm hq (congrArg some (htid.trans hid.symm)) rfl
    exact ⟨t, ht, hid, hdone⟩
  project := by
    intro p hp
    rw [h.task] at hp
    have hfound : ∃ x ∈ s.projects, w.projects.find? (·.id == p) = some x := hp.elim (h.project p) (h.recurrenceProject p)
    obtain ⟨x, hx, hf⟩ := hfound
    exact ⟨x, hx, by simpa using List.find?_some hf⟩
  successors := by
    intro hne
    rw [h.successors] at hne
    obtain ⟨t, ht⟩ := List.exists_mem_of_ne_nil _ hne
    obtain ⟨ht, hsource⟩ := List.mem_filter.1 ht
    obtain ⟨q, hq, hid, hdone⟩ := hv.db.lineage.completed t ht row.id (by simpa using hsource)
    obtain rfl := hv.db.graph.ids.eq hq hrow (congrArg some hid) rfl
    rw [h.task]
    exact hdone
  single := h.single

theorem beside_heldBack (row : TaskRow) (held : Option (Mapping × Fingerprint)) (db : Db) :
    (heldBack row held db).tasks = db.tasks ∧ (heldBack row held db).projects = db.projects ∧
      db.nextId ≤ (heldBack row held db).nextId := by
  unfold heldBack
  cases held with
  | none => exact ⟨rfl, rfl, Nat.le_succ _⟩
  | some p => exact ⟨rfl, rfl, (Nat.le_succ _).trans (Nat.le_succ _)⟩

theorem tasksValid_deleteTaskWithSnapshot (octets : Snapshot → Nat) (locked validated : Bool) (task : Uuid)
    (expectedVersion : Int) : Tx.Within (fun w w' => w.TasksValid → w'.TasksValid)
      (deleteTaskWithSnapshot octets locked validated task expectedVersion) := by
  intro w receipt w' h hv
  obtain ⟨row, s, held, mapping, w₁, w₂, htask, -, hsub, rfl, htaken, -, -, rfl, -, rfl⟩ := deleteTaskWithSnapshot_ok h
  obtain ⟨hrow, hid⟩ := task?_mem htask
  obtain ⟨htasks, hprojects, hnext⟩ := beside_heldBack row held w.db
  have hv₁ : (w.settle w.db).TasksValid := hv.settle hv.db le_rfl
  have hheld : (heldBack row held w.db).TasksValid :=
    hv.db.around ⟨htasks ▸ List.forall₂_same.2 fun t _ => .refl t, hprojects, hnext⟩
  have hdeleted : ((heldBack row held w.db).deleteTask row.id).TasksValid := by
    refine Db.tasksValid_deleteTask hheld ?_
    rw [htasks, hid]
    exact hsub
  have hv₂ := (hv₁.settle hv₁.db le_rfl).settle hdeleted hnext
  refine ⟨hv₂.db, hv₂.projects, fun x hx => ?_⟩
  rcases List.mem_append.1 hx with hx | hx
  · exact hv₂.snapshots x hx
  · rw [List.mem_singleton.1 hx]
    have hl := linked_of_taken hv₁ hrow htaken
    show Snapshot.Linked _ (heldBack row held w.db).nextId
    exact ⟨lt_of_lt_of_le hl.used hnext, hl.version, hl.parent, hl.source, hl.project, hl.successors, hl.single⟩

theorem beside_restoreEvent (s : Snapshot) (db : Db) : db.Beside (restoreEvent s db) := by
  unfold restoreEvent
  split
  · exact ⟨rfl, rfl, rfl, rfl, rfl, le_rfl⟩
  · exact .refl db

theorem relinkSuccessors_eq (s : Snapshot) (db : Db) : ∃ tasks, relinkSuccessors s db = { db with tasks := tasks } := by
  unfold relinkSuccessors
  generalize s.successors = l
  induction l generalizing db with
  | nil => exact ⟨db.tasks, rfl⟩
  | cons t l ih =>
    obtain ⟨tasks, h⟩ := ih (db.updateTask t.id fun t =>
      { t with recurrenceSourceId := some s.task.id, version := t.version + 1, updatedAt := db.now })
    exact ⟨tasks, h⟩

theorem beside_restoreMapping (s : Snapshot) (db : Db) : db.Beside (restoreMapping s db) := by
  unfold restoreMapping
  split
  · exact ⟨rfl, rfl, rfl, rfl, rfl, le_rfl⟩
  · exact .refl db

/-- The task is at its place again, and the source of its successor. -/
theorem tasksValid_restoreDb {expiry : DateTime} {s : Snapshot} (hv : w.TasksValid) (hs : s.Linked w.db.nextId)
    (h : AsLeft expiry s w) (hfree : Vacant s w) : (restoreDb s w.db).TasksValid := by
  have hthere : ∀ q ∈ s.taskDependencies, q ∈ w.db.tasks := fun q hq => (task?_mem (h.tasks q hq)).1
  have hinserted : (w.db.insertTask (restoredTask w.db.now s.task)).TasksValid := by
    have hversion : 1 < s.task.version + 1 := Int.lt_add_one_of_le hs.version
    refine hv.db.insert rfl rfl le_rfl hs.used hfree.task ?_ hversion.le ?_ ?_ ?_
    · intro p hp
      obtain ⟨hrec, q, hq, hid, hproj, hqrec⟩ := hs.parent p hp
      exact ⟨hrec, q, hthere q hq, hid, hproj, hqrec⟩
    · intro p hp
      obtain ⟨q, hq, hid, hdone⟩ := hs.source p hp
      exact ⟨⟨q, hthere q hq, hid, hdone⟩, hfree.source p hp⟩
    · exact fun _ hone => absurd hone hversion.ne'
    · intro p hp
      obtain ⟨x, hx, rfl⟩ := hs.project p hp
      exact hv.projects x (List.mem_of_find?_eq_some (h.projects x hx))
  have hplaced := hinserted.beside (beside_restoreEvent s _)
  refine Db.TasksValid.beside ?_ (beside_restoreMapping s _)
  unfold relinkSuccessors
  cases hsucc : s.successors with
  | nil => exact hplaced
  | cons t rest =>
    obtain rfl : rest = [] := by
      have hlen := hs.single
      rw [hsucc, List.length_cons] at hlen
      exact List.eq_nil_of_length_eq_zero (by omega)
    have htasks : (restoreEvent s (w.db.insertTask (restoredTask w.db.now s.task))).tasks =
        w.db.tasks ++ [restoredTask w.db.now s.task] :=
      (beside_restoreEvent s _).tasks
    refine hplaced.link rfl rfl le_rfl ?_ ?_
    · refine ⟨restoredTask w.db.now s.task, ?_, rfl, ?_⟩
      · rw [htasks]
        simp
      · exact hs.successors (by rw [hsucc]; simp)
    · -- a task that is not there has no successor
      intro r hr hrs
      rw [htasks] at hr
      rcases List.mem_append.1 hr with hr | hr
      · obtain ⟨q, hq, hid, -⟩ := hv.db.lineage.completed r hr _ hrs
        exact hfree.task q hq hid
      · rw [List.mem_singleton.1 hr] at hrs
        obtain ⟨q, hq, hid, -⟩ := hs.source _ hrs
        exact hfree.task q (hthere q hq) hid

theorem tasksValid_undoTaskDelete (locked : Bool) (validation : Except AppError Unit) (receipt : Uuid) :
    Tx.Within (fun w w' => w.TasksValid → w'.TasksValid) (undoTaskDelete locked validation receipt) := by
  intro w a w' h hv
  obtain ⟨u, s, -, hs, hleft, hfree, rfl⟩ := undoTaskDelete_ok h
  have hr := tasksValid_restoreDb hv (hv.snapshots _ hs) hleft hfree
  obtain ⟨tasks, hrelinked⟩ := relinkSuccessors_eq s
    (restoreEvent s (w.db.insertTask (restoredTask w.db.now s.task)))
  have hprojects : (restoreDb s w.db).projects = w.db.projects := by
    unfold restoreDb
    rw [(beside_restoreMapping s _).projects, hrelinked]
    exact (beside_restoreEvent s _).projects
  have hnext : w.db.nextId ≤ (restoreDb s w.db).nextId := by
    refine le_trans ?_ (beside_restoreMapping s _).nextId
    rw [hrelinked]
    exact (beside_restoreEvent s (w.db.insertTask (restoredTask w.db.now s.task))).nextId
  refine ⟨hr.around ⟨List.forall₂_same.2 fun t _ => .refl t, rfl, le_rfl⟩, fun p hp => ?_, fun x hx => ?_⟩
  · show p.id ∈ (restoreDb s w.db).projects
    rw [hprojects]
    exact hv.projects p hp
  · exact (hv.snapshots x (mem_delete.1 hx).1).mono hnext

end Undo

/-! ## Moves -/

section Moves

variable {w w' : Workspace}

theorem around_moveEvent {db : Db} (e : CalendarEvent) (startsAt endsAt : DateTime)
    (task : Option (Uuid × Option DateTime × Option DateTime)) :
    db.Around TaskRow.Kept (moveEvent e startsAt endsAt task db) := by
  refine Db.Around.trans (R := TaskRow.Kept) TaskRow.Kept.trans ?_
    ((beside_markEventForSync _ false).around (R := TaskRow.Kept) TaskRow.Kept.refl)
  unfold writeSchedule
  cases task with
  | none => exact ⟨List.forall₂_same.2 fun t _ => .refl t, rfl, le_rfl⟩
  | some x => exact ⟨rows_update .refl fun t _ _ => kept_reschedule x.2.1 x.2.2 db.now t, rfl, le_rfl⟩

theorem tasksValid_moveCalendarItem (locked : Bool) (item : Uuid) (isTask : Bool) (r : MoveCalendarItemRequest) :
    Tx.Within (fun w w' => w.TasksValid → w'.TasksValid) (moveCalendarItem locked item isTask r) := by
  intro w receipt w' h hv
  obtain ⟨e, task, w₁, -, -, -, -, rfl, rfl⟩ := moveCalendarItem_ok h
  have hclean : (cleanupMoves w).TasksValid := ⟨hv.db, hv.projects, hv.snapshots⟩
  have hmoved : w.db.fresh.Around TaskRow.Kept
      (moveEvent e r.startsAt r.endsAt (movedTask task r.startsAt r.endsAt) w.db.fresh) :=
    around_moveEvent e r.startsAt r.endsAt _
  have hfresh : w.db.fresh.TasksValid := hv.db.beside ⟨rfl, rfl, rfl, rfl, rfl, Nat.le_succ _⟩
  have hv₁ := (hclean.settle hv.db le_rfl).settle (hfresh.around hmoved) ((Nat.le_succ _).trans hmoved.nextId)
  exact ⟨hv₁.db, hv₁.projects, hv₁.snapshots⟩

theorem tasksValid_undoCalendarMove (locked : Bool) (receipt : Uuid) :
    Tx.Within (fun w w' => w.TasksValid → w'.TasksValid) (undoCalendarMove locked receipt) := by
  intro w a w' h hv
  obtain ⟨inverse, e, task, w₁, -, -, -, -, -, -, -, -, rfl, rfl⟩ := undoCalendarMove_ok h
  have hmoved : w.db.Around TaskRow.Kept (moveEvent e inverse.startsAt inverse.endsAt
      (inverse.taskId.map fun id => (id, inverse.taskStartsAt, inverse.taskEndsAt)) w.db) :=
    around_moveEvent e inverse.startsAt inverse.endsAt _
  have hv₁ := (hv.settle hv.db le_rfl).settle (hv.db.around hmoved) hmoved.nextId
  exact ⟨hv₁.db, hv₁.projects, hv₁.snapshots⟩

end Moves

/-! ## Projects -/

section Projects

variable {w w' : Workspace}

theorem tasksValid_insertProject (r : CreateProjectRequest) :
    Tx.Within (fun w w' => w.TasksValid → w'.TasksValid) (insertProject r) := by
  intro w p w' h hv
  cases h
  have hmem : ∀ {p}, p ∈ w.db.projects → p ∈ w.db.projects ++ [w.db.nextId] := List.mem_append_left _
  refine ⟨⟨hv.db.graph, hv.db.lineage, fun t ht => (hv.db.used t ht).trans_le (Nat.le_succ _),
    fun t ht p hp => hmem (hv.db.project t ht p hp), fun t ht p hp => hmem (hv.db.recurrenceProject t ht p hp)⟩, ?_,
    fun x hx => (hv.snapshots x hx).mono (Nat.le_succ _)⟩
  intro p hp
  rcases List.mem_append.1 hp with hp | hp
  · exact hmem (hv.projects p hp)
  · rw [List.mem_singleton.1 hp]
    exact List.mem_append_right _ (List.mem_singleton_self _)

theorem tasksValid_createProject (r : CreateProjectRequest) :
    Tx.Within (fun w w' => w.TasksValid → w'.TasksValid) (createProject r) := by
  intro w p w' h hv
  unfold createProject at h
  obtain ⟨_, -, h⟩ := Tx.ofExcept_bind_ok h
  exact tasksValid_insertProject r _ _ _ h hv

theorem tasksValid_deleteProject (project : Uuid) (expectedVersion : Int) :
    Tx.Within (fun w w' => w.TasksValid → w'.TasksValid) (deleteProject project expectedVersion) := by
  intro w a w' h hv
  unfold deleteProject at h
  split at h
  · cases h
  · obtain ⟨_, db₁, hremoved, h⟩ := Workspace.onDb_bind_ok h
    cases hremoved
    have hbeside : w.db.Beside (removeProjectEvents project w.db) := Db.beside_removeProjectEvents project
    have hv₁ := hv.settle (hv.db.beside hbeside) hbeside.nextId
    rw [Tx.read_bind_run] at h
    cases hp : (w.settle (removeProjectEvents project w.db)).projects.find? (·.id == project) with
    | none =>
      simp only [hp] at h
      cases h
    | some p =>
      simp only [hp] at h
      split at h
      · cases h
      · obtain ⟨db₂, hdeleted, rfl⟩ := Workspace.onDb_ok h
        cases hdeleted
        exact hv₁.settle (Db.tasksValid_deleteProject hv₁.db project) le_rfl

theorem tasksValid_importTodoistProject (toLowercase : String → String) {r : TodoistImportRequest} (hflat : r.Flat) :
    Tx.Within (fun w w' => w.TasksValid → w'.TasksValid) (importTodoistProject toLowercase r) := by
  intro w a w' h hv
  unfold importTodoistProject at h
  obtain ⟨_, -, h⟩ := Tx.ofExcept_bind_ok h
  split at h
  · cases h
  · obtain ⟨prepared, hprepared, h⟩ := Tx.ofExcept_bind_ok h
    obtain ⟨project, w₁, hproject, h⟩ := Tx.bind_ok h
    have hv₁ := tasksValid_insertProject _ _ _ _ hproject hv
    rw [Tx.read_bind_run] at h
    obtain ⟨taskIds, db₂, hrun, h⟩ := Workspace.onDb_bind_ok h
    cases h
    have hthere : project.id ∈ w₁.db.projects := by
      cases hproject
      exact List.mem_append_right _ (List.mem_singleton_self _)
    have himportable : ∀ k x, prepared[k]? = some x → Db.Importable toLowercase r (([] : List Uuid).length + k) x :=
      Db.prepareImport_ok rfl hprepared
    refine hv₁.settle (Db.tasksValid_importTasks hflat hv₁.db hthere (fun i id hi => ?_) himportable hrun)
      (Db.draws_importTasks _ _ _ _ _ _ _ hrun)
    simp at hi

end Projects

/-! ## Runs -/

/-- An import does not list a task under a recurring one. -/
def Action.Flat : Action → Prop
  | .importTodoistProject r => r.Flat
  | _ => True

namespace Workspace

variable {w w' : Workspace}

theorem tasksValid_void {α : Type} {t : WorkspaceTx α} (h : Tx.Within (fun w w' => w.TasksValid → w'.TasksValid) t) :
    Tx.Within (fun w w' => w.TasksValid → w'.TasksValid) (Action.void t) := by
  intro w a w' hw hv
  obtain ⟨b, u, ht, hrest⟩ := Tx.bind_ok hw
  cases hrest
  exact h _ _ _ ht hv

theorem tasksValid_stays {α : Type} {t : WorkspaceTx α} (h : Tx.Within Stays t) :
    Tx.Within (fun w w' => w.TasksValid → w'.TasksValid) t :=
  fun w a w' hw hv => (h w a w' hw).tasksValid hv

theorem tasksValid_quiet {α : Type} {t : WorkspaceTx α} (h : Tx.Within Quiet t) :
    Tx.Within (fun w w' => w.TasksValid → w'.TasksValid) t :=
  fun w a w' hw hv => (h w a w' hw).stays.tasksValid hv

end Workspace

theorem tasksValid_sync (s : Stmt) : Tx.Within (fun w w' => w.TasksValid → w'.TasksValid)
    (Workspace.onDb (Tx.write fun db => (s.exec db).2)) := by
  intro w a w' h hv
  obtain ⟨db, ht, rfl⟩ := Workspace.onDb_ok h
  cases ht
  have haround := Db.around_exec s w.db
  exact hv.settle (hv.db.around haround) haround.nextId

theorem Workspace.stays_tick (now : DateTime) (w : Workspace) : w.Stays { w with db := { w.db with now := now } } :=
  ⟨Db.stays_of_same rfl rfl rfl le_rfl fun _ he => .inl he, fun p hp => .inl ⟨p, hp, rfl⟩, rfl, fun _ hm => hm⟩

open Workspace in
theorem tasksValid_tx {env : Env} {a : Action} (hflat : a.Flat) :
    Tx.Within (fun w w' => w.TasksValid → w'.TasksValid) (a.tx env) := by
  cases a with
  | tick now => exact tasksValid_stays (.write fun w => stays_tick now w)
  | createProject r => exact tasksValid_void (tasksValid_createProject r)
  | updateProject project r => exact tasksValid_quiet (quiet_void (quiet_updateProject project r))
  | deleteProject project version => exact tasksValid_deleteProject project version
  | importTodoistProject r => exact tasksValid_void (tasksValid_importTodoistProject _ hflat)
  | importGoogleTask title deadline completed =>
    exact tasksValid_void (tasksValid_onDb (Db.draws_importGoogleTask title deadline completed) fun _ _ _ hv h =>
      Db.tasksValid_importGoogleTask hv h)
  | createTask r =>
    exact tasksValid_void (tasksValid_onDb (Db.draws_createTask _ r) fun _ _ _ hv h => Db.tasksValid_createTask hv h)
  | updateTask task r scope =>
    exact tasksValid_void (tasksValid_onDb (Db.draws_updateTaskScoped _ task r scope) fun _ _ _ hv h =>
      Db.tasksValid_updateTaskScoped hv h)
  | reorderTasks taskIds => exact tasksValid_stays (stays_onDb fun _ _ _ h => (Db.quiet_reorderTasks taskIds _ _ _ h).stays)
  | deleteTask task version => exact tasksValid_deleteTask task version
  | deleteTaskWithUndo locked validated task version =>
    exact tasksValid_void (tasksValid_deleteTaskWithSnapshot env.octets locked validated task version)
  | undoTaskDelete locked validation receipt => exact tasksValid_undoTaskDelete locked validation receipt
  | cleanupTaskDeleteUndos =>
    exact tasksValid_stays (stays_onDb (t := Tx.write Store.cleanupTaskDeleteUndos) (.write fun _ =>
      Db.stays_of_same rfl rfl rfl le_rfl fun _ he => .inl he))
  | createEvent r => exact tasksValid_stays (stays_void (stays_onDb (Db.stays_createCalendarEvent _ r)))
  | updateEvent event r => exact tasksValid_stays (stays_void (stays_onDb (Db.stays_updateCalendarEvent _ event r)))
  | deleteEvent event version => exact tasksValid_stays (stays_onDb (Db.stays_deleteCalendarEvent event version))
  | moveCalendarItem locked item isTask r => exact tasksValid_void (tasksValid_moveCalendarItem locked item isTask r)
  | undoCalendarMove locked receipt => exact tasksValid_undoCalendarMove locked receipt
  | cleanupMoves => exact tasksValid_stays (.write fun w => ⟨.refl _, fun p hp => .inl ⟨p, hp, rfl⟩, rfl, fun _ hm => (mem_delete.1 hm).1⟩)
  | createCalendar name color => exact tasksValid_stays (stays_void (stays_createCalendar _ name color))
  | updateCalendar calendar r => exact tasksValid_stays (stays_updateCalendar _ calendar r)
  | deleteCalendar calendar version => exact tasksValid_stays (stays_deleteCalendar calendar version)
  | connectGoogle account => exact tasksValid_quiet (.write fun _ => quiet_beside rfl rfl rfl rfl)
  | revokeGoogleIntegration => exact tasksValid_stays stays_revokeGoogleIntegration
  | discoverCalendar entry => exact tasksValid_stays (stays_upsertGoogleCalendar entry)
  | migrateScheduledTasks => exact tasksValid_stays (stays_onDb Db.stays_migrateScheduledTasks)
  | createNote r => exact tasksValid_quiet (quiet_void (quiet_createNote r))
  | updateNote note r => exact tasksValid_quiet (quiet_void (quiet_updateNote note r))
  | deleteNote note version => exact tasksValid_quiet (quiet_deleteNote note version)
  | createFile others r => exact tasksValid_quiet (quiet_void (quiet_createFileMetadata others r))
  | deleteFile file => exact tasksValid_quiet (quiet_void (quiet_deleteFileMetadata file))
  | updateDailyFocus date taskIds => exact tasksValid_quiet (quiet_updateDailyFocus date taskIds)
  | startDailyReview date manual => exact tasksValid_quiet (quiet_void (quiet_startDailyReview date manual))
  | completeDailyReview date version decisions =>
    exact tasksValid_quiet (quiet_void (quiet_completeDailyReview date version decisions))
  | resolveSyncConflict locked conflict resolution =>
    exact tasksValid_stays (stays_void (stays_onDb (Db.stays_resolveSyncConflict locked conflict resolution)))
  | setSyncConflictPolicy policy => exact tasksValid_stays (stays_onDb (Db.stays_setSyncConflictPolicy policy))
  | requestSync calendar key =>
    exact tasksValid_stays (stays_onDb (t := Store.enqueueSync calendar key) (Db.stays_enqueueSync calendar key))
  | sync s => exact tasksValid_sync s

theorem tasksValid_initial (now : DateTime) (nextId : Uuid) (policy : Option SyncConflictPolicy) (automatic : Bool) :
    (Workspace.initial now nextId policy automatic).TasksValid := by
  refine ⟨⟨⟨.nil _, fun a h => ?_, ?_⟩, ⟨.nil _, ?_, ?_, ?_⟩, ?_, ?_, ?_⟩, ?_, ?_⟩
  · obtain ⟨b, hab, -⟩ := TransGen.head'_iff.1 h
    cases hab
  all_goals
    intro x hx
    cases hx

/-- Whatever happens, the tasks stay well formed, if no import lists a task under a recurring one. -/
theorem tasksValid_run {env : Env} {w w' : Workspace} (h : Run env (fun a _ => a.Flat) w w') (hw : w.TasksValid) :
    w'.TasksValid :=
  h.keeps (fun _ _ hflat hv => Action.perform_keeps (tasksValid_tx hflat) hv) hw

end Prosepect

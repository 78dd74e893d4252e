/-
The version of a task tells what it says: whatever operations are carried out, in any order, a task
that has a version it had before has the columns it had then, but for its position. A deletion with a
receipt and its undo are no exception.
-/
import Prosepect.Store.TaskRuns

namespace Prosepect

open Resumption Table Time Store

/-- What a task may become without being another one. -/
structure TaskRow.Grows (t t' : TaskRow) : Prop where
  id : t'.id = t.id
  version : t.version ≤ t'.version
  same : t'.version = t.version → t'.toTask = { t.toTask with position := t'.position }

theorem TaskRow.Grows.refl (t : TaskRow) : t.Grows t := ⟨rfl, le_rfl, fun _ => rfl⟩

theorem TaskRow.Grows.trans {t t' t'' : TaskRow} (h : t.Grows t') (h' : t'.Grows t'') : t.Grows t'' where
  id := h'.id.trans h.id
  version := h.version.trans h'.version
  same := by
    intro hv
    have hle := h.version
    have hle' := h'.version
    rw [h'.same (by omega), h.same (by omega)]

theorem TaskRow.Kept.grows {t t' : TaskRow} (h : t.Kept t') : t.Grows t' where
  id := h.id
  version := h.version
  same := fun hv => by rw [h.same hv]

/-- A new version may say anything. -/
theorem TaskRow.grows_of_lt {t t' : TaskRow} (hid : t'.id = t.id) (hv : t.version < t'.version) : t.Grows t' :=
  ⟨hid, hv.le, fun heq => absurd heq hv.ne'⟩

namespace Db

/-- Ids are drawn, and no two tasks have one. -/
structure TaskKeys (db : Db) : Prop where
  unique : Unique (fun t : TaskRow => some t.id) db.tasks
  used : ∀ t ∈ db.tasks, t.id < db.nextId

/-- The tasks are those there were, with new versions, and new ones. -/
structure Forth (db db' : Db) : Prop where
  nextId : db.nextId ≤ db'.nextId
  rows : ∀ t' ∈ db'.tasks, db.nextId ≤ t'.id ∨ ∃ t ∈ db.tasks, t.Grows t'
  keys : db.TaskKeys → db'.TaskKeys

variable {db db' : Db}

theorem TaskKeys.eq (h : db.TaskKeys) {t t' : TaskRow} (ht : t ∈ db.tasks) (ht' : t' ∈ db.tasks) (hid : t'.id = t.id) : t' = t :=
  h.unique.eq ht' ht (congrArg some hid) rfl

theorem Forth.refl (db : Db) : db.Forth db := ⟨le_rfl, fun t ht => .inr ⟨t, ht, .refl t⟩, fun h => h⟩

theorem Forth.trans {a b c : Db} (h : a.Forth b) (h' : b.Forth c) : a.Forth c where
  nextId := h.nextId.trans h'.nextId
  rows := by
    intro t'' ht''
    rcases h'.rows t'' ht'' with hnew | ⟨t', ht', hgrows'⟩
    · exact .inl (h.nextId.trans hnew)
    · rcases h.rows t' ht' with hnew | ⟨t, ht, hgrows⟩
      · exact .inl (hgrows'.id ▸ hnew)
      · exact .inr ⟨t, ht, hgrows.trans hgrows'⟩
  keys := fun hk => h'.keys (h.keys hk)

theorem forth_of_rows (htasks : List.Forall₂ TaskRow.Grows db.tasks db'.tasks) (hn : db.nextId ≤ db'.nextId) : db.Forth db' where
  nextId := hn
  rows := by
    intro t' ht'
    obtain ⟨t, ht, hr⟩ := rows_of_mem htasks ht'
    exact .inr ⟨t, ht, hr⟩
  keys := by
    intro hk
    refine ⟨rows_unique htasks (fun t t' hr => congrArg some hr.id) hk.unique, fun t' ht' => ?_⟩
    obtain ⟨t, ht, hr⟩ := rows_of_mem htasks ht'
    rw [hr.id]
    exact lt_of_lt_of_le (hk.used t ht) hn

theorem Around.forth (h : db.Around TaskRow.Kept db') : db.Forth db' :=
  forth_of_rows (h.tasks.imp fun _ _ hr => hr.grows) h.nextId

theorem Beside.forth (h : db.Beside db') : db.Forth db' := (h.around .refl).forth

theorem forth_update {p : TaskRow → Bool} {f : TaskRow → TaskRow} (hf : ∀ t ∈ db.tasks, p t = true → t.Grows (f t))
    (htasks : db'.tasks = update p f db.tasks) (hn : db.nextId ≤ db'.nextId) : db.Forth db' :=
  forth_of_rows (htasks ▸ rows_update .refl hf) hn

theorem forth_delete {p : TaskRow → Bool} (htasks : db'.tasks = delete p db.tasks) (hn : db.nextId ≤ db'.nextId) : db.Forth db' where
  nextId := hn
  rows := by
    intro t ht
    rw [htasks] at ht
    exact .inr ⟨t, (mem_delete.1 ht).1, .refl t⟩
  keys := by
    intro hk
    refine ⟨htasks ▸ hk.unique.delete p, fun t ht => ?_⟩
    rw [htasks] at ht
    exact lt_of_lt_of_le (hk.used t (mem_delete.1 ht).1) hn

theorem forth_insert {row : TaskRow} (htasks : db'.tasks = db.tasks ++ [row]) (hid : row.id = db.nextId) (hn : db.nextId < db'.nextId) :
    db.Forth db' where
  nextId := hn.le
  rows := by
    intro t ht
    rw [htasks] at ht
    rcases List.mem_append.1 ht with ht | ht
    · exact .inr ⟨t, ht, .refl t⟩
    · rw [List.mem_singleton.1 ht]
      exact .inl hid.ge
  keys := by
    intro hk
    constructor
    · rw [htasks]
      refine hk.unique.insert fun k heq t ht hkt => ?_
      have hsame : t.id = row.id := Option.some.inj (hkt.trans heq.symm)
      exact absurd (hk.used t ht) (by rw [hsame, hid]; exact Nat.lt_irrefl _)
    · intro t ht
      rw [htasks] at ht
      rcases List.mem_append.1 ht with ht | ht
      · exact (hk.used t ht).trans hn
      · rw [List.mem_singleton.1 ht, hid]
        exact hn

/-- The successor of a deleted task is no new version. -/
theorem forth_deleteTask (id : Uuid) (db : Db) : db.Forth (db.deleteTask id) := by
  have hdeleted : db.Forth { db with tasks := delete (·.id == id) db.tasks } := forth_delete rfl le_rfl
  refine hdeleted.trans (forth_update (p := (·.recurrenceSourceId == some id))
    (f := fun t => { t with recurrenceSourceId := none }) (fun t _ _ => ?_) rfl le_rfl)
  exact ⟨rfl, le_rfl, fun _ => rfl⟩

theorem forth_deleteTasks (p : TaskRow → Bool) (db : Db) : db.Forth (db.deleteTasks p) := by
  have hdeleted : db.Forth { db with tasks := delete p db.tasks } := forth_delete rfl le_rfl
  refine hdeleted.trans (forth_update (f := fun t => { t with recurrenceSourceId := none })
    (p := fun t => t.recurrenceSourceId.any fun id => has (fun t : TaskRow => p t && t.id == id) db.tasks) (fun t _ _ => ?_) rfl le_rfl)
  exact ⟨rfl, le_rfl, fun _ => rfl⟩

theorem forth_unassignRecurrence (project : Uuid) (db : Db) : db.Forth (db.unassignRecurrence project) :=
  forth_update (p := (·.recurrenceProjectId == some project))
    (f := fun t => { t with recurrenceProjectId := none, updatedAt := db.now, version := t.version + 1 })
    (fun t _ _ => TaskRow.grows_of_lt rfl (Int.lt_succ t.version)) rfl le_rfl

/-! ## The operations on tasks -/

theorem forth_createTask (toLowercase : String → String) (r : CreateTaskRequest) : Tx.Within Forth (createTask toLowercase r) := by
  intro db a db' h
  obtain ⟨labels, row, mid, -, -, -, -, hrow, ha, rfl, hsync⟩ := createTask_ok h
  have hinserted : db.Forth (ensureLabels labels (db.fresh.insertTask row)) :=
    forth_insert rfl (by rw [hrow, ha]) (Nat.lt_succ_self _)
  exact hinserted.trans (beside_syncTaskCalendarEvent _ _ _ _ hsync).forth

theorem forth_removeNextOccurrenceForReopen (task : Uuid) : Tx.Within Forth (removeNextOccurrenceForReopen task) := by
  intro db a db' h
  rcases removeNextOccurrenceForReopen_ok h with ⟨-, rfl⟩ | ⟨next, -, -, -, rfl⟩
  · exact .refl _
  · exact forth_deleteTask next.id db

theorem forth_createNextRecurringTask (task : Uuid) : Tx.Within Forth (createNextRecurringTask task) := by
  intro db a db' h
  obtain ⟨row, dueAt, nextDueAt, next, mid, -, -, -, -, -, hnext, rfl, hsync⟩ := createNextRecurringTask_ok h
  have hinserted : db.Forth ((ensureLabels (successorSource row).labels db).fresh.insertTask next) :=
    forth_insert rfl (by rw [hnext]; rfl) (Nat.lt_succ_self _)
  exact hinserted.trans (beside_syncTaskCalendarEvent _ _ _ _ hsync).forth

/-- An update makes a new version of its task. -/
theorem forth_updateTaskScoped (toLowercase : String → String) (task : Uuid) (r : UpdateTaskRequest)
    (scope : Option RecurrenceEditScope) : Tx.Within Forth (updateTaskScoped toLowercase task r scope) := by
  intro db a db' h
  obtain ⟨row, updated, -, hu⟩ := updateTaskScoped_ok h
  obtain ⟨hrow, hid⟩ := task?_mem hu.found
  obtain ⟨labels, prepared, -, -, hupdated⟩ := hu.written
  obtain ⟨db₁, db₂, hreopen, hsync, hnext⟩ := hu.steps
  have hopened : db.Forth db₁ := by
    rcases ite_pure_ok hreopen with ⟨-, hr⟩ | ⟨-, rfl⟩
    · exact forth_removeNextOccurrenceForReopen task _ _ _ hr
    · exact .refl _
  have hwritten : db.Forth (ensureLabels updated.labels (db₁.updateTask task fun _ => updated)) := by
    refine ⟨hopened.nextId, fun t ht => ?_, fun hk => ?_⟩
    · rcases mem_update.1 ht with ⟨ht, -⟩ | ⟨_, -, -, rfl⟩
      · exact hopened.rows t ht
      · refine .inr ⟨row, hrow, TaskRow.grows_of_lt ?_ ?_⟩
        · rw [hupdated]
          rfl
        · rw [hupdated]
          exact Int.lt_succ row.version
    · have hk₁ := hopened.keys hk
      have hidu : updated.id = task := by
        rw [hupdated]
        exact hid
      constructor
      · have hsame : update (·.id == task) (fun _ => updated) db₁.tasks =
            update (·.id == task) (fun t => { updated with id := t.id }) db₁.tasks := by
          refine update_congr fun t _ hp => ?_
          have ht : t.id = task := by simpa using hp
          rw [ht, ← hidu]
        show Unique _ (update (·.id == task) (fun _ => updated) db₁.tasks)
        rw [hsame]
        exact hk₁.unique.update fun t => .inl rfl
      · intro t ht
        rcases mem_update.1 ht with ⟨ht, -⟩ | ⟨_, -, -, rfl⟩
        · exact hk₁.used t ht
        · rw [hidu, ← hid]
          exact lt_of_lt_of_le (hk.used row hrow) hopened.nextId
  have hsynced := hwritten.trans (beside_syncTaskCalendarEvent _ _ _ _ hsync).forth
  rcases ite_pure_ok hnext with ⟨-, hn⟩ | ⟨-, rfl⟩
  · exact hsynced.trans (forth_createNextRecurringTask task _ _ _ hn)
  · exact hsynced

theorem forth_deleteTaskTx (task : Uuid) (expectedVersion : Int) : Tx.Within Forth (Store.deleteTask task expectedVersion) := by
  intro db a db' h
  obtain ⟨row, -, -, -, rfl⟩ := deleteTask_ok h
  exact (beside_removeTaskCalendarEvent task).forth.trans (forth_deleteTask task _)

theorem forth_importGoogleTask (title : String) (deadline : Option DateTime) (completed : Bool) :
    Tx.Within Forth (importGoogleTask title deadline completed) := by
  intro db a db' h
  unfold importGoogleTask at h
  split at h
  · cases h
    exact .refl _
  · rw [Tx.read_bind_run, Tx.write_bind_run] at h
    cases h
    exact forth_insert rfl rfl (Nat.lt_succ_self _)

theorem forth_importTasks (project : Uuid) : ∀ (rest : List (TodoistImportTask × List String)) (position : Int)
    (taskIds : List Uuid), Tx.Within Forth (importTasks project position taskIds rest)
  | [], _, _ => .pure Forth.refl _
  | (task, labels) :: rest, position, taskIds => by
    intro db a db' h
    obtain ⟨row, db₁, hrow, hsync, h⟩ := importTasks_cons_ok h
    have hinserted : db.Forth (ensureLabels labels (db.fresh.insertTask row)) :=
      forth_insert rfl (by rw [hrow]; rfl) (Nat.lt_succ_self _)
    exact (hinserted.trans (beside_syncTaskCalendarEvent _ _ _ _ hsync).forth).trans (forth_importTasks project rest _ _ _ _ _ h)

theorem forth_deleteProject (project : Uuid) (db : Db) : db.Forth (db.deleteProject project) := by
  have hunassigned := (forth_deleteTasks (·.projectId == some project) db).trans (forth_unassignRecurrence project _)
  exact hunassigned.trans (forth_of_rows (List.forall₂_same.2 fun t _ => .refl t) le_rfl)

theorem forth_moveEvent (e : CalendarEvent) (startsAt endsAt : DateTime) (task : Option (Uuid × Option DateTime × Option DateTime))
    (db : Db) : db.Forth (moveEvent e startsAt endsAt task db) :=
  (around_moveEvent e startsAt endsAt task).forth

theorem forth_heldBack (row : TaskRow) (held : Option (Mapping × Fingerprint)) (db : Db) : db.Forth (heldBack row held db) := by
  obtain ⟨htasks, -, hnext⟩ := beside_heldBack row held db
  exact forth_of_rows (htasks ▸ List.forall₂_same.2 fun t _ => .refl t) hnext

end Db

/-! ## Deleting and undoing -/

namespace Workspace

/-- The deleted tasks that an undo may bring back: none is there, and each is kept once. -/
structure Aside (w : Workspace) : Prop where
  keys : w.db.TaskKeys
  used : ∀ x ∈ w.snapshots, x.2.task.id < w.db.nextId
  gone : ∀ x ∈ w.snapshots, ∀ t ∈ w.db.tasks, t.id ≠ x.2.task.id
  once : ∀ x ∈ w.snapshots, ∀ y ∈ w.snapshots, x.2.task.id = y.2.task.id → x = y

/-- The task `t` was there: since then it has only grown. -/
structure Knows (w : Workspace) (t : TaskRow) : Prop where
  used : t.id < w.db.nextId
  row : ∀ t' ∈ w.db.tasks, t'.id = t.id → t.Grows t'
  snapshot : ∀ x ∈ w.snapshots, x.2.task.id = t.id → t.version ≤ x.2.task.version

/-- What is known of tasks stays known. -/
structure Recalls (w w' : Workspace) : Prop where
  aside : w'.Aside
  nextId : w.db.nextId ≤ w'.db.nextId
  knows : ∀ t, w.Knows t → w'.Knows t

variable {w w' : Workspace} {t : TaskRow}

theorem Aside.knows (h : w.Aside) (ht : t ∈ w.db.tasks) : w.Knows t where
  used := h.keys.used t ht
  row := by
    intro t' ht' hid
    rw [h.keys.eq ht ht' hid]
    exact .refl t
  snapshot := fun x hx hid => absurd hid.symm (h.gone x hx t ht)

theorem recalls_of_forth (hdb : w.db.Forth w'.db) (hs : w'.snapshots = w.snapshots) (h : w.Aside) : w.Recalls w' where
  aside := by
    refine ⟨hdb.keys h.keys, fun x hx => ?_, fun x hx t' ht' => ?_, fun x hx y hy => ?_⟩
    · rw [hs] at hx
      exact lt_of_lt_of_le (h.used x hx) hdb.nextId
    · rw [hs] at hx
      rcases hdb.rows t' ht' with hnew | ⟨t, ht, hgrows⟩
      · exact (lt_of_lt_of_le (h.used x hx) hnew).ne'
      · rw [hgrows.id]
        exact h.gone x hx t ht
    · rw [hs] at hx hy
      exact h.once x hx y hy
  nextId := hdb.nextId
  knows := by
    intro k hk
    refine ⟨lt_of_lt_of_le hk.used hdb.nextId, fun t' ht' hid => ?_, fun x hx => ?_⟩
    · rcases hdb.rows t' ht' with hnew | ⟨t, ht, hgrows⟩
      · exact absurd (hid ▸ hk.used) (not_lt_of_ge hnew)
      · exact (hk.row t ht (hgrows.id.symm.trans hid)).trans hgrows
    · rw [hs] at hx
      exact hk.snapshot x hx

/-- The task that goes is kept in the snapshot. -/
theorem recalls_deleteTaskWithSnapshot (octets : Snapshot → Nat) (locked validated : Bool) (task : Uuid) (expectedVersion : Int) :
    Tx.Within (fun w w' => w.Aside → w.Recalls w') (deleteTaskWithSnapshot octets locked validated task expectedVersion) := by
  intro w receipt w' h ha
  obtain ⟨row, s, held, mapping, w₁, w₂, htask, -, -, rfl, htaken, -, -, rfl, -, rfl⟩ := deleteTaskWithSnapshot_ok h
  obtain ⟨hrow, -⟩ := task?_mem htask
  have hdb : w.db.Forth ((heldBack row held w.db).deleteTask row.id) :=
    (Db.forth_heldBack row held w.db).trans (Db.forth_deleteTask row.id _)
  have hw₂ : w.Recalls (((w.settle w.db).settle w.db).settle ((heldBack row held w.db).deleteTask row.id)) :=
    recalls_of_forth hdb rfl ha
  have hgone : ∀ t' ∈ ((heldBack row held w.db).deleteTask row.id).tasks, t'.id ≠ row.id := by
    intro t' ht'
    rcases mem_update.1 ht' with ⟨ht', -⟩ | ⟨t, ht, -, rfl⟩
    · simpa using (mem_delete.1 ht').2
    · simpa using (mem_delete.1 ht).2
  constructor
  · refine ⟨hw₂.aside.keys, fun x hx => ?_, fun x hx => ?_, fun x hx y hy hid => ?_⟩
    · rcases List.mem_append.1 hx with hx | hx
      · exact hw₂.aside.used x hx
      · rw [List.mem_singleton.1 hx]
        show s.task.id < _
        rw [htaken.task]
        exact lt_of_lt_of_le (ha.keys.used row hrow) hdb.nextId
    · rcases List.mem_append.1 hx with hx | hx
      · exact hw₂.aside.gone x hx
      · rw [List.mem_singleton.1 hx]
        intro t' ht'
        show t'.id ≠ s.task.id
        rw [htaken.task]
        exact hgone t' ht'
    · -- the other snapshots are of tasks that were not there
      have hother : ∀ z ∈ w.snapshots, z.2.task.id ≠ s.task.id := by
        intro z hz
        rw [htaken.task]
        exact (ha.gone z hz row hrow).symm
      rcases List.mem_append.1 hx with hx | hx <;> rcases List.mem_append.1 hy with hy | hy
      · exact hw₂.aside.once x hx y hy hid
      · rw [List.mem_singleton.1 hy] at hid
        exact absurd hid (hother x hx)
      · rw [List.mem_singleton.1 hx] at hid
        exact absurd hid.symm (hother y hy)
      · rw [List.mem_singleton.1 hx, List.mem_singleton.1 hy]
  · exact hw₂.nextId
  · intro k hk
    have hk₂ := hw₂.knows k hk
    refine ⟨hk₂.used, hk₂.row, fun x hx hid => ?_⟩
    rcases List.mem_append.1 hx with hx | hx
    · exact hk₂.snapshot x hx hid
    · rw [List.mem_singleton.1 hx] at hid ⊢
      have hsame : row.id = k.id := htaken.task ▸ hid
      show k.version ≤ s.task.version
      rw [htaken.task]
      exact (hk.row row hrow hsame).version

theorem forth_relinkSuccessors (s : Snapshot) (db : Db) : db.Forth (relinkSuccessors s db) := by
  unfold relinkSuccessors
  generalize s.successors = l
  induction l generalizing db with
  | nil => exact .refl db
  | cons t l ih =>
    refine Db.Forth.trans ?_ (ih _)
    exact Db.forth_update (p := (·.id == t.id))
      (f := fun t => { t with recurrenceSourceId := some s.task.id, version := t.version + 1, updatedAt := db.now })
      (fun t _ _ => TaskRow.grows_of_lt rfl (Int.lt_succ t.version)) rfl le_rfl

/-- The task that comes back has a new version. -/
theorem recalls_undoTaskDelete (locked : Bool) (validation : Except AppError Unit) (receipt : Uuid) :
    Tx.Within (fun w w' => w.Aside → w.Recalls w') (undoTaskDelete locked validation receipt) := by
  intro w a w' h ha
  obtain ⟨u, s, -, hs, -, hfree, rfl⟩ := undoTaskDelete_ok h
  have hused : s.task.id < w.db.nextId := ha.used _ hs
  have hafter : (w.db.insertTask (restoredTask w.db.now s.task)).Forth (restoreDb s w.db) :=
    ((beside_restoreEvent s _).forth.trans (forth_relinkSuccessors s _)).trans (beside_restoreMapping s _).forth
  have hkeys : (w.db.insertTask (restoredTask w.db.now s.task)).TaskKeys := by
    refine ⟨ha.keys.unique.insert fun k heq t ht hkt => ?_, fun t ht => ?_⟩
    · exact hfree.task t ht (Option.some.inj (hkt.trans heq.symm))
    · rcases List.mem_append.1 ht with ht | ht
      · exact ha.keys.used t ht
      · rw [List.mem_singleton.1 ht]
        exact hused
  -- every row was there, or is the one that comes back
  have hrows : ∀ t' ∈ (restoreDb s w.db).tasks, w.db.nextId ≤ t'.id ∨ (∃ t ∈ w.db.tasks, t.Grows t') ∨
      (t'.id = s.task.id ∧ s.task.version < t'.version) := by
    intro t' ht'
    rcases hafter.rows t' ht' with hnew | ⟨t, ht, hgrows⟩
    · exact .inl hnew
    · rcases List.mem_append.1 ht with ht | ht
      · exact .inr (.inl ⟨t, ht, hgrows⟩)
      · rw [List.mem_singleton.1 ht] at hgrows
        have hv : s.task.version + 1 ≤ t'.version := hgrows.version
        exact .inr (.inr ⟨hgrows.id, by omega⟩)
  constructor
  · have hback := hafter.keys hkeys
    refine ⟨⟨hback.unique, hback.used⟩, fun x hx => ?_, fun x hx t' ht' hid => ?_, fun x hx y hy => ?_⟩
    · exact lt_of_lt_of_le (ha.used x (mem_delete.1 hx).1) hafter.nextId
    · obtain ⟨hx, hkey⟩ := mem_delete.1 hx
      rcases hrows t' ht' with hnew | ⟨t, ht, hgrows⟩ | ⟨hback, -⟩
      · exact absurd (hid ▸ ha.used x hx) (not_lt_of_ge hnew)
      · exact ha.gone x hx t ht (hgrows.id.symm.trans hid)
      · rw [ha.once x hx _ hs (hid.symm.trans hback)] at hkey
        simp at hkey
    · exact ha.once x (mem_delete.1 hx).1 y (mem_delete.1 hy).1
  · exact hafter.nextId
  · intro k hk
    refine ⟨lt_of_lt_of_le hk.used hafter.nextId, fun t' ht' hid => ?_, fun x hx => hk.snapshot x (mem_delete.1 hx).1⟩
    rcases hrows t' ht' with hnew | ⟨t, ht, hgrows⟩ | ⟨hback, hv⟩
    · exact absurd (hid ▸ hk.used) (not_lt_of_ge hnew)
    · exact (hk.row t ht (hgrows.id.symm.trans hid)).trans hgrows
    · exact TaskRow.grows_of_lt hid (lt_of_le_of_lt (hk.snapshot _ hs (hback.symm.trans hid)) hv)

/-! ## Runs -/

variable {α : Type}

theorem recalls_void {t : WorkspaceTx α} (h : Tx.Within (fun w w' => w.Aside → w.Recalls w') t) :
    Tx.Within (fun w w' => w.Aside → w.Recalls w') (Action.void t) := by
  intro w a w' hw ha
  obtain ⟨b, u, ht, hrest⟩ := Tx.bind_ok hw
  cases hrest
  exact h _ _ _ ht ha

theorem recalls_onDb {t : StoreTx α} (h : Tx.Within Db.Forth t) : Tx.Within (fun w w' => w.Aside → w.Recalls w') (onDb t) := by
  intro w a w' hw ha
  obtain ⟨db, ht, rfl⟩ := onDb_ok hw
  exact recalls_of_forth (h _ _ _ ht) rfl ha

theorem recalls_stays {t : WorkspaceTx α} (h : Tx.Within Stays t) : Tx.Within (fun w w' => w.Aside → w.Recalls w') t :=
  fun w a w' hw ha => recalls_of_forth (h w a w' hw).db.around.kept.forth (h w a w' hw).snapshots ha

theorem recalls_quiet {t : WorkspaceTx α} (h : Tx.Within Quiet t) : Tx.Within (fun w w' => w.Aside → w.Recalls w') t :=
  recalls_stays fun w a w' hw => (h w a w' hw).stays

theorem recalls_deleteProject (project : Uuid) (expectedVersion : Int) :
    Tx.Within (fun w w' => w.Aside → w.Recalls w') (deleteProject project expectedVersion) := by
  intro w a w' h ha
  unfold deleteProject at h
  split at h
  · cases h
  · obtain ⟨_, db₁, hremoved, h⟩ := Workspace.onDb_bind_ok h
    cases hremoved
    have hbeside : w.db.Beside (removeProjectEvents project w.db) := Db.beside_removeProjectEvents project
    rw [Tx.read_bind_run] at h
    cases hp : (w.settle (removeProjectEvents project w.db)).projects.find? (·.id == project) with
    | none =>
      simp only [hp] at h
      cases h
    | some p =>
      simp only [hp] at h
      split at h
      · cases h
      · obtain ⟨db₂, hdeleted, rfl⟩ := Workspace.onDb_ok h
        cases hdeleted
        exact recalls_of_forth (hbeside.forth.trans (Db.forth_deleteProject project _)) rfl ha

theorem forth_insertProject (r : CreateProjectRequest) : Tx.Within (fun w w' => w.db.Forth w'.db ∧ w'.snapshots = w.snapshots)
    (insertProject r) := by
  intro w p w' h
  cases h
  exact ⟨Db.forth_of_rows (List.forall₂_same.2 fun t _ => .refl t) (Nat.le_succ _), rfl⟩

theorem recalls_createProject (r : CreateProjectRequest) : Tx.Within (fun w w' => w.Aside → w.Recalls w') (createProject r) := by
  intro w p w' h ha
  unfold createProject at h
  obtain ⟨_, -, h⟩ := Tx.ofExcept_bind_ok h
  obtain ⟨hdb, hs⟩ := forth_insertProject r _ _ _ h
  exact recalls_of_forth hdb hs ha

theorem recalls_importTodoistProject (toLowercase : String → String) (r : TodoistImportRequest) :
    Tx.Within (fun w w' => w.Aside → w.Recalls w') (importTodoistProject toLowercase r) := by
  intro w a w' h ha
  unfold importTodoistProject at h
  obtain ⟨_, -, h⟩ := Tx.ofExcept_bind_ok h
  split at h
  · cases h
  · obtain ⟨prepared, -, h⟩ := Tx.ofExcept_bind_ok h
    obtain ⟨project, w₁, hproject, h⟩ := Tx.bind_ok h
    obtain ⟨hdb, hs⟩ := forth_insertProject _ _ _ _ hproject
    rw [Tx.read_bind_run] at h
    obtain ⟨taskIds, db₂, hrun, h⟩ := Workspace.onDb_bind_ok h
    cases h
    exact recalls_of_forth (hdb.trans (Db.forth_importTasks _ _ _ _ _ _ _ hrun)) hs ha

theorem recalls_moveCalendarItem (locked : Bool) (item : Uuid) (isTask : Bool) (r : MoveCalendarItemRequest) :
    Tx.Within (fun w w' => w.Aside → w.Recalls w') (moveCalendarItem locked item isTask r) := by
  intro w receipt w' h ha
  obtain ⟨e, task, w₁, -, -, -, -, rfl, rfl⟩ := moveCalendarItem_ok h
  have hfresh : w.db.Forth w.db.fresh := Db.forth_of_rows (List.forall₂_same.2 fun t _ => .refl t) (Nat.le_succ _)
  exact recalls_of_forth (hfresh.trans (Db.forth_moveEvent e r.startsAt r.endsAt _ _)) rfl ha

theorem recalls_undoCalendarMove (locked : Bool) (receipt : Uuid) :
    Tx.Within (fun w w' => w.Aside → w.Recalls w') (undoCalendarMove locked receipt) := by
  intro w a w' h ha
  obtain ⟨inverse, e, task, w₁, -, -, -, -, -, -, -, -, rfl, rfl⟩ := undoCalendarMove_ok h
  exact recalls_of_forth (Db.forth_moveEvent e inverse.startsAt inverse.endsAt _ _) rfl ha

end Workspace

open Workspace in
theorem recalls_tx (env : Env) (a : Action) : Tx.Within (fun w w' => w.Aside → w.Recalls w') (a.tx env) := by
  cases a with
  | tick now => exact recalls_stays (.write fun w => stays_tick now w)
  | createProject r => exact recalls_void (recalls_createProject r)
  | updateProject project r => exact recalls_quiet (quiet_void (quiet_updateProject project r))
  | deleteProject project version => exact recalls_deleteProject project version
  | importTodoistProject r => exact recalls_void (recalls_importTodoistProject _ r)
  | importGoogleTask title deadline completed => exact recalls_void (recalls_onDb (Db.forth_importGoogleTask title deadline completed))
  | createTask r => exact recalls_void (recalls_onDb (Db.forth_createTask _ r))
  | updateTask task r scope => exact recalls_void (recalls_onDb (Db.forth_updateTaskScoped _ task r scope))
  | reorderTasks taskIds => exact recalls_stays (stays_onDb fun _ _ _ h => (Db.quiet_reorderTasks taskIds _ _ _ h).stays)
  | deleteTask task version => exact recalls_onDb (Db.forth_deleteTaskTx task version)
  | deleteTaskWithUndo locked validated task version =>
    exact recalls_void (recalls_deleteTaskWithSnapshot env.octets locked validated task version)
  | undoTaskDelete locked validation receipt => exact recalls_undoTaskDelete locked validation receipt
  | cleanupTaskDeleteUndos =>
    exact recalls_stays (stays_onDb (t := Tx.write Store.cleanupTaskDeleteUndos) (.write fun _ =>
      Db.stays_of_same rfl rfl rfl le_rfl fun _ he => .inl he))
  | createEvent r => exact recalls_stays (stays_void (stays_onDb (Db.stays_createCalendarEvent _ r)))
  | updateEvent event r => exact recalls_stays (stays_void (stays_onDb (Db.stays_updateCalendarEvent _ event r)))
  | deleteEvent event version => exact recalls_stays (stays_onDb (Db.stays_deleteCalendarEvent event version))
  | moveCalendarItem locked item isTask r => exact recalls_void (recalls_moveCalendarItem locked item isTask r)
  | undoCalendarMove locked receipt => exact recalls_undoCalendarMove locked receipt
  | cleanupMoves => exact recalls_stays (.write fun w => ⟨.refl _, fun p hp => .inl ⟨p, hp, rfl⟩, rfl, fun _ hm => (mem_delete.1 hm).1⟩)
  | createCalendar name color => exact recalls_stays (stays_void (stays_createCalendar _ name color))
  | updateCalendar calendar r => exact recalls_stays (stays_updateCalendar _ calendar r)
  | deleteCalendar calendar version => exact recalls_stays (stays_deleteCalendar calendar version)
  | connectGoogle account => exact recalls_quiet (.write fun _ => quiet_beside rfl rfl rfl rfl)
  | revokeGoogleIntegration => exact recalls_stays stays_revokeGoogleIntegration
  | discoverCalendar entry => exact recalls_stays (stays_upsertGoogleCalendar entry)
  | migrateScheduledTasks => exact recalls_stays (stays_onDb Db.stays_migrateScheduledTasks)
  | createNote r => exact recalls_quiet (quiet_void (quiet_createNote r))
  | updateNote note r => exact recalls_quiet (quiet_void (quiet_updateNote note r))
  | deleteNote note version => exact recalls_quiet (quiet_deleteNote note version)
  | createFile others r => exact recalls_quiet (quiet_void (quiet_createFileMetadata others r))
  | deleteFile file => exact recalls_quiet (quiet_void (quiet_deleteFileMetadata file))
  | updateDailyFocus date taskIds => exact recalls_quiet (quiet_updateDailyFocus date taskIds)
  | startDailyReview date manual => exact recalls_quiet (quiet_void (quiet_startDailyReview date manual))
  | completeDailyReview date version decisions => exact recalls_quiet (quiet_void (quiet_completeDailyReview date version decisions))
  | resolveSyncConflict locked conflict resolution =>
    exact recalls_stays (stays_void (stays_onDb (Db.stays_resolveSyncConflict locked conflict resolution)))
  | setSyncConflictPolicy policy => exact recalls_stays (stays_onDb (Db.stays_setSyncConflictPolicy policy))
  | requestSync calendar key => exact recalls_stays (stays_onDb (t := Store.enqueueSync calendar key) (Db.stays_enqueueSync calendar key))
  | sync s =>
    refine recalls_onDb (t := Tx.write fun db => (s.exec db).2) (.write fun db => ?_)
    exact (Db.around_exec s db).forth

namespace Workspace

theorem aside_initial (now : DateTime) (nextId : Uuid) (policy : Option SyncConflictPolicy) (automatic : Bool) :
    (Workspace.initial now nextId policy automatic).Aside := by
  refine ⟨⟨.nil _, ?_⟩, ?_, ?_, ?_⟩
  all_goals
    intro x hx
    cases hx

/-- Whatever happens, what was known of a task is known. -/
theorem Aside.perform {w : Workspace} (h : w.Aside) (env : Env) (a : Action) : w.Recalls (a.perform env w) := by
  unfold Action.perform Tx.commit
  cases ht : a.tx env w with
  | ok p => exact recalls_tx env a _ _ _ ht h
  | error e => exact ⟨h, le_rfl, fun _ hk => hk⟩

theorem Recalls.trans {w w' w'' : Workspace} (h : w.Recalls w') (h' : w'.Recalls w'') : w.Recalls w'' where
  aside := h'.aside
  nextId := h.nextId.trans h'.nextId
  knows := fun k hk => h'.knows k (h.knows k hk)

theorem Aside.run {env : Env} {P : Action → Workspace → Prop} {w w' : Workspace} (hr : Run env P w w') (h : w.Aside) :
    w.Recalls w' := by
  induction hr with
  | start => exact ⟨h, le_rfl, fun _ hk => hk⟩
  | step a _ _ ih => exact ih.trans (ih.aside.perform env a)

/-- The version of a task never goes back, not even where the task is deleted and brought back; and
with the version it had it says what it said, but for its place among the tasks. -/
theorem version_tells {env : Env} {P : Action → Workspace → Prop} {now : DateTime} {nextId : Uuid}
    {policy : Option SyncConflictPolicy} {automatic : Bool} {w w' : Workspace}
    (hw : Run env P (Workspace.initial now nextId policy automatic) w) (hw' : Run env P w w') {t t' : TaskRow}
    (ht : t ∈ w.db.tasks) (ht' : t' ∈ w'.db.tasks) (hid : t'.id = t.id) :
    t.version ≤ t'.version ∧ (t'.version = t.version → t'.toTask = { t.toTask with position := t'.position }) := by
  have hstart := (Aside.run hw (aside_initial now nextId policy automatic)).aside
  have hknown := (Aside.run hw' hstart).knows t (hstart.knows ht)
  have hgrows := hknown.row t' ht' hid
  exact ⟨hgrows.version, hgrows.same⟩

/-- A task that is deleted and brought back has another version; one that is moved has the version it had. -/
theorem version_tells_of_one : ∃ w w' : Workspace, ∃ t ∈ w.db.tasks, ∃ t' ∈ w'.db.tasks, ∃ u ∈ w.db.tasks, ∃ u' ∈ w'.db.tasks,
    t'.id = t.id ∧ t.version ≤ t'.version ∧ t'.version ≠ t.version ∧
      u'.position ≠ u.position ∧ u'.version = u.version ∧ u'.toTask = { u.toTask with position := u'.position } := by
  let env : Env := ⟨id, fun _ => 0⟩
  let request : CreateTaskRequest := ⟨none, none, "t", "", none, none, none, .todo, .medium, .none, [], none⟩
  let one := (Action.createTask request).perform env (.initial 0 0 none false)
  let two := (Action.createTask request).perform env one
  let gone := (Action.deleteTaskWithUndo false false 0 1).perform env two
  let back := (Action.undoTaskDelete false (.ok ()) 2).perform env gone
  let after := (Action.reorderTasks [1, 0]).perform env back
  have hrun : Run env (fun _ _ => True) (.initial 0 0 none false) two := .step _ (.step _ .start trivial) trivial
  have hrun' : Run env (fun _ _ => True) two after := .step _ (.step _ (.step _ .start trivial) trivial) trivial
  have hexec : (two.db.tasks.any (fun t => t.id == 0 && t.version == 1) && after.db.tasks.any (fun t => t.id == 0 && t.version == 2) &&
      two.db.tasks.any (fun t => t.id == 1 && t.version == 1 && t.position == 2048) &&
      after.db.tasks.any fun t => t.id == 1 && t.version == 1 && t.position == 1024) = true := by decide +kernel
  simp only [Bool.and_eq_true, List.any_eq_true, beq_iff_eq] at hexec
  obtain ⟨⟨⟨⟨t, ht, hid, hv⟩, t', ht', hid', hv'⟩, u, hu, ⟨huid, huv⟩, hup⟩, u', hu', ⟨huid', huv'⟩, hup'⟩ := hexec
  obtain ⟨hle, -⟩ := version_tells hrun hrun' ht ht' (hid'.trans hid.symm)
  obtain ⟨-, hsame⟩ := version_tells hrun hrun' hu hu' (huid'.trans huid.symm)
  refine ⟨two, after, t, ht, t', ht', u, hu, u', hu', hid'.trans hid.symm, hle, by omega, by omega, ?_, ?_⟩
  · exact huv'.trans huv.symm
  · exact hsame (huv'.trans huv.symm)

end Workspace

end Prosepect

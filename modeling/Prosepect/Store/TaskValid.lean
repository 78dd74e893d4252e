/-
The tasks of a store are well formed (`TasksValid`): their graph, their lineage, and the projects
they are in. Every operation on tasks keeps it, the import of a project if it lists no task under
a recurring one.
-/
import Prosepect.Store.TaskChecks
import Prosepect.Store.TaskGraph

namespace Prosepect

open Relation Resumption Table Time Store

/-- No task of the import is listed under a recurring one. -/
def Store.TodoistImportRequest.Flat (r : TodoistImportRequest) : Prop :=
  ∀ t ∈ r.tasks, ∀ i : Nat, t.parentIndex = some i → ∀ p : TodoistImportTask, r.tasks[i]? = some p → p.recurrence = .none

namespace Db

structure TasksValid (db : Db) : Prop where
  graph : TaskGraph db.tasks
  lineage : Lineage db.tasks
  used : ∀ t ∈ db.tasks, t.id < db.nextId
  project : ∀ t ∈ db.tasks, ∀ p, t.projectId = some p → p ∈ db.projects
  recurrenceProject : ∀ t ∈ db.tasks, ∀ p, t.recurrenceProjectId = some p → p ∈ db.projects

/-- Writes that leave each task at its place. -/
structure Around (R : TaskRow → TaskRow → Prop) (db db' : Db) : Prop where
  tasks : List.Forall₂ R db.tasks db'.tasks
  projects : db'.projects = db.projects
  nextId : db.nextId ≤ db'.nextId

variable {R : TaskRow → TaskRow → Prop} {db db' : Db}

theorem Around.refl (hr : ∀ t, R t t) (db : Db) : db.Around R db := ⟨List.forall₂_same.2 fun t _ => hr t, rfl, le_rfl⟩

theorem Around.trans (ht : ∀ {x y z}, R x y → R y z → R x z) {a b c : Db} (h : a.Around R b) (h' : b.Around R c) :
    a.Around R c :=
  ⟨rows_trans ht h.tasks h'.tasks, h'.projects.trans h.projects, h.nextId.trans h'.nextId⟩

theorem Around.kept (h : db.Around TaskRow.Touched db') : db.Around TaskRow.Kept db' :=
  ⟨h.tasks.imp fun _ _ hr => hr.kept, h.projects, h.nextId⟩

theorem Beside.around (hr : ∀ t, R t t) (h : db.Beside db') : db.Around R db' :=
  ⟨h.tasks ▸ List.forall₂_same.2 fun t _ => hr t, h.projects, h.nextId⟩

/-! ## Rules -/

theorem TasksValid.around (h : db.TasksValid) (ha : db.Around TaskRow.Kept db') : db'.TasksValid where
  graph := h.graph.kept ha.tasks
  lineage := h.lineage.kept ha.tasks
  used := by
    intro t' ht'
    obtain ⟨t, ht, hr⟩ := rows_of_mem ha.tasks ht'
    rw [hr.id]
    exact lt_of_lt_of_le (h.used t ht) ha.nextId
  project := by
    intro t' ht' p hp
    obtain ⟨t, ht, hr⟩ := rows_of_mem ha.tasks ht'
    exact ha.projects ▸ h.project t ht p (hr.projectId ▸ hp)
  recurrenceProject := by
    intro t' ht' p hp
    obtain ⟨t, ht, hr⟩ := rows_of_mem ha.tasks ht'
    rcases hr.recurrenceProjectId with hrp | hrp
    · exact ha.projects ▸ h.recurrenceProject t ht p (hrp ▸ hp)
    · rw [hrp] at hp
      cases hp

theorem TasksValid.beside (h : db.TasksValid) (hb : db.Beside db') : db'.TasksValid := h.around (hb.around .refl)

/-- A fresh id is not that of a task. -/
theorem TasksValid.fresh_ne (h : db.TasksValid) {id : Uuid} (hid : db.nextId ≤ id) : ∀ t ∈ db.tasks, t.id ≠ id :=
  fun t ht hti => absurd (h.used t ht) (Nat.not_lt.2 (hti ▸ hid))

theorem TasksValid.task?_eq_some (h : db.TasksValid) {id : Uuid} {t : TaskRow} :
    db.task? id = some t ↔ t ∈ db.tasks ∧ t.id = id := by
  have hf := h.graph.ids.find_eq_some_iff (k := id) (r := t)
  rwa [Option.some.injEq] at hf

theorem TasksValid.insert (h : db.TasksValid) {row : TaskRow} (htasks : db'.tasks = db.tasks ++ [row])
    (hprojects : db'.projects = db.projects) (hnext : db.nextId ≤ db'.nextId) (hused : row.id < db'.nextId)
    (hnew : ∀ t ∈ db.tasks, t.id ≠ row.id) (hparent : Fitting db.tasks row.projectId row.parentTaskId row.recurrence)
    (hversion : 1 ≤ row.version)
    (hsource : ∀ s, row.recurrenceSourceId = some s →
      (∃ q ∈ db.tasks, q.id = s ∧ q.status = .completed) ∧ ∀ r ∈ db.tasks, r.recurrenceSourceId ≠ some s)
    (hrecurs : row.recurrenceSourceId ≠ none → row.version = 1 → row.recurrence ≠ .none)
    (hproject : ∀ p, row.projectId = some p ∨ row.recurrenceProjectId = some p → p ∈ db.projects) : db'.TasksValid := by
  have hmem : ∀ {t}, t ∈ db'.tasks → t ∈ db.tasks ∨ t = row := by
    intro t ht
    rw [htasks] at ht
    exact (List.mem_append.1 ht).imp_right List.mem_singleton.1
  constructor
  · rw [htasks]
    exact h.graph.insert hnew hparent
  · rw [htasks]
    exact h.lineage.insert hversion hsource hrecurs
  · intro t ht
    rcases hmem ht with ht | rfl
    · exact lt_of_lt_of_le (h.used t ht) hnext
    · exact hused
  · intro t ht p hp
    rw [hprojects]
    rcases hmem ht with ht | rfl
    · exact h.project t ht p hp
    · exact hproject p (.inl hp)
  · intro t ht p hp
    rw [hprojects]
    rcases hmem ht with ht | rfl
    · exact h.recurrenceProject t ht p hp
    · exact hproject p (.inr hp)

/-- Tasks that go with all that refers to them. -/
theorem TasksValid.drop (h : db.TasksValid) {p c : TaskRow → Bool}
    (htasks : db'.tasks = update c (fun t => { t with recurrenceSourceId := none }) (delete p db.tasks))
    (hprojects : db'.projects = db.projects) (hnext : db.nextId ≤ db'.nextId)
    (hsubtasks : ∀ t ∈ db.tasks, p t = false → ∀ q ∈ db.tasks, t.parentTaskId = some q.id → p q = false)
    (hsuccessors : ∀ t ∈ db.tasks, p t = false → ∀ q ∈ db.tasks, t.recurrenceSourceId = some q.id → p q = true →
      c t = true) : db'.TasksValid := by
  have hmem : ∀ {t}, t ∈ db'.tasks → ∃ r ∈ db.tasks, t.id = r.id ∧ t.projectId = r.projectId ∧
      t.recurrenceProjectId = r.recurrenceProjectId := by
    intro t ht
    rw [htasks] at ht
    rcases mem_update.1 ht with ⟨ht, -⟩ | ⟨r, hr, -, rfl⟩
    · exact ⟨t, (mem_delete.1 ht).1, rfl, rfl, rfl⟩
    · exact ⟨r, (mem_delete.1 hr).1, rfl, rfl, rfl⟩
  constructor
  · rw [htasks]
    exact (h.graph.delete hsubtasks).congr (map_update fun _ => rfl)
  · rw [htasks]
    exact h.lineage.drop hsuccessors
  · intro t ht
    obtain ⟨r, hr, hid, -⟩ := hmem ht
    rw [hid]
    exact lt_of_lt_of_le (h.used r hr) hnext
  · intro t ht k hk
    obtain ⟨r, hr, -, hp, -⟩ := hmem ht
    rw [hprojects]
    exact h.project r hr k (hp ▸ hk)
  · intro t ht k hk
    obtain ⟨r, hr, -, -, hp⟩ := hmem ht
    rw [hprojects]
    exact h.recurrenceProject r hr k (hp ▸ hk)

/-- A task with a new version, in its new place. -/
theorem TasksValid.assign (h : db.TasksValid) {row t : TaskRow} (hrow : row ∈ db.tasks)
    (htasks : db'.tasks = update (·.id == row.id) (fun _ => t) db.tasks) (hprojects : db'.projects = db.projects)
    (hnext : db.nextId ≤ db'.nextId) (hid : t.id = row.id)
    (hparent : Fitting db.tasks t.projectId t.parentTaskId t.recurrence) (hself : t.parentTaskId ≠ some row.id)
    (hbelow : ∀ p, t.parentTaskId = some p → ¬ ReflTransGen (Forest.Above (parentOf db.tasks)) p row.id)
    (hsub : (∃ c ∈ db.tasks, c.parentTaskId = some row.id) → t.projectId = row.projectId ∧ t.recurrence = .none)
    (hsource : t.recurrenceSourceId = row.recurrenceSourceId) (hversion : t.version = row.version + 1)
    (hopen : t.status ≠ .completed → ∀ r ∈ db.tasks, r.recurrenceSourceId ≠ some row.id)
    (hproject : ∀ p, t.projectId = some p ∨ t.recurrenceProjectId = some p → p ∈ db.projects) : db'.TasksValid := by
  have hmem : ∀ {r}, r ∈ db'.tasks → r ∈ db.tasks ∨ r = t := by
    intro r hr
    rw [htasks] at hr
    rcases mem_update.1 hr with ⟨hr, -⟩ | ⟨_, -, -, rfl⟩
    · exact .inl hr
    · exact .inr rfl
  constructor
  · rw [htasks]
    exact h.graph.assign hrow hid hparent hself hbelow hsub
  · rw [htasks]
    exact h.lineage.assign h.graph.ids hrow hid hsource hversion hopen
  · intro r hr
    rcases hmem hr with hr | rfl
    · exact lt_of_lt_of_le (h.used r hr) hnext
    · rw [hid]
      exact lt_of_lt_of_le (h.used row hrow) hnext
  · intro r hr p hp
    rw [hprojects]
    rcases hmem hr with hr | rfl
    · exact h.project r hr p hp
    · exact hproject p (.inl hp)
  · intro r hr p hp
    rw [hprojects]
    rcases hmem hr with hr | rfl
    · exact h.recurrenceProject r hr p hp
    · exact hproject p (.inr hp)

/-- A completed task without a successor gets one back. -/
theorem TasksValid.link (h : db.TasksValid) {s k : Uuid} {now : DateTime}
    (htasks : db'.tasks = update (·.id == k)
      (fun t => { t with recurrenceSourceId := some s, version := t.version + 1, updatedAt := now }) db.tasks)
    (hprojects : db'.projects = db.projects) (hnext : db.nextId ≤ db'.nextId)
    (hs : ∃ q ∈ db.tasks, q.id = s ∧ q.status = .completed) (hfree : ∀ r ∈ db.tasks, r.recurrenceSourceId ≠ some s) :
    db'.TasksValid := by
  have hmem : ∀ {t}, t ∈ db'.tasks → ∃ r ∈ db.tasks, t.id = r.id ∧ t.projectId = r.projectId ∧
      t.recurrenceProjectId = r.recurrenceProjectId := by
    intro t ht
    rw [htasks] at ht
    rcases mem_update.1 ht with ⟨ht, -⟩ | ⟨r, hr, -, rfl⟩
    · exact ⟨t, ht, rfl, rfl, rfl⟩
    · exact ⟨r, hr, rfl, rfl, rfl⟩
  constructor
  · rw [htasks]
    exact h.graph.congr (map_update fun _ => rfl)
  · rw [htasks]
    exact h.lineage.link h.graph.ids (fun _ => rfl) (fun _ => rfl) (fun _ => rfl) (fun _ => rfl) hs hfree
  · intro t ht
    obtain ⟨r, hr, hid, -⟩ := hmem ht
    rw [hid]
    exact lt_of_lt_of_le (h.used r hr) hnext
  · intro t ht p hp
    obtain ⟨r, hr, -, hproj, -⟩ := hmem ht
    rw [hprojects]
    exact h.project r hr p (hproj ▸ hp)
  · intro t ht p hp
    obtain ⟨r, hr, -, -, hproj⟩ := hmem ht
    rw [hprojects]
    exact h.recurrenceProject r hr p (hproj ▸ hp)

/-! ## Creating, changing and deleting tasks -/

/-- The checks of a request place it well. -/
theorem fitting_of_checks {r : CreateTaskRequest} (hf : FieldsFit r)
    (hr : validateTaskRelationships r.projectId r.parentTaskId db = .ok ()) :
    Fitting db.tasks r.projectId r.parentTaskId r.recurrence := by
  intro p hp
  obtain ⟨q, hq, hproj, hrec⟩ := (validateTaskRelationships_ok_iff.1 hr).2 p hp
  obtain ⟨hmem, hid⟩ := task?_mem hq
  refine ⟨?_, q, hmem, hid, hproj, hrec⟩
  by_contra hne
  rw [(hf.recurs hne).2] at hp
  cases hp

theorem tasksValid_createTask {toLowercase : String → String} {r : CreateTaskRequest} {a : Task} (hv : db.TasksValid)
    (h : createTask toLowercase r db = .ok (a, db')) : db'.TasksValid := by
  obtain ⟨labels, row, mid, hfields, -, -, hrelated, hrow, ha, rfl, hsync⟩ := createTask_ok h
  subst hrow
  refine TasksValid.beside ?_ (beside_syncTaskCalendarEvent a _ _ _ hsync)
  refine hv.insert rfl rfl (Nat.le_succ _) ?_ ?_ ?_ ?_ ?_ ?_ ?_
  · rw [ha]
    exact Nat.lt_succ_self _
  · rw [ha]
    exact hv.fresh_ne le_rfl
  · rw [ha]
    exact fitting_of_checks ((validateTaskFields_ok_iff r).1 hfields) hrelated
  · rw [ha]
  · intro s hs
    cases hs
  · exact fun hs => absurd rfl hs
  · intro p hp
    rw [ha] at hp
    exact (validateTaskRelationships_ok_iff.1 hrelated).1 p (hp.resolve_right fun hn => nomatch hn)

theorem tasksValid_deleteTask (hv : db.TasksValid) {id : Uuid}
    (hsubtasks : Table.has (·.parentTaskId == some id) db.tasks = false) : (db.deleteTask id).TasksValid := by
  refine hv.drop (p := (·.id == id)) (c := (·.recurrenceSourceId == some id)) rfl rfl le_rfl ?_ ?_
  · intro t ht _ q _ hp
    have hchild := has_eq_false_iff.1 hsubtasks t ht
    rw [hp] at hchild
    simpa using hchild
  · intro t _ _ q _ hs hq
    rw [hs, beq_iff_eq.1 hq]
    simp

/-- An untouched successor recurs, and so it has no subtasks; nor has it a successor. -/
theorem tasksValid_removeNextOccurrenceForReopen {task : Uuid} {a : Unit} (hv : db.TasksValid)
    (h : removeNextOccurrenceForReopen task db = .ok (a, db')) :
    db'.TasksValid ∧ db'.projects = db.projects ∧ db'.nextId = db.nextId ∧
      (∀ r ∈ db'.tasks, r ∈ db.tasks ∧ r.recurrenceSourceId ≠ some task) ∧
      ∀ r ∈ db.tasks, r.recurrence = .none ∨ r.status = .completed → r ∈ db'.tasks := by
  rcases removeNextOccurrenceForReopen_ok h with ⟨hnone, rfl⟩ | ⟨next, hnext, htodo, hversion, rfl⟩
  · refine ⟨hv, rfl, rfl, fun r hr => ⟨hr, ?_⟩, fun r hr _ => hr⟩
    simpa using List.find?_eq_none.1 hnone r hr
  · have hmem : next ∈ db.tasks := List.mem_of_find?_eq_some hnext
    have hsource : next.recurrenceSourceId = some task := by simpa using List.find?_some hnext
    have hrecurs : next.recurrence ≠ .none := hv.lineage.recurs next hmem (by rw [hsource]; simp) hversion
    have hsub : Table.has (·.parentTaskId == some next.id) db.tasks = false := by
      refine has_eq_false_iff.2 fun t ht => beq_eq_false_iff_ne.2 fun hp => ?_
      obtain ⟨-, q, hq, hid, -, hqrec⟩ := hv.graph.parents t ht _ hp
      obtain rfl := hv.graph.ids.eq hq hmem (congrArg some hid) rfl
      exact hrecurs hqrec
    have htasks : (db.deleteTask next.id).tasks = delete (·.id == next.id) db.tasks := by
      refine update_of_not fun t ht => beq_eq_false_iff_ne.2 fun hs => ?_
      obtain ⟨q, hq, hid, hdone⟩ := hv.lineage.completed t (mem_delete.1 ht).1 _ hs
      obtain rfl := hv.graph.ids.eq hq hmem (congrArg some hid) rfl
      rw [htodo] at hdone
      cases hdone
    refine ⟨tasksValid_deleteTask hv hsub, rfl, rfl, fun r hr => ?_, fun r hr hstay => ?_⟩
    · rw [htasks] at hr
      obtain ⟨hr, hne⟩ := mem_delete.1 hr
      refine ⟨hr, fun hs => ?_⟩
      rw [hv.lineage.unique.eq hr hmem hs hsource] at hne
      simp at hne
    · rw [htasks]
      refine mem_delete.2 ⟨hr, beq_eq_false_iff_ne.2 fun hid => ?_⟩
      obtain rfl := hv.graph.ids.eq hr hmem (congrArg some hid) rfl
      rcases hstay with hstay | hstay
      · exact hrecurs hstay
      · rw [htodo] at hstay
        cases hstay

theorem nextRecurrenceDate_recurs {dueAt next : DateTime} {recurrence : TaskRecurrence}
    (h : nextRecurrenceDate dueAt recurrence = .ok next) : recurrence ≠ .none := by
  rintro rfl
  cases h

theorem tasksValid_createNextRecurringTask {task : Uuid} {a : Unit} (hv : db.TasksValid)
    (hdone : ∀ row, db.task? task = some row → row.status = .completed)
    (h : createNextRecurringTask task db = .ok (a, db')) : db'.TasksValid := by
  obtain ⟨row, dueAt, nextDueAt, next, mid, hrow, -, hdate, -, hfree, hnext, rfl, hsync⟩ := createNextRecurringTask_ok h
  subst hnext
  obtain ⟨hmem, hid⟩ := task?_mem hrow
  have hsid : (successorSource row).id = row.id := by
    unfold successorSource
    split <;> rfl
  have hproject : ∀ p, (successorSource row).projectId = some p → p ∈ db.projects := by
    intro p hp
    unfold successorSource at hp
    split at hp
    · exact hv.project row hmem p hp
    · exact hv.recurrenceProject row hmem p hp
  refine TasksValid.beside ?_ (beside_syncTaskCalendarEvent _ _ _ _ hsync)
  refine hv.insert rfl rfl (Nat.le_succ _) (Nat.lt_succ_self _) (hv.fresh_ne le_rfl) ?_ le_rfl ?_ ?_ ?_
  · intro p hp
    cases hp
  · intro s hs
    obtain rfl : (successorSource row).id = s := Option.some.inj hs
    refine ⟨⟨row, hmem, hsid.symm, hdone row hrow⟩, fun r hr hrs => ?_⟩
    have hne := has_eq_false_iff.1 hfree r hr
    rw [hrs] at hne
    simp at hne
  · exact fun _ _ => nextRecurrenceDate_recurs hdate
  · intro p hp
    exact hproject p (hp.resolve_right fun hn => nomatch hn)

/-- The conditional steps of an update. -/
theorem ite_pure_ok {c : Prop} [Decidable c] {t : StoreTx Unit}
    (h : (if c then t else pure ()) db = .ok ((), db')) : (c ∧ t db = .ok ((), db')) ∨ (¬ c ∧ db' = db) := by
  split at h
  · exact .inl ⟨‹_›, h⟩
  · cases h
    exact .inr ⟨‹_›, rfl⟩

theorem tasksValid_updateTaskScoped {toLowercase : String → String} {task : Uuid} {r : UpdateTaskRequest}
    {scope : Option RecurrenceEditScope} {a : Task} (hv : db.TasksValid)
    (h : updateTaskScoped toLowercase task r scope db = .ok (a, db')) : db'.TasksValid := by
  obtain ⟨row, updated, -, hu⟩ := updateTaskScoped_ok h
  obtain ⟨labels, prepared, -, hprepared, hupdated⟩ := hu.written
  obtain ⟨hrow, hid⟩ := task?_mem hu.found
  obtain ⟨db₁, db₂, hreopen, hsync, hnext⟩ := hu.steps
  obtain ⟨current, hcurrent, hsub, hchain⟩ := validateTaskUpdateRelationships_ok_iff.1 hu.updateRelated
  obtain rfl : row = current := Option.some.inj (hu.found.symm.trans hcurrent)
  -- the successor of a task that is opened again has gone, and nothing else
  have hopened : db₁.TasksValid ∧ db₁.projects = db.projects ∧ db₁.nextId = db.nextId ∧ (∀ t ∈ db₁.tasks, t ∈ db.tasks) ∧
      (r.status ≠ .completed → ∀ t ∈ db₁.tasks, t.recurrenceSourceId ≠ some row.id) ∧
      ∀ t ∈ db.tasks, t.recurrence = .none ∨ t = row → t ∈ db₁.tasks := by
    rcases ite_pure_ok hreopen with ⟨hc, hr⟩ | ⟨hc, rfl⟩
    · obtain ⟨hv₁, hp, hn, hmem, hstay⟩ := tasksValid_removeNextOccurrenceForReopen hv hr
      refine ⟨hv₁, hp, hn, fun t ht => (hmem t ht).1, fun _ t ht => hid ▸ (hmem t ht).2, fun t ht hkeep => ?_⟩
      rcases hkeep with hkeep | rfl
      · exact hstay t ht (.inl hkeep)
      · exact hstay t ht (.inr hc.1)
    · refine ⟨hv, rfl, rfl, fun t ht => ht, fun hne t ht hs => ?_, fun t ht _ => ht⟩
      obtain ⟨q, hq, hqid, hdone⟩ := hv.lineage.completed t ht _ hs
      obtain rfl := hv.graph.ids.eq hq hrow (congrArg some hqid) rfl
      exact hc ⟨hdone, hne⟩
  obtain ⟨hv₁, hprojects, hnextId, hmem, hfree, hstay⟩ := hopened
  have hfit := fitting_of_checks ((validateTaskFields_ok_iff _).1 hu.fields) hu.related
  have hprepared' : ∀ p, prepared.recurrenceProjectId = some p → p ∈ db.projects := by
    intro p hp
    rcases (prepare_ok hprepared).2 with ⟨d, -, -, -, heq⟩ | heq | ⟨-, heq⟩
    · exact hv.project row hrow p (by rwa [heq] at hp)
    · rw [heq] at hp
      cases hp
    · exact hv.recurrenceProject row hrow p (by rwa [heq] at hp)
  have hmid : (ensureLabels updated.labels (db₁.updateTask task fun _ => updated)).TasksValid := by
    refine hv₁.assign (t := updated) (hstay row hrow (.inr rfl)) (by rw [← hid]; rfl) rfl le_rfl ?_ ?_ ?_ ?_ ?_ ?_ ?_ ?_ ?_
    · rw [hupdated]
      rfl
    · rw [hupdated]
      intro p hp
      obtain ⟨hrec, q, hq, hqid, hproj, hqrec⟩ := hfit p hp
      exact ⟨hrec, q, hstay q hq (.inl hqrec), hqid, hproj, hqrec⟩
    · rw [hupdated, hid]
      exact hu.parent
    · rw [hupdated]
      intro p hp hr
      obtain ⟨-, q, hq, rfl, -⟩ := hfit p hp
      refine hchain q.id hp ((mem_parentChain hv.graph hq).2 ?_)
      rw [← hid]
      refine ReflTransGen.mono (fun a b hab => ?_) _ _ hr
      obtain ⟨t, ht, htid, htp⟩ := (parentOf_eq_some hv₁.graph.ids).1 hab
      exact (parentOf_eq_some hv.graph.ids).2 ⟨t, hmem t ht, htid, htp⟩
    · rintro ⟨c, hc, hcp⟩
      rw [hupdated]
      obtain ⟨hrec, hproj⟩ := hsub ⟨c, hmem c hc, by rw [hcp, hid]⟩
      exact ⟨hproj.symm, hrec⟩
    · rw [hupdated]
      rfl
    · rw [hupdated]
      rfl
    · rw [hupdated]
      exact hfree
    · rw [hupdated, hprojects]
      intro p hp
      rcases hp with hp | hp
      · exact (validateTaskRelationships_ok_iff.1 hu.related).1 p hp
      · exact hprepared' p hp
  have hbeside := beside_syncTaskCalendarEvent _ _ _ _ hsync
  have hv₂ := hmid.beside hbeside
  rcases ite_pure_ok hnext with ⟨hc, hn⟩ | ⟨-, rfl⟩
  · refine tasksValid_createNextRecurringTask hv₂ (fun t ht => ?_) hn
    rw [hbeside.task?, hmid.task?_eq_some] at ht
    obtain ⟨ht, htid⟩ := ht
    rcases mem_update.1 ht with ⟨-, hne⟩ | ⟨_, -, -, rfl⟩
    · rw [htid, beq_self_eq_true] at hne
      cases hne
    · exact hc.2.1
  · exact hv₂

/-! ## Imports -/

theorem tasksValid_importGoogleTask {title : String} {deadline : Option DateTime} {completed : Bool}
    {a : Option TaskRow} (hv : db.TasksValid) (h : importGoogleTask title deadline completed db = .ok (a, db')) :
    db'.TasksValid := by
  unfold importGoogleTask at h
  split at h
  · cases h
    exact hv
  · rw [Tx.read_bind_run, Tx.write_bind_run] at h
    cases h
    refine hv.insert rfl rfl (Nat.le_succ _) (Nat.lt_succ_self _) (hv.fresh_ne le_rfl) ?_ le_rfl ?_ ?_ ?_
    · intro p hp
      cases hp
    · intro s hs
      cases hs
    · exact fun hs => absurd rfl hs
    · rintro p (hp | hp) <;> cases hp

/-- What `import_todoist_project` checks of the tasks, each under its index. -/
structure Importable (toLowercase : String → String) (r : TodoistImportRequest) (index : Nat)
    (x : TodoistImportTask × List String) : Prop where
  listed : r.tasks[index]? = some x.1
  fields : FieldsFit (importFields x.1)
  parent : ∀ i, x.1.parentIndex = some i → i < index
  labels : validateLabels toLowercase x.1.labels = .ok x.2

theorem prepareImport_ok {toLowercase : String → String} {r : TodoistImportRequest} :
    ∀ {tasks : List TodoistImportTask} {index : Nat} {out : List (TodoistImportTask × List String)},
    r.tasks.drop index = tasks → prepareImport toLowercase index tasks = .ok out →
    ∀ k x, out[k]? = some x → Importable toLowercase r (index + k) x
  | [], _, _, _, h, k, x, hx => by
    cases h
    simp at hx
  | task :: rest, index, out, hdrop, h, k, x, hx => by
    have hhead : r.tasks[index]? = some task := by
      have h0 := congrArg (·[0]?) hdrop
      simpa using h0
    have htail : r.tasks.drop (index + 1) = rest := by
      rw [← List.tail_drop, hdrop]
      rfl
    unfold prepareImport at h
    by_cases hp : task.parentIndex.any (index ≤ ·) = true
    · rw [if_pos hp] at h
      cases h
    · rw [if_neg hp] at h
      cases hf : validateTaskFields (importFields task) with
      | error e =>
        rw [hf] at h
        cases h
      | ok _ =>
        cases hl : validateLabels toLowercase task.labels with
        | error e =>
          rw [hf, hl] at h
          cases h
        | ok labels =>
          cases ho : prepareImport toLowercase (index + 1) rest with
          | error e =>
            rw [hf, hl, ho] at h
            cases h
          | ok others =>
            rw [hf, hl, ho] at h
            cases h
            cases k with
            | zero =>
              obtain rfl : (task, labels) = x := by simpa using hx
              refine ⟨hhead, (validateTaskFields_ok_iff _).1 hf, fun i hi => ?_, hl⟩
              have hlt : task.parentIndex = some i := hi
              simpa [hlt] using hp
            | succ k =>
              have hrest := prepareImport_ok htail ho k x (by simpa using hx)
              rwa [Nat.add_assoc, Nat.add_comm 1 k] at hrest

theorem importTasks_cons_ok {project : Uuid} {position : Int} {taskIds a : List Uuid} {task : TodoistImportTask}
    {labels : List String} {rest : List (TodoistImportTask × List String)}
    (h : importTasks project position taskIds ((task, labels) :: rest) db = .ok (a, db')) :
    ∃ row db₁, row = importedTask project (task.parentIndex.bind fun i => taskIds[i]?) task labels position db.nextId db.now ∧
      syncTaskCalendarEvent row.toTask (ensureLabels labels (db.fresh.insertTask row)) = .ok ((), db₁) ∧
      importTasks project (position + 1024) (taskIds ++ [row.id]) rest db₁ = .ok (a, db') := by
  unfold importTasks at h
  rw [Tx.read_bind_run, Tx.write_bind_run] at h
  obtain ⟨⟨⟩, db₁, hs, h⟩ := Tx.bind_ok h
  exact ⟨_, db₁, rfl, hs, h⟩

/-- The ids of the tasks before are those of rows in the project, which recur as they were listed. -/
def Imported (r : TodoistImportRequest) (project : Uuid) (taskIds : List Uuid) (db : Db) : Prop :=
  ∀ (i : Nat) (id : Uuid), taskIds[i]? = some id → ∃ q ∈ db.tasks, q.id = id ∧ q.projectId = some project ∧
    ∀ p : TodoistImportTask, r.tasks[i]? = some p → q.recurrence = p.recurrence

theorem tasksValid_importTasks {toLowercase : String → String} {r : TodoistImportRequest} (hflat : r.Flat)
    {project : Uuid} {a : List Uuid} : ∀ {rest : List (TodoistImportTask × List String)} {position : Int}
    {taskIds : List Uuid} {db : Db}, db.TasksValid → project ∈ db.projects → Imported r project taskIds db →
    (∀ k x, rest[k]? = some x → Importable toLowercase r (taskIds.length + k) x) →
    importTasks project position taskIds rest db = .ok (a, db') → db'.TasksValid
  | [], _, _, _, hv, _, _, _, h => by
    cases h
    exact hv
  | (task, labels) :: rest, position, taskIds, db, hv, hproject, himported, hrest, h => by
    obtain ⟨row, db₁, hrow, hsync, h⟩ := importTasks_cons_ok h
    have hx := hrest 0 (task, labels) rfl
    have hbeside := beside_syncTaskCalendarEvent _ _ _ _ hsync
    have hv₁ : (ensureLabels labels (db.fresh.insertTask row)).TasksValid := by
      subst hrow
      refine hv.insert rfl rfl (Nat.le_succ _) (Nat.lt_succ_self _) (hv.fresh_ne le_rfl) ?_ le_rfl ?_ ?_ ?_
      · -- the parent is a task before, and the list is flat
        intro p hp
        obtain ⟨i, hi, hid⟩ := Option.bind_eq_some_iff.1 hp
        obtain ⟨q, hq, hqid, hqproj, hqrec⟩ := himported i p hid
        have hlt : i < r.tasks.length := by
          have hlen := hx.parent i hi
          have hlisted := (List.getElem?_eq_some_iff.1 hx.listed).1
          omega
        have hflat' : ∀ p : TodoistImportTask, r.tasks[i]? = some p → p.recurrence = .none :=
          hflat task (List.mem_of_getElem? hx.listed) i hi
        refine ⟨?_, q, hq, hqid, hqproj, ?_⟩
        · by_contra hne
          have hnone := (hx.fields.recurs hne).2
          simp [importFields, hi] at hnone
        · rw [hqrec _ (List.getElem?_eq_getElem hlt)]
          exact hflat' _ (List.getElem?_eq_getElem hlt)
      · intro s hs
        cases hs
      · exact fun hs => absurd rfl hs
      · rintro p (hp | hp)
        · obtain rfl : project = p := Option.some.inj hp
          exact hproject
        · cases hp
    have htasks : db₁.tasks = db.tasks ++ [row] := hbeside.tasks
    have hnext : ∀ k x, rest[k]? = some x → Importable toLowercase r ((taskIds ++ [row.id]).length + k) x := by
      intro k x hk
      have hx := hrest (k + 1) x (by simpa using hk)
      rwa [List.length_append, List.length_singleton, Nat.add_assoc, Nat.add_comm 1 k]
    refine tasksValid_importTasks hflat (hv₁.beside hbeside) (by rw [hbeside.projects]; exact hproject) ?_ hnext h
    · intro i id hi
      rw [htasks]
      by_cases hlt : i < taskIds.length
      · rw [List.getElem?_append_left hlt] at hi
        obtain ⟨q, hq, hrest⟩ := himported i id hi
        exact ⟨q, List.mem_append_left _ hq, hrest⟩
      · rw [List.getElem?_append_right (by omega)] at hi
        obtain ⟨hzero, hid⟩ := (by simpa [List.getElem?_singleton] using hi : i - taskIds.length = 0 ∧ row.id = id)
        obtain rfl : i = taskIds.length := by omega
        refine ⟨row, by simp, hid, by rw [hrow]; rfl, fun p hp => ?_⟩
        obtain rfl : task = p := Option.some.inj (hx.listed.symm.trans hp)
        rw [hrow]
        rfl

/-! ## Deleting a project -/

theorem beside_removeProjectEvents (project : Uuid) : db.Beside (removeProjectEvents project db) := by
  have hfold : ∀ (l : List TaskRow) (db : Db), db.Beside (l.foldl (fun db t => removeTaskCalendarEvent t.id db) db) := by
    intro l
    induction l with
    | nil => exact Beside.refl
    | cons t l ih => exact fun db => (beside_removeTaskCalendarEvent t.id).trans (ih _)
  exact hfold _ db

theorem tasksValid_deleteProject (hv : db.TasksValid) (project : Uuid) : (db.deleteProject project).TasksValid := by
  have hdropped : (db.deleteTasks (·.projectId == some project)).TasksValid := by
    refine hv.drop rfl rfl le_rfl ?_ ?_
    · intro t ht hstay q hq hp
      obtain ⟨-, q', hq', hid, hproj, -⟩ := hv.graph.parents t ht q.id hp
      obtain rfl := hv.graph.ids.eq hq' hq (congrArg some hid) rfl
      rwa [hproj]
    · intro t _ _ q hq hs hgone
      rw [hs, Option.any_some, has_iff]
      exact ⟨q, hq, by simpa using hgone⟩
  have hunassigned : ((db.deleteTasks (·.projectId == some project)).unassignRecurrence project).TasksValid := by
    refine hdropped.around ⟨rows_update .refl fun t _ _ => ?_, rfl, le_rfl⟩
    refine ⟨rfl, rfl, rfl, rfl, rfl, rfl, .inr rfl, Int.le_add_one le_rfl, fun hv => ?_⟩
    have hne : t.version + 1 = t.version := hv
    omega
  -- no task that is left refers to the project
  have hclear : ∀ t ∈ ((db.deleteTasks (·.projectId == some project)).unassignRecurrence project).tasks,
      t.projectId ≠ some project ∧ t.recurrenceProjectId ≠ some project := by
    have hproj : ∀ t ∈ (db.deleteTasks (·.projectId == some project)).tasks, t.projectId ≠ some project := by
      intro t ht
      rcases mem_update.1 ht with ⟨ht, -⟩ | ⟨s, hs, -, rfl⟩
      · simpa using (mem_delete.1 ht).2
      · simpa using (mem_delete.1 hs).2
    intro t ht
    rcases mem_update.1 ht with ⟨ht, hne⟩ | ⟨s, hs, -, rfl⟩
    · exact ⟨hproj t ht, by simpa using hne⟩
    · exact ⟨hproj s hs, by simp⟩
  constructor
  · exact hunassigned.graph
  · exact hunassigned.lineage
  · exact hunassigned.used
  · intro t ht p hp
    refine mem_delete.2 ⟨hunassigned.project t ht p hp, beq_eq_false_iff_ne.2 ?_⟩
    rintro rfl
    exact (hclear t ht).1 hp
  · intro t ht p hp
    refine mem_delete.2 ⟨hunassigned.recurrenceProject t ht p hp, beq_eq_false_iff_ne.2 ?_⟩
    rintro rfl
    exact (hclear t ht).2 hp

end Db

end Prosepect

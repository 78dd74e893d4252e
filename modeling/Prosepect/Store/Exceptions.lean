/-
Exceptions of a recurring task: edits of one occurrence. What the first of them finds is saved
(`Saved`) until the task is completed, whatever is edited until then, and its successor follows that;
an edit of this and all future occurrences drops it.
-/
import Prosepect.Store.Series

namespace Prosepect

open Relation Resumption Table Text Time

namespace Store

variable {toLowercase : String → String} {task : Uuid} {db db' db₀ : Db} {row row₀ next next' : TaskRow}

/-! ## Histories -/

/-- What happens elsewhere leaves the exception of a task, but for its project if that is deleted. -/
structure Elsewhere (task : Uuid) (db db' : Db) : Prop where
  valid : db'.TasksValid
  nextId : db.nextId ≤ db'.nextId
  projects : ∀ p ∈ db'.projects, p ∈ db.projects ∨ db.nextId ≤ p
  row : ∀ row, db.task? task = some row → ∃ row', db'.task? task = some row' ∧ row'.recurrence = row.recurrence ∧
    row'.recurrenceDefaults = row.recurrenceDefaults ∧
    row'.recurrenceProjectId = row.recurrenceProjectId.filter (· ∈ db'.projects)

/-- An edit of one occurrence, or an edit without a scope that keeps the rule. -/
structure EditOf (toLowercase : String → String) (task : Uuid) (r : UpdateTaskRequest)
    (scope : Option RecurrenceEditScope) (db db' : Db) (row : TaskRow) : Prop where
  found : db.task? task = some row
  kept : scope = some .thisOccurrence ∨ (scope = none ∧ r.recurrence = row.recurrence)
  done : ∃ a, updateTaskScoped toLowercase task r scope db = .ok (a, db')

/-- The tables from the first exception on. -/
inductive History (toLowercase : String → String) (task : Uuid) (db₀ : Db) : Db → Prop
  | first {r : UpdateTaskRequest} {db : Db} {a : Task} :
    updateTaskScoped toLowercase task r (some .thisOccurrence) db₀ = .ok (a, db) → History toLowercase task db₀ db
  | edit {r : UpdateTaskRequest} {scope : Option RecurrenceEditScope} {db db' : Db} {row : TaskRow} :
    History toLowercase task db₀ db → EditOf toLowercase task r scope db db' row → History toLowercase task db₀ db'
  | elsewhere {db db' : Db} : History toLowercase task db₀ db → Elsewhere task db db' → History toLowercase task db₀ db'

/-- The edit completes the task, and leaves `next` for its successor. -/
structure Ends (toLowercase : String → String) (task : Uuid) (r : UpdateTaskRequest)
    (scope : Option RecurrenceEditScope) (db db' : Db) (row next : TaskRow) : Prop where
  edit : EditOf toLowercase task r scope db db' row
  unfinished : row.status ≠ .completed
  completed : r.status = .completed
  next : next ∈ db'.tasks ∧ next.recurrenceSourceId = some task

/-- A history that ends with the completion of the task in the tables `db`, which leaves `next`; the
first exception may be that completion. -/
inductive Ending (toLowercase : String → String) (task : Uuid) (db₀ : Db) : Db → TaskRow → Prop
  | atOnce {r : UpdateTaskRequest} {db' : Db} {row next : TaskRow} :
    Ends toLowercase task r (some .thisOccurrence) db₀ db' row next → Ending toLowercase task db₀ db₀ next
  | later {r : UpdateTaskRequest} {scope : Option RecurrenceEditScope} {db db' : Db} {row next : TaskRow} :
    History toLowercase task db₀ db → Ends toLowercase task r scope db db' row next →
    Ending toLowercase task db₀ db next

theorem filter_of_mem {o : Option Uuid} {l : List Uuid} (h : ∀ p, o = some p → p ∈ l) : o.filter (· ∈ l) = o := by
  cases o with
  | none => rfl
  | some p => simp [Option.filter, h p rfl]

/-- The deletion of another project is elsewhere: if the exception is to end with a task of that
project, it ends with one of none. -/
theorem elsewhere_deleteProject (hv : db.TasksValid) (project : Uuid)
    (hother : ∀ row, db.task? task = some row → row.projectId ≠ some project) :
    Elsewhere task db (db.deleteProject project) := by
  refine ⟨Db.tasksValid_deleteProject hv project, le_rfl, fun p hp => .inl (mem_delete.1 hp).1, fun row hrow => ?_⟩
  obtain ⟨hmem, -⟩ := task?_mem hrow
  have hstay : ∀ t ∈ db.tasks, (some t.id == some task) = true → (t.projectId == some project) = false := by
    intro t ht hid
    have hfound : db.task? task = some t := hv.task?_eq_some.2 ⟨ht, by simpa using hid⟩
    exact beq_eq_false_iff_ne.2 (hother t hfound)
  have hfind : ∃ t : TaskRow, (db.deleteProject project).task? task = some (if t.recurrenceProjectId == some project
        then { t with recurrenceProjectId := none, updatedAt := db.now, version := t.version + 1 } else t) ∧
      t.recurrence = row.recurrence ∧ t.recurrenceDefaults = row.recurrenceDefaults ∧
      t.recurrenceProjectId = row.recurrenceProjectId := by
    refine ⟨if row.recurrenceSourceId.any fun id =>
        Table.has (fun t : TaskRow => t.projectId == some project && t.id == id) db.tasks
      then { row with recurrenceSourceId := none } else row, ?_, ?_⟩
    · have hold : db.tasks.find? (fun t => some t.id == some task) = some row := hrow
      show (update _ _ (update _ _ (delete _ db.tasks))).find? _ = _
      rw [find_update (by intro; rfl), find_update (by intro; rfl), find_delete hstay, hold]
      rfl
    · split <;> exact ⟨rfl, rfl, rfl⟩
  obtain ⟨t, hfind, hrule, hdefaults, hproject⟩ := hfind
  have hprojects : ∀ p, p ∈ (db.deleteProject project).projects ↔ p ∈ db.projects ∧ p ≠ project := by
    intro p
    show p ∈ delete _ db.projects ↔ _
    rw [mem_delete, beq_eq_false_iff_ne]
  refine ⟨_, hfind, ?_⟩
  by_cases hgone : t.recurrenceProjectId = some project
  · rw [if_pos (beq_iff_eq.2 hgone)]
    refine ⟨hrule, hdefaults, ?_⟩
    rw [← hproject, hgone]
    simp [Option.filter, hprojects]
  · rw [if_neg fun h => hgone (beq_iff_eq.1 h), hproject]
    rw [hproject] at hgone
    refine ⟨hrule, hdefaults, (filter_of_mem fun p hp => (hprojects p).2 ⟨hv.recurrenceProject row hmem p hp, ?_⟩).symm⟩
    rintro rfl
    exact hgone hp

/-! ## What is saved -/

/-- The exception of a task is that of a row, its project as far as there still is one. -/
structure Saved (task : Uuid) (row₀ : TaskRow) (d : RecurrenceDefaults) (db : Db) : Prop where
  valid : db.TasksValid
  used : ∀ p, row₀.projectId = some p → p < db.nextId
  row : ∃ row, db.task? task = some row ∧ row.recurrenceDefaults = some d ∧ row.recurrence = row₀.recurrence ∧
    row.recurrenceProjectId = row₀.projectId.filter (· ∈ db.projects)

/-- An edit of one occurrence of a task without an exception saves it as it is. -/
theorem prepare_first {prepared : TaskRow} {r : UpdateTaskRequest} (hplain : row.recurrenceDefaults = none)
    (h : prepare row r (some .thisOccurrence) = .ok prepared) : row.recurrence ≠ .none ∧ r.recurrence = row.recurrence ∧
      ∃ d, defaultsFromTask row.toTask = .ok d ∧
        prepared = { row with recurrenceDefaults := some d, recurrenceProjectId := row.projectId } := by
  unfold prepare at h
  by_cases hv : row.version = r.expectedVersion
  · rw [if_neg (not_not.2 hv)] at h
    by_cases hs : (some RecurrenceEditScope.thisOccurrence).isSome = true ∧ row.status = .completed
    · rw [if_pos hs] at h
      cases h
    · rw [if_neg hs] at h
      by_cases hr : row.recurrence = .none ∨ r.recurrence ≠ row.recurrence
      · simp only [if_pos hr] at h
        cases h
      · rw [not_or, not_not] at hr
        refine ⟨hr.1, hr.2, ?_⟩
        simp only [if_neg (not_or.2 ⟨hr.1, not_not.2 hr.2⟩), hplain, Option.isNone_none, if_true] at h
        cases hd : defaultsFromTask row.toTask with
        | error e =>
          rw [hd] at h
          cases h
        | ok d =>
          rw [hd] at h
          cases h
          exact ⟨d, rfl, rfl⟩
  · rw [if_pos hv] at h
    cases h

/-- A later edit leaves what is saved alone. -/
theorem prepare_later {prepared : TaskRow} {r : UpdateTaskRequest} {scope : Option RecurrenceEditScope}
    (hsaved : row.recurrenceDefaults ≠ none) (hrec : row.recurrence ≠ .none)
    (hkept : scope = some .thisOccurrence ∨ (scope = none ∧ r.recurrence = row.recurrence))
    (h : prepare row r scope = .ok prepared) : prepared = row ∧ r.recurrence = row.recurrence := by
  unfold prepare at h
  by_cases hv : row.version = r.expectedVersion
  · rw [if_neg (not_not.2 hv)] at h
    by_cases hs : scope.isSome = true ∧ row.status = .completed
    · rw [if_pos hs] at h
      cases h
    · rw [if_neg hs] at h
      rcases hkept with rfl | ⟨rfl, hr⟩
      · by_cases hr : row.recurrence = .none ∨ r.recurrence ≠ row.recurrence
        · simp only [if_pos hr] at h
          cases h
        · simp only [if_neg hr, Option.isNone_eq_false_iff.2 (Option.isSome_iff_ne_none.2 hsaved)] at h
          cases h
          exact ⟨rfl, not_not.1 (not_or.1 hr).2⟩
      · simp only [hr, ne_eq, not_true_eq_false, false_or, if_neg hrec] at h
        cases h
        exact ⟨rfl, hr⟩
  · rw [if_pos hv] at h
    cases h

/-- An update leaves the projects, and draws fresh ids. -/
theorem Updated.projects {r : UpdateTaskRequest} {scope : Option RecurrenceEditScope} {updated : TaskRow}
    (hu : Updated toLowercase task r scope db db' row updated) :
    db'.projects = db.projects ∧ db.nextId ≤ db'.nextId := by
  obtain ⟨db₁, db₂, hreopen, hsync, hnext⟩ := hu.steps
  have h₁ : db₁.projects = db.projects ∧ db.nextId ≤ db₁.nextId := by
    rcases Db.ite_pure_ok hreopen with ⟨-, hremove⟩ | ⟨-, rfl⟩
    · rcases removeNextOccurrenceForReopen_ok hremove with ⟨-, rfl⟩ | ⟨_, -, -, -, rfl⟩
      · exact ⟨rfl, le_rfl⟩
      · exact ⟨rfl, le_rfl⟩
    · exact ⟨rfl, le_rfl⟩
  have h₂ : db₂.projects = db₁.projects ∧ db₁.nextId ≤ db₂.nextId := by
    have hbeside := beside_syncTaskCalendarEvent _ _ _ _ hsync
    exact ⟨hbeside.projects, hbeside.nextId⟩
  have h₃ : db'.projects = db₂.projects ∧ db₂.nextId ≤ db'.nextId := by
    rcases Db.ite_pure_ok hnext with ⟨-, hcreate⟩ | ⟨-, rfl⟩
    · obtain ⟨_, _, _, _, mid, -, -, -, -, -, -, rfl, hsync'⟩ := createNextRecurringTask_ok hcreate
      have hbeside := beside_syncTaskCalendarEvent _ _ _ _ hsync'
      exact ⟨hbeside.projects, (Nat.le_succ _).trans hbeside.nextId⟩
    · exact ⟨rfl, le_rfl⟩
  exact ⟨h₃.1.trans (h₂.1.trans h₁.1), h₁.2.trans (h₂.2.trans h₃.2)⟩

/-- Of the projects that were there, only those that still are remain. -/
theorem filter_filter_mem {o : Option Uuid} {l l' : List Uuid} (h : ∀ p, o = some p → p ∈ l' → p ∈ l) :
    (o.filter (· ∈ l)).filter (· ∈ l') = o.filter (· ∈ l') := by
  cases o with
  | none => rfl
  | some p =>
    by_cases hl : p ∈ l
    · simp [Option.filter, hl]
    · have hl' : p ∉ l' := fun hm => hl (h p rfl hm)
      simp [Option.filter, hl, hl']

section

variable (hv : db₀.TasksValid) (hused : ∀ p ∈ db₀.projects, p < db₀.nextId) (hfound : db₀.task? task = some row₀)
  (hplain : row₀.recurrenceDefaults = none)
include hv hused hfound hplain

/-- The first exception saves the task as it was. -/
theorem saved_first {r : UpdateTaskRequest} {a : Task}
    (h : updateTaskScoped toLowercase task r (some .thisOccurrence) db₀ = .ok (a, db)) :
    ∃ d, defaultsFromTask row₀.toTask = .ok d ∧ row₀.recurrence ≠ .none ∧ Saved task row₀ d db := by
  obtain ⟨row, updated, -, hu⟩ := updateTaskScoped_ok h
  obtain rfl : row₀ = row := Option.some.inj (hfound.symm.trans hu.found)
  obtain ⟨labels, prepared, -, hprepared, hupdated⟩ := hu.written
  obtain ⟨hrec, hr, d, hd, hp⟩ := prepare_first hplain hprepared
  obtain ⟨hmem, -⟩ := task?_mem hfound
  have hproject : ∀ p, row₀.projectId = some p → p ∈ db₀.projects := hv.project row₀ hmem
  refine ⟨d, hd, hrec, Db.tasksValid_updateTaskScoped hv h, ?_, updated, hu.task? hv.graph.ids, ?_, ?_, ?_⟩
  · intro p hp
    exact lt_of_lt_of_le (hused p (hproject p hp)) hu.projects.2
  · rw [hupdated, hp]
    rfl
  · rw [hupdated]
    exact hr
  · rw [hupdated, hp, hu.projects.1, filter_of_mem hproject]
    rfl

omit hv hused hfound hplain in
theorem Saved.edit {d : RecurrenceDefaults} {r : UpdateTaskRequest} {scope : Option RecurrenceEditScope}
    (hs : Saved task row₀ d db) (hrec : row₀.recurrence ≠ .none) (he : EditOf toLowercase task r scope db db' row) :
    Saved task row₀ d db' := by
  obtain ⟨a, h⟩ := he.done
  obtain ⟨found, hfound, hd, hrule, hproject⟩ := hs.row
  obtain ⟨row', updated, -, hu⟩ := updateTaskScoped_ok h
  obtain rfl : found = row' := Option.some.inj (hfound.symm.trans hu.found)
  obtain rfl : found = row := Option.some.inj (hfound.symm.trans he.found)
  obtain ⟨labels, prepared, -, hprepared, hupdated⟩ := hu.written
  obtain ⟨rfl, hr⟩ := prepare_later (by rw [hd]; simp) (by rw [hrule]; exact hrec) he.kept hprepared
  refine ⟨Db.tasksValid_updateTaskScoped hs.valid h, fun p hp => lt_of_lt_of_le (hs.used p hp) hu.projects.2, updated,
    hu.task? hs.valid.graph.ids, ?_, ?_, ?_⟩
  · rw [hupdated]
    exact hd
  · rw [hupdated]
    exact hr.trans hrule
  · rw [hupdated, hu.projects.1]
    exact hproject

omit hv hused hfound hplain in
theorem Saved.elsewhere {d : RecurrenceDefaults} (hs : Saved task row₀ d db) (he : Elsewhere task db db') :
    Saved task row₀ d db' := by
  obtain ⟨row, hfound, hd, hrule, hproject⟩ := hs.row
  obtain ⟨row', hfound', hrule', hd', hproject'⟩ := he.row row hfound
  refine ⟨he.valid, fun p hp => lt_of_lt_of_le (hs.used p hp) he.nextId, row', hfound', hd'.trans hd, hrule'.trans hrule, ?_⟩
  rw [hproject', hproject]
  refine filter_filter_mem fun p hp hmem => ?_
  -- a project that is there again would have a fresh id
  rcases he.projects p hmem with hold | hnew
  · exact hold
  · exact absurd (hs.used p hp) (Nat.not_lt.2 hnew)

theorem History.saved (h : History toLowercase task db₀ db) :
    ∃ d, defaultsFromTask row₀.toTask = .ok d ∧ row₀.recurrence ≠ .none ∧ Saved task row₀ d db := by
  induction h with
  | first h => exact saved_first hv hused hfound hplain h
  | edit _ he ih =>
    obtain ⟨d, hd, hrec, hs⟩ := ih
    exact ⟨d, hd, hrec, hs.edit hrec he⟩
  | elsewhere _ he ih =>
    obtain ⟨d, hd, hrec, hs⟩ := ih
    exact ⟨d, hd, hrec, hs.elsewhere he⟩

end

/-! ## The successor -/

/-- A task as the first exception found it, without its project if that is gone. -/
def original (row₀ : TaskRow) (db : Db) : Task := { row₀.toTask with projectId := row₀.projectId.filter (· ∈ db.projects) }

/-- The source of a task with saved defaults is the task they were taken from. -/
theorem follows_original {updated : TaskRow} {d : RecurrenceDefaults} (hd : defaultsFromTask row₀.toTask = .ok d)
    (hsaved : updated.recurrenceDefaults = some d)
    (hproject : updated.recurrenceProjectId = row₀.projectId.filter (· ∈ db.projects))
    (h : Follows (successorSource updated) next) : Follows (original row₀ db) next := by
  unfold defaultsFromTask at hd
  cases hdue : row₀.dueAt with
  | none =>
    rw [hdue] at hd
    cases hd
  | some dueAt =>
    rw [hdue] at hd
    cases hd
    unfold successorSource at h
    simp only [hsaved, hproject] at h
    obtain ⟨d, n, hd, hn, hs⟩ := h.dates
    exact ⟨h.projectId, h.title, h.description, h.priority, h.recurrence, h.labels, ⟨d, n, hdue.trans hd, hn, hs⟩,
      h.parentTaskId, h.todo, h.completedAt, h.version, h.recurrenceDefaults, h.recurrenceProjectId⟩

theorem Ending.follows (hv : db₀.TasksValid) (hused : ∀ p ∈ db₀.projects, p < db₀.nextId)
    (hfound : db₀.task? task = some row₀) (hplain : row₀.recurrenceDefaults = none)
    (h : Ending toLowercase task db₀ db next) : Follows (original row₀ db) next := by
  cases h with
  | atOnce he =>
    obtain ⟨a, hrun⟩ := he.edit.done
    obtain rfl := Option.some.inj (hfound.symm.trans he.edit.found)
    obtain ⟨row, updated, -, hu⟩ := updateTaskScoped_ok hrun
    obtain rfl := Option.some.inj (hfound.symm.trans hu.found)
    obtain ⟨-, prepared', -, hprepared', -⟩ := hu.written
    obtain ⟨hrec, hr, -⟩ := prepare_first hplain hprepared'
    obtain ⟨labels, prepared, -, hprepared, hf⟩ :=
      completes_next hfound he.unfinished he.completed (by rw [hr]; exact hrec) hrun he.next.1 he.next.2
    obtain ⟨-, -, d, hd, rfl⟩ := prepare_first hplain hprepared
    refine follows_original hd rfl ?_ hf
    exact (filter_of_mem fun p hp => hv.project row₀ (task?_mem hfound).1 p hp).symm
  | later hh he =>
    obtain ⟨d, hd, hrec, hs⟩ := hh.saved hv hused hfound hplain
    obtain ⟨found, hf, hsaved, hrule, hproject⟩ := hs.row
    obtain ⟨a, hrun⟩ := he.edit.done
    obtain rfl := Option.some.inj (hf.symm.trans he.edit.found)
    obtain ⟨row, updated, -, hu⟩ := updateTaskScoped_ok hrun
    obtain rfl := Option.some.inj (hf.symm.trans hu.found)
    obtain ⟨-, prepared', -, hprepared', -⟩ := hu.written
    obtain ⟨-, hr⟩ := prepare_later (by rw [hsaved]; simp) (by rw [hrule]; exact hrec) he.edit.kept hprepared'
    obtain ⟨labels, prepared, -, hprepared, hfollows⟩ :=
      completes_next hf he.unfinished he.completed (by rw [hr, hrule]; exact hrec) hrun he.next.1 he.next.2
    obtain ⟨rfl, -⟩ := prepare_later (by rw [hsaved]; simp) (by rw [hrule]; exact hrec) he.edit.kept hprepared
    refine follows_original hd ?_ ?_ hfollows
    · exact hsaved
    · exact hproject

theorem Ending.source (h : Ending toLowercase task db₀ db next) : next.recurrenceSourceId = some task := by
  cases h with
  | atOnce he => exact he.next.2
  | later _ he => exact he.next.2

/-- Equal but for identity, position and timestamps. -/
def Alike (next next' : TaskRow) : Prop :=
  next' = { next with
    id := next'.id, position := next'.position, createdAt := next'.createdAt, updatedAt := next'.updatedAt }

/-- Two successors of one task that follow the same source are alike. -/
theorem Follows.alike {source : Task} (h : Follows source next) (h' : Follows source next')
    (hsource : next'.recurrenceSourceId = next.recurrenceSourceId) : Alike next next' := by
  obtain ⟨dueAt, n, hd, hn, hdue, hstart, hend, hremind, -⟩ := h.dates
  obtain ⟨dueAt', n', hd', hn', hdue', hstart', hend', hremind', -⟩ := h'.dates
  obtain rfl := Option.some.inj (hd.symm.trans hd')
  obtain rfl := Except.ok.inj (hn.symm.trans hn')
  obtain ⟨⟨_, _, _, _, _, _, _, _, _, _, _, _, _, _, _, _, _, _⟩, _, _, _⟩ := next'
  unfold Alike
  simp only [TaskRow.mk.injEq, Task.mk.injEq, true_and]
  exact ⟨⟨h'.projectId.trans h.projectId.symm, h'.parentTaskId.trans h.parentTaskId.symm, h'.title.trans h.title.symm,
    h'.description.trans h.description.symm, hdue'.trans hdue.symm, hstart'.trans hstart.symm, hend'.trans hend.symm,
    h'.todo.trans h.todo.symm, h'.priority.trans h.priority.symm, h'.recurrence.trans h.recurrence.symm,
    h'.labels.trans h.labels.symm, hremind'.trans hremind.symm, h'.completedAt.trans h.completedAt.symm,
    h'.version.trans h.version.symm⟩, hsource, h'.recurrenceDefaults.trans h.recurrenceDefaults.symm,
    h'.recurrenceProjectId.trans h.recurrenceProjectId.symm⟩

/-! ## Edits of this and all future occurrences -/

/-- Such an edit drops the exception. -/
theorem prepare_future {prepared : TaskRow} {r : UpdateTaskRequest} (h : prepare row r (some .thisAndFuture) = .ok prepared) :
    row.status ≠ .completed ∧ prepared = { row with recurrenceDefaults := none, recurrenceProjectId := none } := by
  unfold prepare at h
  by_cases hv : row.version = r.expectedVersion
  · rw [if_neg (not_not.2 hv)] at h
    by_cases hs : (some RecurrenceEditScope.thisAndFuture).isSome = true ∧ row.status = .completed
    · rw [if_pos hs] at h
      cases h
    · rw [if_neg hs] at h
      cases h
      exact ⟨fun hdone => hs ⟨rfl, hdone⟩, rfl⟩
  · rw [if_pos hv] at h
    cases h

/-- Completed by the edit itself, the task has a successor that follows the edited values. -/
theorem future_now {r : UpdateTaskRequest} {a : Task} (hdone : r.status = .completed) (hrec : r.recurrence ≠ .none)
    (h : updateTaskScoped toLowercase task r (some .thisAndFuture) db = .ok (a, db')) (hnext : next ∈ db'.tasks)
    (hsource : next.recurrenceSourceId = some task) : Follows a next := by
  obtain ⟨row, updated, rfl, hu⟩ := updateTaskScoped_ok h
  obtain ⟨labels, prepared, hlabels, hprepared, hupdated⟩ := hu.written
  obtain ⟨hopen, -⟩ := prepare_future hprepared
  obtain ⟨labels', prepared', hlabels', hprepared', hf⟩ := completes_next hu.found hopen hdone hrec h hnext hsource
  obtain rfl := Except.ok.inj (hlabels.symm.trans hlabels')
  obtain rfl := Except.ok.inj (hprepared.symm.trans hprepared')
  obtain ⟨-, rfl⟩ := prepare_future hprepared
  rw [← hupdated, successorSource_plain (by rw [hupdated]; rfl)] at hf
  exact hf

/-- Completed later as it is, it has such a successor too. -/
theorem future_later (hlower : Settles toLowercase) {db₁ db₂ : Db} {r : UpdateTaskRequest} {a b : Task} {row₁ : TaskRow}
    (hv : db.TasksValid) (hrec : r.recurrence ≠ .none) (hopen : r.status ≠ .completed)
    (h : updateTaskScoped toLowercase task r (some .thisAndFuture) db = .ok (a, db₁)) (hrow : db₁.task? task = some row₁)
    (hsame : db₂.task? task = some row₁) (hdone : updateTask toLowercase task (completion row₁) db₂ = .ok (b, db'))
    (hnext : next ∈ db'.tasks) (hsource : next.recurrenceSourceId = some task) : Follows a next := by
  obtain ⟨row, updated, rfl, hu⟩ := updateTaskScoped_ok h
  obtain rfl : updated = row₁ := Option.some.inj ((hu.task? hv.graph.ids).symm.trans hrow)
  obtain ⟨labels, prepared, hlabels, hprepared, hupdated⟩ := hu.written
  obtain ⟨-, rfl⟩ := prepare_future hprepared
  have hrecurs : updated.recurrence ≠ .none := by
    rw [hupdated]
    exact hrec
  obtain ⟨labels', prepared', hlabels', hprepared', hf⟩ :=
    completes_next hsame (by rw [hupdated]; exact hopen) rfl hrecurs hdone hnext hsource
  obtain rfl := prepare_completion hrecurs hprepared'
  have hplain : prepared'.recurrenceDefaults = none := by
    rw [hupdated]
    rfl
  rw [successorSource_plain (show (updatedTask _ _ prepared' _ prepared').recurrenceDefaults = none from hplain)] at hf
  -- what is written is what the edit had written: trimmed texts and normal labels
  have htitle : trim prepared'.title = prepared'.title := by
    rw [hupdated]
    exact trim_trim r.title
  have hdescription : trim prepared'.description = prepared'.description := by
    rw [hupdated]
    exact trim_trim r.description
  have hnormal : labels' = prepared'.labels := by
    have hidem : validateLabels toLowercase prepared'.labels = .ok prepared'.labels := by
      rw [hupdated]
      exact validateLabels_idem hlower hlabels
    exact Except.ok.inj (hlabels'.symm.trans hidem)
  exact ⟨hf.projectId, hf.title.trans htitle, hf.description.trans hdescription, hf.priority, hf.recurrence,
    hf.labels.trans hnormal, hf.dates, hf.parentTaskId, hf.todo, hf.completedAt, hf.version, hf.recurrenceDefaults,
    hf.recurrenceProjectId⟩

/-! ## One-occurrence edits never leak -/

/-- The successor follows what the first exception found, whatever was edited since; so histories
that begin with the same task end with like successors. An edit of this and all future occurrences
is followed instead. -/
theorem exceptions_never_leak (hv : db₀.TasksValid) (hused : ∀ p ∈ db₀.projects, p < db₀.nextId)
    (hfound : db₀.task? task = some row₀) (hplain : row₀.recurrenceDefaults = none) :
    (∀ db next, Ending toLowercase task db₀ db next → Follows (original row₀ db) next) ∧
    (∀ db db' next next', Ending toLowercase task db₀ db next → Ending toLowercase task db₀ db' next' →
      (∀ p, row₀.projectId = some p → (p ∈ db.projects ↔ p ∈ db'.projects)) → Alike next next') ∧
    (∀ db db₁ r a, db.TasksValid → r.recurrence ≠ .none →
      updateTaskScoped toLowercase task r (some .thisAndFuture) db = .ok (a, db₁) →
      (r.status = .completed → ∀ next ∈ db₁.tasks, next.recurrenceSourceId = some task → Follows a next) ∧
      (r.status ≠ .completed → Settles toLowercase → ∀ db₂ db₃ row₁ b, db₁.task? task = some row₁ →
        db₂.task? task = some row₁ → updateTask toLowercase task (completion row₁) db₂ = .ok (b, db₃) →
        ∀ next ∈ db₃.tasks, next.recurrenceSourceId = some task → Follows a next)) := by
  refine ⟨fun db next h => h.follows hv hused hfound hplain, fun db db' next next' h h' hprojects => ?_,
    fun db db₁ r a hdb hrec hrun => ⟨fun hdone next hnext hsource => ?_, fun hopen hlower db₂ db₃ row₁ b => ?_⟩⟩
  · have hsame : original row₀ db = original row₀ db' := by
      unfold original
      cases hp : row₀.projectId with
      | none => rfl
      | some p => simp only [Option.filter, hprojects p hp]
    have hf' := h'.follows hv hused hfound hplain
    rw [← hsame] at hf'
    exact (h.follows hv hused hfound hplain).alike hf' (h'.source.trans h.source.symm)
  · exact future_now hdone hrec hrun hnext hsource
  · intro hrow hsame hdone next hnext hsource
    exact future_later hlower hdb hrec hopen hrun hrow hsame hdone hnext hsource

/-- `standup` with another title for one day. -/
def retro : UpdateTaskRequest := { completion standup with title := "Retro", status := .todo }

def retroRow : TaskRow :=
  { standup with
    title := "Retro"
    version := 2
    recurrenceDefaults := some {
      title := "Stand-up", description := "", dueAt := 0, scheduledStart := none, scheduledEnd := none,
      priority := .medium, recurrence := .daily, labels := [], remindAt := none } }

def retroTables : Db := (Tx.commit (updateTaskScoped (fun s => s) 1 retro (some .thisOccurrence)) (soloTables standup)).2

def retroDone : Db := (Tx.commit (updateTask (fun s => s) 1 (completion retroRow)) retroTables).2

/-- The next day. -/
def nextStandup : TaskRow :=
  { standup with id := 2, dueAt := some usPerDay, position := 2048, recurrenceSourceId := some 1 }

theorem ending_standup : Ending (fun s => s) 1 (soloTables standup) retroTables nextStandup := by
  have hedit : updateTaskScoped (fun s => s) 1 retro (some .thisOccurrence) (soloTables standup) =
      .ok (retroRow.toTask, retroTables) := by decide +kernel
  have hdone : updateTaskScoped (fun s => s) 1 (completion retroRow) none retroTables =
      .ok ({ retroRow.toTask with status := .completed, completedAt := some 0, version := 3 }, retroDone) := by decide +kernel
  exact .later (.first hedit)
    ⟨⟨by decide +kernel, .inr ⟨rfl, rfl⟩, _, hdone⟩, by decide, rfl, by decide +kernel, rfl⟩

theorem exceptions_never_leak_standup : Follows (original standup retroTables) nextStandup :=
  (exceptions_never_leak stored_standup.tasks (by intro p hp; cases hp) rfl rfl).1 _ _ ending_standup

end Store

end Prosepect
